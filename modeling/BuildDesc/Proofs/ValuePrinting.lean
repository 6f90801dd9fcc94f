import BuildDesc.Proofs.Literals
import BuildDesc.Proofs.ValueGrammar

namespace BuildDesc

namespace Dict

variable {α : Type} {es fs : List (String × α)}

theorem insertEntry_eq_append {k : String} (v : α) (h : k ∉ es.map Prod.fst) :
    insertEntry k v es = es ++ [(k, v)] := by
  induction es with
  | nil => rfl
  | cons e es ih =>
    rw [List.map_cons, List.mem_cons, not_or] at h
    rw [insertEntry, if_neg (Ne.symm h.1), ih h.2]
    rfl

theorem foldl_insert_eq_append (h : ((es ++ fs).map Prod.fst).Nodup) :
    fs.foldl (fun (d : Dict α) e => d.insert e.1 e.2) ⟨es⟩ = ⟨es ++ fs⟩ := by
  induction fs generalizing es with
  | nil => rw [List.foldl_nil, List.append_nil]
  | cons f fs ih =>
    have hf : f.1 ∉ es.map Prod.fst := by
      rw [List.map_append, List.nodup_append] at h
      exact fun hm => h.2.2 f.1 hm f.1 List.mem_cons_self rfl
    have hinsert : insert ⟨es⟩ f.1 f.2 = ⟨es ++ [f]⟩ :=
      congrArg mk (insertEntry_eq_append f.2 hf)
    rw [List.append_cons] at h
    rw [List.foldl_cons, hinsert, ih h, List.append_cons es f fs]

theorem ofList_eq_of_nodup (h : (es.map Prod.fst).Nodup) : ofList es = ⟨es⟩ :=
  foldl_insert_eq_append h

end Dict

namespace Value

/-- Holds of the values in which no mapping, at any depth, has a key twice. -/
inductive DistinctKeys : Value → Prop
  | text (s : String) : DistinctKeys (.text s)
  | integer (n : Int64) : DistinctKeys (.integer n)
  | boolean (b : Bool) : DistinctKeys (.boolean b)
  | null : DistinctKeys .null
  | list {vs} (h : ∀ v ∈ vs, DistinctKeys v) : DistinctKeys (.list vs)
  | mapping {block} (hk : block.keys.Nodup) (h : ∀ e ∈ block.entries, DistinctKeys e.2) :
    DistinctKeys (.mapping block)

def Blanks (g : List Char) : Prop :=
  ∀ c ∈ g, Layout.isBlank c = true

theorem blanks_nil : Blanks [] :=
  List.forall_mem_nil _

theorem blanks_space : Blanks [' '] :=
  List.forall_mem_singleton.2 rfl

mutual

/-- The written forms of a value. -/
inductive Prints : Value → List Char → Prop
  | text {q} (hq : Quoted.isQuote q = true) (x : String) : Prints (.text x) (Quoted.write q x)
  | integer (n : Int64) : Prints (.integer n) (Numeral.write n)
  | true : Prints (.boolean true) "True".toList
  | false : Prints (.boolean false) "False".toList
  | null : Prints .null "None".toList
  | list {vs s} (h : PrintsItems vs s) : Prints (.list vs) ('[' :: (s ++ [']']))
  | mapping {es s} (h : PrintsEntries es s) : Prints (.mapping ⟨es⟩) ('\x7b' :: (s ++ ['\x7d']))

/-- The items of a list, each behind blanks, with commas between them and perhaps one behind the
last. -/
inductive PrintsItems : List Value → List Char → Prop
  | nil : PrintsItems [] []
  | last {v g s} (hg : Blanks g) (h : Prints v s) : PrintsItems [v] (g ++ s)
  | cons {v vs g s t} (hg : Blanks g) (h : Prints v s) (hs : PrintsItems vs t) :
    PrintsItems (v :: vs) (g ++ (s ++ ',' :: t))

/-- The entries of a mapping, each behind blanks, with commas between them and perhaps one behind
the last. -/
inductive PrintsEntries : List (String × Value) → List Char → Prop
  | nil : PrintsEntries [] []
  | last {k v g s} (hg : Blanks g) (h : PrintsEntry k v s) : PrintsEntries [(k, v)] (g ++ s)
  | cons {k v es g s t} (hg : Blanks g) (h : PrintsEntry k v s) (hs : PrintsEntries es t) :
    PrintsEntries ((k, v) :: es) (g ++ (s ++ ',' :: t))

inductive PrintsEntry : String → Value → List Char → Prop
  | mk {q k v g s} (hq : Quoted.isQuote q = true) (hg : Blanks g) (h : Prints v s) :
    PrintsEntry k v (Quoted.write q k ++ ':' :: (g ++ s))

end

section Existence

mutual

theorem exists_prints : ∀ v : Value, ∃ s, Prints v s
  | text x => ⟨_, .text (q := '"') rfl x⟩
  | integer n => ⟨_, .integer n⟩
  | boolean true => ⟨_, .true⟩
  | boolean false => ⟨_, .false⟩
  | null => ⟨_, .null⟩
  | list items => by
    obtain ⟨s, hs⟩ := exists_printsItems items
    exact ⟨_, .list hs⟩
  | mapping ⟨es⟩ => by
    obtain ⟨s, hs⟩ := exists_printsEntries es
    exact ⟨_, .mapping hs⟩

theorem exists_printsItems : ∀ vs : List Value, ∃ s, PrintsItems vs s
  | [] => ⟨_, .nil⟩
  | v :: vs => by
    obtain ⟨s, hs⟩ := exists_prints v
    obtain ⟨t, ht⟩ := exists_printsItems vs
    exact ⟨_, .cons blanks_nil hs ht⟩

theorem exists_printsEntries : ∀ es : List (String × Value), ∃ s, PrintsEntries es s
  | [] => ⟨_, .nil⟩
  | (k, v) :: es => by
    obtain ⟨s, hs⟩ := exists_prints v
    obtain ⟨t, ht⟩ := exists_printsEntries es
    have hentry : PrintsEntry k v (Quoted.write '"' k ++ ':' :: ([] ++ s)) := .mk rfl blanks_nil hs
    exact ⟨_, .cons blanks_nil hentry ht⟩

end

end Existence

section Derivation

variable {g s t : List Char} {q : Char} {v : Value}

theorem Blanks.gap (h : Blanks g) (t : List Char) : Layout.Gap (g ++ t) t := by
  induction g with
  | nil => exact .nil t
  | cons c g ih =>
    have hg := List.forall_mem_cons.1 h
    exact .blank hg.1 (ih hg.2)

theorem isQuoted_write (hq : Quoted.isQuote q = true) (x : String) (t : List Char) :
    IsQuoted (Quoted.write q x ++ t) t x := by
  have hquoted : IsQuoted (q :: Quoted.escape q x.toList ++ q :: t) t (String.ofList x.toList) :=
    .mk hq (Quoted.writes_escape hq x.toList)
  rw [String.ofList_toList, List.append_cons] at hquoted
  exact hquoted

theorem IsCore.isValue (h : IsCore s t v) (hg : Blanks g) : IsValue (g ++ s) t v :=
  .mk (hg.gap s) h (.nil t)

-- The recursion is on the written form. What follows it does not matter: the grammar leaves it.
mutual

theorem Prints.isCore {v : Value} {s : List Char} (h : Prints v s) (hv : v.DistinctKeys)
    (t : List Char) : IsCore (s ++ t) t v := by
  match h, hv with
  | .text hq x, _ => exact .text (.single (isQuoted_write hq x t))
  | .integer n, _ => exact .integer t (Numeral.spells_write n)
  | .true, _ => exact .true t
  | .false, _ => exact .false t
  | .null, _ => exact .null t
  | .list h, .list hvs =>
    rw [List.cons_append, List.append_assoc]
    exact .list (h.isItems hvs (']' :: t))
  | .mapping h, .mapping hk hes =>
    rw [List.cons_append, List.append_assoc, ← Dict.ofList_eq_of_nodup hk]
    exact .mapping (h.isEntries hes ('\x7d' :: t))
termination_by structural h

theorem PrintsItems.isItems {vs : List Value} {s : List Char} (h : PrintsItems vs s)
    (hvs : ∀ v ∈ vs, v.DistinctKeys) (t : List Char) : IsItems (s ++ t) t vs := by
  match h with
  | .nil => exact .nil (.nil t)
  | .last hg h =>
    rw [List.forall_mem_singleton] at hvs
    rw [List.append_assoc]
    exact .last ((h.isCore hvs t).isValue hg) (.nil t)
  | .cons hg h hs =>
    rw [List.forall_mem_cons] at hvs
    rw [List.append_assoc, List.append_assoc, List.cons_append]
    exact .cons ((h.isCore hvs.1 _).isValue hg) (hs.isItems hvs.2 t)
termination_by structural h

theorem PrintsEntries.isEntries {es : List (String × Value)} {s : List Char}
    (h : PrintsEntries es s) (hes : ∀ e ∈ es, e.2.DistinctKeys) (t : List Char) :
    IsEntries (s ++ t) t es := by
  match h with
  | .nil => exact .nil (.nil t)
  | .last hg h =>
    rw [List.forall_mem_singleton] at hes
    rw [List.append_assoc]
    exact .last (h.isEntry hes hg t) (.nil t)
  | .cons hg h hs =>
    rw [List.forall_mem_cons] at hes
    rw [List.append_assoc, List.append_assoc, List.cons_append]
    exact .cons (h.isEntry hes.1 hg _) (hs.isEntries hes.2 t)
termination_by structural h

theorem PrintsEntry.isEntry {k : String} {v : Value} {s g : List Char} (h : PrintsEntry k v s)
    (hv : v.DistinctKeys) (hg : Blanks g) (t : List Char) : IsEntry (g ++ (s ++ t)) t k v := by
  match h with
  | .mk hq hg' h =>
    rw [List.append_assoc, List.cons_append, List.append_assoc]
    exact .mk (hg.gap _) (isQuoted_write hq k _) (.nil _) ((h.isCore hv t).isValue hg')
termination_by structural h

end

end Derivation

theorem Prints.parse_eq {v : Value} {s : String} (h : Prints v s.toList) (hv : v.DistinctKeys) :
    parse s = .ok v := by
  have hcore := h.isCore hv []
  rw [List.append_nil] at hcore
  have hdenotes : Denotes s v := .mk (.nil _) hcore (.nil [])
  rw [parse, ofText?_eq_some_iff.2 hdenotes]
  rfl

/-- A value without repeated keys can be written, and is read back from whatever is written for
it. -/
theorem parse_of_prints (v : Value) (hv : v.DistinctKeys) :
    (∃ s : String, Prints v s.toList) ∧ ∀ s : String, Prints v s.toList → parse s = .ok v := by
  apply And.intro
  · obtain ⟨s, hs⟩ := exists_prints v
    rw [← String.toList_ofList (l := s)] at hs
    exact ⟨_, hs⟩
  · exact fun s hs => hs.parse_eq hv

def sampleItems : List Value :=
  [.text "a'\x00\\\n#", .integer (-5)]

def sample : Value :=
  .mapping ⟨[("k\"", .list sampleItems), ("", .mapping ∅)]⟩

def sampleText : String :=
  "\x7b\"k\\\"\": ['a\\'\x00\\\\\n#', -5,], '': \x7b\x7d\x7d"

theorem parse_of_prints_sample :
    sample.DistinctKeys ∧ Prints sample sampleText.toList ∧ parse sampleText = .ok sample := by
  have hitemKeys : ∀ v ∈ sampleItems, v.DistinctKeys := by
    simp only [sampleItems, List.forall_mem_cons]
    exact ⟨.text _, .integer _, List.forall_mem_nil _⟩
  have hkeys : sample.DistinctKeys := by
    apply DistinctKeys.mapping (by decide)
    simp only [List.forall_mem_cons]
    exact ⟨.list hitemKeys, .mapping .nil (List.forall_mem_nil _), List.forall_mem_nil _⟩
  have hitems : PrintsItems sampleItems _ :=
    .cons blanks_nil (.text (q := '\'') rfl _) (.cons blanks_space (.integer (-5)) .nil)
  have hentries : PrintsEntries [("k\"", .list sampleItems), ("", .mapping ∅)] _ :=
    .cons blanks_nil (.mk (q := '"') rfl blanks_space (.list hitems))
      (.last blanks_space (.mk (q := '\'') rfl blanks_space (.mapping .nil)))
  have hprints : Prints sample sampleText.toList := .mapping hentries
  exact ⟨hkeys, hprints, (parse_of_prints sample hkeys).2 sampleText hprints⟩

end Value

end BuildDesc
