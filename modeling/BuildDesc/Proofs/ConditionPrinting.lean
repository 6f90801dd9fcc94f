import BuildDesc.Proofs.ConditionText
import BuildDesc.Proofs.Literals
import BuildDesc.Proofs.Noninterference

namespace BuildDesc

def Comparison.symbol : Comparison → List Char
  | equal => "==".toList
  | notEqual => "!=".toList
  | member => "in".toList
  | notMember => "not in".toList

namespace Condition

section Forms

/-- How tightly the outermost part of a condition holds together: `or` binds least, then `and`, then
`not` and comparisons, and what has no operands most. -/
def tightness : Condition → Nat
  | or _ _ => 0
  | and _ _ => 1
  | not _ | compare _ _ _ => 2
  | text _ | integer _ | boolean _ | name _ | list _ => 3

/-- The text `s` of a condition in a place for conditions of tightness `k` or more: in parentheses
if the condition is looser, or in any case if `all` is set. -/
def place (all : Bool) (k : Nat) (c : Condition) (s : List Char) : List Char :=
  if all || c.tightness < k then '(' :: (s ++ [')']) else s

def infixed (s w t : List Char) : List Char :=
  s ++ ' ' :: (w ++ ' ' :: t)

mutual

/-- The written form of a condition, without parentheses around the whole. -/
def write (all : Bool) : Condition → List Char
  | text s => Quoted.write '"' s
  | integer n => Numeral.write n
  | boolean true => "True".toList
  | boolean false => "False".toList
  | name x => x.toList
  | list items => '[' :: (writeItems all items ++ [']'])
  | compare lhs op rhs =>
    infixed (place all 3 lhs (write all lhs)) op.symbol (place all 3 rhs (write all rhs))
  | not c => "not".toList ++ ' ' :: place all 2 c (write all c)
  | and lhs rhs =>
    infixed (place all 1 lhs (write all lhs)) "and".toList (place all 2 rhs (write all rhs))
  | or lhs rhs =>
    infixed (place all 0 lhs (write all lhs)) "or".toList (place all 1 rhs (write all rhs))

def writeItems (all : Bool) : List Condition → List Char
  | [] => []
  | [c] => place all 0 c (write all c)
  | c :: d :: ds => place all 0 c (write all c) ++ ',' :: ' ' :: writeItems all (d :: ds)

end

def print (all : Bool) (c : Condition) : String :=
  String.ofList (write all c)

end Forms

def IsName (x : String) : Prop :=
  Word.IsWord x.toList ∧ x ∉ reserved

instance : DecidablePred IsName :=
  fun x => inferInstanceAs (Decidable (Word.IsWord x.toList ∧ x ∉ reserved))

section Scanning

/-- Holds of a text that no word goes on in. -/
def Breaks (s : List Char) : Prop :=
  ∀ c ∈ s.head?, Word.isTail c = false

/-- Holds of a text that splits into tokens wherever it stands, if no word in front of it or at its
end goes on. -/
def Scans (s : List Char) (ts : List (Token Sign)) : Prop :=
  ∀ rest us, Breaks rest → orthography.Splits rest us → orthography.Splits (s ++ rest) (ts ++ us)

variable {s t w rest : List Char} {ts us ws : List (Token Sign)} {c : Char}

theorem breaks_nil : Breaks [] := by
  intro c hc
  cases hc

theorem breaks_cons (h : Word.isTail c = false) (s : List Char) : Breaks (c :: s) := by
  intro d hd
  cases hd
  exact h

theorem Breaks.append (hs : Breaks s) (hr : Breaks rest) : Breaks (s ++ rest) := by
  cases s with
  | nil => exact hr
  | cons c s => exact breaks_cons (hs c rfl) (s ++ rest)

theorem splits_space (h : orthography.Splits s ts) : orthography.Splits (' ' :: s) ts := by
  cases h with
  | nil hg =>
    apply Orthography.Splits.nil
    exact List.forall_mem_cons.2 ⟨rfl, hg⟩
  | cons hg hs h =>
    apply Orthography.Splits.cons (g := ' ' :: _) _ hs h
    exact List.forall_mem_cons.2 ⟨rfl, hg⟩

theorem scans_spelling {u : Token Sign} (h : ∀ rest, Breaks rest → Spelling Sign.spell u s rest) :
    Scans s [u] := by
  intro rest us hb hr
  have hgap : orthography.Gap [] (s ++ rest) := List.forall_mem_nil _
  exact .cons hgap (h rest hb) hr

theorem scans_sign (u : Sign) : Scans u.spell [.sign u] :=
  scans_spelling fun rest _ => .sign u rest

theorem scans_word {x : String} (h : Word.IsWord x.toList) : Scans x.toList [.word x] := by
  have hspell : ∀ rest, Breaks rest →
      Spelling Sign.spell (.word (String.ofList x.toList)) x.toList rest :=
    fun rest hb => .word h hb
  rw [String.ofList_toList] at hspell
  exact scans_spelling hspell

theorem scans_nil : Scans [] [] :=
  fun _ _ _ h => h

theorem Scans.append (hs : Scans s ts) (ht : Scans t us) (hb : Breaks t) :
    Scans (s ++ t) (ts ++ us) := by
  intro rest vs hr h
  rw [List.append_assoc, List.append_assoc]
  exact hs _ _ (hb.append hr) (ht rest vs hr h)

theorem Scans.cons_space (h : Scans s ts) : Scans (' ' :: s) ts :=
  fun rest us hb hr => splits_space (h rest us hb hr)

theorem Scans.cons_sign (u : Sign) (h : Scans s ts) : Scans (u.spell ++ s) (.sign u :: ts) := by
  intro rest us hb hr
  have hgap : orthography.Gap [] (u.spell ++ (s ++ rest)) := List.forall_mem_nil _
  have hsplits := Orthography.Splits.cons hgap (.sign u (s ++ rest)) (h rest us hb hr)
  rwa [List.append_assoc]

theorem Scans.cons_word {x : String} (hx : Word.IsWord x.toList) (h : Scans s ts) :
    Scans (x.toList ++ ' ' :: s) (.word x :: ts) :=
  (scans_word hx).append h.cons_space (breaks_cons rfl s)

theorem Scans.infixed (hs : Scans s ts) (hw : Scans w ws) (ht : Scans t us) :
    Scans (infixed s w t) (ts ++ (ws ++ us)) := by
  have hwt : Scans (w ++ ' ' :: t) (ws ++ us) := hw.append ht.cons_space (breaks_cons rfl t)
  exact hs.append hwt.cons_space (breaks_cons rfl _)

end Scanning

section Reading

/-- Holds of the conditions that the grammar derives in a place for conditions of tightness `k` or
more. -/
def Derives : Nat → List (Token Sign) → Condition → Prop
  | 0 => IsOr
  | 1 => IsAnd
  | 2 => IsNot
  | _ => IsOperand

/-- Holds of a text that, wherever it stands, splits into tokens from which the grammar derives a
condition of tightness `k` or more. -/
def Reads (k : Nat) (s : List Char) (c : Condition) : Prop :=
  ∃ ts, Scans s ts ∧ Derives k ts c

/-- Holds of a text that, wherever it stands, splits into tokens from which the grammar derives the
items of a list. -/
def ReadsItems (s : List Char) (cs : List Condition) : Prop :=
  ∃ ts, Scans s ts ∧ IsItems ts cs

variable {s t : List Char} {ts : List (Token Sign)} {a b c : Condition} {cs : List Condition}
  {k : Nat}

theorem isWord_and : Word.IsWord "and".toList := by
  decide

theorem isWord_or : Word.IsWord "or".toList := by
  decide

theorem isWord_not : Word.IsWord "not".toList := by
  decide

theorem isWord_in : Word.IsWord "in".toList := by
  decide

theorem Derives.loosen (h : Derives (k + 1) ts c) : Derives k ts c := by
  match k with
  | 0 => exact .single h
  | 1 => exact .single h
  | 2 => exact .compare (.single h)
  | _ + 3 => exact h

theorem Reads.of_le {j : Nat} (hj : j ≤ k) (h : Reads k s c) : Reads j s c := by
  obtain ⟨ts, hs, hd⟩ := h
  refine ⟨ts, hs, ?_⟩
  induction hj with
  | refl => exact hd
  | step _ ih => exact ih hd.loosen

theorem reads_text (s : String) : Reads 3 (Quoted.write '"' s) (.text s) := by
  have hspell : ∀ rest, Breaks rest →
      Spelling Sign.spell (.quoted (String.ofList s.toList)) (Quoted.write '"' s) rest :=
    fun rest _ => .quoted rfl (Quoted.writes_escape rfl s.toList)
  rw [String.ofList_toList] at hspell
  exact ⟨_, scans_spelling hspell, .text s⟩

theorem reads_integer (n : Int64) : Reads 3 (Numeral.write n) (.integer n) :=
  ⟨_, scans_spelling fun _ _ => .numeral (Numeral.spells_write n), .integer n⟩

theorem reads_word {w : String} (hw : Word.IsWord w.toList) (h : IsOperand [.word w] c) :
    Reads 3 w.toList c :=
  ⟨_, scans_word hw, h⟩

theorem Reads.group (h : Reads 0 s c) : Reads 3 ('(' :: (s ++ [')'])) c := by
  obtain ⟨ts, hs, hd⟩ := h
  have hclose : Scans (s ++ [')']) (ts ++ [.sign .closeGroup]) :=
    hs.append (scans_sign .closeGroup) (breaks_cons rfl [])
  exact ⟨_, hclose.cons_sign .openGroup, .group hd⟩

/-- Parentheses let a condition stand where it would be too loose without them. -/
theorem Reads.place (all : Bool) (hk : k ≤ 3) (h : Reads c.tightness s c) :
    Reads k (place all k c s) c := by
  rw [Condition.place]
  split
  · exact (h.of_le (Nat.zero_le _)).group.of_le hk
  · next hfits =>
    rw [Bool.or_eq_true, not_or, decide_eq_true_eq, Nat.not_lt] at hfits
    exact h.of_le hfits.2

theorem Reads.not (h : Reads 2 s c) : Reads 2 ("not".toList ++ ' ' :: s) (.not c) := by
  obtain ⟨ts, hs, hd⟩ := h
  exact ⟨_, hs.cons_word isWord_not, IsNot.not hd⟩

theorem Reads.and (ha : Reads 1 s a) (hb : Reads 2 t b) :
    Reads 1 (infixed s "and".toList t) (.and a b) := by
  obtain ⟨ts, hs, ha⟩ := ha
  obtain ⟨us, ht, hb⟩ := hb
  exact ⟨_, hs.infixed (scans_word isWord_and) ht, IsAnd.and ha hb⟩

theorem Reads.or (ha : Reads 0 s a) (hb : Reads 1 t b) :
    Reads 0 (infixed s "or".toList t) (.or a b) := by
  obtain ⟨ts, hs, ha⟩ := ha
  obtain ⟨us, ht, hb⟩ := hb
  exact ⟨_, hs.infixed (scans_word isWord_or) ht, IsOr.or ha hb⟩

theorem scans_symbol (op : Comparison) : ∃ ws, Scans op.symbol ws ∧ IsOperator ws op := by
  cases op with
  | equal => exact ⟨_, scans_sign .equal, .equal⟩
  | notEqual => exact ⟨_, scans_sign .notEqual, .notEqual⟩
  | member => exact ⟨_, scans_word isWord_in, .member⟩
  | notMember => exact ⟨_, (scans_word isWord_in).cons_word isWord_not, .notMember⟩

theorem Reads.compare (op : Comparison) (ha : Reads 3 s a) (hb : Reads 3 t b) :
    Reads 2 (infixed s op.symbol t) (.compare a op b) := by
  obtain ⟨ts, hs, ha⟩ := ha
  obtain ⟨us, ht, hb⟩ := hb
  obtain ⟨ws, hw, ho⟩ := scans_symbol op
  exact ⟨_, hs.infixed hw ht, IsNot.compare (.compare ha ho hb)⟩

theorem readsItems_nil : ReadsItems [] [] :=
  ⟨[], scans_nil, .nil⟩

theorem readsItems_singleton (h : Reads 0 s c) : ReadsItems s [c] := by
  obtain ⟨ts, hs, hd⟩ := h
  exact ⟨ts, hs, .last hd⟩

theorem ReadsItems.cons (h : Reads 0 s c) (hcs : ReadsItems t cs) :
    ReadsItems (s ++ ',' :: ' ' :: t) (c :: cs) := by
  obtain ⟨ts, hs, hd⟩ := h
  obtain ⟨us, ht, hi⟩ := hcs
  exact ⟨_, hs.append (ht.cons_space.cons_sign .comma) (breaks_cons rfl _), .cons hd hi⟩

theorem ReadsItems.list (h : ReadsItems s cs) : Reads 3 ('[' :: (s ++ [']'])) (.list cs) := by
  obtain ⟨ts, hs, hi⟩ := h
  have hclose : Scans (s ++ [']']) (ts ++ [.sign .closeList]) :=
    hs.append (scans_sign .closeList) (breaks_cons rfl [])
  exact ⟨_, hclose.cons_sign .openList, .list hi⟩

end Reading

mutual

theorem reads_write (all : Bool) :
    ∀ c : Condition, (∀ x ∈ c.names, IsName x) → Reads c.tightness (write all c) c
  | text s, _ => reads_text s
  | integer n, _ => reads_integer n
  | boolean true, _ => reads_word (by decide) .true
  | boolean false, _ => reads_word (by decide) .false
  | name x, h => by
    have hx : IsName x := h x List.mem_cons_self
    exact reads_word hx.1 (.name hx.2)
  | list items, h => (reads_writeItems all items h).list
  | compare lhs op rhs, h => by
    rw [names, List.forall_mem_append] at h
    have hl := (reads_write all lhs h.1).place all (Nat.le_refl 3)
    have hr := (reads_write all rhs h.2).place all (Nat.le_refl 3)
    exact hl.compare op hr
  | not c, h => ((reads_write all c h).place all (by decide)).not
  | and lhs rhs, h => by
    rw [names, List.forall_mem_append] at h
    have hl := (reads_write all lhs h.1).place all (show 1 ≤ 3 by decide)
    have hr := (reads_write all rhs h.2).place all (show 2 ≤ 3 by decide)
    exact hl.and hr
  | or lhs rhs, h => by
    rw [names, List.forall_mem_append] at h
    have hl := (reads_write all lhs h.1).place all (show 0 ≤ 3 by decide)
    have hr := (reads_write all rhs h.2).place all (show 1 ≤ 3 by decide)
    exact hl.or hr

theorem reads_writeItems (all : Bool) :
    ∀ cs : List Condition, (∀ x ∈ namesIn cs, IsName x) → ReadsItems (writeItems all cs) cs
  | [], _ => readsItems_nil
  | [c], h => by
    rw [namesIn, List.forall_mem_append] at h
    exact readsItems_singleton ((reads_write all c h.1).place all (Nat.zero_le 3))
  | c :: d :: ds, h => by
    rw [namesIn, List.forall_mem_append] at h
    have hc := (reads_write all c h.1).place all (Nat.zero_le 3)
    exact .cons hc (reads_writeItems all (d :: ds) h.2)

end

theorem parse_of_reads {s : List Char} {c : Condition} (h : Reads 0 s c) :
    parse (String.ofList s) = .ok c := by
  obtain ⟨ts, hs, hd⟩ := h
  have hend : orthography.Splits [] [] := .nil (List.forall_mem_nil _)
  have hsplits := hs [] [] breaks_nil hend
  rw [List.append_nil, List.append_nil] at hsplits
  rw [parse_eq_ok_iff]
  refine ⟨ts, ?_, hd⟩
  rwa [String.toList_ofList]

/-- A condition with proper names is read back from its written form, with parentheses where they
are needed or around all of its parts. -/
theorem parse_print (c : Condition) (h : ∀ x ∈ c.names, IsName x) :
    (∀ all, parse (print all c) = .ok c) ∧ parse ("(" ++ print true c ++ ")") = .ok c := by
  have hwrite := fun all => (reads_write all c h).of_le (Nat.zero_le _)
  apply And.intro
  · exact fun all => parse_of_reads (hwrite all)
  · have hgroup := parse_of_reads ((hwrite true).group.of_le (Nat.zero_le 3))
    rw [← List.singleton_append, String.ofList_append, String.ofList_append,
      ← String.append_assoc] at hgroup
    exact hgroup

def sample : Condition :=
  .and (.or (.name "a") (.name "b_1"))
    (.not (.and (.compare (.not (.name "a")) .notMember (.list [.text "\"\\", .integer (-5)]))
      (.boolean true)))

theorem parse_print_sample :
    (∀ x ∈ sample.names, IsName x) ∧
      print false sample = "(a or b_1) and not ((not a) not in [\"\\\"\\\\\", -5] and True)" ∧
      (∀ all, parse (print all sample) = .ok sample) ∧
      parse ("(" ++ print true sample ++ ")") = .ok sample := by
  have hnames : ∀ x ∈ sample.names, IsName x := by decide
  exact ⟨hnames, by decide, parse_print sample hnames⟩

end Condition

end BuildDesc
