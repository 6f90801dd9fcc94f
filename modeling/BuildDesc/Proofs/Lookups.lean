import BuildDesc.Proofs.Noninterference

namespace BuildDesc

namespace Bindings

variable {α β : Type} {b b' : Bindings} {texts : String → String} {xs ys : List String}

def Extends (b b' : Bindings) : Prop :=
  ∀ x s : String, b[x]? = some s → b'[x]? = some s

/-- Holds of texts for all names in which bound names keep theirs. -/
def Fits (b : Bindings) (texts : String → String) : Prop :=
  ∀ x s : String, b[x]? = some s → texts x = s

def firstUnbound? (b : Bindings) (xs : List String) : Option String :=
  xs.find? (· ∉ b)

/-- The outcome of looking up names in turn, with the value `a` if all of them are bound. -/
def lookUp (b : Bindings) (xs : List String) (a : α) : Except Unbound α :=
  match b.firstUnbound? xs with
  | some x => .error ⟨x⟩
  | none => .ok a

theorem Extends.mem {x : String} (h : Extends b b') (hx : x ∈ b) : x ∈ b' := by
  rw [Std.ExtTreeMap.mem_iff_isSome_getElem?, Option.isSome_iff_exists] at hx ⊢
  obtain ⟨s, hs⟩ := hx
  exact ⟨s, h x s hs⟩

theorem extends_insert {x : String} (hx : x ∉ b) (s : String) : Extends b (b.insert x s) := by
  intro y t hy
  have hne : compare x y ≠ .eq := by
    intro h
    rw [Std.LawfulEqCmp.eq_of_compare h, Std.ExtTreeMap.mem_iff_isSome_getElem?, hy] at hx
    exact hx rfl
  rw [Std.ExtTreeMap.getElem?_insert, if_neg hne, hy]

theorem Fits.of_extends (h : Fits b' texts) (he : Extends b b') : Fits b texts :=
  fun x s hs => h x s (he x s hs)

theorem exists_fits (b : Bindings) : ∃ texts, Fits b texts := by
  refine ⟨fun x => (b[x]?).getD "", ?_⟩
  intro x s hs
  simp only [hs, Option.getD_some]

theorem firstUnbound?_eq_none_iff : b.firstUnbound? xs = none ↔ ∀ x ∈ xs, x ∈ b := by
  simp only [firstUnbound?, List.find?_eq_none, decide_eq_true_eq, Decidable.not_not]

theorem mem_of_firstUnbound? {x : String} (h : b.firstUnbound? xs = some x) : x ∈ xs ∧ x ∉ b := by
  rw [firstUnbound?] at h
  have hx := List.find?_some h
  exact ⟨List.mem_of_find?_eq_some h, of_decide_eq_true hx⟩

theorem lookUp_eq_ok_iff {a v : α} : b.lookUp xs a = .ok v ↔ (∀ x ∈ xs, x ∈ b) ∧ a = v := by
  rw [← firstUnbound?_eq_none_iff, lookUp]
  cases b.firstUnbound? xs <;> simp

theorem lookUp_eq_error_iff {a : α} {x : String} :
    b.lookUp xs a = .error ⟨x⟩ ↔ b.firstUnbound? xs = some x := by
  rw [lookUp]
  cases b.firstUnbound? xs <;> simp

theorem lookUp_map (f : α → β) (a : α) :
    (do return f (← b.lookUp xs a)) = b.lookUp xs (f a) := by
  rw [lookUp, lookUp]
  cases b.firstUnbound? xs <;> rfl

theorem firstUnbound?_append (b : Bindings) (xs ys : List String) :
    b.firstUnbound? (xs ++ ys) = (b.firstUnbound? xs).or (b.firstUnbound? ys) :=
  List.find?_append

/-- One look-up after another: what comes next is asked only if nothing is missing so far. -/
theorem lookUp_bind {a : α} {c : β} {f : α → Except Unbound β} (h : f a = b.lookUp ys c) :
    b.lookUp xs a >>= f = b.lookUp (xs ++ ys) c := by
  rw [lookUp] at h ⊢
  rw [lookUp, firstUnbound?_append]
  cases b.firstUnbound? xs with
  | some x => rfl
  | none => exact h

end Bindings

namespace Condition

section Definitions

variable (texts : String → String)

mutual

/-- The value of a condition in which every name has a text. -/
def value : Condition → Operand
  | text s => .text s
  | integer n => .integer n
  | boolean v => .boolean v
  | name x => .text (texts x)
  | list items => .list (values items)
  | compare lhs op rhs => .boolean (op.holds (value lhs) (value rhs))
  | not c => .boolean (!(value c).truthy)
  | and lhs rhs => if (value lhs).truthy then value rhs else value lhs
  | or lhs rhs => if (value lhs).truthy then value lhs else value rhs

def values : List Condition → List Operand
  | [] => []
  | c :: cs => value c :: values cs

end

mutual

/-- The names that are looked up from left to right when every name has a text. The right operands
of `and` and `or` are skipped where the left ones decide. -/
def lookups : Condition → List String
  | text _ | integer _ | boolean _ => []
  | name x => [x]
  | list items => lookupsIn items
  | compare lhs _ rhs => lookups lhs ++ lookups rhs
  | not c => lookups c
  | and lhs rhs => lookups lhs ++ if (value texts lhs).truthy then lookups rhs else []
  | or lhs rhs => lookups lhs ++ if (value texts lhs).truthy then [] else lookups rhs

def lookupsIn : List Condition → List String
  | [] => []
  | c :: cs => lookups c ++ lookupsIn cs

end

end Definitions

variable {b b' : Bindings} {texts : String → String} {c : Condition} {v : Operand} {x : String}

mutual

theorem lookups_sublist_names (texts : String → String) :
    ∀ c : Condition, (lookups texts c).Sublist c.names
  | text _ | integer _ | boolean _ => .slnil
  | name x => .refl [x]
  | list items => by
    rw [lookups, names]
    exact lookupsIn_sublist_namesIn texts items
  | compare lhs _ rhs => by
    rw [lookups, names]
    exact (lookups_sublist_names texts lhs).append (lookups_sublist_names texts rhs)
  | not c => by
    rw [lookups, names]
    exact lookups_sublist_names texts c
  | and lhs rhs => by
    rw [lookups, names]
    apply (lookups_sublist_names texts lhs).append
    split
    · exact lookups_sublist_names texts rhs
    · exact List.nil_sublist _
  | or lhs rhs => by
    rw [lookups, names]
    apply (lookups_sublist_names texts lhs).append
    split
    · exact List.nil_sublist _
    · exact lookups_sublist_names texts rhs

theorem lookupsIn_sublist_namesIn (texts : String → String) :
    ∀ cs : List Condition, (lookupsIn texts cs).Sublist (namesIn cs)
  | [] => .slnil
  | c :: cs => by
    rw [lookupsIn, namesIn]
    exact (lookups_sublist_names texts c).append (lookupsIn_sublist_namesIn texts cs)

end

mutual

/-- Evaluation with bindings is evaluation with texts for all names, up to the first name that has
no binding. -/
theorem eval_eq_lookUp (h : b.Fits texts) :
    ∀ c : Condition, eval b c = b.lookUp (lookups texts c) (value texts c)
  | text s => by
    rw [eval, lookups, value]
    rfl
  | integer n => by
    rw [eval, lookups, value]
    rfl
  | boolean v => by
    rw [eval, lookups, value]
    rfl
  | name x => by
    rw [eval, lookups, value]
    cases hx : b[x]? with
    | none =>
      have hmem : x ∉ b := by
        rw [Std.ExtTreeMap.mem_iff_isSome_getElem?, hx]
        exact Bool.false_ne_true
      exact (Bindings.lookUp_eq_error_iff.2 (List.find?_cons_of_pos (decide_eq_true hmem))).symm
    | some s =>
      have hmem : x ∈ b := by
        rw [Std.ExtTreeMap.mem_iff_isSome_getElem?, hx, Option.isSome_some]
      have htexts : Operand.text (texts x) = .text s := congrArg Operand.text (h x s hx)
      exact (Bindings.lookUp_eq_ok_iff.2 ⟨List.forall_mem_singleton.2 hmem, htexts⟩).symm
  | list items => by
    rw [eval, lookups, value, evalList_eq_lookUp h items]
    exact Bindings.lookUp_map Operand.list _
  | compare lhs op rhs => by
    rw [eval, lookups, value, eval_eq_lookUp h lhs, eval_eq_lookUp h rhs]
    apply Bindings.lookUp_bind
    exact Bindings.lookUp_map (fun r => Operand.boolean (op.holds (value texts lhs) r)) _
  | not c => by
    rw [eval, lookups, value, eval_eq_lookUp h c]
    exact Bindings.lookUp_map (fun v : Operand => Operand.boolean (!v.truthy)) _
  | and lhs rhs => by
    rw [eval, lookups, value, eval_eq_lookUp h lhs, eval_eq_lookUp h rhs]
    apply Bindings.lookUp_bind
    -- the value of the left operand decides on both sides whether the right one is looked at
    split <;> rfl
  | or lhs rhs => by
    rw [eval, lookups, value, eval_eq_lookUp h lhs, eval_eq_lookUp h rhs]
    apply Bindings.lookUp_bind
    split <;> rfl

theorem evalList_eq_lookUp (h : b.Fits texts) :
    ∀ cs : List Condition, evalList b cs = b.lookUp (lookupsIn texts cs) (values texts cs)
  | [] => by
    rw [evalList, lookupsIn, values]
    rfl
  | c :: cs => by
    rw [evalList, lookupsIn, values, eval_eq_lookUp h c, evalList_eq_lookUp h cs]
    apply Bindings.lookUp_bind
    exact Bindings.lookUp_map (value texts c :: ·) _

end

theorem eval_eq_ok_iff (h : b.Fits texts) :
    eval b c = .ok v ↔ (∀ x ∈ lookups texts c, x ∈ b) ∧ value texts c = v := by
  rw [eval_eq_lookUp h, Bindings.lookUp_eq_ok_iff]

theorem eval_eq_error_iff (h : b.Fits texts) :
    eval b c = .error ⟨x⟩ ↔ b.firstUnbound? (lookups texts c) = some x := by
  rw [eval_eq_lookUp h, Bindings.lookUp_eq_error_iff]

theorem eval_of_extends (h : eval b c = .ok v) (he : b.Extends b') : eval b' c = .ok v := by
  obtain ⟨texts, ht⟩ := b'.exists_fits
  obtain ⟨hbound, hv⟩ := (eval_eq_ok_iff (ht.of_extends he)).1 h
  exact (eval_eq_ok_iff ht).2 ⟨fun x hx => he.mem (hbound x hx), hv⟩

theorem mem_names_of_eval_eq_error (h : eval b c = .error ⟨x⟩) : x ∈ c.names ∧ x ∉ b := by
  obtain ⟨texts, ht⟩ := b.exists_fits
  obtain ⟨hx, hb⟩ := Bindings.mem_of_firstUnbound? ((eval_eq_error_iff ht).1 h)
  exact ⟨(lookups_sublist_names texts c).subset hx, hb⟩

theorem exists_eval_eq_ok (h : ∀ x ∈ c.names, x ∈ b) : ∃ v, eval b c = .ok v := by
  obtain ⟨texts, ht⟩ := b.exists_fits
  refine ⟨value texts c, (eval_eq_ok_iff ht).2 ⟨?_, rfl⟩⟩
  exact fun x hx => h x ((lookups_sublist_names texts c).subset hx)

theorem holds_iff : c.holds b ↔ eval b c = .ok (.boolean true) := by
  rw [holds]
  split
  · next v hv => simp only [hv, Except.ok.injEq, Operand.boolean.injEq]
  · next hne => exact ⟨fun h => absurd h Bool.false_ne_true, fun h => absurd h (hne true)⟩

theorem unbound?_eq_some_iff : c.unbound? b = some x ↔ eval b c = .error ⟨x⟩ := by
  rw [unbound?]
  cases eval b c with
  | error e =>
    cases e
    simp only [Option.some.injEq, Except.error.injEq, Unbound.mk.injEq]
  | ok v => simp only [reduceCtorEq]

/-- More bindings change no value, and an evaluation without a value ends at the first name without
a binding among those that are looked up, whatever texts such names are given. -/
theorem eval_lookups (b : Bindings) (c : Condition) :
    (∀ v b', eval b c = .ok v → b.Extends b' → eval b' c = .ok v) ∧
    (∀ b', c.holds b → b.Extends b' → c.holds b') ∧
    (∀ x, eval b c = .error ⟨x⟩ → c.unbound? b = some x ∧ x ∈ c.names ∧ x ∉ b) ∧
    (∀ texts, b.Fits texts → (lookups texts c).Sublist c.names ∧
      ∀ x, eval b c = .error ⟨x⟩ ↔ b.firstUnbound? (lookups texts c) = some x) ∧
    ((∀ x ∈ c.names, x ∈ b) → ∃ v, eval b c = .ok v) := by
  refine ⟨fun v b' => eval_of_extends, ?_, ?_, ?_, exists_eval_eq_ok⟩
  · intro b' h he
    rw [holds_iff] at h ⊢
    exact eval_of_extends h he
  · intro x h
    exact ⟨unbound?_eq_some_iff.2 h, mem_names_of_eval_eq_error h⟩
  · intro texts ht
    exact ⟨lookups_sublist_names texts c, fun x => eval_eq_error_iff ht⟩

def wary : Condition :=
  .or (.compare (.name "OS") .equal (.text "linux")) (.compare (.name "mode") .notEqual (.text "x"))

def system (os : String) : Bindings :=
  (∅ : Bindings).insert "OS" os

theorem eval_lookups_wary :
    (wary.holds (system "linux") ∧ (system "linux").Extends ((system "linux").insert "mode" "x") ∧
      wary.holds ((system "linux").insert "mode" "x")) ∧
    (eval (system "win") wary = .error ⟨"mode"⟩ ∧ "mode" ∈ wary.names ∧ "mode" ∉ system "win") ∧
    ((system "win").Fits (fun _ => "win") ∧
      (system "win").firstUnbound? (lookups (fun _ => "win") wary) = some "mode") ∧
    (∀ x ∈ wary.names, x ∈ (system "win").insert "mode" "") ∧
      ∃ v, eval ((system "win").insert "mode" "") wary = .ok v := by
  obtain ⟨-, hholds, -, -, -⟩ := eval_lookups (system "linux") wary
  obtain ⟨-, -, herror, hlookups, -⟩ := eval_lookups (system "win") wary
  obtain ⟨-, -, -, -, hbound⟩ := eval_lookups ((system "win").insert "mode" "") wary
  have hlinux : wary.holds (system "linux") := rfl
  have hextends : (system "linux").Extends ((system "linux").insert "mode" "x") :=
    Bindings.extends_insert (by decide) "x"
  have hstops : eval (system "win") wary = .error ⟨"mode"⟩ := rfl
  have hfits : (system "win").Fits fun _ => "win" := by
    intro x s hs
    rw [system, Std.ExtTreeMap.getElem?_insert] at hs
    split at hs
    · exact Option.some.inj hs
    · rw [Std.ExtTreeMap.getElem?_empty] at hs
      cases hs
  have hnames : ∀ x ∈ wary.names, x ∈ (system "win").insert "mode" "" := by decide
  exact ⟨⟨hlinux, hextends, hholds _ hlinux hextends⟩, ⟨hstops, (herror _ hstops).2⟩,
    ⟨hfits, ((hlookups _ hfits).2 "mode").1 hstops⟩, hnames, hbound hnames⟩

end Condition

end BuildDesc
