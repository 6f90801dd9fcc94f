import BuildDesc.Error

namespace BuildDesc

section Except

variable {ε α β : Type} {x : Except ε α} {f : α → Except ε β}

theorem bind_eq_ok {a : α} {b : β} (hx : x = .ok a) (hf : f a = .ok b) : x >>= f = .ok b := by
  rw [hx]
  exact hf

theorem bind_eq_ok_iff {b : β} : x >>= f = .ok b ↔ ∃ a, x = .ok a ∧ f a = .ok b := by
  cases x with
  | error e =>
    apply Iff.intro
    · intro h
      cases h
    · intro h
      obtain ⟨a, h, -⟩ := h
      cases h
  | ok a =>
    apply Iff.intro
    · intro h
      exact ⟨a, rfl, h⟩
    · intro h
      obtain ⟨a', h, hb⟩ := h
      exact bind_eq_ok h hb

theorem bind_eq_error_iff {e : ε} :
    x >>= f = .error e ↔ x = .error e ∨ ∃ a, x = .ok a ∧ f a = .error e := by
  cases x with
  | error e' =>
    apply Iff.intro
    · exact fun h => .inl (congrArg Except.error (Except.error.inj h))
    · intro h
      rcases h with h | ⟨a, h, -⟩
      · exact congrArg Except.error (Except.error.inj h)
      · cases h
  | ok a =>
    apply Iff.intro
    · exact fun h => .inr ⟨a, rfl, h⟩
    · intro h
      rcases h with h | ⟨a', h, he⟩
      · cases h
      · cases h
        exact he

theorem map_eq_ok_iff {g : α → β} {b : β} : g <$> x = .ok b ↔ ∃ a, x = .ok a ∧ g a = b := by
  rw [← bind_pure_comp, bind_eq_ok_iff]
  simp only [pure, Except.pure, Except.ok.injEq]

end Except

def Defect.unplaced : Defect → Defect
  | .wrongKind _ wanted found => .wrongKind "" wanted found
  | .notText _ found => .notText "" found
  | .notClause _ found => .notClause "" found
  | .clauseLength _ count => .clauseLength "" count

/-- An error without the place of its defect. -/
def Error.unplaced : Error → Error
  | .malformed defect => .malformed defect.unplaced
  | e => e

/-- Two outcomes that are the same but for the place that an error names. -/
def Agree {α : Type} (x y : Except Error α) : Prop :=
  x.mapError Error.unplaced = y.mapError Error.unplaced

namespace Agree

variable {α β : Type} {x y : Except Error α} {f g : α → Except Error β}

theorem refl (x : Except Error α) : Agree x x :=
  rfl

theorem throw {e e' : Error} (h : e.unplaced = e'.unplaced) :
    Agree (.error e : Except Error α) (.error e') :=
  congrArg Except.error h

theorem bind (h : Agree x y) (hfg : ∀ a, Agree (f a) (g a)) : Agree (x >>= f) (y >>= g) := by
  cases x with
  | error e =>
    cases y with
    | error e' => exact throw (Except.error.inj h)
    | ok b => cases h
  | ok a =>
    cases y with
    | error e' => cases h
    | ok b =>
      cases h
      exact hfg a

theorem eq_ok {a : α} (h : Agree x y) (hx : x = .ok a) : y = .ok a := by
  subst hx
  cases y with
  | error e => cases h
  | ok b =>
    cases h
    rfl

end Agree

/-- Holds of a computation that succeeds exactly if `p` holds, and fails with an error exactly if
`q` holds of it. -/
structure Checks {ε α : Type} (x : Except ε α) (p : Prop) (q : ε → Prop) : Prop where
  ok_iff : (∃ a, x = .ok a) ↔ p
  error_iff : ∀ e, x = .error e ↔ q e

/-- Holds of an error that an item at fault gives, when all items before it are in order. The
first item is number `i`. -/
def FirstFault {α ε : Type} (sound : α → Prop) (fault : Nat → α → ε → Prop) (i : Nat)
    (xs : List α) (e : ε) : Prop :=
  ∃ before x after, xs = before ++ x :: after ∧ (∀ u ∈ before, sound u) ∧
    fault (i + before.length) x e

namespace Checks

variable {ε α β γ : Type} {x : Except ε α} {f : α → Except ε β} {p p' : Prop} {q q' : ε → Prop}

theorem of_ok {a : α} (hp : p) (hq : ∀ e, ¬q e) : Checks (.ok a : Except ε α) p q := by
  apply Checks.mk
  · exact ⟨fun _ => hp, fun _ => ⟨a, rfl⟩⟩
  · intro e
    exact ⟨nofun, fun h => absurd h (hq e)⟩

theorem of_error {e : ε} (hp : ¬p) (hq : ∀ e', q e' ↔ e' = e) :
    Checks (.error e : Except ε α) p q := by
  apply Checks.mk
  · exact ⟨nofun, fun h => absurd h hp⟩
  · intro e'
    rw [hq]
    exact ⟨fun h => (Except.error.inj h).symm, fun h => congrArg Except.error h.symm⟩

theorem congr (h : Checks x p q) (hp : p ↔ p') (hq : ∀ e, q e ↔ q' e) : Checks x p' q' :=
  ⟨h.ok_iff.trans hp, fun e => (h.error_iff e).trans (hq e)⟩

theorem bind (hx : Checks x p q) (hf : ∀ a, x = .ok a → Checks (f a) p' q') :
    Checks (x >>= f) (p ∧ p') fun e => q e ∨ p ∧ q' e := by
  obtain ⟨hok, herror⟩ := hx
  cases x with
  | error e =>
    have hp : ¬p := by
      intro hp
      obtain ⟨a, ha⟩ := hok.2 hp
      cases ha
    have he : ∀ e', Except.error e = Except.error (α := β) e' ↔ q e' := by
      intro e'
      rw [← herror, Except.error.injEq, Except.error.injEq]
    refine ⟨⟨nofun, fun h => absurd h.1 hp⟩, ?_⟩
    intro e'
    exact (he e').trans ⟨.inl, fun h => h.resolve_right fun h => hp h.1⟩
  | ok a =>
    have hp : p := hok.1 ⟨a, rfl⟩
    have hq : ∀ e, ¬q e := by
      intro e he
      have h := (herror e).2 he
      cases h
    obtain ⟨hok', herror'⟩ := hf a rfl
    refine ⟨hok'.trans ⟨fun h => ⟨hp, h⟩, fun h => h.2⟩, ?_⟩
    intro e
    exact (herror' e).trans ⟨fun h => .inr ⟨hp, h⟩, fun h => (h.resolve_left (hq e)).2⟩

theorem bind_pure (hx : Checks x p q) (g : α → β) :
    Checks (x >>= fun a => (.ok (g a) : Except ε β)) p q := by
  have hg : ∀ a, x = .ok a → Checks (.ok (g a) : Except ε β) True fun _ => False :=
    fun _ _ => .of_ok trivial fun _ => id
  apply (hx.bind hg).congr
  · exact and_iff_left trivial
  · intro e
    rw [and_false, or_false]

theorem map (hx : Checks x p q) (g : α → β) : Checks (g <$> x) p q := by
  rw [← bind_pure_comp]
  exact hx.bind_pure g

/-- A computation that can only fail in one way. -/
theorem of_unique {e : ε} (h : ∀ e', x = .error e' → e' = e) :
    Checks x (∃ a, x = .ok a) fun e' => (∀ a, x ≠ .ok a) ∧ e' = e := by
  cases x with
  | ok a => exact .of_ok ⟨a, rfl⟩ fun _ h => h.1 a rfl
  | error e' =>
    obtain rfl := h e' rfl
    exact .of_error nofun fun _ => and_iff_right nofun

section Lookups

variable {sound : α → Prop} {fault : α → ε → Prop} {b : α}

theorem absent (c : β) : Checks (.ok c : Except ε β) (∀ a, none = some a → sound a) fun e =>
    ∃ a, none = some a ∧ fault a e := by
  apply of_ok
  · exact nofun
  · intro e h
    obtain ⟨a, h, -⟩ := h
    cases h

theorem present {x : Except ε β} (h : Checks x (sound b) (fault b)) :
    Checks x (∀ a, some b = some a → sound a) fun e => ∃ a, some b = some a ∧ fault a e := by
  apply h.congr
  · exact ⟨fun hb a ha => Option.some.inj ha ▸ hb, fun h => h b rfl⟩
  · intro e
    apply Iff.intro
    · exact fun hb => ⟨b, rfl, hb⟩
    · intro h
      obtain ⟨a, ha, h⟩ := h
      cases ha
      exact h

end Lookups

end Checks

section Lists

variable {ε α β γ δ : Type} {sound : α → Prop} {fault : Nat → α → ε → Prop} {i : Nat} {y : α}
  {ys : List α} {e : ε}

theorem not_firstFault_nil : ¬FirstFault sound fault i [] e := by
  intro h
  obtain ⟨before, x, after, h, -⟩ := h
  exact List.append_ne_nil_of_right_ne_nil before (List.cons_ne_nil x after) h.symm

theorem firstFault_cons :
    FirstFault sound fault i (y :: ys) e ↔
      fault i y e ∨ sound y ∧ FirstFault sound fault (i + 1) ys e := by
  apply Iff.intro
  · intro h
    obtain ⟨before, x, after, heq, hb, hx⟩ := h
    cases before with
    | nil =>
      cases heq
      exact .inl hx
    | cons z before =>
      cases heq
      rw [List.forall_mem_cons] at hb
      rw [List.length_cons, Nat.add_comm before.length, ← Nat.add_assoc] at hx
      exact .inr ⟨hb.1, before, x, after, rfl, hb.2, hx⟩
  · intro h
    rcases h with hy | ⟨hy, before, x, after, rfl, hb, hx⟩
    · exact ⟨[], y, ys, rfl, nofun, hy⟩
    · refine ⟨y :: before, x, after, rfl, List.forall_mem_cons.2 ⟨hy, hb⟩, ?_⟩
      rwa [List.length_cons, Nat.add_comm before.length, ← Nat.add_assoc]

theorem FirstFault.exists_mem {xs : List α} (h : FirstFault sound fault i xs e) :
    ∃ x ∈ xs, ∃ j, fault j x e := by
  obtain ⟨before, x, after, rfl, -, hx⟩ := h
  exact ⟨x, List.mem_append_right before List.mem_cons_self, _, hx⟩

theorem Checks.nil (b : β) :
    Checks (.ok b : Except ε β) (∀ u ∈ ([] : List α), sound u) (FirstFault sound fault i []) :=
  .of_ok nofun fun _ => not_firstFault_nil

theorem Checks.cons {x : Except ε β} {z : Except ε γ} (hx : Checks x (sound y) (fault i y))
    (hz : Checks z (∀ u ∈ ys, sound u) (FirstFault sound fault (i + 1) ys)) (g : β → γ → δ) :
    Checks (x >>= fun b => z >>= fun c => (.ok (g b c) : Except ε δ))
      (∀ u ∈ y :: ys, sound u) (FirstFault sound fault i (y :: ys)) := by
  apply (hx.bind fun b _ => hz.bind_pure (g b)).congr
  · rw [List.forall_mem_cons]
  · intro e
    rw [firstFault_cons]

end Lists

end BuildDesc
