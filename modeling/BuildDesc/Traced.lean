import BuildDesc.Error
import BuildDesc.Record

namespace BuildDesc

/-- The records of a computation, in order, and how it ended. -/
structure Traced (α : Type) where
  log : List Record
  result : Except Error α

namespace Traced

variable {α β γ : Type}

instance : Monad Traced where
  pure a := ⟨[], .ok a⟩
  bind x f :=
    match x.result with
    | .ok a => ⟨x.log ++ (f a).log, (f a).result⟩
    | .error e => ⟨x.log, .error e⟩

def emit (records : List Record) : Traced Unit :=
  ⟨records, .ok ()⟩

def fail (e : Error) : Traced α :=
  ⟨[], .error e⟩

def ofExcept (r : Except Error α) : Traced α :=
  ⟨[], r⟩

instance : MonadLift (Except Error) Traced := ⟨ofExcept⟩

@[simp] theorem result_bind (x : Traced α) (f : α → Traced β) :
    (x >>= f).result = x.result.bind fun a => (f a).result := by
  obtain ⟨log, result⟩ := x
  cases result <;> rfl

theorem log_bind_of_ok {x : Traced α} {a : α} (h : x.result = .ok a) (f : α → Traced β) :
    (x >>= f).log = x.log ++ (f a).log := by
  obtain ⟨log, result⟩ := x
  subst h
  rfl

theorem log_bind_of_error {x : Traced α} {e : Error} (h : x.result = .error e)
    (f : α → Traced β) : (x >>= f).log = x.log := by
  obtain ⟨log, result⟩ := x
  subst h
  rfl

theorem bind_assoc (x : Traced α) (f : α → Traced β) (g : β → Traced γ) :
    x >>= f >>= g = x >>= fun a => f a >>= g := by
  obtain ⟨log, result⟩ := x
  cases result with
  | error e => rfl
  | ok a =>
    simp only [bind]
    cases (f a).result with
    | error e => rfl
    | ok b => simp only [List.append_assoc]

theorem map_id (x : Traced α) : id <$> x = x := by
  obtain ⟨log, result⟩ := x
  cases result with
  | error e => rfl
  | ok a => exact congrArg (mk · (.ok a)) (List.append_nil log)

instance : LawfulMonad Traced :=
  LawfulMonad.mk' Traced map_id (fun _ _ => rfl) bind_assoc

instance : LawfulMonadLift (Except Error) Traced where
  monadLift_pure _ := rfl
  monadLift_bind x f := by
    cases x with
    | error e => rfl
    | ok a => rfl

end Traced

end BuildDesc
