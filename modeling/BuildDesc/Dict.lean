namespace BuildDesc

structure Dict (α : Type) where
  entries : List (String × α)
  deriving DecidableEq

namespace Dict

variable {α : Type}

instance : EmptyCollection (Dict α) := ⟨⟨[]⟩⟩

/-- Gives the key `k` the value `v` where it stands, or at the end if it is new. -/
def insertEntry (k : String) (v : α) : List (String × α) → List (String × α)
  | [] => [(k, v)]
  | e :: es => if e.1 = k then (k, v) :: es else e :: insertEntry k v es

def insert (d : Dict α) (k : String) (v : α) : Dict α :=
  ⟨insertEntry k v d.entries⟩

def ofList (es : List (String × α)) : Dict α :=
  es.foldl (fun d e => d.insert e.1 e.2) ∅

def get? (d : Dict α) (k : String) : Option α :=
  d.entries.lookup k

def keys (d : Dict α) : List String :=
  d.entries.map Prod.fst

theorem lookup_cons (j : String) (e : String × α) (es : List (String × α)) :
    (e :: es).lookup j = if j = e.1 then some e.2 else es.lookup j := by
  rw [List.lookup_cons]
  split <;> simp_all

theorem lookup_insertEntry (j k : String) (v : α) (es : List (String × α)) :
    (insertEntry k v es).lookup j = if j = k then some v else es.lookup j := by
  induction es with
  | nil => exact lookup_cons j (k, v) []
  | cons e es ih =>
    rw [insertEntry]
    split
    · next he =>
      subst he
      rw [lookup_cons, lookup_cons]
      split <;> rfl
    · next he =>
      rw [lookup_cons, lookup_cons, ih]
      split
      · next hj => rw [if_neg (hj ▸ he)]
      · rfl

theorem get?_insert (d : Dict α) (j k : String) (v : α) :
    (d.insert k v).get? j = if j = k then some v else d.get? j :=
  lookup_insertEntry j k v d.entries

end Dict

end BuildDesc
