import BuildDesc.Condition.Reader
import BuildDesc.Value.Basic

namespace BuildDesc

def conditionsKey : String := "conditions"

/-- A block of settings, with the clauses of every list of conditions nested in its mappings, in
the order of the document. -/
structure Branch (κ : Type) where
  block : Dict Value
  nested : List κ

structure Clause where
  predicate : String
  condition : Condition
  thenBranch : Branch Clause
  elseBranch : Option (Branch Clause)

namespace Clause

def readPredicate (place : String) : Value → Except Error (String × Condition)
  | .text s => return (s, ← Condition.parse s)
  | _ => throw (.malformed (.wrongKind s!"{place}: condition predicate" .text none))

mutual

def ofValue (place : String) : Value → Except Error Clause
  | .list [p, t] => do
    let (predicate, condition) ← readPredicate place p
    return ⟨predicate, condition, ← branchOfValue place "true" t, none⟩
  | .list [p, t, e] => do
    let (predicate, condition) ← readPredicate place p
    return ⟨predicate, condition, ← branchOfValue place "true" t,
      some (← branchOfValue place "false" e)⟩
  | .list items => throw (.malformed (.clauseLength place items.length))
  | v => throw (.malformed (.notClause place v.kind))

def ofValuesFrom (place : String) (i : Nat) : List Value → Except Error (List Clause)
  | [] => return []
  | v :: vs => return (← ofValue s!"{place}[{i}]" v) :: (← ofValuesFrom place (i + 1) vs)

def branchOfValue (place which : String) : Value → Except Error (Branch Clause)
  | .mapping block => return ⟨block, ← nestedIn s!"{place}.{which}" block.entries⟩
  | v => throw (.malformed (.wrongKind s!"{place}: {which} branch" .mapping (some v.kind)))

def nestedIn (place : String) : List (String × Value) → Except Error (List Clause)
  | [] => return []
  | (k, v) :: es => return (← nestedAt place k v) ++ (← nestedIn place es)

/-- The clauses of all lists of conditions at and below the key `k`; only a list may stand under the
conditions key. -/
def nestedAt (place k : String) : Value → Except Error (List Clause)
  | .list items =>
    if k = conditionsKey then ofValuesFrom s!"{place}.{conditionsKey}" 0 items else return []
  | .mapping block =>
    if k = conditionsKey then
      throw (.malformed (.wrongKind s!"{place}.{conditionsKey}" .list (some .mapping)))
    else nestedIn place block.entries
  | v =>
    if k = conditionsKey then
      throw (.malformed (.wrongKind s!"{place}.{conditionsKey}" .list (some v.kind)))
    else return []

end

def ofValues (place : String) (vs : List Value) : Except Error (List Clause) :=
  ofValuesFrom place 0 vs

def ofBlock? (place : String) (block : Dict Value) : Except Error (Option (List Clause)) :=
  match block.get? conditionsKey with
  | none => return none
  | some (.list items) => some <$> ofValues s!"{place}.{conditionsKey}" items
  | some v => throw (.malformed (.wrongKind s!"{place}.{conditionsKey}" .list (some v.kind)))

def ofKey? (place key : String) (block : Dict Value) : Except Error (Option (List Clause)) :=
  match block.get? key with
  | none => return none
  | some (.mapping inner) => ofBlock? place inner
  | some v => throw (.malformed (.wrongKind place .mapping (some v.kind)))

end Clause

end BuildDesc
