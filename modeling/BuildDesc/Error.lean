import BuildDesc.Value.Basic

namespace BuildDesc

inductive Defect where
  | wrongKind (place : String) (wanted : Kind) (found : Option Kind)
  | notText (place : String) (found : Kind)
  | notClause (place : String) (found : Kind)
  | clauseLength (place : String) (count : Nat)
  deriving DecidableEq

def Defect.message : Defect → String
  | .wrongKind place wanted none => s!"{place} must be a {wanted.name}"
  | .wrongKind place wanted (some found) =>
    s!"{place} must be a {wanted.name}, found {found.name}"
  | .notText place found => s!"{place}: expected strings, found {found.name}"
  | .notClause place found => s!"{place}: expected a condition list entry, found {found.name}"
  | .clauseLength place count =>
    s!"{place}: condition entry has {count} elements, expected 2 or 3"

inductive Error where
  | io (path : String)
  | notValue
  | malformed (defect : Defect)
  | notCondition (predicate : String)
  | targetNotFound (name : String)
  | ambiguousTarget (name : String) (count : Nat)
  | missingKey (key : String)
  | unknownOs (name : String)
  | tooManyRounds (rounds : Nat)
  | unknownTemplateKey (key : String)
  deriving DecidableEq

inductive Error.Category where
  | lookup | ambiguity | malformed | io
  deriving DecidableEq

namespace Error

def category : Error → Category
  | io _ => .io
  | notValue | malformed _ | notCondition _ | tooManyRounds _ | unknownTemplateKey _ => .malformed
  | targetNotFound _ | missingKey _ | unknownOs _ => .lookup
  | ambiguousTarget _ _ => .ambiguity

/-- The wording of a failure, up to the details that a file system or a reader may add. -/
def message : Error → String
  | io path => s!"IO Error: {path}: "
  | notValue => "Malformed build description: "
  | malformed defect => s!"Malformed build description: {defect.message}"
  | notCondition predicate => s!"Failed to parse condition '{predicate}': "
  | targetNotFound name => s!"Target not found: {name}"
  | ambiguousTarget name count => s!"Target '{name}' is defined {count} times"
  | missingKey key => s!"Missing key: {key}"
  | unknownOs name => s!"Unrecognized OS identifier: {name}"
  | tooManyRounds rounds => s!"Nested conditions still pending after {rounds} rounds"
  | unknownTemplateKey key => s!"Template references unknown key '@{key}@'"

end Error

end BuildDesc
