import BuildDesc.Clause
import BuildDesc.FileTree
import BuildDesc.Value.Access
import BuildDesc.Value.Reader

namespace BuildDesc

/-- Something to build. What resolution needs may be missing. -/
structure Target where
  name : String
  sources : Option (List String)
  conditions : Option (List Clause)
  dependentConditions : Option (List Clause)

structure Document where
  /-- The folder of the file that the document was loaded from, if its path names one. -/
  directory : Option String
  conditions : Option (List Clause)
  targets : List Target

namespace Target

def nameOfBlock (i : Nat) (block : Dict Value) : Except Error String :=
  match block.get? "target_name" with
  | some (.text name) => return name
  | some _ => throw (.malformed (.wrongKind s!"targets[{i}].target_name" .text none))
  | none => throw (.missingKey s!"targets[{i}].target_name")

def sourcesOfBlock (place : String) (block : Dict Value) : Except Error (Option (List String)) :=
  match block.get? "sources" with
  | none => return none
  | some (.list items) => some <$> Value.texts s!"{place}.sources" items
  | some v => throw (.malformed (.wrongKind s!"{place}.sources" .list (some v.kind)))

def ofValue (i : Nat) : Value → Except Error Target
  | .mapping block => do
    let name ← nameOfBlock i block
    let place := s!"targets[{name}]"
    return {
      name
      sources := ← sourcesOfBlock place block
      conditions := ← Clause.ofBlock? place block
      dependentConditions := ←
        Clause.ofKey? s!"{place}.direct_dependent_settings" "direct_dependent_settings" block }
  | _ => throw (.malformed (.wrongKind s!"targets[{i}]" .mapping none))

def ofValues (i : Nat) : List Value → Except Error (List Target)
  | [] => return []
  | v :: vs => return (← ofValue i v) :: (← ofValues (i + 1) vs)

end Target

namespace Document

def targetsOfBlock (block : Dict Value) : Except Error (List Target) :=
  match block.get? "targets" with
  | some (.list items) => Target.ofValues 0 items
  | some _ => throw (.malformed (.wrongKind "targets" .list none))
  | none => throw (.missingKey "targets")

def ofValue : Value → Except Error Document
  | .mapping block => do
    let conditions ← Clause.ofKey? "variables" "variables" block
    return { directory := none, conditions, targets := ← targetsOfBlock block }
  | v => throw (.malformed (.wrongKind "top level" .mapping (some v.kind)))

def parse (s : String) : Except Error Document := do
  ofValue (← Value.parse s)

def directoryOf (path : String) : Option String :=
  (Path.parent? path).filter fun d => !d.isEmpty

def load (t : FileTree) (path : String) : Except Error Document := do
  let d ← parse (← t.readText path)
  return { d with directory := directoryOf path }

def targetNames (d : Document) : List String :=
  d.targets.map Target.name

def findTarget (d : Document) (name : String) : Except Error Target :=
  match d.targets.filter fun t => t.name == name with
  | [] => throw (.targetNotFound name)
  | [t] => return t
  | ts => throw (.ambiguousTarget name ts.length)

end Document

end BuildDesc
