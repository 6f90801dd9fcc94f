namespace BuildDesc

inductive Level where
  | trace | debug | warn
  deriving DecidableEq

/-- Something that happened while a target was resolved. -/
inductive Record where
  | unbound (name : String)
  | condition (predicate : String) (merged : Bool)
  | round (number pending : Nat)
  | resolving (target : String)
  | dropped (source : String)
  | unflagged (library flag : String)
  deriving DecidableEq

namespace Record

def level : Record → Level
  | unbound _ | condition _ _ | round _ _ => .trace
  | resolving _ | dropped _ => .debug
  | unflagged _ _ => .warn

def message : Record → String
  | unbound name => s!"condition references unbound name '{name}', treating as false"
  | condition predicate true => s!"condition '{predicate}' -> merged"
  | condition predicate false => s!"condition '{predicate}' -> skipped"
  | round number pending => s!"round {number}: {pending} nested condition(s)"
  | resolving target => s!"resolving target '{target}'"
  | dropped source => s!"dropping non-source entry '{source}'"
  | unflagged library flag => s!"library entry '{library}' lacks the '{flag}' prefix, keeping as-is"

end Record

end BuildDesc
