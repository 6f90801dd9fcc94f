import BuildDesc.Error

namespace BuildDesc.Value

def text? : Value → Option String
  | text s => some s
  | _ => none

def list? : Value → Option (List Value)
  | list items => some items
  | _ => none

def mapping? : Value → Option (Dict Value)
  | mapping block => some block
  | _ => none

/-- The texts of strings; `place` says where the strings stand. -/
def texts (place : String) : List Value → Except Error (List String)
  | [] => return []
  | text s :: vs => return s :: (← texts place vs)
  | v :: _ => throw (.malformed (.notText place v.kind))

end BuildDesc.Value
