import BuildDesc.Text.Separated

namespace BuildDesc.Path

def isIdle (segment : List Char) : Bool :=
  segment.isEmpty || segment == ['.']

def segments (p : String) : List (List Char) :=
  Separated.split '/' p.toList

def fileName? (p : String) : Option String :=
  match ((segments p).filter fun s => !isIdle s).getLast? with
  | some s => if s = ['.', '.'] then none else some (String.ofList s)
  | none => none

/-- A file name split at its last dot. A dot at the front does not count. -/
def splitName (name : List Char) : List Char × Option (List Char) :=
  match name.reverse.dropWhile (· ≠ '.') with
  | _ :: c :: stem => ((c :: stem).reverse, some (name.reverse.takeWhile (· ≠ '.')).reverse)
  | _ => (name, none)

def stem? (p : String) : Option String :=
  (fileName? p).map fun name => String.ofList (splitName name.toList).1

def extension? (p : String) : Option String :=
  (fileName? p).bind fun name => (splitName name.toList).2.map String.ofList

/-- The path without its last segment that counts. A root has no parent. -/
def parent? (p : String) : Option String :=
  match segments p with
  | [] => none
  | first :: rest =>
    match rest.reverse.dropWhile isIdle with
    | [] => if first.isEmpty then none else some ""
    | _ :: above =>
      match (above.dropWhile isIdle).reverse with
      | [] => if first.isEmpty then some "/" else some (String.ofList first)
      | rest => some (String.ofList (Separated.join '/' (first :: rest)))

def isAbsolute (p : String) : Bool :=
  p.toList.head? == some '/'

def join (p q : String) : String :=
  if isAbsolute q then q
  else if p.isEmpty || p.toList.getLast? == some '/' then p ++ q
  else p ++ "/" ++ q

end BuildDesc.Path
