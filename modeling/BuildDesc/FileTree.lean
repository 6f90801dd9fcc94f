import BuildDesc.Error
import BuildDesc.Path

namespace BuildDesc

inductive FileEntry where
  | folder
  | file (content : ByteArray)

/-- The names that lead from the root to a place in a file tree, the last one first. -/
abbrev Location := List String

structure FileTree where
  workingFolder : Location
  entry? : Location → Option FileEntry

namespace FileTree

def empty (workingFolder : Location) : FileTree where
  workingFolder := workingFolder
  entry? l := if l <:+ workingFolder then some .folder else none

def isFolder (t : FileTree) (l : Location) : Bool :=
  match t.entry? l with
  | some .folder => true
  | _ => false

def maxNameSize : Nat := 255

def maxPathSize : Nat := 4095

def step (l : Location) (segment : List Char) : Location :=
  if Path.isIdle segment then l
  else if segment = ['.', '.'] then l.tail
  else String.ofList segment :: l

/-- Follows segments from a location. Only from a folder is there a way on. -/
def follow? (t : FileTree) (l : Location) : List (List Char) → Option Location
  | [] => some l
  | s :: ss =>
    if t.isFolder l && (String.ofList s).utf8ByteSize ≤ maxNameSize then
      t.follow? (step l s) ss
    else none

def start (t : FileTree) (path : String) : Location :=
  if Path.isAbsolute path then [] else t.workingFolder

def locate? (t : FileTree) (path : String) : Option Location :=
  if path.isEmpty || path.toList.contains '\x00' || path.utf8ByteSize > maxPathSize then none
  else t.follow? (t.start path) (Path.segments path)

def set (t : FileTree) (l : Location) (e : FileEntry) : FileTree :=
  { t with entry? := fun m => if m = l then some e else t.entry? m }

def read (t : FileTree) (path : String) : Except Error ByteArray :=
  match (t.locate? path).bind t.entry? with
  | some (.file content) => return content
  | _ => throw (.io path)

def readText (t : FileTree) (path : String) : Except Error String := do
  match String.fromUTF8? (← t.read path) with
  | some text => return text
  | none => throw (.io path)

/-- The tree after a file was written at a path. A new file needs its folder to be there. -/
def write (t : FileTree) (path : String) (content : ByteArray) : Except Error FileTree :=
  match t.locate? path with
  | some l => if t.isFolder l then throw (.io path) else return t.set l (.file content)
  | none => throw (.io path)

def makeFolders (t : FileTree) (l : Location) : List (List Char) → FileTree
  | [] => t.set l .folder
  | s :: ss => (t.set l .folder).makeFolders (step l s) ss

def place (t : FileTree) (path : String) (e : FileEntry) : FileTree :=
  let segments := Path.segments path
  let l := segments.foldl step (t.start path)
  (t.makeFolders (t.start path) segments.dropLast).set l e

end FileTree

/-- Computations on a file tree. One that fails leaves behind what it wrote before. -/
abbrev FileM := ExceptT Error (StateM FileTree)

namespace FileM

def readText (path : String) : FileM String := do
  (← get).readText path

def writeText (path text : String) : FileM Unit := do
  set (← (← get).write path text.toUTF8)

end FileM

end BuildDesc
