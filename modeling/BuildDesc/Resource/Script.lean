import BuildDesc.FileTree
import BuildDesc.Resource.FileVersion
import BuildDesc.Resource.Template

namespace BuildDesc

structure ResourceScript where
  executable : String
  version : String
  commit : String
  deriving DecidableEq

namespace ResourceScript

/-- The script for the executable at a path, of which only the file name is kept if it has one. -/
def ofPath (executable version commit : String) : ResourceScript :=
  ⟨(Path.fileName? executable).getD executable, version, commit⟩

def value? (s : ResourceScript) (key : String) : Option String :=
  if key = "EXECUTABLE" then some s.executable
  else if key = "VERSION" then some s.version
  else if key = "GIT_COMMIT" then some s.commit
  else if key = "WIN_VERSION" then some (FileVersion.ofVersion s.version)
  else none

def fileName (s : ResourceScript) : String :=
  (Path.stem? s.executable).getD "" ++ ".rc"

def render (s : ResourceScript) (template : String) : Except Error String :=
  Template.render s.value? template

def write (s : ResourceScript) (template folder : String) : FileM String := do
  let text ← s.render (← FileM.readText template)
  let path := Path.join folder s.fileName
  FileM.writeText path text
  return path

end ResourceScript

end BuildDesc
