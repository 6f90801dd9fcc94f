import BuildDesc.Error

namespace BuildDesc

inductive Platform where
  | linux | windows | mac
  deriving DecidableEq

namespace Platform

def token : Platform → String
  | linux => "linux"
  | windows => "win"
  | mac => "mac"

def osName : Platform → String
  | linux => "linux"
  | windows => "win32"
  | mac => "darwin"

def target : Platform → String
  | linux => "linux"
  | windows => "windows"
  | mac => "macos"

/-- The platform that has a name, when `nameOf` tells the name of each. -/
def named (nameOf : Platform → String) (name : String) : Except Error Platform :=
  match [linux, windows, mac].find? fun p => nameOf p == name with
  | some p => return p
  | none => throw (.unknownOs name)

def ofOsName (name : String) : Except Error Platform :=
  named osName name

def ofTarget (name : String) : Except Error Platform :=
  named target name

end Platform

end BuildDesc
