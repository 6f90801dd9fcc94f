import BuildDesc.Condition.Eval
import BuildDesc.Path
import BuildDesc.Platform

namespace BuildDesc

/-- What resolution depends on besides the build description. -/
structure Options where
  bindings : Bindings
  sourceExtensions : List String
  linkFlag : String
  maxRounds : Nat
  deriving DecidableEq

def osBinding : String := "OS"

def libraryBinding : String := "library"

inductive Options.Change where
  | platform (p : Platform)
  | osName (name : String)
  /-- Binds the platform that the running program was compiled for, by the name of that target. -/
  | hostPlatform (target : String := "linux")
  | libraryKind (kind : String)
  | binding (name text : String)
  | bindings (b : Bindings)
  | sourceExtensions (extensions : List String)
  | linkFlag (flag : String)
  | maxRounds (rounds : Nat)

namespace Options

def default : Options where
  bindings := (∅ : Bindings).insert libraryBinding "static_library"
  sourceExtensions := ["c", "cc", "cpp"]
  linkFlag := "-l"
  maxRounds := 64

def isSourceFile (o : Options) (path : String) : Bool :=
  match Path.extension? path with
  | some extension => o.sourceExtensions.contains extension
  | none => false

def withBinding (o : Options) (name text : String) : Options :=
  { o with bindings := o.bindings.insert name text }

def withBindings (o : Options) (b : Bindings) : Options :=
  { o with bindings := o.bindings ∪ b }

def change (o : Options) : Change → Except Error Options
  | .platform p => return o.withBinding osBinding p.token
  | .osName name => return o.withBinding osBinding (← Platform.ofOsName name).token
  | .hostPlatform target => return o.withBinding osBinding (← Platform.ofTarget target).token
  | .libraryKind kind => return o.withBinding libraryBinding kind
  | .binding name text => return o.withBinding name text
  | .bindings b => return o.withBindings b
  | .sourceExtensions extensions => return { o with sourceExtensions := extensions }
  | .linkFlag flag => return { o with linkFlag := flag }
  | .maxRounds rounds => return { o with maxRounds := rounds }

/-- The options that result from changing the default; the first failure decides. -/
def ofChanges (changes : List Change) : Except Error Options :=
  changes.foldlM change default

/-- Changes one option, or none if that fails. -/
def tryChange (o : Options) (c : Change) : Options :=
  match o.change c with
  | .ok changed => changed
  | .error _ => o

end Options

end BuildDesc
