import BuildDesc.Document
import BuildDesc.Options
import BuildDesc.Resolution

namespace BuildDesc

structure Configuration where
  sources : List String
  defines : List String
  cflags : List String
  ldflags : List String
  libraries : List String
  deriving DecidableEq

namespace Configuration

def textsOf (found : Buckets) (category : String) : Except Error (List String) :=
  Value.texts category (found.values category)

/-- Adds the settings that were found. Those of other categories are dropped. -/
def absorb (c : Configuration) (found : Buckets) : Except Error Configuration := do
  return {
    sources := c.sources ++ (← textsOf found "sources")
    defines := c.defines ++ (← textsOf found "defines")
    cflags := c.cflags ++ (← textsOf found "cflags")
    ldflags := c.ldflags ++ (← textsOf found "ldflags")
    libraries := c.libraries ++ (← textsOf found "libraries") }

end Configuration

namespace Options

def locateSource (directory : Option String) (source : String) : String :=
  match directory with
  | some d => s!"{d}/{source}"
  | none => source

def keepSources (o : Options) (directory : Option String) (sources : List String) : List String :=
  (sources.filter o.isSourceFile).map (locateSource directory)

def sourceRecords (o : Options) (sources : List String) : List Record :=
  (sources.filter fun s => !o.isSourceFile s).map .dropped

def withoutFlag? (o : Options) (library : String) : Option String :=
  (o.linkFlag.toList.isPrefixOf? library.toList).map String.ofList

def nameLibraries (o : Options) (libraries : List String) : List String :=
  libraries.map fun l => (o.withoutFlag? l).getD l

def libraryRecords (o : Options) (libraries : List String) : List Record :=
  (libraries.filter fun l => (o.withoutFlag? l).isNone).map fun l => .unflagged l o.linkFlag

end Options

namespace Document

def require {α : Type} (key : String) : Option α → Except Error α
  | some a => return a
  | none => throw (.missingKey key)

def contribute (o : Options) (c : Configuration) (cs : List Clause) : Traced Configuration := do
  let found ← Clause.resolve o.bindings o.maxRounds cs
  c.absorb found

/-- The configuration of a target: its own sources, and the settings selected by the conditions
on all targets, on the target and on what depends on it. -/
def configure (d : Document) (o : Options) (name : String) : Traced Configuration := do
  let target ← d.findTarget name
  Traced.emit [.resolving name]
  let sources ← require s!"targets[{name}].sources" target.sources
  let shared ← require "variables.conditions" d.conditions
  let conditions ← require s!"targets[{name}].conditions" target.conditions
  let dependent ←
    require s!"targets[{name}].direct_dependent_settings.conditions" target.dependentConditions
  let c ← contribute o ⟨sources, [], [], [], []⟩ shared
  let c ← contribute o c conditions
  let c ← contribute o c dependent
  Traced.emit (o.sourceRecords c.sources)
  Traced.emit (o.libraryRecords c.libraries)
  return { c with
    sources := o.keepSources d.directory c.sources
    libraries := o.nameLibraries c.libraries }

end Document

end BuildDesc
