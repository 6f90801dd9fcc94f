import BuildDesc.Buckets
import BuildDesc.Clause
import BuildDesc.Condition.Eval
import BuildDesc.Traced

namespace BuildDesc.Clause

def selected? (b : Bindings) (c : Clause) : Option (Branch Clause) :=
  if c.condition.holds b then some c.thenBranch else c.elseBranch

def selected (b : Bindings) (cs : List Clause) : List (Branch Clause) :=
  cs.filterMap (selected? b)

def records (b : Bindings) (c : Clause) : List Record :=
  (c.condition.unbound? b).toList.map .unbound ++
    [.condition c.predicate (c.selected? b).isSome]

def gather (b : Bindings) (found : Buckets) (cs : List Clause) : Buckets :=
  ((selected b cs).map Branch.block).foldl .merge found

def pending (b : Bindings) (cs : List Clause) : List Clause :=
  (selected b cs).flatMap Branch.nested

def evaluate (b : Bindings) (cs : List Clause) : Buckets :=
  gather b ∅ cs

/-- Decides clauses in round `number`, adds the settings that they select to `found`, and goes on
with the nested clauses in at most `later` more rounds. -/
def resolveFrom (b : Bindings) (number : Nat) (found : Buckets) (cs : List Clause) (later : Nat) :
    Traced Buckets := do
  Traced.emit (cs.flatMap (records b))
  if (pending b cs).isEmpty then
    return gather b found cs
  else
    match later with
    | 0 => Traced.fail (.tooManyRounds number)
    | later + 1 => do
      Traced.emit [.round number (pending b cs).length]
      resolveFrom b (number + 1) (gather b found cs) (pending b cs) later

/-- The settings that clauses and the clauses nested in them select. There are at most `maxRounds`
rounds, but always one. -/
def resolve (b : Bindings) (maxRounds : Nat) (cs : List Clause) : Traced Buckets :=
  resolveFrom b 1 ∅ cs (maxRounds - 1)

end BuildDesc.Clause
