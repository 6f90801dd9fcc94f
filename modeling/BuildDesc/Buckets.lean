import BuildDesc.Value.Basic
import Std.Data.ExtTreeMap

namespace BuildDesc

/-- The values of each category. A category can be there without values. -/
structure Buckets where
  categories : Std.ExtTreeMap String (List Value)
  deriving DecidableEq

namespace Buckets

instance : EmptyCollection Buckets := ⟨⟨∅⟩⟩

def get? (b : Buckets) (category : String) : Option (List Value) :=
  b.categories[category]?

def values (b : Buckets) (category : String) : List Value :=
  (b.get? category).getD []

def contains (b : Buckets) (category : String) : Bool :=
  b.categories.contains category

def isEmpty (b : Buckets) : Bool :=
  b.categories.isEmpty

def toList (b : Buckets) : List (String × List Value) :=
  b.categories.toList

/-- Adds values at the end of a category, which is there from then on. -/
def extend (b : Buckets) (category : String) (vs : List Value) : Buckets :=
  ⟨b.categories.alter category fun us => some (us.getD [] ++ vs)⟩

mutual

def mergeEntries (b : Buckets) : List (String × Value) → Buckets
  | [] => b
  | (k, v) :: es => (b.mergeEntry k v).mergeEntries es

/-- Adds what stands under the key `k`: the items of a list, and the entries of a mapping in
categories of their own. Anything else leaves its category as it is. -/
def mergeEntry (b : Buckets) (k : String) : Value → Buckets
  | .list items => b.extend k items
  | .mapping block => (b.extend k []).mergeEntries block.entries
  | _ => b.extend k []

end

def merge (b : Buckets) (block : Dict Value) : Buckets :=
  b.mergeEntries block.entries

def append (b c : Buckets) : Buckets :=
  c.toList.foldl (fun b e => b.extend e.1 e.2) b

instance : Append Buckets := ⟨append⟩

def ofBlocks (blocks : List (Dict Value)) : Buckets :=
  blocks.foldl merge ∅

@[simp] theorem get?_empty (category : String) : (∅ : Buckets).get? category = none :=
  Std.ExtTreeMap.getElem?_empty

theorem get?_extend (b : Buckets) (k category : String) (vs : List Value) :
    (b.extend k vs).get? category =
      if k = category then some (b.values k ++ vs) else b.get? category := by
  simp [get?, values, extend, Std.ExtTreeMap.getElem?_alter]

theorem ext_get? {b c : Buckets} (h : ∀ category, b.get? category = c.get? category) : b = c := by
  obtain ⟨b⟩ := b
  obtain ⟨c⟩ := c
  exact congrArg mk (Std.ExtTreeMap.ext_getElem? h)

end Buckets

end BuildDesc
