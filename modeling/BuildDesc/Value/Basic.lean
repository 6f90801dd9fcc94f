import BuildDesc.Dict

namespace BuildDesc

inductive Value where
  | text (s : String)
  | integer (n : Int64)
  | boolean (b : Bool)
  | null
  | list (items : List Value)
  | mapping (block : Dict Value)

inductive Kind where
  | text | integer | boolean | null | list | mapping
  deriving DecidableEq

def Kind.name : Kind → String
  | .text => "string"
  | .integer => "integer"
  | .boolean => "boolean"
  | .null => "None"
  | .list => "list"
  | .mapping => "mapping"

namespace Value

def kind : Value → Kind
  | text _ => .text
  | integer _ => .integer
  | boolean _ => .boolean
  | null => .null
  | list _ => .list
  | mapping _ => .mapping

mutual

/-- Whether two values are equal; the order of entries counts. -/
def same : Value → Value → Bool
  | text s, text t => s == t
  | integer m, integer n => m == n
  | boolean a, boolean b => a == b
  | null, null => true
  | list vs, list ws => sameList vs ws
  | mapping d, mapping e => sameEntries d.entries e.entries
  | _, _ => false

def sameList : List Value → List Value → Bool
  | [], [] => true
  | v :: vs, w :: ws => same v w && sameList vs ws
  | _, _ => false

def sameEntries : List (String × Value) → List (String × Value) → Bool
  | [], [] => true
  | (j, v) :: es, (k, w) :: fs => j == k && same v w && sameEntries es fs
  | _, _ => false

end

mutual

theorem same_iff : ∀ {v w : Value}, same v w ↔ v = w
  | text _, w => by cases w <;> simp [same]
  | integer _, w => by cases w <;> simp [same]
  | boolean _, w => by cases w <;> simp [same]
  | null, w => by cases w <;> simp [same]
  | list _, w => by cases w <;> simp [same, sameList_iff]
  | mapping ⟨es⟩, w => by
    cases w with
    | mapping e =>
      obtain ⟨fs⟩ := e
      simp [same, @sameEntries_iff es]
    | _ => simp [same]

theorem sameList_iff : ∀ {vs ws : List Value}, sameList vs ws ↔ vs = ws
  | [], ws => by cases ws <;> simp [sameList]
  | _ :: _, ws => by cases ws <;> simp [sameList, same_iff, sameList_iff]

theorem sameEntries_iff : ∀ {es fs : List (String × Value)}, sameEntries es fs ↔ es = fs
  | [], fs => by cases fs <;> simp [sameEntries]
  | (_, _) :: _, fs => by
    rcases fs with _ | ⟨⟨_, _⟩, _⟩ <;> simp [sameEntries, same_iff, sameEntries_iff]

end

instance : DecidableEq Value := fun _ _ => decidable_of_iff _ same_iff

end Value

end BuildDesc
