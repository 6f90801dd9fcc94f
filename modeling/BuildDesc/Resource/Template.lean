import BuildDesc.Error
import BuildDesc.Text.Word

namespace BuildDesc

inductive TemplatePart where
  | literal (c : Char)
  | key (k : String)
  deriving DecidableEq

namespace Template

def readKey (s : List Char) : Option (String × List Char) :=
  match s.takeWhile Word.isTail, s.dropWhile Word.isTail with
  | c :: cs, '@' :: rest => some (String.ofList (c :: cs), rest)
  | _, _ => none

theorem length_lt_of_readKey {s rest : List Char} {k : String} (h : readKey s = some (k, rest)) :
    rest.length < s.length := by
  have hle := Word.length_dropWhile_le Word.isTail s
  unfold readKey at h
  split at h
  · next hd =>
    obtain ⟨-, rfl⟩ := Prod.mk.inj (Option.some.inj h)
    rw [hd] at hle
    exact hle
  · simp at h

/-- The parts of a template. An at sign that begins no key stands for itself. -/
def parts (s : List Char) : List TemplatePart :=
  match s with
  | [] => []
  | c :: cs =>
    if c = '@' then
      match h : readKey cs with
      | some (k, rest) =>
        have : rest.length < cs.length := length_lt_of_readKey h
        .key k :: parts rest
      | none => .literal c :: parts cs
    else .literal c :: parts cs
termination_by s.length

def fill (value? : String → Option String) : List TemplatePart → Except Error (List Char)
  | [] => return []
  | .literal c :: ps => return c :: (← fill value? ps)
  | .key k :: ps =>
    match value? k with
    | some v => return v.toList ++ (← fill value? ps)
    | none => throw (.unknownTemplateKey k)

def render (value? : String → Option String) (template : String) : Except Error String :=
  String.ofList <$> fill value? (parts template.toList)

end Template

end BuildDesc
