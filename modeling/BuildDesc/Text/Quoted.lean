namespace BuildDesc.Quoted

def isQuote (c : Char) : Bool :=
  c == '\'' || c == '"'

/-- What a backslash followed by `c` stands for: the escaped character, nothing at the end of a
line, and otherwise both characters as they are. -/
def unescape (c : Char) : List Char :=
  if c = '\\' ∨ c = '\'' ∨ c = '"' then [c]
  else if c = 'n' then ['\n']
  else if c = 't' then ['\t']
  else if c = 'r' then ['\r']
  else if c = '\n' then []
  else ['\\', c]

def readBody (q : Char) : List Char → Option (List Char × List Char)
  | [] => none
  | ['\\'] => none
  | '\\' :: '\r' :: '\n' :: cs => readBody q cs
  | '\\' :: c :: cs => (readBody q cs).map fun (body, rest) => (unescape c ++ body, rest)
  | c :: cs =>
    if c = q then some ([], cs)
    else (readBody q cs).map fun (body, rest) => (c :: body, rest)

def read : List Char → Option (String × List Char)
  | [] => none
  | q :: cs =>
    if isQuote q then (readBody q cs).map fun (body, rest) => (String.ofList body, rest)
    else none

theorem length_lt_of_readBody {q : Char} {s body rest : List Char}
    (h : readBody q s = some (body, rest)) : rest.length < s.length := by
  fun_induction readBody q s generalizing body with
  | case1 => simp at h
  | case2 => simp at h
  | case3 cs ih =>
    have := ih h
    simp only [List.length_cons]
    omega
  | case4 c cs _ ih =>
    obtain ⟨⟨b, r⟩, hr, he⟩ := Option.map_eq_some_iff.1 h
    obtain ⟨-, rfl⟩ := Prod.mk.inj he
    have := ih hr
    simp only [List.length_cons]
    omega
  | case5 cs =>
    obtain ⟨-, rfl⟩ := Prod.mk.inj (Option.some.inj h)
    exact Nat.lt_succ_self _
  | case6 c cs _ _ _ _ ih =>
    obtain ⟨⟨b, r⟩, hr, he⟩ := Option.map_eq_some_iff.1 h
    obtain ⟨-, rfl⟩ := Prod.mk.inj he
    have := ih hr
    simp only [List.length_cons]
    omega

theorem length_lt_of_read {s rest : List Char} {t : String} (h : read s = some (t, rest)) :
    rest.length < s.length := by
  cases s with
  | nil => simp [read] at h
  | cons q cs =>
    simp only [read] at h
    split at h
    · obtain ⟨⟨b, r⟩, hr, he⟩ := Option.map_eq_some_iff.1 h
      obtain ⟨-, rfl⟩ := Prod.mk.inj he
      exact Nat.lt_succ_of_lt (length_lt_of_readBody hr)
    · simp at h

end BuildDesc.Quoted
