import BuildDesc.Proofs.ConditionPrinting
import BuildDesc.Proofs.Lookups

namespace BuildDesc

inductive Connective where
  | and | or
  deriving DecidableEq

namespace Connective

open Condition

def join : Connective → Condition → Condition → Condition
  | and => .and
  | or => .or

def dual : Connective → Connective
  | and => or
  | or => and

/-- Whether the left operands that leave the right one to decide are the true ones. -/
def passes : Connective → Bool
  | and => true
  | or => false

def word : Connective → String
  | and => "and"
  | or => "or"

def tightness : Connective → Nat
  | and => 1
  | or => 0

/-- Operands joined by one word again and again, grouped to the left. -/
def chain (j : Connective) (c : Condition) (cs : List Condition) : Condition :=
  cs.foldl j.join c

def writeOperand (j : Connective) (c : Condition) : List Char :=
  place false (j.tightness + 1) c (write false c)

def writeChain (j : Connective) (c : Condition) (cs : List Condition) : List Char :=
  cs.foldl (fun s d => infixed s j.word.toList (j.writeOperand d)) (j.writeOperand c)

/-- Holds of conditions that join operands by one word, in any grouping. -/
inductive Groups (j : Connective) : List Condition → Condition → Prop
  | single (c : Condition) : Groups j [c] c
  | join {cs ds c d} (hc : Groups j cs c) (hd : Groups j ds d) : Groups j (cs ++ ds) (j.join c d)

end Connective

section Outcomes

variable {b : Bindings} {x y z x' y' : Condition} {e : Unbound} {l : Operand}

namespace Condition

theorem eval_not_of_ok (hx : eval b x = .ok l) : eval b (.not x) = .ok (.boolean (!l.truthy)) := by
  rw [eval, hx]
  rfl

theorem eval_not_of_error (hx : eval b x = .error e) : eval b (.not x) = .error e := by
  rw [eval, hx]
  rfl

theorem eval_not_congr (hx : eval b x = eval b x') : eval b (.not x) = eval b (.not x') := by
  rw [eval, eval, hx]

end Condition

namespace Connective

open Condition

theorem passes_dual (j : Connective) : j.dual.passes = !j.passes := by
  cases j <;> rfl

theorem eval_join (j : Connective) (b : Bindings) (x y : Condition) :
    eval b (j.join x y) = do
      let l ← eval b x
      if l.truthy = j.passes then eval b y else return l := by
  cases j with
  | and =>
    rw [join, eval]
    rfl
  | or =>
    rw [join, eval]
    cases eval b x with
    | error e => rfl
    | ok l =>
      change (if l.truthy = true then Except.ok l else eval b y) =
        if l.truthy = false then eval b y else Except.ok l
      cases l.truthy <;> rfl

theorem eval_join_of_error (j : Connective) (hx : eval b x = .error e) (y : Condition) :
    eval b (j.join x y) = .error e := by
  rw [eval_join, hx]
  rfl

theorem eval_join_of_passes {j : Connective} (hx : eval b x = .ok l) (hl : l.truthy = j.passes)
    (y : Condition) : eval b (j.join x y) = eval b y := by
  rw [eval_join, hx]
  exact if_pos hl

theorem eval_join_of_decides {j : Connective} (hx : eval b x = .ok l)
    (hl : l.truthy = j.dual.passes) (y : Condition) : eval b (j.join x y) = .ok l := by
  have hne : l.truthy ≠ j.passes := by
    rw [hl, passes_dual]
    cases j.passes <;> decide
  rw [eval_join, hx]
  exact if_neg hne

theorem eval_join_congr (j : Connective) (hx : eval b x = eval b x') (hy : eval b y = eval b y') :
    eval b (j.join x y) = eval b (j.join x' y') := by
  rw [eval_join, eval_join, hx, hy]

/-- The left operand has no value, or leaves the right one to decide, or decides itself. -/
theorem left_cases (j : Connective) (b : Bindings) (x : Condition) :
    (∃ e, eval b x = .error e) ∨ (∃ l, eval b x = .ok l ∧ l.truthy = j.passes) ∨
      ∃ l, eval b x = .ok l ∧ l.truthy = j.dual.passes := by
  cases eval b x with
  | error e => exact .inl ⟨e, rfl⟩
  | ok l =>
    by_cases hl : l.truthy = j.passes
    · exact .inr (.inl ⟨l, rfl, hl⟩)
    · refine .inr (.inr ⟨l, rfl, ?_⟩)
      rw [passes_dual]
      exact Bool.eq_not_of_ne hl

theorem eval_not_join (j : Connective) (b : Bindings) (x y : Condition) :
    eval b (.not (j.join x y)) = eval b (j.dual.join (.not x) (.not y)) := by
  rcases j.left_cases b x with ⟨e, hx⟩ | ⟨l, hx, hl⟩ | ⟨l, hx, hl⟩
  · rw [eval_not_of_error (j.eval_join_of_error hx y),
      j.dual.eval_join_of_error (eval_not_of_error hx)]
  · have hnot : (Operand.boolean (!l.truthy)).truthy = j.dual.passes := by
      rw [passes_dual, ← hl]
      rfl
    rw [eval_not_congr (eval_join_of_passes hx hl y),
      eval_join_of_passes (eval_not_of_ok hx) hnot]
  · have hnot : (Operand.boolean (!l.truthy)).truthy = j.dual.dual.passes := by
      rw [passes_dual, ← hl]
      rfl
    rw [eval_not_of_ok (eval_join_of_decides hx hl y),
      eval_join_of_decides (eval_not_of_ok hx) hnot]

theorem eval_join_assoc (j : Connective) (b : Bindings) (x y z : Condition) :
    eval b (j.join (j.join x y) z) = eval b (j.join x (j.join y z)) := by
  rcases j.left_cases b x with ⟨e, hx⟩ | ⟨l, hx, hl⟩ | ⟨l, hx, hl⟩
  · rw [j.eval_join_of_error (j.eval_join_of_error hx y), j.eval_join_of_error hx]
  · rw [j.eval_join_congr (eval_join_of_passes hx hl y) rfl, eval_join_of_passes hx hl]
  · rw [eval_join_of_decides (eval_join_of_decides hx hl y) hl, eval_join_of_decides hx hl]

theorem eval_join_dual (j : Connective) (b : Bindings) (x y z : Condition) :
    eval b (j.join x (j.dual.join y z)) = eval b (j.dual.join (j.join x y) (j.join x z)) := by
  rcases j.left_cases b x with ⟨e, hx⟩ | ⟨l, hx, hl⟩ | ⟨l, hx, hl⟩
  · rw [j.eval_join_of_error hx, j.dual.eval_join_of_error (j.eval_join_of_error hx y)]
  · rw [eval_join_of_passes hx hl,
      j.dual.eval_join_congr (eval_join_of_passes hx hl y) (eval_join_of_passes hx hl z)]
  · -- what decides for one word leaves the other operand to decide for the other word
    rw [eval_join_of_decides hx hl, eval_join_of_passes (eval_join_of_decides hx hl y) hl,
      eval_join_of_decides hx hl]

theorem eval_chain_congr (j : Connective) (h : eval b x = eval b x') (cs : List Condition) :
    eval b (j.chain x cs) = eval b (j.chain x' cs) := by
  induction cs generalizing x x' with
  | nil => exact h
  | cons c cs ih => exact ih (j.eval_join_congr h rfl)

theorem eval_join_chain (j : Connective) (b : Bindings) (x y : Condition) (cs : List Condition) :
    eval b (j.join x (j.chain y cs)) = eval b (j.chain (j.join x y) cs) := by
  induction cs generalizing y with
  | nil => rfl
  | cons c cs ih =>
    calc
      eval b (j.join x (j.chain (j.join y c) cs)) = eval b (j.chain (j.join x (j.join y c)) cs) :=
        ih (j.join y c)
      _ = eval b (j.chain (j.join (j.join x y) c) cs) :=
        j.eval_chain_congr (j.eval_join_assoc b x y c).symm cs

theorem Groups.exists_chain {j : Connective} {cs : List Condition} (h : Groups j cs x)
    (b : Bindings) : ∃ c ds, cs = c :: ds ∧ eval b x = eval b (j.chain c ds) := by
  induction h with
  | single c => exact ⟨c, [], rfl, rfl⟩
  | join _ _ ihx ihy =>
    obtain ⟨c, cs, rfl, hx⟩ := ihx
    obtain ⟨d, ds, rfl, hy⟩ := ihy
    refine ⟨c, cs ++ d :: ds, rfl, ?_⟩
    rw [j.eval_join_congr hx hy, eval_join_chain, chain, chain, chain, List.foldl_append]
    rfl

theorem eval_of_groups {j : Connective} {c : Condition} {cs : List Condition}
    (h : Groups j (c :: cs) x) (b : Bindings) : eval b x = eval b (j.chain c cs) := by
  obtain ⟨d, ds, he, hx⟩ := h.exists_chain b
  cases he
  exact hx

theorem reads_join (j : Connective) {s t : List Char} (hx : Reads j.tightness s x)
    (hy : Reads (j.tightness + 1) t y) :
    Reads j.tightness (infixed s j.word.toList t) (j.join x y) := by
  cases j with
  | and => exact hx.and hy
  | or => exact hx.or hy

theorem reads_operand (j : Connective) (h : ∀ n ∈ x.names, IsName n) :
    Reads (j.tightness + 1) (j.writeOperand x) x := by
  have hle : j.tightness + 1 ≤ 3 := by cases j <;> decide
  exact (reads_write false x h).place false hle

theorem reads_chain (j : Connective) {s : List Char} {cs : List Condition}
    (hx : Reads j.tightness s x) (h : ∀ c ∈ cs, ∀ n ∈ c.names, IsName n) :
    Reads j.tightness (cs.foldl (fun s d => infixed s j.word.toList (j.writeOperand d)) s)
      (j.chain x cs) := by
  induction cs generalizing s x with
  | nil => exact hx
  | cons c cs ih =>
    rw [List.forall_mem_cons] at h
    exact ih (j.reads_join hx (j.reads_operand h.1)) h.2

theorem parse_writeChain (j : Connective) {c : Condition} {cs : List Condition}
    (h : ∀ d ∈ c :: cs, ∀ n ∈ d.names, IsName n) :
    parse (String.ofList (j.writeChain c cs)) = .ok (j.chain c cs) := by
  rw [List.forall_mem_cons] at h
  have hc : Reads j.tightness (j.writeOperand c) c := (j.reads_operand h.1).of_le (Nat.le_succ _)
  exact parse_of_reads ((j.reads_chain hc h.2).of_le (Nat.zero_le _))

end Connective

end Outcomes

namespace Condition

/-- The laws of negation, of grouping and of distribution from the left. Each of them stands for
two: the one for `and` and the one for `or`. -/
inductive Law : Condition → Condition → Prop
  | not_join (j : Connective) (x y : Condition) :
    Law (.not (j.join x y)) (j.dual.join (.not x) (.not y))
  | assoc (j : Connective) (x y z : Condition) :
    Law (j.join (j.join x y) z) (j.join x (j.join y z))
  | distrib (j : Connective) (x y z : Condition) :
    Law (j.join x (j.dual.join y z)) (j.dual.join (j.join x y) (j.join x z))

/-- A condition with a hole in the place of one of its parts. -/
inductive Context where
  | hole
  | list (before : List Condition) (k : Context) (after : List Condition)
  | compareLeft (k : Context) (op : Comparison) (rhs : Condition)
  | compareRight (lhs : Condition) (op : Comparison) (k : Context)
  | not (k : Context)
  | joinLeft (j : Connective) (k : Context) (rhs : Condition)
  | joinRight (j : Connective) (lhs : Condition) (k : Context)

def Context.fill : Context → Condition → Condition
  | hole, c => c
  | list before k after, c => .list (before ++ k.fill c :: after)
  | compareLeft k op rhs, c => .compare (k.fill c) op rhs
  | compareRight lhs op k, c => .compare lhs op (k.fill c)
  | not k, c => .not (k.fill c)
  | joinLeft j k rhs, c => j.join (k.fill c) rhs
  | joinRight j lhs k, c => j.join lhs (k.fill c)

variable {b : Bindings} {c d : Condition}

theorem evalList_congr_at (h : eval b c = eval b d) (before after : List Condition) :
    evalList b (before ++ c :: after) = evalList b (before ++ d :: after) := by
  induction before with
  | nil => rw [List.nil_append, List.nil_append, evalList, evalList, h]
  | cons x before ih => rw [List.cons_append, List.cons_append, evalList, evalList, ih]

theorem eval_fill_congr (h : eval b c = eval b d) (k : Context) :
    eval b (k.fill c) = eval b (k.fill d) := by
  induction k with
  | hole => exact h
  | list before k after ih =>
    rw [Context.fill, Context.fill, eval, eval, evalList_congr_at ih]
  | compareLeft k op rhs ih => rw [Context.fill, Context.fill, eval, eval, ih]
  | compareRight lhs op k ih => rw [Context.fill, Context.fill, eval, eval, ih]
  | not k ih => exact eval_not_congr ih
  | joinLeft j k rhs ih => exact j.eval_join_congr ih rfl
  | joinRight j lhs k ih => exact j.eval_join_congr rfl ih

theorem eval_of_law (h : Law c d) (b : Bindings) : eval b c = eval b d := by
  cases h with
  | not_join j x y => exact j.eval_not_join b x y
  | assoc j x y z => exact j.eval_join_assoc b x y z
  | distrib j x y z => exact j.eval_join_dual b x y z

theorem holds_congr (h : eval b c = eval b d) : c.holds b = d.holds b := by
  rw [holds, holds, h]

/-- The two sides of a law have the same value or stop at the same name, within any condition, and
the operands of a chain may be grouped in any way. -/
theorem eval_laws (b : Bindings) :
    (∀ c d, Law c d → eval b c = eval b d ∧ ∀ k : Context,
      eval b (k.fill c) = eval b (k.fill d) ∧ (k.fill c).holds b = (k.fill d).holds b) ∧
    ∀ (j : Connective) (c : Condition) (cs : List Condition),
      ((∀ d ∈ c :: cs, ∀ x ∈ d.names, IsName x) →
        parse (String.ofList (j.writeChain c cs)) = .ok (j.chain c cs)) ∧
      ∀ d, j.Groups (c :: cs) d →
        eval b d = eval b (j.chain c cs) ∧ d.holds b = (j.chain c cs).holds b := by
  apply And.intro
  · intro c d h
    have heval := eval_of_law h b
    refine ⟨heval, fun k => ?_⟩
    have hfill := eval_fill_congr heval k
    exact ⟨hfill, holds_congr hfill⟩
  · intro j c cs
    refine ⟨j.parse_writeChain, fun d h => ?_⟩
    have heval := Connective.eval_of_groups h b
    exact ⟨heval, holds_congr heval⟩

theorem eval_laws_unbound :
    (Law (.and (.name "OS") (.or (.name "x") (.boolean true)))
        (.or (.and (.name "OS") (.name "x")) (.and (.name "OS") (.boolean true))) ∧
      eval (system "linux") (.not (.and (.name "OS") (.or (.name "x") (.boolean true)))) =
        eval (system "linux")
          (.not (.or (.and (.name "OS") (.name "x")) (.and (.name "OS") (.boolean true))))) ∧
    (∀ d ∈ [name "OS", .name "x", .boolean true], ∀ x ∈ d.names, IsName x) ∧
      parse "OS and x and True" = .ok (.and (.and (.name "OS") (.name "x")) (.boolean true)) ∧
    Connective.Groups .and [.name "OS", .name "x", .boolean true]
        (.and (.name "OS") (.and (.name "x") (.boolean true))) ∧
      eval (system "linux") (.and (.name "OS") (.and (.name "x") (.boolean true))) =
        eval (system "linux") (.and (.and (.name "OS") (.name "x")) (.boolean true)) := by
  obtain ⟨hlaw, hchain⟩ := eval_laws (system "linux")
  obtain ⟨hparse, hgroups⟩ := hchain .and (.name "OS") [.name "x", .boolean true]
  have hdistrib := Law.distrib .and (.name "OS") (.name "x") (.boolean true)
  have hnames : ∀ d ∈ [name "OS", .name "x", .boolean true], ∀ x ∈ d.names, IsName x := by
    decide
  have hright : Connective.Groups .and [.name "OS", .name "x", .boolean true]
      (.and (.name "OS") (.and (.name "x") (.boolean true))) :=
    .join (.single _) (.join (.single _) (.single _))
  exact ⟨⟨hdistrib, ((hlaw _ _ hdistrib).2 (.not .hole)).1⟩, hnames, hparse hnames, hright,
    (hgroups _ hright).1⟩

/-- From the right the words do not distribute: the second operand is looked up where the first one
had decided. -/
example :
    eval ∅ (.and (.or (.boolean true) (.name "x")) (.text "")) = .ok (.text "") ∧
      eval ∅ (.or (.and (.boolean true) (.text "")) (.and (.name "x") (.text ""))) =
        .error ⟨"x"⟩ :=
  ⟨rfl, rfl⟩

end Condition

end BuildDesc
