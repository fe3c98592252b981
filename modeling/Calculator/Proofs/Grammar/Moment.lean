import Calculator.Proofs.Grammar.Derivation
import Mathlib.Computability.StateTransition

/-!
The rules of the grammar while they run: which of them are active, and for what each one waits.

A rule calls another one and waits until it gives its outcome. So at any moment there is one rule at
work, and a stack of rules that wait, each with what it needs to go on. A step calls a rule, takes a
row further, or gives an outcome to the rule on top of the stack. Lexemes are kept as they are
consumed, and levels are opened and closed as the rules do it.

What a rule reads is also what these steps do, whatever waits below. The highest number of levels
that are open on the way exceeds the number at the start by the nesting of what is derived.

Main statements: the steps from a call of a rule lead to the outcome that is read (`Reads.runs`),
and so to what the rule gives (`rule_reaches`) and to the answer (`exists_runs`). The levels that
are open at once are those of a derivation (`exists_derives_opensAtMost`).
-/
namespace Calculator.Grammar

open StateTransition

/-- A call of a rule. The rule for a group is told where its parenthesis is. -/
inductive Call where
  | expression
  | inside (category : Category)
  | grouping (position : Nat)

/-- A rule that waits for one that it has called. -/
inductive Caller where
  | expression
  /-- A row without an operand yet. -/
  | first (precedence : Precedence)
  /-- A row that waits for the operand to the right of an operator. -/
  | right (precedence : Precedence) (operator : Operator) (left : Subtree) (position : Nat)
  | minus (position : Nat)
  | unsigned
  | primary
  | grouping

/-- What the rule at work does next. -/
inductive Control where
  | start (call : Call)
  | more (precedence : Precedence) (left : Subtree)
  | give (outcome : Except ParseError Subtree)

/-- The rules at a moment: the one at work, those that wait for it, the innermost first, and what
has been read. -/
structure Moment where
  control : Control
  callers : List Caller
  cursor : Cursor
  consumed : List Lexeme

namespace Moment

def give (outcome : Except ParseError Subtree) (moment : Moment) : Moment :=
  { moment with control := .give outcome }

def goOn (precedence : Precedence) (left : Subtree) (moment : Moment) : Moment :=
  { moment with control := .more precedence left }

def advance (moment : Moment) : Moment :=
  { moment with
    cursor := moment.cursor.skip
    consumed := moment.consumed ++ moment.cursor.peek?.toList }

def leave (moment : Moment) : Moment := { moment with cursor := moment.cursor.leave }

def call (caller : Caller) (callee : Call) (moment : Moment) : Moment :=
  { moment with control := .start callee, callers := caller :: moment.callers }

/-- A call inside a level that is opened for the lexeme at a position. -/
def callNested (position : Nat) (caller : Caller) (callee : Call) (moment : Moment) : Moment :=
  match moment.cursor.enter position with
  | .ok entered => { moment with cursor := entered }.call caller callee
  | .error error => moment.give (.error error)

/-- Goes on with a subtree, and gives an error on. -/
def andThen (outcome : Except ParseError Subtree) (continuation : Subtree → Moment → Moment)
    (moment : Moment) : Moment :=
  match outcome with
  | .ok subtree => continuation subtree moment
  | .error error => moment.give (.error error)

def start (moment : Moment) : Call → Moment
  | .expression => moment.call .expression (.inside (.row .additive))
  | .inside (.row precedence) => moment.call (.first precedence) (.inside precedence.operand)
  | .inside .unary =>
    match moment.cursor.peek? with
    | some ⟨.minus, span⟩ =>
      moment.advance.callNested span.start (.minus span.start) (.inside .unary)
    | _ => moment.call .unsigned (.inside .primary)
  | .inside .primary =>
    match moment.cursor.peek? with
    | some ⟨.literal value, _⟩ => moment.advance.give (.ok (.ofNumber value))
    | some ⟨.leftParen, span⟩ => moment.call .primary (.grouping span.start)
    | some ⟨token, span⟩ => moment.give (.error (.missingOperand (some token) span.start))
    | none => moment.give (.error (.missingOperand none moment.cursor.stop))
  | .grouping position => moment.advance.callNested position .grouping .expression

def more (precedence : Precedence) (left : Subtree) (moment : Moment) : Moment :=
  match nextOperator? precedence.operators moment.cursor with
  | none => moment.give (.ok left)
  | some (operator, position) =>
    moment.advance.call (.right precedence operator left position) (.inside precedence.operand)

/-- A group ends with its parenthesis. -/
def close (inner : Subtree) (moment : Moment) : Moment :=
  match moment.cursor.peek? with
  | some ⟨.rightParen, _⟩ => moment.advance.give (.ok inner)
  | some ⟨token, span⟩ =>
    moment.give (.error (.unexpected (some token) (some .rightParen) span.start))
  | none => moment.give (.error (.unexpected none (some .rightParen) moment.cursor.stop))

/-- A rule that has waited goes on. -/
def resume (outcome : Except ParseError Subtree) (moment : Moment) : Caller → Moment
  | .expression | .unsigned | .primary => moment.give outcome
  | .first precedence => moment.andThen outcome (goOn precedence)
  | .right precedence operator left position =>
    moment.andThen outcome fun right moment =>
      moment.andThen (Subtree.joined operator left right position) (goOn precedence)
  | .minus position =>
    moment.leave.andThen outcome fun operand moment => moment.give (operand.negated position)
  | .grouping => moment.leave.andThen outcome close

/-- The moment after one step, unless the first rule of all has its outcome. -/
def step (moment : Moment) : Option Moment :=
  match moment.control, moment.callers with
  | .start callee, _ => some (moment.start callee)
  | .more precedence left, _ => some (moment.more precedence left)
  | .give outcome, caller :: outer => some ({ moment with callers := outer }.resume outcome caller)
  | .give _, [] => none

/-- The first rule is called, and nothing is read yet. -/
def ofLexemes (lexemes : List Lexeme) : Moment :=
  ⟨.start .expression, [], .ofLexemes lexemes, []⟩

/-- The tree that the lexemes form, or why they form none, once the first rule has its outcome. -/
def answer? (moment : Moment) : Option (Except ParseError Expr) :=
  match moment.control, moment.callers with
  | .give outcome, [] => some <| outcome.bind fun subtree =>
    match moment.cursor.peek? with
    | some extra => .error (.unexpected (some extra.token) none extra.span.start)
    | none => .ok subtree.expr
  | _, _ => none

end Moment

/-- Steps lead from a moment to another one, and this many levels are open at most on the way. -/
inductive Runs : Nat → Moment → Moment → Prop
  | done {peak : Nat} {moment : Moment} (level : moment.cursor.depth = peak) :
      Runs peak moment moment
  | head {peak : Nat} {moment next last : Moment} (stepped : moment.step = some next)
      (others : Runs peak next last) : Runs (max moment.cursor.depth peak) moment last

section Runs

variable {peak peak' : Nat} {moment middle last : Moment}

theorem Runs.reaches (runs : Runs peak moment last) : Reaches Moment.step moment last := by
  induction runs with
  | done => exact .refl
  | head stepped others ih => exact .head stepped ih

theorem Runs.first_le (runs : Runs peak moment last) : moment.cursor.depth ≤ peak := by
  cases runs with
  | done level => exact Nat.le_of_eq level
  | head stepped others => exact Nat.le_max_left _ _

theorem Runs.last_le (runs : Runs peak moment last) : last.cursor.depth ≤ peak := by
  induction runs with
  | done level => exact Nat.le_of_eq level
  | head stepped others ih => exact Nat.le_trans ih (Nat.le_max_right _ _)

theorem Runs.step (stepped : moment.step = some middle) (low : moment.cursor.depth ≤ peak)
    (others : Runs peak middle last) : Runs peak moment last := by
  rw [← Nat.max_eq_right low]
  exact .head stepped others

theorem Runs.trans (first : Runs peak moment middle) (second : Runs peak' middle last) :
    Runs (max peak peak') moment last := by
  induction first with
  | done level => rwa [← level, Nat.max_eq_right second.first_le]
  | head stepped others ih =>
    rw [Nat.max_assoc]
    exact .head stepped (ih second)

theorem Runs.tail (first : Runs peak moment middle) (stepped : middle.step = some last)
    (low : last.cursor.depth ≤ peak) : Runs peak moment last := by
  have runs := first.trans (.head stepped (.done rfl))
  rwa [Nat.max_eq_left (Nat.max_le.mpr ⟨first.last_le, low⟩)] at runs

/-- Where the steps end, nothing else can be reached than what was passed on the way. -/
theorem Runs.depth_le (runs : Runs peak moment last) (ended : last.step = none)
    (reaches : Reaches Moment.step moment middle) : middle.cursor.depth ≤ peak := by
  induction runs with
  | @done peak moment level =>
    have same := (eval_maximal (mem_eval.mpr ⟨.refl, ended⟩)).mp reaches
    rw [same]
    exact Nat.le_of_eq level
  | head stepped others ih =>
    rcases Relation.ReflTransGen.cases_head reaches with rfl | ⟨next', stepped', later⟩
    · exact Nat.le_max_left _ _
    · obtain rfl := Option.some.inj (stepped.symm.trans stepped')
      exact Nat.le_trans (ih ended later) (Nat.le_max_right _ _)

theorem Runs.exists_depth_eq (runs : Runs peak moment last) :
    ∃ middle, Reaches Moment.step moment middle ∧ middle.cursor.depth = peak := by
  induction runs with
  | done level => exact ⟨_, .refl, level⟩
  | @head peak moment next last stepped others ih =>
    rcases Nat.le_total moment.cursor.depth peak with low | high
    · obtain ⟨middle, reaches, level⟩ := ih
      exact ⟨middle, .head stepped reaches, level.trans (Nat.max_eq_right low).symm⟩
    · exact ⟨moment, .refl, (Nat.max_eq_left high).symm⟩

end Runs

def Goal.control : Goal → Control
  | .whole category => .start (.inside category)
  | .more precedence left => .more precedence left

/-- A goal is met with an outcome, whatever waits for it, and this many levels are opened. -/
def Meets (stop : Nat) (goal : Goal) (depth nesting : Nat) (rest : List Lexeme)
    (outcome : Except ParseError Subtree) (stopped : List Lexeme) : Prop :=
  ∀ callers consumed, ∃ all, Runs (depth + nesting)
    ⟨goal.control, callers, ⟨rest, stop, depth⟩, consumed⟩
    ⟨.give outcome, callers, ⟨stopped, stop, depth⟩, all⟩

section Meets

variable {stop depth nesting nestingLeft nestingRight : Nat} {rest middle stopped : List Lexeme}
variable {outcome : Except ParseError Subtree} {callers : List Caller} {consumed : List Lexeme}

theorem meets_of_step {goal : Goal} (stepped : ∀ callers consumed, ∃ all,
    (⟨goal.control, callers, ⟨rest, stop, depth⟩, consumed⟩ : Moment).step =
      some ⟨.give outcome, callers, ⟨stopped, stop, depth⟩, all⟩) :
    Meets stop goal depth 0 rest outcome stopped := by
  intro callers consumed
  obtain ⟨all, stepped⟩ := stepped callers consumed
  exact ⟨all, .step stepped (Nat.le_refl _) (.done rfl)⟩

theorem meets_literal (value : Binary64) (span : Span) : Meets stop (.whole .primary) depth 0
    (⟨.literal value, span⟩ :: rest) (.ok (.ofNumber value)) rest :=
  meets_of_step fun _ _ => ⟨_, rfl⟩

theorem meets_noOperand (misfit : opensPrimary (front rest) = false) :
    Meets stop (.whole .primary) depth 0 rest
      (.error (.missingOperand (front rest) (place rest stop))) rest := by
  refine meets_of_step fun _ _ => ?_
  rcases rest with _ | ⟨⟨token, span⟩, rest⟩
  · exact ⟨_, rfl⟩
  · cases token <;> first | exact ⟨_, rfl⟩ | cases misfit

theorem callNested_of_room (control : Control) (position : Nat) (caller : Caller) (callee : Call)
    (room : depth < depthLimit) :
    (⟨control, callers, ⟨rest, stop, depth⟩, consumed⟩ : Moment).callNested position caller callee =
      ⟨.start callee, caller :: callers, ⟨rest, stop, depth + 1⟩, consumed⟩ := by
  simp [Moment.callNested, Cursor.enter, room, Moment.call]

theorem callNested_of_full (control : Control) (position : Nat) (caller : Caller) (callee : Call)
    (full : depthLimit ≤ depth) :
    (⟨control, callers, ⟨rest, stop, depth⟩, consumed⟩ : Moment).callNested position caller callee =
      ⟨.give (.error (.tooDeep depthLimit position)), callers, ⟨rest, stop, depth⟩, consumed⟩ := by
  simp [Moment.callNested, Cursor.enter, Nat.not_lt.mpr full, Moment.give]

theorem meets_groupTooDeep (span : Span) (full : depthLimit ≤ depth) :
    Meets stop (.whole .primary) depth 0 (⟨.leftParen, span⟩ :: rest)
      (.error (.tooDeep depthLimit span.start)) rest := by
  intro callers consumed
  have refused : (⟨.start (.grouping span.start), .primary :: callers,
      ⟨⟨.leftParen, span⟩ :: rest, stop, depth⟩, consumed⟩ : Moment).step = some ⟨_, _, _, _⟩ :=
    congrArg some (callNested_of_full _ span.start _ _ full)
  have level := Nat.le_refl depth
  exact ⟨_, .step rfl level (.step refused level (.step rfl level (.done rfl)))⟩

/-- In a parenthesis an expression is read one level further in, and then the group is closed. -/
theorem Meets.grouped {outcome' : Except ParseError Subtree} (span : Span)
    (room : depth < depthLimit)
    (inner : Meets stop (.whole (.row .additive)) (depth + 1) nesting rest outcome middle)
    (closed : ∀ callers consumed, ∃ all,
      (⟨.give outcome, .grouping :: callers, ⟨middle, stop, depth + 1⟩, consumed⟩ : Moment).step =
        some ⟨.give outcome', callers, ⟨stopped, stop, depth⟩, all⟩) :
    Meets stop (.whole .primary) depth (nesting + 1) (⟨.leftParen, span⟩ :: rest) outcome'
      stopped := by
  intro callers consumed
  have entered : (⟨.start (.grouping span.start), .primary :: callers,
      ⟨⟨.leftParen, span⟩ :: rest, stop, depth⟩, consumed⟩ : Moment).step = some ⟨_, _, _, _⟩ :=
    congrArg some (callNested_of_room _ span.start _ _ room)
  obtain ⟨read, runs⟩ := inner (.expression :: .grouping :: .primary :: callers)
    (consumed ++ [⟨.leftParen, span⟩])
  obtain ⟨all, closes⟩ := closed (.primary :: callers) read
  have level : depth ≤ depth + (nesting + 1) := Nat.le_add_right _ _
  rw [Nat.add_right_comm, Nat.add_assoc] at runs
  exact ⟨all, .step rfl level (.step entered level (.step rfl runs.first_le
    (((runs.tail rfl runs.last_le).tail closes level).tail rfl level)))⟩

theorem step_of_unclosed {subtree : Subtree} (unclosed : front rest ≠ some .rightParen) :
    ∃ all, (⟨.give (.ok subtree), .grouping :: callers, ⟨rest, stop, depth + 1⟩, consumed⟩ :
        Moment).step =
      some ⟨.give (.error (.unexpected (front rest) (some .rightParen) (place rest stop))), callers,
        ⟨rest, stop, depth⟩, all⟩ := by
  rcases rest with _ | ⟨⟨token, span⟩, rest⟩
  · exact ⟨_, rfl⟩
  · cases token <;> first | exact ⟨_, rfl⟩ | exact absurd rfl unclosed

theorem Meets.primary (unsigned : front rest ≠ some .minus)
    (inner : Meets stop (.whole .primary) depth nesting rest outcome stopped) :
    Meets stop (.whole .unary) depth nesting rest outcome stopped := by
  intro callers consumed
  have called : (⟨.start (.inside .unary), callers, ⟨rest, stop, depth⟩, consumed⟩ : Moment).step =
      some ⟨.start (.inside .primary), .unsigned :: callers, ⟨rest, stop, depth⟩, consumed⟩ := by
    rcases rest with _ | ⟨⟨token, span⟩, rest⟩
    · rfl
    · cases token <;> first | rfl | exact absurd rfl unsigned
  obtain ⟨all, runs⟩ := inner (.unsigned :: callers) consumed
  exact ⟨all, .step called runs.first_le (runs.tail rfl runs.last_le)⟩

theorem meets_minusTooDeep (span : Span) (full : depthLimit ≤ depth) :
    Meets stop (.whole .unary) depth 0 (⟨.minus, span⟩ :: rest)
      (.error (.tooDeep depthLimit span.start)) rest :=
  meets_of_step fun _ _ => ⟨_, congrArg some (callNested_of_full _ span.start _ _ full)⟩

theorem Meets.signed {outcome' : Except ParseError Subtree} (span : Span)
    (room : depth < depthLimit)
    (inner : Meets stop (.whole .unary) (depth + 1) nesting rest outcome stopped)
    (negated : ∀ callers consumed, (⟨.give outcome, .minus span.start :: callers,
        ⟨stopped, stop, depth + 1⟩, consumed⟩ : Moment).step =
      some ⟨.give outcome', callers, ⟨stopped, stop, depth⟩, consumed⟩) :
    Meets stop (.whole .unary) depth (nesting + 1) (⟨.minus, span⟩ :: rest) outcome' stopped := by
  intro callers consumed
  have entered : (⟨.start (.inside .unary), callers, ⟨⟨.minus, span⟩ :: rest, stop, depth⟩,
      consumed⟩ : Moment).step = some ⟨_, _, _, _⟩ :=
    congrArg some (callNested_of_room _ span.start _ _ room)
  obtain ⟨all, runs⟩ := inner (.minus span.start :: callers) (consumed ++ [⟨.minus, span⟩])
  have level : depth ≤ depth + (nesting + 1) := Nat.le_add_right _ _
  rw [Nat.add_right_comm, Nat.add_assoc] at runs
  exact ⟨all, .step entered level (runs.tail (negated _ _) level)⟩

theorem Meets.firstFails {error : ParseError} (precedence : Precedence)
    (first : Meets stop (.whole precedence.operand) depth nesting rest (.error error) stopped) :
    Meets stop (.whole (.row precedence)) depth nesting rest (.error error) stopped := by
  intro callers consumed
  obtain ⟨all, runs⟩ := first (.first precedence :: callers) consumed
  exact ⟨all, .step rfl runs.first_le (runs.tail rfl runs.last_le)⟩

theorem Meets.row {left : Subtree} (precedence : Precedence)
    (first : Meets stop (.whole precedence.operand) depth nestingLeft rest (.ok left) middle)
    (others : Meets stop (.more precedence left) depth nesting middle outcome stopped) :
    Meets stop (.whole (.row precedence)) depth (max nestingLeft nesting) rest outcome
      stopped := by
  intro callers consumed
  obtain ⟨read, runs⟩ := first (.first precedence :: callers) consumed
  obtain ⟨all, more⟩ := others callers read
  rw [← Nat.add_max_add_left]
  refine ⟨all, Runs.trans ?_ more⟩
  exact .step rfl runs.first_le (runs.tail rfl runs.last_le)

theorem meets_ended {precedence : Precedence} (left : Subtree)
    (no : (front rest).bind precedence.operators = none) :
    Meets stop (.more precedence left) depth 0 rest (.ok left) rest := by
  refine meets_of_step fun callers consumed => ⟨consumed, ?_⟩
  have found : nextOperator? precedence.operators ⟨rest, stop, depth⟩ = none :=
    (nextOperator?_eq_none_iff _).mpr no
  simp [Goal.control, Moment.step, Moment.more, found, Moment.give]

section Next

variable {precedence : Precedence} {token : Token} {operator : Operator} {span : Span}
variable {left : Subtree}

theorem step_more_of_known (known : precedence.operators token = some operator) :
    (⟨.more precedence left, callers, ⟨⟨token, span⟩ :: rest, stop, depth⟩, consumed⟩ :
        Moment).step =
      some ⟨.start (.inside precedence.operand),
        .right precedence operator left span.start :: callers, ⟨rest, stop, depth⟩,
        consumed ++ [⟨token, span⟩]⟩ := by
  have found : nextOperator? precedence.operators ⟨⟨token, span⟩ :: rest, stop, depth⟩ =
      some (operator, span.start) :=
    (nextOperator?_eq_some_iff _ _ _ _).mpr ⟨_, rfl, known, rfl⟩
  simp only [Moment.step, Moment.more, found]
  rfl

theorem Meets.nextFails {error : ParseError} (known : precedence.operators token = some operator)
    (next : Meets stop (.whole precedence.operand) depth nesting rest (.error error) stopped) :
    Meets stop (.more precedence left) depth nesting (⟨token, span⟩ :: rest) (.error error)
      stopped := by
  intro callers consumed
  obtain ⟨all, runs⟩ := next (.right precedence operator left span.start :: callers)
    (consumed ++ [⟨token, span⟩])
  exact ⟨all, .step (step_more_of_known known) runs.first_le (runs.tail rfl runs.last_le)⟩

theorem Meets.nextTooHigh {error : ParseError} {right : Subtree}
    (known : precedence.operators token = some operator)
    (next : Meets stop (.whole precedence.operand) depth nesting rest (.ok right) stopped)
    (high : Subtree.joined operator left right span.start = .error error) :
    Meets stop (.more precedence left) depth nesting (⟨token, span⟩ :: rest) (.error error)
      stopped := by
  intro callers consumed
  obtain ⟨all, runs⟩ := next (.right precedence operator left span.start :: callers)
    (consumed ++ [⟨token, span⟩])
  refine ⟨all, .step (step_more_of_known known) runs.first_le (runs.tail ?_ runs.last_le)⟩
  simp [Moment.step, Moment.resume, Moment.andThen, high, Moment.give]

theorem Meets.next {right higher : Subtree} (known : precedence.operators token = some operator)
    (next : Meets stop (.whole precedence.operand) depth nesting rest (.ok right) middle)
    (made : Subtree.joined operator left right span.start = .ok higher)
    (others : Meets stop (.more precedence higher) depth nestingRight middle outcome stopped) :
    Meets stop (.more precedence left) depth (max nesting nestingRight) (⟨token, span⟩ :: rest)
      outcome stopped := by
  intro callers consumed
  obtain ⟨read, runs⟩ := next (.right precedence operator left span.start :: callers)
    (consumed ++ [⟨token, span⟩])
  obtain ⟨all, more⟩ := others callers read
  rw [← Nat.add_max_add_left]
  refine ⟨all, Runs.trans ?_ more⟩
  refine .step (step_more_of_known known) runs.first_le (runs.tail ?_ runs.last_le)
  simp [Moment.step, Moment.resume, Moment.andThen, made, Moment.goOn, Goal.control]

end Next
end Meets

/-- What is read, the steps of the rules come to, and the levels that they open are nested in what
is derived. -/
theorem Reads.runs {stop depth : Nat} {goal : Goal} {rest stopped : List Lexeme}
    {outcome : Except ParseError Subtree} (reads : Reads stop goal depth rest outcome stopped) :
    ∃ nesting, Meets stop goal depth nesting rest outcome stopped ∧
      ∀ subtree, outcome = .ok subtree → goal.FormsFrom nesting rest stopped subtree.expr := by
  -- Every way that a rule can go is its parts one after another. A level adds one to the nesting of
  -- what is inside, and of two parts of a row the one with more levels counts.
  induction reads with
  | literal value span rest =>
    refine ⟨0, meets_literal value span, ?_⟩
    rintro _ ⟨⟩
    exact formsFrom_literal value span rest
  | noOperand rest misfit => exact ⟨0, meets_noOperand misfit, nofun⟩
  | groupTooDeep span rest full => exact ⟨0, meets_groupTooDeep span full, nofun⟩
  | groupFails span room inner ih =>
    obtain ⟨nesting, meets, -⟩ := ih
    exact ⟨nesting + 1, meets.grouped span room fun _ _ => ⟨_, rfl⟩, nofun⟩
  | groupUnclosed span room inner unclosed ih =>
    obtain ⟨nesting, meets, -⟩ := ih
    exact ⟨nesting + 1, meets.grouped span room fun _ _ => step_of_unclosed unclosed, nofun⟩
  | group span last room inner ih =>
    obtain ⟨nesting, meets, forms⟩ := ih
    exact ⟨nesting + 1, meets.grouped span room fun _ _ => ⟨_, rfl⟩,
      fun subtree returned => (forms subtree returned).group span⟩
  | primary unsigned inner ih =>
    obtain ⟨nesting, meets, forms⟩ := ih
    exact ⟨nesting, meets.primary unsigned, fun subtree returned =>
      (forms subtree returned).primary⟩
  | minusTooDeep span rest full => exact ⟨0, meets_minusTooDeep span full, nofun⟩
  | minusFails span room inner ih =>
    obtain ⟨nesting, meets, -⟩ := ih
    exact ⟨nesting + 1, meets.signed span room fun _ _ => rfl, nofun⟩
  | minus span room inner ih =>
    obtain ⟨nesting, meets, forms⟩ := ih
    refine ⟨nesting + 1, meets.signed span room fun _ _ => rfl, fun subtree returned => ?_⟩
    obtain ⟨_, rfl⟩ := (Subtree.ofNode_eq_ok_iff _ _ _ _).mp returned
    exact (forms _ rfl).minus span
  | firstFails precedence first ih =>
    obtain ⟨nesting, meets, -⟩ := ih
    exact ⟨nesting, meets.firstFails precedence, nofun⟩
  | row precedence first others ihFirst ih =>
    obtain ⟨nestingLeft, meetsFirst, formsFirst⟩ := ihFirst
    obtain ⟨nesting, meets, forms⟩ := ih
    exact ⟨_, meetsFirst.row precedence meets, fun subtree returned =>
      (formsFirst _ rfl).row (forms subtree returned)⟩
  | ended precedence left rest no =>
    refine ⟨0, meets_ended left no, ?_⟩
    rintro _ ⟨⟩
    exact formsFrom_ended precedence left rest
  | nextFails left span known next ih =>
    obtain ⟨nesting, meets, -⟩ := ih
    exact ⟨nesting, meets.nextFails known, nofun⟩
  | nextTooHigh known next high ih =>
    obtain ⟨nesting, meets, -⟩ := ih
    exact ⟨nesting, meets.nextTooHigh known high, nofun⟩
  | next known next made others ihNext ih =>
    obtain ⟨nestingNext, meetsNext, formsNext⟩ := ihNext
    obtain ⟨nesting, meets, forms⟩ := ih
    refine ⟨_, meetsNext.next known made meets, fun subtree returned => ?_⟩
    obtain ⟨rfl, rfl⟩ := (operators_eq_some_iff _ _ _).mp known
    obtain ⟨_, rfl⟩ := (Subtree.ofNode_eq_ok_iff _ _ _ _).mp made
    exact (formsNext _ rfl).next (forms subtree returned) rfl _

/-- Whatever waits below a call of a rule, the steps give the outcome of the rule and leave the
cursor where the rule does. -/
theorem rule_reaches (levels depth : Nat) (enough : depthLimit ≤ depth + levels)
    (category : Category) (rest : List Lexeme) (stop : Nat) (callers : List Caller)
    (consumed : List Lexeme) :
    ∃ read, Reaches Moment.step
      ⟨.start (.inside category), callers, ⟨rest, stop, depth⟩, consumed⟩
      ⟨.give (category.rule levels ⟨rest, stop, depth⟩).1, callers,
        (category.rule levels ⟨rest, stop, depth⟩).2, read⟩ := by
  obtain ⟨outcome, stopped, returned, reads⟩ :=
    follows_rule levels depth enough category rest stop
  obtain ⟨_, meets, -⟩ := reads.runs
  obtain ⟨read, runs⟩ := meets callers consumed
  rw [returned]
  exact ⟨read, runs.reaches⟩

/-- The calls come to an end with the answer, and if it is a tree, then as many levels were open at
most as are nested in what is derived. -/
theorem exists_runs (lexemes : List Lexeme) : ∃ nesting final,
    Runs nesting (.ofLexemes lexemes) final ∧ final.step = none ∧
      final.answer? = some (Expr.ofLexemes lexemes) ∧
      ∀ e, Expr.ofLexemes lexemes = .ok e →
        Derives (.row .additive) (tokens lexemes) nesting e := by
  obtain ⟨outcome, stopped, reads⟩ := exists_readsExpression lexemes
  obtain ⟨nesting, meets, forms⟩ := reads.runs
  obtain ⟨all, runs⟩ := meets [.expression] []
  rw [Nat.zero_add] at runs
  -- The rule for an expression calls the one for a row, and gives its outcome on.
  refine ⟨nesting, ⟨.give outcome, [], ⟨stopped, (Cursor.ofLexemes lexemes).stop, 0⟩, all⟩,
    .step rfl (Nat.zero_le _) (runs.tail rfl (Nat.zero_le _)), rfl, ?_, ?_⟩
  · rw [ofLexemes_of_reads reads]
    cases outcome with
    | error error => rfl
    | ok subtree => cases stopped <;> rfl
  · intro e returned
    obtain ⟨subtree, rfl, rfl, rfl⟩ := exists_reads_of_ofLexemes returned reads
    obtain ⟨read, same, derives⟩ := forms subtree rfl
    obtain rfl : lexemes = read := same.trans (List.append_nil read)
    exact derives

/-- At most this many levels are open at any moment while these lexemes are parsed. -/
def OpensAtMost (limit : Nat) (lexemes : List Lexeme) : Prop :=
  ∀ moment, Reaches Moment.step (.ofLexemes lexemes) moment → moment.cursor.depth ≤ limit

/-- The levels that are open at once are those that are nested in what is derived. -/
theorem exists_derives_opensAtMost {lexemes : List Lexeme} {e : Expr}
    (parsed : Expr.ofLexemes lexemes = .ok e) :
    ∃ nesting, Derives (.row .additive) (tokens lexemes) nesting e ∧
      ∀ limit, OpensAtMost limit lexemes ↔ nesting ≤ limit := by
  obtain ⟨nesting, final, runs, ended, -, derived⟩ := exists_runs lexemes
  refine ⟨nesting, derived e parsed, fun limit => ⟨fun low => ?_, fun within moment reaches => ?_⟩⟩
  · obtain ⟨highest, reaches, rfl⟩ := runs.exists_depth_eq
    exact low highest reaches
  · exact Nat.le_trans (runs.depth_le ended reaches) within

end Calculator.Grammar
