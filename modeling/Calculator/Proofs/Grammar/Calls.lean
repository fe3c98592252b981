import Calculator.Proofs.Grammar.Moment

/-!
How many calls of the rules can be active at once.

Between two levels a rule is called by one of a lower rank only, and there are six ranks. A minus
and a parenthesis call a rule of any rank, but inside a level that they have opened, and no more
levels are open than the limit allows. The levels open are those of the rules that wait, at every
moment: an error too is given on through all of them.

Main statement: a bounded number of calls is active, lexemes are consumed in order and once, and the
calls come to an end with the answer (`calls_bounded`).
-/
namespace Calculator.Grammar

open StateTransition

def Category.rank : Category → Nat
  | .row .additive => 1
  | .row .multiplicative => 2
  | .unary => 3
  | .primary => 4

def Call.rank : Call → Nat
  | .expression => 0
  | .inside category => category.rank
  | .grouping _ => 5

def Caller.rank : Caller → Nat
  | .expression => 0
  | .first precedence => Category.rank (.row precedence)
  | .right precedence _ _ _ => Category.rank (.row precedence)
  | .minus _ => Category.rank .unary
  | .unsigned => Category.rank .unary
  | .primary => Category.rank .primary
  | .grouping => 5

/-- Any rule can be the one that gives an outcome, so it has the highest rank then. -/
def Control.rank : Control → Nat
  | .start callee => callee.rank
  | .more precedence _ => Category.rank (.row precedence)
  | .give _ => 5

/-- How many levels a rule that waits has opened. -/
def Caller.opened : Caller → Nat
  | .minus _ => 1
  | .grouping => 1
  | .expression | .first _ | .right .. | .unsigned | .primary => 0

def levels : List Caller → Nat
  | [] => 0
  | caller :: outer => caller.opened + levels outer

theorem Precedence.rank_lt_operand (precedence : Precedence) :
    Category.rank (.row precedence) < precedence.operand.rank := by
  cases precedence <;> decide

theorem Category.rank_le (category : Category) : category.rank ≤ 4 := by
  rcases category with (_ | _) | _ | _ <;> decide

theorem Caller.rank_le (caller : Caller) : caller.rank ≤ 5 := by
  cases caller with
  | first | right => exact Nat.le_succ_of_le (Category.rank_le _)
  | expression | minus | unsigned | primary | grouping => exact Nat.le_of_ble_eq_true rfl

theorem Control.rank_le (control : Control) : control.rank ≤ 5 := by
  cases control with
  | start callee =>
    cases callee with
    | inside category => exact Nat.le_succ_of_le category.rank_le
    | expression | grouping => simp [rank, Call.rank]
  | more precedence => exact Nat.le_succ_of_le (Category.rank_le _)
  | give => exact Nat.le_refl 5

/-- Every rule that waits has as few others below it as its rank and the levels open there allow. -/
def Placed : List Caller → Prop
  | [] => True
  | caller :: outer => outer.length ≤ 6 * levels outer + caller.rank ∧ Placed outer

namespace Moment

/-- How many calls are active. -/
def calls (moment : Moment) : Nat := moment.callers.length + 1

/-- The moment after one step, unless more calls than these would be active. -/
def stepWithin (budget : Nat) (moment : Moment) : Option Moment :=
  moment.step.filter fun next => decide (next.calls ≤ budget)

/-- What holds at every moment. -/
structure Regular (lexemes : List Lexeme) (moment : Moment) : Prop where
  placed : Placed moment.callers
  few : moment.callers.length ≤ 6 * levels moment.callers + moment.control.rank
  depth_eq : moment.cursor.depth = levels moment.callers
  depth_le : moment.cursor.depth ≤ depthLimit
  consumed_append : moment.consumed ++ moment.cursor.rest = lexemes

section Regular

variable {lexemes : List Lexeme} {moment next : Moment} {caller : Caller} {outer : List Caller}
variable {callee : Call}

theorem regular_ofLexemes (lexemes : List Lexeme) : (ofLexemes lexemes).Regular lexemes :=
  ⟨trivial, Nat.le_refl 0, rfl, Nat.zero_le _, rfl⟩

theorem Regular.calls_le (regular : moment.Regular lexemes) : moment.calls ≤ 6 * 512 + 6 := by
  have rank := moment.control.rank_le
  have depth : levels moment.callers ≤ 512 := regular.depth_eq ▸ regular.depth_le
  have few := regular.few
  rw [calls]
  omega

theorem Regular.advance (regular : moment.Regular lexemes) : moment.advance.Regular lexemes := by
  refine ⟨regular.placed, regular.few, regular.depth_eq, regular.depth_le, ?_⟩
  have front : moment.cursor.peek?.toList ++ moment.cursor.skip.rest = moment.cursor.rest := by
    cases found : moment.cursor.rest <;> simp [Cursor.peek?, found]
  rw [Moment.advance, List.append_assoc, front, regular.consumed_append]

theorem Regular.give (regular : moment.Regular lexemes) (outcome : Except ParseError Subtree) :
    (moment.give outcome).Regular lexemes where
  placed := regular.placed
  few := Nat.le_trans regular.few (Nat.add_le_add_left moment.control.rank_le _)
  depth_eq := regular.depth_eq
  depth_le := regular.depth_le
  consumed_append := regular.consumed_append

theorem Regular.call (regular : moment.Regular lexemes) (own : moment.control.rank = caller.rank)
    (flat : caller.opened = 0) (rises : caller.rank < callee.rank) :
    (moment.call caller callee).Regular lexemes where
  placed := ⟨own ▸ regular.few, regular.placed⟩
  few := by
    have few := regular.few
    rw [own] at few
    rw [Moment.call, List.length_cons, levels, flat, Control.rank]
    omega
  depth_eq := by
    rw [Moment.call, levels, flat, Nat.zero_add]
    exact regular.depth_eq
  depth_le := regular.depth_le
  consumed_append := regular.consumed_append

/-- Inside a new level, a rule of any rank can be called. -/
theorem Regular.callNested (regular : moment.Regular lexemes) (position : Nat)
    (own : moment.control.rank = caller.rank) (opens : caller.opened = 1) :
    (moment.callNested position caller callee).Regular lexemes := by
  unfold Moment.callNested
  cases opened : moment.cursor.enter position with
  | error error => exact regular.give _
  | ok entered =>
    obtain ⟨room, rfl⟩ := (Cursor.enter_eq_ok_iff _ _ _).mp opened
    have few := regular.few
    have rank := moment.control.rank_le
    refine ⟨⟨own ▸ few, regular.placed⟩, ?_, ?_, room, regular.consumed_append⟩
    · -- The new level makes room for six more calls, so the rank may start again from the lowest.
      change moment.callers.length + 1 ≤ 6 * levels (caller :: moment.callers) + callee.rank
      rw [levels, opens]
      omega
    · change moment.cursor.depth + 1 = levels (caller :: moment.callers)
      rw [levels, opens, regular.depth_eq, Nat.add_comm]

theorem Regular.start (regular : moment.Regular lexemes) (begun : moment.control = .start callee) :
    (moment.start callee).Regular lexemes := by
  have own (rank : Nat) (same : callee.rank = rank) : moment.control.rank = rank := by
    rw [begun]
    exact same
  unfold Moment.start
  split
  next => exact regular.call (own _ rfl) rfl (Nat.zero_lt_one)
  next precedence =>
    exact regular.call (own _ rfl) rfl precedence.rank_lt_operand
  next =>
    split
    · exact regular.advance.callNested _ (own _ rfl) rfl
    · exact regular.call (own _ rfl) rfl (Nat.lt_succ_self _)
  next =>
    split
    · exact regular.advance.give _
    · exact regular.call (own _ rfl) rfl (Nat.lt_succ_self _)
    · exact regular.give _
    · exact regular.give _
  next => exact regular.advance.callNested _ (own _ rfl) rfl

theorem Regular.more {precedence : Precedence} {left : Subtree} (regular : moment.Regular lexemes)
    (begun : moment.control = .more precedence left) :
    (moment.more precedence left).Regular lexemes := by
  unfold Moment.more
  split
  · exact regular.give _
  · exact regular.advance.call (congrArg Control.rank begun) rfl
      precedence.rank_lt_operand

theorem Regular.close (regular : moment.Regular lexemes) (inner : Subtree) :
    (moment.close inner).Regular lexemes := by
  unfold Moment.close
  split
  · exact regular.advance.give _
  · exact regular.give _
  · exact regular.give _

/-- A rule that has waited goes on with as many levels open as when it made its call. -/
theorem Regular.popped (regular : moment.Regular lexemes)
    (waiting : moment.callers = caller :: outer) (control : Control)
    (rank : caller.rank ≤ control.rank) (cursor : Cursor) (same : cursor.rest = moment.cursor.rest)
    (closed : cursor.depth + caller.opened = moment.cursor.depth) :
    Regular lexemes ⟨control, outer, cursor, moment.consumed⟩ := by
  have placed := regular.placed
  have depth := regular.depth_eq
  have bound := regular.depth_le
  rw [waiting] at placed
  rw [waiting, levels] at depth
  have level : cursor.depth = levels outer := by omega
  have within : cursor.depth ≤ depthLimit := by omega
  exact ⟨placed.2, Nat.le_trans placed.1 (Nat.add_le_add_left rank _), level, within,
    same ▸ regular.consumed_append⟩

theorem Regular.resume {outcome : Except ParseError Subtree} (regular : moment.Regular lexemes)
    (giving : moment.control = .give outcome) (waiting : moment.callers = caller :: outer) :
    ({ moment with callers := outer }.resume outcome caller).Regular lexemes := by
  have goesOn := regular.popped waiting
  have gives (outcome : Except ParseError Subtree) := goesOn (.give outcome) caller.rank_le
  have leave (opens : caller.opened = 1) :
      moment.cursor.leave.depth + caller.opened = moment.cursor.depth := by
    have depth := regular.depth_eq
    rw [waiting, levels, opens] at depth
    rw [Cursor.depth_leave, opens]
    omega
  -- An error is given on, but not before the level of a minus or a parenthesis is closed.
  cases caller with
  | expression | unsigned | primary => exact gives outcome _ rfl rfl
  | first precedence =>
    cases outcome with
    | error error => exact gives _ _ rfl rfl
    | ok left => exact goesOn (.more precedence left) (Nat.le_refl _) _ rfl rfl
  | right precedence operator left position =>
    cases outcome with
    | error error => exact gives _ _ rfl rfl
    | ok right =>
      cases made : Subtree.joined operator left right position with
      | error error =>
        simp only [Moment.resume, Moment.andThen, made]
        exact gives _ _ rfl rfl
      | ok higher =>
        simp only [Moment.resume, Moment.andThen, made]
        exact goesOn (.more precedence higher) (Nat.le_refl _) _ rfl rfl
  | minus position =>
    cases outcome with
    | error error => exact gives _ _ rfl (leave rfl)
    | ok operand => exact gives _ _ rfl (leave rfl)
  | grouping =>
    cases outcome with
    | error error => exact gives _ _ rfl (leave rfl)
    | ok inner =>
      have rank : Caller.grouping.rank ≤ moment.control.rank := by
        rw [giving]
        exact Nat.le_refl 5
      exact (goesOn moment.control rank moment.cursor.leave rfl (leave rfl)).close inner

theorem Regular.step (regular : moment.Regular lexemes) (stepped : moment.step = some next) :
    next.Regular lexemes := by
  unfold Moment.step at stepped
  split at stepped
  next begun => exact Option.some.inj stepped ▸ regular.start begun
  next begun => exact Option.some.inj stepped ▸ regular.more begun
  next giving waiting => exact Option.some.inj stepped ▸ regular.resume giving waiting
  next => cases stepped

theorem Regular.reaches (regular : moment.Regular lexemes)
    (reaches : Reaches Moment.step moment next) : next.Regular lexemes := by
  induction reaches with
  | refl => exact regular
  | tail earlier stepped ih => exact ih.step stepped

/-- A budget that is never exceeded changes nothing. -/
theorem reaches_stepWithin {budget : Nat}
    (low : ∀ next, Reaches Moment.step moment next → next.calls ≤ budget)
    (reaches : Reaches Moment.step moment next) :
    Reaches (stepWithin budget) moment next := by
  induction reaches with
  | refl => exact .refl
  | @tail middle next earlier stepped ih =>
    have within : stepWithin budget middle = some next := by
      rw [stepWithin, Option.mem_def.mp stepped, Option.filter_some,
        if_pos (decide_eq_true (low next (.tail earlier stepped)))]
    exact .tail ih within

end Regular
end Moment

/-- At every moment a bounded number of calls is active, and the lexemes have been consumed in order
up to those that are left. Within this bound the calls come to an end, with the answer. -/
theorem calls_bounded (lexemes : List Lexeme) :
    (∃ final, Reaches (Moment.stepWithin (6 * 512 + 6)) (.ofLexemes lexemes) final ∧
      final.step = none ∧ final.answer? = some (Expr.ofLexemes lexemes)) ∧
    ∀ moment, Reaches Moment.step (.ofLexemes lexemes) moment →
      moment.calls ≤ 6 * 512 + 6 ∧ moment.consumed ++ moment.cursor.rest = lexemes := by
  have regular (moment : Moment) (reaches : Reaches Moment.step (.ofLexemes lexemes) moment) :=
    (Moment.regular_ofLexemes lexemes).reaches reaches
  have low (moment : Moment) (reaches : Reaches Moment.step (.ofLexemes lexemes) moment) :=
    (regular moment reaches).calls_le
  constructor
  · obtain ⟨_, final, runs, ended, answer, -⟩ := exists_runs lexemes
    exact ⟨final, Moment.reaches_stepWithin low runs.reaches, ended, answer⟩
  · exact fun moment reaches => ⟨low moment reaches, (regular moment reaches).consumed_append⟩

end Calculator.Grammar
