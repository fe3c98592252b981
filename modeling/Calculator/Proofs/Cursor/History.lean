import Calculator.Proofs.Cursor.Lookahead
import Mathlib.Data.List.Induction

/-!
What a replay shows, told from the steps before.

Going back undoes what was done since the cursor was saved, so of all steps only some have led to
the cursor in use. These tell everything about it: how many lexemes were passed, and how many levels
are open, by a counter that stops at zero and at the limit. Neither of the two has a part in the
other, and looking ahead has a part in none.

Main statements: a cursor is where its history leads (`after_start`), steps that leave alone what
others depend on can be left out (`answers_eq_run_filter`), and so a replay behaves as a position in
a list and a bounded counter (`replay_conduct`).
-/
namespace Calculator.Cursor

namespace Replay

/-- The answers to the steps of one kind. -/
def answers (kind : Step → Bool) (replay : Replay) (steps : List Step) : List Answer :=
  ((steps.zip (replay.run steps)).filter fun answered => kind answered.1).map (·.2)

variable (replay : Replay) (next : Step) (steps later : List Step)

theorem after_cons : replay.after (next :: steps) = (replay.step next).2.after steps := rfl

theorem after_append : replay.after (steps ++ later) = (replay.after steps).after later :=
  List.foldl_append

/-- What no step changes is the same after all of them. -/
theorem view_after {α : Type} {steps : List Step} (view : Replay → α)
    (keeps : ∀ next ∈ steps, ∀ replay : Replay, view (replay.step next).2 = view replay) :
    view (replay.after steps) = view replay := by
  induction steps generalizing replay with
  | nil => rfl
  | cons next steps ih =>
    obtain ⟨first, others⟩ := List.forall_mem_cons.mp keeps
    rw [after_cons, ih _ others, first]

theorem answers_cons (kind : Step → Bool) :
    replay.answers kind (next :: steps) =
      (if kind next then [(replay.step next).1] else []) ++
        (replay.step next).2.answers kind steps := by
  by_cases seen : kind next = true <;> simp [answers, run, seen]

/-- Steps can be left out if they leave alone what the answers to the others depend on. -/
theorem answers_eq_run_filter {kind : Step → Bool} (same : Replay → Replay → Prop)
    (hidden : ∀ a b next, same a b → kind next = false → same (a.step next).2 b)
    (seen : ∀ a b next, same a b → kind next = true →
      (a.step next).1 = (b.step next).1 ∧ same (a.step next).2 (b.step next).2)
    {a b : Replay} (related : same a b) (steps : List Step) :
    a.answers kind steps = b.run (steps.filter kind) := by
  induction steps generalizing a b with
  | nil => rfl
  | cons next steps ih =>
    rw [answers_cons]
    cases known : kind next with
    | false =>
      rw [List.filter_cons_of_neg (by simp [known])]
      exact ih (hidden a b next related known)
    | true =>
      obtain ⟨answer, moved⟩ := seen a b next related known
      rw [List.filter_cons_of_pos known, run, ← answer, ← ih moved]
      rfl

end Replay

/-- Whether a step has to do with lexemes; the others have to do with levels. -/
def Step.reads : Step → Bool
  | .enter _ | .leave => false
  | .peek | .advance | .stop | .save _ | .restore _ => true

/-- How many levels are open after a step, if this many were before. -/
def Step.count (level : Nat) : Step → Nat
  | .enter _ => min (level + 1) 512
  | .leave => level - 1
  | .peek | .advance | .stop | .save _ | .restore _ => level

theorem Step.count_le {level : Nat} (within : level ≤ 512) (next : Step) :
    next.count level ≤ 512 := by
  cases next <;> simp only [count] <;> omega

theorem Replay.step_enter_snd {replay : Replay} (within : replay.current.depth ≤ 512)
    (position : Nat) :
    (replay.step (.enter position)).2 =
      replay.moveTo { replay.current with depth := min (replay.current.depth + 1) 512 } := by
  rw [step_enter]
  by_cases room : replay.current.depth < depthLimit
  · have higher : min (replay.current.depth + 1) 512 = replay.current.depth + 1 :=
      Nat.min_eq_left room
    rw [if_pos room, higher]
  · obtain ⟨⟨rest, stop, depth⟩, saved⟩ := replay
    obtain rfl : depth = 512 := Nat.le_antisymm within (Nat.not_lt.mp room)
    rfl

/-- The steps that have led to the cursor in use, and to the one in every slot. -/
structure History where
  current : List Step
  saved : Nat → List Step

namespace History

def add (history : History) : Step → History
  | .save slot =>
    { history with
      saved := fun other => if other = slot then history.current else history.saved other }
  | .restore slot => { history with current := history.saved slot }
  | next => { history with current := history.current ++ [next] }

def ofSteps (steps : List Step) : History := steps.foldl add ⟨[], fun _ => []⟩

end History

/-- How many lexemes were passed on the way to the cursor in use. -/
def passed (steps : List Step) : Nat := (History.ofSteps steps).current.count .advance

/-- How many levels were opened on the way to the cursor in use and are still open. -/
def opened (steps : List Step) : Nat := (History.ofSteps steps).current.foldl Step.count 0

section Reached

variable (lexemes : List Lexeme)

/-- Where steps lead that neither save a cursor nor go back. -/
def reached (steps : List Step) : Cursor :=
  ⟨lexemes.drop (steps.count .advance), (ofLexemes lexemes).stop, steps.foldl Step.count 0⟩

theorem depth_reached_le (steps : List Step) : (reached lexemes steps).depth ≤ 512 := by
  induction steps using List.reverseRecOn with
  | nil => exact Nat.zero_le 512
  | append_singleton steps next ih =>
    rw [reached, List.foldl_append]
    exact Step.count_le ih next

/-- The replay whose cursors are where their histories lead. -/
def replayed (history : History) : Replay :=
  ⟨reached lexemes history.current, fun slot => reached lexemes (history.saved slot)⟩

theorem step_replayed (history : History) (next : Step) :
    ((replayed lexemes history).step next).2 = replayed lexemes (history.add next) := by
  have within : (replayed lexemes history).current.depth ≤ 512 :=
    depth_reached_le lexemes history.current
  -- A step that is recorded does to the cursor what it adds to the two counts.
  cases next with
  | restore slot => rfl
  | save slot =>
    refine congrArg (Replay.mk _) (funext fun other => ?_)
    exact (apply_ite (reached lexemes) (other = slot) _ _).symm
  | enter position =>
    rw [Replay.step_enter_snd within]
    simp [Replay.moveTo, History.add, replayed, reached, Step.count]
  | peek | stop | advance | leave =>
    simp [Replay.step, Replay.moveTo, History.add, replayed, reached, skip, leave, Step.count]

theorem after_start (steps : List Step) :
    (Replay.start (ofLexemes lexemes)).after steps = replayed lexemes (.ofSteps steps) := by
  induction steps using List.reverseRecOn with
  | nil => rfl
  | append_singleton steps next ih =>
    have recorded : History.ofSteps (steps ++ [next]) = (History.ofSteps steps).add next :=
      List.foldl_append
    rw [Replay.after_append, ih, recorded]
    exact step_replayed lexemes (History.ofSteps steps) next

end Reached

/-- Steps go back to what a slot has before they keep anything there. -/
def RestoresFirst (slot : Nat) (steps : List Step) : Prop :=
  ∃ earlier later, steps = earlier ++ .restore slot :: later ∧ .save slot ∉ earlier

theorem restoresFirst_restore (slot : Nat) (steps : List Step) :
    RestoresFirst slot (.restore slot :: steps) :=
  ⟨[], steps, rfl, List.not_mem_nil⟩

theorem RestoresFirst.cons {slot : Nat} {next : Step} {steps : List Step}
    (first : RestoresFirst slot steps) (saves : .save slot ≠ next) :
    RestoresFirst slot (next :: steps) := by
  obtain ⟨earlier, later, rfl, apart⟩ := first
  exact ⟨next :: earlier, later, rfl, List.not_mem_cons_of_ne_of_not_mem saves apart⟩

namespace Replay

variable {replay other : Replay} {next : Step} {steps : List Step} {slot : Nat}

theorem rest_step (replay : Replay) (advances : next ≠ .advance)
    (restores : ∀ slot, next ≠ .restore slot) :
    (replay.step next).2.current.rest = replay.current.rest := by
  cases next with
  | advance => contradiction
  | restore slot => exact absurd rfl (restores slot)
  | enter position =>
    rw [step_enter]
    split <;> rfl
  | peek | stop | leave | save => rfl

theorem rest_after (replay : Replay) (advances : .advance ∉ steps)
    (restores : ∀ slot, .restore slot ∉ steps) :
    (replay.after steps).current.rest = replay.current.rest :=
  replay.view_after (·.current.rest) fun _ member replay =>
    replay.rest_step (ne_of_mem_of_not_mem member advances) fun slot =>
      ne_of_mem_of_not_mem member (restores slot)

/-- Lexemes are passed in order, each once, and then there are none, whatever is done besides. -/
theorem answers_advance (replay : Replay) (restores : ∀ slot, .restore slot ∉ steps) :
    replay.answers (· == .advance) steps =
      (replay.current.rest.take (steps.count .advance)).map (fun lexeme => .next (some lexeme)) ++
        List.replicate (steps.count .advance - replay.current.rest.length) (.next none) := by
  induction steps generalizing replay with
  | nil => simp [answers]
  | cons next steps ih =>
    rw [answers_cons, ih _ fun slot => List.not_mem_of_not_mem_cons (restores slot)]
    by_cases advances : next = .advance
    · subst advances
      cases unread : replay.current.rest <;>
        simp [step, moveTo, skip, peek?, unread, List.replicate_succ]
    · rw [rest_step replay advances fun slot => (List.ne_of_not_mem_cons (restores slot)).symm]
      simp [advances]

/-- Answers depend on the cursor in use, and on those slots that are gone back to before anything
else is kept there. -/
theorem run_congr (same : replay.current = other.current)
    (kept : ∀ slot, RestoresFirst slot steps → replay.saved slot = other.saved slot) :
    replay.run steps = other.run steps := by
  induction steps generalizing replay other with
  | nil => rfl
  | cons next steps ih =>
    have passed (slot : Nat) (saves : .save slot ≠ next) (first : RestoresFirst slot steps) :
        replay.saved slot = other.saved slot := kept slot (first.cons saves)
    suffices alike : (replay.step next).1 = (other.step next).1 ∧
        (replay.step next).2.current = (other.step next).2.current ∧
        ∀ slot, RestoresFirst slot steps →
          (replay.step next).2.saved slot = (other.step next).2.saved slot by
      rw [run, run, alike.1, ih alike.2.1 alike.2.2]
    cases next with
    | restore slot =>
      exact ⟨rfl, kept slot (restoresFirst_restore slot steps), fun other => passed other (by simp)⟩
    | save slot =>
      refine ⟨rfl, same, fun other first => ?_⟩
      by_cases here : other = slot
      · simp [step, keep, here, same]
      · have apart : Step.save other ≠ .save slot := fun equal => here (Step.save.inj equal)
        simp [step, keep, here, passed other apart first]
    | enter position =>
      rw [step_enter, step_enter, same]
      split
      · exact ⟨rfl, rfl, fun other => passed other (by simp)⟩
      · exact ⟨rfl, same, fun other => passed other (by simp)⟩
    | peek | advance | stop | leave =>
      exact ⟨by simp [step, same], by simp [step, moveTo, same],
        fun other => passed other (by simp)⟩

theorem saved_step (replay : Replay) (saves : next ≠ .save slot) :
    (replay.step next).2.saved slot = replay.saved slot := by
  cases next with
  | save other =>
    have apart : slot ≠ other := fun equal => saves (congrArg Step.save equal.symm)
    simp [step, keep, apart]
  | enter position =>
    rw [step_enter]
    split <;> rfl
  | peek | advance | stop | leave | restore => rfl

/-- A slot has what was kept there, until something else is. -/
theorem saved_after (replay : Replay) (saves : .save slot ∉ steps) :
    (replay.after steps).saved slot = replay.saved slot :=
  replay.view_after (·.saved slot) fun _ member replay =>
    replay.saved_step (ne_of_mem_of_not_mem member saves)

/-- Going back to a cursor shows what would have been shown from there. -/
theorem run_after_restore (replay : Replay) (saves : .save slot ∉ steps) {later : List Step}
    (others : ∀ other, RestoresFirst other later → .save other ∉ steps) :
    (replay.after (.save slot :: steps ++ [.restore slot])).run later =
      (replay.after [.save slot]).run later := by
  have kept (other : Nat) (unsaved : .save other ∉ steps) :
      (replay.after (.save slot :: steps)).saved other = (replay.keep slot).saved other :=
    (replay.keep slot).saved_after unsaved
  rw [after_append]
  refine run_congr ?_ fun other first => kept other (others other first)
  exact (kept slot saves).trans (if_pos rfl)

/-- Looking ahead has no part in what else is shown. -/
theorem answers_ne_peek (replay : Replay) (steps : List Step) :
    replay.answers (· != .peek) steps = replay.run (steps.filter (· != .peek)) := by
  refine answers_eq_run_filter Eq ?_ ?_ rfl steps
  · rintro a _ next rfl isPeek
    obtain rfl : next = .peek := by simpa using isPeek
    rfl
  · rintro a _ next rfl -
    exact ⟨rfl, rfl⟩

/-- Levels have no part in what is shown of lexemes. -/
theorem answers_reads (replay : Replay) (steps : List Step) :
    replay.answers Step.reads steps = replay.run (steps.filter Step.reads) := by
  let alike (a b : Cursor) : Prop := a.rest = b.rest ∧ a.stop = b.stop
  let same (a b : Replay) : Prop :=
    alike a.current b.current ∧ ∀ slot, alike (a.saved slot) (b.saved slot)
  refine answers_eq_run_filter same ?_ ?_ ⟨⟨rfl, rfl⟩, fun _ => ⟨rfl, rfl⟩⟩ steps
  · rintro a b next related hidden
    cases next with
    | enter position =>
      rw [step_enter]
      split <;> exact related
    | leave => exact related
    | peek | advance | stop | save | restore => cases hidden
  · rintro a b next ⟨⟨rest, stop⟩, saved⟩ seen
    cases next with
    | enter | leave => cases seen
    | peek | stop => exact ⟨by simp [step, peek?, rest, stop], ⟨rest, stop⟩, saved⟩
    | advance => exact ⟨by simp [step, peek?, rest], ⟨congrArg List.tail rest, stop⟩, saved⟩
    | restore slot => exact ⟨rfl, saved slot, saved⟩
    | save slot =>
      refine ⟨rfl, ⟨rest, stop⟩, fun other => ?_⟩
      by_cases here : other = slot
      · simpa [step, keep, here] using And.intro rest stop
      · simpa [step, keep, here] using saved other

theorem run_enter (replay : Replay) (within : replay.current.depth ≤ depthLimit) (position : Nat) :
    replay.run [.enter position] =
      [if replay.current.depth = depthLimit then .refused (.tooDeep depthLimit position)
        else .done] := by
  rw [run, step_enter]
  by_cases full : replay.current.depth = depthLimit
  · rw [if_pos full, if_neg (Nat.not_lt.mpr (Nat.le_of_eq full.symm))]
    rfl
  · rw [if_neg full, if_pos (Nat.lt_of_le_of_ne within full)]
    rfl

theorem after_enter_of_full (full : replay.current.depth = depthLimit) (position : Nat) :
    replay.after [.enter position] = replay := by
  rw [after_cons, step_enter, if_neg (Nat.not_lt.mpr (Nat.le_of_eq full.symm))]
  rfl

theorem after_leave_of_zero (closed : replay.current.depth = 0) :
    replay.after [.leave] = replay := by
  obtain ⟨⟨rest, stop, depth⟩, saved⟩ := replay
  obtain rfl : depth = 0 := closed
  rfl

/-- How a replay behaves, whatever follows, after the steps that have led there. -/
structure Conduct (lexemes : List Lexeme) (earlier : List Step) (replay : Replay) : Prop where
  rest : replay.current.rest = lexemes.drop (passed earlier)
  depth : replay.current.depth = opened earlier
  opened_le : opened earlier ≤ 512
  /-- Until going back, the lexemes left are passed in order, each once, and then there are none. -/
  advance : ∀ later, (∀ slot, .restore slot ∉ later) →
    let unread := lexemes.drop (passed earlier)
    let times := later.count .advance
    replay.answers (· == .advance) later =
      (unread.take times).map (fun lexeme => .next (some lexeme)) ++
        List.replicate (times - unread.length) (.next none)
  /-- Looking ahead shows what is passed next. -/
  peek : ∀ between, .advance ∉ between → (∀ slot, .restore slot ∉ between) →
    replay.run [.peek] = (replay.after (.peek :: between)).run [.advance]
  /-- Without the looks ahead, the other answers are the same. -/
  answers_ne_peek : ∀ later,
    replay.answers (· != .peek) later = replay.run (later.filter (· != .peek))
  stop : replay.run [.stop] = [.offset ((lexemes.getLast?.map (·.span.stop)).getD 0)]
  /-- Opening a level fails exactly at the limit, with its position, and then changes nothing. -/
  enter : ∀ position, replay.run [.enter position] =
    [if opened earlier = 512 then .refused (.tooDeep 512 position) else .done]
  after_enter : opened earlier = 512 → ∀ position, replay.after [.enter position] = replay
  after_leave : opened earlier = 0 → replay.after [.leave] = replay
  /-- Without the steps that open and close levels, what is shown of lexemes is the same. -/
  answers_reads : ∀ later, replay.answers Step.reads later = replay.run (later.filter Step.reads)
  /-- A cursor that is kept shows the same again when it is gone back to, as often as wanted and
  whatever was done in between, for as long as nothing else is kept in its slot, nor in another one
  that is gone back to afterwards. -/
  restore : ∀ slot between later, .save slot ∉ between →
    (∀ other, RestoresFirst other later → .save other ∉ between) →
    (replay.after (.save slot :: between ++ [.restore slot])).run later =
      (replay.after [.save slot]).run later

end Replay

/-- After any steps a replay over lexemes behaves as a position among them and a counter of levels
between zero and the limit. With a buffer for the lexeme that is looked at, the answers are the
same. -/
theorem replay_conduct (lexemes : List Lexeme) (earlier : List Step) :
    Replay.Conduct lexemes earlier ((Replay.start (ofLexemes lexemes)).after earlier) ∧
      (Buffered.start (ofLexemes lexemes)).run earlier =
        (Replay.start (ofLexemes lexemes)).run earlier := by
  have placed := after_start lexemes earlier
  have rest : ((Replay.start (ofLexemes lexemes)).after earlier).current.rest =
      lexemes.drop (passed earlier) := by rw [placed]; rfl
  have depth : ((Replay.start (ofLexemes lexemes)).after earlier).current.depth =
      opened earlier := by rw [placed]; rfl
  have within : opened earlier ≤ 512 := depth_reached_le lexemes _
  refine ⟨?_, (Buffered.start (ofLexemes lexemes)).run_eq earlier⟩
  generalize (Replay.start (ofLexemes lexemes)).after earlier = replay at *
  exact {
    rest
    depth
    opened_le := within
    advance := fun later restores => rest ▸ replay.answers_advance restores
    peek := fun between advances restores => by
      have kept := replay.rest_after advances restores
      simp [Replay.run, Replay.step, Replay.after_cons, peek?, kept]
    answers_ne_peek := replay.answers_ne_peek
    stop := by
      rw [placed]
      rfl
    enter := depth ▸ replay.run_enter (Nat.le_trans (Nat.le_of_eq depth) within)
    after_enter := fun full => Replay.after_enter_of_full (depth.trans full)
    after_leave := fun closed => Replay.after_leave_of_zero (depth.trans closed)
    answers_reads := replay.answers_reads
    restore := fun slot between later saves others => replay.run_after_restore saves others }

/-- Two copies are kept, and the first of them is gone back to after the second. -/
example (a b c : Lexeme) :
    (Replay.start (ofLexemes [a, b, c])).run
        [.save 0, .advance, .save 1, .advance, .restore 1, .restore 0, .advance] =
      [.done, .next (some a), .done, .next (some b), .done, .done, .next (some a)] := rfl

end Calculator.Cursor
