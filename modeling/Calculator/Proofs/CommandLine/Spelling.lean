import Calculator.Proofs.CommandLine.Input
import Calculator.Proofs.Token.Scanning

/-!
Flags around an expression on the command line.

No flag can be taken for an expression, nor an expression for a flag: every flag has letters in it,
long or short, and what can be scanned has none. Only two hyphens alone are both, a negation without
an operand and the end of the flags. So flags can be spelled and placed around the expression in any
way, as long as each is given once.

Main statements: an argument that can be scanned is contents (`Argument.of_of_scan`), spelled flags
are read as these flags (`Request.read_of_spells`), and so the request and the report are those of
the long flags in front (`Report.ofArguments_of_spelled`).
-/
namespace Calculator.CommandLine

/-- The ways to spell flags in one argument: a flag by its name, or one or more by their letters. -/
inductive Spelling : String → List Flag → Prop
  | name (flag : Flag) : Spelling ("--" ++ flag.name) [flag]
  | letters (flag : Flag) (flags : List Flag) :
      Spelling (String.ofList ('-' :: (flag :: flags).map Flag.letter)) (flag :: flags)

/-- Arguments that spell flags, in this order. -/
inductive Spells : List String → List Flag → Prop
  | nil : Spells [] []
  | cons {argument : String} {arguments : List String} {cluster flags : List Flag}
      (first : Spelling argument cluster) (others : Spells arguments flags) :
      Spells (argument :: arguments) (cluster ++ flags)

/-- The flags that ask for views. -/
def Views.flags (views : Views) : List Flag :=
  (if views.tokens then [.tokens] else []) ++ if views.tree then [.ast] else []

theorem Flag.mapM_letter (flags : List Flag) :
    (flags.map Flag.letter).mapM Flag.ofLetter? = some flags := by
  have known (flag : Flag) : Flag.ofLetter? flag.letter = some flag := by cases flag <;> rfl
  induction flags with
  | nil => rfl
  | cons flag flags ih => simp [known, ih]

theorem Spelling.of_eq {argument : String} {flags : List Flag}
    (spelling : Spelling argument flags) : Argument.of argument = .flags flags := by
  cases spelling with
  | name flag => cases flag <;> decide
  | letters flag flags =>
    unfold Argument.of
    rw [String.toList_ofList]
    split
    next name same =>
      have hyphen := (List.cons.inj (List.cons.inj same).2).1
      cases flag <;> exact absurd hyphen (by decide)
    next letter letters _ same =>
      rw [← (List.cons.inj same).2, Flag.mapM_letter]
    next other => exact absurd rfl (other flag.letter (flags.map Flag.letter))

section Scanned

variable {source : String} {found : List Lexeme}

/-- What stands in a source: blanks, and the characters of tokens. -/
def sourceChars : List Char := [' ', '\t', '\r', '\n'] ++ Token.tokenChars

theorem mem_sourceChars (scanned : Token.scan source = .ok found) {c : Char}
    (member : c ∈ source.toList) : c ∈ sourceChars := by
  have scans := (Token.scan_eq_ok_iff_scans source found).mp scanned
  rcases scans.mem_source member with blank | inToken
  · exact List.mem_append_left _ ((Token.isBlank_iff_mem c).mp blank)
  · exact List.mem_append_right _ inToken

theorem Flag.ofName?_eq_none {name : List Char} (plain : ∀ c ∈ name, c ∈ sourceChars) :
    Flag.ofName? (String.ofList name) = none := by
  -- Every name has a letter in it.
  have lettered : Flag.all.all (fun flag => !flag.name.toList.all sourceChars.contains) = true := by
    decide
  refine List.find?_eq_none.mpr fun flag listed same => ?_
  have written : flag.name.toList = name := by
    rw [beq_iff_eq.mp same, String.toList_ofList]
  have unlettered : flag.name.toList.all sourceChars.contains = true :=
    List.all_eq_true.mpr fun c member => List.contains_iff_mem.mpr (plain c (written ▸ member))
  have other := List.all_eq_true.mp lettered flag listed
  rw [unlettered] at other
  cases other

/-- What can be scanned is contents, however many hyphens it begins with. -/
theorem Argument.of_of_scan (scanned : Token.scan source = .ok found) (other : source ≠ "--") :
    Argument.of source = .contents := by
  have plain (c : Char) (member : c ∈ source.toList) := mem_sourceChars scanned member
  have unlettered : sourceChars.all (fun c => (Flag.ofLetter? c).isNone && c != '=') = true := by
    decide
  unfold Argument.of
  split
  next name same =>
    have inName (c : Char) (member : c ∈ name) : c ∈ sourceChars :=
      plain c (same ▸ List.mem_cons_of_mem _ (List.mem_cons_of_mem _ member))
    have present : name.isEmpty = false := by
      cases name with
      | nil => exact absurd (String.toList_inj.mp same) other
      | cons => rfl
    have noValue : '=' ∉ name := by
      intro member
      exact absurd (inName _ member) (by decide)
    rw [Argument.ofLong, present, Flag.ofName?_eq_none inName]
    simp [noValue]
  next letter letters _ same =>
    have unknown : Flag.ofLetter? letter = none := by
      have member : letter ∈ source.toList := same ▸ List.mem_cons_of_mem _ List.mem_cons_self
      have listed := List.all_eq_true.mp unlettered letter (plain letter member)
      simp only [Bool.and_eq_true, Option.isNone_iff_eq_none] at listed
      exact listed.1
    simp [unknown]
  next => rfl

end Scanned

namespace Request

variable {given flags : List Flag}

theorem addFlags_of_nodup (asks : ∀ flag ∈ flags, flag ≠ .version ∧ flag ≠ .help)
    (once : (flags ++ given).Nodup) : addFlags given flags = .ok (flags.reverse ++ given) := by
  induction flags generalizing given with
  | nil => rfl
  | cons flag flags ih =>
    obtain ⟨fresh, others⟩ := List.nodup_cons.mp once
    obtain ⟨asksFirst, asksOthers⟩ := List.forall_mem_cons.mp asks
    have notGiven : flag ∉ given := fun member => fresh (List.mem_append_right _ member)
    have added : addFlags (flag :: given) flags = .ok (flags.reverse ++ flag :: given) :=
      ih asksOthers (List.nodup_middle.mpr once)
    rw [List.reverse_cons, List.append_assoc, List.singleton_append, ← added]
    cases flag with
    | version => exact absurd rfl asksFirst.1
    | help => exact absurd rfl asksFirst.2
    | file | tokens | ast => rw [addFlags, if_neg notGiven] <;> simp

/-- Arguments that spell flags are read as these flags, at any place among the others. -/
theorem read_of_spells {arguments : List String} (spells : Spells arguments flags)
    (asks : ∀ flag ∈ flags, flag ≠ .version ∧ flag ≠ .help) (once : (flags ++ given).Nodup)
    (contents : Option String) (rest : List String) :
    read given contents (arguments ++ rest) = read (flags.reverse ++ given) contents rest := by
  induction spells generalizing given with
  | nil => rfl
  | @cons argument arguments cluster flags first others ih =>
    obtain ⟨asksFirst, asksOthers⟩ := List.forall_mem_append.mp asks
    -- The flags of the first argument are given when the others are read.
    have moved : (flags ++ (cluster.reverse ++ given)).Perm (cluster ++ flags ++ given) := by
      rw [List.append_assoc]
      exact List.perm_append_comm_assoc flags cluster.reverse given |>.trans
        ((List.reverse_perm cluster).append_right _)
    have onceFirst : (cluster ++ given).Nodup :=
      once.sublist ((List.sublist_append_left cluster flags).append_right given)
    have later := ih asksOthers (moved.nodup_iff.mpr once)
    rw [List.cons_append, read, first.of_eq]
    simp only [addFlags_of_nodup asksFirst onceFirst, later]
    rw [List.reverse_append, List.append_assoc]

theorem finish_of_views {views : Views} (same : ∀ flag, flag ∈ given ↔ flag ∈ views.flags)
    (text : String) : finish given (some text) = .compute (.expression text) views := by
  simp only [finish, same]
  obtain ⟨_ | _, _ | _⟩ := views <;> rfl

/-- The flags may be spelled in any way, in any order, on both sides of the contents. -/
theorem ofArguments_of_spells {views : Views} {before after : List String} {early late : List Flag}
    {source : String} (contents : Argument.of source = .contents) (first : Spells before early)
    (second : Spells after late) (once : (early ++ late).Perm views.flags) :
    ofArguments (before ++ source :: after) = .compute (.expression source) views := by
  have asks : ∀ flag ∈ early ++ late, flag ≠ .version ∧ flag ≠ .help := by
    intro flag member
    have listed := once.mem_iff.mp member
    obtain ⟨_ | _, _ | _⟩ := views <;> revert listed <;> cases flag <;> decide
  have nodup : (early ++ late).Nodup := by
    refine once.nodup_iff.mpr ?_
    obtain ⟨_ | _, _ | _⟩ := views <;> decide
  obtain ⟨asksEarly, asksLate⟩ := List.forall_mem_append.mp asks
  have onceEarly : (early ++ []).Nodup := (List.append_nil early).symm ▸ nodup.of_append_left
  have swapped : (late ++ (early.reverse ++ [])).Perm (early ++ late) := by
    rw [List.append_nil]
    exact List.perm_append_comm.trans ((List.reverse_perm early).append_right late)
  have all (flag : Flag) : flag ∈ late.reverse ++ (early.reverse ++ []) ↔ flag ∈ views.flags := by
    rw [← once.mem_iff, ← swapped.mem_iff]
    simp
  rw [ofArguments, read_of_spells first asksEarly onceEarly, read, contents]
  simp only [Option.isSome_none, Bool.false_eq_true, if_false]
  rw [← List.append_nil after,
    read_of_spells second asksLate (swapped.nodup_iff.mpr nodup), read, finish_of_views all]

end Request

namespace Report

/-- With an expression and the flags for some views, each given once, a run computes the expression
as one line with these views. It reads no file and no standard input, and does what it does with the
long flags in front and the expression behind two hyphens. -/
theorem ofArguments_of_spelled {source : String} {found : List Lexeme}
    (scanned : Token.scan source = .ok found) (other : source ≠ "--") {views : Views}
    {before after : List String} {early late : List Flag} (first : Spells before early)
    (second : Spells after late) (once : (early ++ late).Perm views.flags)
    (usage usage' : Usage) (readFile readFile' : String → Option ByteArray)
    (input input' : ByteArray) :
    Request.ofArguments (before ++ source :: after) = .compute (.expression source) views ∧
      ofArguments usage readFile input (before ++ source :: after) =
        ofBlocks [Block.ofLine views source] ∧
      ofArguments usage readFile input (before ++ source :: after) =
        ofArguments usage' readFile' input' (views.arguments ++ ["--", source]) := by
  have contents := Argument.of_of_scan scanned other
  have asked := Request.ofArguments_of_spells contents first second once
  have plain := Request.ofArguments_expression views source
  refine ⟨asked, ?_, ?_⟩
  · simp only [ofArguments, asked]
    rfl
  · simp only [ofArguments, asked, plain]

/-- A double negation between a cluster of one letter and a flag in its long form. -/
theorem ofArguments_of_spelled_hyphens :
    let usage : Usage := ⟨fun _ => "", fun _ => ""⟩
    let run := ofArguments usage (fun _ => none) "1 + 1".toUTF8
    (∃ found, Token.scan "--.5" = .ok found) ∧ "--.5" ≠ "--" ∧
      run ["-a", "--.5", "--tokens"] = ⟨0, "- - 0.5\n(- (- 0.5))\n0.5\n", ""⟩ ∧
      run ["-a", "--.5", "--tokens"] = run ["--tokens", "--ast", "--", "--.5"] := by
  intro usage run
  let half : Token := .literal ⟨false, 0x3FE0000000000000, by decide⟩
  have scanned : Token.scan "--.5" = .ok [⟨.minus, 0, 1⟩, ⟨.minus, 1, 2⟩, ⟨half, 2, 4⟩] := by
    decide +kernel
  have first : Spells ["-a"] [.ast] := .cons (.letters .ast []) .nil
  have second : Spells ["--tokens"] [.tokens] := .cons (.name .tokens) .nil
  have once : [Flag.ast, .tokens].Perm (Views.flags ⟨true, true⟩) := List.Perm.swap _ _ _
  obtain ⟨-, line, same⟩ := ofArguments_of_spelled scanned (by decide) first second once
    usage usage (fun _ => none) (fun _ => none) "1 + 1".toUTF8 "1 + 1".toUTF8
  exact ⟨⟨_, scanned⟩, by decide, line.trans (by decide +kernel), same⟩

end Report
end Calculator.CommandLine
