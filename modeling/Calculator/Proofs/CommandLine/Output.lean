import Calculator.Proofs.CommandLine.Input
import Calculator.Proofs.Text.Printable

/-!
What a whole run prints: one block of lines for each line computed.

A block has the views that were asked for, as far as the line got, and then one final line, the
result or the mark of a failure. It depends on that line alone, so no line changes the block of
another, and the views change nothing but the lines in front of the final ones.

Main statements: the block of a line is what scanning, parsing and computing it give
(`Block.ofLine_eq`); printable texts are printed as one line each (`lines_printed`); a run prints
the blocks of its lines in order, a message for each failure, and ends with code zero exactly if
there is none (`Report.ofArguments_of_lines`).
-/
namespace Calculator.CommandLine

/-- The views of a line: its tokens if it can be scanned, its tree if it has one. -/
def viewLines (views : Views) (line : String) : List String :=
  (match Token.scan line with
    | .ok found => if views.tokens then [tokensLine found] else []
    | .error _ => []) ++
  match tree line with
    | .ok e => if views.tree then [e.text] else []
    | .error _ => []

/-- The result of a line, or the mark of its failure. -/
def finalLine (line : String) : String :=
  match compute line with
  | .ok result => result
  | .error _ => failureMark

/-- The message of a line's failure, if it fails. -/
def messageLines (line : String) : List String :=
  match compute line with
  | .ok _ => []
  | .error failure => [failure.message]

/-- The lines of a text that are not blank. -/
def filledLines (text : String) : List String :=
  (Text.lines text).filter fun line => !Text.isBlank line

/-- What a source gives to be computed: the filled lines of a text, or the contents of the command
line as they are. -/
def Source.Gives (readFile : String → Option ByteArray) (input : ByteArray) :
    Source → List String → Prop
  | standardInput, lines => ∃ text : String, input = text.toUTF8 ∧ lines = filledLines text
  | file path, lines => ∃ text : String, readFile path = some text.toUTF8 ∧ lines = filledLines text
  | expression text, lines => lines = [text]

theorem finalLine_eq_failureMark_iff (line : String) :
    finalLine line = failureMark ↔ ∃ failure, compute line = .error failure := by
  rw [finalLine]
  cases computed : compute line with
  | error failure => simp
  | ok result =>
    obtain ⟨x, -, rfl⟩ := exists_text_of_compute computed
    -- The mark has a capital letter in it, and no number is written with one.
    have letter : 'E' ∉ x.text.toList := fun member => absurd (x.mem_text member) (by decide)
    have other : x.text ≠ failureMark := fun same => letter (same ▸ by decide)
    simp [other]

theorem printable_of_mem_viewLines {views : Views} {line text : String}
    (member : text ∈ viewLines views line) : Printable text := by
  rw [viewLines, List.mem_append] at member
  rcases member with tokens | tree
  · split at tokens
    next found _ =>
      split at tokens
      · exact List.mem_singleton.mp tokens ▸ printable_tokensLine found
      · cases tokens
    · cases tokens
  · split at tree
    next e _ =>
      split at tree
      · exact List.mem_singleton.mp tree ▸ e.printable_text
      · cases tree
    · cases tree

theorem printable_finalLine (line : String) : Printable (finalLine line) := by
  rw [finalLine]
  cases computed : compute line with
  | error failure => exact (by decide : Printable failureMark)
  | ok result =>
    obtain ⟨x, -, rfl⟩ := exists_text_of_compute computed
    exact x.printable_text

theorem printable_of_mem_messageLines {line text : String} (member : text ∈ messageLines line) :
    Printable text := by
  rw [messageLines] at member
  split at member
  · cases member
  · exact List.mem_singleton.mp member ▸ Failure.printable_message _

/-- Printed texts are the lines of what is printed, as long as no line ends within one. -/
theorem lines_printed {texts : List String} (printable : ∀ text ∈ texts, Printable text) :
    Text.lines (printed texts) = texts := by
  induction texts with
  | nil => rfl
  | cons text others ih =>
    obtain ⟨first, rest⟩ := List.forall_mem_cons.mp printable
    have oneLine : '\n' ∉ text.toList := fun member => absurd (first _ member) (by decide)
    have whole : Text.dropFinal '\r' text.toList = text.toList := by
      rw [Text.dropFinal, if_neg]
      exact fun final => absurd (first _ (List.mem_of_getLast? final)) (by decide)
    have cut : (printed (text :: others)).toList =
        text.toList ++ '\n' :: (printed others).toList := by
      simp [printed]
    rw [Text.lines, cut, Text.linesOf_append_cons _ _ oneLine, whole, List.map_cons,
      String.ofList_toList]
    exact congrArg (text :: ·) (ih rest)

namespace Block

/-- The program goes through the stages on its own, with the views in between, and comes to the
same outcome. -/
theorem ofLine_eq (views : Views) (line : String) :
    ofLine views line = ⟨viewLines views line, compute line⟩ := by
  -- One case for each stage that a line can fail in, and one for a line with a result.
  cases scanned : Token.scan line with
  | error error =>
    have failed := (tree_eq_error_iff line _).mpr (Or.inl ⟨error, scanned, rfl⟩)
    rw [ofLine, lexemes_of_scan_error scanned, viewLines, scanned, failed,
      (compute_eq_error_iff line _).mpr failed]
    rfl
  | ok found =>
    cases parsed : Expr.ofLexemes found with
    | error error =>
      have failed :=
        (tree_eq_error_iff line _).mpr (Or.inr ⟨found, error, scanned, parsed, rfl⟩)
      rw [viewLines, scanned, failed, (compute_eq_error_iff line _).mpr failed, List.append_nil]
      rw [ofLine, lexemes_of_scan scanned]
      simp only [treeOf_of_parse_error parsed]
    | ok e =>
      have formed := (tree_eq_ok_iff line e).mpr ⟨found, scanned, parsed⟩
      rw [viewLines, scanned, formed, text_of_evaluated (evaluate_of_tree formed)]
      rw [ofLine, lexemes_of_scan scanned]
      simp only [treeOf_of_parsed parsed]

variable (views : Views) (line : String)

theorem output_ofLine : (ofLine views line).output = viewLines views line ++ [finalLine line] := by
  rw [ofLine_eq, output, finalLine]
  cases compute line <;> rfl

theorem errors_ofLine : (ofLine views line).errors = messageLines line := by
  rw [ofLine_eq]
  unfold errors messageLines
  cases compute line <;> rfl

theorem succeeded_ofLine :
    (ofLine views line).succeeded = true ↔ finalLine line ≠ failureMark := by
  rw [ne_eq, finalLine_eq_failureMark_iff, ofLine_eq, succeeded]
  cases compute line <;> simp

end Block

namespace Report

theorem ofBlocks_ofLine (views : Views) (lines : List String) :
    ofBlocks (lines.map (Block.ofLine views)) =
      { exitCode := if ∀ line ∈ lines, finalLine line ≠ failureMark then 0 else 1
        output := printed (lines.flatMap fun line => viewLines views line ++ [finalLine line])
        errors := printed (lines.flatMap messageLines) } := by
  simp only [ofBlocks, List.all_map, List.all_eq_true, Function.comp_apply,
    Block.succeeded_ofLine, List.flatMap_map, Block.output_ofLine, Block.errors_ofLine]

theorem ofArguments_of_gives {readFile : String → Option ByteArray} {input : ByteArray}
    {arguments : List String} {source : Source} {views : Views} {lines : List String}
    (asked : Request.ofArguments arguments = .compute source views)
    (given : source.Gives readFile input lines) (usage : Usage) :
    ofArguments usage readFile input arguments = ofBlocks (lines.map (Block.ofLine views)) := by
  rw [ofArguments, asked]
  cases source with
  | standardInput =>
    obtain ⟨text, rfl, rfl⟩ := given
    exact ofInput_toUTF8 views text
  | file path =>
    obtain ⟨text, held, rfl⟩ := given
    simp only [held]
    exact ofFile_toUTF8 views path text
  | expression text =>
    obtain rfl := given
    rfl

/-- A run on lines prints a block for each of them in order: its views and its final line, which is
the mark of a failure exactly if the line cannot be computed. Each failure has one message, and the
exit code is zero if there is none. Nothing that is printed has a line break in it, so the lines of
the output are just these. With other views only the views change. -/
theorem ofArguments_of_lines {readFile : String → Option ByteArray} {input : ByteArray}
    {arguments : List String} {source : Source} {views : Views} {lines : List String}
    (asked : Request.ofArguments arguments = .compute source views)
    (given : source.Gives readFile input lines) (usage : Usage) :
    let report := ofArguments usage readFile input arguments
    let shown := lines.flatMap fun line => viewLines views line ++ [finalLine line]
    let told := lines.flatMap messageLines
    report = ⟨if ∀ line ∈ lines, finalLine line ≠ failureMark then 0 else 1, printed shown,
      printed told⟩ ∧
    (∀ line ∈ lines, finalLine line = failureMark ↔ ∃ failure, compute line = .error failure) ∧
    (∀ text ∈ shown ++ told, Printable text) ∧
    Text.lines report.output = shown ∧ Text.lines report.errors = told ∧
    ∀ others otherViews, Request.ofArguments others = .compute source otherViews →
      ofArguments usage readFile input others = { report with
        output := printed (lines.flatMap fun line =>
          viewLines otherViews line ++ [finalLine line]) } := by
  intro report shown told
  have whole : report = _ :=
    (ofArguments_of_gives asked given usage).trans (ofBlocks_ofLine views lines)
  have printableShown : ∀ text ∈ shown, Printable text := by
    intro text member
    obtain ⟨line, -, inBlock⟩ := List.mem_flatMap.mp member
    rcases List.mem_append.mp inBlock with view | final
    · exact printable_of_mem_viewLines view
    · exact List.mem_singleton.mp final ▸ printable_finalLine line
  have printableTold : ∀ text ∈ told, Printable text := by
    intro text member
    obtain ⟨line, -, message⟩ := List.mem_flatMap.mp member
    exact printable_of_mem_messageLines message
  refine ⟨whole, fun line _ => finalLine_eq_failureMark_iff line,
    List.forall_mem_append.mpr ⟨printableShown, printableTold⟩, ?_, ?_, ?_⟩
  · rw [whole]
    exact lines_printed printableShown
  · rw [whole]
    exact lines_printed printableTold
  · intro others otherViews askedToo
    rw [ofArguments_of_gives askedToo given usage, ofBlocks_ofLine, whole]

/-- The second line is blank, the third one scans and has no tree. -/
theorem ofArguments_of_three_lines :
    let usage : Usage := ⟨fun _ => "", fun _ => ""⟩
    let input := "1 - -2\n \n)\r\n2".toUTF8
    let message := "Error at position 0: Expected a number but found ')'.\n"
    ofArguments usage (fun _ => none) input ["--tokens", "--ast"] =
        ⟨1, "1 - - 2\n(- 1 (- 2))\n3\n)\nError\n2\n2\n2\n", message⟩ ∧
      ofArguments usage (fun _ => none) input [] = ⟨1, "3\nError\n2\n", message⟩ := by
  intro usage input message
  have given : Source.standardInput.Gives (fun _ => none) input ["1 - -2", ")", "2"] :=
    ⟨"1 - -2\n \n)\r\n2", rfl, by decide +kernel⟩
  obtain ⟨report, -, -, -, -, others⟩ :=
    ofArguments_of_lines (Request.ofArguments_views ⟨true, true⟩) given usage
  have plain := others [] ⟨false, false⟩ (Request.ofArguments_views ⟨false, false⟩)
  refine ⟨report.trans (by decide +kernel), plain.trans ?_⟩
  rw [report]
  decide +kernel

end Report
end Calculator.CommandLine
