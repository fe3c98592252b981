import Calculator.CommandLine.Report
import Calculator.Proofs.Text.Lines

/-!
The same lines from a file, from standard input and from the command line.

A file is decoded as a whole and then divided into lines, standard input is divided into lines
that are decoded one by one. For a text both give the same lines, so the same report. For bytes
that are no text they differ: nothing of such a file is computed, and standard input is computed up
to its first line that is no text.

Main statement: the reports on the same bytes (`Report.ofArguments_of_same_bytes`).
-/
namespace Calculator.CommandLine

/-- The arguments that ask for views. -/
def Views.arguments (views : Views) : List String :=
  (if views.tokens then ["--tokens"] else []) ++ if views.tree then ["--ast"] else []

namespace Request

variable (views : Views)

theorem ofArguments_views : ofArguments views.arguments = .compute .standardInput views := by
  obtain ⟨_ | _, _ | _⟩ := views <;> decide +kernel

theorem ofArguments_file (path : String) :
    ofArguments (views.arguments ++ ["--file", "--", path]) = .compute (.file path) views := by
  obtain ⟨_ | _, _ | _⟩ := views <;> rfl

theorem ofArguments_expression (line : String) :
    ofArguments (views.arguments ++ ["--", line]) = .compute (.expression line) views := by
  obtain ⟨_ | _, _ | _⟩ := views <;> rfl

end Request

namespace Report

variable (views : Views)

theorem ofInput_of_decoded {bytes : ByteArray} {lines : List String}
    (decoded : Text.decodedLines bytes = lines.map some) :
    ofInput views bytes = ofBlocks (blocksOf views lines) := by
  have all : ∀ line ∈ lines.map some, Option.isSome line = true := by simp
  simp only [ofInput, decoded, List.takeWhile_eq_self_iff.mpr all, List.all_eq_true.mpr all,
    if_true, List.filterMap_map, Function.id_comp, List.filterMap_some]

theorem ofInput_of_undecodable {bytes : ByteArray} {lines : List String}
    {later : List (Option String)}
    (decoded : Text.decodedLines bytes = lines.map some ++ none :: later) :
    ofInput views bytes =
      let report := ofBlocks (blocksOf views lines)
      ⟨1, report.output, report.errors ++ printed [unreadableInput]⟩ := by
  have all : ∀ line ∈ lines.map some, Option.isSome line = true := by simp
  -- What is behind the line that is no text does not matter, whether it is text or not.
  have front : (lines.map some ++ none :: later).takeWhile Option.isSome = lines.map some := by
    rw [List.takeWhile_append_of_pos all]
    simp
  simp only [ofInput, decoded, front, List.all_append, List.all_cons, Option.isSome_none,
    Bool.false_and, Bool.and_false, Bool.false_eq_true, if_false, List.filterMap_map,
    Function.id_comp, List.filterMap_some]

section Chunks

theorem followedBy_nothing (report : Report) : report.followedBy ⟨0, "", ""⟩ = report := by
  simp [followedBy]

theorem ofBlocks_append (blocks others : List Block) :
    ofBlocks (blocks ++ others) = (ofBlocks blocks).followedBy (ofBlocks others) := by
  simp only [ofBlocks, followedBy, List.all_append, List.flatMap_append, printed, List.map_append,
    String.join_append]
  cases blocks.all Block.succeeded <;> cases others.all Block.succeeded <;> rfl

theorem exitCode_ofBlocks_le (blocks : List Block) : (ofBlocks blocks).exitCode ≤ 1 := by
  simp only [ofBlocks]
  split <;> omega

theorem blocksOf_append (lines others : List String) :
    blocksOf views (lines ++ others) = blocksOf views lines ++ blocksOf views others := by
  simp only [blocksOf, List.filter_append, List.map_append]

variable {before : List UInt8}

/-- Behind whole lines the input is answered on its own, unless one of them is no text. -/
theorem ofInput_append_of_ended (ended : Text.Ended 10 before) (after : List UInt8) :
    ofInput views (before ++ after).toByteArray =
      if (Text.decodedLines before.toByteArray).all Option.isSome then
        (ofInput views before.toByteArray).followedBy (ofInput views after.toByteArray)
      else ofInput views before.toByteArray := by
  have whole := Text.decodedLines_append_of_ended ended after
  rcases Text.eq_map_some_or (Text.decodedLines before.toByteArray) with
    ⟨texts, early⟩ | ⟨texts, later, early⟩
  · -- All of these lines are text, so what comes behind them decides how the report ends.
    rw [early] at whole ⊢
    rw [if_pos (by simp), ofInput_of_decoded views early]
    rcases Text.eq_map_some_or (Text.decodedLines after.toByteArray) with
      ⟨others, late⟩ | ⟨others, later, late⟩
    · rw [late, ← List.map_append] at whole
      rw [ofInput_of_decoded views whole, ofInput_of_decoded views late, blocksOf_append,
        ofBlocks_append]
    · rw [late, ← List.append_assoc, ← List.map_append] at whole
      rw [ofInput_of_undecodable views whole, ofInput_of_undecodable views late, blocksOf_append,
        ofBlocks_append]
      have code := exitCode_ofBlocks_le (blocksOf views texts)
      simp only [followedBy, Nat.max_eq_right code, String.append_assoc]
  · -- Nothing behind the line that is no text has a part in either report.
    rw [early, List.append_assoc, List.cons_append] at whole
    rw [early, if_neg (by simp), ofInput_of_undecodable views whole,
      ofInput_of_undecodable views early]

/-- Chunks of whole lines, and what is behind the last line feed, give the report on all of the
input at once. -/
theorem ofChunks_append {chunks : List (List UInt8)} (ended : ∀ chunk ∈ chunks, Text.Ended 10 chunk)
    (last : List UInt8) :
    ofChunks views ((chunks ++ [last]).map List.toByteArray) =
      ofInput views (chunks.flatten ++ last).toByteArray := by
  induction chunks with
  | nil => simp [ofChunks, followedBy_nothing]
  | cons chunk chunks ih =>
    obtain ⟨first, others⟩ := List.forall_mem_cons.mp ended
    rw [List.flatten_cons, List.append_assoc, ofInput_append_of_ended views first, ← ih others]
    rfl

end Chunks

theorem ofInput_toUTF8 (text : String) : ofInput views text.toUTF8 = ofText views text :=
  ofInput_of_decoded views (Text.decodedLines_toUTF8 text)

theorem ofFile_toUTF8 (path text : String) :
    ofFile views path (some text.toUTF8) = ofText views text := by
  rw [ofFile, Option.bind_some, Text.fromUTF8?_toUTF8]

theorem ofFile_of_invalid (path : String) {bytes : ByteArray} (invalid : ¬ bytes.IsValidUTF8) :
    ofFile views path (some bytes) = ⟨1, "", printed [unreadableFile path]⟩ := by
  rw [ofFile, Option.bind_some, (Text.fromUTF8?_eq_none_iff bytes).mpr invalid]

theorem ofText_of_line {line : String} (filled : Text.isBlank line = false)
    (oneLine : '\n' ∉ line.toList) : ofText views line = ofExpression views line := by
  have present : line.toList ≠ [] := by
    intro nothing
    simp [Text.isBlank, nothing] at filled
  have lines : Text.lines line = [line] := by
    rw [Text.lines, Text.linesOf_of_not_mem _ oneLine, if_neg (by simpa using present),
      List.map_singleton, String.ofList_toList]
  rw [ofText, ofExpression, blocksOf, lines, List.filter_singleton, filled]
  rfl

/-- Standard input that is no text is computed up to its first line that is none. -/
theorem ofInput_of_firstUndecodable {bytes : ByteArray} {before line after : List UInt8}
    (first : Text.FirstUndecodable bytes.data.toList before line after) :
    ofInput views bytes =
      let report := ofInput views before.toByteArray
      ⟨1, report.output, report.errors ++ printed [unreadableInput]⟩ := by
  obtain ⟨later, decoded⟩ := Text.decodedLines_of_firstUndecodable first
  -- The bytes in front of that line are a text, so they are computed to their end.
  obtain ⟨text, decodable⟩ := first.exists_text
  rw [Text.toByteArray_toList, decodable, Text.decodedLines_toUTF8] at decoded
  rw [decodable, ofInput_of_decoded views (Text.decodedLines_toUTF8 text)]
  exact ofInput_of_undecodable views decoded

/-- The reports on the same bytes, in a file and on standard input. For a text they agree, and so
does the report on a line given as contents with the one on that line alone. Of a file that is no
text nothing is computed, and standard input is computed up to the first line that is no text. -/
theorem ofArguments_of_same_bytes {readFile : String → Option ByteArray} {path : String}
    {bytes : ByteArray} {views : Views} {fromFile fromInput : List String}
    (held : readFile path = some bytes)
    (file : Request.ofArguments fromFile = .compute (.file path) views)
    (input : Request.ofArguments fromInput = .compute .standardInput views)
    (usage : Usage) (other : ByteArray) :
    (bytes.IsValidUTF8 →
      ofArguments usage readFile other fromFile = ofArguments usage readFile bytes fromInput) ∧
    (∀ fromContents line, Request.ofArguments fromContents = .compute (.expression line) views →
      Text.isBlank line = false → '\n' ∉ line.toList →
      ofArguments usage readFile other fromContents =
        ofArguments usage readFile line.toUTF8 fromInput) ∧
    (¬ bytes.IsValidUTF8 →
      ofArguments usage readFile other fromFile = ⟨1, "", printed [unreadableFile path]⟩ ∧
      (∃ before line after, Text.FirstUndecodable bytes.data.toList before line after) ∧
      ∀ before line after, Text.FirstUndecodable bytes.data.toList before line after →
        ofArguments usage readFile bytes fromInput =
          let report := ofArguments usage readFile before.toByteArray fromInput
          ⟨1, report.output, report.errors ++ printed [unreadableInput]⟩) := by
  -- Nothing but the request decides which of the two ways a run takes.
  have onFile : ofArguments usage readFile other fromFile = ofFile views path (some bytes) := by
    simp only [ofArguments, file, held]
  have onInput (content : ByteArray) :
      ofArguments usage readFile content fromInput = ofInput views content := by
    simp only [ofArguments, input]
  refine ⟨?_, ?_, ?_⟩
  · intro valid
    obtain ⟨text, rfl⟩ := Text.exists_eq_toUTF8 valid
    rw [onFile, onInput, ofFile_toUTF8, ofInput_toUTF8]
  · intro fromContents line contents filled oneLine
    rw [onInput, ofInput_toUTF8, ofText_of_line views filled oneLine]
    simp only [ofArguments, contents]
  · intro invalid
    refine ⟨onFile.trans (ofFile_of_invalid views path invalid), ?_, ?_⟩
    · apply Text.exists_firstUndecodable
      rwa [Text.toByteArray_toList]
    · intro before line after first
      rw [onInput, onInput, ofInput_of_firstUndecodable views first]

/-- The third of these lines begins a character of two bytes and does not end it. -/
theorem ofArguments_of_truncated_character :
    let usage : Usage := ⟨fun _ => "", fun _ => ""⟩
    let content := ("1 + 1\r\n)\n".toUTF8.data.toList ++ [0xc3, 10, 50]).toByteArray
    let readFile := fun path => if path = "sums" then some content else none
    ofArguments usage readFile "3".toUTF8 ["--tokens", "--file", "--", "sums"] =
        ⟨1, "", "Failed to read the input file 'sums'. Perhaps this file does not exist?\n"⟩ ∧
      ofArguments usage readFile content ["--tokens"] =
        ⟨1, "1 + 1\n2\n)\nError\n", "Error at position 0: Expected a number but found ')'.\n" ++
          "Failed to read from stdin: stream did not contain valid UTF-8\n"⟩ ∧
      ofArguments usage readFile "3".toUTF8 ["--tokens", "--", "-2\r"] =
        ofArguments usage readFile "-2\r".toUTF8 ["--tokens"] := by
  intro usage content readFile
  have held : readFile "sums" = some content := rfl
  obtain ⟨-, agree, stop⟩ := ofArguments_of_same_bytes held
    (Request.ofArguments_file ⟨true, false⟩ "sums") (Request.ofArguments_views ⟨true, false⟩)
    usage "3".toUTF8
  obtain ⟨file, -, input⟩ := stop (by decide +kernel)
  have first : Text.FirstUndecodable content.data.toList "1 + 1\r\n)\n".toUTF8.data.toList [0xc3]
      [10, 50] := by
    refine ⟨?_, Or.inr ?_, ?_, ?_, ?_, ?_⟩ <;> decide +kernel
  refine ⟨file, (input _ _ _ first).trans (by decide +kernel), ?_⟩
  exact agree _ "-2\r" (Request.ofArguments_expression ⟨true, false⟩ "-2\r") (by decide) (by decide)

end Report
end Calculator.CommandLine
