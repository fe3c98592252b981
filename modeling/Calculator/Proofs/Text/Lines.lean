import Calculator.Proofs.Token.Division
import Calculator.Text.Lines

/-!
Lines of a text and lines of its bytes.

A line feed and a carriage return are one byte each in UTF-8 and no other character has that byte
in its encoding. So a text can be divided into lines before it is encoded or after, and a row of
bytes is the encoding of a text exactly if each of its lines is.

Main statements: the lines of an encoded text, decoded one by one, are the lines of the text
(`decodedLines_toUTF8`); in a row of bytes that is no text, decoding goes as far as its first
line that is none (`decodedLines_of_firstUndecodable`), and there is such a line
(`exists_firstUndecodable`).
-/
namespace Calculator.Text
open Token (bytes bytes_append bytes_cons toUTF8_data_toList)

section Lines

variable {α : Type}

/-- A row of symbols is one line without a line feed, or such a line with its line feed and what
is behind that. -/
@[elab_as_elim]
theorem lineInduction {motive : List α → Prop} (lineFeed : α) (symbols : List α)
    (last : ∀ line, lineFeed ∉ line → motive line)
    (more : ∀ line rest, lineFeed ∉ line → motive rest → motive (line ++ lineFeed :: rest)) :
    motive symbols := by
  -- A line feed takes a whole line off, so the induction is on how many symbols are left.
  induction length : symbols.length using Nat.strong_induction_on generalizing symbols with
  | _ bound ih =>
    by_cases member : lineFeed ∈ symbols
    · obtain ⟨line, rest, rfl, absent⟩ := List.eq_append_cons_of_mem member
      have shorter : rest.length < bound := by
        rw [← length, List.length_append, List.length_cons]
        omega
      exact more line rest absent (ih rest.length shorter rest rfl)
    · exact last symbols member

/-- Nothing, or lines with their line feeds. -/
def Ended (lineFeed : α) (symbols : List α) : Prop :=
  symbols = [] ∨ symbols.getLast? = some lineFeed

theorem Ended.of_append_cons {lineFeed : α} {line rest : List α}
    (ended : Ended lineFeed (line ++ lineFeed :: rest)) : Ended lineFeed rest := by
  cases rest with
  | nil => exact Or.inl rfl
  | cons first others =>
    right
    rcases ended with nothing | final
    · simp at nothing
    · rwa [List.getLast?_append_cons, List.getLast?_cons_cons] at final

theorem Ended.eq_nil {lineFeed : α} {line : List α} (ended : Ended lineFeed line)
    (absent : lineFeed ∉ line) : line = [] :=
  ended.resolve_right fun final => absent (List.mem_of_getLast? final)

variable [DecidableEq α]

theorem linesOf_append_of_ended {lineFeed : α} (carriageReturn : α) {before : List α}
    (ended : Ended lineFeed before) (after : List α) :
    linesOf lineFeed carriageReturn (before ++ after) =
      linesOf lineFeed carriageReturn before ++ linesOf lineFeed carriageReturn after := by
  induction before using lineInduction lineFeed with
  | last line absent =>
    obtain rfl := ended.eq_nil absent
    rw [linesOf_of_not_mem carriageReturn absent]
    rfl
  | more line rest absent ih =>
    rw [List.append_assoc, List.cons_append, linesOf_append_cons carriageReturn _ absent,
      linesOf_append_cons carriageReturn _ absent, ih ended.of_append_cons, List.cons_append]

end Lines

section Bytes

variable {c : Char} {byte : UInt8}

/-- A byte that is a character on its own is in the encoding of no other character. -/
theorem eq_of_mem_utf8EncodeChar {other : Char} (single : String.utf8EncodeChar c = [byte])
    (member : byte ∈ String.utf8EncodeChar other) : other = c := by
  have leads : byte.IsUTF8FirstByte := by
    have inside : 0 < (String.utf8EncodeChar c).length := by simp [single]
    have first : ((String.utf8EncodeChar c)[0]).IsUTF8FirstByte :=
      UInt8.isUTF8FirstByte_getElem_utf8EncodeChar.mpr rfl
    simpa only [single, List.getElem_cons_zero] using first
  -- Only the first byte of an encoding leads one, so the other encoding begins with this byte.
  obtain ⟨index, inside, same⟩ := List.getElem_of_mem member
  obtain rfl : index = 0 := UInt8.isUTF8FirstByte_getElem_utf8EncodeChar.mp (same.symm ▸ leads)
  obtain ⟨head, others, encoding⟩ := List.exists_cons_of_length_pos inside
  simp only [encoding, List.getElem_cons_zero] at same
  have begins : [c] <+: [other] := by
    apply List.isPrefix_of_utf8Encode_append_eq_utf8Encode others.toByteArray
    rw [List.utf8Encode_singleton, List.utf8Encode_singleton, encoding, single, same,
      ← List.toByteArray_append, List.singleton_append]
  simpa [eq_comm] using begins

theorem mem_bytes_iff (single : String.utf8EncodeChar c = [byte]) (text : List Char) :
    byte ∈ bytes text ↔ c ∈ text := by
  rw [bytes, List.mem_flatMap]
  constructor
  · rintro ⟨other, member, inside⟩
    exact eq_of_mem_utf8EncodeChar single inside ▸ member
  · exact fun member => ⟨c, member, single ▸ List.mem_singleton_self byte⟩

theorem dropFinal_bytes (single : String.utf8EncodeChar c = [byte]) (text : List Char) :
    dropFinal byte (bytes text) = bytes (dropFinal c text) := by
  induction text using List.reverseRecOn with
  | nil => rfl
  | append_singleton front final =>
    by_cases same : final = c
    · -- Both marks are the last there is, and both are dropped.
      subst same
      simp [dropFinal, bytes, single]
    · -- The encoding ends in a byte of the final character, which is none of these.
      have other : (bytes (front ++ [final])).getLast? ≠ some byte := by
        have encoding : bytes [final] = String.utf8EncodeChar final := List.append_nil _
        intro ends
        rw [bytes_append, encoding, List.getLast?_append,
          List.getLast?_eq_some_getLast String.utf8EncodeChar_ne_nil, Option.some_or,
          Option.some.injEq] at ends
        exact same (eq_of_mem_utf8EncodeChar single (ends ▸ List.getLast_mem _))
      rw [dropFinal, if_neg other, dropFinal, if_neg (by simpa using same)]

theorem utf8EncodeChar_lineFeed : String.utf8EncodeChar '\n' = [10] := by decide

theorem utf8EncodeChar_carriageReturn : String.utf8EncodeChar '\r' = [13] := by decide

theorem lineFeed_not_mem_bytes {line : List Char} (absent : '\n' ∉ line) : 10 ∉ bytes line := by
  rwa [mem_bytes_iff utf8EncodeChar_lineFeed]

theorem bytes_append_lineFeed (line rest : List Char) :
    bytes (line ++ '\n' :: rest) = bytes line ++ 10 :: bytes rest := by
  rw [bytes_append, bytes_cons, utf8EncodeChar_lineFeed, List.singleton_append]

theorem linesOf_bytes (text : List Char) :
    linesOf 10 13 (bytes text) = (linesOf '\n' '\r' text).map bytes := by
  induction text using lineInduction '\n' with
  | last line absent =>
    rw [linesOf_of_not_mem _ absent, linesOf_of_not_mem _ (lineFeed_not_mem_bytes absent)]
    cases line with
    | nil => rfl
    | cons first others => simp [Token.bytes_ne_nil]
  | more line rest absent ih =>
    rw [bytes_append_lineFeed, linesOf_append_cons _ _ absent,
      linesOf_append_cons _ _ (lineFeed_not_mem_bytes absent), List.map_cons, ih,
      dropFinal_bytes utf8EncodeChar_carriageReturn]

end Bytes

section Decoding

theorem fromUTF8?_toUTF8 (text : String) : String.fromUTF8? text.toUTF8 = some text := by
  simp only [String.fromUTF8?, String.toUTF8_eq_toByteArray, dif_pos text.isValidUTF8]
  rfl

theorem fromUTF8?_eq_none_iff (content : ByteArray) :
    String.fromUTF8? content = none ↔ ¬ content.IsValidUTF8 := by
  rw [String.fromUTF8?]
  split <;> simpa

theorem exists_eq_toUTF8 {content : ByteArray} (valid : content.IsValidUTF8) :
    ∃ text : String, content = text.toUTF8 :=
  ⟨String.fromUTF8 content valid, rfl⟩

theorem toByteArray_toList (content : ByteArray) : content.data.toList.toByteArray = content := by
  apply ByteArray.ext
  rw [List.data_toByteArray, Array.toArray_toList]

theorem toByteArray_bytes (text : List Char) :
    (bytes text).toByteArray = (String.ofList text).toUTF8 := by
  rw [String.toUTF8_eq_toByteArray, ← String.utf8Encode_toList, String.toList_ofList]
  rfl

/-- Bytes of a text are the bytes of its characters, one after the other. -/
theorem isValidUTF8_iff (content : List UInt8) :
    content.toByteArray.IsValidUTF8 ↔ ∃ text, content = bytes text := by
  constructor
  · rintro ⟨text, same⟩
    have listed := congrArg (·.data.toList) same
    simp only [List.utf8Encode, List.toList_data_toByteArray] at listed
    exact ⟨text, listed⟩
  · rintro ⟨text, rfl⟩
    exact ⟨text, rfl⟩

/-- Bytes are a text exactly if each of their lines is. -/
theorem isValidUTF8_iff_lines (content : List UInt8) :
    content.toByteArray.IsValidUTF8 ↔
      ∀ line ∈ content.splitOn 10, line.toByteArray.IsValidUTF8 := by
  constructor
  · intro valid
    -- The lines of the bytes are those of the characters, so the induction is on the characters.
    obtain ⟨text, rfl⟩ := (isValidUTF8_iff content).mp valid
    clear valid
    induction text using lineInduction '\n' with
    | last line absent =>
      rw [List.splitOn_eq_singleton (lineFeed_not_mem_bytes absent), List.forall_mem_singleton]
      exact (isValidUTF8_iff _).mpr ⟨line, rfl⟩
    | more line rest absent ih =>
      rw [bytes_append_lineFeed,
        List.splitOn_append_cons_self_of_not_mem (lineFeed_not_mem_bytes absent),
        List.forall_mem_cons]
      exact ⟨(isValidUTF8_iff _).mpr ⟨line, rfl⟩, ih⟩
  · induction content using lineInduction (10 : UInt8) with
    | last line absent =>
      rw [List.splitOn_eq_singleton absent, List.forall_mem_singleton]
      exact id
    | more line rest absent ih =>
      rw [List.splitOn_append_cons_self_of_not_mem absent, List.forall_mem_cons]
      rintro ⟨valid, others⟩
      obtain ⟨text, rfl⟩ := (isValidUTF8_iff line).mp valid
      obtain ⟨after, rfl⟩ := (isValidUTF8_iff rest).mp (ih others)
      exact (isValidUTF8_iff _).mpr ⟨text ++ '\n' :: after, (bytes_append_lineFeed text after).symm⟩

theorem decodedLines_toUTF8 (text : String) : decodedLines text.toUTF8 = (lines text).map some := by
  rw [decodedLines, toUTF8_data_toList, linesOf_bytes, lines, List.map_map, List.map_map]
  apply List.map_congr_left
  intro line _
  simp only [Function.comp_apply]
  rw [toByteArray_bytes, fromUTF8?_toUTF8]

theorem decodedLines_append_of_ended {before : List UInt8} (ended : Ended 10 before)
    (after : List UInt8) :
    decodedLines (before ++ after).toByteArray =
      decodedLines before.toByteArray ++ decodedLines after.toByteArray := by
  simp only [decodedLines, List.toList_data_toByteArray]
  rw [linesOf_append_of_ended 13 ended, List.map_append]

/-- Lines can all be decoded, or there is a first one that cannot. -/
theorem eq_map_some_or (decoded : List (Option String)) :
    (∃ texts : List String, decoded = texts.map some) ∨
      ∃ (texts : List String) (later : List (Option String)),
        decoded = texts.map some ++ none :: later := by
  induction decoded with
  | nil => exact Or.inl ⟨[], rfl⟩
  | cons line others ih =>
    cases line with
    | none => exact Or.inr ⟨[], others, rfl⟩
    | some text =>
      rcases ih with ⟨texts, rfl⟩ | ⟨texts, later, rfl⟩
      · exact Or.inl ⟨text :: texts, rfl⟩
      · exact Or.inr ⟨text :: texts, later, rfl⟩

/-- Bytes are cut around a line that is no text, and every line before it is text. The line begins
behind a line feed or at the very beginning, and ends in front of one or at the very end. -/
structure FirstUndecodable (content before line after : List UInt8) : Prop where
  cut : content = before ++ (line ++ after)
  begins : Ended 10 before
  oneLine : 10 ∉ line
  ends : after = [] ∨ after.head? = some 10
  earlier : ∀ other ∈ before.splitOn 10, other.toByteArray.IsValidUTF8
  undecodable : ¬ line.toByteArray.IsValidUTF8

theorem exists_firstUndecodable {content : List UInt8}
    (invalid : ¬ content.toByteArray.IsValidUTF8) :
    ∃ before line after, FirstUndecodable content before line after := by
  -- The first line is it, or it is text and the line is found behind it.
  induction content using lineInduction (10 : UInt8) with
  | last line absent =>
    exact ⟨[], line, [], by simp, Or.inl rfl, absent, Or.inl rfl,
      (isValidUTF8_iff_lines []).mp (ByteArray.isValidUTF8_empty), invalid⟩
  | more line rest absent ih =>
    by_cases decodable : line.toByteArray.IsValidUTF8
    · have later : ¬ rest.toByteArray.IsValidUTF8 := by
        rw [isValidUTF8_iff_lines] at invalid ⊢
        rw [List.splitOn_append_cons_self_of_not_mem absent, List.forall_mem_cons] at invalid
        exact fun valid => invalid ⟨decodable, valid⟩
      obtain ⟨before, found, after, first⟩ := ih later
      refine ⟨line ++ 10 :: before, found, after, by simp [first.cut], Or.inr ?_, first.oneLine,
        first.ends, ?_, first.undecodable⟩
      · rcases first.begins with rfl | final
        · simp
        · rw [List.getLast?_append_cons, List.getLast?_cons, final]
          rfl
      · rw [List.splitOn_append_cons_self_of_not_mem absent, List.forall_mem_cons]
        exact ⟨decodable, first.earlier⟩
    · exact ⟨[], line, 10 :: rest, rfl, Or.inl rfl, absent, Or.inr rfl,
        (isValidUTF8_iff_lines []).mp (ByteArray.isValidUTF8_empty), decodable⟩

/-- A line that is text without the carriage return at its end is text with it. -/
theorem isValidUTF8_of_dropFinal {line : List UInt8}
    (valid : (dropFinal 13 line).toByteArray.IsValidUTF8) : line.toByteArray.IsValidUTF8 := by
  rw [dropFinal] at valid
  split at valid
  next final =>
    obtain ⟨front, rfl⟩ := List.getLast?_eq_some_iff.mp final
    rw [List.dropLast_concat] at valid
    rw [List.toByteArray_append]
    exact valid.append ((isValidUTF8_iff _).mpr ⟨['\r'], by decide⟩)
  · exact valid

variable {content before line after : List UInt8}

/-- The text that the lines before the first undecodable one make. -/
theorem FirstUndecodable.exists_text (first : FirstUndecodable content before line after) :
    ∃ text : String, before.toByteArray = text.toUTF8 := by
  obtain ⟨text, rfl⟩ :=
    (isValidUTF8_iff before).mp ((isValidUTF8_iff_lines before).mpr first.earlier)
  exact ⟨String.ofList text, toByteArray_bytes text⟩

theorem decodedLines_of_firstUndecodable (first : FirstUndecodable content before line after) :
    ∃ later, decodedLines content.toByteArray =
      decodedLines before.toByteArray ++ none :: later := by
  rw [first.cut, decodedLines_append_of_ended first.begins]
  simp only [decodedLines, List.toList_data_toByteArray]
  rcases first.ends with rfl | head
  · have present : line ≠ [] := by
      rintro rfl
      exact first.undecodable ByteArray.isValidUTF8_empty
    refine ⟨[], ?_⟩
    rw [List.append_nil, linesOf_of_not_mem _ first.oneLine, if_neg (by simpa using present),
      List.map_singleton, (fromUTF8?_eq_none_iff _).mpr first.undecodable]
  · obtain ⟨rest, rfl⟩ := List.head?_eq_some_iff.mp head
    refine ⟨(linesOf 10 13 rest).map fun line => String.fromUTF8? line.toByteArray, ?_⟩
    rw [linesOf_append_cons _ _ first.oneLine, List.map_cons,
      (fromUTF8?_eq_none_iff _).mpr (mt isValidUTF8_of_dropFinal first.undecodable)]

end Decoding

end Calculator.Text
