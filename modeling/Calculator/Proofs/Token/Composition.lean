import Calculator.Proofs.ReadBack
import Calculator.Proofs.Token.Fault
import Calculator.Proofs.Token.Resumption

/-!
Sources put together, and blanks put into a source.

A token that is complete in a source is complete in a longer one too, unless it is a numeral at the
very end and the longer source goes on with a digit or a point. Inside a source the next character
decides: a digit would belong to the numeral already, and a point has its digit behind it, because
it could not be scanned otherwise. So the scanner can be started anew at the end of every token, and
what it finds from there on has its places moved and nothing else changed.

Main statement: where no numeral runs across the seam, two sources are scanned one after the other,
and blanks may be put anywhere but inside a numeral (`scan_append`).
-/
namespace Calculator

namespace Numeral

/-- The numeral at the front is decided by the character behind it, and if that is a point, by one
more. -/
theorem front?_append_of_front? {numeral : Numeral} {c : Char} {others : List Char}
    (found : front? (numeral.text ++ c :: others) = some numeral)
    (notLone : c = '.' → ∃ next ∈ others.head?, next.isDigit = true) (after : List Char) :
    front? (numeral.text ++ c :: (others ++ after)) = some numeral := by
  have proper := proper_of_front? found
  obtain ⟨taken, rest, present⟩ := front?_eq_some_iff.mp found
  obtain ⟨whole, fraction⟩ := numeral
  have wholeDigits : ∀ d ∈ whole, d.isDigit = true := fun d member =>
    proper.isDigit d (List.mem_append_left _ member)
  rw [front?_eq_some_iff]
  -- Without a fraction what stands behind is no digit and no point with one, else no digit.
  cases fraction with
  | nil =>
    simp only [Numeral.text, List.isEmpty_nil, if_true, List.append_nil,
      List.takeWhile_append_of_pos wholeDigits,
      List.dropWhile_append_of_pos wholeDigits] at taken rest present ⊢
    have notDigit : c.isDigit = false := by
      by_contra digit
      simp [digit] at taken
    have notPoint : c ≠ '.' := by
      rintro rfl
      obtain ⟨next, first, digit⟩ := notLone rfl
      have nothing := (Token.frontFraction_eq_nil_iff '.' others).mp (by simpa using rest.symm)
      exact absurd digit (by simp [nothing rfl next first])
    have ended := (Token.frontFraction_eq_nil_iff c (others ++ after)).mpr
      fun point => absurd point notPoint
    exact ⟨by simp [notDigit], by simp [notDigit, ended], present⟩
  | cons first fraction =>
    have fractionDigits : ∀ d ∈ first :: fraction, d.isDigit = true := fun d member =>
      proper.isDigit d (List.mem_append_right _ member)
    have behind (more : List Char) : (text ⟨whole, first :: fraction⟩ ++ more).dropWhile
        Char.isDigit = '.' :: (first :: fraction ++ more) := by
      simp [Numeral.text, List.dropWhile_append_of_pos wholeDigits]
    rw [behind, frontFraction, List.takeWhile_append_of_pos fractionDigits] at rest ⊢
    have notDigit : c.isDigit = false := by
      by_contra digit
      simp [digit] at rest
    refine ⟨?_, by simp [notDigit], present⟩
    simp [Numeral.text, List.takeWhile_append_of_pos wholeDigits]

end Numeral

/-- The same lexeme, moved on if it stands at a place or behind it. -/
def Lexeme.shiftFrom (place distance : Nat) (lexeme : Lexeme) : Lexeme :=
  if place ≤ lexeme.span.start then lexeme.shift distance else lexeme

namespace Token

/-- A token is a number. -/
def IsLiteral (token : Token) : Prop := ∃ value, token = literal value

/-- The last of a source's bytes belongs to a number. -/
def EndsInLiteral (source : String) (found : List Lexeme) : Prop :=
  ∃ lexeme ∈ found, lexeme.token.IsLiteral ∧ lexeme.span.stop = source.utf8ByteSize

/-- A source begins with a digit or a point. -/
def BeginsNumeral (source : String) : Prop :=
  ∃ c ∈ source.toList.head?, c.isDigit = true ∨ c = '.'

instance (source : String) : Decidable (BeginsNumeral source) :=
  decidable_of_iff (source.toList.head?.any (fun c => c.isDigit || c == '.') = true)
    (by simp [BeginsNumeral, Option.any_eq_true])

section Scans

variable {token : Token} {text rest after source : List Char} {offset : Nat} {found : List Lexeme}

/-- At the end of a source only a numeral's characters prolong a token. -/
theorem Stands.append_of_apart (stands : Stands token text [])
    (apart : token.IsLiteral → ∀ c ∈ after.head?, c ∉ '.' :: Numeral.digitChars) :
    Stands token text after := by
  cases token with
  | literal value =>
    obtain ⟨⟨pattern, listed, fits, _⟩, number⟩ := stands
    obtain ⟨rfl, finite⟩ := Numeral.isNumberOf_iff.mp number
    obtain ⟨proper, same⟩ := Numeral.proper_of_matches listed fits
    have stands := stands_numeral proper finite (apart ⟨_, rfl⟩)
    rwa [same] at stands
  | leftParen | rightParen | minus | plus | slash | star => exact stands

/-- Inside a source that is scanned without a fault, nothing further on prolongs a token. -/
theorem Stands.append_of_present (stands : Stands token text rest) (present : rest ≠ [])
    (faultless : ¬ Fault rest) : Stands token text (rest ++ after) := by
  cases token with
  | literal value =>
    obtain ⟨c, others, rfl⟩ := List.exists_cons_of_ne_nil present
    obtain ⟨longest, number⟩ := stands
    obtain ⟨found, same⟩ := (Numeral.front?_append_iff _ _ _).mpr ⟨longest, rfl⟩
    generalize Numeral.ofText text = front at found same
    have notLone : c = '.' → ∃ next ∈ others.head?, next.isDigit = true := by
      rintro rfl
      by_contra lone
      refine faultless (.character (by decide) (by decide) fun _ next first => ?_)
      exact eq_false_of_ne_true fun digit => lone ⟨next, first, digit⟩
    rw [← same] at found
    have longer := Numeral.front?_append_of_front? found notLone after
    rw [same] at longer
    exact ⟨((Numeral.front?_append_iff _ _ _).mp ⟨longer, same⟩).1, number⟩
  | leftParen | rightParen | minus | plus | slash | star => exact stands

theorem Scans.not_fault (scans : Scans source offset found) : ¬ Fault source := by
  intro fault
  obtain ⟨c, others, rfl⟩ := List.exists_cons_of_ne_nil fault.ne_nil
  have failed := scanFrom_stuck offset ((fault_iff c others).mp fault)
  rw [(scanFrom_eq_ok_iff _ _ _).mpr scans] at failed
  cases failed

/-- A source that is scanned is cut in the same way as a part of a longer one, unless its last token
is prolonged there. -/
theorem Scans.cut (scans : Scans source offset found)
    (apart : (∃ lexeme ∈ found, lexeme.token.IsLiteral ∧
      lexeme.span.stop = offset + source.length) →
      ∀ c ∈ after.head?, c ∉ '.' :: Numeral.digitChars) : Cut after source := by
  induction scans with
  | done => exact .done
  | @blank c rest offset found isBlank others ih =>
    refine .blank isBlank (ih fun ⟨lexeme, member, number, last⟩ => ?_)
    exact apart ⟨lexeme, member, number, by rw [last, List.length_cons]; omega⟩
  | @token token text rest offset found stands others ih =>
    have longer : Stands token text (rest ++ after) := by
      by_cases ended : rest = []
      · subst ended
        exact stands.append_of_apart fun number =>
          apart ⟨_, List.mem_cons_self, number, by simp⟩
      · exact stands.append_of_present ended others.not_fault
    refine .token longer (ih fun ⟨lexeme, member, number, last⟩ => ?_)
    refine apart ⟨lexeme, List.mem_cons_of_mem _ member, number, ?_⟩
    rw [last, List.length_append, Nat.add_assoc]

theorem Scans.length_bytes (scans : Scans source offset found) :
    (bytes source).length = source.length := by
  have cut : Cut [] source := scans.cut fun _ c first => by simp at first
  exact cut.length_bytes

/-- Lexemes lie within the source that they are scanned from. -/
theorem Scans.within (scans : Scans source offset found) : ∀ lexeme ∈ found,
    offset ≤ lexeme.span.start ∧ lexeme.span.start < lexeme.span.stop ∧
      lexeme.span.stop ≤ offset + source.length := by
  induction scans with
  | done => exact nofun
  | @blank c rest offset found isBlank others ih =>
    intro lexeme member
    have bounds := ih lexeme member
    rw [List.length_cons]
    omega
  | @token token text rest offset found stands others ih =>
    have filled := List.length_pos_iff.mpr stands.text_ne_nil
    rw [List.length_append]
    refine List.forall_mem_cons.mpr ⟨⟨Nat.le_refl _, ?_, ?_⟩, fun lexeme member => ?_⟩
    · exact Nat.lt_add_of_pos_right filled
    · exact Nat.add_le_add_left (Nat.le_add_right _ _) _
    · have bounds := ih lexeme member
      omega

theorem scans_blanks {blanks : List Char} (blank : ∀ c ∈ blanks, isBlank c = true)
    (offset : Nat) : Scans blanks offset [] := by
  induction blanks generalizing offset with
  | nil => exact .done offset
  | cons c rest ih =>
    obtain ⟨first, others⟩ := List.forall_mem_cons.mp blank
    exact .blank first (ih others (offset + 1))

/-- A source is cut at any place that is not inside a number. -/
theorem Scans.exists_split {front : List Char} (scans : Scans (front ++ rest) offset found)
    (outside : ∀ lexeme ∈ found, lexeme.token.IsLiteral →
      ¬ (lexeme.span.start < offset + front.length ∧
        offset + front.length < lexeme.span.stop)) :
    ∃ earlier later, found = earlier ++ later ∧ Scans front offset earlier ∧
      Scans rest (offset + front.length) later := by
  generalize whole : front ++ rest = source at scans
  induction scans generalizing front with
  | done offset =>
    obtain ⟨rfl, rfl⟩ := List.append_eq_nil_iff.mp whole
    exact ⟨[], [], rfl, .done offset, .done offset⟩
  | @blank c behind offset found isBlank others ih =>
    cases front with
    | nil =>
      obtain rfl : rest = c :: behind := whole
      exact ⟨[], found, rfl, .done offset, .blank isBlank others⟩
    | cons first front =>
      obtain ⟨rfl, same⟩ : first = c ∧ front ++ rest = behind := List.cons.inj whole
      rw [List.length_cons, Nat.add_comm front.length, ← Nat.add_assoc] at outside ⊢
      obtain ⟨earlier, later, rfl, before, after⟩ := ih outside same
      exact ⟨earlier, later, rfl, .blank isBlank before, after⟩
  | @token token text behind offset found stands others ih =>
    by_cases inside : front.length < text.length
    · -- The place is in front of the token, since a symbol has no inside.
      have nothing : front = [] := by
        by_contra present
        have positive := List.length_pos_iff.mpr present
        cases token with
        | literal value =>
          refine outside _ List.mem_cons_self ⟨value, rfl⟩ ⟨?_, ?_⟩
          · exact Nat.lt_add_of_pos_right positive
          · exact Nat.add_lt_add_left inside _
        | leftParen | rightParen | minus | plus | slash | star =>
          obtain rfl := stands
          exact absurd inside (Nat.not_lt.mpr positive)
      subst nothing
      obtain rfl : rest = text ++ behind := whole
      exact ⟨[], _, rfl, .done offset, .token stands others⟩
    · obtain ⟨between, rfl⟩ : text <+: front := by
        apply List.prefix_of_prefix_length_le (List.prefix_append text behind)
        · exact ⟨rest, whole⟩
        · exact Nat.le_of_not_lt inside
      rw [List.append_assoc] at whole
      obtain rfl := List.append_cancel_left whole
      rw [List.length_append, ← Nat.add_assoc] at outside ⊢
      obtain ⟨earlier, later, rfl, before, after⟩ :=
        ih (fun lexeme member => outside lexeme (List.mem_cons_of_mem _ member)) rfl
      exact ⟨_ :: earlier, later, rfl, .token stands.shorten before, after⟩

end Scans

theorem length_le_length_bytes (text : List Char) : text.length ≤ (bytes text).length := by
  induction text with
  | nil => exact Nat.le_refl _
  | cons c rest ih =>
    have filled := List.length_pos_iff.mpr (@String.utf8EncodeChar_ne_nil c)
    rw [bytes_cons, List.length_append, List.length_cons]
    omega

section Sources

variable {a b : String} {found : List Lexeme}

theorem size_of_scan (scanned : scan a = .ok found) : a.utf8ByteSize = a.toList.length := by
  rw [← Token.length_bytes, ((scan_eq_ok_iff_scans a found).mp scanned).length_bytes]

/-- What follows a source that can be scanned is scanned by itself, that many bytes further on. -/
theorem scan_append_of_apart (scanned : scan a = .ok found)
    (apart : ¬ (EndsInLiteral a found ∧ BeginsNumeral b)) :
    scan (a ++ b) = (shiftOutcome a.utf8ByteSize (scan b)).map (found ++ ·) := by
  have scans := (scan_eq_ok_iff_scans a found).mp scanned
  have cut : Cut b.toList a.toList := by
    refine scans.cut fun ⟨lexeme, member, number, last⟩ c first listed => apart ⟨?_, c, first, ?_⟩
    · exact ⟨lexeme, member, number, by rw [last, size_of_scan scanned, Nat.zero_add]⟩
    · rw [List.mem_cons, ← Numeral.isDigit_iff_mem] at listed
      exact listed.symm
  obtain ⟨alone, scansAlone, same⟩ := cut.exists_scans 0
  have sameFound : alone = found :=
    Except.ok.inj (((scanFrom_eq_ok_iff _ _ _).mpr scansAlone).symm.trans scanned)
  rw [scan, String.toList_append, same, sameFound, scanFrom_add, ← scan, size_of_scan scanned]

theorem scan_of_blanks (blank : ∀ c ∈ a.toList, isBlank c = true) : scan a = .ok [] :=
  (scan_eq_ok_iff_scans a []).mpr (scans_blanks blank 0)

theorem not_beginsNumeral_of_blank (blank : ∀ c ∈ a.toList, isBlank c = true)
    (present : a ≠ "") (b : String) : ¬ BeginsNumeral (a ++ b) := by
  rintro ⟨c, first, numeral⟩
  have filled : a.toList ≠ [] := fun nothing => present (String.toList_inj.mp nothing)
  obtain ⟨space, others, text⟩ := List.exists_cons_of_ne_nil filled
  rw [String.toList_append, text] at first
  obtain rfl : space = c := Option.some.inj first
  have listed := (isBlank_iff_mem space).mp (blank space (by simp [text]))
  simp only [List.mem_cons, List.not_mem_nil, or_false] at listed
  rcases listed with rfl | rfl | rfl | rfl <;> simp at numeral

/-- Lexemes in front of a place are not moved from there on, and those behind it are. -/
theorem map_shiftFrom {earlier own : List Lexeme} {place : Nat} (distance : Nat)
    (inFront : ∀ lexeme ∈ earlier, lexeme.span.start < place) :
    (earlier ++ own.map (Lexeme.shift place)).map (Lexeme.shiftFrom place distance) =
      earlier ++ (own.map (Lexeme.shift distance)).map (Lexeme.shift place) := by
  rw [List.map_append, List.map_map, List.map_map]
  congr 1
  · refine (List.map_congr_left fun lexeme member => ?_).trans (List.map_id earlier)
    exact if_neg (Nat.not_le.mpr (inFront lexeme member))
  · refine List.map_congr_left fun lexeme _ => ?_
    have behind : place ≤ (lexeme.shift place).span.start := Nat.le_add_left _ _
    rw [Function.comp_apply, Lexeme.shiftFrom, if_pos behind]
    simp only [Function.comp_apply, Lexeme.shift, Nat.add_right_comm]

theorem scan_insert_blanks {before blanks after : String}
    (scanned : scan (before ++ after) = .ok found) (blank : ∀ c ∈ blanks.toList, isBlank c = true)
    (outside : ∀ lexeme ∈ found, lexeme.token.IsLiteral →
      ¬ (lexeme.span.start < before.utf8ByteSize ∧ before.utf8ByteSize < lexeme.span.stop)) :
    scan (before ++ blanks ++ after) =
      .ok (found.map (Lexeme.shiftFrom before.utf8ByteSize blanks.utf8ByteSize)) := by
  by_cases nothing : blanks = ""
  · -- With nothing between them the two parts may have a numeral across the seam.
    have still : Lexeme.shiftFrom before.utf8ByteSize 0 = id := by
      funext lexeme
      simp [Lexeme.shiftFrom, Lexeme.shift]
    simp [nothing, still, scanned]
  · have scans := (scan_eq_ok_iff_scans _ _).mp scanned
    rw [String.toList_append] at scans
    have size : before.utf8ByteSize = before.toList.length := by
      have whole := scans.length_bytes
      have parts := length_le_length_bytes before.toList
      have partsAfter := length_le_length_bytes after.toList
      rw [bytes_append, List.length_append, List.length_append] at whole
      rw [← Token.length_bytes]
      omega
    obtain ⟨earlier, later, rfl, inFront, behind⟩ :=
      scans.exists_split (by rwa [Nat.zero_add, ← size])
    obtain ⟨own, alone, rfl⟩ := behind.exists_scan
    rw [String.ofList_toList] at alone
    have first : scan (blanks ++ after) = .ok (own.map (Lexeme.shift blanks.utf8ByteSize)) := by
      rw [scan_append_of_apart (scan_of_blanks blank) (fun ⟨⟨_, member, _⟩, _⟩ => nomatch member),
        alone]
      rfl
    have numeral := not_beginsNumeral_of_blank blank nothing after
    rw [String.append_assoc, scan_append_of_apart ((scan_eq_ok_iff_scans _ _).mpr inFront)
      (fun seam => numeral seam.2), first, Nat.zero_add, ← size, map_shiftFrom]
    · rfl
    · intro lexeme member
      have bounds := inFront.within lexeme member
      omega

end Sources

/-- A source that can be scanned is scanned first, and then what follows it, that many bytes further
on, unless the source ends in a number and a digit or a point follows. So blanks that are put
anywhere but inside a number change no token, and move the later ones. -/
theorem scan_append (a : String) (found : List Lexeme) (scanned : scan a = .ok found) :
    (∀ b : String, ¬ (EndsInLiteral a found ∧ BeginsNumeral b) →
      (∀ others, scan b = .ok others →
        scan (a ++ b) = .ok (found ++ others.map (Lexeme.shift a.utf8ByteSize))) ∧
      ∀ error, scan b = .error error →
        scan (a ++ b) = .error ⟨error.character, error.position + a.utf8ByteSize⟩) ∧
    ∀ before blanks after : String, a = before ++ after →
      (∀ c ∈ blanks.toList, c ∈ [' ', '\t', '\r', '\n']) →
      (∀ lexeme ∈ found, lexeme.token.IsLiteral →
        ¬ (lexeme.span.start < before.utf8ByteSize ∧
          before.utf8ByteSize < lexeme.span.stop)) →
      scan (before ++ blanks ++ after) =
        .ok (found.map (Lexeme.shiftFrom before.utf8ByteSize blanks.utf8ByteSize)) := by
  refine ⟨fun b apart => ⟨fun others alone => ?_, fun error alone => ?_⟩, ?_⟩
  · rw [scan_append_of_apart scanned apart, alone]
    rfl
  · rw [scan_append_of_apart scanned apart, alone]
    rfl
  · rintro before blanks after rfl listed outside
    exact scan_insert_blanks scanned (fun c member => (isBlank_iff_mem c).mpr (listed c member))
      outside

/-- Two numbers stand next to each other. Behind them a minus, a blank and half a number can follow,
or a character that begins no token, and blanks can be put between them. -/
theorem scan_append_adjacent_numbers :
    let half : Token := .literal ⟨false, 0x3FE0000000000000, by decide⟩
    let three : Token := .literal ⟨false, 0x400C000000000000, by decide⟩
    scan "3.5.5" = .ok [⟨three, 0, 3⟩, ⟨half, 3, 5⟩] ∧
      scan "3.5.5- .5" = .ok [⟨three, 0, 3⟩, ⟨half, 3, 5⟩, ⟨.minus, 5, 6⟩, ⟨half, 7, 9⟩] ∧
      scan "3.5.5\t×" = .error ⟨'×', 6⟩ ∧
      scan "3.5\r\n .5" = .ok [⟨three, 0, 3⟩, ⟨half, 6, 8⟩] := by
  intro half three
  have scanned : scan "3.5.5" = .ok [⟨three, 0, 3⟩, ⟨half, 3, 5⟩] := by decide +kernel
  have minus : scan "- .5" = .ok [⟨.minus, 0, 1⟩, ⟨half, 2, 4⟩] := by decide +kernel
  have times : scan "\t×" = .error ⟨'×', 1⟩ := by decide +kernel
  obtain ⟨joined, inserted⟩ := scan_append "3.5.5" _ scanned
  have first := (joined "- .5" fun seam => absurd seam.2 (by decide)).1 _ minus
  have second := (joined "\t×" fun seam => absurd seam.2 (by decide)).2 _ times
  -- The first number ends at the place where the blanks are put, and the second one begins there.
  have size : "3.5".utf8ByteSize = 3 := rfl
  have third := inserted "3.5" "\r\n " ".5" rfl (by simp) (by simp [size])
  exact ⟨scanned, first, second, third⟩

end Token
end Calculator
