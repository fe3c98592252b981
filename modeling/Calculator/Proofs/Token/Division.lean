import Calculator.Proofs.Token.Scanning

/-!
The lexical grammar as a property of spans: what a list of lexemes says about its source.

The spans lie one behind the other on boundaries of characters, each is written as its token, no
number could be prolonged, and every byte that no span covers is one of the four blanks. Scanning
counts characters and a span counts bytes; the two agree because a token and a blank are ASCII.

Main statement: a source is scanned to exactly the lexemes that divide it (`scan_eq_ok_iff`).
-/
namespace Calculator.Token

/-- The bytes of a text in UTF-8. -/
def bytes (text : List Char) : List UInt8 := text.flatMap String.utf8EncodeChar

def blankBytes : List UInt8 := [' ', '\t', '\r', '\n'].map Char.toUInt8

/-- A lexeme's token is written in the source, and its span is where. -/
def Spelled (source : String) (lexeme : Lexeme) : Prop :=
  ∃ before text after : String, source = before ++ text ++ after ∧
    lexeme.span = ⟨before.utf8ByteSize, (before ++ text).utf8ByteSize⟩ ∧
    Stands lexeme.token text.toList after.toList

def Covered (found : List Lexeme) (offset : Nat) : Prop :=
  ∃ lexeme ∈ found, lexeme.span.start ≤ offset ∧ offset < lexeme.span.stop

/-- The lexemes of a source stand in order and leave out nothing but blanks. -/
structure Divided (source : String) (found : List Lexeme) : Prop where
  filled : ∀ lexeme ∈ found, lexeme.span.start < lexeme.span.stop
  ordered : found.Pairwise fun a b => a.span.stop ≤ b.span.start
  spelled : ∀ lexeme ∈ found, Spelled source lexeme
  blank : ∀ offset byte, source.toUTF8.data[offset]? = some byte → ¬ Covered found offset →
    byte ∈ blankBytes

section Bytes

@[simp]
theorem bytes_append (text after : List Char) : bytes (text ++ after) = bytes text ++ bytes after :=
  List.flatMap_append

theorem bytes_cons (c : Char) (text : List Char) :
    bytes (c :: text) = String.utf8EncodeChar c ++ bytes text := rfl

theorem bytes_ne_nil {text : List Char} (present : text ≠ []) : bytes text ≠ [] := by
  obtain ⟨c, rest, rfl⟩ := List.exists_cons_of_ne_nil present
  simp [bytes]

theorem toUTF8_data_toList (text : String) : text.toUTF8.data.toList = bytes text.toList := by
  rw [String.toUTF8_eq_toByteArray, ← String.utf8Encode_toList, List.utf8Encode]
  exact List.toList_data_toByteArray

theorem length_bytes (text : String) : (bytes text.toList).length = text.utf8ByteSize := by
  rw [← toUTF8_data_toList, ← String.size_toByteArray]
  rfl

theorem utf8EncodeChar_of_blank {c : Char} (blank : isBlank c = true) :
    String.utf8EncodeChar c = [c.toUInt8] ∧ c.toUInt8 ∈ blankBytes := by
  simp only [isBlank, Bool.or_eq_true, beq_iff_eq] at blank
  rcases blank with ((rfl | rfl) | rfl) | rfl <;> decide

theorem isBlank_of_bytes {c : Char} {byte : UInt8} {others : List UInt8}
    (first : String.utf8EncodeChar c = byte :: others) (blank : byte ∈ blankBytes) :
    isBlank c = true := by
  obtain ⟨other, listed, rfl⟩ := List.mem_map.mp blank
  have isBlank : isBlank other = true := by
    simp only [List.mem_cons, List.not_mem_nil, or_false] at listed
    rcases listed with rfl | rfl | rfl | rfl <;> rfl
  -- UTF-8 is a prefix code: a character whose bytes begin those of another one is that one.
  have begins : [other] <+: [c] := by
    apply List.isPrefix_of_utf8Encode_append_eq_utf8Encode others.toByteArray
    rw [List.utf8Encode_singleton, List.utf8Encode_singleton, first,
      (utf8EncodeChar_of_blank isBlank).1, ← List.toByteArray_append, List.singleton_append]
  simp only [List.cons_prefix_cons, List.nil_prefix, and_true] at begins
  exact begins ▸ isBlank

theorem length_bytes_of_ascii {text : List Char} (ascii : ∀ c ∈ text, c.utf8Size = 1) :
    (bytes text).length = text.length := by
  induction text with
  | nil => rfl
  | cons c rest ih =>
    have one := ascii c List.mem_cons_self
    have others := ih fun other member => ascii other (List.mem_cons_of_mem c member)
    rw [bytes_cons, List.length_append, String.length_utf8EncodeChar, one, others,
      List.length_cons, Nat.add_comm]

theorem Stands.length_bytes {token : Token} {text after : List Char}
    (stands : Stands token text after) : (bytes text).length = text.length := by
  apply length_bytes_of_ascii
  intro c member
  have all : tokenChars.all (·.utf8Size == 1) = true := by decide
  simpa using List.all_eq_true.mp all c (stands.mem_tokenChars member)

/-- Of two texts that begin the same text, the one with fewer bytes begins the other. -/
theorem begins_of_length_bytes_le {first second text : List Char} (begins : first <+: text)
    (beginsToo : second <+: text) (short : (bytes first).length ≤ (bytes second).length) :
    first <+: second := by
  rcases List.prefix_or_prefix_of_prefix begins beginsToo with within | ⟨more, rfl⟩
  · exact within
  · -- Then what lies between has no bytes, so there is nothing in between.
    have nothing : more = [] := by
      by_contra present
      have filled := List.length_pos_iff.mpr (bytes_ne_nil present)
      rw [bytes_append, List.length_append] at short
      omega
    simp [nothing]

end Bytes

/-- A lexeme spelled in the part of a source from a byte offset on. -/
def SpelledFrom (source : List Char) (offset : Nat) (lexeme : Lexeme) : Prop :=
  ∃ before text after, source = before ++ text ++ after ∧
    lexeme.span = ⟨offset + (bytes before).length, offset + (bytes (before ++ text)).length⟩ ∧
    Stands lexeme.token text after

/-- Lexemes that divide the part of a source from a byte offset on. -/
structure DividedFrom (source : List Char) (offset : Nat) (found : List Lexeme) : Prop where
  ordered : found.Pairwise fun a b => a.span.stop ≤ b.span.start
  spelled : ∀ lexeme ∈ found, SpelledFrom source offset lexeme
  blank : ∀ place byte, (bytes source)[place]? = some byte → ¬ Covered found (offset + place) →
    byte ∈ blankBytes

theorem SpelledFrom.start_lt_stop {source : List Char} {offset : Nat} {lexeme : Lexeme}
    (spelled : SpelledFrom source offset lexeme) :
    offset ≤ lexeme.span.start ∧ lexeme.span.start < lexeme.span.stop := by
  obtain ⟨before, text, after, _, span, stands⟩ := spelled
  have filled := List.length_pos_iff.mpr (bytes_ne_nil stands.text_ne_nil)
  rw [span, bytes_append, List.length_append]
  exact ⟨Nat.le_add_right _ _, Nat.add_lt_add_left (Nat.lt_add_of_pos_right filled) _⟩

theorem SpelledFrom.append {front rest : List Char} {offset : Nat} {lexeme : Lexeme}
    (spelled : SpelledFrom rest (offset + (bytes front).length) lexeme) :
    SpelledFrom (front ++ rest) offset lexeme := by
  obtain ⟨before, text, after, rfl, span, stands⟩ := spelled
  refine ⟨front ++ before, text, after, by simp, ?_, stands⟩
  simp [span, Nat.add_assoc]

theorem SpelledFrom.rest {front rest : List Char} {offset : Nat} {lexeme : Lexeme}
    (spelled : SpelledFrom (front ++ rest) offset lexeme)
    (behind : offset + (bytes front).length ≤ lexeme.span.start) :
    SpelledFrom rest (offset + (bytes front).length) lexeme := by
  obtain ⟨before, text, after, source, span, stands⟩ := spelled
  -- Both are prefixes of the source, and the front is no longer than what precedes the lexeme.
  have short : (bytes front).length ≤ (bytes before).length := by
    rw [span] at behind
    exact Nat.le_of_add_le_add_left behind
  obtain ⟨between, rfl⟩ := begins_of_length_bytes_le (List.prefix_append front rest)
    ⟨text ++ after, by simp [source]⟩ short
  refine ⟨between, text, after, ?_, ?_, stands⟩
  · simpa using source
  · simp [span, Nat.add_assoc]

theorem DividedFrom.append {front rest : List Char} {offset : Nat} {lead found : List Lexeme}
    (others : DividedFrom rest (offset + (bytes front).length) found)
    (ordered : lead.Pairwise fun a b => a.span.stop ≤ b.span.start)
    (spelled : ∀ lexeme ∈ lead, SpelledFrom (front ++ rest) offset lexeme ∧
      lexeme.span.stop ≤ offset + (bytes front).length)
    (blank : ∀ place byte, (bytes front)[place]? = some byte → ¬ Covered lead (offset + place) →
      byte ∈ blankBytes) :
    DividedFrom (front ++ rest) offset (lead ++ found) := by
  refine ⟨?_, ?_, ?_⟩
  · refine List.pairwise_append.mpr ⟨ordered, others.ordered, fun first leads second follows => ?_⟩
    exact (spelled first leads).2.trans (others.spelled second follows).start_lt_stop.1
  · intro lexeme member
    rcases List.mem_append.mp member with leads | follows
    · exact (spelled lexeme leads).1
    · exact (others.spelled lexeme follows).append
  · intro place byte present bare
    rw [bytes_append] at present
    by_cases inFront : place < (bytes front).length
    · rw [List.getElem?_append_left inFront] at present
      refine blank place byte present fun ⟨lexeme, leads, covers⟩ => bare ?_
      exact ⟨lexeme, List.mem_append_left _ leads, covers⟩
    · rw [List.getElem?_append_right (Nat.le_of_not_lt inFront)] at present
      refine others.blank _ byte present fun ⟨lexeme, follows, covers⟩ => bare ?_
      refine ⟨lexeme, List.mem_append_right _ follows, ?_⟩
      have same : offset + (bytes front).length + (place - (bytes front).length) =
          offset + place := by omega
      rwa [same] at covers

theorem DividedFrom.rest {front rest : List Char} {offset : Nat} {lead found : List Lexeme}
    (divided : DividedFrom (front ++ rest) offset (lead ++ found))
    (leads : ∀ lexeme ∈ lead, lexeme.span.stop ≤ offset + (bytes front).length)
    (follows : ∀ lexeme ∈ found, offset + (bytes front).length ≤ lexeme.span.start) :
    DividedFrom rest (offset + (bytes front).length) found := by
  refine ⟨(List.pairwise_append.mp divided.ordered).2.1, ?_, ?_⟩
  · intro lexeme member
    exact (divided.spelled lexeme (List.mem_append_right _ member)).rest (follows lexeme member)
  · intro place byte present bare
    refine divided.blank ((bytes front).length + place) byte ?_ ?_
    · rw [bytes_append, List.getElem?_append_right (Nat.le_add_right _ _), Nat.add_sub_cancel_left]
      exact present
    · rintro ⟨lexeme, member, starts, stops⟩
      rcases List.mem_append.mp member with inLead | inFound
      · have ended := leads lexeme inLead
        omega
      · refine bare ⟨lexeme, inFound, ?_, ?_⟩ <;> omega

theorem dividedFrom_of_scans {source : List Char} {offset : Nat} {found : List Lexeme}
    (scans : Scans source offset found) : DividedFrom source offset found := by
  induction scans with
  | done offset => exact ⟨.nil, nofun, nofun⟩
  | blank isBlank others ih =>
    next c rest offset found =>
    obtain ⟨encoded, listed⟩ := utf8EncodeChar_of_blank isBlank
    have one : bytes [c] = [c.toUInt8] := by simp [bytes, encoded]
    have behind : DividedFrom rest (offset + (bytes [c]).length) found := by
      rw [one]
      exact ih
    have blank : ∀ place byte, (bytes [c])[place]? = some byte → ¬ Covered [] (offset + place) →
        byte ∈ blankBytes := by
      intro place byte present _
      rw [one] at present
      obtain rfl := List.mem_singleton.mp (List.mem_of_getElem? present)
      exact listed
    exact behind.append .nil nofun blank
  | token stands others ih =>
    next token text after offset found =>
    -- A token has as many bytes as characters, which is what the scanner counts.
    rw [← stands.length_bytes] at ih ⊢
    refine ih.append (List.pairwise_singleton _ _) ?_ ?_
    · intro lexeme member
      obtain rfl := List.mem_singleton.mp member
      exact ⟨⟨[], text, after, by simp, by simp [bytes], stands⟩, Nat.le_refl _⟩
    · intro place byte present bare
      have inside := (List.getElem?_eq_some_iff.mp present).1
      refine absurd ⟨_, List.mem_singleton_self _, ?_, ?_⟩ bare
      · exact Nat.le_add_right _ _
      · exact Nat.add_lt_add_left inside _

/-- The lexeme that covers the beginning of a source comes first and stands there. -/
theorem DividedFrom.exists_head {source : List Char} {offset : Nat} {found : List Lexeme}
    (divided : DividedFrom source offset found) (covered : Covered found offset) :
    ∃ token text after others, source = text ++ after ∧ Stands token text after ∧
      found = ⟨token, offset, offset + text.length⟩ :: others := by
  obtain ⟨lexeme, member, starts, stops⟩ := covered
  obtain ⟨before, text, after, rfl, span, stands⟩ := divided.spelled lexeme member
  have nothing : before = [] := by
    by_contra present
    have filled := List.length_pos_iff.mpr (bytes_ne_nil present)
    rw [span] at starts
    exact absurd starts (Nat.not_le_of_lt (Nat.lt_add_of_pos_right filled))
  obtain ⟨first, others, rfl⟩ := List.exists_cons_of_ne_nil (List.ne_nil_of_mem member)
  have isFirst : lexeme = first := by
    rcases List.mem_cons.mp member with same | later
    · exact same
    · -- What comes before it in the list would end before the source begins.
      have ends := (List.pairwise_cons.mp divided.ordered).1 lexeme later
      have bounds := (divided.spelled first List.mem_cons_self).start_lt_stop
      omega
  obtain rfl := isFirst
  rw [nothing, List.nil_append, stands.length_bytes] at span
  refine ⟨lexeme.token, text, after, others, by simp [nothing], stands, ?_⟩
  rw [List.cons.injEq]
  exact ⟨congrArg (Lexeme.mk lexeme.token) span, rfl⟩

/-- A source that no lexeme covers the beginning of begins with a blank. -/
theorem DividedFrom.behind_blank {c : Char} {rest : List Char} {offset : Nat}
    {found : List Lexeme} (divided : DividedFrom (c :: rest) offset found)
    (bare : ¬ Covered found offset) : isBlank c = true ∧ DividedFrom rest (offset + 1) found := by
  obtain ⟨byte, more, encoded⟩ : ∃ byte more, String.utf8EncodeChar c = byte :: more :=
    List.exists_cons_of_ne_nil String.utf8EncodeChar_ne_nil
  have isBlank : isBlank c = true := by
    refine isBlank_of_bytes encoded (divided.blank 0 byte ?_ bare)
    rw [bytes_cons, encoded]
    rfl
  have one : bytes [c] = [c.toUInt8] := by simp [bytes, (utf8EncodeChar_of_blank isBlank).1]
  have behind : ∀ lexeme ∈ found, offset + (bytes [c]).length ≤ lexeme.span.start := by
    intro lexeme member
    have bounds := (divided.spelled lexeme member).start_lt_stop
    have apart : ¬ lexeme.span.start ≤ offset := fun starts =>
      bare ⟨lexeme, member, starts, Nat.lt_of_le_of_lt bounds.1 bounds.2⟩
    rw [one, List.length_singleton]
    omega
  have headed : DividedFrom ([c] ++ rest) offset ([] ++ found) := divided
  have others := headed.rest nofun behind
  rw [one] at others
  exact ⟨isBlank, others⟩

theorem DividedFrom.behind_token {token : Token} {text after : List Char} {offset : Nat}
    {others : List Lexeme} (stands : Stands token text after)
    (divided : DividedFrom (text ++ after) offset
      (⟨token, offset, offset + text.length⟩ :: others)) :
    DividedFrom after (offset + text.length) others := by
  rw [← stands.length_bytes] at divided ⊢
  have headed : DividedFrom (text ++ after) offset ([_] ++ others) := divided
  apply headed.rest
  · intro lexeme member
    obtain rfl := List.mem_singleton.mp member
    exact Nat.le_refl _
  · exact (List.pairwise_cons.mp divided.ordered).1

theorem scans_of_dividedFrom (source : List Char) (offset : Nat) (found : List Lexeme)
    (divided : DividedFrom source offset found) : Scans source offset found := by
  -- What stands first is a lexeme if one covers the first byte, and otherwise a blank.
  induction length : source.length using Nat.strong_induction_on generalizing source offset found
    with
  | _ bound ih =>
    by_cases covered : Covered found offset
    · obtain ⟨token, text, after, others, rfl, stands, rfl⟩ := divided.exists_head covered
      have shorter : after.length < bound := by
        have present := List.length_pos_iff.mpr stands.text_ne_nil
        rw [List.length_append] at length
        omega
      exact .token stands (ih _ shorter after _ others (divided.behind_token stands) rfl)
    · cases source with
      | nil =>
        cases found with
        | nil => exact .done offset
        | cons lexeme others =>
          obtain ⟨before, text, after, same, _, stands⟩ :=
            divided.spelled lexeme List.mem_cons_self
          simp [stands.text_ne_nil] at same
      | cons c rest =>
        obtain ⟨isBlank, others⟩ := divided.behind_blank covered
        have shorter : rest.length < bound := by
          rw [← length]
          exact Nat.lt_succ_self _
        exact .blank isBlank (ih _ shorter rest _ found others rfl)

theorem divided_iff (source : String) (found : List Lexeme) :
    Divided source found ↔ DividedFrom source.toList 0 found := by
  have spelled (lexeme : Lexeme) :
      Spelled source lexeme ↔ SpelledFrom source.toList 0 lexeme := by
    constructor
    · rintro ⟨before, text, after, rfl, span, stands⟩
      refine ⟨before.toList, text.toList, after.toList, by simp, ?_, stands⟩
      simp [span, length_bytes]
    · rintro ⟨before, text, after, same, span, stands⟩
      refine ⟨String.ofList before, String.ofList text, String.ofList after, ?_, ?_, ?_⟩
      · rw [← String.ofList_append, ← String.ofList_append, ← same, String.ofList_toList]
      · simp [span, ← length_bytes]
      · simpa using stands
  have bytesOf (place : Nat) :
      source.toUTF8.data[place]? = (bytes source.toList)[place]? := by
    rw [← toUTF8_data_toList, Array.getElem?_toList]
  constructor
  · intro divided
    refine ⟨divided.ordered, ?_, ?_⟩
    · exact fun lexeme member => (spelled lexeme).mp (divided.spelled lexeme member)
    · intro place byte present bare
      exact divided.blank place byte (bytesOf place ▸ present) (Nat.zero_add place ▸ bare)
  · intro divided
    refine ⟨?_, divided.ordered, ?_, ?_⟩
    · exact fun lexeme member => (divided.spelled lexeme member).start_lt_stop.2
    · exact fun lexeme member => (spelled lexeme).mpr (divided.spelled lexeme member)
    · intro place byte present bare
      exact divided.blank place byte (bytesOf place ▸ present) ((Nat.zero_add place).symm ▸ bare)

/-- The scanner accepts exactly its lexical grammar, and finds the only division of a source. -/
theorem scan_eq_ok_iff (source : String) (found : List Lexeme) :
    scan source = .ok found ↔ Divided source found := by
  rw [scan_eq_ok_iff_scans, divided_iff]
  exact ⟨dividedFrom_of_scans, scans_of_dividedFrom source.toList 0 found⟩

/-- A number has one point at most, and the point behind a whole number is its own. -/
theorem scan_eq_ok_iff_two_points :
    let one : Binary64 := ⟨false, 0x3FF0000000000000, by decide⟩
    let half : Binary64 := ⟨false, 0x3FE0000000000000, by decide⟩
    let oneAndHalf : Binary64 := ⟨false, 0x3FF8000000000000, by decide⟩
    let found : List Lexeme := [⟨.literal oneAndHalf, 0, 3⟩, ⟨.literal half, 3, 5⟩]
    scan "1.5.5" = .ok found ∧ Divided "1.5.5" found ∧
      oneAndHalf.toRat = 3 / 2 ∧ half.toRat = 1 / 2 ∧
      ¬ Divided "1.5.5" [⟨.literal one, 0, 1⟩, ⟨.literal half, 1, 3⟩, ⟨.literal half, 3, 5⟩] := by
  intro one half oneAndHalf found
  have scanned : scan "1.5.5" = .ok found := by decide +kernel
  refine ⟨scanned, (scan_eq_ok_iff _ _).mp scanned, by decide +kernel, by decide +kernel, ?_⟩
  intro divided
  have same := Except.ok.inj (scanned.symm.trans ((scan_eq_ok_iff _ _).mpr divided))
  exact absurd (congrArg List.length same) (by decide)

end Calculator.Token
