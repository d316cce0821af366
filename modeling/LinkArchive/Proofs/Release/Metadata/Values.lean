import LinkArchive.Proofs.Json.Number
import LinkArchive.Proofs.Json.Text
import LinkArchive.Release.Metadata.Reader
import Mathlib.Data.List.Forall2

/-!
# Values of metadata fields

A field of each shape takes the JSON values that fit it, and no others: `Decodes`. The readers go
through such a value to its end, and stop at any other: `readValue_eq_ok_iff`.
-/

namespace LinkArchive.ReleaseMetadata

open Json

variable {cut : Bool} {rest left : Bytes}

/-- A number that is a code. -/
def IsCode (value : Json.Value) (code : UInt16) : Prop :=
  ∃ literal : NumberLiteral, value = .number literal ∧ literal.integer? = some (code.toNat : Int)

/-- What a field of a shape has if a document gives it some value. -/
def Decodes : (shape : Shape) → Json.Value → shape.Value → Prop
  | .text, value, text => value = .text text
  | .integer, value, integer =>
    ∃ literal : NumberLiteral, value = .number literal ∧ literal.integer? = some integer.toInt
  | .number, value, double =>
    ∃ literal number, value = .number literal ∧ literal.number? = some number ∧
      floatOf number = .ok double
  | .codes, value, codes =>
    (value = .null ∧ codes = []) ∨
      ∃ elements, value = .array elements ∧ List.Forall₂ IsCode elements codes
  | .optionalText, value, none => value = .null
  | .optionalText, value, some text => value = .text text
  | .flag, value, flag => value = .boolean flag

/-! ### Sequencing -/

theorem bind_eq_ok_iff {read : Except JsonError α} {next : α → Except JsonError β} {result : β} :
    (read >>= next) = .ok result ↔ ∃ value, read = .ok value ∧ next value = .ok result := by
  cases read with
  | error e =>
    constructor
    · intro failed
      cases failed
    · rintro ⟨_, failed, _⟩
      cases failed
  | ok value =>
    constructor
    · intro same
      exact ⟨value, rfl, same⟩
    · rintro ⟨_, same, next⟩
      cases same
      exact next

/-! ### White space and what follows it -/

theorem isSpace_of_blank {space : Bytes} (blank : Blank space) :
    ∀ byte ∈ space, isSpace byte = true := by
  intro byte member
  rcases blank byte member with rfl | rfl | rfl | rfl <;> rfl

theorem skipSpace_blank {space : Bytes} (blank : Blank space) (bytes : Bytes) :
    skipSpace (space ++ bytes) = skipSpace bytes :=
  List.dropWhile_append_of_pos (isSpace_of_blank blank)

theorem skipSpace_of_other {byte : UInt8} (other : isSpace byte = false) (rest : Bytes) :
    skipSpace (byte :: rest) = byte :: rest := by
  simp [skipSpace, other]

/-- The byte that a value starts with. -/
def Starts : Json.Value → UInt8 → Prop
  | .null, byte => byte = 110
  | .boolean value, byte => value = true ∧ byte = 116 ∨ value = false ∧ byte = 102
  | .number _, byte => startsNumber byte = true
  | .text _, byte => byte = 34
  | .array _, byte => byte = 91
  | .object _, byte => byte = 123

theorem bytes_start (literal : NumberLiteral) :
    ∃ byte tail, literal.bytes = byte :: tail ∧ startsNumber byte = true := by
  obtain ⟨digit, digits, whole⟩ := List.exists_cons_of_ne_nil literal.nonempty
  unfold NumberLiteral.bytes
  cases literal.negative with
  | true => exact ⟨45, _, rfl, rfl⟩
  | false =>
    rw [whole]
    exact ⟨digit.byte, _, rfl, by simp [startsNumber, isDigit_byte]⟩

theorem starts_of_written {value : Json.Value} {bytes : Bytes} (written : Written value bytes) :
    ∃ byte tail, bytes = byte :: tail ∧ Starts value byte := by
  cases written with
  | number literal => exact bytes_start literal
  | true => exact ⟨_, _, rfl, .inl ⟨rfl, rfl⟩⟩
  | false => exact ⟨_, _, rfl, .inr ⟨rfl, rfl⟩⟩
  | text quoted =>
    cases quoted
    exact ⟨_, _, rfl, rfl⟩
  | _ => exact ⟨_, _, rfl, rfl⟩

variable {value : Json.Value} {byte : UInt8}

theorem isSpace_of_number (number : startsNumber byte = true) : isSpace byte = false := by
  cases space : isSpace byte with
  | false => rfl
  | true =>
    have either : ((byte = 32 ∨ byte = 9) ∨ byte = 10) ∨ byte = 13 := by simpa [isSpace] using space
    rcases either with ((rfl | rfl) | rfl) | rfl <;> cases number

theorem isSpace_of_starts (starts : Starts value byte) : isSpace byte = false := by
  cases value with
  | number => exact isSpace_of_number starts
  | boolean => rcases starts with ⟨-, rfl⟩ | ⟨-, rfl⟩ <;> rfl
  | _ =>
    cases starts
    rfl

theorem ends_of_blank {space : Bytes} (blank : Blank space) (ends : Ends cut rest) :
    Ends cut (space ++ rest) := by
  cases space with
  | nil => exact ends
  | cons byte space =>
    rcases blank byte List.mem_cons_self with rfl | rfl | rfl | rfl <;> simp [Ends, isDigit]

theorem skipSpace_of_blank {space : Bytes} (blank : Blank space) (other : isSpace byte = false)
    (rest : Bytes) : skipSpace (space ++ byte :: rest) = byte :: rest := by
  rw [skipSpace_blank blank, skipSpace_of_other other]

theorem skipSpace_of_written {space bytes : Bytes} (blank : Blank space)
    (written : Written value bytes) (rest : Bytes) :
    ∃ byte tail, Starts value byte ∧ bytes ++ rest = byte :: tail ∧
      skipSpace (space ++ (bytes ++ rest)) = byte :: tail := by
  obtain ⟨byte, tail, rfl, starts⟩ := starts_of_written written
  exact ⟨byte, tail ++ rest, starts, rfl, skipSpace_of_blank blank (isSpace_of_starts starts) _⟩

theorem isText_of_starts (starts : Starts value 34) : ∃ text, value = .text text := by
  cases value <;> simp [Starts, startsNumber, isDigit] at starts ⊢

theorem isNull_of_starts (starts : Starts value 110) : value = .null := by
  cases value <;> simp [Starts, startsNumber, isDigit] at starts ⊢

theorem isArray_of_starts (starts : Starts value 91) : ∃ elements, value = .array elements := by
  cases value <;> simp [Starts, startsNumber, isDigit] at starts ⊢

theorem isTrue_of_starts (starts : Starts value 116) : value = .boolean true := by
  cases value <;> simp [Starts, startsNumber, isDigit] at starts ⊢
  exact starts

theorem isFalse_of_starts (starts : Starts value 102) : value = .boolean false := by
  cases value <;> simp [Starts, startsNumber, isDigit] at starts ⊢
  exact starts

theorem isNumber_of_starts (starts : Starts value byte) (number : startsNumber byte = true) :
    ∃ literal, value = .number literal := by
  cases value with
  | number literal => exact ⟨literal, rfl⟩
  | boolean => rcases starts with ⟨-, rfl⟩ | ⟨-, rfl⟩ <;> cases number
  | _ =>
    cases starts
    cases number

/-! ### Texts, flags and numbers -/

theorem readText_eq_ok_iff {bytes : Bytes} (written : Written value bytes) (text : String) :
    readText cut (bytes ++ rest) = .ok (text, left) ↔ value = .text text ∧ left = rest := by
  obtain ⟨byte, tail, start, starts⟩ := starts_of_written written
  by_cases quote : byte = 34
  · subst quote
    obtain ⟨text', rfl⟩ := isText_of_starts starts
    cases written with
    | text quoted =>
      cases quoted with
      | @quotes body spelled =>
        have read : readText cut (34 :: (body ++ [34]) ++ rest) = .ok (text', rest) := by
          rw [List.cons_append, List.append_assoc]
          exact string_of_spelled spelled rest
        rw [read]
        simp [eq_comm]
  · have read : readText cut (bytes ++ rest) =
        .error (mismatched cut .string (byte :: (tail ++ rest))) := by
      rw [start, List.cons_append, readText]
      · simp
      · intro rest same
        exact quote (List.cons.inj same).1
    have other : value ≠ .text text := by
      rintro rfl
      exact quote starts
    simp [read, other]

theorem readNumber_eq_ok_iff {bytes : Bytes} (written : Written value bytes) (ends : Ends cut rest)
    (expected : Expected) (value? : Number → Except JsonError α) (result : α) :
    readNumber cut expected value? (bytes ++ rest) = .ok (result, left) ↔
      (∃ literal number, value = .number literal ∧ literal.number? = some number ∧
        value? number = .ok result) ∧ left = rest := by
  obtain ⟨byte, tail, start, starts⟩ := starts_of_written written
  by_cases number : startsNumber byte = true
  · obtain ⟨literal, rfl⟩ := isNumber_of_starts starts number
    cases written with
    | number literal =>
      have read := literal.number_of_literal cut rest ends
      rw [start, List.cons_append] at read
      rw [start, List.cons_append, readNumber, if_pos number, bind_eq_ok_iff, read]
      simp only [bind_eq_ok_iff]
      cases found : literal.number? <;> simp [orMalformed, found, eq_comm (a := rest)]
  · have read : readNumber cut expected value? (bytes ++ rest) =
        .error (mismatched cut expected (byte :: (tail ++ rest))) := by
      rw [start, List.cons_append, readNumber, if_neg number]
    have other : ∀ literal, value ≠ .number literal := by
      rintro literal rfl
      exact number starts
    simp [read, other]

theorem codeOf_eq_ok_iff (number : Number) (code : UInt16) :
    codeOf number = .ok code ↔ number = .natural code.toNat := by
  cases number with
  | natural value =>
    rw [codeOf, Number.natural.injEq]
    by_cases small : value < 0x10000
    · rw [if_pos small, Except.ok.injEq]
      constructor
      · rintro rfl
        exact (UInt16.toNat_ofNat_of_lt' small).symm
      · rintro rfl
        exact UInt16.ofNat_toNat
    · have bound := code.toNat_lt
      rw [if_neg small]
      simp only [reduceCtorEq, false_iff]
      omega
  | negative => simp [codeOf]
  | float => simp [codeOf]

theorem isCode_iff (value : Json.Value) (code : UInt16) :
    (∃ literal number, value = .number literal ∧ literal.number? = some number ∧
      codeOf number = .ok code) ↔ IsCode value code := by
  have bound := code.toNat_lt
  simp only [codeOf_eq_ok_iff, IsCode]
  constructor
  · rintro ⟨literal, _, rfl, read, rfl⟩
    exact ⟨literal, rfl, ((literal.number?_eq_natural_iff _).mp read).1⟩
  · rintro ⟨literal, rfl, integer⟩
    exact ⟨literal, _, rfl, (literal.number?_eq_natural_iff _).mpr ⟨integer, by omega⟩, rfl⟩

theorem decodes_integer_iff (value : Json.Value) (integer : Int64) :
    (∃ literal number, value = .number literal ∧ literal.number? = some number ∧
      integerOf number = .ok integer) ↔ Decodes .integer value integer := by
  have lower := integer.le_toInt
  have upper := integer.toInt_lt
  constructor
  · rintro ⟨literal, number, rfl, read, fits⟩
    refine ⟨literal, rfl, ?_⟩
    cases number with
    | natural natural =>
      rw [integerOf] at fits
      split at fits
      · rename_i small
        obtain rfl := Except.ok.inj fits
        rw [((literal.number?_eq_natural_iff _).mp read).1,
          Int64.toInt_ofInt_of_le (by omega) (by omega)]
      · cases fits
    | negative negative =>
      obtain ⟨integer, sign, bound⟩ := (literal.number?_eq_negative_iff _).mp read
      obtain rfl := Except.ok.inj fits
      rw [integer, Int64.toInt_ofInt_of_le (by omega) (by omega)]
    | float => cases fits
  · rintro ⟨literal, rfl, written⟩
    by_cases sign : 0 ≤ integer.toInt
    · obtain ⟨natural, same⟩ := Int.eq_ofNat_of_zero_le sign
      rw [same] at written
      refine ⟨literal, .natural natural, rfl,
        (literal.number?_eq_natural_iff _).mpr ⟨written, by omega⟩, ?_⟩
      rw [integerOf, if_pos (by omega), ← same, Int64.ofInt_toInt]
    · refine ⟨literal, .negative integer.toInt, rfl,
        (literal.number?_eq_negative_iff _).mpr ⟨written, by omega, by omega⟩, ?_⟩
      rw [integerOf, Int64.ofInt_toInt]

theorem literal_append (text rest : Bytes) : literal cut text (text ++ rest) = .ok rest := by
  induction text with
  | nil => rfl
  | cons byte text ih =>
    rw [List.cons_append, literal, if_pos (beq_self_eq_true byte)]
    exact ih

theorem readFlag_eq_ok_iff {bytes : Bytes} (written : Written value bytes) (flag : Bool) :
    readFlag cut (bytes ++ rest) = .ok (flag, left) ↔ value = .boolean flag ∧ left = rest := by
  obtain ⟨byte, tail, start, starts⟩ := starts_of_written written
  by_cases yes : byte = 116
  · subst yes
    obtain rfl := isTrue_of_starts starts
    cases written
    have read : readFlag cut ([116, 114, 117, 101] ++ rest) = .ok (true, rest) := by
      rw [List.cons_append, readFlag, literal_append]
      rfl
    rw [read]
    simp [eq_comm]
  · by_cases no : byte = 102
    · subst no
      obtain rfl := isFalse_of_starts starts
      cases written
      have read : readFlag cut ([102, 97, 108, 115, 101] ++ rest) = .ok (false, rest) := by
        rw [List.cons_append, readFlag, literal_append]
        rfl
      rw [read]
      simp [eq_comm]
    · have read : readFlag cut (bytes ++ rest) =
          .error (mismatched cut .boolean (byte :: (tail ++ rest))) := by
        rw [start, List.cons_append, readFlag]
        · simp
        · intro rest same
          exact yes (List.cons.inj same).1
        · intro rest same
          exact no (List.cons.inj same).1
      have other : value ≠ .boolean flag := by
        rintro rfl
        exact starts.elim (fun same => yes same.2) fun same => no same.2
      simp [read, other]

theorem readNull_append (result : α) (rest : Bytes) :
    readNull cut result ([117, 108, 108] ++ rest) = .ok (result, rest) := by
  rw [readNull, literal_append]
  rfl

theorem readOptionalText_eq_ok_iff {bytes : Bytes} (written : Written value bytes)
    (text? : Option String) :
    readOptionalText cut (bytes ++ rest) = .ok (text?, left) ↔
      Decodes .optionalText value text? ∧ left = rest := by
  obtain ⟨byte, tail, start, starts⟩ := starts_of_written written
  by_cases null : byte = 110
  · subst null
    obtain rfl := isNull_of_starts starts
    cases written
    have read : readOptionalText cut ([110, 117, 108, 108] ++ rest) = .ok (none, rest) :=
      readNull_append none rest
    rw [read]
    cases text? <;> simp [Decodes, eq_comm]
  · have read : readOptionalText cut (bytes ++ rest) =
        readText cut (bytes ++ rest) >>= fun read => .ok (some read.1, read.2) := by
      rw [start, List.cons_append, readOptionalText]
      intro rest same
      exact null (List.cons.inj same).1
    have other : value ≠ .null := by
      rintro rfl
      exact null starts
    rw [read, bind_eq_ok_iff]
    cases text? with
    | none => simp [Decodes, other]
    | some text =>
      have due : readText cut (bytes ++ rest) = .ok (text, left) ↔ _ :=
        readText_eq_ok_iff written text
      simp [Decodes, ← due]

/-! ### Code lists -/

/-- Reads a code where one is due, and the codes behind it. -/
def readCode (cut : Bool) (fuel : Nat) (bytes : Bytes) :
    Except JsonError (List UInt16 × Bytes) := do
  let (code, rest) ← readNumber cut .code codeOf bytes
  let (codes, rest) ← readCodesFrom cut false fuel rest
  .ok (code :: codes, rest)

theorem readCodesFrom_end (first : Bool) (fuel : Nat) {bytes : Bytes}
    (due : skipSpace bytes = 93 :: rest) :
    readCodesFrom cut first (fuel + 1) bytes = .ok ([], rest) := by
  rw [readCodesFrom, due]
  rfl

theorem readCodesFrom_first (fuel : Nat) {bytes : Bytes} (due : skipSpace bytes = byte :: rest)
    (more : byte ≠ 93) :
    readCodesFrom cut true (fuel + 1) bytes = readCode cut fuel (byte :: rest) := by
  rw [readCodesFrom, due]
  split
  · rename_i none
    cases none
  · rename_i closed
    exact absurd (List.cons.inj closed).1 more
  · rename_i comma
    rw [comma]
    rfl
  · rfl

theorem readCodesFrom_comma (fuel : Nat) {bytes behind : Bytes}
    (comma : skipSpace bytes = 44 :: behind) (due : skipSpace behind = byte :: rest)
    (more : byte ≠ 93) :
    readCodesFrom cut false (fuel + 1) bytes = readCode cut fuel (byte :: rest) := by
  simp only [readCodesFrom, comma, due, Bool.false_eq_true, if_false]
  split
  · rename_i closed
    exact absurd (List.cons.inj closed).1 more
  · rfl

theorem readCode_eq_ok_iff {bytes : Bytes} (written : Written value bytes) (ends : Ends cut rest)
    (fuel : Nat) (codes : List UInt16) :
    readCode cut fuel (bytes ++ rest) = .ok (codes, left) ↔
      ∃ code others, codes = code :: others ∧ IsCode value code ∧
        readCodesFrom cut false fuel rest = .ok (others, left) := by
  rw [readCode, bind_eq_ok_iff]
  constructor
  · rintro ⟨⟨code, behind⟩, first, next⟩
    obtain ⟨isCode, rfl⟩ := (readNumber_eq_ok_iff written ends _ _ _).mp first
    obtain ⟨⟨others, _⟩, more, same⟩ := bind_eq_ok_iff.mp next
    obtain ⟨rfl, rfl⟩ := Prod.mk.inj (Except.ok.inj same)
    exact ⟨code, others, rfl, (isCode_iff value code).mp isCode, more⟩
  · rintro ⟨code, others, rfl, isCode, more⟩
    refine ⟨(code, rest),
      (readNumber_eq_ok_iff written ends _ _ _).mpr ⟨(isCode_iff value code).mpr isCode, rfl⟩, ?_⟩
    exact bind_eq_ok_iff.mpr ⟨(others, left), more, rfl⟩

theorem not_closed_of_starts (starts : Starts value byte) : byte ≠ 93 := by
  rintro rfl
  cases value <;> simp [Starts, startsNumber, isDigit] at starts

theorem elements_start {elements : List Json.Value} {bytes : Bytes}
    (written : WrittenElements elements bytes) (rest : Bytes) :
    ∃ byte tail, byte ≠ 93 ∧ skipSpace (bytes ++ rest) = byte :: tail := by
  cases written with
  | @last value before bytes after blank written blank_after =>
    obtain ⟨byte, tail, starts, -, skip⟩ := skipSpace_of_written blank written (after ++ rest)
    refine ⟨byte, tail, not_closed_of_starts starts, ?_⟩
    simpa using skip
  | @more value _ before bytes after others blank written blank_after =>
    obtain ⟨byte, tail, starts, -, skip⟩ :=
      skipSpace_of_written blank written (after ++ 44 :: (others ++ rest))
    refine ⟨byte, tail, not_closed_of_starts starts, ?_⟩
    simpa using skip

/-- The elements of an array are its codes, if each of them is one. -/
theorem readCodes_of_elements {elements : List Json.Value} {bytes : Bytes}
    (written : WrittenElements elements bytes) {fuel : Nat} (enough : bytes.length < fuel)
    (codes : List UInt16) :
    readCode cut fuel (skipSpace (bytes ++ 93 :: rest)) = .ok (codes, left) ↔
      List.Forall₂ IsCode elements codes ∧ left = rest := by
  -- on the elements, since how they are written is defined together with values and members
  induction elements generalizing bytes fuel codes with
  | nil => cases written
  | cons value elements ih =>
    obtain ⟨fuel, rfl⟩ := Nat.exists_eq_succ_of_ne_zero (Nat.ne_zero_of_lt enough)
    cases written with
    | @last _ before bytes after blank written blank_after =>
      have ends : Ends cut (after ++ 93 :: rest) :=
        ends_of_blank blank_after (by simp [Ends, isDigit])
      have close := skipSpace_of_blank blank_after (by decide : isSpace 93 = false) rest
      obtain ⟨byte, tail, -, start, skip⟩ :=
        skipSpace_of_written blank written (after ++ 93 :: rest)
      rw [List.append_assoc, List.append_assoc, skip, ← start, readCode_eq_ok_iff written ends,
        readCodesFrom_end _ _ close]
      constructor
      · rintro ⟨code, _, rfl, isCode, same⟩
        obtain ⟨rfl, rfl⟩ := Prod.mk.inj (Except.ok.inj same)
        exact ⟨.cons isCode .nil, rfl⟩
      · rintro ⟨each, rfl⟩
        cases each with
        | cons isCode none =>
          cases none
          exact ⟨_, _, rfl, isCode, rfl⟩
    | @more _ _ before bytes after others blank written blank_after more =>
      have ends : Ends cut (after ++ 44 :: (others ++ 93 :: rest)) :=
        ends_of_blank blank_after (by simp [Ends, isDigit])
      have comma := skipSpace_of_blank blank_after (by decide : isSpace 44 = false)
        (others ++ 93 :: rest)
      obtain ⟨byte, tail, -, start, skip⟩ :=
        skipSpace_of_written blank written (after ++ 44 :: (others ++ 93 :: rest))
      obtain ⟨next, behind, not_closed, due⟩ := elements_start more (93 :: rest)
      have shorter : others.length < fuel := by
        simp only [List.length_append, List.length_cons] at enough
        omega
      have whole : before ++ (bytes ++ (after ++ 44 :: others)) ++ 93 :: rest =
          before ++ (bytes ++ (after ++ 44 :: (others ++ 93 :: rest))) := by
        simp
      rw [whole, skip, ← start, readCode_eq_ok_iff written ends,
        readCodesFrom_comma fuel comma due not_closed, ← due]
      constructor
      · rintro ⟨code, codes, rfl, isCode, read⟩
        obtain ⟨each, same⟩ := (ih more shorter codes).mp read
        exact ⟨.cons isCode each, same⟩
      · rintro ⟨each, same⟩
        obtain ⟨code, codes, isCode, behind, rfl⟩ := List.forall₂_cons_left_iff.mp each
        exact ⟨code, codes, rfl, isCode, (ih more shorter codes).mpr ⟨behind, same⟩⟩

theorem readCodes_of_array {elements : List Json.Value} {bytes : Bytes}
    (written : Written (.array elements) bytes) (codes : List UInt16) :
    readCodes cut (bytes ++ rest) = .ok (codes, left) ↔
      List.Forall₂ IsCode elements codes ∧ left = rest := by
  cases written with
  | @emptyArray space blank =>
    have close := skipSpace_of_blank blank (by decide : isSpace 93 = false) rest
    have read : readCodes cut (91 :: (space ++ [93]) ++ rest) = .ok ([], rest) := by
      rw [List.cons_append, List.append_assoc, readCodes]
      exact readCodesFrom_end true _ close
    rw [read]
    simp [eq_comm]
  | @array _ body more =>
    obtain ⟨next, behind, not_closed, due⟩ := elements_start more (93 :: rest)
    have read : readCodes cut (91 :: (body ++ [93]) ++ rest) =
        readCode cut (body ++ 93 :: rest).length (skipSpace (body ++ 93 :: rest)) := by
      rw [List.cons_append, List.append_assoc, readCodes, due]
      exact readCodesFrom_first _ due not_closed
    rw [read]
    exact readCodes_of_elements more (by simp) codes

theorem readCodes_eq_ok_iff {bytes : Bytes} (written : Written value bytes) (codes : List UInt16) :
    readCodes cut (bytes ++ rest) = .ok (codes, left) ↔
      Decodes .codes value codes ∧ left = rest := by
  obtain ⟨byte, tail, start, starts⟩ := starts_of_written written
  by_cases null : byte = 110
  · subst null
    obtain rfl := isNull_of_starts starts
    cases written
    have read : readCodes cut ([110, 117, 108, 108] ++ rest) = .ok ([], rest) :=
      readNull_append [] rest
    rw [read]
    simp [Decodes, eq_comm]
  · by_cases array : byte = 91
    · subst array
      obtain ⟨elements, rfl⟩ := isArray_of_starts starts
      have decodes : Decodes .codes (.array elements) codes ↔
          List.Forall₂ IsCode elements codes := by simp [Decodes]
      rw [decodes]
      exact readCodes_of_array written codes
    · have read : readCodes cut (bytes ++ rest) =
          .error (mismatched cut .sequence (byte :: (tail ++ rest))) := by
        rw [start, List.cons_append, readCodes]
        · simp
        · intro rest same
          exact null (List.cons.inj same).1
        · intro rest same
          exact array (List.cons.inj same).1
      have other : ¬Decodes .codes value codes := by
        rintro (⟨rfl, -⟩ | ⟨elements, rfl, -⟩)
        · exact null starts
        · exact array starts
      simp [read, other]

/-! ### Values -/

/-- A value is read to its end if it fits the field, and refused if it does not. -/
theorem readValue_eq_ok_iff {space bytes : Bytes} (blank : Blank space)
    (written : Written value bytes) (ends : Ends cut rest) (shape : Shape) (result : shape.Value) :
    readValue cut shape (space ++ (bytes ++ rest)) = .ok (result, left) ↔
      Decodes shape value result ∧ left = rest := by
  obtain ⟨byte, tail, -, start, skip⟩ := skipSpace_of_written blank written rest
  have due : skipSpace (space ++ (bytes ++ rest)) = bytes ++ rest := skip.trans start.symm
  unfold readValue
  rw [due]
  cases shape with
  | text => exact readText_eq_ok_iff written result
  | integer =>
    rw [← decodes_integer_iff]
    exact readNumber_eq_ok_iff written ends _ _ result
  | number => exact readNumber_eq_ok_iff written ends _ _ result
  | codes => exact readCodes_eq_ok_iff written result
  | optionalText => exact readOptionalText_eq_ok_iff written result
  | flag => exact readFlag_eq_ok_iff written result

end LinkArchive.ReleaseMetadata
