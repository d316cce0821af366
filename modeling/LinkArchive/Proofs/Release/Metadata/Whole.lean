import LinkArchive.Proofs.Release.Metadata.Arrays
import LinkArchive.Proofs.Release.Metadata.Objects

/-!
# Documents that are all there

A reader that has all of a document may find fault with it, but never with the data not being to be
had: `ReleaseMetadata.uncut_ofJson`.
-/

namespace LinkArchive

namespace Json

/-- Reading did not stop at data that could not be had. -/
def Uncut (read : Except JsonError α) : Prop := read ≠ .error .io

namespace Uncut

theorem bind {read : Except JsonError α} {next : α → Except JsonError β} (first : Uncut read)
    (more : ∀ value, Uncut (next value)) : Uncut (read >>= next) := by
  cases read with
  | error error => exact fun same => first (congrArg _ (Except.error.inj same))
  | ok value => exact more value

@[simp] theorem ok (value : α) : Uncut (.ok value) := nofun

@[simp] theorem exhausted : Uncut (.error (exhausted false) : Except JsonError α) := nofun

@[simp] theorem malformed : Uncut (.error .malformed : Except JsonError α) := nofun

@[simp] theorem data (error : DataError) : Uncut (.error (.data error) : Except JsonError α) :=
  nofun

/-- Whether the data ends or goes on with something else. -/
theorem nothing (ended : Bool) :
    Uncut (.error (if ended then Json.exhausted false else .malformed) : Except JsonError α) := by
  cases ended <;> nofun

theorem ite {p : Prop} [Decidable p] {yes no : Except JsonError α} (first : Uncut yes)
    (second : Uncut no) : Uncut (if p then yes else no) := by
  split
  · exact first
  · exact second

end Uncut

/-! ### Literals and texts -/

theorem uncut_literal (text bytes : Bytes) : Uncut (literal false text bytes) := by
  fun_induction literal false text bytes with
  | case3 _ _ _ _ _ ih => exact ih
  | _ => simp

theorem uncut_hex4 (bytes : Bytes) : Uncut (hex4 false bytes) := by
  unfold hex4
  split
  · split <;> simp
  · simp

theorem uncut_lowSurrogate (high : Nat) (bytes : Bytes) :
    Uncut (lowSurrogate false high bytes) := by
  unfold lowSurrogate
  split
  · simp
  · split <;> simp
  · refine (uncut_hex4 _).bind fun _ => ?_
    dsimp only
    split <;> simp
  · simp

theorem uncut_unescape (bytes : Bytes) : Uncut (unescape false bytes) := by
  unfold unescape
  split
  case h_10 rest =>
    refine (uncut_hex4 rest).bind fun _ => ?_
    dsimp only
    split
    · simp
    · split
      · exact uncut_lowSurrogate _ _
      · simp
  all_goals simp

theorem uncut_stringBytes (fuel : Nat) (bytes : Bytes) : Uncut (stringBytes false fuel bytes) := by
  fun_induction stringBytes false fuel bytes with
  | case4 _ rest ih => exact (uncut_unescape rest).bind fun _ => (ih _).bind fun _ => Uncut.ok _
  | case6 _ _ _ _ _ _ ih => exact ih.bind fun _ => Uncut.ok _
  | _ => simp

theorem uncut_string (bytes : Bytes) : Uncut (string false bytes) := by
  refine (uncut_stringBytes _ bytes).bind fun _ => ?_
  dsimp only
  split <;> simp

/-! ### Numbers -/

theorem uncut_lookahead (rest : Bytes) : Uncut (lookahead false rest) := Uncut.ok ()

theorem uncut_assemble (positive : Bool) (significand : Nat) (exponent : Int) :
    Uncut (assemble positive significand exponent) := by
  unfold assemble
  split <;> simp

theorem uncut_exponentPart (positive : Bool) (significand : Nat) (start : Int) (bytes : Bytes) :
    Uncut (exponentPart false positive significand start bytes) := by
  refine (uncut_lookahead bytes).bind fun _ => ?_
  dsimp only
  refine .ite ?_ (.ite (.ite .malformed ?_) ?_)
  · exact .nothing _
  · exact (uncut_lookahead _).bind fun _ => .ok _
  · refine (uncut_lookahead _).bind fun _ => ?_
    exact (uncut_assemble _ _ _).bind fun _ => .ok _

theorem uncut_fractionEnd (positive : Bool) (significand : Nat) (exponent : Int) (rest : Bytes) :
    Uncut (fractionEnd false positive significand exponent rest) := by
  refine (uncut_lookahead rest).bind fun _ => ?_
  split
  · exact uncut_exponentPart _ _ _ _
  · exact (uncut_assemble _ _ _).bind fun _ => Uncut.ok _

theorem uncut_fractionPart (positive : Bool) (significand : Nat) (start : Int) (bytes : Bytes) :
    Uncut (fractionPart false positive significand start bytes) := by
  unfold fractionPart
  dsimp only
  split
  · split <;> simp
  · exact uncut_fractionEnd _ _ _ _

theorem uncut_numberEnd (positive : Bool) (significand dropped : Nat) (rest : Bytes) :
    Uncut (numberEnd false positive significand dropped rest) := by
  refine (uncut_lookahead rest).bind fun _ => ?_
  split
  · exact (uncut_fractionPart _ _ _ _).bind fun _ => Uncut.ok _
  · split
    · exact (uncut_fractionEnd _ _ _ _).bind fun _ => Uncut.ok _
    · split
      · simp
      · split <;> simp

theorem uncut_unsignedNumber (positive : Bool) (bytes : Bytes) :
    Uncut (unsignedNumber false positive bytes) := by
  unfold unsignedNumber
  split
  · simp
  · split
    · split
      · simp
      · exact uncut_numberEnd _ _ _ _
    · split
      · exact uncut_numberEnd _ _ _ _
      · simp

theorem uncut_number (bytes : Bytes) : Uncut (number false bytes) := by
  unfold number
  split <;> exact uncut_unsignedNumber _ _

/-! ### Whatever else -/

theorem uncut_found (bytes : Bytes) : Uncut (found false bytes) := by
  unfold found
  split
  case h_2 | h_3 | h_4 => exact (uncut_literal _ _).bind fun _ => Uncut.ok _
  case h_5 => exact (uncut_string _).bind fun _ => Uncut.ok _
  case h_8 =>
    split
    · exact (uncut_number _).bind fun _ => Uncut.ok _
    · simp
  all_goals simp

@[simp] theorem Uncut.mismatched (expected : Expected) (bytes : Bytes) :
    Uncut (.error (mismatched false expected bytes) : Except JsonError α) := by
  have uncut := uncut_found bytes
  unfold Json.mismatched
  split
  · simp
  · rename_i error found
    rw [found] at uncut
    exact fun same => uncut (congrArg _ (Except.error.inj same))

end Json

/-! ### Metadata -/

namespace ReleaseMetadata

open Json

theorem uncut_readText (bytes : Bytes) : Uncut (readText false bytes) := by
  unfold readText
  split
  · simp
  · exact uncut_string _
  · simp

theorem uncut_readNumber (expected : Expected) {value? : Number → Except JsonError α}
    (judged : ∀ number, Uncut (value? number)) (bytes : Bytes) :
    Uncut (readNumber false expected value? bytes) := by
  unfold readNumber
  split
  · simp
  · split
    · exact (uncut_number _).bind fun _ => (judged _).bind fun _ => Uncut.ok _
    · simp

theorem uncut_integerOf (number : Number) : Uncut (integerOf number) := by
  unfold integerOf
  split
  · simp
  · split <;> simp
  · simp

theorem uncut_codeOf (number : Number) : Uncut (codeOf number) := by
  unfold codeOf
  split
  · simp
  · split <;> simp
  · simp

theorem uncut_floatOf (number : Number) : Uncut (floatOf number) := by
  cases number <;> simp [floatOf]

theorem uncut_readFlag (bytes : Bytes) : Uncut (readFlag false bytes) := by
  unfold readFlag
  split
  case h_2 | h_3 => exact (uncut_literal _ _).bind fun _ => Uncut.ok _
  all_goals simp

theorem uncut_readNull (value : α) (rest : Bytes) : Uncut (readNull false value rest) :=
  (uncut_literal _ _).bind fun _ => Uncut.ok _

theorem uncut_readCodesFrom (first : Bool) (fuel : Nat) (bytes : Bytes) :
    Uncut (readCodesFrom false first fuel bytes) := by
  induction fuel generalizing first bytes with
  | zero => simp [readCodesFrom]
  | succ fuel ih =>
    have element (bytes : Bytes) : Uncut (readCode false fuel bytes) :=
      (uncut_readNumber _ uncut_codeOf _).bind fun _ => (ih _ _).bind fun _ => Uncut.ok _
    unfold readCodesFrom
    dsimp only
    split
    · simp
    · simp
    · split
      · exact element _
      · split
        · simp
        · exact element _
    · split
      · exact element _
      · simp

theorem uncut_readCodes (bytes : Bytes) : Uncut (readCodes false bytes) := by
  unfold readCodes
  split
  · simp
  · exact uncut_readNull _ _
  · exact uncut_readCodesFrom _ _ _
  · simp

theorem uncut_readOptionalText (bytes : Bytes) : Uncut (readOptionalText false bytes) := by
  unfold readOptionalText
  split
  · exact uncut_readNull _ _
  · exact (uncut_readText _).bind fun _ => Uncut.ok _

theorem uncut_readValue (shape : Shape) (bytes : Bytes) : Uncut (readValue false shape bytes) := by
  unfold readValue
  cases shape with
  | text => exact uncut_readText _
  | integer => exact uncut_readNumber _ uncut_integerOf _
  | number => exact uncut_readNumber _ uncut_floatOf _
  | codes => exact uncut_readCodes _
  | optionalText => exact uncut_readOptionalText _
  | flag => exact uncut_readFlag _

theorem uncut_readField (seen : List Field) (m : ReleaseMetadata) (bytes : Bytes) :
    Uncut (readField false seen m bytes) := by
  refine (uncut_string bytes).bind fun _ => ?_
  dsimp only
  split
  · simp
  · split
    · simp
    · split
      · simp
      · exact (uncut_readValue _ _).bind fun _ => Uncut.ok _
      · simp

theorem uncut_readFields (fuel : Nat) (seen : List Field) (m : ReleaseMetadata) (bytes : Bytes) :
    Uncut (readFields false fuel seen m bytes) := by
  induction fuel generalizing seen m bytes with
  | zero => simp [readFields]
  | succ fuel ih =>
    have next (bytes : Bytes) : Uncut (readMember false fuel seen m bytes) :=
      (uncut_readField _ _ _).bind fun _ => ih _ _ _
    unfold readFields
    dsimp only
    split
    · simp
    · simp
    · split
      · exact next _
      · simp
    · split
      · simp
      · split
        · simp
        · exact next _
        · simp
    · simp

theorem uncut_readElements (first : Bool) (fields : List Field) (m : ReleaseMetadata)
    (bytes : Bytes) : Uncut (readElements false first fields m bytes) := by
  induction fields generalizing first m bytes with
  | nil =>
    unfold readElements
    split <;> simp_all
  | cons field fields ih =>
    have element (bytes : Bytes) : Uncut (readElement false field fields m bytes) :=
      (uncut_readValue _ _).bind fun _ => ih _ _ _
    unfold readElements
    split
    · simp
    · simp
    · simp
    · rename_i same _
      cases same
      split
      · exact element _
      · split
        · simp
        · split
          · simp
          · simp
          · exact element _

theorem uncut_readRecord (bytes : Bytes) : Uncut (readRecord false bytes) := by
  unfold readRecord
  split
  · simp
  · exact uncut_readFields _ _ _ _
  · exact uncut_readElements _ _ _ _
  · simp

theorem uncut_ofJson (bytes : Bytes) : Uncut (ofJson false bytes) := by
  refine (uncut_readRecord bytes).bind fun _ => ?_
  dsimp only
  split <;> simp

end ReleaseMetadata

end LinkArchive
