import LinkArchive.Bytes

/-!
# The bytes of a text

A text is written character by character and read back as it was: `Bytes.toText?_ofText`. An ASCII
byte never stands for a part of another character: `Bytes.mem_ofText_of_ascii`.
-/

namespace LinkArchive.Bytes

theorem toList_loop (array : ByteArray) (place : Nat) (before : Bytes) :
    ByteArray.toList.loop array place before = before.reverse ++ array.data.toList.drop place := by
  fun_induction ByteArray.toList.loop array place before with
  | case1 place before inside ih =>
    have bound : place < array.data.toList.length := by simpa using inside
    have byte : array.get! place = array.data.toList[place] := by
      simp [ByteArray.get!, inside]
    rw [ih, List.drop_eq_getElem_cons bound, byte]
    simp
  | case2 place before outside =>
    have past : array.data.toList.length ≤ place := by simpa using Nat.le_of_not_lt outside
    rw [List.drop_eq_nil_of_le past, List.append_nil]

theorem toList_eq_data (array : ByteArray) : array.toList = array.data.toList := by
  simp [ByteArray.toList, toList_loop]

theorem toText?_ofText (text : String) : toText? (ofText text) = some text := by
  have whole : ByteArray.mk (ofText text).toArray = text.toByteArray := by
    rw [ofText, toList_eq_data, Array.toArray_toList]
    rfl
  rw [toText?, whole, String.fromUTF8?, dif_pos text.isValidUTF8]
  rfl

theorem ofText_injective {first second : String} (same : ofText first = ofText second) :
    first = second := by
  have texts := congrArg toText? same
  rw [toText?_ofText, toText?_ofText] at texts
  exact Option.some.inj texts

theorem ofText_append (first second : String) :
    ofText (first ++ second) = ofText first ++ ofText second := by
  simp only [ofText, toList_eq_data, String.toUTF8_eq_toByteArray, String.toByteArray_append,
    ByteArray.data_append, Array.toList_append]

theorem ofText_eq_flatMap (text : String) :
    ofText text = text.toList.flatMap String.utf8EncodeChar := by
  rw [ofText, toList_eq_data, String.toUTF8_eq_toByteArray, ← String.utf8Encode_toList]
  simp [List.utf8Encode]

theorem toNat_eq_of_mem_utf8EncodeChar {c : Char} {byte : UInt8}
    (member : byte ∈ String.utf8EncodeChar c) (ascii : byte.toNat < 128) :
    c.toNat = byte.toNat := by
  -- every byte of a longer form has its highest bit set
  have high : ∀ low mark : Nat, 128 ≤ mark → low + mark < 256 →
      byte ≠ UInt8.ofNat (low + mark) := by
    intro low mark marked bound same
    rw [same, UInt8.toNat_ofNat_of_lt' bound] at ascii
    omega
  unfold String.utf8EncodeChar at member
  dsimp only at member
  split at member
  · rename_i short
    obtain rfl := List.mem_singleton.mp member
    have small : c.val.toNat < UInt8.size := Nat.lt_of_le_of_lt short (by decide)
    exact (UInt8.toNat_ofNat_of_lt' small).symm
  split at member
  · simp only [List.mem_cons, List.not_mem_nil, or_false] at member
    rcases member with same | same
    all_goals exact absurd same (high _ _ (by decide) (by omega))
  split at member
  · simp only [List.mem_cons, List.not_mem_nil, or_false] at member
    rcases member with same | same | same
    all_goals exact absurd same (high _ _ (by decide) (by omega))
  · simp only [List.mem_cons, List.not_mem_nil, or_false] at member
    rcases member with same | same | same | same
    all_goals exact absurd same (high _ _ (by decide) (by omega))

/-- An ASCII byte of a text is a character of it. -/
theorem mem_ofText_of_ascii {text : String} {byte : UInt8} (member : byte ∈ ofText text)
    (ascii : byte.toNat < 128) : Char.ofNat byte.toNat ∈ text.toList := by
  rw [ofText_eq_flatMap] at member
  obtain ⟨c, present, part⟩ := List.mem_flatMap.mp member
  rw [← toNat_eq_of_mem_utf8EncodeChar part ascii, Char.ofNat_toNat]
  exact present

theorem utf8EncodeChar_of_ascii {c : Char} (ascii : c.toNat < 128) :
    String.utf8EncodeChar c = [UInt8.ofNat c.toNat] := by
  have short : c.val.toNat ≤ 127 := Nat.le_of_lt_succ ascii
  rw [String.utf8EncodeChar, if_pos short]
  rfl

theorem flatMap_of_ascii {chars : List Char} (ascii : ∀ c ∈ chars, c.toNat < 128) :
    chars.flatMap String.utf8EncodeChar = chars.map fun c => UInt8.ofNat c.toNat := by
  have single : chars.map String.utf8EncodeChar = chars.map fun c => [UInt8.ofNat c.toNat] :=
    List.map_congr_left fun c present => utf8EncodeChar_of_ascii (ascii c present)
  rw [List.map_eq_flatMap, List.flatMap_def, List.flatMap_def, single]

theorem ofText_of_ascii {text : String} (ascii : ∀ c ∈ text.toList, c.toNat < 128) :
    ofText text = text.toList.map fun c => UInt8.ofNat c.toNat := by
  rw [ofText_eq_flatMap, flatMap_of_ascii ascii]

/-- A text whose bytes are all ASCII has no other characters. -/
theorem ascii_of_ofText {text : String} (ascii : ∀ byte ∈ ofText text, byte.toNat < 128) :
    ∀ c ∈ text.toList, c.toNat < 128 := by
  intro c present
  obtain ⟨byte, rest, encoded⟩ := List.exists_cons_of_ne_nil (String.utf8EncodeChar_ne_nil (c := c))
  have part : byte ∈ String.utf8EncodeChar c := by simp [encoded]
  have small : byte.toNat < 128 := by
    apply ascii
    rw [ofText_eq_flatMap]
    exact List.mem_flatMap.mpr ⟨c, present, part⟩
  rw [toNat_eq_of_mem_utf8EncodeChar part small]
  exact small

end LinkArchive.Bytes
