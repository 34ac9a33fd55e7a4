import Mathlib.Data.List.Basic
import TestScout.Text.Bytes
import TestScout.Text.Piece

/-! The bytes of texts. No character starts like another one in UTF-8, or like the inside of another one, and all bytes of a
character that takes several lie above ASCII. -/

namespace TestScout.Text

theorem bytes_cons (c : Char) (text : List Char) : bytes (c :: text) = String.utf8EncodeChar c ++ bytes text := List.flatMap_cons

theorem utf8EncodeChar_ascii {c : Char} (ascii : c.val.toNat ≤ 127) : String.utf8EncodeChar c = [UInt8.ofNat c.val.toNat] := by
  simp only [String.utf8EncodeChar, if_pos ascii]

/-- A byte of ASCII is a character of its own. -/
theorem toNat_of_mem_utf8EncodeChar {c : Char} {byte : UInt8} (member : byte ∈ String.utf8EncodeChar c)
    (ascii : byte.toNat ≤ 127) : c.val.toNat = byte.toNat := by
  unfold String.utf8EncodeChar at member
  simp only at member
  repeat' split at member
  all_goals
    simp only [List.mem_cons, List.not_mem_nil, or_false] at member
    rcases member with rfl | rfl | rfl | rfl <;> simp only [UInt8.toNat_ofNat'] at * <;> omega

theorem byteLength_toList (text : String) : byteLength text.toList = text.utf8ByteSize := by
  suffices listed : ∀ characters, byteLength characters = (String.ofList characters).utf8ByteSize by
    rw [listed, String.ofList_toList]
  intro characters
  induction characters with
  | nil => rfl
  | cons c rest ih =>
    have split : String.ofList (c :: rest) = String.singleton c ++ String.ofList rest := by
      rw [String.singleton_eq_ofList, ← String.ofList_append]
      rfl
    rw [byteLength, ih, split, String.utf8ByteSize_append, String.utf8ByteSize_singleton]

theorem length_bytes (text : List Char) : (bytes text).length = byteLength text := by
  induction text with
  | nil => rfl
  | cons c text ih => rw [bytes_cons, List.length_append, String.length_utf8EncodeChar, ih, byteLength]

theorem prefix_of_bytes {first second : List Char} (within : bytes first <+: bytes second) : first <+: second := by
  obtain ⟨rest, same⟩ := within
  refine List.isPrefix_of_utf8Encode_append_eq_utf8Encode rest.toByteArray ?_
  rw [List.utf8Encode, List.utf8Encode, ← List.toByteArray_append]
  exact congrArg List.toByteArray same

theorem bytes_inj {first second : List Char} : bytes first = bytes second ↔ first = second := by
  refine ⟨fun same => ?_, congrArg bytes⟩
  have one := prefix_of_bytes (same ▸ List.prefix_rfl : bytes first <+: bytes second)
  have two := prefix_of_bytes (same ▸ List.prefix_rfl : bytes second <+: bytes first)
  exact one.eq_of_length_le two.length_le

/-- The first byte of a character is none of the further bytes of another one. -/
theorem eq_nil_of_bytes {c d : Char} {front more : List UInt8} (split : String.utf8EncodeChar c = front ++ more)
    (start : more.head? = (String.utf8EncodeChar d).head?) : front = [] := by
  have some : 0 < (String.utf8EncodeChar d).length := by simp [d.utf8Size_pos]
  rw [List.head?_eq_getElem?, List.head?_eq_getElem?, List.getElem?_eq_getElem some] at start
  obtain ⟨inside, same⟩ := List.getElem?_eq_some_iff.mp start
  have whole : front.length < (String.utf8EncodeChar c).length := by
    rw [split, List.length_append]
    exact Nat.lt_add_of_pos_right inside
  have first : (String.utf8EncodeChar c)[front.length].IsUTF8FirstByte := by
    have found : (String.utf8EncodeChar c)[front.length] = (String.utf8EncodeChar d)[0] := by
      simp only [split, ← same, List.getElem_append_right (Nat.le_refl _), Nat.sub_self]
    rw [found]
    exact UInt8.isUTF8FirstByte_getElem_zero_utf8EncodeChar
  exact List.eq_nil_of_length_eq_zero (UInt8.isUTF8FirstByte_getElem_utf8EncodeChar.mp first)

theorem suffix_of_bytes {first second : List Char} (within : bytes first <:+ bytes second) : first <:+ second := by
  induction second with
  | nil =>
    obtain rfl : first = [] := bytes_inj.mp (List.suffix_nil.mp within)
    exact List.suffix_rfl
  | cons c second ih =>
    cases first with
    | nil => exact List.nil_suffix
    | cons d first =>
      obtain ⟨front, same⟩ := within
      rw [bytes_cons c] at same
      rcases List.append_eq_append_iff.mp same with ⟨more, inside, behind⟩ | ⟨more, rfl, behind⟩
      · by_cases empty : more = []
        · rw [empty, List.nil_append] at behind
          exact (ih (behind ▸ List.suffix_rfl)).trans (List.suffix_cons c second)
        · have start : more.head? = (String.utf8EncodeChar d).head? := by
            have filled : String.utf8EncodeChar d ≠ [] := List.ne_nil_of_length_pos (by simp [d.utf8Size_pos])
            rw [← List.head?_append_of_ne_nil more empty, ← behind, bytes_cons d, List.head?_append_of_ne_nil _ filled]
          rw [eq_nil_of_bytes inside start, List.nil_append] at same
          exact (bytes_inj.mp (same.trans (bytes_cons c second).symm)) ▸ List.suffix_rfl
      · exact (ih ⟨more, behind.symm⟩).trans (List.suffix_cons c second)

end TestScout.Text
