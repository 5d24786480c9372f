import Mathlib.Data.List.Lex
import Mathlib.Tactic.SplitIfs

/-! The order of strings is that of their bytes: of two characters the later one has the greater byte at the first
place where their bytes differ. -/
namespace Kashida

/-- One string comes before another, byte by byte. -/
def BytesBefore (one other : String) : Prop := one.toUTF8.data.toList < other.toUTF8.data.toList

theorem bytes_eq_flatMap (text : String) : text.toUTF8.data.toList = text.toList.flatMap String.utf8EncodeChar := by
  rw [String.toUTF8_eq_toByteArray, ← String.utf8Encode_toList, List.utf8Encode, List.toList_data_toByteArray]

theorem encodeChar_lt {one other : Char} (less : one < other) (rest back : List UInt8) :
    String.utf8EncodeChar one ++ rest < String.utf8EncodeChar other ++ back := by
  have less : one.val.toNat < other.val.toNat := less
  have bound : other.val.toNat < 0x110000 := by
    have valid := other.valid
    simp only [UInt32.isValidChar, Nat.isValidChar] at valid
    omega
  have groups (code : Nat) : code / 64 / 64 = code / 4096 ∧ code / 4096 / 64 = code / 262144 :=
    ⟨Nat.div_div_eq_div_mul .., Nat.div_div_eq_div_mul ..⟩
  have groupsOne := groups one.val.toNat
  have groupsOther := groups other.val.toNat
  simp only [String.utf8EncodeChar]
  generalize one.val.toNat = code, other.val.toNat = later at *
  -- A case for each pair of lengths. The lead byte of a longer encoding is the greater one.
  split_ifs <;>
    simp (disch := omega) only [List.cons_append, List.cons_lt_cons_iff, UInt8.lt_iff_toNat_lt, ← UInt8.toNat_inj,
      UInt8.toNat_ofNat', Nat.reducePow, Nat.mod_eq_of_lt] <;>
    omega

theorem encodeChars_lt {ones others : List Char} (less : ones < others) :
    ones.flatMap String.utf8EncodeChar < others.flatMap String.utf8EncodeChar := by
  induction ones generalizing others with
  | nil =>
    cases others with
    | nil => exact absurd less (List.lt_irrefl [])
    | cons other others =>
      cases encoded : String.utf8EncodeChar other with
      | nil => exact absurd encoded String.utf8EncodeChar_ne_nil
      | cons byte bytes => simp [encoded]
  | cons one ones ih =>
    cases others with
    | nil => exact absurd less (List.not_lt_nil _)
    | cons other others =>
      rw [List.flatMap_cons, List.flatMap_cons]
      rcases List.cons_lt_cons_iff.mp less with here | ⟨rfl, there⟩
      · exact encodeChar_lt here _ _
      · exact List.append_left_lt (ih there)

theorem bytesBefore_of_compare {one other : String} (less : compare one other = .lt) : BytesBefore one other := by
  have less : one < other := compareOfLessAndEq_eq_lt.mp less
  rw [BytesBefore, bytes_eq_flatMap, bytes_eq_flatMap]
  exact encodeChars_lt (String.lt_iff.mp less)

end Kashida
