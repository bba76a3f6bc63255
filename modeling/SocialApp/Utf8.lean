import Mathlib.Data.String.Basic

/-! # The byte order of strings

The UTF-8 encodings of two strings compare bytewise as the strings do by their code
points: the first byte of a longer encoding is greater, and encodings of one length
have the digits of the code point from the most significant to the least. -/

namespace SocialApp
namespace Utf8

/-- The UTF-8 encoding of a string. -/
def bytes (s : String) : List UInt8 := s.toUTF8.data.toList

theorem bytes_eq (s : String) : bytes s = s.toList.flatMap String.utf8EncodeChar := by
  unfold bytes
  rw [String.toUTF8_eq_toByteArray, ← String.utf8Encode_toList, List.utf8Encode,
    List.toList_data_toByteArray]

theorem byte_lt_iff {a b : Nat} (ha : a < 256) (hb : b < 256) :
    UInt8.ofNat a < UInt8.ofNat b ↔ a < b := by
  rw [UInt8.lt_iff_toNat_lt, UInt8.toNat_ofNat', UInt8.toNat_ofNat', Nat.mod_eq_of_lt ha,
    Nat.mod_eq_of_lt hb]

theorem cons_byte_lt {a b : Nat} {l l' : List UInt8} (ha : a < 256) (hb : b < 256)
    (h : a < b ∨ a = b ∧ l < l') : UInt8.ofNat a :: l < UInt8.ofNat b :: l' :=
  List.cons_lt_cons_iff.mpr (h.imp (byte_lt_iff ha hb).mpr (And.imp_left (congrArg UInt8.ofNat)))

/-- The most significant digit of a number, and what follows for the rest of it. -/
theorem cons_digit_lt {m n k p : Nat} {l l' : List UInt8} (hm : m / k + p < 256)
    (hn : n / k + p < 256) (h : m < n) (hrest : m % k < n % k → l < l') :
    UInt8.ofNat (m / k + p) :: l < UInt8.ofNat (n / k + p) :: l' := by
  refine cons_byte_lt hm hn ?_
  rcases Nat.lt_or_eq_of_le (@Nat.div_le_div_right m n k (Nat.le_of_lt h)) with hlt | heq
  · exact Or.inl (Nat.add_lt_add_right hlt p)
  · refine Or.inr ⟨congrArg (· + p) heq, hrest ?_⟩
    have hm := Nat.div_add_mod m k
    have hn := Nat.div_add_mod n k
    rw [heq] at hm
    omega

/-- The encoding of a character is before that of a greater one, whatever follows. -/
theorem encodeChar_lt {c d : Char} (h : c < d) (l l' : List UInt8) :
    String.utf8EncodeChar c ++ l < String.utf8EncodeChar d ++ l' := by
  have hlt : c.val.toNat < d.val.toNat := UInt32.lt_iff_toNat_lt.mp h
  have hd : d.val.toNat < 0x110000 := by
    rcases d.valid with hvalid | hvalid <;> omega
  unfold String.utf8EncodeChar
  dsimp only
  generalize c.val.toNat = m at *
  generalize d.val.toNat = n at *
  have hdigit (x : Nat) : x / 64 % 64 = x % 4096 / 64 := by omega
  -- encodings of different lengths differ in the first byte
  by_cases h₁ : m ≤ 0x7f
  · rw [if_pos h₁]
    split
    · exact cons_byte_lt (by omega) (by omega) (Or.inl hlt)
    · split
      · exact cons_byte_lt (by omega) (by omega) (Or.inl (by omega))
      · split
        · exact cons_byte_lt (by omega) (by omega) (Or.inl (by omega))
        · exact cons_byte_lt (by omega) (by omega) (Or.inl (by omega))
  rw [if_neg h₁, if_neg (show ¬ n ≤ 0x7f by omega)]
  by_cases h₂ : m ≤ 0x7ff
  · rw [if_pos h₂]
    split
    · rw [Nat.mod_eq_of_lt (show m / 64 < 32 by omega),
        Nat.mod_eq_of_lt (show n / 64 < 32 by omega)]
      refine cons_digit_lt (by omega) (by omega) hlt fun h => ?_
      exact cons_byte_lt (by omega) (by omega) (Or.inl (by omega))
    · split
      · exact cons_byte_lt (by omega) (by omega) (Or.inl (by omega))
      · exact cons_byte_lt (by omega) (by omega) (Or.inl (by omega))
  rw [if_neg h₂, if_neg (show ¬ n ≤ 0x7ff by omega)]
  by_cases h₃ : m ≤ 0xffff
  · rw [if_pos h₃]
    split
    · rw [Nat.mod_eq_of_lt (show m / 4096 < 16 by omega),
        Nat.mod_eq_of_lt (show n / 4096 < 16 by omega), hdigit, hdigit]
      refine cons_digit_lt (by omega) (by omega) hlt fun h => ?_
      refine cons_digit_lt (by omega) (by omega) h fun h => ?_
      exact cons_byte_lt (by omega) (by omega) (Or.inl (by omega))
    · exact cons_byte_lt (by omega) (by omega) (Or.inl (by omega))
  · have hdigit' (x : Nat) : x / 4096 % 64 = x % 262144 / 4096 := by omega
    have hrest (x : Nat) : x % 262144 % 4096 = x % 4096 := by omega
    rw [if_neg h₃, if_neg (show ¬ n ≤ 0xffff by omega),
      Nat.mod_eq_of_lt (show m / 262144 < 8 by omega),
      Nat.mod_eq_of_lt (show n / 262144 < 8 by omega), hdigit, hdigit, hdigit', hdigit']
    refine cons_digit_lt (by omega) (by omega) hlt fun h => ?_
    refine cons_digit_lt (by omega) (by omega) h fun h => ?_
    rw [hrest, hrest] at h
    refine cons_digit_lt (by omega) (by omega) h fun h => ?_
    exact cons_byte_lt (by omega) (by omega) (Or.inl (by omega))

theorem encode_lt {l l' : List Char} (h : l < l') :
    l.flatMap String.utf8EncodeChar < l'.flatMap String.utf8EncodeChar := by
  induction l generalizing l' with
  | nil =>
    cases l' with
    | nil => exact absurd h (lt_irrefl _)
    | cons d l' =>
      cases hd : String.utf8EncodeChar d with
      | nil => exact absurd hd String.utf8EncodeChar_ne_nil
      | cons b bs =>
        rw [List.flatMap_cons, hd]
        exact List.nil_lt_cons _ _
  | cons c l ih =>
    cases l' with
    | nil => exact absurd h (List.not_lt_nil _)
    | cons d l' =>
      rw [List.flatMap_cons, List.flatMap_cons]
      rcases List.cons_lt_cons_iff.mp h with hlt | ⟨rfl, hlt⟩
      · exact encodeChar_lt hlt _ _
      · exact List.append_left_lt (ih hlt)

theorem bytes_lt {s t : String} (h : s < t) : bytes s < bytes t := by
  rw [bytes_eq, bytes_eq]
  exact encode_lt (String.lt_iff_toList_lt.mp h)

/-- The byte order is the order of the strings. -/
theorem bytes_lt_iff {s t : String} : bytes s < bytes t ↔ s < t := by
  refine ⟨fun h => ?_, bytes_lt⟩
  rcases lt_trichotomy s t with hlt | rfl | hgt
  · exact hlt
  · exact absurd h (List.lt_irrefl _)
  · exact absurd h (List.lt_asymm (bytes_lt hgt))

theorem bytes_inj {s t : String} : bytes s = bytes t ↔ s = t := by
  unfold bytes
  rw [Array.toList_inj, ← ByteArray.ext_iff, String.toUTF8_eq_toByteArray,
    String.toUTF8_eq_toByteArray, String.toByteArray_inj]

end Utf8
end SocialApp
