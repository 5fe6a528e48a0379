import Mathlib.Data.String.Basic
import TrieStorage.Bytes.Basic

/-!
# The order of texts

Texts come in the order of their characters, which is the order of their bytes: the bytes of a
character that comes first come first, whatever follows.
-/

namespace TrieStorage

namespace Bytes

theorem ofText_eq (text : String) : ofText text = text.toList.flatMap String.utf8EncodeChar := by
  have encoded : text.toUTF8 = text.toList.utf8Encode := by
    rw [String.toUTF8_eq_toByteArray, ← String.utf8Encode_toList]
  unfold ofText
  rw [encoded, List.utf8Encode]
  simp

theorem utf8EncodeChar_lt {c d : Char} (lt : c < d) (rest rest' : Bytes) :
    String.utf8EncodeChar c ++ rest < String.utf8EncodeChar d ++ rest' := by
  have lt : c.val.toNat < d.val.toNat := lt
  have below (c : Char) : c.val.toNat < 1114112 := by
    rcases c.valid with low | high
    · have low : c.val.toNat < 55296 := low
      omega
    · exact high.2
  have belowC := below c
  have belowD := below d
  unfold String.utf8EncodeChar
  dsimp only
  generalize c.val.toNat = m at *
  generalize d.val.toNat = n at *
  -- all bytes but the first are digits to the base 64, and none overflows
  have two (x : Nat) : x / 4096 = x / 64 / 64 := by omega
  have three (x : Nat) : x / 262144 = x / 64 / 64 / 64 := by omega
  have digit (x : Nat) : (x % 64 + 128) % 256 = x % 64 + 128 := by omega
  have first (x : Nat) (below : x < 1114112) :
      (x / 64 / 64 / 64 % 8 + 240) % 256 = x / 64 / 64 / 64 + 240 := by omega
  split_ifs
  all_goals
    simp only [List.cons_append, List.nil_append, List.cons_lt_cons_iff, UInt8.lt_iff_toNat_lt,
      ← UInt8.toNat_inj, UInt8.toNat_ofNat', two, three, digit, first m belowC, first n belowD]
    omega

theorem flatMap_utf8EncodeChar_lt {text text' : List Char} (lt : text < text') :
    text.flatMap String.utf8EncodeChar < text'.flatMap String.utf8EncodeChar := by
  induction text generalizing text' with
  | nil =>
    cases text' with
    | nil => cases lt
    | cons d _ =>
      obtain ⟨b, bytes, some_⟩ := List.exists_cons_of_ne_nil (String.utf8EncodeChar_ne_nil (c := d))
      rw [List.flatMap_cons, some_]
      exact List.nil_lt_cons ..
  | cons c rest ih =>
    cases text' with
    | nil => cases lt
    | cons d rest' =>
      rw [List.flatMap_cons, List.flatMap_cons]
      rcases List.cons_lt_cons_iff.1 lt with first | ⟨rfl, later⟩
      · exact utf8EncodeChar_lt first ..
      · exact List.append_left_lt (ih later)

theorem ofText_lt_iff {a b : String} : ofText a < ofText b ↔ a < b := by
  have mono {a b : String} (lt : a < b) : ofText a < ofText b := by
    rw [ofText_eq, ofText_eq]
    exact flatMap_utf8EncodeChar_lt (String.lt_iff_toList_lt.1 lt)
  refine ⟨fun lt => ?_, mono⟩
  rcases lt_trichotomy a b with less | rfl | greater
  · exact less
  · exact absurd lt (List.lt_irrefl _)
  · exact absurd (mono greater) (List.lt_asymm lt)

theorem ofText_le_iff {a b : String} : ofText a ≤ ofText b ↔ a ≤ b := by
  rw [← List.not_lt, ofText_lt_iff, not_lt]

end Bytes

end TrieStorage
