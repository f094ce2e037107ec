/-
# Texts in bytes

The bytes of a text are those of its characters, one after the other.  They determine the text and
are read back as it (`ofUtf8?_toUTF8`); a text of ASCII characters has one byte for each of them.
-/
import Mathlib.Algebra.Order.Ring.Nat
import Mathlib.Data.List.Basic

namespace P2pVpn.Lib

/-- The text with the given bytes, if they are valid UTF-8. -/
def ofUtf8? (bytes : List UInt8) : Option String := String.fromUTF8? bytes.toByteArray

lemma toList_eq_toList_data (bytes : ByteArray) : bytes.toList = bytes.data.toList := by
  have hloop : ∀ n i acc, bytes.size - i = n →
      ByteArray.toList.loop bytes i acc = acc.reverse ++ bytes.data.toList.drop i := by
    intro n
    induction n with
    | zero =>
      intro i acc hn
      have hdrop : bytes.data.toList.drop i = [] :=
        List.drop_eq_nil_of_le (by rw [Array.length_toList]; exact Nat.sub_eq_zero_iff_le.mp hn)
      rw [ByteArray.toList.loop, if_neg (by omega), hdrop, List.append_nil]
    | succ n ih =>
      intro i acc hn
      have hlt : i < bytes.data.size := by
        change i < bytes.size
        omega
      have hget : bytes.get! i = bytes.data[i] := getElem!_pos bytes.data i hlt
      rw [ByteArray.toList.loop, if_pos (by omega), ih (i + 1) _ (by omega),
        List.drop_eq_getElem_cons (i := i) (by rw [Array.length_toList]; exact hlt),
        List.reverse_cons, List.append_assoc, hget]
      rfl
  exact hloop _ 0 [] rfl

lemma toUTF8_toList (text : String) :
    text.toUTF8.toList = text.toList.flatMap String.utf8EncodeChar := by
  rw [toList_eq_toList_data, String.toUTF8, ← String.utf8Encode_toList, List.utf8Encode,
    List.toList_data_toByteArray]

/-- A text is read back from its bytes. -/
lemma ofUtf8?_toUTF8 (text : String) : ofUtf8? text.toUTF8.toList = some text := by
  have hback : text.toUTF8.toList.toByteArray = text.toUTF8 := by
    rw [toList_eq_toList_data]
    exact ByteArray.ext (Array.toList_inj.mp List.toList_data_toByteArray)
  rw [ofUtf8?, hback]
  simp [String.fromUTF8?, String.toUTF8, String.isValidUTF8, String.fromUTF8]

lemma toUTF8_toList_inj {text text' : String} (h : text.toUTF8.toList = text'.toUTF8.toList) :
    text = text' := by
  have hread := ofUtf8?_toUTF8 text
  rw [h, ofUtf8?_toUTF8] at hread
  exact (Option.some.inj hread).symm

section Ascii

variable {text : String} (hascii : ∀ c ∈ text.toList, c.toNat ≤ 127)
include hascii

lemma toUTF8_toList_of_ascii : text.toUTF8.toList = text.toList.map fun c => UInt8.ofNat c.toNat := by
  rw [toUTF8_toList, List.map_eq_flatMap]
  refine List.flatMap_congr fun c hc => ?_
  exact if_pos (hascii c hc)

end Ascii

end P2pVpn.Lib
