import KeyCustody.Bytes.Basic
import Mathlib.Tactic.Common

/-!
# Octets and the texts they write

A statement about every octet may be checked for the numbers below 256 (`Bytes.forall_octet`), and
the octets of a text are those of its parts, in order. Byte strings that are put together from the
octets of texts are the octets of a text again (`Bytes.IsText`).
-/

namespace KeyCustody.Bytes

/-- What holds of the octets below 256 holds of all octets. -/
theorem forall_octet {p : UInt8 → Prop} (h : ∀ n < 256, p (UInt8.ofNat n)) (b : UInt8) : p b := by
  have hb := h b.toNat b.toNat_lt
  rwa [UInt8.ofNat_toNat] at hb

theorem ofText_append (s t : String) : ofText (s ++ t) = ofText s ++ ofText t := by
  simp [ofText]

theorem ofText_ofList (cs : List Char) :
    ofText (String.ofList cs) = cs.flatMap String.utf8EncodeChar := by
  simp [ofText, List.utf8Encode]

/-- The octets of a text are those of its characters. -/
theorem ofText_eq_flatMap (s : String) :
    ofText s = s.toList.flatMap String.utf8EncodeChar := by
  rw [← ofText_ofList, String.ofList_toList]

/-- A character below 128 is one octet. -/
theorem utf8EncodeChar_of_lt {c : Char} (h : c.toNat < 128) :
    String.utf8EncodeChar c = [UInt8.ofNat c.toNat] := by
  have hle : c.val.toNat ≤ 0x7f := Nat.le_of_lt_succ h
  simp only [String.utf8EncodeChar, if_pos hle]
  rfl

/-- The octets of other characters are not below 128. -/
theorem le_of_mem_utf8EncodeChar {c : Char} (h : 128 ≤ c.toNat) {octet : UInt8}
    (hoctet : octet ∈ String.utf8EncodeChar c) : 0x80 ≤ octet := by
  have hnot : ¬ c.val.toNat ≤ 0x7f := Nat.not_le.mpr h
  simp only [String.utf8EncodeChar, if_neg hnot] at hoctet
  rw [UInt8.le_iff_toNat_le]
  change 128 ≤ _
  split_ifs at hoctet
  all_goals
    simp only [List.mem_cons, List.not_mem_nil, or_false] at hoctet
    rcases hoctet with rfl | rfl | rfl | rfl <;> rw [UInt8.toNat_ofNat'] <;> omega

/-- A byte string that is the UTF-8 of a text. -/
def IsText (b : Bytes) : Prop := ∃ s, b = ofText s

theorem isText_ofText (s : String) : (ofText s).IsText := ⟨s, rfl⟩

theorem IsText.isSome_text? {b : Bytes} (h : b.IsText) : (text? b).isSome = true := by
  obtain ⟨s, rfl⟩ := h
  rw [text?_ofText]
  rfl

theorem IsText.append {b c : Bytes} (hb : b.IsText) (hc : c.IsText) : (b ++ c).IsText := by
  obtain ⟨s, rfl⟩ := hb
  obtain ⟨t, rfl⟩ := hc
  exact ⟨s ++ t, (ofText_append s t).symm⟩

theorem isText_flatMap {α : Type} {f : α → Bytes} {items : List α}
    (h : ∀ item ∈ items, (f item).IsText) : IsText (items.flatMap f) := by
  induction items with
  | nil => exact isText_ofText ""
  | cons item items ih =>
    rw [List.flatMap_cons]
    exact (h item (by simp)).append (ih fun x hx => h x (by simp [hx]))

/-- The octets below 128 are texts by themselves. -/
theorem isText_of_forall_lt {b : Bytes} (h : ∀ octet ∈ b, octet < 0x80) : b.IsText := by
  have hsingle : ∀ octet : UInt8, octet < 0x80 →
      ofText (String.ofList [Char.ofNat octet.toNat]) = [octet] := by
    apply forall_octet
    decide +kernel
  have hb := isText_flatMap (f := fun octet => [octet]) fun octet hoctet =>
    ⟨_, (hsingle octet (h octet hoctet)).symm⟩
  rwa [List.flatMap_singleton'] at hb

end KeyCustody.Bytes
