import KeyCustody.Proofs.Bytes.Basic
import Mathlib.Data.String.Basic

/-!
# The order of texts is that of their octets

Texts are ordered by their characters, and `Bytes.ofText_lt_ofText` says that their octets are in
the same order: of two characters the larger one is written with larger octets, or with more of
them, which begins with a larger octet.
-/

namespace KeyCustody.Bytes

/-- The octets of the larger of two characters are larger, whatever follows. -/
private theorem utf8EncodeChar_append_lt {c d : Char} (h : c < d) (xs ys : Bytes) :
    String.utf8EncodeChar c ++ xs < String.utf8EncodeChar d ++ ys := by
  have hlt : c.val.toNat < d.val.toNat := h
  have hbound : d.val.toNat < 0x110000 := by
    have hvalid : _ ∨ _ := d.valid
    omega
  -- in each pair of lengths the octets are compared as numbers
  simp only [String.utf8EncodeChar]
  split_ifs <;>
    simp only [List.cons_append, List.cons_lt_cons_iff, UInt8.lt_iff_toNat_lt, ← UInt8.toNat_inj,
      UInt8.toNat_ofNat'] <;>
    simp (disch := omega) only [Nat.mod_eq_of_lt] <;> omega

/-- What two byte strings begin with in common may be left out when they are compared. -/
theorem append_lt_append_iff (p : Bytes) {xs ys : Bytes} : p ++ xs < p ++ ys ↔ xs < ys := by
  induction p with
  | nil => rfl
  | cons octet p ih => simp [ih]

private theorem flatMap_utf8EncodeChar_lt {cs ds : List Char} (h : cs < ds) :
    cs.flatMap String.utf8EncodeChar < ds.flatMap String.utf8EncodeChar := by
  induction cs generalizing ds with
  | nil =>
    rcases ds with _ | ⟨d, ds⟩
    · cases h
    · obtain ⟨octet, rest, hd⟩ := List.exists_cons_of_ne_nil (String.utf8EncodeChar_ne_nil (c := d))
      rw [List.flatMap_nil, List.flatMap_cons, hd]
      exact .nil
  | cons c cs ih =>
    rcases ds with _ | ⟨d, ds⟩
    · cases h
    rw [List.flatMap_cons, List.flatMap_cons]
    rcases List.cons_lt_cons_iff.mp h with hlt | ⟨rfl, hrest⟩
    · exact utf8EncodeChar_append_lt hlt _ _
    · exact (append_lt_append_iff _).mpr (ih hrest)

/-- **The smaller of two texts has the smaller octets.** -/
theorem ofText_lt_ofText {s t : String} (h : s < t) : ofText s < ofText t := by
  rw [ofText_eq_flatMap, ofText_eq_flatMap]
  exact flatMap_utf8EncodeChar_lt (String.lt_iff.mp h)

end KeyCustody.Bytes
