import KeyCustody.Measurement
import KeyCustody.Proofs.Bytes.Basic
import KeyCustody.Uuid

/-!
# Hexadecimal forms read back

`Hex.decode_encode`: the hexadecimal text of a byte string is read as this byte string. The written
forms of measurements and of universally unique identifiers are made of such texts and are read
back as well (`Measurement.parse?_text`, `Uuid.parse?_text`). Texts that are an even number of
digits are read, and no others (`Hex.exists_decode_iff`).
-/

namespace KeyCustody

namespace Hex

/-- The two digits of an octet as octets of a text. -/
def digitOctets (octet : UInt8) : Bytes := (digits octet).flatMap String.utf8EncodeChar

/-- The digits of a byte string as octets of a text. -/
def octetsOf (b : Bytes) : Bytes := b.flatMap digitOctets

theorem ofText_encode (b : Bytes) : Bytes.ofText (encode b) = octetsOf b := by
  rw [encode, Bytes.ofText_ofList, List.flatMap_assoc]
  rfl

theorem octetsOf_append (a b : Bytes) : octetsOf (a ++ b) = octetsOf a ++ octetsOf b :=
  List.flatMap_append

/-- An octet is read back from its two digits. -/
private theorem exists_digitOctets (octet : UInt8) : ∃ high low,
    digitOctets octet = [high, low] ∧ value? high = some (octet / 16) ∧
      value? low = some (octet % 16) ∧ 16 * (octet / 16) + octet % 16 = octet := by
  have hdigits : ∀ octet : UInt8, digitOctets octet =
      [(digitOctets octet).getD 0 0, (digitOctets octet).getD 1 0] ∧
      value? ((digitOctets octet).getD 0 0) = some (octet / 16) ∧
      value? ((digitOctets octet).getD 1 0) = some (octet % 16) ∧
      16 * (octet / 16) + octet % 16 = octet := Bytes.forall_octet (by decide +kernel)
  exact ⟨_, _, hdigits octet⟩

@[simp]
theorem length_octetsOf (b : Bytes) : (octetsOf b).length = 2 * b.length := by
  induction b with
  | nil => rfl
  | cons octet b ih =>
    obtain ⟨high, low, heq, -⟩ := exists_digitOctets octet
    rw [octetsOf, List.flatMap_cons, List.length_append, heq, ← octetsOf, ih]
    simp only [List.length_cons, List.length_nil]
    omega

/-- Reading the digits of a byte string adds this byte string to what was read before. -/
theorem pairs_octetsOf (b : Bytes) (index : Nat) (done : Bytes) :
    pairs index done (octetsOf b) = .ok (done.reverse ++ b) := by
  induction b generalizing index done with
  | nil => simp [octetsOf, pairs]
  | cons octet b ih =>
    obtain ⟨high, low, heq, hhigh, hlow, hvalue⟩ := exists_digitOctets octet
    rw [octetsOf, List.flatMap_cons, heq, List.cons_append, List.cons_append, List.nil_append,
      ← octetsOf, pairs]
    simp only [hhigh, hlow, hvalue]
    rw [ih]
    simp

/-- **Reading inverts writing**: the hexadecimal text of a byte string is read as this byte
string. -/
theorem decode_encode (b : Bytes) : decode (encode b) = .ok b := by
  have heven : ¬ (octetsOf b).length % 2 = 1 := by
    rw [length_octetsOf]
    omega
  simp only [decode, ofText_encode, if_neg heven]
  exact pairs_octetsOf b 0 []

/-! ### The texts that are read -/

/-- A hexadecimal digit, of either case. -/
def IsDigit (c : Char) : Prop :=
  ('0' ≤ c ∧ c ≤ '9') ∨ ('a' ≤ c ∧ c ≤ 'f') ∨ ('A' ≤ c ∧ c ≤ 'F')

instance : DecidablePred IsDigit := fun c =>
  inferInstanceAs (Decidable (('0' ≤ c ∧ c ≤ '9') ∨ ('a' ≤ c ∧ c ≤ 'f') ∨ ('A' ≤ c ∧ c ≤ 'F')))

theorem IsDigit.toNat_lt {c : Char} (h : IsDigit c) : c.toNat < 128 := by
  have hbound : c ≤ '9' ∨ c ≤ 'f' ∨ c ≤ 'F' := h.imp And.right (.imp And.right And.right)
  simp only [Char.le_def, UInt32.le_iff_toNat_le] at hbound
  change c.toNat ≤ 57 ∨ c.toNat ≤ 102 ∨ c.toNat ≤ 70 at hbound
  omega

/-- Pairs of octets are read if each octet is a digit. -/
theorem exists_pairs_iff {octets : Bytes} (heven : octets.length % 2 = 0) (index : Nat)
    (done : Bytes) : (∃ b, pairs index done octets = .ok b) ↔
      ∀ octet ∈ octets, (value? octet).isSome = true := by
  fun_induction pairs index done octets with
  | case1 index done low high rest hhigh => simp [hhigh]
  | case2 index done low high rest hlow => simp [hlow]
  | case3 index done high low rest h l hhigh hlow ih =>
    rw [ih (by simp at heven; omega)]
    simp [hhigh, hlow]
  | case4 octets index done hshort =>
    match octets with
    | [] => simp
    | [octet] => simp at heven
    | high :: low :: rest => exact (hshort high low rest rfl).elim

/-- The octets of a character are read as digits if the character is one. -/
theorem forall_value?_iff (c : Char) :
    (∀ octet ∈ String.utf8EncodeChar c, (value? octet).isSome = true) ↔ IsDigit c := by
  by_cases h : c.toNat < 128
  · have hdigit : ∀ n < 128, (value? (UInt8.ofNat n)).isSome = true ↔ IsDigit (Char.ofNat n) := by
      decide +kernel
    have hc := hdigit _ h
    rw [Char.ofNat_toNat] at hc
    simpa [Bytes.utf8EncodeChar_of_lt h] using hc
  · have hle := Nat.not_lt.mp h
    have hvalue : ∀ octet : UInt8, 0x80 ≤ octet → value? octet = none :=
      Bytes.forall_octet (by decide +kernel)
    refine iff_of_false (fun hall => ?_) fun hdigit => h hdigit.toNat_lt
    obtain ⟨octet, hoctet⟩ := List.exists_mem_of_ne_nil _ (String.utf8EncodeChar_ne_nil (c := c))
    have hsome := hall octet hoctet
    rw [hvalue octet (Bytes.le_of_mem_utf8EncodeChar hle hoctet)] at hsome
    cases hsome

/-- **The texts that are read** are the hexadecimal ones: an even number of digits. -/
theorem exists_decode_iff (s : String) : (∃ b, decode s = .ok b) ↔
    s.length % 2 = 0 ∧ ∀ c ∈ s.toList, IsDigit c := by
  have hoctets := Bytes.ofText_eq_flatMap s
  have hdigits : (∀ octet ∈ Bytes.ofText s, (value? octet).isSome = true) ↔
      ∀ c ∈ s.toList, IsDigit c := by
    simp only [hoctets, List.mem_flatMap, ← forall_value?_iff]
    exact ⟨fun h c hc octet ho => h octet ⟨c, hc, ho⟩, fun h octet ⟨c, hc, ho⟩ => h c hc octet ho⟩
  -- digits are one octet each, so that there are as many octets as digits
  have hlength (h : ∀ c ∈ s.toList, IsDigit c) : (Bytes.ofText s).length = s.length := by
    have hone : ∀ c ∈ s.toList, (String.utf8EncodeChar c).length = 1 := fun c hc => by
      rw [Bytes.utf8EncodeChar_of_lt (h c hc).toNat_lt]
      rfl
    rw [hoctets, List.length_flatMap, ← String.length_toList, List.map_congr_left hone,
      List.map_const', List.sum_replicate_nat, Nat.mul_one]
  rw [decode]
  split_ifs with hodd
  · refine iff_of_false (by simp) fun ⟨heven, h⟩ => ?_
    rw [hlength h, heven] at hodd
    cases hodd
  · rw [exists_pairs_iff (by omega), hdigits]
    exact ⟨fun h => ⟨by rw [← hlength h]; omega, h⟩, And.right⟩

end Hex

theorem Measurement.parse?_text (m : Measurement) : parse? m.text = some m := by
  simp only [parse?, text, Hex.decode_encode, ofOctets?, m.length_octets, dif_pos]

namespace Uuid

/-- The octets of a written form: five groups of digits with hyphens between them. -/
private theorem ofText_text (u : Uuid) : Bytes.ofText u.text =
    Hex.octetsOf ((u.octets.drop 0).take 4) ++ 0x2d :: (Hex.octetsOf ((u.octets.drop 4).take 2) ++
      0x2d :: (Hex.octetsOf ((u.octets.drop 6).take 2) ++
        0x2d :: (Hex.octetsOf ((u.octets.drop 8).take 2) ++
          0x2d :: Hex.octetsOf ((u.octets.drop 10).take 6)))) := by
  have hhyphen : Bytes.ofText "-" = [0x2d] := by decide
  simp only [text, Bytes.ofText_append, Hex.ofText_encode, hhyphen,
    List.append_assoc, List.cons_append, List.nil_append]

/-- The written form has thirty-six octets. -/
theorem length_ofText_text (u : Uuid) : (Bytes.ofText u.text).length = 36 := by
  simp [ofText_text, u.length_octets]

/-- Five groups, of which the first four have 8, 4, 4 and 4 digits, are read as the identifier that
all the digits write. -/
private theorem ofGroups?_groups {a b c d : Bytes} (e : Bytes) (ha : a.length = 8)
    (hb : b.length = 4) (hc : c.length = 4) (hd : d.length = 4) :
    ofGroups? (a ++ 0x2d :: (b ++ 0x2d :: (c ++ 0x2d :: (d ++ 0x2d :: e)))) =
      ofDigits? (a ++ b ++ c ++ d ++ e) := by
  match a, ha, b, hb, c, hc, d, hd with
  | [_, _, _, _, _, _, _, _], _, [_, _, _, _], _, [_, _, _, _], _, [_, _, _, _], _ =>
    simp [ofGroups?]

/-- **Reading inverts writing**: the written form of an identifier is read as this identifier. -/
theorem parse?_text (u : Uuid) : parse? u.text = some u := by
  have hgroup : ∀ first count, first + count ≤ 16 →
      (Hex.octetsOf ((u.octets.drop first).take count)).length = 2 * count := by
    intro first count h
    rw [Hex.length_octetsOf, List.length_take, List.length_drop, u.length_octets]
    omega
  -- the five groups one after the other are all the octets
  have hjoin : ∀ first count, (u.octets.drop first).take count ++ u.octets.drop (first + count) =
      u.octets.drop first := by
    intro first count
    rw [← List.drop_drop, List.take_append_drop]
  have hlast : (u.octets.drop 10).take 6 = u.octets.drop 10 :=
    List.take_of_length_le (by simp [u.length_octets])
  have hparts : (u.octets.drop 0).take 4 ++ (u.octets.drop 4).take 2 ++
      (u.octets.drop 6).take 2 ++ (u.octets.drop 8).take 2 ++ (u.octets.drop 10).take 6 =
        u.octets := by
    simp only [List.append_assoc, hlast]
    rw [hjoin 8 2, hjoin 6 2, hjoin 4 2, hjoin 0 4, List.drop_zero]
  have hread : ofGroups? (Bytes.ofText u.text) = ofDigits? (Hex.octetsOf u.octets) := by
    rw [ofText_text, ofGroups?_groups _ (hgroup 0 4 (by decide)) (hgroup 4 2 (by decide))
      (hgroup 6 2 (by decide)) (hgroup 8 2 (by decide))]
    simp only [← Hex.octetsOf_append, hparts]
  simp only [parse?, length_ofText_text, hread, ofDigits?, Hex.pairs_octetsOf]
  simp [ofOctets?, u.length_octets]

theorem text_injective {u v : Uuid} (h : u.text = v.text) : u = v := by
  have hu := parse?_text u
  rw [h, parse?_text] at hu
  exact (Option.some.inj hu).symm

end Uuid

end KeyCustody
