import KeyCustody.Store.Seal
import Mathlib.Tactic.Common

/-!
# Sealed records taken apart

`Seal.reveal_close`: what was sealed under a key and a name is revealed under this key and this
name. The key stream is as long as the contents, so combining with it twice changes nothing
(`Seal.mask_mask`), and the sizes of nonce and tag are fixed, so the three parts are found again
(`Seal.parts_append`).
-/

namespace KeyCustody.Seal

theorem length_keystream (key nonce : Bytes) (size : Nat) :
    (keystream key nonce size).length = size := by
  have hblocks : ((List.range ((size + 31) / 32)).flatMap fun i =>
      Sha256.digest (key ++ nonce ++ counterOctets i)).length = (size + 31) / 32 * 32 := by
    rw [List.length_flatMap]
    simp only [Sha256.length_digest, List.map_const', List.length_range, List.sum_replicate_nat]
  rw [keystream, List.length_take, hblocks]
  omega

theorem length_mask (key nonce contents : Bytes) :
    (mask key nonce contents).length = contents.length := by
  rw [mask, List.length_zipWith, length_keystream, Nat.min_self]

/-- Combining twice with the same octets changes nothing. -/
private theorem zipWith_xor_xor {a k : Bytes} (h : a.length = k.length) :
    List.zipWith (· ^^^ ·) (List.zipWith (· ^^^ ·) a k) k = a := by
  induction a generalizing k with
  | nil => rfl
  | cons x a ih =>
    obtain ⟨y, k, rfl⟩ := List.exists_cons_of_length_eq_add_one h.symm
    have hlength : a.length = k.length := by simpa using h
    rw [List.zipWith_cons_cons, List.zipWith_cons_cons, ih hlength, UInt8.xor_assoc,
      UInt8.xor_self, UInt8.xor_zero]

theorem mask_mask (key nonce contents : Bytes) :
    mask key nonce (mask key nonce contents) = contents := by
  have hlength : contents.length = (keystream key nonce contents.length).length :=
    (length_keystream ..).symm
  rw [mask, length_mask, mask]
  exact zipWith_xor_xor hlength

/-! ### The parts of a sealed record -/

/-- The nonce of a sealed record, which stands in front. -/
def nonceOf (sealed : Bytes) : Bytes := sealed.take nonceSize

/-- What a sealed record hides, between the nonce and the tag. -/
def hiddenOf (sealed : Bytes) : Bytes :=
  (sealed.drop nonceSize).take (sealed.length - (nonceSize + tagSize))

/-- The tag of a sealed record, which stands at the end. -/
def tagOf (sealed : Bytes) : Bytes := sealed.drop (sealed.length - tagSize)

/-- What a sealed record says that its contents are, under a key. -/
def contentsOf (key sealed : Bytes) : Bytes := mask key (nonceOf sealed) (hiddenOf sealed)

/-- The octets that are hashed when the tag of a sealed record is checked. -/
def hashed (key : Bytes) (name : String) (sealed : Bytes) : Bytes :=
  tagged key (nonceOf sealed) name (contentsOf key sealed)

theorem reveal_of_short {sealed : Bytes} (h : sealed.length < nonceSize + tagSize) (key : Bytes)
    (name : String) : reveal key name sealed = .error (.sealing .tooShort) :=
  if_pos h

/-- A record that is long enough for a nonce and a tag is refused exactly if its tag is not the
digest of what is hashed for it. -/
theorem reveal_of_long {sealed : Bytes} (h : nonceSize + tagSize ≤ sealed.length) (key : Bytes)
    (name : String) : reveal key name sealed =
      if tagOf sealed = Sha256.digest (hashed key name sealed) then .ok (contentsOf key sealed)
      else .error (.integrity (.badTag name)) :=
  if_neg (Nat.not_lt.mpr h)

/-- The parts of a record are found again where they were put together. -/
theorem parts_append {octets mark : Bytes} (hidden : Bytes) (hoctets : octets.length = nonceSize)
    (hmark : mark.length = tagSize) :
    nonceOf (octets ++ hidden ++ mark) = octets ∧ hiddenOf (octets ++ hidden ++ mark) = hidden ∧
      tagOf (octets ++ hidden ++ mark) = mark := by
  have hsize : (octets ++ hidden ++ mark).length = nonceSize + hidden.length + tagSize := by
    rw [List.length_append, List.length_append, hoctets, hmark]
  refine ⟨?_, ?_, ?_⟩
  · rw [nonceOf, List.append_assoc]
    exact List.take_left' hoctets
  · have hdrop : (octets ++ (hidden ++ mark)).drop nonceSize = hidden ++ mark :=
      List.drop_left' hoctets
    rw [hiddenOf, hsize, List.append_assoc, hdrop]
    exact List.take_left' (by omega)
  · rw [tagOf, hsize]
    refine List.drop_left' ?_
    rw [List.length_append, hoctets]
    omega

/-- A sealed record of three parts is refused exactly if its last part is not the tag of what its
middle part hides. -/
theorem reveal_append (key : Bytes) (name : String) {octets mark : Bytes} (hidden : Bytes)
    (hoctets : octets.length = nonceSize) (hmark : mark.length = tagSize) :
    reveal key name (octets ++ hidden ++ mark) =
      if mark = tag key octets name (mask key octets hidden) then .ok (mask key octets hidden)
      else .error (.integrity (.badTag name)) := by
  have hlong : nonceSize + tagSize ≤ (octets ++ hidden ++ mark).length := by
    rw [List.length_append, List.length_append, hoctets, hmark]
    omega
  obtain ⟨hnonce, hbody, htag⟩ := parts_append hidden hoctets hmark
  rw [reveal_of_long hlong, hashed, contentsOf, hnonce, hbody, htag, tag]

theorem length_tag (key nonce : Bytes) (name : String) (contents : Bytes) :
    (tag key nonce name contents).length = tagSize :=
  Sha256.length_digest _

/-- **Sealing loses nothing**: what was sealed is revealed under the same key and name. -/
theorem reveal_close (key : Bytes) (nonce : Nonce) (name : String) (contents : Bytes) :
    reveal key name (close key nonce name contents) = .ok contents := by
  rw [close, reveal_append key name _ nonce.length_octets (length_tag ..), mask_mask]
  exact if_pos rfl

end KeyCustody.Seal
