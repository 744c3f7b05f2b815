import KeyCustody.Proofs.Store.Seal

/-!
# Sealed records that were tampered with

A sealed record is what the three parts `Seal.nonceOf`, `Seal.hiddenOf` and `Seal.tagOf` say, and
the octets that are hashed for its tag determine the key, the nonce and the hidden part
(`Seal.hashed_eq_iff`): key and nonce have fixed sizes, the name is the same, and a key stream can
be taken off again. So whoever changes a record in some other place than its tag, or has another
key, has the digest of other octets to meet (`Seal.tampering_needs_collision`).
-/

namespace KeyCustody.Seal

variable {key other : Bytes} {name : String} {sealed forged : Bytes}

/-- Whether something is accepted as a sealed record of a name. -/
def Accepts (key : Bytes) (name : String) (sealed : Bytes) : Prop :=
  ∃ contents, reveal key name sealed = .ok contents

/-- A record is accepted exactly if its tag is the digest of what is hashed for it. -/
theorem accepts_iff (h : nonceSize + tagSize ≤ sealed.length) :
    Accepts key name sealed ↔ tagOf sealed = Sha256.digest (hashed key name sealed) := by
  rw [Accepts, reveal_of_long h]
  split_ifs with htag
  · exact iff_of_true ⟨_, rfl⟩ htag
  · exact iff_of_false (fun ⟨_, haccepted⟩ => nomatch haccepted) htag

/-! ### A record is its parts -/

theorem length_nonceOf (h : nonceSize ≤ sealed.length) : (nonceOf sealed).length = nonceSize :=
  List.length_take_of_le h

/-- The parts of a record leave nothing out and do not overlap. -/
theorem append_parts (h : nonceSize + tagSize ≤ sealed.length) :
    nonceOf sealed ++ hiddenOf sealed ++ tagOf sealed = sealed := by
  have hsize : sealed.length - tagSize = nonceSize + (sealed.length - (nonceSize + tagSize)) := by
    omega
  have hrest : tagOf sealed =
      (sealed.drop nonceSize).drop (sealed.length - (nonceSize + tagSize)) := by
    rw [List.drop_drop, tagOf, hsize]
  rw [hrest, List.append_assoc, hiddenOf, List.take_append_drop, nonceOf, List.take_append_drop]

theorem length_close (key : Bytes) (nonce : Nonce) (name : String) (contents : Bytes) :
    (close key nonce name contents).length = nonceSize + contents.length + tagSize := by
  rw [close, List.length_append, List.length_append, nonce.length_octets, length_mask, length_tag]
  rfl

theorem parts_close (key : Bytes) (nonce : Nonce) (name : String) (contents : Bytes) :
    nonceOf (close key nonce name contents) = nonce.octets ∧
      hiddenOf (close key nonce name contents) = mask key nonce.octets contents ∧
        tagOf (close key nonce name contents) = tag key nonce.octets name contents :=
  parts_append _ nonce.length_octets (length_tag ..)

/-- A record is the sealed form of its contents if its three parts are. -/
theorem eq_close {nonce : Nonce} {contents : Bytes} (hlong : nonceSize + tagSize ≤ forged.length)
    (hnonce : nonceOf forged = nonce.octets)
    (hhidden : hiddenOf forged = mask key nonce.octets contents)
    (htag : tagOf forged = tag key nonce.octets name contents) :
    forged = close key nonce name contents := by
  rw [← append_parts hlong, hnonce, hhidden, htag, close]

/-! ### What is hashed says what was sealed -/

theorem mask_inj {nonce contents revealed : Bytes} :
    mask key nonce contents = mask key nonce revealed ↔ contents = revealed := by
  refine ⟨fun h => ?_, congrArg _⟩
  rw [← mask_mask key nonce contents, h, mask_mask]

/-- Keys of one size and nonces of one size come apart again from the octets that are tagged. -/
theorem tagged_inj {nonce nonce' contents revealed : Bytes} (hkey : other.length = key.length)
    (hnonce : nonce'.length = nonce.length) :
    tagged other nonce' name revealed = tagged key nonce name contents ↔
      other = key ∧ nonce' = nonce ∧ revealed = contents := by
  constructor
  · intro h
    simp only [tagged, List.append_assoc] at h
    obtain ⟨hkey, h⟩ := List.append_inj h hkey
    obtain ⟨hnonce, h⟩ := List.append_inj h hnonce
    exact ⟨hkey, hnonce, List.append_cancel_right (List.append_cancel_left h)⟩
  · rintro ⟨rfl, rfl, rfl⟩
    rfl

/-- The octets that are hashed for the sealed form of a record are those that were tagged. -/
theorem hashed_close (key : Bytes) (nonce : Nonce) (name : String) (contents : Bytes) :
    hashed key name (close key nonce name contents) = tagged key nonce.octets name contents := by
  obtain ⟨hnonce, hhidden, -⟩ := parts_close key nonce name contents
  rw [hashed, contentsOf, hnonce, hhidden, mask_mask]

/-- **What is hashed says what was sealed**: for a name, the octets that are hashed for a record
determine the key, among those of its size, the nonce and the hidden part. -/
theorem hashed_eq_iff (hkey : other.length = key.length) (hsealed : nonceSize ≤ sealed.length)
    (hforged : nonceSize ≤ forged.length) :
    hashed other name forged = hashed key name sealed ↔
      other = key ∧ nonceOf forged = nonceOf sealed ∧ hiddenOf forged = hiddenOf sealed := by
  have hnonce : (nonceOf forged).length = (nonceOf sealed).length :=
    (length_nonceOf hforged).trans (length_nonceOf hsealed).symm
  rw [hashed, hashed, tagged_inj hkey hnonce, contentsOf, contentsOf]
  refine and_congr_right fun hkey => and_congr_right fun hnonce => ?_
  rw [hkey, hnonce, mask_inj]

/-! ### Tampering -/

/-- **Tampering needs a collision.** What was sealed is revealed. A record that differs from its
sealed form in the tag only is refused. Anything else of the same size that carries the tag, under
the same key or another one of its size, is hashed differently, and it is accepted exactly if the
two different octet strings have the same digest. What is too short for a nonce and a tag is refused
under every key and name. -/
theorem tampering_needs_collision (key : Bytes) (nonce : Nonce) (name : String)
    (contents : Bytes) :
    reveal key name (close key nonce name contents) = .ok contents ∧
    (∀ forged : Bytes, forged.length = nonceSize + contents.length + tagSize →
      nonceOf forged = nonce.octets → hiddenOf forged = mask key nonce.octets contents →
        forged ≠ close key nonce name contents →
          reveal key name forged = .error (.integrity (.badTag name))) ∧
    (∀ other forged : Bytes, other.length = key.length →
      forged.length = nonceSize + contents.length + tagSize →
        tagOf forged = tag key nonce.octets name contents →
          (other, forged) ≠ (key, close key nonce name contents) →
            hashed other name forged ≠ tagged key nonce.octets name contents ∧
            (Accepts other name forged ↔ Sha256.digest (hashed other name forged) =
              Sha256.digest (tagged key nonce.octets name contents))) ∧
    ∀ (other : Bytes) (label : String) (short : Bytes), short.length < nonceSize + tagSize →
      reveal other label short = .error (.sealing .tooShort) := by
  refine ⟨reveal_close key nonce name contents, fun forged hlength hnonce hhidden hne => ?_,
    fun other forged hkey hlength htag hne => ?_,
    fun other label short hshort => reveal_of_short hshort other label⟩
  · have hlong : nonceSize + tagSize ≤ forged.length := by omega
    -- what is hashed is the same, so that only the tag of the sealed form would do
    have hhashed : hashed key name forged = tagged key nonce.octets name contents := by
      rw [hashed, contentsOf, hnonce, hhidden, mask_mask]
    rw [reveal_of_long hlong, hhashed]
    exact if_neg fun htag => hne (eq_close hlong hnonce hhidden htag)
  · have hlong : nonceSize + tagSize ≤ forged.length := by omega
    have hforged : nonceSize ≤ forged.length := by omega
    have hsealed : nonceSize ≤ (close key nonce name contents).length := by
      rw [length_close]
      omega
    obtain ⟨hnonce, hhidden, -⟩ := parts_close key nonce name contents
    constructor
    · rw [← hashed_close]
      intro hhashed
      obtain ⟨rfl, hnonce', hhidden'⟩ := (hashed_eq_iff hkey hsealed hforged).mp hhashed
      exact hne (congrArg _
        (eq_close hlong (hnonce'.trans hnonce) (hhidden'.trans hhidden) htag))
    · rw [accepts_iff hlong, htag, tag]
      exact eq_comm

/-- A sealing key. -/
def sampleKey : Bytes := List.replicate 32 1

/-- A nonce. -/
def sampleNonce : Nonce := ⟨List.replicate 16 3, rfl⟩

/-- The tag with which one octet is sealed under the key and the nonce. -/
def sampleTag : Bytes := tag sampleKey sampleNonce.octets "a" [5]

/-- What hides the octet, between any two other parts. -/
def sampleRecord (octets mark : Bytes) : Bytes :=
  octets ++ mask sampleKey sampleNonce.octets [5] ++ mark

/-- The octet is revealed. The record is refused with another tag, with another nonce, under another
key, and without its tag. -/
theorem tampering_needs_collision_sample :
    reveal sampleKey "a" (sampleRecord sampleNonce.octets sampleTag) = .ok [5] ∧
      reveal sampleKey "a" (sampleRecord sampleNonce.octets (List.replicate 32 0)) =
        .error (.integrity (.badTag "a")) ∧
      ¬ Accepts sampleKey "a" (sampleRecord (List.replicate 16 7) sampleTag) ∧
      ¬ Accepts (List.replicate 32 2) "a" (sampleRecord sampleNonce.octets sampleTag) ∧
      reveal sampleKey "a" (sampleRecord sampleNonce.octets []) = .error (.sealing .tooShort) := by
  have hparts {octets mark : Bytes} (hoctets : octets.length = nonceSize)
      (hmark : mark.length = tagSize) : nonceOf (sampleRecord octets mark) = octets ∧
        hiddenOf (sampleRecord octets mark) = mask sampleKey sampleNonce.octets [5] ∧
          tagOf (sampleRecord octets mark) = mark := parts_append _ hoctets hmark
  have hlength (octets mark : Bytes) :
      (sampleRecord octets mark).length = octets.length + 1 + mark.length := by
    rw [sampleRecord, List.length_append, List.length_append, length_mask]
    rfl
  have htag : sampleTag.length = tagSize := length_tag ..
  obtain ⟨hreveal, hrefused, hcollision, hshort⟩ :=
    tampering_needs_collision sampleKey sampleNonce "a" [5]
  have hforged := hrefused (sampleRecord sampleNonce.octets (List.replicate 32 0)) (hlength _ _)
    (hparts rfl rfl).1 (hparts rfl rfl).2.1 fun heq => by
      have hmark : List.replicate 32 0 = sampleTag :=
        (hparts rfl rfl).2.2.symm.trans ((congrArg tagOf heq).trans (hparts rfl htag).2.2)
      revert hmark
      decide +kernel
  have hnonce := hcollision sampleKey (sampleRecord (List.replicate 16 7) sampleTag) rfl
    ((hlength _ _).trans (by rw [htag]; rfl)) (hparts rfl htag).2.2 fun heq => by
      have hoctets : List.replicate 16 7 = sampleNonce.octets :=
        (hparts rfl htag).1.symm.trans
          ((congrArg (nonceOf ·.2) heq).trans (hparts rfl htag).1)
      revert hoctets
      decide
  have hkey := hcollision (List.replicate 32 2) (sampleRecord sampleNonce.octets sampleTag) rfl
    ((hlength _ _).trans (by rw [htag]; rfl)) (hparts rfl htag).2.2
    fun heq => absurd (congrArg Prod.fst heq) (by decide)
  refine ⟨hreveal, hforged, ?_, ?_, hshort _ _ _ (by rw [hlength]; decide)⟩
  · rw [hnonce.2]
    decide +kernel
  · rw [hkey.2]
    decide +kernel

end KeyCustody.Seal
