import KeyCustody.Proofs.Bytes.Basic
import KeyCustody.Proofs.Store.Reliable
import KeyCustody.Proofs.Store.Seal

/-!
# What a tag says about the name

The tag of a sealed record is taken over name and contents without a mark between them, so it does
not say where the name ends. Where two names run into their contents as the same octets, nonce and
tag of the one record are accepted under the name of the other (`Seal.reveal_forge_of_append`). So
two names are kept from each other exactly if neither begins the other (`Seal.apart_iff`). The
records of the custodian have such names (`Seal.isBound_of_mem_recordNames`).
-/

namespace KeyCustody.Seal

/-- The same octets are tagged for two records exactly if name and contents run into the same
octets. -/
theorem tagged_eq_iff {key nonce : Bytes} {name other : String} {contents revealed : Bytes} :
    tagged key nonce name contents = tagged key nonce other revealed ↔
      Bytes.ofText name ++ contents = Bytes.ofText other ++ revealed := by
  simp only [tagged, List.append_assoc, List.append_cancel_left_eq]
  rw [← List.append_assoc, ← List.append_assoc, List.append_cancel_right_eq]

/-- The sealed form that carries the nonce and the tag of a record, with any hidden part. -/
def forge (key : Bytes) (nonce : Nonce) (name : String) (contents hidden : Bytes) : Bytes :=
  nonce.octets ++ hidden ++ tag key nonce.octets name contents

/-- A nonce and a tag of one record are accepted under a name exactly if the two records have one
digest, and then the hidden part is what is revealed. -/
theorem reveal_forge_eq_ok {key : Bytes} {nonce : Nonce} {name other : String}
    {contents hidden revealed : Bytes} :
    reveal key other (forge key nonce name contents hidden) = .ok revealed ↔
      mask key nonce.octets hidden = revealed ∧
        Sha256.digest (tagged key nonce.octets name contents) =
          Sha256.digest (tagged key nonce.octets other revealed) := by
  rw [forge, reveal_append key other hidden nonce.length_octets (length_tag ..), tag, tag]
  constructor
  · intro h
    split at h
    case isTrue hdigest => cases h; exact ⟨rfl, hdigest⟩
    case isFalse => cases h
  · rintro ⟨rfl, hdigest⟩
    exact if_pos hdigest

/-- Where the names run into their contents as the same octets, nonce and tag of the one record are
accepted under the name of the other. -/
theorem reveal_forge_of_append {key : Bytes} {nonce : Nonce} {name other : String}
    {contents revealed : Bytes}
    (h : Bytes.ofText name ++ contents = Bytes.ofText other ++ revealed) :
    reveal key other (forge key nonce name contents (mask key nonce.octets revealed)) =
      .ok revealed := by
  refine reveal_forge_eq_ok.mpr ⟨mask_mask .., ?_⟩
  rw [tagged_eq_iff.mpr h]

/-- Neither name begins the other. -/
def Apart (name other : String) : Prop :=
  ¬ Bytes.ofText name <+: Bytes.ofText other ∧ ¬ Bytes.ofText other <+: Bytes.ofText name

instance (name other : String) : Decidable (Apart name other) :=
  inferInstanceAs (Decidable (_ ∧ _))

/-- Names that are not apart run into some contents as the same octets. -/
theorem exists_append_eq_iff (name other : String) :
    (∃ contents revealed, Bytes.ofText name ++ contents = Bytes.ofText other ++ revealed) ↔
      ¬ Apart name other := by
  rw [Apart, not_and_or, not_not, not_not]
  constructor
  · rintro ⟨contents, revealed, h⟩
    rcases List.append_eq_append_iff.mp h with ⟨rest, hother, -⟩ | ⟨rest, hname, -⟩
    · exact .inl ⟨rest, hother.symm⟩
    · exact .inr ⟨rest, hname.symm⟩
  · rintro (⟨rest, hother⟩ | ⟨rest, hname⟩)
    · exact ⟨rest, [], by rw [hother, List.append_nil]⟩
    · exact ⟨[], rest, by rw [hname, List.append_nil]⟩

/-- The name of a record is bound against another name: what is accepted under the other name with
nonce and tag of the record shows two different octet strings of one digest. -/
def IsBound (name other : String) : Prop :=
  ∀ (key : Bytes) (nonce : Nonce) (contents hidden revealed : Bytes),
    reveal key other (forge key nonce name contents hidden) = .ok revealed →
      tagged key nonce.octets name contents ≠ tagged key nonce.octets other revealed ∧
        Sha256.digest (tagged key nonce.octets name contents) =
          Sha256.digest (tagged key nonce.octets other revealed)

theorem Apart.tagged_ne {name other : String} (h : Apart name other)
    (key nonce contents revealed : Bytes) :
    tagged key nonce name contents ≠ tagged key nonce other revealed := by
  intro htagged
  exact (exists_append_eq_iff name other).mp ⟨contents, revealed, tagged_eq_iff.mp htagged⟩ h

theorem Apart.isBound {name other : String} (h : Apart name other) : IsBound name other := by
  intro key nonce contents hidden revealed haccepted
  exact ⟨h.tagged_ne _ _ _ _, (reveal_forge_eq_ok.mp haccepted).2⟩

/-- **What a tag binds**: two names are kept from each other, in the octets that are tagged and in
the records that are accepted, exactly if neither begins the other. -/
theorem apart_iff (name other : String) :
    (Apart name other ↔ ∀ (key : Bytes) (nonce : Nonce) (contents revealed : Bytes),
      tagged key nonce.octets name contents ≠ tagged key nonce.octets other revealed) ∧
    (Apart name other ↔ IsBound name other) := by
  let nonce : Nonce := ⟨List.replicate 16 0, rfl⟩
  refine ⟨⟨fun h key nonce => h.tagged_ne key nonce.octets, fun h => ?_⟩, Apart.isBound,
    fun h => ?_⟩
  · by_contra hnot
    obtain ⟨contents, revealed, hrun⟩ := (exists_append_eq_iff name other).mpr hnot
    exact h [] nonce contents revealed (tagged_eq_iff.mpr hrun)
  · by_contra hnot
    obtain ⟨contents, revealed, hrun⟩ := (exists_append_eq_iff name other).mpr hnot
    exact (h [] nonce contents _ revealed (reveal_forge_of_append hrun)).1 (tagged_eq_iff.mpr hrun)

/-- The record `bc` of the name `a` passes for the record `c` of the name `ab`, under every key. -/
theorem not_isBound_of_prefix_name :
    "a" ≠ "ab" ∧ ¬ IsBound "a" "ab" ∧ ∀ (key : Bytes) (nonce : Nonce),
      reveal key "ab" (forge key nonce "a" (Bytes.ofText "bc")
        (mask key nonce.octets (Bytes.ofText "c"))) = .ok (Bytes.ofText "c") :=
  ⟨by decide, fun h => absurd ((apart_iff "a" "ab").2.mpr h) (by decide),
    fun _ _ => reveal_forge_of_append (by decide)⟩

/-- The records of the custodian cannot be passed for one another. -/
theorem isBound_of_mem_recordNames {name other : String} (hname : name ∈ recordNames)
    (hother : other ∈ recordNames) (hne : name ≠ other) : IsBound name other := by
  have hapart : ∀ name ∈ recordNames, ∀ other ∈ recordNames, name ≠ other →
      Apart name other := by decide
  exact (hapart name hname other hother hne).isBound

end KeyCustody.Seal
