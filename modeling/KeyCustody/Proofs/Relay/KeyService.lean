import KeyCustody.Anchor
import KeyCustody.Proofs.Bytes.Hex
import KeyCustody.Relay.KeyService

/-!
# What the key service answers

`KeyOffice.Handling` lists what the service can do with a request. Only the key of the request is
touched; a key that was destroyed does not come back (`KeyOffice.Handling.of_revoked`).

A key service whose keys all have a size that custodians accept (`KeyOffice.Stocked`) gives each
request an answer that they accept (`Reply.Answers`), and its keys stay so whatever it is asked
(`KeyOffice.Stocked.handle`).
-/

namespace KeyCustody

/-- Whether a reply is an admissible answer to a request: it names the number of the request, and
its payload writes the material, which is not empty where a key is sent. -/
structure Reply.Answers (reply : Reply) (request : Request) (material : Bytes) : Prop where
  sequence_eq : reply.sequence = request.sequence
  payload_eq : reply.payload = Hex.encode material
  length_le : material.length ≤ Anchor.maxKeySize
  length_pos : request.kind.yieldsKey = true → reply.result = .success → 0 < material.length

namespace KeyOffice

/-! ### What happens to the keys -/

/-- What the service can do with a request: it sends the key that it holds, refuses, mints the key,
or gives it up, for good if it is to be destroyed. -/
inductive Handling (o : KeyOffice) (request : Request) (o' : KeyOffice) : Reply → Prop
  | found {material : Bytes} (hkind : request.kind.yieldsKey = true)
      (hkey : o.key? request.key = some material) (hkeys : o'.keys = o.keys)
      (hrevoked : o'.revoked = o.revoked) :
    Handling o request o' (.success request.sequence material)
  | refused {reply : Reply} (hkind : request.kind.yieldsKey = true)
      (hsequence : reply.sequence = request.sequence) (hresult : reply.result ≠ .success)
      (hkeys : o'.keys = o.keys) (hrevoked : o'.revoked = o.revoked) : Handling o request o' reply
  | minted {material : Bytes} (hkind : request.kind = .generate)
      (hfree : o.isRevoked request.key = false) (hnone : o.key? request.key = none)
      (hkeys : o'.keys = o.keys.insert request.key material)
      (hrevoked : o'.revoked = o.revoked) :
    Handling o request o' (.success request.sequence material)
  | ended (hkind : request.kind.yieldsKey = false) (hkeys : o'.keys = o.keys.erase request.key)
      (hrevoked : o'.revoked =
        if request.kind = .destroy then o.revoked.insert request.key () else o.revoked) :
    Handling o request o' (.success request.sequence [])

/-- The list is complete. -/
theorem handling (o : KeyOffice) (request : Request) :
    o.Handling request (o.handle request).2 (o.handle request).1 := by
  rw [handle]
  cases hkind : request.kind with
  | search =>
    have hyields : request.kind.yieldsKey = true := by rw [hkind]; rfl
    dsimp only
    split
    · rename_i material hmaterial
      exact .found hyields hmaterial rfl rfl
    · exact .refused hyields rfl nofun rfl rfl
  | generate =>
    have hyields : request.kind.yieldsKey = true := by rw [hkind]; rfl
    dsimp only [generate]
    split_ifs with hrevoked
    · exact .refused hyields rfl nofun rfl rfl
    split
    · rename_i material hmaterial
      exact .found hyields hmaterial rfl rfl
    · rename_i hnone
      exact .minted hkind (Bool.not_eq_true _ ▸ hrevoked) hnone rfl rfl
  | delete => exact .ended (by rw [hkind]; rfl) rfl (by rw [hkind]; rfl)
  | destroy => exact .ended (by rw [hkind]; rfl) rfl (by rw [hkind]; rfl)

namespace Handling

variable {o o' : KeyOffice} {request : Request} {reply : Reply} {key : KeyRef}

/-- The reply names the number of the request. -/
theorem sequence_eq (h : o.Handling request o' reply) : reply.sequence = request.sequence := by
  cases h with
  | found | minted | ended => rfl
  | refused _ hsequence => exact hsequence

/-- Other keys stay as they are. -/
theorem key?_eq_of_ne (h : o.Handling request o' reply) (hkey : key ≠ request.key) :
    o'.key? key = o.key? key := by
  cases h with
  | found _ _ hkeys | refused _ _ _ hkeys => rw [key?, hkeys, key?]
  | minted _ _ _ hkeys => rw [key?, hkeys, Table.get?_insert, if_neg hkey, key?]
  | ended _ hkeys => rw [key?, hkeys, Table.get?_erase, if_neg hkey, key?]

/-- A key that is there stays as it is, unless the request ends it. -/
theorem key?_eq_of_yieldsKey (h : o.Handling request o' reply)
    (hkind : request.kind.yieldsKey = true) {material : Bytes}
    (hkey : o.key? key = some material) : o'.key? key = some material := by
  cases h with
  | found _ _ hkeys | refused _ _ _ hkeys => rwa [key?, hkeys, ← key?]
  | minted _ _ hnone hkeys =>
    have hne : key ≠ request.key := fun heq => by
      rw [heq, hnone] at hkey
      cases hkey
    rwa [key?, hkeys, Table.get?_insert, if_neg hne, ← key?]
  | ended hends => exact absurd (hkind.symm.trans hends) nofun

/-- A key that is sent is the one that the service then holds. -/
theorem payload_eq (h : o.Handling request o' reply) (hkind : request.kind.yieldsKey = true)
    (hresult : reply.result = .success) :
    ∃ material, reply.payload = Hex.encode material ∧ o'.key? request.key = some material := by
  cases h with
  | @found material _ hkey hkeys => exact ⟨material, rfl, by rwa [key?, hkeys, ← key?]⟩
  | refused _ _ hno => exact absurd hresult hno
  | @minted material _ _ _ hkeys =>
    exact ⟨material, rfl, by rw [key?, hkeys, Table.get?_insert, if_pos rfl]⟩
  | ended hends => exact absurd (hkind.symm.trans hends) nofun

/-- A key that is destroyed is gone for good. -/
theorem of_destroy (h : o.Handling request o' reply) (hkind : request.kind = .destroy) :
    o'.key? request.key = none ∧ o'.isRevoked request.key = true := by
  have hends : request.kind.yieldsKey ≠ true := by rw [hkind]; nofun
  cases h with
  | found hyields | refused hyields => exact absurd hyields hends
  | minted hgenerate => exact absurd (hkind.symm.trans hgenerate) nofun
  | ended _ hkeys hrevoked =>
    rw [key?, hkeys, Table.get?_erase, if_pos rfl, isRevoked, hrevoked, if_pos hkind,
      Table.contains, Table.get?_insert, if_pos rfl]
    exact ⟨rfl, rfl⟩

/-- **A key that was destroyed does not come back**: no request has it minted or sent. -/
theorem of_revoked (h : o.Handling request o' reply) (hnone : o.key? key = none)
    (hgone : o.isRevoked key = true) :
    o'.key? key = none ∧ o'.isRevoked key = true ∧
      (request.key = key → request.kind.yieldsKey = true → reply.result ≠ .success) := by
  rw [isRevoked] at hgone
  cases h with
  | found _ hkey hkeys hrevoked =>
    refine ⟨by rwa [key?, hkeys, ← key?], by rwa [isRevoked, hrevoked], fun heq => ?_⟩
    rw [heq, hnone] at hkey
    cases hkey
  | refused _ _ hresult hkeys hrevoked =>
    exact ⟨by rwa [key?, hkeys, ← key?], by rwa [isRevoked, hrevoked], fun _ _ => hresult⟩
  | minted _ hfree _ hkeys hrevoked =>
    -- a request to generate this very key would have been refused
    have hne : key ≠ request.key := fun heq => by
      rw [isRevoked, ← heq, hgone] at hfree
      cases hfree
    rw [key?, hkeys, Table.get?_insert, if_neg hne, ← key?, isRevoked, hrevoked]
    exact ⟨hnone, hgone, fun heq => absurd heq.symm hne⟩
  | ended hends hkeys hrevoked =>
    refine ⟨?_, ?_, fun _ hyields => absurd (hyields.symm.trans hends) nofun⟩
    · rw [key?, hkeys, Table.get?_erase]
      split_ifs
      · rfl
      · exact hnone
    · rw [isRevoked, hrevoked]
      split_ifs
      · rw [Table.contains, Table.get?_insert]
        split_ifs
        · rfl
        · exact hgone
      · exact hgone

end Handling

/-! ### Admissible answers -/

/-- A key service that holds and mints keys of admissible sizes only. -/
structure Stocked (o : KeyOffice) : Prop where
  keys : ∀ {key material}, o.key? key = some material →
    0 < material.length ∧ material.length ≤ Anchor.maxKeySize
  mint : ∀ n, 0 < (o.mint n).length ∧ (o.mint n).length ≤ Anchor.maxKeySize

variable {o : KeyOffice}

namespace Stocked

theorem empty {mint : Nat → Bytes}
    (h : ∀ n, 0 < (mint n).length ∧ (mint n).length ≤ Anchor.maxKeySize) :
    (KeyOffice.empty mint).Stocked where
  keys {key material} hfound := by
    rw [key?, KeyOffice.empty, Table.get?_empty] at hfound
    cases hfound
  mint := h

theorem insert (h : o.Stocked) (key : KeyRef) {material : Bytes}
    (hmaterial : 0 < material.length ∧ material.length ≤ Anchor.maxKeySize) :
    ({ o with keys := o.keys.insert key material }).Stocked where
  keys {other found} hfound := by
    rw [key?, Table.get?_insert] at hfound
    split_ifs at hfound
    · exact Option.some.inj hfound ▸ hmaterial
    · exact h.keys hfound
  mint := h.mint

theorem erase (h : o.Stocked) (key : KeyRef) :
    ({ o with keys := o.keys.erase key }).Stocked where
  keys {other found} hfound := by
    rw [key?, Table.get?_erase] at hfound
    split_ifs at hfound
    exact h.keys hfound
  mint := h.mint

private theorem generate (h : o.Stocked) (request : Request) :
    ∃ reply material o', o.generate request = (reply, o') ∧ o'.Stocked ∧
      reply.Answers request material := by
  rw [KeyOffice.generate]
  split_ifs
  · exact ⟨.failure _, [], _, rfl, h, rfl, rfl, Nat.zero_le _, nofun⟩
  split
  · rename_i material hmaterial
    obtain ⟨hpos, hle⟩ := h.keys hmaterial
    exact ⟨.success _ material, material, _, rfl, h, rfl, rfl, hle, fun _ _ => hpos⟩
  · obtain ⟨hpos, hle⟩ := h.mint o.minted
    have hinserted := h.insert request.key (h.mint o.minted)
    exact ⟨.success _ (o.mint o.minted), _, _, rfl, ⟨hinserted.keys, h.mint⟩, rfl, rfl, hle,
      fun _ _ => hpos⟩

/-- **The service gives admissible answers** and stays able to do so. -/
theorem handle (h : o.Stocked) (request : Request) :
    ∃ reply material o', KeyService.handle o request = (reply, o') ∧ o'.Stocked ∧
      reply.Answers request material := by
  have hcounted : ({ o with handled := o.handled + 1 }).Stocked := ⟨h.keys, h.mint⟩
  have hhandle : KeyService.handle o request = o.handle request := rfl
  rw [hhandle, KeyOffice.handle]
  generalize { o with handled := o.handled + 1 } = o at hcounted
  cases hkind : request.kind with
  | search =>
    dsimp only
    split
    · rename_i material hmaterial
      obtain ⟨hpos, hle⟩ := hcounted.keys hmaterial
      exact ⟨.success _ material, material, _, rfl, hcounted, rfl, rfl, hle, fun _ _ => hpos⟩
    · exact ⟨.notFound _, [], _, rfl, hcounted, rfl, rfl, Nat.zero_le _, nofun⟩
  | generate => exact hcounted.generate request
  | delete =>
    have hno : request.kind.yieldsKey ≠ true := by rw [hkind]; nofun
    exact ⟨.success _ [], [], _, rfl, hcounted.erase request.key, rfl, rfl, Nat.zero_le _,
      fun hyields => absurd hyields hno⟩
  | destroy =>
    have hno : request.kind.yieldsKey ≠ true := by rw [hkind]; nofun
    have herased := hcounted.erase request.key
    exact ⟨.success _ [], [], _, rfl, ⟨herased.keys, herased.mint⟩, rfl, rfl, Nat.zero_le _,
      fun hyields => absurd hyields hno⟩

end Stocked

end KeyOffice

end KeyCustody
