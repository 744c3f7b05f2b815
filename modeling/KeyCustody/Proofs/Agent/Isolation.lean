import KeyCustody.Proofs.Agent.Chronicle
import KeyCustody.Proofs.Agent.Numbering
import KeyCustody.Proofs.Custody.Isolation

/-!
# Keys do not get in each other's way

A call about one key changes neither the entries of other keys nor the commands for them and their
order, whatever their identifiers look like, and the end of an application changes nothing that
belongs to another one. A poll changes the entry of a key only by giving up a command for it
(`Agent.keys_isolated`).
-/

namespace KeyCustody

/-- Whether a call changes the state of custody by a transition, if it does at all. -/
def Call.isTransition : Call → Bool
  | .provision .. | .attest .. | .revoke _ | .close => false
  | _ => true

namespace Agent

open Custody

section Effects

variable {σ : Type} [Store σ] {a b : Agent σ} {call : Call} {result : Except Fault Answer}

/-- Such a call leaves the state as it is or commits a transition. -/
theorem Effect.same_or_transition (h : a.Effect call result b) (hcall : call.isTransition = true) :
    b.custody = a.custody ∨
      ∃ answer, a.custody.Transition a.settings.replyTimeout call answer b.custody := by
  cases h with
  | refused | found | unsaved => exact .inl rfl
  | saved _ ht => exact .inr ⟨_, ht⟩
  | provisioned | unprovisioned | attested | revoked | unerased | closed | unclosed => cases hcall

/-- A call about one key leaves the others alone, whether it succeeds or fails. -/
theorem Effect.sameFor {p : KeyRef → Prop} [DecidablePred p] {key : KeyRef}
    (h : a.Effect call result b) (hcall : call.Concerns a.custody key) (hkey : ¬ p key) :
    a.custody.SameFor p b.custody := by
  obtain heq | ⟨answer, ht⟩ := h.same_or_transition (by cases hcall <;> rfl)
  · rw [heq]
    exact .refl _
  · exact ht.sameFor hcall hkey

/-- The end of an application leaves the keys and verdicts of the others alone. -/
theorem Effect.sameFor_exit {ta : Uuid} (h : a.Effect (.exit ta) result b) :
    a.custody.SameFor (·.owner ≠ ta) b.custody ∧
      ∀ other, other ≠ ta → b.custody.gate.verdict? other = a.custody.gate.verdict? other := by
  obtain heq | ⟨answer, ht⟩ := h.same_or_transition rfl
  · rw [heq]
    exact ⟨.refl _, fun _ _ => rfl⟩
  · refine ⟨?_, fun other hother => ?_⟩
    · cases ht with
      | exit _ h => exact .exit h
    · rw [ht.gate_eq, gateAfter, Gate.verdict?_revoke, if_neg hother]

/-- A poll that changes the entry of a key gives up a command for it. -/
theorem Effect.exists_expired {count : Nat} {accept : Bytes → Except Fault Unit} {key : KeyRef}
    (h : a.Effect (.poll count accept) result b) (ha : a.custody.Sound)
    (hchange : b.custody.keyring.get? key ≠ a.custody.keyring.get? key) :
    ∃ c ∈ a.custody.outbox.commands, c.key = key ∧
      Outbox.expires a.settings.replyTimeout c = true ∧
        ∀ d ∈ b.custody.outbox.commands, d.sequence ≠ c.sequence := by
  obtain heq | ⟨answer, ht⟩ := h.same_or_transition rfl
  · exact absurd (by rw [heq]) hchange
  · cases ht with
    | poll h _ => exact exists_expired_of_poll ha.outbox h hchange

end Effects

variable {σ : Type} [Store σ] [ReliableStore σ] {past : List (Occasion σ)} {a : Agent σ}

/-- **Keys are independent**: a call about one key leaves all others as they are, with the commands
for them, the end of an application leaves those of the others and their verdicts, and a poll
changes the entry of a key only if a command for it expires. -/
theorem keys_isolated (h : Chronicle past a) :
    (∀ (key : KeyRef) (call : Call), call.Concerns a.custody key →
      a.custody.SameFor (· ≠ key) (a.serve call).2.custody) ∧
    (∀ ta : Uuid, a.custody.SameFor (·.owner ≠ ta) (a.serve (.exit ta)).2.custody ∧
      ∀ other, other ≠ ta → (a.serve (.exit ta)).2.custody.gate.verdict? other =
        a.custody.gate.verdict? other) ∧
    ∀ (count : Nat) (accept : Bytes → Except Fault Unit) (key : KeyRef),
      (a.serve (.poll count accept)).2.custody.keyring.get? key ≠ a.custody.keyring.get? key →
        ∃ c ∈ a.custody.outbox.commands, c.key = key ∧
          Outbox.expires a.settings.replyTimeout c = true ∧
            ∀ d ∈ (a.serve (.poll count accept)).2.custody.outbox.commands,
              d.sequence ≠ c.sequence := by
  refine ⟨fun key call hcall => ?_, fun ta => ?_, fun count accept key hchange => ?_⟩
  · exact (effect_serve a call).sameFor hcall fun hne => hne rfl
  · exact (effect_serve a (.exit ta)).sameFor_exit
  · exact (effect_serve a (.poll count accept)).exists_expired h.grounded.custody hchange

/-- A key whose identifier holds a stroke. -/
def strokedKey : KeyRef := ⟨sampleKey.owner, "k/l"⟩

/-- A key of another application whose identifier is the text under which that key is filed. -/
def disguisedKey : KeyRef := ⟨⟨List.replicate 16 9, rfl⟩, strokedKey.slot⟩

/-- The calls after which a search for each of the two keys has been handed out. -/
def twoOwners : List Call :=
  introduction strokedKey ++ [.attest disguisedKey.owner sampleMeasurement, .search disguisedKey,
    .poll 2 fun _ => .ok ()]

/-- The agent that started anew after these calls, gives commands up after one poll, and has made
one. -/
def hurried : Agent MemoryStore :=
  ((opened.serveAll twoOwners).restarted { Settings.standard with replyTimeout := some 1 }).serveAll
    [.attest strokedKey.owner sampleMeasurement, .attest disguisedKey.owner sampleMeasurement,
      .poll 1 fun _ => .ok ()]

/-- There the end of the one application and the reply to its search leave the key of the other
alone, and the next poll gives its command up. -/
theorem keys_isolated_disguised :
    (hurried.serve (.exit strokedKey.owner)).1 = .ok (.count 1) ∧
    hurried.custody.SameFor (·.owner ≠ strokedKey.owner)
      (hurried.serve (.exit strokedKey.owner)).2.custody ∧
    (hurried.serve (.exit strokedKey.owner)).2.custody.gate.verdict? disguisedKey.owner =
      hurried.custody.gate.verdict? disguisedKey.owner ∧
    (hurried.serve (.submit (.failure 1))).2.custody.keyring.get? strokedKey ≠
      hurried.custody.keyring.get? strokedKey ∧
    hurried.custody.SameFor (· ≠ strokedKey) (hurried.serve (.submit (.failure 1))).2.custody ∧
    ∃ c ∈ hurried.custody.outbox.commands, c.key = disguisedKey ∧
      Outbox.expires hurried.settings.replyTimeout c = true := by
  have hslow := run_opened.serveAll twoOwners (by decide +kernel)
  have hrun : Run _ hurried := (hslow.restart rfl).serveAll _ (by decide +kernel)
  obtain ⟨hcalls, hexit, hpoll⟩ := keys_isolated hrun.chronicle
  obtain ⟨c, hc, hckey, hexpires, -⟩ := hpoll 1 (fun _ => .ok ()) disguisedKey (by decide +kernel)
  have hfound : hurried.custody.outbox.get? 1 =
      some ⟨1, .search, strokedKey, [], .awaitingReply, 1⟩ := by decide +kernel
  obtain ⟨hkeys, hverdicts⟩ := hexit strokedKey.owner
  exact ⟨by decide +kernel, hkeys, hverdicts disguisedKey.owner (by decide), by decide +kernel,
    hcalls strokedKey (.submit (.failure 1)) (.submit hfound rfl), c, hc, hckey, hexpires⟩

end Agent

end KeyCustody
