import KeyCustody.Proofs.Agent.Delivery
import KeyCustody.Proofs.Agent.Invariant
import KeyCustody.Proofs.Custody.Request

/-!
# Lookups ask once

As long as no deletion, destruction or end of the application takes effect on a key
(`Occasion.Strikes`), a run has at most one request for the key in the outbox, and it has one
exactly while the entry of the key waits. A lookup that finds the entry waiting or ready is answered
from the entry (`Agent.AnswersAtOnce`): it tells the number of this request, or gives the material.
All of this is `Agent.asked_once`.

That one request is enough for one key is what transitions keep (`Custody.Transition.awaits`), and
runs keep it with them (`Agent.Chronicle.keeps`). The answers need what is true of an entry in any
sound state: its id is valid, and it has material once it is ready.
-/

namespace KeyCustody

instance (key : KeyRef) : DecidablePred (Call.Strikes key)
  | .delete other => decidable_of_iff (key = other)
      ⟨fun h => h ▸ .delete, fun h => by cases h; rfl⟩
  | .destroy other => decidable_of_iff (key = other)
      ⟨fun h => h ▸ .destroy, fun h => by cases h; rfl⟩
  | .exit ta => decidable_of_iff (key.owner = ta)
      ⟨fun h => h ▸ .exit, fun h => by cases h; rfl⟩
  | .provision .. | .register _ | .attest .. | .revoke _ | .search _ | .generate .. | .poll .. |
    .submit _ | .close => .isFalse nofun

namespace Occasion

variable {σ : Type}

/-- Whether a key is deleted or destroyed, or its application ends, with success. -/
inductive Strikes (key : KeyRef) : Occasion σ → Prop
  | intro {a : Agent σ} {call : Call} {answer : Answer} (hcall : call.Strikes key) :
    Strikes key ⟨a, .call call (.ok answer)⟩

instance (key : KeyRef) : DecidablePred (Strikes key (σ := σ))
  | ⟨_, .call call (.ok _)⟩ => decidable_of_iff (call.Strikes key)
      ⟨.intro, fun h => by cases h; assumption⟩
  | ⟨_, .call _ (.error _)⟩ | ⟨_, .obstruct⟩ | ⟨_, .restart _⟩ => .isFalse nofun

end Occasion

namespace Custody

variable {s : Custody} {key : KeyRef} {e : Entry}

theorem cached?_of_pending (he : s.keyring.get? key = some e) (hstatus : e.status = .pending) :
    s.cached? key = some (.pending e.lastSequence) := by
  simp only [cached?, he, hstatus]

/-- An entry that is ready has material. -/
theorem cached?_of_ready (hs : s.Sound) (he : s.keyring.get? key = some e)
    (hstatus : e.status = .ready) :
    ∃ m, e.material = some m ∧ s.cached? key = some (.ready m) := by
  obtain ⟨m, hm⟩ := Option.isSome_iff_exists.mp ((hs.keyring.get he).isSome_material.mpr hstatus)
  exact ⟨m, hm, by simp only [cached?, he, hstatus, hm, Option.getD_some]⟩

/-- Calls that do not strike a key keep that its entry waits for each command for it. -/
theorem kept_awaits (key : KeyRef) : Kept (fun _ call => ¬ call.Strikes key) (Awaits key) where
  empty := .of_unreferenced nofun
  transition hs _ ht hcall h := ht.awaits hs hcall h

end Custody

namespace Agent

variable {σ : Type} [Store σ] {past : List (Occasion σ)} {a : Agent σ} {key : KeyRef}
  {outcome : Lookup}

/-- Whether every lookup of a key within the bounds is answered from the entry and leaves the agent
as it is. The store may be any, one that refuses every commit among them: nothing is committed. -/
structure AnswersAtOnce (a : Agent σ) (key : KeyRef) (outcome : Lookup) : Prop where
  search (store : σ) :
    ({ a with store := store }).search key = (.ok outcome, { a with store := store })
  generate (store : σ) (attributes : Bytes) (hattributes : attributes.length ≤ Anchor.maxKeySize) :
    ({ a with store := store }).generate key attributes = (.ok outcome, { a with store := store })

/-- What is found is the answer to the verified owner. -/
theorem AnswersAtOnce.of_cached? (hinit : a.isInitialized = true)
    (hverified : a.custody.gate.isVerified key.owner = true)
    (hid : KeyRef.isValidId key.id = true) (h : a.custody.cached? key = some outcome) :
    a.AnswersAtOnce key outcome := by
  have hauthorize (store : σ) : ({ a with store := store }).authorize key = .ok () := by
    have hinit' : ({ a with store := store }).isInitialized = true := hinit
    simp only [authorize, requireInitialized, requireVerified, hinit', hverified, hid, if_true]
    rfl
  constructor
  · intro store
    simp only [Agent.search, hauthorize, h]
  · intro store attributes hattributes
    simp only [Agent.generate, hauthorize, h, if_neg (Nat.not_lt.mpr hattributes)]

variable [ReliableStore σ]

/-- **A key is asked for once.** As long as nothing strikes a key, there is at most one request for
it in the outbox at every point of a run, and there is one exactly while its entry waits. While the
entry waits or is ready, every lookup for its verified owner is answered at once, with the number of
the request or with the material. -/
theorem asked_once (h : Chronicle past a) (key : KeyRef)
    (hpast : ∀ o ∈ past, ¬ o.Strikes key) :
    (a.custody.requests key).length ≤ 1 ∧
    (a.custody.requests key ≠ [] ↔
      ∃ e, a.custody.keyring.get? key = some e ∧ e.status = .pending) ∧
    ∀ e, a.custody.gate.isVerified key.owner = true → a.custody.keyring.get? key = some e →
      (e.status = .pending →
        ∃ c, a.custody.requests key = [c] ∧ a.AnswersAtOnce key (.pending c.sequence)) ∧
      (e.status = .ready → ∃ m, e.material = some m ∧ a.AnswersAtOnce key (.ready m)) := by
  have hsound : a.custody.Sound := h.grounded.custody
  have hawaits : Custody.Awaits key a.custody.keyring a.custody.outbox.commands := by
    refine (h.keeps (Custody.kept_awaits key) fun o ho call answer hevent hcall => ?_).1
    obtain ⟨before, event⟩ := o
    obtain rfl : event = .call call (.ok answer) := hevent
    exact hpast _ ho (.intro hcall)
  refine ⟨Custody.length_requests_le_one hsound hawaits,
    Custody.requests_ne_nil_iff hsound hawaits, fun e hverified he => ?_⟩
  have hinit : a.isInitialized = true := by
    by_contra hnot
    rw [(h.empty_of_not_initialized (by simpa using hnot)).1] at he
    cases he
  have hid : KeyRef.isValidId key.id = true :=
    hsound.keyring.key_eq he ▸ (hsound.keyring.get he).isValidId
  constructor
  · intro hstatus
    obtain ⟨c, hrequests, hsequence⟩ := Custody.exists_requests_eq hsound hawaits he hstatus
    have hcached := Custody.cached?_of_pending he hstatus
    exact ⟨c, hrequests, hsequence ▸ .of_cached? hinit hverified hid hcached⟩
  · intro hstatus
    obtain ⟨m, hm, hcached⟩ := Custody.cached?_of_ready hsound he hstatus
    exact ⟨m, hm, .of_cached? hinit hverified hid hcached⟩

/-- The calls after the new start of the run with trouble: another key finds no room, and the reply
to the generation arrives. -/
def lateReply : List Call :=
  [.attest sampleKey.owner sampleMeasurement, .search otherKey, .poll 1 fun _ => .ok (),
    .submit (.success 2 [7])]

/-- In the run with trouble the search has been followed by the generation, the deletion was not
committed, and after the new start the outbox is full. The owner, once it is verified again, is told
the number of the generation, and after the reply to it gets the material. -/
theorem asked_once_trouble :
    (∃ past a, Chronicle past a ∧ a = cramped.serveAll (lateReply.take 2) ∧
      (∀ o ∈ past, ¬ o.Strikes sampleKey) ∧ (a.custody.requests sampleKey).length ≤ 1 ∧
        ∃ c, a.custody.requests sampleKey = [c] ∧ c.sequence = 2 ∧ c.kind = .generate ∧
          a.AnswersAtOnce sampleKey (.pending c.sequence)) ∧
    ∃ past a, Chronicle past a ∧ a = cramped.serveAll lateReply ∧
      (∀ o ∈ past, ¬ o.Strikes sampleKey) ∧ a.custody.requests sampleKey = [] ∧
        a.AnswersAtOnce sampleKey (.ready [7]) := by
  have hsettings : cramped.settings.check = .ok () := rfl
  have hblocked := (run_opened.serveAll vainSearch (by decide +kernel)).step .obstruct
  have hdeletion := hblocked.serveAll [.delete sampleKey] (by decide +kernel)
  have hcramped := hdeletion.restart hsettings
  have hwaiting := (hcramped.serveAll (lateReply.take 2) (by decide +kernel)).chronicle
  have hreplied := (hcramped.serveAll lateReply (by decide +kernel)).chronicle
  constructor
  · refine ⟨_, _, hwaiting, rfl, by decide +kernel, ?_⟩
    obtain ⟨hone, -, hlookup⟩ := asked_once hwaiting sampleKey (by decide +kernel)
    obtain ⟨c, hrequests, hanswers⟩ := (hlookup _ (by decide +kernel) rfl).1 (by decide +kernel)
    obtain rfl := List.head_eq_of_cons_eq hrequests
    exact ⟨hone, _, hrequests, by decide +kernel, by decide +kernel, hanswers⟩
  · refine ⟨_, _, hreplied, rfl, by decide +kernel, by decide +kernel, ?_⟩
    obtain ⟨-, -, hlookup⟩ := asked_once hreplied sampleKey (by decide +kernel)
    obtain ⟨m, hm, hanswers⟩ := (hlookup _ (by decide +kernel) rfl).2 (by decide +kernel)
    obtain rfl := Option.some.inj hm
    exact hanswers

end Agent

end KeyCustody
