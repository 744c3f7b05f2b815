import KeyCustody.Proofs.Agent.Transition

/-!
# What a call can do

`Agent.Effect` lists everything that a call can do to an agent: it is refused, finds its answer
without a change, commits a transition, fails to commit one, or is one of the four calls that go
their own way. `Agent.effect_serve` says that the list is complete, over any store.

No call takes sequence numbers back (`Agent.Effect.nextSequence_le`), and as long as they last none
comes to their end (`Agent.Effect.nextSequence_lt`). A lookup returns material only if it finds the
key ready (`Agent.Effect.ready_of_lookup`).
-/

namespace KeyCustody

/-- Whether a call looks a key up. -/
inductive Call.LooksUp (key : KeyRef) : Call → Prop
  | search : LooksUp key (.search key)
  | generate (attributes : Bytes) : LooksUp key (.generate key attributes)

/-- A call looks up one key. -/
theorem Call.LooksUp.unique {call : Call} {key other : KeyRef} (h : call.LooksUp key)
    (h' : call.LooksUp other) : key = other := by
  cases h <;> cases h' <;> rfl

namespace Agent

variable {σ : Type} {a : Agent σ}

/-! ### Conditions that are met -/

theorem requireInitialized_eq_ok (h : a.requireInitialized = .ok ()) : a.isInitialized = true := by
  rw [requireInitialized] at h
  split_ifs at h with hinit
  exact hinit

theorem requireVerified_eq_ok {ta : Uuid} (h : a.requireVerified ta = .ok ()) :
    a.custody.gate.isVerified ta = true := by
  rw [requireVerified] at h
  split_ifs at h with hverified
  exact hverified

theorem authorize_eq_ok {key : KeyRef} (h : a.authorize key = .ok ()) :
    a.isInitialized = true ∧ a.custody.gate.isVerified key.owner = true ∧
      KeyRef.isValidId key.id = true := by
  obtain ⟨_, hinit, h⟩ := bind_eq_ok h
  obtain ⟨_, hverified, h⟩ := bind_eq_ok h
  split_ifs at h with hid
  exact ⟨requireInitialized_eq_ok hinit, requireVerified_eq_ok hverified, hid⟩

/-! ### The list of effects -/

/-- The state with which custody begins and ends: nothing is held, and numbers go on. -/
def blank (a : Agent σ) : Custody := Custody.freshAfter a.settings.maxQueueDepth a.custody

variable [Store σ]

/-- A transition takes effect exactly if it succeeds and its outcome can be committed. -/
theorem transact_eq_ok_iff {α : Type} {b : Agent σ} {answer : α}
    {transition : Custody → Except Fault (α × Custody)} :
    a.transact transition = (.ok answer, b) ↔
      ∃ t store, transition a.custody = .ok (answer, t) ∧
        Store.commit a.store [(Custody.record, t.encode)] = (.ok (), store) ∧
          b = { a with store := store, custody := t } := by
  constructor
  · intro h
    rw [transact] at h
    rcases ht : transition a.custody with fault | ⟨other, t⟩
    · rw [ht] at h
      cases h
    obtain ⟨result, store, hcommit⟩ :
        ∃ result store, Store.commit a.store [(Custody.record, t.encode)] = (result, store) :=
      ⟨_, _, rfl⟩
    simp only [ht, hcommit] at h
    rcases result with fault | ⟨⟩
    · cases h
    · obtain ⟨hanswer, rfl⟩ := Prod.mk.inj h
      obtain rfl := Except.ok.inj hanswer
      exact ⟨t, store, rfl, hcommit, rfl⟩
  · rintro ⟨t, store, ht, hcommit, rfl⟩
    rw [transact, ht]
    dsimp only
    rw [hcommit]

/-- What a call can do to an agent. -/
inductive Effect (a : Agent σ) : Call → Except Fault Answer → Agent σ → Prop
  | refused {call : Call} (fault : Fault) (hcall : call ≠ .close) :
    Effect a call (.error fault) a
  | found {call : Call} {key : KeyRef} {outcome : Lookup} (hinit : a.isInitialized = true)
      (hverified : a.custody.gate.isVerified key.owner = true) (hcall : call.LooksUp key)
      (hfound : a.custody.cached? key = some outcome) :
    Effect a call (.ok (.lookup outcome)) a
  | saved {call : Call} {answer : Answer} {t : Custody} {store : σ}
      (hinit : a.isInitialized = true)
      (ht : Custody.Transition a.settings.replyTimeout a.custody call answer t)
      (hcommit : Store.commit a.store [(Custody.record, t.encode)] = (.ok (), store)) :
    Effect a call (.ok answer) { a with store := store, custody := t }
  | unsaved {call : Call} {answer : Answer} {t : Custody} {fault : StoreFault} {store : σ}
      (hinit : a.isInitialized = true)
      (ht : Custody.Transition a.settings.replyTimeout a.custody call answer t)
      (hcommit : Store.commit a.store [(Custody.record, t.encode)] = (.error fault, store)) :
    Effect a call (.error (.storage fault)) { a with store := store }
  | provisioned {serviceKey certificate privateKey : Bytes} {anchor : Anchor} {store : σ}
      (hinit : a.isInitialized = false)
      (hmake : Anchor.make serviceKey certificate privateKey = .ok anchor)
      (hcommit : Store.commit a.store
        (anchor.records ++ [(Custody.record, a.blank.encode)]) = (.ok (), store)) :
    Effect a (.provision serviceKey certificate privateKey) (.ok (.certificate certificate))
      { a with store := store, anchor := some anchor, custody := a.blank }
  | unprovisioned {serviceKey certificate privateKey : Bytes} {anchor : Anchor}
      {fault : StoreFault} {store : σ} (hinit : a.isInitialized = false)
      (hmake : Anchor.make serviceKey certificate privateKey = .ok anchor)
      (hcommit : Store.commit a.store
        (anchor.records ++ [(Custody.record, a.blank.encode)]) = (.error fault, store)) :
    Effect a (.provision serviceKey certificate privateKey) (.error (.storage fault))
      { a with store := store }
  | attested {ta : Uuid} {m : Measurement} {gate : Gate} (hinit : a.isInitialized = true)
      (hgate : a.custody.gate.attest ta m = .ok gate) :
    Effect a (.attest ta m) (.ok .done) { a with custody := { a.custody with gate := gate } }
  | revoked (ta : Uuid) :
    Effect a (.revoke ta) (.ok (.verdict (a.custody.gate.isVerified ta)))
      { a with custody := { a.custody with gate := a.custody.gate.revoke ta } }
  | unerased {fault : StoreFault} {store : σ}
      (herase : Store.erase a.store Anchor.recordNames = (.error fault, store)) :
    Effect a .close (.error (.storage fault)) { a with store := store }
  | closed {store store' : σ}
      (herase : Store.erase a.store Anchor.recordNames = (.ok (), store))
      (hcommit : Store.commit store [(Custody.record, a.blank.encode)] = (.ok (), store')) :
    Effect a .close (.ok .done)
      { a with store := store', anchor := none, custody := a.blank }
  | unclosed {fault : StoreFault} {store store' : σ}
      (herase : Store.erase a.store Anchor.recordNames = (.ok (), store))
      (hcommit : Store.commit store [(Custody.record, a.blank.encode)] =
        (.error fault, store')) :
    Effect a .close (.error (.storage fault))
      { a with store := store', anchor := none, custody := a.blank }

/-! ### The list is complete -/

/-- A call that commits a transition is refused, saves it or fails to save it. -/
private theorem effect_transact {α : Type} {call : Call} {f : α → Answer}
    {transition : Custody → Except Fault (α × Custody)} (hinit : a.isInitialized = true)
    (hcall : call ≠ .close)
    (ht : ∀ {answer t}, transition a.custody = .ok (answer, t) →
      Custody.Transition a.settings.replyTimeout a.custody call (f answer) t) :
    a.Effect call ((a.transact transition).1.map f) (a.transact transition).2 := by
  rw [transact]
  -- a refused transition leaves the agent alone, and any other is committed before it counts
  rcases h : transition a.custody with fault | ⟨answer, t⟩
  · exact .refused fault hcall
  dsimp only
  obtain ⟨result, store, hcommit⟩ :
      ∃ result store, Store.commit a.store [(Custody.record, t.encode)] = (result, store) :=
    ⟨_, _, rfl⟩
  rw [hcommit]
  rcases result with fault | ⟨⟩
  · exact .unsaved hinit (ht h) hcommit
  · exact .saved hinit (ht h) hcommit

private theorem effect_provision (a : Agent σ) (serviceKey certificate privateKey : Bytes) :
    a.Effect (.provision serviceKey certificate privateKey)
      ((a.provision serviceKey certificate privateKey).1.map .certificate)
      (a.provision serviceKey certificate privateKey).2 := by
  rw [provision]
  rcases hmake : Anchor.make serviceKey certificate privateKey with fault | anchor
  · exact .refused fault nofun
  dsimp only
  split_ifs with hinit
  · exact .refused _ nofun
  rw [Bool.not_eq_true] at hinit
  obtain ⟨result, store, hcommit⟩ : ∃ result store, Store.commit a.store
      (anchor.records ++ [(Custody.record, a.blank.encode)]) = (result, store) := ⟨_, _, rfl⟩
  rw [← blank, hcommit]
  rcases result with fault | ⟨⟩
  · exact .unprovisioned hinit hmake hcommit
  · exact .provisioned hinit hmake hcommit

private theorem effect_close (a : Agent σ) :
    a.Effect .close (a.close.1.map fun _ => .done) a.close.2 := by
  rw [close]
  obtain ⟨erased, store, herase⟩ :
      ∃ erased store, Store.erase a.store Anchor.recordNames = (erased, store) := ⟨_, _, rfl⟩
  rw [herase]
  rcases erased with fault | ⟨⟩
  · exact .unerased herase
  dsimp only
  obtain ⟨result, store', hcommit⟩ : ∃ result store', Store.commit store
      [(Custody.record, a.blank.encode)] = (result, store') := ⟨_, _, rfl⟩
  rw [← blank, hcommit]
  rcases result with fault | ⟨⟩
  · exact .unclosed herase hcommit
  · exact .closed herase hcommit

private theorem effect_register (a : Agent σ) (measurements : List Measurement) :
    a.Effect (.register measurements) ((a.register measurements).1.map .count)
      (a.register measurements).2 := by
  rw [register]
  rcases hinit : a.requireInitialized with fault | ⟨⟩
  · exact .refused fault nofun
  dsimp only
  split_ifs with hcount
  · exact .refused _ nofun
  rw [not_or, List.isEmpty_iff, Nat.not_lt] at hcount
  refine effect_transact (requireInitialized_eq_ok hinit) nofun fun hs => ?_
  obtain ⟨rfl, rfl⟩ := Prod.mk.inj (Except.ok.inj hs)
  exact .register hcount.1 hcount.2

private theorem effect_poll (a : Agent σ) (count : Nat) (accept : Bytes → Except Fault Unit) :
    a.Effect (.poll count accept) ((a.poll count accept).1.map .polled)
      (a.poll count accept).2 := by
  rw [poll]
  rcases hinit : a.requireInitialized with fault | ⟨⟩
  · exact .refused fault nofun
  refine effect_transact (requireInitialized_eq_ok hinit) nofun fun hs => ?_
  obtain ⟨⟨outcome, t⟩, hpoll, hs⟩ := bind_eq_ok hs
  obtain ⟨⟨⟩, haccept, hs⟩ := bind_eq_ok hs
  obtain ⟨rfl, rfl⟩ := Prod.mk.inj (Except.ok.inj hs)
  exact .poll hpoll haccept

private theorem effect_submit (a : Agent σ) (reply : Reply) :
    a.Effect (.submit reply) ((a.submit reply).1.map .receipt) (a.submit reply).2 := by
  rw [submit]
  rcases hinit : a.requireInitialized with fault | ⟨⟩
  · exact .refused fault nofun
  rcases hmaterial : reply.material with fault | material
  · exact .refused fault nofun
  exact effect_transact (requireInitialized_eq_ok hinit) nofun fun hs => .submit hmaterial hs

private theorem effect_attest (a : Agent σ) (ta : Uuid) (m : Measurement) :
    a.Effect (.attest ta m) ((a.attest ta m).1.map fun _ => .done) (a.attest ta m).2 := by
  rw [attest]
  rcases hinit : a.requireInitialized with fault | ⟨⟩
  · exact .refused fault nofun
  rcases hgate : a.custody.gate.attest ta m with cause | gate
  · exact .refused _ nofun
  · exact .attested (requireInitialized_eq_ok hinit) hgate

private theorem effect_search (a : Agent σ) (key : KeyRef) :
    a.Effect (.search key) ((a.search key).1.map .lookup) (a.search key).2 := by
  rw [search]
  rcases hauthorize : a.authorize key with fault | ⟨⟩
  · exact .refused fault nofun
  obtain ⟨hinit, hverified, hid⟩ := authorize_eq_ok hauthorize
  rcases hcached : a.custody.cached? key with _ | outcome
  · exact effect_transact hinit nofun fun hs => .search hid hverified hcached hs
  · exact .found hinit hverified .search hcached

private theorem effect_generate (a : Agent σ) (key : KeyRef) (attributes : Bytes) :
    a.Effect (.generate key attributes) ((a.generate key attributes).1.map .lookup)
      (a.generate key attributes).2 := by
  rw [generate]
  rcases hauthorize : a.authorize key with fault | ⟨⟩
  · exact .refused fault nofun
  obtain ⟨hinit, hverified, hid⟩ := authorize_eq_ok hauthorize
  dsimp only
  split_ifs with hattributes
  · exact .refused _ nofun
  rcases hcached : a.custody.cached? key with _ | outcome
  · exact effect_transact hinit nofun fun hs =>
      .generate hid hverified (Nat.le_of_not_lt hattributes) hcached hs
  · exact .found hinit hverified (.generate attributes) hcached

private theorem effect_delete (a : Agent σ) (key : KeyRef) :
    a.Effect (.delete key) ((a.delete key).1.map .sequence) (a.delete key).2 := by
  rw [delete]
  rcases hauthorize : a.authorize key with fault | ⟨⟩
  · exact .refused fault nofun
  obtain ⟨hinit, hverified, hid⟩ := authorize_eq_ok hauthorize
  exact effect_transact hinit nofun fun hs => .delete hid hverified hs

private theorem effect_destroy (a : Agent σ) (key : KeyRef) :
    a.Effect (.destroy key) ((a.destroy key).1.map .sequence) (a.destroy key).2 := by
  rw [destroy]
  rcases hauthorize : a.authorize key with fault | ⟨⟩
  · exact .refused fault nofun
  obtain ⟨hinit, hverified, hid⟩ := authorize_eq_ok hauthorize
  exact effect_transact hinit nofun fun hs => .destroy hid hverified hs

private theorem effect_exit (a : Agent σ) (ta : Uuid) :
    a.Effect (.exit ta) ((a.exit ta).1.map .count) (a.exit ta).2 := by
  rw [exit]
  rcases hconditions : (do a.requireInitialized; a.requireVerified ta : Except Fault Unit) with
    fault | ⟨⟩
  · exact .refused fault nofun
  obtain ⟨⟨⟩, hinit, hverified⟩ := bind_eq_ok hconditions
  exact effect_transact (requireInitialized_eq_ok hinit) nofun fun hs =>
    .exit (requireVerified_eq_ok hverified) hs

/-- **What a call can do**: the outcome of every call is on the list. -/
theorem effect_serve (a : Agent σ) (call : Call) :
    a.Effect call (a.serve call).1 (a.serve call).2 := by
  cases call with
  | provision serviceKey certificate privateKey =>
    exact effect_provision a serviceKey certificate privateKey
  | register measurements => exact effect_register a measurements
  | attest ta m => exact effect_attest a ta m
  | revoke ta => exact .revoked ta
  | search key => exact effect_search a key
  | generate key attributes => exact effect_generate a key attributes
  | delete key => exact effect_delete a key
  | destroy key => exact effect_destroy a key
  | exit ta => exact effect_exit a ta
  | poll count accept => exact effect_poll a count accept
  | submit reply => exact effect_submit a reply
  | close => exact effect_close a

variable {b : Agent σ} {call : Call} {result : Except Fault Answer} {key : KeyRef}
  {material : Bytes}

/-! ### The numbers that a call uses -/

/-- No call takes numbers back, whether it succeeds or fails. -/
theorem Effect.nextSequence_le (h : a.Effect call result b) :
    a.custody.outbox.nextSequence ≤ b.custody.outbox.nextSequence := by
  cases h with
  | refused | found | unsaved | unprovisioned | attested | revoked | unerased =>
    exact Nat.le_refl _
  | saved _ ht => exact ht.follows.nextSequence_le
  | provisioned | closed | unclosed => exact Nat.le_max_right _ _

/-- No call uses more numbers than the outbox has places. -/
theorem Effect.nextSequence_le_add (h : a.Effect call result b) (ha : a.custody.Sound) :
    b.custody.outbox.nextSequence ≤
      a.custody.outbox.nextSequence + a.custody.outbox.capacity := by
  cases h with
  | refused | found | unsaved | unprovisioned | attested | revoked | unerased =>
    exact Nat.le_add_right _ _
  | saved _ ht => exact ht.nextSequence_le
  | provisioned | closed | unclosed =>
    exact (Custody.nextSequence_freshAfter ha _).trans_le (Nat.le_add_right _ _)

/-- As long as numbers last, no call comes to their end. -/
theorem Effect.nextSequence_lt (h : a.Effect call result b) (ha : a.custody.Sound)
    (hcapacity : a.custody.outbox.capacity ≤ Settings.queueDepthCeiling)
    (hnumbers : a.custody.outbox.NumbersLast) :
    b.custody.outbox.nextSequence < Outbox.sequenceBound :=
  Nat.lt_of_le_of_lt ((h.nextSequence_le_add ha).trans (Nat.add_le_add_left hcapacity _)) hnumbers

/-! ### Lookups that return material -/

omit [Store σ] in
/-- Only an entry that is ready gives material at once. -/
private theorem ready_of_cached? {s : Custody} (h : s.cached? key = some (.ready material)) :
    ∃ e, s.keyring.get? key = some e ∧ e.status = .ready ∧ material = e.material.getD [] := by
  rw [Custody.cached?] at h
  rcases he : s.keyring.get? key with _ | e
  · simp [he] at h
  · rw [he] at h
    refine ⟨e, rfl, ?_⟩
    cases hstatus : e.status <;> simp [hstatus] at h
    exact ⟨rfl, h.symm⟩

/-- A lookup that commits a command or tells of a failure gives no material. -/
private theorem not_ready_of_transition {limit : Option Nat} {s t : Custody}
    (hcall : call.LooksUp key) :
    ¬ s.Transition limit call (.lookup (.ready material)) t := by
  intro h
  cases hcall with
  | search =>
    cases h with
    | search _ _ _ hs => rcases Custody.search_eq_ok hs with ⟨_, -, -, h, -⟩ | ⟨-, h, -⟩ <;> cases h
  | generate =>
    cases h with
    | generate _ _ _ _ hs =>
      obtain ⟨-, h, -⟩ := Custody.request_eq_ok hs
      cases h

/-- Material that a lookup returns was ready before it. -/
theorem Effect.ready_of_lookup (h : a.Effect call (.ok (.lookup (.ready material))) b)
    (hcall : call.LooksUp key) :
    ∃ e, a.custody.keyring.get? key = some e ∧ e.status = .ready ∧
      material = e.material.getD [] := by
  generalize hanswer : Answer.lookup (.ready material) = answer at h
  cases h with
  | found _ _ hcall' hfound =>
    obtain rfl := Answer.lookup.inj hanswer
    obtain rfl := hcall.unique hcall'
    exact ready_of_cached? hfound
  | saved _ ht =>
    subst hanswer
    exact absurd ht (not_ready_of_transition hcall)
  | provisioned | attested | revoked | closed => cases hanswer

end Agent

end KeyCustody
