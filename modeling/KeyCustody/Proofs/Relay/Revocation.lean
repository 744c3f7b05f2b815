import KeyCustody.Proofs.Relay.Underway

/-!
# A key that was destroyed stays away

Once the destruction of a key has succeeded, or its application has ended while the key was alive,
the key is never ready again and no lookup returns material for it
(`Exchange.destroyed_stays_away`), whatever is asked, answered and retried afterwards, until custody
ends or the office is provided with the key anew.

The invariant `Exchange.Gone` has two phases. At first the request to destroy the key is underway,
and an entry that waits for the key waits for a later number, which nothing that the office has
seen can have. When the office sees the request, it forgets the key for good, and from then on no
reply brings material for it.
-/

namespace KeyCustody

/-- Whether a call that succeeds destroys a key: it is to destroy just this key, or to end its
application while the key is alive. -/
inductive Call.Destroys (s : Custody) (key : KeyRef) : Call → Prop
  | destroy : Destroys s key (.destroy key)
  | exit {e : Entry} (he : s.keyring.get? key = some e) (hlive : e.status ≠ .deleted) :
    Destroys s key (.exit key.owner)

namespace Call.Destroys

variable {s : Custody} {key : KeyRef} {call : Call}

theorem isRelay_eq_false (h : call.Destroys s key) : call.isRelay = false := by
  cases h <;> rfl

theorem strikes (h : call.Destroys s key) : call.Strikes key := by
  cases h with
  | destroy => exact .destroy
  | exit => exact .exit

/-- Such a call orders the destruction of the key. -/
theorem mem_orders (h : call.Destroys s key) (hs : s.Sound) (answer : Answer) :
    ⟨.destroy, key, []⟩ ∈ s.orders call answer := by
  cases h with
  | destroy => exact List.mem_pair.mpr (.inr rfl)
  | exit he hlive =>
    have hmem : key.id ∈ s.liveIds key.owner :=
      (Custody.mem_liveIds hs.keyring).mpr ⟨_, he, hlive⟩
    exact List.mem_flatMap.mpr ⟨key.id, hmem, List.mem_pair.mpr (.inr rfl)⟩

end Call.Destroys

/-- After a call that strikes a key no entry of the key waits or is ready. -/
theorem Custody.Transition.not_live_of_strikes {limit : Option Nat} {s t : Custody} {call : Call}
    {answer : Answer} {key : KeyRef} {e : Entry} (h : s.Transition limit call answer t)
    (hs : s.Sound) (hcall : call.Strikes key) (he : t.keyring.get? key = some e) :
    e.status ≠ .pending ∧ e.status ≠ .ready := by
  rw [← not_or]
  intro hlive
  cases h.origin hs he hlive with
  | kept _ hnot | issued _ _ hnot => exact hnot hcall
  | granted _ hsubmit =>
    subst hsubmit
    cases hcall

/-- A call that strikes a key succeeds by a transition. -/
theorem Agent.Effect.transition_of_strikes {σ : Type} [Store σ] {a b : Agent σ} {call : Call}
    {answer : Answer} {key : KeyRef} (h : a.Effect call (.ok answer) b)
    (hcall : call.Strikes key) :
    b.isInitialized = true ∧
      a.custody.Transition a.settings.replyTimeout call answer b.custody := by
  cases h with
  | saved hinit ht => exact ⟨hinit, ht⟩
  | found _ _ hlookup => cases hcall <;> cases hlookup
  | provisioned | attested | revoked | closed => cases hcall

namespace Exchange

variable {σ : Type} {x y : Exchange σ} {key : KeyRef}

/-- The request to destroy a key is underway, and an entry that waits for the key waits for a later
number. -/
def Condemned (key : KeyRef) (x : Exchange σ) : Prop :=
  ∃ r ∈ x.unhandled, r.key = key ∧ r.kind = .destroy ∧
    ∀ e, x.custody.keyring.get? key = some e → e.status = .pending → r.sequence < e.lastSequence

/-- The office has forgotten a key for good, and no reply with the key is on its way. -/
structure Forgotten (key : KeyRef) (x : Exchange σ) : Prop where
  key?_eq : x.office.key? key = none
  revoked : x.office.isRevoked key = true
  reply : ∀ {request reply}, x.answered = some (request, reply) → request.key = key →
    request.kind.yieldsKey = true → reply.result ≠ .success

/-- The invariant of a key that was destroyed: it is not ready at the custodian, and will not become
so by what the office has done or will do. -/
structure Gone (key : KeyRef) (x : Exchange σ) : Prop where
  initialized : x.agent.isInitialized = true
  unready : ∀ {e}, x.custody.keyring.get? key = some e → e.status ≠ .ready
  phase : x.Condemned key ∨ x.Forgotten key

namespace Gone

/-- No transition makes the key ready: the reply that does so would be later than the request to
destroy the key, or come from an office that has forgotten it. -/
private theorem unready_of_transition (h : x.Gone key) (hx : x.Orderly) {call : Call}
    {answer : Answer} {limit : Option Nat}
    (ht : x.custody.Transition limit call answer y.custody)
    (hreply : ∀ reply, call = .submit reply → ∃ request, x.answered = some (request, reply))
    {e : Entry} (he : y.custody.keyring.get? key = some e) : e.status ≠ .ready := by
  intro hready
  cases ht.origin hx.agent.sound he (.inr hready) with
  | kept hbefore => exact h.unready hbefore hready
  | issued hpending => exact absurd (hready.symm.trans hpending) (by decide)
  | @granted reply _ c before _ hcall hresult _ _ hc hbefore hwaits hlast =>
    obtain ⟨request, hanswered, hkey, hkind, hsequence, hlater⟩ :=
      hx.exists_request (hreply reply hcall) hc hbefore hwaits hlast
    rcases h.phase with ⟨r, hr, -, -, hsooner⟩ | hforgotten
    · have hnewer := hlater r hr
      have holder := hsooner before hbefore hwaits
      omega
    · exact hforgotten.reply hanswered hkey hkind hresult

/-- A request that is underway stays so in a transition, and whatever comes to wait for the key
waits for a later number. -/
private theorem condemned_of_transition (h : x.Condemned key) (hx : x.Orderly) {call : Call}
    {answer : Answer} {limit : Option Nat}
    (ht : x.custody.Transition limit call answer y.custody)
    (hunhandled : y.unhandled = x.unhandled ++ x.ordered call answer) : y.Condemned key := by
  obtain ⟨r, hr, hkey, hkind, hsooner⟩ := h
  refine ⟨r, hunhandled ▸ List.mem_append_left _ hr, hkey, hkind, fun e he hpending => ?_⟩
  cases ht.origin hx.agent.sound he (.inl hpending) with
  | kept hbefore => exact hsooner e hbefore hpending
  | issued _ hnew => exact Nat.lt_of_lt_of_le (hx.sequence_lt r (List.mem_append_right _ hr)) hnew
  | granted hready => exact absurd (hpending.symm.trans hready) (by decide)

/-- What the office has forgotten stays forgotten as long as only replies are lost. -/
private theorem forgotten_of_eq (h : x.Forgotten key)
    (hanswered : y.answered = x.answered ∨ y.answered = none)
    (hkey : y.office.key? key = x.office.key? key)
    (hrevoked : y.office.isRevoked key = x.office.isRevoked key) : y.Forgotten key := by
  refine ⟨hkey.trans h.key?_eq, hrevoked.trans h.revoked, fun {_ _} heq => ?_⟩
  rcases hanswered with hsame | hnone
  · exact h.reply (hsame ▸ heq)
  · rw [hnone] at heq
    cases heq

/-- When the office handles a request, a condemned key stays condemned or is forgotten, and a key
that is forgotten stays so. -/
private theorem phase_of_consulted (h : x.Gone key) {request : Request}
    (hagent : y.agent = x.agent) (hunhandled : x.unhandled = request :: y.unhandled)
    (hreply : y.answered = some (request, (x.office.handle request).1))
    (hoffice : y.office = (x.office.handle request).2) : y.Condemned key ∨ y.Forgotten key := by
  have hcustody : y.custody = x.custody := congrArg Agent.custody hagent
  have hhandling := x.office.handling request
  rw [← hoffice] at hhandling
  rcases h.phase with ⟨r, hr, hkey, hkind, hsooner⟩ | hforgotten
  · rw [hunhandled] at hr
    rcases List.mem_cons.mp hr with rfl | hr
    · obtain ⟨hnone, hrevoked⟩ := hhandling.of_destroy hkind
      rw [hkey] at hnone hrevoked
      refine .inr ⟨hnone, hrevoked, fun {_ _} heq _ hyields => ?_⟩
      obtain ⟨rfl, -⟩ := Prod.mk.inj (Option.some.inj (hreply.symm.trans heq))
      rw [hkind] at hyields
      cases hyields
    · exact .inl ⟨r, hr, hkey, hkind, by rwa [hcustody]⟩
  · obtain ⟨hnone, hrevoked, hresult⟩ :=
      hhandling.of_revoked hforgotten.key?_eq hforgotten.revoked
    refine .inr ⟨hnone, hrevoked, fun {_ _} heq => ?_⟩
    obtain ⟨rfl, rfl⟩ := Prod.mk.inj (Option.some.inj (hreply.symm.trans heq))
    exact hresult

/-- A step keeps a key away, unless custody ends or the office is provided with the key. -/
theorem step {m : Move σ} (h : x.Gone key) (hx : x.Orderly) (hstep : x.Step y m)
    (hclose : m ≠ .call .close rfl) (hpreload : ∀ material, m ≠ .preload key material) :
    y.Gone key := by
  cases hstep with
  | idle hkeyring houtbox hinit hrequests hanswered hkeys hrevoked =>
    refine ⟨hinit.trans h.initialized, fun he => h.unready (hkeyring ▸ he), ?_⟩
    refine h.phase.imp (fun hcondemned => ?_) fun hforgotten =>
      forgotten_of_eq hforgotten hanswered (by rw [KeyOffice.key?, hkeys, KeyOffice.key?])
        (by rw [KeyOffice.isRevoked, hrevoked, KeyOffice.isRevoked])
    rwa [Condemned, unhandled, hrequests, houtbox, hkeyring]
  | cleared hclear =>
    exact absurd (hclear.resolve_left hclose) (by rw [h.initialized]; decide)
  | taken hinit ht hunhandled hanswered hreply hoffice =>
    refine ⟨hinit, h.unready_of_transition hx ht hreply, ?_⟩
    exact h.phase.imp (condemned_of_transition · hx ht hunhandled)
      (forgotten_of_eq · hanswered (by rw [hoffice]) (by rw [hoffice]))
  | consulted hagent _ hunhandled hreply hoffice =>
    have hcustody : y.custody = x.custody := congrArg Agent.custody hagent
    exact ⟨hagent ▸ h.initialized, fun he => h.unready (hcustody ▸ he),
      h.phase_of_consulted hagent hunhandled hreply hoffice⟩
  | @preloaded other _ hagent hrequests hanswered hoffice =>
    have hcustody : y.custody = x.custody := congrArg Agent.custody hagent
    have hne : key ≠ other := fun heq => hpreload _ (by rw [heq])
    refine ⟨hagent ▸ h.initialized, fun he => h.unready (hcustody ▸ he), ?_⟩
    refine h.phase.imp (fun hcondemned => ?_) fun hforgotten =>
      forgotten_of_eq hforgotten (.inl hanswered) ?_ (by rw [hoffice]; rfl)
    · rwa [Condemned, unhandled, hrequests, hcustody]
    · rw [hoffice, KeyOffice.key?, KeyOffice.preload, Table.get?_insert, if_neg hne,
        KeyOffice.key?]

variable [Store σ]

/-- A key is away after a call that destroys it. -/
theorem of_destroys (hx : x.Orderly) {call : Call} {answer : Answer}
    (hdestroys : call.Destroys x.custody key) (hok : (x.serve call).1 = .ok answer) :
    (x.serve call).2.Gone key := by
  have heffect := Agent.effect_serve x.agent call
  rcases x.serve_cases call with ⟨fault, heq⟩ | heq <;> rw [heq] at hok ⊢
  · cases hok
  dsimp only at hok ⊢
  rw [hok] at heffect
  obtain ⟨hinit, ht⟩ := heffect.transition_of_strikes hdestroys.strikes
  have hhanded := heffect.upshot.handed_eq_nil fun _ _ heq => by
    rw [heq] at hdestroys
    cases hdestroys
  generalize hy : x.withEnclave _ = y
  have hcustody : (x.agent.serve call).2.custody = y.custody := by rw [← hy]; rfl
  rw [hcustody] at ht
  have hunhandled : y.unhandled = x.unhandled ++ x.ordered call answer := by
    refine unhandled_of_transition hx.agent.sound ht ?_
    rw [show answer.delivered = [] from hhanded, List.append_nil, ← hy]
    rfl
  have hnot := fun e => ht.not_live_of_strikes hx.agent.sound hdestroys.strikes (e := e)
  refine ⟨hy ▸ hinit, fun he => (hnot _ he).2, .inl ?_⟩
  have horder := hdestroys.mem_orders hx.agent.sound answer
  rw [← Order.map_order_numbered x.custody.outbox.nextSequence
    (x.custody.orders call answer)] at horder
  obtain ⟨c, hc, heq⟩ := List.mem_map.mp horder
  refine ⟨.ofCommand c, ?_, congrArg Order.key heq, congrArg Order.kind heq,
    fun e he hpending => absurd hpending (hnot e he).1⟩
  rw [hunhandled]
  exact List.mem_append_right _ (List.mem_map_of_mem hc)

/-- A run keeps a key away, unless custody ends or the office is provided with the key. -/
theorem run (h : x.Gone key) (hx : x.Orderly) {moves : List (Move σ)}
    (hclose : ∀ m ∈ moves, m ≠ .call .close rfl)
    (hpreload : ∀ m ∈ moves, ∀ material, m ≠ .preload key material)
    (hnumbers : (x.run moves).custody.outbox.NumbersLast) : (x.run moves).Gone key :=
  (hx.run_keeps h (fun m hm _ _ hy hgone hstep =>
    hgone.step hy hstep (hclose m hm) (hpreload m hm)) hnumbers).2

/-- While a key is away no lookup returns it. -/
theorem not_looked_up (h : x.Gone key) {call : Call} (hcall : call.LooksUp key)
    (material : Bytes) : (x.serve call).1 ≠ .ok (.lookup (.ready material)) := by
  intro hok
  have heffect := Agent.effect_serve x.agent call
  rcases x.serve_cases call with ⟨fault, heq⟩ | heq <;> rw [heq] at hok
  · cases hok
  dsimp only at hok
  rw [hok] at heffect
  obtain ⟨e, he, hready, -⟩ := heffect.ready_of_lookup hcall
  exact h.unready he hready

end Gone

variable [Store σ]

/-- **A key that was destroyed stays away**: in every exchange that begins over a store without
records, once a call that destroys a key has succeeded, whatever moves follow, as long as custody
does not end, the office is not provided with the key anew and sequence numbers last, no entry of
the key is ready and no lookup returns material for it. -/
theorem destroyed_stays_away (hx : x.Begins) {before after : List (Move σ)} {call : Call}
    {answer : Answer} (hdestroys : call.Destroys (x.run before).custody key)
    (hok : ((x.run before).serve call).1 = .ok answer) (hclose : ∀ m ∈ after, m ≠ .call .close rfl)
    (hpreload : ∀ m ∈ after, ∀ material, m ≠ .preload key material)
    (hnumbers : (x.run (before ++ .call call hdestroys.isRelay_eq_false ::
      after)).custody.outbox.NumbersLast) :
    let y := x.run (before ++ .call call hdestroys.isRelay_eq_false :: after)
    (∀ e ∈ y.custody.keyring.toList, e.key = key → e.status ≠ .ready) ∧
      ∀ lookup : Call, lookup.LooksUp key → ∀ material,
        (y.serve lookup).1 ≠ .ok (.lookup (.ready material)) := by
  intro y
  have hrun : y = ((x.run before).serve call).2.run after := run_append x before _
  change y.custody.outbox.NumbersLast at hnumbers
  -- numbers last in the end, so they did so before the call and after it
  rw [hrun] at hnumbers
  have hbefore : (x.run before).custody.outbox.NumbersLast :=
    hnumbers.mono ((x.run before).nextSequence_le_run
      (.call call hdestroys.isRelay_eq_false :: after))
  have horderly := hx.orderly.run hbefore
  have hcall := horderly.move hbefore (.call call hdestroys.isRelay_eq_false)
  have hgone : y.Gone key :=
    hrun ▸ (Gone.of_destroys horderly hdestroys hok).run hcall hclose hpreload hnumbers
  have hsound := (hrun ▸ hcall.run hnumbers : y.Orderly).agent.sound
  refine ⟨fun e he hkey => ?_, fun lookup hlookup => hgone.not_looked_up hlookup⟩
  exact hgone.unready (hkey ▸ hsound.keyring.mem_toList.mp he)

/-- The key is generated anew; the search is answered, and the commit of the next poll fails; then
all that is asked is answered. The application is attested anew and searches twice, once for what
has become of its key, and what is not found is to be generated. -/
def insisting : List (Move MemoryStore) :=
  [.call (.generate Agent.sampleKey [6]) rfl, .consult, .deliver 1,
    .disturb MemoryStore.empty.failing, .fetch 1, .fetch 1, .consult, .deliver 1, .consult,
    .deliver 1, .consult, .deliver 1, .call (.revoke Agent.sampleKey.owner) rfl,
    .call (.attest Agent.sampleKey.owner Agent.sampleMeasurement) rfl,
    .call (.search Agent.sampleKey) rfl, .call (.search Agent.sampleKey) rfl, .fetch 1, .consult,
    .deliver 1]

/-- The key that the office held is destroyed while a search for it is with the courier. -/
theorem destroyed_stays_away_insisting :
    let x := opened stockedOffice
    let hrelay : (Call.destroy Agent.sampleKey).isRelay = false := rfl
    let y := x.run (searching ++ .call (.destroy Agent.sampleKey) hrelay :: insisting)
    x.Begins ∧ ((x.run searching).serve (.destroy Agent.sampleKey)).1 = .ok (.sequence 3) ∧
      (∀ m ∈ insisting, m ≠ .call .close rfl) ∧
      (∀ m ∈ insisting, ∀ material, m ≠ .preload Agent.sampleKey material) ∧
      y.custody.outbox.NumbersLast ∧
      (∀ e ∈ y.custody.keyring.toList, e.key = Agent.sampleKey → e.status ≠ .ready) ∧
      ∀ lookup : Call, lookup.LooksUp Agent.sampleKey → ∀ material,
        (y.serve lookup).1 ≠ .ok (.lookup (.ready material)) := by
  intro x hrelay y
  have hbegins : x.Begins := begins_opened _
  have hclose : ∀ m ∈ insisting, m ≠ .call .close rfl := by
    rw [insisting]
    repeat refine List.forall_mem_cons.mpr ⟨by rintro ⟨⟩, ?_⟩
    exact List.forall_mem_nil _
  have hpreload : ∀ m ∈ insisting, ∀ material, m ≠ .preload Agent.sampleKey material := by
    simp [insisting]
  have hrun : (x.runDirectly? searching).map (fun z => (z.serve (.destroy Agent.sampleKey)).1) =
      some (.ok (.sequence 3)) := by
    decide +kernel
  obtain ⟨z, hz, hok⟩ := Option.map_eq_some_iff.mp hrun
  obtain ⟨rfl, -⟩ := run_of_runDirectly? hbegins.orderly.agent hz
  have hend : (x.runDirectly? (searching ++ .call (.destroy Agent.sampleKey) hrelay ::
      insisting)).isSome = true := by
    decide +kernel
  obtain ⟨w, hw⟩ := Option.isSome_iff_exists.mp hend
  obtain ⟨-, hnumbers⟩ := run_of_runDirectly? hbegins.orderly.agent hw
  exact ⟨hbegins, hok, hclose, hpreload, hnumbers,
    destroyed_stays_away hbegins .destroy hok hclose hpreload hnumbers⟩

end Exchange

end KeyCustody
