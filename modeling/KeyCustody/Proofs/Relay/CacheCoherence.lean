import KeyCustody.Proofs.Relay.Underway

/-!
# Custodian and key office agree

A key that is ready at the custodian is the key that the office holds (`Exchange.held_of_ready`),
whatever calls, polls, commit failures, expired commands and ends of custody come between, as long
as the office is not provided with keys from outside.

The two tables change at different times, so the invariant `Exchange.Current` also speaks of the
time between: no request to end a key that is ready is underway, a request to end a key that is
waited for is older than the command that it waits for, and a key on its way back is the one that
the office holds. It is kept because requests are handled in the order of their numbers and a reply
settles only the entry that waits for its number.
-/

namespace KeyCustody

namespace Exchange

variable {σ : Type} {x y : Exchange σ} {key : KeyRef}

/-- Whether a move provides the office with a key. -/
def Move.isPreload : Move σ → Bool
  | .preload .. => true
  | _ => false

/-- The invariant of the two tables of keys and what is underway between them. -/
structure Current (x : Exchange σ) : Prop where
  ready : ∀ {key e}, x.custody.keyring.get? key = some e → e.status = .ready →
    e.material = x.office.key? key ∧
      ∀ r ∈ x.unhandled, r.key = key → r.kind.yieldsKey = true
  pending : ∀ {key e}, x.custody.keyring.get? key = some e → e.status = .pending →
    ∀ r ∈ x.unhandled, r.key = key → r.kind.yieldsKey = false → r.sequence < e.lastSequence
  reply : ∀ {request reply}, x.answered = some (request, reply) →
    request.kind.yieldsKey = true → reply.result = .success →
      ∃ material, reply.payload = Hex.encode material ∧ x.office.key? request.key = some material

namespace Current

/-- A reply that is still there agrees with the office as before. -/
private theorem kept_reply (h : x.Current) (hanswered : y.answered = x.answered ∨ y.answered = none)
    (hoffice : ∀ key, y.office.key? key = x.office.key? key) {request : Request} {reply : Reply}
    (heq : y.answered = some (request, reply)) (hkind : request.kind.yieldsKey = true)
    (hresult : reply.result = .success) :
    ∃ material, reply.payload = Hex.encode material ∧
      y.office.key? request.key = some material := by
  rcases hanswered with hsame | hnone
  · rw [hoffice]
    exact h.reply (hsame ▸ heq) hkind hresult
  · rw [hnone] at heq
    cases heq

/-- Tables that stay as they are stay current if no request is added. -/
private theorem kept (h : x.Current) (hkeyring : y.custody.keyring = x.custody.keyring)
    (hunhandled : ∀ r ∈ y.unhandled, r ∈ x.unhandled)
    (hanswered : y.answered = x.answered ∨ y.answered = none)
    (hoffice : ∀ key, y.office.key? key = x.office.key? key) : y.Current where
  ready {key e} he hstatus := by
    rw [hkeyring] at he
    obtain ⟨hmaterial, hunended⟩ := h.ready he hstatus
    exact ⟨hmaterial.trans (hoffice key).symm, fun r hr => hunended r (hunhandled r hr)⟩
  pending {key e} he hstatus r hr := by
    rw [hkeyring] at he
    exact h.pending he hstatus r (hunhandled r hr)
  reply heq hkind hresult := h.kept_reply hanswered hoffice heq hkind hresult

/-- Without entries there is nothing that could disagree. -/
private theorem cleared (h : x.Current) (hkeyring : y.custody.keyring = Keyring.empty)
    (hanswered : y.answered = x.answered ∨ y.answered = none) (hoffice : y.office = x.office) :
    y.Current where
  ready he _ := by
    rw [hkeyring] at he
    cases he
  pending he _ := by
    rw [hkeyring] at he
    cases he
  reply heq hkind hresult :=
    h.kept_reply hanswered (fun _ => by rw [hoffice]) heq hkind hresult

/-- A transition keeps the tables current. -/
private theorem taken (h : x.Current) (hx : x.Orderly) {call : Call} {answer : Answer}
    {limit : Option Nat} (ht : x.custody.Transition limit call answer y.custody)
    (hunhandled : y.unhandled = x.unhandled ++ x.ordered call answer)
    (hanswered : y.answered = x.answered ∨ y.answered = none)
    (hreply : ∀ reply, call = .submit reply → ∃ request, x.answered = some (request, reply))
    (hoffice : y.office = x.office) : y.Current := by
  -- a request that is added ends a key only if the call strikes the key
  have hcases : ∀ r ∈ y.unhandled, ¬ call.Strikes r.key →
      r ∈ x.unhandled ∨ r.kind.yieldsKey = true := by
    intro r hr hcall
    rw [hunhandled] at hr
    refine (List.mem_append.mp hr).imp_right fun hnew => ?_
    by_contra hends
    exact hcall (strikes_of_mem_ordered hnew (Bool.not_eq_true _ ▸ hends))
  refine ⟨fun {key e} he hstatus => ?_, fun {key e} he hstatus => ?_,
    h.kept_reply hanswered fun _ => by rw [hoffice]⟩
  · rw [hoffice]
    cases ht.origin hx.agent.sound he (.inr hstatus) with
    | kept hbefore hcall =>
      obtain ⟨hmaterial, hunended⟩ := h.ready hbefore hstatus
      refine ⟨hmaterial, fun r hr hkey => ?_⟩
      rcases hcases r hr (by rwa [hkey]) with hold | hyields
      · exact hunended r hold hkey
      · exact hyields
    | issued hpending => exact absurd (hstatus.symm.trans hpending) (by decide)
    | @granted reply material c before _ hcall hresult hdecode hmaterial hc hbefore hwaits hlast =>
      obtain ⟨request, heq, rfl, hkind, hsequence, hlater⟩ :=
        hx.exists_request (hreply reply hcall) hc hbefore hwaits hlast
      obtain ⟨held, hpayload, hheld⟩ := h.reply heq hkind hresult
      rw [Reply.material, hpayload, Hex.decode_encode] at hdecode
      obtain rfl : held = material := Except.ok.inj hdecode
      refine ⟨hmaterial.trans hheld.symm, fun r hr hkey => ?_⟩
      -- what ends the key is older than the request that is answered, but the office has seen it
      rcases hcases r hr (by rw [hcall]; rintro ⟨⟩) with hold | hyields
      · by_contra hends
        have holder := h.pending hbefore hwaits r hold hkey (Bool.not_eq_true _ ▸ hends)
        have hnewer := hlater r hold
        omega
      · exact hyields
  · intro r hr hkey hends
    cases ht.origin hx.agent.sound he (.inl hstatus) with
    | kept hbefore hcall =>
      rcases hcases r hr (by rwa [hkey]) with hold | hyields
      · exact h.pending hbefore hstatus r hold hkey hends
      · exact absurd (hyields.symm.trans hends) (by decide)
    | issued _ hnew hcall =>
      rcases hcases r hr (by rwa [hkey]) with hold | hyields
      · exact Nat.lt_of_lt_of_le (hx.sequence_lt r (List.mem_append_right _ hold)) hnew
      · exact absurd (hyields.symm.trans hends) (by decide)
    | granted hready => exact absurd (hstatus.symm.trans hready) (by decide)

/-- Handling a request keeps the tables current: the key that it ends is not ready, and any other
key that is there stays. -/
private theorem consulted (h : x.Current) {request : Request} (hagent : y.agent = x.agent)
    (hunhandled : x.unhandled = request :: y.unhandled)
    (hreply : y.answered = some (request, (x.office.handle request).1))
    (hoffice : y.office = (x.office.handle request).2) (hx : x.Orderly) : y.Current := by
  have hcustody : y.custody = x.custody := congrArg Agent.custody hagent
  have hhandling := x.office.handling request
  have hmem : ∀ r ∈ y.unhandled, r ∈ x.unhandled := fun r hr =>
    hunhandled ▸ List.mem_cons_of_mem _ hr
  refine ⟨fun {key e} he hstatus => ?_, fun {key e} he hstatus r hr => ?_, fun {_ _} heq => ?_⟩
  · rw [hcustody] at he
    obtain ⟨hmaterial, hunended⟩ := h.ready he hstatus
    refine ⟨?_, fun r hr => hunended r (hmem r hr)⟩
    rw [hoffice]
    by_cases hkey : key = request.key
    · have hkind := hunended request (hunhandled ▸ List.mem_cons_self) hkey.symm
      have hsome := (hx.agent.sound.keyring.get he).isSome_material.mpr hstatus
      obtain ⟨material, hsome⟩ := Option.isSome_iff_exists.mp hsome
      rw [hsome] at hmaterial ⊢
      exact (hhandling.key?_eq_of_yieldsKey hkind hmaterial.symm).symm
    · rw [hhandling.key?_eq_of_ne hkey]
      exact hmaterial
  · rw [hcustody] at he
    exact h.pending he hstatus r (hmem r hr)
  · obtain ⟨rfl, rfl⟩ := Prod.mk.inj (Option.some.inj (hreply.symm.trans heq))
    rw [hoffice]
    exact hhandling.payload_eq

/-- A step keeps the tables current, unless the office is provided with a key. -/
theorem step {m : Move σ} (h : x.Current) (hx : x.Orderly) (hstep : x.Step y m)
    (hm : m.isPreload = false) : y.Current := by
  cases hstep with
  | idle hkeyring houtbox _ hrequests hanswered hkeys =>
    refine h.kept hkeyring (fun r hr => ?_) hanswered fun key => ?_
    · rwa [unhandled, hrequests, houtbox] at hr
    · rw [KeyOffice.key?, hkeys, KeyOffice.key?]
  | cleared _ hcustody _ hanswered hoffice =>
    exact h.cleared (by rw [hcustody]; rfl) hanswered hoffice
  | taken _ ht hunhandled hanswered hreply hoffice =>
    exact h.taken hx ht hunhandled hanswered hreply hoffice
  | consulted hagent _ hunhandled hreply hoffice =>
    exact h.consulted hagent hunhandled hreply hoffice hx
  | preloaded => cases hm

end Current

variable [Store σ]

/-- When an exchange begins there is nothing that could disagree. -/
theorem Begins.current (h : x.Begins) : x.Current := by
  obtain ⟨hkeyring, -, -, hanswered, -⟩ := h.empty
  refine ⟨fun {_ _} he => ?_, fun {_ _} he => ?_, fun {_ _} heq => ?_⟩
  · rw [hkeyring] at he
    cases he
  · rw [hkeyring] at he
    cases he
  · rw [hanswered] at heq
    cases heq

/-- A run keeps the tables current, as long as the office is not provided with keys. -/
theorem Current.run (h : x.Current) (hx : x.Orderly) {moves : List (Move σ)}
    (hmoves : ∀ m ∈ moves, m.isPreload = false)
    (hnumbers : (x.run moves).custody.outbox.NumbersLast) : (x.run moves).Current :=
  (hx.run_keeps h (fun m hm _ _ hy hcurrent hstep => hcurrent.step hy hstep (hmoves m hm))
    hnumbers).2

/-- **Custodian and key office agree**: in every exchange that begins over a store without records,
with whatever keys at the office, after any moves of which none provides the office with a key and
after which sequence numbers last, every key that is ready at the custodian is exactly the key that
the office holds. -/
theorem held_of_ready (hx : x.Begins) {moves : List (Move σ)}
    (hmoves : ∀ m ∈ moves, m.isPreload = false)
    (hnumbers : (x.run moves).custody.outbox.NumbersLast) {e : Entry}
    (he : e ∈ (x.run moves).custody.keyring.toList) (hready : e.status = .ready) :
    ∃ material, e.material = some material ∧ (x.run moves).office.key? e.key = some material := by
  have hsound := (hx.orderly.run hnumbers).agent.sound
  have he := hsound.keyring.mem_toList.mp he
  obtain ⟨hmaterial, -⟩ := (hx.current.run hx.orderly hmoves hnumbers).ready he hready
  have hsome := (hsound.keyring.get he).isSome_material.mpr hready
  obtain ⟨material, hsome⟩ := Option.isSome_iff_exists.mp hsome
  exact ⟨material, hsome, hmaterial.symm.trans hsome⟩

/-- While the first search for a key is at the office, the key is deleted and generated anew, and
the commit of the next poll fails. -/
def overlapping : List (Move MemoryStore) :=
  searching ++
    [.call (.delete Agent.sampleKey) rfl, .call (.generate Agent.sampleKey [7]) rfl, .consult,
      .deliver 1, .disturb MemoryStore.empty.failing, .fetch 1, .fetch 1, .consult, .deliver 1,
      .consult, .deliver 1]

/-- In the end the key that was minted is ready, and not the one that was found at first. -/
theorem held_of_ready_overlapping :
    let x := opened stockedOffice
    let e : Entry := ⟨Agent.sampleKey, some [8], .ready, 3⟩
    x.Begins ∧ (∀ m ∈ overlapping, m.isPreload = false) ∧
      (x.run overlapping).custody.outbox.NumbersLast ∧
      e ∈ (x.run overlapping).custody.keyring.toList ∧ e.status = .ready ∧
      ∃ material, e.material = some material ∧
        (x.run overlapping).office.key? e.key = some material := by
  intro x e
  have hbegins : x.Begins := begins_opened _
  have hmoves : ∀ m ∈ overlapping, m.isPreload = false := by decide
  have hrun : (x.runDirectly? overlapping).map (·.custody.keyring.toList) = some [e] := by
    decide +kernel
  obtain ⟨y, hy, hentries⟩ := Option.map_eq_some_iff.mp hrun
  obtain ⟨rfl, hnumbers⟩ := run_of_runDirectly? hbegins.orderly.agent hy
  have he : e ∈ (x.run overlapping).custody.keyring.toList := hentries ▸ List.mem_cons_self
  exact ⟨hbegins, hmoves, hnumbers, he, rfl, held_of_ready hbegins hmoves hnumbers he rfl⟩

end Exchange

end KeyCustody
