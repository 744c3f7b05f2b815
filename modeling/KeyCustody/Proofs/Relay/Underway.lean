import KeyCustody.Proofs.Relay.Progress
import Mathlib.Data.List.Nodup

/-!
# What is underway stays in order

In an exchange a request goes from the outbox to the courier, from the courier to the key office,
and its reply goes back. The invariant `Exchange.Orderly` says that nothing overtakes on the way:
the numbers of what is underway rise, and a request agrees with the command of its number for as
long as the outbox has one. Every step keeps it (`Exchange.Orderly.step`), and an exchange has it
when it begins (`Exchange.Begins.orderly`). Whatever else the steps of some moves keep in it, a run
of these moves keeps (`Exchange.Orderly.run_keeps`).
-/

namespace KeyCustody

namespace Exchange

variable {σ : Type} {x y : Exchange σ}

/-! ### The order of what is underway -/

/-- The invariant of what is underway: the agent is tidy, the numbers of what is underway rise and
have all been given out, a request is the one for the command of its number, if the outbox still has
it, and a reply names the number of its request. -/
structure Orderly (x : Exchange σ) : Prop where
  agent : x.agent.Tidy
  rising : x.underway.Pairwise fun r s => r.sequence < s.sequence
  sequence_lt : ∀ r ∈ x.underway, r.sequence < x.custody.outbox.nextSequence
  command : ∀ r ∈ x.underway, ∀ c ∈ x.custody.outbox.commands, c.sequence = r.sequence →
    Request.ofCommand c = r
  reply : ∀ {request reply}, x.answered = some (request, reply) →
    reply.sequence = request.sequence

namespace Orderly

/-- What is underway stays in order if requests are dropped and others with new numbers added at the
end, and the commands are those from before and those for which requests were added. -/
private theorem extend (h : x.Orderly) (hy : y.agent.Tidy) {new : List Request}
    (hunderway : y.underway.Sublist (x.underway ++ new))
    (hrising : new.Pairwise fun r s => r.sequence < s.sequence)
    (hnew : ∀ r ∈ new, x.custody.outbox.nextSequence ≤ r.sequence ∧
      r.sequence < y.custody.outbox.nextSequence)
    (hnext : x.custody.outbox.nextSequence ≤ y.custody.outbox.nextSequence)
    (hcommands : ∀ c ∈ y.custody.outbox.commands,
      (∃ d ∈ x.custody.outbox.commands, Request.ofCommand d = Request.ofCommand c) ∨
        Request.ofCommand c ∈ new)
    (hreply : ∀ {request reply}, y.answered = some (request, reply) →
      reply.sequence = request.sequence) : y.Orderly where
  agent := hy
  rising := by
    refine (List.pairwise_append.mpr ⟨h.rising, hrising, fun r hr s hs => ?_⟩).sublist hunderway
    exact Nat.lt_of_lt_of_le (h.sequence_lt r hr) (hnew s hs).1
  sequence_lt r hr := by
    rcases List.mem_append.mp (hunderway.mem hr) with hr | hr
    · exact Nat.lt_of_lt_of_le (h.sequence_lt r hr) hnext
    · exact (hnew r hr).2
  command r hr c hc heq := by
    -- old and new numbers are apart, and within each of the two a number is used once
    rcases hcommands c hc with ⟨d, hd, hdc⟩ | hcnew
    · have hseq : d.sequence = c.sequence := congrArg (·.sequence) hdc
      have hlt := h.agent.sound.outbox.sequence_lt d hd
      rcases List.mem_append.mp (hunderway.mem hr) with hr | hr
      · exact hdc.symm.trans (h.command r hr d hd (hseq.trans heq))
      · have hle := (hnew r hr).1
        change d.sequence < x.custody.outbox.nextSequence at hlt
        omega
    · have hle : x.custody.outbox.nextSequence ≤ c.sequence := (hnew _ hcnew).1
      rcases List.mem_append.mp (hunderway.mem hr) with hr | hr
      · have hlt := h.sequence_lt r hr
        omega
      · have hnodup : (new.map (·.sequence)).Nodup :=
          List.pairwise_map.mpr (hrising.imp Nat.ne_of_lt)
        exact List.inj_on_of_nodup_map hnodup hcnew hr heq
  reply := hreply

private theorem underway_sublist {new : List Request}
    (hanswered : y.answered = x.answered ∨ y.answered = none)
    (hunhandled : y.unhandled.Sublist (x.unhandled ++ new)) :
    y.underway.Sublist (x.underway ++ new) := by
  rw [underway, underway, List.append_assoc]
  rcases hanswered with heq | heq <;> rw [heq]
  · exact hunhandled.append_left _
  · exact hunhandled.trans (List.sublist_append_right _ _)

/-- A reply that is still there names the number of its request as before. -/
private theorem kept_reply (h : x.Orderly) (hanswered : y.answered = x.answered ∨ y.answered = none)
    {request : Request} {reply : Reply} (heq : y.answered = some (request, reply)) :
    reply.sequence = request.sequence := by
  rcases hanswered with hsame | hnone
  · exact h.reply (hsame ▸ heq)
  · rw [hnone] at heq
    cases heq

/-- What is underway stays in order if nothing is added. -/
private theorem drop (h : x.Orderly) (hy : y.agent.Tidy)
    (hunderway : y.underway.Sublist (x.underway ++ []))
    (hnext : y.custody.outbox.nextSequence = x.custody.outbox.nextSequence)
    (hcommands : ∀ c ∈ y.custody.outbox.commands, c ∈ x.custody.outbox.commands)
    (hreply : ∀ {request reply}, y.answered = some (request, reply) →
      reply.sequence = request.sequence) : y.Orderly :=
  h.extend hy hunderway .nil nofun (Nat.le_of_eq hnext.symm)
    (fun c hc => .inl ⟨c, hcommands c hc, rfl⟩) hreply

/-- A step keeps what is underway in order. -/
theorem step {m : Move σ} (h : x.Orderly) (hy : y.agent.Tidy) (hstep : x.Step y m) :
    y.Orderly := by
  cases hstep with
  | idle _ houtbox _ hrequests hanswered =>
    have hunhandled : y.unhandled = x.unhandled := by rw [unhandled, unhandled, hrequests, houtbox]
    exact h.drop hy (underway_sublist hanswered (by rw [List.append_nil, hunhandled]))
      (by rw [houtbox]) (by rw [houtbox]; exact fun _ hc => hc) (h.kept_reply hanswered)
  | cleared _ hcustody hrequests hanswered =>
    have hunhandled : y.unhandled = x.requests := by
      rw [unhandled, hrequests, hcustody]
      exact List.append_nil _
    refine h.drop hy (underway_sublist hanswered ?_) ?_ ?_ (h.kept_reply hanswered)
    · rw [hunhandled, List.append_nil]
      exact List.sublist_append_left _ _
    · rw [hcustody]
      exact Custody.nextSequence_freshAfter h.agent.sound _
    · rw [hcustody]
      exact fun c hc => absurd hc List.not_mem_nil
  | taken _ ht hunhandled hanswered =>
    obtain ⟨handed, -, hchange⟩ := ht.change
    have hnext := hchange.nextSequence_eq
    refine h.extend hy (underway_sublist hanswered (by rw [hunhandled])) ?_ (fun r hr => ?_)
      (by omega) (fun c hc => ?_) (h.kept_reply hanswered)
    · rw [← List.pairwise_map, map_sequence_ordered]
      exact List.pairwise_lt_range'
    · have hmem := List.mem_map_of_mem (f := (·.sequence)) hr
      rw [map_sequence_ordered, List.mem_range'_1] at hmem
      omega
    · rcases hchange.origin h.agent.sound.outbox hc with ⟨d, hd, -, heq⟩ | hnew
      · exact .inl ⟨d, hd, (congrArg Request.ofCommand heq :)⟩
      · have hmem := List.mem_map_of_mem (f := Request.ofCommand) hnew
        exact .inr hmem
  | @consulted _ request hagent hanswered hunhandled hreply =>
    have hcustody : y.custody = x.custody := congrArg Agent.custody hagent
    have hunderway : y.underway = x.underway := by
      rw [underway, underway, hreply, hanswered, hunhandled]
      rfl
    refine h.drop hy (by rw [List.append_nil, hunderway]) (by rw [hcustody])
      (by rw [hcustody]; exact fun _ hc => hc) fun {_ _} heq => ?_
    obtain ⟨rfl, rfl⟩ := Prod.mk.inj (Option.some.inj (hreply.symm.trans heq))
    exact (x.office.handling request).sequence_eq
  | preloaded hagent hrequests hanswered =>
    have hcustody : y.custody = x.custody := congrArg Agent.custody hagent
    have hunhandled : y.unhandled = x.unhandled := by
      rw [unhandled, unhandled, hrequests, hcustody]
    exact h.drop hy (underway_sublist (.inl hanswered) (by rw [List.append_nil, hunhandled]))
      (by rw [hcustody]) (by rw [hcustody]; exact fun _ hc => hc) (h.kept_reply (.inl hanswered))

/-- The reply that makes an entry ready answers a request for the key of the entry, with the number
that the entry waited for; what the office has not seen by then has larger numbers. -/
theorem exists_request (h : x.Orderly) {key : KeyRef} {c : Command} {before : Entry} {reply : Reply}
    (hreply : ∃ request, x.answered = some (request, reply))
    (hc : x.custody.outbox.get? reply.sequence = some c)
    (hbefore : x.custody.keyring.get? key = some before) (hwaits : before.status = .pending)
    (hlast : before.lastSequence = c.sequence) :
    ∃ request, x.answered = some (request, reply) ∧ request.key = key ∧
      request.kind.yieldsKey = true ∧ request.sequence = before.lastSequence ∧
        ∀ r ∈ x.unhandled, request.sequence < r.sequence := by
  obtain ⟨request, hanswered⟩ := hreply
  have hunderway : x.underway = request :: x.unhandled := by
    rw [underway, hanswered]
    rfl
  have hfirst : request ∈ x.underway := hunderway ▸ List.mem_cons_self
  have hrising := h.rising
  rw [hunderway, List.pairwise_cons] at hrising
  -- the command that is answered is the one that the entry waits for, and the one of the request
  obtain ⟨hmem, hnumber⟩ := h.agent.sound.outbox.get?_eq_some_iff.mp hc
  obtain ⟨d, hd, hseq, hkind, hkey⟩ := h.agent.sound.coherentUpTo.pending hbefore hwaits
  rw [List.append_nil] at hd
  obtain rfl := h.agent.sound.outbox.eq_of_sequence_eq hd hmem (hseq.trans hlast)
  have hcommand := h.command request hfirst d hmem (hnumber.trans (h.reply hanswered))
  refine ⟨request, hanswered, ?_, ?_, ?_, hrising.1⟩
  · rw [← hcommand]
    exact hkey
  · rw [← hcommand]
    exact hkind
  · rw [← hcommand]
    exact hseq

variable [Store σ]

theorem move (h : x.Orderly) (hnumbers : x.custody.outbox.NumbersLast) (m : Move σ) :
    (x.move m).Orderly :=
  let ⟨hy, hstep⟩ := step_move h.agent hnumbers m
  h.step hy hstep

/-- **What the steps of some moves keep, a run of these moves keeps**, with everything in order and
as long as numbers last in the end. -/
theorem run_keeps {p : Exchange σ → Prop} (h : x.Orderly) (hp : p x) {moves : List (Move σ)}
    (hkeeps : ∀ m ∈ moves, ∀ {y z : Exchange σ}, y.Orderly → p y → y.Step z m → p z)
    (hnumbers : (x.run moves).custody.outbox.NumbersLast) :
    (x.run moves).Orderly ∧ p (x.run moves) := by
  induction moves generalizing x with
  | nil => exact ⟨h, hp⟩
  | cons m rest ih =>
    -- numbers are never taken back, so they last before the first move if they do after all
    have hlast := numbersLast_of_run hnumbers
    have hstep := (step_move h.agent hlast m).2
    exact ih (h.move hlast m) (hkeeps m List.mem_cons_self h hp hstep)
      (fun n hn => hkeeps n (List.mem_cons_of_mem _ hn)) hnumbers

/-- A run keeps what is underway in order. -/
theorem run (h : x.Orderly) {moves : List (Move σ)}
    (hnumbers : (x.run moves).custody.outbox.NumbersLast) : (x.run moves).Orderly :=
  (h.run_keeps trivial (fun _ _ _ _ _ _ _ => trivial) hnumbers).1

end Orderly

/-! ### How an exchange begins -/

variable [Store σ]

/-- An exchange as it begins: a custodian has been started over a store without its records, no
session is open, and nothing is underway. Any keys may be at the office. -/
inductive Begins : Exchange σ → Prop
  | start {settings : Settings} {store : σ} {a : Agent σ}
      (hempty : ∀ name ∈ Custody.record :: Anchor.recordNames, Store.load store name = .ok none)
      (hstart : Agent.start settings store = .ok a) (courierSettings : CourierSettings)
      (office : KeyOffice) :
    Begins (.idle ⟨courierSettings, .ofAgent a, office⟩)

private theorem start_eq_ok_of_absent {settings : Settings} {store : σ} {a : Agent σ}
    (hempty : ∀ name ∈ Custody.record :: Anchor.recordNames, Store.load store name = .ok none)
    (hstart : Agent.start settings store = .ok a) :
    settings.check = .ok () ∧
      a = ⟨settings, store, none, Custody.fresh settings.maxQueueDepth⟩ := by
  obtain ⟨hsnapshot, hanchor⟩ := List.forall_mem_cons.mp hempty
  have hsettings := Agent.check_of_start hstart
  have hload : Agent.loadAnchor store = .ok none :=
    Agent.loadAnchor_of_absent (hanchor _ (by decide)) fun name hname => ⟨_, hanchor name hname⟩
  simp only [Agent.start, hsettings, hload, hsnapshot] at hstart
  exact ⟨hsettings, (Except.ok.inj hstart).symm⟩

/-- When an exchange begins, the custodian knows nothing. -/
theorem Begins.empty (h : x.Begins) :
    x.custody.keyring = Keyring.empty ∧ x.custody.outbox.commands = [] ∧ x.requests = [] ∧
      x.answered = none ∧ x.agent.Tidy := by
  cases h with
  | start hempty hstart =>
    obtain ⟨hsettings, rfl⟩ := start_eq_ok_of_absent hempty hstart
    exact ⟨rfl, rfl, rfl, rfl, .fresh _, hsettings, rfl, Nat.zero_le _, fun _ => ⟨rfl, rfl⟩⟩

theorem Begins.orderly (h : x.Begins) : x.Orderly := by
  obtain ⟨-, hcommands, hrequests, hanswered, htidy⟩ := h.empty
  have hunderway : x.underway = [] := by
    rw [underway, unhandled, hrequests, hanswered, Outbox.waiting, hcommands]
    rfl
  refine ⟨htidy, ?_, ?_, ?_, fun {_ _} heq => ?_⟩
  · rw [hunderway]
    exact .nil
  · rw [hunderway]
    exact List.forall_mem_nil _
  · rw [hunderway]
    exact List.forall_mem_nil _
  · rw [hanswered] at heq
    cases heq

/-! ### Moves through open sessions -/

/-- Makes a move, without going through the session of a poll or a reply; but the session has to be
open and the reply small enough for its slot. -/
def directly? (x : Exchange σ) : Move σ → Option (Exchange σ)
  | .fetch session =>
    match x.requests, x.answered with
    | [], none =>
      if session ∈ x.courier.endpoint.sessions then
        some (x.fetched (x.courier.endpoint.directly fun a =>
          (a.poll a.settings.maxBatch fun _ => .ok ()).map (Except.map (·.batch)) id))
      else none
    | _, _ => some x
  | .deliver session =>
    match x.answered with
    | some (_, reply) =>
      if session ∈ x.courier.endpoint.sessions ∧
          reply.encode.length ≤ Anchor.maxCertificateSize then
        some { x.withEnclave (x.courier.endpoint.directly (·.submit reply)).2 with
          answered := none }
      else none
    | none => some x
  | m => some (x.move m)

private theorem move_of_directly? (hx : x.agent.Tidy) (hnumbers : x.custody.outbox.NumbersLast)
    {m : Move σ} (h : x.directly? m = some y) : x.move m = y := by
  cases m with
  | fetch session =>
    obtain ⟨c, _ | ⟨request, rest⟩, _ | answer⟩ := x
    · dsimp only [directly?] at h
      split_ifs at h with hsession
      have hmove : move ⟨c, [], none⟩ (.fetch session) =
          fetched ⟨c, [], none⟩ (Session.requests c.endpoint session) := rfl
      rw [hmove, ← Option.some.inj h, Session.requests_eq_directly hsession hx.sound
        hnumbers.nextSequence_lt hx.settings
        (hx.depth_le.trans (Settings.maxQueueDepth_le hx.settings))]
    · exact Option.some.inj h
    · exact Option.some.inj h
    · exact Option.some.inj h
  | deliver session =>
    obtain ⟨c, requests, _ | ⟨request, reply⟩⟩ := x
    · exact Option.some.inj h
    · dsimp only [directly?] at h
      split_ifs at h with hopen
      have hmove : move ⟨c, requests, some (request, reply)⟩ (.deliver session) =
          ⟨{ c with endpoint := (Session.respond c.endpoint session reply).2 }, requests, none⟩ :=
        rfl
      have hstate : (Session.respond c.endpoint session reply).2 =
          (c.endpoint.directly (·.submit reply)).2 :=
        (Session.respond_agrees hopen.1 hx.sound hnumbers.nextSequence_lt hopen.2).state.trans
          (Enclave.snd_directly_congr rfl)
      rw [hmove, hstate, ← Option.some.inj h]
      rfl
  | call | disturb | preload | enrol | openSession | closeSession | consult =>
    exact Option.some.inj h

/-- Makes moves one after the other in this way, for as long as sequence numbers last. -/
def runDirectly? (x : Exchange σ) : List (Move σ) → Option (Exchange σ)
  | [] => if x.custody.outbox.NumbersLast then some x else none
  | m :: rest =>
    if x.custody.outbox.NumbersLast then (x.directly? m).bind (·.runDirectly? rest) else none

/-- Going through open sessions makes no difference for a run, and numbers last in it. -/
theorem run_of_runDirectly? (hx : x.agent.Tidy) {moves : List (Move σ)}
    (h : x.runDirectly? moves = some y) :
    x.run moves = y ∧ (x.run moves).custody.outbox.NumbersLast := by
  induction moves generalizing x with
  | nil =>
    rw [runDirectly?] at h
    split_ifs at h with hnumbers
    exact ⟨Option.some.inj h, hnumbers⟩
  | cons m rest ih =>
    rw [runDirectly?] at h
    split_ifs at h with hnumbers
    obtain ⟨z, hz, h⟩ := Option.bind_eq_some_iff.mp h
    obtain rfl := move_of_directly? hx hnumbers hz
    exact ih (step_move hx hnumbers m).1 h

/-- Calls as moves. -/
def Move.ofCalls (calls : List Call) (h : ∀ call ∈ calls, call.isRelay = false) : List (Move σ) :=
  calls.pmap Move.call h

/-- An exchange that begins over the empty store in memory. -/
def opened (office : KeyOffice) : Exchange MemoryStore :=
  .idle ⟨.standard, .ofAgent Agent.opened, office⟩

theorem begins_opened (office : KeyOffice) : (opened office).Begins :=
  have hstart : Agent.start .standard MemoryStore.empty = .ok Agent.opened := rfl
  .start (fun _ _ => rfl) hstart _ _

/-- An office that holds one key and mints others. -/
def stockedOffice : KeyOffice := (KeyOffice.empty fun _ => [8]).preload Agent.sampleKey [9]

/-- The owner of a key is introduced, and the search for the key is with the courier. -/
def searching : List (Move MemoryStore) :=
  Move.ofCalls (Agent.introduction Agent.sampleKey) (by decide) ++ [.openSession, .fetch 1]

end Exchange

end KeyCustody
