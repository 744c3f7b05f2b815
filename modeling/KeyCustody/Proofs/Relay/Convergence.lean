import KeyCustody.Proofs.Relay.Enclave
import KeyCustody.Proofs.Relay.KeyService
import KeyCustody.Proofs.Relay.Session
import KeyCustody.Proofs.Relay.Work
import KeyCustody.Proofs.Store.Reliable
import KeyCustody.Relay.Courier

/-!
# Polls come to an end

A poll of the courier goes on in rounds until nothing comes back. Within a round the courier answers
the commands of one batch, and some of the answers queue further commands. Nevertheless the poll
comes to an end (`Courier.pollOnce_converges`), because each answer makes the work of the outbox
less (`Courier.Working.carry`) and each round answers at least one command if there is any.

The invariant is `Courier.Working`: the agent can be reached and can serve the relay, the session is
open, and the key service hands out admissible keys only. Between rounds nothing is handed out; in
a round the commands that are handed out are those of the batch that are left.
-/

namespace KeyCustody

variable {σ : Type} [Store σ]

/-- Where no command is left, no entry waits and there is no tombstone. -/
theorem Custody.Coherent.settled {s : Custody} (h : s.Coherent) (hempty : s.outbox.commands = [])
    {e : Entry} (he : e ∈ s.keyring.toList) : e.status = .ready ∨ e.status = .failed := by
  have hnone : ∀ c, c ∉ s.outbox.commands := by simp [hempty]
  cases hstatus : e.status with
  | ready => exact .inl rfl
  | failed => exact .inr rfl
  | pending =>
    obtain ⟨c, hc, -⟩ := h.pending e he hstatus
    exact absurd hc (hnone c)
  | deleted =>
    obtain ⟨c, hc, -⟩ := h.deleted e he hstatus
    exact absurd hc (hnone c)

namespace Agent

variable {a : Agent σ}

/-- An agent that can answer its relay: it is initialized, its state is workable, and its commits
succeed. -/
structure Serving (a : Agent σ) : Prop where
  workable : a.custody.Workable
  settings : a.settings.check = .ok ()
  capacity : a.custody.outbox.capacity = a.settings.maxQueueDepth
  initialized : a.isInitialized = true
  store : Store.Steady a.store

namespace Serving

/-- A poll where everything is queued. If its batch is empty, then nothing is left. -/
theorem poll (h : a.Serving) (hqueued : ∀ c ∈ a.custody.outbox.commands, c.status = .queued) :
    ∃ polled b, a.poll a.settings.maxBatch (fun _ => .ok ()) = (.ok polled, b) ∧ b.Serving ∧
      b.custody.outbox.shipped = polled.batch.requests ∧
      b.custody.outbox.work = a.custody.outbox.work ∧
      (polled.batch.requests = [] →
        polled.batch.remaining = 0 ∧ b.custody.outbox.commands = []) := by
  obtain ⟨hpos, hle⟩ := Settings.maxBatch_bounds h.settings
  obtain ⟨polled, t, hpoll⟩ := a.custody.exists_poll hpos hle a.settings.replyTimeout
  obtain ⟨hworkable, hcapacity, hbatch, houtbox, hshipped, hwork⟩ :=
    h.workable.poll hqueued hpoll
  obtain ⟨store, hcommit, hstore⟩ := h.store.commit [(Custody.record, t.encode)]
  have hcall : a.poll a.settings.maxBatch (fun _ => .ok ()) =
      (.ok polled, { a with store := store, custody := t }) := by
    rw [Agent.poll, requireInitialized, if_pos h.initialized]
    exact transact_eq_ok_iff.mpr ⟨t, store, by rw [hpoll]; rfl, hcommit, rfl⟩
  refine ⟨polled, _, hcall, ⟨hworkable, h.settings, hcapacity.trans h.capacity, h.initialized,
    hstore⟩, hshipped, hwork, fun hnone => ?_⟩
  -- a batch for at least one command is empty only if there is no command
  have hcommands : a.custody.outbox.commands = [] := by
    rw [hbatch, Batch.ofCommands] at hnone
    refine (List.take_eq_nil_iff.mp (List.map_eq_nil_iff.mp hnone)).resolve_left ?_
    omega
  have hdrawn := Outbox.commands_drawn hqueued a.settings.maxBatch a.settings.replyTimeout
  rw [hcommands, List.take_nil, List.drop_nil, List.map_nil, List.append_nil] at hdrawn
  refine ⟨?_, ?_⟩
  · rw [hbatch, Batch.ofCommands, Outbox.queuedCount, hdrawn]
    rfl
  · rw [← hdrawn]
    exact congrArg Outbox.commands houtbox

/-- An admissible answer to the first command that was handed out is accepted. -/
theorem submit (h : a.Serving) {request : Request} {rest : List Request}
    (hshipped : a.custody.outbox.shipped = request :: rest) {reply : Reply} {material : Bytes}
    (hreply : reply.Answers request material) :
    ∃ receipt b, a.submit reply = (.ok receipt, b) ∧ b.Serving ∧
      b.custody.outbox.shipped = rest ∧ b.custody.outbox.work < a.custody.outbox.work := by
  obtain ⟨receipt, t, hanswer, hworkable, hcapacity, hrest, hwork⟩ := h.workable.answer
    hshipped hreply.sequence_eq
    fun hyields hsuccess => ⟨hreply.length_pos hyields hsuccess, hreply.length_le⟩
  obtain ⟨store, hcommit, hstore⟩ := h.store.commit [(Custody.record, t.encode)]
  have hcall : a.submit reply = (.ok receipt, { a with store := store, custody := t }) := by
    rw [Agent.submit, requireInitialized, if_pos h.initialized, Reply.material,
      hreply.payload_eq, Hex.decode_encode]
    exact transact_eq_ok_iff.mpr ⟨t, store, hanswer, hcommit, rfl⟩
  exact ⟨receipt, _, hcall, ⟨hworkable, h.settings, hcapacity.trans h.capacity, h.initialized,
    hstore⟩, hrest, hwork⟩

end Serving

end Agent

namespace Courier

variable {c : Courier (Enclave σ) KeyOffice} {session : Nat}

/-- The outbox at the other end. -/
def outbox (c : Courier (Enclave σ) KeyOffice) : Outbox := c.endpoint.agent.custody.outbox

/-- The invariant of a poll: the agent can be reached through the session and can serve the relay,
and the key service gives admissible answers. -/
structure Working (session : Nat) (c : Courier (Enclave σ) KeyOffice) : Prop where
  agent : c.endpoint.agent.Serving
  service : c.service.Stocked
  not_poisoned : c.endpoint.poisoned = false
  session : session ∈ c.endpoint.sessions

namespace Working

/-- The requests of a round are those that are handed out, and the work is the same. If there are
none, then nothing is left. -/
theorem requests (h : c.Working session) (hshipped : c.outbox.shipped = []) :
    ∃ batch b, Session.requests c.endpoint session = (.ok batch, { c.endpoint with agent := b }) ∧
      b.Serving ∧ b.custody.outbox.shipped = batch.requests ∧
      b.custody.outbox.work = c.outbox.work ∧
      (batch.requests = [] → batch.remaining = 0 ∧ b.custody.outbox.commands = []) := by
  have hsound := h.agent.workable.sound
  have hdepth : c.endpoint.agent.custody.outbox.depth ≤ Settings.queueDepthCeiling := by
    have hroom := h.agent.workable.room
    rw [h.agent.capacity] at hroom
    exact hroom.trans (Settings.maxQueueDepth_le h.agent.settings)
  obtain ⟨polled, b, hpoll, hb, hhanded, hwork, hnone⟩ :=
    h.agent.poll (hsound.outbox.shipped_eq_nil_iff.mp hshipped)
  refine ⟨polled.batch, b, ?_, hb, hhanded, hwork, hnone⟩
  rw [Session.requests_eq_directly h.session hsound h.agent.workable.nextSequence_lt
      h.agent.settings hdepth,
    Enclave.directly_of_not_poisoned h.not_poisoned, hpoll]
  rfl

/-- **Every request that was handed out is answered and the answer is accepted**; after that there
is less work. -/
theorem carry (h : c.Working session) {request : Request} {rest : List Request}
    (hshipped : c.outbox.shipped = request :: rest) (report : PollReport) :
    ∃ c', c.carry session report request =
        ({ report with accepted := report.accepted + 1 }, c') ∧
      c'.Working session ∧ c'.endpoint.sessions = c.endpoint.sessions ∧
      c'.outbox.shipped = rest ∧ c'.outbox.work < c.outbox.work := by
  have hsound := h.agent.workable.sound
  obtain ⟨reply, material, o, hhandle, ho, hreply⟩ := h.service.handle request
  obtain ⟨receipt, b, hsubmit, hb, hrest, hwork⟩ := h.agent.submit hshipped hreply
  -- the reply fits into its buffer, so the session hands it in as it is
  have hsequence : reply.sequence < Outbox.sequenceBound := by
    obtain ⟨d, hd, -⟩ := hsound.outbox.shipped_without hshipped
    obtain ⟨hd, hnumber⟩ := hsound.outbox.get?_eq_some_iff.mp hd
    have hlt := hsound.outbox.sequence_lt d hd
    have hnext := h.agent.workable.nextSequence_lt
    rw [hreply.sequence_eq]
    omega
  have hagrees := Session.respond_agrees h.session hsound h.agent.workable.nextSequence_lt
    (Reply.length_encode_hex_le hsequence hreply.payload_eq hreply.length_le)
  rw [Enclave.directly_of_not_poisoned h.not_poisoned, hsubmit] at hagrees
  have hrespond : Session.respond c.endpoint session reply =
      (.ok true, { c.endpoint with agent := b }) := hagrees.eq_ok
  refine ⟨⟨c.settings, { c.endpoint with agent := b }, o⟩, ?_,
    ⟨hb, ho, h.not_poisoned, h.session⟩, rfl, hrest, hwork⟩
  rw [Courier.carry, hhandle]
  dsimp only
  rw [hrespond]

/-- All requests of a batch are answered and all answers are accepted. -/
theorem carryAll {requests : List Request} (h : c.Working session)
    (hshipped : c.outbox.shipped = requests) (report : PollReport) :
    ∃ c', c.carryAll session report requests =
        ({ report with accepted := report.accepted + requests.length }, c') ∧
      c'.Working session ∧ c'.endpoint.sessions = c.endpoint.sessions ∧
      c'.outbox.shipped = [] ∧ c'.outbox.work + requests.length ≤ c.outbox.work := by
  induction requests generalizing c report with
  | nil => exact ⟨c, rfl, h, rfl, hshipped, Nat.le_refl _⟩
  | cons request rest ih =>
    obtain ⟨d, hcarry, hd, hsessions, hleft, hless⟩ := h.carry hshipped report
    obtain ⟨c', hrest, hc', hsessions', hleft', hless'⟩ :=
      ih hd hleft { report with accepted := report.accepted + 1 }
    refine ⟨c', ?_, hc', hsessions'.trans hsessions, hleft', ?_⟩
    · rw [Courier.carryAll, hcarry]
      dsimp only
      rw [hrest, List.length_cons, Nat.add_assoc, Nat.add_comm 1]
    · rw [List.length_cons]
      omega

/-- **The rounds of a poll come to an end** before there are more of them than there was work, with
nothing left in the outbox. Every command delivered on the way has had its answer accepted. -/
theorem rounds {left : Nat} (h : c.Working session) (hshipped : c.outbox.shipped = [])
    (hwork : c.outbox.work < left) (report : PollReport) :
    ∃ rounds delivered c', c.rounds session report left =
        (.ok ⟨rounds, report.delivered + delivered, report.accepted + delivered, report.rejected⟩,
          c') ∧
      delivered ≤ c.outbox.work ∧ c'.Working session ∧
      c'.endpoint.sessions = c.endpoint.sessions ∧ c'.outbox.commands = [] := by
  induction left generalizing c report with
  | zero => exact absurd hwork (Nat.not_lt_zero _)
  | succ left ih =>
    obtain ⟨batch, b, hrequests, hb, hhanded, hsame, hnone⟩ := h.requests hshipped
    have hpolled : Working session ⟨c.settings, { c.endpoint with agent := b }, c.service⟩ :=
      ⟨hb, h.service, h.not_poisoned, h.session⟩
    rw [Courier.rounds, hrequests]
    dsimp only
    by_cases hempty : batch.requests = []
    · -- nothing came back, so this round is the last
      obtain ⟨hremaining, hcommands⟩ := hnone hempty
      rw [if_pos ⟨List.isEmpty_iff.mpr hempty, hremaining⟩]
      exact ⟨_, 0, _, rfl, Nat.zero_le _, hpolled, rfl, hcommands⟩
    · rw [if_neg fun hstop => hempty (List.isEmpty_iff.mp hstop.1)]
      have hpos : 0 < batch.requests.length := List.length_pos_iff.mpr hempty
      obtain ⟨d, hcarried, hd, hsessions, hleft, hless⟩ := hpolled.carryAll hhanded
        ⟨report.rounds + 1, report.delivered + batch.requests.length, report.accepted,
          report.rejected⟩
      rw [hcarried]
      dsimp only
      have hbefore : (Courier.outbox ⟨c.settings, { c.endpoint with agent := b }, c.service⟩).work =
          c.outbox.work := hsame
      obtain ⟨rounds, delivered, c', hrounds, hdelivered, hc', hsessions', hcommands⟩ :=
        ih hd hleft (by omega) ⟨report.rounds + 1, report.delivered + batch.requests.length,
          report.accepted + batch.requests.length, report.rejected⟩
      refine ⟨rounds, batch.requests.length + delivered, c', ?_, by omega, hc',
        hsessions'.trans hsessions, hcommands⟩
      rw [hrounds, Nat.add_assoc, Nat.add_assoc]

end Working

/-- **A poll comes to an end.** Take a reachable enclave whose agent is initialized and whose outbox
is within its bound and holds nothing that was handed out, over any store whose commits succeed, and
a key service that gives admissible answers. A poll with more rounds than twice the number of
commands then has every command answered and every answer accepted. Afterwards the outbox is empty,
every entry is ready or failed, and the sessions that were open are open. -/
theorem pollOnce_converges {e : Enclave MemoryStore} (h : e.Reachable)
    (hinit : e.agent.isInitialized = true)
    (hqueued : ∀ c ∈ e.agent.custody.outbox.commands, c.status = .queued)
    (hroom : e.agent.custody.outbox.depth ≤ e.agent.custody.outbox.capacity)
    {store : σ} (hstore : Store.Steady store) {office : KeyOffice} (hoffice : office.Stocked)
    {settings : CourierSettings}
    (hrounds : 2 * e.agent.custody.outbox.depth < settings.maxRounds) :
    ∃ report c', pollOnce ⟨settings, e.withStore store, office⟩ = (.ok report, c') ∧
      report.rejected = 0 ∧ report.accepted = report.delivered ∧
      report.delivered ≤ 2 * e.agent.custody.outbox.depth ∧
      c'.endpoint.agent.custody.outbox.commands = [] ∧
      (∀ entry ∈ c'.endpoint.agent.custody.keyring.toList,
        entry.status = .ready ∨ entry.status = .failed) ∧
      c'.endpoint.sessions = e.sessions := by
  obtain ⟨hreachable, hpoisoned, hnew⟩ := h.lawful
  have ha := hreachable.lawful
  have hnumbers : e.agent.custody.outbox.nextSequence + e.agent.custody.outbox.searches <
      Outbox.sequenceBound := by
    have hsearches := e.agent.custody.outbox.searches_le
    have hcapacity := ha.capacity_le
    have hlast := hreachable.numbersLast
    rw [Outbox.NumbersLast] at hlast
    omega
  have hworking : Working e.nextSession
      ⟨settings, (e.withStore store).openSession.2, office⟩ :=
    ⟨⟨⟨ha.sound, hroom, hnumbers⟩, ha.settings, ha.capacity, hinit, hstore⟩, hoffice, hpoisoned,
      List.mem_insert_self⟩
  have hshipped : e.agent.custody.outbox.shipped = [] :=
    ha.sound.outbox.shipped_eq_nil_iff.mpr hqueued
  have hwork := e.agent.custody.outbox.work_le
  obtain ⟨rounds, delivered, c', hpoll, hdelivered, hc', hsessions, hcommands⟩ :=
    hworking.rounds hshipped (Nat.lt_of_le_of_lt hwork hrounds) ⟨0, 0, 0, 0⟩
  have hopen : Endpoint.openSession (e.withStore store) =
      (.ok e.nextSession, (e.withStore store).openSession.2) := rfl
  refine ⟨⟨rounds, 0 + delivered, 0 + delivered, 0⟩,
    ⟨c'.settings, Endpoint.closeSession c'.endpoint e.nextSession, c'.service⟩, ?_, rfl, rfl, ?_,
    hcommands, fun entry => hc'.agent.workable.sound.coherent.settled hcommands, ?_⟩
  · rw [pollOnce, hopen]
    dsimp only
    rw [hpoll]
  · rw [Nat.zero_add]
    exact hdelivered.trans hwork
  · -- the session of the poll is the only one that is closed
    have hclosed : (Endpoint.closeSession c'.endpoint e.nextSession).sessions =
        c'.endpoint.sessions.filter (· ≠ e.nextSession) := rfl
    have hfresh : e.nextSession ∉ e.sessions := fun h => Nat.lt_irrefl _ (hnew _ h)
    have hopened : c'.endpoint.sessions = e.nextSession :: e.sessions :=
      hsessions.trans (List.insert_of_not_mem hfresh)
    rw [hclosed, hopened, List.filter_cons_of_neg (by simp), List.filter_eq_self]
    intro session hsession
    rw [decide_eq_true_iff]
    exact fun heq => hfresh (heq ▸ hsession)

/-- An enclave with an open session, where a search and a deletion wait. -/
def busy : Enclave MemoryStore :=
  (Enclave.ofAgent (Agent.opened.serveAll (Agent.introduction Agent.sampleKey ++
    [.delete ⟨Agent.sampleKey.owner, "l"⟩]))).openSession.2

/-- A key service that holds no key yet. -/
def newOffice : KeyOffice := KeyOffice.empty fun _ => List.replicate 32 0

/-- Five rounds are enough for them. -/
theorem pollOnce_converges_busy :
    ∃ report c', pollOnce ⟨⟨1000, 5⟩, busy, newOffice⟩ = (.ok report, c') ∧
      report.rejected = 0 ∧ report.accepted = report.delivered ∧ report.delivered ≤ 4 ∧
      c'.endpoint.agent.custody.outbox.commands = [] ∧
      (∀ entry ∈ c'.endpoint.agent.custody.keyring.toList,
        entry.status = .ready ∨ entry.status = .failed) ∧
      c'.endpoint.sessions = [1] := by
  have hreachable : busy.Reachable :=
    .openSession (.ofAgent ⟨_, Agent.run_opened.serveAll _ (by decide +kernel)⟩) (by decide +kernel)
  have hinit : busy.agent.isInitialized = true := by decide +kernel
  have hqueued : ∀ c ∈ busy.agent.custody.outbox.commands, c.status = .queued := by
    decide +kernel
  have hroom : busy.agent.custody.outbox.depth ≤ busy.agent.custody.outbox.capacity := by
    decide +kernel
  have hdepth : busy.agent.custody.outbox.depth = 2 := by decide +kernel
  have hsessions : busy.sessions = [1] := by decide +kernel
  have hstore : busy.agent.store.failNext = false := by decide +kernel
  have hoffice : newOffice.Stocked := .empty fun _ => ⟨by decide, by decide⟩
  have hrounds : 2 * busy.agent.custody.outbox.depth < (⟨1000, 5⟩ : CourierSettings).maxRounds := by
    rw [hdepth]
    decide
  have hconverges := pollOnce_converges hreachable hinit hqueued hroom
    (MemoryStore.steady hstore) hoffice hrounds
  rw [hdepth, hsessions] at hconverges
  exact hconverges

end Courier

end KeyCustody
