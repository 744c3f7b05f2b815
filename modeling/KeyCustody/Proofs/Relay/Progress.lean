import KeyCustody.Proofs.Agent.Backpressure
import KeyCustody.Proofs.Agent.Traffic
import KeyCustody.Proofs.Relay.Enclave
import KeyCustody.Proofs.Relay.Exchange
import KeyCustody.Proofs.Relay.KeyService

/-!
# What a move of an exchange can do

`Exchange.Step` lists what a move can do to keys, commands and requests on their way. Whatever a
call does at the custodian, for these it comes to nothing, to the end of all of them, or to a
transition (`Agent.Effect.upshot`); a poll and a reply through a session are calls or are lost
(`Session.requests_cases`, `Session.respond_cases`). So the list is complete (`Exchange.step_move`),
and every invariant of an exchange is a case analysis over it.

Nothing gets out of order on the way: a transition adds requests at the end
(`Exchange.unhandled_of_transition`), and the office takes them from the front. The proviso is that
sequence numbers last. No move takes numbers back (`Exchange.nextSequence_le_run`), so they last all
through a run if they do in its end.
-/

namespace KeyCustody

variable {σ : Type}

namespace Agent

variable {a b : Agent σ} {call : Call} {result : Except Fault Answer}

/-! ### The custodian over any store -/

/-- The invariant of an agent that says nothing about its store: its state is sound and within its
bounds, and nothing is held without an anchor. -/
structure Tidy (a : Agent σ) : Prop where
  sound : a.custody.Sound
  settings : a.settings.check = .ok ()
  capacity : a.custody.outbox.capacity = a.settings.maxQueueDepth
  depth_le : a.custody.outbox.depth ≤ a.settings.maxQueueDepth
  empty : a.isInitialized = false →
    a.custody.keyring = Keyring.empty ∧ a.custody.outbox.commands = []

/-- The requests that the outcome of a call hands out. -/
def handed : Except Fault Answer → List Request
  | .ok answer => answer.delivered
  | .error _ => []

/-- What a call comes to for keys and commands: nothing, the end of all of them, or a
transition. -/
inductive Upshot (a b : Agent σ) (call : Call) : Except Fault Answer → Prop
  | kept {result : Except Fault Answer} (hkeyring : b.custody.keyring = a.custody.keyring)
      (houtbox : b.custody.outbox = a.custody.outbox) (hinit : b.isInitialized = a.isInitialized)
      (hhanded : handed result = []) : Upshot a b call result
  | cleared {result : Except Fault Answer} (hclear : call = .close ∨ a.isInitialized = false)
      (hcustody : b.custody = a.blank) (hhanded : handed result = []) : Upshot a b call result
  | taken {answer : Answer} (hinit : b.isInitialized = true)
      (ht : a.custody.Transition a.settings.replyTimeout call answer b.custody) :
    Upshot a b call (.ok answer)

/-- Only a poll hands out requests. -/
theorem Upshot.handed_eq_nil (h : a.Upshot b call result)
    (hcall : ∀ count accept, call ≠ .poll count accept) : handed result = [] := by
  cases h with
  | kept _ _ _ hhanded | cleared _ _ hhanded => exact hhanded
  | taken _ ht =>
    generalize b.custody = t at ht
    cases ht with
    | poll => exact absurd rfl (hcall _ _)
    | register | search | generate | delete | destroy | exit | submit => rfl

variable [Store σ]

/-- Whatever a call does, the agent stays tidy. -/
theorem Effect.tidy (h : a.Effect call result b) (ha : a.Tidy) : b.Tidy := by
  have hblank : ∀ store anchor, ({ a with
      store := store, anchor := anchor, custody := a.blank } : Agent σ).Tidy := fun _ _ =>
    ⟨.freshAfter _ _, ha.settings, rfl, Nat.zero_le _, fun _ => ⟨rfl, rfl⟩⟩
  cases h with
  | refused | found => exact ha
  | saved hinit ht =>
    have hdepth := ht.depth_le
    rw [ha.capacity] at hdepth
    exact ⟨ht.sound ha.sound, ha.settings, ht.follows.capacity_eq.trans ha.capacity,
      hdepth.trans (Nat.max_le.mpr ⟨ha.depth_le, Nat.le_refl _⟩),
      fun hnot => absurd (hinit.symm.trans hnot) nofun⟩
  | unsaved | unprovisioned | unerased =>
    exact ⟨ha.sound, ha.settings, ha.capacity, ha.depth_le, ha.empty⟩
  | provisioned | closed | unclosed => exact hblank _ _
  | attested | revoked =>
    exact ⟨ha.sound.withGate _, ha.settings, ha.capacity, ha.depth_le, ha.empty⟩

/-- The list is complete. -/
theorem Effect.upshot (h : a.Effect call result b) : a.Upshot b call result := by
  cases h with
  | refused | found | unsaved | unprovisioned | attested | revoked | unerased =>
    exact .kept rfl rfl rfl rfl
  | saved hinit ht => exact .taken hinit ht
  | provisioned hinit => exact .cleared (.inr hinit) rfl rfl
  | closed | unclosed => exact .cleared (.inl rfl) rfl rfl

end Agent

/-! ### Calls through a session that may be closed -/

/-- An invocation in a session that is not open is refused. -/
private theorem Enclave.invoke_of_not_mem [Store σ] {e : Enclave σ} {session : Nat}
    (h : session ∉ e.sessions) (command : Nat) (block : Block) :
    Endpoint.invoke e session command block =
      (.error (.generic (.noSession session)), block, e) :=
  if_pos h

/-- A reply that does not fit into its slot never reaches the agent. -/
private theorem Agent.relay_reply_of_long [Store σ] {a : Agent σ} {octets : Bytes}
    (h : Anchor.maxCertificateSize < octets.length) {α : Type}
    (read : Except Fault Unit → Block → Except Fault α) :
    (a.relay .reply ⟨.memoryIn (.input octets), .valueOut 0 0, .empty, .empty⟩ read).2 = a := by
  have hinvoke : ∀ block, a.invoke RelayCommand.reply.id block = a.invokeReply block :=
    fun _ => rfl
  obtain ⟨fault, hchecked⟩ := MemoryRef.checked_input_eq_error "reply buffer" (.inr h)
  simp only [relay, hinvoke, invokeReply, hchecked, bind, Except.bind]

namespace Session

variable [Store σ] {e : Enclave σ}

/-- A poll through a session that may be closed is refused, or is a poll. -/
theorem requests_cases (he : e.agent.Tidy) (hnumbers : e.agent.custody.outbox.NumbersLast)
    (session : Nat) :
    (∃ fault, requests e session = (.error fault, e)) ∨
      requests e session =
        ((e.agent.poll e.agent.settings.maxBatch fun _ => .ok ()).1.map (·.batch),
          { e with agent := (e.agent.poll e.agent.settings.maxBatch fun _ => .ok ()).2 }) := by
  by_cases hsession : session ∈ e.sessions
  · rw [requests_eq_directly hsession he.sound hnumbers.nextSequence_lt he.settings
      (he.depth_le.trans (Settings.maxQueueDepth_le he.settings))]
    by_cases hpoisoned : e.poisoned = true
    · refine .inl ⟨.generic .poisoned, ?_⟩
      rw [Enclave.directly, Enclave.withAgent, if_pos hpoisoned]
    · rw [Enclave.directly_of_not_poisoned (Bool.not_eq_true _ ▸ hpoisoned)]
      exact .inr rfl
  · refine .inl ⟨.generic (.noSession session), ?_⟩
    simp only [requests, Enclave.invoke_of_not_mem hsession, Except.bind]

/-- A reply that is handed in through a session that may be closed is lost, or is submitted. -/
theorem respond_cases (he : e.agent.Tidy) (hnumbers : e.agent.custody.outbox.NumbersLast)
    (session : Nat) (reply : Reply) :
    (respond e session reply).2 = e ∨
      (respond e session reply).2 = { e with agent := (e.agent.submit reply).2 } := by
  by_cases hsession : session ∈ e.sessions
  · have hinvoke : respond e session reply = e.directly _ :=
      Enclave.invoke_eq_directly hsession .reply
        ⟨.memoryIn (.input reply.encode), .valueOut 0 0, .empty, .empty⟩
        (fun result block => result.map fun _ =>
          decide ((block.second.valueOut?.map (·.1)) = some 1)) fun _ => rfl
    rw [hinvoke]
    by_cases hpoisoned : e.poisoned = true
    · rw [Enclave.directly, Enclave.withAgent, if_pos hpoisoned]
      exact .inl rfl
    rw [Enclave.directly_of_not_poisoned (Bool.not_eq_true _ ▸ hpoisoned)]
    rcases Nat.lt_or_ge Anchor.maxCertificateSize reply.encode.length with hlong | hfits
    · rw [Agent.relay_reply_of_long hlong]
      exact .inl rfl
    · rw [(Agent.relay_submit he.sound hnumbers.nextSequence_lt hfits).state]
      exact .inr rfl
  · refine .inl ?_
    simp only [respond, Enclave.invoke_of_not_mem hsession]

end Session

namespace Exchange

variable {x y : Exchange σ}

/-! ### The steps of an exchange -/

/-- The requests that a call adds to what is underway. -/
def ordered (x : Exchange σ) (call : Call) (answer : Answer) : List Request :=
  (Order.numbered x.custody.outbox.nextSequence (x.custody.orders call answer)).map
    Request.ofCommand

theorem map_sequence_ordered (x : Exchange σ) (call : Call) (answer : Answer) :
    (x.ordered call answer).map (·.sequence) =
      List.range' x.custody.outbox.nextSequence (x.custody.orders call answer).length := by
  rw [ordered, List.map_map]
  exact Order.map_sequence_numbered _ _

/-- A request to end a key is ordered only by a call that is to end the key. -/
theorem strikes_of_mem_ordered {call : Call} {answer : Answer} {request : Request}
    (h : request ∈ x.ordered call answer) (hends : request.kind.yieldsKey = false) :
    call.Strikes request.key := by
  obtain ⟨c, hc, rfl⟩ := List.mem_map.mp h
  have hmem := List.mem_map_of_mem (f := Command.order) hc
  rw [Order.map_order_numbered] at hmem
  exact Custody.strikes_of_mem_orders hmem hends

/-- What a move can do to keys, commands and what is underway: nothing, apart from the loss of a
reply; the end of all that the custodian knows; a transition, which may add requests at the end and
use up the reply; an answer of the office to the first request; or a key that it is provided
with. -/
inductive Step (x y : Exchange σ) : Move σ → Prop
  | idle {m : Move σ} (hkeyring : y.custody.keyring = x.custody.keyring)
      (houtbox : y.custody.outbox = x.custody.outbox)
      (hinit : y.agent.isInitialized = x.agent.isInitialized) (hrequests : y.requests = x.requests)
      (hanswered : y.answered = x.answered ∨ y.answered = none)
      (hkeys : y.office.keys = x.office.keys) (hrevoked : y.office.revoked = x.office.revoked) :
    Step x y m
  | cleared {m : Move σ} (hclear : m = .call .close rfl ∨ x.agent.isInitialized = false)
      (hcustody : y.custody = x.agent.blank) (hrequests : y.requests = x.requests)
      (hanswered : y.answered = x.answered ∨ y.answered = none) (hoffice : y.office = x.office) :
    Step x y m
  | taken {m : Move σ} {call : Call} {answer : Answer} {limit : Option Nat}
      (hinit : y.agent.isInitialized = true)
      (ht : x.custody.Transition limit call answer y.custody)
      (hunhandled : y.unhandled = x.unhandled ++ x.ordered call answer)
      (hanswered : y.answered = x.answered ∨ y.answered = none)
      (hreply : ∀ reply, call = .submit reply → ∃ request, x.answered = some (request, reply))
      (hoffice : y.office = x.office) :
    Step x y m
  | consulted {m : Move σ} {request : Request} (hagent : y.agent = x.agent)
      (hanswered : x.answered = none) (hunhandled : x.unhandled = request :: y.unhandled)
      (hreply : y.answered = some (request, (x.office.handle request).1))
      (hoffice : y.office = (x.office.handle request).2) :
    Step x y m
  | preloaded {key : KeyRef} {material : Bytes} (hagent : y.agent = x.agent)
      (hrequests : y.requests = x.requests) (hanswered : y.answered = x.answered)
      (hoffice : y.office = x.office.preload key material) :
    Step x y (.preload key material)

/-- What waits after a transition, with what it has handed out before it, is what waited before it
and what it has ordered. -/
theorem unhandled_of_transition {limit : Option Nat} {call : Call} {answer : Answer}
    (hx : x.custody.Sound) (ht : x.custody.Transition limit call answer y.custody)
    (hrequests : y.requests = x.requests ++ answer.delivered) :
    y.unhandled = x.unhandled ++ x.ordered call answer := by
  obtain ⟨handed, hdelivered, hchange⟩ := ht.change
  have hwaiting := congrArg (List.map Request.ofCommand) (hchange.waiting_eq hx.outbox)
  rw [List.map_append, List.map_append, ← hdelivered] at hwaiting
  rw [unhandled, unhandled, hrequests, List.append_assoc, List.append_assoc, ordered, hwaiting]

private theorem step_refl (hx : x.agent.Tidy) (m : Move σ) : x.agent.Tidy ∧ x.Step x m :=
  ⟨hx, .idle rfl rfl rfl rfl (.inl rfl) rfl rfl⟩

variable [Store σ]

/-- A call of the custodian is a step, if the courier then has the requests that it handed out. -/
private theorem step_of_effect {m : Move σ} {call : Call} {result : Except Fault Answer}
    (hx : x.agent.Tidy) (h : x.agent.Effect call result y.agent)
    (hclose : call = .close → m = .call .close rfl)
    (hrequests : y.requests = x.requests ++ Agent.handed result)
    (hanswered : y.answered = x.answered ∨ y.answered = none)
    (hreply : ∀ reply, call = .submit reply → ∃ request, x.answered = some (request, reply))
    (hoffice : y.office = x.office) : y.agent.Tidy ∧ x.Step y m := by
  refine ⟨h.tidy hx, ?_⟩
  cases h.upshot with
  | kept hkeyring houtbox hinit hhanded =>
    rw [hhanded, List.append_nil] at hrequests
    exact .idle hkeyring houtbox hinit hrequests hanswered (by rw [hoffice]) (by rw [hoffice])
  | cleared hclear hcustody hhanded =>
    rw [hhanded, List.append_nil] at hrequests
    exact .cleared (hclear.imp_left hclose) hcustody hrequests hanswered hoffice
  | taken hinit ht =>
    exact .taken hinit ht (unhandled_of_transition hx.sound ht hrequests) hanswered hreply hoffice

private theorem step_call (hx : x.agent.Tidy) {call : Call} (hcall : call.isRelay = false) :
    (x.serve call).2.agent.Tidy ∧ x.Step (x.serve call).2 (.call call hcall) := by
  rcases x.serve_cases call with ⟨fault, heq⟩ | heq <;> rw [heq]
  · exact step_refl hx _
  have heffect := Agent.effect_serve x.agent call
  have hhanded := heffect.upshot.handed_eq_nil fun _ _ heq => by
    rw [heq] at hcall
    cases hcall
  refine step_of_effect hx heffect (fun hclose => ?_) ?_ (.inl rfl) (fun _ heq => ?_) rfl
  · subst hclose
    rfl
  · rw [hhanded, List.append_nil]
    rfl
  · rw [heq] at hcall
    cases hcall

private theorem step_fetch (hx : x.agent.Tidy) (hnumbers : x.custody.outbox.NumbersLast)
    (session : Nat) :
    (x.move (.fetch session)).agent.Tidy ∧ x.Step (x.move (.fetch session)) (.fetch session) := by
  obtain ⟨c, _ | ⟨request, rest⟩, _ | answer⟩ := x
  · have hmove : move ⟨c, [], none⟩ (.fetch session) =
        fetched ⟨c, [], none⟩ (Session.requests c.endpoint session) := rfl
    rw [hmove]
    rcases Session.requests_cases hx hnumbers session with ⟨fault, heq⟩ | heq <;> rw [heq]
    · exact step_refl hx _
    have heffect := Agent.effect_serve c.endpoint.agent
      (.poll c.endpoint.agent.settings.maxBatch fun _ => .ok ())
    rw [Agent.serve, Agent.wrap] at heffect
    generalize c.endpoint.agent.poll _ _ = outcome at heffect ⊢
    obtain ⟨fault | polled, b⟩ := outcome <;>
      exact step_of_effect hx heffect (fun hclose => by cases hclose) rfl (.inl rfl)
        (fun _ hsubmit => by cases hsubmit) rfl
  · exact step_refl hx _
  · exact step_refl hx _
  · exact step_refl hx _

private theorem step_deliver (hx : x.agent.Tidy) (hnumbers : x.custody.outbox.NumbersLast)
    (session : Nat) :
    (x.move (.deliver session)).agent.Tidy ∧
      x.Step (x.move (.deliver session)) (.deliver session) := by
  obtain ⟨c, requests, _ | ⟨request, reply⟩⟩ := x
  · exact step_refl hx _
  have hmove : move ⟨c, requests, some (request, reply)⟩ (.deliver session) =
      ⟨{ c with endpoint := (Session.respond c.endpoint session reply).2 }, requests, none⟩ := rfl
  rw [hmove]
  rcases Session.respond_cases hx hnumbers session reply with heq | heq <;> rw [heq]
  · exact ⟨hx, .idle rfl rfl rfl rfl (.inr rfl) rfl rfl⟩
  have heffect := Agent.effect_serve c.endpoint.agent (.submit reply)
  have hhanded := heffect.upshot.handed_eq_nil nofun
  refine step_of_effect hx heffect nofun ?_ (.inr rfl) (fun other heq => ?_) rfl
  · rw [hhanded, List.append_nil]
  · exact ⟨request, by rw [Call.submit.inj heq]⟩

/-- **What a move can do** as long as sequence numbers last: it keeps the agent tidy, and it is a
step on the list. -/
theorem step_move (hx : x.agent.Tidy) (hnumbers : x.custody.outbox.NumbersLast) (m : Move σ) :
    (x.move m).agent.Tidy ∧ x.Step (x.move m) m := by
  cases m with
  | call call hcall => exact step_call hx hcall
  | fetch session => exact step_fetch hx hnumbers session
  | deliver session => exact step_deliver hx hnumbers session
  | consult =>
    obtain ⟨c, _ | ⟨request, rest⟩, _ | answer⟩ := x
    · exact step_refl hx _
    · exact step_refl hx _
    · exact ⟨hx, .consulted rfl rfl rfl rfl rfl⟩
    · exact step_refl hx _
  | preload key material => exact ⟨hx, .preloaded rfl rfl rfl rfl⟩
  | disturb | enrol | openSession | closeSession =>
    exact ⟨⟨hx.sound, hx.settings, hx.capacity, hx.depth_le, hx.empty⟩,
      .idle rfl rfl rfl rfl (.inl rfl) rfl rfl⟩

/-! ### Numbers only go on -/

omit [Store σ] in
private theorem custody_fetched (x : Exchange σ) (outcome : Except Fault Batch × Enclave σ) :
    (x.fetched outcome).custody = outcome.2.agent.custody := by
  obtain ⟨fault | batch, e⟩ := outcome <;> rfl

/-- An invocation takes no numbers back, whatever it is and whether it gets to the agent. -/
private theorem nextSequence_le_invoke (e : Enclave σ) (session command : Nat) (block : Block) :
    e.agent.custody.outbox.nextSequence ≤
      (e.invoke session command block).2.2.agent.custody.outbox.nextSequence := by
  rcases e.invoke_cases session command block with heq | ⟨call, heq⟩ <;> rw [heq]
  exact (Agent.effect_serve e.agent call).nextSequence_le

/-- No move takes numbers back. -/
theorem nextSequence_le_move (x : Exchange σ) (m : Move σ) :
    x.custody.outbox.nextSequence ≤ (x.move m).custody.outbox.nextSequence := by
  cases m with
  | call call hcall =>
    have hmove : x.move (.call call hcall) = (x.serve call).2 := rfl
    rw [hmove]
    rcases x.serve_cases call with ⟨fault, heq⟩ | heq <;> rw [heq]
    exact (Agent.effect_serve x.agent call).nextSequence_le
  | fetch session =>
    obtain ⟨c, _ | ⟨request, rest⟩, _ | answer⟩ := x
    · have hmove : move ⟨c, [], none⟩ (.fetch session) =
          fetched ⟨c, [], none⟩ (Session.requests c.endpoint session) := rfl
      rw [hmove, custody_fetched]
      exact nextSequence_le_invoke c.endpoint session RelayCommand.poll.id
        ⟨.memoryOut (.output maxRequestBuffer), .valueOut 0 0, .empty, .empty⟩
    · exact Nat.le_refl _
    · exact Nat.le_refl _
    · exact Nat.le_refl _
  | deliver session =>
    obtain ⟨c, requests, _ | ⟨request, reply⟩⟩ := x
    · exact Nat.le_refl _
    · exact nextSequence_le_invoke c.endpoint session RelayCommand.reply.id
        ⟨.memoryIn (.input reply.encode), .valueOut 0 0, .empty, .empty⟩
  | consult =>
    obtain ⟨c, _ | ⟨request, rest⟩, _ | answer⟩ := x <;> exact Nat.le_refl _
  | disturb | preload | enrol | openSession | closeSession => exact Nat.le_refl _

theorem nextSequence_le_run (x : Exchange σ) (moves : List (Move σ)) :
    x.custody.outbox.nextSequence ≤ (x.run moves).custody.outbox.nextSequence := by
  induction moves generalizing x with
  | nil => exact Nat.le_refl _
  | cons m rest ih => exact (x.nextSequence_le_move m).trans (ih _)

/-- If sequence numbers last after moves, they last before them. -/
theorem numbersLast_of_run {moves : List (Move σ)}
    (h : (x.run moves).custody.outbox.NumbersLast) : x.custody.outbox.NumbersLast :=
  h.mono (x.nextSequence_le_run moves)

end Exchange

end KeyCustody
