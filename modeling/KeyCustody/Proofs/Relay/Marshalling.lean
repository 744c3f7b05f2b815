import KeyCustody.Proofs.Agent.Backpressure
import KeyCustody.Proofs.Wire
import KeyCustody.Relay.Session

/-!
# Arguments and results in slots

The calls of a session put their arguments into slots and read the results out of them again. What
an application of `Agent.invoke` to such a block does is what the call of the agent does, and what
is read back is its answer: input arrives as it was sent (`MemoryRef.checked_input_cases`,
`Measurement.list?_flatMap`), output has room and is read as it was written
(`MemoryRef.bytes_write_output`), and the batch that a poll commits is the one that comes back
(`Agent.relay_poll`).

The two ways may fail with different faults, where the one finds a buffer too large and the other
its contents; this is why they are compared by `SameOutcome`.
-/

namespace KeyCustody

/-- Two outcomes are alike: both are faults, or both are the same answer, with the same state after
them. -/
structure SameOutcome {α σ : Type} (x y : Except Fault α × σ) : Prop where
  answer : x.1.toOption = y.1.toOption
  state : x.2 = y.2

theorem SameOutcome.of_eq {α σ : Type} {x y : Except Fault α × σ} (h : x = y) : SameOutcome x y :=
  ⟨congrArg (·.1.toOption) h, congrArg (·.2) h⟩

/-- What is like a success is this success. -/
theorem SameOutcome.eq_ok {α σ : Type} {x : Except Fault α × σ} {answer : α} {s : σ}
    (h : SameOutcome x (.ok answer, s)) : x = (.ok answer, s) := by
  obtain ⟨result, t⟩ := x
  obtain ⟨hanswer, rfl⟩ := h
  rcases result with fault | other
  · cases hanswer
  · rw [Option.some.inj hanswer]

/-! ### Slots -/

namespace MemoryRef

/-- Input passes the check of its slot exactly if it passes the check of a part of the anchor with
the same bound, and it arrives as it was sent. -/
theorem checked_input_cases (data : Bytes) (max : Nat) (label part : String) :
    (Anchor.checkPart part max data = .ok () ∧ (input data).checked max label = .ok data ∧
        data.length ≤ max) ∨
      ∃ f g, Anchor.checkPart part max data = .error f ∧
        (input data).checked max label = .error g := by
  have hempty : data.isEmpty = true ↔ data.length = 0 := List.isEmpty_iff_length_eq_zero
  rw [Anchor.checkPart, checked, input]
  dsimp only
  by_cases hsize : data.length = 0 ∨ max < data.length
  · refine .inr ⟨_, _, if_pos (by rwa [hempty]), if_pos ?_⟩
    tauto
  · refine .inl ⟨if_neg (by rwa [hempty]), ?_, by omega⟩
    rw [if_neg (by omega), List.take_length]

theorem checked_input {data : Bytes} {max : Nat} {label : String} (hpos : 0 < data.length)
    (hle : data.length ≤ max) : (input data).checked max label = .ok data := by
  rw [checked, input]
  dsimp only
  rw [if_neg (by omega), List.take_length]

theorem checked_input_eq_error {data : Bytes} {max : Nat} (label : String)
    (h : data.length = 0 ∨ max < data.length) :
    ∃ fault, (input data).checked max label = .error fault := by
  refine ⟨_, if_pos ?_⟩
  rw [input]
  tauto

theorem checked_output {capacity max : Nat} {label : String} (hpos : 0 < capacity)
    (hle : capacity ≤ max) :
    (output capacity).checked max label = .ok (List.replicate capacity 0) := by
  have hlength : (List.replicate capacity (0 : UInt8)).length = capacity :=
    List.length_replicate
  rw [checked, output]
  dsimp only
  rw [if_neg (by omega), List.take_of_length_le (by omega)]

theorem capacity_output (capacity : Nat) : (output capacity).capacity = capacity := by
  simp [MemoryRef.capacity, output]

/-- Output that has room is read as it was written. -/
theorem bytes_write_output {capacity : Nat} {data : Bytes} (h : data.length ≤ capacity) :
    ((output capacity).write data).2.bytes = data := by
  have hroom : ¬ (output capacity).capacity < data.length := by
    rw [capacity_output]
    omega
  rw [write, if_neg hroom]
  simp [bytes, output]

end MemoryRef

namespace Measurement

theorem length_flatMap_octets (measurements : List Measurement) :
    (measurements.flatMap (·.octets)).length = measurements.length * size := by
  induction measurements with
  | nil => rfl
  | cons m rest ih =>
    rw [List.flatMap_cons, List.length_append, ih, m.length_octets, List.length_cons,
      Nat.add_one_mul, Nat.add_comm]
    rfl

private theorem take?_flatMap (measurements : List Measurement) :
    take? measurements.length (measurements.flatMap (·.octets)) = some measurements := by
  induction measurements with
  | nil => rfl
  | cons m rest ih =>
    have hlength : m.octets.length = size := m.length_octets
    have hfirst : ofOctets? m.octets = some m := by rw [ofOctets?, dif_pos m.length_octets]
    rw [List.flatMap_cons, List.length_cons, take?, List.take_left' hlength,
      List.drop_left' hlength, hfirst, ih]

/-- Measurements one after the other are read one by one. -/
theorem list?_flatMap {measurements : List Measurement} (hpos : 0 < measurements.length)
    (hle : measurements.length ≤ maxPerRegistration) :
    list? (measurements.flatMap (·.octets)) measurements.length = some measurements := by
  rw [list?, if_pos ⟨hpos, hle, length_flatMap_octets measurements⟩, take?_flatMap]

end Measurement

/-! ### Polls -/

namespace Outbox

private theorem status_age_ne_delivered (c : Command) : (age c).status ≠ .delivered := by
  rw [age]
  cases hc : c.status <;> simp [CommandStatus.isShipped, hc]

/-- Where no command counts as just delivered, handing out commands delivers these and no others. -/
private theorem filter_delivered_deliver (count : Nat) {commands : List Command}
    (h : ∀ c ∈ commands, c.status ≠ .delivered) :
    (deliver count commands).filter (·.status = .delivered) =
      ((commands.filter (·.status = .queued)).take count).map
        fun c => { c with status := .delivered } := by
  fun_induction deliver count commands with
  | case1 commands => simpa using h
  | case2 => rfl
  | case3 count c rest hc ih =>
    simpa [hc] using ih fun d hd => h d (List.mem_cons_of_mem _ hd)
  | case4 count c rest hc ih =>
    have hfirst := h c (List.mem_cons_self ..)
    simpa [hc, hfirst] using ih fun d hd => h d (List.mem_cons_of_mem _ hd)

end Outbox

theorem Settings.maxBatch_bounds {settings : Settings} (h : settings.check = .ok ()) :
    0 < settings.maxBatch ∧ settings.maxBatch ≤ Outbox.maxPerPoll := by
  rw [check] at h
  split_ifs at h with _ hbatch
  have hceiling : batchCeiling = Outbox.maxPerPoll := rfl
  omega

namespace Custody

variable {s t : Custody} {count : Nat} {limit : Option Nat} {polled : Polled}

/-- A poll for an admissible number of commands succeeds. -/
theorem exists_poll (s : Custody) (hpos : 0 < count) (hle : count ≤ Outbox.maxPerPoll)
    (limit : Option Nat) : ∃ polled t, s.poll count limit = .ok (polled, t) := by
  have hcount : ¬ (count = 0 ∨ Outbox.maxPerPoll < count) := by omega
  rw [poll, Outbox.draw, if_neg hcount]
  exact ⟨_, _, rfl⟩

/-- The commands that are delivered after a poll are those that it hands out, and no others. -/
theorem delivered_poll (h : s.poll count limit = .ok (polled, t)) :
    (t.outbox.commands.filter (·.status = .delivered)).map Request.ofCommand =
      polled.batch.requests := by
  obtain ⟨draw, q, hdraw, rfl, rfl⟩ := poll_eq_ok h
  obtain ⟨-, -, rfl, hcommands, -⟩ := Outbox.draw_eq_ok hdraw
  rw [outbox_foldl_expire, Batch.ofCommands, hcommands]
  refine congrArg _ (Outbox.filter_delivered_deliver count fun c hc => ?_)
  obtain ⟨d, -, rfl⟩ := List.mem_map.mp hc
  exact Outbox.status_age_ne_delivered d

/-- The batch of a poll holds the first commands that waited, and the number of those that wait
after it. -/
theorem batch_of_poll (hs : s.Sound) (h : s.poll count limit = .ok (polled, t)) :
    polled.batch = Batch.ofCommands (s.outbox.waiting.take count) t.outbox.queuedCount := by
  obtain ⟨draw, q, hdraw, rfl, rfl⟩ := poll_eq_ok h
  have hhanded := Outbox.handed_of_draw hs.outbox hdraw
  obtain ⟨-, -, rfl, -, hremaining, -⟩ := Outbox.draw_eq_ok hdraw
  rw [outbox_foldl_expire, ← hhanded, hremaining]
  simp only [Batch.ofCommands, List.map_map]
  rfl

/-- The batch of a poll fits into the buffer of the relay, and is read there as it was written. -/
theorem fits_of_poll (hs : s.Sound) (hnext : s.outbox.nextSequence < Outbox.sequenceBound)
    (hdepth : s.outbox.depth ≤ Settings.queueDepthCeiling)
    (h : s.poll count limit = .ok (polled, t)) :
    polled.batch.encode.length ≤ maxRequestBuffer ∧
      Batch.decode? polled.batch.encode = some polled.batch ∧
      polled.batch.requests.length ≤ Outbox.maxPerPoll ∧
      polled.batch.remaining ≤ Settings.queueDepthCeiling := by
  have hbatch := batch_of_poll hs h
  obtain ⟨draw, q, hdraw, -, rfl⟩ := poll_eq_ok h
  obtain ⟨-, hcount, rfl, -⟩ := Outbox.draw_eq_ok hdraw
  rw [outbox_foldl_expire] at hbatch
  have hlength : (s.outbox.waiting.take count).length ≤ Outbox.maxPerPoll :=
    (List.length_take_le _ _).trans hcount
  have hcommands : ∀ c ∈ s.outbox.waiting.take count,
      c.WellFormed ∧ c.sequence < Outbox.sequenceBound := fun c hc => by
    have hmem := (Outbox.mem_waiting.mp (List.mem_of_mem_take hc)).1
    exact ⟨hs.outbox.command c hmem,
      Nat.lt_trans (hs.outbox.sequence_lt c hmem) hnext⟩
  have hremaining : (s.outbox.drawn count limit).queuedCount ≤ Settings.queueDepthCeiling := by
    have hwaiting : (s.outbox.drawn count limit).queuedCount ≤ _ := List.countP_le_length
    rw [Outbox.length_drawn] at hwaiting
    omega
  have hbound : (s.outbox.drawn count limit).queuedCount < Outbox.sequenceBound :=
    Nat.lt_of_le_of_lt hremaining (by decide)
  rw [hbatch]
  refine ⟨Batch.length_encode_ofCommands_le hlength hcommands hbound,
    Batch.decode?_encode (show Batch.currentVersion < _ by decide) (fun r hr => ?_) hbound, ?_,
      hremaining⟩
  · obtain ⟨c, hc, rfl⟩ := List.mem_map.mp hr
    exact (hcommands c hc).2
  · rw [Batch.ofCommands, List.length_map]
    exact hlength

end Custody

/-! ### Invocations -/

namespace Agent

variable {σ : Type} [Store σ] {a : Agent σ}

/-- What a session reads from an invocation. -/
def relay {α : Type} (a : Agent σ) (command : RelayCommand) (block : Block)
    (read : Except Fault Unit → Block → Except Fault α) : Except Fault α × Agent σ :=
  let (result, block, b) := a.invoke command.id block
  (read result block, b)

/-- An anchor that is set comes back as the certificate that was given. -/
private theorem provision_cases (a : Agent σ) (serviceKey certificate privateKey : Bytes) :
    (∃ fault b, a.provision serviceKey certificate privateKey = (.error fault, b)) ∨
      ∃ b, a.provision serviceKey certificate privateKey = (.ok certificate, b) := by
  rw [provision]
  split
  · exact .inl ⟨_, _, rfl⟩
  split_ifs
  · exact .inl ⟨_, _, rfl⟩
  dsimp only
  split
  · exact .inr ⟨_, rfl⟩
  · exact .inl ⟨_, _, rfl⟩

/-- The three parts of an anchor pass the checks of their slots exactly if they make an anchor, and
then they arrive as they were sent. -/
private theorem inputs_cases (serviceKey certificate privateKey : Bytes) :
    let inputs : Except Fault (Bytes × Bytes × Bytes) := do
      let k ← (MemoryRef.input serviceKey).checked Anchor.maxKeySize "KCM public key"
      let c ← (MemoryRef.input certificate).checked Anchor.maxCertificateSize "KTA certificate"
      let p ← (MemoryRef.input privateKey).checked Anchor.maxKeySize "KTA private key"
      .ok (k, c, p)
    (Anchor.make serviceKey certificate privateKey = .ok ⟨serviceKey, certificate, privateKey⟩ ∧
        inputs = .ok (serviceKey, certificate, privateKey) ∧
          certificate.length ≤ Anchor.maxCertificateSize) ∨
      ∃ f g, Anchor.make serviceKey certificate privateKey = .error f ∧ inputs = .error g := by
  intro inputs
  simp only [inputs, Anchor.make, bind, Except.bind]
  rcases MemoryRef.checked_input_cases serviceKey Anchor.maxKeySize "KCM public key"
    "KCM public key" with ⟨hpart, hinput, -⟩ | ⟨f, g, hpart, hinput⟩ <;> rw [hpart, hinput]
  · rcases MemoryRef.checked_input_cases certificate Anchor.maxCertificateSize "KTA certificate"
      "KTA certificate" with ⟨hpart, hinput, hsize⟩ | ⟨f, g, hpart, hinput⟩ <;>
      dsimp only <;> rw [hpart, hinput]
    · rcases MemoryRef.checked_input_cases privateKey Anchor.maxKeySize "KTA private key"
        "KTA private key" with ⟨hpart, hinput, -⟩ | ⟨f, g, hpart, hinput⟩ <;>
        dsimp only <;> rw [hpart, hinput]
      · exact .inl ⟨rfl, rfl, hsize⟩
      · exact .inr ⟨_, _, rfl, rfl⟩
    · exact .inr ⟨_, _, rfl, rfl⟩
  · exact .inr ⟨_, _, rfl, rfl⟩

/-- Setting the anchor through slots agrees with setting it. -/
theorem relay_provision (a : Agent σ) (serviceKey certificate privateKey : Bytes) :
    SameOutcome
      (a.relay .provision
        ⟨.memoryIn (.input serviceKey), .memoryIn (.input certificate),
          .memoryIn (.input privateKey), .memoryOut (.output Session.certificateRoom)⟩
        fun result block => result.map fun _ => Session.outputOf block.fourth)
      (a.provision serviceKey certificate privateKey) := by
  have hinvoke : ∀ block, a.invoke RelayCommand.provision.id block = a.invokeProvision block :=
    fun _ => rfl
  simp only [relay, hinvoke, invokeProvision]
  rcases inputs_cases serviceKey certificate privateKey with
    ⟨hmake, hinputs, hsize⟩ | ⟨f, g, hmake, hinputs⟩ <;> rw [hinputs] <;> dsimp only
  · by_cases hinit : a.isInitialized = true
    · have hrefused : a.provision serviceKey certificate privateKey =
          (.error .alreadyInitialized, a) := by
        rw [provision, hmake]
        exact if_pos hinit
      rw [if_pos hinit, hrefused]
      exact ⟨rfl, rfl⟩
    · have hroom : (MemoryRef.output Session.certificateRoom).checked Anchor.maxCertificateSize
          "certificate output" = .ok _ := MemoryRef.checked_output (by decide) (Nat.le_refl _)
      have hlength : (List.replicate Session.certificateRoom (0 : UInt8)).length =
          Anchor.maxCertificateSize := List.length_replicate
      rw [if_neg hinit, hroom]
      dsimp only
      rw [if_neg (by omega)]
      rcases provision_cases a serviceKey certificate privateKey with
        ⟨fault, b, hcall⟩ | ⟨b, hcall⟩ <;> rw [hcall]
      · exact ⟨rfl, rfl⟩
      · -- the anchor is set, and the certificate comes back as it was given
        have hwritten : ((MemoryRef.output Session.certificateRoom).write certificate).1 =
            .ok () := MemoryRef.write_of_le (by rwa [MemoryRef.capacity_output])
        have hbytes : ((MemoryRef.output Session.certificateRoom).write certificate).2.bytes =
            certificate := MemoryRef.bytes_write_output hsize
        dsimp only
        rw [hwritten]
        exact ⟨congrArg some hbytes, rfl⟩
  · have hrefused : a.provision serviceKey certificate privateKey = (.error f, a) := by
      rw [provision, hmake]
    rw [hrefused]
    exact ⟨rfl, rfl⟩

/-- Registering measurements through slots agrees with registering them. -/
theorem relay_register (a : Agent σ) (measurements : List Measurement) :
    SameOutcome
      (a.relay .register
        ⟨.memoryIn (.input (measurements.flatMap (·.octets))),
          .valueIn (asValue measurements.length) 0, .empty, .empty⟩ fun result _ => result)
      ((a.register measurements).map (Except.map fun _ => ()) id) := by
  have hinvoke : ∀ block, a.invoke RelayCommand.register.id block = a.invokeRegister block :=
    fun _ => rfl
  have hlength := Measurement.length_flatMap_octets measurements
  simp only [relay, hinvoke, invokeRegister]
  by_cases hcount : 0 < measurements.length ∧
      measurements.length ≤ Measurement.maxPerRegistration
  · obtain ⟨hpos, hle⟩ := hcount
    have hchecked : (MemoryRef.input (measurements.flatMap (·.octets))).checked
        (Measurement.maxPerRegistration * Measurement.size) "hash buffer" = .ok _ :=
      MemoryRef.checked_input (by rw [hlength]; exact Nat.mul_pos hpos (by decide))
        (by rw [hlength]; exact Nat.mul_le_mul_right _ hle)
    have hvalue : asValue measurements.length = measurements.length :=
      Nat.mod_eq_of_lt (Nat.lt_of_le_of_lt hle (by decide))
    rw [hchecked, hvalue]
    dsimp only
    rw [if_neg (by omega), Measurement.list?_flatMap hpos hle]
    exact ⟨rfl, rfl⟩
  · -- too many measurements, or none, are refused on both ways
    have hsize : (measurements.flatMap (·.octets)).length = 0 ∨
        Measurement.maxPerRegistration * Measurement.size <
          (measurements.flatMap (·.octets)).length := by
      simp only [hlength, Measurement.maxPerRegistration, Measurement.size] at hcount ⊢
      omega
    obtain ⟨fault, hchecked⟩ := MemoryRef.checked_input_eq_error "hash buffer" hsize
    have hrefused : ∃ fault, a.register measurements = (.error fault, a) := by
      rw [register]
      split
      · exact ⟨_, rfl⟩
      · refine ⟨_, if_pos ?_⟩
        rw [List.isEmpty_iff_length_eq_zero]
        omega
    obtain ⟨fault', hrefused⟩ := hrefused
    rw [hchecked, hrefused]
    exact ⟨rfl, rfl⟩

/-- Handing in a reply through slots agrees with submitting it, if its encoding has room. -/
theorem relay_submit (hs : a.custody.Sound)
    (hnext : a.custody.outbox.nextSequence < Outbox.sequenceBound) {reply : Reply}
    (hlength : reply.encode.length ≤ Anchor.maxCertificateSize) :
    SameOutcome
      (a.relay .reply ⟨.memoryIn (.input reply.encode), .valueOut 0 0, .empty, .empty⟩
        fun result block => result.map fun _ =>
          decide ((block.second.valueOut?.map (·.1)) = some 1))
      ((a.submit reply).map (Except.map fun _ => true) id) := by
  have hinvoke : ∀ block, a.invoke RelayCommand.reply.id block = a.invokeReply block :=
    fun _ => rfl
  have hchecked : (MemoryRef.input reply.encode).checked Anchor.maxCertificateSize
      "reply buffer" = .ok _ := MemoryRef.checked_input reply.length_encode_pos hlength
  simp only [relay, hinvoke, invokeReply, hchecked, bind, Except.bind]
  rcases Nat.lt_or_ge reply.sequence Outbox.sequenceBound with hlt | hge
  · obtain ⟨result, b, hcall⟩ : ∃ result b, a.submit reply = (result, b) := ⟨_, _, rfl⟩
    simp only [Reply.decode_encode hlt, hcall]
    rcases result with fault | receipt <;> exact ⟨rfl, rfl⟩
  · -- no command has a number that large, so the reply is refused on both ways
    have hrefused : ∃ fault, a.submit reply = (.error fault, a) := by
      rw [submit]
      split
      · exact ⟨_, rfl⟩
      split
      · exact ⟨_, rfl⟩
      rename_i material _
      obtain ⟨cause, hanswer⟩ :
          ∃ cause, a.custody.answer reply material = .error (.badBufferData cause) :=
        Custody.answer_eq_error material fun c hc heq => by
          have hlt := hs.outbox.sequence_lt c hc
          omega
      refine ⟨.badBufferData cause, ?_⟩
      rw [transact, hanswer]
    obtain ⟨fault, hrefused⟩ := hrefused
    rw [Reply.decode_encode_of_le hge, hrefused]
    exact ⟨rfl, rfl⟩

/-- Polling into an output that has room is polling: the batch that comes back is the one that was
committed. -/
private theorem relay_poll_of_room {polled : Polled} {t : Custody}
    (hpoll : a.custody.poll a.settings.maxBatch a.settings.replyTimeout =
      .ok (polled, t))
    (hdecode : Batch.decode? polled.batch.encode = some polled.batch)
    (hreturned : asValue polled.batch.requests.length = polled.batch.requests.length)
    (hremaining : asValue polled.batch.remaining = polled.batch.remaining)
    {out : MemoryRef} {room : Bytes} (hchecked : out.checked maxRequestBuffer "request buffer" =
      .ok room)
    (hwritten : (out.write polled.batch.encode).1 = .ok ())
    (hbytes : (out.write polled.batch.encode).2.bytes = polled.batch.encode) :
    a.relay .poll ⟨.memoryOut out, .valueOut 0 0, .empty, .empty⟩
        (fun result block => result.bind fun _ => Session.batchOf block) =
      (a.poll a.settings.maxBatch fun _ => .ok ()).map (Except.map (·.batch)) id := by
  have hinvoke : ∀ block, a.invoke RelayCommand.poll.id block = a.invokePoll block :=
    fun _ => rfl
  simp only [relay, hinvoke, invokePoll, hchecked, offer, poll]
  rcases hinit : a.requireInitialized with fault | ⟨⟩
  · rfl
  simp only [transact, hpoll, bind, Except.bind, hwritten]
  rcases Store.commit a.store [(Custody.record, t.encode)] with ⟨fault | ⟨⟩, store⟩
  · rfl
  · have hbatch : Session.batchOf
        ⟨.memoryOut (out.write polled.batch.encode).2,
          .valueOut (asValue polled.batch.requests.length) (asValue polled.batch.remaining),
          .empty, .empty⟩ = .ok polled.batch := by
      have hout : Session.outputOf (.memoryOut (out.write polled.batch.encode).2) =
          polled.batch.encode := hbytes
      rw [Session.batchOf, hout, hdecode, hreturned, hremaining]
      exact if_pos ⟨rfl, rfl⟩
    simp only [hbatch, Prod.map, Except.map, id]

/-- Polling through slots is polling, for every agent whose outbox stays small. -/
theorem relay_poll (hs : a.custody.Sound)
    (hnext : a.custody.outbox.nextSequence < Outbox.sequenceBound)
    (hsettings : a.settings.check = .ok ())
    (hdepth : a.custody.outbox.depth ≤ Settings.queueDepthCeiling) :
    a.relay .poll ⟨.memoryOut (.output maxRequestBuffer), .valueOut 0 0, .empty, .empty⟩
        (fun result block => result.bind fun _ => Session.batchOf block) =
      (a.poll a.settings.maxBatch fun _ => .ok ()).map (Except.map (·.batch)) id := by
  obtain ⟨hpos, hle⟩ := Settings.maxBatch_bounds hsettings
  obtain ⟨polled, t, hpoll⟩ := a.custody.exists_poll hpos hle a.settings.replyTimeout
  obtain ⟨hlength, hdecode, hreturned, hremaining⟩ := Custody.fits_of_poll hs hnext hdepth hpoll
  -- the counts beside the batch are small enough for their slots
  have hsmall : ∀ n ≤ Settings.queueDepthCeiling, asValue n = n := fun n hn =>
    Nat.mod_eq_of_lt (Nat.lt_of_le_of_lt hn (by decide))
  have hcapacity := MemoryRef.capacity_output maxRequestBuffer
  exact relay_poll_of_room hpoll hdecode (hsmall _ (hreturned.trans (by decide)))
    (hsmall _ hremaining) (MemoryRef.checked_output (by decide) (Nat.le_refl _))
    (MemoryRef.write_of_le (hlength.trans (Nat.le_of_eq hcapacity.symm)))
    (MemoryRef.bytes_write_output hlength)

end Agent

end KeyCustody
