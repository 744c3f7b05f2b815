import KeyCustody.Proofs.Agent.Invariant
import KeyCustody.Proofs.Agent.Numbering
import KeyCustody.Proofs.Relay.Marshalling
import KeyCustody.Proofs.Slot

/-!
# Asking for the size of a batch

The relay does not know how large the next batch is. It offers an output, and where this is too
small it is told the size that is needed and asks again. This comes to an end, because the batch of
any reachable agent fits into the largest output that an invocation accepts, and because a poll
whose output is too small leaves the agent as it was, so that the next poll is about the same batch
(`Agent.poll_handshake`).
-/

namespace KeyCustody

/-- The block of a poll into an output. -/
def Block.ofPoll (out : MemoryRef) (x y : Nat) : Block :=
  ⟨.memoryOut out, .valueOut x y, .empty, .empty⟩

/-- A buffer of just the size that is needed holds nothing but what was written. -/
theorem MemoryRef.filled_of_length_eq {buffer data : Bytes} (h : buffer.length = data.length) :
    filled buffer data = input data := by
  rw [filled, input, List.drop_eq_nil_of_le (Nat.le_of_eq h), List.append_nil]

/-- A batch that can be read back is not written as nothing. -/
theorem Batch.length_encode_pos {batch : Batch} (h : Batch.decode? batch.encode = some batch) :
    1 ≤ batch.encode.length := by
  refine Nat.pos_of_ne_zero fun hzero => ?_
  have hnothing : Batch.decode? [] = none := by decide +kernel
  rw [List.eq_nil_of_length_eq_zero hzero, hnothing] at h
  cases h

namespace Agent

variable {σ : Type} [Store σ] {a : Agent σ} {past : List (Occasion σ)} {polled : Polled}
  {t : Custody} {store : σ} {out : MemoryRef} {room : Bytes}

/-! ### Polls into an output -/

/-- A poll succeeds if the batch is accepted and the commit succeeds. -/
private theorem poll_of_accepted (hinit : a.isInitialized = true)
    (accept : Bytes → Except Fault Unit)
    (hpoll : a.custody.poll a.settings.maxBatch a.settings.replyTimeout = .ok (polled, t))
    (haccept : accept polled.batch.encode = .ok ())
    (hcommit : Store.commit a.store [(Custody.record, t.encode)] = (.ok (), store)) :
    a.poll a.settings.maxBatch accept =
      (.ok polled, { a with store := store, custody := t }) := by
  simp only [poll, requireInitialized, hinit, if_true, transact, hpoll, bind, Except.bind, haccept,
    hcommit]

/-- A poll whose batch is not accepted does nothing. -/
private theorem poll_of_refused (hinit : a.isInitialized = true)
    (accept : Bytes → Except Fault Unit) {fault : Fault}
    (hpoll : a.custody.poll a.settings.maxBatch a.settings.replyTimeout = .ok (polled, t))
    (haccept : accept polled.batch.encode = .error fault) :
    a.poll a.settings.maxBatch accept = (.error fault, a) := by
  simp only [poll, requireInitialized, hinit, if_true, transact, hpoll, bind, Except.bind, haccept]

omit [Store σ] in
private theorem offer_eq_ok (hinit : a.isInitialized = true)
    (hpoll : a.custody.poll a.settings.maxBatch a.settings.replyTimeout = .ok (polled, t)) :
    a.offer a.settings.maxBatch = .ok polled := by
  simp only [offer, requireInitialized, hinit, if_true, hpoll, bind, Except.bind]

/-- An output that is too small is told the size that is needed, and nothing else happens. -/
theorem invokePoll_of_short (hinit : a.isInitialized = true)
    (hpoll : a.custody.poll a.settings.maxBatch a.settings.replyTimeout = .ok (polled, t))
    (hout : out.Gives maxRequestBuffer room) (hshort : out.size < polled.batch.encode.length)
    (x y : Nat) :
    a.invokePoll (.ofPoll out x y) =
      (.error (.badBufferData (.shortOutput polled.batch.encode.length out.size)),
        .ofPoll { out with size := polled.batch.encode.length } x y, a) := by
  have hwrite := hout.write_eq_error hshort
  have hrefused := poll_of_refused hinit (fun batch => (out.write batch).1) hpoll
    (congrArg Prod.fst hwrite)
  simp only [Block.ofPoll, invokePoll, (MemoryRef.checked_eq_ok_iff _).mpr hout,
    offer_eq_ok hinit hpoll, hrefused, hwrite]

/-- An output with enough room is filled with the batch, and the counts are written beside it. -/
theorem invokePoll_of_room (hinit : a.isInitialized = true)
    (hpoll : a.custody.poll a.settings.maxBatch a.settings.replyTimeout = .ok (polled, t))
    (hcommit : Store.commit a.store [(Custody.record, t.encode)] = (.ok (), store))
    (hout : out.Gives maxRequestBuffer room) {buffer : Bytes} (hbuffer : out.buffer = some buffer)
    (hroom : polled.batch.encode.length ≤ out.size) (x y : Nat) :
    a.invokePoll (.ofPoll out x y) =
      (.ok (), .ofPoll (.filled buffer polled.batch.encode) (asValue polled.batch.requests.length)
        (asValue polled.batch.remaining), { a with store := store, custody := t }) := by
  have hwrite := hout.write_eq_ok hbuffer hroom
  have haccepted := poll_of_accepted hinit (fun batch => (out.write batch).1) hpoll
    (congrArg Prod.fst hwrite) hcommit
  simp only [Block.ofPoll, invokePoll, (MemoryRef.checked_eq_ok_iff _).mpr hout,
    offer_eq_ok hinit hpoll, haccepted, hwrite]

/-! ### The handshake -/

/-- **Asking for the size never fails for good**: over a store whose commits succeed, the batch of
the next poll is neither empty nor too large for an invocation. An output that is smaller than the
batch is told its size, and nothing else happens. An output with enough room is filled, one of just
that size with the batch and nothing else, and the numbers of commands handed out and still queued
are written beside it. -/
theorem poll_handshake [ReliableStore σ] (h : Chronicle past a) (hinit : a.isInitialized = true)
    (hsteady : Store.Steady a.store) :
    ∃ polled b, a.poll a.settings.maxBatch (fun _ => .ok ()) = (.ok polled, b) ∧
      polled.batch = Batch.ofCommands (a.custody.outbox.waiting.take a.settings.maxBatch)
        b.custody.outbox.queuedCount ∧
      1 ≤ polled.batch.encode.length ∧ polled.batch.encode.length ≤ maxRequestBuffer ∧
      (∀ (buffer : Bytes) (size x y : Nat), 1 ≤ size → size ≤ maxRequestBuffer →
        size ≤ buffer.length →
        (size < polled.batch.encode.length →
          a.invoke RelayCommand.poll.id (.ofPoll ⟨some buffer, size⟩ x y) =
            (.error (.badBufferData (.shortOutput polled.batch.encode.length size)),
              .ofPoll ⟨some buffer, polled.batch.encode.length⟩ x y, a)) ∧
        (polled.batch.encode.length ≤ size →
          a.invoke RelayCommand.poll.id (.ofPoll ⟨some buffer, size⟩ x y) =
            (.ok (), .ofPoll (.filled buffer polled.batch.encode) polled.batch.requests.length
              polled.batch.remaining, b))) ∧
      ∀ (fresh : Bytes) (x y : Nat), fresh.length = polled.batch.encode.length →
        a.invoke RelayCommand.poll.id (.ofPoll (.input fresh) x y) =
          (.ok (), .ofPoll (.input polled.batch.encode) polled.batch.requests.length
            polled.batch.remaining, b) := by
  have hground := h.grounded
  obtain ⟨hpos, hle⟩ := Settings.maxBatch_bounds hground.settings
  obtain ⟨polled, t, hpoll⟩ := a.custody.exists_poll hpos hle a.settings.replyTimeout
  obtain ⟨hlength, hdecode, hreturned, hremaining⟩ :=
    Custody.fits_of_poll hground.custody hground.numbersLast.nextSequence_lt h.depth_le hpoll
  obtain ⟨store, hcommit, -⟩ := hsteady.commit [(Custody.record, t.encode)]
  -- the counts beside the batch are small enough for their slots
  have hsmall : ∀ n ≤ Settings.queueDepthCeiling, asValue n = n := fun n hn =>
    Nat.mod_eq_of_lt (Nat.lt_of_le_of_lt hn (by decide))
  have hcounts := hsmall _ (hreturned.trans (by decide))
  have hinvoke : ∀ block, a.invoke RelayCommand.poll.id block = a.invokePoll block := fun _ => rfl
  have hroom (buffer : Bytes) (size x y : Nat) (hpos : 1 ≤ size) (hsize : size ≤ maxRequestBuffer)
      (hbuffer : size ≤ buffer.length) (hlarge : polled.batch.encode.length ≤ size) :
      a.invoke RelayCommand.poll.id (.ofPoll ⟨some buffer, size⟩ x y) =
        (.ok (), .ofPoll (.filled buffer polled.batch.encode) polled.batch.requests.length
          polled.batch.remaining, { a with store := store, custody := t }) := by
    rw [hinvoke, invokePoll_of_room hinit hpoll hcommit ⟨buffer, rfl, hpos, hsize, hbuffer, rfl⟩ rfl
      hlarge, hcounts, hsmall _ hremaining]
  have hencode := Batch.length_encode_pos hdecode
  refine ⟨polled, _, poll_of_accepted hinit _ hpoll rfl hcommit,
    Custody.batch_of_poll hground.custody hpoll, hencode, hlength,
    fun buffer size x y hpos hsize hbuffer => ⟨fun hshort => ?_, hroom buffer size x y hpos hsize
      hbuffer⟩, fun fresh x y hfresh => ?_⟩
  · exact invokePoll_of_short hinit hpoll ⟨buffer, rfl, hpos, hsize, hbuffer, rfl⟩ hshort x y
  · rw [← MemoryRef.filled_of_length_eq hfresh, MemoryRef.input, hfresh]
    exact hroom fresh _ x y hencode hlength (Nat.le_of_eq hfresh.symm) (Nat.le_refl _)

/-- A key whose identifier has to be written with escapes. -/
def quotedKey : KeyRef := ⟨sampleKey.owner, "\"/\\𝄞"⟩

/-- A first poll with room for one octet is told the size, and a second one with a buffer of this
size gets the request. -/
theorem poll_handshake_quoted :
    let a := opened.serveAll (introduction quotedKey)
    ∃ batch b, batch = Batch.ofCommands a.custody.outbox.waiting 0 ∧
      a.invoke RelayCommand.poll.id (.ofPoll (.input [9]) 7 7) =
        (.error (.badBufferData (.shortOutput batch.encode.length 1)),
          .ofPoll ⟨some [9], batch.encode.length⟩ 7 7, a) ∧
      a.invoke RelayCommand.poll.id
          (.ofPoll (.input (List.replicate batch.encode.length 0)) 7 7) =
        (.ok (), .ofPoll (.input batch.encode) 1 0, b) := by
  intro a
  have hrun := (run_opened.serveAll (introduction quotedKey) (by decide +kernel)).chronicle
  have hsteady : Store.Steady a.store := MemoryStore.steady (by decide +kernel)
  obtain ⟨polled, b, hpoll, hbatch, -, -, hinvoke, hfresh⟩ :=
    poll_handshake hrun (by decide +kernel) hsteady
  have hnone : b.custody.outbox.queuedCount = 0 := by
    have hcount :
        (a.poll a.settings.maxBatch fun _ => .ok ()).2.custody.outbox.queuedCount = 0 := by
      decide +kernel
    rwa [hpoll] at hcount
  have hwaiting : a.custody.outbox.waiting.take a.settings.maxBatch = a.custody.outbox.waiting := by
    decide +kernel
  rw [hnone, hwaiting] at hbatch
  have hshort : 1 < (Batch.ofCommands a.custody.outbox.waiting 0).encode.length := by
    decide +kernel
  have hcounts : (Batch.ofCommands a.custody.outbox.waiting 0).requests.length = 1 := by
    decide +kernel
  refine ⟨polled.batch, b, hbatch, ?_, ?_⟩
  · exact (hinvoke [9] 1 7 7 (Nat.le_refl _) (by decide) (Nat.le_refl _)).1 (hbatch ▸ hshort)
  · have hretry := hfresh (List.replicate polled.batch.encode.length 0) 7 7 List.length_replicate
    have hremaining : polled.batch.remaining = 0 := by rw [hbatch, Batch.ofCommands]
    rwa [hremaining, hbatch, hcounts, ← hbatch] at hretry

end Agent

end KeyCustody
