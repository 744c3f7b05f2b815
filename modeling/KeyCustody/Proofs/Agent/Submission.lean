import KeyCustody.Proofs.Agent.Chronicle
import KeyCustody.Proofs.Agent.Numbering
import KeyCustody.Proofs.Custody.Reply

/-!
# Which replies are accepted, and what they do

A reply is accepted exactly if the agent has an anchor, the payload is an even number of hexadecimal
digits, the reply is admissible as the answer to a command that was handed out, and the state after
it can be committed. `Agent.submit_exact` says so for every run over a store on which the custodian
can rely, and for an accepted reply it says what becomes of the outbox, of the entry of the command
and of everything else, and what is told to the relay.
-/

namespace KeyCustody.Agent

open Custody

variable {σ : Type} [Store σ] {a b : Agent σ} {reply : Reply} {receipt : Receipt}

/-- A reply is accepted in a sound state exactly if it is admissible and its outcome can be
committed. -/
theorem submit_eq_ok_iff (hs : a.custody.Sound) :
    a.submit reply = (.ok receipt, b) ↔ a.isInitialized = true ∧ ∃ c octets store,
      a.custody.Admits reply c octets ∧
        Store.commit a.store [(Custody.record,
          (a.custody.replied c reply.result octets).encode)] = (.ok (), store) ∧
        receipt = a.custody.acknowledge c reply.result ∧
        b = { a with store := store, custody := a.custody.replied c reply.result octets } := by
  constructor
  · intro h
    rw [submit] at h
    rcases hrequire : a.requireInitialized with fault | ⟨⟩ <;> rw [hrequire] at h
    · cases h
    rcases hdecoded : Hex.decode reply.payload with why | octets <;>
      simp only [Reply.material, hdecoded] at h
    · cases h
    obtain ⟨t, store, hanswer, hcommit, rfl⟩ := transact_eq_ok_iff.mp h
    obtain ⟨c, hadmits⟩ := admits_of_answer hs hdecoded hanswer
    -- what the reply does is known once it is known to be admissible
    have hsame := hanswer.symm.trans (answer_of_admits hs hadmits)
    obtain ⟨rfl, rfl⟩ := Prod.mk.inj (Except.ok.inj hsame)
    exact ⟨requireInitialized_eq_ok hrequire, c, octets, store, hadmits, hcommit, rfl, rfl⟩
  · rintro ⟨hinit, c, octets, store, hadmits, hcommit, rfl, rfl⟩
    have hrequire : a.requireInitialized = .ok () := if_pos hinit
    simp only [submit, hrequire, Reply.material, hadmits.decoded]
    exact transact_eq_ok_iff.mpr ⟨_, store, answer_of_admits hs hadmits, hcommit, rfl⟩

/-- What the reply to a command did that was accepted: from the agent before it, the agent after it
and what was told, where the payload of the reply writes `octets`. -/
structure Applied (a b : Agent σ) (reply : Reply) (receipt : Receipt) (c : Command)
    (octets : Bytes) : Prop where
  admits : a.custody.Admits reply c octets
  sequence : receipt.sequence = reply.sequence
  kind : receipt.kind = c.kind
  completed : receipt.status = .completed ↔
    reply.result = .success ∨ reply.result = .notFound ∧ c.kind = .search
  failed : receipt.status ≠ .completed → receipt.status = .failed
  followUp : receipt.followUp =
    if a.custody.FollowsUp c reply.result then some a.custody.outbox.nextSequence else none
  commands : b.custody.outbox.commands =
    a.custody.outbox.commands.filter (·.sequence ≠ reply.sequence) ++
      if a.custody.FollowsUp c reply.result then
        [⟨a.custody.outbox.nextSequence, .generate, c.key, [], .queued, 0⟩] else []
  nextSequence : b.custody.outbox.nextSequence = a.custody.outbox.nextSequence +
    if a.custody.FollowsUp c reply.result then 1 else 0
  entry : ∃ e, a.custody.keyring.get? c.key = some e ∧
    b.custody.keyring.get? c.key = e.afterReply c reply.result octets
      a.custody.outbox.nextSequence
      (decide (∃ d ∈ a.custody.outbox.commands, d.sequence ≠ reply.sequence ∧ d.key = c.key))
  others : ∀ key, key ≠ c.key → b.custody.keyring.get? key = a.custody.keyring.get? key
  capacity : b.custody.outbox.capacity = a.custody.outbox.capacity
  gate : b.custody.gate = a.custody.gate
  anchor : b.anchor = a.anchor
  settings : b.settings = a.settings

/-- A reply that is accepted does what it should. -/
theorem applied_of_submit (hs : a.custody.Sound) (h : a.submit reply = (.ok receipt, b)) :
    ∃ c octets, Applied a b reply receipt c octets := by
  obtain ⟨-, c, octets, store, hadmits, -, rfl, rfl⟩ := (submit_eq_ok_iff hs).mp h
  obtain ⟨e, he⟩ := hs.coherentUpTo.addressed c hadmits.command
  have hkept : (a.custody.outbox.without c.sequence).references c.key =
      decide (∃ d ∈ a.custody.outbox.commands, d.sequence ≠ reply.sequence ∧ d.key = c.key) := by
    rw [Bool.eq_iff_iff, references_iff, decide_eq_true_iff, ← hadmits.sequence]
    simp only [hs.outbox.mem_without, and_assoc]
  have hstatus : (a.custody.acknowledge c reply.result).status =
      if completes c.kind reply.result then .completed else .failed := rfl
  refine ⟨c, octets, hadmits, hadmits.sequence, rfl, ?_, ?_, rfl, ?_, ?_, ⟨e, he, ?_⟩, ?_, ?_,
    rfl, rfl, rfl⟩
  · rw [hstatus]
    cases reply.result <;> cases c.kind <;> decide
  · rw [hstatus]
    split_ifs
    · exact fun h => absurd rfl h
    · exact fun _ => rfl
  · rw [← hadmits.sequence]
    exact commands_replied hs c reply.result octets
  · simp only [replied]
    split_ifs <;> rfl
  · rw [get?_replied, if_pos rfl, he, Option.bind_some, hkept]
  · exact fun key hkey => (get?_replied ..).trans (if_neg hkey)
  · simp only [replied]
    split_ifs <;> rfl

variable [ReliableStore σ] {past : List (Occasion σ)}

/-- **Exact acceptance and exact effect of a reply.** It is accepted if and only if there is an
anchor, the payload is an even number of hexadecimal digits, the reply is admissible as the answer
to some command, and the state after it can be committed. Then exactly this command leaves the
outbox, a generation stands at its end if one follows, the entry of the key becomes what the result
says, and nothing else changes. The command is reported as completed exactly on success or where a
search found nothing. -/
theorem submit_exact (h : Chronicle past a) (reply : Reply) :
    ((∃ receipt, (a.submit reply).1 = .ok receipt) ↔
      a.isInitialized = true ∧
        (reply.payload.length % 2 = 0 ∧ ∀ ch ∈ reply.payload.toList, Hex.IsDigit ch) ∧
        ∃ c octets, a.custody.Admits reply c octets ∧
          ∃ store, Store.commit a.store [(Custody.record,
            (a.custody.replied c reply.result octets).encode)] = (.ok (), store)) ∧
    ∀ receipt, (a.submit reply).1 = .ok receipt →
      ∃ c octets, Applied a (a.submit reply).2 reply receipt c octets := by
  have hs := h.grounded.custody
  refine ⟨⟨?_, ?_⟩, fun _ hreceipt =>
    applied_of_submit hs (Prod.ext hreceipt rfl)⟩
  · rintro ⟨receipt, hreceipt⟩
    obtain ⟨hinit, c, octets, store, hadmits, hcommit, -⟩ :=
      (submit_eq_ok_iff hs).mp (Prod.ext hreceipt rfl)
    exact ⟨hinit, (Hex.exists_decode_iff _).mp ⟨octets, hadmits.decoded⟩, c, octets, hadmits, store,
      hcommit⟩
  · rintro ⟨hinit, -, c, octets, hadmits, store, hcommit⟩
    exact ⟨_, congrArg Prod.fst
      ((submit_eq_ok_iff hs).mpr ⟨hinit, c, octets, store, hadmits, hcommit, rfl, rfl⟩)⟩

/-- The calls after which a search for a key and the deletion of another have been handed out. -/
def twoCommands : List Call :=
  introduction sampleKey ++ [.delete ⟨sampleKey.owner, "l"⟩, .poll 2 fun _ => .ok ()]

/-- That nothing was found is accepted as the answer to the search, and the entry waits for the
generation of the key. Success without material is refused, and so is a reply whose payload is not
hexadecimal. -/
theorem submit_exact_searched :
    let a := opened.serveAll twoCommands
    let b := (a.submit (.notFound 1)).2
    (∃ c octets, Applied a b (.notFound 1) ⟨1, .search, .completed, some 3⟩ c octets) ∧
      b.custody.outbox.commands.map (·.sequence) = [2, 3] ∧
      b.custody.keyring.get? sampleKey = some ⟨sampleKey, none, .pending, 3⟩ ∧
      (¬ ∃ receipt, (a.submit (.success 1 [])).1 = .ok receipt) ∧
      ¬ ∃ receipt, (a.submit ⟨2, .success, "0g"⟩).1 = .ok receipt := by
  intro a b
  have hexact := submit_exact (run_opened.serveAll twoCommands (by decide +kernel)).chronicle
  have hreceipt : (a.submit (.notFound 1)).1 = .ok ⟨1, .search, .completed, some 3⟩ := by
    decide +kernel
  refine ⟨(hexact _).2 _ hreceipt, by decide +kernel, by decide +kernel,
    fun haccepted => ?_, fun haccepted => ?_⟩
  · obtain ⟨-, -, c, octets, hadmits, -⟩ := (hexact _).1.mp haccepted
    have hempty : Hex.decode (Reply.success 1 []).payload = .ok [] := Hex.decode_encode []
    have hnone : octets = [] := Except.ok.inj (hadmits.decoded.symm.trans hempty)
    have hfirst : ∀ d ∈ a.custody.outbox.commands, d.sequence = 1 → d.kind = .search := by
      decide +kernel
    have hsize := hadmits.size (.inl (hfirst c hadmits.command hadmits.sequence)) rfl
    rw [hnone] at hsize
    exact absurd hsize.1 (by decide)
  · obtain ⟨-, ⟨-, hdigits⟩, -⟩ := (hexact _).1.mp haccepted
    exact absurd (hdigits 'g' (by decide)) (by decide)

end KeyCustody.Agent
