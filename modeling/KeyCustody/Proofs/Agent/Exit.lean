import KeyCustody.Proofs.Agent.Chronicle
import KeyCustody.Proofs.Agent.Numbering
import KeyCustody.Proofs.Custody.Room

/-!
# The end of an application

The end of an application destroys its live keys, one after the other, and drops its verdict. Each
destruction queues two commands, and any of them may lack room. `Custody.exit_eq_ok_iff` says that
either all of them are queued or the call is refused, and from which states it is not;
`Custody.ended` is the state after it.

`Agent.exit_exact` says of every run that the call either does all that it should, and what that is,
or changes nothing.
-/

namespace KeyCustody

namespace Custody

/-- The state after the destruction of a key. -/
def destroyed (s : Custody) (key : KeyRef) : Custody :=
  (s.issue .delete key [] .deleted).issue .destroy key [] .deleted

/-- The state after the destruction of the keys of a list of identifiers. -/
def destroyedAll (s : Custody) (ta : Uuid) (ids : List String) : Custody :=
  ids.foldl (fun s id => s.destroyed ⟨ta, id⟩) s

/-- The state after the end of an application. -/
def ended (s : Custody) (ta : Uuid) : Custody :=
  { s.destroyedAll ta (s.liveIds ta) with gate := s.gate.revoke ta }

/-- There is room for two commands for each of `n` keys. -/
def HasRoomFor (s : Custody) (n : Nat) : Prop :=
  s.outbox.depth + 2 * n ≤ s.outbox.capacity

variable {s t : Custody} {key : KeyRef} {ta : Uuid} {ids : List String} {n : Nat}

/-! ### When keys are destroyed -/

theorem destroy_eq_ok_iff : s.destroy key = .ok (n, t) ↔
    s.HasRoomFor 1 ∧ n = s.outbox.nextSequence + 1 ∧ t = s.destroyed key := by
  constructor
  · intro h
    exact destroy_eq_ok h
  · rintro ⟨hroom, rfl, rfl⟩
    exact destroy_of_room hroom

@[simp]
theorem outbox_destroyed (s : Custody) (key : KeyRef) :
    (s.destroyed key).outbox = s.outbox.extend (Order.destruction key) :=
  Outbox.extend_extend s.outbox [⟨.delete, key, []⟩] [⟨.destroy, key, []⟩]

theorem outbox_destroyedAll (s : Custody) (ta : Uuid) (ids : List String) :
    (s.destroyedAll ta ids).outbox =
      s.outbox.extend (ids.flatMap fun id => Order.destruction ⟨ta, id⟩) := by
  induction ids generalizing s with
  | nil => exact (Outbox.extend_nil _).symm
  | cons id rest ih =>
    rw [destroyedAll, List.foldl_cons, ← destroyedAll, ih, outbox_destroyed, Outbox.extend_extend,
      List.flatMap_cons]

/-- A destruction takes the room for one key. -/
theorem hasRoomFor_succ (s : Custody) (key : KeyRef) (n : Nat) :
    s.HasRoomFor (n + 1) ↔ s.HasRoomFor 1 ∧ (s.destroyed key).HasRoomFor n := by
  have hlength : (Order.destruction key).length = 2 := rfl
  simp only [HasRoomFor, outbox_destroyed, Outbox.extend, Outbox.depth, List.length_append,
    Order.length_numbered, hlength]
  omega

/-- **All or nothing**: the keys of a list are destroyed if there is room for the commands of all of
them, and otherwise none is. -/
theorem destroyAll_eq_ok_iff : s.destroyAll ta ids = .ok t ↔
    (ids = [] ∨ s.HasRoomFor ids.length) ∧ t = s.destroyedAll ta ids := by
  induction ids generalizing s with
  | nil => simp [destroyAll, destroyedAll, eq_comm]
  | cons id rest ih =>
    have hfirst : s.destroyAll ta (id :: rest) = .ok t ↔
        s.HasRoomFor 1 ∧ (s.destroyed ⟨ta, id⟩).destroyAll ta rest = .ok t := by
      constructor
      · intro h
        obtain ⟨n, u, hu, hrest⟩ := destroyAll_cons_eq_ok h
        obtain ⟨hroom, -, rfl⟩ := destroy_eq_ok_iff.mp hu
        exact ⟨hroom, hrest⟩
      · rintro ⟨hroom, hrest⟩
        rw [destroyAll, destroy_eq_ok_iff.mpr ⟨hroom, rfl, rfl⟩]
        exact hrest
    have hlater : t = (s.destroyed ⟨ta, id⟩).destroyedAll ta rest ↔
        t = s.destroyedAll ta (id :: rest) := Iff.rfl
    have hroom := hasRoomFor_succ s ⟨ta, id⟩ rest.length
    rw [hfirst, ih, hlater, List.length_cons, hroom]
    rcases rest with _ | ⟨other, rest⟩
    · -- nothing more is needed for no more keys
      have hone := hasRoomFor_succ s ⟨ta, id⟩ 0
      simp only [List.length_nil, zero_add] at hone ⊢
      simp [← hone]
    · simp [and_assoc]

theorem gate_destroyedAll (s : Custody) (ta : Uuid) (ids : List String) :
    (s.destroyedAll ta ids).gate = s.gate := by
  induction ids generalizing s with
  | nil => rfl
  | cons id rest ih => exact ih (s.destroyed ⟨ta, id⟩)

theorem exit_eq_ok_iff : s.exit ta = .ok (n, t) ↔
    (s.liveIds ta = [] ∨ s.HasRoomFor (s.liveIds ta).length) ∧
      n = (s.liveIds ta).length ∧ t = s.ended ta := by
  have hended : s.ended ta = { s.destroyedAll ta (s.liveIds ta) with
      gate := (s.destroyedAll ta (s.liveIds ta)).gate.revoke ta } := by
    rw [gate_destroyedAll, ended]
  constructor
  · intro h
    obtain ⟨u, hu, rfl, rfl⟩ := exit_eq_ok h
    obtain ⟨hroom, rfl⟩ := destroyAll_eq_ok_iff.mp hu
    exact ⟨hroom, rfl, hended.symm⟩
  · rintro ⟨hroom, rfl, rfl⟩
    rw [exit, destroyAll_eq_ok_iff.mpr ⟨hroom, rfl⟩, hended]
    rfl

/-! ### What becomes of the entries -/

/-- A destruction leaves a tombstone that waits for the revocation. -/
theorem get?_destroyed (hs : s.Sound) (key other : KeyRef)
    (hid : KeyRef.isValidId key.id = true) :
    (s.destroyed key).keyring.get? other =
      if other = key then some ⟨key, none, .deleted, s.outbox.nextSequence + 1⟩
      else s.keyring.get? other := by
  rw [destroyed, get?_issue (hs.bury .delete hid).keyring, get?_issue hs.keyring]
  split_ifs <;> rfl

theorem Sound.destroyed (hs : s.Sound) (key : KeyRef) (hid : KeyRef.isValidId key.id = true) :
    (s.destroyed key).Sound :=
  (hs.bury .delete hid).bury .destroy hid

/-- Destroying the keys of a list leaves a tombstone for each, with the number of its revocation. -/
theorem get?_destroyedAll (hs : s.Sound) (ta : Uuid) (hids : ∀ id ∈ ids, KeyRef.isValidId id = true)
    (hnodup : ids.Nodup) :
    (∀ i id, ids[i]? = some id → (s.destroyedAll ta ids).keyring.get? ⟨ta, id⟩ =
      some ⟨⟨ta, id⟩, none, .deleted, s.outbox.nextSequence + 2 * i + 1⟩) ∧
    ∀ key : KeyRef, ¬ (key.owner = ta ∧ key.id ∈ ids) →
      (s.destroyedAll ta ids).keyring.get? key = s.keyring.get? key := by
  induction ids generalizing s with
  | nil => exact ⟨nofun, fun _ _ => rfl⟩
  | cons first rest ih =>
    obtain ⟨hfirst, hrest⟩ := List.forall_mem_cons.mp hids
    obtain ⟨hnew, hnodup⟩ := List.nodup_cons.mp hnodup
    have hget := fun key => get?_destroyed hs ⟨ta, first⟩ key hfirst
    have hu : (s.destroyed ⟨ta, first⟩).outbox.nextSequence = s.outbox.nextSequence + 2 := by
      rw [outbox_destroyed]
      rfl
    obtain ⟨hlisted, hothers⟩ := ih (hs.destroyed ⟨ta, first⟩ hfirst) hrest hnodup
    constructor
    · rintro (_ | i) id hid
      · -- the first key is not on the rest of the list
        obtain rfl := Option.some.inj hid
        refine (hothers ⟨ta, first⟩ fun h => hnew h.2).trans ?_
        rw [hget, if_pos rfl]
      · have hnumber : s.outbox.nextSequence + 2 * (i + 1) = s.outbox.nextSequence + 2 + 2 * i := by
          omega
        rw [hnumber, ← hu]
        exact hlisted i id hid
    · intro key hkey
      refine (hothers key fun h => hkey ⟨h.1, List.mem_cons_of_mem _ h.2⟩).trans ?_
      rw [hget, if_neg]
      rintro rfl
      exact hkey ⟨rfl, List.mem_cons_self⟩

/-- The live keys of an application are listed in the order of the octets of their identifiers. -/
theorem pairwise_liveIds (hs : s.Sound) (ta : Uuid) :
    (s.liveIds ta).Pairwise fun x y => Bytes.ofText x < Bytes.ofText y :=
  (hs.keyring.pairwise_idsOf ta).filter _

theorem nodup_liveIds (hs : s.Sound) (ta : Uuid) : (s.liveIds ta).Nodup :=
  (pairwise_liveIds hs ta).imp fun hlt heq => by
    rw [heq] at hlt
    exact List.lt_irrefl _ hlt

end Custody

namespace Agent

open Custody

variable {σ : Type} [Store σ] {a b : Agent σ} {ta : Uuid} {n : Nat}

/-- The end of an application is accepted exactly if there is room for all destructions and the
state after them can be committed. -/
theorem exit_eq_ok_iff (hinit : a.isInitialized = true)
    (hverified : a.custody.gate.isVerified ta = true) :
    a.exit ta = (.ok n, b) ↔
      (a.custody.liveIds ta = [] ∨ a.custody.HasRoomFor (a.custody.liveIds ta).length) ∧
        n = (a.custody.liveIds ta).length ∧ ∃ store,
          Store.commit a.store [(Custody.record, (a.custody.ended ta).encode)] = (.ok (), store) ∧
            b = { a with store := store, custody := a.custody.ended ta } := by
  have hallowed : (do a.requireInitialized; a.requireVerified ta : Except Fault Unit) = .ok () := by
    rw [requireInitialized, if_pos hinit, requireVerified, if_pos hverified]
    rfl
  rw [exit, hallowed]
  refine transact_eq_ok_iff.trans ?_
  simp only [Custody.exit_eq_ok_iff]
  constructor
  · rintro ⟨t, store, ⟨hroom, rfl, rfl⟩, hcommit, rfl⟩
    exact ⟨hroom, rfl, store, hcommit, rfl⟩
  · rintro ⟨hroom, rfl, store, hcommit, rfl⟩
    exact ⟨_, store, ⟨hroom, rfl, rfl⟩, hcommit, rfl⟩

/-- What the end of an application did whose live keys were those of a list: from the agent before
it to the agent after it. -/
structure Ended (a b : Agent σ) (ta : Uuid) (ids : List String) : Prop where
  commands : b.custody.outbox.commands = a.custody.outbox.commands ++
    Order.numbered a.custody.outbox.nextSequence
      (ids.flatMap fun id => [⟨.delete, ⟨ta, id⟩, []⟩, ⟨.destroy, ⟨ta, id⟩, []⟩])
  nextSequence : b.custody.outbox.nextSequence = a.custody.outbox.nextSequence + 2 * ids.length
  capacity : b.custody.outbox.capacity = a.custody.outbox.capacity
  destroyed : ∀ i id, ids[i]? = some id → b.custody.keyring.get? ⟨ta, id⟩ =
    some ⟨⟨ta, id⟩, none, .deleted, a.custody.outbox.nextSequence + 2 * i + 1⟩
  others : ∀ key : KeyRef, ¬ (key.owner = ta ∧ key.id ∈ ids) →
    b.custody.keyring.get? key = a.custody.keyring.get? key
  verdicts : ∀ other, b.custody.gate.verdict? other =
    if other = ta then none else a.custody.gate.verdict? other
  allowed : b.custody.gate.allowed = a.custody.gate.allowed
  anchor : b.anchor = a.anchor
  settings : b.settings = a.settings

omit [Store σ] in
/-- The state after the end of an application is what it should be. -/
theorem ended_of_exit (hs : a.custody.Sound) (store : σ) :
    Ended a { a with store := store, custody := a.custody.ended ta } ta
      (a.custody.liveIds ta) := by
  have houtbox : (a.custody.ended ta).outbox = _ :=
    outbox_destroyedAll a.custody ta (a.custody.liveIds ta)
  obtain ⟨hdestroyed, hothers⟩ := get?_destroyedAll hs ta
    (fun _ hid => hs.isValidId_of_mem_liveIds hid) (nodup_liveIds hs ta)
  refine ⟨(congrArg Outbox.commands houtbox :), ?_, (congrArg Outbox.capacity houtbox :),
    hdestroyed, hothers, Gate.verdict?_revoke _ _, rfl, rfl, rfl⟩
  rw [houtbox]
  simp [Outbox.extend, Order.destruction, Nat.mul_comm]

variable [ReliableStore σ] {past : List (Occasion σ)}

/-- **The end of an application is all or nothing.** It is accepted if and only if there is no live
key, or room for two commands of each, and the state after it can be committed. Then it answers with
the number of live keys, and for each in the order of the octets of their identifiers it queues a
deletion and a revocation and leaves a tombstone that has the number of the revocation; every other
entry is as it was, and the application is not verified any more. If it is refused, nothing has
changed, and the application is still verified. -/
theorem exit_exact (h : Chronicle past a) (hinit : a.isInitialized = true)
    (hverified : a.custody.gate.isVerified ta = true) :
    ∃ ids : List String,
      (∀ id, id ∈ ids ↔
        ∃ e, a.custody.keyring.get? ⟨ta, id⟩ = some e ∧ e.status ≠ .deleted) ∧
      ids.Pairwise (fun x y => Bytes.ofText x < Bytes.ofText y) ∧
      ((∃ n, (a.exit ta).1 = .ok n) ↔
        (ids.length = 0 ∨
          a.custody.outbox.depth + 2 * ids.length ≤ a.settings.maxQueueDepth) ∧
        ∃ store, Store.commit a.store
          [(Custody.record, (a.custody.ended ta).encode)] = (.ok (), store)) ∧
      (∀ n, (a.exit ta).1 = .ok n → n = ids.length ∧ Ended a (a.exit ta).2 ta ids ∧
        (a.exit ta).2.custody.gate.isVerified ta = false) ∧
      ∀ fault, (a.exit ta).1 = .error fault →
        (a.exit ta).2 = { a with store := (a.exit ta).2.store } ∧
          SameRecords a.store (a.exit ta).2.store ∧
          ((∀ cause, fault ≠ .storage cause) → (a.exit ta).2 = a) ∧
          (a.exit ta).2.custody.gate.isVerified ta = true := by
  have hs := h.grounded.custody
  have hexit := fun n b => exit_eq_ok_iff (n := n) (b := b) hinit hverified
  refine ⟨a.custody.liveIds ta, fun id => mem_liveIds hs.keyring, pairwise_liveIds hs ta,
    ?_, ?_, ?_⟩
  · have hroom : (a.custody.liveIds ta = [] ∨
        a.custody.HasRoomFor (a.custody.liveIds ta).length) ↔ _ :=
      or_congr List.length_eq_zero_iff.symm (by rw [HasRoomFor, h.grounded.capacity])
    constructor
    · rintro ⟨n, hn⟩
      obtain ⟨hlive, -, store, hcommit, -⟩ := (hexit n _).mp (Prod.ext hn rfl)
      exact ⟨hroom.mp hlive, store, hcommit⟩
    · rintro ⟨hlive, store, hcommit⟩
      exact ⟨_, congrArg Prod.fst ((hexit _ _).mpr ⟨hroom.mpr hlive, rfl, store, hcommit, rfl⟩)⟩
  · intro n hn
    obtain ⟨-, rfl, store, -, hb⟩ := (hexit n (a.exit ta).2).mp (Prod.ext hn rfl)
    have hended : Ended a { a with store := store, custody := a.custody.ended ta } ta _ :=
      ended_of_exit hs store
    rw [hb]
    refine ⟨rfl, hended, ?_⟩
    rw [Gate.isVerified, hended.verdicts, if_pos rfl]
    rfl
  · intro fault hfault
    have heffect := effect_serve a (.exit ta)
    have hserve : a.serve (.exit ta) = ((a.exit ta).1.map .count, (a.exit ta).2) := rfl
    rw [hserve, hfault] at heffect
    obtain ⟨heq, hsame, hrefused⟩ := heffect.unchanged_of_error h.grounded.store nofun
    refine ⟨heq, hsame, hrefused, ?_⟩
    rw [heq]
    exact hverified

/-- The calls after which an application has two live keys, one of them ready, and a tombstone. -/
def threeKeys : List Call :=
  introduction sampleKey ++ [.search ⟨sampleKey.owner, "m"⟩, .delete ⟨sampleKey.owner, "l"⟩,
    .poll 1 fun _ => .ok (), .submit (.success 1 [7])]

/-- The end of this application destroys the two live keys in the order of their identifiers. -/
theorem exit_exact_three :
    let a := opened.serveAll threeKeys
    let b := (a.exit sampleKey.owner).2
    (a.isInitialized = true ∧ a.custody.gate.isVerified sampleKey.owner = true) ∧
      (∃ ids, ids.length = 2 ∧ Ended a b sampleKey.owner ids) ∧
      b.custody.outbox.commands.map (fun c => (c.sequence, c.kind, c.key.id)) =
        [(2, .search, "m"), (3, .delete, "l"), (4, .delete, "k"), (5, .destroy, "k"),
          (6, .delete, "m"), (7, .destroy, "m")] ∧
      b.custody.keyring.toList.map (fun e => (e.key.id, e.material, e.status, e.lastSequence)) =
        [("k", none, .deleted, 5), ("l", none, .deleted, 3), ("m", none, .deleted, 7)] := by
  intro a b
  have hinit : a.isInitialized = true := by decide +kernel
  have hverified : a.custody.gate.isVerified sampleKey.owner = true := by decide +kernel
  have hcount : (a.exit sampleKey.owner).1 = .ok 2 := by decide +kernel
  obtain ⟨ids, -, -, -, hended, -⟩ :=
    exit_exact (run_opened.serveAll threeKeys (by decide +kernel)).chronicle hinit hverified
  obtain ⟨hlength, hended, -⟩ := hended 2 hcount
  exact ⟨⟨hinit, hverified⟩, ⟨ids, hlength.symm, hended⟩, by decide +kernel, by decide +kernel⟩

end Agent

end KeyCustody
