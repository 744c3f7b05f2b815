import KeyCustody.Proofs.Agent.Invariant

/-!
# How full the outbox gets

No step of a run takes the outbox further beyond the bound that it finds
(`Agent.Chronicle.depth_le_of_concat`). For a call this is what transitions keep. A new start goes
on from the snapshot, so it matters that the snapshot holds no more commands than the agent
(`Agent.Contained`): the store must not bring back an anchor that was erased, since with it the
commands of an old snapshot would be back (`ExactStore`).

Over a run it follows that the outbox is never longer than the largest bound that it has had
(`Agent.Chronicle.exists_depth_le_capacity`), and that it does not grow while it is beyond its bound
(`Agent.Chronicle.depth_le_of_crowded`).
-/

namespace KeyCustody

namespace Agent

variable {σ : Type} [Store σ] {past before later : List (Occasion σ)} {a b : Agent σ}
  {store : σ} {settings : Settings} {call : Call} {result : Except Fault Answer} {o : Occasion σ}
  {p : Measurement → Prop}

/-! ### Calls -/

/-- A call takes the outbox no further beyond the bound of the settings. -/
theorem Effect.depth_le (h : a.Effect call result b)
    (hcapacity : a.custody.outbox.capacity = a.settings.maxQueueDepth) :
    b.settings = a.settings ∧
      b.custody.outbox.depth ≤ max a.custody.outbox.depth a.settings.maxQueueDepth := by
  cases h with
  | saved _ ht => exact ⟨rfl, hcapacity ▸ ht.depth_le⟩
  | provisioned | closed | unclosed => exact ⟨rfl, Nat.zero_le _⟩
  | refused | found | unsaved | unprovisioned | attested | revoked | unerased =>
    exact ⟨rfl, Nat.le_max_left _ _⟩

/-! ### What a new start may find -/

/-- Whether some record of the anchor is not there, so that no start finds an anchor. -/
def Anchorless (store : σ) : Prop :=
  ∃ name ∈ Anchor.recordNames, Store.load store name = .ok none

theorem loadAnchor_of_start (h : Agent.start settings store = .ok b) :
    loadAnchor store = .ok b.anchor := by
  obtain ⟨⟨⟩, -, h⟩ := bind_eq_ok h
  obtain ⟨anchor, hanchor, h⟩ := bind_eq_ok h
  obtain ⟨snapshot, -, h⟩ := bind_eq_ok h
  obtain ⟨s, -, h⟩ := bind_eq_ok h
  rw [← Except.ok.inj h]
  exact eq_ok_of_mapError hanchor

/-- **No anchor is found exactly if a record of it is not there.** -/
theorem anchorless_iff {anchor : Option Anchor} (h : loadAnchor store = .ok anchor) :
    Anchorless store ↔ anchor = none := by
  obtain ⟨serviceKey, hserviceKey, h⟩ := bind_eq_ok h
  obtain ⟨certificate, hcertificate, h⟩ := bind_eq_ok h
  obtain ⟨privateKey, hprivateKey, h⟩ := bind_eq_ok h
  rw [← Except.ok.inj h]
  simp only [Anchorless, Anchor.recordNames, List.mem_cons, List.not_mem_nil, or_false,
    exists_eq_or_imp, exists_eq_left, hserviceKey, hcertificate, hprivateKey, Except.ok.injEq]
  cases serviceKey <;> cases certificate <;> cases privateKey <;> simp [Anchor.ofRecords?]

/-- A start that finds an anchor takes over the commands of the snapshot. -/
theorem saved_of_start (h : Agent.start settings store = .ok b) (hinit : b.isInitialized = true) :
    Saved (fun _ commands => commands.length ≤ b.custody.outbox.depth) store := by
  intro text saved htext hsaved
  obtain ⟨anchor, snapshot, s, hsnapshot, hs, rfl⟩ := exists_restored_of_start h
  obtain ⟨anchor, rfl⟩ := Option.isSome_iff_exists.mp hinit
  obtain rfl := Except.ok.inj (hsnapshot.symm.trans htext)
  simp only [restore, hsaved] at hs
  rw [← Except.ok.inj hs]
  exact Nat.le_refl _

/-- What is stored holds no more commands than the agent: without an anchor none is stored, and with
one the snapshot has at most as many commands. -/
structure Contained (a : Agent σ) : Prop where
  anchorless : a.isInitialized = false → Anchorless a.store
  saved : a.isInitialized = true →
    Saved (fun _ commands => commands.length ≤ a.custody.outbox.depth) a.store

/-- What is beside the records of a store makes no difference. -/
theorem Contained.congr (h : a.Contained) (hsame : SameRecords a.store store) :
    ({ a with store := store }).Contained where
  anchorless hinit := by
    obtain ⟨name, hname, hload⟩ := h.anchorless hinit
    exact ⟨name, hname, (hsame name (List.mem_cons_of_mem _ hname)).trans hload⟩
  saved hinit := (h.saved hinit).congr (hsame _ List.mem_cons_self)

/-- A start takes over what is stored. -/
theorem contained_of_start (h : Agent.start settings store = .ok b) : b.Contained := by
  have hstore : b.store = store := by
    obtain ⟨_, _, _, -, -, rfl⟩ := exists_restored_of_start h
    rfl
  refine ⟨fun hinit => ?_, fun hinit => ?_⟩
  · rw [hstore, anchorless_iff (loadAnchor_of_start h)]
    simpa [isInitialized] using hinit
  · rw [hstore]
    exact saved_of_start h hinit

variable [ReliableStore σ]

/-- A run begins without commands. -/
private theorem Chronicle.commands_eq_nil_of_nil (h : Chronicle [] a) :
    a.custody.outbox.commands = [] := by
  generalize hnone : ([] : List (Occasion σ)) = occasions at h
  cases h with
  | start _ hempty hstart =>
    have hsaved : Saved (fun _ commands => commands = []) _ := fun _ _ htext _ =>
      nomatch (hempty _ List.mem_cons_self).symm.trans htext
    exact (hsaved.start rfl hstart).1
  | call | obstruct | restart => simp at hnone

variable [ExactStore σ]

/-- **The store holds no more commands than the agent** after every call, whether it succeeds or
fails. -/
theorem Effect.contained (h : a.Effect call result b) (hnumbers : b.custody.outbox.NumbersLast)
    (ha : a.Grounded p) (hstored : a.Contained) : b.Contained := by
  have hceiling : a.settings.maxQueueDepth ≤ Settings.queueDepthCeiling :=
    Settings.maxQueueDepth_le ha.settings
  have hnext := hnumbers.nextSequence_lt
  cases h with
  | refused | found | attested | revoked => exact ⟨hstored.anchorless, hstored.saved⟩
  | saved hinit ht hcommit =>
    obtain ⟨-, hwritten⟩ := ReliableStore.of_commit_eq_ok ha.store (.snapshot _) hcommit
    refine ⟨fun hnot => absurd (hinit.symm.trans hnot) nofun, fun _ => ?_⟩
    have hcapacity := ht.follows.capacity_eq.trans_le ha.capacity_le
    exact .of_encode (ht.sound ha.custody) hnext hcapacity (Nat.le_refl _)
      (hwritten _ List.mem_cons_self)
  | unsaved _ _ hcommit =>
    exact hstored.congr (ReliableStore.of_commit_eq_error ha.store (.snapshot _) hcommit).2
  | provisioned _ _ hcommit =>
    obtain ⟨-, hwritten⟩ := ReliableStore.of_commit_eq_ok ha.store (.anchor _ _) hcommit
    refine ⟨nofun, fun _ => ?_⟩
    exact .of_encode (.freshAfter _ _) hnext hceiling (Nat.le_refl _)
      (hwritten (_, _) (List.mem_append_right _ List.mem_cons_self))
  | unprovisioned _ _ hcommit =>
    exact hstored.congr (ReliableStore.of_commit_eq_error ha.store (.anchor _ _) hcommit).2
  | unerased herase =>
    obtain ⟨-, hrecord⟩ := ReliableStore.of_erase ha.store herase
    refine ⟨fun hinit => ?_, fun hinit => (hstored.saved hinit).congr hrecord⟩
    -- a record that was not there before is not there after either
    obtain ⟨name, hname, hload⟩ := hstored.anchorless hinit
    obtain hgone | ⟨-, hkept⟩ := ExactStore.load_of_erase ha.store herase name hname
    · exact ⟨name, hname, hgone⟩
    · exact ⟨name, hname, hkept.trans hload⟩
  | closed herase hcommit =>
    obtain ⟨hsound, -⟩ := ReliableStore.of_erase ha.store herase
    refine ⟨fun _ => ⟨Anchor.serviceKeyRecord, List.mem_cons_self, ?_⟩, nofun⟩
    have hother : Anchor.serviceKeyRecord ∉ [Custody.record] := by decide
    rw [ExactStore.load_of_commit hsound (.snapshot _) hcommit _ (by decide) hother]
    exact ExactStore.load_of_erase_eq_ok ha.store herase List.mem_cons_self
  | unclosed herase hcommit =>
    obtain ⟨hsound, -⟩ := ReliableStore.of_erase ha.store herase
    obtain ⟨-, hsame⟩ := ReliableStore.of_commit_eq_error hsound (.snapshot _) hcommit
    refine ⟨fun _ => ⟨Anchor.serviceKeyRecord, List.mem_cons_self, ?_⟩, nofun⟩
    rw [hsame _ (by decide)]
    exact ExactStore.load_of_erase_eq_ok ha.store herase List.mem_cons_self

theorem Chronicle.contained (h : Chronicle past a) : a.Contained := by
  induction h with
  | start _ _ hstart => exact contained_of_start hstart
  | @call past a call h hnumbers ih =>
    exact (effect_serve a call).contained hnumbers h.grounded ih
  | obstruct _ _ hsame ih => exact ih.congr hsame
  | restart _ _ _ hstart => exact contained_of_start hstart

/-! ### Runs -/

/-- **A new start adds no commands**, whatever its settings. -/
theorem Chronicle.depth_le_of_restart (h : Chronicle past a) (hsound : ReliableStore.Sound store)
    (hsame : SameRecords a.store store) (hstart : Agent.start settings store = .ok b) :
    b.custody.outbox.depth ≤ a.custody.outbox.depth := by
  have hstored := h.contained.congr hsame
  rcases hinit : b.isInitialized
  · rw [Outbox.depth, (h.restart hsound hsame hstart).commands_eq_nil hinit]
    exact Nat.zero_le _
  · have ha : a.isInitialized = true := by
      by_contra hnot
      have hanchorless := hstored.anchorless (Bool.eq_false_of_not_eq_true hnot)
      rw [isInitialized, (anchorless_iff (loadAnchor_of_start hstart)).mp hanchorless] at hinit
      cases hinit
    exact ((hstored.saved ha).start (Nat.zero_le _) hstart).1

omit [ExactStore σ] in
/-- A call takes the outbox no further beyond its bound. -/
theorem Chronicle.depth_le_of_serve (h : Chronicle past a) (call : Call) :
    (a.serve call).2.custody.outbox.depth ≤
      max a.custody.outbox.depth a.custody.outbox.capacity :=
  have hcapacity := h.grounded.capacity
  hcapacity ▸ ((effect_serve a call).depth_le hcapacity).2

/-- A step takes the outbox no further beyond the bound that it finds. -/
theorem Chronicle.depth_le_of_concat (h : Chronicle (past ++ [o]) b) :
    Chronicle past o.agent ∧
      b.custody.outbox.depth ≤
        max o.agent.custody.outbox.depth o.agent.custody.outbox.capacity := by
  generalize hoccasions : past ++ [o] = occasions at h
  cases h with
  | start => simp at hoccasions
  | @call before a call h =>
    obtain ⟨rfl, rfl⟩ := List.append_singleton_inj.mp hoccasions
    exact ⟨h, h.depth_le_of_serve call⟩
  | obstruct h =>
    obtain ⟨rfl, rfl⟩ := List.append_singleton_inj.mp hoccasions
    exact ⟨h, Nat.le_max_left _ _⟩
  | restart h hsound hsame hstart =>
    obtain ⟨rfl, rfl⟩ := List.append_singleton_inj.mp hoccasions
    exact ⟨h, le_max_of_le_left (h.depth_le_of_restart hsound hsame hstart)⟩

/-- **The outbox is within some bound that it has had**, and so within the largest. -/
theorem Chronicle.exists_depth_le_capacity (h : Chronicle past a) :
    ∃ x ∈ past.map Occasion.agent ++ [a],
      a.custody.outbox.depth ≤ x.custody.outbox.capacity := by
  induction past using List.reverseRecOn generalizing a with
  | nil =>
    refine ⟨a, List.mem_singleton_self _, ?_⟩
    rw [Outbox.depth, h.commands_eq_nil_of_nil]
    exact Nat.zero_le _
  | append_singleton past o ih =>
    obtain ⟨hbefore, hdepth⟩ := h.depth_le_of_concat
    rw [List.map_append, List.map_singleton]
    rcases le_max_iff.mp hdepth with hle | hle
    · obtain ⟨x, hx, hbound⟩ := ih hbefore
      exact ⟨x, List.mem_append_left _ hx, hle.trans hbound⟩
    · exact ⟨o.agent, by simp, hle⟩

/-- **The outbox does not grow beyond its bound**: while it is beyond it, it is no longer than it
was. -/
theorem Chronicle.depth_le_of_crowded (h : Chronicle (before ++ o :: later) a)
    (hcrowded : ∀ x ∈ o :: later, x.agent.custody.outbox.capacity < x.agent.custody.outbox.depth) :
    a.custody.outbox.depth ≤ o.agent.custody.outbox.depth := by
  induction later using List.reverseRecOn generalizing a with
  | nil =>
    obtain ⟨-, hdepth⟩ := h.depth_le_of_concat
    rwa [Nat.max_eq_left (hcrowded o List.mem_cons_self).le] at hdepth
  | append_singleton later last ih =>
    rw [← List.cons_append, ← List.append_assoc] at h
    obtain ⟨hbefore, hdepth⟩ := h.depth_le_of_concat
    rw [Nat.max_eq_left (hcrowded last (by simp)).le] at hdepth
    exact hdepth.trans (ih hbefore fun x hx => hcrowded x (List.mem_append_left [last] hx))

end Agent

end KeyCustody
