import KeyCustody.Proofs.Agent.Numbering
import KeyCustody.Proofs.Agent.Occupancy
import KeyCustody.Proofs.Agent.Provenance

/-!
# Backpressure

The outbox is bounded, and a call that finds no room in it is refused. A refusal leaves the agent as
it was, so the same call succeeds later only if commands have been finalized in the meantime.

Two kinds of refusal stay whatever is finalized. A start may find more commands than its settings
allow; then the reply that a key was not found is refused for want of room for the generation of the
key, although the search has just left its place (`Agent.lacksRoom_reply_iff`). And a call may need
more room than the whole outbox has: a destruction needs two places, and the end of an application
two for each live key (`Agent.lacksRoom_idle_iff`).

The numbers of commands are not what a call lacks: they last for longer than any run
(`Agent.Run.numbersLast_serve`).
-/

namespace KeyCustody

theorem Settings.maxQueueDepth_pos {settings : Settings} (h : settings.check = .ok ()) :
    0 < settings.maxQueueDepth := by
  rw [check] at h
  split_ifs at h with hdepth
  omega

namespace Agent

open Custody

variable {a b : Agent MemoryStore} {past : List Moment}

/-! ### How full the outbox gets -/

/-- **The outbox stays small**: no run takes it beyond the largest bound that settings may have. -/
theorem Reachable.depth_le (h : a.Reachable) :
    a.custody.outbox.depth ≤ Settings.queueDepthCeiling :=
  let ⟨_, hrun⟩ := h
  hrun.chronicle.depth_le

/-- No step takes more numbers than the outbox has places. -/
theorem Run.nextSequence_le (h : Run past a) :
    a.custody.outbox.nextSequence ≤ 1 + Settings.queueDepthCeiling * past.length := by
  induction h with
  | start hstart =>
    obtain ⟨-, rfl⟩ := start_empty_eq_ok hstart
    exact Nat.le_refl _
  | @step past a b event hrun hstep ih =>
    have hnext := Moment.nextSequence_eq (m := ⟨a, event, b⟩) hstep hrun.lawful
    have hdepth := Reachable.depth_le ⟨_, hrun.step hstep⟩
    -- what is queued in the step stands in the outbox after it
    have hqueued : (Moment.queued ⟨a, event, b⟩).length ≤ b.custody.outbox.depth := by
      rw [Moment.queued, List.length_drop]
      exact Nat.sub_le _ _
    dsimp only at hnext
    rw [hnext, List.length_append, List.length_singleton, Nat.mul_add_one]
    omega

/-- **Numbers last** for longer than any run: the proviso on a call is met after fewer than `2 ^ 53`
steps. -/
theorem Run.numbersLast_serve (h : Run past a) (hlength : past.length < 2 ^ 53) (call : Call) :
    (a.serve call).2.custody.outbox.NumbersLast := by
  have hbefore := h.nextSequence_le
  have hcapacity := h.lawful.capacity_le
  have hnext : (a.serve call).2.custody.outbox.nextSequence ≤
      a.custody.outbox.nextSequence + Settings.queueDepthCeiling :=
    ((effect_serve a call).nextSequence_le_add h.lawful.sound).trans (by omega)
  rw [Outbox.NumbersLast]
  simp only [Settings.queueDepthCeiling, Outbox.sequenceBound] at *
  omega

/-- The outbox is within its bound if no start found more commands than its settings allow. -/
theorem Run.depth_le_capacity (h : Run past a)
    (hrestarts : ∀ m ∈ past, ∀ settings, m.event = .restart settings →
      m.before.custody.outbox.depth ≤ settings.maxQueueDepth) :
    a.custody.outbox.depth ≤ a.custody.outbox.capacity := by
  induction h with
  | start hstart =>
    obtain ⟨-, rfl⟩ := start_empty_eq_ok hstart
    exact Nat.zero_le _
  | @step past a b event hrun hstep ih =>
    have hbefore := ih fun m hm => hrestarts m (List.mem_append_left _ hm)
    have ha := hrun.lawful
    have hb := hstep.lawful ha
    rw [ha.capacity] at hbefore
    rw [hb.capacity]
    cases hstep with
    | call call =>
      obtain ⟨hsettings, hle⟩ := (effect_serve a call).depth_le ha.capacity
      rw [hsettings]
      omega
    | obstruct => exact hbefore
    | @restart settings _ hstart =>
      obtain rfl := Except.ok.inj (hstart.symm.trans (start_eq_ok ha (check_of_start hstart)))
      exact hrestarts _ (List.mem_append_right _ (List.mem_singleton.mpr rfl)) settings rfl

/-! ### Calls that lack room -/

/-- A call lacks room if its transition does; a commit never lacks room. -/
theorem lacksRoom_transact {α : Type} {transition : Custody → Except Fault (α × Custody)} :
    LacksRoom (a.transact transition).1 ↔ LacksRoom (transition a.custody) := by
  rw [transact]
  rcases htransition : transition a.custody with fault | ⟨answer, t⟩
  · simp [LacksRoom]
  · refine iff_of_false ?_ (not_lacksRoom_ok _)
    dsimp only
    split <;> simp

/-- The conditions of a call come before it needs room. -/
private theorem lacksRoom_of_condition {α : Type} {condition : Except Fault Unit}
    {outcome : Except Fault α × Agent MemoryStore} :
    ¬ LacksRoom condition → (LacksRoom (match condition with
      | .error fault => (.error fault, a)
      | .ok () => outcome : Except Fault α × Agent MemoryStore).1 ↔
        condition = .ok () ∧ LacksRoom outcome.1) := by
  intro hcondition
  rcases condition with fault | ⟨⟩
  · rw [lacksRoom_error] at hcondition
    exact iff_of_false (by rwa [lacksRoom_error]) (by simp)
  · simp

private theorem not_lacksRoom_requireInitialized : ¬ LacksRoom a.requireInitialized := by
  rw [requireInitialized]
  split_ifs <;> simp

private theorem not_lacksRoom_requireVerified {ta : Uuid} : ¬ LacksRoom (a.requireVerified ta) := by
  rw [requireVerified]
  split_ifs <;> simp

private theorem not_lacksRoom_authorize {key : KeyRef} : ¬ LacksRoom (a.authorize key) := by
  rw [authorize, lacksRoom_bind, lacksRoom_bind]
  rintro (h | ⟨_, -, h | ⟨_, -, h⟩⟩)
  · exact not_lacksRoom_requireInitialized h
  · exact not_lacksRoom_requireVerified h
  · split_ifs at h
    · exact not_lacksRoom_ok _ h
    · obtain ⟨_, h⟩ := h
      cases h

/-- A call that lacks room changes nothing, so that it will lack room again if nothing else
happens. -/
theorem eq_of_lacksRoom {call : Call} (h : LacksRoom (a.serve call).1) : (a.serve call).2 = a := by
  obtain ⟨depth, h⟩ := h
  have heffect := effect_serve a call
  rw [h] at heffect
  generalize (a.serve call).2 = b at heffect ⊢
  cases heffect
  rfl

/-- There is an anchor as long as there are commands. -/
theorem Lawful.isInitialized_of_mem (h : a.Lawful) {c : Command}
    (hc : c ∈ a.custody.outbox.commands) : a.isInitialized = true := by
  by_contra hinit
  rw [h.eq_blank (by simpa using hinit)] at hc
  cases hc

/-! ### Replies -/

private theorem lacksRoom_submit {reply : Reply} {c : Command} (hinit : a.isInitialized = true)
    (hc : a.custody.outbox.get? reply.sequence = some c) (hshipped : c.status.isShipped = true) :
    LacksRoom (a.submit reply).1 ↔ (∃ material, reply.material = .ok material) ∧
      (c.kind = .search ∧ reply.result = .notFound ∧
        a.custody.keyring.isPendingOn c.key c.sequence = true) ∧
      a.custody.outbox.capacity < a.custody.outbox.depth := by
  have hrequire : a.requireInitialized = .ok () := if_pos hinit
  rw [submit, hrequire]
  dsimp only
  rcases hmaterial : reply.material with fault | material
  · refine iff_of_false ?_ (by simp)
    rw [Reply.material] at hmaterial
    rcases hdecode : Hex.decode reply.payload with why | octets <;> rw [hdecode] at hmaterial
    · obtain rfl := Except.error.inj hmaterial
      simp
    · cases hmaterial
  · simp [lacksRoom_transact, lacksRoom_answer hc hshipped]

/-- **When a reply lacks room**: the reply that a key was not found lacks room exactly if the entry
of the key waits for the search that it answers and the outbox is beyond its bound, and no other
reply ever does. The outbox of a run is within its bound unless some start found more commands than
its settings allow. -/
theorem lacksRoom_reply_iff (h : Run past a) {c : Command} (hc : c ∈ a.custody.outbox.commands)
    (hshipped : c.status.isShipped = true) :
    (LacksRoom (a.submit (.notFound c.sequence)).1 ↔
      c.kind = .search ∧ a.custody.keyring.isPendingOn c.key c.sequence = true ∧
        a.custody.outbox.capacity < a.custody.outbox.depth) ∧
    (∀ reply : Reply, reply.sequence = c.sequence → reply.result ≠ .notFound →
      ¬ LacksRoom (a.submit reply).1) ∧
    ((∀ m ∈ past, ∀ settings, m.event = .restart settings →
        m.before.custody.outbox.depth ≤ settings.maxQueueDepth) →
      a.custody.outbox.depth ≤ a.custody.outbox.capacity) := by
  have hinit := h.lawful.isInitialized_of_mem hc
  have hget : a.custody.outbox.get? c.sequence = some c :=
    h.lawful.sound.outbox.get?_eq_some_iff.mpr ⟨hc, rfl⟩
  refine ⟨?_, fun reply hsequence hresult => ?_, h.depth_le_capacity⟩
  · have hmaterial : (Reply.notFound c.sequence).material = .ok [] := rfl
    have hresult : (Reply.notFound c.sequence).result = .notFound := rfl
    have hreply : LacksRoom (a.submit (.notFound c.sequence)).1 ↔ _ :=
      lacksRoom_submit hinit hget hshipped
    rw [hreply, hmaterial, hresult]
    simp [and_assoc]
  · rw [lacksRoom_submit hinit (hsequence ▸ hget) hshipped]
    rintro ⟨-, ⟨-, hnotFound, -⟩, -⟩
    exact hresult hnotFound

/-- Settings that give room for one command. -/
def narrow : Settings := { Settings.standard with maxQueueDepth := 1 }

theorem check_narrow : narrow.check = .ok () := rfl

/-- The calls after which two searches have been handed out. -/
def twoSearches : List Call :=
  introduction sampleKey ++ [.search ⟨sampleKey.owner, "l"⟩, .poll 2 fun _ => .ok ()]

/-- An agent that started anew with room for one command after these calls. -/
def crowded : Agent MemoryStore := (opened.serveAll twoSearches).restarted narrow

/-- It refuses the reply that the key of the first search was not found. -/
theorem lacksRoom_reply_crowded :
    ∃ past c, Run past crowded ∧ c ∈ crowded.custody.outbox.commands ∧
      c.status.isShipped = true ∧ LacksRoom (crowded.submit (.notFound c.sequence)).1 ∧
      ¬ ∀ m ∈ past, ∀ settings, m.event = .restart settings →
        m.before.custody.outbox.depth ≤ settings.maxQueueDepth := by
  have hrun := (run_opened.serveAll twoSearches (by decide +kernel)).restart check_narrow
  let c : Command := ⟨1, .search, sampleKey, [], .delivered, 0⟩
  have hc : c ∈ crowded.custody.outbox.commands := by decide +kernel
  have hpending : crowded.custody.keyring.isPendingOn c.key c.sequence = true := by
    decide +kernel
  have hfull : crowded.custody.outbox.capacity < crowded.custody.outbox.depth := by
    decide +kernel
  obtain ⟨hreply, -, hdepth⟩ := lacksRoom_reply_iff hrun hc rfl
  exact ⟨_, c, hrun, hc, rfl, hreply.mpr ⟨rfl, hpending, hfull⟩,
    fun hrestarts => absurd (hdepth hrestarts) (Nat.not_le.mpr hfull)⟩

/-! ### An empty outbox -/

/-- **What an empty outbox has no room for**: when no command is left, a reachable agent refuses no
lookup, generation or deletion for want of room. It refuses a destruction if its settings give room
for one command only, and the end of an application if they give less room than two commands for
each of its live keys need. A call that is refused for want of room changes nothing, so it is
refused again for as long as it is retried. -/
theorem lacksRoom_idle_iff (h : a.Reachable) (hinit : a.isInitialized = true)
    (hempty : a.custody.outbox.commands = []) :
    (∀ key, ¬ LacksRoom (a.search key).1) ∧
    (∀ key attributes, ¬ LacksRoom (a.generate key attributes).1) ∧
    (∀ key, ¬ LacksRoom (a.delete key).1) ∧
    (∀ key, LacksRoom (a.destroy key).1 ↔
      a.authorize key = .ok () ∧ a.settings.maxQueueDepth = 1) ∧
    (∀ ta, LacksRoom (a.exit ta).1 ↔ a.custody.gate.isVerified ta = true ∧
      a.settings.maxQueueDepth < 2 * (a.custody.liveIds ta).length) ∧
    ∀ call, LacksRoom (a.serve call).1 → (a.serve call).2 = a := by
  have hdepth : a.custody.outbox.depth = 0 := by rw [Outbox.depth, hempty, List.length_nil]
  have hcapacity := h.lawful.capacity
  have hbound := Settings.maxQueueDepth_pos h.lawful.settings
  have hroom : ¬ a.custody.outbox.capacity ≤ a.custody.outbox.depth := by omega
  refine ⟨fun key hlacks => ?_, fun key attributes hlacks => ?_, fun key hlacks => ?_,
    fun key => ?_, fun ta => ?_, fun call => eq_of_lacksRoom⟩
  · obtain ⟨-, hlacks⟩ := (lacksRoom_of_condition not_lacksRoom_authorize).mp hlacks
    split at hlacks
    · exact not_lacksRoom_ok _ hlacks
    · exact hroom (room_of_lacksRoom_search (lacksRoom_transact.mp hlacks))
  · obtain ⟨-, hlacks⟩ := (lacksRoom_of_condition not_lacksRoom_authorize).mp hlacks
    split_ifs at hlacks
    · obtain ⟨_, hlacks⟩ := hlacks
      cases hlacks
    · split at hlacks
      · exact not_lacksRoom_ok _ hlacks
      · exact hroom (lacksRoom_request.mp (lacksRoom_transact.mp hlacks))
  · obtain ⟨-, hlacks⟩ := (lacksRoom_of_condition not_lacksRoom_authorize).mp hlacks
    exact hroom (lacksRoom_strike.mp (lacksRoom_transact.mp hlacks))
  · refine (lacksRoom_of_condition not_lacksRoom_authorize).trans (and_congr_right fun _ => ?_)
    rw [lacksRoom_transact, lacksRoom_destroy, hdepth, hcapacity]
    omega
  · have hconditions : (do a.requireInitialized; a.requireVerified ta : Except Fault Unit) =
        a.requireVerified ta := by
      rw [requireInitialized, if_pos hinit]
      rfl
    have hverified : a.requireVerified ta = .ok () ↔ a.custody.gate.isVerified ta = true := by
      rw [requireVerified]
      split_ifs with hverified <;> simp [hverified]
    rw [exit, hconditions]
    refine (lacksRoom_of_condition not_lacksRoom_requireVerified).trans (and_congr hverified ?_)
    rw [lacksRoom_transact, lacksRoom_exit, lacksRoom_destroyAll (by omega), hdepth, hcapacity,
      Nat.zero_add]

/-- An agent with one key and an empty outbox, which has room for one command. -/
def idle : Agent MemoryStore :=
  ((opened.serveAll (fulfilment sampleKey [9])).restarted narrow).serveAll
    [.attest sampleKey.owner sampleMeasurement]

/-- It can neither destroy the key nor end the application. -/
theorem lacksRoom_idle :
    idle.Reachable ∧ idle.custody.outbox.commands = [] ∧
      LacksRoom (idle.destroy sampleKey).1 ∧ LacksRoom (idle.exit sampleKey.owner).1 ∧
      (idle.serve (.destroy sampleKey)).2 = idle := by
  have hfulfilled := run_opened.serveAll (fulfilment sampleKey [9]) (by decide +kernel)
  have hrun := (hfulfilled.restart check_narrow).serveAll
    [.attest sampleKey.owner sampleMeasurement] (by decide +kernel)
  have hreachable : idle.Reachable := ⟨_, hrun⟩
  have hempty : idle.custody.outbox.commands = [] := by decide +kernel
  have hauthorize : idle.authorize sampleKey = .ok () := by decide +kernel
  have hverified : idle.custody.gate.isVerified sampleKey.owner = true := by decide +kernel
  have hlive : idle.settings.maxQueueDepth <
      2 * (idle.custody.liveIds sampleKey.owner).length := by decide +kernel
  obtain ⟨-, -, -, hdestroy, hexit, hunchanged⟩ :=
    lacksRoom_idle_iff hreachable (by decide +kernel) hempty
  have hlacks := (hdestroy sampleKey).mpr ⟨hauthorize, rfl⟩
  have hserve : LacksRoom (idle.serve (.destroy sampleKey)).1 := by
    obtain ⟨depth, hfault⟩ := hlacks
    exact ⟨depth, congrArg (Except.map Answer.sequence) hfault⟩
  exact ⟨hreachable, hempty, hlacks, (hexit sampleKey.owner).mpr ⟨hverified, hlive⟩,
    hunchanged _ hserve⟩

end Agent

end KeyCustody
