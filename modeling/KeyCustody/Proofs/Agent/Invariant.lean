import KeyCustody.Proofs.Agent.Chronicle
import KeyCustody.Proofs.Custody.Room

/-!
# What every run keeps

A property of entries and commands that holds where there are none, and is kept by all transitions
that calls commit in some states (`Custody.Kept`), holds throughout a run in which calls succeed
only in these states (`Agent.Chronicle.keeps`), over any store. A new start goes on from what is
stored, so the induction carries the property for the snapshot along (`Agent.Saved`).

The size of the outbox is such a property (`Agent.Chronicle.depth_le`).
-/

namespace KeyCustody

/-- Whether a property of entries and commands holds where there are none, and is kept by the
transitions of calls that satisfy `p` in the state before them. -/
structure Custody.Kept (p : Custody → Call → Prop) (q : Keyring → List Command → Prop) : Prop where
  empty : q Keyring.empty []
  transition {limit : Option Nat} {s t : Custody} {call : Call} {answer : Answer} (hs : s.Sound)
    (hcapacity : s.outbox.capacity ≤ Settings.queueDepthCeiling)
    (ht : s.Transition limit call answer t) (hcall : p s call)
    (h : q s.keyring s.outbox.commands) : q t.keyring t.outbox.commands

namespace Agent

variable {σ : Type} [Store σ] {past : List (Occasion σ)} {a b : Agent σ} {store store' : σ}
  {settings : Settings} {call : Call} {result : Except Fault Answer} {p : Custody → Call → Prop}
  {q : Keyring → List Command → Prop}

/-- Whether the entries and commands of the snapshot in a store, if it can be read, have a
property. -/
def Saved (q : Keyring → List Command → Prop) (store : σ) : Prop :=
  ∀ text s, Store.load store Custody.record = .ok (some text) → Custody.decode? text = some s →
    q s.keyring s.outbox.commands

theorem Saved.congr (h : Saved q store)
    (hrecord : Store.load store' Custody.record = Store.load store Custody.record) :
    Saved q store' :=
  fun text s htext => h text s (hrecord.symm.trans htext)

/-- A snapshot has the entries and the commands of the state that it was taken of. -/
theorem Saved.of_encode {s : Custody} (hs : s.Sound)
    (hnext : s.outbox.nextSequence < Outbox.sequenceBound)
    (hcapacity : s.outbox.capacity ≤ Settings.queueDepthCeiling)
    (h : q s.keyring s.outbox.commands)
    (hload : Store.load store Custody.record = .ok (some s.encode)) : Saved q store := by
  intro text t htext ht
  have hlt : s.outbox.capacity < Outbox.sequenceBound := Nat.lt_of_le_of_lt hcapacity (by decide)
  obtain rfl := Option.some.inj (Except.ok.inj (hload.symm.trans htext))
  obtain rfl := Option.some.inj ((Custody.decode?_encode (hs.inRange hnext hlt)).symm.trans ht)
  exact h

/-- A start goes on from what is stored. -/
theorem Saved.start (h : Saved q store) (hempty : q Keyring.empty [])
    (hstart : Agent.start settings store = .ok b) :
    q b.custody.keyring b.custody.outbox.commands ∧ b.store = store := by
  obtain ⟨anchor, snapshot, s, hsnapshot, hs, rfl⟩ := exists_restored_of_start hstart
  refine ⟨?_, rfl⟩
  obtain rfl | ⟨text, saved, rfl, hsaved, hs⟩ := restore_cases hs
  · exact hempty
  · obtain rfl | rfl := hs
    · exact h text s hsnapshot hsaved
    · exact hempty

variable [ReliableStore σ]

/-- What a call keeps, whether it succeeds or fails. -/
theorem Effect.keeps {r : Measurement → Prop} (h : a.Effect call result b)
    (hnumbers : b.custody.outbox.NumbersLast) (hq : Custody.Kept p q) (ha : a.Grounded r)
    (hcall : ∀ answer, result = .ok answer → p a.custody call)
    (hbefore : q a.custody.keyring a.custody.outbox.commands) (hsaved : Saved q a.store) :
    q b.custody.keyring b.custody.outbox.commands ∧ Saved q b.store := by
  have hceiling : a.settings.maxQueueDepth ≤ Settings.queueDepthCeiling :=
    Settings.maxQueueDepth_le ha.settings
  have hnext := hnumbers.nextSequence_lt
  have hblank : a.blank.Sound := .freshAfter _ _
  cases h with
  | refused | found | attested | revoked => exact ⟨hbefore, hsaved⟩
  | saved _ ht hcommit =>
    obtain ⟨-, hwritten⟩ := ReliableStore.of_commit_eq_ok ha.store (.snapshot _) hcommit
    have hafter := hq.transition ha.custody ha.capacity_le ht (hcall _ rfl) hbefore
    have hcapacity := ht.follows.capacity_eq.trans_le ha.capacity_le
    exact ⟨hafter, .of_encode (ht.sound ha.custody) hnext hcapacity hafter
      (hwritten _ List.mem_cons_self)⟩
  | unsaved _ _ hcommit =>
    obtain ⟨-, hsame⟩ := ReliableStore.of_commit_eq_error ha.store (.snapshot _) hcommit
    exact ⟨hbefore, hsaved.congr (hsame _ List.mem_cons_self)⟩
  | provisioned _ _ hcommit =>
    obtain ⟨-, hwritten⟩ := ReliableStore.of_commit_eq_ok ha.store (.anchor _ _) hcommit
    exact ⟨hq.empty, .of_encode hblank hnext hceiling hq.empty
      (hwritten (_, _) (List.mem_append_right _ List.mem_cons_self))⟩
  | unprovisioned _ _ hcommit =>
    obtain ⟨-, hsame⟩ := ReliableStore.of_commit_eq_error ha.store (.anchor _ _) hcommit
    exact ⟨hbefore, hsaved.congr (hsame _ List.mem_cons_self)⟩
  | unerased herase =>
    obtain ⟨-, hrecord⟩ := ReliableStore.of_erase ha.store herase
    exact ⟨hbefore, hsaved.congr hrecord⟩
  | closed herase hcommit =>
    obtain ⟨hsound, -⟩ := ReliableStore.of_erase ha.store herase
    obtain ⟨-, hwritten⟩ := ReliableStore.of_commit_eq_ok hsound (.snapshot _) hcommit
    exact ⟨hq.empty, .of_encode hblank hnext hceiling hq.empty (hwritten _ List.mem_cons_self)⟩
  | unclosed herase hcommit =>
    -- the old snapshot stays behind
    obtain ⟨hsound, hrecord⟩ := ReliableStore.of_erase ha.store herase
    obtain ⟨-, hsame⟩ := ReliableStore.of_commit_eq_error hsound (.snapshot _) hcommit
    exact ⟨hq.empty, (hsaved.congr hrecord).congr (hsame _ List.mem_cons_self)⟩

/-- **What transitions keep, runs keep**, as far as this is known of the calls that succeed, in the
states in which they do. -/
theorem Chronicle.keeps (h : Chronicle past a) (hq : Custody.Kept p q)
    (hpast : ∀ o ∈ past, ∀ call answer, o.event = .call call (.ok answer) →
      p o.agent.custody call) :
    q a.custody.keyring a.custody.outbox.commands ∧ Saved q a.store := by
  induction h with
  | start _ hempty hstart =>
    have hsaved : Saved q _ := fun _ _ htext _ =>
      nomatch (hempty _ List.mem_cons_self).symm.trans htext
    obtain ⟨hcustody, hstore⟩ := hsaved.start hq.empty hstart
    exact ⟨hcustody, hstore ▸ hsaved⟩
  | @call past a call h hnumbers ih =>
    obtain ⟨hbefore, hsaved⟩ := ih fun o ho => hpast o (List.mem_append_left _ ho)
    refine (effect_serve a call).keeps hnumbers hq h.grounded (fun answer hanswer => ?_) hbefore
      hsaved
    exact hpast _ (List.mem_append_right _ List.mem_cons_self) call answer (by rw [hanswer])
  | obstruct _ _ hsame ih =>
    obtain ⟨hbefore, hsaved⟩ := ih fun o ho => hpast o (List.mem_append_left _ ho)
    exact ⟨hbefore, hsaved.congr (hsame _ List.mem_cons_self)⟩
  | restart _ _ hsame hstart ih =>
    obtain ⟨-, hsaved⟩ := ih fun o ho => hpast o (List.mem_append_left _ ho)
    have hsaved := hsaved.congr (hsame _ List.mem_cons_self)
    obtain ⟨hcustody, hstore⟩ := hsaved.start hq.empty hstart
    exact ⟨hcustody, hstore ▸ hsaved⟩

/-- **The outbox stays small** over any store: no run takes it beyond the largest bound that
settings may have. -/
theorem Chronicle.depth_le (h : Chronicle past a) :
    a.custody.outbox.depth ≤ Settings.queueDepthCeiling := by
  have hkept : Custody.Kept (fun _ _ => True)
      fun _ commands => commands.length ≤ Settings.queueDepthCeiling :=
    { empty := Nat.zero_le _
      transition := fun _ hcapacity ht _ hdepth =>
        ht.depth_le.trans (Nat.max_le.mpr ⟨hdepth, hcapacity⟩) }
  exact (h.keeps hkept fun _ _ _ _ _ => trivial).1

end Agent

end KeyCustody
