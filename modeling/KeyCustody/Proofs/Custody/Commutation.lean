import KeyCustody.Proofs.Custody.Room
import Mathlib.Data.List.Nodup

/-!
# The order of replies

A reply that no generation follows takes its command out of the outbox and adjusts the entry of one
key (`Custody.conclude`, `Custody.answer_of_concludes`). Two such replies to different commands may
come in either order (`Custody.conclude_comm`): an entry waits for one command only, and a tombstone
goes with the last command for its key, whichever that is. So any number of replies may come in any
order (`Custody.foldl_conclude_perm`), and a reply that would be accepted is so after the others as
well, with the same receipt (`Custody.Concludes.after`).
-/

namespace KeyCustody

/-! ### What a reply makes of an entry -/

/-- How a reply to a command that no generation follows changes the entry that waits for it. -/
def Command.change (c : Command) (result : ReplyResult) (material : Bytes) : Entry → Entry :=
  if c.kind.yieldsKey then
    match result with
    | .success => fun e => { e with material := some material, status := .ready }
    | .notFound => if c.kind = .search then id else fun e => { e with status := .failed }
    | .failure => fun e => { e with status := .failed }
  else id

/-- The entry after such a reply: only an entry that waits for the command changes. -/
def Entry.concluded (e : Entry) (c : Command) (result : ReplyResult) (material : Bytes) : Entry :=
  if e.status = .pending ∧ e.lastSequence = c.sequence then c.change result material e else e

namespace Entry

variable {e : Entry} {c d : Command} {result result' : ReplyResult} {material material' : Bytes}

theorem concluded_of_ne (h : e.lastSequence ≠ c.sequence) :
    e.concluded c result material = e :=
  if_neg fun hwaits => h hwaits.2

@[simp]
theorem lastSequence_concluded (e : Entry) (c : Command) (result : ReplyResult)
    (material : Bytes) : (e.concluded c result material).lastSequence = e.lastSequence := by
  unfold concluded Command.change
  cases result <;> dsimp only <;> split_ifs <;> rfl

/-- An entry waits for one command only, so of two replies at most one changes it. -/
theorem concluded_comm (hne : c.sequence ≠ d.sequence) :
    (e.concluded c result material).concluded d result' material' =
      (e.concluded d result' material').concluded c result material := by
  by_cases hc : e.lastSequence = c.sequence
  · have hd : e.lastSequence ≠ d.sequence := hc ▸ hne
    rw [concluded_of_ne (c := d) hd, concluded_of_ne (c := d) (by rwa [lastSequence_concluded])]
  · rw [concluded_of_ne (c := c) hc, concluded_of_ne (c := c) (by rwa [lastSequence_concluded])]

end Entry

/-- What a reply leaves of the entry of its key: a tombstone only if another command is for the
key. -/
def Command.leaves (c : Command) (result : ReplyResult) (material : Bytes) (referenced : Bool)
    (entry : Option Entry) : Option Entry :=
  (entry.map (·.concluded c result material)).filter fun e => e.status ≠ .deleted || referenced

/-- While its key is referred to, an entry stays. -/
theorem Command.leaves_true (c : Command) (result : ReplyResult) (material : Bytes)
    (entry : Option Entry) :
    c.leaves result material true entry = entry.map (·.concluded c result material) := by
  rcases entry with _ | e
  · rfl
  · simp [leaves]

/-- A reply leaves an entry to wait for any other command. -/
theorem Command.any_leaves {c : Command} {sequence : Nat} (hne : sequence ≠ c.sequence)
    (result : ReplyResult) (material : Bytes) (referenced : Bool) (entry : Option Entry) :
    (c.leaves result material referenced entry).any
        (fun e => e.status = .pending ∧ e.lastSequence = sequence) =
      entry.any fun e => e.status = .pending ∧ e.lastSequence = sequence := by
  rcases entry with _ | e
  · rfl
  by_cases hlast : e.lastSequence = c.sequence
  · -- it waited for none but the command
    have hother : e.lastSequence ≠ sequence := fun h => hne (h.symm.trans hlast)
    rw [Bool.eq_iff_iff]
    simp [leaves, hother]
  · rw [leaves, Option.map_some, Entry.concluded_of_ne hlast]
    rcases hstatus : e.status <;> simp [hstatus]

namespace Custody

/-! ### Replies without a generation -/

/-- The state after a reply that no generation follows. -/
def conclude (s : Custody) (reply : Reply) : Custody :=
  match s.outbox.get? reply.sequence, reply.material with
  | some c, .ok material =>
    let outbox := s.outbox.without reply.sequence
    { s with
      keyring := s.keyring.adjust c.key
        (c.leaves reply.result material (outbox.references c.key))
      outbox := outbox }
  | _, _ => s

/-- What is told about a command when it is answered and no generation follows. -/
def receipt (c : Command) (result : ReplyResult) : Receipt :=
  ⟨c.sequence, c.kind, (answered c result).status, none⟩

/-- A reply concludes a command: the command was handed out, the reply is well formed, and it does
not say that the search for which an entry waits found nothing. -/
structure Concludes (s : Custody) (reply : Reply) (c : Command) (material : Bytes) : Prop where
  command : s.outbox.get? reply.sequence = some c
  isShipped : c.status.isShipped = true
  decoded : reply.material = .ok material
  bounds : c.kind.yieldsKey = true → reply.result = .success →
    0 < material.length ∧ material.length ≤ Anchor.maxKeySize
  final : ¬ (c.kind = .search ∧ reply.result = .notFound ∧
    s.keyring.isPendingOn c.key c.sequence = true)

instance (s : Custody) (reply : Reply) (c : Command) (material : Bytes) :
    Decidable (s.Concludes reply c material) :=
  decidable_of_iff (_ ∧ _ ∧ _ ∧ _ ∧ _)
    ⟨fun ⟨hc, hshipped, hdecoded, hbounds, hfinal⟩ => ⟨hc, hshipped, hdecoded, hbounds, hfinal⟩,
      fun ⟨hc, hshipped, hdecoded, hbounds, hfinal⟩ => ⟨hc, hshipped, hdecoded, hbounds, hfinal⟩⟩

variable {s : Custody} {reply other : Reply} {c : Command} {material : Bytes}

/-- Settling an entry without a generation to follow concludes it. -/
theorem settle_of_final {result : ReplyResult}
    (h : ¬ (c.kind = .search ∧ result = .notFound ∧
      s.keyring.isPendingOn c.key c.sequence = true)) :
    s.settle c result material = .ok (none,
      { s with
        keyring := s.keyring.adjust c.key (Option.map (·.concluded c result material)) }) := by
  have hsettle : s.keyring.adjust c.key (Option.map (·.concluded c result material)) =
      s.keyring.settle c.key c.sequence (c.change result material) :=
    (Keyring.settle_eq_adjust ..).symm
  rw [hsettle]
  unfold Command.change settle
  by_cases hyields : c.kind.yieldsKey = true
  · rw [if_pos hyields, if_pos hyields]
    cases result with
    | success | failure => rfl
    | notFound =>
      dsimp only
      by_cases hsearch : c.kind = .search
      · have hnot : s.keyring.isPendingOn c.key c.sequence = false := by
          simpa [hsearch] using h
        rw [if_pos hsearch, if_pos hsearch, hnot, Keyring.settle_of_not_isPendingOn hnot]
        rfl
      · rw [if_neg hsearch, if_neg hsearch]
        rfl
  · rw [if_neg hyields, if_neg hyields, Keyring.settle_id]

theorem conclude_eq (hc : s.outbox.get? reply.sequence = some c)
    (hmaterial : reply.material = .ok material) :
    s.conclude reply =
      { s with
        keyring := s.keyring.adjust c.key (c.leaves reply.result material
          ((s.outbox.without reply.sequence).references c.key))
        outbox := s.outbox.without reply.sequence } := by
  simp only [conclude, hc, hmaterial]

theorem conclude_of_error {fault : Fault} (h : reply.material = .error fault) :
    s.conclude reply = s := by
  rcases hc : s.outbox.get? reply.sequence with _ | c <;> simp only [conclude, h, hc]

theorem conclude_of_none (h : s.outbox.get? reply.sequence = none) : s.conclude reply = s := by
  simp only [conclude, h]

/-- A reply that concludes a command is accepted. -/
theorem answer_of_concludes (h : s.Concludes reply c material) :
    s.answer reply material = .ok (receipt c reply.result, s.conclude reply) := by
  let t : Custody := { s with outbox := s.outbox.without reply.sequence }
  have hsettle : t.settle (answered c reply.result) reply.result material = .ok (none,
      { t with
        keyring := t.keyring.adjust c.key (Option.map (·.concluded c reply.result material)) }) :=
    settle_of_final h.final
  rw [answer_of_shipped h.command h.isShipped (checkMaterial_of_bounds h.command h.bounds),
    hsettle, conclude_eq h.command h.decoded]
  -- the entry is concluded and, if it is a tombstone that nothing keeps, dropped
  simp only [bind, Except.bind, collect_eq_adjust, Keyring.adjust_adjust]
  rfl

/-! ### Replies in either order -/

/-- A reply leaves the other commands to be found. -/
theorem get?_conclude (s : Custody) {sequence : Nat} (hne : sequence ≠ reply.sequence) :
    (s.conclude reply).outbox.get? sequence = s.outbox.get? sequence := by
  rcases hmaterial : reply.material with fault | material
  · rw [conclude_of_error hmaterial]
  rcases hc : s.outbox.get? reply.sequence with _ | c
  · rw [conclude_of_none hc]
  · rw [conclude_eq hc hmaterial]
    exact Outbox.get?_without hc hne

/-- A reply leaves entries to wait for the other commands. -/
theorem isPendingOn_conclude (s : Custody) (key : KeyRef) {sequence : Nat}
    (hne : sequence ≠ reply.sequence) :
    (s.conclude reply).keyring.isPendingOn key sequence = s.keyring.isPendingOn key sequence := by
  have hany (k : Keyring) : k.isPendingOn key sequence = (k.get? key).any
      fun e => e.status = .pending ∧ e.lastSequence = sequence := by
    rcases he : k.get? key with _ | e <;> simp [Keyring.isPendingOn, he]
  rcases hmaterial : reply.material with fault | material
  · rw [conclude_of_error hmaterial]
  rcases hc : s.outbox.get? reply.sequence with _ | c
  · rw [conclude_of_none hc]
  have hseq := (Outbox.of_get?_eq_some hc).2
  rw [hany, hany, conclude_eq hc hmaterial]
  dsimp only
  rw [Keyring.get?_adjust]
  split_ifs with hkey
  · rw [Command.any_leaves (hseq ▸ hne), hkey]
  · rfl

/-- **Two replies may come in either order**, also if their commands are for one key. -/
theorem conclude_comm (s : Custody) (hne : reply.sequence ≠ other.sequence) :
    (s.conclude reply).conclude other = (s.conclude other).conclude reply := by
  rcases hmaterial : reply.material with fault | material
  · rw [conclude_of_error hmaterial, conclude_of_error hmaterial]
  rcases hmaterial' : other.material with fault | material'
  · rw [conclude_of_error hmaterial', conclude_of_error hmaterial']
  rcases hc : s.outbox.get? reply.sequence with _ | c
  · rw [conclude_of_none hc, conclude_of_none ((get?_conclude s hne).trans hc)]
  rcases hc' : s.outbox.get? other.sequence with _ | c'
  · rw [conclude_of_none hc', conclude_of_none ((get?_conclude s hne.symm).trans hc')]
  -- either command is still there after the other has been answered
  have hfound : (s.outbox.without reply.sequence).get? other.sequence = some c' :=
    (Outbox.get?_without hc hne.symm).trans hc'
  have hfound' : (s.outbox.without other.sequence).get? reply.sequence = some c :=
    (Outbox.get?_without hc' hne).trans hc
  have houtbox := Outbox.without_comm s.outbox hne
  rw [conclude_eq hc hmaterial, conclude_eq hc' hmaterial', conclude_eq hfound hmaterial',
    conclude_eq hfound' hmaterial]
  dsimp only
  by_cases hkey : c.key = c'.key
  · -- the tombstone of the key stays until both are answered
    have hkept : (s.outbox.without reply.sequence).references c.key = true :=
      (references_iff _ _).mpr ⟨c', (Outbox.of_get?_eq_some hfound).1, hkey.symm⟩
    have hkept' : (s.outbox.without other.sequence).references c'.key = true :=
      (references_iff _ _).mpr ⟨c, (Outbox.of_get?_eq_some hfound').1, hkey⟩
    have hseq : c.sequence ≠ c'.sequence := by
      rwa [(Outbox.of_get?_eq_some hc).2, (Outbox.of_get?_eq_some hc').2]
    rw [hkept, hkept', ← hkey, Keyring.adjust_adjust, Keyring.adjust_adjust, houtbox]
    refine congrArg (fun keyring : Keyring => Custody.mk keyring _ _) ?_
    refine congrArg (s.keyring.adjust c.key) (funext fun entry => ?_)
    rw [Command.leaves_true, Command.leaves_true, Command.leaves, Command.leaves, Option.map_map,
      Option.map_map]
    refine congrArg (fun change : Entry → Entry => (entry.map change).filter _) (funext fun e => ?_)
    exact Entry.concluded_comm hseq
  · have hfirst := Outbox.references_without hfound' hkey
    have hsecond := Outbox.references_without hfound (Ne.symm hkey)
    rw [houtbox] at hsecond
    rw [houtbox, hfirst, hsecond, Keyring.adjust_comm _ hkey]

/-- **Replies may come in any order**: the state after them is the same. -/
theorem foldl_conclude_perm (s : Custody) {replies replies' : List Reply}
    (hperm : replies.Perm replies') (hdistinct : (replies.map Reply.sequence).Nodup) :
    replies.foldl conclude s = replies'.foldl conclude s := by
  refine hperm.foldl_eq' (fun r hr r' hr' t => ?_) s
  by_cases hseq : r.sequence = r'.sequence
  · rw [List.inj_on_of_nodup_map hdistinct hr hr' hseq]
  · exact conclude_comm t hseq

/-- A reply that concludes a command does so after a reply to another command as well. -/
theorem Concludes.after (h : s.Concludes reply c material)
    (hne : reply.sequence ≠ other.sequence) :
    (s.conclude other).Concludes reply c material where
  command := (get?_conclude s hne).trans h.command
  isShipped := h.isShipped
  decoded := h.decoded
  bounds := h.bounds
  final := by
    have hseq := (Outbox.of_get?_eq_some h.command).2
    rw [isPendingOn_conclude s c.key (hseq ▸ hne)]
    exact h.final

end Custody

end KeyCustody
