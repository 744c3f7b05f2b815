import KeyCustody.Proofs.Custody.Soundness
import KeyCustody.Proofs.Outbox.Draw

/-!
# What becomes of the entries of commands that are given up

A poll gives commands up one after the other, and several of them may be for one key. Together they
make of the entry for the key what `Entry.afterExpiry` says: an entry that waits for one of them has
failed, and a tombstone goes if no command for the key stays. Giving up one command and then others
is the same as giving them up at once (`Entry.afterExpiry_cons`), which carries the law from one
command (`Custody.get?_expire`) to a whole poll (`Custody.get?_poll`).
-/

namespace KeyCustody

/-- What is left of an entry when commands for its key are given up, given their numbers and whether
another command for the key stays. -/
def Entry.afterExpiry (e : Entry) (expired : List Nat) (kept : Bool) : Option Entry :=
  if e.status = .pending ∧ e.lastSequence ∈ expired then some { e with status := .failed }
  else if e.status = .deleted ∧ kept = false then none
  else some e

/-- Of the commands that are given up, only the one that the entry waits for matters. -/
theorem Entry.afterExpiry_congr {e : Entry} {expired expired' : List Nat}
    (h : e.status = .pending → (e.lastSequence ∈ expired ↔ e.lastSequence ∈ expired'))
    (kept : Bool) : e.afterExpiry expired kept = e.afterExpiry expired' kept := by
  have hwaits : (e.status = .pending ∧ e.lastSequence ∈ expired) ↔
      e.status = .pending ∧ e.lastSequence ∈ expired' := and_congr_right h
  simp only [afterExpiry, hwaits]

/-- Commands may be given up one after the other. -/
theorem Entry.afterExpiry_cons (e : Entry) (sequence : Nat) (expired : List Nat) (kept : Bool) :
    e.afterExpiry (sequence :: expired) kept =
      (e.afterExpiry [sequence] kept).bind (·.afterExpiry expired kept) := by
  cases hstatus : e.status with
  | pending =>
    by_cases hlast : e.lastSequence = sequence <;> simp [afterExpiry, hstatus, hlast]
  | deleted => cases kept <;> simp [afterExpiry, hstatus]
  | ready | failed => simp [afterExpiry, hstatus]

namespace Custody

variable {s t : Custody} {key : KeyRef} {count : Nat} {limit : Option Nat} {polled : Polled}

/-- Giving up one command changes the entry for its key, and no other. -/
theorem get?_expire (s : Custody) (c : Command) (key : KeyRef) :
    (s.expire c).keyring.get? key =
      if key = c.key then
        (s.keyring.get? key).bind (·.afterExpiry [c.sequence] (s.outbox.references key))
      else s.keyring.get? key := by
  have hadjust : (s.expire c).keyring = (s.keyring.settle c.key c.sequence fun e =>
      { e with status := .failed }).adjust c.key
        (Option.filter fun e => e.status ≠ .deleted || s.outbox.references c.key) := by
    rw [expire, collect_eq_adjust]
    rfl
  rw [hadjust, Keyring.settle_eq_adjust, Keyring.adjust_adjust, Keyring.get?_adjust]
  split_ifs with hkey
  · subst hkey
    rcases s.keyring.get? c.key with _ | e
    · rfl
    · cases hstatus : e.status <;> cases hkept : s.outbox.references c.key <;>
        by_cases hlast : e.lastSequence = c.sequence <;>
          simp [Entry.afterExpiry, hstatus, hlast]
  · rfl

/-- **Giving commands up**, several at once. A tombstone that no command in the outbox keeps is
there only if it goes with one of them. -/
theorem get?_foldl_expire_eq {due : List Command}
    (hdue : ∀ e, s.keyring.get? key = some e → e.status = .deleted →
      s.outbox.references key = false → ∃ c ∈ due, c.key = key) :
    (due.foldl expire s).keyring.get? key = (s.keyring.get? key).bind (·.afterExpiry
      ((due.filter (·.key = key)).map (·.sequence)) (s.outbox.references key)) := by
  induction due generalizing s with
  | nil =>
    rcases he : s.keyring.get? key with _ | e
    · exact he
    · have hstays : ¬ (e.status = .deleted ∧ s.outbox.references key = false) :=
        fun ⟨hdeleted, hkept⟩ => nomatch hdue e he hdeleted hkept
      rw [List.foldl_nil, he]
      simp [Entry.afterExpiry, hstays]
  | cons c due ih =>
    have hexpire := get?_expire s c key
    rw [List.foldl_cons, ih, hexpire, outbox_expire]
    · by_cases hkey : c.key = key
      · rw [if_pos hkey.symm, List.filter_cons_of_pos (by simpa using hkey), List.map_cons,
          Option.bind_assoc]
        exact congrArg _ (funext fun e => (e.afterExpiry_cons ..).symm)
      · rw [if_neg (Ne.symm hkey), List.filter_cons_of_neg (by simpa using hkey)]
    · -- a tombstone that is there after the first command is kept, or it is for another key
      intro e he hdeleted hkept
      rw [outbox_expire] at hkept
      rw [hexpire, hkept] at he
      split_ifs at he with hkey
      · obtain ⟨f, -, hf⟩ := Option.bind_eq_some_iff.mp he
        rw [Entry.afterExpiry] at hf
        split_ifs at hf with _ hdropped <;> obtain rfl := Option.some.inj hf
        · cases hdeleted
        · exact absurd (And.intro hdeleted rfl) hdropped
      · obtain ⟨d, hd, hdkey⟩ := hdue e he hdeleted hkept
        rcases List.mem_cons.mp hd with rfl | hd
        · exact absurd hdkey.symm hkey
        · exact ⟨d, hd, hdkey⟩

/-- **What a poll makes of the entries**: an entry that waits for a command that is given up has
failed, a tombstone goes with the last command for its key, and all others stay as they are. -/
theorem get?_poll (hs : s.Sound) (h : s.poll count limit = .ok (polled, t)) (key : KeyRef) :
    t.keyring.get? key = (s.keyring.get? key).bind (·.afterExpiry
      ((s.outbox.commands.filter (Outbox.expires limit)).map (·.sequence))
      (t.outbox.references key)) := by
  obtain ⟨draw, q, hdraw, -, rfl⟩ := poll_eq_ok h
  obtain ⟨-, -, rfl, -, -, hexpired⟩ := Outbox.draw_eq_ok hdraw
  have hage (c : Command) := Command.fields_of_asQueued (Outbox.asQueued_age c)
  rw [outbox_foldl_expire, get?_foldl_expire_eq]
  · have hsequences : (draw.expired.filter (·.key = key)).map (·.sequence) =
        ((s.outbox.commands.filter (Outbox.expires limit)).filter (·.key = key)).map
          (·.sequence) := by
      rw [hexpired, List.filter_map, List.map_map]
      simp only [Function.comp_def, hage]
    rw [hsequences]
    refine Option.bind_congr fun e he => Entry.afterExpiry_congr (fun hpending => ?_) _
    -- the command that an entry waits for is for the key of the entry
    obtain ⟨c, hc, hseq, -, hkey⟩ := hs.coherentUpTo.pending he hpending
    rw [List.append_nil] at hc
    simp only [List.mem_map, List.mem_filter, decide_eq_true_iff]
    refine ⟨fun ⟨d, ⟨hd, _⟩, hdseq⟩ => ⟨d, hd, hdseq⟩, fun ⟨d, hd, hdseq⟩ => ?_⟩
    obtain rfl := hs.outbox.eq_of_sequence_eq hc hd.1 (hseq.trans hdseq.symm)
    exact ⟨c, ⟨hd, hkey⟩, hdseq⟩
  · -- a tombstone has a command that keeps it, which stays or is given up
    intro e he hdeleted hkept
    obtain ⟨c, hc, rfl⟩ := hs.coherentUpTo.deleted he hdeleted
    rw [List.append_nil] at hc
    rcases hexpires : Outbox.expires limit c
    · obtain ⟨d, hd, hdc⟩ := Outbox.exists_mem_drawn count hc hexpires
      have hreferenced := (references_iff _ _).mpr ⟨d, hd, (Command.fields_of_asQueued hdc).2.2⟩
      exact absurd (hreferenced.symm.trans hkept) nofun
    · refine ⟨{ Outbox.age c with status := .failed }, ?_, (hage c).2.2⟩
      rw [hexpired]
      exact List.mem_map_of_mem (List.mem_filter.mpr ⟨hc, hexpires⟩)

end Custody

end KeyCustody
