import KeyCustody.Anchor
import KeyCustody.Keyring
import KeyCustody.Outbox
import KeyCustody.Proofs.Bytes.Hex
import KeyCustody.Proofs.Bytes.Order
import KeyCustody.Proofs.Table

/-!
# The view of the keyring

A keyring is seen through `Keyring.get?`, and each of its operations changes the entry of one key
only (`get?_file`, `get?_remove`), because different keys are filed under different texts
(`KeyRef.slot_injective`). All of them adjust one entry (`Keyring.adjust`), and changes of the
entries of two keys commute (`Keyring.adjust_comm`).

`Keyring.WellFormed` is the representation invariant: each entry is filed under the text of its own
key, and each is in itself as it should be (`Entry.WellFormed`); in particular an entry has material
exactly if it is ready.
-/

namespace KeyCustody

/-- Different keys are filed under different texts, whatever strokes their identifiers hold. -/
theorem KeyRef.slot_injective {a b : KeyRef} (h : a.slot = b.slot) : a = b := by
  have hoctets := congrArg Bytes.ofText h
  simp only [slot, Bytes.ofText_append, List.append_assoc] at hoctets
  -- the owner takes up a fixed number of octets, so the two parts come apart
  obtain ⟨howner, hrest⟩ := List.append_inj hoctets
    (by rw [Uuid.length_ofText_text, Uuid.length_ofText_text])
  have howner := Uuid.text_injective (Bytes.ofText_injective howner)
  have hid := Bytes.ofText_injective (List.append_cancel_left hrest)
  cases a; cases b; simp_all

/-- The representation invariant of an entry, where `next` is the number of the next command. -/
structure Entry.WellFormed (next : Nat) (e : Entry) : Prop where
  isValidId : KeyRef.isValidId e.key.id = true
  lastSequence_pos : 0 < e.lastSequence
  lastSequence_lt : e.lastSequence < next
  isSome_material : e.material.isSome = true ↔ e.status = .ready
  material_bounds : ∀ m ∈ e.material, 0 < m.length ∧ m.length ≤ Anchor.maxKeySize

namespace Keyring

/-- The representation invariant of a keyring, where `next` is the number of the next command. -/
structure WellFormed (next : Nat) (k : Keyring) : Prop where
  slot_eq : ∀ {slot e}, k.entries.get? slot = some e → slot = e.key.slot
  entry : ∀ {slot e}, k.entries.get? slot = some e → e.WellFormed next

/-! ### One entry -/

@[simp]
theorem get?_empty (key : KeyRef) : empty.get? key = none := rfl

theorem get?_file (k : Keyring) (key other : KeyRef) (e : Entry) :
    (k.file key e).get? other = if other = key then some e else k.get? other := by
  have hslot : other.slot = key.slot ↔ other = key := ⟨KeyRef.slot_injective, congrArg _⟩
  simp only [file, get?, Table.get?_insert, hslot]

theorem get?_remove (k : Keyring) (key other : KeyRef) :
    (k.remove key).get? other = if other = key then none else k.get? other := by
  have hslot : other.slot = key.slot ↔ other = key := ⟨KeyRef.slot_injective, congrArg _⟩
  simp only [remove, get?, Table.get?_erase, hslot]

/-- Only an entry that waits for the reply to a command is changed by settling it. -/
theorem settle_of_isPendingOn {k : Keyring} {key : KeyRef} {sequence : Nat}
    (h : k.isPendingOn key sequence = true) (change : Entry → Entry) :
    ∃ e, k.get? key = some e ∧ e.status = .pending ∧ e.lastSequence = sequence ∧
      k.settle key sequence change = k.file key (change e) := by
  rcases he : k.get? key with _ | e
  · simp [isPendingOn, he] at h
  · have he' : e.status = .pending ∧ e.lastSequence = sequence := by
      simpa [isPendingOn, he] using h
    refine ⟨e, rfl, he'.1, he'.2, ?_⟩
    rw [settle, he]
    exact if_pos he'

theorem settle_of_not_isPendingOn {k : Keyring} {key : KeyRef} {sequence : Nat}
    (h : k.isPendingOn key sequence = false) (change : Entry → Entry) :
    k.settle key sequence change = k := by
  rcases he : k.get? key with _ | e
  · rw [settle, he]
  · have he' : ¬ (e.status = .pending ∧ e.lastSequence = sequence) := by
      simpa [isPendingOn, he] using h
    rw [settle, he]
    exact if_neg he'

/-- An entry waits no longer once it is settled, unless the change lets it wait on. -/
theorem isPendingOn_settle_eq_false (k : Keyring) (key : KeyRef) {sequence : Nat}
    {change : Entry → Entry}
    (hchange : ∀ e, (change e).status ≠ .pending ∨ (change e).lastSequence ≠ sequence) :
    (k.settle key sequence change).isPendingOn key sequence = false := by
  rcases hp : k.isPendingOn key sequence
  · rwa [settle_of_not_isPendingOn hp]
  · obtain ⟨e, -, -, -, heq⟩ := settle_of_isPendingOn hp change
    have hnot : ¬ ((change e).status = .pending ∧ (change e).lastSequence = sequence) := by
      rw [not_and_or]
      exact hchange e
    simpa [heq, isPendingOn, get?_file] using hnot

/-! ### Adjusting one entry -/

/-- The keyring in which the entry of a key is changed, filed or removed. -/
def adjust (k : Keyring) (key : KeyRef) (change : Option Entry → Option Entry) : Keyring :=
  match change (k.get? key) with
  | some e => k.file key e
  | none => k.remove key

section Adjusting

variable {k l : Keyring} {key other : KeyRef} {change : Option Entry → Option Entry}

private theorem ext_entries (h : ∀ slot, k.entries.get? slot = l.entries.get? slot) : k = l := by
  obtain ⟨entries⟩ := k
  obtain ⟨entries'⟩ := l
  exact congrArg mk (Table.ext_get? h)

private theorem entries_adjust (k : Keyring) (key : KeyRef)
    (change : Option Entry → Option Entry) (slot : String) :
    (k.adjust key change).entries.get? slot =
      if slot = key.slot then change (k.get? key) else k.entries.get? slot := by
  rw [adjust]
  rcases change (k.get? key) with _ | e
  · exact Table.get?_erase _ _ _
  · exact Table.get?_insert _ _ _ _

theorem get?_adjust (k : Keyring) (key other : KeyRef) (change : Option Entry → Option Entry) :
    (k.adjust key change).get? other =
      if other = key then change (k.get? key) else k.get? other := by
  have hslot : other.slot = key.slot ↔ other = key := ⟨KeyRef.slot_injective, congrArg _⟩
  simp only [get?, entries_adjust, hslot]

/-- Only what becomes of the entry that is there matters. -/
theorem adjust_congr (k : Keyring) {change change' : Option Entry → Option Entry}
    (h : change (k.get? key) = change' (k.get? key)) :
    k.adjust key change = k.adjust key change' := by
  rw [adjust, adjust, h]

/-- A change that leaves the entry as it is changes nothing. -/
theorem adjust_of_eq (h : change (k.get? key) = k.get? key) : k.adjust key change = k := by
  refine ext_entries fun slot => ?_
  rw [entries_adjust]
  split_ifs with hslot
  · rw [h, hslot, get?]
  · rfl

/-- Two changes of one entry are one. -/
theorem adjust_adjust (k : Keyring) (key : KeyRef) (change change' : Option Entry → Option Entry) :
    (k.adjust key change).adjust key change' = k.adjust key fun e => change' (change e) := by
  refine ext_entries fun slot => ?_
  rw [entries_adjust, entries_adjust, entries_adjust, get?_adjust, if_pos rfl]
  split_ifs <;> rfl

/-- Changes of the entries of two keys may be made in either order. -/
theorem adjust_comm (k : Keyring) (hne : key ≠ other)
    (change change' : Option Entry → Option Entry) :
    (k.adjust key change).adjust other change' = (k.adjust other change').adjust key change := by
  have hslot : key.slot ≠ other.slot := fun h => hne (KeyRef.slot_injective h)
  refine ext_entries fun slot => ?_
  simp only [entries_adjust, get?_adjust, if_neg hne, if_neg hne.symm]
  by_cases hkey : slot = key.slot
  · have hother : slot ≠ other.slot := fun h => hslot (hkey.symm.trans h)
    rw [if_neg hother, if_pos hkey, if_pos hkey]
  · rw [if_neg hkey, if_neg hkey]

/-- Settling adjusts one entry, which it leaves as it is unless the entry waits for the command. -/
theorem settle_eq_adjust (k : Keyring) (key : KeyRef) (sequence : Nat) (change : Entry → Entry) :
    k.settle key sequence change = k.adjust key (Option.map fun e =>
      if e.status = .pending ∧ e.lastSequence = sequence then change e else e) := by
  rcases hp : k.isPendingOn key sequence
  · have hsame (e : Entry) (he : k.get? key = some e) :
        ¬ (e.status = .pending ∧ e.lastSequence = sequence) := by
      simpa [isPendingOn, he] using hp
    rw [settle_of_not_isPendingOn hp, adjust_of_eq]
    rcases he : k.get? key with _ | e
    · rfl
    · rw [Option.map_some, if_neg (hsame e he)]
  · obtain ⟨e, he, hstatus, hlast, heq⟩ := settle_of_isPendingOn hp change
    rw [heq, adjust, he, Option.map_some, if_pos ⟨hstatus, hlast⟩]

/-- Settling without a change changes nothing. -/
theorem settle_id (k : Keyring) (key : KeyRef) (sequence : Nat) : k.settle key sequence id = k := by
  rw [settle_eq_adjust, adjust_of_eq]
  rcases k.get? key with _ | e
  · rfl
  · simp

end Adjusting

/-! ### The representation invariant -/

namespace WellFormed

variable {next : Nat} {k : Keyring} {key : KeyRef} {e : Entry}

theorem empty : (Keyring.empty).WellFormed next where
  slot_eq h := by cases h
  entry h := by cases h

/-- An entry is found under its own key. -/
theorem key_eq (h : k.WellFormed next) (he : k.get? key = some e) : e.key = key :=
  (KeyRef.slot_injective (h.slot_eq he)).symm

theorem get (h : k.WellFormed next) (he : k.get? key = some e) : e.WellFormed next := h.entry he

theorem mem_toList (h : k.WellFormed next) : e ∈ k.toList ↔ k.get? e.key = some e := by
  rw [toList, Table.mem_values]
  refine ⟨fun ⟨slot, hslot⟩ => ?_, fun he => ⟨_, he⟩⟩
  rw [get?, ← h.slot_eq hslot, hslot]

/-- The entries are listed in the order of the texts under which they are filed. -/
theorem pairwise_toList (h : k.WellFormed next) :
    k.toList.Pairwise fun e f => e.key.slot < f.key.slot := by
  have hslot : ∀ entry ∈ k.entries.entries, entry.1 = entry.2.key.slot := fun entry hentry =>
    h.slot_eq (Table.get?_eq_some_iff.mpr hentry)
  refine List.pairwise_map.mpr (k.entries.ordered.imp_of_mem fun hx hy hlt => ?_)
  rw [← hslot _ hx, ← hslot _ hy]
  exact compare_lt_iff_lt.mp hlt

/-- **Each key has one entry.** -/
theorem nodup_keys (h : k.WellFormed next) : (k.toList.map Entry.key).Nodup :=
  List.pairwise_map.mpr (h.pairwise_toList.imp fun hlt heq => hlt.ne (congrArg KeyRef.slot heq))

/-- The identifiers of the keys of an application are listed in the order of their octets. -/
theorem pairwise_idsOf (h : k.WellFormed next) (owner : Uuid) :
    (k.idsOf owner).Pairwise fun x y => Bytes.ofText x < Bytes.ofText y := by
  refine List.pairwise_map.mpr ((h.pairwise_toList.filter _).imp_of_mem fun he hf hlt => ?_)
  -- the texts under which two keys of one owner are filed begin alike
  have hlt := Bytes.ofText_lt_ofText hlt
  simp only [KeyRef.slot, Bytes.ofText_append] at hlt
  rw [of_decide_eq_true (List.mem_filter.mp he).2,
    of_decide_eq_true (List.mem_filter.mp hf).2] at hlt
  exact (Bytes.append_lt_append_iff _).mp hlt

theorem mono (h : k.WellFormed next) {later : Nat} (hle : next ≤ later) :
    k.WellFormed later where
  slot_eq := h.slot_eq
  entry he :=
    let ⟨hid, hpos, hlt, hsome, hbounds⟩ := h.entry he
    ⟨hid, hpos, Nat.lt_of_lt_of_le hlt hle, hsome, hbounds⟩

theorem file (h : k.WellFormed next) (hkey : e.key = key) (he : e.WellFormed next) :
    (k.file key e).WellFormed next where
  slot_eq {slot f} hf := by
    rw [Keyring.file, Table.get?_insert] at hf
    split_ifs at hf with hslot
    · rw [← Option.some.inj hf, hkey, hslot]
    · exact h.slot_eq hf
  entry {slot f} hf := by
    rw [Keyring.file, Table.get?_insert] at hf
    split_ifs at hf with hslot
    · rw [← Option.some.inj hf]
      exact he
    · exact h.entry hf

theorem remove (h : k.WellFormed next) (key : KeyRef) : (k.remove key).WellFormed next where
  slot_eq {slot f} hf := by
    rw [Keyring.remove, Table.get?_erase] at hf
    split_ifs at hf
    exact h.slot_eq hf
  entry {slot f} hf := by
    rw [Keyring.remove, Table.get?_erase] at hf
    split_ifs at hf
    exact h.entry hf

/-- Resetting a key files an entry without material under it. -/
theorem reset_eq (h : k.WellFormed next) (key : KeyRef) (status : KeyStatus) (sequence : Nat) :
    k.reset key status sequence = k.file key ⟨key, none, status, sequence⟩ := by
  rcases he : k.get? key with _ | e
  · simp [reset, he]
  · simp [reset, he, h.key_eq he]

theorem reset (h : k.WellFormed next) {status : KeyStatus} {sequence : Nat}
    (hid : KeyRef.isValidId key.id = true) (hpos : 0 < sequence) (hlt : sequence < next)
    (hstatus : status ≠ .ready) : (k.reset key status sequence).WellFormed next := by
  rw [h.reset_eq]
  exact h.file rfl ⟨hid, hpos, hlt, by simpa using hstatus, by simp⟩

/-- Settling keeps the invariant if the change turns entries that wait into proper ones. -/
theorem settle (h : k.WellFormed next) {sequence : Nat} {change : Entry → Entry}
    (hkey : ∀ e, (change e).key = e.key)
    (hchange : ∀ e, e.WellFormed next → e.status = .pending → (change e).WellFormed next) :
    (k.settle key sequence change).WellFormed next := by
  rcases hp : k.isPendingOn key sequence
  · rwa [settle_of_not_isPendingOn hp]
  · obtain ⟨e, he, hstatus, -, heq⟩ := settle_of_isPendingOn hp change
    rw [heq]
    exact h.file ((hkey e).trans (h.key_eq he)) (hchange e (h.get he) hstatus)

end WellFormed

end Keyring

end KeyCustody
