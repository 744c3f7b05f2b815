import KeyCustody.Anchor
import KeyCustody.Invocation.Slot
import Mathlib.Tactic.Common

/-!
# References to memory of the caller

A reference that passes its check gives the first octets of its buffer (`MemoryRef.Gives`), and has
room for as many. Output that has room fills the buffer from its start and leaves the octets after
it as they are (`MemoryRef.filled`).
-/

namespace KeyCustody.MemoryRef

variable {m : MemoryRef} {max : Nat} {octets other : Bytes}

/-- Whether a reference gives octets: there is a buffer, the stated size is between one and `max`
and not beyond the buffer, and the octets are those of the stated size. -/
def Gives (m : MemoryRef) (max : Nat) (octets : Bytes) : Prop :=
  ∃ buffer, m.buffer = some buffer ∧ 1 ≤ m.size ∧ m.size ≤ max ∧ m.size ≤ buffer.length ∧
    octets = buffer.take m.size

/-- The check of a reference passes exactly if the reference gives octets. -/
theorem checked_eq_ok_iff (label : String) :
    m.checked max label = .ok octets ↔ m.Gives max octets := by
  rw [checked, Gives]
  rcases m.buffer with _ | buffer
  · simp
  · by_cases hsize : m.size = 0 ∨ max < m.size ∨ buffer.length < m.size
    · simp only [if_pos hsize, reduceCtorEq, Option.some.injEq, exists_eq_left', false_iff]
      omega
    · simp only [if_neg hsize, Except.ok.injEq, Option.some.injEq, exists_eq_left']
      constructor
      · rintro rfl
        exact ⟨by omega, by omega, by omega, rfl⟩
      · rintro ⟨-, -, -, rfl⟩
        rfl

theorem Gives.unique (h : m.Gives max octets) (h' : m.Gives max other) : octets = other := by
  obtain ⟨buffer, hbuffer, -, -, -, rfl⟩ := h
  obtain ⟨buffer', hbuffer', -, -, -, rfl⟩ := h'
  rw [Option.some.inj (hbuffer.symm.trans hbuffer')]

theorem Gives.length_eq (h : m.Gives max octets) : octets.length = m.size := by
  obtain ⟨buffer, -, -, -, hle, rfl⟩ := h
  exact List.length_take_of_le hle

/-- A reference has room for as many octets as it gives. -/
theorem Gives.capacity_eq (h : m.Gives max octets) : m.capacity = m.size := by
  obtain ⟨buffer, hbuffer, -, -, hle, -⟩ := h
  rw [capacity, hbuffer]
  exact Nat.min_eq_right hle

/-- The reference to a buffer after output into it, with what was in the buffer behind it. -/
def filled (buffer data : Bytes) : MemoryRef :=
  ⟨some (data ++ buffer.drop data.length), data.length⟩

/-- Output that has room fills the buffer. -/
theorem Gives.write_eq_ok (h : m.Gives max octets) {buffer data : Bytes}
    (hbuffer : m.buffer = some buffer) (hroom : data.length ≤ m.size) :
    m.write data = (.ok (), filled buffer data) := by
  rw [write, h.capacity_eq, if_neg (Nat.not_lt.mpr hroom), hbuffer]
  rfl

/-- Output that does not have room changes nothing but the size, which it sets to what is needed. -/
theorem Gives.write_eq_error (h : m.Gives max octets) {data : Bytes}
    (hshort : m.size < data.length) :
    m.write data =
      (.error (.badBufferData (.shortOutput data.length m.size)),
        { m with size := data.length }) := by
  rw [write, h.capacity_eq, if_pos hshort]

/-- What a reference gives is an admissible part of an anchor. -/
theorem Gives.checkPart (h : m.Gives max octets) (label : String) :
    Anchor.checkPart label max octets = .ok () := by
  have hlength := h.length_eq
  obtain ⟨-, -, hpos, hmax, -⟩ := h
  rw [Anchor.checkPart, if_neg]
  rw [List.isEmpty_iff_length_eq_zero]
  omega

end KeyCustody.MemoryRef
