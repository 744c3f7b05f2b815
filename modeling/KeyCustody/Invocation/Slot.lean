import KeyCustody.Fault

/-!
# Parameter slots

The relay calls the custodian with a block of four slots. A slot that refers to memory carries a
buffer, unless the caller gave none, and a size of its own, which need not agree with the buffer;
`MemoryRef.checked` is the only way to its contents. Output is written by `Slot.write`, which
reports the size that is needed where there is not enough room.
-/

namespace KeyCustody

/-- A reference to memory of the caller: the buffer, if there is one, and the size stated for it. -/
structure MemoryRef where
  buffer : Option Bytes
  size : Nat
  deriving DecidableEq, Repr

namespace MemoryRef

/-- The reference to data that goes in. -/
def input (data : Bytes) : MemoryRef := ⟨some data, data.length⟩

/-- The reference to a buffer of zeros for output. -/
def output (capacity : Nat) : MemoryRef := ⟨some (List.replicate capacity 0), capacity⟩

/-- The octets of the stated size, or none where buffer and size do not agree. -/
def bytes (m : MemoryRef) : Bytes :=
  match m.buffer with
  | some buffer => if m.size ≤ buffer.length then buffer.take m.size else []
  | none => []

/-- The octets of the stated size, which has to be between one and `max`. -/
def checked (m : MemoryRef) (max : Nat) (label : String) : Except Fault Bytes :=
  match m.buffer with
  | none => .error (.badParameters (.nullBuffer label))
  | some buffer =>
    if m.size = 0 ∨ max < m.size ∨ buffer.length < m.size then
      .error (.badParameters (.bufferSize label m.size max))
    else .ok (buffer.take m.size)

/-- The number of octets for which there is room. -/
def capacity (m : MemoryRef) : Nat :=
  match m.buffer with
  | some buffer => min buffer.length m.size
  | none => 0

/-- The reference after output of `data`, or the one that reports the size needed, with a fault. -/
def write (m : MemoryRef) (data : Bytes) : Except Fault Unit × MemoryRef :=
  if m.capacity < data.length then
    (.error (.badBufferData (.shortOutput data.length m.capacity)), { m with size := data.length })
  else (.ok (), ⟨m.buffer.map fun buffer => data ++ buffer.drop data.length, data.length⟩)

end MemoryRef

/-- A parameter slot. -/
inductive Slot where
  | empty
  | memoryIn (memory : MemoryRef)
  | memoryOut (memory : MemoryRef)
  | valueIn (a b : Nat)
  | valueOut (a b : Nat)
  deriving DecidableEq, Repr

namespace Slot

/-- What a slot holds. -/
def kind : Slot → SlotKind
  | empty => .empty
  | memoryIn _ => .memoryIn
  | memoryOut _ => .memoryOut
  | valueIn _ _ => .valueIn
  | valueOut _ _ => .valueOut

/-- The numbers that came out through a slot. -/
def valueOut? : Slot → Option (Nat × Nat)
  | valueOut a b => some (a, b)
  | _ => none

/-- The memory to which a slot refers. -/
def memory? : Slot → Option MemoryRef
  | memoryIn memory | memoryOut memory => some memory
  | _ => none

end Slot

/-- The four slots of an invocation. -/
structure Block where
  first : Slot
  second : Slot
  third : Slot
  fourth : Slot
  deriving DecidableEq, Repr

namespace Block

/-- The block of empty slots. -/
def empty : Block := ⟨.empty, .empty, .empty, .empty⟩

/-- The kinds of the four slots. -/
def kinds (block : Block) : List SlotKind :=
  [block.first.kind, block.second.kind, block.third.kind, block.fourth.kind]

end Block

end KeyCustody
