/-!
# Kinds of parameter slots

An invocation carries four parameter slots. Each is empty, a reference to memory that the caller
lets the custodian read or write, or a pair of numbers that goes in or comes out.
-/

namespace KeyCustody

/-- What a parameter slot holds. -/
inductive SlotKind where
  | empty
  | memoryIn
  | memoryOut
  | valueIn
  | valueOut
  deriving DecidableEq, Repr

namespace SlotKind

/-- The name of a kind in messages. -/
def text : SlotKind → String
  | empty => "None"
  | memoryIn => "MemrefInput"
  | memoryOut => "MemrefOutput"
  | valueIn => "ValueInput"
  | valueOut => "ValueOutput"

/-- The list of kinds in messages. -/
def listText (kinds : List SlotKind) : String :=
  "[" ++ String.intercalate ", " (kinds.map text) ++ "]"

end SlotKind

end KeyCustody
