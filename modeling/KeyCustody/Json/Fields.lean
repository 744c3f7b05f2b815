import KeyCustody.Json.Text

/-!
# Typed contents of JSON values

How the parts of a message are read out of a value. A record is an object whose members are its
fields, in any order, or an array of its fields in the order of their declaration. Members with
other names are passed over, but a field may not be given twice.

`Fields.required` reads a field that has to be there, `Fields.optional` one that may be missing
from an object or null, and `Fields.orElse` one that has a default.
-/

namespace KeyCustody.Json

/-! ### Numbers, lists and names -/

/-- The number that denotes a natural number. -/
def ofNat (n : Nat) : Json := .number ((Nat.toDigits 10 n).map fun c => UInt8.ofNat c.toNat)

/-- A natural number with one more digit, below `bound`. -/
def withDigit? (bound n : Nat) (digit : UInt8) : Option Nat :=
  let n := 10 * n + (digit.toNat - 0x30)
  if isDigit digit ∧ n < bound then some n else none

/-- The natural number below `bound` that a number denotes. Its numeral has to consist of digits:
a sign, a point or an exponent makes it another kind of number. Reading stops at the first digit
that takes the number to the bound, because further digits make no number smaller. -/
def nat? (bound : Nat) : Json → Option Nat
  | .number numeral => numeral.foldlM (withDigit? bound) 0
  | _ => none

/-- The natural number of at most thirty-two bits that a number denotes. -/
def nat32? (value : Json) : Option Nat := value.nat? 0x100000000

/-- The natural number of at most sixty-four bits that a number denotes. -/
def nat64? (value : Json) : Option Nat := value.nat? 0x10000000000000000

/-- The octet that a number denotes. -/
def octet? (value : Json) : Option UInt8 := (value.nat? 256).map UInt8.ofNat

/-- The list whose items are read from the items of an array. -/
def list? {α : Type} (read : Json → Option α) : Json → Option (List α)
  | .array items => items.mapM read
  | _ => none

/-- The octets listed by an array of numbers. -/
def octets? (value : Json) : Option Bytes := value.list? octet?

/-- The array of the numbers of a byte string. -/
def ofOctets (b : Bytes) : Json := .array (b.map fun octet => ofNat octet.toNat)

/-- What a value other than null denotes, or nothing for null. -/
def nullable? {α : Type} (read : Json → Option α) : Json → Option (Option α)
  | .null => some none
  | value => (read value).map some

/-- The name of a case without contents: a string, or an object with that one name and null. -/
def caseName? : Json → Option String
  | .string body => bodyText? body
  | .object [(name, .null)] => bodyText? name
  | _ => none

/-- The members of an object with the texts that their names denote. -/
def members? : Json → Option (List (String × Json))
  | .object members => members.mapM fun member => (bodyText? member.1).map (·, member.2)
  | _ => none

/-- A member of an object that is being written. -/
def member (name : String) (value : Json) : Bytes × Json :=
  ((Bytes.ofText name).flatMap escapeOctet, value)

/-! ### Records -/

/-- The fields found in a record, and whether they were given by name. -/
structure Fields where
  byName : Bool
  found : List (String × Json)

/-- The fields found in the members of an object among the declared `names`, none twice. -/
def collect (names : List String) (found : List (String × Json)) (member : Bytes × Json) :
    Option (List (String × Json)) :=
  match bodyText? member.1 with
  | none => none
  | some name =>
    if name ∉ names then some found
    else if (found.lookup name).isSome then none
    else some ((name, member.2) :: found)

/-- The fields of a record whose declared fields are `names`, in this order. -/
def fields? (names : List String) : Json → Option Fields
  | .object members => (members.foldlM (collect names) []).map (⟨true, ·⟩)
  | .array items =>
    if items.length ≤ names.length then some ⟨false, names.zip items⟩ else none
  | _ => none

/-- A field that has to be there. -/
def Fields.required {α : Type} (fields : Fields) (name : String) (read : Json → Option α) :
    Option α :=
  (fields.found.lookup name).bind read

/-- A field that may be null, or missing where fields have names. -/
def Fields.optional {α : Type} (fields : Fields) (name : String) (read : Json → Option α) :
    Option (Option α) :=
  match fields.found.lookup name with
  | some value => nullable? read value
  | none => if fields.byName then some none else none

/-- A field that takes the value `default` where it is missing. -/
def Fields.orElse {α : Type} (fields : Fields) (name : String) (default : α)
    (read : Json → Option α) : Option α :=
  match fields.found.lookup name with
  | some value => read value
  | none => some default

end KeyCustody.Json
