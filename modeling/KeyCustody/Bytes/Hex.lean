import KeyCustody.Bytes.Basic

/-!
# Hexadecimal texts

`Hex.encode` writes each octet as two lower-case digits, the high half first. `Hex.decode` reads
digits of either case and says what is wrong with any other text: first that the number of octets
of the text is odd, otherwise which octet is the first that is no digit.
-/

namespace KeyCustody.Hex

/-- The reason a text is not hexadecimal: an odd number of octets, or the first octet that is no
digit together with its position. -/
inductive Fault where
  | oddLength
  | badDigit (octet : UInt8) (index : Nat)
  deriving DecidableEq, Repr

/-- The lower-case digit of a number below sixteen. -/
def digit (n : UInt8) : Char :=
  if n < 10 then Char.ofNat (48 + n.toNat) else Char.ofNat (87 + n.toNat)

/-- The two digits of an octet. -/
def digits (octet : UInt8) : List Char := [digit (octet / 16), digit (octet % 16)]

/-- The lower-case hexadecimal text of a byte string. -/
def encode (b : Bytes) : String := String.ofList (b.flatMap digits)

/-- The value of a digit of either case, given as an ASCII octet. -/
def value? (octet : UInt8) : Option UInt8 :=
  if 48 ≤ octet ∧ octet ≤ 57 then some (octet - 48)
  else if 97 ≤ octet ∧ octet ≤ 102 then some (octet - 87)
  else if 65 ≤ octet ∧ octet ≤ 70 then some (octet - 55)
  else none

/-- The octets written as pairs of digits from position `index` on; `done` holds the octets read
before, last one first. -/
def pairs (index : Nat) (done : Bytes) : Bytes → Except Fault Bytes
  | high :: low :: rest =>
    match value? high, value? low with
    | none, _ => .error (.badDigit high index)
    | _, none => .error (.badDigit low (index + 1))
    | some h, some l => pairs (index + 2) ((16 * h + l) :: done) rest
  | _ => .ok done.reverse

/-- The byte string that a hexadecimal text denotes. -/
def decode (s : String) : Except Fault Bytes :=
  let octets := Bytes.ofText s
  if octets.length % 2 = 1 then .error .oddLength else pairs 0 [] octets

end KeyCustody.Hex
