import KeyCustody.Bytes.Hex

/-!
# Universally unique identifiers

A trusted application is known by an identifier of sixteen octets. It is written in groups of
8, 4, 4, 4 and 12 lower-case digits with hyphens between them (`Uuid.text`), and read from that
form, from the digits alone, from the form in braces and from the form of a resource name, with
digits and resource prefix of either case (`Uuid.parse?`).
-/

namespace KeyCustody

/-- An identifier of sixteen octets. -/
structure Uuid where
  octets : Bytes
  length_octets : octets.length = 16
  deriving DecidableEq

namespace Uuid

instance : Ord Uuid := ⟨compareOn Uuid.octets⟩

instance : Std.TransOrd Uuid := inferInstanceAs (Std.TransCmp (compareOn Uuid.octets))

instance : Std.LawfulEqOrd Uuid where
  eq_of_compare {a b} h := by
    have h : a.octets = b.octets :=
      Std.LawfulEqCmp.eq_of_compare (show compare a.octets b.octets = .eq from h)
    cases a; cases b; simp_all

/-- The written form, in five groups of lower-case digits. -/
def text (u : Uuid) : String :=
  let part := fun first count => Hex.encode ((u.octets.drop first).take count)
  part 0 4 ++ "-" ++ part 4 2 ++ "-" ++ part 6 2 ++ "-" ++ part 8 2 ++ "-" ++ part 10 6

/-- The identifier of sixteen octets. -/
def ofOctets? (octets : Bytes) : Option Uuid :=
  if h : octets.length = 16 then some ⟨octets, h⟩ else none

/-- The identifier that thirty-two digits write. -/
def ofDigits? (digits : Bytes) : Option Uuid :=
  match Hex.pairs 0 [] digits with
  | .ok octets => ofOctets? octets
  | .error _ => none

/-- The identifier that five groups of digits write. -/
def ofGroups? (form : Bytes) : Option Uuid :=
  if [8, 13, 18, 23].all fun i => form[i]? = some 0x2d then
    ofDigits? (form.take 8 ++ (form.drop 9).take 4 ++ (form.drop 14).take 4 ++
      (form.drop 19).take 4 ++ form.drop 24)
  else none

/-- An octet with the capital letters of ASCII made small. -/
def toSmall (octet : UInt8) : UInt8 := if 0x41 ≤ octet ∧ octet ≤ 0x5a then octet + 0x20 else octet

/-- The identifier that a text denotes, in any of the four forms. -/
def parse? (s : String) : Option Uuid :=
  let form := Bytes.ofText s
  if form.length = 32 then ofDigits? form
  else if form.length = 36 then ofGroups? form
  else if form.length = 38 ∧ form.head? = some 0x7b ∧ form.getLast? = some 0x7d then
    ofGroups? (form.drop 1).dropLast
  else if form.length = 45 ∧ (form.take 9).map toSmall = Bytes.ofText "urn:uuid:" then
    ofGroups? (form.drop 9)
  else none

end Uuid

end KeyCustody
