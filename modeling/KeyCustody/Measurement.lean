import KeyCustody.Bytes.Hex
import KeyCustody.Bytes.Sha256

/-!
# Measurements

The measurement of an application is the digest of its image, thirty-two octets. A registration
carries several of them one after the other (`Measurement.list?`).
-/

namespace KeyCustody

/-- The digest of an application image. -/
structure Measurement where
  octets : Bytes
  length_octets : octets.length = 32
  deriving DecidableEq

namespace Measurement

instance : Ord Measurement := ⟨compareOn Measurement.octets⟩

instance : Std.TransOrd Measurement :=
  inferInstanceAs (Std.TransCmp (compareOn Measurement.octets))

instance : Std.LawfulEqOrd Measurement where
  eq_of_compare {a b} h := by
    have h : a.octets = b.octets :=
      Std.LawfulEqCmp.eq_of_compare (show compare a.octets b.octets = .eq from h)
    cases a; cases b; simp_all

/-- The number of octets of a measurement. -/
def size : Nat := 32

/-- The largest number of measurements that one registration may carry. -/
def maxPerRegistration : Nat := 32

/-- The measurement of an image. -/
def ofImage (image : Bytes) : Measurement := ⟨Sha256.digest image, Sha256.length_digest image⟩

/-- The measurement whose octets are given. -/
def ofOctets? (octets : Bytes) : Option Measurement :=
  if h : octets.length = 32 then some ⟨octets, h⟩ else none

/-- The written form, in lower-case digits. -/
def text (m : Measurement) : String := Hex.encode m.octets

/-- The measurement that a hexadecimal text denotes. -/
def parse? (s : String) : Option Measurement :=
  match Hex.decode s with
  | .ok octets => ofOctets? octets
  | .error _ => none

/-- The first `count` measurements of a byte string. -/
def take? : Nat → Bytes → Option (List Measurement)
  | 0, _ => some []
  | count + 1, octets =>
    match ofOctets? (octets.take size), take? count (octets.drop size) with
    | some first, some rest => some (first :: rest)
    | _, _ => none

/-- The `count` measurements of which a byte string consists. -/
def list? (octets : Bytes) (count : Nat) : Option (List Measurement) :=
  if 1 ≤ count ∧ count ≤ maxPerRegistration ∧ octets.length = count * size then take? count octets
  else none

end Measurement

end KeyCustody
