import KeyCustody.Bytes.Sha256
import KeyCustody.Fault

/-!
# Sealing

A record is sealed under a key that is derived from the secret of the device: a nonce, the contents
hidden by a key stream, and a tag over key, nonce, name and contents. `Seal.close` seals and
`Seal.reveal` takes a sealed record apart again, refusing one whose tag does not fit.
-/

namespace KeyCustody

/-- The octets that make each sealing different. -/
structure Nonce where
  octets : Bytes
  length_octets : octets.length = 16

namespace Seal

/-- The number of octets of a nonce. -/
def nonceSize : Nat := 16

/-- The number of octets of a tag. -/
def tagSize : Nat := 32

/-- The sealing key of a device. -/
def deviceKey (secret : String) : Bytes :=
  Sha256.digest (Bytes.ofText secret ++ Bytes.ofText "kta-sealing-key-v1")

/-- The eight octets of a counter, least significant first. -/
def counterOctets (n : Nat) : Bytes :=
  (List.range 8).map fun i => UInt8.ofNat (n >>> (8 * i))

/-- The first `size` octets of the key stream of a nonce. -/
def keystream (key nonce : Bytes) (size : Nat) : Bytes :=
  ((List.range ((size + 31) / 32)).flatMap fun i =>
    Sha256.digest (key ++ nonce ++ counterOctets i)).take size

/-- The contents with each octet combined with the octet of the key stream. -/
def mask (key nonce contents : Bytes) : Bytes :=
  List.zipWith (· ^^^ ·) contents (keystream key nonce contents.length)

/-- The octets over which the tag of a record is taken. -/
def tagged (key nonce : Bytes) (name : String) (contents : Bytes) : Bytes :=
  key ++ nonce ++ Bytes.ofText name ++ contents ++ Bytes.ofText "kta-record-mac-v1"

/-- The tag of a record. -/
def tag (key nonce : Bytes) (name : String) (contents : Bytes) : Bytes :=
  Sha256.digest (tagged key nonce name contents)

/-- The sealed form of a record. -/
def close (key : Bytes) (nonce : Nonce) (name : String) (contents : Bytes) : Bytes :=
  nonce.octets ++ mask key nonce.octets contents ++ tag key nonce.octets name contents

/-- The contents of a sealed record of a given name. -/
def reveal (key : Bytes) (name : String) (sealed : Bytes) : Except StoreFault Bytes :=
  if sealed.length < nonceSize + tagSize then .error (.sealing .tooShort)
  else
    let nonce := sealed.take nonceSize
    let hidden := (sealed.drop nonceSize).take (sealed.length - (nonceSize + tagSize))
    let contents := mask key nonce hidden
    if sealed.drop (sealed.length - tagSize) = tag key nonce name contents then .ok contents
    else .error (.integrity (.badTag name))

end Seal

end KeyCustody
