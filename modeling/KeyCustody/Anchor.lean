import KeyCustody.Fault

/-!
# The trust anchor

The anchor is set once: the public key of the key service, and the certificate and private key of
the custodian. Its three parts are stored as three records, written together, and an anchor is there
only if all three are.
-/

namespace KeyCustody

/-- The public key of the key service with the certificate and private key of the custodian. -/
structure Anchor where
  serviceKey : Bytes
  certificate : Bytes
  privateKey : Bytes
  deriving DecidableEq

namespace Anchor

/-- The largest number of octets of a key, and of what travels with a request for one. -/
def maxKeySize : Nat := 2048

/-- The largest number of octets of a certificate. -/
def maxCertificateSize : Nat := 8192

/-- The record of the public key of the key service. -/
def serviceKeyRecord : String := "kcmpub"

/-- The record of the certificate. -/
def certificateRecord : String := "ktacert"

/-- The record of the private key. -/
def privateKeyRecord : String := "ktakey"

/-- The names of the three records. -/
def recordNames : List String := [serviceKeyRecord, certificateRecord, privateKeyRecord]

/-- The check that a part is neither empty nor larger than `max`. -/
def checkPart (label : String) (max : Nat) (part : Bytes) : Except Fault Unit :=
  if part.isEmpty ∨ max < part.length then
    .error (.badParameters (.partSize label max part.length))
  else .ok ()

/-- The anchor of three parts, each of an admissible size. -/
def make (serviceKey certificate privateKey : Bytes) : Except Fault Anchor := do
  checkPart "KCM public key" maxKeySize serviceKey
  checkPart "KTA certificate" maxCertificateSize certificate
  checkPart "KTA private key" maxKeySize privateKey
  .ok ⟨serviceKey, certificate, privateKey⟩

/-- The records that store an anchor. -/
def records (a : Anchor) : List (String × Bytes) :=
  [(serviceKeyRecord, a.serviceKey), (certificateRecord, a.certificate),
    (privateKeyRecord, a.privateKey)]

/-- The anchor of the contents of the three records, if all are there. -/
def ofRecords? (serviceKey certificate privateKey : Option Bytes) : Option Anchor :=
  match serviceKey, certificate, privateKey with
  | some serviceKey, some certificate, some privateKey =>
    some ⟨serviceKey, certificate, privateKey⟩
  | _, _, _ => none

/-- The description of an anchor in diagnostics, which never shows the private key. -/
def describe (a : Anchor) : String :=
  "TrustAnchor \x7b kcm_public_key: " ++ toString a.serviceKey.length ++
    " bytes, kta_certificate: " ++ toString a.certificate.length ++
    " bytes, kta_key_pair: \"<redacted>\" \x7d"

end Anchor

end KeyCustody
