import KeyCustody.Table
import KeyCustody.Wire.Batch
import KeyCustody.Wire.Reply

/-!
# Key services

A key service takes note of the certificates of custodians and answers requests. `KeyOffice` is a
service that keeps its keys in a table: it mints a key where one is to be generated, forgets a key
that is deleted, and never mints a key again that was destroyed.
-/

namespace KeyCustody

/-- What a key service can do. -/
class KeyService (κ : Type) where
  /-- Takes note of the certificate of a custodian. -/
  enrol : κ → Bytes → κ
  /-- Answers a request. -/
  handle : κ → Request → Reply × κ

/-- A key service with its keys in a table: the keys, those that were destroyed, the certificates in
the order of their arrival, the number of requests so far, and the keys to be minted with the number
of those already minted. -/
structure KeyOffice where
  keys : Table KeyRef Bytes
  revoked : Table KeyRef Unit
  certificates : List Bytes
  handled : Nat
  mint : Nat → Bytes
  minted : Nat

namespace KeyOffice

/-- The service without keys. -/
def empty (mint : Nat → Bytes) : KeyOffice := ⟨Table.empty, Table.empty, [], 0, mint, 0⟩

/-- The service that holds a key as if it had been provided before. -/
def preload (o : KeyOffice) (key : KeyRef) (material : Bytes) : KeyOffice :=
  { o with keys := o.keys.insert key material }

/-- The material that the service holds for a key. -/
def key? (o : KeyOffice) (key : KeyRef) : Option Bytes := o.keys.get? key

/-- Whether a key was destroyed. -/
def isRevoked (o : KeyOffice) (key : KeyRef) : Bool := o.revoked.contains key

/-- Takes note of a certificate. -/
def enrol (o : KeyOffice) (certificate : Bytes) : KeyOffice :=
  { o with certificates := o.certificates ++ [certificate] }

/-- Answers a request for a new key: with the key that is there, or with one minted now. -/
def generate (o : KeyOffice) (request : Request) : Reply × KeyOffice :=
  if o.isRevoked request.key then (.failure request.sequence, o)
  else match o.key? request.key with
    | some material => (.success request.sequence material, o)
    | none =>
      let material := o.mint o.minted
      (.success request.sequence material,
        { o with keys := o.keys.insert request.key material, minted := o.minted + 1 })

/-- Answers a request. -/
def handle (o : KeyOffice) (request : Request) : Reply × KeyOffice :=
  let o := { o with handled := o.handled + 1 }
  match request.kind with
  | .search =>
    match o.key? request.key with
    | some material => (.success request.sequence material, o)
    | none => (.notFound request.sequence, o)
  | .generate => o.generate request
  | .delete => (.success request.sequence [], { o with keys := o.keys.erase request.key })
  | .destroy =>
    (.success request.sequence [],
      { o with
        keys := o.keys.erase request.key
        revoked := o.revoked.insert request.key () })

instance : KeyService KeyOffice where
  enrol := enrol
  handle := handle

end KeyOffice

end KeyCustody
