import KeyCustody.Store.Seal
import KeyCustody.Uuid

/-!
# Random octets

All the random octets of a run are drawn from one seed: each is a digest of the seed, of the use
that is made of it and of a counter. Nonces have sixteen octets, keys thirty-two, and an identifier
is marked as a random one.
-/

namespace KeyCustody.Console

/-- Random octets from which all others are drawn. -/
structure Seed where
  octets : Bytes

namespace Seed

/-- The block of random octets for the `n`-th use of a kind. -/
def block (s : Seed) (use : String) (n : Nat) : Bytes :=
  Sha256.digest (s.octets ++ Bytes.ofText use ++ Seal.counterOctets n)

theorem length_block (s : Seed) (use : String) (n : Nat) : (s.block use n).length = 32 :=
  Sha256.length_digest _

/-- The `n`-th nonce. -/
def nonce (s : Seed) (n : Nat) : Nonce :=
  ⟨(s.block "nonce" n).take 16, by simp [length_block]⟩

/-- The `n`-th key to be minted. -/
def key (s : Seed) (n : Nat) : Bytes := s.block "key" n

/-- A random identifier: four bits tell its version and two bits its variant. -/
def uuid (s : Seed) : Uuid where
  octets :=
    (((s.block "uuid" 0).take 16).modify 6 fun b => b &&& 0x0f ||| 0x40).modify 8
      fun b => b &&& 0x3f ||| 0x80
  length_octets := by simp [length_block]

end Seed

end KeyCustody.Console
