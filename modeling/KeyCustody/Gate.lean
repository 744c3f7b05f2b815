import KeyCustody.Fault
import KeyCustody.Measurement
import KeyCustody.Table

/-!
# The attestation gate

Measurements are registered as trusted; an application that presents a registered one is verified
from then on, with that measurement and no other, until its verdict is revoked. The list of trusted
measurements is kept across restarts, verdicts are not (`Gate.withoutVerdicts`).
-/

namespace KeyCustody

/-- The trusted measurements and the measurements with which applications were verified. -/
structure Gate where
  allowed : Table Measurement Unit
  verdicts : Table Uuid Measurement
  deriving DecidableEq

namespace Gate

/-- The gate that trusts nothing. -/
def empty : Gate := ⟨Table.empty, Table.empty⟩

/-- The gate that trusts the measurements of a list. -/
def ofList (measurements : List Measurement) : Gate :=
  ⟨Table.ofList (measurements.map (·, ())), Table.empty⟩

/-- The gate that trusts more measurements. -/
def register (g : Gate) (measurements : List Measurement) : Gate :=
  { g with allowed := measurements.foldl (fun t m => t.insert m ()) g.allowed }

/-- Whether a measurement is trusted. -/
def allows (g : Gate) (m : Measurement) : Bool := g.allowed.contains m

/-- The measurement with which an application was verified. -/
def verdict? (g : Gate) (ta : Uuid) : Option Measurement := g.verdicts.get? ta

/-- Whether an application has been verified. -/
def isVerified (g : Gate) (ta : Uuid) : Bool := (g.verdict? ta).isSome

/-- The gate after an application has presented a measurement. -/
def attest (g : Gate) (ta : Uuid) (m : Measurement) : Except SecurityCause Gate :=
  if !g.allows m then .error .unknownMeasurement
  else match g.verdict? ta with
    | some known => if known = m then .ok g else .error .changedMeasurement
    | none => .ok { g with verdicts := g.verdicts.insert ta m }

/-- The gate without a verdict on an application. -/
def revoke (g : Gate) (ta : Uuid) : Gate := { g with verdicts := g.verdicts.erase ta }

/-- The gate as a restart finds it. -/
def withoutVerdicts (g : Gate) : Gate := { g with verdicts := Table.empty }

end Gate

end KeyCustody
