import KeyCustody.Fault

/-!
# Record stores

A record store keeps byte strings under names. A commit writes all of its records or none, and a
name that occurs twice in it ends with the later contents; erasing passes over names that are not
there.
-/

namespace KeyCustody

/-- What a record store can do. Every call answers with a result and the store after it. -/
class Store (σ : Type) where
  /-- The contents of a record, if it was ever written. -/
  load : σ → String → Except StoreFault (Option Bytes)
  /-- Writes all of the records or none. -/
  commit : σ → List (String × Bytes) → Except StoreFault Unit × σ
  /-- Removes records. -/
  erase : σ → List String → Except StoreFault Unit × σ

end KeyCustody
