import KeyCustody.Uuid

/-!
# References to keys

A key belongs to an application and has an identifier of that application's choice. In the keyring
it is filed under one text, `KeyRef.slot`: the application, a stroke and the identifier.
-/

namespace KeyCustody

/-- The application that owns a key and its identifier for the key. -/
structure KeyRef where
  owner : Uuid
  id : String
  deriving DecidableEq

namespace KeyRef

instance : Ord KeyRef := ⟨compareLex (compareOn owner) (compareOn id)⟩

instance : Std.TransOrd KeyRef :=
  inferInstanceAs (Std.TransCmp (compareLex (compareOn owner) (compareOn id)))

instance : Std.LawfulEqOrd KeyRef where
  eq_of_compare {a b} h := by
    have h : (compareOn owner a b).then (compareOn id a b) = .eq := h
    have ⟨howner, hid⟩ := Ordering.then_eq_eq.1 h
    have howner : a.owner = b.owner :=
      Std.LawfulEqCmp.eq_of_compare (show compare a.owner b.owner = .eq from howner)
    have hid : a.id = b.id :=
      Std.LawfulEqCmp.eq_of_compare (show compare a.id b.id = .eq from hid)
    cases a; cases b; simp_all

/-- The text under which a key is filed. -/
def slot (key : KeyRef) : String := key.owner.text ++ "/" ++ key.id

/-- The largest number of octets of an identifier. -/
def maxIdSize : Nat := 64

/-- The control characters. -/
def isControl (c : Char) : Bool := c.toNat < 0x20 || (0x7f ≤ c.toNat && c.toNat ≤ 0x9f)

/-- Whether a text may serve as an identifier: it is not empty, not too long and holds no control
character. -/
def isValidId (id : String) : Bool :=
  !id.isEmpty && id.utf8ByteSize ≤ maxIdSize && !id.toList.any isControl

end KeyRef

end KeyCustody
