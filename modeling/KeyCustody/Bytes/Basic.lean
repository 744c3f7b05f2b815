/-!
# Byte strings

Everything that crosses a boundary of the library (records, messages, key material, digests)
is a finite list of octets. A text becomes octets through UTF-8 with `Bytes.ofText`; octets
become a text with `Bytes.text?`, which answers only for well-formed UTF-8. The main fact is
`Bytes.text?_ofText`: reading what was written gives the text back.
-/

namespace KeyCustody

/-- A finite sequence of octets. -/
abbrev Bytes := List UInt8

namespace Bytes

/-- The UTF-8 octets of a text. -/
def ofText (s : String) : Bytes := s.toUTF8.data.toList

/-- The text whose UTF-8 octets are given, if they are well-formed UTF-8. -/
def text? (b : Bytes) : Option String := String.fromUTF8? ⟨b.toArray⟩

theorem text?_ofText (s : String) : text? (ofText s) = some s := by
  have octets : (⟨(ofText s).toArray⟩ : ByteArray) = s.toByteArray := by simp [ofText]
  rw [text?, octets, String.fromUTF8?, dif_pos s.isValidUTF8]
  rfl

theorem ofText_injective {s t : String} (h : ofText s = ofText t) : s = t := by
  have hs := text?_ofText s
  rw [h, text?_ofText] at hs
  exact (Option.some.inj hs).symm

end Bytes

end KeyCustody
