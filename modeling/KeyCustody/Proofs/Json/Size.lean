import KeyCustody.Proofs.Bytes.Hex
import KeyCustody.Proofs.Json.Contents
import Mathlib.Data.Nat.Digits.Defs

/-!
# Sizes of written values

The width of a value is the number of octets that it takes up when it is written (`Json.width`). A
number is as wide as it has digits, a text is at most six times as wide as it has octets, and
exactly as wide if none of them has to be escaped, as is the case for hexadecimal digits. The width
of arrays and records is bounded by the widths of what they hold.
-/

namespace KeyCustody.Json

/-- The number of octets of a value as it is written. -/
def width (value : Json) : Nat := value.render.length

/-! ### Numbers and texts -/

theorem width_ofNat_le {n digits : Nat} (hpos : 0 < digits) (h : n < 10 ^ digits) :
    (ofNat n).width ≤ digits := by
  have hwidth : (ofNat n).width = (Nat.toDigits 10 n).length := by
    simp [width, render, ofNat, tokens, Token.text]
  rw [hwidth]
  exact Nat.toDigits_length 10 n digits hpos h

/-- A number of sixty-four bits has at most twenty digits. -/
theorem width_ofNat_le_twenty {n : Nat} (h : n < 0x10000000000000000) : (ofNat n).width ≤ 20 :=
  width_ofNat_le (by decide) (Nat.lt_of_lt_of_le h (by decide))

theorem width_ofText (s : String) :
    (ofText s).width = ((Bytes.ofText s).flatMap escapeOctet).length + 2 := by
  simp [width, render, ofText, tokens, Token.text]

private theorem length_escapeOctet_le (b : UInt8) : (escapeOctet b).length ≤ 6 := by
  rcases escapeOctet_cases b with ⟨mark, heq, -⟩ | ⟨-, heq⟩ | ⟨heq, -⟩ <;> simp [heq]

theorem width_ofText_le (s : String) : (ofText s).width ≤ 6 * (Bytes.ofText s).length + 2 := by
  have hescape : ∀ octets : Bytes, (octets.flatMap escapeOctet).length ≤ 6 * octets.length := by
    intro octets
    induction octets with
    | nil => exact Nat.zero_le _
    | cons b octets ih =>
      have hb := length_escapeOctet_le b
      rw [List.flatMap_cons, List.length_append, List.length_cons]
      omega
  rw [width_ofText]
  exact Nat.add_le_add_right (hescape _) 2

/-- Hexadecimal digits are not escaped. -/
private theorem escape_octetsOf (b : Bytes) :
    (Hex.octetsOf b).flatMap escapeOctet = Hex.octetsOf b := by
  have hdigits : ∀ octet : UInt8,
      (Hex.digitOctets octet).flatMap escapeOctet = Hex.digitOctets octet :=
    Bytes.forall_octet (by decide +kernel)
  rw [Hex.octetsOf, List.flatMap_assoc]
  exact List.flatMap_congr fun octet _ => hdigits octet

theorem width_hex (b : Bytes) : (ofText (Hex.encode b)).width = 2 * b.length + 2 := by
  rw [width_ofText, Hex.ofText_encode, escape_octetsOf, Hex.length_octetsOf]

/-! ### Arrays and records -/

/-- The octets of some tokens as they are written. -/
private def span (ts : List Token) : Nat := (ts.flatMap Token.text).length

private theorem span_cons (t : Token) (ts : List Token) :
    span (t :: ts) = t.text.length + span ts := by
  rw [span, List.flatMap_cons, List.length_append, span]

private theorem span_append (ts us : List Token) : span (ts ++ us) = span ts + span us := by
  rw [span, List.flatMap_append, List.length_append, span, span]

private theorem span_moreItemTokens {items : List Json} {most : Nat}
    (h : ∀ item ∈ items, item.width ≤ most) :
    span (moreItemTokens items) ≤ items.length * (most + 1) + 1 := by
  induction items with
  | nil => exact Nat.le_add_left _ _
  | cons item items ih =>
    have hitem : span item.tokens ≤ most := h item (List.mem_cons_self ..)
    have hcomma : Token.comma.text.length = 1 := rfl
    have hrest := ih fun item hitem => h item (List.mem_cons_of_mem _ hitem)
    rw [moreItemTokens, span_cons, span_append, hcomma, List.length_cons, Nat.add_one_mul]
    omega

/-- An array takes up no more than its widest item, and a comma, for each of its items. -/
theorem width_array_le {items : List Json} {most : Nat} (h : ∀ item ∈ items, item.width ≤ most) :
    (array items).width ≤ items.length * (most + 1) + 2 := by
  have hopen : (array items).width = span (itemTokens items) + 1 := by
    change span (.openArray :: itemTokens items) = _
    rw [span_cons, Nat.add_comm]
    rfl
  have hmore := span_moreItemTokens h
  rw [hopen]
  cases items with
  | nil => exact Nat.le_add_left _ _
  | cons item items =>
    -- the items take up what they take up after another item, without the first comma
    rw [moreItemTokens, span_cons] at hmore
    rw [itemTokens]
    omega

private theorem span_memberToken (name : String) (value : Json) :
    span (memberToken (member name value)) = (ofText name).width + value.width + 1 := by
  have hvalue : span value.tokens = value.width := rfl
  have hname : (Token.string ((Bytes.ofText name).flatMap escapeOctet)).text.length =
      (ofText name).width := by simp [width, render, ofText, tokens]
  have hcolon : Token.colon.text.length = 1 := rfl
  rw [member, memberToken, span_cons, span_cons, hvalue, hname, hcolon]
  omega

private theorem span_moreMemberTokens (entries : List (String × Json)) :
    span (moreMemberTokens (entries.map fun entry => member entry.1 entry.2)) =
      (entries.map fun entry => (ofText entry.1).width + entry.2.width + 2).sum + 1 := by
  induction entries with
  | nil => rfl
  | cons entry entries ih =>
    have hcomma : Token.comma.text.length = 1 := rfl
    rw [List.map_cons, moreMemberTokens, span_cons, span_append, ih, span_memberToken, hcomma,
      List.map_cons, List.sum_cons]
    omega

/-- A record takes up the width of the names and values of its fields, and the marks around them. -/
theorem width_object_le (entries : List (String × Json)) :
    (object (entries.map fun entry => member entry.1 entry.2)).width ≤
      (entries.map fun entry => (ofText entry.1).width + entry.2.width + 2).sum + 2 := by
  have hopen : ∀ members, (object members).width = span (memberTokens members) + 1 := by
    intro members
    change span (.openObject :: memberTokens members) = _
    rw [span_cons, Nat.add_comm]
    rfl
  have hmore := span_moreMemberTokens entries
  rw [hopen]
  cases entries with
  | nil => exact Nat.le_refl _
  | cons entry entries =>
    rw [List.map_cons, moreMemberTokens, span_cons] at hmore
    rw [List.map_cons, memberTokens]
    omega

end KeyCustody.Json
