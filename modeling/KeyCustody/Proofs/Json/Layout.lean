import KeyCustody.Proofs.Json.Contents

/-!
# Values written as texts

What is written for values whose strings denote texts is UTF-8 (`Json.isText_render`), so that it
may be kept in a file that is read as a text. An escape is made of octets below 128, and the octets
from 128 on, of which the other characters consist, are not escaped.
-/

namespace KeyCustody.Json

/-! ### Escapes -/

/-- A character is one octet below 128, or octets from 128 on. -/
private theorem utf8EncodeChar_cases (c : Char) :
    (∃ octet, String.utf8EncodeChar c = [octet] ∧ octet < 0x80) ∨
      ∀ octet ∈ String.utf8EncodeChar c, 0x80 ≤ octet := by
  rcases Nat.lt_or_ge c.toNat 128 with h | h
  · refine .inl ⟨_, Bytes.utf8EncodeChar_of_lt h, ?_⟩
    rw [UInt8.lt_iff_toNat_lt, UInt8.toNat_ofNat']
    change _ < 128
    omega
  · exact .inr fun octet => Bytes.le_of_mem_utf8EncodeChar h

/-- An octet below 128 is escaped by octets below 128, and another stands for itself. -/
private theorem escapeOctet_spec (octet : UInt8) :
    if octet < 0x80 then (escapeOctet octet).all (· < 0x80) = true
    else escapeOctet octet = [octet] := by
  revert octet
  apply Bytes.forall_octet
  decide +kernel

private theorem escapeOctet_of_le {octet : UInt8} (h : 0x80 ≤ octet) :
    escapeOctet octet = [octet] := by
  simpa only [if_neg (UInt8.not_lt.mpr h)] using escapeOctet_spec octet

private theorem escapeOctet_lt {octet : UInt8} (h : octet < 0x80) :
    ∀ b ∈ escapeOctet octet, b < 0x80 := by
  have hall := escapeOctet_spec octet
  rw [if_pos h] at hall
  exact fun b hb => of_decide_eq_true (List.all_eq_true.mp hall b hb)

private theorem isText_escapeChar (c : Char) :
    Bytes.IsText ((String.utf8EncodeChar c).flatMap escapeOctet) := by
  obtain ⟨octet, heq, hlt⟩ | hge := utf8EncodeChar_cases c
  · rw [heq, List.flatMap_singleton]
    exact Bytes.isText_of_forall_lt (escapeOctet_lt hlt)
  · have hsame : (String.utf8EncodeChar c).flatMap escapeOctet = String.utf8EncodeChar c := by
      rw [List.flatMap_congr fun octet hoctet => escapeOctet_of_le (hge octet hoctet),
        List.flatMap_singleton']
    rw [hsame]
    exact ⟨String.ofList [c], by rw [Bytes.ofText_ofList, List.flatMap_singleton]⟩

/-- The escaped octets of a text are a text. -/
theorem isText_escape (s : String) : Bytes.IsText ((Bytes.ofText s).flatMap escapeOctet) := by
  rw [← String.ofList_toList (s := s), Bytes.ofText_ofList, List.flatMap_assoc]
  exact Bytes.isText_flatMap fun c _ => isText_escapeChar c

/-! ### Values -/

/-- A value whose tokens are written as texts. -/
def IsTextual (value : Json) : Prop := ∀ t ∈ value.tokens, t.text.IsText

theorem isText_render {value : Json} (h : value.IsTextual) : value.render.IsText :=
  Bytes.isText_flatMap h

theorem isText_of_isMark {t : Token} (h : t.IsMark) : t.text.IsText := by
  refine Bytes.isText_of_forall_lt ?_
  cases t <;> first | exact absurd h id | exact List.forall_mem_singleton.mpr (by decide)

theorem isText_string (s : String) :
    (Token.string ((Bytes.ofText s).flatMap escapeOctet)).text.IsText := by
  have hquote : Bytes.IsText [quote] :=
    Bytes.isText_of_forall_lt (List.forall_mem_singleton.mpr (by decide))
  exact (hquote.append (isText_escape s)).append hquote

theorem isTextual_ofText (s : String) : (ofText s).IsTextual := by
  intro t ht
  rw [ofText, tokens, List.mem_singleton] at ht
  rw [ht]
  exact isText_string s

private theorem isText_moreItemTokens {items : List Json} (h : ∀ item ∈ items, item.IsTextual) :
    ∀ t ∈ moreItemTokens items, t.text.IsText := by
  induction items with
  | nil => simpa [moreItemTokens] using isText_of_isMark (t := .closeArray) trivial
  | cons item items ih =>
    rw [List.forall_mem_cons] at h
    rw [moreItemTokens, List.forall_mem_cons, List.forall_mem_append]
    exact ⟨isText_of_isMark trivial, h.1, ih h.2⟩

theorem isTextual_array {items : List Json} (h : ∀ item ∈ items, item.IsTextual) :
    (Json.array items).IsTextual := by
  rw [IsTextual, tokens, List.forall_mem_cons]
  refine ⟨isText_of_isMark trivial, ?_⟩
  have hmore := isText_moreItemTokens h
  cases items with
  | nil => exact hmore
  | cons item items =>
    -- the items are written as those after another item, only without the first comma
    rw [moreItemTokens, List.forall_mem_cons] at hmore
    exact hmore.2

private theorem isText_moreMemberTokens {entries : List (String × Json)}
    (h : ∀ entry ∈ entries, entry.2.IsTextual) :
    ∀ t ∈ moreMemberTokens (entries.map fun entry => member entry.1 entry.2), t.text.IsText := by
  induction entries with
  | nil => simpa [moreMemberTokens] using isText_of_isMark (t := .closeObject) trivial
  | cons entry entries ih =>
    rw [List.forall_mem_cons] at h
    rw [List.map_cons, moreMemberTokens, member, memberToken, List.forall_mem_cons,
      List.forall_mem_append, List.forall_mem_cons, List.forall_mem_cons]
    exact ⟨isText_of_isMark trivial,
      ⟨isText_string entry.1, isText_of_isMark trivial, h.1⟩, ih h.2⟩

theorem isTextual_object {entries : List (String × Json)}
    (h : ∀ entry ∈ entries, entry.2.IsTextual) :
    (Json.object (entries.map fun entry => member entry.1 entry.2)).IsTextual := by
  rw [IsTextual, tokens, List.forall_mem_cons]
  refine ⟨isText_of_isMark trivial, ?_⟩
  have hmore := isText_moreMemberTokens h
  cases entries with
  | nil => exact hmore
  | cons entry entries =>
    rw [List.map_cons, moreMemberTokens, List.forall_mem_cons] at hmore
    exact hmore.2

end KeyCustody.Json
