import KeyCustody.Json.Text
import KeyCustody.Proofs.Bytes.Basic
import Mathlib.Data.List.Chain
import Mathlib.Data.List.TakeWhile

/-!
# Cutting a text back into its tokens

`Token.list?_flatMap_text`: the text of a list of tokens is cut back into these tokens, provided
that

* each token is **plain** (`Token.IsPlain`): its numeral, if it is a number, is the numeral of a
  natural number, and its body, if it is a string, is made of escaped octets;
* no word or numeral runs into the next token (`Token.Parts`): one of the two is a mark, or the
  first ends by itself.

A string ends by itself at its second quotation mark (`cut_body_flatMap`). A word or a numeral ends
only where the next octet does not belong to it, so what follows it has to be nothing or a mark
(`Fence`).

Blanks before a token that ends by itself change nothing (`Token.list?_flatMap_spaced`).
-/

namespace KeyCustody.Json

/-- The numeral of a natural number. -/
def numeralOf (n : Nat) : Bytes := (Nat.toDigits 10 n).map fun c => UInt8.ofNat c.toNat

namespace Token

/-- The brackets, the braces, the comma and the colon. -/
def IsMark : Token → Prop
  | openArray | closeArray | openObject | closeObject | comma | colon => True
  | _ => False

/-- The tokens that end by themselves: marks and strings. -/
def IsClosed : Token → Prop
  | string _ => True
  | t => t.IsMark

/-- Whether one token may stand directly before another. -/
def Parts (t u : Token) : Prop := t.IsClosed ∨ u.IsMark

/-- The tokens that are written for values of this library. -/
def IsPlain : Token → Prop
  | number numeral => ∃ n, numeral = numeralOf n
  | string body => ∃ octets : Bytes, body = octets.flatMap escapeOctet
  | _ => True

end Token

/-! ### Strings -/

/-- An octet is escaped by a letter that stands for it, or as a control character by its code unit,
or it stands as it is. -/
theorem escapeOctet_cases (b : UInt8) :
    (∃ mark, escapeOctet b = [backslash, mark] ∧ mark ≠ unitMark ∧ shortEscape? mark = some b) ∨
      (b < 0x20 ∧
        escapeOctet b = [backslash, unitMark, 0x30, 0x30, hexDigit (b / 16), hexDigit (b % 16)]) ∨
      (escapeOctet b = [b] ∧ b ≠ quote ∧ b ≠ backslash ∧ ¬ b < 0x20) := by
  unfold escapeOctet
  split_ifs with hmark h08 h0c h0a h0d h09 hcontrol
  · rcases hmark with rfl | rfl <;> exact .inl ⟨_, rfl, by decide, by decide⟩
  · exact .inl ⟨_, rfl, by decide, h08 ▸ rfl⟩
  · exact .inl ⟨_, rfl, by decide, h0c ▸ rfl⟩
  · exact .inl ⟨_, rfl, by decide, h0a ▸ rfl⟩
  · exact .inl ⟨_, rfl, by decide, h0d ▸ rfl⟩
  · exact .inl ⟨_, rfl, by decide, h09 ▸ rfl⟩
  · exact .inr (.inl ⟨hcontrol, rfl⟩)
  · exact .inr (.inr ⟨rfl, fun h => hmark (.inl h), fun h => hmark (.inr h), hcontrol⟩)

private theorem isHexDigit_hexDigit (b : UInt8) (hb : b < 0x20) :
    isHexDigit (hexDigit (b / 16)) = true ∧ isHexDigit (hexDigit (b % 16)) = true := by
  revert b
  apply Bytes.forall_octet
  decide +kernel

/-- An escaped octet leaves the cutting inside the string. -/
private theorem cut_body_escapeOctet (b : UInt8) (octets : Bytes) (done : List Token)
    (rest : Bytes) : Token.cut (.body octets) done (escapeOctet b ++ rest) =
      Token.cut (.body ((escapeOctet b).reverse ++ octets)) done rest := by
  rcases escapeOctet_cases b with ⟨mark, heq, hmark, hshort⟩ | ⟨hcontrol, heq⟩ |
    ⟨heq, hquote, hbackslash, hcontrol⟩ <;> rw [heq]
  · have hne : backslash ≠ quote := by decide
    simp [Token.cut, Mode.step, hne, hmark, hshort]
  · obtain ⟨hhigh, hlow⟩ := isHexDigit_hexDigit b hcontrol
    have hne : backslash ≠ quote := by decide
    have hzero : isHexDigit 0x30 = true := by decide
    simp [Token.cut, Mode.step, hne, hhigh, hlow, hzero]
  · simp [Token.cut, Mode.step, hquote, hbackslash, hcontrol]

/-- Escaped octets leave the cutting inside the string. -/
private theorem cut_body_flatMap (text octets : Bytes) (done : List Token) (rest : Bytes) :
    Token.cut (.body octets) done (text.flatMap escapeOctet ++ rest) =
      Token.cut (.body ((text.flatMap escapeOctet).reverse ++ octets)) done rest := by
  induction text generalizing octets with
  | nil => rfl
  | cons b text ih =>
    rw [List.flatMap_cons, List.append_assoc, cut_body_escapeOctet, ih]
    simp

/-! ### Numerals -/

theorem numeralOf_of_lt {n : Nat} (h : n < 10) : numeralOf n = [UInt8.ofNat (0x30 + n)] := by
  rw [numeralOf, Nat.toDigits_of_lt_base h]
  revert n
  decide

theorem numeralOf_of_le {n : Nat} (h : 10 ≤ n) :
    numeralOf n = numeralOf (n / 10) ++ [UInt8.ofNat (0x30 + n % 10)] := by
  have hdigit := numeralOf_of_lt (Nat.mod_lt n (by decide : 0 < 10))
  rw [numeralOf, Nat.toDigits_of_base_le (by decide) h, List.map_append, ← hdigit, numeralOf,
    numeralOf, Nat.toDigits_of_lt_base (Nat.mod_lt n (by decide))]

private theorem isDigit_ofNat {k : Nat} (h : k < 10) :
    isDigit (UInt8.ofNat (0x30 + k)) = true ∧ (UInt8.ofNat (0x30 + k) = 0x30 → k = 0) := by
  revert k
  decide

/-- A numeral begins with a digit, which is a zero only in the numeral of zero, and goes on with
digits. -/
private theorem numeralOf_eq_cons (n : Nat) : ∃ first digits,
    numeralOf n = first :: digits ∧ isDigit first = true ∧ (first = 0x30 → digits = []) ∧
      (first = 0x30 → n = 0) ∧ ∀ d ∈ digits, isDigit d = true := by
  induction n using Nat.strongRecOn with
  | ind n ih =>
    rcases Nat.lt_or_ge n 10 with hn | hn
    · obtain ⟨hdigit, hzero⟩ := isDigit_ofNat hn
      exact ⟨_, [], numeralOf_of_lt hn, hdigit, fun _ => rfl, hzero, by simp⟩
    · obtain ⟨first, digits, heq, hfirst, -, hzero, hall⟩ := ih (n / 10) (by omega)
      have hne : first ≠ 0x30 := fun h => by have := hzero h; omega
      refine ⟨first, digits ++ [UInt8.ofNat (0x30 + n % 10)], ?_, hfirst, fun h => absurd h hne,
        fun h => absurd h hne, ?_⟩
      · rw [numeralOf_of_le hn, heq, List.cons_append]
      · intro d hd
        rcases List.mem_append.mp hd with hd | hd
        · exact hall d hd
        · rw [List.mem_singleton.mp hd]
          exact (isDigit_ofNat (Nat.mod_lt n (by decide))).1

theorem isNumeral_numeralOf (n : Nat) : isNumeral (numeralOf n) = true := by
  obtain ⟨first, digits, heq, hfirst, hzero, -, hall⟩ := numeralOf_eq_cons n
  have hsign : first ≠ 0x2d := by rintro rfl; simp [isDigit] at hfirst
  have hrest : digits.dropWhile isDigit = [] := List.dropWhile_eq_nil_iff.mpr hall
  rw [heq, isNumeral]
  · by_cases h : first = 0x30
    · simp [isUnsigned, h, hzero h, isFraction, isExponent]
    · simp [isUnsigned, h, hfirst, hrest, isFraction, isExponent]
  · simpa using hsign

/-! ### What may follow a word or a numeral -/

/-- Nothing, or the text of a mark and anything after it. -/
private def Fence (rest : Bytes) : Prop :=
  rest = [] ∨ ∃ mark after, Token.IsMark mark ∧ rest = mark.text ++ after

/-- A mark is one octet, which begins and ends it and belongs to no word and no numeral. -/
private theorem exists_octet_of_isMark {mark : Token} (h : mark.IsMark) :
    ∃ b, mark.text = [b] ∧ Mode.start b = some (.between, [mark]) ∧ isLetter b = false ∧
      isNumeric b = false := by
  cases mark <;> first | exact absurd h id | exact ⟨_, rfl, rfl, rfl, rfl⟩

/-- Before a fence a word is complete. -/
private theorem cut_word_fence (octets : Bytes) {t : Token} {rest : Bytes} (done : List Token)
    (ht : Token.ofWord? octets.reverse = some t) (hrest : Fence rest) :
    Token.cut (.word octets) done rest = Token.cut .between (t :: done) rest := by
  rcases hrest with rfl | ⟨mark, after, hmark, rfl⟩
  · simp [Token.cut, Mode.finish, ht]
  · obtain ⟨b, htext, hstart, hletter, -⟩ := exists_octet_of_isMark hmark
    simp [htext, Token.cut, Mode.step, Mode.startAfter, ht, hstart, hletter]

/-- Before a fence a numeral is complete. -/
private theorem cut_numeral_fence {octets : Bytes} {t : Token} {rest : Bytes} (done : List Token)
    (ht : Token.ofNumeral? octets.reverse = some t) (hrest : Fence rest) :
    Token.cut (.numeral octets) done rest = Token.cut .between (t :: done) rest := by
  rcases hrest with rfl | ⟨mark, after, hmark, rfl⟩
  · simp [Token.cut, Mode.finish, ht]
  · obtain ⟨b, htext, hstart, -, hnumeric⟩ := exists_octet_of_isMark hmark
    simp [htext, Token.cut, Mode.step, Mode.startAfter, ht, hstart, hnumeric]

/-- Digits leave the cutting inside the numeral. -/
private theorem cut_numeral_digits {digits : Bytes} (octets : Bytes) (done : List Token)
    (rest : Bytes) (h : ∀ d ∈ digits, isDigit d = true) :
    Token.cut (.numeral octets) done (digits ++ rest) =
      Token.cut (.numeral (digits.reverse ++ octets)) done rest := by
  induction digits generalizing octets with
  | nil => rfl
  | cons d digits ih =>
    have hd : isNumeric d = true := by simp [isNumeric, h d (by simp)]
    simp [Token.cut, Mode.step, hd, ih _ fun x hx => h x (by simp [hx])]

/-- A digit begins a numeral. -/
private theorem start_digit (d : UInt8) (h : isDigit d = true) :
    Mode.start d = some (.numeral [d], []) := by
  revert d
  apply Bytes.forall_octet
  decide +kernel

/-! ### Tokens -/

/-- The numeral of a natural number is cut whole. -/
private theorem cut_numeralOf (n : Nat) (done : List Token) {rest : Bytes} (hrest : Fence rest) :
    Token.cut .between done (numeralOf n ++ rest) =
      Token.cut .between (.number (numeralOf n) :: done) rest := by
  have hnumeral : Token.ofNumeral? (numeralOf n) = some (.number (numeralOf n)) := by
    simp [Token.ofNumeral?, isNumeral_numeralOf]
  obtain ⟨first, digits, heq, hfirst, -, -, hall⟩ := numeralOf_eq_cons n
  rw [heq] at hnumeral ⊢
  rw [List.cons_append, Token.cut, Mode.step, start_digit first hfirst]
  simp only [List.reverse_nil, List.nil_append]
  rw [cut_numeral_digits _ _ _ hall]
  exact cut_numeral_fence done (by simpa using hnumeral) hrest

/-- A plain token is cut whole, if it ends by itself or stands before a fence. -/
private theorem cut_text {t : Token} (ht : t.IsPlain) (done : List Token) {rest : Bytes}
    (hrest : t.IsClosed ∨ Fence rest) :
    Token.cut .between done (t.text ++ rest) = Token.cut .between (t :: done) rest := by
  cases t with
  | string body =>
    obtain ⟨octets, rfl⟩ := ht
    have hquote : Mode.start quote = some (.body [], []) := rfl
    simp only [Token.text, List.cons_append, List.append_assoc, Token.cut, Mode.step, hquote,
      List.reverse_nil, List.nil_append]
    rw [cut_body_flatMap]
    simp [Token.cut, Mode.step]
  | number numeral =>
    obtain ⟨n, rfl⟩ := ht
    exact cut_numeralOf n done (hrest.resolve_left id)
  | null =>
    exact cut_word_fence (Bytes.ofText "null").reverse done rfl (hrest.resolve_left id)
  | bool value =>
    cases value with
    | true =>
      exact cut_word_fence (Bytes.ofText "true").reverse done rfl (hrest.resolve_left id)
    | false =>
      exact cut_word_fence (Bytes.ofText "false").reverse done rfl (hrest.resolve_left id)
  | openArray | closeArray | openObject | closeObject | comma | colon => rfl

/-- A list of plain tokens of which none runs into the next is cut back from its text. -/
theorem cut_flatMap_text {tokens : List Token} (hplain : ∀ t ∈ tokens, t.IsPlain)
    (hparts : tokens.IsChain Token.Parts) (done : List Token) :
    Token.cut .between done (tokens.flatMap Token.text) = some (done.reverse ++ tokens) := by
  induction tokens generalizing done with
  | nil => simp [Token.cut, Mode.finish]
  | cons t tokens ih =>
    -- what follows begins with the next token, if there is one
    have hrest : t.IsClosed ∨ Fence (tokens.flatMap Token.text) := by
      cases tokens with
      | nil => exact .inr (.inl rfl)
      | cons u tokens =>
        refine (List.isChain_cons_cons.mp hparts).1.imp_right fun hu => ?_
        exact .inr ⟨u, tokens.flatMap Token.text, hu, List.flatMap_cons⟩
    rw [List.flatMap_cons, cut_text (hplain t (by simp)) done hrest,
      ih (fun u hu => hplain u (by simp [hu])) hparts.of_cons]
    simp

/-- A list of plain tokens of which none runs into the next is what its text is cut into. -/
theorem Token.list?_flatMap_text {tokens : List Token} (hplain : ∀ t ∈ tokens, t.IsPlain)
    (hparts : tokens.IsChain Token.Parts) :
    Token.list? (tokens.flatMap Token.text) = some tokens :=
  cut_flatMap_text hplain hparts []

/-! ### Blanks between tokens -/

private theorem cut_blanks {blanks : Bytes} (h : ∀ b ∈ blanks, isBlank b = true)
    (done : List Token) (rest : Bytes) :
    Token.cut .between done (blanks ++ rest) = Token.cut .between done rest := by
  induction blanks with
  | nil => rfl
  | cons b blanks ih =>
    have hb : isBlank b = true := h b (by simp)
    simpa [Token.cut, Mode.step, Mode.start, hb] using ih fun x hx => h x (by simp [hx])

private theorem cut_flatMap_spaced {pieces : List (Bytes × Token)}
    (hblank : ∀ piece ∈ pieces, ∀ b ∈ piece.1, isBlank b = true)
    (hplain : ∀ piece ∈ pieces, piece.2.IsPlain) (hclosed : ∀ piece ∈ pieces, piece.2.IsClosed)
    (done : List Token) :
    Token.cut .between done (pieces.flatMap fun piece => piece.1 ++ piece.2.text) =
      some (done.reverse ++ pieces.map Prod.snd) := by
  induction pieces generalizing done with
  | nil => simp [Token.cut, Mode.finish]
  | cons piece pieces ih =>
    rw [List.forall_mem_cons] at hblank hplain hclosed
    rw [List.flatMap_cons, List.append_assoc, cut_blanks hblank.1,
      cut_text hplain.1 done (.inl hclosed.1), ih hblank.2 hplain.2 hclosed.2]
    simp

/-- Plain tokens that end by themselves are cut back from their text with blanks before them. -/
theorem Token.list?_flatMap_spaced {pieces : List (Bytes × Token)}
    (hblank : ∀ piece ∈ pieces, ∀ b ∈ piece.1, isBlank b = true)
    (hplain : ∀ piece ∈ pieces, piece.2.IsPlain)
    (hclosed : ∀ piece ∈ pieces, piece.2.IsClosed) :
    Token.list? (pieces.flatMap fun piece => piece.1 ++ piece.2.text) =
      some (pieces.map Prod.snd) :=
  cut_flatMap_spaced hblank hplain hclosed []

end KeyCustody.Json
