import KeyCustody.Proofs.Json.Layout
import KeyCustody.Store.SealedRecord

/-!
# Files of sealed records read back

The file of a record is read as this record (`SealedRecord.decode?_page`) and a journal as the list
of its records (`SealedRecord.decodeList?_encodeList`). Both are UTF-8, so they can be read as texts
at all.
-/

namespace KeyCustody.SealedRecord

open Json

theorem isPlain_toJson (r : SealedRecord) : r.toJson.IsPlain := by
  simp [toJson, members]

theorem isTextual_toJson (r : SealedRecord) : r.toJson.IsTextual := by
  have hentries : ∀ entry ∈ [("name", Json.ofText r.name), ("sealed", Json.ofText r.body),
      ("sealed_at", Json.ofText Calendar.placeholder)], entry.2.IsTextual := by
    intro entry hentry
    simp only [List.mem_cons, List.not_mem_nil, or_false] at hentry
    obtain rfl | rfl | rfl := hentry <;> exact isTextual_ofText _
  exact isTextual_object hentries

theorem ofJson?_toJson (r : SealedRecord) : ofJson? r.toJson = some r := by
  have hinstant : Calendar.isInstant Calendar.placeholder = true := by decide +kernel
  obtain ⟨found, hfields, hlookup⟩ := exists_fields
    [("name", .ofText r.name), ("sealed", .ofText r.body),
      ("sealed_at", .ofText Calendar.placeholder)] (by simp)
  simp only [List.map_cons, List.map_nil] at hfields
  simp [ofJson?, toJson, members, hfields, hlookup, Fields.required, List.lookup_cons, hinstant]

/-! ### Journals -/

theorem decodeList?_encodeList (records : List SealedRecord) :
    decodeList? (encodeList records) = some records := by
  have hplain : (Json.array (records.map toJson)).IsPlain := by simp [isPlain_toJson]
  rw [decodeList?, encodeList, parse?_render hplain, Option.bind_some]
  exact list?_array toJson fun r _ => ofJson?_toJson r

theorem isText_encodeList (records : List SealedRecord) : Bytes.IsText (encodeList records) := by
  refine isText_render (isTextual_array fun item hitem => ?_)
  obtain ⟨r, -, rfl⟩ := List.mem_map.mp hitem
  exact r.isTextual_toJson

/-! ### Pages -/

/-- The tokens of a page, each with the blanks before it. -/
private def pieces (r : SealedRecord) : List (Bytes × Token) :=
  let name (s : String) : Token := .string ((Bytes.ofText s).flatMap escapeOctet)
  let line (field value : String) : List (Bytes × Token) :=
    [(Bytes.ofText "\n  ", name field), ([], .colon), (Bytes.ofText " ", name value)]
  ([], .openObject) :: line "name" r.name ++ ([], .comma) :: line "sealed" r.body ++
    ([], .comma) :: line "sealed_at" Calendar.placeholder ++ [(Bytes.ofText "\n", .closeObject)]

private theorem flatMap_pieces (r : SealedRecord) :
    r.pieces.flatMap (fun piece => piece.1 ++ piece.2.text) = r.page := by
  have hopen : Bytes.ofText "\x7b" = [0x7b] := rfl
  have hclose : Bytes.ofText "\n\x7d" = Bytes.ofText "\n" ++ [0x7d] := rfl
  have hcolon : Bytes.ofText ": " = 0x3a :: Bytes.ofText " " := rfl
  have hcomma : Bytes.ofText "," = [0x2c] := rfl
  simp [pieces, page, members, line, member, Json.ofText, render, tokens, Token.text,
    List.intercalate, List.intersperse, hopen, hclose, hcolon, hcomma]

private theorem map_snd_pieces (r : SealedRecord) : r.pieces.map Prod.snd = r.toJson.tokens := by
  simp [pieces, toJson, members, member, Json.ofText, tokens, memberTokens, moreMemberTokens,
    memberToken]

/-- What every piece is: blanks before a plain token that ends by itself. -/
private theorem pieces_spec (r : SealedRecord) : ∀ piece ∈ r.pieces,
    (∀ b ∈ piece.1, isBlank b = true) ∧ piece.2.IsPlain ∧ piece.2.IsClosed := by
  have hline : ∀ b ∈ Bytes.ofText "\n  ", isBlank b = true := List.all_eq_true.mp rfl
  have hspace : ∀ b ∈ Bytes.ofText " ", isBlank b = true := List.all_eq_true.mp rfl
  have hend : ∀ b ∈ Bytes.ofText "\n", isBlank b = true := List.all_eq_true.mp rfl
  have hstring (s : String) : Token.IsPlain (.string ((Bytes.ofText s).flatMap escapeOctet)) :=
    ⟨_, rfl⟩
  simp only [pieces, List.cons_append, List.nil_append, List.forall_mem_cons, List.not_mem_nil,
    false_imp_iff, implies_true, and_true]
  simp only [Token.IsPlain, Token.IsClosed, Token.IsMark, and_self, true_and, and_true]
  exact ⟨⟨hline, hstring _⟩, ⟨hspace, hstring _⟩, ⟨hline, hstring _⟩, ⟨hspace, hstring _⟩,
    ⟨hline, hstring _⟩, ⟨hspace, hstring _⟩, hend⟩

theorem decode?_page (r : SealedRecord) : decode? r.page = some r := by
  have hspec := r.pieces_spec
  have hcut : Token.list? r.page = some r.toJson.tokens := by
    rw [← flatMap_pieces, ← map_snd_pieces]
    exact Token.list?_flatMap_spaced (fun piece h => (hspec piece h).1)
      (fun piece h => (hspec piece h).2.1) fun piece h => (hspec piece h).2.2
  rw [decode?, parse?, hcut, Option.bind_some, ofTokens?_tokens, Option.bind_some, ofJson?_toJson]

theorem isText_page (r : SealedRecord) : Bytes.IsText r.page := by
  rw [← flatMap_pieces]
  refine Bytes.isText_flatMap fun piece hpiece => ?_
  have hlt : ∀ b : UInt8, isBlank b = true → b < 0x80 := Bytes.forall_octet (by decide +kernel)
  have hblank : ∀ b ∈ piece.1, b < 0x80 := fun b hb =>
    hlt b ((r.pieces_spec piece hpiece).1 b hb)
  have htoken : piece.2 ∈ r.toJson.tokens := by
    rw [← map_snd_pieces]
    exact List.mem_map_of_mem hpiece
  exact (Bytes.isText_of_forall_lt hblank).append (r.isTextual_toJson _ htoken)

end KeyCustody.SealedRecord
