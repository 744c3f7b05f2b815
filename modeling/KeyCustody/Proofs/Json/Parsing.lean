import KeyCustody.Proofs.Json.Cutting

/-!
# Reading back what was written

`Json.parse?_render`: the text of a value is read as this value, if the value is **plain**
(`Json.IsPlain`), that is, all of its tokens are. Two facts about the tokens of a value meet in it,
and both hold of every value whatever:

* no token runs into the next (`isChain_tokens`), because a value is followed by a mark or by
  nothing;
* the tokens are put together to the value again (`foldlM_feed_tokens`).
-/

namespace KeyCustody.Json

/-! ### No token runs into the next -/

/-- The condition on what follows a value: nothing, or a mark and no token that runs into the
next. -/
private def Fenced (rest : List Token) : Prop :=
  (∀ t ∈ rest.head?, t.IsMark) ∧ rest.IsChain Token.Parts

private theorem Fenced.cons {t : Token} {rest : List Token} (ht : t.IsMark)
    (hrest : rest.IsChain Token.Parts) : Fenced (t :: rest) := by
  have hclosed : t.IsClosed := by cases t <;> first | exact ht | exact trivial
  refine ⟨by simpa using ht, ?_⟩
  cases rest with
  | nil => simp
  | cons u rest => exact List.isChain_cons_cons.mpr ⟨.inl hclosed, hrest⟩

private theorem isChain_cons_of_fenced (t : Token) {rest : List Token} (h : Fenced rest) :
    (t :: rest).IsChain Token.Parts := by
  cases rest with
  | nil => simp
  | cons u rest => exact List.isChain_cons_cons.mpr ⟨.inr (h.1 u rfl), h.2⟩

mutual

/-- No token of a value runs into the next, nor the last one into what follows the value. -/
private theorem isChain_tokens_append : ∀ (value : Json) {rest : List Token}, Fenced rest →
    (value.tokens ++ rest).IsChain Token.Parts
  | .null, _, h => isChain_cons_of_fenced _ h
  | .bool _, _, h => isChain_cons_of_fenced _ h
  | .number _, _, h => isChain_cons_of_fenced _ h
  | .string _, _, h => isChain_cons_of_fenced _ h
  | .array items, _, h =>
    (Fenced.cons (t := .openArray) trivial (isChain_itemTokens_append items h)).2
  | .object members, _, h =>
    (Fenced.cons (t := .openObject) trivial (isChain_memberTokens_append members h)).2

private theorem isChain_itemTokens_append : ∀ (items : List Json) {rest : List Token},
    Fenced rest → (itemTokens items ++ rest).IsChain Token.Parts
  | [], _, h => (Fenced.cons (t := .closeArray) trivial h.2).2
  | item :: items, rest, h => by
    rw [itemTokens, List.append_assoc]
    exact isChain_tokens_append item (fenced_moreItemTokens_append items h)

private theorem fenced_moreItemTokens_append : ∀ (items : List Json) {rest : List Token},
    Fenced rest → Fenced (moreItemTokens items ++ rest)
  | [], _, h => Fenced.cons trivial h.2
  | item :: items, rest, h => by
    rw [moreItemTokens, List.cons_append, List.append_assoc]
    exact Fenced.cons trivial (isChain_tokens_append item (fenced_moreItemTokens_append items h))

private theorem isChain_memberTokens_append : ∀ (members : List (Bytes × Json))
    {rest : List Token}, Fenced rest → (memberTokens members ++ rest).IsChain Token.Parts
  | [], _, h => (Fenced.cons (t := .closeObject) trivial h.2).2
  | member :: members, rest, h => by
    rw [memberTokens, List.append_assoc]
    exact isChain_memberToken_append member (fenced_moreMemberTokens_append members h)

private theorem fenced_moreMemberTokens_append : ∀ (members : List (Bytes × Json))
    {rest : List Token}, Fenced rest → Fenced (moreMemberTokens members ++ rest)
  | [], _, h => Fenced.cons trivial h.2
  | member :: members, rest, h => by
    rw [moreMemberTokens, List.cons_append, List.append_assoc]
    exact Fenced.cons trivial
      (isChain_memberToken_append member (fenced_moreMemberTokens_append members h))

private theorem isChain_memberToken_append : ∀ (member : Bytes × Json) {rest : List Token},
    Fenced rest → (memberToken member ++ rest).IsChain Token.Parts
  | (_, value), _, h =>
    isChain_cons_of_fenced _ (Fenced.cons trivial (isChain_tokens_append value h))

end

/-- No token of a value runs into the next. -/
theorem isChain_tokens (value : Json) : value.tokens.IsChain Token.Parts := by
  have hnothing : Fenced [] := ⟨by simp, by simp⟩
  simpa using isChain_tokens_append value hnothing

/-! ### Putting tokens together -/

/-- A value does not begin with the end of an array. -/
private theorem tokens_eq_cons (value : Json) :
    ∃ first others, value.tokens = first :: others ∧ first ≠ .closeArray := by
  cases value <;> exact ⟨_, _, by rw [tokens], by simp⟩

private theorem feed_firstItem {stack : List Frame} {t : Token} (h : t ≠ .closeArray) :
    Stage.feed (.firstItem stack) t = Stage.feed (.needValue (.array [] :: stack)) t := by
  cases t <;> first | rfl | exact absurd rfl h

mutual

/-- Where a value is needed, its tokens are put together to the value. -/
theorem foldlM_feed_tokens : ∀ (value : Json) (stack : List Frame) (rest : List Token),
    (value.tokens ++ rest).foldlM Stage.feed (.needValue stack) =
      rest.foldlM Stage.feed (.after stack value)
  | .null, _, _ => rfl
  | .bool _, _, _ => rfl
  | .number _, _, _ => rfl
  | .string _, _, _ => rfl
  | .array [], _, _ => rfl
  | .array (item :: items), stack, rest => by
    -- the first item is read where the array could also end, so its first token is looked at
    obtain ⟨first, others, heq, hne⟩ := tokens_eq_cons item
    have hitem := foldlM_feed_tokens item (.array [] :: stack) (moreItemTokens items ++ rest)
    rw [heq, List.cons_append, List.foldlM_cons] at hitem
    rw [tokens, List.cons_append, List.foldlM_cons]
    change (itemTokens (item :: items) ++ rest).foldlM Stage.feed (.firstItem stack) = _
    rw [itemTokens, List.append_assoc, heq, List.cons_append, List.foldlM_cons,
      feed_firstItem hne, hitem, foldlM_feed_moreItemTokens items]
    rfl
  | .object [], _, _ => rfl
  | .object (member :: members), stack, rest => by
    rw [tokens, List.cons_append, List.foldlM_cons]
    change (memberTokens (member :: members) ++ rest).foldlM Stage.feed (.firstName stack) = _
    have hmember : ∀ others, (memberToken member ++ others).foldlM Stage.feed (.firstName stack) =
        (memberToken member ++ others).foldlM Stage.feed (.needName stack []) := fun _ => by
      rw [memberToken]; rfl
    rw [memberTokens, List.append_assoc, hmember, foldlM_feed_memberToken member,
      foldlM_feed_moreMemberTokens members]
    rfl

/-- After an item, the tokens of further items complete the array. -/
private theorem foldlM_feed_moreItemTokens : ∀ (items done : List Json) (value : Json)
    (stack : List Frame) (rest : List Token),
    (moreItemTokens items ++ rest).foldlM Stage.feed (.after (.array done :: stack) value) =
      rest.foldlM Stage.feed (.after stack (.array ((value :: done).reverse ++ items)))
  | [], done, value, stack, rest => by
    rw [List.append_nil]
    rfl
  | item :: items, done, value, stack, rest => by
    rw [moreItemTokens, List.cons_append, List.append_assoc, List.foldlM_cons]
    change (item.tokens ++ (moreItemTokens items ++ rest)).foldlM Stage.feed
      (.needValue (.array (value :: done) :: stack)) = _
    rw [foldlM_feed_tokens item, foldlM_feed_moreItemTokens items, List.reverse_cons,
      List.append_assoc]
    rfl

/-- After a member, the tokens of further members complete the object. -/
private theorem foldlM_feed_moreMemberTokens : ∀ (members done : List (Bytes × Json))
    (name : Bytes) (value : Json) (stack : List Frame) (rest : List Token),
    (moreMemberTokens members ++ rest).foldlM Stage.feed
        (.after (.object done name :: stack) value) =
      rest.foldlM Stage.feed
        (.after stack (.object (((name, value) :: done).reverse ++ members)))
  | [], done, name, value, stack, rest => by
    rw [List.append_nil]
    rfl
  | member :: members, done, name, value, stack, rest => by
    rw [moreMemberTokens, List.cons_append, List.append_assoc, List.foldlM_cons]
    change (memberToken member ++ (moreMemberTokens members ++ rest)).foldlM Stage.feed
      (.needName stack ((name, value) :: done)) = _
    rw [foldlM_feed_memberToken member, foldlM_feed_moreMemberTokens members, List.reverse_cons,
      List.append_assoc]
    rfl

/-- Where a name is needed, the tokens of a member lead to its value. -/
private theorem foldlM_feed_memberToken : ∀ (member : Bytes × Json) (stack : List Frame)
    (done : List (Bytes × Json)) (rest : List Token),
    (memberToken member ++ rest).foldlM Stage.feed (.needName stack done) =
      rest.foldlM Stage.feed (.after (.object done member.1 :: stack) member.2)
  | (name, value), stack, done, rest => by
    rw [memberToken]
    exact foldlM_feed_tokens value (.object done name :: stack) rest

end

/-- The tokens of a value spell it. -/
theorem ofTokens?_tokens (value : Json) : ofTokens? value.tokens = some value := by
  have h := foldlM_feed_tokens value [] []
  rw [List.append_nil] at h
  rw [ofTokens?, h]
  rfl

/-! ### Plain values -/

/-- A value whose numbers are natural numbers and whose strings are written with the escapes of
this library. -/
def IsPlain (value : Json) : Prop := ∀ t ∈ value.tokens, t.IsPlain

/-- **Reading inverts writing**: the text of a plain value is read as this value. -/
theorem parse?_render {value : Json} (h : value.IsPlain) : parse? value.render = some value := by
  rw [parse?, render, Token.list?_flatMap_text h (isChain_tokens value)]
  exact ofTokens?_tokens value

end KeyCustody.Json
