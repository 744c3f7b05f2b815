import KeyCustody.Json.Fields
import KeyCustody.Proofs.Json.Parsing

/-!
# Contents of values read back

What the writers of `Json` put into a value, the readers find in it: a text (`text?_ofText`), a
natural number below the bound of its reader (`nat?_ofNat`), octets, a list, a record
(`exists_fields`). The values that the writers make are plain, so they survive being written out.
-/

namespace KeyCustody.Json

/-! ### Texts -/

private theorem unescape_cons {b : UInt8} (h : b ≠ backslash) (done rest : Bytes) :
    unescape done (b :: rest) = unescape (b :: done) rest := by
  rw [unescape.eq_def]
  simp only [if_pos h]

private theorem unescape_short {mark b : UInt8} (hmark : mark ≠ unitMark)
    (h : shortEscape? mark = some b) (done rest : Bytes) :
    unescape done (backslash :: mark :: rest) = unescape (b :: done) rest := by
  rw [unescape.eq_def]
  simp only [ne_eq, not_true_eq_false, if_false, hmark, not_false_eq_true, if_true, h]

private theorem unescape_unit {p q r s : UInt8} {code : Nat} (h : codeUnit? p q r s = some code)
    (hlow : isLowSurrogate code = false) (hhigh : isHighSurrogate code = false)
    (done rest : Bytes) : unescape done (backslash :: unitMark :: p :: q :: r :: s :: rest) =
      unescape ((utf8 code).reverse ++ done) rest := by
  rw [unescape.eq_def]
  simp only [ne_eq, not_true_eq_false, if_false, h, hlow, hhigh, Bool.false_eq_true]

private theorem codeUnit?_hexDigit (b : UInt8) (hb : b < 0x20) :
    codeUnit? 0x30 0x30 (hexDigit (b / 16)) (hexDigit (b % 16)) = some b.toNat ∧
      isLowSurrogate b.toNat = false ∧ isHighSurrogate b.toNat = false ∧ utf8 b.toNat = [b] := by
  revert b
  apply Bytes.forall_octet
  decide +kernel

/-- An escaped octet is read as this octet. -/
private theorem unescape_escapeOctet (b : UInt8) (done rest : Bytes) :
    unescape done (escapeOctet b ++ rest) = unescape (b :: done) rest := by
  rcases escapeOctet_cases b with ⟨mark, heq, hmark, hshort⟩ | ⟨hcontrol, heq⟩ |
    ⟨heq, -, hbackslash, -⟩ <;> rw [heq]
  · exact unescape_short hmark hshort done rest
  · obtain ⟨hunit, hlow, hhigh, hutf8⟩ := codeUnit?_hexDigit b hcontrol
    exact (unescape_unit hunit hlow hhigh done rest).trans (by rw [hutf8]; rfl)
  · exact unescape_cons hbackslash done rest

/-- Escaped octets are read as these octets. -/
private theorem unescape_flatMap (octets done : Bytes) :
    unescape done (octets.flatMap escapeOctet) = some (done.reverse ++ octets) := by
  induction octets generalizing done with
  | nil => simp [unescape]
  | cons b octets ih =>
    rw [List.flatMap_cons, unescape_escapeOctet, ih]
    simp

/-- The body that is written for a text denotes this text. -/
@[simp]
theorem bodyText?_flatMap (s : String) :
    bodyText? ((Bytes.ofText s).flatMap escapeOctet) = some s := by
  rw [bodyText?, unescape_flatMap]
  exact Bytes.text?_ofText s

@[simp]
theorem text?_ofText (s : String) : (ofText s).text? = some s := bodyText?_flatMap s

@[simp]
theorem caseName?_ofText (s : String) : (ofText s).caseName? = some s := bodyText?_flatMap s

/-! ### Numbers, lists and octets -/

private theorem withDigit?_ofNat {bound n k : Nat} (hk : k < 10) (h : 10 * n + k < bound) :
    withDigit? bound n (UInt8.ofNat (0x30 + k)) = some (10 * n + k) := by
  have hdigit : ∀ k < 10, isDigit (UInt8.ofNat (0x30 + k)) = true ∧
      (UInt8.ofNat (0x30 + k)).toNat - 0x30 = k := by decide
  obtain ⟨hd, hv⟩ := hdigit k hk
  simp only [withDigit?, hd, hv, h, and_self, if_true]

/-- The digits of a natural number below a bound are read as this number. -/
private theorem foldlM_withDigit?_numeralOf {bound n : Nat} (h : n < bound) :
    (numeralOf n).foldlM (withDigit? bound) 0 = some n := by
  induction n using Nat.strongRecOn with
  | ind n ih =>
    rcases Nat.lt_or_ge n 10 with hn | hn
    · rw [numeralOf_of_lt hn, List.foldlM_cons, withDigit?_ofNat hn (by omega)]
      simp
    · have hsplit : 10 * (n / 10) + n % 10 = n := by omega
      rw [numeralOf_of_le hn, List.foldlM_append, ih (n / 10) (by omega) (by omega),
        Option.bind_eq_bind, Option.bind_some, List.foldlM_cons,
        withDigit?_ofNat (Nat.mod_lt n (by decide)) (by omega), hsplit]
      rfl

/-- The number that is written for a natural number below a bound denotes this number. -/
theorem nat?_ofNat {bound n : Nat} (h : n < bound) : (ofNat n).nat? bound = some n :=
  foldlM_withDigit?_numeralOf h

/-- The number that is written for a natural number from a bound on denotes none below it. -/
theorem nat?_ofNat_of_le {bound n : Nat} (h : bound ≤ n) : (ofNat n).nat? bound = none := by
  have hdigit : ∀ m < 10, ∀ k, bound ≤ 10 * k + m →
      withDigit? bound k (UInt8.ofNat (0x30 + m)) = none := by
    intro m hm k hle
    have hvalue : ∀ m < 10, (UInt8.ofNat (0x30 + m)).toNat - 0x30 = m := by decide
    simp only [withDigit?, hvalue m hm]
    exact if_neg fun hlt => Nat.not_lt.mpr hle hlt.2
  change (numeralOf n).foldlM (withDigit? bound) 0 = none
  induction n using Nat.strongRecOn with
  | ind n ih =>
    rcases Nat.lt_or_ge n 10 with hn | hn
    · rw [numeralOf_of_lt hn, List.foldlM_cons, hdigit n hn 0 (by omega)]
      rfl
    · rw [numeralOf_of_le hn, List.foldlM_append]
      rcases Nat.lt_or_ge (n / 10) bound with hlt | hge
      · -- the digits before the last one are still below the bound
        rw [foldlM_withDigit?_numeralOf hlt, Option.bind_eq_bind, Option.bind_some,
          List.foldlM_cons, hdigit _ (Nat.mod_lt n (by decide)) _ (by omega)]
        rfl
      · rw [ih (n / 10) (by omega) hge]
        rfl

theorem nat32?_ofNat {n : Nat} (h : n < 0x100000000) : (ofNat n).nat32? = some n := nat?_ofNat h

theorem nat64?_ofNat {n : Nat} (h : n < 0x10000000000000000) : (ofNat n).nat64? = some n :=
  nat?_ofNat h

/-- The items that are read one by one from what was written for each of a list. -/
theorem mapM_map_eq_some {α β γ : Type} {read : β → Option γ} {write : α → β} {result : α → γ}
    {items : List α} (h : ∀ item ∈ items, read (write item) = some (result item)) :
    (items.map write).mapM read = some (items.map result) := by
  induction items with
  | nil => rfl
  | cons item items ih =>
    simp [h item (by simp), ih fun x hx => h x (by simp [hx])]

/-- The list of values that are read one by one as they were written. -/
theorem list?_array {α : Type} {read : Json → Option α} (write : α → Json) {items : List α}
    (h : ∀ item ∈ items, read (write item) = some item) :
    (Json.array (items.map write)).list? read = some items :=
  (mapM_map_eq_some h).trans (congrArg some (List.map_id items))

@[simp]
theorem octets?_ofOctets (b : Bytes) : (ofOctets b).octets? = some b := by
  refine list?_array (fun octet : UInt8 => ofNat octet.toNat) fun octet _ => ?_
  rw [octet?, nat?_ofNat octet.toNat_lt, Option.map_some, UInt8.ofNat_toNat]

/-! ### Records -/

/-- A declared field that was not found before is found in the member that writes it. -/
private theorem collect_member {names : List String} {found : List (String × Json)} {name : String}
    {value : Json} (hname : name ∈ names) (hnone : found.lookup name = none) :
    collect names found (member name value) = some ((name, value) :: found) := by
  simp [collect, member, hname, hnone]

/-- Members that are written under different declared names are found one after the other. -/
private theorem exists_foldlM_collect {names : List String} {entries found : List (String × Json)}
    (hnames : ∀ entry ∈ entries, entry.1 ∈ names) (hnodup : (entries.map Prod.fst).Nodup)
    (hnone : ∀ entry ∈ entries, found.lookup entry.1 = none) :
    ∃ found', (entries.map fun entry => member entry.1 entry.2).foldlM (collect names) found =
        some found' ∧
      ∀ name, found'.lookup name = (entries.lookup name).or (found.lookup name) := by
  induction entries generalizing found with
  | nil => exact ⟨found, rfl, fun _ => rfl⟩
  | cons entry rest ih =>
    obtain ⟨name, value⟩ := entry
    obtain ⟨hname, hnodup⟩ := List.nodup_cons.mp hnodup
    have hcollect : collect names found (member name value) = some ((name, value) :: found) :=
      collect_member (hnames _ (List.mem_cons_self ..)) (hnone _ (List.mem_cons_self ..))
    have hfresh : ∀ entry ∈ rest, entry.1 ≠ name := fun entry hentry heq =>
      hname (List.mem_map.mpr ⟨entry, hentry, heq⟩)
    have hrest : ∀ entry ∈ rest, ((name, value) :: found).lookup entry.1 = none := by
      intro entry hentry
      rw [List.lookup_cons, beq_false_of_ne (hfresh entry hentry)]
      exact hnone entry (List.mem_cons_of_mem _ hentry)
    obtain ⟨found', hfound', hlookup⟩ :=
      ih (fun entry hentry => hnames entry (List.mem_cons_of_mem _ hentry)) hnodup hrest
    refine ⟨found', ?_, fun other => ?_⟩
    · rw [List.map_cons, List.foldlM_cons, hcollect]
      exact hfound'
    · -- the first entry was found before the others, none of which has its name
      rw [hlookup, List.lookup_cons, List.lookup_cons]
      by_cases hother : other = name
      · have hnot : rest.lookup other = none := List.lookup_eq_none_iff.mpr fun entry hentry => by
          simpa [hother] using (hfresh entry hentry).symm
        rw [hnot, hother, beq_self_eq_true]
        rfl
      · rw [beq_false_of_ne hother]

/-- The fields of a record that is written field by field under different names are found, each
under its name. -/
theorem exists_fields (entries : List (String × Json)) (h : (entries.map Prod.fst).Nodup) :
    ∃ found, (Json.object (entries.map fun entry => member entry.1 entry.2)).fields?
        (entries.map Prod.fst) = some ⟨true, found⟩ ∧
      ∀ name, found.lookup name = entries.lookup name := by
  have hnone : ∀ entry ∈ entries, List.lookup entry.1 ([] : List (String × Json)) = none :=
    fun _ _ => rfl
  obtain ⟨found, hfound, hlookup⟩ :=
    exists_foldlM_collect (fun _ hentry => List.mem_map_of_mem hentry) h hnone
  exact ⟨found, by rw [fields?, hfound, Option.map_some], fun name => by rw [hlookup]; simp⟩

/-! ### Plain values -/

/-- A member with a name that is written with the escapes of this library and a plain value. -/
def IsPlainMember (m : Bytes × Json) : Prop :=
  (∃ octets : Bytes, m.1 = octets.flatMap escapeOctet) ∧ m.2.IsPlain

@[simp]
theorem isPlainMember_member {name : String} {value : Json} :
    IsPlainMember (member name value) ↔ value.IsPlain :=
  ⟨And.right, fun h => ⟨⟨_, rfl⟩, h⟩⟩

@[simp]
theorem isPlain_null : IsPlain .null := by simp [IsPlain, tokens, Token.IsPlain]

@[simp]
theorem isPlain_ofNat (n : Nat) : (ofNat n).IsPlain := by
  simp only [IsPlain, ofNat, tokens, List.mem_singleton, forall_eq]
  exact ⟨n, rfl⟩

@[simp]
theorem isPlain_ofText (s : String) : (ofText s).IsPlain := by
  simp only [IsPlain, ofText, tokens, List.mem_singleton, forall_eq]
  exact ⟨_, rfl⟩

private theorem isPlain_moreItemTokens {items : List Json} :
    (∀ t ∈ moreItemTokens items, t.IsPlain) ↔ ∀ item ∈ items, item.IsPlain := by
  induction items with
  | nil => simp [moreItemTokens, Token.IsPlain]
  | cons item items ih =>
    simp only [moreItemTokens, List.forall_mem_cons, List.forall_mem_append, ih]
    exact ⟨And.right, And.intro trivial⟩

/-- An array is plain if all of its items are. -/
@[simp]
theorem isPlain_array {items : List Json} :
    IsPlain (.array items) ↔ ∀ item ∈ items, item.IsPlain := by
  rw [← isPlain_moreItemTokens]
  cases items with
  | nil => simp [IsPlain, tokens, itemTokens, moreItemTokens, Token.IsPlain]
  | cons item items => simp [IsPlain, tokens, itemTokens, moreItemTokens, Token.IsPlain]

private theorem isPlain_memberToken {m : Bytes × Json} :
    (∀ t ∈ memberToken m, t.IsPlain) ↔ IsPlainMember m := by
  obtain ⟨name, value⟩ := m
  simp [memberToken, IsPlainMember, IsPlain, Token.IsPlain]

private theorem isPlain_moreMemberTokens {members : List (Bytes × Json)} :
    (∀ t ∈ moreMemberTokens members, t.IsPlain) ↔ ∀ m ∈ members, IsPlainMember m := by
  induction members with
  | nil => simp [moreMemberTokens, Token.IsPlain]
  | cons m members ih =>
    simp only [moreMemberTokens, List.forall_mem_cons, List.forall_mem_append, ih,
      isPlain_memberToken]
    exact ⟨And.right, And.intro trivial⟩

/-- An object is plain if all of its members are. -/
@[simp]
theorem isPlain_object {members : List (Bytes × Json)} :
    IsPlain (.object members) ↔ ∀ m ∈ members, IsPlainMember m := by
  rw [← isPlain_moreMemberTokens]
  cases members with
  | nil => simp [IsPlain, tokens, memberTokens, moreMemberTokens, Token.IsPlain]
  | cons m members => simp [IsPlain, tokens, memberTokens, moreMemberTokens, Token.IsPlain]

@[simp]
theorem isPlain_ofOctets (b : Bytes) : (ofOctets b).IsPlain := by
  simp [ofOctets]

end KeyCustody.Json
