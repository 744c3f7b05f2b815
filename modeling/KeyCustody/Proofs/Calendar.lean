import KeyCustody.Calendar.Instant
import Mathlib.Data.List.TakeWhile
import Mathlib.Data.Nat.Digits.Defs
import Mathlib.Tactic.Common

/-!
# Instants read back

Every instant in universal time, written in the usual form, is accepted where an instant has to
stand (`Calendar.isInstant_text`): years have four digits or a sign and at least four, and the
fraction of a second has as many digits as it takes, in groups of three.
-/

namespace KeyCustody.Calendar

/-- An instant in universal time, to the nanosecond. -/
structure Instant where
  year : Int
  month : Nat
  day : Nat
  hour : Nat
  minute : Nat
  second : Nat
  nanosecond : Nat
  occurs : occurs year month day hour minute second 0 = true
  nanosecond_lt : nanosecond < 1000000000

/-- The digits of a number, with zeros before them up to some width. -/
def padded (width n : Nat) : List Char := (Nat.toDigits 10 n).leftpad width '0'

/-- A year: four digits, or a sign and at least four digits. -/
def yearText (year : Int) : List Char :=
  if 0 ≤ year ∧ year ≤ 9999 then padded 4 year.natAbs
  else (if year < 0 then '-' else '+') :: padded 4 year.natAbs

/-- A fraction of a second to the millisecond, the microsecond or the nanosecond; none if it is
zero. -/
def fractionText (nanosecond : Nat) : List Char :=
  if nanosecond = 0 then []
  else if nanosecond % 1000000 = 0 then '.' :: padded 3 (nanosecond / 1000000)
  else if nanosecond % 1000 = 0 then '.' :: padded 6 (nanosecond / 1000)
  else '.' :: padded 9 nanosecond

/-- The text of an instant. -/
def Instant.text (t : Instant) : String :=
  String.ofList (yearText t.year ++ '-' :: (padded 2 t.month ++ '-' :: (padded 2 t.day ++
    'T' :: (padded 2 t.hour ++ ':' :: (padded 2 t.minute ++ ':' :: (padded 2 t.second ++
      (fractionText t.nanosecond ++ ['Z'])))))))

variable {width n : Nat} {c : Char} {digits rest : List Char}

/-! ### Digits -/

private theorem isDigit_of_mem_padded (h : c ∈ padded width n) : c.isDigit = true := by
  rcases List.mem_append.mp h with h | h
  · rw [List.eq_of_mem_replicate h]
    rfl
  · exact Nat.isDigit_of_mem_toDigits (by decide) (by decide) h

private theorem padded_ne_nil (width n : Nat) : padded width n ≠ [] :=
  List.append_ne_nil_of_right_ne_nil _ Nat.toDigits_ne_nil

private theorem length_padded (hwidth : 0 < width) (h : n < 10 ^ width) :
    (padded width n).length = width := by
  rw [padded, List.length_leftpad]
  exact Nat.max_eq_left ((Nat.length_toDigits_le_iff (by decide) hwidth).mpr h)

private theorem ofDigitChars_padded (width n : Nat) :
    Nat.ofDigitChars 10 (padded width n) 0 = n := by
  rw [padded, List.leftpad, Nat.ofDigitChars_append, Nat.ofDigitChars_replicate_zero]
  simp [Nat.ofDigitChars_toDigits]

private theorem isBlank_of_isDigit (h : c.isDigit = true) : isBlank c = false := by
  have hrange : 48 ≤ c.toNat ∧ c.toNat ≤ 57 := by
    rw [Char.isDigit, Bool.and_eq_true, decide_eq_true_iff, decide_eq_true_iff] at h
    exact ⟨h.1, h.2⟩
  simp only [isBlank, Bool.or_eq_false_iff, Bool.and_eq_false_iff, decide_eq_false_iff_not,
    beq_eq_false_iff_ne]
  omega

private theorem trim_cons (h : isBlank c = false) : trim (c :: rest) = c :: rest :=
  List.dropWhile_cons_of_neg (by simp [h])

/-- What begins with digits is not trimmed. -/
private theorem trim_append (hdigits : ∀ c ∈ digits, c.isDigit = true) (hne : digits ≠ []) :
    trim (digits ++ rest) = digits ++ rest := by
  obtain ⟨c, tail, rfl⟩ := List.exists_cons_of_ne_nil hne
  exact trim_cons (isBlank_of_isDigit (hdigits c List.mem_cons_self))

/-- A number is read up to what ends it: the largest width, or a character that is no digit. -/
private theorem number?_append (hdigits : ∀ c ∈ digits, c.isDigit = true) (hne : digits ≠ [])
    (hlength : digits.length ≤ width)
    (hend : digits.length = width ∨ ∀ c ∈ rest.head?, c.isDigit = false) :
    number? width (digits ++ rest) = some (Nat.ofDigitChars 10 digits 0, rest) := by
  have hrest : (rest.take (width - digits.length)).takeWhile Char.isDigit = [] := by
    rcases hend with heq | hhead
    · rw [heq, Nat.sub_self]
      rfl
    · cases rest with
      | nil => simp
      | cons c rest =>
        cases width - digits.length with
        | zero => rfl
        | succ left => exact List.takeWhile_cons_of_neg (by simp [hhead c rfl])
  have htaken : ((digits ++ rest).take width).takeWhile Char.isDigit = digits := by
    rw [List.take_append, List.take_of_length_le hlength, List.takeWhile_append_of_pos hdigits,
      hrest, List.append_nil]
  simp only [number?, htaken, List.isEmpty_eq_false_iff.mpr hne, Bool.false_eq_true, if_false,
    List.drop_left]

/-! ### The parts of an instant -/

private theorem part?_padded (h : n < 100) : part? (padded 2 n ++ rest) = some (n, rest) := by
  have hlength : (padded 2 n).length = 2 := length_padded (by decide) h
  have hdigits : ∀ c ∈ padded 2 n, c.isDigit = true := fun _ => isDigit_of_mem_padded
  have hne := padded_ne_nil 2 n
  rw [part?, trim_append hdigits hne, number?_append hdigits hne hlength.le (.inl hlength),
    ofDigitChars_padded]

private theorem after?_cons (h : isBlank c = false) : after? c (c :: rest) = some rest := by
  rw [after?, trim_cons h]
  exact if_pos rfl

private theorem year?_yearText (year : Int) :
    year? (yearText year ++ '-' :: rest) = some (year, '-' :: rest) := by
  have hdigits : ∀ c ∈ padded 4 year.natAbs, c.isDigit = true := fun _ => isDigit_of_mem_padded
  have hne := padded_ne_nil 4 year.natAbs
  have hnumber : ∀ width, (padded 4 year.natAbs).length ≤ width →
      number? width (padded 4 year.natAbs ++ '-' :: rest) = some (year.natAbs, '-' :: rest) := by
    intro width hwidth
    have hend : ∀ c ∈ ('-' :: rest).head?, c.isDigit = false := by simp
    rw [number?_append hdigits hne hwidth (.inr hend), ofDigitChars_padded]
  rw [yearText]
  split_ifs with hfour hneg
  · -- a digit is no sign
    have hfirst : ∀ {c s}, padded 4 year.natAbs ++ '-' :: rest = c :: s → c.isDigit = true := by
      intro c s heq
      obtain ⟨d, tail, hcons⟩ := List.exists_cons_of_ne_nil hne
      rw [hcons] at heq
      rw [← (List.cons.inj heq).1]
      exact hdigits d (hcons ▸ List.mem_cons_self)
    have hlength : (padded 4 year.natAbs).length = 4 := length_padded (by decide) (by omega)
    rw [year?, trim_append hdigits hne]
    split
    · rename_i heq
      cases hfirst heq
    · rename_i heq
      cases hfirst heq
    · rw [hnumber 4 hlength.le, Option.map_some]
      dsimp only
      rw [Int.natAbs_of_nonneg hfour.1]
  · have hread : year? ('-' :: padded 4 year.natAbs ++ '-' :: rest) =
        some (-(year.natAbs : Int), '-' :: rest) :=
      congrArg (Option.map _) (hnumber _ (by simp))
    rw [hread, Int.ofNat_natAbs_of_nonpos (by omega), Int.neg_neg]
  · have hread : year? ('+' :: padded 4 year.natAbs ++ '-' :: rest) =
        some ((year.natAbs : Int), '-' :: rest) :=
      congrArg (Option.map _) (hnumber _ (by simp))
    rw [hread, Int.natAbs_of_nonneg (by omega)]

private theorem fraction?_fractionText (n : Nat) :
    fraction? (fractionText n ++ ['Z']) = some ['Z'] := by
  have hpadded : ∀ width m, fraction? ('.' :: padded width m ++ ['Z']) = some ['Z'] := by
    intro width m
    have hdigits : ∀ c ∈ padded width m, c.isDigit = true := fun _ => isDigit_of_mem_padded
    obtain ⟨c, tail, hcons⟩ := List.exists_cons_of_ne_nil (padded_ne_nil width m)
    rw [hcons] at hdigits ⊢
    have hdrop : (c :: tail ++ ['Z']).dropWhile Char.isDigit = ['Z'] :=
      List.dropWhile_append_of_pos hdigits
    have hfirst := hdigits c List.mem_cons_self
    exact (if_pos hfirst).trans (congrArg some hdrop)
  rw [fractionText]
  split_ifs
  · rfl
  · exact hpadded _ _
  · exact hpadded _ _
  · exact hpadded _ _

private theorem daysOf_le (year : Int) (month : Nat) : daysOf year month ≤ 31 := by
  rw [daysOf]
  split_ifs <;> decide

/-- All parts of an instant but the year and the fraction have two digits. -/
private theorem Instant.part_lt (t : Instant) :
    t.month < 100 ∧ t.day < 100 ∧ t.hour < 100 ∧ t.minute < 100 ∧ t.second < 100 := by
  have hoccurs := t.occurs
  have hdays := daysOf_le t.year t.month
  simp only [Calendar.occurs, Bool.and_eq_true, decide_eq_true_iff] at hoccurs
  omega

/-- **An instant is read back**: its text is accepted where an instant has to stand. -/
theorem isInstant_text (t : Instant) : isInstant t.text = true := by
  obtain ⟨hmonth, hday, hhour, hminute, hsecond⟩ := t.part_lt
  have hoffset : offset? ['Z'] = some (0, []) := rfl
  have hread : spellsInstant? t.text.toList = some true := by
    simp only [Instant.text, String.toList_ofList, spellsInstant?, year?_yearText,
      after?_cons (show isBlank '-' = false by decide),
      after?_cons (show isBlank ':' = false by decide), part?_padded hmonth, part?_padded hday,
      part?_padded hhour, part?_padded hminute, part?_padded hsecond, fraction?_fractionText,
      Option.bind_eq_bind, Option.bind_some, hoffset, t.occurs]
    rfl
  rw [isInstant, hread]
  rfl

end KeyCustody.Calendar
