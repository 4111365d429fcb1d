import Mathlib.Algebra.Group.Int.Defs
import Mathlib.Algebra.Group.Nat.Defs
import TailLint.Number.Numeral
import TailLint.Span

/-!
# Whole numbers are read back

A span is printed as four decimal texts, and a leaf that came from a whole number holds
its decimal text.  Both have to come back from the reader as the number they were, and the
reader has two habits that stand in the way: it is generous about what a numeral looks
like, and it gives up after `maxWholeDigits` digits.

Generosity costs nothing here.  A decimal text is made of ASCII digits and at most one
minus, so there is nothing to trim, no digit of another script to translate and no
underscore to take out (`plain_eq_self`, `ungroup?_eq_some`).  The limit is a matter of
size: the text of a number is exactly as long as the number is large (`shortInt_iff`), so
every number that was read once is short enough to be read again (`short_of_whole?`),
although the text it was first read from may have been padded with zeros.

* `whole?_intText` --- the decimal text of a short number is read as that number.
* `short_of_whole?` --- what is read as a whole number is short.
-/

namespace TailLint

/-! ## Short integers -/

/-- An integer is short if it is smaller than the least number with too many digits. -/
theorem shortInt_iff {n : Int} : ShortInt n ↔ n.natAbs < 10 ^ Numeral.maxWholeDigits :=
  Nat.length_toDigits_le_iff (by decide) (by decide)

/-- From there on the powers of ten are not short. -/
theorem not_shortInt_ten_pow {k : Nat} (h : Numeral.maxWholeDigits ≤ k) :
    ¬ ShortInt (10 ^ k) := by
  rw [shortInt_iff, Int.natAbs_pow, Nat.not_lt]
  exact Nat.pow_le_pow_right (by decide) h

namespace Numeral

/-! ## Digits -/

theorem isDigit_of_mem_natText {n : Nat} {c : Char} (h : c ∈ Text.natText n) :
    c.isDigit = true :=
  Nat.isDigit_of_mem_toDigits (by decide) (by decide) h

/-- A digit is one of ten ASCII characters. -/
theorem toNat_of_isDigit {c : Char} (h : c.isDigit = true) : 48 ≤ c.toNat ∧ c.toNat ≤ 57 := by
  simp only [Char.isDigit, Bool.and_eq_true, decide_eq_true_eq] at h
  exact ⟨h.1, h.2⟩

theorem ne_of_isDigit {c d : Char} (h : c.isDigit = true) (hd : d.isDigit = false) : c ≠ d := by
  rintro rfl
  rw [h] at hd
  cases hd

/-- Reading a row of digits is the library's own way of reading it. -/
theorem value_eq_ofDigitChars (digits : List Char) :
    value digits = Nat.ofDigitChars 10 digits 0 := by
  rw [value, digitValues, Text.ofDigits, List.foldl_map, Nat.ofDigitChars]
  congr 1
  funext total c
  rw [Nat.mul_comm]
  rfl

@[simp] theorem value_natText (n : Nat) : value (Text.natText n) = n := by
  rw [value_eq_ofDigitChars, Text.natText, Nat.ofDigitChars_ten_toDigits]

/-- A row of digits spells a number that has no more digits than the row. -/
theorem value_lt_ten_pow {digits : List Char} (h : ∀ c ∈ digits, c.isDigit = true) :
    value digits < 10 ^ digits.length := by
  rw [value_eq_ofDigitChars]
  induction digits with
  | nil => simp
  | cons c rest ih =>
    have hc := toNat_of_isDigit (h c List.mem_cons_self)
    have hzero : '0'.toNat = 48 := rfl
    have hrest := ih fun d hd => h d (List.mem_cons_of_mem c hd)
    rw [Nat.ofDigitChars_cons, Nat.ofDigitChars_eq_ofDigitChars_zero, List.length_cons,
      Nat.pow_succ]
    have hdigit : 10 * 0 + (c.toNat - '0'.toNat) ≤ 9 := by omega
    have hhead := Nat.mul_le_mul_left (10 ^ rest.length) hdigit
    omega

/-! ## Tokens that are read as they stand -/

/-- There is no padding among the ASCII characters but the blanks. -/
theorem isPadding_eq_isBlank {c : Char} (h : c.toNat < 128) :
    Text.isPadding c = Text.isBlank c := by
  have hwide : Text.wideBlanks.contains c.toNat = false := by
    rw [List.contains_eq_mem, decide_eq_false_iff_not]
    intro hmem
    have hmin : ∀ code ∈ Text.wideBlanks, 128 ≤ code := by decide
    exact absurd (hmin _ hmem) (by omega)
  rw [Text.isPadding, hwide, Bool.or_false]

theorem dropWhile_isPadding_eq_self {s : List Char} (h : ∀ c ∈ s, Text.isPadding c = false) :
    s.dropWhile Text.isPadding = s := by
  cases s with
  | nil => rfl
  | cons c rest => rw [List.dropWhile_cons_of_neg (by simp [h c List.mem_cons_self])]

/-- An ASCII character is its own ASCII digit, or is no digit at all. -/
theorem getD_digitValue?_eq_self {c : Char} (h : c.toNat < 128) :
    ((Text.digitValue? c).map Text.digitChar).getD c = c := by
  rw [Text.digitValue?, if_pos h]
  split
  · next hdigit =>
    have hc := toNat_of_isDigit hdigit
    rw [Option.map_some, Option.getD_some, Text.digitChar,
      show 48 + (c.toNat - 48) = c.toNat by omega, Char.ofNat_toNat]
  · rfl

/-- A token of ASCII characters without blanks is read as it stands. -/
theorem plain_eq_self {token : List Char}
    (h : ∀ c ∈ token, c.toNat < 128 ∧ Text.isBlank c = false) : plain token = token := by
  have hpad : ∀ c ∈ token, Text.isPadding c = false := fun c hc => by
    rw [isPadding_eq_isBlank (h c hc).1, (h c hc).2]
  have htrim : Text.trimPadding token = token := by
    rw [Text.trimPadding, dropWhile_isPadding_eq_self hpad,
      dropWhile_isPadding_eq_self fun c hc => hpad c (List.mem_reverse.mp hc), List.reverse_reverse]
  rw [plain, htrim]
  calc token.map (fun c => ((Text.digitValue? c).map Text.digitChar).getD c)
      = token.map id := List.map_congr_left fun c hc => getD_digitValue?_eq_self (h c hc).1
    _ = token := List.map_id token

/-- Without underscores there is nothing to take out. -/
theorem ungroup?_eq_some {digits : List Char} (h : '_' ∉ digits) (kept : List Char) :
    ungroup? kept digits = some (kept.reverse ++ digits) := by
  induction digits generalizing kept with
  | nil => simp [ungroup?]
  | cons c rest ih =>
    have hc : c ≠ '_' := fun hc => h (hc ▸ List.mem_cons_self)
    have hrest : '_' ∉ rest := fun hr => h (List.mem_cons_of_mem c hr)
    rw [ungroup?.eq_4 _ _ _ (by simp_all) (by simp_all), ih hrest]
    simp

/-- A row of digits has no sign. -/
theorem splitSign_eq_self {digits : List Char} (h : ∀ c ∈ digits, c.isDigit = true) :
    splitSign digits = (false, digits) := by
  cases digits with
  | nil => rfl
  | cons c rest =>
    have hc := h c List.mem_cons_self
    have hminus : c ≠ '-' := ne_of_isDigit hc (by decide)
    have hplus : c ≠ '+' := ne_of_isDigit hc (by decide)
    simp [splitSign, hminus, hplus]

/-! ## Decimal texts -/

/-- The characters of a decimal text: digits and the minus. -/
theorem of_mem_intText {n : Int} {c : Char} (h : c ∈ Text.intText n) :
    c.isDigit = true ∨ c = '-' := by
  cases n with
  | ofNat m => exact Or.inl (isDigit_of_mem_natText h)
  | negSucc m =>
    rcases List.mem_cons.mp h with h | h
    · exact Or.inr h
    · exact Or.inl (isDigit_of_mem_natText h)

theorem plain_intText (n : Int) : plain (Text.intText n) = Text.intText n := by
  refine plain_eq_self fun c hc => ?_
  rcases of_mem_intText hc with h | rfl
  · have hcode := toNat_of_isDigit h
    refine ⟨by omega, ?_⟩
    have hblank : c ≠ ' ' := ne_of_isDigit h (by decide)
    simp only [Text.isBlank, hblank, decide_false, Bool.false_or, Bool.and_eq_false_iff,
      decide_eq_false_iff_not]
    omega
  · decide

/-- A sign and the decimal text of a natural number make a whole number. -/
theorem whole?_of_splitSign {token : List Char} (negative : Bool) (m : Nat)
    (hsplit : splitSign (plain token) = (negative, Text.natText m))
    (hshort : (Text.natText m).length ≤ maxWholeDigits) :
    whole? token = some (signed negative m) := by
  have hnone : '_' ∉ Text.natText m := Nat.underscore_not_in_toDigits
  have hne : Text.natText m ≠ [] := Nat.toDigits_ne_nil
  have hall : (Text.natText m).all Char.isDigit = true :=
    List.all_eq_true.mpr fun c hc => isDigit_of_mem_natText hc
  simp [whole?, hsplit, ungroup?_eq_some hnone, hne, hall, hshort]

/-- The decimal text of a short integer is read as that integer. -/
theorem whole?_intText {n : Int} (h : ShortInt n) : whole? (Text.intText n) = some n := by
  cases n with
  | ofNat m =>
    refine whole?_of_splitSign false m ?_ h
    rw [plain_intText]
    exact splitSign_eq_self fun c hc => isDigit_of_mem_natText hc
  | negSucc m =>
    refine whole?_of_splitSign true (m + 1) ?_ h
    rw [plain_intText]
    rfl

/-- A row of digits that is not too long spells a short integer, with either sign. -/
theorem shortInt_signed (negative : Bool) {digits : List Char}
    (hdigits : ∀ c ∈ digits, c.isDigit = true) (hlength : digits.length ≤ maxWholeDigits) :
    ShortInt (signed negative (value digits)) := by
  have hsize : (signed negative (value digits)).natAbs = value digits := by
    rw [signed]
    split <;> simp
  rw [shortInt_iff]
  calc (signed negative (value digits)).natAbs = value digits := hsize
    _ < 10 ^ digits.length := value_lt_ten_pow hdigits
    _ ≤ 10 ^ maxWholeDigits := Nat.pow_le_pow_right (by decide) hlength

/-- What is read as a whole number is short, however it was spelled. -/
theorem short_of_whole? {token : List Char} {n : Int} (h : whole? token = some n) :
    ShortInt n := by
  simp only [whole?] at h
  split at h
  · next digits _ =>
    split at h
    · next hdigits =>
      simp only [Bool.and_eq_true, List.all_eq_true, decide_eq_true_eq] at hdigits
      cases h
      exact shortInt_signed _ hdigits.1.2 hdigits.2
    · cases h
  · cases h

end Numeral

end TailLint
