import Mathlib
import TailLint.CommandLine.Run
import TailLint.Proofs.WholeNumber

/-!
# A line of JSON for each diagnostic

A diagnostic printed as JSON is one line of ASCII, whatever characters its texts hold, and the reader
of configurations makes the same object of it again, with the members in their order.

The reader takes a value off the front of a text and hands back what is left, so what it makes of a
written value is stated with the rest of the text in view: `Reads v` says that the written form of `v`
is taken off whatever follows it.  "Whatever" needs a limit, for a number has no end of its own.  What
follows has to start with one of the marks that end a value, or be empty (`Follows`).  The reader also
runs on fuel, and the length of the written form is enough of it.

Strings are the heart of the matter.  Most characters are read as soon as their written form is, but
one beyond the basic plane is written as two escapes, between which the reader waits with the first
half.  No other character can be mistaken for such a half, because no surrogate is a character.

* `readString_writeChar` --- one character is read back;
* `reads_string`, `reads_integer`, `Reads.object` --- values are read back;
* `inLine_object` --- what is written stays within a line of ASCII.
-/

namespace TailLint

namespace Json

/-! ## Characters -/

theorem hexValue?_digitChar : ∀ d < 16, hexValue? (Nat.digitChar d) = some d := by decide

/-- An escape by code unit, of which the four digits spell the unit. -/
theorem exists_unitEscape {n : Nat} (h : n < 0x10000) (rest : List Char) :
    ∃ a b c d, unitEscape n ++ rest = '\\' :: 'u' :: a :: b :: c :: d :: rest
      ∧ unit? a b c d = some n := by
  refine ⟨_, _, _, _, rfl, ?_⟩
  have hdigit (m : Nat) : hexValue? (Nat.digitChar (m % 16)) = some (m % 16) :=
    hexValue?_digitChar _ (Nat.mod_lt _ (by decide))
  simp only [unit?, hdigit, Option.bind_eq_bind, Option.bind_some, Option.pure_def,
    Option.some.injEq]
  omega

variable {opening : Nat} {read rest : List Char}

/-- An escape is read as a character, unless it is the first half of a pair. -/
theorem readString_unitEscape {n : Nat} (h : n < 0x10000) (hrest : rest ≠ []) :
    readString opening none read (unitEscape n ++ rest)
      = if isHighHalf n then readString opening (some n) read rest
        else readString opening none (unitChar n :: read) rest := by
  obtain ⟨a, b, c, d, hescape, hunit⟩ := exists_unitEscape h rest
  have hsome : rest.isEmpty = false := by simpa using hrest
  rw [hescape, readString]
  simp only [hunit, hsome, settle]

/-- An escape that is a second half completes the first one. -/
theorem readString_lowHalf {first n : Nat} (h : n < 0x10000) (hlow : isLowHalf n = true)
    (hrest : rest ≠ []) :
    readString opening (some first) read (unitEscape n ++ rest)
      = readString opening none (pairChar first n :: read) rest := by
  obtain ⟨a, b, c, d, hescape, hunit⟩ := exists_unitEscape h rest
  have hsome : rest.isEmpty = false := by simpa using hrest
  rw [hescape, readString]
  simp only [hunit, hsome, hlow]

/-- No character is a surrogate. -/
theorem toNat_cases (c : Char) :
    c.toNat < 0xd800 ∨ 0xe000 ≤ c.toNat ∧ c.toNat < 0x10000
      ∨ 0x10000 ≤ c.toNat ∧ c.toNat < 0x110000 := by
  have hvalid : c.toNat < 0xd800 ∨ 0xdfff < c.toNat ∧ c.toNat < 0x110000 := c.valid
  omega

/-- A character of the basic plane is read back from its escape. -/
theorem readString_basic {c : Char} (h : c.toNat < 0x10000) (hrest : rest ≠ []) :
    readString opening none read (unitEscape c.toNat ++ rest)
      = readString opening none (c :: read) rest := by
  have hcases := toNat_cases c
  have hhigh : isHighHalf c.toNat = false := by
    simp only [isHighHalf, Bool.and_eq_false_iff, decide_eq_false_iff_not]
    omega
  have hwhole : (0xd800 ≤ c.toNat && c.toNat < 0xe000) = false := by
    simp only [Bool.and_eq_false_iff, decide_eq_false_iff_not]
    omega
  rw [readString_unitEscape h hrest, if_neg (by simp [hhigh]), unitChar, if_neg (by simp [hwhole]),
    Char.ofNat_toNat]

/-- A character beyond the basic plane is read back from its two halves. -/
theorem readString_pair {c : Char} (h : 0x10000 ≤ c.toNat) (hrest : rest ≠ []) :
    readString opening none read
        (unitEscape (0xd800 + (c.toNat - 0x10000) / 0x400)
          ++ (unitEscape (0xdc00 + (c.toNat - 0x10000) % 0x400) ++ rest))
      = readString opening none (c :: read) rest := by
  have hcases := toNat_cases c
  have hhigh : isHighHalf (0xd800 + (c.toNat - 0x10000) / 0x400) = true := by
    simp only [isHighHalf, Bool.and_eq_true, decide_eq_true_eq]
    omega
  have hlow : isLowHalf (0xdc00 + (c.toNat - 0x10000) % 0x400) = true := by
    simp only [isLowHalf, Bool.and_eq_true, decide_eq_true_eq]
    omega
  have hchar : pairChar (0xd800 + (c.toNat - 0x10000) / 0x400)
      (0xdc00 + (c.toNat - 0x10000) % 0x400) = c := by
    rw [pairChar, show 0x10000 + (0xd800 + (c.toNat - 0x10000) / 0x400 - 0xd800) * 0x400
      + (0xdc00 + (c.toNat - 0x10000) % 0x400 - 0xdc00) = c.toNat by omega, Char.ofNat_toNat]
  rw [readString_unitEscape (by omega) (by simp [unitEscape]), if_pos hhigh,
    readString_lowHalf (by omega) hlow hrest, hchar]

/-- An escape of one letter is read as the character that the letter stands for. -/
theorem readString_shortEscape {letter c : Char} (h : shortEscape? letter = some c)
    (hletter : letter ≠ 'u') :
    readString opening none read ('\\' :: letter :: rest)
      = readString opening none (c :: read) rest := by
  rw [readString.eq_6 _ _ _ _ _ (by simp [hletter]) (by simp [hletter])]
  simp only [h, settle]

/-- A character that needs no escape is read as it stands. -/
theorem readString_plain {c : Char} (hquote : c ≠ '"') (hbackslash : c ≠ '\\')
    (h : 0x20 ≤ c.toNat) :
    readString opening none read (c :: rest) = readString opening none (c :: read) rest := by
  rw [readString.eq_7 _ _ _ _ _ hquote (by simp [hbackslash]) (by simp [hbackslash])
    (by simp [hbackslash]) (by simp [hbackslash]), if_neg (by omega), settle]

/-- The written form of a character is read as that character. -/
theorem readString_writeChar (c : Char) (hrest : rest ≠ []) :
    readString opening none read (writeChar c ++ rest)
      = readString opening none (c :: read) rest := by
  unfold writeChar
  split_ifs with hquote hn hr ht hb hf hplain hbasic
  · rcases (Bool.or_eq_true _ _).mp hquote with h | h
    · rw [of_decide_eq_true h]
      exact readString_shortEscape rfl (by decide)
    · rw [of_decide_eq_true h]
      exact readString_shortEscape rfl (by decide)
  · rw [hn]
    exact readString_shortEscape rfl (by decide)
  · rw [hr]
    exact readString_shortEscape rfl (by decide)
  · rw [ht]
    exact readString_shortEscape rfl (by decide)
  · rw [hb]
    exact readString_shortEscape rfl (by decide)
  · rw [hf]
    exact readString_shortEscape rfl (by decide)
  · simp only [Bool.or_eq_true, decide_eq_true_eq, not_or] at hquote
    simp only [Bool.and_eq_true, decide_eq_true_eq] at hplain
    exact readString_plain hquote.1 hquote.2 hplain.1
  · exact readString_basic hbasic hrest
  · rw [List.append_assoc]
    exact readString_pair (by omega) hrest

/-- A written string is read as that string, once its opening quote is behind. -/
theorem readString_writeString (s : String) (opening : Nat) (rest : List Char) :
    readString opening none [] (s.toList.flatMap writeChar ++ '"' :: rest) = .ok (s, rest) := by
  have hall (chars read : List Char) :
      readString opening none read (chars.flatMap writeChar ++ '"' :: rest)
        = .ok (String.ofList (read.reverse ++ chars), rest) := by
    induction chars generalizing read with
    | nil => simp [readString, settle]
    | cons c chars ih =>
      rw [List.flatMap_cons, List.append_assoc, readString_writeChar c (by simp), ih]
      simp
  simpa using hall s.toList []

/-! ## Numbers -/

/-- Whether what follows a value starts with a mark that ends it. -/
def Follows (rest : List Char) : Prop := ∀ c ∈ rest.head?, c = ',' ∨ c = '}'

theorem follows_nil : Follows [] := nofun

theorem follows_comma (rest : List Char) : Follows (',' :: rest) := by
  rintro c ⟨⟩
  exact Or.inl rfl

theorem follows_brace (rest : List Char) : Follows ('}' :: rest) := by
  rintro c ⟨⟩
  exact Or.inr rfl

/-- A row of digits ends where a value does. -/
theorem span_isDigit {digits : List Char} (hdigits : ∀ c ∈ digits, c.isDigit = true)
    (hrest : Follows rest) : (digits ++ rest).span Char.isDigit = (digits, rest) := by
  have hnone : rest.takeWhile Char.isDigit = [] ∧ rest.dropWhile Char.isDigit = rest := by
    cases rest with
    | nil => exact ⟨rfl, rfl⟩
    | cons c rest =>
      rcases hrest c rfl with rfl | rfl
      · exact ⟨rfl, rfl⟩
      · exact ⟨rfl, rfl⟩
  rw [List.span_eq_takeWhile_dropWhile, List.takeWhile_append_of_pos hdigits,
    List.dropWhile_append_of_pos hdigits, hnone.1, hnone.2, List.append_nil]

/-- The text of a number other than zero does not start with a zero. -/
theorem head?_natText {n : Nat} (h : n ≠ 0) : (Text.natText n).head? ≠ some '0' := by
  induction n using Nat.strongRecOn with
  | ind n ih =>
    by_cases hsmall : n < 10
    · rw [Text.natText, Nat.toDigits_of_lt_base hsmall]
      have hdigit : ∀ d < 10, d ≠ 0 → Nat.digitChar d ≠ '0' := by decide
      simpa using hdigit n hsmall h
    · rw [Text.natText, Nat.toDigits_of_base_le (by decide) (by omega),
        List.head?_append_of_ne_nil _ Nat.toDigits_ne_nil]
      exact ih (n / 10) (by omega) (by omega)

theorem splitWhole_natText (n : Nat) (hrest : Follows rest) :
    splitWhole (Text.natText n ++ rest) = (Text.natText n, rest) := by
  by_cases hzero : n = 0
  · subst hzero
    rfl
  · have hhead : ∀ tail, Text.natText n ++ rest ≠ '0' :: tail := by
      intro tail heq
      apply head?_natText hzero
      rw [← List.head?_append_of_ne_nil (Text.natText n) Nat.toDigits_ne_nil, heq]
      rfl
    rw [splitWhole.eq_2 _ hhead]
    exact span_isDigit (fun c hc => Numeral.isDigit_of_mem_natText hc) hrest

/-- Neither a fraction nor an exponent starts where a value ends. -/
theorem splitFraction_of_follows (h : Follows rest) : splitFraction rest = ([], rest) := by
  refine splitFraction.eq_2 _ ?_
  rintro c tail rfl
  rcases h '.' rfl with h | h <;> cases h

theorem splitExponent_of_follows (h : Follows rest) : splitExponent rest = (none, rest) := by
  cases rest with
  | nil => rfl
  | cons c rest =>
    rcases h c rfl with rfl | rfl
    · rfl
    · rfl

/-- The text of a natural number starts with a digit. -/
theorem exists_digit (n : Nat) : ∃ c digits, Text.natText n = c :: digits ∧ c.isDigit = true := by
  obtain ⟨c, digits, hdigits⟩ := List.exists_cons_of_ne_nil (Nat.toDigits_ne_nil (b := 10) (n := n))
  refine ⟨c, digits, hdigits, Numeral.isDigit_of_mem_natText (n := n) ?_⟩
  rw [Text.natText, hdigits]
  exact List.mem_cons_self

/-- The text of a short number is read as that number, with or without a minus in front. -/
theorem readNumber_natText (negative : Bool) {n : Nat}
    (h : (Text.natText n).length ≤ Numeral.maxWholeDigits) (hrest : Follows rest) :
    readNumber (if negative then '-' :: (Text.natText n ++ rest) else Text.natText n ++ rest)
      = .ok (.integer (Numeral.signed negative n), rest) := by
  have hshort : ¬ Numeral.maxWholeDigits < (Text.natText n).length := Nat.not_lt.mpr h
  have hsome : (Text.natText n).isEmpty = false := by simp [Text.natText, Nat.toDigits_ne_nil]
  have hminus : ∀ tail, Text.natText n ++ rest = '-' :: tail → False := by
    obtain ⟨c, digits, hdigits, hc⟩ := exists_digit n
    rw [hdigits]
    rintro tail ⟨⟩
    exact absurd hc (by decide)
  cases negative <;>
    simp [readNumber, splitWhole_natText n hrest, hsome, splitFraction_of_follows hrest,
      splitExponent_of_follows hrest, hshort, Numeral.value_natText]

/-! ## Values -/

/-- Whether the written form of a value is taken off the front of a text as that value. -/
structure Reads (v : Json) : Prop where
  /-- There is no blank to skip. -/
  start : ∀ rest, skipBlanks (write v ++ rest) = write v ++ rest
  value : ∀ fuel rest, (write v).length ≤ fuel → Follows rest →
    readValue (fuel + 1) (write v ++ rest) = .ok (v, rest)

theorem reads_null : Reads .null where
  start _ := rfl
  value _ _ _ _ := rfl

theorem reads_string (s : String) : Reads (.string s) where
  start _ := rfl
  value fuel rest _ _ := by
    have hwrite : write (.string s) ++ rest = '"' :: (s.toList.flatMap writeChar ++ '"' :: rest) := by
      simp [write, writeString]
    rw [hwrite, readValue, readString_writeString]
    rfl

/-- A value that starts with a digit is a number. -/
theorem readValue_digit (fuel : Nat) {c : Char} (h : c.isDigit = true) (tail : List Char) :
    readValue (fuel + 1) (c :: tail) = readNumber (c :: tail) := by
  rw [readValue.eq_11]
  all_goals
    rintro _ ⟨⟩
    exact absurd h (by decide)

/-- So is one that starts with a minus, unless it is infinite. -/
theorem readValue_minus (fuel : Nat) {c : Char} (h : c.isDigit = true) (tail : List Char) :
    readValue (fuel + 1) ('-' :: c :: tail) = readNumber ('-' :: c :: tail) := by
  rw [readValue.eq_11]
  all_goals rintro _ ⟨⟩
  exact absurd h (by decide)

theorem isJsonBlank_of_isDigit {c : Char} (h : c.isDigit = true) : Text.isJsonBlank c = false := by
  have hne {d : Char} (hd : d.isDigit = false) : c ≠ d := Numeral.ne_of_isDigit h hd
  simp [Text.isJsonBlank, hne]

theorem reads_integer {n : Int} (h : ShortInt n) : Reads (.integer n) := by
  obtain ⟨c, digits, hdigits, hc⟩ := exists_digit n.natAbs
  cases n with
  | ofNat m =>
    have hwrite (rest : List Char) : write (.integer (.ofNat m)) ++ rest = c :: (digits ++ rest) :=
      congrArg (· ++ rest) hdigits
    refine ⟨fun rest => ?_, fun fuel rest _ hrest => ?_⟩
    · rw [hwrite, skipBlanks, List.dropWhile_cons_of_neg (by simp [isJsonBlank_of_isDigit hc])]
    · rw [hwrite, readValue_digit fuel hc, ← hwrite]
      exact readNumber_natText false h hrest
  | negSucc m =>
    have hwrite (rest : List Char) :
        write (.integer (.negSucc m)) ++ rest = '-' :: c :: (digits ++ rest) :=
      congrArg (fun text => '-' :: (text ++ rest)) hdigits
    refine ⟨fun _ => rfl, fun fuel rest _ hrest => ?_⟩
    rw [hwrite, readValue_minus fuel hc, ← hwrite]
    exact readNumber_natText true h hrest

/-! ## Objects -/

theorem readKey_writeString (key : String) {v : Json} (h : Reads v) (rest : List Char) :
    readKey (writeString key ++ ':' :: ' ' :: (write v ++ rest)) = .ok (key, write v ++ rest) := by
  have hwrite : writeString key ++ ':' :: ' ' :: (write v ++ rest)
      = '"' :: (key.toList.flatMap writeChar ++ '"' :: ':' :: ' ' :: (write v ++ rest)) := by
    simp [writeString]
  rw [hwrite, readKey, readString_writeString]
  show Except.ok (key, skipBlanks (write v ++ rest)) = _
  rw [h.start]

/-- A new key goes to the end. -/
theorem put_of_not_mem {key : String} {members : List (String × Json)}
    (h : key ∉ members.map (·.1)) (v : Json) : put key v members = members ++ [(key, v)] := by
  induction members with
  | nil => rfl
  | cons member members ih =>
    obtain ⟨k, w⟩ := member
    simp only [List.map_cons, List.mem_cons, not_or] at h
    rw [put, if_neg (Ne.symm h.1), ih h.2, List.cons_append]

section Members

variable {key : String} {v : Json} {done : List (String × Json)} {fuel : Nat}

/-- The last member of an object is put behind the others, and the object is complete. -/
theorem readMembers_last (hv : Reads v) (hnew : key ∉ done.map (·.1))
    (hfuel : (write v).length ≤ fuel) (rest : List Char) :
    readMembers (fuel + 2) done (writeString key ++ ':' :: ' ' :: (write v ++ '}' :: rest))
      = .ok (.object (done ++ [(key, v)]), rest) := by
  rw [readMembers, readKey_writeString key hv]
  simp only [hv.value fuel _ hfuel (follows_brace rest)]
  rw [← put_of_not_mem hnew]
  rfl

/-- Any other member is put behind those before it, and the next one is read. -/
theorem readMembers_next (hv : Reads v) (hnew : key ∉ done.map (·.1))
    (hfuel : (write v).length ≤ fuel) (rest : List Char) :
    readMembers (fuel + 2) done (writeString key ++ ':' :: ' ' :: (write v ++ ',' :: ' ' :: rest))
      = readMembers (fuel + 1) (done ++ [(key, v)]) (skipBlanks rest) := by
  rw [readMembers, readKey_writeString key hv]
  simp only [hv.value fuel _ hfuel (follows_comma (' ' :: rest))]
  rw [← put_of_not_mem hnew]
  rfl

end Members

/-- The written members of an object start with a quote. -/
theorem exists_members (key : String) (v : Json) (members : List (String × Json))
    (rest : List Char) :
    ∃ tail, commaSeparated (writeMembers ((key, v) :: members)) ++ rest = '"' :: tail := by
  cases members with
  | nil => exact ⟨_, rfl⟩
  | cons member members => exact ⟨_, rfl⟩

theorem not_mem_keys {key : String} {v : Json} {done members : List (String × Json)}
    (h : ((done ++ (key, v) :: members).map (·.1)).Nodup) : key ∉ done.map (·.1) := by
  rw [List.map_append, List.nodup_append] at h
  intro hmem
  exact h.2.2 key hmem key List.mem_cons_self rfl

/-- The members of an object are read one after the other, behind those that are done. -/
theorem readMembers_write (members : List (String × Json)) {key : String} {v : Json}
    {done : List (String × Json)} (hreads : ∀ member ∈ (key, v) :: members, Reads member.2)
    (hkeys : ((done ++ (key, v) :: members).map (·.1)).Nodup) {fuel : Nat}
    (hfuel : (commaSeparated (writeMembers ((key, v) :: members))).length ≤ fuel)
    (rest : List Char) :
    readMembers (fuel + 1) done
        (commaSeparated (writeMembers ((key, v) :: members)) ++ '}' :: rest)
      = .ok (.object (done ++ (key, v) :: members), rest) := by
  have hv : Reads v := hreads _ List.mem_cons_self
  induction members generalizing key v done fuel with
  | nil =>
    have hpiece : commaSeparated (writeMembers [(key, v)])
        = writeString key ++ ':' :: ' ' :: write v := rfl
    rw [hpiece] at hfuel ⊢
    simp only [List.length_append, List.length_cons] at hfuel
    obtain ⟨less, rfl⟩ : ∃ less, fuel = less + 1 := ⟨fuel - 1, by omega⟩
    rw [List.append_assoc]
    exact readMembers_last hv (not_mem_keys hkeys) (by omega) rest
  | cons member members ih =>
    obtain ⟨next, w⟩ := member
    have hpieces : commaSeparated (writeMembers ((key, v) :: (next, w) :: members))
        = writeString key ++ ':' :: ' ' :: (write v
          ++ ',' :: ' ' :: commaSeparated (writeMembers ((next, w) :: members))) := by
      simp [writeMembers, commaSeparated]
    rw [hpieces] at hfuel ⊢
    simp only [List.length_append, List.length_cons] at hfuel
    obtain ⟨less, rfl⟩ : ∃ less, fuel = less + 1 := ⟨fuel - 1, by omega⟩
    have hmore : ∀ member ∈ (next, w) :: members, Reads member.2 :=
      fun member hmem => hreads member (List.mem_cons_of_mem _ hmem)
    have hleft : (((done ++ [(key, v)]) ++ (next, w) :: members).map (·.1)).Nodup := by
      rwa [List.append_assoc]
    obtain ⟨tail, htail⟩ := exists_members next w members ('}' :: rest)
    have hskip : skipBlanks (commaSeparated (writeMembers ((next, w) :: members)) ++ '}' :: rest)
        = commaSeparated (writeMembers ((next, w) :: members)) ++ '}' :: rest := by
      rw [htail]
      rfl
    simp only [List.append_assoc, List.cons_append]
    rw [readMembers_next hv (not_mem_keys hkeys) (by omega), hskip,
      ih hmore hleft (by omega) (hmore _ List.mem_cons_self), List.append_assoc]
    rfl

/-- An object is read back if all its members are and no key stands in it twice. -/
theorem Reads.object {members : List (String × Json)} (hreads : ∀ member ∈ members, Reads member.2)
    (hkeys : (members.map (·.1)).Nodup) : Reads (.object members) := by
  refine ⟨fun _ => rfl, fun fuel rest hfuel _ => ?_⟩
  cases members with
  | nil => rfl
  | cons member members =>
    obtain ⟨key, v⟩ := member
    have hwrite : write (.object ((key, v) :: members)) ++ rest
        = '{' :: (commaSeparated (writeMembers ((key, v) :: members)) ++ '}' :: rest) := by
      simp [write]
    simp only [write, List.length_append, List.length_cons] at hfuel
    obtain ⟨less, rfl⟩ : ∃ less, fuel = less + 1 := ⟨fuel - 1, by omega⟩
    have hread : readMembers (less + 1) [] (commaSeparated (writeMembers ((key, v) :: members))
        ++ '}' :: rest) = .ok (.object ((key, v) :: members), rest) :=
      readMembers_write members hreads hkeys (by omega) rest
    obtain ⟨tail, htail⟩ := exists_members key v members ('}' :: rest)
    rw [hwrite, htail]
    rw [htail] at hread
    exact hread

/-- An object that is written alone is read as a whole text. -/
theorem Reads.parse_render {members : List (String × Json)} (h : Reads (.object members)) :
    parse (render (.object members)) = .ok (.object members) := by
  obtain ⟨tail, htail⟩ : ∃ tail, write (.object members) = '{' :: tail := ⟨_, rfl⟩
  have hread := h.value (2 * (write (.object members)).length + 1) [] (by omega) follows_nil
  have hskip : skipBlanks ('{' :: tail) = '{' :: tail := rfl
  rw [List.append_nil, htail] at hread
  rw [parse, render, String.toList_ofList, htail, readText.eq_2 _ (by simp), hskip, hread]
  rfl

/-! ## Lines -/

/-- Whether a text has only characters from the space to the tilde. -/
def InLine (s : List Char) : Prop := ∀ c ∈ s, 0x20 ≤ c.toNat ∧ c.toNat < 0x7f

theorem inLine_nil : InLine [] := nofun

theorem inLine_cons {c : Char} {s : List Char} :
    InLine (c :: s) ↔ (0x20 ≤ c.toNat ∧ c.toNat < 0x7f) ∧ InLine s := List.forall_mem_cons

theorem inLine_append {s t : List Char} : InLine (s ++ t) ↔ InLine s ∧ InLine t :=
  List.forall_mem_append

theorem inLine_hexText (width n : Nat) : InLine (Text.hexText width n) := by
  have hdigit : ∀ d < 16, 0x20 ≤ (Nat.digitChar d).toNat ∧ (Nat.digitChar d).toNat < 0x7f := by
    decide
  induction width generalizing n with
  | zero => exact inLine_nil
  | succ width ih =>
    rw [Text.hexText, inLine_append]
    exact ⟨ih (n / 16), inLine_cons.mpr ⟨hdigit _ (Nat.mod_lt _ (by decide)), inLine_nil⟩⟩

theorem inLine_unitEscape (n : Nat) : InLine (unitEscape n) := by
  rw [unitEscape, inLine_cons, inLine_cons]
  exact ⟨by decide, by decide, inLine_hexText 4 n⟩

/-- Whatever a character is, its written form stays within a line of ASCII. -/
theorem inLine_writeChar (c : Char) : InLine (writeChar c) := by
  have hshort {letter : Char} (h : 0x20 ≤ letter.toNat ∧ letter.toNat < 0x7f) :
      InLine ['\\', letter] := by
    rw [inLine_cons, inLine_cons]
    exact ⟨by decide, h, inLine_nil⟩
  unfold writeChar
  split_ifs with hquote hn hr ht hb hf hplain hbasic
  · simp only [Bool.or_eq_true, decide_eq_true_eq] at hquote
    rcases hquote with rfl | rfl
    · exact hshort (by decide)
    · exact hshort (by decide)
  · exact hshort (by decide)
  · exact hshort (by decide)
  · exact hshort (by decide)
  · exact hshort (by decide)
  · exact hshort (by decide)
  · simp only [Bool.and_eq_true, decide_eq_true_eq] at hplain
    exact inLine_cons.mpr ⟨hplain, inLine_nil⟩
  · exact inLine_unitEscape _
  · exact inLine_append.mpr ⟨inLine_unitEscape _, inLine_unitEscape _⟩

theorem inLine_writeString (s : String) : InLine (writeString s) := by
  rw [writeString, inLine_append, inLine_cons]
  refine ⟨⟨by decide, fun c hc => ?_⟩, inLine_cons.mpr ⟨by decide, inLine_nil⟩⟩
  obtain ⟨source, -, hc⟩ := List.mem_flatMap.mp hc
  exact inLine_writeChar source c hc

theorem inLine_intText (n : Int) : InLine (Text.intText n) := by
  intro c hc
  rcases Numeral.of_mem_intText hc with hdigit | rfl
  · have hcode := Numeral.toNat_of_isDigit hdigit
    omega
  · decide

theorem inLine_commaSeparated {pieces : List (List Char)} (h : ∀ piece ∈ pieces, InLine piece) :
    InLine (commaSeparated pieces) := by
  fun_induction commaSeparated pieces with
  | case1 => exact inLine_nil
  | case2 piece => exact h piece List.mem_cons_self
  | case3 piece rest _ ih =>
    rw [inLine_append, inLine_cons, inLine_cons]
    exact ⟨h piece List.mem_cons_self, by decide, by decide,
      ih fun other hmem => h other (List.mem_cons_of_mem _ hmem)⟩

theorem inLine_object {members : List (String × Json)}
    (h : ∀ member ∈ members, InLine (write member.2)) : InLine (write (.object members)) := by
  have hpieces : ∀ piece ∈ writeMembers members, InLine piece := by
    induction members with
    | nil => exact nofun
    | cons member members ih =>
      obtain ⟨key, v⟩ := member
      rw [writeMembers, List.forall_mem_cons, inLine_append, inLine_cons, inLine_cons]
      rw [List.forall_mem_cons] at h
      exact ⟨⟨inLine_writeString key, by decide, by decide, h.1⟩, ih h.2⟩
  rw [write, inLine_append, inLine_cons]
  exact ⟨⟨by decide, inLine_commaSeparated hpieces⟩, inLine_cons.mpr ⟨by decide, inLine_nil⟩⟩

end Json

/-- Lines that hold no newline can be told apart. -/
theorem CommandLine.splitOn_lines {texts : List String} (h : ∀ text ∈ texts, '\n' ∉ text.toList) :
    (lines texts).toList.splitOn '\n' = texts.map String.toList ++ [[]] := by
  induction texts with
  | nil => rfl
  | cons text texts ih =>
    rw [List.forall_mem_cons] at h
    have hlines : (lines (text :: texts)).toList = text.toList ++ '\n' :: (lines texts).toList := by
      simp [lines, String.join_cons]
    rw [hlines, List.splitOn_append_cons_self_of_not_mem h.1, ih h.2, List.map_cons,
      List.cons_append]

namespace Diagnostic

open Json

theorem reads_toJson {d : Diagnostic} (h : d.span.Short) : Reads d.toJson := by
  obtain ⟨hline, hcolumn, hendLine, hendColumn⟩ := h
  have hfunction : Reads (d.function.elim .null .string) := by
    cases d.function with
    | none => exact reads_null
    | some name => exact reads_string name
  refine Reads.object ?_ (by simp [toMembers])
  simp only [toMembers, List.forall_mem_cons, List.not_mem_nil, false_imp_iff, implies_true,
    and_true]
  exact ⟨reads_string _, reads_integer hline, reads_integer hcolumn, reads_integer hendLine,
    reads_integer hendColumn, reads_string _, reads_string _, reads_string _, hfunction⟩

theorem inLine_jsonLine (d : Diagnostic) : InLine d.jsonLine.toList := by
  have hfunction : InLine (write (d.function.elim .null .string)) := by
    cases d.function with
    | none =>
      show InLine ['n', 'u', 'l', 'l']
      simp [InLine]
    | some name => exact inLine_writeString name
  rw [jsonLine, render, String.toList_ofList]
  refine inLine_object ?_
  simp only [toMembers, List.forall_mem_cons, List.not_mem_nil, false_imp_iff, implies_true,
    and_true]
  exact ⟨inLine_writeString _, inLine_intText _, inLine_intText _, inLine_intText _,
    inLine_intText _, inLine_writeString _, inLine_writeString _, inLine_writeString _, hfunction⟩

/-- A diagnostic printed as JSON is read back as the object it was, its members in their order,
unless a coordinate has too many digits.  Whatever its texts hold, it is printed within a line of
ASCII, so that printing diagnostics gives one line for each of them. -/
theorem parse_jsonLine :
    (∀ d : Diagnostic, d.span.Short → Json.parse d.jsonLine = .ok d.toJson)
      ∧ (∀ d : Diagnostic, InLine d.jsonLine.toList)
      ∧ ∀ ds : List Diagnostic, (CommandLine.printed .json ds).toList.splitOn '\n'
        = ds.map (fun d => d.jsonLine.toList) ++ [[]] := by
  refine ⟨fun d h => (reads_toJson h).parse_render, inLine_jsonLine, fun ds => ?_⟩
  have hnone : ∀ text ∈ ds.map jsonLine, '\n' ∉ text.toList := by
    rw [List.forall_mem_map]
    intro d _ hmem
    have hcode := (inLine_jsonLine d '\n' hmem).1
    exact absurd hcode (by decide)
  rw [CommandLine.printed, CommandLine.splitOn_lines hnone, List.map_map]
  rfl

/-- A diagnostic with a pair, a quote, a newline and a lonely last character of the basic plane in its
texts, and with a negative coordinate. -/
def unruly : Diagnostic where
  span := ⟨⟨-10, 0⟩, ⟨2, 405⟩⟩
  message := "say \"\\n\"\n\x7f"
  severity := .warning
  file := "😀/\uffff.R"

theorem parse_jsonLine_unruly : unruly.span.Short ∧ Json.parse unruly.jsonLine = .ok unruly.toJson
    ∧ (CommandLine.printed .json [unruly, unruly]).toList.splitOn '\n'
      = [unruly.jsonLine.toList, unruly.jsonLine.toList, []] := by
  have hshort : unruly.span.Short := ⟨by decide, by decide, by decide, by decide⟩
  exact ⟨hshort, parse_jsonLine.1 unruly hshort, parse_jsonLine.2.2 [unruly, unruly]⟩

end Diagnostic

end TailLint
