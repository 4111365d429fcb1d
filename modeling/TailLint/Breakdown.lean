import TailLint.Json.Reader
import TailLint.Text.Utf8

/-!
# Refusals and breakdowns

What is loaded may be refused, and then the user is told why in the words of the loader
that refused it.  Four faults lie below every loader: a path that cannot be asked for,
bytes that are no text, an integer too long to be read, and an integer too long to be
written.  No loader has words for them, so they are kept apart from the refusals and end
the whole run.

An integer has to be written where it becomes a leaf of a tree (`writtenInt`), and where a
refusal shows it.  A refusal is put into words when it arises, so one that would have to
show an integer that cannot be written does not come about: it breaks down instead
(`Fault.ofRefusal`).
-/

namespace TailLint

/-- A fault below every loader. -/
inductive Breakdown where
  /-- A path with the character in it that ends names. -/
  | nullInPath
  /-- Bytes that are no text. -/
  | undecodable (cause : Text.Utf8.DecodeError)
  /-- An integer with too many digits to be read. -/
  | hugeInteger (digits : Nat)
  /-- An integer with too many digits to be written. -/
  | unwritableInteger
  deriving DecidableEq

namespace Breakdown

/-- The wording of a breakdown. -/
def text : Breakdown → String
  | .nullInPath => "embedded null byte"
  | .undecodable cause => cause.text
  | .hugeInteger digits => (Json.ParseError.hugeInteger digits).text
  | .unwritableInteger =>
    s!"Exceeds the limit ({Numeral.maxWholeDigits} digits) for integer string conversion; "
      ++ "use sys.set_int_max_str_digits() to increase the limit"

end Breakdown

/-- Why nothing was loaded, where `ε` is what the loader says itself. -/
inductive Fault (ε : Type) where
  | refused (cause : ε)
  | broken (cause : Breakdown)

namespace Fault

variable {ε : Type}

/-- What becomes of a refusal; `writable` says whether all that it shows can be written. -/
def ofRefusal (cause : ε) (writable : Prop) [Decidable writable] : Fault ε :=
  if writable then .refused cause else .broken .unwritableInteger

theorem ofRefusal_eq_refused {cause e : ε} {writable : Prop} [Decidable writable]
    (h : ofRefusal cause writable = .refused e) : writable ∧ cause = e := by
  unfold ofRefusal at h
  split at h
  · next hwritable => exact ⟨hwritable, refused.inj h⟩
  · cases h

theorem ofRefusal_eq_broken {cause : ε} {writable : Prop} [Decidable writable]
    {breakdown : Breakdown} (h : ofRefusal cause writable = .broken breakdown) :
    ¬ writable ∧ breakdown = .unwritableInteger := by
  unfold ofRefusal at h
  split at h
  · cases h
  · next hwritable => exact ⟨hwritable, (broken.inj h).symm⟩

end Fault

/-- The decimal text of an integer, if it can be written. -/
def writtenInt (n : Int) : Except Breakdown String :=
  if ShortInt n then .ok (String.ofList (Text.intText n)) else .error .unwritableInteger

theorem writtenInt_of_short {n : Int} (h : ShortInt n) :
    writtenInt n = .ok (String.ofList (Text.intText n)) := if_pos h

theorem writtenInt_of_long {n : Int} (h : ¬ ShortInt n) :
    writtenInt n = .error .unwritableInteger := if_neg h

end TailLint
