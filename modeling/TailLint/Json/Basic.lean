import TailLint.Number.Numeral
import TailLint.Number.Shortest
import TailLint.Text.Quoted

/-!
# JSON values

Configurations and findings are JSON.  The members of an object keep the order in
which they were written, because messages show them in that order, and a key
stands in an object once: writing it again replaces its value and leaves its place
(`put`).  Whole numbers and binary64 numbers are different values.

Messages show a value in a notation of their own (`display`), with text between
quotes as `Text.quoted` writes it.  A value can be shown if all integers in it can be
written (`Short`).
-/

namespace TailLint

/-- A JSON value. -/
inductive Json where
  | null
  | boolean (value : Bool)
  | integer (value : Int)
  | float (value : Binary64)
  | string (value : String)
  | array (items : List Json)
  | object (members : List (String × Json))
  deriving Inhabited

namespace Json

/-! ## Members of an object -/

/-- The value under a key in a list of members. -/
def lookup? (key : String) (members : List (String × Json)) : Option Json :=
  (members.find? (·.1 = key)).map (·.2)

/-- The members with a value under a key: in the place of the old value if there is
one, at the end otherwise. -/
def put (key : String) (value : Json) : List (String × Json) → List (String × Json)
  | [] => [(key, value)]
  | (k, v) :: rest => if k = key then (key, value) :: rest else (k, v) :: put key value rest

/-- The value under a key, of a value that need not be an object. -/
def get? (key : String) : Json → Option Json
  | .object members => lookup? key members
  | _ => none

/-- What was put under a key is found under it. -/
@[simp] theorem lookup?_put_self (key : String) (value : Json) :
    ∀ members : List (String × Json), lookup? key (put key value members) = some value
  | [] => by simp [put, lookup?]
  | (k, v) :: rest => by
    have ih := lookup?_put_self key value rest
    by_cases h : k = key
    · simp [put, lookup?, h]
    · simpa [put, lookup?, h] using ih

/-- What was put under a key changes nothing under another. -/
theorem lookup?_put_of_ne {key other : String} (value : Json) (h : other ≠ key) :
    ∀ members : List (String × Json), lookup? other (put key value members) = lookup? other members
  | [] => by simp [put, lookup?, Ne.symm h]
  | (k, v) :: rest => by
    have ih := lookup?_put_of_ne value h rest
    by_cases hk : k = key
    · subst hk
      simp [put, lookup?, Ne.symm h]
    · by_cases ho : k = other
      · subst ho
        simp [put, lookup?, hk]
      · simpa [put, lookup?, hk, ho] using ih

/-! ## Values in messages -/

/-- The word by which messages name the kind of a value. -/
def kindWord : Json → String
  | .null => "NoneType"
  | .boolean _ => "bool"
  | .integer _ => "int"
  | .float _ => "float"
  | .string _ => "str"
  | .array _ => "list"
  | .object _ => "dict"

mutual

/-- A value as messages show it. -/
def display : Json → String
  | .null => "None"
  | .boolean value => if value then "True" else "False"
  | .integer value => String.ofList (Text.intText value)
  | .float value => value.text
  | .string value => Text.quoted value
  | .array items => "[" ++ ", ".intercalate (displayItems items) ++ "]"
  | .object members => "\x7b" ++ ", ".intercalate (displayMembers members) ++ "\x7d"

/-- The items of an array, each as messages show it. -/
def displayItems : List Json → List String
  | [] => []
  | item :: rest => display item :: displayItems rest

/-- The members of an object, each as messages show it. -/
def displayMembers : List (String × Json) → List String
  | [] => []
  | (key, value) :: rest => (Text.quoted key ++ ": " ++ display value) :: displayMembers rest

end

mutual

/-- Whether all integers in a value are short. -/
def Short : Json → Prop
  | .integer value => ShortInt value
  | .array items => ShortItems items
  | .object members => ShortMembers members
  | _ => True

/-- Whether all integers in the items of an array are short. -/
def ShortItems : List Json → Prop
  | [] => True
  | item :: rest => item.Short ∧ ShortItems rest

/-- Whether all integers in the members of an object are short. -/
def ShortMembers : List (String × Json) → Prop
  | [] => True
  | (_, value) :: rest => value.Short ∧ ShortMembers rest

end

mutual

instance decidableShort : (value : Json) → Decidable value.Short
  | .integer value => inferInstanceAs (Decidable (ShortInt value))
  | .array items => decidableShortItems items
  | .object members => decidableShortMembers members
  | .null | .boolean _ | .float _ | .string _ => .isTrue trivial

instance decidableShortItems : (items : List Json) → Decidable (ShortItems items)
  | [] => .isTrue trivial
  | item :: rest => @instDecidableAnd _ _ (decidableShort item) (decidableShortItems rest)

instance decidableShortMembers : (members : List (String × Json)) → Decidable (ShortMembers members)
  | [] => .isTrue trivial
  | (_, value) :: rest =>
    @instDecidableAnd _ _ (decidableShort value) (decidableShortMembers rest)

end

theorem shortItems_iff {items : List Json} : ShortItems items ↔ ∀ item ∈ items, item.Short := by
  induction items with
  | nil => simp [ShortItems]
  | cons item rest ih => simp [ShortItems, ih]

theorem shortMembers_iff {members : List (String × Json)} :
    ShortMembers members ↔ ∀ member ∈ members, member.2.Short := by
  induction members with
  | nil => simp [ShortMembers]
  | cons member rest ih => simp [ShortMembers, ih]

theorem short_of_lookup? {key : String} {value : Json} {members : List (String × Json)}
    (hmembers : ShortMembers members) (h : lookup? key members = some value) : value.Short := by
  obtain ⟨member, hmember, rfl⟩ := Option.map_eq_some_iff.mp h
  exact shortMembers_iff.mp hmembers member (List.mem_of_find?_eq_some hmember)

theorem shortMembers_put (key : String) {value : Json} {members : List (String × Json)}
    (hvalue : value.Short) (hmembers : ShortMembers members) :
    ShortMembers (put key value members) := by
  induction members with
  | nil => exact ⟨hvalue, trivial⟩
  | cons member rest ih =>
    obtain ⟨k, v⟩ := member
    by_cases hk : k = key
    · simp only [put, hk, if_true]
      exact ⟨hvalue, hmembers.2⟩
    · simp only [put, hk, if_false]
      exact ⟨hmembers.1, ih hmembers.2⟩

end Json

end TailLint
