import TailLint.Policy.Config
import TailLint.Proofs.Reading

/-!
# Which configurations are accepted

A configuration is checked in pieces: that it is an object, then its keys, then its entries one
after the other, each by a reader of its own.  The first piece that is wrong is reported, and no
single function shows in which order that goes.  Here the rules are put down on their own, one
entry at a time (`ConfigEntry.takes`), and the readers are held against them.

The readers never ask whether an entry is there.  An entry that is not given is replaced by a value
that it takes (`Settings.takes_default`), and so it is never the one to blame.

To be blamed is not yet to be named.  A refusal shows the value that it is about, and a value with
an integer in it that is too long cannot be shown.  For such a value there is no refusal at all but
a breakdown, although the configuration is as wrong as any other (`ConfigEntry.Accuses`).  No text
is that unlucky, as an integer of that length is not read either; it takes a value that was made in
some other way.

* `Settings.Checks` --- a step goes through for what an entry takes, and otherwise accuses the
  entry;
* `Policy.accuses_of_build` --- the entry that is accused is the first in `ConfigEntry.all` that
  does not take its value, because the steps stand in that order;
* `Policy.least_of_unknownKeys` --- the unknown key that is named is the least;
* `Policy.broken_iff` --- a value breaks down when it is the accused entry that cannot be shown.
-/

namespace TailLint

/-! ## The rules -/

namespace Json

/-- Whether a value is a string that is not empty. -/
def isName : Json → Bool
  | .string text => text ≠ ""
  | _ => false

/-- Whether a value lists a name, as an item or as a key. -/
def Lists (value : Json) (name : String) : Prop :=
  match value with
  | .array items => .string name ∈ items
  | .object members => name ∈ members.map (·.1)
  | _ => False

end Json

/-- The entries that a configuration may have. -/
inductive ConfigEntry where
  | returnStyle
  | names (entry : NameEntry)
  | allowImplicitElse
  deriving DecidableEq

namespace ConfigEntry

/-- All entries, in the order in which faults are looked for. -/
def all : List ConfigEntry :=
  [.returnStyle, .names .returnFunctions, .names .except, .allowImplicitElse]

/-- The key of an entry. -/
def key : ConfigEntry → String
  | .returnStyle => "return_style"
  | .names entry => entry.key
  | .allowImplicitElse => "allow_implicit_else"

/-- Which values an entry may have. -/
def takes : ConfigEntry → Json → Bool
  | .returnStyle, .string text => text = "implicit" || text = "explicit"
  | .names _, .null => true
  | .names _, .array items => items.all Json.isName
  | .names _, .object members => members.all fun member => member.1 ≠ ""
  | .allowImplicitElse, .boolean _ => true
  | _, _ => false

/-- What a refusal shows of the value of an entry: of what lists names the items that are none, and
otherwise the value. -/
def shown : ConfigEntry → Json → Json
  | .names _, .array items => .array (items.filter (!·.isName))
  | .names _, .object members =>
    .array ((members.map fun member => .string member.1).filter (!·.isName))
  | _, value => value

/-- Whether a fault lies with an entry that has the given value: it is a refusal that names the
entry, or the breakdown in place of that refusal if the value cannot be shown. -/
def Accuses (entry : ConfigEntry) (value : Json) (fault : Fault PolicyError) : Prop :=
  ∃ e : PolicyError, e.key? = some entry.key ∧ fault = .ofRefusal e (entry.shown value).Short

/-- Whether an entry is there with a value that it may not have. -/
def isFaulty (members : List (String × Json)) (entry : ConfigEntry) : Bool :=
  (Json.lookup? entry.key members).any fun value => !entry.takes value

/-- The keys of the entries are the keys that a configuration may have. -/
theorem exists_key_iff {key : String} :
    (∃ entry : ConfigEntry, entry.key = key) ↔ key ∈ configKeys := by
  constructor
  · rintro ⟨entry, rfl⟩
    cases entry with
    | names entry => cases entry <;> decide
    | _ => decide
  · intro h
    simp only [configKeys, List.mem_cons, List.not_mem_nil, or_false] at h
    rcases h with rfl | rfl | rfl | rfl
    · exact ⟨.allowImplicitElse, rfl⟩
    · exact ⟨.names .except, rfl⟩
    · exact ⟨.names .returnFunctions, rfl⟩
    · exact ⟨.returnStyle, rfl⟩

end ConfigEntry

/-- Whether a key stands among the members and belongs to no entry. -/
def IsUnknownKey (members : List (String × Json)) (key : String) : Prop :=
  key ∈ members.map (·.1) ∧ ∀ entry : ConfigEntry, entry.key ≠ key

/-- Whether a value is a configuration: an object without unknown keys and without faulty
entries. -/
def IsConfig (c : Json) : Prop :=
  ∃ members, c = .object members ∧ (∀ key, ¬ IsUnknownKey members key)
    ∧ ∀ entry : ConfigEntry, entry.isFaulty members = false

/-- What a policy has from the members of its configuration: style and flag as they are given, or
else the defaults, and the names that are given beside the fixed ones. -/
structure Describes (members : List (String × Json)) (p : Policy) : Prop where
  style : (Json.lookup? "return_style" members).getD (.string "implicit") = .string p.style.word
  flag : (Json.lookup? "allow_implicit_else" members).getD (.boolean true)
    = .boolean p.allowImplicitElse
  returns : ∀ name, name ∈ p.returnFunctions ↔ name ∈ baseReturnFunctions
    ∨ ∃ value, Json.lookup? "return_functions" members = some value ∧ value.Lists name
  excepts : ∀ name, name ∈ p.exceptFunctions ↔ name ∈ lifecycleHooks
    ∨ ∃ value, Json.lookup? "except" members = some value ∧ value.Lists name

/-- What is to blame for the refusal of a value: nothing in particular when it is no object, else
the least of its unknown keys, else the first of its faulty entries. -/
inductive Blames : Json → Option String → Prop
  | notObject {c : Json} (h : ∀ members, c ≠ .object members) : Blames c none
  | unknownKey {members : List (String × Json)} {key : String} (unknown : IsUnknownKey members key)
      (least : ∀ other, IsUnknownKey members other → key ≤ other) :
      Blames (.object members) (some key)
  | faultyEntry {members : List (String × Json)} {entry : ConfigEntry}
      (known : ∀ key, ¬ IsUnknownKey members key)
      (first : ConfigEntry.all.find? (·.isFaulty members) = some entry) :
      Blames (.object members) (some entry.key)

/-- Whether what is to blame for a value is an entry whose value cannot be shown. -/
def Unshowable (c : Json) : Prop :=
  ∃ members entry value, c = .object members ∧ (∀ key, ¬ IsUnknownKey members key)
    ∧ ConfigEntry.all.find? (·.isFaulty members) = some entry
    ∧ Json.lookup? entry.key members = some value ∧ ¬ (entry.shown value).Short

/-! ## Readers of single values -/

theorem ReturnStyle.ofWord?_eq_some_iff {text : String} {style : ReturnStyle} :
    ofWord? text = some style ↔ text = style.word := by
  constructor
  · intro h
    have hword : style.word = text := by simpa using List.find?_some h
    exact hword.symm
  · rintro rfl
    exact ofWord?_word style

namespace Settings

theorem name?_eq_some_iff {value : Json} {name : String} :
    name? value = some name ↔ value = .string name ∧ value.isName = true := by
  cases value with
  | string text => by_cases h : text = "" <;> simp [name?, Json.isName, h]
  | _ => simp [name?]

theorem isNone_name? (value : Json) : (name? value).isNone = !value.isName := by
  cases value with
  | string text => by_cases h : text = "" <;> simp [name?, Json.isName, h]
  | _ => rfl

theorem readStyle_eq_ok_iff {value : Json} {style : ReturnStyle} :
    readStyle value = .ok style ↔ value = .string style.word := by
  constructor
  · intro h
    unfold readStyle at h
    split at h
    · next text =>
      split at h
      · next hword =>
        cases h
        rw [ReturnStyle.ofWord?_eq_some_iff.mp hword]
      · cases h
    · cases h
  · rintro rfl
    simp [readStyle]

theorem readFlag_eq_ok_iff {value : Json} {flag : Bool} :
    readFlag value = .ok flag ↔ value = .boolean flag := by
  cases value <;> simp [readFlag]

theorem takes_returnStyle_iff {value : Json} :
    ConfigEntry.takes .returnStyle value = true
      ↔ ∃ style : ReturnStyle, value = .string style.word := by
  constructor
  · intro h
    cases value with
    | string text =>
      simp only [ConfigEntry.takes, Bool.or_eq_true, decide_eq_true_eq] at h
      rcases h with rfl | rfl
      · exact ⟨.implicit, rfl⟩
      · exact ⟨.explicit, rfl⟩
    | _ => cases h
  · rintro ⟨style, rfl⟩
    cases style <;> rfl

/-- What an entry for names takes is what lists nothing but names. -/
theorem takes_names_iff {entry : NameEntry} {value : Json} :
    ConfigEntry.takes (.names entry) value = true
      ↔ ∃ items, listed? value = some items ∧ ∀ item ∈ items, item.isName = true := by
  cases value with
  | object members =>
    simp only [ConfigEntry.takes, listed?, List.all_eq_true, decide_eq_true_eq, Option.some.injEq,
      exists_eq_left', List.forall_mem_map, Json.isName]
  | _ => simp [ConfigEntry.takes, listed?]

theorem lists_iff {value : Json} {items : List Json} (h : listed? value = some items)
    (name : String) : value.Lists name ↔ .string name ∈ items := by
  cases value with
  | null => cases h; simp [Json.Lists]
  | array => cases h; rfl
  | object => cases h; simp [Json.Lists]
  | _ => cases h

/-- A value that lists nothing but names is read as the set of them. -/
theorem readNames_of_listed (entry : NameEntry) {value : Json} {items : List Json}
    (hlisted : listed? value = some items) (hnames : ∀ item ∈ items, item.isName = true) :
    readNames entry value = .ok (.ofList (items.filterMap name?)) := by
  have hgood : items.filter (fun item => (name? item).isNone) = [] := by
    simpa [isNone_name?] using hnames
  simp only [readNames, hlisted, hgood]

/-- Nothing else is read as a set of names. -/
theorem takes_of_readNames {entry : NameEntry} {value : Json} {names : NameSet}
    (h : readNames entry value = .ok names) : ConfigEntry.takes (.names entry) value = true := by
  unfold readNames at h
  split at h
  · cases h
  · next items hlisted =>
    split at h
    · next hgood =>
      exact takes_names_iff.mpr ⟨items, hlisted, by simpa [isNone_name?] using hgood⟩
    · cases h

theorem readNames_eq_ok_iff {entry : NameEntry} {value : Json} {names : NameSet} :
    readNames entry value = .ok names ↔ ConfigEntry.takes (.names entry) value = true
      ∧ ∀ name, name ∈ names ↔ value.Lists name := by
  rw [← and_iff_right_of_imp takes_of_readNames, and_congr_right_iff]
  intro htakes
  obtain ⟨items, hlisted, hnames⟩ := takes_names_iff.mp htakes
  have hmem (name : String) : name ∈ NameSet.ofList (items.filterMap name?) ↔ value.Lists name := by
    rw [NameSet.mem_ofList, lists_iff hlisted, List.mem_filterMap]
    constructor
    · rintro ⟨item, hitem, hname⟩
      rw [← (name?_eq_some_iff.mp hname).1]
      exact hitem
    · intro hname
      exact ⟨_, hname, name?_eq_some_iff.mpr ⟨rfl, hnames _ hname⟩⟩
  rw [readNames_of_listed entry hlisted hnames, Except.ok.injEq]
  constructor
  · rintro rfl
    exact hmem
  · intro h
    exact NameSet.ext fun name => (hmem name).trans (h name).symm

/-! ## Steps of the reading -/

/-- A step that checks an entry: it goes through for the values that the entry takes, and its faults
lie with the entry. -/
structure Checks {α : Type} (entry : ConfigEntry) (value : Json)
    (step : Except (Fault PolicyError) α) : Prop where
  ok_iff : (∃ result, step = .ok result) ↔ entry.takes value = true
  accuses_of_error : ∀ fault, step = .error fault → entry.Accuses value fault

theorem readStyle_checks (value : Json) : Checks .returnStyle value (readStyle value) where
  ok_iff := by
    simp only [readStyle_eq_ok_iff, takes_returnStyle_iff]
  accuses_of_error fault h := by
    unfold readStyle at h
    split at h
    · split at h
      · cases h
      · cases h
        exact ⟨_, rfl, rfl⟩
    · cases h
      exact ⟨_, rfl, rfl⟩

/-- A value that lists nothing is shown as it stands. -/
theorem shown_of_not_listed (entry : NameEntry) {value : Json} (h : listed? value = none) :
    (ConfigEntry.names entry).shown value = value := by
  cases value with
  | null | array | object => cases h
  | _ => rfl

/-- Of a value that lists something, the items that are no names are shown. -/
theorem shown_of_listed (entry : NameEntry) {value : Json} {items : List Json}
    (h : listed? value = some items) (hbad : items.filter (fun item => (name? item).isNone) ≠ []) :
    (ConfigEntry.names entry).shown value
      = .array (items.filter fun item => (name? item).isNone) := by
  simp only [isNone_name?] at hbad ⊢
  cases value with
  | null => cases h; exact absurd rfl hbad
  | array => cases h; rfl
  | object => cases h; rfl
  | _ => cases h

theorem readNames_checks (entry : NameEntry) (value : Json) :
    Checks (.names entry) value (readNames entry value) where
  ok_iff := by
    constructor
    · rintro ⟨names, h⟩
      exact takes_of_readNames h
    · intro h
      obtain ⟨items, hlisted, hnames⟩ := takes_names_iff.mp h
      exact ⟨_, readNames_of_listed entry hlisted hnames⟩
  accuses_of_error fault h := by
    unfold readNames at h
    split at h
    · next hlisted =>
      cases h
      refine ⟨.notNames entry value, rfl, ?_⟩
      rw [shown_of_not_listed entry hlisted]
      rfl
    · next items hlisted =>
      split at h
      · cases h
      · next hbad =>
        cases h
        refine ⟨.badNames entry (items.filter fun item => (name? item).isNone) value, rfl, ?_⟩
        rw [shown_of_listed entry hlisted hbad]
        rfl

theorem readFlag_checks (value : Json) : Checks .allowImplicitElse value (readFlag value) where
  ok_iff := by
    simp only [readFlag_eq_ok_iff]
    cases value <;> simp [ConfigEntry.takes]
  accuses_of_error fault h := by
    unfold readFlag at h
    split at h
    · cases h
    · cases h
      exact ⟨_, rfl, rfl⟩

/-- A reading that starts with a check and fails is failed by the check or goes on. -/
theorem Checks.cases_of_error {α β : Type} {entry : ConfigEntry} {value : Json}
    {step : Except (Fault PolicyError) α} {next : α → Except (Fault PolicyError) β}
    {fault : Fault PolicyError} (hstep : Checks entry value step)
    (h : step >>= next = .error fault) :
    (entry.takes value = false ∧ entry.Accuses value fault)
      ∨ (entry.takes value = true ∧ ∃ result, next result = .error fault) := by
  cases hresult : step with
  | error fault' =>
    rw [hresult] at h
    obtain rfl : fault' = fault := Except.error.inj h
    refine Or.inl ⟨?_, hstep.accuses_of_error _ hresult⟩
    rw [Bool.eq_false_iff, Ne, ← hstep.ok_iff, hresult]
    rintro ⟨result, hok⟩
    cases hok
  | ok result =>
    rw [hresult] at h
    exact Or.inr ⟨hstep.ok_iff.mp ⟨result, hresult⟩, result, h⟩

/-! ## The readers together -/

/-- The value of an entry. -/
def value (s : Settings) : ConfigEntry → Json
  | .returnStyle => s.style
  | .names .returnFunctions => s.returnFunctions
  | .names .except => s.except
  | .allowImplicitElse => s.allowImplicitElse

/-- Every entry takes what stands for it when it is not given. -/
theorem takes_default (entry : ConfigEntry) : entry.takes (({} : Settings).value entry) = true := by
  cases entry with
  | names entry => cases entry <;> rfl
  | _ => rfl

theorem value_ofMembers (members : List (String × Json)) (entry : ConfigEntry) :
    (ofMembers members).value entry
      = (Json.lookup? entry.key members).getD (({} : Settings).value entry) := by
  cases entry with
  | names entry => cases entry <;> rfl
  | _ => rfl

/-- Only an entry that is given can be faulty. -/
theorem takes_value_ofMembers (members : List (String × Json)) (entry : ConfigEntry) :
    entry.takes ((ofMembers members).value entry) = !entry.isFaulty members := by
  rw [value_ofMembers, ConfigEntry.isFaulty]
  cases Json.lookup? entry.key members with
  | none => simp [takes_default]
  | some value => simp

end Settings

namespace Policy

open Settings

theorem build_eq_ok_iff {s : Settings} {p : Policy} :
    build s = .ok p ↔ ∃ style returns excepts flag, readStyle s.style = .ok style
      ∧ readNames .returnFunctions s.returnFunctions = .ok returns
      ∧ readNames .except s.except = .ok excepts
      ∧ readFlag s.allowImplicitElse = .ok flag ∧ p = .of style flag returns excepts := by
  simp only [build, bind_eq_ok_iff]
  constructor
  · rintro ⟨style, hstyle, returns, hreturns, excepts, hexcepts, flag, hflag, h⟩
    exact ⟨style, returns, excepts, flag, hstyle, hreturns, hexcepts, hflag, (Except.ok.inj h).symm⟩
  · rintro ⟨style, returns, excepts, flag, hstyle, hreturns, hexcepts, hflag, rfl⟩
    exact ⟨style, hstyle, returns, hreturns, excepts, hexcepts, flag, hflag, rfl⟩

/-- Settings make a policy when every entry takes its value. -/
theorem exists_build_iff {s : Settings} :
    (∃ p, build s = .ok p) ↔ ∀ entry : ConfigEntry, entry.takes (s.value entry) = true := by
  constructor
  · rintro ⟨p, h⟩
    obtain ⟨style, returns, excepts, flag, hstyle, hreturns, hexcepts, hflag, -⟩ :=
      build_eq_ok_iff.mp h
    intro entry
    match entry with
    | .returnStyle => exact (readStyle_checks _).ok_iff.mp ⟨style, hstyle⟩
    | .names .returnFunctions => exact (readNames_checks _ _).ok_iff.mp ⟨returns, hreturns⟩
    | .names .except => exact (readNames_checks _ _).ok_iff.mp ⟨excepts, hexcepts⟩
    | .allowImplicitElse => exact (readFlag_checks _).ok_iff.mp ⟨flag, hflag⟩
  · intro h
    obtain ⟨style, hstyle⟩ := (readStyle_checks _).ok_iff.mpr (h .returnStyle)
    obtain ⟨returns, hreturns⟩ := (readNames_checks _ _).ok_iff.mpr (h (.names .returnFunctions))
    obtain ⟨excepts, hexcepts⟩ := (readNames_checks _ _).ok_iff.mpr (h (.names .except))
    obtain ⟨flag, hflag⟩ := (readFlag_checks _).ok_iff.mpr (h .allowImplicitElse)
    exact ⟨_, build_eq_ok_iff.mpr
      ⟨style, returns, excepts, flag, hstyle, hreturns, hexcepts, hflag, rfl⟩⟩

/-- A fault of settings lies with the first entry that does not take its value. -/
theorem accuses_of_build {s : Settings} {fault : Fault PolicyError} (h : build s = .error fault) :
    ∃ entry, ConfigEntry.all.find? (fun entry => !entry.takes (s.value entry)) = some entry
      ∧ entry.Accuses (s.value entry) fault := by
  -- One step after the other: it fails, and all before it were taken, or it hands over.
  obtain ⟨hstyle, hfault⟩ | ⟨hstyle, style, h⟩ := (readStyle_checks s.style).cases_of_error h
  · exact ⟨.returnStyle, by simp [ConfigEntry.all, value, hstyle], hfault⟩
  obtain ⟨hreturns, hfault⟩ | ⟨hreturns, returns, h⟩ :=
    (readNames_checks .returnFunctions s.returnFunctions).cases_of_error h
  · exact ⟨.names .returnFunctions, by simp [ConfigEntry.all, value, hstyle, hreturns], hfault⟩
  obtain ⟨hexcepts, hfault⟩ | ⟨hexcepts, excepts, h⟩ :=
    (readNames_checks .except s.except).cases_of_error h
  · exact ⟨.names .except, by simp [ConfigEntry.all, value, hstyle, hreturns, hexcepts], hfault⟩
  obtain ⟨hflag, hfault⟩ | ⟨-, flag, h⟩ := (readFlag_checks s.allowImplicitElse).cases_of_error h
  · exact ⟨.allowImplicitElse,
      by simp [ConfigEntry.all, value, hstyle, hreturns, hexcepts, hflag], hfault⟩
  · cases h

/-! ## Keys -/

theorem mem_unknownKeys {members : List (String × Json)} {key : String} :
    key ∈ unknownKeys members ↔ IsUnknownKey members key := by
  rw [unknownKeys, List.mem_filter, ← NameSet.mem_def, NameSet.mem_ofList, IsUnknownKey,
    ← not_exists, ConfigEntry.exists_key_iff]
  simp

theorem pairwise_unknownKeys (members : List (String × Json)) :
    (unknownKeys members).Pairwise (· < ·) :=
  (NameSet.sorted _).filter _

theorem unknownKeys_eq_nil_iff {members : List (String × Json)} :
    unknownKeys members = [] ↔ ∀ key, ¬ IsUnknownKey members key := by
  simp only [List.eq_nil_iff_forall_not_mem, mem_unknownKeys]

/-- The unknown key that is named is the least. -/
theorem least_of_unknownKeys {members : List (String × Json)} {first : String}
    {others : List String} (h : unknownKeys members = first :: others) :
    IsUnknownKey members first ∧ ∀ other, IsUnknownKey members other → first ≤ other := by
  simp only [← mem_unknownKeys, h]
  refine ⟨List.mem_cons_self, fun other hother => ?_⟩
  have hsorted := pairwise_unknownKeys members
  rw [h, List.pairwise_cons] at hsorted
  rcases List.mem_cons.mp hother with rfl | hother
  · exact String.le_refl _
  · refine String.not_lt.mp fun hlt => ?_
    exact String.lt_irrefl _ (String.lt_trans hlt (hsorted.1 other hother))

/-! ## Configurations -/

/-- Names are listed only where they are given. -/
theorem lists_value_ofMembers (members : List (String × Json)) (entry : NameEntry) (name : String) :
    ((Settings.ofMembers members).value (.names entry)).Lists name
      ↔ ∃ value, Json.lookup? entry.key members = some value ∧ value.Lists name := by
  rw [value_ofMembers, ConfigEntry.key]
  cases Json.lookup? entry.key members with
  | none =>
    have hdefault : ¬ (({} : Settings).value (.names entry)).Lists name := by
      cases entry <;> exact id
    simpa using hdefault
  | some value => simp

/-- A policy that is read from members has what they describe. -/
theorem describes_of_build {members : List (String × Json)} {p : Policy}
    (h : build (Settings.ofMembers members) = .ok p) : Describes members p := by
  obtain ⟨style, returns, excepts, flag, hstyle, hreturns, hexcepts, hflag, rfl⟩ :=
    build_eq_ok_iff.mp h
  refine ⟨readStyle_eq_ok_iff.mp hstyle, readFlag_eq_ok_iff.mp hflag, fun name => ?_,
    fun name => ?_⟩
  · rw [of, NameSet.mem_union, (readNames_eq_ok_iff.mp hreturns).2]
    exact or_congr_right (lists_value_ofMembers members .returnFunctions name)
  · rw [of, NameSet.mem_union, (readNames_eq_ok_iff.mp hexcepts).2]
    exact or_congr_right (lists_value_ofMembers members .except name)

/-- A policy is read from an object without unknown keys, and from the settings in it. -/
theorem ofConfig_eq_ok_iff {c : Json} {p : Policy} :
    ofConfig c = .ok p ↔ ∃ members, c = .object members ∧ unknownKeys members = []
      ∧ build (Settings.ofMembers members) = .ok p := by
  cases c with
  | object members => cases hunknown : unknownKeys members <;> simp [ofConfig, hunknown]
  | _ => simp [ofConfig]

theorem exists_ofConfig_iff {c : Json} : (∃ p, ofConfig c = .ok p) ↔ IsConfig c := by
  simp only [ofConfig_eq_ok_iff, IsConfig, ← unknownKeys_eq_nil_iff]
  rw [exists_comm]
  refine exists_congr fun members => ?_
  simp only [exists_and_left, exists_build_iff, takes_value_ofMembers, Bool.not_eq_true']

/-- The value of a faulty entry is the one that is given. -/
theorem exists_value_of_faulty {members : List (String × Json)} {entry : ConfigEntry}
    (h : ConfigEntry.all.find? (·.isFaulty members) = some entry) :
    ∃ value, Json.lookup? entry.key members = some value
      ∧ (Settings.ofMembers members).value entry = value := by
  have hfaulty := List.find?_some h
  rw [ConfigEntry.isFaulty, Option.any_eq_true] at hfaulty
  obtain ⟨value, hvalue, -⟩ := hfaulty
  exact ⟨value, hvalue, by rw [value_ofMembers, hvalue, Option.getD_some]⟩

/-- Members fail for their least unknown key, or else for their first faulty entry. -/
theorem cases_of_object {members : List (String × Json)} {fault : Fault PolicyError}
    (h : ofConfig (.object members) = .error fault) :
    (∃ first others, unknownKeys members = first :: others
        ∧ fault = .refused (.unknownKeys first others))
      ∨ (unknownKeys members = [] ∧ ∃ entry value,
        ConfigEntry.all.find? (·.isFaulty members) = some entry
          ∧ Json.lookup? entry.key members = some value ∧ entry.Accuses value fault) := by
  cases hunknown : unknownKeys members with
  | cons first others =>
    simp only [ofConfig, hunknown] at h
    cases h
    exact Or.inl ⟨first, others, rfl, rfl⟩
  | nil =>
    simp only [ofConfig, hunknown] at h
    obtain ⟨entry, hfirst, hfault⟩ := accuses_of_build h
    simp only [takes_value_ofMembers, Bool.not_not] at hfirst
    obtain ⟨value, hvalue, hsettings⟩ := exists_value_of_faulty hfirst
    rw [hsettings] at hfault
    exact Or.inr ⟨rfl, entry, value, hfirst, hvalue, hfault⟩

/-- A refusal says what is to blame. -/
theorem blames_of_refused {c : Json} {e : PolicyError} (h : ofConfig c = .error (.refused e)) :
    Blames c e.key? := by
  cases c with
  | object members =>
    obtain ⟨first, others, hunknown, hfault⟩
      | ⟨hunknown, entry, value, hfirst, -, e', hkey, hfault⟩ := cases_of_object h
    · obtain ⟨hfirst, hleast⟩ := least_of_unknownKeys hunknown
      cases hfault
      exact .unknownKey hfirst hleast
    · obtain ⟨-, rfl⟩ := Fault.ofRefusal_eq_refused hfault.symm
      rw [hkey]
      exact .faultyEntry (unknownKeys_eq_nil_iff.mp hunknown) hfirst
  | _ =>
    cases h
    exact .notObject nofun

/-- Reading a value breaks down when what is to blame cannot be shown, and in no other way. -/
theorem broken_iff {c : Json} {cause : Breakdown} :
    ofConfig c = .error (.broken cause) ↔ cause = .unwritableInteger ∧ Unshowable c := by
  constructor
  · intro h
    cases c with
    | object members =>
      obtain ⟨_, _, -, hfault⟩ | ⟨hunknown, entry, value, hfirst, hvalue, e, -, hfault⟩ :=
        cases_of_object h
      · cases hfault
      · obtain ⟨hlong, rfl⟩ := Fault.ofRefusal_eq_broken hfault.symm
        exact ⟨rfl, members, entry, value, rfl, unknownKeys_eq_nil_iff.mp hunknown, hfirst, hvalue,
          hlong⟩
    | _ => cases h
  · rintro ⟨rfl, members, entry, value, rfl, hknown, hfirst, hvalue, hlong⟩
    cases hconfig : ofConfig (.object members) with
    | ok p =>
      obtain ⟨_, hmembers, -, hsound⟩ := exists_ofConfig_iff.mp ⟨p, hconfig⟩
      cases hmembers
      have hfaulty := List.find?_some hfirst
      rw [hsound entry] at hfaulty
      cases hfaulty
    | error fault =>
      obtain ⟨first, others, hunknown, -⟩ | ⟨-, entry', value', hfirst', hvalue', e, -, hfault⟩ :=
        cases_of_object hconfig
      · rw [unknownKeys_eq_nil_iff.mpr hknown] at hunknown
        cases hunknown
      · obtain rfl := Option.some.inj (hfirst.symm.trans hfirst')
        obtain rfl := Option.some.inj (hvalue.symm.trans hvalue')
        rw [hfault, Fault.ofRefusal, if_neg hlong]

/-- What a refusal shows of a short value is short. -/
theorem short_shown {value : Json} (h : value.Short) (entry : ConfigEntry) :
    (entry.shown value).Short := by
  unfold ConfigEntry.shown
  split
  · next items =>
    exact Json.shortItems_iff.mpr fun item hitem =>
      Json.shortItems_iff.mp h item (List.mem_filter.mp hitem).1
  · next members =>
    refine Json.shortItems_iff.mpr fun item hitem => ?_
    obtain ⟨member, -, rfl⟩ := List.mem_map.mp (List.mem_filter.mp hitem).1
    trivial
  · exact h

/-- A value without long integers can be shown, whatever is to blame. -/
theorem not_unshowable_of_short {c : Json} (h : c.Short) : ¬ Unshowable c := by
  rintro ⟨members, entry, value, rfl, -, -, hvalue, hlong⟩
  exact hlong (short_shown (Json.short_of_lookup? h hvalue) entry)

/-- A value without long integers fails only by a refusal. -/
theorem exists_refused_of_short {c : Json} (hshort : c.Short) {fault : Fault PolicyError}
    (h : ofConfig c = .error fault) : ∃ e, fault = .refused e := by
  cases fault with
  | refused e => exact ⟨e, rfl⟩
  | broken => exact absurd (broken_iff.mp h).2 (not_unshowable_of_short hshort)

/-- A value is accepted when it is a configuration, and the policy then has what its members
describe.  Otherwise a refusal says what is to blame, unless that is an entry whose value cannot be
shown: then, and only then, there is a breakdown in place of the refusal. -/
theorem ofConfig_outcomes (c : Json) :
    ((∃ p, ofConfig c = .ok p) ↔ IsConfig c)
      ∧ (∀ members p, c = .object members → ofConfig c = .ok p → Describes members p)
      ∧ (∀ e, ofConfig c = .error (.refused e) → Blames c e.key?)
      ∧ (∀ cause, ofConfig c = .error (.broken cause) ↔ cause = .unwritableInteger ∧ Unshowable c)
      ∧ (c.Short → ¬ Unshowable c) := by
  refine ⟨exists_ofConfig_iff, ?_, fun e => blames_of_refused, fun cause => broken_iff,
    not_unshowable_of_short⟩
  rintro members p rfl h
  obtain ⟨_, hmembers, -, hbuild⟩ := ofConfig_eq_ok_iff.mp h
  cases hmembers
  exact describes_of_build hbuild

/-- Names as the keys of an object, and a fixed name among those that are given. -/
def givenNames : List (String × Json) :=
  [("except", .object [("main", .null)]),
    ("return_functions", .array [.string "abort", .string "stop"])]

/-- Two faulty entries, the one that is looked at first standing behind the other. -/
def twoFaults : Json :=
  .object [("allow_implicit_else", .null), ("except", .array [.string ""])]

/-- The names are accepted, and of the two faults it is not the first to stand there that is to
blame. -/
theorem ofConfig_outcomes_samples :
    IsConfig (.object givenNames)
      ∧ (∃ p, ofConfig (.object givenNames) = .ok p ∧ Describes givenNames p)
      ∧ twoFaults.Short ∧ ¬ Unshowable twoFaults
      ∧ ∃ e, ofConfig twoFaults = .error (.refused e) ∧ Blames twoFaults e.key?
        ∧ e.key? = some "except" := by
  obtain ⟨hvalid, hdescribes, -⟩ := ofConfig_outcomes (.object givenNames)
  obtain ⟨-, -, hblames, -, hshowable⟩ := ofConfig_outcomes twoFaults
  have hshort : twoFaults.Short := ⟨trivial, ⟨trivial, trivial⟩, trivial⟩
  exact ⟨hvalid.mp ⟨_, rfl⟩, ⟨_, rfl, hdescribes _ _ rfl rfl⟩, hshort, hshowable hshort, _, rfl,
    hblames _ rfl, rfl⟩

/-- A style that is an integer, and one digit too long to be shown. -/
def longStyle : List (String × Json) := [("return_style", .integer (10 ^ 4300))]

/-- Reading it breaks down, although it is no configuration and its one entry is to blame. -/
theorem ofConfig_longStyle :
    ofConfig (.object longStyle) = .error (.broken .unwritableInteger)
      ∧ ¬ IsConfig (.object longStyle) ∧ Blames (.object longStyle) (some "return_style") := by
  have hknown (key : String) : ¬ IsUnknownKey longStyle key := by
    rintro ⟨hkey, hentry⟩
    obtain rfl : key = "return_style" := List.mem_singleton.mp hkey
    exact hentry .returnStyle rfl
  have hfirst : ConfigEntry.all.find? (·.isFaulty longStyle) = some .returnStyle := rfl
  have hlong : ¬ (ConfigEntry.returnStyle.shown (.integer (10 ^ 4300))).Short :=
    not_shortInt_ten_pow (Nat.le_refl _)
  have hbroken : ofConfig (.object longStyle) = .error (.broken .unwritableInteger) :=
    broken_iff.mpr ⟨rfl, longStyle, .returnStyle, _, rfl, hknown, hfirst, rfl, hlong⟩
  refine ⟨hbroken, fun hconfig => ?_, .faultyEntry hknown hfirst⟩
  obtain ⟨p, hp⟩ := exists_ofConfig_iff.mpr hconfig
  cases hp.symm.trans hbroken

end Policy

end TailLint
