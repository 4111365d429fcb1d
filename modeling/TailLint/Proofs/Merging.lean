import Mathlib
import TailLint.CommandLine.Run
import TailLint.Proofs.CanonicalForm

/-!
# Switches over a configuration file

The policy of a request comes from its configuration file, with the switches put over it.  Nothing is
put over a policy, though.  The policy of the file is written back as a configuration, from which the
fixed names are missing and in which the others stand in order; the switches are put into that, entry
by entry, and only where they are given; and the outcome is read as if somebody had written it.

What is carried through all of this is not a policy but what a configuration spells out: a style, a
flag and two lists of names that have not been looked at (`Draft`, `Draft.SpelledBy`).  Each step of
the merge changes the draft in an obvious way, and whether the draft makes a policy is asked once, at
the end.

* `Draft.SpelledBy.put` --- what putting one entry into a configuration does;
* `Draft.SpelledBy.merged` --- what the whole merge spells out;
* `Draft.SpelledBy.ofConfig_eq_ok_iff` --- a draft makes a policy when none of its names is empty.
-/

namespace TailLint

/-! ## Entries that are put into a configuration -/

namespace ConfigEntry

/-- An entry is found by its key. -/
theorem find?_key (entry : ConfigEntry) : all.find? (·.key = entry.key) = some entry := by
  cases entry with
  | names entry => cases entry <;> rfl
  | _ => rfl

theorem key_injective : Function.Injective key := by
  intro entry other h
  have hfound := find?_key entry
  rw [h, find?_key other] at hfound
  exact (Option.some.inj hfound).symm

end ConfigEntry

/-- The keys of members into which a value was put. -/
theorem Json.mem_keys_put {key other : String} {value : Json} {members : List (String × Json)} :
    other ∈ (put key value members).map (·.1) ↔ other = key ∨ other ∈ members.map (·.1) := by
  induction members with
  | nil => simp [put]
  | cons member rest ih =>
    obtain ⟨k, v⟩ := member
    by_cases h : k = key
    · simp [put, h]
    · simp only [put, h, if_false, List.map_cons, List.mem_cons, ih]
      tauto

namespace Settings

theorem value_put_self (entry : ConfigEntry) (given : Json) (members : List (String × Json)) :
    (ofMembers (Json.put entry.key given members)).value entry = given := by
  rw [value_ofMembers, Json.lookup?_put_self, Option.getD_some]

theorem value_put_of_ne {entry other : ConfigEntry} (h : other ≠ entry) (given : Json)
    (members : List (String × Json)) :
    (ofMembers (Json.put entry.key given members)).value other = (ofMembers members).value other := by
  rw [value_ofMembers, value_ofMembers,
    Json.lookup?_put_of_ne given fun hkey => h (ConfigEntry.key_injective hkey)]

/-- An entry that lists strings is read as the set of them when none of them is empty. -/
theorem readNames_listed_iff {entry : NameEntry} {given : Json} {names : List String}
    (h : listed? given = some (names.map .string)) {s : NameSet} :
    readNames entry given = .ok s ↔ "" ∉ names ∧ s = .ofList names := by
  have htakes : ConfigEntry.takes (.names entry) given = true ↔ "" ∉ names := by
    rw [takes_names_iff]
    simp only [h, Option.some.injEq, exists_eq_left', List.forall_mem_map, Json.isName,
      decide_eq_true_eq]
    exact ⟨fun hall hmem => hall "" hmem rfl, fun hnot name hmem heq => hnot (heq ▸ hmem)⟩
  have hlists (name : String) : given.Lists name ↔ name ∈ names := by
    rw [lists_iff h, List.mem_map]
    simp
  rw [readNames_eq_ok_iff, htakes, and_congr_right_iff]
  intro _
  simp only [hlists]
  constructor
  · intro hmem
    exact NameSet.ext fun name => (hmem name).trans NameSet.mem_ofList.symm
  · rintro rfl name
    exact NameSet.mem_ofList

end Settings

/-! ## Drafts -/

/-- What a configuration spells out. -/
structure Draft where
  style : ReturnStyle := .implicit
  allowImplicitElse : Bool := true
  names : NameEntry → List String := fun _ => []

namespace Draft

/-- The policy of a draft. -/
def policy (d : Draft) : Policy :=
  .of d.style d.allowImplicitElse (.ofList (d.names .returnFunctions)) (.ofList (d.names .except))

/-- A draft with more names for an entry. -/
def adding (d : Draft) (entry : NameEntry) (names : List String) : Draft :=
  { d with names := fun other => if other = entry then d.names other ++ names else d.names other }

theorem names_adding_self (d : Draft) (entry : NameEntry) (names : List String) :
    (d.adding entry names).names entry = d.names entry ++ names := if_pos rfl

theorem names_adding_of_ne {entry other : NameEntry} (h : other ≠ entry) (d : Draft)
    (names : List String) : (d.adding entry names).names other = d.names other := if_neg h

theorem adding_nil (d : Draft) (entry : NameEntry) : d.adding entry [] = d := by
  simp [adding]

/-- Whether a value spells out what a draft has for an entry. -/
def Spells (d : Draft) : ConfigEntry → Json → Prop
  | .returnStyle, given => given = .string d.style.word
  | .names entry, given => Settings.listed? given = some ((d.names entry).map .string)
  | .allowImplicitElse, given => given = .boolean d.allowImplicitElse

/-- Whether the members of a configuration spell out a draft, with every entry that is not given left
at its default. -/
structure SpelledBy (d : Draft) (members : List (String × Json)) : Prop where
  entries : ∀ entry, d.Spells entry ((Settings.ofMembers members).value entry)
  known : ∀ key ∈ members.map (·.1), key ∈ configKeys

theorem spelledBy_nil : ({} : Draft).SpelledBy [] := by
  refine ⟨fun entry => ?_, nofun⟩
  cases entry with
  | names entry => cases entry <;> rfl
  | _ => rfl

/-- The draft of a policy: its names are those that are not fixed. -/
def ofPolicy (p : Policy) : Draft where
  style := p.style
  allowImplicitElse := p.allowImplicitElse
  names
    | .returnFunctions => p.extraReturns
    | .except => p.extraExcepts

theorem policy_ofPolicy (p : Policy) : (ofPolicy p).policy = p := Policy.of_extras p

theorem spelledBy_toMembers (p : Policy) : (ofPolicy p).SpelledBy p.toMembers := by
  refine ⟨fun entry => ?_, by simp [Policy.toMembers, configKeys]⟩
  cases entry with
  | names entry => cases entry <;> rfl
  | _ => rfl

/-- A configuration makes the policy of what it spells out, provided that no name is empty. -/
theorem SpelledBy.ofConfig_eq_ok_iff {d : Draft} {members : List (String × Json)}
    (h : d.SpelledBy members) {p : Policy} :
    Policy.ofConfig (.object members) = .ok p ↔ (∀ entry, "" ∉ d.names entry) ∧ p = d.policy := by
  have hknown : Policy.unknownKeys members = [] := by
    refine Policy.unknownKeys_eq_nil_iff.mpr ?_
    rintro key ⟨hmem, hunknown⟩
    obtain ⟨entry, hentry⟩ := ConfigEntry.exists_key_iff.mpr (h.known key hmem)
    exact hunknown entry hentry
  let s := Settings.ofMembers members
  have hstyle : Settings.readStyle s.style = .ok d.style :=
    Settings.readStyle_eq_ok_iff.mpr (h.entries .returnStyle)
  have hflag : Settings.readFlag s.allowImplicitElse = .ok d.allowImplicitElse :=
    Settings.readFlag_eq_ok_iff.mpr (h.entries .allowImplicitElse)
  have hnames (entry : NameEntry) {names : NameSet} :
      Settings.readNames entry (s.value (.names entry)) = .ok names
        ↔ "" ∉ d.names entry ∧ names = .ofList (d.names entry) :=
    Settings.readNames_listed_iff (h.entries (.names entry))
  rw [Policy.ofConfig_eq_ok_iff]
  constructor
  · rintro ⟨_, heq, -, hbuild⟩
    cases heq
    obtain ⟨style, returns, excepts, flag, hs, hr, he, hf, rfl⟩ := Policy.build_eq_ok_iff.mp hbuild
    cases hstyle.symm.trans hs
    cases hflag.symm.trans hf
    obtain ⟨hreturns, rfl⟩ := (hnames .returnFunctions).mp hr
    obtain ⟨hexcepts, rfl⟩ := (hnames .except).mp he
    refine ⟨fun entry => ?_, rfl⟩
    cases entry with
    | returnFunctions => exact hreturns
    | except => exact hexcepts
  · rintro ⟨hnot, rfl⟩
    exact ⟨members, rfl, hknown, Policy.build_eq_ok_iff.mpr ⟨_, _, _, _, hstyle,
      (hnames .returnFunctions).mpr ⟨hnot _, rfl⟩, (hnames .except).mpr ⟨hnot _, rfl⟩, hflag, rfl⟩⟩

/-- Putting a value into a configuration changes the draft at that entry and nowhere else. -/
theorem SpelledBy.put {d d' : Draft} {members : List (String × Json)} (h : d.SpelledBy members)
    (entry : ConfigEntry) {given : Json} (hgiven : d'.Spells entry given)
    (hothers : ∀ other ≠ entry, ∀ value, d.Spells other value → d'.Spells other value) :
    d'.SpelledBy (Json.put entry.key given members) := by
  refine ⟨fun other => ?_, fun key hkey => ?_⟩
  · by_cases hother : other = entry
    · subst hother
      rwa [Settings.value_put_self]
    · rw [Settings.value_put_of_ne hother]
      exact hothers other hother _ (h.entries other)
  · rcases Json.mem_keys_put.mp hkey with rfl | hkey
    · exact ConfigEntry.exists_key_iff.mp ⟨entry, rfl⟩
    · exact h.known key hkey

end Draft

namespace CommandLine

/-! ## Switches -/

/-- The switches of a request that bear on its policy. -/
structure Flags where
  style : Option ReturnStyle := none
  noImplicitElse : Bool := false
  returns : List String := []
  excepts : List String := []

namespace Flags

/-- The names that the switches add to an entry. -/
def names (f : Flags) : NameEntry → List String
  | .returnFunctions => f.returns
  | .except => f.excepts

/-- Whether two choices of switches are the same but for the order of their names and for names that
are given more than once. -/
structure Alike (f g : Flags) : Prop where
  style : f.style = g.style
  noImplicitElse : f.noImplicitElse = g.noImplicitElse
  names : ∀ entry name, name ∈ f.names entry ↔ name ∈ g.names entry

/-- Whether a policy is another one with the switches put over it. -/
structure Overrides (f : Flags) (base p : Policy) : Prop where
  style : p.style = f.style.getD base.style
  flag : p.allowImplicitElse = if f.noImplicitElse then false else base.allowImplicitElse
  returns : p.returnFunctions = base.returnFunctions.union (.ofList f.returns)
  excepts : p.exceptFunctions = base.exceptFunctions.union (.ofList f.excepts)

end Flags

namespace LintRequest

/-- The request with other switches for its policy. -/
def withFlags (r : LintRequest) (f : Flags) : LintRequest :=
  { r with
    style := f.style.map fun style => some style.word
    noImplicitElse := f.noImplicitElse
    returnFunctions := f.returns.map some
    excepts := f.excepts.map some }

/-- The policy that the switches of a request are put over: that of its configuration file, or the
default one if it names none. -/
inductive StartsFrom (disk : Disk) (r : LintRequest) : Policy → Prop
  | file {path : String} {p : Policy} (hconfig : r.config = some path) (hpath : path ≠ "")
      (hparse : Policy.parseFile disk path = .ok p) : StartsFrom disk r p
  | default (hconfig : r.config = none ∨ r.config = some "") : StartsFrom disk r .default

end LintRequest

/-! ## Steps of the merge -/

/-- The members of a configuration with the value of the switch for the style, if it is given. -/
def putStyle (style : Option Value) (members : List (String × Json)) : List (String × Json) :=
  match style with
  | some style => Json.put "return_style" style.toJson members
  | none => members

/-- The members of a configuration with the flag taken back, if the switch for it is given. -/
def putFlag (noImplicitElse : Bool) (members : List (String × Json)) : List (String × Json) :=
  if noImplicitElse then Json.put "allow_implicit_else" (.boolean false) members else members

/-- The members of a configuration with the values of a switch added to an entry for names. -/
def addNames (entry : NameEntry) (names : List Value) (members : List (String × Json)) :
    List (String × Json) :=
  if names.isEmpty then members
  else
    let before := ((Json.lookup? entry.key members).bind Settings.listed?).getD []
    Json.put entry.key (.array (before ++ names.map Value.toJson)) members

theorem mergedConfig_eq (loaded : Option Policy) (r : LintRequest) :
    mergedConfig loaded r = .object (addNames .except r.excepts
      (addNames .returnFunctions r.returnFunctions (putFlag r.noImplicitElse
        (putStyle r.style ((loaded.map Policy.toMembers).getD []))))) := rfl

end CommandLine

namespace Draft

open CommandLine

variable {d : Draft} {members : List (String × Json)}

theorem SpelledBy.putStyle (h : d.SpelledBy members) (style : Option ReturnStyle) :
    SpelledBy { d with style := style.getD d.style }
      (putStyle (style.map fun style => some style.word) members) := by
  cases style with
  | none => exact h
  | some style =>
    refine h.put .returnStyle rfl fun other hother value hvalue => ?_
    cases other with
    | returnStyle => exact absurd rfl hother
    | _ => exact hvalue

theorem SpelledBy.putFlag (h : d.SpelledBy members) (noImplicitElse : Bool) :
    SpelledBy { d with allowImplicitElse := if noImplicitElse then false else d.allowImplicitElse }
      (putFlag noImplicitElse members) := by
  cases noImplicitElse with
  | false => exact h
  | true =>
    refine h.put .allowImplicitElse rfl fun other hother value hvalue => ?_
    cases other with
    | allowImplicitElse => exact absurd rfl hother
    | _ => exact hvalue

/-- The names that are there already. -/
theorem SpelledBy.before_eq (h : d.SpelledBy members) (entry : NameEntry) :
    ((Json.lookup? entry.key members).bind Settings.listed?).getD []
      = (d.names entry).map .string := by
  have hnames : Settings.listed? _ = _ := h.entries (.names entry)
  rw [Settings.value_ofMembers, ConfigEntry.key] at hnames
  cases hlookup : Json.lookup? entry.key members with
  | none =>
    have hdefault : Settings.listed? (({} : Settings).value (.names entry)) = some [] := by
      cases entry <;> rfl
    rw [hlookup, Option.getD_none, hdefault] at hnames
    exact Option.some.inj hnames
  | some given =>
    rw [hlookup, Option.getD_some] at hnames
    rw [Option.bind_some, hnames, Option.getD_some]

/-- The names of a switch stand behind those that are there. -/
theorem SpelledBy.addNames (h : d.SpelledBy members) (entry : NameEntry) (names : List String) :
    (d.adding entry names).SpelledBy (addNames entry (names.map some) members) := by
  by_cases hnil : names = []
  · subst hnil
    rw [adding_nil]
    exact h
  · have hsome : ¬ (names.map some).isEmpty = true := by simpa using hnil
    rw [CommandLine.addNames, if_neg hsome, h.before_eq]
    refine h.put (.names entry) ?_ fun other hother value hvalue => ?_
    · rw [Spells, names_adding_self, Settings.listed?]
      simp [Value.toJson]
    · cases other with
      | names other =>
        have hne : other ≠ entry := fun heq => hother (congrArg ConfigEntry.names heq)
        rw [Spells, names_adding_of_ne hne]
        exact hvalue
      | _ => exact hvalue

/-! ## The whole merge -/

/-- A draft with the switches put over it. -/
def merged (d : Draft) (f : Flags) : Draft :=
  ({ d with
    style := f.style.getD d.style
    allowImplicitElse := if f.noImplicitElse then false else d.allowImplicitElse
    : Draft }.adding .returnFunctions f.returns).adding .except f.excepts

theorem names_merged (d : Draft) (f : Flags) (entry : NameEntry) :
    (d.merged f).names entry = d.names entry ++ f.names entry := by
  cases entry <;> rfl

theorem SpelledBy.merged {loaded : Option Policy}
    (h : d.SpelledBy ((loaded.map Policy.toMembers).getD [])) (r : LintRequest) (f : Flags) :
    ∃ members, mergedConfig loaded (r.withFlags f) = .object members
      ∧ (d.merged f).SpelledBy members :=
  ⟨_, mergedConfig_eq loaded (r.withFlags f),
    (((h.putStyle f.style).putFlag f.noImplicitElse).addNames .returnFunctions f.returns).addNames
      .except f.excepts⟩

/-- The policy of the merged draft is that of the draft with the switches put over it. -/
theorem overrides_merged (d : Draft) (f : Flags) : f.Overrides d.policy (d.merged f).policy := by
  have hunion (fixed : NameSet) (names added : List String) :
      fixed.union (.ofList (names ++ added))
        = (fixed.union (.ofList names)).union (.ofList added) := by
    refine NameSet.ext fun name => ?_
    simp only [NameSet.mem_union, NameSet.mem_ofList, List.mem_append, or_assoc]
  refine ⟨rfl, rfl, ?_, ?_⟩
  · rw [policy, names_merged, names_merged]
    exact hunion _ _ _
  · rw [policy, names_merged, names_merged]
    exact hunion _ _ _

/-- Switches that are alike make the same policy. -/
theorem policy_merged_congr (d : Draft) {f g : Flags} (h : f.Alike g) :
    (d.merged f).policy = (d.merged g).policy := by
  have hset (entry : NameEntry) : NameSet.ofList ((d.merged f).names entry)
      = NameSet.ofList ((d.merged g).names entry) := by
    refine NameSet.ext fun name => ?_
    simp only [NameSet.mem_ofList, names_merged, List.mem_append, h.names entry name]
  have hstyle : (d.merged f).style = (d.merged g).style := by
    show f.style.getD d.style = g.style.getD d.style
    rw [h.style]
  have hflag : (d.merged f).allowImplicitElse = (d.merged g).allowImplicitElse := by
    show (if f.noImplicitElse then false else _) = if g.noImplicitElse then false else _
    rw [h.noImplicitElse]
  rw [policy, policy, hset, hset, hstyle, hflag]

end Draft

/-- A policy that a file holds comes from a configuration. -/
theorem Policy.exists_config_of_parseFile {disk : Disk} {path : String} {p : Policy}
    (h : parseFile disk path = .ok p) : ∃ config, ofConfig config = .ok p := by
  unfold parseFile at h
  split at h
  · cases h
  · cases h
  · cases h
  · split at h
    · cases h
    · cases h
    · next config _ => exact ⟨config, h⟩

/-- No name that a policy has beside the fixed ones is empty. -/
theorem Draft.not_mem_names_ofPolicy {p : Policy} (h : p.Named) (entry : NameEntry) :
    "" ∉ (ofPolicy p).names entry := by
  intro hmem
  cases entry with
  | returnFunctions => exact h.returns "" (NameSet.mem_without.mp hmem).1 rfl
  | except => exact h.excepts "" (NameSet.mem_without.mp hmem).1 rfl

namespace CommandLine

/-- What the switches of a request are put over, as a draft. -/
theorem LintRequest.StartsFrom.exists_draft {disk : Disk} {r : LintRequest} {base : Policy}
    (h : r.StartsFrom disk base) :
    ∃ (loaded : Option Policy) (d : Draft), loadedPolicy disk r = .ok loaded
      ∧ d.SpelledBy ((loaded.map Policy.toMembers).getD []) ∧ d.policy = base
      ∧ ∀ entry, "" ∉ d.names entry := by
  cases h with
  | file hconfig hpath hparse =>
    obtain ⟨config, hpolicy⟩ := Policy.exists_config_of_parseFile hparse
    have hnamed : base.Named := (Policy.Constructed.config hpolicy).named
    refine ⟨some base, .ofPolicy base, ?_, Draft.spelledBy_toMembers base,
      Draft.policy_ofPolicy base, Draft.not_mem_names_ofPolicy hnamed⟩
    simp [loadedPolicy, hconfig, hparse, Except.map]
  | default hconfig =>
    refine ⟨none, {}, ?_, Draft.spelledBy_nil, rfl, fun _ => List.not_mem_nil⟩
    rcases hconfig with hconfig | hconfig
    · simp [loadedPolicy, hconfig]
    · simp [loadedPolicy, hconfig]

/-- The policy of a request with switches is that of the merged draft, provided that no name in it is
empty. -/
theorem requestPolicy_eq_ok_iff {disk : Disk} {r : LintRequest} {loaded : Option Policy} {d : Draft}
    (hloaded : loadedPolicy disk r = .ok loaded)
    (hspelled : d.SpelledBy ((loaded.map Policy.toMembers).getD [])) (f : Flags) {p : Policy} :
    requestPolicy disk (r.withFlags f) = .ok p
      ↔ (∀ entry, "" ∉ (d.merged f).names entry) ∧ p = (d.merged f).policy := by
  obtain ⟨members, hconfig, hmerged⟩ := hspelled.merged r f
  have hsame : loadedPolicy disk (r.withFlags f) = .ok loaded := hloaded
  rw [← hmerged.ofConfig_eq_ok_iff, requestPolicy, hsame, ← hconfig]
  rfl

/-- Switches are put over the policy of the configuration file.  The outcome is a policy unless one of
the names that they give is empty; each switch that is given has the last word, names are added to
those that are there, and neither the order of the names nor their number matters. -/
theorem requestPolicy_withFlags {disk : Disk} {r : LintRequest} {base : Policy}
    (h : r.StartsFrom disk base) (f : Flags) :
    ((∃ p, requestPolicy disk (r.withFlags f) = .ok p) ↔ "" ∉ f.returns ∧ "" ∉ f.excepts)
      ∧ (∀ p, requestPolicy disk (r.withFlags f) = .ok p → f.Overrides base p)
      ∧ ∀ g : Flags, f.Alike g → ∀ p,
        requestPolicy disk (r.withFlags f) = .ok p ↔ requestPolicy disk (r.withFlags g) = .ok p := by
  obtain ⟨loaded, d, hloaded, hspelled, rfl, hnamed⟩ := h.exists_draft
  -- no name of the file is empty, so an empty name can only come from the switches
  have hempty (f : Flags) (entry : NameEntry) :
      "" ∉ (d.merged f).names entry ↔ "" ∉ f.names entry := by
    rw [Draft.names_merged, List.mem_append, or_iff_right (hnamed entry)]
  refine ⟨?_, ?_, ?_⟩
  · simp only [requestPolicy_eq_ok_iff hloaded hspelled, exists_and_left,
      exists_eq, and_true, hempty]
    exact ⟨fun hall => ⟨hall .returnFunctions, hall .except⟩, fun hboth entry => by
      cases entry with
      | returnFunctions => exact hboth.1
      | except => exact hboth.2⟩
  · intro p hp
    obtain ⟨-, rfl⟩ := (requestPolicy_eq_ok_iff hloaded hspelled f).mp hp
    exact d.overrides_merged f
  · intro g hg p
    simp only [requestPolicy_eq_ok_iff hloaded hspelled, hempty, hg.names,
      Draft.policy_merged_congr d hg]

/-- A configuration in which a name that is fixed anyway stands beside another one. -/
def hookDraft : Draft where
  names
    | .returnFunctions => []
    | .except => [".Last", "f"]

def hookDisk : Disk
  | "policy" => .ok ("\x7b\"except\": [\".Last\", \"f\"]\x7d".toList.map (·.toNat.toUInt8))
  | path => .error (.notFound path)

def hookRequest : LintRequest := { files := ["clean"], config := some "policy" }

theorem startsFrom_hookDisk : hookRequest.StartsFrom hookDisk hookDraft.policy := by
  have htext : hookDisk.readText "policy" = .ok "\x7b\"except\": [\".Last\", \"f\"]\x7d" := rfl
  have hjson : Json.parse "\x7b\"except\": [\".Last\", \"f\"]\x7d"
      = .ok (.object [("except", .array [.string ".Last", .string "f"])]) := by cbv
  have hspelled :
      hookDraft.SpelledBy [("except", .array [.string ".Last", .string "f"])] := by
    refine ⟨fun entry => ?_, by simp [configKeys]⟩
    cases entry with
    | names entry => cases entry <;> rfl
    | _ => rfl
  have hnamed (entry : NameEntry) : "" ∉ hookDraft.names entry := by
    cases entry <;> decide
  refine .file rfl (by decide) ?_
  rw [Policy.parseFile, htext]
  simp only [hjson]
  exact hspelled.ofConfig_eq_ok_iff.mpr ⟨hnamed, rfl⟩

/-- Switches that give fixed names and a name of the file once more. -/
def overlapping : Flags where
  style := some .explicit
  noImplicitElse := true
  returns := ["halt", "return", "halt"]
  excepts := ["g", "f", ".Last"]

/-- The same names, in another order. -/
def reordered : Flags :=
  { overlapping with returns := ["return", "halt"], excepts := [".Last", "f", "g", "f"] }

theorem requestPolicy_withFlags_overlapping :
    hookRequest.StartsFrom hookDisk hookDraft.policy ∧ overlapping.Alike reordered
      ∧ ∃ p, requestPolicy hookDisk (hookRequest.withFlags overlapping) = .ok p
        ∧ overlapping.Overrides hookDraft.policy p
        ∧ requestPolicy hookDisk (hookRequest.withFlags reordered) = .ok p := by
  have halike : overlapping.Alike reordered := by
    refine ⟨rfl, rfl, fun entry name => ?_⟩
    cases entry with
    | returnFunctions =>
      simp only [Flags.names, overlapping, reordered, List.mem_cons, List.not_mem_nil, or_false]
      tauto
    | except =>
      simp only [Flags.names, overlapping, reordered, List.mem_cons, List.not_mem_nil, or_false]
      tauto
  obtain ⟨hexists, hoverrides, hsame⟩ := requestPolicy_withFlags startsFrom_hookDisk overlapping
  obtain ⟨p, hp⟩ := hexists.mpr (by decide)
  exact ⟨startsFrom_hookDisk, halike, p, hp, hoverrides p hp, (hsame _ halike p).mp hp⟩

end CommandLine

end TailLint
