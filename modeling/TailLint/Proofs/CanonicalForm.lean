import TailLint.Proofs.Configuration

/-!
# The configuration of a policy

A policy is written back as a configuration: its style, its flag, and the names that are not fixed,
in increasing order.  Whatever the policy was made from, its configuration is one and the same.
Names that were given twice, names that are fixed anyway, objects in the place of arrays and entries
that were left out all leave no trace, and yet the policy can be read back.

It can be read back only because none of its names is empty, for an empty name is refused.  That is
no part of the type of policies.  It is what every way of making one ensures (`Policy.Constructed`),
and what `Policy.ofConfig_toConfig` rests on.

* `Policy.Constructed.named` --- whatever construction gives a policy, no name of it is empty;
* `Policy.of_extras` --- the fixed names and the others together are all the names of a policy.
-/

namespace TailLint

/-- If a set is a part of another one, then it makes up the other one together with what the other
one has beside it. -/
theorem NameSet.mem_union_ofList_without {s t : NameSet} (h : ∀ name ∈ s, name ∈ t)
    (name : String) : name ∈ s.union (.ofList (t.without s)) ↔ name ∈ t := by
  rw [mem_union, mem_ofList, mem_without]
  constructor
  · rintro (hname | hname)
    · exact h name hname
    · exact hname.1
  · intro hname
    by_cases hs : name ∈ s
    · exact Or.inl hs
    · exact Or.inr ⟨hname, hs⟩

namespace Policy

open Settings

/-! ## Policies that can be made -/

/-- Whether some construction gives a policy: from settings, with the flag looked at before the
names or after them, or from a configuration. -/
inductive Constructed : Policy → Prop
  | flagFirst {s : Settings} {p : Policy} (h : buildFlagFirst s = .ok p) : Constructed p
  | flagLast {s : Settings} {p : Policy} (h : build s = .ok p) : Constructed p
  | config {c : Json} {p : Policy} (h : ofConfig c = .ok p) : Constructed p

/-- Whether no name of a policy is empty. -/
structure Named (p : Policy) : Prop where
  returns : ∀ name ∈ p.returnFunctions, name ≠ ""
  excepts : ∀ name ∈ p.exceptFunctions, name ≠ ""

/-- When the flag is looked at makes a difference for refusals only. -/
theorem buildFlagFirst_eq_ok_iff {s : Settings} {p : Policy} :
    buildFlagFirst s = .ok p ↔ build s = .ok p := by
  rw [build_eq_ok_iff]
  simp only [buildFlagFirst, bind_eq_ok_iff]
  constructor
  · rintro ⟨style, hstyle, flag, hflag, returns, hreturns, excepts, hexcepts, h⟩
    exact ⟨style, returns, excepts, flag, hstyle, hreturns, hexcepts, hflag,
      (Except.ok.inj h).symm⟩
  · rintro ⟨style, returns, excepts, flag, hstyle, hreturns, hexcepts, hflag, rfl⟩
    exact ⟨style, hstyle, flag, hflag, returns, hreturns, excepts, hexcepts, rfl⟩

/-- A name that is read from an entry is not empty. -/
theorem ne_empty_of_readNames {entry : NameEntry} {value : Json} {names : NameSet}
    (h : readNames entry value = .ok names) {name : String} (hname : name ∈ names) : name ≠ "" := by
  obtain ⟨htakes, hmem⟩ := readNames_eq_ok_iff.mp h
  obtain ⟨items, hlisted, hnames⟩ := takes_names_iff.mp htakes
  have hitem := hnames _ ((lists_iff hlisted name).mp ((hmem name).mp hname))
  simpa [Json.isName] using hitem

/-- Fixed names and names that are read make a set without an empty name. -/
theorem ne_empty_of_mem_union {fixed names : NameSet} {entry : NameEntry} {value : Json}
    (hfixed : "" ∉ fixed) (hnames : readNames entry value = .ok names) :
    ∀ name ∈ fixed.union names, name ≠ "" := by
  intro name hname
  rcases NameSet.mem_union.mp hname with hname | hname
  · rintro rfl
    exact hfixed hname
  · exact ne_empty_of_readNames hnames hname

theorem named_of_build {s : Settings} {p : Policy} (h : build s = .ok p) : p.Named := by
  obtain ⟨style, returns, excepts, flag, -, hreturns, hexcepts, -, rfl⟩ := build_eq_ok_iff.mp h
  have hbase : "" ∉ baseReturnFunctions := by decide
  have hhooks : "" ∉ lifecycleHooks := by decide
  exact ⟨ne_empty_of_mem_union hbase hreturns, ne_empty_of_mem_union hhooks hexcepts⟩

/-- Every construction gives a policy without empty names. -/
theorem Constructed.named {p : Policy} (h : p.Constructed) : p.Named := by
  cases h with
  | flagFirst h => exact named_of_build (buildFlagFirst_eq_ok_iff.mp h)
  | flagLast h => exact named_of_build h
  | config h =>
    obtain ⟨members, -, -, hbuild⟩ := ofConfig_eq_ok_iff.mp h
    exact named_of_build hbuild

/-! ## Writing and reading back -/

/-- The names of a list are read as the set of them. -/
theorem readNames_strings (entry : NameEntry) {names : List String}
    (h : ∀ name ∈ names, name ≠ "") :
    readNames entry (.array (names.map .string)) = .ok (.ofList names) := by
  refine readNames_eq_ok_iff.mpr ⟨?_, fun name => ?_⟩
  · simpa [ConfigEntry.takes, Json.isName] using h
  · simp [Json.Lists]

/-- The fixed names and the others together are all the names of a policy. -/
theorem of_extras (p : Policy) :
    .of p.style p.allowImplicitElse (.ofList p.extraReturns) (.ofList p.extraExcepts) = p :=
  ext rfl rfl (NameSet.mem_union_ofList_without p.base_mem)
    (NameSet.mem_union_ofList_without p.hooks_mem)

theorem unknownKeys_toMembers (p : Policy) : unknownKeys p.toMembers = [] := by
  refine unknownKeys_eq_nil_iff.mpr ?_
  rintro key ⟨hkey, hunknown⟩
  simp only [toMembers, List.map_cons, List.map_nil, List.mem_cons, List.not_mem_nil,
    or_false] at hkey
  rcases hkey with rfl | rfl | rfl | rfl
  · exact hunknown .returnStyle rfl
  · exact hunknown .allowImplicitElse rfl
  · exact hunknown (.names .returnFunctions) rfl
  · exact hunknown (.names .except) rfl

theorem build_toMembers {p : Policy} (h : p.Named) : build (.ofMembers p.toMembers) = .ok p := by
  refine build_eq_ok_iff.mpr ⟨p.style, .ofList p.extraReturns, .ofList p.extraExcepts,
    p.allowImplicitElse, readStyle_eq_ok_iff.mpr rfl, readNames_strings _ fun name hname => ?_,
    readNames_strings _ fun name hname => ?_, readFlag_eq_ok_iff.mpr rfl, (of_extras p).symm⟩
  · exact h.returns name (NameSet.mem_without.mp hname).1
  · exact h.excepts name (NameSet.mem_without.mp hname).1

/-- A policy without empty names is read back from its configuration. -/
theorem ofConfig_toConfig {p : Policy} (h : p.Named) : ofConfig p.toConfig = .ok p :=
  ofConfig_eq_ok_iff.mpr ⟨p.toMembers, rfl, unknownKeys_toMembers p, build_toMembers h⟩

/-- A policy that some construction gives is read back from its configuration, so the two
determine each other, and reading and writing once more changes nothing.  The names in the
configuration increase, and none of them is fixed. -/
theorem toConfig_canonical {p q : Policy} (hp : p.Constructed) (hq : q.Constructed) :
    ofConfig p.toConfig = .ok p
      ∧ (∃ returns excepts : List String,
        p.toConfig.get? "return_functions" = some (.array (returns.map .string))
          ∧ p.toConfig.get? "except" = some (.array (excepts.map .string))
          ∧ returns.Pairwise (· < ·) ∧ (∀ name ∈ returns, name ∉ baseReturnFunctions)
          ∧ excepts.Pairwise (· < ·) ∧ ∀ name ∈ excepts, name ∉ lifecycleHooks)
      ∧ (p = q ↔ p.toConfig = q.toConfig)
      ∧ ∀ c r, ofConfig c = .ok r → (ofConfig r.toConfig).map toConfig = .ok r.toConfig := by
  refine ⟨ofConfig_toConfig hp.named, ?_, ⟨congrArg toConfig, fun h => ?_⟩, fun c r h => ?_⟩
  · exact ⟨p.extraReturns, p.extraExcepts, rfl, rfl,
      NameSet.pairwise_without _ _, fun name hname => (NameSet.mem_without.mp hname).2,
      NameSet.pairwise_without _ _, fun name hname => (NameSet.mem_without.mp hname).2⟩
  · -- Equal configurations are read as one policy, and each policy is what its own is read as.
    have hback : Except.ok p = Except.ok q :=
      (ofConfig_toConfig hp.named).symm.trans (h ▸ ofConfig_toConfig hq.named)
    exact Except.ok.inj hback
  · rw [ofConfig_toConfig (Constructed.config h).named]
    rfl

/-- Settings with names that are given twice, names that are fixed, and an object in the place of
an array. -/
def repeatedSettings : Settings where
  style := .string "explicit"
  returnFunctions := .array [.string "stop", .string "b", .string "a", .string "b"]
  except := .object [("main", .null), (".onLoad", .null)]

/-- None of this leaves a trace in the configuration, and the policy is read back all the same. -/
theorem toConfig_canonical_repeated :
    ∃ p q, build repeatedSettings = .ok p ∧ ofConfig (.object []) = .ok q
      ∧ p.toConfig.get? "return_functions" = some (.array [.string "a", .string "b"])
      ∧ p.toConfig.get? "except" = some (.array [.string "main"])
      ∧ ofConfig p.toConfig = .ok p ∧ (p = q ↔ p.toConfig = q.toConfig) := by
  have hp : build repeatedSettings
      = .ok (.of .explicit true (.ofList ["stop", "b", "a", "b"]) (.ofList ["main", ".onLoad"])) :=
    rfl
  have hq : ofConfig (.object []) = .ok .default := rfl
  obtain ⟨hback, -, hiff, -⟩ := toConfig_canonical (.flagLast hp) (.config hq)
  exact ⟨_, _, hp, hq, rfl, rfl, hback, hiff⟩

end Policy

end TailLint
