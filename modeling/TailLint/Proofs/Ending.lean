import TailLint.Proofs.Batch

/-!
# How the commands end

A command returns an exit code, or it breaks down and returns none.  Which of the two it is depends
on the first thing that it fails to load: the configuration, and then the files in their order.
What a loader refuses is logged and makes the exit code a failure.  What lies below every loader is
not caught, and then there is no exit code, although the file is as useless as one that is refused.

So the exit codes for a clean run and for findings do say that everything was loaded, but not every
unusable file leads to the code for a failure.  Files with bytes that are no text escape it, and so
do paths that cannot be asked for and configurations with an integer that is too long.
`ending_commands_reflects` says exactly when, in terms of what stands on the disk, and `garbledDisk`
is the plainest case.

* `Tree.exists_broken_iff`, `LintRequest.exists_broken_iff` --- loading breaks down where a path has
  no answer;
* `ending_lintFiles_of_unloaded`, `ending_lintFiles_of_loaded` --- the loop ends as the first file
  says that is not loaded, by induction over the files;
* `runLint_cases` --- the three ways in which the command that lints can end.
-/

namespace TailLint

/-! ## Loaders that break down -/

/-- Without an answer there is no text, and the reason is none that a loader has words for. -/
theorem Disk.readText_of_not_answers {disk : Disk} {path : String} (h : ¬ disk.Answers path) :
    disk.readText path = .error .nullInPath
      ∨ ∃ cause, disk.readText path = .error (.undecodable cause) := by
  by_cases hpath : '\x00' ∈ path.toList
  · exact Or.inl (by simp [Disk.readText, hpath])
  · cases hread : disk path with
    | error cause => exact absurd ⟨hpath, Or.inl ⟨cause, hread⟩⟩ h
    | ok bytes =>
      cases hdecode : Text.Utf8.decode bytes with
      | error cause => exact Or.inr ⟨cause, by simp [Disk.readText, hpath, hread, hdecode]⟩
      | ok chars => exact absurd ⟨hpath, Or.inr ⟨bytes, chars, hread, hdecode⟩⟩ h

/-- Loading a tree breaks down where the path has no answer. -/
theorem Tree.exists_broken_iff {disk : Disk} {path : String} :
    (∃ cause, Tree.parseFile disk path = .error (.broken cause)) ↔ ¬ disk.Answers path := by
  constructor
  · rintro ⟨cause, hbroken⟩ hanswers
    obtain ⟨cause', hrefused⟩ := Tree.refused_of_answers hanswers hbroken
    cases hrefused
  · intro h
    rcases Disk.readText_of_not_answers h with htext | ⟨cause, htext⟩
    · exact ⟨_, by rw [Tree.parseFile, htext]⟩
    · exact ⟨_, by rw [Tree.parseFile, htext]⟩

/-- Loading a policy breaks down where the path has no answer. -/
theorem Policy.exists_broken_of_not_answers {disk : Disk} {path : String}
    (h : ¬ disk.Answers path) :
    ∃ cause, Policy.parseFile disk path = .error (.broken cause) := by
  rcases Disk.readText_of_not_answers h with htext | ⟨cause, htext⟩
  · exact ⟨_, by rw [Policy.parseFile, htext]⟩
  · exact ⟨_, by rw [Policy.parseFile, htext]⟩

/-- Loading a policy breaks down at an integer that is too long. -/
theorem Policy.broken_of_hugeInteger {disk : Disk} {path text : String} {digits : Nat}
    (htext : disk.readText path = .ok text)
    (hparse : Json.parse text = .error (.hugeInteger digits)) :
    Policy.parseFile disk path = .error (.broken (.hugeInteger digits)) := by
  simp only [Policy.parseFile, htext, hparse]

namespace CommandLine

/-! ## Requests -/

namespace LintRequest

/-- Whether the configuration file of a request, if the request has one, has an answer and holds no
integer that is too long.  The files play no part in it. -/
def ConfigAnswers (disk : Disk) (r : LintRequest) : Prop :=
  ({ r with files := [] } : LintRequest).Answerable disk

/-- Whether a request gets a policy. -/
def Configured (disk : Disk) (r : LintRequest) : Prop :=
  ∃ policy, requestPolicy disk r = .ok policy

/-- The first file of a request that is not loaded. -/
def firstUnloaded? (disk : Disk) (r : LintRequest) : Option String :=
  r.files.find? fun path => !(Tree.parseFile disk path).isOk

/-- Whether everything that is asked for has an answer: the configuration file and, if there is a
policy, the first file that is not loaded.  Nobody asks for the files after that one. -/
def Answered (disk : Disk) (r : LintRequest) : Prop :=
  r.ConfigAnswers disk
    ∧ (r.Configured disk → ∀ path, r.firstUnloaded? disk = some path → disk.Answers path)

/-- Whether the configuration and every file of a request are loaded. -/
def Loaded (disk : Disk) (r : LintRequest) : Prop :=
  r.Configured disk ∧ ∀ path ∈ r.files, (Tree.parseFile disk path).isOk = true

/-- A configuration file whose policy breaks down breaks down the policy of the request. -/
theorem broken_of_parseFile {disk : Disk} {r : LintRequest} {path : String} {cause : Breakdown}
    (hconfig : r.config = some path) (hpath : path ≠ "")
    (h : Policy.parseFile disk path = .error (.broken cause)) :
    requestPolicy disk r = .error (.broken cause) := by
  have hloaded : loadedPolicy disk r = .error (.broken cause) := by
    simp [loadedPolicy, hconfig, h, Except.map]
  simp only [requestPolicy, hloaded]
  rfl

/-- The policy of a request breaks down where its configuration file has no answer. -/
theorem exists_broken_iff {disk : Disk} {r : LintRequest} :
    (∃ cause, requestPolicy disk r = .error (.broken cause)) ↔ ¬ r.ConfigAnswers disk := by
  constructor
  · rintro ⟨cause, hbroken⟩ hanswers
    obtain ⟨cause', hrefused⟩ := LintRequest.Answerable.refused hanswers hbroken
    cases hrefused
  · intro h
    by_contra hnone
    -- As nothing breaks down, the configuration file can be found at fault in nothing.
    refine h ⟨fun path hpath => absurd hpath List.not_mem_nil, ?_, ?_⟩
    · intro path hconfig hpath
      by_contra hanswers
      obtain ⟨cause, hbroken⟩ := Policy.exists_broken_of_not_answers hanswers
      exact hnone ⟨cause, broken_of_parseFile hconfig hpath hbroken⟩
    · intro path text digits hconfig hpath htext hparse
      exact hnone ⟨_, broken_of_parseFile hconfig hpath
        (Policy.broken_of_hugeInteger htext hparse)⟩

end LintRequest

/-! ## Endings -/

/-- Whether a command has done all that it was asked to, with or without findings. -/
def Ending.IsDone (e : Ending) : Prop := e = .returned exitClean ∨ e = .returned exitFindings

/-- What an ending says about a command: it breaks down when something that it asks for has no
answer, it fails when everything has one and yet not all is loaded, and otherwise it is done. -/
structure Ending.Reflects (e : Ending) (answered loaded : Prop) : Prop where
  broken_iff : (∃ cause, e = .broken cause) ↔ ¬ answered
  failure_iff : e = .returned exitFailure ↔ answered ∧ ¬ loaded
  done_iff : e.IsDone ↔ loaded

theorem Ending.Reflects.congr {e : Ending} {answered answered' loaded loaded' : Prop}
    (h : e.Reflects answered loaded) (hanswered : answered ↔ answered')
    (hloaded : loaded ↔ loaded') : e.Reflects answered' loaded' := by
  rwa [← propext hanswered, ← propext hloaded]

/-- How a fault ends a command. -/
def faultEnding {ε : Type} : Fault ε → Ending
  | .refused _ => .returned exitFailure
  | .broken cause => .broken cause

theorem ending_faultOutcome {ε : Type} (text : ε → String) (fault : Fault ε) :
    (faultOutcome text fault).ending = faultEnding fault := by
  cases fault <;> rfl

theorem reflects_faultEnding {ε : Type} (fault : Fault ε) :
    (faultEnding fault).Reflects (¬ ∃ cause, fault = .broken cause) False := by
  cases fault with
  | refused => exact ⟨by simp [faultEnding], by simp [faultEnding],
      by simp [faultEnding, Ending.IsDone, exitFailure, exitClean, exitFindings]⟩
  | broken => exact ⟨by simp [faultEnding], by simp [faultEnding],
      by simp [faultEnding, Ending.IsDone]⟩

theorem reflects_countEnding (found : Nat) : (countEnding found).Reflects True True := by
  refine ⟨by simp [countEnding], ?_, ?_⟩
  · cases found <;> simp [countEnding, exitFailure, exitClean, exitFindings]
  · cases found <;> simp [countEnding, Ending.IsDone]

/-! ## The loop over the files -/

section Loop

variable {disk : Disk} {policy : Policy} {format : Format}

/-- The loop ends as the first file says that is not loaded. -/
theorem ending_lintFiles_of_unloaded {files : List String} {path : String} {fault : Fault LoadError}
    (hpath : files.find? (fun path => !(Tree.parseFile disk path).isOk) = some path)
    (hfault : Tree.parseFile disk path = .error fault) (total : Nat) :
    (lintFiles disk policy format total files).ending = faultEnding fault := by
  -- The count of what was found changes from file to file and has no say in this.
  induction files generalizing total with
  | nil => cases hpath
  | cons first rest ih =>
    rw [List.find?_cons] at hpath
    cases hparse : Tree.parseFile disk first with
    | error fault' =>
      rw [hparse] at hpath
      obtain rfl : first = path := Option.some.inj hpath
      obtain rfl : fault' = fault := Except.error.inj (hparse.symm.trans hfault)
      rw [lintFiles, hparse]
      exact ending_faultOutcome _ _
    | ok tree =>
      rw [hparse] at hpath
      rw [lintFiles_of_loaded hparse]
      exact ih hpath _

/-- When all files are loaded, what was found decides. -/
theorem ending_lintFiles_of_loaded {files : List String}
    (h : ∀ path ∈ files, (Tree.parseFile disk path).isOk = true) (total : Nat) :
    ∃ found, (lintFiles disk policy format total files).ending = countEnding found := by
  induction files generalizing total with
  | nil => exact ⟨total, rfl⟩
  | cons first rest ih =>
    cases hparse : Tree.parseFile disk first with
    | error fault =>
      have hfirst := h first List.mem_cons_self
      rw [hparse] at hfirst
      cases hfirst
    | ok tree =>
      rw [lintFiles_of_loaded hparse]
      exact ih (fun path hpath => h path (List.mem_cons_of_mem first hpath)) _

end Loop

/-! ## The commands -/

theorem LintRequest.firstUnloaded?_eq_none_iff {disk : Disk} {r : LintRequest} :
    r.firstUnloaded? disk = none ↔ ∀ path ∈ r.files, (Tree.parseFile disk path).isOk = true := by
  simp [LintRequest.firstUnloaded?]

/-- The command that lints ends with the configuration, with the first file that is not loaded, or
after all files. -/
theorem runLint_cases (disk : Disk) (r : LintRequest) :
    (∃ fault, requestPolicy disk r = .error fault ∧ (runLint disk r).ending = faultEnding fault)
      ∨ (r.Configured disk ∧ ∃ path fault, r.firstUnloaded? disk = some path
          ∧ Tree.parseFile disk path = .error fault ∧ (runLint disk r).ending = faultEnding fault)
      ∨ (r.Configured disk ∧ r.firstUnloaded? disk = none
          ∧ ∃ found, (runLint disk r).ending = countEnding found) := by
  cases hpolicy : requestPolicy disk r with
  | error fault =>
    refine Or.inl ⟨fault, rfl, ?_⟩
    unfold runLint
    rw [hpolicy]
    exact ending_faultOutcome _ fault
  | ok policy =>
    have hending := (runLint_of_policy hpolicy).2
    cases hfirst : r.firstUnloaded? disk with
    | none =>
      obtain ⟨found, hfound⟩ :=
        ending_lintFiles_of_loaded (LintRequest.firstUnloaded?_eq_none_iff.mp hfirst) 0
      exact Or.inr (Or.inr ⟨⟨policy, hpolicy⟩, rfl, found, hending.trans hfound⟩)
    | some path =>
      cases hparse : Tree.parseFile disk path with
      | ok tree =>
        have hunloaded := List.find?_some hfirst
        rw [hparse] at hunloaded
        cases hunloaded
      | error fault =>
        exact Or.inr (Or.inl ⟨⟨policy, hpolicy⟩, path, fault, rfl, hparse,
          hending.trans (ending_lintFiles_of_unloaded hfirst hparse 0)⟩)

/-- A request that gets a policy has a configuration with an answer. -/
theorem LintRequest.Configured.configAnswers {disk : Disk} {r : LintRequest}
    (h : r.Configured disk) : r.ConfigAnswers disk := by
  obtain ⟨policy, hpolicy⟩ := h
  by_contra hanswers
  obtain ⟨cause, hbroken⟩ := LintRequest.exists_broken_iff.mpr hanswers
  cases hpolicy.symm.trans hbroken

theorem ending_runLint_reflects (disk : Disk) (r : LintRequest) :
    (runLint disk r).ending.Reflects (r.Answered disk) (r.Loaded disk) := by
  rw [LintRequest.Answered, LintRequest.Loaded, ← LintRequest.firstUnloaded?_eq_none_iff]
  rcases runLint_cases disk r with ⟨fault, hpolicy, hending⟩
    | ⟨hpolicy, path, fault, hfirst, hparse, hending⟩ | ⟨hpolicy, hfirst, found, hending⟩
  -- Without a policy no file is asked for, so only the configuration counts.
  · have hnone : ¬ r.Configured disk := by
      rintro ⟨policy, hpolicy'⟩
      cases hpolicy.symm.trans hpolicy'
    have hbroken : (∃ cause, fault = .broken cause) ↔ ¬ r.ConfigAnswers disk := by
      rw [← LintRequest.exists_broken_iff, hpolicy]
      simp
    rw [hending]
    refine (reflects_faultEnding fault).congr ?_ ?_
    · simp [hbroken, hnone]
    · simp [hnone]
  · have hbroken : (∃ cause, fault = .broken cause) ↔ ¬ disk.Answers path := by
      rw [← Tree.exists_broken_iff, hparse]
      simp
    rw [hending]
    refine (reflects_faultEnding fault).congr ?_ ?_
    · simp [hbroken, hpolicy, hpolicy.configAnswers, hfirst]
    · simp [hfirst]
  · rw [hending]
    refine (reflects_countEnding found).congr ?_ ?_
    · simp [hpolicy.configAnswers, hfirst]
    · simp [hpolicy, hfirst]

theorem ending_runParse_reflects (disk : Disk) (path : String) :
    (runParse disk path).ending.Reflects (disk.Answers path)
      ((Tree.parseFile disk path).isOk = true) := by
  rw [← not_not (a := disk.Answers path), ← Tree.exists_broken_iff]
  cases hparse : Tree.parseFile disk path with
  | error fault =>
    have hending : (runParse disk path).ending = faultEnding fault := by
      rw [runParse, hparse]
      exact ending_faultOutcome _ fault
    rw [hending]
    refine (reflects_faultEnding fault).congr ?_ ?_
    · simp
    · simp [Except.isOk, Except.toBool]
  | ok tree =>
    have hending : (runParse disk path).ending = countEnding 0 := by
      rw [runParse, hparse]
      rfl
    rw [hending]
    refine (reflects_countEnding 0).congr ?_ ?_
    · simp
    · simp [Except.isOk, Except.toBool]

/-- Both commands end as what stands on the disk says: without an exit code if something that they
ask for has no answer, else with a failure if not everything is loaded, and else done. -/
theorem ending_commands_reflects (disk : Disk) (r : LintRequest) (path : String) :
    (runLint disk r).ending.Reflects (r.Answered disk) (r.Loaded disk)
      ∧ (runParse disk path).ending.Reflects (disk.Answers path)
        ((Tree.parseFile disk path).isOk = true) :=
  ⟨ending_runLint_reflects disk r, ending_runParse_reflects disk path⟩

/-- A disk that holds nothing but a byte with which no character starts. -/
def garbledDisk : Disk := fun _ => .ok [0xff]

/-- Neither command returns an exit code for such a byte, be it in a file or in the
configuration. -/
theorem broken_garbledDisk :
    (∀ code, (runLint garbledDisk { files := ["garbled"] }).ending ≠ .returned code)
      ∧ (∀ code, (runLint garbledDisk { files := ["garbled"], config := some "garbled" }).ending
        ≠ .returned code)
      ∧ ∀ code, (runParse garbledDisk "garbled").ending ≠ .returned code := by
  have hlint : (runLint garbledDisk { files := ["garbled"] }).ending
      = .broken (.undecodable ⟨[0xff], 0, .startByte⟩) := rfl
  have hconfig : (runLint garbledDisk { files := ["garbled"], config := some "garbled" }).ending
      = .broken (.undecodable ⟨[0xff], 0, .startByte⟩) := rfl
  have hparse : (runParse garbledDisk "garbled").ending
      = .broken (.undecodable ⟨[0xff], 0, .startByte⟩) := rfl
  rw [hlint, hconfig, hparse]
  exact ⟨nofun, nofun, nofun⟩

end CommandLine

end TailLint
