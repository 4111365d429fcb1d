import Mathlib
import TailLint.CommandLine.Run
import TailLint.Proofs.Configuration
import TailLint.Proofs.Refusals

/-!
# Linting files together and one by one

The command that lints takes any number of files.  It prints what it finds while it goes, counts,
and stops at the first file that cannot be loaded; whatever was printed before stays printed.  Here
it is compared with the runs of the same request for each file alone (`LintRequest.single`).  What
is printed is what these runs print, one after the other, up to the first that fails, and the exit
code is the gravest of theirs.

A run can also break down, and then there is no exit code to compare.  That happens only below the
loaders: for a path that cannot be asked for, for bytes that are no text, and for an integer with
too many digits in the configuration.  A request that meets none of these is `Answerable`.  That an
integer cannot be written is no case of its own here, for neither a tree file nor a configuration
holds one that is read and too long.

* `Tree.refused_of_answers`, `Policy.refused_of_answers` --- where a path has an answer, a loader
  fails only in its own words;
* `output_lintFiles`, `ending_lintFiles` --- the loop over the files, from any count on, by
  induction over the files that are left;
* `runLint_of_policy`, `runLint_of_refused` --- the command is that loop, once there is a policy.
-/

namespace TailLint

/-! ## Answers of a disk -/

/-- Whether asking for a path has an answer: the path can be asked for, and either nothing can be
read there or what is read is text. -/
def Disk.Answers (disk : Disk) (path : String) : Prop :=
  '\x00' ∉ path.toList ∧ ((∃ cause, disk path = .error cause)
    ∨ ∃ bytes chars, disk path = .ok bytes ∧ Text.Utf8.decode bytes = .ok chars)

/-- Where there is an answer and yet no text, nothing could be read. -/
theorem Disk.Answers.unreadable {disk : Disk} {path : String} (h : disk.Answers path)
    {e : TextError} (he : disk.readText path = .error e) : ∃ cause, e = .unreadable cause := by
  obtain ⟨hpath, h⟩ := h
  unfold Disk.readText at he
  rw [if_neg (by simpa using hpath)] at he
  rcases h with ⟨cause, hcause⟩ | ⟨bytes, chars, hbytes, hchars⟩
  · rw [hcause] at he
    cases he
    exact ⟨cause, rfl⟩
  · simp only [hbytes, hchars] at he
    cases he

/-- Where there is an answer, a tree that cannot be loaded is refused. -/
theorem Tree.refused_of_answers {disk : Disk} {path : String} (h : disk.Answers path)
    {fault : Fault LoadError} (hfault : Tree.parseFile disk path = .error fault) :
    ∃ cause, fault = .refused cause := by
  unfold Tree.parseFile at hfault
  cases htext : disk.readText path with
  | error e =>
    obtain ⟨cause, rfl⟩ := h.unreadable htext
    rw [htext] at hfault
    cases hfault
    exact ⟨_, rfl⟩
  | ok text =>
    rw [htext] at hfault
    exact Tree.exists_refused_of_parse hfault

/-- Where there is an answer without an integer that is too long, a policy that cannot be loaded
is refused. -/
theorem Policy.refused_of_answers {disk : Disk} {path : String} (h : disk.Answers path)
    (hintegers : ∀ text digits, disk.readText path = .ok text →
      Json.parse text ≠ .error (.hugeInteger digits))
    {fault : Fault PolicyError} (hfault : Policy.parseFile disk path = .error fault) :
    ∃ cause, fault = .refused cause := by
  unfold Policy.parseFile at hfault
  cases htext : disk.readText path with
  | error e =>
    obtain ⟨cause, rfl⟩ := h.unreadable htext
    rw [htext] at hfault
    cases hfault
    exact ⟨_, rfl⟩
  | ok text =>
    rw [htext] at hfault
    cases hparse : Json.parse text with
    | error e =>
      cases e with
      | hugeInteger digits => exact absurd hparse (hintegers text digits htext)
      | malformed =>
        simp only [hparse] at hfault
        cases hfault
        exact ⟨_, rfl⟩
    | ok config =>
      simp only [hparse] at hfault
      exact Policy.exists_refused_of_short (Json.short_of_parse hparse) hfault

namespace CommandLine

/-! ## Requests for one file -/

/-- The run of a request for one file alone. -/
def LintRequest.single (disk : Disk) (r : LintRequest) (path : String) : Outcome :=
  runLint disk { r with files := [path] }

/-- Whether a run ended because something could not be loaded. -/
def Outcome.failed (o : Outcome) : Bool := o.ending = .returned exitFailure

/-- Whether all that a request asks for has an answer: its files, and its configuration file if it
has one, which then has no integer with too many digits. -/
structure LintRequest.Answerable (disk : Disk) (r : LintRequest) : Prop where
  files : ∀ path ∈ r.files, disk.Answers path
  config : ∀ path, r.config = some path → path ≠ "" → disk.Answers path
  integers : ∀ path text digits, r.config = some path → path ≠ "" →
    disk.readText path = .ok text → Json.parse text ≠ .error (.hugeInteger digits)

theorem short_toJson (value : Value) : value.toJson.Short := by
  cases value <;> trivial

theorem shortMembers_toMembers (p : Policy) : Json.ShortMembers p.toMembers := by
  have hstrings (names : List String) : (Json.array (names.map .string)).Short := by
    refine Json.shortItems_iff.mpr fun item hitem => ?_
    obtain ⟨name, -, rfl⟩ := List.mem_map.mp hitem
    trivial
  exact ⟨trivial, trivial, hstrings _, hstrings _, trivial⟩

theorem short_of_listed {value : Json} {items : List Json} (hvalue : value.Short)
    (h : Settings.listed? value = some items) : ∀ item ∈ items, item.Short := by
  cases value with
  | null => cases h; exact nofun
  | array => cases h; exact Json.shortItems_iff.mp hvalue
  | object members =>
    cases h
    intro item hitem
    obtain ⟨member, -, rfl⟩ := List.mem_map.mp hitem
    trivial
  | _ => cases h

/-- Names that are added to an entry bring no integers with them. -/
theorem shortMembers_withNames (key : String) (names : List Value)
    {members : List (String × Json)} (h : Json.ShortMembers members) :
    Json.ShortMembers (if names.isEmpty then members else
      Json.put key (.array (((Json.lookup? key members).bind Settings.listed?).getD []
        ++ names.map Value.toJson)) members) := by
  split
  · exact h
  · refine Json.shortMembers_put key (Json.shortItems_iff.mpr fun item hitem => ?_) h
    rcases List.mem_append.mp hitem with hbefore | hnew
    · cases hlisted : (Json.lookup? key members).bind Settings.listed? with
      | none =>
        rw [hlisted] at hbefore
        exact absurd hbefore List.not_mem_nil
      | some items =>
        rw [hlisted] at hbefore
        obtain ⟨value, hvalue, hitems⟩ := Option.bind_eq_some_iff.mp hlisted
        exact short_of_listed (Json.short_of_lookup? h hvalue) hitems item hbefore
    · obtain ⟨value, -, rfl⟩ := List.mem_map.mp hnew
      exact short_toJson value

/-- There are no integers in the configuration that a request makes. -/
theorem short_mergedConfig (loaded : Option Policy) (r : LintRequest) :
    (mergedConfig loaded r).Short := by
  have hloaded : Json.ShortMembers ((loaded.map Policy.toMembers).getD []) := by
    cases loaded with
    | none => trivial
    | some p => exact shortMembers_toMembers p
  have hflag {members : List (String × Json)} (h : Json.ShortMembers members) :
      Json.ShortMembers (if r.noImplicitElse
        then Json.put "allow_implicit_else" (.boolean false) members else members) := by
    split
    · exact Json.shortMembers_put _ trivial h
    · exact h
  unfold mergedConfig
  refine shortMembers_withNames _ _ (shortMembers_withNames _ _ (hflag ?_))
  split
  · next style _ => exact Json.shortMembers_put _ (short_toJson style) hloaded
  · exact hloaded

/-- A policy that an answerable request does not get is refused. -/
theorem LintRequest.Answerable.refused {disk : Disk} {r : LintRequest} (h : r.Answerable disk)
    {fault : Fault PolicyError} (hfault : requestPolicy disk r = .error fault) :
    ∃ cause, fault = .refused cause := by
  unfold requestPolicy at hfault
  cases hloaded : loadedPolicy disk r with
  | ok loaded =>
    rw [hloaded] at hfault
    exact Policy.exists_refused_of_short (short_mergedConfig loaded r) hfault
  | error fault' =>
    rw [hloaded] at hfault
    obtain rfl : fault' = fault := Except.error.inj hfault
    unfold loadedPolicy at hloaded
    split at hloaded
    · cases hloaded
    · cases hloaded
    · next path hne hconfig =>
      cases hpolicy : Policy.parseFile disk path with
      | ok policy =>
        rw [hpolicy] at hloaded
        cases hloaded
      | error fault' =>
        rw [hpolicy] at hloaded
        obtain rfl := Except.error.inj hloaded
        exact Policy.refused_of_answers (h.config path hconfig hne)
          (fun text digits => h.integers path text digits hconfig hne) hpolicy

/-! ## Exit codes together -/

/-- The exit code of several runs together: a failure outweighs findings, and these outweigh a
clean run. -/
def gravestCode (endings : List Ending) : Nat :=
  if .returned exitFailure ∈ endings then exitFailure
  else if .returned exitFindings ∈ endings then exitFindings
  else exitClean

/-- The ending of a run that loaded all its files and found so many things. -/
def countEnding (total : Nat) : Ending := .returned (if total = 0 then exitClean else exitFindings)

theorem gravestCode_of_mem {endings : List Ending} (h : .returned exitFailure ∈ endings) :
    gravestCode endings = exitFailure := if_pos h

theorem gravestCode_cons_clean (endings : List Ending) :
    gravestCode (countEnding 0 :: endings) = gravestCode endings := by
  have hother {code : Nat} (hcode : code ≠ exitClean) :
      .returned code ∈ countEnding 0 :: endings ↔ .returned code ∈ endings := by
    simp [countEnding, hcode]
  refine ite_congr (propext (hother (by decide))) (fun _ => rfl) fun _ => ?_
  exact ite_congr (propext (hother (by decide))) (fun _ => rfl) fun _ => rfl

theorem returned_gravestCode_countEnding (total : Nat) :
    .returned (gravestCode [countEnding total]) = countEnding total := by
  cases total with
  | zero => rfl
  | succ => rfl

/-- To count further is to have one run more. -/
theorem gravestCode_countEnding_add (total found : Nat) (endings : List Ending) :
    gravestCode (countEnding (total + found) :: endings)
      = gravestCode (countEnding total :: countEnding found :: endings) := by
  cases total with
  | zero =>
    rw [Nat.zero_add, gravestCode_cons_clean]
  | succ total =>
    cases found with
    | zero => simp [gravestCode, countEnding, exitClean, exitFindings, exitFailure]
    | succ found => simp [gravestCode, countEnding, exitFindings, exitFailure]

/-! ## The loop over the files -/

section Loop

variable {disk : Disk} {policy : Policy} {format : Format}

/-- A file that is refused ends the loop, and nothing is printed for it. -/
theorem lintFiles_of_refused {path : String} {cause : LoadError}
    (h : Tree.parseFile disk path = .error (.refused cause)) (total : Nat) (rest : List String) :
    lintFiles disk policy format total (path :: rest)
      = faultOutcome LoadError.text (.refused cause) := by
  rw [lintFiles, h]

/-- A file that is loaded is printed, its findings are counted, and the loop goes on. -/
theorem lintFiles_of_loaded {path : String} {tree : Tree} (h : Tree.parseFile disk path = .ok tree)
    (total : Nat) (rest : List String) :
    lintFiles disk policy format total (path :: rest)
      = (lintFiles disk policy format (total + (tree.lint policy path).length) rest).after
          (printed format (tree.lint policy path))
          (loadedLog path :: tree.lintLog policy path) := by
  rw [lintFiles, h]

theorem ending_lintFiles_nil (total : Nat) :
    (lintFiles disk policy format total []).ending = countEnding total := rfl

/-- A file that is loaded is printed alone as it is among others, and alone it ends as its findings
say. -/
theorem lintFiles_single_of_loaded {path : String} {tree : Tree}
    (h : Tree.parseFile disk path = .ok tree) :
    (lintFiles disk policy format 0 [path]).output = printed format (tree.lint policy path)
      ∧ (lintFiles disk policy format 0 [path]).ending
        = countEnding (tree.lint policy path).length := by
  rw [lintFiles_of_loaded h, Nat.zero_add]
  exact ⟨String.append_empty, rfl⟩

theorem not_failed_of_loaded {path : String} {tree : Tree}
    (h : Tree.parseFile disk path = .ok tree) :
    (lintFiles disk policy format 0 [path]).failed = false := by
  rw [Outcome.failed, (lintFiles_single_of_loaded h).2]
  cases (tree.lint policy path).length with
  | zero => rfl
  | succ => rfl

/-- Whatever was counted before, the loop prints what the runs for the single files print, up to
the first that fails. -/
theorem output_lintFiles (total : Nat) {files : List String}
    (h : ∀ path ∈ files, disk.Answers path) :
    (lintFiles disk policy format total files).output
      = String.join ((files.takeWhile fun path =>
            !(lintFiles disk policy format 0 [path]).failed).map
          fun path => (lintFiles disk policy format 0 [path]).output) := by
  induction files generalizing total with
  | nil => rfl
  | cons path rest ih =>
    cases hparse : Tree.parseFile disk path with
    | error fault =>
      obtain ⟨cause, rfl⟩ := Tree.refused_of_answers (h path List.mem_cons_self) hparse
      have hfailed : (!(lintFiles disk policy format 0 [path]).failed) = false := by
        rw [lintFiles_of_refused hparse]
        rfl
      rw [lintFiles_of_refused hparse, List.takeWhile_cons, hfailed]
      rfl
    | ok tree =>
      rw [lintFiles_of_loaded hparse, List.takeWhile_cons, not_failed_of_loaded hparse,
        Bool.not_false, if_pos rfl, List.map_cons, String.join_cons,
        (lintFiles_single_of_loaded hparse).1,
        ← ih _ fun path hpath => h path (List.mem_cons_of_mem _ hpath)]
      rfl

/-- The loop ends with the gravest of the exit codes of the single files and of what was counted
before. -/
theorem ending_lintFiles (total : Nat) {files : List String}
    (h : ∀ path ∈ files, disk.Answers path) :
    (lintFiles disk policy format total files).ending
      = .returned (gravestCode (countEnding total
          :: files.map fun path => (lintFiles disk policy format 0 [path]).ending)) := by
  induction files generalizing total with
  | nil => rw [ending_lintFiles_nil, List.map_nil, returned_gravestCode_countEnding]
  | cons path rest ih =>
    cases hparse : Tree.parseFile disk path with
    | error fault =>
      obtain ⟨cause, rfl⟩ := Tree.refused_of_answers (h path List.mem_cons_self) hparse
      have hending : .returned exitFailure = (lintFiles disk policy format 0 [path]).ending := by
        rw [lintFiles_of_refused hparse]
        rfl
      rw [lintFiles_of_refused hparse, List.map_cons, gravestCode_of_mem
        (List.mem_cons_of_mem _ (hending ▸ List.mem_cons_self))]
      rfl
    | ok tree =>
      rw [List.map_cons, (lintFiles_single_of_loaded hparse).2, ← gravestCode_countEnding_add,
        ← ih _ fun path hpath => h path (List.mem_cons_of_mem _ hpath),
        lintFiles_of_loaded hparse]
      rfl

end Loop

/-! ## The command -/

/-- With a policy, the command is the loop, and what it logs is not printed. -/
theorem runLint_of_policy {disk : Disk} {r : LintRequest} {policy : Policy}
    (h : requestPolicy disk r = .ok policy) :
    (runLint disk r).output = (lintFiles disk policy r.format 0 r.files).output
      ∧ (runLint disk r).ending = (lintFiles disk policy r.format 0 r.files).ending := by
  unfold runLint
  rw [h]
  exact ⟨by simp [Outcome.after], rfl⟩

/-- Without a policy, nothing is printed and the command fails. -/
theorem runLint_of_refused {disk : Disk} {r : LintRequest} {cause : PolicyError}
    (h : requestPolicy disk r = .error (.refused cause)) :
    (runLint disk r).output = "" ∧ (runLint disk r).ending = .returned exitFailure := by
  unfold runLint
  rw [h]
  exact ⟨rfl, rfl⟩

/-- Linting files together prints what linting them one by one prints, up to the first run that
fails, and ends with the gravest exit code of these runs. -/
theorem runLint_eq_singles {disk : Disk} {r : LintRequest} (hfiles : r.files ≠ [])
    (hanswers : r.Answerable disk) :
    (runLint disk r).output
        = String.join ((r.files.takeWhile fun path => !(r.single disk path).failed).map
            fun path => (r.single disk path).output)
      ∧ (runLint disk r).ending
        = .returned (gravestCode (r.files.map fun path => (r.single disk path).ending)) := by
  cases hpolicy : requestPolicy disk r with
  | error fault =>
    obtain ⟨cause, rfl⟩ := hanswers.refused hpolicy
    obtain ⟨houtput, hending⟩ := runLint_of_refused hpolicy
    have hsingle (path : String) : (r.single disk path).ending = .returned exitFailure :=
      (runLint_of_refused (r := { r with files := [path] }) hpolicy).2
    obtain ⟨path, rest, hrest⟩ := List.exists_cons_of_ne_nil hfiles
    rw [houtput, hending, hrest, List.takeWhile_cons, Outcome.failed, hsingle path,
      List.map_cons, hsingle path, gravestCode_of_mem List.mem_cons_self]
    exact ⟨rfl, rfl⟩
  | ok policy =>
    obtain ⟨houtput, hending⟩ := runLint_of_policy hpolicy
    have hsingle (path : String) :
        (r.single disk path).output = (lintFiles disk policy r.format 0 [path]).output
          ∧ (r.single disk path).ending = (lintFiles disk policy r.format 0 [path]).ending :=
      runLint_of_policy (r := { r with files := [path] }) hpolicy
    simp only [Outcome.failed, hsingle]
    rw [houtput, hending, output_lintFiles 0 hanswers.files, ending_lintFiles 0 hanswers.files,
      gravestCode_cons_clean]
    exact ⟨rfl, rfl⟩

/-- A file with nothing to report, one with a finding, and an empty configuration. -/
def mixedDisk : Disk
  | "clean" => .ok [0x78]
  | "dirty" => .ok ("(lambda () (call return))".toList.map (·.toNat.toUInt8))
  | "policy" => .ok [0x7b, 0x7d]
  | path => .error (.notFound path)

/-- A request in which a file that is not there stands between others. -/
def mixedRequest : LintRequest :=
  { files := ["clean", "dirty", "absent", "dirty"], config := some "policy" }

theorem parseFile_mixedDisk_clean : Tree.parseFile mixedDisk "clean" = .ok (.expr "x" [] {}) := by
  have htext : mixedDisk.readText "clean" = .ok "x" := rfl
  have hparse (file : String) : Tree.parse file "x" = .ok (.expr "x" [] {}) := by cbv
  rw [Tree.parseFile, htext]
  simp only [hparse]

theorem parseFile_mixedDisk_dirty : Tree.parseFile mixedDisk "dirty"
    = .ok (.function [] (.call "return" [] {}) none true {}) := by
  have htext : mixedDisk.readText "dirty" = .ok "(lambda () (call return))" := rfl
  have hparse (file : String) : Tree.parse file "(lambda () (call return))"
      = .ok (.function [] (.call "return" [] {}) none true {}) := by cbv
  rw [Tree.parseFile, htext]
  simp only [hparse]

theorem parseFile_mixedDisk_absent :
    ∃ cause, Tree.parseFile mixedDisk "absent" = .error (.refused cause) := by
  have htext : mixedDisk.readText "absent" = .error (.unreadable (.notFound "absent")) := rfl
  rw [Tree.parseFile, htext]
  exact ⟨_, rfl⟩

theorem answerable_mixedRequest : mixedRequest.Answerable mixedDisk where
  files path hpath := by
    simp only [mixedRequest, List.mem_cons, List.not_mem_nil, or_false] at hpath
    rcases hpath with rfl | rfl | rfl | rfl
    · exact ⟨by decide, Or.inr ⟨_, _, rfl, rfl⟩⟩
    · exact ⟨by decide, Or.inr ⟨_, _, rfl, rfl⟩⟩
    · exact ⟨by decide, Or.inl ⟨_, rfl⟩⟩
    · exact ⟨by decide, Or.inr ⟨_, _, rfl, rfl⟩⟩
  config path hconfig _ := by
    cases hconfig
    exact ⟨by decide, Or.inr ⟨_, _, rfl, rfl⟩⟩
  integers path text digits hconfig _ htext := by
    cases hconfig
    have hread : mixedDisk.readText "policy" = .ok "\x7b\x7d" := rfl
    have hjson : Json.parse "\x7b\x7d" = .ok (.object []) := rfl
    cases hread.symm.trans htext
    rw [hjson]
    exact nofun

/-- What stands before the file that is not there is printed, what stands after it is not, and the
run fails. -/
theorem runLint_mixedRequest :
    mixedRequest.files ≠ [] ∧ mixedRequest.Answerable mixedDisk
      ∧ (mixedRequest.single mixedDisk "clean").ending = .returned exitClean
      ∧ (mixedRequest.single mixedDisk "dirty").ending = .returned exitFindings
      ∧ (mixedRequest.single mixedDisk "absent").ending = .returned exitFailure
      ∧ (runLint mixedDisk mixedRequest).output
        = (mixedRequest.single mixedDisk "clean").output
          ++ (mixedRequest.single mixedDisk "dirty").output
      ∧ (runLint mixedDisk mixedRequest).ending = .returned exitFailure := by
  have hpolicy : requestPolicy mixedDisk mixedRequest = .ok .default := rfl
  have hsingle (path : String) : (mixedRequest.single mixedDisk path).ending
      = (lintFiles mixedDisk .default .compiler 0 [path]).ending :=
    (runLint_of_policy (r := { mixedRequest with files := [path] }) hpolicy).2
  have hclean : (mixedRequest.single mixedDisk "clean").ending = .returned exitClean := by
    have hlint : (Tree.expr "x" [] {}).lint .default "clean" = [] := by cbv
    rw [hsingle, (lintFiles_single_of_loaded parseFile_mixedDisk_clean).2, hlint]
    rfl
  have hdirty : (mixedRequest.single mixedDisk "dirty").ending = .returned exitFindings := by
    have hlint : (Tree.function [] (.call "return" [] {}) none true {}).lint .default "dirty"
        = [.ofRule ⟨"dirty", none⟩ .explicitReturnNotNeeded {}] := by cbv
    rw [hsingle, (lintFiles_single_of_loaded parseFile_mixedDisk_dirty).2, hlint]
    rfl
  have habsent : (mixedRequest.single mixedDisk "absent").ending = .returned exitFailure := by
    obtain ⟨cause, hcause⟩ := parseFile_mixedDisk_absent
    rw [hsingle, lintFiles_of_refused hcause]
    rfl
  obtain ⟨houtput, hending⟩ := runLint_eq_singles (by decide) answerable_mixedRequest
  refine ⟨by decide, answerable_mixedRequest, hclean, hdirty, habsent, ?_, ?_⟩
  · have htaken : mixedRequest.files.takeWhile
        (fun path => !(mixedRequest.single mixedDisk path).failed) = ["clean", "dirty"] := by
      show ["clean", "dirty", "absent", "dirty"].takeWhile _ = _
      simp [Outcome.failed, hclean, hdirty, habsent, exitClean, exitFindings, exitFailure]
    rw [houtput, htaken]
    simp
  · have hmem : .returned exitFailure ∈ mixedRequest.files.map
        fun path => (mixedRequest.single mixedDisk path).ending :=
      List.mem_map.mpr ⟨"absent", by decide, habsent⟩
    rw [hending, gravestCode_of_mem hmem]

end CommandLine

end TailLint
