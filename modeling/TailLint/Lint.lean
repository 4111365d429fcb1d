import TailLint.Finding
import TailLint.Log
import TailLint.Policy.Config
import TailLint.Tree.Loader
import TailLint.Tree.Walk

/-!
# Linting

Every function definition in a tree is judged on its own, wherever it stands: the
definitions inside another one are not part of it, and an exempt function exempts none
of the functions it defines.  The findings of a tree are those of its definitions, in
the order of the walk.
-/

namespace TailLint

/-- The findings in a function's own body. -/
def Definition.findings (policy : Policy) (d : Definition) : List Finding :=
  (Terminal.ofDefinition policy d).flatMap (Terminal.findings policy)

/-- The diagnostics of a function's own body. -/
def Definition.lint (policy : Policy) (file : String) (d : Definition) : List Diagnostic :=
  (d.findings policy).filterMap (Finding.diagnostic? ⟨file, d.name⟩)

/-- Nothing that is found in a function's own body is lost: judging its terminal
positions one by one gives the same diagnostics. -/
theorem Definition.evaluateAll_eq_ok (policy : Policy) (file : String) (d : Definition) :
    Terminal.evaluateAll policy ⟨file, d.name⟩ (Terminal.ofDefinition policy d)
      = .ok (d.lint policy file) := by
  refine Finding.diagnostics_eq_ok _ fun f hf => ?_
  obtain ⟨t, ht, hf⟩ := List.mem_flatMap.mp hf
  refine Terminal.isSome_span?_of_mem_findings ?_ hf
  simp only [Terminal.ofDefinition] at ht
  split at ht
  · exact absurd ht List.not_mem_nil
  · obtain ⟨node, hnode, rfl⟩ := List.mem_map.mp ht
    exact Tree.isSome_span?_of_mem_terminals d.body hnode

/-- The diagnostics of all definitions in a tree. -/
def Tree.lint (policy : Policy) (file : String) (t : Tree) : List Diagnostic :=
  t.definitions.flatMap (Definition.lint policy file)

/-! ## Names of the checker -/

/-- What the checker is called in logs and listings. -/
def checkerName : String := "return_linter"

/-- What the checker does, in one line. -/
def checkerDescription : String :=
  "Checks that terminal expressions follow the configured return style"

/-- How a checker with a policy shows itself. -/
def checkerText (policy : Policy) : String :=
  s!"<ReturnLinter '{checkerName}' {policy.style.word}>"

/-! ## What the log says about it -/

/-- The log of judging one definition. -/
def Definition.lintLog (policy : Policy) (file : String) (d : Definition) : List Log.Line :=
  (Terminal.notes policy d).map (fun note => .debug .terminals note.text)
    ++ [.debug .linter
      (s!"{shownName d.name} at {d.span.text}: {(Terminal.ofDefinition policy d).length} "
        ++ s!"terminal(s), {(d.lint policy file).length} diagnostic(s)")]

/-- The log of judging a tree. -/
def Tree.lintLog (policy : Policy) (file : String) (t : Tree) : List Log.Line :=
  let shown := if file.isEmpty then "<tree>" else file
  t.definitions.flatMap (Definition.lintLog policy file)
    ++ [.info .linter
      (s!"Checked {t.definitions.length} function(s) in {shown}: "
        ++ s!"{(t.lint policy file).length} diagnostic(s)")]

/-! ## Texts and files -/

/-- The diagnostics of the tree that a text holds. -/
def lintText (policy : Policy) (file text : String) : Except (Fault LoadError) (List Diagnostic) :=
  (Tree.parse file text).map (Tree.lint policy file)

/-- The diagnostics of the tree that a file holds.  They name the path as it is
given. -/
def lintFile (policy : Policy) (disk : Disk) (path : String) :
    Except (Fault LoadError) (List Diagnostic) :=
  (Tree.parseFile disk path).map (Tree.lint policy path)

end TailLint
