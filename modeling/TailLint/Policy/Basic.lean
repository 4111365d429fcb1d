import TailLint.NameSet

/-!
# Return policies

A policy says how the functions of a program are to give back their values: by their
last expression (implicit style) or by an explicit call (explicit style), and whether
a terminal `if` may do without an `else`.  It also holds two sets of names: the calls
that count as an explicit exit, and the functions that are never checked.

Both sets have fixed members that no configuration can remove.  That they are there
is part of the type, so a policy cannot be without them; every policy is built by
`Policy.of`, which adds them to whatever names it is given.

The functions that are never checked are looked at only when the policy asks for
something that the source language does not do by itself (`consultsExemptions`):
under the default policy they are checked like all others.
-/

namespace TailLint

/-- The two return styles. -/
inductive ReturnStyle where
  | implicit
  | explicit
  deriving DecidableEq, Inhabited

namespace ReturnStyle

/-- All styles, in the order in which messages list them. -/
def all : List ReturnStyle := [.implicit, .explicit]

/-- The word for a style. -/
def word : ReturnStyle → String
  | .implicit => "implicit"
  | .explicit => "explicit"

/-- The style that a word stands for. -/
def ofWord? (text : String) : Option ReturnStyle := all.find? (·.word = text)

@[simp] theorem ofWord?_word (style : ReturnStyle) : ofWord? style.word = some style := by
  cases style <;> rfl

end ReturnStyle

/-- The calls that always count as an explicit exit: plain returns and errors, method
dispatch, and calls into compiled code. -/
def baseReturnFunctions : NameSet :=
  .ofList ["return", "stop", "q", "quit", "invokeRestart", "tryInvokeRestart", "UseMethod",
    "NextMethod", "standardGeneric", "callNextMethod", ".C", ".Call", ".External", ".Fortran"]

/-- The functions that are always exempt: the hooks of a package, whose values nobody
uses. -/
def lifecycleHooks : NameSet :=
  .ofList [".onLoad", ".onUnload", ".onAttach", ".onDetach", ".Last.lib", ".First", ".Last"]

/-- A return policy. -/
structure Policy where
  style : ReturnStyle
  /-- Whether a terminal `if` may do without an `else`. -/
  allowImplicitElse : Bool
  /-- The calls that count as an explicit exit. -/
  returnFunctions : NameSet
  /-- The functions that are never checked. -/
  exceptFunctions : NameSet
  base_mem : ∀ name ∈ baseReturnFunctions, name ∈ returnFunctions
  hooks_mem : ∀ name ∈ lifecycleHooks, name ∈ exceptFunctions
  deriving DecidableEq

namespace Policy

/-- The policy with the given style and flag, and with the given names beside the
fixed ones. -/
def of (style : ReturnStyle) (allowImplicitElse : Bool) (returns excepts : NameSet) : Policy where
  style := style
  allowImplicitElse := allowImplicitElse
  returnFunctions := baseReturnFunctions.union returns
  exceptFunctions := lifecycleHooks.union excepts
  base_mem _ h := NameSet.mem_union.mpr (Or.inl h)
  hooks_mem _ h := NameSet.mem_union.mpr (Or.inl h)

/-- The default policy. -/
def default : Policy := .of .implicit true .empty .empty

instance : Inhabited Policy := ⟨default⟩

/-- Policies with the same style, the same flag and the same members of both sets are
equal. -/
theorem ext {p q : Policy} (style : p.style = q.style)
    (flag : p.allowImplicitElse = q.allowImplicitElse)
    (returns : ∀ x, x ∈ p.returnFunctions ↔ x ∈ q.returnFunctions)
    (excepts : ∀ x, x ∈ p.exceptFunctions ↔ x ∈ q.exceptFunctions) : p = q := by
  have hr := NameSet.ext returns
  have he := NameSet.ext excepts
  cases p
  cases q
  simp_all

/-- Whether the style is the implicit one. -/
def isImplicit (p : Policy) : Bool := p.style = .implicit

/-- Whether the exempt functions are looked at. -/
def consultsExemptions (p : Policy) : Bool := p.style = .explicit || !p.allowImplicitElse

/-- Whether a function of this name is exempt. -/
def isExempt (p : Policy) (name : Option String) : Bool :=
  name.any fun name => decide (name ∈ p.exceptFunctions)

/-- Whether a call of this name is an explicit exit. -/
def isReturnFunction (p : Policy) (name : Option String) : Bool :=
  name.any fun name => decide (name ∈ p.returnFunctions)

end Policy

end TailLint
