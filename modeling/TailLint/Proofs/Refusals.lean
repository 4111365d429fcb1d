import Mathlib.Data.List.TakeDrop
import Mathlib.Data.List.TakeWhile
import TailLint.Proofs.Loaded

/-!
# What a failure tells

A loader fails in two ways.  It refuses what it was given, in its own words, or it breaks down over
an integer that is too long to be written.  Which of the two it is, and what the words are, depends
on the first thing that goes wrong, and that may lie anywhere in a form.  What a failure tells is
the same wherever it lies, though, so it is enough to look at the single checks and to carry the
answer through the steps that are made of them (`FailsOnly.bind`).

A refusal names the file of the context.  A breakdown shows that some integer is too long: one in
the form, or, since a span that leaves the one around it is reported together with that one, an
integer in the span of the context.  Texts hold no such integers.  The reader of forms takes a
longer row of digits for another kind of number, and the reader of JSON does not go on after one.
So a breakdown over an integer that cannot be written is the fate of values that no text spells.

* `Tree.accounted_load` --- what the fault tells when a form is not loaded;
* `Tree.exists_refused_of_parse` --- a text that is not loaded is refused;
* `Json.short_of_parse` --- the integers in a JSON text that was read can be written.
-/

namespace TailLint

/-! ## Steps that fail -/

/-- Whether a step, if it fails at all, fails in the given way. -/
def FailsOnly {ε α : Type} (P : ε → Prop) (x : Except ε α) : Prop := ∀ e, x = .error e → P e

section Steps

variable {ε α β : Type} {P : ε → Prop}

theorem failsOnly_ok (a : α) : FailsOnly P (.ok a) := by
  intro e h
  cases h

theorem failsOnly_of_eq_ok {x : Except ε α} {a : α} (h : x = .ok a) : FailsOnly P x := by
  rw [h]
  exact failsOnly_ok a

theorem failsOnly_error {e : ε} (h : P e) : FailsOnly P (.error e : Except ε α) := by
  intro e' he
  cases he
  exact h

/-- Two steps fail as each of them does; the second may count on the success of the first. -/
theorem FailsOnly.bind {x : Except ε α} {f : α → Except ε β} (hx : FailsOnly P x)
    (hf : ∀ a, x = .ok a → FailsOnly P (f a)) : FailsOnly P (x >>= f) := by
  intro e h
  cases x with
  | error e' =>
    obtain rfl : e' = e := Except.error.inj h
    exact hx e' rfl
  | ok a => exact hf a rfl e h

theorem failsOnly_bind_of_ok {x : Except ε α} {f : α → Except ε β} {a : α} (hx : x = .ok a)
    (hf : FailsOnly P (f a)) : FailsOnly P (x >>= f) := by
  rw [hx]
  exact hf

theorem FailsOnly.exists_ok {x : Except ε α} (hx : FailsOnly P x) (hP : ∀ e, ¬ P e) :
    ∃ a, x = .ok a := by
  cases x with
  | error e => exact absurd (hx e rfl) (hP e)
  | ok a => exact ⟨a, rfl⟩

end Steps

/-- Rows fail as their items do. -/
theorem Tree.failsOnly_loadAll {P : Fault LoadError → Prop} {context : Context} {forms : List Form}
    (h : ∀ form ∈ forms, FailsOnly P (load context form)) :
    FailsOnly P (loadAll context forms) := by
  induction forms with
  | nil => exact failsOnly_ok _
  | cons form rest ih =>
    rw [List.forall_mem_cons] at h
    exact h.1.bind fun _ _ => (ih h.2).bind fun _ _ => failsOnly_ok _

/-! ## Faults of the loader -/

/-- What a fault in a file tells: a refusal names the file, and a breakdown is over an integer that
cannot be written, so that not everything is short. -/
def Fault.Accounted (file : String) (short : Prop) : Fault LoadError → Prop
  | .refused e => e.file = file
  | .broken cause => cause = .unwritableInteger ∧ ¬ short

namespace Context

/-- Whether the integers of the span around a form can be written.  Only the span of an `at` is ever
shown. -/
def Short (context : Context) : Prop := context.spanned = true → context.span.Short

section Checks

variable {context : Context} {short : Prop}

theorem accounted_refuse {α : Type} {reason : LoadReason} (form : Form)
    (h : short → reason.Writable) :
    FailsOnly (Fault.Accounted context.file short)
      (context.refuse reason form : Except (Fault LoadError) α) := by
  refine failsOnly_error ?_
  unfold Fault.ofRefusal
  split
  · exact rfl
  · next hlong => exact ⟨rfl, mt h hlong⟩

theorem accounted_name {form : Form} (h : short → form.Short) :
    FailsOnly (Fault.Accounted context.file short) (context.name form) := by
  unfold Context.name
  split
  · exact failsOnly_ok _
  · exact failsOnly_ok _
  · split
    · exact accounted_refuse _ h
    · exact failsOnly_ok _
  · exact accounted_refuse _ h

theorem accounted_names {forms : List Form} (h : short → ∀ form ∈ forms, form.Short) :
    FailsOnly (Fault.Accounted context.file short) (context.names forms) := by
  induction forms with
  | nil => exact failsOnly_ok _
  | cons form rest ih =>
    refine (accounted_name fun hs => h hs form List.mem_cons_self).bind fun _ _ => ?_
    exact (ih fun hs form hmem => h hs form (List.mem_cons_of_mem _ hmem)).bind
      fun _ _ => failsOnly_ok _

theorem accounted_parameters {form : Form} (h : short → form.Short) :
    FailsOnly (Fault.Accounted context.file short) (context.parameters form) := by
  unfold Context.parameters
  split
  · exact accounted_names fun hs => Form.shortAll_iff.mp (h hs)
  · exact accounted_refuse _ h

theorem accounted_integer {form : Form} (h : short → form.Short) :
    FailsOnly (Fault.Accounted context.file short) (context.integer form) := by
  unfold Context.integer
  split
  · exact failsOnly_ok _
  · exact accounted_refuse _ h

theorem short_of_integer {form : Form} {n : Int} (h : context.integer form = .ok n)
    (hshort : form.Short) : ShortInt n := by
  rw [integer_eq_ok_iff] at h
  rwa [h] at hshort

theorem accounted_readSpan (whole : Form) {line₁ column₁ line₂ column₂ : Form}
    (hcontext : short → context.Short)
    (h : short → ∀ form ∈ [line₁, column₁, line₂, column₂], form.Short) :
    FailsOnly (Fault.Accounted context.file short)
      (context.readSpan whole line₁ column₁ line₂ column₂) := by
  refine (accounted_integer fun hs => h hs _ (by simp)).bind fun l₁ hl₁ =>
    (accounted_integer fun hs => h hs _ (by simp)).bind fun c₁ hc₁ =>
    (accounted_integer fun hs => h hs _ (by simp)).bind fun l₂ hl₂ =>
    (accounted_integer fun hs => h hs _ (by simp)).bind fun c₂ hc₂ => ?_
  have hspan (hs : short) : (Span.of l₁ c₁ l₂ c₂).Short :=
    ⟨short_of_integer hl₁ (h hs _ (by simp)), short_of_integer hc₁ (h hs _ (by simp)),
      short_of_integer hl₂ (h hs _ (by simp)), short_of_integer hc₂ (h hs _ (by simp))⟩
  dsimp only
  split
  · exact accounted_refuse _ hspan
  · split
    · next houtside => exact accounted_refuse _ fun hs => ⟨hspan hs, hcontext hs houtside.1⟩
    · exact failsOnly_ok _

/-- The span of an `at` is as short as the integers in it. -/
theorem short_of_readSpan {whole line₁ column₁ line₂ column₂ : Form} {span : Span}
    (h : context.readSpan whole line₁ column₁ line₂ column₂ = .ok span)
    (hshort : ∀ form ∈ [line₁, column₁, line₂, column₂], form.Short) : span.Short := by
  obtain ⟨⟨rfl, rfl, rfl, rfl⟩, -⟩ := readSpan_eq_ok_iff.mp h
  exact ⟨hshort (.integer _) (by simp), hshort (.integer _) (by simp),
    hshort (.integer _) (by simp), hshort (.integer _) (by simp)⟩

theorem accounted_operator (whole : Form) {form : Form} (h : short → form.Short) :
    FailsOnly (Fault.Accounted context.file short) (context.operator whole form) := by
  refine (accounted_name h).bind fun _ _ => ?_
  split
  · exact failsOnly_ok _
  · exact accounted_refuse _ fun _ => trivial

end Checks

end Context

namespace Tree

/-- The faults of a tagged list tell what those of its arguments tell. -/
theorem accounted_loadTagged {context : Context} {short : Prop} (tag : Tag) (name : String)
    {arguments : List Form} (hcontext : short → context.Short)
    (hshort : short → ∀ form ∈ arguments, form.Short)
    (h : ∀ form ∈ arguments, ∀ c : Context, (short → c.Short) →
      FailsOnly (Fault.Accounted c.file short) (load c form)) :
    FailsOnly (Fault.Accounted context.file short) (loadTagged context tag name arguments) := by
  have hargument {form : Form} (hmem : form ∈ arguments) :
      FailsOnly (Fault.Accounted context.file short) (load context form) :=
    h form hmem context hcontext
  have hform {form : Form} (hmem : form ∈ arguments) : short → form.Short :=
    fun hs => hshort hs form hmem
  unfold loadTagged
  split
  · -- at
    next line₁ column₁ line₂ column₂ form =>
    have hnumbers (hs : short) : ∀ form ∈ [line₁, column₁, line₂, column₂], form.Short :=
      fun _ hmem => hform (List.mem_append_left [form] hmem) hs
    refine (Context.accounted_readSpan _ hcontext hnumbers).bind fun span hspan => ?_
    exact h form (by simp) (context.inside span)
      fun hs _ => Context.short_of_readSpan hspan (hnumbers hs)
  · -- if, with a condition and up to two branches
    exact (hargument (by simp)).bind fun _ _ => failsOnly_ok _
  · exact (hargument (by simp)).bind fun _ _ => (hargument (by simp)).bind fun _ _ => failsOnly_ok _
  · exact (hargument (by simp)).bind fun _ _ => (hargument (by simp)).bind fun _ _ =>
      (hargument (by simp)).bind fun _ _ => failsOnly_ok _
  · -- call
    refine (Context.accounted_name (hform (by simp))).bind fun _ _ => ?_
    exact (failsOnly_loadAll fun form hmem => hargument (by simp [hmem])).bind
      fun _ _ => failsOnly_ok _
  · -- pipe, without and with an operator
    exact (hargument (by simp)).bind fun _ _ => (hargument (by simp)).bind fun _ _ => failsOnly_ok _
  · exact (Context.accounted_operator _ (hform (by simp))).bind fun _ _ =>
      (hargument (by simp)).bind fun _ _ => (hargument (by simp)).bind fun _ _ => failsOnly_ok _
  · -- function: without a name, then with too many forms or too few, then with a name
    next parameters =>
    have hparameters : short → (Form.list parameters).Short := hform (by simp)
    exact (Context.accounted_parameters hparameters).bind fun _ _ => failsOnly_ok _
  · next parameters _ =>
    have hparameters : short → (Form.list parameters).Short := hform (by simp)
    exact (Context.accounted_parameters hparameters).bind fun _ _ =>
      (hargument (by simp)).bind fun _ _ => failsOnly_ok _
  · exact Context.accounted_refuse _ fun _ => trivial
  · exact (Context.accounted_name (hform (by simp))).bind fun _ _ =>
      Context.accounted_refuse _ fun _ => trivial
  · exact (Context.accounted_name (hform (by simp))).bind fun _ _ =>
      (Context.accounted_parameters (hform (by simp))).bind fun _ _ => failsOnly_ok _
  · exact (Context.accounted_name (hform (by simp))).bind fun _ _ =>
      (Context.accounted_parameters (hform (by simp))).bind fun _ _ =>
      (hargument (by simp)).bind fun _ _ => failsOnly_ok _
  · -- lambda
    exact (Context.accounted_parameters (hform (by simp))).bind fun _ _ => failsOnly_ok _
  · exact (Context.accounted_parameters (hform (by simp))).bind fun _ _ =>
      (hargument (by simp)).bind fun _ _ => failsOnly_ok _
  · -- the arrows
    exact (hargument (by simp)).bind fun _ _ => (hargument (by simp)).bind fun _ _ => failsOnly_ok _
  · -- expr
    refine (Context.accounted_name (hform (by simp))).bind fun _ _ => ?_
    exact (failsOnly_loadAll fun form hmem => hargument (by simp [hmem])).bind
      fun _ _ => failsOnly_ok _
  · exact Context.accounted_refuse _ fun _ => trivial

/-- A refusal names the file of the context, wherever in the form it arises, and a breakdown means
that an integer in the form or in the span around it cannot be written. -/
theorem accounted_load {context : Context} {form : Form} {short : Prop}
    (hcontext : short → context.Short) (hform : short → form.Short) :
    FailsOnly (Fault.Accounted context.file short) (load context form) := by
  induction form using Form.induction_on_items generalizing context with
  | step form ih =>
    unfold load
    split
    · exact failsOnly_ok _
    · exact failsOnly_ok _
    · next value =>
      by_cases hshort : ShortInt value
      · rw [writtenInt_of_short hshort]
        exact failsOnly_ok _
      · rw [writtenInt_of_long hshort]
        exact failsOnly_error ⟨rfl, mt hform hshort⟩
    · exact failsOnly_ok _
    · exact Context.accounted_refuse _ fun _ => trivial
    · next name arguments =>
      have hshort (hs : short) : ∀ form ∈ arguments, form.Short :=
        Form.shortAll_iff.mp (hform hs).2
      have hargument : ∀ form ∈ arguments, ∀ c : Context, (short → c.Short) →
          FailsOnly (Fault.Accounted c.file short) (load c form) := fun form hmem c hc =>
        ih _ rfl form (List.mem_cons_of_mem _ hmem) hc fun hs => hshort hs form hmem
      split
      · exact Context.accounted_refuse _ fun _ => trivial
      · rw [loadStatements_eq]
        refine (failsOnly_loadAll fun form hmem => ?_).bind fun _ _ => failsOnly_ok _
        exact hargument form (List.mem_filter.mp hmem).1 context hcontext
      · exact accounted_loadTagged _ _ hcontext hshort hargument
    · exact Context.accounted_refuse _ fun hs => (hform hs).1
    · exact Context.accounted_refuse _ hform

/-- A text that is not loaded is refused, for the integers in it can be written. -/
theorem exists_refused_of_parse {file text : String} {fault : Fault LoadError}
    (h : parse file text = .error fault) : ∃ e, fault = .refused e := by
  unfold parse at h
  split at h
  · cases h
    exact ⟨_, rfl⟩
  · next form hread =>
    have hcontext : Context.Short { file } := nofun
    have htold : fault.Accounted file True :=
      accounted_load (fun _ => hcontext) (fun _ => Form.short_of_read hread) fault h
    cases fault with
    | refused e => exact ⟨e, rfl⟩
    | broken => exact absurd trivial htold.2

end Tree

/-! ## The integers in a JSON text -/

namespace Json

theorem isDigit_of_mem_splitWhole {s : List Char} {c : Char} (h : c ∈ (splitWhole s).1) :
    c.isDigit = true := by
  unfold splitWhole at h
  split at h
  · obtain rfl : c = '0' := List.mem_singleton.mp h
    rfl
  · rw [List.span_eq_takeWhile_dropWhile] at h
    exact List.mem_takeWhile_imp h

theorem short_of_readNumber {s rest : List Char} {value : Json}
    (h : readNumber s = .ok (value, rest)) : value.Short := by
  revert h
  fun_cases readNumber s with
  | case1 => exact nofun
  | case2 => exact nofun
  | case3 negative body _ whole _ hwhole _ _ _ _ _ _ _ _ hlength =>
    intro h
    cases h
    refine Numeral.shortInt_signed _ (fun c hc => isDigit_of_mem_splitWhole (s := body) ?_)
      (Nat.not_lt.mp hlength)
    rwa [hwhole]
  | case4 =>
    intro h
    cases h
    trivial

/-- The three readers, by induction on their common fuel: what a container has read before stays
short when the next item is added. -/
theorem short_of_readers (fuel : Nat) :
    (∀ {s rest value}, readValue fuel s = .ok (value, rest) → value.Short)
      ∧ (∀ {read s rest value}, (∀ item ∈ read, item.Short) →
        readItems fuel read s = .ok (value, rest) → value.Short)
      ∧ ∀ {read s rest value}, ShortMembers read →
        readMembers fuel read s = .ok (value, rest) → value.Short := by
  induction fuel with
  | zero =>
    refine ⟨fun h => ?_, fun _ h => ?_, fun _ h => ?_⟩
    · cases h
    · cases h
    · cases h
  | succ fuel ih =>
    obtain ⟨ihvalue, ihitems, ihmembers⟩ := ih
    refine ⟨fun h => ?_, fun {read} _ _ _ hread h => ?_, fun hread h => ?_⟩
    · unfold readValue at h
      split at h
      · obtain ⟨_, -, heq⟩ := map_eq_ok_iff.mp h
        cases heq
        trivial
      · split at h
        · cases h; trivial
        · have hempty : ShortMembers [] := trivial
          exact ihmembers hempty h
      · split at h
        · cases h; trivial
        · exact ihitems (fun _ hmem => absurd hmem List.not_mem_nil) h
      all_goals try (cases h; trivial)
      exact short_of_readNumber h
    · unfold readItems at h
      split at h
      · cases h
      · next item after hitem =>
        have hread' : ∀ item' ∈ item :: read, item'.Short :=
          List.forall_mem_cons.mpr ⟨ihvalue hitem, hread⟩
        split at h
        · cases h
          exact shortItems_iff.mpr fun item hmem => hread' item (List.mem_reverse.mp hmem)
        · exact ihitems hread' h
        · cases h
    · unfold readMembers at h
      split at h
      · cases h
      · next key after _ =>
        split at h
        · cases h
        · next hvalue =>
          have hread' := shortMembers_put key (ihvalue hvalue) hread
          split at h
          · cases h
            exact hread'
          · exact ihmembers hread' h
          · cases h

/-- The integers in a JSON text that was read can be written. -/
theorem short_of_parse {text : String} {value : Json} (h : parse text = .ok value) :
    value.Short := by
  rw [parse, mapError_eq_ok_iff] at h
  unfold readText at h
  split at h
  · cases h
  · split at h
    · cases h
    · next hvalue =>
      split at h
      · cases h
        exact (short_of_readers _).1 hvalue
      · cases h

end Json

end TailLint
