import TailLint.Number.Numeral

/-!
# Source spans

A tree comes from a source text that is no longer at hand.  What is left of it is
the span of each node: the first and the last place of the text that the node
covers.  Nothing forces the numbers of a span to make sense --- a tree file may
hold any integers, negative ones and huge ones included --- so lines and columns
are `Int`s and a span may even end before it starts.  The two relations below are
therefore stated on arbitrary spans.

* `Position.le` is reading order: by line, and within one line by column.
* `Span.contains` is containment of one span in another, ends included.
* `Span.text` is the printed form `line:column-line:column`, which only a span with
  short numbers has (`Span.Short`).
-/

namespace TailLint

/-- A place in a source text. -/
structure Position where
  line : Int := 0
  column : Int := 0
  deriving DecidableEq, Inhabited

namespace Position

/-- Reading order: by line, and within one line by column. -/
protected def le (p q : Position) : Prop :=
  p.line < q.line ∨ p.line = q.line ∧ p.column ≤ q.column

instance : LE Position := ⟨Position.le⟩

theorem le_def (p q : Position) :
    p ≤ q ↔ p.line < q.line ∨ p.line = q.line ∧ p.column ≤ q.column := Iff.rfl

instance (p q : Position) : Decidable (p ≤ q) :=
  inferInstanceAs (Decidable (p.line < q.line ∨ p.line = q.line ∧ p.column ≤ q.column))

theorem le_refl (p : Position) : p ≤ p := Or.inr ⟨rfl, Int.le_refl _⟩

theorem le_trans {p q r : Position} (hpq : p ≤ q) (hqr : q ≤ r) : p ≤ r := by
  rw [le_def] at hpq hqr ⊢
  omega

/-- Reading order is total. -/
theorem le_total (p q : Position) : p ≤ q ∨ q ≤ p := by
  rw [le_def, le_def]
  omega

end Position

/-- The stretch of source text that a node covers, from its first place to its
last.  The default span, all zeros, stands for "not known". -/
structure Span where
  start : Position := {}
  stop : Position := {}
  deriving DecidableEq, Inhabited

namespace Span

/-- The span with the given first line and column and last line and column. -/
def of (line₁ column₁ line₂ column₂ : Int) : Span :=
  ⟨⟨line₁, column₁⟩, ⟨line₂, column₂⟩⟩

/-- A span is well placed when it does not end before it starts. -/
def WellPlaced (s : Span) : Prop := s.start ≤ s.stop

instance (s : Span) : Decidable s.WellPlaced :=
  inferInstanceAs (Decidable (s.start ≤ s.stop))

/-- Containment of spans, ends included. -/
def Contains (outer inner : Span) : Prop :=
  outer.start ≤ inner.start ∧ inner.stop ≤ outer.stop

instance (outer inner : Span) : Decidable (outer.Contains inner) :=
  inferInstanceAs (Decidable (_ ∧ _))

theorem Contains.refl (s : Span) : s.Contains s :=
  ⟨Position.le_refl _, Position.le_refl _⟩

theorem Contains.trans {a b c : Span} (hab : a.Contains b) (hbc : b.Contains c) :
    a.Contains c :=
  ⟨Position.le_trans hab.1 hbc.1, Position.le_trans hbc.2 hab.2⟩

/-- Whether all four numbers of a span are short. -/
def Short (s : Span) : Prop :=
  ShortInt s.start.line ∧ ShortInt s.start.column ∧ ShortInt s.stop.line ∧ ShortInt s.stop.column

instance (s : Span) : Decidable s.Short :=
  inferInstanceAs (Decidable (_ ∧ _ ∧ _ ∧ _))

/-- The printed form `line:column-line:column`. -/
def text (s : Span) : String :=
  s!"{s.start.line}:{s.start.column}-{s.stop.line}:{s.stop.column}"

end Span

end TailLint
