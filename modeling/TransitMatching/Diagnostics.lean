import TransitMatching.Table

/-!
# Diagnostics of a run

Conditions that a run recovers from are counted: eight counters, and how often
each warning came up, in the order of first occurrence.

* `count_record`, `occurrences_record`: what an event adds.
* `count_recordAll`: what a list of events adds to a counter.
-/

namespace TransitMatching

/-- What is counted during a run. -/
inductive Counter where
  /-- Loop links made up for stops without a usable candidate. -/
  | loopLinks
  /-- Searches that admitted no link. -/
  | emptySearches
  /-- Manual candidates that name no link. -/
  | overridesSkipped
  /-- Manual candidates kept although they are too far away. -/
  | overridesOverDistance
  | routerBuilds
  | pathQueries
  | pathCacheHits
  | unreachablePaths
  deriving DecidableEq, Repr

/-- Something worth counting. -/
inductive Event where
  | warned (text : String)
  | counted (counter : Counter)
  deriving DecidableEq, Repr

/-- The counts of a run. -/
structure Diagnostics where
  counts : Table Counter Nat
  warnings : Table String Nat

namespace Diagnostics

/-- The diagnostics of a run that has not begun. -/
def empty : Diagnostics := ⟨∅, ∅⟩

instance : Inhabited Diagnostics := ⟨empty⟩

/-- The value of a counter. -/
def count (d : Diagnostics) (c : Counter) : Nat := (d.counts.get? c).getD 0

/-- How often a warning was recorded. -/
def occurrences (d : Diagnostics) (text : String) : Nat := (d.warnings.get? text).getD 0

/-- Adds one to a counter. -/
def increment (d : Diagnostics) (c : Counter) : Diagnostics :=
  { d with counts := d.counts.put c (d.count c + 1) }

/-- Records a warning. -/
def warn (d : Diagnostics) (text : String) : Diagnostics :=
  { d with warnings := d.warnings.put text (d.occurrences text + 1) }

/-- Records an event. -/
def record (d : Diagnostics) : Event → Diagnostics
  | .warned text => d.warn text
  | .counted c => d.increment c

/-- Records events in order. -/
def recordAll (d : Diagnostics) (events : List Event) : Diagnostics := events.foldl record d

theorem count_record (d : Diagnostics) (e : Event) (c : Counter) :
    (d.record e).count c = d.count c + if e = .counted c then 1 else 0 := by
  cases e with
  | warned text => simp [record, warn, count]
  | counted c' =>
    by_cases h : c' = c
    · subst h; simp [record, increment, count]
    · simp [record, increment, count, h]

theorem count_recordAll (d : Diagnostics) (events : List Event) (c : Counter) :
    (d.recordAll events).count c = d.count c + events.count (.counted c) := by
  unfold recordAll
  induction events generalizing d with
  | nil => rfl
  | cons e rest ih =>
    rw [List.foldl_cons, ih, count_record, List.count_cons, Nat.add_assoc, Nat.add_comm (ite _ _ _)]
    simp

theorem occurrences_record (d : Diagnostics) (e : Event) (text : String) :
    (d.record e).occurrences text = d.occurrences text + if e = .warned text then 1 else 0 := by
  cases e with
  | warned text' =>
    by_cases h : text' = text
    · subst h; simp [record, warn, occurrences]
    · simp [record, warn, occurrences, h]
  | counted c => simp [record, increment, occurrences]

end Diagnostics

end TransitMatching
