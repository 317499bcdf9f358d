import TransitMatching.Candidate.Ranking
import TransitMatching.Candidate.Refinement

/-!
# Candidates given by hand

Manual links are merged into the computed candidates of every occurrence that
they are meant for, entry after entry. They score one, however far away they are.

* `Settings.applyManual`: the store after all entries.
* `Settings.manualEvents`: what is counted on the way.
-/

namespace TransitMatching

/-- The warnings about manual links. -/
inductive ManualWarning (α : Type) where
  | unknownLink (link facility : String)
  | overDistance (link facility : String) (distance maxDistance : α)
  | nothingResolved (facility : String)
  deriving DecidableEq, Repr

namespace ManualWarning

variable {α : Type} [DecimalText α]

/-- The warning in words. -/
def text : ManualWarning α → String
  | unknownLink link facility =>
    "Manual candidate link " ++ link ++ " of stop facility " ++ facility ++
      " does not exist, skipping"
  | overDistance link facility distance maxDistance =>
    "Manual candidate link " ++ link ++ " is " ++ DecimalText.fixed 1 distance ++
      " away from stop facility " ++ facility ++ ", beyond the maximum of " ++
      DecimalText.fixed 1 maxDistance
  | nothingResolved facility =>
    "Manual candidates of stop facility " ++ facility ++
      " resolved to no link, keeping the computed candidates"

/-- The warning as an event. -/
def event (w : ManualWarning α) : Event := .warned w.text

end ManualWarning

namespace ManualLinks

variable {α : Type}

/-- The links of an entry that the network holds, in the order of the entry. -/
def resolve (m : ManualLinks) (net : Network α) : List LinkIx := m.links.filterMap net.linkIx?

variable [Scalar α]

/-- The stops that an entry is meant for. -/
def served (m : ManualLinks) (pending : List (PendingStop α)) : List (PendingStop α) :=
  pending.filter fun p => m.appliesTo p.occurrence.facility.id p.mode

variable [DecimalText α]

/-- The manual candidates of a stop. -/
def candidates (m : ManualLinks) (net : Network α) (p : PendingStop α) :
    List (LinkCandidate α) :=
  (m.resolve net).map fun ix => LinkCandidate.ofOccurrence net ix p.occurrence p.position

/-- Merges an entry into the candidates of one stop. An entry that resolves to nothing replaces
nothing. -/
def applyTo (m : ManualLinks) (net : Network α) (store : CandidateStore α) (p : PendingStop α) :
    CandidateStore α :=
  let manual := m.candidates net p
  if m.replace && manual.isEmpty then store
  else
    let key := p.occurrence.key
    store.insert key ((store[key]?.getD default).merge manual m.replace)

/-- Merges an entry into the candidates of all stops that it is meant for. -/
def apply (m : ManualLinks) (net : Network α) (pending : List (PendingStop α))
    (store : CandidateStore α) : CandidateStore α :=
  (m.served pending).foldl (m.applyTo net) store

/-- What is counted for the links of an entry that do not exist. -/
def resolutionEvents (m : ManualLinks) (net : Network α) : List Event :=
  m.links.flatMap fun link =>
    if (net.linkIx? link).isSome then []
    else
      [.counted .overridesSkipped,
        (ManualWarning.unknownLink link m.facility : ManualWarning α).event]

/-- What is counted for an entry at one stop. -/
def stopEvents (m : ManualLinks) (net : Network α) (p : PendingStop α) : List Event :=
  let manual := m.candidates net p
  (manual.flatMap fun c =>
    if p.settings.maxDistance < c.distance then
      [.counted .overridesOverDistance,
        (ManualWarning.overDistance (net.link c.link).id m.facility c.distance
          p.settings.maxDistance).event]
    else []) ++
    if m.replace && manual.isEmpty then
      [(ManualWarning.nothingResolved m.facility : ManualWarning α).event]
    else []

/-- What is counted for an entry. -/
def events (m : ManualLinks) (net : Network α) (pending : List (PendingStop α)) : List Event :=
  m.resolutionEvents net ++ (m.served pending).flatMap (m.stopEvents net)

end ManualLinks

namespace Settings

variable {α : Type} [Scalar α] [DecimalText α]

/-- The store after all manual entries, in the order of the settings. -/
def applyManual (s : Settings α) (net : Network α) (pending : List (PendingStop α))
    (store : CandidateStore α) : CandidateStore α :=
  s.manual.foldl (fun store m => m.apply net pending store) store

/-- What is counted for all manual entries. -/
def manualEvents (s : Settings α) (net : Network α) (pending : List (PendingStop α)) :
    List Event :=
  s.manual.flatMap fun m => m.events net pending

end Settings

end TransitMatching
