import TransitMatching.Candidate.Manual
import TransitMatching.Candidate.Workers
import TransitMatching.Error

/-!
# Candidates for a schedule

Once the workers have refined all stops, these are scored in the order of the schedule.
A stop without a link gets the loop link of its facility, which may have to be made up
first, so the network can grow on the way. Manual links come last.

* `Build.score`: scores refined stops up to the first failure.
* `Settings.build`: the whole run. Whatever it gives, the network only grows by
  loop links, and what was counted stays counted.
-/

namespace TransitMatching

/-- A build under way: the network and the diagnostics as they are, and the candidates so far. -/
structure Build (α : Type) where
  network : Network α
  diagnostics : Diagnostics
  store : CandidateStore α := ∅

namespace Build

variable {α : Type} [Scalar α]

/-- What is counted when a stop turns out to have no link. -/
def emptyEvents (p : PendingStop α) : List Event :=
  if p.needsLoopLink && !p.settings.artificialOnly then
    [.counted .emptySearches, (SearchWarning.noCandidates p.occurrence.facility.id).event]
  else []

omit [Scalar α] in
/-- What is counted when the loop link of a facility has to be made up. -/
def loopEvents (net : Network α) (facility : String) : List Event :=
  if (net.existingLoopLink? facility).isSome then [] else [.counted .loopLinks]

/-- The links that serve a stop, in a network that holds them, and what is counted for it. -/
def servingLinks (net : Network α) (p : PendingStop α) :
    Except (NetworkError α) (Network α × List LinkIx × List Event) :=
  if p.needsLoopLink then
    let facility := p.occurrence.facility.id
    (net.loopLink facility p.position p.settings.networkModes).map fun (grown, ix) =>
      (grown, [ix], loopEvents net facility)
  else .ok (net, p.set.links, [])

variable [DecimalText α]

/-- The scored candidates of a stop. -/
def candidates (net : Network α) (p : PendingStop α) (links : List LinkIx) : LinkCandidates α :=
  .ofList <| LinkCandidate.assignPriorities <|
    links.map fun ix => LinkCandidate.ofOccurrence net ix p.occurrence p.position

/-- Scores stops in order. A failure ends the scoring; what was done before it stays done. -/
def score (b : Build α) : List (PendingStop α) → Build α × Option (NetworkError α)
  | [] => (b, none)
  | p :: rest =>
    let diagnostics := b.diagnostics.recordAll (emptyEvents p)
    match servingLinks b.network p with
    | .error e =>
      let network :=
        b.network.afterLoopLink p.occurrence.facility.id p.position p.settings.networkModes
      ({ b with network, diagnostics }, some e)
    | .ok (network, links, events) =>
      score
        { network
          diagnostics := diagnostics.recordAll events
          store := b.store.insert p.occurrence.key (candidates network p links) }
        rest

end Build

/-- What a build gives: a store or an error, and in any case the network and the diagnostics. -/
structure BuildResult (α : Type) where
  outcome : Except (MatchingError α) (CandidateStore α)
  network : Network α
  diagnostics : Diagnostics

namespace Settings

variable {α : Type} [Scalar α] [DecimalText α]

/-- Computes the candidates of every occurrence of a schedule. Its routes are refined by the workers
in some way, unless told otherwise one after the other. -/
def build (s : Settings α) (network : Network α) (schedule : Schedule α)
    (diagnostics : Diagnostics)
    (workers : s.Refinement network schedule.routes := .inOrder s network schedule.routes) :
    BuildResult α :=
  match s.validate with
  | .error e => { outcome := .error (.settings e), network, diagnostics }
  | .ok () =>
    let diagnostics := diagnostics.recordAll workers.events
    match workers.outcome with
    | .error e => { outcome := .error (.candidate e), network, diagnostics }
    | .ok pending =>
      match ({ network, diagnostics } : Build α).score pending with
      | (b, some e) =>
        { outcome := .error (.network e), network := b.network, diagnostics := b.diagnostics }
      | (b, none) =>
        { outcome := .ok (s.applyManual b.network pending b.store)
          network := b.network
          diagnostics := b.diagnostics.recordAll (s.manualEvents b.network pending) }

end Settings

end TransitMatching
