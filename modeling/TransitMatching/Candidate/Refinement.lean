import TransitMatching.Candidate.Reduction
import TransitMatching.Candidate.Separation
import TransitMatching.Diagnostics
import TransitMatching.Schedule.Occurrence
import TransitMatching.Settings.Basic

/-!
# The links found for the stops of a route

For each stop of a route, the link that the facility names or the links nearby
make up its raw set. Sets of consecutive stops are separated, then each is reduced
to one link of each chain.

* `refineRoute`, `refineRoutes`: the stops of a route, and of all routes.
* `routeEvents`: the warnings that come up on the way.
-/

namespace TransitMatching

/-- An occurrence of a stop with the links that are left for it. -/
structure PendingStop (α : Type) [Scalar α] where
  occurrence : Occurrence α
  position : Point α
  mode : Mode
  settings : ModeSettings α
  set : RawSet α

namespace PendingStop

variable {α : Type} [Scalar α]

/-- Whether the stop can only be served by a loop link. -/
def needsLoopLink (p : PendingStop α) : Bool := p.settings.artificialOnly || p.set.isEmpty

end PendingStop

namespace ModeSettings

variable {α : Type} [Scalar α]

/-- The bounds of the search for links. -/
def bounds (m : ModeSettings α) (radius : α) : SearchBounds α :=
  { radius, count := m.maxCount, tolerance := m.tolerance, maxDistance := m.maxDistance }

end ModeSettings

/-- The warnings of the search for links. -/
inductive SearchWarning where
  | noModeSettings (mode : Mode)
  | unknownLinkRef (facility link : String)
  | noCandidates (facility : String)
  deriving DecidableEq, Repr

namespace SearchWarning

/-- The warning in words. -/
def text : SearchWarning → String
  | noModeSettings mode =>
    "No mode parameters configured for schedule mode " ++ mode ++
      ", its stops can only be served by loop links"
  | unknownLinkRef facility link =>
    "Stop facility " ++ facility ++ " references unknown link " ++ link ++ ", searching instead"
  | noCandidates facility =>
    "No link candidates found for stop facility " ++ facility ++ ", using a loop link"

/-- The warning as an event. -/
def event (w : SearchWarning) : Event := .warned w.text

end SearchWarning

namespace Settings

variable {α : Type} [Scalar α]

/-- The settings of a schedule mode. A mode without settings may travel on no network mode. -/
def modeOrDefault (s : Settings α) (mode : Mode) : ModeSettings α := (s.mode? mode).getD {}

/-- The links found for a stop at a position. -/
def rawSet (s : Settings α) (net : Network α) (m : ModeSettings α) (facility : Facility α)
    (position : Point α) : RawSet α :=
  if m.artificialOnly then RawSet.empty
  else
    match facility.linkRef.bind net.linkIx? with
    | some ix => RawSet.ofLink net ix position
    | none =>
      RawSet.searched net
        (net.boundedLinks position (m.bounds s.searchRadius) (some m.networkModes))

omit [Scalar α] in
/-- The warning of a facility that names a link which the network does not hold. -/
def linkRefEvents (net : Network α) (facility : Facility α) : List Event :=
  match facility.linkRef with
  | some link =>
    if (net.linkIx? link).isNone then [(SearchWarning.unknownLinkRef facility.id link).event]
    else []
  | none => []

/-- An occurrence with the links found for it. -/
def pend (s : Settings α) (net : Network α) (mode : Mode) (o : Occurrence α) :
    Except CandidateError (PendingStop α) :=
  match o.position with
  | none => .error (.missingCoordinate o.facility.id o.route)
  | some position =>
    let m := s.modeOrDefault mode
    .ok { occurrence := o, position, mode, settings := m,
          set := s.rawSet net m o.facility position }

/-- The stops of a route with the links that are left for them. -/
def refineRoute (s : Settings α) (net : Network α) (line : String) (route : Route α) :
    Except CandidateError (List (PendingStop α)) := do
  let pending ← (route.occurrences line).mapM (s.pend net route.mode)
  let sets ← RawSet.separateRun net (pending.map PendingStop.set)
  return pending.zipWith (fun p set => { p with set := set.reduce net }) sets

/-- The warnings that come up for a route: a mode without settings, then facilities that name an
unknown link, up to the first stop without a position. -/
def routeEvents (s : Settings α) (net : Network α) (route : Route α) : List Event :=
  let modeEvents :=
    if (s.mode? route.mode).isNone then [(SearchWarning.noModeSettings route.mode).event] else []
  let located := route.stops.takeWhile fun stop => stop.facility.position.isSome
  if (s.modeOrDefault route.mode).artificialOnly then modeEvents
  else modeEvents ++ located.flatMap fun stop => linkRefEvents net stop.facility

/-- The stops of routes, in the order of the routes. -/
def refineRoutes (s : Settings α) (net : Network α) (routes : List (Line α × Route α)) :
    Except CandidateError (List (PendingStop α)) :=
  List.flatten <$> routes.mapM fun (line, route) => s.refineRoute net line.id route

end Settings

end TransitMatching
