import TransitMatching.Candidate.RawSet

/-!
# Consecutive stops share no link

A link found for two consecutive stops stays with the nearer one, and with the
earlier one if neither is nearer. A pre-assigned set keeps its link against one
that is not.

* `separate`: two sets.
* `separateRun`: the sets of a route, pair after pair.
-/

namespace TransitMatching

/-- Why candidates cannot be computed. -/
inductive CandidateError where
  | missingCoordinate (facility route : String)
  | separationMismatch (link previous current : String)
  deriving DecidableEq, Repr

namespace CandidateError

/-- The error in words. -/
def message : CandidateError → String
  | missingCoordinate facility route =>
    "stop facility " ++ facility ++ " of route " ++ route ++ " has no coordinate"
  | separationMismatch link previous current =>
    "link " ++ link ++ " was found from differing nodes " ++ previous ++ " and " ++ current ++
      " by consecutive stops"

end CandidateError

/-- Two sets after separation, and the error that ended it early, if there was one. -/
structure Separation (α : Type) where
  previous : RawSet α
  current : RawSet α
  mismatch : Option CandidateError := none
  deriving DecidableEq, Repr

namespace RawSet

variable {α : Type} [Scalar α]

omit [Scalar α] in
/-- The entries of links that are in both sets, in the order of the first. -/
def shared (previous current : RawSet α) : List (RawCandidate α × RawCandidate α) :=
  previous.entries.filterMap fun before => (current.get? before.link).map (before, ·)

/-- Leaves a shared link in one of the sets, unless both are pre-assigned. -/
def settle (before after : RawCandidate α) (previous current : RawSet α) : RawSet α × RawSet α :=
  match previous.preassigned, current.preassigned with
  | true, true => (previous, current)
  | true, false => (previous, current.remove after.link)
  | false, true => (previous.remove before.link, current)
  | false, false =>
    if after.distance < before.distance then (previous.remove before.link, current)
    else (previous, current.remove after.link)

/-- Settles shared links one by one, up to one that was found from two different nodes. -/
def settleAll (net : Network α) :
    List (RawCandidate α × RawCandidate α) → RawSet α → RawSet α → Separation α
  | [], previous, current => { previous, current }
  | (before, after) :: rest, previous, current =>
    if before.source ≠ after.source then
      { previous
        current
        mismatch := some (.separationMismatch (net.link before.link).id (net.node before.source).id
          (net.node after.source).id) }
    else
      let (previous, current) := settle before after previous current
      settleAll net rest previous current

/-- Separates the sets of two consecutive stops. -/
def separate (net : Network α) (previous current : RawSet α) : Separation α :=
  settleAll net (shared previous current) previous current

/-- Separates a set from the first of a list, that one from the second, and so on. -/
def separateFrom (net : Network α) (previous : RawSet α) :
    List (RawSet α) → Except CandidateError (List (RawSet α))
  | [] => .ok [previous]
  | current :: rest =>
    let s := separate net previous current
    match s.mismatch with
    | some e => .error e
    | none => (s.previous :: ·) <$> separateFrom net s.current rest

/-- Separates the sets of the stops of a route, from the first pair to the last. -/
def separateRun (net : Network α) : List (RawSet α) → Except CandidateError (List (RawSet α))
  | [] => .ok []
  | first :: rest => separateFrom net first rest

end RawSet

end TransitMatching
