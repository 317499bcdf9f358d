import TransitMatching.Schedule.Basic

/-!
# Occurrences of stops

A route may serve a facility more than once. Each time is an occurrence, named by
a key of five components: line, route, facility, arrival and departure.
-/

namespace TransitMatching

/-- One occurrence of a stop in a route of a line. -/
structure Occurrence (α : Type) where
  line : String
  route : String
  stop : Stop α
  deriving DecidableEq, Repr

namespace Occurrence

/-- A key component with a backslash before each separator and each backslash. -/
def escape (component : String) : String :=
  String.ofList (component.toList.flatMap fun c =>
    if c = '\\' ∨ c = '.' then ['\\', c] else [c])

variable {α : Type}

/-- The facility of the stop. -/
def facility (o : Occurrence α) : Facility α := o.stop.facility

/-- The position of the facility, if it has one. -/
def position (o : Occurrence α) : Option (Point α) := o.stop.facility.position

/-- When the vehicle leaves; without a departure, when it arrives. -/
def departure (o : Occurrence α) : Option α := o.stop.departure.or o.stop.arrival

/-- When the vehicle arrives; without an arrival, when it leaves. -/
def arrival (o : Occurrence α) : Option α := o.stop.arrival.or o.stop.departure

variable [DecimalText α]

/-- An offset as a key component: its shortest decimal, or a hyphen where there is none. -/
def offsetText (offset : Option α) : String :=
  offset.elim "-" fun a => escape (DecimalText.shortest a)

/-- The components of the key. -/
def components (o : Occurrence α) : List String :=
  [escape o.line, escape o.route, escape o.facility.id, offsetText o.stop.arrival,
    offsetText o.stop.departure]

/-- The name of the occurrence. -/
def key (o : Occurrence α) : String := ".".intercalate o.components

end Occurrence

namespace Route

variable {α : Type}

/-- The occurrences of the stops of a route of the given line, in order. -/
def occurrences (r : Route α) (line : String) : List (Occurrence α) :=
  r.stops.map fun stop => ⟨line, r.id, stop⟩

end Route

end TransitMatching
