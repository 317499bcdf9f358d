import Std.Data.TreeMap
import TransitMatching.Geometry.Point
import TransitMatching.Mode

/-!
# The transit schedule

Lines hold routes, routes hold stops in order, and stops are at facilities. Lines
are kept by id, so that every walk over the schedule has one order.

* `Schedule.addLine`: a line with a known id replaces the old one. A facility
  stays registered as it was when its id first came in.
-/

namespace TransitMatching

/-- A physical stop or platform. -/
structure Facility (α : Type) where
  id : String
  name : Option String := none
  position : Option (Point α) := none
  /-- The station that the facility belongs to. -/
  station : Option String := none
  /-- The id of a link that the facility is already assigned to. -/
  linkRef : Option String := none
  deriving DecidableEq, Repr

/-- A stop of a route. Times are offsets from the departure at the first stop. -/
structure Stop (α : Type) where
  facility : Facility α
  arrival : Option α := none
  departure : Option α := none
  deriving DecidableEq, Repr

/-- A route: a sequence of stops served by one schedule mode. -/
structure Route (α : Type) where
  id : String
  mode : Mode
  stops : List (Stop α)
  /-- The id of the shape that the route follows. -/
  shape : Option String := none
  deriving DecidableEq, Repr

/-- A line: routes under one name. -/
structure Line (α : Type) where
  id : String
  routes : List (Route α)
  deriving DecidableEq, Repr

/-- The lines of a schedule by id, and the facilities by id. -/
structure Schedule (α : Type) where
  lineTable : Std.TreeMap String (Line α) := ∅
  facilityTable : Std.TreeMap String (Facility α) := ∅

namespace Line

variable {α : Type}

/-- The stops of all routes of a line. -/
def stops (l : Line α) : List (Stop α) := l.routes.flatMap Route.stops

end Line

namespace Schedule

variable {α : Type}

/-- The schedule without lines. -/
def empty : Schedule α := {}

instance : Inhabited (Schedule α) := ⟨empty⟩

/-- Adds a line and registers the facilities of its stops that are not registered yet. -/
def addLine (s : Schedule α) (line : Line α) : Schedule α where
  lineTable := s.lineTable.insert line.id line
  facilityTable := line.stops.foldl
    (fun t stop => t.insertIfNew stop.facility.id stop.facility) s.facilityTable

/-- The schedule of lines added in order. -/
def ofLines (lines : List (Line α)) : Schedule α := lines.foldl addLine empty

/-- The lines in the order of their ids. -/
def lines (s : Schedule α) : List (Line α) := s.lineTable.values

/-- Every route with its line, in the order of line ids and then of the line's routes. -/
def routes (s : Schedule α) : List (Line α × Route α) :=
  s.lines.flatMap fun line => line.routes.map fun route => (line, route)

/-- The number of routes. -/
def routeCount (s : Schedule α) : Nat := s.routes.length

/-- The facility registered under an id. -/
def facility? (s : Schedule α) (id : String) : Option (Facility α) := s.facilityTable[id]?

/-- The registered facilities in the order of their ids. -/
def facilities (s : Schedule α) : List (Facility α) := s.facilityTable.values

end Schedule

end TransitMatching
