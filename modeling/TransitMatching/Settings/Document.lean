import TransitMatching.Settings.Environment

/-!
# Settings as documents

A document is a tree of plain values, as a settings file holds it. Settings are
read from a record that names what it changes: a missing field has its default,
and a field of another name is ignored. A structure may also be given as the list
of its fields in order.

* `Settings.ofDocument?`, `Settings.toDocument`: reading and writing.
-/

namespace TransitMatching

/-- A tree of plain values. -/
inductive Document (α : Type) where
  | null
  | bool (value : Bool)
  | int (value : Int)
  | number (value : α)
  | text (value : String)
  | list (items : List (Document α))
  | record (fields : List (String × Document α))

namespace Document

variable {α : Type} [Scalar α]

instance {α : Type} : Inhabited (Document α) := ⟨null⟩

omit [Scalar α] in
/-- A truth value. -/
def bool? : Document α → Option Bool
  | bool b => some b
  | _ => none

omit [Scalar α] in
/-- A natural number that a machine word can hold. -/
def count? : Document α → Option Nat
  | int (.ofNat n) => if n < Settings.countLimit then some n else none
  | _ => none

/-- A number; an integer is one. -/
def number? : Document α → Option α
  | int (.ofNat n) => some (n : α)
  | int (.negSucc n) => some (0 - ((n + 1 : Nat) : α))
  | number a => some a
  | _ => none

omit [Scalar α] in
/-- A text. -/
def text? : Document α → Option String
  | text s => some s
  | _ => none

omit [Scalar α] in
/-- A list of texts. -/
def texts? : Document α → Option (List String)
  | list items => items.mapM text?
  | _ => none

omit [Scalar α] in
/-- A list of texts as a set of modes. -/
def modes? (d : Document α) : Option ModeSet := d.texts?.map fun l => Std.TreeSet.ofList l

omit [Scalar α] in
/-- The fields of a structure, from a record or from a list in the order of `names`. -/
def fields? (names : List String) : Document α → Option (List (String × Document α))
  | record fields => some fields
  | list items => if items.length ≤ names.length then some (names.zip items) else none
  | _ => none

omit [Scalar α] in
/-- A field read from a structure, or its default where it is missing. -/
def field {β : Type} (fields : List (String × Document α)) (name : String)
    (read? : Document α → Option β) (default : β) : Option β :=
  match fields.lookup name with
  | none => some default
  | some d => read? d

omit [Scalar α] in
/-- A field that must not be missing. -/
def required {β : Type} (fields : List (String × Document α)) (name : String)
    (read? : Document α → Option β) : Option β :=
  (fields.lookup name).bind read?

omit [Scalar α] in
/-- A set of modes as a list. -/
def ofModes (modes : ModeSet) : Document α := list (modes.toList.map text)

end Document

open Document

variable {α : Type} [Scalar α]

namespace CostType

omit [Scalar α] in
/-- Reads a measure from its name, or from a record of its name and nothing. -/
def ofDocument? : Document α → Option CostType
  | text s => ofName? s
  | record [(s, null)] => ofName? s
  | _ => none

end CostType

namespace BiasProfile

/-- Reads a profile from its numbers, under the name of its kind. -/
def ofFields? (kind : String) (d : Document α) : Option (BiasProfile α) :=
  if kind = "graded" then do
    let fields ← d.fields? ["near_distance", "far_distance", "near_factor", "far_factor"]
    return graded (← required fields "near_distance" number?)
      (← required fields "far_distance" number?) (← required fields "near_factor" number?)
      (← required fields "far_factor" number?)
  else if kind = "simple" then do
    let fields ← d.fields? ["near_distance", "near_factor"]
    return simple (← required fields "near_distance" number?)
      (← required fields "near_factor" number?)
  else none

/-- Reads a profile. The field `profile`, or the first of a list, names its kind. -/
def ofDocument? : Document α → Option (BiasProfile α)
  | record fields => do
    let kind ← required fields "profile" text?
    ofFields? kind (record fields)
  | list (text kind :: items) => ofFields? kind (list items)
  | _ => none

omit [Scalar α] in
/-- A profile as a record. -/
def toDocument : BiasProfile α → Document α
  | graded nearDistance farDistance nearFactor farFactor =>
    record [("profile", text "graded"), ("near_distance", number nearDistance),
      ("far_distance", number farDistance), ("near_factor", number nearFactor),
      ("far_factor", number farFactor)]
  | simple nearDistance nearFactor =>
    record [("profile", text "simple"), ("near_distance", number nearDistance),
      ("near_factor", number nearFactor)]

end BiasProfile

namespace ModeSettings

/-- The names of the fields. -/
def fieldNames : List String :=
  ["network_modes", "max_candidate_distance", "max_candidate_count", "distance_tolerance_factor",
    "artificial_links_only"]

/-- Reads the settings of a schedule mode. -/
def ofDocument? (d : Document α) : Option (ModeSettings α) := do
  let fields ← d.fields? fieldNames
  let default : ModeSettings α := {}
  return {
    networkModes := ← field fields "network_modes" modes? default.networkModes
    maxDistance := ← field fields "max_candidate_distance" number? default.maxDistance
    maxCount := ← field fields "max_candidate_count" count? default.maxCount
    tolerance := ← field fields "distance_tolerance_factor" number? default.tolerance
    artificialOnly := ← field fields "artificial_links_only" bool? default.artificialOnly }

/-- The settings of a schedule mode as a record. -/
def toDocument (m : ModeSettings α) : Document α :=
  record [("network_modes", ofModes m.networkModes),
    ("max_candidate_distance", number m.maxDistance), ("max_candidate_count", int m.maxCount),
    ("distance_tolerance_factor", number m.tolerance),
    ("artificial_links_only", bool m.artificialOnly)]

/-- Reads the settings of all schedule modes. -/
def tableOfDocument? : Document α → Option (Std.TreeMap Mode (ModeSettings α))
  | record fields => do
    let modes ← fields.mapM fun (mode, d) => do return (mode, ← ofDocument? d)
    return Std.TreeMap.ofList modes
  | _ => none

end ModeSettings

namespace CostSettings

/-- The names of the fields. -/
def fieldNames : List String :=
  ["shape_bias", "u_turn_penalty", "osm_route_bonus", "candidate_distance_weight"]

/-- Reads a bias profile, or nothing for no bias. -/
def bias? : Document α → Option (Option (BiasProfile α))
  | null => some none
  | d => (BiasProfile.ofDocument? d).map some

/-- Reads the settings of link costs. -/
def ofDocument? (d : Document α) : Option (CostSettings α) := do
  let fields ← d.fields? fieldNames
  let default : CostSettings α := {}
  return {
    shapeBias := ← field fields "shape_bias" bias? default.shapeBias
    uTurnPenalty := ← field fields "u_turn_penalty" number? default.uTurnPenalty
    osmFactor := ← field fields "osm_route_bonus" number? default.osmFactor
    candidateDistanceWeight :=
      ← field fields "candidate_distance_weight" number? default.candidateDistanceWeight }

/-- The settings of link costs as a record. -/
def toDocument (c : CostSettings α) : Document α :=
  record [("shape_bias", c.shapeBias.elim null BiasProfile.toDocument),
    ("u_turn_penalty", number c.uTurnPenalty), ("osm_route_bonus", number c.osmFactor),
    ("candidate_distance_weight", number c.candidateDistanceWeight)]

end CostSettings

namespace ManualLinks

/-- The names of the fields. -/
def fieldNames : List String := ["facility_id", "schedule_modes", "link_ids", "replace"]

omit [Scalar α] in
/-- Reads manual links. -/
def ofDocument? (d : Document α) : Option ManualLinks := do
  let fields ← d.fields? fieldNames
  return {
    facility := ← required fields "facility_id" text?
    modes := ← field fields "schedule_modes" modes? ∅
    links := ← required fields "link_ids" texts?
    replace := ← field fields "replace" bool? false }

omit [Scalar α] in
/-- Reads a list of manual links. -/
def listOfDocument? : Document α → Option (List ManualLinks)
  | list items => items.mapM ofDocument?
  | _ => none

omit [Scalar α] in
/-- Manual links as a record. -/
def toDocument (m : ManualLinks) : Document α :=
  record [("facility_id", text m.facility), ("schedule_modes", ofModes m.modes),
    ("link_ids", list (m.links.map text)), ("replace", bool m.replace)]

end ManualLinks

namespace Settings

/-- The names of the fields. -/
def fieldNames : List String :=
  ["node_search_radius", "travel_cost_type", "num_threads", "mode_params", "costing",
    "route_by_shape", "manual_candidates"]

/-- Reads settings. -/
def ofDocument? (d : Document α) : Option (Settings α) := do
  let fields ← d.fields? fieldNames
  let default : Settings α := {}
  return {
    searchRadius := ← field fields "node_search_radius" number? default.searchRadius
    costType := ← field fields "travel_cost_type" CostType.ofDocument? default.costType
    threads := ← field fields "num_threads" count? default.threads
    modes := ← field fields "mode_params" ModeSettings.tableOfDocument? default.modes
    costs := ← field fields "costing" CostSettings.ofDocument? default.costs
    routeByShape := ← field fields "route_by_shape" bool? default.routeByShape
    manual := ← field fields "manual_candidates" ManualLinks.listOfDocument? default.manual }

/-- Settings as a record of all fields. -/
def toDocument (s : Settings α) : Document α :=
  record [("node_search_radius", number s.searchRadius),
    ("travel_cost_type", text s.costType.name), ("num_threads", int s.threads),
    ("mode_params", record (s.modes.toList.map fun (mode, m) => (mode, m.toDocument))),
    ("costing", s.costs.toDocument), ("route_by_shape", bool s.routeByShape),
    ("manual_candidates", list (s.manual.map ManualLinks.toDocument))]

end Settings

end TransitMatching
