import TransitMatching.Routing.Router
import TransitMatching.Schedule.Basic
import TransitMatching.Sorting

/-!
# The routers of a run

Routers are built on first request and shared by all routes of one key.

* `RouterCache.keyFor`: the key that a route is routed by.
* `RouterCache.routerFor`: the router of a key, and the cache that holds it.
-/

namespace TransitMatching

/-- The warnings about routers. -/
inductive RoutingWarning where
  | noNetworkModes (mode : Mode)
  | unknownShape (shape : String)
  | unknownRouteShape (shape route : String) (mode : Mode)
  deriving DecidableEq, Repr

namespace RoutingWarning

/-- The warning in words. -/
def text : RoutingWarning → String
  | noNetworkModes mode =>
    "No network modes assigned to schedule mode " ++ mode ++
      ", its router only travels artificial links"
  | unknownShape shape => "Shape " ++ shape ++ " is unknown, its router is unbounded"
  | unknownRouteShape shape route mode =>
    "Shape " ++ shape ++ " of route " ++ route ++ " is unknown, routing by mode " ++ mode

/-- The warning as an event. -/
def event (w : RoutingWarning) : Event := .warned w.text

end RoutingWarning

/-- The routers built so far, and what they are built from. -/
structure RouterCache (α : Type) [Scalar α] where
  network : Network α
  settings : Settings α
  /-- The shapes by id. -/
  shapes : Table String (Shape α) := ∅
  routers : Table RouterKey (Router α) := ∅

namespace RouterCache

variable {α : Type} [Scalar α]

/-- The cache without routers; of shapes with one id the last is taken. -/
def make (network : Network α) (settings : Settings α) (shapes : List (Shape α)) : RouterCache α :=
  { network, settings, shapes := Table.ofList (shapes.map fun s => (s.id, s)) }

/-- The shape of an id. -/
def shape? (c : RouterCache α) (id : String) : Option (Shape α) := c.shapes.get? id

/-- The key that a route is routed by: its shape if routing goes by shape and the shape is known,
and else its schedule mode. -/
def keyFor (c : RouterCache α) (route : Route α) : RouterKey × List Event :=
  if c.settings.routeByShape then
    match route.shape with
    | none => (.mode route.mode, [])
    | some shape =>
      if (c.shape? shape).isSome then (.shape shape route.mode, [])
      else
        (.mode route.mode, [(RoutingWarning.unknownRouteShape shape route.id route.mode).event])
  else (.mode route.mode, [])

/-- A new router for a key, and the warnings about it. -/
def build (c : RouterCache α) (key : RouterKey) : Router α × List Event :=
  let m := c.settings.mode? key.scheduleMode
  let modes := m.elim (∅ : ModeSet) ModeSettings.networkModes
  let modeEvents :=
    if m.isNone then [(RoutingWarning.noNetworkModes key.scheduleMode).event] else []
  match key with
  | .mode _ => (Router.build c.settings c.network key modes none, modeEvents)
  | .shape id _ =>
    match c.shape? id with
    | some shape => (Router.build c.settings c.network key modes (some shape), modeEvents)
    | none =>
      (Router.build c.settings c.network key modes none,
        modeEvents ++ [(RoutingWarning.unknownShape id).event])

/-- The cache with the router of a key as it is after a query. -/
def store (c : RouterCache α) (r : Router α) : RouterCache α :=
  { c with routers := c.routers.put r.key r }

/-- The router of a key, which is built if there is none. -/
def routerFor (c : RouterCache α) (key : RouterKey) : Router α × RouterCache α × List Event :=
  match c.routers.get? key with
  | some r => (r, c, [])
  | none =>
    let (r, events) := c.build key
    (r, c.store r, events ++ [.counted .routerBuilds])

/-- The keys of the routers built so far, in order. -/
def keys (c : RouterCache α) : List RouterKey :=
  sortBy RouterKey.compare c.routers.keys

end RouterCache

end TransitMatching
