import TransitMatching.Candidate.Refinement

/-!
# Routes shared among workers

The routes of a schedule are refined by a pool of workers. A route is refined by one of
them from its first stop to its last, so its warnings keep their order, while those of
different routes mix. Once a route has failed, routes that nobody has begun are left out;
where several fail, it depends on the workers which error is kept.

* `Interleaved`: lists that are worked off side by side.
* `Settings.Refinement`: a way in which the workers can get through the routes.
* `Settings.Refinement.inOrder`: the way of a single worker.
-/

namespace TransitMatching

/-- Lists worked off side by side: each element of the whole comes from the front of one of them. -/
inductive Interleaved {β : Type} : List (List β) → List β → Prop where
  | done {lists : List (List β)} : (∀ l ∈ lists, l = []) → Interleaved lists []
  | next {before after : List (List β)} {x : β} {l whole : List β} :
    Interleaved (before ++ l :: after) whole →
      Interleaved (before ++ (x :: l) :: after) (x :: whole)

namespace Interleaved

variable {β : Type} {lists : List (List β)} {whole : List β}

/-- What comes of the lists was in one of them. -/
theorem exists_mem (h : Interleaved lists whole) {x : β} (hx : x ∈ whole) :
    ∃ l ∈ lists, x ∈ l := by
  induction h with
  | done _ => exact absurd hx List.not_mem_nil
  | @next before after y l whole _ ih =>
    rcases List.mem_cons.1 hx with rfl | hx
    · exact ⟨x :: l, by simp, List.mem_cons_self⟩
    · obtain ⟨l', hl', hx⟩ := ih hx
      rcases List.mem_append.1 hl' with hl' | hl'
      · exact ⟨l', List.mem_append_left _ hl', hx⟩
      · rcases List.mem_cons.1 hl' with rfl | hl'
        · exact ⟨y :: l', by simp, List.mem_cons_of_mem _ hx⟩
        · exact ⟨l', by simp [hl'], hx⟩

/-- An empty list adds nothing. -/
theorem cons_nil (h : Interleaved lists whole) : Interleaved ([] :: lists) whole := by
  induction h with
  | done hnil => exact .done (List.forall_mem_cons.2 ⟨rfl, hnil⟩)
  | @next before after x l whole _ ih => exact @next _ ([] :: before) after x l whole ih

/-- Lists can be worked off one after the other. -/
theorem flatten (lists : List (List β)) : Interleaved lists lists.flatten := by
  induction lists with
  | nil => exact .done fun l hl => absurd hl List.not_mem_nil
  | cons first rest ih =>
    induction first with
    | nil => exact ih.cons_nil
    | cons x first ihfirst => exact @next _ [] rest x first _ ihfirst

end Interleaved

namespace Settings

variable {α : Type} [Scalar α]

/-- The routes that a single worker begins: it goes on until one fails. -/
def begunInOrder (s : Settings α) (net : Network α) :
    List (Line α × Route α) → List (Line α × Route α)
  | [] => []
  | (line, route) :: rest =>
    (line, route) ::
      match s.refineRoute net line.id route with
      | .ok _ => s.begunInOrder net rest
      | .error _ => []

/-- A way in which the workers get through the routes of a schedule. -/
structure Refinement (s : Settings α) (net : Network α) (routes : List (Line α × Route α)) where
  /-- The routes that some worker has begun. -/
  begun : List (Line α × Route α)
  outcome : Except CandidateError (List (PendingStop α))
  /-- The warnings as they came up. -/
  events : List Event
  begun_sublist : begun.Sublist routes
  /-- Unless a route fails, all are refined, and their stops are put in the order of the routes. -/
  refined : ∀ pending, outcome = .ok pending →
    begun = routes ∧ s.refineRoutes net routes = .ok pending
  /-- An error is that of a route that was begun, and of any such. -/
  failed : ∀ e, outcome = .error e →
    ∃ line route, (line, route) ∈ begun ∧ s.refineRoute net line.id route = .error e
  interleaved : Interleaved (begun.map fun (_, route) => s.routeEvents net route) events
  /-- A single worker takes one route after the other. -/
  alone : s.threads = 1 → begun = s.begunInOrder net routes ∧
    outcome = s.refineRoutes net routes ∧
      events = begun.flatMap fun (_, route) => s.routeEvents net route

variable {s : Settings α} {net : Network α}

theorem refineRoutes_cons (s : Settings α) (net : Network α) (line : Line α) (route : Route α)
    (rest : List (Line α × Route α)) :
    s.refineRoutes net ((line, route) :: rest) = do
      let stops ← s.refineRoute net line.id route
      let others ← s.refineRoutes net rest
      return stops ++ others := by
  unfold refineRoutes
  rw [List.mapM_cons]
  dsimp only
  cases s.refineRoute net line.id route with
  | error e => rfl
  | ok stops => cases rest.mapM fun (line, route) => s.refineRoute net line.id route <;> rfl

theorem begunInOrder_sublist (s : Settings α) (net : Network α)
    (routes : List (Line α × Route α)) : (s.begunInOrder net routes).Sublist routes := by
  induction routes with
  | nil => exact .slnil
  | cons r rest ih =>
    obtain ⟨line, route⟩ := r
    unfold begunInOrder
    cases s.refineRoute net line.id route with
    | ok stops => exact ih.cons_cons _
    | error e => exact (List.nil_sublist rest).cons_cons _

/-- A worker that meets no failure begins all routes. -/
theorem begunInOrder_of_ok {routes : List (Line α × Route α)} {pending : List (PendingStop α)}
    (h : s.refineRoutes net routes = .ok pending) : s.begunInOrder net routes = routes := by
  induction routes generalizing pending with
  | nil => rfl
  | cons r rest ih =>
    obtain ⟨line, route⟩ := r
    rw [refineRoutes_cons] at h
    unfold begunInOrder
    cases hroute : s.refineRoute net line.id route with
    | error e =>
      rw [hroute] at h
      cases h
    | ok stops =>
      cases hrest : s.refineRoutes net rest with
      | error e =>
        rw [hroute, hrest] at h
        cases h
      | ok others => exact congrArg _ (ih hrest)

/-- The error of the routes is that of one that was begun. -/
theorem exists_begun_of_error {routes : List (Line α × Route α)} {e : CandidateError}
    (h : s.refineRoutes net routes = .error e) :
    ∃ line route, (line, route) ∈ s.begunInOrder net routes ∧
      s.refineRoute net line.id route = .error e := by
  induction routes with
  | nil => cases h
  | cons r rest ih =>
    obtain ⟨line, route⟩ := r
    rw [refineRoutes_cons] at h
    unfold begunInOrder
    cases hroute : s.refineRoute net line.id route with
    | error e' =>
      rw [hroute] at h
      obtain rfl : e' = e := Except.error.inj h
      exact ⟨line, route, List.mem_cons_self, hroute⟩
    | ok stops =>
      cases hrest : s.refineRoutes net rest with
      | error e' =>
        rw [hroute, hrest] at h
        obtain rfl : e' = e := Except.error.inj h
        obtain ⟨line', route', hmem, herror⟩ := ih hrest
        exact ⟨line', route', List.mem_cons_of_mem _ hmem, herror⟩
      | ok others =>
        rw [hroute, hrest] at h
        cases h

/-- One worker refines one route after the other. However many workers there are, they may happen
to go this way. -/
def Refinement.inOrder (s : Settings α) (net : Network α) (routes : List (Line α × Route α)) :
    s.Refinement net routes where
  begun := s.begunInOrder net routes
  outcome := s.refineRoutes net routes
  events := (s.begunInOrder net routes).flatMap fun (_, route) => s.routeEvents net route
  begun_sublist := s.begunInOrder_sublist net routes
  refined _ h := ⟨begunInOrder_of_ok h, h⟩
  failed _ h := exists_begun_of_error h
  interleaved := .flatten _
  alone _ := ⟨rfl, rfl, rfl⟩

end Settings

end TransitMatching
