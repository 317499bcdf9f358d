import TransitMatching.Number.Double
import TransitMatching.Schedule.Basic

/-!
# The register of facilities beside the lines

Lines come and are replaced, but a facility stays registered as it was when its id first came
in. So the register knows every facility that is served, and it may know more: facilities that
only a replaced line stopped at, and facilities as they were before they were corrected.

* `facility?_ofLines`: a look-up gives the first facility that came in under the id.
* `mem_lines_ofLines`: the lines of a schedule are those that no later line replaced.
* `follows_iff`: the register follows the lines if what it gives is served.
* `ofLines_follows_iff`: **the register follows the lines exactly as long as lines that last stop
  at every facility that came in first under its id.**
-/

namespace TransitMatching

variable {α : Type}

/-- The facilities of the stops of a line, in order. -/
def Line.facilities (l : Line α) : List (Facility α) := l.stops.map Stop.facility

namespace Schedule

/-- A facility that a route of a line of the schedule stops at. -/
def Serves (s : Schedule α) (f : Facility α) : Prop :=
  ∃ line route, (line, route) ∈ s.routes ∧ ∃ stop ∈ route.stops, stop.facility = f

/-- The register knows the ids of the facilities that are served and no others, and under each of
them a facility that is served. -/
structure Follows (s : Schedule α) : Prop where
  isSome_iff : ∀ id, (s.facility? id).isSome ↔ ∃ f, s.Serves f ∧ f.id = id
  serves : ∀ id f, s.facility? id = some f → s.Serves f ∧ f.id = id

/-! ## The register -/

/-- Of some facilities, the first one with an id. -/
def firstWith (id : String) (facilities : List (Facility α)) : Option (Facility α) :=
  facilities.find? fun f => f.id = id

theorem firstWith_cons (id : String) (f : Facility α) (rest : List (Facility α)) :
    firstWith id (f :: rest) = if f.id = id then some f else firstWith id rest := by
  by_cases hid : f.id = id <;> simp [firstWith, hid]

theorem firstWith_append (id : String) (facilities later : List (Facility α)) :
    firstWith id (facilities ++ later) = (firstWith id facilities).or (firstWith id later) :=
  List.find?_append

theorem mem_of_firstWith {id : String} {facilities : List (Facility α)} {f : Facility α}
    (h : firstWith id facilities = some f) : f ∈ facilities ∧ f.id = id :=
  ⟨List.mem_of_find?_eq_some h, by simpa using List.find?_some h⟩

theorem isSome_firstWith {facilities : List (Facility α)} {f : Facility α} (h : f ∈ facilities) :
    (firstWith f.id facilities).isSome := by
  rw [firstWith, List.find?_isSome]
  exact ⟨f, h, decide_eq_true rfl⟩

/-- **A line registers the facilities whose ids are new**, each as its first stop there has it. -/
theorem facility?_addLine (s : Schedule α) (line : Line α) (id : String) :
    (s.addLine line).facility? id = (s.facility? id).or (firstWith id line.facilities) := by
  have hfold : ∀ (stops : List (Stop α)) (table : Std.TreeMap String (Facility α)),
      (stops.foldl (fun t stop => t.insertIfNew stop.facility.id stop.facility) table)[id]? =
        table[id]?.or (firstWith id (stops.map Stop.facility)) := by
    intro stops
    induction stops with
    | nil => exact fun table => Option.or_none.symm
    | cons stop rest ih =>
      intro table
      rw [List.foldl_cons, ih, List.map_cons, firstWith_cons, Std.TreeMap.getElem?_insertIfNew]
      by_cases hid : stop.facility.id = id
      · subst hid
        cases hknown : table[stop.facility.id]? <;>
          simp [Std.TreeMap.mem_iff_isSome_getElem?, hknown]
      · simp [hid]
  exact hfold line.stops s.facilityTable

/-- **A look-up gives the first facility that came in under the id.** -/
theorem facility?_ofLines (lines : List (Line α)) (id : String) :
    (ofLines lines).facility? id = firstWith id (lines.flatMap Line.facilities) := by
  have hrun : ∀ (lines : List (Line α)) (s : Schedule α),
      (lines.foldl addLine s).facility? id =
        (s.facility? id).or (firstWith id (lines.flatMap Line.facilities)) := by
    intro lines
    induction lines with
    | nil => exact fun s => Option.or_none.symm
    | cons line rest ih =>
      intro s
      rw [List.foldl_cons, ih, facility?_addLine, Option.or_assoc, List.flatMap_cons,
        firstWith_append]
  have hempty : (empty : Schedule α).facility? id = none := by simp [empty, facility?]
  rw [ofLines, hrun, hempty, Option.none_or]

/-! ## The lines -/

/-- A line that was added, and that no line added later replaced. -/
def Lasts (lines : List (Line α)) (line : Line α) : Prop :=
  ∃ before later, lines = before ++ line :: later ∧ ∀ other ∈ later, other.id ≠ line.id

theorem mem_lines {s : Schedule α} {line : Line α} :
    line ∈ s.lines ↔ ∃ id : String, s.lineTable[id]? = some line := by
  have hvalues : s.lines = s.lineTable.toList.map Prod.snd := by
    change s.lineTable.foldr (fun _ line l => line :: l) [] = _
    rw [Std.TreeMap.foldr_eq_foldr_toList, List.map_eq_foldr]
  rw [hvalues, List.mem_map]
  simp only [Prod.exists, Std.TreeMap.mem_toList_iff_getElem?_eq_some, exists_eq_right]

/-- Under an id is the last line that was added with it. -/
theorem getElem?_lineTable_ofLines (lines : List (Line α)) (id : String) :
    (ofLines lines).lineTable[id]? = lines.reverse.find? fun line => line.id = id := by
  have hrun : ∀ (lines : List (Line α)) (s : Schedule α),
      (lines.foldl addLine s).lineTable[id]? =
        (lines.reverse.find? fun line => line.id = id).or s.lineTable[id]? := by
    intro lines
    induction lines with
    | nil => exact fun s => Option.none_or.symm
    | cons line rest ih =>
      intro s
      rw [List.foldl_cons, ih, List.reverse_cons, List.find?_append, Option.or_assoc]
      by_cases hid : line.id = id <;> simp [addLine, Std.TreeMap.getElem?_insert, hid]
  rw [ofLines, hrun]
  simp [empty]

/-- **The lines of a schedule are those that no later line replaced.** -/
theorem mem_lines_ofLines {lines : List (Line α)} {line : Line α} :
    line ∈ (ofLines lines).lines ↔ Lasts lines line := by
  simp only [mem_lines, getElem?_lineTable_ofLines, List.find?_eq_some_iff_append,
    decide_eq_true_eq]
  constructor
  · rintro ⟨id, rfl, later, before, hlines, hlater⟩
    refine ⟨before.reverse, later.reverse, ?_, ?_⟩
    · rw [← List.reverse_reverse lines, hlines]
      simp
    · exact fun other hother => by simpa using hlater other (List.mem_reverse.1 hother)
  · rintro ⟨before, later, rfl, hlater⟩
    refine ⟨line.id, rfl, later.reverse, before.reverse, by simp, ?_⟩
    exact fun other hother => by simpa using hlater other (List.mem_reverse.1 hother)

theorem serves_iff {s : Schedule α} {f : Facility α} :
    s.Serves f ↔ ∃ line ∈ s.lines, f ∈ line.facilities := by
  unfold Serves routes Line.facilities Line.stops
  simp only [List.mem_flatMap, List.mem_map, Prod.mk.injEq]
  constructor
  · rintro ⟨_, _, ⟨line, hline, route, hroute, rfl, rfl⟩, stop, hstop, rfl⟩
    exact ⟨line, hline, stop, ⟨route, hroute, hstop⟩, rfl⟩
  · rintro ⟨line, hline, stop, ⟨route, hroute, hstop⟩, rfl⟩
    exact ⟨line, route, ⟨line, hline, route, hroute, rfl, rfl⟩, stop, hstop, rfl⟩

/-! ## The register beside the lines -/

/-- A facility that came in before any other of its id. -/
def CameFirst (lines : List (Line α)) (f : Facility α) : Prop :=
  firstWith f.id (lines.flatMap Line.facilities) = some f

/-- Every facility that is served has its id registered, whatever was replaced. -/
theorem isSome_facility?_of_serves {lines : List (Line α)} {f : Facility α}
    (h : (ofLines lines).Serves f) : ((ofLines lines).facility? f.id).isSome := by
  obtain ⟨line, hline, hf⟩ := serves_iff.1 h
  obtain ⟨before, later, rfl, -⟩ := mem_lines_ofLines.1 hline
  rw [facility?_ofLines]
  exact isSome_firstWith (List.mem_flatMap.2 ⟨line, by simp, hf⟩)

/-- **The register follows the lines** if the facilities that came in first are served. -/
theorem follows_iff {lines : List (Line α)} :
    (ofLines lines).Follows ↔ ∀ f, CameFirst lines f → (ofLines lines).Serves f := by
  constructor
  · intro h f hfirst
    exact (h.serves f.id f ((facility?_ofLines lines f.id).trans hfirst)).1
  · intro h
    have hserves : ∀ id f, (ofLines lines).facility? id = some f →
        (ofLines lines).Serves f ∧ f.id = id := by
      intro id f hf
      rw [facility?_ofLines] at hf
      obtain ⟨-, rfl⟩ := mem_of_firstWith hf
      exact ⟨h f hf, rfl⟩
    refine ⟨fun id => ⟨fun hsome => ?_, ?_⟩, hserves⟩
    · obtain ⟨f, hf⟩ := Option.isSome_iff_exists.1 hsome
      exact ⟨f, hserves id f hf⟩
    · rintro ⟨f, hf, rfl⟩
      exact isSome_facility?_of_serves hf

/-- The register follows lines of different ids, of which none is ever replaced. -/
theorem follows_of_nodup {lines : List (Line α)} (h : (lines.map Line.id).Nodup) :
    (ofLines lines).Follows := by
  refine follows_iff.2 fun f hfirst => serves_iff.2 ?_
  obtain ⟨line, hline, hf⟩ := List.mem_flatMap.1 (mem_of_firstWith hfirst).1
  obtain ⟨before, later, rfl⟩ := List.append_of_mem hline
  refine ⟨line, mem_lines_ofLines.2 ⟨before, later, rfl, fun other hother hsame => ?_⟩, hf⟩
  rw [List.map_append, List.map_cons, List.nodup_append, List.nodup_cons] at h
  exact h.2.1.1 (hsame ▸ List.mem_map_of_mem hother)

/-- **The register follows the lines exactly as long as lines that last stop at every facility that
came in first under its id**, and so wherever no line is replaced. It knows the id of every facility
that is served in any case. -/
theorem ofLines_follows_iff (lines : List (Line α)) :
    (∀ f, (ofLines lines).Serves f → ((ofLines lines).facility? f.id).isSome) ∧
      ((ofLines lines).Follows ↔
        ∀ f, CameFirst lines f → ∃ line, Lasts lines line ∧ f ∈ line.facilities) ∧
      ((lines.map Line.id).Nodup → (ofLines lines).Follows) := by
  refine ⟨fun f => isSome_facility?_of_serves, ?_, follows_of_nodup⟩
  rw [follows_iff]
  simp only [serves_iff, mem_lines_ofLines]

/-- A line that stops at a given list of facilities. -/
def lineAt (facilities : List (Facility Double)) : Line Double where
  id := "line"
  routes := [
    { id := "out"
      mode := "bus"
      stops := facilities.map fun f => { facility := f } }]

/-- A line, and the line that replaces it: the facility `s` has moved, and `t` is left out. -/
def correctedLines : List (Line Double) :=
  [lineAt [{ id := "s", position := some ⟨0, 0⟩ }, { id := "t", position := some ⟨40, 0⟩ }],
    lineAt [{ id := "s", position := some ⟨10, 0⟩ }]]

/-- A line that is replaced leaves its facilities behind: `t`, which is served no more, stays
registered, and `s` stays registered where it was. -/
theorem not_follows_corrected :
    (∀ f, (ofLines correctedLines).Serves f ↔ f = { id := "s", position := some ⟨10, 0⟩ }) ∧
      (ofLines correctedLines).facility? "s" = some { id := "s", position := some ⟨0, 0⟩ } ∧
      (ofLines correctedLines).facility? "t" = some { id := "t", position := some ⟨40, 0⟩ } ∧
      ¬ (ofLines correctedLines).Follows := by
  have hlines : (ofLines correctedLines).lines =
      [lineAt [{ id := "s", position := some ⟨10, 0⟩ }]] := rfl
  have hserves : ∀ f, (ofLines correctedLines).Serves f ↔
      f = { id := "s", position := some ⟨10, 0⟩ } := by
    intro f
    rw [serves_iff, hlines]
    simp [Line.facilities, Line.stops, lineAt, eq_comm]
  have hgone : (ofLines correctedLines).facility? "t" =
      some { id := "t", position := some ⟨40, 0⟩ } := by decide +kernel
  refine ⟨hserves, by decide +kernel, hgone, fun hfollows => ?_⟩
  have hserved := (hserves _).1 (hfollows.serves "t" _ hgone).1
  exact absurd (congrArg Facility.id hserved) (by decide)

end Schedule

end TransitMatching
