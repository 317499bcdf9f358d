import TransitMatching.Proofs.Number.Shortest
import TransitMatching.Schedule.Occurrence

/-!
# What the name of an occurrence tells

A separator that ends a component has no backslash before it that is not itself
escaped, so a key is taken apart into its components in one way only, whatever the
ids are made of. An offset is told by its text, and the lone hyphen of an absent
one is the text of no number.

* `terminated_injective`: escaped components, each with a separator behind it, are
  read in one way.
* `key_eq_iff_texts`: keys are equal if the texts of their components are, in any
  notation of numbers.
* `key_eq_iff`: **keys are equal only for equal ids and offsets**, offsets that are
  no numbers being taken for one.
-/

namespace TransitMatching.Occurrence

/-! ## Escaping -/

/-- Characters with a backslash before each separator and each backslash. -/
def escaped (s : List Char) : List Char :=
  s.flatMap fun c => if c = '\\' ∨ c = '.' then ['\\', c] else [c]

/-- Characters with a backslash before each `c`. -/
def marked (c : Char) (s : List Char) : List Char :=
  s.flatMap fun d => if d = c then ['\\', d] else [d]

theorem toList_escape (component : String) :
    (escape component).toList = escaped component.toList :=
  String.toList_ofList

/-- Escaping in two steps: backslashes first, since the separators' marks are not to be marked. -/
theorem escaped_eq_marked (s : List Char) : escaped s = marked '.' (marked '\\' s) := by
  induction s with
  | nil => rfl
  | cons c s ih =>
    simp only [escaped, marked, List.flatMap_cons, List.flatMap_append] at ih ⊢
    rw [ih]
    congr 1
    by_cases hb : c = '\\'
    · subst hb
      rfl
    · by_cases hd : c = '.'
      · subst hd
        rfl
      · simp [hb, hd]

/-- The first character of what is escaped, and the rest. -/
theorem escaped_cons (c : Char) (s : List Char) :
    escaped (c :: s) = (if c = '\\' ∨ c = '.' then ['\\', c] else [c]) ++ escaped s := rfl

/-- **An escaped component ends at its separator**: what stands before the separator and what
stands behind it are determined. -/
theorem escaped_append_inj {a b s t : List Char} (h : escaped a ++ '.' :: s = escaped b ++ '.' :: t) :
    a = b ∧ s = t := by
  induction a generalizing b with
  | nil =>
    cases b with
    | nil => exact ⟨rfl, (List.cons.inj h).2⟩
    | cons d b =>
      rw [escaped_cons] at h
      split at h
      · exact absurd (List.cons.inj h).1 (by decide)
      · next hd => exact absurd (.inr (List.cons.inj h).1.symm) hd
  | cons c a ih =>
    cases b with
    | nil =>
      rw [escaped_cons] at h
      split at h
      · exact absurd (List.cons.inj h).1 (by decide)
      · next hc => exact absurd (.inr (List.cons.inj h).1) hc
    | cons d b =>
      rw [escaped_cons, escaped_cons] at h
      split at h <;> split at h
      · -- Both characters are escaped: they stand behind the backslashes.
        obtain ⟨hcd, hrest⟩ := List.cons.inj (List.cons.inj h).2
        obtain ⟨rfl, rfl⟩ := ih hrest
        exact ⟨by rw [hcd], rfl⟩
      · next hd => exact absurd (.inl (List.cons.inj h).1.symm) hd
      · next hc _ => exact absurd (.inl (List.cons.inj h).1) hc
      · obtain ⟨hcd, hrest⟩ := List.cons.inj h
        obtain ⟨rfl, rfl⟩ := ih hrest
        exact ⟨by rw [hcd], rfl⟩

/-! ## Components -/

/-- Components, each escaped and with a separator behind it. -/
def terminated (components : List String) : List Char :=
  components.flatMap fun component => escaped component.toList ++ ['.']

theorem terminated_cons (component : String) (rest : List String) :
    terminated (component :: rest) = escaped component.toList ++ '.' :: terminated rest := by
  rw [terminated, List.flatMap_cons, List.append_assoc]
  rfl

/-- A list of components joined by separators, with one more at the end. -/
theorem intercalate_escape {components : List String} (h : components ≠ []) :
    (".".intercalate (components.map escape)).toList ++ ['.'] = terminated components := by
  induction components with
  | nil => exact absurd rfl h
  | cons a rest ih =>
    cases rest with
    | nil =>
      rw [List.map_cons, List.map_nil, String.intercalate_singleton, toList_escape, terminated_cons]
      rfl
    | cons b rest =>
      rw [List.map_cons, String.intercalate_cons_of_ne_nil (by simp), String.toList_append,
        String.toList_append, List.append_assoc, ih (by simp), toList_escape, terminated_cons a,
        List.append_assoc]
      rfl

/-- **Components are read in one way.** -/
theorem terminated_injective {l m : List String} (h : terminated l = terminated m) : l = m := by
  induction l generalizing m with
  | nil =>
    cases m with
    | nil => rfl
    | cons b m =>
      rw [terminated_cons] at h
      exact absurd h.symm (by simp [terminated])
  | cons a l ih =>
    cases m with
    | nil =>
      rw [terminated_cons] at h
      exact absurd h (by simp [terminated])
    | cons b m =>
      rw [terminated_cons, terminated_cons] at h
      obtain ⟨hab, hrest⟩ := escaped_append_inj h
      rw [String.toList_inj.1 hab, ih hrest]

section
variable {α : Type} [DecimalText α]

/-- The text of an offset before it is escaped. -/
def plainOffset (offset : Option α) : String := offset.elim "-" DecimalText.shortest

theorem offsetText_eq (offset : Option α) : offsetText offset = escape (plainOffset offset) := by
  cases offset with
  | none =>
    show "-" = escape "-"
    decide
  | some a => rfl

/-- The components of the key before they are escaped. -/
def texts (o : Occurrence α) : List String :=
  [o.line, o.route, o.facility.id, plainOffset o.stop.arrival, plainOffset o.stop.departure]

theorem toList_key (o : Occurrence α) : o.key.toList ++ ['.'] = terminated o.texts := by
  have hcomponents : o.components = o.texts.map escape := by
    rw [components, offsetText_eq, offsetText_eq]
    rfl
  rw [key, hcomponents]
  exact intercalate_escape (by simp [texts])

/-- Keys are equal if the texts of their components are. -/
theorem key_eq_iff_texts {o o' : Occurrence α} : o.key = o'.key ↔ o.texts = o'.texts := by
  constructor
  · intro h
    apply terminated_injective
    rw [← toList_key, ← toList_key, h]
  · intro h
    have hlist : o.key.toList ++ ['.'] = o'.key.toList ++ ['.'] := by
      rw [toList_key, toList_key, h]
    exact String.toList_inj.1 (List.append_cancel_right hlist)

end

/-! ## Offsets on doubles -/

/-- Offsets that a key takes for one: both absent, the same double, or neither a number. -/
inductive SameOffset : Option Double → Option Double → Prop
  | absent : SameOffset none none
  | same (x : Double) : SameOffset (some x) (some x)
  | notNumbers {x y : Double} (hx : x.isNaN = true) (hy : y.isNaN = true) :
      SameOffset (some x) (some y)

theorem plainOffset_eq_iff {a b : Option Double} :
    plainOffset a = plainOffset b ↔ SameOffset a b := by
  cases a with
  | none =>
    cases b with
    | none => exact iff_of_true rfl .absent
    | some y => exact iff_of_false (fun h => Double.shortest_ne_hyphen y h.symm) nofun
  | some x =>
    cases b with
    | none => exact iff_of_false (Double.shortest_ne_hyphen x) nofun
    | some y =>
      show DecimalText.shortest x = DecimalText.shortest y ↔ _
      rw [Double.shortest_eq_iff]
      constructor
      · rintro (rfl | ⟨hx, hy⟩)
        · exact .same x
        · exact .notNumbers hx hy
      · rintro (_ | _ | ⟨hx, hy⟩)
        · exact .inl rfl
        · exact .inr ⟨hx, hy⟩

/-- **A key tells the ids and the offsets of its occurrence**, for ids of any characters: two
occurrences have one key only if their line, route and facility have the same ids and their
arrivals and departures are the same. -/
theorem key_eq_iff (o o' : Occurrence Double) :
    o.key = o'.key ↔
      o.line = o'.line ∧ o.route = o'.route ∧ o.facility.id = o'.facility.id ∧
        SameOffset o.stop.arrival o'.stop.arrival ∧
        SameOffset o.stop.departure o'.stop.departure := by
  rw [key_eq_iff_texts, texts, texts, List.cons.injEq, List.cons.injEq, List.cons.injEq,
    List.cons.injEq, List.cons.injEq, plainOffset_eq_iff, plainOffset_eq_iff]
  simp only [and_true]

end TransitMatching.Occurrence
