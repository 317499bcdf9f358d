import Mathlib.Data.List.Forall2

/-!
# Computations that may fail

A chain of computations succeeds exactly if each of them does. These lemmas take such
a chain apart.
-/

namespace TransitMatching

variable {β γ ε : Type}

theorem bind_eq_ok_iff {x : Except ε β} {f : β → Except ε γ} {c : γ} :
    x >>= f = .ok c ↔ ∃ b, x = .ok b ∧ f b = .ok c := by
  cases x with
  | error e =>
    constructor
    · intro h
      cases h
    · rintro ⟨b, hb, -⟩
      cases hb
  | ok b =>
    constructor
    · intro h
      exact ⟨b, rfl, h⟩
    · rintro ⟨b', hb, hc⟩
      cases hb
      exact hc

theorem map_eq_ok_iff {x : Except ε β} {f : β → γ} {c : γ} :
    f <$> x = .ok c ↔ ∃ b, x = .ok b ∧ f b = c := by
  cases x with
  | error e =>
    constructor
    · intro h
      cases h
    · rintro ⟨b, hb, -⟩
      cases hb
  | ok b =>
    constructor
    · intro h
      exact ⟨b, rfl, Except.ok.inj h⟩
    · rintro ⟨b', hb, hc⟩
      cases hb
      exact congrArg Except.ok hc

theorem map_eq_error_iff {x : Except ε β} {f : β → γ} {e : ε} :
    f <$> x = .error e ↔ x = .error e := by
  cases x with
  | error e' => exact ⟨fun h => congrArg _ (Except.error.inj h), fun h => congrArg _ (Except.error.inj h)⟩
  | ok b =>
    constructor
    · intro h
      cases h
    · intro h
      cases h

/-- What is left when the error is forgotten. -/
theorem toOption_eq_some_iff {x : Except ε β} {b : β} : x.toOption = some b ↔ x = .ok b := by
  cases x with
  | error e =>
    constructor
    · intro h
      cases h
    · intro h
      cases h
  | ok b' => exact ⟨fun h => congrArg _ (Option.some.inj h), fun h => congrArg _ (Except.ok.inj h)⟩

/-- A computation over a list succeeds exactly if it does for each element. -/
theorem mapM_eq_ok_iff {f : β → Except ε γ} {l : List β} {out : List γ} :
    l.mapM f = .ok out ↔ List.Forall₂ (fun b c => f b = .ok c) l out := by
  induction l generalizing out with
  | nil =>
    rw [List.mapM_nil, List.forall₂_nil_left_iff]
    exact ⟨fun h => (Except.ok.inj h).symm, fun h => congrArg Except.ok h.symm⟩
  | cons b rest ih =>
    rw [List.mapM_cons, bind_eq_ok_iff, List.forall₂_cons_left_iff]
    constructor
    · rintro ⟨c, hc, h⟩
      obtain ⟨cs, hcs, h⟩ := bind_eq_ok_iff.1 h
      exact ⟨c, cs, hc, ih.1 hcs, (Except.ok.inj h).symm⟩
    · rintro ⟨c, cs, hc, hcs, rfl⟩
      exact ⟨c, hc, bind_eq_ok_iff.2 ⟨cs, ih.2 hcs, rfl⟩⟩

/-- A computation over a list fails with the error of the first element for which it does. -/
theorem exists_of_mapM_eq_error {f : β → Except ε γ} {l : List β} {e : ε}
    (h : l.mapM f = .error e) :
    ∃ before b after, l = before ++ b :: after ∧ (∀ a ∈ before, ∃ c, f a = .ok c) ∧
      f b = .error e := by
  induction l with
  | nil => cases h
  | cons b rest ih =>
    rw [List.mapM_cons] at h
    cases hb : f b with
    | error e' =>
      rw [hb] at h
      cases h
      exact ⟨[], b, rest, rfl, fun a ha => absurd ha List.not_mem_nil, hb⟩
    | ok c =>
      cases hrest : rest.mapM f with
      | ok cs =>
        rw [hb, hrest] at h
        cases h
      | error e' =>
        rw [hb, hrest] at h
        cases h
        obtain ⟨before, b', after, rfl, hbefore, hb'⟩ := ih hrest
        exact ⟨b :: before, b', after, rfl, List.forall_mem_cons.2 ⟨⟨c, hb⟩, hbefore⟩, hb'⟩

/-- Of two lists side by side, each element of the second stands beside one of the first. -/
theorem exists_of_forall₂_right {R : β → γ → Prop} {l : List β} {out : List γ}
    (h : List.Forall₂ R l out) {c : γ} (hc : c ∈ out) : ∃ b ∈ l, R b c := by
  induction h with
  | nil => exact absurd hc List.not_mem_nil
  | cons hbc _ ih =>
    rcases List.mem_cons.1 hc with rfl | hc
    · exact ⟨_, List.mem_cons_self, hbc⟩
    · obtain ⟨b, hb, hbc⟩ := ih hc
      exact ⟨b, List.mem_cons_of_mem _ hb, hbc⟩

/-- What every step of a loop keeps holds at its end. -/
theorem foldlM_keeps {P : β → Prop} {f : β → γ → Except ε β}
    (hstep : ∀ b c b', P b → f b c = .ok b' → P b') :
    ∀ (l : List γ) {b b' : β}, P b → l.foldlM f b = .ok b' → P b' := by
  intro l
  induction l with
  | nil =>
    intro b b' hb h
    rwa [← Except.ok.inj h]
  | cons c rest ih =>
    intro b b' hb h
    rw [List.foldlM_cons, bind_eq_ok_iff] at h
    obtain ⟨next, hnext, h⟩ := h
    exact ih (hstep b c next hb hnext) h

/-- Two checks in a row pass exactly if both of them do. -/
theorem andThen_eq_ok_iff {first second : Except ε Unit} :
    (first >>= fun _ => second) = .ok () ↔ first = .ok () ∧ second = .ok () := by
  rw [bind_eq_ok_iff]
  constructor
  · rintro ⟨_, hfirst, hsecond⟩
    exact ⟨hfirst, hsecond⟩
  · rintro ⟨hfirst, hsecond⟩
    exact ⟨_, hfirst, hsecond⟩

/-- Checks that are made one after the other pass exactly if each of them does. -/
theorem forM_eq_ok_iff {f : β → Except ε Unit} {l : List β} :
    l.forM f = .ok () ↔ ∀ b ∈ l, f b = .ok () := by
  induction l with
  | nil => exact iff_of_true rfl fun b hb => absurd hb List.not_mem_nil
  | cons first rest ih =>
    have hrun : (first :: rest).forM f = (f first >>= fun _ => rest.forM f) := rfl
    rw [hrun, andThen_eq_ok_iff, ih, List.forall_mem_cons]

end TransitMatching
