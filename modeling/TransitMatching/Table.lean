/-!
# Tables in order of first insertion

A table holds at most one value per key and lists its keys in the order in which
they first came in.

* `get?_put`: a put changes the value of its own key only.
* `keys_put`: a new key goes to the end, a known one stays where it is.
-/

namespace TransitMatching

/-- A finite map that remembers the order of first insertion. -/
structure Table (κ β : Type) where
  entries : List (κ × β)
  nodup : (entries.map Prod.fst).Nodup

namespace Table

variable {κ β : Type}

instance : EmptyCollection (Table κ β) := ⟨⟨[], by simp⟩⟩

instance : Inhabited (Table κ β) := ⟨⟨[], by simp⟩⟩

/-- The keys in order of first insertion. -/
def keys (t : Table κ β) : List κ := t.entries.map Prod.fst

/-- The number of keys. -/
def size (t : Table κ β) : Nat := t.entries.length

variable [DecidableEq κ]

/-- The value of a key. -/
def get? (t : Table κ β) (k : κ) : Option β :=
  (t.entries.find? fun e => e.1 = k).map Prod.snd

/-- Entries with the value of `k` set to `v`, at the end if `k` is new. -/
def putEntry (k : κ) (v : β) : List (κ × β) → List (κ × β)
  | [] => [(k, v)]
  | e :: rest => if e.1 = k then (k, v) :: rest else e :: putEntry k v rest

theorem map_fst_putEntry (k : κ) (v : β) (l : List (κ × β)) :
    (putEntry k v l).map Prod.fst =
      if k ∈ l.map Prod.fst then l.map Prod.fst else l.map Prod.fst ++ [k] := by
  induction l with
  | nil => rfl
  | cons e rest ih =>
    unfold putEntry
    by_cases h : e.1 = k
    · simp [h]
    · have h' : ¬ k = e.1 := fun eq => h eq.symm
      rw [if_neg h, List.map_cons, ih]
      by_cases hm : k ∈ rest.map Prod.fst
      · simp only [List.map_cons, List.mem_cons, hm, or_true, if_true]
      · simp only [List.map_cons, List.mem_cons, hm, h', or_false, if_false, List.cons_append]

/-- Sets the value of a key. -/
def put (t : Table κ β) (k : κ) (v : β) : Table κ β where
  entries := putEntry k v t.entries
  nodup := by
    rw [map_fst_putEntry]
    split
    · exact t.nodup
    · next h =>
      rw [List.nodup_append]
      exact ⟨t.nodup, by simp, fun a ha b hb => by
        simp only [List.mem_singleton] at hb
        rintro rfl
        exact h (hb ▸ ha)⟩

/-- The table of a list of pairs; of two pairs with one key the later gives the value. -/
def ofList (l : List (κ × β)) : Table κ β := l.foldl (fun t e => t.put e.1 e.2) ∅

theorem keys_put (t : Table κ β) (k : κ) (v : β) :
    (t.put k v).keys = if k ∈ t.keys then t.keys else t.keys ++ [k] :=
  map_fst_putEntry k v t.entries

theorem find?_putEntry (k k' : κ) (v : β) (l : List (κ × β)) :
    ((putEntry k v l).find? fun e => e.1 = k').map Prod.snd =
      if k = k' then some v else (l.find? fun e => e.1 = k').map Prod.snd := by
  induction l with
  | nil => by_cases h : k = k' <;> simp [putEntry, h]
  | cons e rest ih =>
    unfold putEntry
    by_cases he : e.1 = k
    · by_cases h : k = k'
      · simp [he, h]
      · simp [he, h]
    · rw [if_neg he, List.find?_cons, List.find?_cons]
      by_cases h' : e.1 = k'
      · have : k ≠ k' := fun eq => he (h'.trans eq.symm)
        simp [h', this]
      · simpa [h'] using ih

@[simp]
theorem get?_put (t : Table κ β) (k k' : κ) (v : β) :
    (t.put k v).get? k' = if k = k' then some v else t.get? k' :=
  find?_putEntry k k' v t.entries

@[simp]
theorem get?_empty (k : κ) : (∅ : Table κ β).get? k = none := rfl

theorem get?_isSome_iff (t : Table κ β) (k : κ) : (t.get? k).isSome ↔ k ∈ t.keys := by
  simp only [get?, keys, Option.isSome_map, List.find?_isSome, decide_eq_true_eq, List.mem_map]

end Table

end TransitMatching
