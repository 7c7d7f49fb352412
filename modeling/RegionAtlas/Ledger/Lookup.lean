/-
  Lookup — what a table holds after each of its operations, by key.

  A table is known by what is found under its keys: `find?` after every operation is told by
  `find?` before it, a row is in the table exactly if it is found there, and two tables in which
  the same is found are equal.
-/
import RegionAtlas.Ledger.Table

namespace RegionAtlas.Table

variable {κ α : Type} [Ord κ]

@[simp] theorem find?_empty (k : κ) : (empty : Table κ α).find? k = none := rfl

/-- Changing every value changes what is found and nothing else. -/
theorem find?_map {β : Type} (t : Table κ α) (f : α → β) (k : κ) :
    (t.map f).find? k = (t.find? k).map f := by
  have h : ∀ rows : List (κ × α),
      valueOf? k (rows.map fun row => (row.1, f row.2)) = (valueOf? k rows).map f := by
    intro rows
    induction rows with
    | nil => rfl
    | cons row rest ih =>
      rw [List.map_cons, valueOf?, valueOf?, ih]
      split <;> rfl
  exact h t.rows

/-! ## Rows -/

section Rows

variable [Std.LawfulEqOrd κ]

/-- In an ascending list a value is found under a key exactly if that row is there. -/
theorem valueOf?_eq_some {k : κ} {a : α} : ∀ {rows : List (κ × α)},
    rows.Pairwise (fun x y => compare x.1 y.1 = .lt) → (valueOf? k rows = some a ↔ (k, a) ∈ rows)
  | [], _ => by simp [valueOf?]
  | (j, b) :: rest, h => by
    obtain ⟨hfirst, hrest⟩ := List.pairwise_cons.1 h
    rw [valueOf?, List.mem_cons]
    split
    · next heq =>
      obtain rfl := Std.LawfulEqOrd.eq_of_compare heq
      constructor
      · intro hb
        obtain rfl := Option.some.inj hb
        exact .inl rfl
      · rintro (hrow | hrow)
        · rw [(Prod.mk.inj hrow).2]
        · have hlt := hfirst _ hrow
          rw [heq] at hlt
          cases hlt
    · next hne =>
      rw [valueOf?_eq_some hrest]
      constructor
      · exact .inr
      · rintro (hrow | hrow)
        · rw [(Prod.mk.inj hrow).1] at hne
          exact absurd Std.ReflCmp.compare_self hne
        · exact hrow

/-- **To find a value under a key is to have that row**, since the keys ascend. -/
theorem find?_eq_some {t : Table κ α} {k : κ} {a : α} :
    t.find? k = some a ↔ (k, a) ∈ t.rows := valueOf?_eq_some t.ascending

/-- The keys are those under which something is found. -/
theorem mem_keys {t : Table κ α} {k : κ} : k ∈ t.keys ↔ t.contains k = true := by
  rw [keys, List.mem_map, contains, Option.isSome_iff_exists]
  constructor
  · rintro ⟨⟨j, a⟩, hrow, rfl⟩
    exact ⟨a, find?_eq_some.2 hrow⟩
  · rintro ⟨a, h⟩
    exact ⟨(k, a), find?_eq_some.1 h, rfl⟩

/-- And the values what is found under one. -/
theorem mem_values {t : Table κ α} {a : α} : a ∈ t.values ↔ ∃ k, t.find? k = some a := by
  rw [values, List.mem_map]
  constructor
  · rintro ⟨⟨k, b⟩, hrow, rfl⟩
    exact ⟨k, find?_eq_some.2 hrow⟩
  · rintro ⟨k, h⟩
    exact ⟨(k, a), find?_eq_some.1 h, rfl⟩

/-! ## Operations -/

/-- Under the key that is erased nothing is found, under every other what was there. -/
theorem find?_erase (t : Table κ α) (k j : κ) :
    (t.erase k).find? j = if compare k j = .eq then none else t.find? j := by
  have h : ∀ rows : List (κ × α),
      valueOf? j (rows.filter fun row => compare row.1 k != .eq) =
        if compare k j = .eq then none else valueOf? j rows := by
    intro rows
    induction rows with
    | nil => simp [valueOf?]
    | cons row rest ih =>
      rw [List.filter_cons]
      split
      · next hkeep =>
        rw [valueOf?, valueOf?, ih]
        by_cases hkey : compare k j = .eq
        · obtain rfl := Std.LawfulEqOrd.eq_of_compare hkey
          rw [if_pos hkey, if_pos hkey, if_neg (by simpa using hkeep)]
        · rw [if_neg hkey, if_neg hkey]
      · next hdrop =>
        have heq : compare row.1 k = .eq := by simpa using hdrop
        rw [ih, valueOf?, Std.LawfulEqOrd.eq_of_compare heq]
        split <;> rfl
  exact h t.rows

end Rows

variable [Std.TransOrd κ] [Std.LawfulEqOrd κ]

/-- Under the key that is inserted the new value is found, under every other what was there. -/
theorem find?_insert (t : Table κ α) (k j : κ) (a : α) :
    (t.insert k a).find? j = if compare k j = .eq then some a else t.find? j := by
  have h : ∀ rows : List (κ × α),
      valueOf? j (place k a rows) = if compare k j = .eq then some a else valueOf? j rows := by
    intro rows
    induction rows with
    | nil => rfl
    | cons row rest ih =>
      cases hplace : compare k row.1 with
      | lt => simp only [place, hplace]; rfl
      | eq =>
        simp only [place, hplace]
        rw [valueOf?, valueOf?, Std.LawfulEqOrd.eq_of_compare hplace]
        split <;> rfl
      | gt =>
        simp only [place, hplace]
        rw [valueOf?, valueOf?, ih]
        by_cases hkey : compare k j = .eq
        · obtain rfl := Std.LawfulEqOrd.eq_of_compare hkey
          rw [if_pos hkey, if_pos hkey, if_neg]
          intro hrow
          rw [Std.OrientedCmp.lt_of_gt hplace] at hrow
          cases hrow
        · rw [if_neg hkey, if_neg hkey]
  exact h t.rows

theorem find?_insert_self (t : Table κ α) (k : κ) (a : α) : (t.insert k a).find? k = some a := by
  rw [find?_insert, if_pos Std.ReflCmp.compare_self]

theorem find?_insert_of_ne (t : Table κ α) {k j : κ} (a : α) (h : k ≠ j) :
    (t.insert k a).find? j = t.find? j := by
  rw [find?_insert, if_neg fun heq => h (Std.LawfulEqOrd.eq_of_compare heq)]

/-- Under the key that is adjusted the changed value is found, under every other what was there. -/
theorem find?_adjust (t : Table κ α) (k j : κ) (f : α → α) :
    (t.adjust k f).find? j = if compare k j = .eq then (t.find? j).map f else t.find? j := by
  have h : ∀ rows : List (κ × α),
      valueOf? j (rows.map fun row => (row.1, if compare row.1 k = .eq then f row.2 else row.2)) =
        if compare k j = .eq then (valueOf? j rows).map f else valueOf? j rows := by
    intro rows
    induction rows with
    | nil => simp [valueOf?]
    | cons row rest ih =>
      rw [List.map_cons, valueOf?, valueOf?, ih]
      by_cases hrow : compare row.1 j = .eq
      · rw [if_pos hrow, if_pos hrow]
        obtain rfl := Std.LawfulEqOrd.eq_of_compare hrow
        by_cases hkey : compare k row.1 = .eq
        · rw [if_pos hkey, if_pos (Std.OrientedCmp.eq_symm hkey)]
          rfl
        · rw [if_neg hkey, if_neg fun heq => hkey (Std.OrientedCmp.eq_symm heq)]
      · rw [if_neg hrow, if_neg hrow]
  exact h t.rows

/-! ## Equality -/

/-- The rows of a table follow from what is found in it. -/
theorem ext_find? {s t : Table κ α} (h : ∀ k, s.find? k = t.find? k) : s = t := by
  refine ext (List.Perm.eq_of_pairwise ?_ s.ascending t.ascending ?_)
  · intro x y _ _ hxy hyx
    have := Std.OrientedCmp.gt_of_lt hxy
    rw [hyx] at this
    cases this
  · have distinct : ∀ u : Table κ α, u.rows.Nodup := fun u =>
      u.ascending.imp fun {x y} hlt heq => by
        have hself : compare y.1 y.1 = .eq := Std.ReflCmp.compare_self
        rw [heq, hself] at hlt
        cases hlt
    refine (List.perm_ext_iff_of_nodup (distinct s) (distinct t)).2 fun ⟨k, a⟩ => ?_
    rw [← find?_eq_some, ← find?_eq_some, h]

end RegionAtlas.Table
