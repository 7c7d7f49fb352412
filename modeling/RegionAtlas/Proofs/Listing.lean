/-
  Listings — the regions alive at a snap, in the order in which every query gives them.

  A query filters a list of regions and sorts what is left by lowest address, ties by number.  Since
  numbers are distinct the order has no ties at all, and so

    * a query depends on which regions are listed, not on where they stand (`aliveAt_congr`).

  That is what makes the committed regions and a transaction's view of them comparable: the two
  list the same regions, but the view lists those that were touched behind all others.
-/
import Mathlib.Data.List.Nodup
import RegionAtlas.Proofs.Journal

namespace RegionAtlas

/-! ## The order of regions -/

namespace Region

theorem address_le_iff {r s : Region} :
    r.address_le s = true ↔ r.range.min.toNat < s.range.min.toNat ∨
      r.range.min.toNat = s.range.min.toNat ∧ r.id.raw.toNat ≤ s.id.raw.toNat := by
  simp only [address_le, Bool.or_eq_true, Bool.and_eq_true, decide_eq_true_eq, beq_iff_eq,
    UInt64.lt_iff_toNat_lt, UInt64.le_iff_toNat_le, UInt64.toNat_inj]

theorem address_le_trans (r s q : Region) (hrs : r.address_le s = true)
    (hsq : s.address_le q = true) : r.address_le q = true := by
  rw [address_le_iff] at hrs hsq ⊢
  omega

theorem address_le_total (r s : Region) : (r.address_le s || s.address_le r) = true := by
  rw [Bool.or_eq_true, address_le_iff, address_le_iff]
  omega

/-- Regions that stand before each other have one number. -/
theorem id_eq_of_address_le {r s : Region} (hrs : r.address_le s = true)
    (hsr : s.address_le r = true) : r.id = s.id := by
  rw [address_le_iff] at hrs hsr
  have hraw : r.id.raw = s.id.raw := UInt64.toNat_inj.mp (by omega)
  cases hr : r.id
  cases hs : s.id
  rw [hr, hs] at hraw
  exact congrArg RegionId.mk hraw

end Region

/-! ## Sorting -/

/-- **Sorting forgets the order it starts from**, where no two different things stand before each
other. -/
theorem mergeSort_congr {α : Type} {le : α → α → Bool}
    (trans : ∀ a b c, le a b = true → le b c = true → le a c = true)
    (total : ∀ a b, (le a b || le b a) = true) {xs ys : List α} (hperm : xs.Perm ys)
    (hties : ∀ a ∈ xs, ∀ b ∈ xs, le a b = true → le b a = true → a = b) :
    xs.mergeSort le = ys.mergeSort le := by
  have hsorted : (xs.mergeSort le).Perm (ys.mergeSort le) :=
    (List.mergeSort_perm _ _).trans (hperm.trans (List.mergeSort_perm _ _).symm)
  refine List.Perm.eq_of_pairwise ?_ (List.pairwise_mergeSort trans total xs)
    (List.pairwise_mergeSort trans total ys) hsorted
  intro a b ha hb hle hge
  exact hties a (List.mem_mergeSort.mp ha) b (hperm.mem_iff.mpr (List.mem_mergeSort.mp hb)) hle hge

/-! ## Regions alive at a snap -/

theorem mem_aliveAt {regions : List Region} {s : Snap} {r : Region} :
    r ∈ aliveAt regions s ↔ r ∈ regions ∧ r.isAliveAt s = true := by
  rw [aliveAt, List.mem_mergeSort, List.mem_filter]

theorem sorted_aliveAt (regions : List Region) (s : Snap) :
    (aliveAt regions s).Pairwise fun r r' => r.address_le r' = true :=
  List.pairwise_mergeSort Region.address_le_trans Region.address_le_total _

/-- Regions that are in order already are listed as they stand. -/
theorem aliveAt_of_sorted {regions : List Region} {s : Snap}
    (h : (regions.filter (·.isAliveAt s)).Pairwise fun r r' => r.address_le r' = true) :
    aliveAt regions s = regions.filter (·.isAliveAt s) :=
  List.mergeSort_of_pairwise h

/-- In a list of regions with distinct numbers, a number is a region. -/
theorem eq_of_id_eq {regions : List Region} (hdistinct : (regions.map (·.id)).Nodup)
    {r r' : Region} (hr : r ∈ regions) (hr' : r' ∈ regions) (hid : r.id = r'.id) : r = r' :=
  List.inj_on_of_nodup_map hdistinct hr hr' hid

/-- **What is alive depends on the regions listed and not on their order**, if they have distinct
numbers. -/
theorem aliveAt_congr {xs ys : List Region} (hxs : (xs.map (·.id)).Nodup)
    (hys : (ys.map (·.id)).Nodup) (hsame : ∀ r, r ∈ xs ↔ r ∈ ys) (s : Snap) :
    aliveAt xs s = aliveAt ys s := by
  have hperm : xs.Perm ys :=
    (List.perm_ext_iff_of_nodup hxs.of_map hys.of_map).mpr hsame
  refine mergeSort_congr Region.address_le_trans Region.address_le_total (hperm.filter _) ?_
  intro r hr r' hr' hle hge
  exact eq_of_id_eq hxs (List.mem_filter.mp hr).1 (List.mem_filter.mp hr').1
    (Region.id_eq_of_address_le hle hge)

/-! ## Distinct keys and numbers -/

/-- Where keys are distinct, what has a key is what is found by it. -/
theorem find?_key_eq_some {α κ : Type} [DecidableEq κ] {l : List α} {key : α → κ}
    (h : (l.map key).Nodup) {k : κ} {a : α} :
    l.find? (key · == k) = some a ↔ a ∈ l ∧ key a = k := by
  constructor
  · intro hfound
    have hkey : (key a == k) = true := List.find?_some (p := (key · == k)) hfound
    exact ⟨List.mem_of_find?_eq_some hfound, beq_iff_eq.mp hkey⟩
  · rintro ⟨ha, hk⟩
    cases hfound : l.find? (key · == k) with
    | none =>
      have hnot := List.find?_eq_none.mp hfound a ha
      exact absurd (beq_iff_eq.mpr hk) hnot
    | some b =>
      have hkey : (key b == k) = true := List.find?_some (p := (key · == k)) hfound
      have hb := List.mem_of_find?_eq_some hfound
      rw [List.inj_on_of_nodup_map h hb ha ((beq_iff_eq.mp hkey).trans hk.symm)]

/-- No key is in a table twice. -/
theorem Table.nodup_keys {κ α : Type} [Ord κ] [Std.ReflOrd κ] (t : Table κ α) : t.keys.Nodup := by
  refine List.pairwise_map.mpr (t.ascending.imp ?_)
  intro row row' hlt heq
  have hself : compare row'.1 row'.1 = .eq := Std.ReflCmp.compare_self
  rw [heq, hself] at hlt
  cases hlt

/-- Where every value is stored under a key of its own, reading that key off the values gives the
keys. -/
theorem Table.map_values_eq_keys {κ α : Type} [Ord κ] [Std.LawfulEqOrd κ] {t : Table κ α}
    {key : α → κ} (hkeyed : ∀ k a, t.find? k = some a → key a = k) : t.values.map key = t.keys := by
  rw [values, keys, List.map_map]
  refine List.map_congr_left ?_
  intro row hrow
  exact hkeyed row.1 row.2 (Table.find?_eq_some.mpr hrow)

/-- The regions of contents have distinct numbers. -/
theorem Contents.Keyed.nodup_ids {c : Contents} (h : c.Keyed) :
    (c.regions.values.map (·.id)).Nodup := by
  rw [Table.map_values_eq_keys h]
  exact c.regions.nodup_keys

end RegionAtlas
