/-
  Tables — finite maps kept as lists of rows in strictly ascending order of their keys.

  The order is part of the type, so two tables with the same rows are the same value, and reading
  the rows from the front is reading them in key order.

  Rules:
    * `insert`  puts a value under a key, replacing what was there;
    * `erase`   removes a key and leaves every other row;
    * `adjust`  changes the value under a key and no key.
-/

namespace RegionAtlas

/-- A finite map in ascending order of its keys. -/
structure Table (κ α : Type) [Ord κ] where
  rows : List (κ × α)
  ascending : rows.Pairwise fun a b => compare a.1 b.1 = .lt

namespace Table

variable {κ α : Type} [Ord κ]

instance [DecidableEq κ] [DecidableEq α] : DecidableEq (Table κ α) := fun s t =>
  if h : s.rows = t.rows then
    isTrue (by cases s; cases t; cases h; rfl)
  else isFalse fun e => h (e ▸ rfl)

@[ext] theorem ext {s t : Table κ α} (h : s.rows = t.rows) : s = t := by
  cases s; cases t; cases h; rfl

def empty : Table κ α := ⟨[], .nil⟩

instance : Inhabited (Table κ α) := ⟨empty⟩

/-! ## Reading -/

/-- The value in the first row of a list that has the key. -/
def valueOf? (k : κ) : List (κ × α) → Option α
  | [] => none
  | (j, a) :: rest => if compare j k = .eq then some a else valueOf? k rest

def find? (t : Table κ α) (k : κ) : Option α := valueOf? k t.rows

def contains (t : Table κ α) (k : κ) : Bool := (t.find? k).isSome

/-- The keys, lowest first. -/
def keys (t : Table κ α) : List κ := t.rows.map (·.1)

/-- The values, in order of their keys. -/
def values (t : Table κ α) : List α := t.rows.map (·.2)

/-- The highest key. -/
def lastKey? (t : Table κ α) : Option κ := t.rows.getLast?.map (·.1)

/-! ## Erasing and adjusting -/

/-- Leaves out the row of a key. -/
def erase (t : Table κ α) (k : κ) : Table κ α where
  rows := t.rows.filter fun row => compare row.1 k != .eq
  ascending := t.ascending.filter _

/-- Changes the value under a key. -/
def adjust (t : Table κ α) (k : κ) (f : α → α) : Table κ α where
  rows := t.rows.map fun row => (row.1, if compare row.1 k = .eq then f row.2 else row.2)
  ascending := List.pairwise_map.2 t.ascending

/-- Changes every value. -/
def map {β : Type} (t : Table κ α) (f : α → β) : Table κ β where
  rows := t.rows.map fun row => (row.1, f row.2)
  ascending := List.pairwise_map.2 t.ascending

/-! ## Inserting -/

/-- Puts a row in its place in an ascending list. -/
def place (k : κ) (a : α) : List (κ × α) → List (κ × α)
  | [] => [(k, a)]
  | row :: rest =>
    match compare k row.1 with
    | .lt => (k, a) :: row :: rest
    | .eq => (k, a) :: rest
    | .gt => row :: place k a rest

/-- Every row of a list with a row placed in it is that row or was there before. -/
theorem mem_place {k : κ} {a : α} {row : κ × α} :
    ∀ {rows : List (κ × α)}, row ∈ place k a rows → row = (k, a) ∨ row ∈ rows
  | [], h => by simpa [place] using h
  | first :: rest, h => by
    simp only [place] at h
    split at h
    · exact List.mem_cons.1 h
    · rcases List.mem_cons.1 h with h | h
      · exact .inl h
      · exact .inr (List.mem_cons_of_mem _ h)
    · rcases List.mem_cons.1 h with h | h
      · exact .inr (h ▸ List.mem_cons_self)
      · exact (mem_place h).imp id (List.mem_cons_of_mem _)

variable [Std.TransOrd κ] [Std.LawfulEqOrd κ]

theorem place_ascending (k : κ) (a : α) : ∀ {rows : List (κ × α)},
    rows.Pairwise (fun x y => compare x.1 y.1 = .lt) →
      (place k a rows).Pairwise fun x y => compare x.1 y.1 = .lt
  | [], _ => List.pairwise_singleton _ _
  | first :: rest, h => by
    have hrest := List.pairwise_cons.1 h
    simp only [place]
    split
    · next hlt =>
      refine List.pairwise_cons.2 ⟨fun y hy => ?_, h⟩
      rcases List.mem_cons.1 hy with rfl | hy
      · exact hlt
      · exact Std.TransCmp.lt_trans hlt (hrest.1 y hy)
    · next heq =>
      refine List.pairwise_cons.2 ⟨fun y hy => ?_, hrest.2⟩
      exact Std.LawfulEqOrd.eq_of_compare heq ▸ hrest.1 y hy
    · next hgt =>
      refine List.pairwise_cons.2 ⟨fun y hy => ?_, place_ascending k a hrest.2⟩
      rcases mem_place hy with rfl | hy
      · exact Std.OrientedCmp.lt_of_gt hgt
      · exact hrest.1 y hy

/-- Puts a value under a key. -/
def insert (t : Table κ α) (k : κ) (a : α) : Table κ α where
  rows := place k a t.rows
  ascending := place_ascending k a t.ascending

/-- A table of a list of rows; of two rows with one key the later one stays. -/
def ofList (rows : List (κ × α)) : Table κ α :=
  rows.foldl (fun t row => t.insert row.1 row.2) empty

end Table

end RegionAtlas
