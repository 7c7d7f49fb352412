/-
  Address ranges — closed, non-empty intervals of a 64-bit address space.

  Both ends belong to a range, so a range always holds at least one address and nothing here
  can express an empty one: what could produce one yields `none`.

  Two measures:
    * `extent`  the distance from the first address to the last; exact for every range;
    * `length`  the number of addresses; the range of all 2^64 addresses saturates to 2^64 - 1.
-/
import RegionAtlas.Text.Radix

namespace RegionAtlas

/-- A closed range of addresses. -/
structure AddressRange where
  min : UInt64
  max : UInt64
  min_le_max : min ≤ max
  deriving DecidableEq

namespace AddressRange

/-- The range with these bounds, if they are in order. -/
def of? (min max : UInt64) : Option AddressRange :=
  if h : min ≤ max then some ⟨min, max, h⟩ else none

/-- The range of `length` addresses from `start`.  None for length zero, and none where the range
would run past the last address: then its end, reduced modulo 2^64, lies below its start. -/
def ofStartLength? (start length : UInt64) : Option AddressRange :=
  if length = 0 then none else of? start (start + (length - 1))

/-- The range of one address. -/
def single (address : UInt64) : AddressRange := ⟨address, address, UInt64.le_refl _⟩

/-- The distance from the first address to the last. -/
def extent (r : AddressRange) : UInt64 := r.max - r.min

/-- The number of addresses, saturating. -/
def length (r : AddressRange) : UInt64 :=
  if r.extent = 0xFFFFFFFFFFFFFFFF then r.extent else r.extent + 1

def contains (r : AddressRange) (address : UInt64) : Bool :=
  r.min ≤ address && address ≤ r.max

/-- Whether some address lies in both. -/
def intersects (r s : AddressRange) : Bool := r.min ≤ s.max && s.min ≤ r.max

/-- Whether some of the ranges shares an address with this one. -/
def intersectsAny (r : AddressRange) (others : List AddressRange) : Bool := others.any r.intersects

/-- Both bounds in brackets, each with at least eight hexadecimal digits. -/
def text (r : AddressRange) : String :=
  "[" ++ String.ofList (Text.paddedHex r.min) ++ ", " ++ String.ofList (Text.paddedHex r.max) ++ "]"

@[ext] theorem ext {r s : AddressRange} (hmin : r.min = s.min) (hmax : r.max = s.max) : r = s := by
  cases r; cases s; cases hmin; cases hmax; rfl

theorem contains_iff {r : AddressRange} {a : UInt64} :
    r.contains a = true ↔ r.min ≤ a ∧ a ≤ r.max := by simp [contains]

theorem intersects_iff {r s : AddressRange} :
    r.intersects s = true ↔ r.min ≤ s.max ∧ s.min ≤ r.max := by simp [intersects]

end AddressRange

end RegionAtlas
