import Adaboot.Nor.Sectors

/-!
# Sector boundaries

The offsets at which the sectors of an area start or end, and those that two areas have in common.
-/

namespace Nor

variable {sizes sizes' : List Nat} {i j x y : Nat}

/-- A sector starts or ends at `x`. -/
def Boundary (sizes : List Nat) (x : Nat) : Prop := ∃ i ≤ sizes.length, sectorOff sizes i = x

/-- Both areas have a boundary at `x`. -/
def CommonBoundary (sizes sizes' : List Nat) (x : Nat) : Prop := Boundary sizes x ∧ Boundary sizes' x

theorem sectorSize_pos (positive : ∀ s ∈ sizes, 0 < s) (lt : i < sizes.length) : 0 < sectorSize sizes i :=
  positive _ (sectorSize_mem lt)

theorem sectorOff_lt (positive : ∀ s ∈ sizes, 0 < s) (lt : i < j) (le : j ≤ sizes.length) :
    sectorOff sizes i < sectorOff sizes j := by
  have size := sectorSize_pos positive (show i < sizes.length by omega)
  have next := sectorOff_succ (show i < sizes.length by omega)
  have rest := sectorOff_mono sizes (show i + 1 ≤ j from lt)
  omega

theorem lt_of_sectorOff_lt (lt : sectorOff sizes i < sectorOff sizes j) : i < j := by
  apply Nat.lt_of_not_le
  intro le
  have := sectorOff_mono sizes le
  omega

theorem sectorOff_inj (positive : ∀ s ∈ sizes, 0 < s) (le : i ≤ sizes.length) (le' : j ≤ sizes.length)
    (same : sectorOff sizes i = sectorOff sizes j) : i = j := by
  rcases Nat.lt_trichotomy i j with lt | rfl | lt
  · have := sectorOff_lt positive lt le'
    omega
  · rfl
  · have := sectorOff_lt positive lt le
    omega

theorem boundary_sectorOff (le : i ≤ sizes.length) : Boundary sizes (sectorOff sizes i) := ⟨i, le, rfl⟩

theorem boundary_zero (sizes : List Nat) : Boundary sizes 0 := ⟨0, Nat.zero_le _, sectorOff_zero sizes⟩

theorem boundary_sum (sizes : List Nat) : Boundary sizes sizes.sum := ⟨_, le_rfl, sectorOff_length sizes⟩

theorem Boundary.le_sum (boundary : Boundary sizes x) : x ≤ sizes.sum := by
  obtain ⟨i, -, rfl⟩ := boundary
  exact sectorOff_le_sum sizes i

theorem Boundary.next_le (boundary : Boundary sizes x) (lt : sectorOff sizes i < x) : sectorOff sizes (i + 1) ≤ x := by
  obtain ⟨j, -, rfl⟩ := boundary
  exact sectorOff_mono sizes (lt_of_sectorOff_lt lt)

theorem Boundary.le_previous (boundary : Boundary sizes x) (lt : x < sectorOff sizes (i + 1)) :
    x ≤ sectorOff sizes i := by
  apply Nat.le_of_not_lt
  intro behind
  have := boundary.next_le behind
  omega

theorem commonBoundary_zero (sizes sizes' : List Nat) : CommonBoundary sizes sizes' 0 :=
  ⟨boundary_zero sizes, boundary_zero sizes'⟩

end Nor
