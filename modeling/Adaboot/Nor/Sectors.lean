import Mathlib.Algebra.BigOperators.Group.List.Basic
import Mathlib.Algebra.Ring.Nat

/-!
# Sector layouts

An area is divided into sectors, given by the list of their sizes from the start of the area.
-/

namespace Nor

/-- Where sector `i` starts. -/
def sectorOff (sizes : List Nat) (i : Nat) : Nat := (sizes.take i).sum

def sectorSize (sizes : List Nat) (i : Nat) : Nat := sizes.getD i 0

/-- Start and size of the sector that holds the byte at `off`. -/
def sectorAt : List Nat → Nat → Option (Nat × Nat)
  | [], _ => none
  | s :: sizes, off =>
    if off < s then some (0, s)
    else (sectorAt sizes (off - s)).map fun sector => (sector.1 + s, sector.2)

@[simp] theorem sectorOff_zero (sizes : List Nat) : sectorOff sizes 0 = 0 := by
  simp [sectorOff]

theorem sectorOff_cons_succ (s : Nat) (sizes : List Nat) (i : Nat) :
    sectorOff (s :: sizes) (i + 1) = s + sectorOff sizes i := by
  simp [sectorOff]

variable {sizes : List Nat} {i off size n : Nat}

theorem sectorOff_succ (lt : i < sizes.length) :
    sectorOff sizes (i + 1) = sectorOff sizes i + sectorSize sizes i := by
  unfold sectorOff sectorSize
  simp [List.getD, lt]

theorem getElem?_eq_sectorSize (lt : i < sizes.length) : sizes[i]? = some
    (sectorSize sizes i) := by
  simp [sectorSize, List.getD, lt]

theorem sectorSize_mem (lt : i < sizes.length) : sectorSize sizes i ∈ sizes :=
  List.mem_of_getElem? (getElem?_eq_sectorSize lt)

theorem sectorOff_length (sizes : List Nat) : sectorOff sizes sizes.length = sizes.sum := by
  simp [sectorOff]

theorem sectorOff_mono (sizes : List Nat) {j : Nat} (le : i ≤ j) : sectorOff sizes i ≤ sectorOff sizes j := by
  induction sizes generalizing i j with
  | nil => simp [sectorOff]
  | cons s sizes ih =>
    cases i with
    | zero => simp
    | succ i =>
      obtain ⟨j, rfl⟩ : ∃ k, j = k + 1 := ⟨j - 1, by omega⟩
      exact Nat.add_le_add_left (ih (by omega)) s

theorem sectorOff_le_sum (sizes : List Nat) (i : Nat) : sectorOff sizes i ≤ sizes.sum := by
  by_cases le : i ≤ sizes.length
  · exact sectorOff_length sizes ▸ sectorOff_mono sizes le
  · have whole : sectorOff sizes i = sizes.sum := by
      rw [sectorOff, List.take_of_length_le (by omega)]
    exact whole.le

theorem sectorAt_sectorOff {k : Nat} (lt : i < sizes.length) (inside : k < sectorSize sizes i) :
    sectorAt sizes (sectorOff sizes i + k) = some (sectorOff sizes i, sectorSize sizes i) := by
  induction sizes generalizing i with
  | nil => simp at lt
  | cons s sizes ih =>
    cases i with
    | zero =>
      have : k < s := inside
      simp [sectorAt, sectorSize, this]
    | succ i =>
      have size_eq : sectorSize (s :: sizes) (i + 1) = sectorSize sizes i := by simp [sectorSize]
      rw [size_eq] at inside ⊢
      rw [sectorOff_cons_succ, sectorAt, if_neg (by omega),
        show s + sectorOff sizes i + k - s = sectorOff sizes i + k by omega,
        ih (by simpa using lt) inside]
      simp [Nat.add_comm]

theorem sectorAt_eq_some {start : Nat} (found : sectorAt sizes off = some (start, size)) :
    ∃ i, i < sizes.length ∧ start = sectorOff sizes i ∧ size = sectorSize sizes i ∧
      start ≤ off ∧ off < sectorOff sizes (i + 1) := by
  induction sizes generalizing off start with
  | nil => simp [sectorAt] at found
  | cons s sizes ih =>
    rw [sectorAt] at found
    split at found
    next below =>
      obtain ⟨rfl, rfl⟩ := found
      exact ⟨0, by simp, by simp, by simp [sectorSize], Nat.zero_le _, by
        rw [sectorOff_cons_succ]
        simpa using below⟩
    next above =>
      obtain ⟨⟨start', size'⟩, found', same⟩ := Option.map_eq_some_iff.mp found
      obtain ⟨rfl, rfl⟩ := same
      obtain ⟨i, lt, rfl, rfl, le, below⟩ := ih found'
      refine ⟨i + 1, by simpa using lt, ?_, by simp [sectorSize], by omega, ?_⟩
      · rw [sectorOff_cons_succ, Nat.add_comm]
      · rw [sectorOff_cons_succ]
        omega

theorem sectorAt_isSome (lt : off < sizes.sum) :
    ∃ sector, sectorAt sizes off = some sector := by
  induction sizes generalizing off with
  | nil => simp at lt
  | cons s sizes ih =>
    rw [sectorAt]
    split
    · exact ⟨_, rfl⟩
    · rw [List.sum_cons] at lt
      obtain ⟨sector, found⟩ := ih (show off - s < sizes.sum by omega)
      exact ⟨_, by rw [found]; rfl⟩

/-! ### Sectors of one size -/

theorem sectorOff_replicate (le : i ≤ n) : sectorOff (List.replicate n size) i = i * size := by
  rw [sectorOff, List.take_replicate, Nat.min_eq_left le, List.sum_replicate_nat]

theorem sectorSize_replicate (lt : i < n) : sectorSize (List.replicate n size) i = size := by
  simp [sectorSize, List.getD, lt]

end Nor
