import Mathlib.Algebra.Order.Group.Int
import Mathlib.Data.List.Pairwise
import Mathlib.Tactic.Linarith

/-!
# Ranges of addresses

Ranges with integer bounds, rounding to a unit, and ranges one behind the other. A range of negative size is empty.
-/

namespace Spans

/-! ### Rounding -/

/-- The least multiple of `unit` that is not below `val`. -/
def alignUp (val unit : Int) : Int := (val + unit - 1) / unit * unit

/-- The greatest multiple of `unit` that is not above `val`. -/
def alignDown (val unit : Int) : Int := val / unit * unit

section Rounding

variable {unit bound : Int}

@[simp] theorem dvd_alignUp (val unit : Int) : unit ∣ alignUp val unit := Int.dvd_mul_left ..

@[simp] theorem dvd_alignDown (val unit : Int) : unit ∣ alignDown val unit := Int.dvd_mul_left ..

variable (pos : 0 < unit)
include pos

theorem alignDown_le (val : Int) : alignDown val unit ≤ val := Int.ediv_mul_le val (by omega)

theorem lt_alignDown_add (val : Int) : val < alignDown val unit + unit :=
  Int.lt_ediv_add_one_mul_self val pos |>.trans_eq (by rw [alignDown, Int.add_mul, Int.one_mul])

theorem le_alignUp (val : Int) : val ≤ alignUp val unit := by
  have below := lt_alignDown_add pos (val + unit - 1)
  unfold alignDown at below
  unfold alignUp
  omega

theorem alignUp_lt (val : Int) : alignUp val unit < val + unit := by
  have le := alignDown_le pos (val + unit - 1)
  unfold alignDown at le
  unfold alignUp
  omega

variable {val a b : Int}

theorem le_alignDown (dvd : unit ∣ bound) (le : bound ≤ val) :
    bound ≤ alignDown val unit := by
  obtain ⟨k, rfl⟩ := dvd
  rw [alignDown, Int.mul_comm unit k]
  rw [Int.mul_comm] at le
  exact Int.mul_le_mul_of_nonneg_right ((Int.le_ediv_iff_mul_le pos).mpr le) pos.le

theorem alignUp_le (dvd : unit ∣ bound) (le : val ≤ bound) : alignUp val unit ≤ bound := by
  have lt := alignUp_lt pos val
  obtain ⟨k, rfl⟩ := dvd
  rw [alignUp, Int.mul_comm unit k] at *
  refine Int.mul_le_mul_of_nonneg_right ?_ pos.le
  have step : (val + unit - 1) / unit * unit < (k + 1) * unit := by
    rw [Int.add_mul, Int.one_mul]
    omega
  exact Int.lt_add_one_iff.mp (lt_of_mul_lt_mul_right step pos.le)

theorem alignUp_eq (dvd : unit ∣ val) : alignUp val unit = val :=
  Int.le_antisymm (alignUp_le pos dvd (Int.le_refl _)) (le_alignUp pos val)

theorem alignDown_nonneg (val : Int) : 0 ≤ alignDown val unit ↔ 0 ≤ val :=
  ⟨fun nonneg => Int.le_trans nonneg (alignDown_le pos val), fun nonneg => le_alignDown pos (Int.dvd_zero _) nonneg⟩

omit pos

theorem dvd_min (left : unit ∣ a) (right : unit ∣ b) : unit ∣ min a b := by
  rcases min_choice a b with eq | eq
  · rwa [eq]
  · rwa [eq]

theorem dvd_max (left : unit ∣ a) (right : unit ∣ b) : unit ∣ max a b := by
  rcases max_choice a b with eq | eq
  · rwa [eq]
  · rwa [eq]

end Rounding

/-! ### Ranges -/

/-- The addresses from `off` on, `size` of them. -/
structure Span where
  off : Int
  size : Int
deriving DecidableEq, Repr

namespace Span

variable {s t : Span}

def stop (s : Span) : Int := s.off + s.size

def Disjoint (s t : Span) : Prop := ∀ x, s.off ≤ x → x < s.stop → t.off ≤ x → t.stop ≤ x

theorem disjoint_iff : s.Disjoint t ↔ s.size ≤ 0 ∨ t.size ≤ 0 ∨ s.stop ≤ t.off ∨ t.stop ≤ s.off := by
  unfold Disjoint stop
  constructor
  · intro apart
    -- the later of the two starts would be a common address
    have left := apart s.off (Int.le_refl _)
    have right := apart t.off
    omega
  · omega

instance : Decidable (s.Disjoint t) := decidable_of_iff _ disjoint_iff.symm

theorem Disjoint.symm (apart : s.Disjoint t) : t.Disjoint s := by
  rw [disjoint_iff] at apart ⊢
  omega

theorem disjoint_of_le (le : s.stop ≤ t.off) : s.Disjoint t := disjoint_iff.mpr (.inr (.inr (.inl le)))

end Span

/-! ### Ranges one behind the other -/

/-- Every range starts where the one before it ends, or later. -/
def Ascending : Int → List Span → Prop
  | _, [] => True
  | cursor, s :: spans => cursor ≤ s.off ∧ 0 ≤ s.size ∧ Ascending s.stop spans

section Ascending

variable {cursor total : Int} {spans : List Span}

theorem Ascending.ge (ascending : Ascending cursor spans) : ∀ s ∈ spans, cursor ≤ s.off ∧ 0 ≤ s.size := by
  induction spans generalizing cursor with
  | nil => simp
  | cons s spans ih =>
    obtain ⟨starts, nonneg, rest⟩ := ascending
    intro t mem
    rcases List.mem_cons.mp mem with rfl | later
    · exact ⟨starts, nonneg⟩
    · obtain ⟨behind, nonneg'⟩ := ih rest t later
      unfold Span.stop at behind
      exact ⟨by omega, nonneg'⟩

theorem Ascending.pairwise (ascending : Ascending cursor spans) : spans.Pairwise Span.Disjoint := by
  induction spans generalizing cursor with
  | nil => exact .nil
  | cons s spans ih =>
    obtain ⟨_, _, rest⟩ := ascending
    exact .cons (fun t mem => Span.disjoint_of_le (rest.ge t mem).1) (ih rest)

end Ascending

end Spans
