import Mathlib.Logic.Function.Basic

/-!
# Logged copies

A sequence of copies between cells with a log of how many are done. A copy that is cut can be repeated, as it does not
read the cell it overwrites. Cells whose content does not matter have no value.
-/

namespace Crash

variable {κ δ : Type} [DecidableEq κ]

structure Copy (κ : Type) where
  src : κ
  dst : κ

/-- What is known after the first `k` copies. -/
def after (copy : Nat → Copy κ) (init : κ → Option δ) : Nat → κ → Option δ
  | 0 => init
  | k + 1 => Function.update (after copy init k) (copy k).dst (after copy init k (copy k).src)

variable {copy : Nat → Copy κ} {init : κ → Option δ} {n k : Nat} {mem mem' : κ → δ} {c : κ}

theorem after_succ_dst (copy : Nat → Copy κ) (init : κ → Option δ) (k : Nat) :
    after copy init (k + 1) (copy k).dst = after copy init k (copy k).src :=
  Function.update_self ..

theorem after_succ_of_ne (init : κ → Option δ) (ne : c ≠ (copy k).dst) :
    after copy init (k + 1) c = after copy init k c :=
  Function.update_of_ne ne ..

theorem after_stays {j : Nat} (le : j ≤ k) (away : ∀ i, j ≤ i → i < k → c ≠ (copy i).dst) :
    after copy init k c = after copy init j c := by
  induction k with
  | zero => rw [show j = 0 by omega]
  | succ k ih =>
    rcases Nat.eq_or_lt_of_le le with rfl | lt
    · rfl
    · rw [after_succ_of_ne init (away k (by omega) (by omega)), ih (by omega) fun i ge lt => away i ge (by omega)]

theorem after_mono {init' : κ → Option δ} (fewer : ∀ c d, init' c = some d → init c = some d) {d : δ}
    (value : after copy init' k c = some d) : after copy init k c = some d := by
  induction k generalizing c with
  | zero => exact fewer c d value
  | succ k ih =>
    by_cases here : c = (copy k).dst
    · subst here
      rw [after_succ_dst] at value ⊢
      exact ih value
    · rw [after_succ_of_ne _ here] at value ⊢
      exact ih value

theorem after_inside {P : κ → Prop} (start : ∀ c, init c ≠ none → P c)
    (dst : ∀ k, k < n → P (copy k).dst) (le : k ≤ n) (known : after copy init k c ≠ none) : P c := by
  induction k with
  | zero => exact start c known
  | succ k ih =>
    by_cases here : c = (copy k).dst
    · exact here ▸ dst k le
    · rw [after_succ_of_ne init here] at known
      exact ih (by omega) known

/-- The first `k` of `n` copies are done and the next one may be under way, with the cell that it overwrites undefined.
-/
def Midway (copy : Nat → Copy κ) (n : Nat) (init : κ → Option δ) (k : Nat) (mem : κ → δ) : Prop :=
  ∀ c d, (k < n → c ≠ (copy k).dst) → after copy init k c = some d → mem c = d

namespace Midway

theorem congr (midway : Midway copy n init k mem)
    (same : ∀ c, (k < n → c ≠ (copy k).dst) → after copy init k c ≠ none → mem' c = mem c) :
    Midway copy n init k mem' := by
  intro c d ne value
  rw [same c ne (by simp [value])]
  exact midway c d ne value

theorem mono {init' : κ → Option δ} (fewer : ∀ c d, init' c = some d → init c = some d)
    (midway : Midway copy n init k mem) : Midway copy n init' k mem :=
  fun c d ne value => midway c d ne (after_mono fewer value)

theorem copied (midway : Midway copy n init k mem) (ne : (copy k).src ≠ (copy k).dst)
    (copied : mem' (copy k).dst = mem (copy k).src)
    (same : ∀ c, c ≠ (copy k).dst → after copy init k c ≠ none → mem' c = mem c) : Midway copy n init (k + 1) mem' := by
  intro c d _ value
  by_cases here : c = (copy k).dst
  · subst here
    rw [after_succ_dst] at value
    rw [copied]
    exact midway _ d (fun _ => ne) value
  · rw [after_succ_of_ne init here] at value
    rw [same c here (by simp [value])]
    exact midway c d (fun _ => here) value

theorem skipped (midway : Midway copy n init k mem) (free : after copy init k (copy k).src = none) :
    Midway copy n init (k + 1) mem := by
  intro c d _ value
  by_cases here : c = (copy k).dst
  · subst here
    simp [after_succ_dst, free] at value
  · rw [after_succ_of_ne init here] at value
    exact midway c d (fun _ => here) value

end Midway

end Crash
