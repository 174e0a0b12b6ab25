import Adaboot.Crash.Prog

/-!
# Recovery from power cuts

The same program runs after every power cut, so what one run does from a state of an invariant,
cuts included, decides what every sequence of cuts can do.
-/

namespace Crash

variable {σ ε α : Type}

/-- A finite sequence of power cuts of `boot` leads from the first state to the second. -/
inductive Interrupted (boot : Prog σ ε α) : σ → σ → Prop where
  | none (s : σ) : Interrupted boot s s
  | cut {s t u : σ} : t ∈ (boot s).trace → Interrupted boot t u → Interrupted boot s u

/-- The state that a cut before operation `n` of the run leaves behind. -/
def cutAt (boot : Prog σ ε α) (s : σ) (n : Nat) : σ := (boot s).trace.getD n s

theorem cutAt_mem {boot : Prog σ ε α} {s : σ} {n : Nat} (lt : n < (boot s).trace.length) :
    cutAt boot s n ∈ (boot s).trace := by
  rw [cutAt, List.getD_eq_getElem?_getD, List.getElem?_eq_getElem lt]
  exact List.getElem_mem lt

theorem interrupted_twice {boot : Prog σ ε α} {s : σ} {n m : Nat} (first : n < (boot s).trace.length)
    (second : m < (boot (cutAt boot s n)).trace.length) : Interrupted boot s (cutAt boot (cutAt boot s n) m) :=
  .cut (cutAt_mem first) (.cut (cutAt_mem second) (.none _))

/-- The state after `n` boots that are not cut. -/
def boots (boot : Prog σ ε α) : Nat → σ → σ
  | 0, s => s
  | n + 1, s => boots boot n (boot s).state

variable {boot : Prog σ ε α} {Q : α → σ → Prop} {E : ε → σ → Prop} {I : σ → Prop} {s t : σ}

theorem Interrupted.invariant (step : ∀ s, I s → wp boot Q E I s) (start : I s)
    (cuts : Interrupted boot s t) : I t := by
  induction cuts with
  | none s => exact start
  | cut mem _ ih => exact ih ((step _ start).1 _ mem)

/-- An invariant that survives every power cut, and from which `boot` reaches `Q`. -/
theorem Interrupted.recovers (step : ∀ s, I s → wp boot Q E I s) (start : I s)
    (cuts : Interrupted boot s t) : wp boot Q E I t :=
  step t (cuts.invariant step start)

theorem wp_returns {C : σ → Prop} (holds : wp boot Q (fun _ _ => False) C s) :
    ∃ a, (boot s).value = .ok a ∧ Q a (boot s).state := by
  have value := holds.2
  cases h : (boot s).value with
  | ok a => exact ⟨a, rfl, by simpa [h] using value⟩
  | error e => simp [h] at value

theorem boots_succ (boot : Prog σ ε α) (n : Nat) (s : σ) : boots boot (n + 1) s = (boot (boots boot n s)).state := by
  induction n generalizing s with
  | zero => rfl
  | succ n ih => exact ih _

theorem boots_invariant (keeps : ∀ s, I s → I (boot s).state) (start : I s) (n : Nat) : I (boots boot n s) := by
  induction n generalizing s with
  | zero => exact start
  | succ n ih => exact ih (keeps s start)

end Crash
