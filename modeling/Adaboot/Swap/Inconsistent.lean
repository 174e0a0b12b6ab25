import Adaboot.Swap.Record
import Adaboot.Swap.Scratch

/-!
# Inconsistent status

`swap_read_status_bytes` should report a status that no swap can have written. Without scratch it never does; with
scratch it reports an erased entry between two written ones, but not that the first ones are missing.
-/

namespace Adaboot

open Nor Crash

section Patterns

variable (erased : Nat → Bool) (n : Nat)

/-- The written ones of `n` entries are a run that starts at the first entry. -/
def Contiguous : Prop := ∃ k, ∀ i, i < n → (erased i = false ↔ i < k)

def Broken : Prop := ∃ i j, i < j ∧ j < n ∧ erased i = false ∧ erased j = true

def Gap : Prop := ∃ k, k < n ∧ erased k = false ∧ Broken erased k

theorem Gap.not_contiguous {erased : Nat → Bool} {n : Nat} (gap : Gap erased n) : ¬Contiguous erased n := by
  obtain ⟨k, lt, written, i, j, less, below, -, blank⟩ := gap
  rintro ⟨m, run⟩
  have reaches := (run k lt).mp written
  have := (run j (by omega)).mpr (by omega)
  simp [blank] at this

section Entries

variable {erased : Nat → Bool}

theorem broken_succ {i : Nat} :
    Broken erased (i + 1) ↔ Broken erased i ∨ erased i = true ∧ ∃ k, k < i ∧ erased k = false := by
  constructor
  · rintro ⟨k, j, less, lt, written, blank⟩
    rcases Nat.eq_or_lt_of_le (Nat.le_of_lt_succ lt) with rfl | lt
    · exact .inr ⟨blank, k, less, written⟩
    · exact .inl ⟨k, j, less, lt, written, blank⟩
  · rintro (⟨k, j, less, lt, written, blank⟩ | ⟨blank, k, less, written⟩)
    · exact ⟨k, j, less, by omega, written, blank⟩
    · exact ⟨k, i, less, Nat.lt_succ_self i, written, blank⟩

theorem gap_succ {i : Nat} : Gap erased (i + 1) ↔ Gap erased i ∨ erased i = false ∧ Broken erased i := by
  constructor
  · rintro ⟨k, lt, written, broken⟩
    rcases Nat.eq_or_lt_of_le (Nat.le_of_lt_succ lt) with rfl | lt
    · exact .inr ⟨written, broken⟩
    · exact .inl ⟨k, lt, written, broken⟩
  · rintro (⟨k, lt, written, broken⟩ | ⟨written, broken⟩)
    · exact ⟨k, by omega, written, broken⟩
    · exact ⟨i, Nat.lt_succ_self i, written, broken⟩

theorem Gap.mono {n m : Nat} (gap : Gap erased n) (le : n ≤ m) : Gap erased m := by
  obtain ⟨k, lt, rest⟩ := gap
  exact ⟨k, by omega, rest⟩

end Entries

end Patterns

/-! ### The scan from the last entry down -/

/-- The flag of `swap_read_status_bytes` in swaps using move and in swaps using offset. -/
def reportsInconsistent (bd : Board) (fl : Flash) (fap : Area) : Bool :=
  1 < (statusScanLoop (fun i => fl fap (bootStatusOff bd fap + i * bd.writeSz) = erasedVal)
    (bootStatusEntries bd fap) 1 ⟨0, 0⟩).erasedSections

theorem reportsInconsistent_eq_false (bd : Board) (fl : Flash) (fap : Area) : reportsInconsistent bd fl fap = false :=
  decide_eq_false (not_lt.mpr (statusScanLoop_sections_le _ _))

/-- What the flag does: in builds that do not validate the primary slot it stops the loader. -/
theorem findStatusIdx_eq {b : LoaderBuild} {fap : Area} (trailer : bootTrailerSzOf b.board fap ≤ b.board.faSize fap)
    (entries : bootStatusOff b.board fap + (bootStatusEntries b.board fap - 1) * b.board.writeSz + 1 ≤
      b.board.faSize fap) :
    findStatusIdx b fap = (do
      let fl ← .get
      if reportsInconsistent b.board fl fap = true ∧ ¬b.validatePrimarySlot then .throw .panic
      else return (statusScanLoop (fun i => fl fap (bootStatusOff b.board fap + i * b.board.writeSz) = erasedVal)
        (bootStatusEntries b.board fap) 1 ⟨0, 0⟩).foundIdx) := by
  rw [findStatusIdx, statusOff, if_pos trailer, Prog.pure_bind]
  refine congrArg (Prog.get >>= ·) (funext fun fl => ?_)
  rw [if_neg (not_lt.mpr entries)]
  simp only [reportsInconsistent, decide_eq_true_eq]

end Adaboot

namespace Adaboot.SwapScratch

open Nor Crash

/-! ### The scan of swaps using scratch -/

/-- The flag of `swap_read_status_bytes`. -/
def reportsInconsistent (bd : Board) (fl : Flash) (fap : Area) : Bool :=
  (statusScanLoop (fun i => fl fap (bootStatusOff bd fap + i * bd.writeSz) = erasedVal)
    (bootStatusEntries bd fap) ⟨false, 0, false, 0⟩).invalid

theorem swapReadStatusBytes_eq {b : LoaderBuild} {fap : Area} {bs : BootStatus}
    (trailer : bootTrailerSzOf b.board fap ≤ b.board.faSize fap)
    (entries : bootStatusOff b.board fap + (bootStatusEntries b.board fap - 1) * b.board.writeSz + 1 ≤
      b.board.faSize fap) :
    swapReadStatusBytes b fap bs = (do
      let fl ← .get
      if reportsInconsistent b.board fl fap = true ∧ ¬b.validatePrimarySlot then .throw .panic
      let scan := statusScanLoop (fun i => fl fap (bootStatusOff b.board fap + i * b.board.writeSz) = erasedVal)
        (bootStatusEntries b.board fap) ⟨false, 0, false, 0⟩
      if scan.found then
        let foundIdx := if scan.foundIdx = 0 then scan.i else scan.foundIdx
        return { bs with
          idx := foundIdx / b.board.statusStateCount + 1, state := foundIdx % b.board.statusStateCount + 1 }
      else return bs) := by
  rw [swapReadStatusBytes, statusOff, if_pos trailer, Prog.pure_bind]
  refine congrArg (Prog.get >>= ·) (funext fun fl => ?_)
  rw [if_neg (not_lt.mpr entries)]
  rfl

/-- What the scan knows about the entries in front of it. -/
structure StatusScan.Knows (s : StatusScan) (erased : Nat → Bool) : Prop where
  valid : s.invalid = false
  found : s.found = true ↔ ∃ i, i < s.i ∧ erased i = false
  broken : s.foundIdx ≠ 0 ↔ Broken erased s.i
  noGap : ¬Gap erased s.i

section Scan

variable {erased : Nat → Bool} {s : StatusScan}

theorem statusScanLoop_invalid_iff {n : Nat} (knows : s.Knows erased) :
    (statusScanLoop erased n s).invalid = true ↔ Gap erased (s.i + n) := by
  induction n generalizing s with
  | zero =>
    rw [statusScanLoop, knows.valid]
    exact iff_of_false Bool.false_ne_true knows.noGap
  | succ n ih =>
    have found_succ : (∃ i, i < s.i + 1 ∧ erased i = false) ↔ s.found = true ∨ erased s.i = false := by
      rw [knows.found]
      constructor
      · rintro ⟨i, lt, written⟩
        rcases Nat.eq_or_lt_of_le (Nat.le_of_lt_succ lt) with rfl | lt
        · exact .inr written
        · exact .inl ⟨i, lt, written⟩
      · rintro (⟨i, lt, written⟩ | written)
        · exact ⟨i, by omega, written⟩
        · exact ⟨s.i, Nat.lt_succ_self _, written⟩
    have next : s.i + (n + 1) = s.i + 1 + n := by omega
    rw [statusScanLoop, next]
    cases blank : erased s.i with
    | true =>
      refine ih ⟨knows.valid, ?_, ?_, ?_⟩
      · rw [found_succ]
        simp [blank]
      · rw [broken_succ, ← knows.broken, ← knows.found]
        have later := fun found => (Nat.lt_of_le_of_lt (Nat.zero_le _) (knows.found.mp found).choose_spec.1).ne'
        by_cases first : s.found = true ∧ s.foundIdx = 0
        · simp [first, blank, later first.1]
        · rw [if_neg first]
          constructor
          · exact .inl
          · rintro (behind | ⟨-, found⟩)
            · exact behind
            · exact fun none => first ⟨found, none⟩
      · rw [gap_succ]
        simp [blank, knows.noGap]
    | false =>
      have found_now : (∃ i, i < s.i + 1 ∧ erased i = false) ↔ True := by
        rw [found_succ]
        simp [blank]
      have broken_now : Broken erased (s.i + 1) ↔ s.foundIdx ≠ 0 := by
        rw [broken_succ, ← knows.broken]
        simp [blank]
      by_cases found : s.found = true
      · rw [if_neg (not_not.mpr found)]
        by_cases behind : s.foundIdx ≠ 0
        · -- this entry is behind the erased one
          rw [if_pos behind]
          refine iff_of_true rfl (Gap.mono (gap_succ.mpr (.inr ⟨blank, knows.broken.mp behind⟩)) ?_)
          omega
        · rw [if_neg behind]
          refine ih ⟨knows.valid, ?_, broken_now.symm, ?_⟩
          · rw [found_now]
            exact iff_true_intro found
          · rw [gap_succ, ← knows.broken]
            simp [knows.noGap, not_not.mp behind]
      · rw [if_pos found]
        have none : ¬s.foundIdx ≠ 0 := by
          rw [knows.broken]
          rintro ⟨i, j, less, lt, written, -⟩
          exact found (knows.found.mpr ⟨i, by omega, written⟩)
        refine ih ⟨knows.valid, ?_, broken_now.symm, ?_⟩
        · rw [found_now]
          exact iff_true_intro rfl
        · rw [gap_succ, ← knows.broken]
          simp [knows.noGap, not_not.mp none]

theorem reportsInconsistent_iff (bd : Board) (fl : Flash) (fap : Area) : reportsInconsistent bd fl fap = true ↔
      Gap (fun i => fl fap (bootStatusOff bd fap + i * bd.writeSz) = erasedVal) (bootStatusEntries bd fap) := by
  have start : StatusScan.Knows ⟨false, 0, false, 0⟩
      fun i => decide (fl fap (bootStatusOff bd fap + i * bd.writeSz) = erasedVal) := by
    refine ⟨rfl, ?_, ?_, ?_⟩
    · simp
    · refine iff_of_false (by simp) ?_
      rintro ⟨_, _, _, lt, _⟩
      exact Nat.not_lt_zero _ lt
    · rintro ⟨_, lt, _⟩
      exact Nat.not_lt_zero _ lt
  rw [reportsInconsistent, statusScanLoop_invalid_iff start, Nat.zero_add]

end Scan

end Adaboot.SwapScratch

namespace Adaboot

open Nor Crash

def statusErased (bd : Board) (fl : Flash) (fap : Area) (i : Nat) : Bool :=
  fl fap (bootStatusOff bd fap + i * bd.writeSz) = erasedVal

/-- Swaps without scratch report what they should exactly if there is nothing to report; swaps using scratch also if an
erased entry is between two written ones. -/
theorem inconsistent_status_iff (bd : Board) (fl : Flash) (fap : Area) :
    ((reportsInconsistent bd fl fap = true ↔ ¬Contiguous (statusErased bd fl fap) (bootStatusEntries bd fap)) ↔
      Contiguous (statusErased bd fl fap) (bootStatusEntries bd fap)) ∧
    ((SwapScratch.reportsInconsistent bd fl fap = true ↔
        ¬Contiguous (statusErased bd fl fap) (bootStatusEntries bd fap)) ↔
      Contiguous (statusErased bd fl fap) (bootStatusEntries bd fap) ∨
        Gap (statusErased bd fl fap) (bootStatusEntries bd fap)) := by
  constructor
  · rw [reportsInconsistent_eq_false]
    simp
  · have reports : SwapScratch.reportsInconsistent bd fl fap = true ↔
        Gap (statusErased bd fl fap) (bootStatusEntries bd fap) := SwapScratch.reportsInconsistent_iff bd fl fap
    rw [reports]
    constructor
    · intro iff
      by_cases contiguous : Contiguous (statusErased bd fl fap) (bootStatusEntries bd fap)
      · exact .inl contiguous
      · exact .inr (iff.mpr contiguous)
    · rintro (contiguous | gap)
      · exact iff_of_false (fun gap => gap.not_contiguous contiguous) (not_not.mpr contiguous)
      · exact iff_of_true gap gap.not_contiguous

def fourSectors (mode : SwapMode) : Board :=
  .ofLayout mode 8 4 64 (fun _ => 0) (fun _ => List.replicate 4 128) Board.fourSectors_fits

def statusFlash (bd : Board) (written : List Nat) : Flash
  | .primary, x => if x ∈ written.map (bootStatusOff bd .primary + · * bd.writeSz) then 1 else erasedVal
  | _, _ => erasedVal

/-- A swap using move does not report that the second of three entries is erased, nor one using scratch that the first
is. -/
theorem inconsistent_status_unreported :
    (¬Contiguous (statusErased (fourSectors .move) (statusFlash (fourSectors .move) [0, 2]) .primary)
        (bootStatusEntries (fourSectors .move) .primary) ∧
      reportsInconsistent (fourSectors .move) (statusFlash (fourSectors .move) [0, 2]) .primary = false) ∧
    (¬Contiguous (statusErased (fourSectors .scratch) (statusFlash (fourSectors .scratch) [1]) .primary)
        (bootStatusEntries (fourSectors .scratch) .primary) ∧
      SwapScratch.reportsInconsistent (fourSectors .scratch) (statusFlash (fourSectors .scratch) [1]) .primary = false) := by
  refine ⟨⟨Gap.not_contiguous ⟨2, ?_⟩, by decide +kernel⟩, ?_, by decide +kernel⟩
  · exact ⟨by decide +kernel, by decide +kernel, 0, 1, by decide, by decide, by decide +kernel, by decide +kernel⟩
  · rintro ⟨k, run⟩
    have second := (run 1 (by decide +kernel)).mp (by decide +kernel)
    have first := (run 0 (by decide +kernel)).mpr (by omega)
    exact absurd first (by decide +kernel)

end Adaboot
