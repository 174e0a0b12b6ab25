import Adaboot.Swap.Move
import Adaboot.Swap.Offset
import Mathlib.Data.Nat.Find

/-!
# The sectors of a swap that is resumed

A resumed swap has as many sectors as the recorded size says, which is whatever is in flash. The loop of
`find_last_idx` is a relation without fuel, and the sectors that are looked up are compared with those that the slots
have.
-/

namespace Adaboot

open Nor Crash

/-! ### The loop of `find_last_idx` -/

/-- The loop returns the count `n`. -/
inductive FindsLast (sectorSz swapSize : Nat) : Nat → Nat → Nat → Prop
  | stop {sz count : Nat} : u32 (sz + sectorSz) ≥ swapSize → FindsLast sectorSz swapSize sz count (count + 1)
  | more {sz count n : Nat} : u32 (sz + sectorSz) < swapSize →
      FindsLast sectorSz swapSize (u32 (sz + sectorSz)) (count + 1) n → FindsLast sectorSz swapSize sz count n

/-- Some number of sectors up to `k`, at least one, adds up to the swap size. -/
def Reached (sectorSz swapSize k : Nat) : Prop := ∃ j, 0 < j ∧ j ≤ k ∧ swapSize ≤ u32 (j * sectorSz)

section Loop

variable {sectorSz swapSize : Nat}

theorem u32_add (x y : Nat) : u32 (u32 x + y) = u32 (x + y) := Nat.mod_add_mod x (2 ^ 32) y

theorem u32_succ_mul (count sectorSz : Nat) :
    u32 (u32 (count * sectorSz) + sectorSz) = u32 ((count + 1) * sectorSz) := by
  rw [u32_add, Nat.succ_mul]

/-- The loop returns the first count that reaches the swap size, and does not return if there is none. -/
theorem findsLast_iff {count n : Nat} : FindsLast sectorSz swapSize (u32 (count * sectorSz)) count n ↔
      count < n ∧ swapSize ≤ u32 (n * sectorSz) ∧ ∀ j, count < j → j < n → u32 (j * sectorSz) < swapSize := by
  constructor
  · intro returns
    generalize start : u32 (count * sectorSz) = sz at returns
    induction returns with
    | stop reached =>
      rw [← start, u32_succ_mul] at reached
      exact ⟨Nat.lt_succ_self _, reached, fun j _ _ => by omega⟩
    | more less _ ih =>
      rw [← start, u32_succ_mul] at less ih
      obtain ⟨lt, reached, before⟩ := ih rfl
      refine ⟨by omega, reached, fun j above below => ?_⟩
      rcases Nat.eq_or_lt_of_le (show _ + 1 ≤ j from above) with rfl | later
      · exact less
      · exact before j later below
  · rintro ⟨lt, reached, before⟩
    -- induction on the rounds that are left
    obtain ⟨left, rfl⟩ := Nat.exists_eq_add_of_lt lt
    induction left generalizing count with
    | zero =>
      apply FindsLast.stop
      rwa [u32_succ_mul]
    | succ left ih =>
      have less := before (count + 1) (Nat.lt_succ_self _) (by omega)
      apply FindsLast.more
      · rwa [u32_succ_mul]
      · rw [u32_succ_mul]
        have same : count + (left + 1) + 1 = count + 1 + left + 1 := by omega
        rw [same] at reached before ⊢
        exact ih (by omega) reached fun j above below => before j (by omega) below

theorem findsLast_zero_iff {n : Nat} : FindsLast sectorSz swapSize 0 0 n ↔
      0 < n ∧ swapSize ≤ u32 (n * sectorSz) ∧ ∀ j, 0 < j → j < n → u32 (j * sectorSz) < swapSize := by
  have loop := @findsLast_iff sectorSz swapSize 0 n
  rwa [Nat.zero_mul] at loop

theorem FindsLast.le_iff {n k : Nat} (returns : FindsLast sectorSz swapSize 0 0 n) :
    n ≤ k ↔ Reached sectorSz swapSize k := by
  obtain ⟨pos, reached, before⟩ := findsLast_zero_iff.mp returns
  constructor
  · intro le
    exact ⟨n, pos, le, reached⟩
  · rintro ⟨j, some, le, enough⟩
    refine Nat.le_trans (Nat.le_of_not_lt fun below => ?_) le
    exact Nat.lt_irrefl _ ((before j some below).trans_le enough)

theorem exists_findsLast {k : Nat} (reached : Reached sectorSz swapSize k) :
    ∃ n, FindsLast sectorSz swapSize 0 0 n := by
  classical
  have some : ∃ j, 0 < j ∧ swapSize ≤ u32 (j * sectorSz) := by
    obtain ⟨j, pos, -, enough⟩ := reached
    exact ⟨j, pos, enough⟩
  refine ⟨Nat.find some, findsLast_zero_iff.mpr ⟨(Nat.find_spec some).1, (Nat.find_spec some).2, ?_⟩⟩
  intro j pos below
  exact Nat.lt_of_not_le fun enough => Nat.find_min some below ⟨pos, enough⟩

theorem findsLast_sectorCount (pos : 0 < sectorSz) (small : sectorCount sectorSz swapSize * sectorSz < 2 ^ 32) :
    FindsLast sectorSz swapSize 0 0 (sectorCount sectorSz swapSize) := by
  obtain ⟨some, enough, before⟩ := @sectorCount_spec sectorSz swapSize pos
  refine findsLast_zero_iff.mpr ⟨some, by rwa [u32_of_lt small], fun j jPos below => ?_⟩
  have le := Nat.mul_le_mul_right sectorSz (show j ≤ sectorCount sectorSz swapSize - 1 by omega)
  rw [u32_of_lt (by omega)]
  rcases before with before | one
  · omega
  · omega

end Loop

/-! ### Lookups of sectors -/

abbrev Lookups : Type := List (Area × Nat)

def Lookups.InRange (bd : Board) (looks : Lookups) : Prop := ∀ look ∈ looks, look.2 < bd.numSectors look.1

instance (bd : Board) (looks : Lookups) : Decidable (looks.InRange bd) :=
  inferInstanceAs (Decidable (∀ look ∈ looks, _))

variable {bd : Board} {looks : Nat → Lookups}

theorem Lookups.inRange_append {looks looks' : Lookups} :
    Lookups.InRange bd (looks ++ looks') ↔ looks.InRange bd ∧ looks'.InRange bd :=
  List.forall_mem_append

theorem inRange_flatMap {idxs : List Nat} :
    Lookups.InRange bd (idxs.flatMap looks) ↔ ∀ idx ∈ idxs, (looks idx).InRange bd := by
  constructor
  · intro all idx mem look found
    exact all look (List.mem_flatMap.mpr ⟨idx, mem, found⟩)
  · intro all look found
    obtain ⟨idx, mem, found⟩ := List.mem_flatMap.mp found
    exact all idx mem look found

/-- A step that stops the run in a way of its own if it looks up a sector that a slot does not have. -/
def checked {α : Type} (bd : Board) (looks : Lookups) (m : Boot α) : Boot α :=
  if looks.InRange bd then m else .throw .ebadvect

theorem checked_of_inRange {α : Type} {looks : Lookups} (inRange : looks.InRange bd) (m : Boot α) :
    checked bd looks m = m :=
  if_pos inRange

/-- With the recorded size, `find_last_idx` returns and the sectors that the swap looks up are there. -/
def ResumesInRange (bd : Board) (fl : Flash) (looks : Nat → Lookups) : Prop :=
  ∀ fap swapSize, bootFindStatus bd fl = some fap → bootReadSwapSize bd fl fap = some swapSize →
    ∃ n, FindsLast (bd.sectorSize .primary 0) swapSize 0 0 n ∧ (looks n).InRange bd

/-- The recorded size is reached with so many sectors. -/
def SizeReached (bd : Board) (fl : Flash) (k : Nat) : Prop :=
  ∀ fap swapSize, bootFindStatus bd fl = some fap → bootReadSwapSize bd fl fap = some swapSize →
    Reached (bd.sectorSize .primary 0) swapSize k

theorem resumesInRange_iff {fl : Flash} {k : Nat}
    (inRange : ∀ n, 0 < n → ((looks n).InRange bd ↔ n ≤ k)) : ResumesInRange bd fl looks ↔ SizeReached bd fl k := by
  constructor
  · intro resumes fap swapSize found read
    obtain ⟨n, returns, fits⟩ := resumes fap swapSize found read
    exact returns.le_iff.mp ((inRange n (findsLast_zero_iff.mp returns).1).mp fits)
  · intro reached fap swapSize found read
    have enough := reached fap swapSize found read
    obtain ⟨n, returns⟩ := exists_findsLast enough
    exact ⟨n, returns, (inRange n (findsLast_zero_iff.mp returns).1).mpr (returns.le_iff.mpr enough)⟩

/-! ### Swap using offset -/

namespace SwapOffset

/-- The sectors that `boot_swap_sectors` looks up. -/
def updateLookups (idx : Nat) : Lookups := [(.primary, idx), (.secondary, idx), (.primary, idx + 1)]

/-- The sectors that `boot_swap_sectors_revert` looks up. -/
def revertLookups (idx : Nat) : Lookups := [(.primary, idx), (.secondary, idx + 1), (.primary, idx)]

/-- The size of the first sector, and for each sector that is not done what one of the functions looks up. -/
def lookups (revert : Bool) (bs : BootStatus) (n : Nat) : Lookups :=
  (.primary, 0) :: ((List.range n).filter (· ≥ bs.idx - statusIdx0)).flatMap fun idx =>
    if revert then revertLookups (n - 1 - idx) else updateLookups idx

/-- How many sectors a swap can have: those that are done, and as many as can be looked up. -/
def sectorLimit (bd : Board) (revert : Bool) (bs : BootStatus) : Nat :=
  let done := bs.idx - statusIdx0
  if bd.numSectors .primary = 0 then 0
  else if revert then min (bd.numSectors .primary) (bd.numSectors .secondary - 1) + done
  else max (min (bd.numSectors .primary - 1) (bd.numSectors .secondary)) done

section Lookups

variable {bd : Board}

theorem updateLookups_inRange {idx : Nat} :
    (updateLookups idx).InRange bd ↔ idx + 1 < bd.numSectors .primary ∧ idx < bd.numSectors .secondary := by
  simp [Lookups.InRange, updateLookups]
  omega

theorem revertLookups_inRange {idx : Nat} :
    (revertLookups idx).InRange bd ↔ idx < bd.numSectors .primary ∧ idx + 1 < bd.numSectors .secondary := by
  simp [Lookups.InRange, revertLookups]
  omega

theorem lookups_inRange {revert : Bool} {bs : BootStatus} {n : Nat} :
    (lookups revert bs n).InRange bd ↔ 0 < bd.numSectors .primary ∧ ∀ idx, idx < n → bs.idx - statusIdx0 ≤ idx →
      Lookups.InRange bd (if revert then revertLookups (n - 1 - idx) else updateLookups idx) := by
  refine List.forall_mem_cons.trans (and_congr_right fun _ => inRange_flatMap.trans ?_)
  simp only [List.mem_filter, List.mem_range, decide_eq_true_eq, and_imp, ge_iff_le]

theorem lookups_inRange_iff (revert : Bool) (bs : BootStatus) {n : Nat} (pos : 0 < n) :
    (lookups revert bs n).InRange bd ↔ n ≤ sectorLimit bd revert bs := by
  rw [lookups_inRange]
  unfold sectorLimit
  generalize bs.idx - statusIdx0 = done
  by_cases none : bd.numSectors .primary = 0
  · rw [if_pos none]
    exact iff_of_false (fun both => Nat.lt_irrefl _ (none ▸ both.1)) (by omega)
  · rw [if_neg none]
    cases revert with
    | true =>
      simp only [if_true]
      constructor
      · rintro ⟨-, all⟩
        by_contra more
        -- the highest sector comes first
        have first := revertLookups_inRange.mp (all done (by omega) le_rfl)
        omega
      · intro le
        refine ⟨by omega, fun idx lt ge => revertLookups_inRange.mpr ?_⟩
        omega
    | false =>
      simp only [Bool.false_eq_true, if_false]
      constructor
      · rintro ⟨-, all⟩
        by_contra more
        have last := updateLookups_inRange.mp (all (n - 1) (by omega) (by omega))
        omega
      · intro le
        refine ⟨by omega, fun idx lt ge => updateLookups_inRange.mpr ?_⟩
        omega

end Lookups

section Runs

variable (b : LoaderBuild)

/-- `swap_run` behind `find_last_idx`, for a swap that is resumed. What a step looks up is told to `guard`. -/
def resumeWith (guard : Lookups → Boot BootStatus → Boot BootStatus) (st : BootState) (bs : BootStatus) (lastIdx : Nat) :
    Boot BootStatus := do
  let bd := b.board
  let sectorSz := bd.sectorSize .primary 0
  fixupRevert b st bs
  if bs.idx = statusIdx0 then beginSwap bd st bs
  let fl ← .get
  let tlvSizes := (bootReadUnprotectedTlvSizes bd fl .primary).getD (0, 0)
  let usedPri := usedSectors sectorSz st.hdrPrimary tlvSizes.1
  let usedSec := usedSectors sectorSz st.hdrSecondary tlvSizes.2
  let bs := { bs with op := .swap }
  if isRevert bd fl bs then
    let bs ← sectorLoop (fun idx bs => guard (revertLookups (lastIdx - idx))
      (bootSwapSectorsRevert b (lastIdx - idx) (lastIdx - idx > usedPri) (lastIdx - idx > usedSec) bs)) (lastIdx + 1) 0 bs
    assertOk (bootScrambleRegion bd .secondary (bd.sectorOff .secondary 0) sectorSz false)
    assertOk (swapScrambleTrailerSectors bd .secondary)
    return bs
  else
    sectorLoop (fun idx bs => guard (updateLookups idx) (bootSwapSectors b idx (idx > usedPri) (idx > usedSec) bs))
      (lastIdx + 1) 0 bs

variable {b} {st : BootState} {bs : BootStatus} {n : Nat}

theorem swapRun_eq_resumeWith (resumed : bs.isReset b.board = false)
    (copySize : Nat) :
    swapRun b st bs copySize = resumeWith b (fun _ m => m) st bs (findLastIdx b.board copySize) := by
  unfold swapRun
  rw [if_neg (by simp [resumed])]
  rfl

theorem sectorLoop_checked {bd : Board} {looks : Nat → Lookups} {step : Nat → BootStatus → Boot BootStatus}
    {idx : Nat} (inRange : ∀ j, idx ≤ j → j < idx + n → bs.idx - statusIdx0 ≤ j → (looks j).InRange bd) :
    sectorLoop (fun idx bs => checked bd (looks idx) (step idx bs)) n idx bs = sectorLoop step n idx bs := by
  induction n generalizing idx bs with
  | zero => rfl
  | succ n ih =>
    unfold sectorLoop
    by_cases todo : idx ≥ bs.idx - statusIdx0
    · rw [if_pos todo, if_pos todo, checked_of_inRange (inRange idx le_rfl (by omega) todo)]
      congr 1
      funext bs'
      exact ih fun j above below _ => inRange j (by omega) (by omega) (by omega)
    · rw [if_neg todo, if_neg todo, Prog.pure_bind, Prog.pure_bind]
      exact ih fun j above below => inRange j (by omega) (by omega)

theorem resumeWith_checked (pos : 0 < n)
    (fits : ∀ revert, n ≤ sectorLimit b.board revert bs) :
    resumeWith b (checked b.board) st bs (n - 1) = resumeWith b (fun _ m => m) st bs (n - 1) := by
  have each (revert : Bool) := (lookups_inRange.mp ((lookups_inRange_iff revert bs pos).mpr (fits revert))).2
  have last : n - 1 + 1 = n := by omega
  unfold resumeWith
  rw [last]
  have reverts (usedPri usedSec : Nat) := @sectorLoop_checked { bs with op := .swap } n b.board
    (fun idx => revertLookups (n - 1 - idx))
    (fun idx bs => bootSwapSectorsRevert b (n - 1 - idx) (n - 1 - idx > usedPri) (n - 1 - idx > usedSec) bs) 0
    fun j _ lt ge => each true j (by omega) ge
  have updates (usedPri usedSec : Nat) := @sectorLoop_checked { bs with op := .swap } n b.board updateLookups
    (fun idx bs => bootSwapSectors b idx (idx > usedPri) (idx > usedSec) bs) 0 fun j _ lt ge => each false j (by omega) ge
  simp only [reverts, updates]

end Runs

end SwapOffset

/-! ### Swap using move -/

namespace SwapMove

/-- The sectors that `boot_move_sector_up` looks up. -/
def moveLookups (idx : Nat) : Lookups := [(.primary, idx), (.primary, idx - 1)]

/-- The sectors that `boot_swap_sectors` looks up. -/
def swapLookups (idx : Nat) : Lookups := [(.primary, idx), (.primary, idx - 1), (.secondary, idx - 1)]

/-- The size of the first sector, the sectors that are still to be moved and all that are swapped then, or those still
to be swapped. -/
def lookups (bs : BootStatus) (n : Nat) : Lookups := (.primary, 0) ::
    if bs.op = .move then
      ((List.range' 1 n).filter (· ≤ u32 (n + 2 ^ 32 - bs.idx + 1))).flatMap moveLookups ++
        (List.range' 1 n).flatMap swapLookups
    else ((List.range' 1 n).filter (· ≥ bs.idx)).flatMap swapLookups

/-- How many sectors a swap can have: as many as can be looked up, or those that are done. -/
def sectorLimit (bd : Board) (bs : BootStatus) : Nat :=
  let all := min (bd.numSectors .primary - 1) (bd.numSectors .secondary)
  if bd.numSectors .primary = 0 then 0
  else if bs.op = .move then all else max all (bs.idx - statusIdx0)

section Lookups

variable {bd : Board}

theorem moveLookups_inRange {idx : Nat} : (moveLookups idx).InRange bd ↔ idx < bd.numSectors .primary := by
  simp [Lookups.InRange, moveLookups]
  omega

theorem swapLookups_inRange {idx : Nat} :
    (swapLookups idx).InRange bd ↔ idx < bd.numSectors .primary ∧ idx - 1 < bd.numSectors .secondary := by
  simp [Lookups.InRange, swapLookups]
  omega

theorem lookups_inRange {bs : BootStatus} {n : Nat} : (lookups bs n).InRange bd ↔ 0 < bd.numSectors .primary ∧
      (bs.op = .move → ∀ idx, 0 < idx → idx ≤ n → idx ≤ u32 (n + 2 ^ 32 - bs.idx + 1) → (moveLookups idx).InRange bd) ∧
      ∀ idx, 0 < idx → idx ≤ n → (bs.op = .move ∨ bs.idx ≤ idx) → (swapLookups idx).InRange bd := by
  have range {idx : Nat} : idx ∈ List.range' 1 n ↔ 0 < idx ∧ idx ≤ n := by
    rw [List.mem_range'_1]
    omega
  refine List.forall_mem_cons.trans (and_congr_right fun _ => ?_)
  change Lookups.InRange bd _ ↔ _
  cases bs.op with
  | move =>
    rw [if_pos rfl, Lookups.inRange_append, inRange_flatMap, inRange_flatMap]
    simp only [List.mem_filter, range, decide_eq_true_eq, and_imp, true_imp_iff, true_or]
  | swap =>
    rw [if_neg (by decide), inRange_flatMap]
    simp only [List.mem_filter, range, decide_eq_true_eq, and_imp, reduceCtorEq, false_imp_iff, true_and, false_or, ge_iff_le]

theorem lookups_inRange_iff (bs : BootStatus) {n : Nat} (pos : 0 < n) :
    (lookups bs n).InRange bd ↔ n ≤ sectorLimit bd bs := by
  rw [lookups_inRange]
  unfold sectorLimit statusIdx0
  by_cases none : bd.numSectors .primary = 0
  · rw [if_pos none]
    exact iff_of_false (fun both => Nat.lt_irrefl _ (none ▸ both.1)) (by omega)
  · rw [if_neg none]
    constructor
    · rintro ⟨-, -, swaps⟩
      by_contra more
      split at more
      next move =>
        have last := swapLookups_inRange.mp (swaps n pos le_rfl (.inl move))
        omega
      next =>
        have last := swapLookups_inRange.mp (swaps n pos le_rfl (.inr (by omega)))
        omega
    · intro le
      refine ⟨by omega, fun move idx _ below _ => moveLookups_inRange.mpr ?_, fun idx _ below todo =>
        swapLookups_inRange.mpr ?_⟩
      · rw [if_pos move] at le
        omega
      · split at le
        · omega
        next swap =>
          have := todo.resolve_left swap
          omega

end Lookups

section Runs

variable (b : LoaderBuild)

/-- `moveLoop`, with what a step looks up told to `guard`. -/
def moveLoopWith (guard : Lookups → Boot BootStatus → Boot BootStatus) (st : BootState) (lastIdx : Nat) :
    Nat → BootStatus → Boot BootStatus
  | 0, bs => pure bs
  | idx + 1, bs => do
    let bs ←
      if idx + 1 ≤ u32 (lastIdx + 2 ^ 32 - bs.idx + 1) then
        guard (moveLookups (idx + 1)) (bootMoveSectorUp b st (idx + 1) bs)
      else pure bs
    moveLoopWith guard st lastIdx idx bs

/-- `swapLoop`, with what a step looks up told to `guard`. -/
def swapLoopWith (guard : Lookups → Boot BootStatus → Boot BootStatus) : Nat → Nat → BootStatus → Boot BootStatus
  | 0, _, bs => pure bs
  | n + 1, idx, bs => do
    let bs ← if idx ≥ bs.idx then guard (swapLookups idx) (bootSwapSectors b idx bs) else pure bs
    swapLoopWith guard n (idx + 1) bs

/-- `swap_run` behind `find_last_idx`, for a swap that is resumed. -/
def resumeWith (guard : Lookups → Boot BootStatus → Boot BootStatus) (st : BootState) (bs : BootStatus) (lastIdx : Nat) :
    Boot BootStatus := do
  fixupRevert b bs
  let bs ←
    if bs.op = .move then do
      let bs ← moveLoopWith b guard st lastIdx lastIdx bs
      pure { bs with idx := statusIdx0 }
    else pure bs
  swapLoopWith b guard lastIdx 1 { bs with op := .swap }

variable {b} {st : BootState} {idx n : Nat} {bs : BootStatus} {guard : Lookups → Boot BootStatus → Boot BootStatus}

theorem moveLoopWith_eq {lastIdx : Nat}
    (idle : ∀ j m, 0 < j → j ≤ idx → guard (moveLookups j) m = m) :
    moveLoopWith b guard st lastIdx idx bs = moveLoop b st lastIdx idx bs := by
  induction idx generalizing bs with
  | zero => rfl
  | succ idx ih =>
    have rest : moveLoopWith b guard st lastIdx idx = moveLoop b st lastIdx idx := by
      funext bs'
      exact ih fun j m pos le => idle j m pos (by omega)
    unfold moveLoopWith moveLoop
    rw [idle (idx + 1) _ (Nat.succ_pos _) le_rfl, rest]

theorem swapLoopWith_eq (idle : ∀ j m, idx ≤ j → j < idx + n → bs.idx ≤ j → guard (swapLookups j) m = m) :
    swapLoopWith b guard n idx bs = swapLoop b n idx bs := by
  induction n generalizing idx bs with
  | zero => rfl
  | succ n ih =>
    unfold swapLoopWith swapLoop
    by_cases todo : idx ≥ bs.idx
    · rw [if_pos todo, if_pos todo, idle idx _ le_rfl (by omega) todo]
      congr 1
      funext bs'
      exact ih fun j m above below _ => idle j m (by omega) (by omega) (by omega)
    · rw [if_neg todo, if_neg todo, Prog.pure_bind, Prog.pure_bind]
      exact ih fun j m above below => idle j m (by omega) (by omega)

theorem swapRun_eq_resumeWith (resumed : bs.isReset b.board = false)
    (copySize : Nat) :
    swapRun b st bs copySize = resumeWith b (fun _ m => m) st bs (findLastIdx b.board copySize) := by
  unfold swapRun resumeWith
  rw [if_neg (by simp [resumed])]
  have moves (bs : BootStatus) : moveLoopWith b (fun _ m => m) st (findLastIdx b.board copySize)
      (findLastIdx b.board copySize) bs = moveLoop b st _ _ bs := moveLoopWith_eq fun _ _ _ _ => rfl
  have swaps (bs : BootStatus) : swapLoopWith b (fun _ m => m) (findLastIdx b.board copySize) 1 bs =
      swapLoop b _ 1 bs := swapLoopWith_eq fun _ _ _ _ _ => rfl
  simp only [moves, swaps]

theorem resumeWith_checked (pos : 0 < n)
    (fits : n ≤ sectorLimit b.board bs) :
    resumeWith b (checked b.board) st bs n = resumeWith b (fun _ m => m) st bs n := by
  obtain ⟨-, -, swapping⟩ := lookups_inRange.mp ((lookups_inRange_iff bs pos).mpr fits)
  have idleSwaps (bs' : BootStatus) : swapLoopWith b (fun _ m => m) n 1 bs' = swapLoop b n 1 bs' :=
    swapLoopWith_eq fun _ _ _ _ _ => rfl
  have idleMoves (bs' : BootStatus) : moveLoopWith b (fun _ m => m) st n n bs' = moveLoop b st n n bs' :=
    moveLoopWith_eq fun _ _ _ _ => rfl
  unfold resumeWith
  by_cases move : bs.op = .move
  · -- all sectors are swapped behind the move, so that those that are moved are there too
    have swaps (bs' : BootStatus) : swapLoopWith b (checked b.board) n 1 bs' = swapLoop b n 1 bs' :=
      swapLoopWith_eq fun j m above below _ => checked_of_inRange (swapping j (by omega) (by omega) (.inl move)) m
    have moves (bs' : BootStatus) : moveLoopWith b (checked b.board) st n n bs' = moveLoop b st n n bs' := by
      refine moveLoopWith_eq fun j m above below => checked_of_inRange (moveLookups_inRange.mpr ?_) m
      exact (swapLookups_inRange.mp (swapping j above below (.inl move))).1
    simp only [swaps, moves, idleSwaps, idleMoves]
  · have swaps : swapLoopWith b (checked b.board) n 1 { bs with op := .swap } =
        swapLoop b n 1 { bs with op := .swap } :=
      swapLoopWith_eq fun j m above below todo =>
        checked_of_inRange (swapping j (by omega) (by omega) (.inr todo)) m
    simp only [if_neg move, Prog.pure_bind, swaps, idleSwaps]

end Runs

end SwapMove

/-- For every flash content and status, `find_last_idx` returns and only sectors that the slots have are looked up
exactly if the recorded size is reached within the limit. -/
theorem resume_in_range_iff (b : LoaderBuild) (fl : Flash) (st : BootState) (bs : BootStatus) :
    ((∀ revert, ResumesInRange b.board fl (SwapOffset.lookups revert bs) ↔
        SizeReached b.board fl (SwapOffset.sectorLimit b.board revert bs)) ∧
      ∀ n swapSize, FindsLast (b.board.sectorSize .primary 0) swapSize 0 0 n →
        (∀ revert, Reached (b.board.sectorSize .primary 0) swapSize (SwapOffset.sectorLimit b.board revert bs)) →
        SwapOffset.resumeWith b (checked b.board) st bs (n - 1) = SwapOffset.resumeWith b (fun _ m => m) st bs (n - 1)) ∧
    (ResumesInRange b.board fl (SwapMove.lookups bs) ↔ SizeReached b.board fl (SwapMove.sectorLimit b.board bs)) ∧
      ∀ n swapSize, FindsLast (b.board.sectorSize .primary 0) swapSize 0 0 n →
        Reached (b.board.sectorSize .primary 0) swapSize (SwapMove.sectorLimit b.board bs) →
        SwapMove.resumeWith b (checked b.board) st bs n = SwapMove.resumeWith b (fun _ m => m) st bs n := by
  refine ⟨⟨fun revert => ?_, fun n swapSize returns reached => ?_⟩, ?_, fun n swapSize returns reached => ?_⟩
  · exact resumesInRange_iff fun n pos => SwapOffset.lookups_inRange_iff revert bs pos
  · exact SwapOffset.resumeWith_checked (findsLast_zero_iff.mp returns).1 fun revert =>
      returns.le_iff.mpr (reached revert)
  · exact resumesInRange_iff fun n pos => SwapMove.lookups_inRange_iff bs pos
  · exact SwapMove.resumeWith_checked (findsLast_zero_iff.mp returns).1 (returns.le_iff.mpr reached)

def fourSectorLoader (mode : SwapMode) : LoaderBuild where
  board := .ofLayout mode 8 4 64 (fun _ => 0) (fun _ => List.replicate 4 128) Board.fourSectors_fits
  validate := hashBuild
  validatePrimarySlot := true

def interrupted (mode : SwapMode) (swapSize : Bytes) : Flash :=
  let bd := (fourSectorLoader mode).board
  (setField bd (setField bd (fun _ _ => erasedVal) .primary .magic (bootImgMagic bd)) .primary .swapSize swapSize).program
    .primary (bootStatusOff bd .primary) [1]

def offsetStatus : BootStatus := ⟨1, 2, .swap, false, .none, 0, .none⟩

def moveStatus : BootStatus := ⟨2, 1, .move, false, .none, 0, .none⟩

/-- Three sectors of four can be resumed. -/
theorem resume_in_range_three : ResumesInRange (fourSectorLoader .offset).board (interrupted .offset [44, 1, 0, 0])
        (SwapOffset.lookups false offsetStatus) ∧
      ResumesInRange (fourSectorLoader .move).board (interrupted .move [44, 1, 0, 0])
        (SwapMove.lookups moveStatus) := by
  have three : Reached 128 300 3 := ⟨3, by decide, by decide, by decide⟩
  constructor
  · refine ((resume_in_range_iff (fourSectorLoader .offset) _ .clear offsetStatus).1.1 false).mpr fun fap size found read => ?_
    obtain rfl : Area.primary = fap := Option.some.inj found
    obtain rfl : 300 = size := Option.some.inj ((by decide : some 300 = _).trans read)
    exact three
  · refine (resume_in_range_iff (fourSectorLoader .move) _ .clear moveStatus).2.1.mpr fun fap size found read => ?_
    obtain rfl : Area.primary = fap := Option.some.inj found
    obtain rfl : 300 = size := Option.some.inj ((by decide : some 300 = _).trans read)
    exact three

/-- With `0xffffffff` `find_last_idx` does not return, and with four sectors a fifth one is looked up. -/
theorem recorded_size_not_resumed :
    (((SwapOffset.swapReadStatusBytes (fourSectorLoader .offset) .primary (bootStatusReset (fourSectorLoader .offset).board)
          (interrupted .offset [255, 255, 255, 255])).value = .ok offsetStatus ∧
        offsetStatus.isReset (fourSectorLoader .offset).board = false) ∧
      ¬ResumesInRange (fourSectorLoader .offset).board
        (interrupted .offset [255, 255, 255, 255]) (SwapOffset.lookups false offsetStatus) ∧
      ¬ResumesInRange (fourSectorLoader .offset).board
        (interrupted .offset [0, 2, 0, 0]) (SwapOffset.lookups false offsetStatus)) ∧
    ((SwapMove.swapReadStatusBytes (fourSectorLoader .move) .primary (bootStatusReset (fourSectorLoader .move).board)
          (interrupted .move [255, 255, 255, 255])).value = .ok moveStatus ∧
        moveStatus.isReset (fourSectorLoader .move).board = false) ∧ ¬ResumesInRange (fourSectorLoader .move).board
        (interrupted .move [255, 255, 255, 255]) (SwapMove.lookups moveStatus) ∧
      ¬ResumesInRange (fourSectorLoader .move).board
        (interrupted .move [0, 2, 0, 0]) (SwapMove.lookups moveStatus) := by
  have endless (n : Nat) : ¬FindsLast 128 4294967295 0 0 n := by
    intro returns
    have reached := (findsLast_zero_iff.mp returns).2.1
    unfold u32 at reached
    omega
  have four : ¬Reached 128 512 3 := by
    rintro ⟨j, some, le, enough⟩
    unfold u32 at enough
    omega
  refine ⟨⟨⟨by decide, by decide⟩, fun resumes => ?_, fun resumes => ?_⟩, ⟨by decide, by decide⟩, fun resumes => ?_,
    fun resumes => ?_⟩
  · obtain ⟨n, returns, -⟩ := resumes .primary 4294967295 (by decide) (by decide)
    exact endless n returns
  · obtain ⟨n, returns, fits⟩ := resumes .primary 512 (by decide) (by decide)
    exact four (returns.le_iff.mp ((SwapOffset.lookups_inRange_iff _ _ (findsLast_zero_iff.mp returns).1).mp fits))
  · obtain ⟨n, returns, -⟩ := resumes .primary 4294967295 (by decide) (by decide)
    exact endless n returns
  · obtain ⟨n, returns, fits⟩ := resumes .primary 512 (by decide) (by decide)
    exact four (returns.le_iff.mp ((SwapMove.lookups_inRange_iff _ (findsLast_zero_iff.mp returns).1).mp fits))

end Adaboot
