import Adaboot.Swap.MoveCuts
import Adaboot.Swap.OffsetPlan

/-!
# The step that an interrupted swap resumes with

The statuses that the loops of `swap_run` write are listed (`pending`). Whatever number of them was written, the
status that is read back has the remaining ones pending, but between the last move and the first exchange the
operation that is read is still the move.
-/

namespace Adaboot

open Nor Crash

/-! ### Writing the statuses -/

def writeStatuses (bd : Board) (internalOff : BootStatus → Nat) : List BootStatus → Boot Unit
  | [] => pure ()
  | bs :: list => do
    bootWriteStatus bd internalOff bs
    writeStatuses bd internalOff list

section Entries

variable {bd : Board} {internalOff : BootStatus → Nat} {step : Nat → BootStatus} {entry : Nat → Nat} {total : Nat}

/-- The first entry that is still blank after `k` steps. -/
def blankEntry (entry : Nat → Nat) (k : Nat) : Nat := if k = 0 then 0 else entry (k - 1) + 1

theorem Entries.wp_writeStatuses (entries : Entries bd internalOff step entry total) (keeps : bd.KeepsStatus)
    (room : scrambleSz bd .primary ≤ bd.faSize .primary) {j n : Nat} {fl : Flash} {Q : Unit → Flash → Prop}
    {E : BootErr → Flash → Prop} (le : j + n ≤ total) (status : LastStatus bd fl (blankEntry entry j))
    (post : ∀ fl', LastStatus bd fl' (blankEntry entry (j + n)) → Q () fl') :
    wp (writeStatuses bd internalOff ((List.range' j n).map step)) Q E (fun _ => True) fl := by
  induction n generalizing j fl with
  | zero => exact (wp_pure _).mpr (post fl status)
  | succ n ih =>
    have lt : j < total := by omega
    have ascends : blankEntry entry j ≤ entry j := by
      cases j with
      | zero => exact Nat.zero_le _
      | succ j => exact entries.mono j
    rw [List.range'_succ, List.map_cons, writeStatuses, wp_bind]
    refine (wp_bootWriteStatus keeps room (entries.off j lt) (entries.lt j lt)).mpr
      ⟨trivial, ih (by omega) (status.write keeps ascends (entries.lt j lt) (entries.not_erased j)) ?_⟩
    rwa [Nat.succ_add_eq_add_succ]

def StatusErased (bd : Board) (fl : Flash) : Prop :=
  ∀ i, i < bootStatusEntries bd .primary → fl .primary (statusAt bd i) = erasedVal

theorem Entries.wp_find {b : LoaderBuild} (entries : Entries b.board internalOff step entry total)
    (keeps : b.board.KeepsStatus) (room : scrambleSz b.board .primary ≤ b.board.faSize .primary) {fl : Flash}
    (erased : StatusErased b.board fl) {k : Nat} (le : k ≤ total) {α : Type} {rest : Nat → Boot α}
    {Q : α → Flash → Prop} {E : BootErr → Flash → Prop}
    (post : ∀ fl', wp (rest (blankEntry entry k)) Q E (fun _ => True) fl') :
    wp (do writeStatuses b.board internalOff (((List.range total).map step).take k)
           let found ← findStatusIdx b .primary
           rest found) Q E (fun _ => True) fl := by
  have none : LastStatus b.board fl 0 :=
    ⟨Nat.zero_le _, fun pos => absurd pos (Nat.lt_irrefl 0), fun i _ lt => erased i lt⟩
  have taken : ((List.range total).map step).take k = (List.range' 0 k).map step := by
    rw [← List.map_take, List.take_range, Nat.min_eq_left le, List.range_eq_range']
  rw [taken, wp_bind]
  refine entries.wp_writeStatuses keeps room (by omega) none fun fl' status => ?_
  rw [Nat.zero_add] at status
  rw [wp_bind]
  exact wp_findStatusIdx keeps room status (post fl')

end Entries

end Adaboot

/-! ### Swaps using offset -/

namespace Adaboot.SwapOffset

open Nor Crash

variable {b : LoaderBuild} {last : Nat} {bd : Board}

theorem bootStatusReset_eq (mode : bd.mode = .offset) :
    bootStatusReset bd = exchangeStatus (bootStatusReset bd) 0 := by
  simp [exchangeStatus, bootStatusReset, resetOp, mode]

theorem pending_of_isReset {bs : BootStatus} (reset : bs.isReset bd = true) :
    pending last bs = (List.range (2 * (last + 1))).map (exchangeStatus bs) := by
  have start : { bs with op := .swap } = exchangeStatus bs 0 := by
    obtain ⟨-, idx, state⟩ := of_decide_eq_true reset
    simp [exchangeStatus, idx, state]
  have steps := pending_eq last bs 0
  rw [← start] at steps
  rw [List.range_eq_range']
  exact steps

theorem pending_reset (bd : Board) (last : Nat) :
    pending last (bootStatusReset bd) = (List.range (2 * (last + 1))).map (exchangeStatus (bootStatusReset bd)) :=
  pending_of_isReset (isReset_bootStatusReset bd)

theorem status_read_back (mode : b.board.mode = .offset)
    (room : scrambleSz b.board .primary ≤ b.board.faSize .primary)
    (few : last + 1 ≤ b.board.maxImgSectors) {fl : Flash} (erased : StatusErased b.board fl) {k : Nat}
    (le : k ≤ 2 * (last + 1)) :
    wp (do writeStatuses b.board (bootStatusInternalOff b.board) ((pending last (bootStatusReset b.board)).take k)
           swapReadStatusBytes b .primary (bootStatusReset b.board))
      (fun bs _ => bs = exchangeStatus (bootStatusReset b.board) k) (fun _ _ => False) (fun _ => True) fl := by
  rw [pending_reset]
  refine (entries mode few (bootStatusReset b.board)).wp_find (.inr mode) room erased le fun fl' => ?_
  cases k with
  | zero => exact (wp_pure _).mpr (bootStatusReset_eq mode)
  | succ k => exact (wp_pure _).mpr rfl

end Adaboot.SwapOffset

/-! ### Swaps using move -/

namespace Adaboot.SwapMove

open Nor Crash

variable {last j k : Nat} {b : LoaderBuild} {bd : Board}

/-- The status that is read back after `k` steps. -/
def readStatus (bd : Board) (last : Nat) (bs : BootStatus) (k : Nat) : BootStatus :=
  if k = last ∧ last < bd.maxImgSectors then moveStatus bs last else stepStatus last bs k

theorem eq_moveStatus {bs : BootStatus} (mode : bd.mode = .move) (reset : bs.isReset bd = true) :
    bs = moveStatus bs 0 := by
  simp only [BootStatus.isReset, resetOp, mode, decide_eq_true_eq] at reset
  exact (Moving.eq ⟨reset.1, reset.2.1, reset.2.2⟩).symm

theorem maxImgSectors_lt (mode : bd.mode = .move) (room : scrambleSz bd .primary ≤ bd.faSize .primary) :
    bd.maxImgSectors < 2 ^ 32 := by
  have size := bd.size_lt .primary
  have pos := Board.KeepsStatus.writeSz_pos (.inl mode)
  have count : bootStatusEntries bd .primary = 3 * bd.maxImgSectors := by
    simp [bootStatusEntries, mode, Board.statusStateCount]
  have top := (Board.KeepsStatus.statusAt_entries (.inl mode) room).1
  have bytes := Nat.le_mul_of_pos_right (bootStatusEntries bd .primary) pos
  unfold statusAt Board.faSize at top
  omega

theorem pending_of_isReset {bs : BootStatus} (mode : bd.mode = .move) (small : last < 2 ^ 32)
    (reset : bs.isReset bd = true) : pending last bs = (List.range (3 * last)).map (stepStatus last bs) := by
  conv_lhs => rw [eq_moveStatus mode reset]
  rw [pending_move _ small (Nat.zero_le _), List.range_eq_range']
  rfl

theorem pending_reset (mode : bd.mode = .move) (small : last < 2 ^ 32) :
    pending last (bootStatusReset bd) = (List.range (3 * last)).map (stepStatus last (bootStatusReset bd)) :=
  pending_of_isReset mode small (isReset_bootStatusReset bd)

theorem status_read_back (mode : b.board.mode = .move)
    (room : scrambleSz b.board .primary ≤ b.board.faSize .primary)
    (few : last ≤ b.board.maxImgSectors) (some : 0 < last) {fl : Flash} (erased : StatusErased b.board fl)
    (le : k ≤ 3 * last) :
    wp (do writeStatuses b.board (bootStatusInternalOff b.board) ((pending last (bootStatusReset b.board)).take k)
           swapReadStatusBytes b .primary (bootStatusReset b.board))
      (fun bs _ => bs = readStatus b.board last (bootStatusReset b.board) k) (fun _ _ => False) (fun _ => True) fl := by
  rw [pending_reset mode (few.trans_lt (maxImgSectors_lt mode room))]
  refine (entries mode few (bootStatusReset b.board)).wp_find (.inl mode) room erased le fun fl' => ?_
  simp only [statusMoveStateCount, statusSwapStateCount, Nat.mul_one, Nat.div_one, Nat.mod_one, Nat.zero_add]
  cases k with
  | zero =>
    rw [blankEntry, if_pos rfl, if_pos rfl, readStatus, if_neg (by omega), stepStatus, if_pos some]
    exact (wp_pure _).mpr (eq_moveStatus mode (isReset_bootStatusReset _))
  | succ k =>
    rw [blankEntry, if_neg (Nat.succ_ne_zero k), if_neg (Nat.succ_ne_zero _), Nat.add_sub_cancel, statusEntry, readStatus,
      stepStatus]
    by_cases moving : k < last
    · rw [if_pos moving]
      by_cases full : k + 1 < b.board.maxImgSectors
      · rw [if_pos full, wp_pure]
        by_cases done : k + 1 = last
        · rw [if_pos ⟨done, done ▸ full⟩, ← done]
          rfl
        · rw [if_neg fun ends => done ends.1, if_pos (by omega)]
          rfl
      · -- All sectors that there can be were moved, and the exchange begins.
        have done : k + 1 = last := by omega
        rw [if_neg full, wp_pure, if_neg fun ends => full (done ▸ ends.2), if_neg (by omega), done, Nat.sub_self,
          show last - b.board.maxImgSectors = 0 by omega]
        rfl
    · rw [if_neg moving, if_neg (by omega), wp_pure, if_neg (by omega), if_neg (by omega),
        show b.board.maxImgSectors + (k - last) + 1 - b.board.maxImgSectors = k + 1 - last by omega]
      rfl

theorem pending_readStatus (bs : BootStatus) (small : last < 2 ^ 32) (le : k ≤ 3 * last) :
    pending last (readStatus bd last bs k) = (List.range' k (3 * last - k)).map (stepStatus last bs) := by
  unfold readStatus
  split
  next ends => rw [ends.1, pending_move bs small le_rfl]
  next =>
    rw [stepStatus]
    split
    next moving => exact pending_move bs small moving.le
    next moved =>
      rw [pending_exchange, show last + (k - last) = k by omega, show 2 * last - (k - last) = 3 * last - k by omega]

theorem findLastIdx_pos (bd : Board) (swapSize : Nat) : 0 < findLastIdx bd swapSize := sectorCount_pos _ _

end Adaboot.SwapMove

/-! ### The next step -/

namespace Adaboot

open Nor Crash

theorem drop_steps {α : Type} (step : Nat → α) (total k : Nat) :
    ((List.range total).map step).drop k = (List.range' k (total - k)).map step := by
  rw [← List.map_drop, List.range_eq_range', List.drop_range', Nat.mul_one, Nat.zero_add]

theorem step_of_get {α : Type} {step : Nat → α} {total k : Nat} {next : α}
    (found : next ∈ ((List.range total).map step)[k]?) : step k = next := by
  obtain ⟨lt, get⟩ := List.getElem?_eq_some_iff.mp found
  rwa [List.getElem_map, List.getElem_range] at get

/-- Whatever number of steps was recorded, the status that is read back has exactly the others pending. It is that of
the first of them, but after the last move it can be a move of the sector behind the last one. -/
theorem status_read_back_pending (b : LoaderBuild) (copySize k : Nat) (fl : Flash)
    (room : scrambleSz b.board .primary ≤ b.board.faSize .primary) (erased : StatusErased b.board fl)
    (few : sectorCount (b.board.sectorSize .primary 0) copySize ≤ b.board.maxImgSectors) :
    (b.board.mode = .move →
      let last := SwapMove.findLastIdx b.board copySize
      let steps := SwapMove.pending last (bootStatusReset b.board)
      k ≤ steps.length →
      wp (do writeStatuses b.board (SwapMove.bootStatusInternalOff b.board) (steps.take k)
             SwapMove.swapReadStatusBytes b .primary (bootStatusReset b.board))
        (fun bs _ => SwapMove.pending last bs = steps.drop k ∧
          if k = last ∧ last < b.board.maxImgSectors then bs = SwapMove.moveStatus (bootStatusReset b.board) last
          else ∀ next ∈ steps[k]?, bs = next)
        (fun _ _ => False) (fun _ => True) fl) ∧
    (b.board.mode = .offset →
      let last := SwapOffset.findLastIdx b.board copySize
      let steps := SwapOffset.pending last (bootStatusReset b.board)
      k ≤ steps.length →
      wp (do writeStatuses b.board (SwapOffset.bootStatusInternalOff b.board) (steps.take k)
             SwapOffset.swapReadStatusBytes b .primary (bootStatusReset b.board))
        (fun bs _ => SwapOffset.pending last bs = steps.drop k ∧ ∀ next ∈ steps[k]?, bs = next)
        (fun _ _ => False) (fun _ => True) fl) := by
  constructor
  · intro mode last steps le
    have count : last ≤ b.board.maxImgSectors := few
    have small : last < 2 ^ 32 := count.trans_lt (SwapMove.maxImgSectors_lt mode room)
    have all : steps = (List.range (3 * last)).map _ := SwapMove.pending_reset mode small
    rw [all, List.length_map, List.length_range] at le
    refine wp_imp (SwapMove.status_read_back mode room count (SwapMove.findLastIdx_pos _ _) erased le) ?_
    rintro bs fl' rfl
    refine ⟨?_, ?_⟩
    · rw [SwapMove.pending_readStatus _ small le, all, drop_steps]
    · split
      next ends => rw [SwapMove.readStatus, if_pos ends]
      next between =>
        intro next found
        rw [SwapMove.readStatus, if_neg between]
        rw [all] at found
        exact step_of_get found
  · intro mode last steps le
    have all : steps = (List.range (2 * (last + 1))).map _ := SwapOffset.pending_reset _ last
    rw [all, List.length_map, List.length_range] at le
    have count : last + 1 ≤ b.board.maxImgSectors := by
      have pos := sectorCount_pos (b.board.sectorSize .primary 0) copySize
      simp only [last, SwapOffset.findLastIdx]
      omega
    refine wp_imp (SwapOffset.status_read_back mode room count erased le) ?_
    rintro bs fl' rfl
    refine ⟨?_, ?_⟩
    · rw [SwapOffset.pending_eq, all, drop_steps]
    · intro next found
      rw [all] at found
      exact step_of_get found

def erasedFlash : Flash := fun _ _ => erasedVal

theorem status_read_back_pending_move :
    let b := SwapMove.demoLoader (fun _ => 0) (by decide)
    let steps := SwapMove.pending 2 (bootStatusReset b.board)
    StatusErased b.board erasedFlash ∧
      wp (do writeStatuses b.board (SwapMove.bootStatusInternalOff b.board) (steps.take 3)
             SwapMove.swapReadStatusBytes b .primary (bootStatusReset b.board))
        (fun bs _ => SwapMove.pending 2 bs = steps.drop 3 ∧ ∀ next ∈ steps[3]?, bs = next)
        (fun _ _ => False) (fun _ => True) erasedFlash :=
  ⟨fun _ _ => rfl, (status_read_back_pending (SwapMove.demoLoader (fun _ => 0) (by decide)) 100 3 erasedFlash
    (by decide +kernel) (fun _ _ => rfl) (by decide +kernel)).1 rfl (by decide +kernel)⟩

/-- After the last of two moves the next step is an exchange, and the status that is read is a move of a third sector.
-/
theorem last_move_read_back :
    let b := SwapMove.demoLoader (fun _ => 0) (by decide)
    let steps := SwapMove.pending (SwapMove.findLastIdx b.board 100) (bootStatusReset b.board)
    let read : Boot BootStatus := do
      writeStatuses b.board (SwapMove.bootStatusInternalOff b.board) (steps.take 2)
      SwapMove.swapReadStatusBytes b .primary (bootStatusReset b.board)
    StatusErased b.board erasedFlash ∧ steps[2]?.map (fun bs => (bs.op, bs.idx, bs.state)) = some (.swap, 1, 1) ∧
      (read erasedFlash).value.map (fun bs => (bs.op, bs.idx, bs.state)) = .ok (.move, 3, 1) :=
  ⟨fun _ _ => rfl, by decide +kernel, by decide +kernel⟩

end Adaboot
