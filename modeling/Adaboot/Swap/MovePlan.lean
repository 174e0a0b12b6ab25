import Adaboot.Swap.Steps
import Adaboot.Swap.Writes
import Mathlib.Tactic.Ring

/-!
# Swaps using move as copies of sectors

The swap as a plan of sector copies: `last` steps move the primary image up, then two steps exchange each sector. The
loops of `swap_move.c` carry it out from any step on.
-/

namespace Adaboot.SwapMove

open Nor Crash

/-! ### The copies of the swap -/

/-- Step `k` of a swap of `last` sectors. -/
def moveCopy (last k : Nat) : Copy Cell :=
  if k < last then ⟨(.primary, last - 1 - k), (.primary, last - k)⟩
  else if (k - last) % 2 = 0 then ⟨(.secondary, (k - last) / 2), (.primary, (k - last) / 2)⟩
  else ⟨(.primary, (k - last) / 2 + 1), (.secondary, (k - last) / 2)⟩

section Copies

variable {last k m i : Nat}

theorem moveCopy_up (lt : k < last) : moveCopy last k = ⟨(.primary, last - 1 - k), (.primary, last - k)⟩ := if_pos lt

theorem moveCopy_down (m : Nat) : moveCopy last (last + 2 * m) = ⟨(.secondary, m), (.primary, m)⟩ := by
  rw [moveCopy, if_neg (by omega), if_pos (by omega), show (last + 2 * m - last) / 2 = m by omega]

theorem moveCopy_out (m : Nat) : moveCopy last (last + (2 * m + 1)) = ⟨(.primary, m + 1), (.secondary, m)⟩ := by
  rw [moveCopy, if_neg (by omega), if_neg (by omega),
    show (last + (2 * m + 1) - last) / 2 = m by omega]

theorem moveCopy_src_in (lt : k < 3 * last) : InSectors (last + 1) last (moveCopy last k).src := by
  unfold moveCopy InSectors
  split_ifs <;> simp <;> omega

theorem moveCopy_dst_in (lt : k < 3 * last) : InSectors (last + 1) last (moveCopy last k).dst := by
  unfold moveCopy InSectors
  split_ifs <;> simp <;> omega

theorem moveCopy_ne : (moveCopy last k).src ≠ (moveCopy last k).dst := by
  unfold moveCopy
  split_ifs <;> simp
  omega

variable (init : Cell → Option Bytes)

theorem after_up (le : k ≤ last) : (∀ i, after (moveCopy last) init k (.primary, i) =
      if last - k < i ∧ i ≤ last then init (.primary, i - 1) else init (.primary, i)) ∧
    ∀ i, after (moveCopy last) init k (.secondary, i) = init (.secondary, i) := by
  induction k with
  | zero =>
    refine ⟨fun i => ?_, fun i => rfl⟩
    rw [if_neg (by omega)]
    rfl
  | succ k ih =>
    obtain ⟨pri, sec⟩ := ih (by omega)
    have copy := moveCopy_up (show k < last from le)
    constructor
    · intro i
      by_cases here : i = last - k
      · subst here
        have dst := after_succ_dst (moveCopy last) init k
        rw [copy] at dst
        rw [dst, pri, if_neg (by omega), if_pos (by omega)]
        congr 2
        omega
      · rw [after_succ_of_ne init (by rw [copy]; simpa using here), pri]
        exact if_congr (by omega) rfl rfl
    · intro i
      rw [after_succ_of_ne init (by rw [copy]; simp), sec]

theorem after_exchange (le : m ≤ 2 * last) : (∀ i, after (moveCopy last) init (last + m) (.primary, i) =
      if i < (m + 1) / 2 then init (.secondary, i)
      else if 0 < i ∧ i ≤ last then init (.primary, i - 1) else init (.primary, i)) ∧
    ∀ i, after (moveCopy last) init (last + m) (.secondary, i) =
      if i < m / 2 then init (.primary, i) else init (.secondary, i) := by
  induction m with
  | zero =>
    obtain ⟨pri, sec⟩ := after_up init (Nat.le_refl last)
    constructor
    · intro i
      rw [Nat.add_zero, pri, if_neg (by omega : ¬i < (0 + 1) / 2), Nat.sub_self]
    · intro i
      rw [Nat.add_zero, sec, if_neg (by omega)]
  | succ m ih =>
    obtain ⟨pri, sec⟩ := ih (by omega)
    have dst := after_succ_dst (moveCopy last) init (last + m)
    have others {c : Cell} (ne : c ≠ (moveCopy last (last + m)).dst) := after_succ_of_ne init ne
    rw [← Nat.add_assoc]
    obtain ⟨j, rfl | rfl⟩ : ∃ j, m = 2 * j ∨ m = 2 * j + 1 := ⟨m / 2, by omega⟩
    · -- a sector of the secondary slot goes down
      rw [moveCopy_down j] at dst others
      constructor
      · intro i
        by_cases here : i = j
        · subst here
          rw [dst, sec, if_neg (by omega), if_pos (by omega)]
        · rw [others (by simpa using here), pri]
          exact if_congr (by omega) rfl rfl
      · intro i
        rw [others (by simp), sec]
        exact if_congr (by omega) rfl rfl
    · -- the sector above it goes out
      rw [moveCopy_out j] at dst others
      constructor
      · intro i
        rw [others (by simp), pri]
        exact if_congr (by omega) rfl rfl
      · intro i
        by_cases here : i = j
        · subst here
          rw [dst, pri, if_neg (by omega), if_pos (by omega), if_pos (by omega), Nat.add_sub_cancel]
        · rw [others (by simpa using here), sec]
          exact if_congr (by omega) rfl rfl

end Copies

/-! ### The plan of the swap -/

/-- `last` sectors of one size below the trailers, and one more in the primary slot. -/
structure Layout (b : LoaderBuild) (S last : Nat) : Prop where
  mode : b.board.mode = .move
  slots : UniformSlots b.board S
  compatible : bootSlotsCompatible b.board = true
  primary : (last + 1) * S + scrambleSz b.board .primary ≤ b.board.faSize .primary
  secondary : last * S + scrambleSz b.board .secondary ≤ b.board.faSize .secondary

section Plan

variable {b : LoaderBuild} {S last : Nat}

namespace Layout

variable (layout : Layout b S last)
include layout

theorem size_ge : 8 ≤ S := layout.slots.even.size_ge (a := .primary) (by decide) (by have := layout.primary; omega)

theorem last_lt : last < b.board.maxImgSectors := by
  have room := layout.primary
  have size := layout.slots.even.faSize_eq (a := .primary) (by decide)
  have ge := layout.size_ge
  have le : b.board.numSectors .primary ≤ b.board.maxImgSectors := b.board.sectors_le .primary
  have : last + 1 ≤ b.board.numSectors .primary := Nat.le_of_mul_le_mul_right (c := S) (by omega) (by omega)
  omega

theorem sectorSize_eq : b.board.sectorSize .primary 0 = S := layout.slots.even.sectorSize_eq (by decide)
    (layout.slots.even.sectors_pos (by decide) (by have := layout.primary; omega))

end Layout

/-- The status entry of step `k`. -/
def statusEntry (bd : Board) (last k : Nat) : Nat :=
  if k < last then k else bd.maxImgSectors + (k - last)

theorem stepStatus_internalOff (bs : BootStatus) (k : Nat) :
    bootStatusInternalOff b.board (stepStatus last bs k) = statusEntry b.board last k * b.board.writeSz := by
  unfold stepStatus statusEntry
  split
  · simp [bootStatusInternalOff, moveStatus, statusMoveStateCount]
  · have split := Nat.div_add_mod (k - last) 2
    simp only [bootStatusInternalOff, exchangeStatus, statusMoveStateCount, statusSwapStateCount, reduceCtorEq, if_false,
      Nat.add_sub_cancel, Nat.mul_one]
    calc b.board.maxImgSectors * b.board.writeSz + (k - last) / 2 * (b.board.writeSz * 2) +
          (k - last) % 2 * b.board.writeSz
        = (b.board.maxImgSectors + (2 * ((k - last) / 2) + (k - last) % 2)) * b.board.writeSz := by ring
      _ = (b.board.maxImgSectors + (k - last)) * b.board.writeSz := by rw [split]

theorem entries (mode : b.board.mode = .move) (few : last ≤ b.board.maxImgSectors) (bs : BootStatus) :
    Entries b.board (bootStatusInternalOff b.board) (stepStatus last bs) (statusEntry b.board last) (3 * last) where
  off i _ := stepStatus_internalOff bs i
  lt i lt := by
    have count : bootStatusEntries b.board .primary = 3 * b.board.maxImgSectors := by
      simp [bootStatusEntries, mode, Board.statusStateCount]
    rw [count, statusEntry]
    split <;> omega
  mono i := by
    unfold statusEntry
    split <;> split <;> omega
  state i := by
    rw [stepStatus]
    split
    · exact .inl rfl
    · exact exchangeStatus_state bs _

theorem stepStatus_first (pos : 0 < last) (bs : BootStatus) (k : Nat) :
    (stepStatus last bs k).op = .move ∧ (stepStatus last bs k).idx = statusIdx0 ↔ k = 0 := by
  unfold stepStatus
  split
  · simp [moveStatus]
  · simp only [exchangeStatus, reduceCtorEq, false_and, false_iff]
    omega

theorem Layout.entries (layout : Layout b S last) (bs : BootStatus) :
    Entries b.board (bootStatusInternalOff b.board) (stepStatus last bs) (statusEntry b.board last) (3 * last) :=
  SwapMove.entries layout.mode layout.last_lt.le bs

def plan (layout : Layout b S last) : Plan b.board S where
  slots := layout.slots
  n := last + 1
  m := last
  roomPri := layout.primary
  roomSec := layout.secondary
  length := 3 * last
  copy := moveCopy last
  src_in _ := moveCopy_src_in
  dst_in _ := moveCopy_dst_in
  ne _ _ := moveCopy_ne
  entry := statusEntry b.board last
  entry_lt := (layout.entries (bootStatusReset b.board)).lt
  entry_mono := (layout.entries (bootStatusReset b.board)).mono

/-- The status of a swap after `k` steps, while sectors are moved up. -/
structure Moving (k : Nat) (bs : BootStatus) : Prop where
  op : bs.op = .move
  idx : bs.idx = k + 1
  state : bs.state = 1

/-- The status after `m` steps of the exchange. -/
structure Exchanging (m : Nat) (bs : BootStatus) : Prop where
  op : bs.op = .swap
  idx : bs.idx = m / 2 + 1
  state : bs.state = m % 2 + 1

theorem Moving.eq {k : Nat} {bs : BootStatus} (at_k : Moving k bs) : moveStatus bs k = bs := by
  obtain ⟨idx, state, op, useScratch, swapType, swapSize, source⟩ := bs
  obtain ⟨rfl, rfl, rfl⟩ := at_k
  rfl

theorem Exchanging.eq {m : Nat} {bs : BootStatus} (at_m : Exchanging m bs) : exchangeStatus bs m = bs :=
  exchangeStatus_eq at_m.op at_m.idx at_m.state

end Plan

/-! ### What the loops do -/

section Loops

variable {b : LoaderBuild} {S last k m idx : Nat} {layout : Layout b S last} {rec : SwapRecord}
  {init : Cell → Option Bytes} {fl : Flash} {bs : BootStatus} {st : BootState}
  {E : BootErr → Flash → Prop} {C : Flash → Prop}

/-- The status after `k` steps, as it is read back. -/
def StatusAt (last k : Nat) (bs : BootStatus) : Prop :=
  if k ≤ last then Moving k bs else Exchanging (k - last) bs

theorem StatusAt.reset_iff (mode : b.board.mode = .move) (at_k : StatusAt last k bs) :
    bs.isReset b.board = true ↔ k = 0 := by
  unfold StatusAt at at_k
  simp only [BootStatus.isReset, resetOp, mode, reduceCtorEq, if_false, statusIdx0, statusState0, decide_eq_true_eq]
  split at at_k
  next le => simp [at_k.op, at_k.idx, at_k.state]
  next gt =>
    rw [at_k.op]
    simp only [reduceCtorEq, false_and, false_iff]
    omega

theorem StatusAt.not_reset (mode : b.board.mode = .move) (at_k : StatusAt last k bs) (pos : 0 < k) :
    bs.isReset b.board = false := by
  rw [← Bool.not_eq_true, at_k.reset_iff mode]
  omega

theorem StatusAt.congr {bs' : BootStatus} (at_k : StatusAt last k bs) (op : bs'.op = bs.op)
    (idx : bs'.idx = bs.idx) (state : bs'.state = bs.state) : StatusAt last k bs' := by
  unfold StatusAt at at_k ⊢
  split at at_k
  next moving => exact if_pos moving ▸ ⟨op.trans at_k.op, idx.trans at_k.idx, state.trans at_k.state⟩
  next moved => exact if_neg moved ▸ ⟨op.trans at_k.op, idx.trans at_k.idx, state.trans at_k.state⟩

theorem fixupRevert_eq (ne : bs.swapType ≠ .revert) : fixupRevert b bs = pure () := by
  unfold fixupRevert
  rw [if_pos (.inl ne)]

theorem replacement_stepStatus (lt : k < 3 * last) :
    let copy := moveCopy last k
    replacement bd last (stepStatus last bs k) =
      ⟨copy.src.1, copy.dst.1, bd.sectorOff copy.src.1 copy.src.2, bd.sectorOff copy.dst.1 copy.dst.2⟩ := by
  unfold stepStatus
  split
  next moving =>
    rw [moveCopy_up moving, replacement]
    simp only [moveStatus, statusIdx0]
    rw [show last - (k + 1) = last - 1 - k by omega, show last + 1 - (k + 1) = last - k by omega]
  next moved =>
    obtain ⟨m, rfl⟩ := Nat.exists_eq_add_of_le (not_lt.mp moved)
    rw [Nat.add_sub_cancel_left, replacement]
    simp only [exchangeStatus, statusIdx0, Nat.add_sub_cancel]
    obtain ⟨i, rfl | rfl⟩ : ∃ i, m = 2 * i ∨ m = 2 * i + 1 := ⟨m / 2, by omega⟩
    · rw [moveCopy_down, if_pos (by simp [statusState0]), Nat.mul_div_cancel_left i Nat.two_pos]
    · rw [moveCopy_out, if_neg (by simp [statusState0]), show (2 * i + 1) / 2 = i by omega]

theorem StatusAt.loops_write (b : LoaderBuild) (st : BootState) (small : last < 2 ^ 32) (at_k : StatusAt last k bs) :
    ∃ after, after.swapType = bs.swapType ∧ Writes (Copies b st last) (writeStatus b)
      ((List.range' k (3 * last - k)).map (stepStatus last bs)) after (loops b st last bs) := by
  unfold StatusAt at at_k
  split at at_k
  next le =>
    have written := pending_move bs small le
    rw [at_k.eq] at written
    rw [← written]
    exact SwapMove.loops_write b st small (at_k.idx ▸ Nat.le_add_left ..) (.inl at_k.state)
      fun _ => at_k.idx ▸ Nat.succ_le_succ le
  next gt =>
    have written := pending_exchange last bs (k - last)
    rw [at_k.eq, show last + (k - last) = k by omega, show 2 * last - (k - last) = 3 * last - k by omega] at written
    rw [← written]
    refine SwapMove.loops_write b st small (at_k.idx ▸ Nat.le_add_left ..) ?_ fun moving => ?_
    · rw [← at_k.eq]
      exact exchangeStatus_state bs _
    · rw [at_k.op] at moving
      exact absurd moving (by decide)

theorem wp_swapRun {size : Nat} {Q : BootStatus → Flash → Prop}
    (tracked : ∀ c, init c ≠ none → InSectors (last + 1) last c)
    (cuts : ∀ k fl', (plan layout).Progress rec init k fl' → C fl') (pos : 0 < last)
    (lastIdx : findLastIdx b.board size = last) (forward : bs.swapType ≠ .revert) (at_k : StatusAt last k bs)
    (begins : k = 0 → wp (beginSwap b.board st bs) (fun _ fl' => (plan layout).Progress rec init 0 fl') E C fl)
    (resumes : 0 < k → (plan layout).Progress rec init k fl)
    (post : ∀ bs' fl', bs'.swapType = bs.swapType →
      (plan layout).Progress rec init (3 * last) fl' → Q bs' fl') : wp (swapRun b st bs size) Q E C fl := by
  have room : last + 1 ≤ firstTrailerIdx b.board := layout.slots.even.le_firstTrailerIdx layout.primary
  have small : last < 2 ^ 32 := by
    have := layout.primary
    have size : b.board.faSize .primary < 2 ^ 32 := b.board.size_lt .primary
    have := Nat.le_mul_of_pos_right (last + 1) (show 0 < S by have := layout.size_ge; omega)
    omega
  have le : k ≤ 3 * last := by
    rcases Nat.eq_zero_or_pos k with rfl | some
    · exact Nat.zero_le _
    · exact (resumes some).le
  unfold swapRun
  simp only [lastIdx]
  rw [if_neg (by omega), fixupRevert_eq forward, wp_bind, wp_pure]
  obtain ⟨after, type, writes⟩ := at_k.loops_write b st small
  refine wp_imp (writes.wp (I := fun j fl =>
      (j = 0 → wp (beginSwap b.board st bs) (fun _ fl' => (plan layout).Progress rec init 0 fl') E C fl) ∧
      (0 < j → (plan layout).Progress rec init j fl)) ?_ ⟨begins, resumes⟩) fun bs' fl' ⟨eq, _, done⟩ => ?_
  · intro j m fl₁ ge lt works ⟨start, going⟩
    rw [Nat.add_sub_cancel' le] at lt
    have copies : ∀ fl₂, (plan layout).Progress rec init j fl₂ →
        wp (do (replacement b.board last (stepStatus last bs j)).run b.board; writeStatus b (stepStatus last bs j))
          (fun _ fl' => (plan layout).Progress rec init (j + 1) fl') E C fl₂ := by
      intro fl₂ progress
      rw [replacement_stepStatus lt, Replacement.run, layout.sectorSize_eq]
      exact (plan layout).wp_step tracked lt rfl progress ((layout.entries bs).off j lt)
        ((layout.entries bs).not_erased j) (cuts j) fun _ done => done
    refine wp_imp ?_ fun _ fl₂ done => ⟨fun zero => absurd zero (Nat.succ_ne_zero j), fun _ => done⟩
    rw [works]
    split
    next first =>
      obtain rfl := (stepStatus_first pos bs j).mp first
      obtain rfl : k = 0 := by omega
      have here : stepStatus last bs 0 = bs := by
        rw [stepStatus, if_pos pos, at_k.eq]
      rw [here] at copies ⊢
      rw [Prog.bind_assoc, wp_bind]
      exact wp_imp (start rfl) fun _ fl₂ progress => copies fl₂ progress
    next later => exact copies fl₁ (going (Nat.pos_of_ne_zero (mt (stepStatus_first pos bs j).mpr later)))
  · rw [Nat.add_sub_cancel' le] at done
    exact post bs' fl' (eq ▸ type) (done (by omega))

theorem wp_swapReadStatusBytes (progress : (plan layout).Progress rec init k fl)
    (post : ∀ bs', bs'.source = bs.source → (k = 0 → bs' = bs) → (0 < k → StatusAt last k bs') → Q bs' fl) :
    wp (swapReadStatusBytes b .primary bs) Q E C fl := by
  have lt := layout.last_lt
  unfold swapReadStatusBytes
  rw [wp_bind]
  refine wp_findStatusIdx layout.slots.keeps (by have := layout.primary; omega) progress.recorded.status ?_
  simp only [statusMoveStateCount, statusSwapStateCount, Nat.mul_one, Nat.div_one, Nat.mod_one,
    statusIdx0, statusState0, Nat.zero_add]
  cases k with
  | zero =>
    rw [Plan.found, if_pos rfl, wp_pure]
    exact post bs rfl (fun _ => rfl) fun pos => absurd pos (Nat.lt_irrefl 0)
  | succ k =>
    rw [show (plan layout).found (k + 1) = statusEntry b.board last k + 1 from rfl, if_neg (Nat.succ_ne_zero _)]
    unfold statusEntry
    by_cases moving : k < last
    · rw [if_pos moving, if_pos (by omega), wp_pure]
      refine post _ rfl (fun zero => absurd zero (Nat.succ_ne_zero k)) fun _ => ?_
      rw [StatusAt, if_pos (show k + 1 ≤ last from moving)]
      exact ⟨rfl, rfl, rfl⟩
    · rw [if_neg moving, if_neg (by omega), wp_pure]
      refine post _ rfl (fun zero => absurd zero (Nat.succ_ne_zero k)) fun _ => ?_
      rw [StatusAt, if_neg (by omega), show b.board.maxImgSectors + (k - last) + 1 -
        b.board.maxImgSectors = k + 1 - last by omega]
      exact ⟨rfl, rfl, rfl⟩

end Loops

/-! ### Headers -/

/-- Where the header of a slot's image is after `k` steps. -/
def headerCell (last k : Nat) (slot : Area) : Cell :=
  if slot = .primary then
    if k < last then (.primary, 0)
    else if k ≤ last + 1 then (.primary, 1)
    else if k < 3 * last then (.secondary, 0)
    else (.primary, 0)
  else
    if k ≤ last then (.secondary, 0)
    else if k < 3 * last then (.primary, 0)
    else (.secondary, 0)

section Headers

variable {b : LoaderBuild} {S last k : Nat} {slot : Area} {init : Cell → Option Bytes}

theorem headerCell_in (k : Nat) (slot : Area) (pos : 0 < last) : InSectors (last + 1) last
    (headerCell last k slot) := by
  unfold headerCell InSectors
  split_ifs <;> simp <;> omega

theorem headerCell_ne (lt : k < 3 * last) : headerCell last k slot ≠ (moveCopy last k).dst := by
  unfold headerCell moveCopy
  split_ifs <;> simp <;> omega

theorem after_headerCell (slot : Area) (pos : 0 < last) (le : k ≤ 3 * last) :
    after (moveCopy last) init k (headerCell last k slot) = init (.primary, 0) ∨
      after (moveCopy last) init k (headerCell last k slot) = init (.secondary, 0) := by
  by_cases moving : k ≤ last
  · obtain ⟨pri, sec⟩ := after_up init moving
    unfold headerCell
    split_ifs
    · left
      rw [pri, if_neg (by omega)]
    · left
      rw [pri, if_pos (by omega)]
    all_goals first | omega | (right; rw [sec])
  · obtain ⟨m, rfl⟩ : ∃ m, k = last + m := ⟨k - last, by omega⟩
    obtain ⟨pri, sec⟩ := after_exchange init (show m ≤ 2 * last by omega)
    unfold headerCell
    split_ifs
    · omega
    · left
      rw [pri, if_neg (by omega), if_pos (by omega)]
    · left
      rw [sec, if_pos (by omega)]
    · right
      rw [pri, if_pos (by omega)]
    · right
      rw [pri, if_pos (by omega)]
    · left
      rw [sec, if_pos (by omega)]

variable {fl : Flash} {layout : Layout b S last} {rec : SwapRecord} {bs : BootStatus}

theorem headerPlace_eq (mode : b.board.mode = .move) (find : bootFindStatus b.board fl = some .primary)
    (size : bootReadSwapSize b.board fl .primary = some rec.swapSize)
    (lastIdx : findLastIdx b.board rec.swapSize = last)
    (sectorSz : b.board.sectorSize .primary 0 = S) (pos : 0 < k) (le : k ≤ 3 * last)
    (at_k : StatusAt last k bs) (isSlot : slot ≠ .scratch) : headerPlace b.board fl slot (some bs) =
      some ((headerCell last k slot).1, (headerCell last k slot).2 * S) := by
  have reset := at_k.not_reset mode pos
  have other : slot = .primary ∨ slot = .secondary := by
    cases slot <;> simp at isSlot ⊢
  simp only [headerPlace, reset, Bool.false_eq_true, if_false, find, size, lastIdx, sectorSz,
    Option.bind_eq_bind, Option.bind_some]
  unfold StatusAt at at_k
  unfold headerCell
  split at at_k
  next moving =>
    simp only [at_k.op, at_k.idx]
    rcases other with rfl | rfl
    · by_cases all : k = last
      · subst all
        simp
      · simp [show ¬last < k + 1 by omega, show k < last by omega]
    · simp [moving]
  next moved =>
    obtain ⟨m, rfl⟩ : ∃ m, k = last + m := ⟨k - last, by omega⟩
    rw [Nat.add_sub_cancel_left] at at_k
    simp only [at_k.op, at_k.idx, at_k.state]
    have first : m / 2 + 1 = 1 ↔ m = 1 := by omega
    have inner : m / 2 + 1 > 1 ∧ m / 2 + 1 ≤ last ↔ 1 < m ∧ last + m < 3 * last := by omega
    simp only [first, inner]
    rcases other with rfl | rfl
    · by_cases one : m = 1
      · simp [one]
      · by_cases more : last + m < 3 * last
        · simp [more, show 1 < m by omega, show ¬m ≤ 1 by omega]
        · simp [more, one, show ¬m ≤ 1 by omega]
    · rw [if_neg (show ¬Area.secondary = .primary by decide), if_neg moved]
      by_cases one : m = 1
      · subst one
        by_cases more : last + 1 < 3 * last
        · simp [more]
        · omega
      · by_cases more : last + m < 3 * last
        · simp [more, show 1 < m by omega]
        · simp [more, one]

theorem bootReadImageHeader_placed {st : BootState} {a : Area} {off : Nat}
    (place : headerPlace b.board fl slot (some bs) = some (a, off)) (fits : off + imageHeaderSize ≤ b.board.faSize a)
    (magic : (ImageHeader.decode (fl.read a off imageHeaderSize)).ihMagic = imageMagic) :
    bootReadImageHeader b.board fl st slot (some bs) =
      (st.setHdr slot (.decode (fl.read a off imageHeaderSize)), true) := by
  have read : flashAreaRead (b.board.area fl a) off imageHeaderSize =
      some (fl.read a off imageHeaderSize) := flashAreaRead_area fits
  simp [bootReadImageHeader, place, read, magic]

end Headers

end Adaboot.SwapMove
