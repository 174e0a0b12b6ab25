import Adaboot.Swap.Steps
import Adaboot.Swap.Writes
import Mathlib.Tactic.Ring

/-!
# Swaps using offset as copies of sectors

An update and a revert differ in the order of the sectors. Both are plans of sector copies, which `swap_run` carries
out from any step on, without the sectors beyond the end of an image.
-/

namespace Adaboot.SwapOffset

open Nor Crash

/-! ### The order of the sectors -/

/-- Sector `pri i` of the primary slot goes to sector `sec i` of the secondary slot, then sector `up i` takes its
place. Nothing is overwritten before it was copied. -/
structure Order (last : Nat) where
  pri : Nat → Nat
  sec : Nat → Nat
  up : Nat → Nat
  pri_le : ∀ {i}, i ≤ last → pri i ≤ last
  sec_le : ∀ {i}, i ≤ last → sec i ≤ last + 1
  up_le : ∀ {i}, i ≤ last → up i ≤ last + 1
  pri_ne : ∀ {i j}, i < j → j ≤ last → pri i ≠ pri j
  sec_ne : ∀ {i j}, i < j → j ≤ last → sec i ≠ sec j
  up_ne : ∀ {i j}, i ≤ j → j ≤ last → sec i ≠ up j

def forward (last : Nat) : Order last where
  pri := id
  sec := id
  up := (· + 1)
  pri_le le := le
  sec_le le := Nat.le_succ_of_le le
  up_le le := Nat.succ_le_succ le
  pri_ne lt _ := lt.ne
  sec_ne lt _ := lt.ne
  up_ne le _ := (Nat.lt_succ_of_le le).ne

def backward (last : Nat) : Order last where
  pri i := last - i
  sec i := last - i + 1
  up i := last - i
  pri_le _ := Nat.sub_le ..
  sec_le _ := Nat.succ_le_succ (Nat.sub_le ..)
  up_le _ := Nat.le_succ_of_le (Nat.sub_le ..)
  pri_ne lt le := by omega
  sec_ne lt le := by omega
  up_ne le le' := by omega

namespace Order

variable {last : Nat} (order : Order last)

/-- Step `k` of the swap. -/
def copy (k : Nat) : Copy Cell :=
  if k % 2 = 0 then ⟨(.primary, order.pri (k / 2)), (.secondary, order.sec (k / 2))⟩
  else ⟨(.secondary, order.up (k / 2)), (.primary, order.pri (k / 2))⟩

theorem copy_even (i : Nat) : order.copy (2 * i) = ⟨(.primary, order.pri i), (.secondary, order.sec i)⟩ := by
  rw [copy, if_pos (by omega), show 2 * i / 2 = i by omega]

theorem copy_odd (i : Nat) : order.copy (2 * i + 1) = ⟨(.secondary, order.up i), (.primary, order.pri i)⟩ := by
  rw [copy, if_neg (by omega), show (2 * i + 1) / 2 = i by omega]

variable {order} {init : Cell → Option Bytes} {i k : Nat}

theorem pri_ne_dst (away : ∀ l, k = 2 * l + 1 → i ≠ order.pri l) : (.primary, i) ≠ (order.copy k).dst := by
  obtain ⟨l, rfl | rfl⟩ : ∃ l, k = 2 * l ∨ k = 2 * l + 1 := ⟨k / 2, by omega⟩
  · simp [copy_even]
  · simpa [copy_odd] using away l rfl

theorem sec_ne_dst (away : ∀ l, k = 2 * l → i ≠ order.sec l) : (.secondary, i) ≠ (order.copy k).dst := by
  obtain ⟨l, rfl | rfl⟩ : ∃ l, k = 2 * l ∨ k = 2 * l + 1 := ⟨k / 2, by omega⟩
  · simpa [copy_even] using away l rfl
  · simp [copy_odd]

variable (le : i ≤ last)
include le

theorem after_pri_before (before : k ≤ 2 * i + 1) :
    after order.copy init k (.primary, order.pri i) = init (.primary, order.pri i) := by
  refine after_stays (Nat.zero_le k) fun j _ lt => pri_ne_dst fun l eq => ?_
  exact (order.pri_ne (show l < i by omega) le).symm

theorem after_up (before : k ≤ 2 * i + 1) :
    after order.copy init k (.secondary, order.up i) = init (.secondary, order.up i) := by
  refine after_stays (Nat.zero_le k) fun j _ lt => sec_ne_dst fun l eq => ?_
  exact (order.up_ne (show l ≤ i by omega) le).symm

theorem after_pri (k_le : k ≤ 2 * (last + 1)) : after order.copy init k (.primary, order.pri i) =
      if 2 * i + 1 < k then init (.secondary, order.up i) else init (.primary, order.pri i) := by
  split
  next gt =>
    have written := after_succ_dst order.copy init (2 * i + 1)
    rw [copy_odd, after_up le le_rfl] at written
    rw [← written]
    refine after_stays gt fun j ge lt => pri_ne_dst fun l eq => ?_
    exact order.pri_ne (show i < l by omega) (by omega)
  next => exact after_pri_before le (by omega)

theorem after_sec (k_le : k ≤ 2 * (last + 1)) : after order.copy init k (.secondary, order.sec i) =
      if 2 * i < k then init (.primary, order.pri i) else init (.secondary, order.sec i) := by
  split
  next gt =>
    have written := after_succ_dst order.copy init (2 * i)
    rw [copy_even, after_pri_before le (by omega)] at written
    rw [← written]
    refine after_stays gt fun j ge lt => sec_ne_dst fun l eq => ?_
    exact order.sec_ne (show i < l by omega) (by omega)
  next =>
    refine after_stays (Nat.zero_le k) fun j _ lt => sec_ne_dst fun l eq => ?_
    exact (order.sec_ne (show l < i by omega) le).symm

end Order

section Sectors

variable {last i k : Nat} {init : Cell → Option Bytes}

theorem forward_pri (le : i ≤ last) (k_le : k ≤ 2 * (last + 1)) : after (forward last).copy init k (.primary, i) =
      if 2 * i + 1 < k then init (.secondary, i + 1) else init (.primary, i) :=
  @Order.after_pri last (forward last) init i k le k_le

theorem forward_sec (le : i ≤ last) (k_le : k ≤ 2 * (last + 1)) : after (forward last).copy init k (.secondary, i) =
      if 2 * i < k then init (.primary, i) else init (.secondary, i) :=
  @Order.after_sec last (forward last) init i k le k_le

end Sectors

/-! ### The plan of a swap -/

/-- `last + 1` sectors of one size below the trailers, and one more in the secondary slot. -/
structure Layout (b : LoaderBuild) (S last : Nat) : Prop where
  mode : b.board.mode = .offset
  slots : UniformSlots b.board S
  compatible : bootSlotsCompatible b.board = true
  primary : (last + 1) * S + scrambleSz b.board .primary ≤ b.board.faSize .primary
  secondary : (last + 2) * S + scrambleSz b.board .secondary ≤ b.board.faSize .secondary

section Plan

variable {b : LoaderBuild} {S last : Nat}

namespace Layout

variable (layout : Layout b S last)
include layout

theorem wide : imageHeaderSize ≤ S := layout.slots.wide layout.mode

theorem numSectors_ge : last + 1 ≤ b.board.numSectors .primary ∧ last + 2 ≤ b.board.numSectors .secondary := by
  have pos : 0 < S := Nat.lt_of_lt_of_le (by decide) layout.wide
  have pri := layout.primary
  have sec := layout.secondary
  rw [layout.slots.even.faSize_eq (a := .primary) (by decide)] at pri
  rw [layout.slots.even.faSize_eq (a := .secondary) (by decide)] at sec
  exact ⟨Nat.le_of_mul_le_mul_right (c := S) (by omega) pos, Nat.le_of_mul_le_mul_right (c := S) (by omega) pos⟩

theorem sectorSize_eq : b.board.sectorSize .primary 0 = S ∧ b.board.sectorSize .secondary 0 = S := by
  obtain ⟨pri, sec⟩ := layout.numSectors_ge
  exact ⟨layout.slots.even.sectorSize_eq (by decide) (by omega), layout.slots.even.sectorSize_eq (by decide) (by omega)⟩

theorem roomPri : b.board.HoldsTrailer .primary := by
  have := layout.primary
  have := infoSz_le_scrambleSz b.board .primary
  omega

theorem roomSec : b.board.HoldsTrailer .secondary := by
  have := layout.secondary
  have := infoSz_le_scrambleSz b.board .secondary
  omega

theorem swaps : Swaps b (algo b) := by
  have := layout.roomPri
  have := bootTrailerInfoSz_ge b.board
  refine ⟨readsHeaders b, ?_, layout.compatible, layout.slots.keeps.not_overwrite⟩
  unfold imageHeaderSize
  omega

theorem maxImageSize_eq (a : Area) : bootutilMaxImageSize b (algo b) a = appMaxSize b.board := by
  rw [bootutilMaxImageSize, layout.mode]
  rfl

theorem sectors_le {v : ValidateBuild} {img : Image v} {size : Nat} (le : img.size ≤ size)
    (lastIdx : findLastIdx b.board size = last) :
    sectorCount S img.size ≤ last + 1 ∧ img.size ≤ sectorCount S img.size * S := by
  have pos : 0 < S := Nat.lt_of_lt_of_le (by decide) layout.wide
  have some : 0 < img.size := Nat.lt_of_lt_of_le (by decide) img.header_le
  obtain ⟨count_pos, covers, -⟩ := @sectorCount_spec S size pos
  obtain ⟨-, covers', -⟩ := @sectorCount_spec S img.size pos
  unfold findLastIdx at lastIdx
  rw [layout.sectorSize_eq.1] at lastIdx
  rw [show sectorCount S size = last + 1 by omega] at covers
  exact ⟨sectorCount_mul_le pos some (le.trans covers), covers'⟩

end Layout

theorem size_le_swapSizeOf {v : ValidateBuild} (old new : Image v) :
    old.size ≤ swapSizeOf old new ∧ new.size ≤ swapSizeOf old new := by
  unfold swapSizeOf
  split <;> constructor <;> omega

theorem Order.src_in (order : Order last) (k : Nat) (lt : k < 2 * (last + 1)) :
    InSectors (last + 1) (last + 2) (order.copy k).src := by
  have pri := order.pri_le (show k / 2 ≤ last by omega)
  have up := order.up_le (show k / 2 ≤ last by omega)
  unfold Order.copy InSectors
  split <;> simp <;> omega

theorem Order.dst_in (order : Order last) (k : Nat) (lt : k < 2 * (last + 1)) :
    InSectors (last + 1) (last + 2) (order.copy k).dst := by
  have pri := order.pri_le (show k / 2 ≤ last by omega)
  have sec := order.sec_le (show k / 2 ≤ last by omega)
  unfold Order.copy InSectors
  split <;> simp <;> omega

theorem Order.ne (order : Order last) (k : Nat) : (order.copy k).src ≠ (order.copy k).dst := by
  unfold Order.copy
  split <;> simp

theorem exchangeStatus_internalOff (mode : b.board.mode = .offset) (bs : BootStatus) (k : Nat) :
    bootStatusInternalOff b.board (exchangeStatus bs k) = k * b.board.writeSz := by
  have split := Nat.div_add_mod k 2
  simp only [bootStatusInternalOff, exchangeStatus, Nat.add_sub_cancel, Board.statusStateCount, mode]
  calc k / 2 * (b.board.writeSz * 2) + k % 2 * b.board.writeSz = (2 * (k / 2) + k % 2) * b.board.writeSz := by ring
    _ = k * b.board.writeSz := by rw [split]

theorem entries (mode : b.board.mode = .offset) (few : last + 1 ≤ b.board.maxImgSectors) (bs : BootStatus) :
    Entries b.board (bootStatusInternalOff b.board) (exchangeStatus bs) id (2 * (last + 1)) where
  off i _ := exchangeStatus_internalOff mode bs i
  lt i lt := by
    have count : bootStatusEntries b.board .primary = 2 * b.board.maxImgSectors := by
      simp [bootStatusEntries, mode, Board.statusStateCount]
    rw [count, id]
    omega
  mono i := Nat.lt_succ_self i
  state := exchangeStatus_state bs

theorem Layout.entries (layout : Layout b S last) (bs : BootStatus) :
    Entries b.board (bootStatusInternalOff b.board) (exchangeStatus bs) id (2 * (last + 1)) :=
  SwapOffset.entries layout.mode (layout.numSectors_ge.1.trans (b.board.sectors_le .primary)) bs

def plan (layout : Layout b S last) (order : Order last) : Plan b.board S where
  slots := layout.slots
  n := last + 1
  m := last + 2
  roomPri := layout.primary
  roomSec := layout.secondary
  length := 2 * (last + 1)
  copy := order.copy
  src_in := order.src_in
  dst_in := order.dst_in
  ne k _ := order.ne k
  entry := id
  entry_lt := (layout.entries (bootStatusReset b.board)).lt
  entry_mono := Nat.lt_succ_self

/-- The status of a swap after `k` steps. -/
structure StatusAt (k : Nat) (bs : BootStatus) : Prop where
  op : bs.op = .swap
  idx : bs.idx = k / 2 + 1
  state : bs.state = k % 2 + 1

variable {k : Nat} {bs : BootStatus} (at_k : StatusAt k bs)
include at_k

theorem StatusAt.eq : exchangeStatus bs k = bs := exchangeStatus_eq at_k.op at_k.idx at_k.state

theorem StatusAt.reset_iff (mode : b.board.mode = .offset) : bs.isReset b.board = true ↔ k = 0 := by
  simp only [BootStatus.isReset, resetOp, mode, if_true, at_k.op, at_k.idx, at_k.state, statusIdx0,
    statusState0, true_and, decide_eq_true_eq]
  omega

theorem StatusAt.not_reset (mode : b.board.mode = .offset) (pos : 0 < k) : bs.isReset b.board = false := by
  rw [Bool.eq_false_iff]
  intro reset
  have := (at_k.reset_iff mode).mp reset
  omega

end Plan

/-! ### What the loops do -/

section Loops

variable {b : LoaderBuild} {S last k : Nat} {layout : Layout b S last} {rec : SwapRecord} {init : Cell → Option Bytes}
  {fl : Flash} {bs : BootStatus} {E : BootErr → Flash → Prop} {C : Flash → Prop} {bd : Board} {m : Nat} {revert : Bool}
  {usedPri usedSec : Nat}

/-- The order in which `swap_run` takes the sectors. -/
def orderOf (revert : Bool) (last : Nat) : Order last := if revert then backward last else forward last

theorem sectorIdx_exchangeStatus : sectorIdx revert last (exchangeStatus bs m) = (orderOf revert last).pri (m / 2) := by
  cases revert <;> simp [sectorIdx, place, exchangeStatus, orderOf, forward, backward]

theorem replacement_even (i : Nat) : replacement bd revert last (exchangeStatus bs (2 * i)) =
    ⟨.primary, .secondary, bd.sectorOff .primary ((orderOf revert last).pri i),
      bd.sectorOff .secondary ((orderOf revert last).sec i)⟩ := by
  unfold replacement
  rw [sectorIdx_exchangeStatus, Nat.mul_div_cancel_left i Nat.two_pos]
  cases revert <;> simp [exchangeStatus, orderOf, forward, backward]

theorem replacement_odd (i : Nat) : replacement bd revert last (exchangeStatus bs (2 * i + 1)) =
    ⟨.secondary, .primary, bd.sectorOff .primary ((orderOf revert last).up i),
      bd.sectorOff .primary ((orderOf revert last).pri i)⟩ := by
  unfold replacement
  rw [sectorIdx_exchangeStatus, show (2 * i + 1) / 2 = i by omega]
  cases revert <;> simp [exchangeStatus, orderOf, forward, backward, statusState0]

theorem skipped_exchangeStatus :
    skipped revert last usedPri usedSec (exchangeStatus bs m) = false ↔
      (orderOf revert last).pri (m / 2) ≤ if m % 2 = 0 then usedPri else usedSec := by
  rw [skipped, sectorIdx_exchangeStatus, decide_eq_false_iff_not, Nat.not_lt]
  obtain ⟨i, rfl | rfl⟩ : ∃ i, m = 2 * i ∨ m = 2 * i + 1 := ⟨m / 2, by omega⟩
  · simp [exchangeStatus]
  · simp [exchangeStatus, statusState0]

/-- The work of a step is its copy, or nothing if the sector that would be copied is left out. -/
theorem Copies.cases (init : Cell → Option Bytes) {prog : Boot Unit} (works : Copies b revert last usedPri usedSec (exchangeStatus bs k) prog)
    (lt : k < 2 * (last + 1))
    (offs : ∀ i, i ≤ last + 1 → b.board.sectorOff .primary i = b.board.sectorOff .secondary i)
    (freePri : ∀ i, i ≤ last → k = 2 * i → usedPri < (orderOf revert last).pri i →
      init (.primary, (orderOf revert last).pri i) = none)
    (freeSec : ∀ i, i ≤ last → usedSec < (orderOf revert last).pri i →
      init (.secondary, (orderOf revert last).up i) = none) :
    prog = pure () ∧ after (orderOf revert last).copy init k ((orderOf revert last).copy k).src = none ∨
      ∃ copy, copy = (orderOf revert last).copy k ∧ prog = replaceSector b.board copy.src.1 copy.dst.1
        (b.board.sectorOff copy.src.1 copy.src.2) (b.board.sectorOff copy.dst.1 copy.dst.2)
        (b.board.sectorSize .primary 0) := by
  have taken : skipped revert last usedPri usedSec (exchangeStatus bs k) = false ↔ _ := skipped_exchangeStatus
  rw [works]
  obtain ⟨i, rfl | rfl⟩ : ∃ i, k = 2 * i ∨ k = 2 * i + 1 := ⟨k / 2, by omega⟩
  · rw [if_pos (Nat.mul_mod_right ..), Nat.mul_div_cancel_left i Nat.two_pos] at taken
    rw [Order.copy_even]
    split
    next skips =>
      rw [Order.after_pri_before (by omega) (by omega)]
      refine .inl ⟨rfl, freePri i (by omega) rfl (Nat.lt_of_not_le fun le => ?_)⟩
      rw [taken.mpr le] at skips
      exact Bool.noConfusion skips
    next =>
      rw [replacement_even]
      exact .inr ⟨_, rfl, rfl⟩
  · rw [if_neg (by omega), show (2 * i + 1) / 2 = i by omega] at taken
    rw [Order.copy_odd]
    split
    next skips =>
      rw [Order.after_up (by omega) (by omega)]
      refine .inl ⟨rfl, freeSec i (by omega) (Nat.lt_of_not_le fun le => ?_)⟩
      rw [taken.mpr le] at skips
      exact Bool.noConfusion skips
    next =>
      rw [replacement_odd, offs _ ((orderOf revert last).up_le (by omega))]
      exact .inr ⟨_, rfl, rfl⟩

/-- The rest of a swap or of a revert, from any step on. -/
theorem wp_writes (tracked : ∀ c, init c ≠ none → InSectors (last + 1) (last + 2) c) {after : BootStatus}
    {prog : Boot BootStatus} (writes : Writes (Copies b revert last usedPri usedSec) (writeStatus b)
      ((List.range' k (2 * (last + 1) - k)).map (exchangeStatus bs)) after prog)
    (freePri : ∀ i, i ≤ last → k ≤ 2 * i → usedPri < (orderOf revert last).pri i →
      init (.primary, (orderOf revert last).pri i) = none)
    (freeSec : ∀ i, i ≤ last → usedSec < (orderOf revert last).pri i →
      init (.secondary, (orderOf revert last).up i) = none)
    (progress : (plan layout (orderOf revert last)).Progress rec init k fl)
    (cuts : ∀ k' fl', k ≤ k' → (plan layout (orderOf revert last)).Progress rec init k' fl' → C fl') :
    wp prog (fun bs' fl' => bs' = after ∧ (plan layout (orderOf revert last)).Progress rec init (2 * (last + 1)) fl')
      E C fl := by
  have le : k ≤ 2 * (last + 1) := progress.le
  obtain ⟨nPri, nSec⟩ := layout.numSectors_ge
  have offs : ∀ i, i ≤ last + 1 → b.board.sectorOff .primary i = b.board.sectorOff .secondary i := fun i le => by
    rw [layout.slots.even.sectorOff_eq (a := .primary) (by decide) (by omega),
      layout.slots.even.sectorOff_eq (a := .secondary) (by decide) (by omega)]
  have run := writes.wp (I := fun j fl => (plan layout (orderOf revert last)).Progress rec init j fl) (E := E) (C := C)
    ?_ progress
  · rwa [Nat.add_sub_cancel' le] at run
  · intro j prog fl₁ ge lt works progress
    rw [Nat.add_sub_cancel' le] at lt
    have off := (layout.entries bs).off j lt
    have state := (layout.entries bs).not_erased j
    rcases works.cases init lt offs (fun i le eq => freePri i le (by omega)) freeSec with
      ⟨rfl, none⟩ | ⟨copy, eq, rfl⟩
    · exact (plan layout (orderOf revert last)).wp_logStep tracked lt progress (progress.midway.skipped none) off state
        (cuts j fl₁ ge progress) fun _ done => done
    · rw [layout.sectorSize_eq.1]
      exact (plan layout (orderOf revert last)).wp_step tracked lt eq.symm progress off state
        (fun fl' => cuts j fl' ge) fun _ done => done

variable {Q : BootStatus → Flash → Prop}

theorem wp_swapReadStatusBytes (status : LastStatus b.board fl k) (layout : Layout b S last)
    (post : ∀ bs', bs'.source = bs.source → (k = 0 → bs' = bs) → (0 < k → StatusAt k bs') → Q bs' fl) :
    wp (swapReadStatusBytes b .primary bs) Q E C fl := by
  unfold swapReadStatusBytes
  rw [wp_bind]
  refine wp_findStatusIdx layout.slots.keeps (by have := layout.primary; omega) status ?_
  by_cases zero : k = 0
  · rw [if_pos zero, wp_pure]
    exact post bs rfl (fun _ => rfl) fun pos => by omega
  · rw [if_neg zero, wp_pure]
    exact post _ rfl (fun eq => absurd eq zero) fun _ => ⟨rfl, rfl, rfl⟩

theorem plan_found (layout : Layout b S last) (order : Order last) (k : Nat) : (plan layout order).found k = k := by
  cases k <;> rfl

theorem usedSectors_eq {v : ValidateBuild} (img : Image v) (pos : 0 < S)
    (lt : img.size + S ≤ 2 ^ 32) : usedSectors S img.hdr img.tlvSize = sectorCount S img.size := by
  have some : 0 < img.size := Nat.lt_of_lt_of_le (by decide) img.header_le
  have room := img.tlvInfo_le
  have sum : img.hdr.ihHdrSize.toNat + img.tlvSize + img.hdr.ihProtectTlvSize.toNat +
      img.hdr.ihImgSize.toNat = img.size := by
    unfold Image.tlvSize
    unfold ImageHeader.hashedSize at *
    omega
  rw [usedSectors, sum, sectorCount_eq pos some, u32,
    show img.size + S + (2 ^ 32 - 1) = img.size + S - 1 + 2 ^ 32 by omega, Nat.add_mod_right,
    Nat.mod_eq_of_lt (by omega)]

end Loops

/-! ### Headers -/

section Headers

variable {b : LoaderBuild} {S last k : Nat} {rec : SwapRecord} {fl : Flash} {bs : BootStatus}

/-- One index counts from zero and the other from one, so the header of the old image is taken from the primary slot
one sector too early. -/
theorem movedHeaderPlace_forward (layout : Layout b S last) (marked : Marked b.board rec fl)
    (lt : rec.swapSize < 2 ^ 32) (lastIdx : findLastIdx b.board rec.swapSize = last)
    (notRevert : isRevert b.board fl bs = false) (pos : 0 < k) (at_k : StatusAt k bs) :
    movedHeaderPlace b.board fl .primary bs = some (if k / 2 + 1 ≤ last then .secondary else .primary, 0 * S) ∧
      movedHeaderPlace b.board fl .secondary bs = some (if k = 1 then (.secondary, 1 * S) else (.primary, 0 * S)) := by
  have begun : k / 2 + 1 > 1 ∨ k / 2 + 1 = 1 ∧ k % 2 + 1 = 2 := by omega
  have first : k / 2 + 1 > 1 ↔ ¬k = 1 := by omega
  simp only [movedHeaderPlace, layout.slots.bootFindStatus_eq layout.roomPri,
    marked.swapSize_eq layout.roomPri lt, Option.bind_eq_bind, Option.bind_some, lastIdx,
    layout.sectorSize_eq.1, notRevert, at_k.idx, at_k.state, statusIdx0, statusState1, begun,
    Nat.zero_mul, Nat.one_mul]
  constructor
  · by_cases more : k / 2 + 1 ≤ last <;> simp [more]
  · by_cases one : k = 1
    · simp [one]
    · simp [one, first]

theorem bootReadImageHeader_found (st : BootState) {slot a : Area} {off : Nat} {hdr : ImageHeader}
    (place : headerPlace b.board fl slot (some bs) = some (a, off)) (fits : off + imageHeaderSize ≤ b.board.faSize a)
    (decoded : ImageHeader.decode (fl.read a off imageHeaderSize) = hdr) (magic : hdr.ihMagic = imageMagic) :
    ∃ st', bootReadImageHeader b.board fl st slot (some bs) = (st', true) ∧ st'.hdr slot = hdr ∧
      (slot ≠ .primary → st'.hdrPrimary = st.hdrPrimary) ∧ (a = .secondary → st'.secondaryOffset = off) := by
  have read : flashAreaRead (b.board.area fl a) off imageHeaderSize =
      some (fl.read a off imageHeaderSize) := flashAreaRead_area fits
  have hdr_set : (st.setHdr slot hdr).hdr slot = hdr := by
    unfold BootState.setHdr BootState.hdr
    split <;> rfl
  have other : slot ≠ .primary → (st.setHdr slot hdr).hdrPrimary = st.hdrPrimary := by
    intro ne
    rw [BootState.setHdr, if_neg ne]
  by_cases sec : a = .secondary
  · subst sec
    refine ⟨{ st.setHdr slot hdr with secondaryOffset := off }, ?_, hdr_set, other, fun _ => rfl⟩
    simp [bootReadImageHeader, place, read, readOtherSector, decoded, magic]
  · refine ⟨st.setHdr slot hdr, ?_, hdr_set, other, fun eq => absurd eq sec⟩
    simp [bootReadImageHeader, place, read, readOtherSector, decoded, magic, sec]

theorem bootReadImageHeaders_found (st : BootState) (all : Bool) (cellPri cellSec : Cell)
    {hdrPri hdrSec : ImageHeader} (layout : Layout b S last)
    (placePri : headerPlace b.board fl .primary (some bs) = some (cellPri.1, cellPri.2 * S))
    (placeSec : headerPlace b.board fl .secondary (some bs) = some (cellSec.1, cellSec.2 * S))
    (inPri : InSectors (last + 1) (last + 2) cellPri) (inSec : InSectors (last + 1) (last + 2) cellSec)
    (pri : ImageHeader.decode (fl.read cellPri.1 (cellPri.2 * S) imageHeaderSize) = hdrPri)
    (sec : ImageHeader.decode (fl.read cellSec.1 (cellSec.2 * S) imageHeaderSize) = hdrSec)
    (magicPri : hdrPri.ihMagic = imageMagic) (magicSec : hdrSec.ihMagic = imageMagic) :
    ∃ st', bootReadImageHeaders (algo b) fl st all (some bs) = (st', true) ∧
      st'.hdrPrimary = hdrPri ∧ st'.hdrSecondary = hdrSec ∧
      (cellSec.1 = .secondary → st'.secondaryOffset = cellSec.2 * S) := by
  have wide := layout.wide
  have fits : ∀ {c : Cell}, InSectors (last + 1) (last + 2) c →
      c.2 * S + imageHeaderSize ≤ b.board.faSize c.1 := by
    intro c inside
    obtain ⟨-, -, room⟩ := (plan layout (forward last)).inSectors_lt inside
    rw [Nat.succ_mul] at room
    omega
  obtain ⟨st₁, readPri, hdr₁, -, -⟩ := bootReadImageHeader_found st placePri (fits inPri) pri magicPri
  obtain ⟨st₂, readSec, hdr₂, keeps, off⟩ := bootReadImageHeader_found st₁ placeSec (fits inSec) sec magicSec
  exact ⟨st₂, by simp [bootReadImageHeaders, algo, readPri, readSec], (keeps (by decide)).trans hdr₁, hdr₂, off⟩

theorem imageSize_held {st : BootState} {a : Area} {img : Image b.validate} (hdr : st.hdr a = img.hdr)
    (read : readImageSize (b.board.area fl a) img.hdr (st.startOff a) = some (img.size, img.tlvSize)) :
    imageSizeIfPresent (algo b) fl st a = pure (img.size, st.setUnprotectedTlvSize a img.tlvSize) :=
  imageSizeIfPresent_held hdr (by simp only [algo, hdr, read, Option.map_some])

end Headers

end Adaboot.SwapOffset
