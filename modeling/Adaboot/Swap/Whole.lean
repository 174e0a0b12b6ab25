import Adaboot.Swap.Room

/-!
# Swaps over sectors of different sizes

The steps of a swap take the size of the first sector for all sectors. Where the sectors of a swap all have it, and
its trailers lie above them, the steps exchange the images.
-/

namespace Adaboot

open Nor Crash

/-! ### Whole sectors -/

def IsSector (bd : Board) (S : Nat) (a : Area) (off : Nat) : Prop :=
  ∃ i, i < bd.numSectors a ∧ bd.sectorOff a i = off ∧ bd.sectorSize a i = S

/-- The first `n` sectors of the primary and the first `m` sectors of the secondary slot have one size. -/
structure WholeSectors (bd : Board) (S n m : Nat) : Prop where
  primary : ∀ i, i < n → i < bd.numSectors .primary ∧ bd.sectorSize .primary i = S
  secondary : ∀ i, i < m → i < bd.numSectors .secondary ∧ bd.sectorSize .secondary i = S

section Sectors

variable {bd : Board} {S n m : Nat} {a : Area}

theorem isSector_sectorOff (j : Nat) :
    IsSector bd S a (bd.sectorOff a j) ↔ j < bd.numSectors a ∧ bd.sectorSize a j = S := by
  constructor
  · rintro ⟨i, lt, off, size⟩
    have next := bd.sectorOff_succ lt
    have pos := bd.sectorSize_ge lt
    have same : i = j := by
      rcases Nat.lt_trichotomy i j with less | eq | more
      · have := bd.sectorOff_mono a (show i + 1 ≤ j from less)
        omega
      · exact eq
      · have step := bd.sectorOff_succ (show j < bd.numSectors a by omega)
        have := bd.sectorOff_mono a (show j + 1 ≤ i from more)
        have := bd.sectorSize_ge (show j < bd.numSectors a by omega)
        omega
    exact same ▸ ⟨lt, size⟩
  · rintro ⟨lt, size⟩
    exact ⟨j, lt, rfl, size⟩

theorem sectorOff_of_whole (whole : ∀ i, i < n → i < bd.numSectors a ∧ bd.sectorSize a i = S) {i : Nat} (le : i ≤ n) :
    bd.sectorOff a i = i * S := by
  induction i with
  | zero => simp [Board.sectorOff, Nor.sectorOff]
  | succ i ih =>
    obtain ⟨lt, size⟩ := whole i le
    rw [bd.sectorOff_succ lt, ih (Nat.le_of_succ_le le), size, Nat.succ_mul]

theorem WholeSectors.sectorAt (whole : WholeSectors bd S n m) {c : Cell} (inside : InSectors n m c) :
    SectorAt bd S c.1 c.2 := by
  obtain ⟨a, i⟩ := c
  rcases inside with ⟨rfl, lt⟩ | ⟨rfl, lt⟩
  · exact ⟨(whole.primary i lt).1, (whole.primary i lt).2, sectorOff_of_whole whole.primary (Nat.le_of_lt lt)⟩
  · exact ⟨(whole.secondary i lt).1, (whole.secondary i lt).2, sectorOff_of_whole whole.secondary (Nat.le_of_lt lt)⟩

end Sectors

/-! ### The steps over whole sectors -/

section Steps

variable {bd : Board} {S n m : Nat} {fl : Flash} {copy : Nat → Copy Cell} {length k : Nat} {init : Cell → Option Bytes}
  {E : BootErr → Flash → Prop}

theorem WholeSectors.wp_copy (whole : WholeSectors bd S n m) (srcIn : InSectors n m (copy k).src)
    (dstIn : InSectors n m (copy k).dst) (ne : (copy k).src ≠ (copy k).dst)
    (midway : Midway copy length init k (cells S fl)) :
    wp (replaceSector bd (copy k).src.1 (copy k).dst.1 (bd.sectorOff (copy k).src.1 (copy k).src.2)
        (bd.sectorOff (copy k).dst.1 (copy k).dst.2) S)
      (fun _ fl' => Midway copy length init (k + 1) (cells S fl')) E (fun _ => True) fl := by
  refine wp_replaceSector (whole.sectorAt srcIn) (whole.sectorAt dstIn) ne (fun _ _ => trivial) fun fl' out copied => ?_
  exact midway.copied ne copied fun c away _ => cells_of_ne out away

/-- The beginning of a swap changes nothing below the trailers. -/
theorem wp_beginSwap_below {st : BootState} {bs : BootStatus} {Q : Unit → Flash → Prop}
    (priOff : bd.sectorOff .primary n = n * S) (secOff : bd.sectorOff .secondary m = m * S)
    (roomPri : n * S + scrambleSz bd .primary ≤ bd.faSize .primary)
    (roomSec : m * S + scrambleSz bd .secondary ≤ bd.faSize .secondary) (upgrade : bs.swapType.isUpgrade = true)
    (post : ∀ fl', SameSectors S n m fl fl' → Q () fl') : wp (beginSwap bd st bs) Q E (fun _ => True) fl := by
  have info := infoSz_le_scrambleSz bd .primary
  have info' := infoSz_le_scrambleSz bd .secondary
  have clear : ∀ fl₁, SameSectors S n m fl fl₁ →
      wp (assertOk (swapScrambleTrailerSectors bd .secondary)) Q E (fun _ => True) fl₁ := by
    intro fl₁ sectors
    refine wp_assertOk (wp_swapScrambleTrailerSectors (n := m) (by omega) trivial (fun _ _ _ => trivial) ?_)
    intro fl₂ same _
    rw [secOff] at same
    exact post fl₂ (sectors.trans (.ofSecondary same))
  unfold beginSwap
  by_cases source : bs.source = .primarySlot
  · simp only [source, ne_eq, not_true_eq_false, if_false]
    exact clear fl (.refl _ _ _ _)
  · obtain ⟨some, code⟩ := SwapType.code_of_upgrade upgrade
    simp only [source, ne_eq, not_false_eq_true, if_true]
    rw [wp_bind]
    refine wp_assertOk (wp_swapScrambleTrailerSectors (n := n) (by omega) trivial (fun _ _ _ => trivial) ?_)
    intro fl₁ same blank
    rw [priOff] at same
    rw [wp_bind]
    have erased : ∀ f, f.Present bd → trailerField bd fl₁ .primary f = List.replicate f.len erasedVal := fun f here =>
      trailerField_erased (by omega) (fun i lo hi => blank i (by omega) hi) here
    refine wp_assertOk (wp_swapStatusInit (by omega) (by omega) some code (fun f _ here => erased f here)
      (fun _ _ _ => trivial) fun fl₂ written => ?_)
    exact clear fl₂ (.ofPrimary (same.trans (written.outside.mono (by omega) (Nat.le_refl _))))

/-- Statuses are written above the sectors, so that only the work between them counts. -/
theorem Writes.wp_copies {b : LoaderBuild} {internalOff : BootStatus → Nat} {work : BootStatus → Boot Unit → Prop}
    {step : Nat → BootStatus} {entry : Nat → Nat} {α : Type} {a : α} {prog : Boot α}
    (writes : Writes work (fun bs => statusAssert b (bootWriteStatus b.board internalOff bs))
      ((List.range length).map step) a prog)
    (entries : Entries b.board internalOff step entry length) (keeps : b.board.KeepsStatus)
    (room : n * S + scrambleSz b.board .primary ≤ b.board.faSize .primary)
    (tracked : ∀ c, init c ≠ none → InSectors n m c) (dstIn : ∀ k, k < length → InSectors n m (copy k).dst)
    (start : Midway copy length init 0 (cells S fl))
    (copies : ∀ k m fl, k < length → work (step k) m → Midway copy length init k (cells S fl) →
      Crash.wp m (fun _ fl' => Midway copy length init (k + 1) (cells S fl')) E (fun _ => True) fl) :
    Crash.wp prog (fun _ fl' => Midway copy length init length (cells S fl')) E (fun _ => True) fl := by
  rw [List.range_eq_range'] at writes
  refine wp_imp (writes.wp (I := fun k fl => Midway copy length init k (cells S fl)) ?_ start) fun _ fl' done => ?_
  · intro k prog fl _ lt works midway
    rw [Nat.zero_add] at lt
    obtain ⟨top, bottom⟩ := keeps.statusAt_entries (Nat.le_trans (Nat.le_add_left ..) room)
    have above := statusAt_mono b.board (Nat.zero_le (entry k))
    rw [wp_bind]
    refine wp_imp (copies k prog fl lt works midway) fun _ fl' done => ?_
    refine wp_statusAssert ((wp_bootWriteStatus keeps (by omega) (entries.off k lt) (entries.lt k lt)).mpr ⟨trivial, ?_⟩)
    have out := Flash.eqOutside_program fl' .primary (statusAt b.board (entry k)) [UInt8.ofNat (step k).state]
    have wide : Flash.EqOutside .primary (n * S) _ fl' _ := out.mono (by omega) (Nat.le_refl _)
    have same : SameSectors S n m fl' _ := .ofPrimary wide
    exact done.congr fun c _ known => same.cells (after_inside tracked dstIn lt known)
  · rw [Nat.zero_add] at done
    exact done.2

end Steps

end Adaboot

/-! ### Swaps using move -/

namespace Adaboot.SwapMove

open Nor Crash

/-- Every step replaces a whole sector by a whole sector. -/
def WholeSteps (bd : Board) (last : Nat) : Prop := ∀ bs ∈ pending last (bootStatusReset bd),
    let r := replacement bd last bs
    IsSector bd (bd.sectorSize .primary 0) r.src r.srcOff ∧ IsSector bd (bd.sectorSize .primary 0) r.dst r.dstOff

/-- The exchanges reach every sector but the last one of the primary slot, which the first move reaches. -/
theorem wholeSteps_iff {bd : Board} {last : Nat} (mode : bd.mode = .move) (small : last < 2 ^ 32) (pos : 0 < last) :
    WholeSteps bd last ↔ WholeSectors bd (bd.sectorSize .primary 0) (last + 1) last := by
  unfold WholeSteps
  rw [pending_reset mode small]
  constructor
  · intro steps
    have step : ∀ k, k < 3 * last → _ := fun k lt =>
      steps _ (List.mem_map.mpr ⟨k, List.mem_range.mpr lt, rfl⟩)
    have exchange : ∀ i, i < last → _ ∧ _ := fun i lt => by
      have down := step (last + 2 * i) (by omega)
      rw [replacement_stepStatus (by omega), moveCopy_down] at down
      exact ⟨(isSector_sectorOff i).mp down.1, (isSector_sectorOff i).mp down.2⟩
    have first := step 0 (by omega)
    rw [replacement_stepStatus (by omega), moveCopy_up pos] at first
    refine ⟨fun i lt => ?_, fun i lt => (exchange i lt).1⟩
    by_cases top : i = last
    · rw [top]
      exact (isSector_sectorOff last).mp first.2
    · exact (exchange i (by omega)).2
  · intro whole bs listed
    obtain ⟨k, lt, rfl⟩ := List.mem_map.mp listed
    rw [List.mem_range] at lt
    have src := whole.sectorAt (moveCopy_src_in lt)
    have dst := whole.sectorAt (moveCopy_dst_in lt)
    rw [replacement_stepStatus lt]
    exact ⟨(isSector_sectorOff _).mpr ⟨src.lt, src.size⟩, (isSector_sectorOff _).mpr ⟨dst.lt, dst.size⟩⟩

section Exchange

variable {b : LoaderBuild} {S last : Nat} {st : BootState} {bs : BootStatus} {fl : Flash}

/-- Of the sectors that are exchanged, those that `k` steps have put in place. -/
def Copied (S last : Nat) (fl : Flash) (k : Nat) (fl' : Flash) : Prop :=
  Midway (moveCopy last) (3 * last) (exchanged S last fl) k (cells S fl')

variable {E : BootErr → Flash → Prop} (sectorSize : b.board.sectorSize .primary 0 = S)
  (whole : WholeSectors b.board S (last + 1) last)
  (roomPri : (last + 1) * S + scrambleSz b.board .primary ≤ b.board.faSize .primary)
  (roomSec : last * S + scrambleSz b.board .secondary ≤ b.board.faSize .secondary)
  (upgrade : bs.swapType.isUpgrade = true)
include sectorSize whole roomPri roomSec upgrade

theorem wp_work {k : Nat} (lt : k < 3 * last) {m : Boot Unit}
    (works : Copies b st last (stepStatus last bs k) m) {fl₁ : Flash} (copied : Copied S last fl k fl₁) :
    wp m (fun _ fl' => Copied S last fl (k + 1) fl') E (fun _ => True) fl₁ := by
  have copies : ∀ fl₂, Copied S last fl k fl₂ → wp ((replacement b.board last (stepStatus last bs k)).run b.board)
      (fun _ fl' => Copied S last fl (k + 1) fl') E (fun _ => True) fl₂ := by
    intro fl₂ copied
    rw [replacement_stepStatus lt, Replacement.run, sectorSize]
    exact whole.wp_copy (moveCopy_src_in lt) (moveCopy_dst_in lt) moveCopy_ne copied
  rw [works]
  split
  · -- the trailers are prepared before the first move
    have type : (stepStatus last bs k).swapType = bs.swapType := by
      unfold stepStatus
      split <;> rfl
    rw [wp_bind]
    refine wp_beginSwap_below (sectorOff_of_whole whole.primary (Nat.le_refl _))
      (sectorOff_of_whole whole.secondary (Nat.le_refl _)) roomPri roomSec (type ▸ upgrade) fun fl₂ same => ?_
    refine copies fl₂ (copied.congr fun c _ known => same.cells ?_)
    exact after_inside exchanged_in (fun _ => moveCopy_dst_in) (Nat.le_of_lt lt) known
  · exact copies fl₁ copied

theorem wp_loops (mode : b.board.mode = .move) (reset : bs.isReset b.board = true) :
    wp (loops b st last bs) (fun _ fl' => Copied S last fl (3 * last) fl') E (fun _ => True) fl := by
  have sectors : last + 1 ≤ b.board.maxImgSectors :=
    Nat.le_trans (whole.primary last (Nat.lt_succ_self _)).1 (b.board.sectors_le .primary)
  have small : last < 2 ^ 32 := Nat.lt_of_lt_of_le sectors (Nat.le_of_lt (maxImgSectors_lt mode (by omega)))
  obtain ⟨-, idx, state⟩ := of_decide_eq_true reset
  obtain ⟨after, -, writes⟩ := loops_write b st small (Nat.le_of_eq idx.symm) (.inl state)
    (fun _ => idx ▸ Nat.le_add_left ..)
  rw [pending_of_isReset mode small reset] at writes
  exact writes.wp_copies (entries mode (Nat.le_of_succ_le sectors) bs) (.inl mode) roomPri exchanged_in
    (fun _ => moveCopy_dst_in) (fun c d _ => exchanged_eq c d) fun k m fl₁ lt works copied =>
      wp_work sectorSize whole roomPri roomSec upgrade lt works copied

end Exchange

end Adaboot.SwapMove

/-! ### Swaps using offset -/

namespace Adaboot.SwapOffset

open Nor Crash

/-- Every step of the swap and of its revert that is not left out replaces a whole sector by a whole sector. -/
def WholeSteps (bd : Board) (last usedPri usedSec : Nat) : Prop :=
  ∀ revert, ∀ bs ∈ pending last (bootStatusReset bd), skipped revert last usedPri usedSec bs = false →
    IsSector bd (bd.sectorSize .primary 0) (replacement bd revert last bs).src (replacement bd revert last bs).srcOff ∧
      IsSector bd (bd.sectorSize .primary 0) (replacement bd revert last bs).dst (replacement bd revert last bs).dstOff

section Steps

variable {bd : Board} {last usedPri usedSec : Nat}

theorem WholeSteps.even (steps : WholeSteps bd last usedPri usedSec) (all : last ≤ usedPri)
    (revert : Bool) {i : Nat} (le : i ≤ last) :
    IsSector bd (bd.sectorSize .primary 0) .primary (bd.sectorOff .primary ((orderOf revert last).pri i)) ∧
      IsSector bd (bd.sectorSize .primary 0) .secondary (bd.sectorOff .secondary ((orderOf revert last).sec i)) := by
  have step := steps revert (exchangeStatus (bootStatusReset bd) (2 * i)) ?_ ?_
  · rwa [replacement_even] at step
  · rw [pending_reset]
    exact List.mem_map.mpr ⟨_, List.mem_range.mpr (by omega), rfl⟩
  · rw [skipped_exchangeStatus, if_pos (Nat.mul_mod_right ..), Nat.mul_div_cancel_left i Nat.two_pos]
    exact Nat.le_trans ((orderOf revert last).pri_le le) all

theorem WholeSteps.odd (steps : WholeSteps bd last usedPri usedSec) (all : last ≤ usedSec)
    (revert : Bool) {i : Nat} (le : i ≤ last) :
    IsSector bd (bd.sectorSize .primary 0) .secondary (bd.sectorOff .primary ((orderOf revert last).up i)) ∧
      IsSector bd (bd.sectorSize .primary 0) .primary (bd.sectorOff .primary ((orderOf revert last).pri i)) := by
  have step := steps revert (exchangeStatus (bootStatusReset bd) (2 * i + 1)) ?_ ?_
  · rwa [replacement_odd] at step
  · rw [pending_reset]
    exact List.mem_map.mpr ⟨_, List.mem_range.mpr (by omega), rfl⟩
  · rw [skipped_exchangeStatus, if_neg (by omega), show (2 * i + 1) / 2 = i by omega]
    exact Nat.le_trans ((orderOf revert last).pri_le le) all

theorem wholeSteps_iff (used : last ≤ max usedPri usedSec) :
    WholeSteps bd last usedPri usedSec ↔ WholeSectors bd (bd.sectorSize .primary 0) (last + 1) (last + 2) := by
  constructor
  · intro steps
    rcases Nat.le_total usedSec usedPri with more | more
    · rw [Nat.max_eq_left more] at used
      refine ⟨fun i lt => ?_, fun i lt => ?_⟩
      · exact (isSector_sectorOff i).mp (steps.even used false (show i ≤ last by omega)).1
      · by_cases top : i = last + 1
        · exact top ▸ (isSector_sectorOff (last + 1)).mp (steps.even used true (Nat.zero_le last)).2
        · exact (isSector_sectorOff i).mp (steps.even used false (show i ≤ last by omega)).2
    · rw [Nat.max_eq_right more] at used
      have primary : ∀ i, i < last + 1 → i < bd.numSectors .primary ∧ bd.sectorSize .primary i = bd.sectorSize .primary 0 :=
        fun i lt => (isSector_sectorOff i).mp (steps.odd used false (show i ≤ last by omega)).2
      have reached : ∀ i, i < last + 2 →
          IsSector bd (bd.sectorSize .primary 0) .secondary (bd.sectorOff .primary i) := by
        intro i lt
        by_cases top : i = last + 1
        · exact top ▸ (steps.odd used false (Nat.le_refl last)).1
        · have down := (steps.odd used true (show last - i ≤ last by omega)).1
          rwa [show (orderOf true last).up (last - i) = i by simp only [orderOf, if_true, backward]; omega] at down
      -- the offsets agree as far as the sectors below are whole
      have secondary : ∀ n, n ≤ last + 2 → ∀ i, i < n →
          i < bd.numSectors .secondary ∧ bd.sectorSize .secondary i = bd.sectorSize .primary 0 := by
        intro n le
        induction n with
        | zero => exact fun i lt => absurd lt (Nat.not_lt_zero i)
        | succ n ih =>
          have below := ih (Nat.le_of_succ_le le)
          intro i lt
          rcases Nat.lt_succ_iff_lt_or_eq.mp lt with less | rfl
          · exact below i less
          · have whole := reached i le
            rw [sectorOff_of_whole primary (Nat.le_of_lt_succ le), ← sectorOff_of_whole below (Nat.le_refl i)] at whole
            exact (isSector_sectorOff i).mp whole
      exact ⟨primary, secondary (last + 2) (Nat.le_refl _)⟩
  · intro whole revert bs listed _
    rw [pending_reset] at listed
    obtain ⟨m, lt, rfl⟩ := List.mem_map.mp listed
    rw [List.mem_range] at lt
    obtain ⟨i, rfl | rfl⟩ : ∃ i, m = 2 * i ∨ m = 2 * i + 1 := ⟨m / 2, by omega⟩
    · have pri := (orderOf revert last).pri_le (show i ≤ last by omega)
      have sec := (orderOf revert last).sec_le (show i ≤ last by omega)
      rw [replacement_even]
      exact ⟨(isSector_sectorOff _).mpr (whole.primary _ (by omega)), (isSector_sectorOff _).mpr (whole.secondary _ (by omega))⟩
    · have pri := (orderOf revert last).pri_le (show i ≤ last by omega)
      have up := (orderOf revert last).up_le (show i ≤ last by omega)
      rw [replacement_odd]
      refine ⟨?_, (isSector_sectorOff _).mpr (whole.primary _ (by omega))⟩
      rw [sectorOff_of_whole whole.primary up, ← sectorOff_of_whole whole.secondary (Nat.le_succ_of_le up)]
      exact (isSector_sectorOff _).mpr (whole.secondary _ (by omega))

end Steps

section Exchange

variable {b : LoaderBuild} {S last usedPri usedSec : Nat} {revert : Bool} {bs : BootStatus} {fl fl' : Flash}

/-- The sectors that are not left out. -/
def kept (last usedPri usedSec : Nat) (revert : Bool) : Cell → Bool
  | (.primary, i) => i ≤ last ∧ i ≤ usedPri
  | (.secondary, i) => (revert ∨ 0 < i) ∧ (if revert then i else i - 1) ≤ last ∧ (if revert then i else i - 1) ≤ usedSec
  | (.scratch, _) => false

def held (S last usedPri usedSec : Nat) (revert : Bool) (fl : Flash) (c : Cell) : Option Bytes :=
  if kept last usedPri usedSec revert c then some (cells S fl c) else none

variable {i : Nat} {E : BootErr → Flash → Prop}

theorem held_pri (le : i ≤ last) :
    held S last usedPri usedSec revert fl (.primary, (orderOf revert last).pri i) =
      if (orderOf revert last).pri i ≤ usedPri then some (cells S fl (.primary, (orderOf revert last).pri i)) else none := by
  simp only [held, kept, (orderOf revert last).pri_le le, true_and, decide_eq_true_eq]

theorem held_up (le : i ≤ last) :
    held S last usedPri usedSec revert fl (.secondary, (orderOf revert last).up i) =
      if (orderOf revert last).pri i ≤ usedSec then some (cells S fl (.secondary, (orderOf revert last).up i)) else none := by
  cases revert <;> simp [held, kept, orderOf, forward, backward, le]

theorem held_in (c : Cell) (known : held S last usedPri usedSec revert fl c ≠ none) : InSectors (last + 1)
    (last + 2) c := by
  have inside : kept last usedPri usedSec revert c = true := by
    by_contra outside
    exact known (if_neg outside)
  obtain ⟨a, i⟩ := c
  cases a with
  | primary =>
    simp only [kept, decide_eq_true_eq] at inside
    exact .inl ⟨rfl, Nat.lt_succ_of_le inside.1⟩
  | secondary =>
    simp only [kept, decide_eq_true_eq] at inside
    obtain ⟨-, le, -⟩ := inside
    refine .inr ⟨rfl, ?_⟩
    split at le <;> (simp only; omega)
  | scratch => exact absurd inside Bool.false_ne_true

/-- Of the sectors that are not left out, those that `k` steps have put in place. -/
def Copied (S last usedPri usedSec : Nat) (revert : Bool) (fl : Flash) (k : Nat) (fl' : Flash) : Prop :=
  Midway (orderOf revert last).copy (2 * (last + 1)) (held S last usedPri usedSec revert fl) k (cells S fl')

theorem Copied.none : Copied S last usedPri usedSec revert fl 0 fl := by
  intro c d _ value
  change held S last usedPri usedSec revert fl c = some d at value
  unfold held at value
  split at value
  · exact Option.some.inj value
  · simp at value

theorem wp_work (sectorSize : b.board.sectorSize .primary 0 = S) (whole : WholeSectors b.board S (last + 1) (last + 2))
    {k : Nat} (lt : k < 2 * (last + 1)) {m : Boot Unit}
    (works : Copies b revert last usedPri usedSec (exchangeStatus bs k) m) {fl₁ : Flash}
    (copied : Copied S last usedPri usedSec revert fl k fl₁) :
    wp m (fun _ fl' => Copied S last usedPri usedSec revert fl (k + 1) fl') E (fun _ => True) fl₁ := by
  have offs : ∀ i, i ≤ last + 1 → b.board.sectorOff .primary i = b.board.sectorOff .secondary i := fun i le => by
    rw [sectorOff_of_whole whole.primary le, sectorOff_of_whole whole.secondary (Nat.le_succ_of_le le)]
  rcases works.cases (held S last usedPri usedSec revert fl) lt offs
    (fun i le _ more => by rw [held_pri le, if_neg (Nat.not_le_of_lt more)])
    (fun i le more => by rw [held_up le, if_neg (Nat.not_le_of_lt more)]) with ⟨rfl, none⟩ | ⟨copy, eq, rfl⟩
  · exact (wp_pure _).mpr (copied.skipped none)
  · rw [sectorSize, eq]
    exact whole.wp_copy ((orderOf revert last).src_in k lt) ((orderOf revert last).dst_in k lt)
      ((orderOf revert last).ne k) copied

theorem Writes.copies (mode : b.board.mode = .offset) (sectorSize : b.board.sectorSize .primary 0 = S)
    (whole : WholeSectors b.board S (last + 1) (last + 2))
    (room : (last + 1) * S + scrambleSz b.board .primary ≤ b.board.faSize .primary) {α : Type} {a : α} {prog : Boot α}
    (writes : Writes (Copies b revert last usedPri usedSec) (writeStatus b)
      ((List.range (2 * (last + 1))).map (exchangeStatus bs)) a prog) :
    wp prog (fun _ fl' => Copied S last usedPri usedSec revert fl (2 * (last + 1)) fl') E (fun _ => True) fl := by
  have sectors : last + 1 ≤ b.board.maxImgSectors :=
    Nat.le_trans (whole.primary last (Nat.lt_succ_self _)).1 (b.board.sectors_le .primary)
  exact writes.wp_copies (entries mode sectors bs) (.inr mode) room held_in (orderOf revert last).dst_in Copied.none
    fun k m fl₁ lt works copied => wp_work sectorSize whole lt works copied

theorem cells_of_copied (copied : Copied S last usedPri usedSec revert fl (2 * (last + 1)) fl') (le : i ≤ last) :
    (i ≤ usedSec → cells S fl' (.primary, i) = cells S fl (.secondary, i + if revert then 0 else 1)) ∧
    (i ≤ usedPri → cells S fl' (.secondary, i + if revert then 1 else 0) = cells S fl (.primary, i)) := by
  have done : ∀ c, 2 * (last + 1) < 2 * (last + 1) → c ≠ ((orderOf revert last).copy (2 * (last + 1))).dst :=
    fun c lt => by omega
  -- a revert takes the sectors in the order of the mirrored index
  obtain ⟨j, j_le, pri, up, sec⟩ : ∃ j, j ≤ last ∧ (orderOf revert last).pri j = i ∧
      (orderOf revert last).up j = i + (if revert then 0 else 1) ∧
      (orderOf revert last).sec j = i + if revert then 1 else 0 := by
    cases revert with
    | false => exact ⟨i, le, rfl, rfl, rfl⟩
    | true =>
      have mirror : last - (last - i) = i := by omega
      exact ⟨last - i, Nat.sub_le .., mirror, mirror, congrArg (· + 1) mirror⟩
  rw [← up, ← sec, ← pri]
  constructor
  · intro used
    refine copied _ _ (done _) ?_
    rw [Order.after_pri j_le (Nat.le_refl _), if_pos (by omega), held_up j_le, if_pos used]
  · intro used
    refine copied _ _ (done _) ?_
    rw [Order.after_sec j_le (Nat.le_refl _), if_pos (by omega), held_pri j_le, if_pos used]

end Exchange

end Adaboot.SwapOffset

namespace Adaboot

open Nor Crash

/-- The images have changed places, the one from `source` bytes above the start of the secondary slot, the other to
`target`. -/
structure ImagesExchanged (sizePri sizeSec source target : Nat) (fl fl' : Flash) : Prop where
  primary : ∀ x, x < sizeSec → fl' .primary x = fl .secondary (source + x)
  secondary : ∀ x, x < sizePri → fl' .secondary (target + x) = fl .primary x

section Images

variable {S sizePri sizeSec : Nat} {fl fl' : Flash}

theorem imagesExchanged_of_cells {source target : Nat} (pos : 0 < S)
    (primary : ∀ i, i * S < sizeSec → cells S fl' (.primary, i) = cells S fl (.secondary, i + source))
    (secondary : ∀ i, i * S < sizePri → cells S fl' (.secondary, i + target) = cells S fl (.primary, i)) :
    ImagesExchanged sizePri sizeSec (source * S) (target * S) fl fl' := by
  have place : ∀ x, x / S * S + x % S = x := fun x => by rw [Nat.mul_comm, Nat.div_add_mod]
  have shifted : ∀ x n, (x / S + n) * S + x % S = n * S + x := by
    intro x n
    have := place x
    rw [Nat.add_mul]
    omega
  constructor
  · intro x lt
    have same := cells_byte (primary (x / S) (Nat.lt_of_le_of_lt (Nat.div_mul_le_self ..) lt)) (Nat.mod_lt x pos)
    rwa [place, shifted] at same
  · intro x lt
    have same := cells_byte (secondary (x / S) (Nat.lt_of_le_of_lt (Nat.div_mul_le_self ..) lt)) (Nat.mod_lt x pos)
    rwa [place, shifted] at same

end Images

theorem lt_of_mul_lt_size {S last size copySize i : Nat} (pos : 0 < S) (count : sectorCount S copySize ≤ last)
    (le : size ≤ copySize) (lt : i * S < size) : i < last := by
  have held := (@sectorCount_spec S copySize pos).2.1
  have bound : i * S < sectorCount S copySize * S := by omega
  exact Nat.lt_of_lt_of_le (Nat.lt_of_mul_lt_mul_right bound) count

theorem SwapMove.loops_exchange {b : LoaderBuild} {S copySize : Nat} (mode : b.board.mode = .move)
    (sectorSize : b.board.sectorSize .primary 0 = S) (pos : 0 < S)
    (whole : WholeSectors b.board S (findLastIdx b.board copySize + 1) (findLastIdx b.board copySize))
    (roomPri : (findLastIdx b.board copySize + 1) * S + scrambleSz b.board .primary ≤ b.board.faSize .primary)
    (roomSec : findLastIdx b.board copySize * S + scrambleSz b.board .secondary ≤ b.board.faSize .secondary)
    (st : BootState) {bs : BootStatus} (fl : Flash) (reset : bs.isReset b.board = true)
    (upgrade : bs.swapType.isUpgrade = true) :
    wp (loops b st (findLastIdx b.board copySize) bs) (fun _ fl' => ImagesExchanged copySize copySize 0 0 fl fl')
      (fun _ _ => False) (fun _ => True) fl := by
  refine wp_imp (wp_loops sectorSize whole roomPri roomSec upgrade mode reset) (fun _ fl' copied => ?_)
  have count : sectorCount S copySize ≤ findLastIdx b.board copySize := by rw [findLastIdx, sectorSize]
  have images : ImagesExchanged copySize copySize (0 * S) (0 * S) fl fl' := imagesExchanged_of_cells pos
      (fun i lt => (cells_of_copied copied i (lt_of_mul_lt_size pos count (Nat.le_refl _) lt)).1)
      (fun i lt => (cells_of_copied copied i (lt_of_mul_lt_size pos count (Nat.le_refl _) lt)).2)
  rwa [Nat.zero_mul] at images

section Offset

variable {b : LoaderBuild} {S copySize usedPri usedSec sizePri sizeSec : Nat} (mode : b.board.mode = .offset)
  (sectorSize : b.board.sectorSize .primary 0 = S) (pos : 0 < S)
  (whole : WholeSectors b.board S (SwapOffset.findLastIdx b.board copySize + 1) (SwapOffset.findLastIdx b.board copySize + 2))
  (room : (SwapOffset.findLastIdx b.board copySize + 1) * S + scrambleSz b.board .primary ≤ b.board.faSize .primary)
  {bs : BootStatus} (fl : Flash) (reset : bs.isReset b.board = true)
  (priLe : sizePri ≤ copySize ∧ sizePri ≤ (usedPri + 1) * S) (secLe : sizeSec ≤ copySize ∧ sizeSec ≤ (usedSec + 1) * S)

include sectorSize pos in
theorem SwapOffset.sector_le {size used i : Nat} (le : size ≤ copySize ∧ size ≤ (used + 1) * S) (lt : i * S < size) :
    i ≤ findLastIdx b.board copySize ∧ i ≤ used := by
  have count : sectorCount S copySize ≤ findLastIdx b.board copySize + 1 := by rw [findLastIdx_succ, sectorSize]
  have reached := lt_of_mul_lt_size pos count le.1 lt
  have kept : i * S < (used + 1) * S := Nat.lt_of_lt_of_le lt le.2
  exact ⟨Nat.le_of_lt_succ reached, Nat.le_of_lt_succ (Nat.lt_of_mul_lt_mul_right kept)⟩

include mode sectorSize pos whole room reset priLe secLe

theorem SwapOffset.exchanges {revert : Bool} {prog : Boot BootStatus}
    (writes : { bs with op := .swap }.Exchanges → ∃ after, after.swapType = bs.swapType ∧
      Writes (Copies b revert (findLastIdx b.board copySize) usedPri usedSec) (writeStatus b)
        (pending (findLastIdx b.board copySize) bs) after prog) :
    wp prog (fun _ fl' => ImagesExchanged sizePri sizeSec (if revert then 0 else S) (if revert then S else 0) fl fl')
      (fun _ _ => False) (fun _ => True) fl := by
  obtain ⟨-, idx, state⟩ := of_decide_eq_true reset
  obtain ⟨_, -, writes⟩ := writes ⟨rfl, Nat.le_of_eq idx.symm, .inl state⟩
  rw [pending_of_isReset reset] at writes
  refine wp_imp (Writes.copies mode sectorSize whole room writes) (fun _ fl' copied => ?_)
  have images := imagesExchanged_of_cells pos
    (fun i lt => have ⟨le, used⟩ := sector_le sectorSize pos secLe lt; (cells_of_copied copied le).1 used)
    (fun i lt => have ⟨le, used⟩ := sector_le sectorSize pos priLe lt; (cells_of_copied copied le).2 used)
  simpa only [ite_mul, Nat.zero_mul, Nat.one_mul] using images

end Offset

/-- The steps erase and copy whole sectors exactly if the sectors of the swap all have the size of the first one, and
then they exchange the images. -/
theorem steps_exchange_whole_sectors (b : LoaderBuild) (S copySize : Nat) (some : 0 < b.board.numSectors .primary)
    (sectorSize : b.board.sectorSize .primary 0 = S) (pos : 0 < copySize) :
    (b.board.mode = .move → copySize ≤ SwapMove.appMaxSize b.board →
      let last := SwapMove.findLastIdx b.board copySize
      (SwapMove.WholeSteps b.board last ↔ WholeSectors b.board S (last + 1) last) ∧
      (WholeSectors b.board S (last + 1) last → (last + 1) * S + scrambleSz b.board .primary ≤ b.board.faSize .primary →
        last * S + scrambleSz b.board .secondary ≤ b.board.faSize .secondary →
        ∀ (st : BootState) (bs : BootStatus) (fl : Flash), bs.isReset b.board = true → bs.swapType.isUpgrade = true →
          wp (SwapMove.loops b st last bs) (fun _ fl' => ImagesExchanged copySize copySize 0 0 fl fl')
            (fun _ _ => False) (fun _ => True) fl)) ∧
    (b.board.mode = .offset → copySize ≤ SwapOffset.appMaxSize b.board → ∀ usedPri usedSec,
      let last := SwapOffset.findLastIdx b.board copySize
      last ≤ max usedPri usedSec →
      (SwapOffset.WholeSteps b.board last usedPri usedSec ↔ WholeSectors b.board S (last + 1) (last + 2)) ∧
      (WholeSectors b.board S (last + 1) (last + 2) →
        (last + 1) * S + scrambleSz b.board .primary ≤ b.board.faSize .primary →
        ∀ (bs : BootStatus) (fl : Flash) (sizePri sizeSec : Nat), bs.isReset b.board = true →
          sizePri ≤ copySize ∧ sizePri ≤ (usedPri + 1) * S → sizeSec ≤ copySize ∧ sizeSec ≤ (usedSec + 1) * S →
          wp (SwapOffset.swapSectors b last usedPri usedSec { bs with op := .swap })
            (fun _ fl' => ImagesExchanged sizePri sizeSec S 0 fl fl') (fun _ _ => False) (fun _ => True) fl ∧
          wp (SwapOffset.revertLoop b last usedPri usedSec { bs with op := .swap })
            (fun _ fl' => ImagesExchanged sizePri sizeSec 0 S fl fl') (fun _ _ => False) (fun _ => True) fl)) := by
  have sectorPos : 0 < S := by
    have := b.board.sectorSize_ge some
    omega
  constructor
  · intro mode le
    constructor
    · have small := SwapMove.findLastIdx_lt (sectorSize.symm ▸ sectorPos) pos le
      rw [SwapMove.wholeSteps_iff mode small (SwapMove.findLastIdx_pos _ _), sectorSize]
    · intro whole roomPri roomSec st bs fl reset upgrade
      exact SwapMove.loops_exchange mode sectorSize sectorPos whole roomPri roomSec st fl reset upgrade
  · intro mode _ usedPri usedSec
    dsimp only
    intro used
    constructor
    · rw [SwapOffset.wholeSteps_iff used, sectorSize]
    · intro whole room bs fl sizePri sizeSec reset priLe secLe
      exact ⟨SwapOffset.exchanges mode sectorSize sectorPos whole room fl reset priLe secLe
          (SwapOffset.swapSectors_writes b _ usedPri usedSec),
        SwapOffset.exchanges mode sectorSize sectorPos whole room fl reset priLe secLe
          (SwapOffset.revertLoop_writes b _ usedPri usedSec)⟩

theorem steps_exchange_whole_sectors_even :
    let b := SwapMove.demoLoader (fun _ => 0) (by decide)
    100 ≤ SwapMove.appMaxSize b.board ∧ SwapMove.findLastIdx b.board 100 = 2 ∧ SwapMove.WholeSteps b.board 2 ∧
      wp (SwapMove.loops b .clear 2 { bootStatusReset b.board with swapType := .test })
        (fun _ fl' => ImagesExchanged 100 100 0 0 (SwapMove.demoFlash b.board) fl') (fun _ _ => False) (fun _ => True)
        (SwapMove.demoFlash b.board) := by
  have le : 100 ≤ SwapMove.appMaxSize (SwapMove.demoLoader (fun _ => 0) (by decide)).board := by decide +kernel
  have last : SwapMove.findLastIdx (SwapMove.demoLoader (fun _ => 0) (by decide)).board 100 = 2 := by decide +kernel
  obtain ⟨iff, exchanges⟩ :=
    (steps_exchange_whole_sectors (SwapMove.demoLoader (fun _ => 0) (by decide)) 64 100 (by decide) rfl
      (by decide)).1 rfl le
  have whole : WholeSectors (SwapMove.demoLoader (fun _ => 0) (by decide)).board 64 3 2 :=
    ⟨by decide +kernel, by decide +kernel⟩
  exact ⟨le, last, iff.mpr whole, exchanges whole (by decide +kernel) (by decide +kernel) _ _ _ (by decide) rfl⟩

/-! ### Slots whose first sector is smaller than the others -/

def smallFirstLoader : LoaderBuild where
  board := .ofLayout .move 8 6 64 (fun _ => 0) (fun _ => [64, 128, 128, 128, 128, 128]) (by decide)
  validate := hashBuild
  validatePrimarySlot := true

def numberedFlash : Flash
  | .primary, i => if i < 150 then .ofNat i else erasedVal
  | .secondary, i => if i < 150 then .ofNat (i + 1) else erasedVal
  | .scratch, _ => erasedVal

/-- The first sectors are half as large as the others: the bytes of the images from 128 on are not exchanged. -/
theorem small_first_sector_loses_bytes :
    SwapMove.bootSlotsCompatible smallFirstLoader.board = true ∧ 150 ≤ SwapMove.appMaxSize smallFirstLoader.board ∧
      ¬SwapMove.WholeSteps smallFirstLoader.board (SwapMove.findLastIdx smallFirstLoader.board 150) ∧
      ¬ImagesExchanged 150 150 0 0 numberedFlash (SwapMove.swapRun smallFirstLoader .clear
          { bootStatusReset smallFirstLoader.board with swapType := .test } 150 numberedFlash).state := by
  refine ⟨by decide +kernel, by decide +kernel, ?_, fun exchanged => ?_⟩
  · have last : SwapMove.findLastIdx smallFirstLoader.board 150 = 3 := by decide +kernel
    rw [last, SwapMove.wholeSteps_iff rfl (by decide) (by decide)]
    intro whole
    exact absurd (whole.primary 1 (by decide)).2 (by decide)
  · exact absurd (exchanged.primary 128 (by decide)) (by decide +kernel)

end Adaboot
