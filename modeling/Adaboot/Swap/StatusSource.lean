import Adaboot.Swap.Chunks

/-!
# Image data and the source of the status

The status of a swap is in the trailer of the primary slot, or in that of scratch. For slots of one layout no step of
`boot_swap_sectors` copies image data over the trailer that is the source of the status.
-/

namespace Adaboot.SwapScratch

open Nor Crash

/-! ### Where the status is read -/

def sourceArea : StatusSource → Option Area
  | .none => none
  | .scratch => some .scratch
  | .primarySlot => some .primary

/-- In the state `fl` a write to `len` bytes from `off` on spares the trailer that the status is read from. -/
def SparesStatus (bd : Board) (dst : Area) (off len : Nat) (fl : Flash) : Prop :=
  ∀ source, swapStatusSource bd fl = some source → sourceArea source = some dst → off + len ≤ bootStatusOff bd dst

section Source

variable {bd : Board} {fl : Flash} {a : Area}

theorem last_written_of_good {state : BootSwapState} (read : bootReadSwapState bd fl a = some state)
    (good : state.magic = .good) : fl a (bd.faSize a - 1) ≠ erasedVal := by
  obtain ⟨magic, readMagic, read⟩ := Option.bind_eq_some_iff.mp read
  obtain ⟨info, -, read⟩ := Option.bind_eq_some_iff.mp read
  obtain ⟨copyDone, -, read⟩ := Option.bind_eq_some_iff.mp read
  obtain ⟨imageOk, -, read⟩ := Option.bind_eq_some_iff.mp read
  cases read
  obtain ⟨fits, magicEq⟩ := flashAreaRead_eq_some readMagic
  have magicEq : magic = fl.read a (bd.faSize a - 16) 16 := magicEq
  have fits : bd.faSize a - 16 + 16 ≤ bd.faSize a := fits
  have last := bootImgMagic_last bd
  rw [← magicOf_eq_good.mp good, magicEq, Flash.read_getD _ _ _ _ _ _ (by decide)] at last
  rwa [show bd.faSize a - 16 + 15 = bd.faSize a - 1 by omega] at last

theorem source_ne_scratch (blank : fl .scratch (bd.faSize .scratch - 1) = erasedVal) :
    swapStatusSource bd fl ≠ some .scratch := by
  intro source
  obtain ⟨primary, -, source⟩ := Option.bind_eq_some_iff.mp source
  obtain ⟨scratch, read, source⟩ := Option.bind_eq_some_iff.mp source
  have bad : scratch.magic ≠ .good := fun good => last_written_of_good read good blank
  simp only [bootStatusTables, List.find?_cons] at source
  simp only [bootMagicCompatibleCheck, bad.symm, decide_false, Bool.and_false, Bool.false_and] at source
  split at source
  · simp at source
  · split at source
    · simp at source
    · split at source <;> simp at source

end Source

/-! ### The copies of a step -/

section Steps

variable (b : LoaderBuild) (st : BootState) (imgOff sz copySz : Nat)

def prepareScratch (bs : BootStatus) : Boot Unit := do
  let bd := b.board
  assertOk (bootEraseRegion bd .scratch 0 (bd.faSize .scratch) false)
  if bs.idx = statusIdx0 then
    assertOk (swapStatusInit bd st .scratch bs)
    if ¬bs.useScratch then
      assertOk (swapScrambleTrailerSectors bd .primary)
      assertOk (swapStatusInit bd st .primary bs)
      assertOk (bootEraseRegion bd .scratch 0 (bd.faSize .scratch) false)

def prepareSecondary (bs : BootStatus) : Boot Unit := do
  let bd := b.board
  if bs.idx = statusIdx0 then assertOk (swapScrambleTrailerSectors bd .secondary)
  let eraseSz :=
    if bs.idx = statusIdx0 ∧ bs.useScratch then
      u32 (bd.sectorOff .secondary
        (bootGetFirstTrailerSector bd .secondary (bootTrailerSz bd bd.writeSz)) + 2 ^ 32 - imgOff)
    else sz
  if eraseSz > 0 then assertOk (bootEraseRegion bd .secondary imgOff eraseSz false)

def preparePrimary (bs : BootStatus) : Boot Unit := do
  let bd := b.board
  if bs.useScratch then assertOk (swapScrambleTrailerSectors bd .primary)
  let eraseSz :=
    if bs.useScratch then
      u32 (bd.sectorOff .primary
        (bootGetFirstTrailerSector bd .primary (bootTrailerSz bd bd.writeSz)) + 2 ^ 32 - imgOff)
    else sz
  if eraseSz > 0 then assertOk (bootEraseRegion bd .primary imgOff eraseSz false)

theorem swapSectors0_eq (bs : BootStatus) :
    swapSectors0 b st imgOff copySz bs = do
      prepareScratch b st bs
      assertOk (bootCopyRegion b.board .secondary .scratch imgOff 0 copySz)
      writeStatus b bs
      return { bs with state := statusState1 } := by
  unfold swapSectors0 prepareScratch
  simp only [Prog.bind_assoc, Prog.ite_bind, Prog.pure_bind]

theorem swapSectors1_prepare (bs : BootStatus) :
    swapSectors1 b imgOff sz copySz bs = do
      prepareSecondary b imgOff sz bs
      assertOk (bootCopyRegion b.board .primary .secondary imgOff imgOff copySz)
      writeStatus b bs
      return { bs with state := statusState2 } := by
  unfold swapSectors1 prepareSecondary
  simp only [Prog.bind_assoc, Prog.ite_bind, Prog.pure_bind]

theorem swapSectors2_prepare (bs : BootStatus) :
    swapSectors2 b imgOff sz copySz bs = do
      preparePrimary b imgOff sz bs
      assertOk (bootCopyRegion b.board .scratch .primary 0 imgOff copySz)
      if bs.useScratch then moveTrailer b imgOff copySz bs
      writeStatus b { bs with useScratch := false }
      if bs.useScratch then assertOk (bootScrambleRegion b.board .scratch 0 (b.board.faSize .scratch) true)
      return { bs with useScratch := false, idx := bs.idx + 1, state := statusState0 } := by
  unfold swapSectors2 preparePrimary
  simp only [Prog.bind_assoc, Prog.ite_bind, Prog.pure_bind]

/-- The first step of `boot_swap_sectors`, where it is to be made. -/
def upToScratch (bs : BootStatus) : Boot BootStatus :=
  if bs.state = statusState0 then swapSectors0 b st imgOff (chunkCopySz b.board imgOff sz) bs else pure bs

def upToSecondary (bs : BootStatus) : Boot BootStatus := do
  let bs ← upToScratch b st imgOff sz bs
  if bs.state = statusState1 then swapSectors1 b imgOff sz (chunkCopySz b.board imgOff sz) bs else pure bs

/-- The status with which `boot_swap_sectors` makes its steps. -/
def chunkStatus (bs : BootStatus) : BootStatus :=
  { bs with useScratch := bs.idx = statusIdx0 ∧ chunkCopySz b.board imgOff sz ≠ sz }

theorem bootSwapSectors_eq (idx : Nat) (bs : BootStatus) :
    bootSwapSectors b st idx sz bs = (do
      let imgOff := b.board.sectorOff .primary idx
      let bs ← upToSecondary b st imgOff sz (chunkStatus b imgOff sz bs)
      if bs.state = statusState2 then swapSectors2 b imgOff sz (chunkCopySz b.board imgOff sz) bs else pure bs) := by
  unfold upToSecondary upToScratch chunkStatus
  by_cases start : bs.state = statusState0
  · simp only [bootSwapSectors, start, if_true, Prog.bind_assoc, Prog.ite_bind, Prog.pure_bind]
  · simp only [bootSwapSectors, start, if_false, Prog.ite_bind, Prog.pure_bind]

end Steps

/-- From where to where image data is copied, and the flash in which the copy begins. A resumed chunk begins with the
step of its status. -/
inductive ImageCopy (b : LoaderBuild) (st : BootState) (imgOff sz : Nat) (bs : BootStatus) (fl : Flash) :
    Area → Area → Nat → Nat → Flash → Prop
  | toScratch : bs.state = statusState0 → (prepareScratch b st bs fl).value = .ok () →
      ImageCopy b st imgOff sz bs fl .secondary .scratch imgOff 0 (prepareScratch b st bs fl).state
  | toSecondary {bs' : BootStatus} {fl' : Flash} :
      (upToScratch b st imgOff sz bs fl).value = .ok bs' → (upToScratch b st imgOff sz bs fl).state = fl' →
      bs'.state = statusState1 → (prepareSecondary b imgOff sz bs' fl').value = .ok () →
      ImageCopy b st imgOff sz bs fl .primary .secondary imgOff imgOff (prepareSecondary b imgOff sz bs' fl').state
  | toPrimary {bs' : BootStatus} {fl' : Flash} :
      (upToSecondary b st imgOff sz bs fl).value = .ok bs' → (upToSecondary b st imgOff sz bs fl).state = fl' →
      bs'.state = statusState2 → (preparePrimary b imgOff sz bs' fl').value = .ok () →
      ImageCopy b st imgOff sz bs fl .scratch .primary 0 imgOff (preparePrimary b imgOff sz bs' fl').state

/-! ### Copies to erased scratch -/

section Copies

variable {bd : Board} {src dst : Area} {offSrc offDst sz : Nat}

/-- A copy goes up, so that the last byte of its area is still erased before each of its writes. -/
theorem copyLoop_last_blank (fits : offDst + sz ≤ bd.faSize dst) {fuel n : Nat} {fl : Flash} (le : n ≤ sz)
    (blank : n < sz → fl dst (bd.faSize dst - 1) = erasedVal) :
    wp (copyLoop bd src dst offSrc offDst sz fuel n) (fun _ _ => True) (fun _ _ => True)
      (fun t => t dst (bd.faSize dst - 1) = erasedVal) fl := by
  induction fuel generalizing n fl with
  | zero =>
    rw [copyLoop, wp_throw]
    trivial
  | succ fuel ih =>
    rw [copyLoop]
    split
    next more =>
      generalize size : (if sz - n > bd.bufSz then bd.bufSz else sz - n) = chunkSz
      have chunkLe : chunkSz ≤ sz - n := by
        rw [← size]
        split <;> omega
      rw [wp_bind, wp_get]
      cases read : flashAreaRead (bd.area fl src) (offSrc + n) chunkSz with
      | none =>
        simp only [wp_throw]
      | some buf =>
        obtain ⟨-, bufEq⟩ := flashAreaRead_eq_some read
        have length : buf.length = chunkSz := by simp [bufEq]
        simp only [wp_bind]
        rw [wp_flashAreaWrite (by omega)]
        refine ⟨blank more, ih (by omega) fun later => ?_⟩
        rw [Flash.program_outside _ fun _ => .inr (by omega)]
        exact blank more
    next =>
      rw [wp_pure]
      trivial

theorem wp_trivial {α : Type} (m : Boot α) (fl : Flash) :
    wp m (fun _ _ => True) (fun _ _ => True) (fun _ => True) fl := by
  refine ⟨fun _ _ => trivial, ?_⟩
  split <;> trivial

theorem wp_eraseArea (a : Area) (fl : Flash) : wp (assertOk (bootEraseRegion bd a 0 (bd.faSize a) false))
      (fun _ t => t a (bd.faSize a - 1) = erasedVal) (fun _ _ => True) (fun _ => True) fl := by
  by_cases empty : bd.numSectors a = 0
  · have size : bd.faSize a = 0 := by
      rw [← bd.sectorOff_numSectors, empty]
      exact sectorOff_zero _
    rw [assertOk, wp_handle, bootEraseRegion, if_pos (.inl (by omega)), wp_throw, wp_throw]
    trivial
  · have size : bd.faSize a = bd.sectorOff a (bd.numSectors a) := (bd.sectorOff_numSectors a).symm
    have zero : bd.sectorOff a 0 = 0 := sectorOff_zero _
    have some : 8 ≤ bd.faSize a := by
      have first : bd.sectorOff a 1 = bd.sectorOff a 0 + bd.sectorSize a 0 := bd.sectorOff_succ (by omega)
      have ge := bd.sectorSize_ge (show 0 < bd.numSectors a by omega)
      have le := bd.sectorOff_le_faSize a 1
      omega
    apply wp_assertOk
    have erased : (fl.erase a (bd.sectorOff a 0) (bd.sectorOff a (bd.numSectors a) - bd.sectorOff a 0)) a
        (bd.faSize a - 1) = erasedVal := Flash.erase_inside _ _ (by omega) (by omega)
    have whole : wp (bootEraseRegion bd a (bd.sectorOff a 0)
        (bd.sectorOff a (bd.numSectors a) - bd.sectorOff a 0) false)
        (fun _ t => t a (bd.faSize a - 1) = erasedVal) (fun _ _ => False) (fun _ => True) fl :=
      bootEraseRegion_wp (by omega) (Nat.le_refl _) erased fun _ _ _ => trivial
    rwa [zero, ← size, Nat.sub_zero] at whole

theorem prepareScratch_blank (b : LoaderBuild) (st : BootState) (bs : BootStatus)
    (elsewhere : bs.idx = statusIdx0 → bs.useScratch = false) (fl : Flash) :
    wp (prepareScratch b st bs) (fun _ t => t .scratch (b.board.faSize .scratch - 1) = erasedVal)
      (fun _ _ => True) (fun _ => True) fl := by
  unfold prepareScratch
  rw [wp_bind]
  by_cases first : bs.idx = statusIdx0
  · simp only [first, if_true, elsewhere first, not_false_iff, Bool.false_eq_true, wp_bind]
    have any {α : Type} (m : Boot α) {Q : α → Flash → Prop} (rest : ∀ a t, Q a t) (t : Flash) :
        wp m Q (fun _ _ => True) (fun _ => True) t :=
      wp_mono (wp_trivial m t) (fun a t _ => rest a t) (fun _ _ h => h) (fun _ h => h)
    refine any _ (fun _ t => any _ (fun _ t => any _ (fun _ t => any _ (fun _ t => ?_) t) t) t) fl
    exact wp_eraseArea .scratch t
  · simp only [first, if_false, wp_pure]
    exact wp_eraseArea .scratch fl

end Copies

/-! ### The sizes of the chunks -/

section Sizes

variable {bd : Board}

theorem bootTrailerSz_mono {w w' : Nat} (le : w ≤ w') : bootTrailerSz bd w ≤ bootTrailerSz bd w' := by
  apply Nat.add_le_add_right
  apply Nat.mul_le_mul_left
  unfold bootStatusEntrySz
  split
  · exact Nat.le_refl _
  · exact Nat.mul_le_mul_left _ le

theorem le_bootStatusOff_primary : bd.faSize .primary - bootTrailerSz bd bd.writeSz ≤ bootStatusOff bd .primary := by
  have le : bd.align .primary ≤ bd.writeSz := by
    unfold Board.writeSz
    split <;> omega
  have trailer : bootTrailerSzOf bd .primary = bootTrailerSz bd (bd.align .primary) := if_neg (by simp)
  have := @bootTrailerSz_mono bd _ _ le
  rw [bootStatusOff, trailer]
  omega

variable {slot : Area} {trailerSz imgOff sz : Nat}

theorem firstTrailerSectorLoop_le (room : trailerSz ≤ bd.faSize slot)
    {sector size : Nat}
    (lt : sector < bd.numSectors slot) (rest : bd.sectorOff slot sector + size = bd.faSize slot) :
    bd.sectorOff slot (firstTrailerSectorLoop bd slot trailerSz sector size) + trailerSz ≤ bd.faSize slot := by
  induction sector generalizing size with
  | zero =>
    have zero : bd.sectorOff slot 0 = 0 := sectorOff_zero _
    rw [firstTrailerSectorLoop, zero]
    omega
  | succ sector ih =>
    have next := bd.sectorOff_succ (show sector < bd.numSectors slot by omega)
    rw [firstTrailerSectorLoop]
    split
    next short => exact ih (by omega) (by omega)
    next => omega

theorem bootGetFirstTrailerSector_le (room : trailerSz ≤ bd.faSize slot)
    (some : 0 < bd.numSectors slot) :
    bd.sectorOff slot (bootGetFirstTrailerSector bd slot trailerSz) + trailerSz ≤ bd.faSize slot := by
  have last := bd.sectorOff_succ (show bd.numSectors slot - 1 < bd.numSectors slot by omega)
  rw [show bd.numSectors slot - 1 + 1 = bd.numSectors slot by omega, bd.sectorOff_numSectors] at last
  exact firstTrailerSectorLoop_le room (by omega) last.symm

theorem chunkCopySz_end (room : imgOff + bootTrailerSz bd bd.writeSz ≤ bd.faSize .primary)
    (some : 0 < bd.numSectors .primary) :
    imgOff + chunkCopySz bd imgOff sz ≤ bd.faSize .primary - bootTrailerSz bd bd.writeSz := by
  have first := bootGetFirstTrailerSector_le (show bootTrailerSz bd bd.writeSz ≤ bd.faSize .primary by omega) some
  have lt : bd.faSize .primary < 2 ^ 32 := bd.size_lt .primary
  have wraps : u32 (bd.faSize .primary + 2 ^ 33 - imgOff - bootTrailerSz bd bd.writeSz) =
      bd.faSize .primary - imgOff - bootTrailerSz bd bd.writeSz := by
    unfold u32
    omega
  unfold chunkCopySz
  simp only [wraps]
  split
  · split <;> omega
  · omega

/-- The copy fits scratch, and leaves its trailer free where it is not the whole chunk. -/
theorem chunkCopySz_scratch (fits : sz ≤ bd.faSize .scratch) :
    chunkCopySz bd imgOff sz ≤ bd.faSize .scratch ∧
      (chunkCopySz bd imgOff sz ≠ sz → chunkCopySz bd imgOff sz ≤ bootStatusOff bd .scratch) := by
  have within : bootStatusOff bd .scratch ≤ bd.faSize .scratch := Nat.sub_le _ _
  unfold chunkCopySz
  simp only
  split
  · split
    · exact ⟨within, fun _ => Nat.le_refl _⟩
    · exact ⟨by omega, fun _ => by omega⟩
  · exact ⟨fits, fun differs => absurd rfl differs⟩

end Sizes

/-! ### Slots of one layout -/

section Identical

variable {bd : Board}

theorem slotScanLoop_identical (mode : bd.mode = .scratch) (same : bd.layout .secondary = bd.layout .primary)
    {fuel : Nat} {s s' : SlotScan} (scan : slotScanLoop bd fuel s = some s') (even : s.j = s.i) (zero0 : s.sz0 = 0)
    (zero1 : s.sz1 = 0) (sum : s.slotSz = bd.sectorOff .primary s.i) (le : s.i ≤ bd.numSectors .primary) :
    s'.slotSz ≤ bd.faSize .primary ∧
      ∀ k, s.i ≤ k → k < bd.numSectors .primary → bd.sectorSize .primary k ≤ bd.faSize .scratch := by
  have sizes (k : Nat) : bd.sectorSize .secondary k = bd.sectorSize .primary k := by
    simp only [Board.sectorSize, same]
  have count : bd.numSectors .secondary = bd.numSectors .primary := by
    simp only [Board.numSectors, same]
  have notOverwrite : bd.mode.isOverwrite = false := by
    rw [mode]
    rfl
  induction fuel generalizing s with
  | zero => simp [slotScanLoop] at scan
  | succ fuel ih =>
    rw [slotScanLoop, even, count] at scan
    split at scan
    next more =>
      have lt : s.i < bd.numSectors .primary := by omega
      have next := bd.sectorOff_succ lt
      obtain ⟨t, step, rest⟩ := Option.bind_eq_some_iff.mp scan
      simp only [SlotScan.step, zero0, zero1, if_true, sizes, even, Option.bind_some, notOverwrite,
        Bool.false_eq_true, not_false_iff, true_and, Nat.zero_add, or_self] at step
      split at step
      next => simp at step
      next fits =>
        cases step
        obtain ⟨small, all⟩ := ih rest rfl rfl rfl (by simp only; omega) lt
        refine ⟨small, fun k ge below => ?_⟩
        rcases Nat.eq_or_lt_of_le ge with rfl | later
        · omega
        · exact all k later below
    next done =>
      cases scan
      refine ⟨?_, fun k ge below => absurd below (by omega)⟩
      rw [sum]
      exact bd.sectorOff_le_faSize _ _

/-- An image of the maximum size leaves room for the trailer, and every sector fits scratch. -/
theorem appMaxSize_room (mode : bd.mode = .scratch) (same : bd.layout .secondary = bd.layout .primary)
    (some : 0 < appMaxSize bd) : appMaxSize bd + bootTrailerSz bd bd.writeSz ≤ bd.faSize .primary ∧
      ∀ k, k < bd.numSectors .primary → bd.sectorSize .primary k ≤ bd.faSize .scratch := by
  have notOverwrite : bd.mode.isOverwrite = false := by
    rw [mode]
    rfl
  have zero : bd.sectorOff .primary 0 = 0 := sectorOff_zero _
  unfold appMaxSize at some ⊢
  cases scan : slotScan bd with
  | none => simp [scan] at some
  | some s =>
    simp only [scan, notOverwrite, Bool.false_eq_true, if_false] at some ⊢
    obtain ⟨small, fits⟩ := slotScanLoop_identical mode same scan rfl rfl rfl zero.symm (Nat.zero_le _)
    refine ⟨?_, fun k lt => fits k (Nat.zero_le k) lt⟩
    unfold appMaxSizeAdjustToTrailer at some ⊢
    simp only at some ⊢
    omega

/-- Where all sectors fit scratch every chunk is made of sectors in front of its end, and fits it too. -/
theorem mem_chunksLoop (fits : ∀ k, k < bd.numSectors .primary → bd.sectorSize .primary k ≤ bd.faSize .scratch)
    {fuel n : Nat} (le : n ≤ bd.numSectors .primary) {chunk : Nat × Nat} (mem : chunk ∈ chunksLoop bd fuel n) :
    0 < n ∧ bd.sectorOff .primary chunk.1 ≤ bd.sectorOff .primary (n - 1) ∧ chunk.2 ≤ bd.faSize .scratch := by
  induction fuel generalizing n with
  | zero => simp [chunksLoop] at mem
  | succ fuel ih =>
    cases n with
    | zero => simp [chunksLoop] at mem
    | succ last =>
      obtain ⟨-, sum, start⟩ := bootCopySz_spec le
      have next := bd.sectorOff_succ le
      have lastFits := fits last le
      have high := start.fits
      have lower : bd.sectorOff .primary (bootCopySz bd last).2 ≤ bd.sectorOff .primary last :=
        start.lowest _ (boundary_sectorOff (Nat.le_of_lt le)) (show _ ≤ bd.sectorOff .primary last + _ by omega)
      have mem : chunk ∈ ((bootCopySz bd last).2, (bootCopySz bd last).1) ::
          chunksLoop bd fuel (bootCopySz bd last).2 := mem
      refine ⟨Nat.succ_pos _, ?_⟩
      rcases List.mem_cons.mp mem with rfl | mem
      · exact ⟨lower, by simp only; omega⟩
      · have before : (bootCopySz bd last).2 ≤ last := by
          apply Nat.le_of_not_lt
          intro behind
          have size := sectorSize_pos (bd.sector_pos .primary) le
          have above := bd.sectorOff_mono .primary (show last + 1 ≤ (bootCopySz bd last).2 from behind)
          have : bd.sectorSize .primary last = sectorSize (bd.layout .primary) last := rfl
          omega
        obtain ⟨-, starts, small⟩ := ih (by omega) mem
        have := bd.sectorOff_mono .primary (show (bootCopySz bd last).2 - 1 ≤ last by omega)
        exact ⟨by simp only [Nat.add_sub_cancel]; omega, small⟩

/-- Where the chunks of a swap of a permitted size begin, and how large they are. -/
theorem chunk_room (mode : bd.mode = .scratch) (same : bd.layout .secondary = bd.layout .primary) {copySize : Nat}
    (le : copySize ≤ appMaxSize bd) {idx sz : Nat}
    (mem : (idx, sz) ∈ chunksLoop bd (sectorsToSwap bd copySize + 1) (sectorsToSwap bd copySize)) :
    0 < bd.numSectors .primary ∧ bd.sectorOff .primary idx + bootTrailerSz bd bd.writeSz ≤ bd.faSize .primary ∧
      sz ≤ bd.faSize .scratch := by
  have shared (x : Nat) : CommonBoundary (bd.layout .primary) (bd.layout .secondary) x ↔ Boundary (bd.layout .primary) x := by
    rw [CommonBoundary, same, and_self_iff]
  rcases Nat.eq_zero_or_pos (appMaxSize bd) with none | some
  · -- there is nothing to swap
    have ends : EndsAt (bd.layout .primary) (bd.layout .secondary) copySize 0 := by
      refine ⟨Nat.zero_le _, (shared _).mpr (boundary_sectorOff (Nat.zero_le _)), by omega, fun x _ _ => ?_⟩
      exact Nat.zero_le x
    rw [sectorsToSwap_eq ends] at mem
    simp [chunksLoop] at mem
  · obtain ⟨room, fits⟩ := appMaxSize_room mode same some
    have whole : CommonBoundary (bd.layout .primary) (bd.layout .secondary) (bd.faSize .primary) :=
      (shared _).mpr (boundary_sum _)
    obtain ⟨n, returns⟩ := Walking.exists_returns whole (show copySize ≤ _ by omega) _ (walking_start _ _ _)
    have ends := (lastReturns_iff (bd.sector_pos .primary)).mp returns
    rw [sectorsToSwap_eq ends] at mem
    obtain ⟨positive, starts, small⟩ := mem_chunksLoop fits ends.le mem
    have starts : bd.sectorOff .primary idx ≤ bd.sectorOff .primary (n - 1) := starts
    have below : bd.sectorOff .primary (n - 1) < copySize := by
      apply Nat.lt_of_not_le
      intro covered
      have first := ends.first _ ((shared _).mpr (boundary_sectorOff (i := n - 1) (by have := ends.le; omega))) covered
      have := sectorOff_lt (bd.sector_pos .primary) (show n - 1 < n by omega) ends.le
      omega
    exact ⟨Nat.lt_of_lt_of_le positive ends.le, by omega, small⟩

end Identical

/-- Whatever the status and flash hold, no copy of image data writes over the trailer that the status is read from. -/
theorem image_copies_spare_status (b : LoaderBuild) (st : BootState) (mode : b.board.mode = .scratch)
    (same : b.board.layout .secondary = b.board.layout .primary) (copySize : Nat) (le : copySize ≤ appMaxSize b.board)
    (idx sz : Nat)
    (chunk : (idx, sz) ∈ chunksLoop b.board (sectorsToSwap b.board copySize + 1) (sectorsToSwap b.board copySize))
    (bs : BootStatus) (fl : Flash) (src dst : Area) (offSrc offDst : Nat) (fl' : Flash)
    (copies : ImageCopy b st (b.board.sectorOff .primary idx) sz
      (chunkStatus b (b.board.sectorOff .primary idx) sz bs) fl src dst offSrc offDst fl') :
    wp (bootCopyRegion b.board src dst offSrc offDst (chunkCopySz b.board (b.board.sectorOff .primary idx) sz))
      (fun _ _ => True) (fun _ _ => True)
      (SparesStatus b.board dst offDst (chunkCopySz b.board (b.board.sectorOff .primary idx) sz)) fl' := by
  obtain ⟨some, room, fits⟩ := chunk_room mode same le chunk
  obtain ⟨within, free⟩ := @chunkCopySz_scratch b.board (b.board.sectorOff .primary idx) sz fits
  have always {dst : Area} {off len : Nat} {m : Boot Unit} {fl : Flash}
      (spares : ∀ t, SparesStatus b.board dst off len t) :
      wp m (fun _ _ => True) (fun _ _ => True) (SparesStatus b.board dst off len) fl :=
    wp_mono (wp_trivial m fl) (fun _ _ h => h) (fun _ _ h => h) (fun t _ => spares t)
  cases copies with
  | toScratch start returns =>
    by_cases use : bs.idx = statusIdx0 ∧ chunkCopySz b.board (b.board.sectorOff .primary idx) sz ≠ sz
    · -- the status is in scratch, and the copy ends in front of it
      exact always fun t source _ area => by
        omega
    · -- scratch has just been erased; its magic comes with the last byte of the copy
      have elsewhere : (chunkStatus b (b.board.sectorOff .primary idx) sz bs).idx = statusIdx0 →
          (chunkStatus b (b.board.sectorOff .primary idx) sz bs).useScratch = false := by
        intro _
        exact decide_eq_false use
      have blank := wp_post (prepareScratch_blank b st _ elsewhere fl) returns
      refine wp_mono (copyLoop_last_blank (by omega) (Nat.zero_le _) fun _ => blank) (fun _ _ h => h) (fun _ _ h => h) ?_
      intro t blank source read area
      obtain rfl : source = .scratch := by
        cases source with
        | none => simp [sourceArea] at area
        | scratch => rfl
        | primarySlot => simp [sourceArea] at area
      exact absurd read (source_ne_scratch blank)
  | toSecondary =>
    -- no status is read from the secondary slot
    exact always fun t source _ area => by
      cases source <;> simp [sourceArea] at area
  | toPrimary =>
    exact always fun t source _ area => by
      have ends := @chunkCopySz_end b.board _ sz room some
      have := @le_bootStatusOff_primary b.board
      omega

def evenLoader : LoaderBuild where
  board := .ofLayout .scratch 8 4 64 (fun _ => 0) (fun _ => List.replicate 4 128) Board.fourSectors_fits
  validate := hashBuild
  validatePrimarySlot := true

/-- The first step of a swap of images of the maximum size, whose only chunk holds the trailer. -/
theorem image_copies_spare_status_even :
    appMaxSize evenLoader.board = 452 ∧ chunkCopySz evenLoader.board (evenLoader.board.sectorOff .primary 0) 512 = 452 ∧
      wp (bootCopyRegion evenLoader.board .secondary .scratch (evenLoader.board.sectorOff .primary 0) 0
          (chunkCopySz evenLoader.board (evenLoader.board.sectorOff .primary 0) 512))
        (fun _ _ => True) (fun _ _ => True) (SparesStatus evenLoader.board .scratch 0
          (chunkCopySz evenLoader.board (evenLoader.board.sectorOff .primary 0) 512)) (prepareScratch evenLoader .clear
          (chunkStatus evenLoader (evenLoader.board.sectorOff .primary 0) 512 (bootStatusReset evenLoader.board))
          fun _ _ => erasedVal).state := by
  have returns : (prepareScratch evenLoader .clear
      (chunkStatus evenLoader (evenLoader.board.sectorOff .primary 0) 512 (bootStatusReset evenLoader.board))
      fun _ _ => erasedVal).value = .ok () := by
    decide +kernel
  exact ⟨by decide, by decide, image_copies_spare_status evenLoader .clear rfl rfl 452 (by decide) 0 512 (by decide)
    (bootStatusReset evenLoader.board) (fun _ _ => erasedVal) .secondary .scratch _ 0 _ (.toScratch rfl returns)⟩

end Adaboot.SwapScratch
