import Adaboot.Swap.Record

/-!
# The steps of a swap

A swap as a sequence of copies between sectors, each logged by a status byte. A step that is cut leaves only the
sector it was writing undefined.
-/

namespace Adaboot

open Nor Crash

abbrev Cell : Type := Area × Nat

def cells (S : Nat) (fl : Flash) (c : Cell) : Bytes := fl.read c.1 (c.2 * S) S

/-- The sectors that a swap works on: those below `n` in the primary and below `m` in the secondary
slot. -/
def InSectors (n m : Nat) (c : Cell) : Prop := c.1 = .primary ∧ c.2 < n ∨ c.1 = .secondary ∧ c.2 < m

section Cells

variable {S n m : Nat} {fl fl' : Flash} {c : Cell} {a a' : Area} {i j off : Nat} {v : ValidateBuild}

theorem cells_congr (same : Flash.EqOn a (i * S) ((i + 1) * S) fl fl') :
    cells S fl' (a, i) = cells S fl (a, i) :=
  same.read le_rfl (by rw [Nat.succ_mul])

theorem cells_of_ne (out : Flash.EqOutside a (j * S) ((j + 1) * S) fl fl') (ne : c ≠ (a, j)) :
    cells S fl' c = cells S fl c := by
  obtain ⟨b, i⟩ := c
  refine cells_congr (out.eqOn ?_)
  rintro rfl
  rcases Nat.lt_or_gt_of_ne (fun eq : i = j => ne (by rw [eq])) with lt | lt
  · exact .inl (Nat.mul_le_mul_right S lt)
  · exact .inr (Nat.mul_le_mul_right S lt)

theorem SameSectors.cells (same : SameSectors S n m fl fl') (inside : InSectors n m c) :
    cells S fl' c = cells S fl c := by
  obtain ⟨a, i⟩ := c
  apply cells_congr
  rcases inside with ⟨rfl, lt⟩ | ⟨rfl, lt⟩
  · have := Nat.mul_le_mul_right S (show i + 1 ≤ n from lt)
    exact fun j lo hi => same.primary j (Nat.zero_le _) (by omega)
  · have := Nat.mul_le_mul_right S (show i + 1 ≤ m from lt)
    exact fun j lo hi => same.secondary j (Nat.zero_le _) (by omega)

theorem cells_byte {i' : Nat} (same : cells S fl' (a', i') = cells S fl (a, i))
    (lt : j < S) : fl' a' (i' * S + j) = fl a (i * S + j) := by
  have left := Flash.read_getD fl' a' (i' * S) S j 0 lt
  have right := Flash.read_getD fl a (i * S) S j 0 lt
  rw [← left, ← right]
  exact congrArg (·.getD j 0) same

variable {img : Image v}

theorem Holds.of_cells {off' : Nat}
    (held : Holds fl a off img) (o o' : Nat) {n : Nat} (off_eq : off = o * S) (off_eq' : off' = o' * S)
    (le : img.size ≤ n * S) (same : ∀ i, i < n → cells S fl' (a', o' + i) = cells S fl (a, o + i)) :
    Holds fl' a' off' img := by
  intro j lt
  have pos : 0 < S := by
    apply Nat.pos_of_ne_zero
    rintro rfl
    omega
  have sector : j / S < n := (Nat.div_lt_iff_lt_mul pos).mpr (by omega)
  have split := Nat.div_add_mod j S
  have inside := Nat.mod_lt j pos
  have byte := cells_byte (same _ sector) inside
  have at' : off' + j = (o' + j / S) * S + j % S := by
    rw [Nat.add_mul, Nat.mul_comm (j / S)]
    omega
  have at_ : off + j = (o + j / S) * S + j % S := by
    rw [Nat.add_mul, Nat.mul_comm (j / S)]
    omega
  rw [at', byte, ← at_]
  exact held j lt

theorem Holds.magic_of_cells (held : Holds fl a off img) (o : Nat) (off_eq : off = o * S) (ge : 8 ≤ S)
    (same : cells S fl' (a', i) = cells S fl (a, o)) :
    (ImageHeader.decode (fl'.read a' (i * S) imageHeaderSize)).ihMagic = imageMagic := by
  have byte : ∀ j, j < 4 → (fl'.read a' (i * S) imageHeaderSize).getD j 0 = img.bytes.getD j 0 := by
    intro j lt
    have inside : j < imageHeaderSize := lt.trans_le (by decide)
    rw [Flash.read_getD _ _ _ _ _ _ inside, cells_byte same (by omega), ← off_eq]
    exact held j (inside.trans_le img.header_le)
  rw [← img.magic]
  simp only [ImageHeader.decode, le32, le16]
  rw [byte 0 (by omega), byte 1 (by omega), byte 2 (by omega), byte 3 (by omega)]

theorem Holds.header_of_cells
    (held : Holds fl a off img) (o : Nat) (off_eq : off = o * S) (wide : imageHeaderSize ≤ S)
    (same : cells S fl' (a', i) = cells S fl (a, o)) :
    ImageHeader.decode (fl'.read a' (i * S) imageHeaderSize) = img.hdr := by
  refine ImageHeader.decode_congr fun j lt => ?_
  rw [Flash.read_getD _ _ _ _ _ _ lt, cells_byte same (by omega), ← off_eq]
  exact held j (lt.trans_le img.header_le)

end Cells

section Steps

variable {bd : Board} {S n m : Nat} {fl fl' : Flash} {Q : Unit → Flash → Prop}
  {E : BootErr → Flash → Prop} {C : Flash → Prop}

/-- Sector `i` of an area, where the sectors below it have its size. -/
structure SectorAt (bd : Board) (S : Nat) (a : Area) (i : Nat) : Prop where
  lt : i < bd.numSectors a
  size : bd.sectorSize a i = S
  off : bd.sectorOff a i = i * S

variable {a : Area} {i : Nat}

theorem SectorAt.le_faSize (sector : SectorAt bd S a i) : (i + 1) * S ≤ bd.faSize a := by
  have next := bd.sectorOff_succ sector.lt
  rw [sector.off, sector.size, ← Nat.succ_mul] at next
  exact next ▸ bd.sectorOff_le_faSize a (i + 1)

theorem EvenSlots.sectorAt (slots : EvenSlots bd S) (slot : a ≠ .scratch)
    (lt : i < bd.numSectors a) : SectorAt bd S a i :=
  ⟨lt, slots.sectorSize_eq slot lt, slots.sectorOff_eq slot lt.le⟩

theorem wp_replaceSector {src dst : Area} {j : Nat} (srcAt : SectorAt bd S src i) (dstAt : SectorAt bd S dst j)
    (ne : (src, i) ≠ (dst, j)) (cuts : ∀ fl', Flash.EqOutside dst (j * S) ((j + 1) * S) fl fl' → C fl')
    (post : ∀ fl', Flash.EqOutside dst (j * S) ((j + 1) * S) fl fl' →
      cells S fl' (dst, j) = cells S fl (src, i) → Q () fl') :
    wp (replaceSector bd src dst (bd.sectorOff src i) (bd.sectorOff dst j) S) Q E C fl := by
  have srcEnd := srcAt.le_faSize
  have dstEnd := dstAt.le_faSize
  have next : (i + 1) * S = i * S + S := Nat.succ_mul ..
  have next' : (j + 1) * S = j * S + S := Nat.succ_mul ..
  have apart : src = dst → i * S + S ≤ j * S ∨ j * S + S ≤ i * S := by
    rintro rfl
    rcases Nat.lt_or_gt_of_ne (fun eq : i = j => ne (by rw [eq])) with lt | lt
    · have := Nat.mul_le_mul_right S (show i + 1 ≤ j from lt)
      omega
    · have := Nat.mul_le_mul_right S (show j + 1 ≤ i from lt)
      omega
  have erased := Flash.eqOutside_erase fl dst (j * S) S
  unfold replaceSector
  rw [wp_bind]
  refine wp_assertOk ?_
  rw [← dstAt.size]
  refine bootEraseSector_wp dstAt.lt (cuts fl (.refl _ _ _ _)) ?_
  rw [dstAt.size, srcAt.off, dstAt.off]
  refine wp_assertOk (bootCopyRegion_wp (by omega) (by omega) apart ?_ ?_)
  · intro fl' copied
    refine post fl' ?_ ?_
    · rw [next']
      exact erased.trans copied.outside
    · refine Flash.read_congr fun l lt => ?_
      rw [copied.copied l lt (Flash.erase_inside _ _ (by omega) (by omega))]
      refine Flash.erase_outside _ fun eq => ?_
      have := apart eq
      omega
  · intro fl' out
    apply cuts
    rw [next']
    exact erased.trans out

/-- A sequence of copies between sectors below the trailers, with the status entry that logs each of them, in order. -/
structure Plan (bd : Board) (S : Nat) where
  slots : UniformSlots bd S
  n : Nat
  m : Nat
  roomPri : n * S + scrambleSz bd .primary ≤ bd.faSize .primary
  roomSec : m * S + scrambleSz bd .secondary ≤ bd.faSize .secondary
  length : Nat
  copy : Nat → Copy Cell
  src_in : ∀ k, k < length → InSectors n m (copy k).src
  dst_in : ∀ k, k < length → InSectors n m (copy k).dst
  ne : ∀ k, k < length → (copy k).src ≠ (copy k).dst
  entry : Nat → Nat
  entry_lt : ∀ k, k < length → entry k < bootStatusEntries bd .primary
  entry_mono : ∀ k, entry k < entry (k + 1)

namespace Plan

variable (plan : Plan bd S)

/-- The index that `swap_read_status_bytes` finds after `k` steps. -/
def found : Nat → Nat
  | 0 => 0
  | k + 1 => plan.entry k + 1

theorem found_le (k : Nat) : plan.found k ≤ plan.entry k := by
  cases k with
  | zero => exact Nat.zero_le _
  | succ k => exact plan.entry_mono k

/-- The swap is recorded, `k` steps are logged and step `k` may have been cut. -/
structure Progress (rec : SwapRecord) (init : Cell → Option Bytes) (k : Nat) (fl : Flash) : Prop where
  le : k ≤ plan.length
  recorded : Recorded bd rec (plan.found k) fl
  midway : Midway plan.copy plan.length init k (cells S fl)

variable {plan} {rec : SwapRecord} {init : Cell → Option Bytes} {k : Nat}
  {c : Cell} {b : LoaderBuild} {internalOff : BootStatus → Nat} {bs : BootStatus}

theorem inSectors_lt (plan : Plan bd S) (inside : InSectors plan.n plan.m c) :
    c.1 ≠ .scratch ∧ c.2 < bd.numSectors c.1 ∧ (c.2 + 1) * S + scrambleSz bd c.1 ≤ bd.faSize c.1 := by
  have roomPri := plan.roomPri
  have roomSec := plan.roomSec
  have below : ∀ {a : Area} {i l : Nat}, a ≠ .scratch → i < l →
      l * S + scrambleSz bd a ≤ bd.faSize a → i < bd.numSectors a ∧
        (i + 1) * S + scrambleSz bd a ≤ bd.faSize a := by
    intro a i l slot lt room
    have mul := Nat.mul_le_mul_right S (show i + 1 ≤ l from lt)
    refine ⟨?_, by omega⟩
    rw [plan.slots.even.faSize_eq slot] at room
    refine lt.trans_le (Nat.le_of_mul_le_mul_right (c := S) (by omega) ?_)
    exact Nat.lt_of_lt_of_le (by decide) (plan.slots.even.size_ge slot (by rw [plan.slots.even.faSize_eq slot]; omega))
  obtain ⟨a, i⟩ := c
  rcases inside with ⟨rfl, lt⟩ | ⟨rfl, lt⟩
  · exact ⟨by simp, below (by simp) lt roomPri⟩
  · exact ⟨by simp, below (by simp) lt roomSec⟩

theorem recorded_congr (plan : Plan bd S) {k : Nat} (inside : InSectors plan.n plan.m c)
    (recorded : Recorded bd rec k fl)
    (same : Flash.EqOutside c.1 (c.2 * S) ((c.2 + 1) * S) fl fl') : Recorded bd rec k fl' := by
  obtain ⟨-, -, room⟩ := plan.inSectors_lt inside
  have roomPri := plan.roomPri
  have roomSec := plan.roomSec
  have info := infoSz_le_scrambleSz bd .primary
  have info' := infoSz_le_scrambleSz bd .secondary
  have above : ∀ {a : Area} {lo hi : Nat}, bd.faSize a - scrambleSz bd a ≤ lo →
      Flash.EqOn a lo hi fl fl' := by
    intro a lo hi ge
    exact same.eqOn fun eq => .inr (by subst eq; omega)
  have secondary : swapState bd fl' .secondary = swapState bd fl .secondary :=
    swapState_congr (by omega) (above (by omega))
  exact ⟨recorded.marked.congr (by omega) (above (by omega)),
    recorded.status.congr plan.slots.keeps (by omega) (above le_rfl),
    secondary ▸ recorded.secondary, secondary ▸ recorded.unset⟩

theorem sameSectors_of_fields (plan : Plan bd S)
    (out : Flash.EqOutside .primary (bd.faSize .primary - bootTrailerInfoSz bd) (bd.faSize .primary)
      fl fl') : SameSectors S plan.n plan.m fl fl' := by
  have room := plan.roomPri
  have info := infoSz_le_scrambleSz bd .primary
  have wide : Flash.EqOutside .primary (plan.n * S) (bd.faSize .primary) fl fl' := out.mono (by omega) le_rfl
  exact .ofPrimary wide

theorem Progress.mono {init' : Cell → Option Bytes}
    (fewer : ∀ c d, init' c = some d → init c = some d) (progress : plan.Progress rec init k fl) :
    plan.Progress rec init' k fl :=
  ⟨progress.le, progress.recorded, progress.midway.mono fewer⟩

theorem Progress.mark (tracked : ∀ c, init c ≠ none → InSectors plan.n plan.m c)
    (progress : plan.Progress rec init k fl)
    (out : Flash.EqOutside .primary (bd.faSize .primary - bootTrailerInfoSz bd) (bd.faSize .primary)
      fl fl') (marked : Marked bd rec fl') : plan.Progress rec init k fl' := by
  have roomPri := plan.roomPri
  have roomSec := plan.roomSec
  have info := infoSz_le_scrambleSz bd .secondary
  have secondary : swapState bd fl' .secondary = swapState bd fl .secondary :=
    swapState_congr (by omega) (out.eqOn fun eq => by simp at eq)
  refine ⟨progress.le, ⟨marked, ?_, secondary ▸ progress.recorded.secondary,
    secondary ▸ progress.recorded.unset⟩, progress.midway.congr fun c _ known => ?_⟩
  · exact progress.recorded.status.congr plan.slots.keeps (by omega) (out.eqOn fun _ => .inl le_rfl)
  · exact (plan.sameSectors_of_fields out).cells (after_inside tracked plan.dst_in progress.le known)

/-- The status byte of a step is written, whether the step copied a sector or left it out. -/
theorem wp_logStep (plan : Plan b.board S)
    (tracked : ∀ c, init c ≠ none → InSectors plan.n plan.m c)
    (lt : k < plan.length) (progress : plan.Progress rec init k fl)
    (done : Midway plan.copy plan.length init (k + 1) (cells S fl))
    (off : internalOff bs = plan.entry k * b.board.writeSz) (state : UInt8.ofNat bs.state ≠ erasedVal)
    (cut : C fl) (post : ∀ fl', plan.Progress rec init (k + 1) fl' → Q () fl') :
    wp (statusAssert b (bootWriteStatus b.board internalOff bs)) Q E C fl := by
  have roomPri := plan.roomPri
  have roomSec := plan.roomSec
  have info := infoSz_le_scrambleSz b.board .secondary
  have entry := plan.entry_lt k lt
  have fits : scrambleSz b.board .primary ≤ b.board.faSize .primary := by omega
  obtain ⟨top, bottom⟩ := plan.slots.keeps.statusAt_entries fits
  have below := plan.slots.keeps.statusAt_lt entry
  have above := statusAt_mono b.board (Nat.zero_le (plan.entry k))
  have out := Flash.eqOutside_program fl .primary (statusAt b.board (plan.entry k)) [UInt8.ofNat bs.state]
  rw [List.length_singleton] at out
  refine wp_statusAssert ((wp_bootWriteStatus plan.slots.keeps fits off entry).mpr ⟨cut, post _ ?_⟩)
  have sectors : SameSectors S plan.n plan.m fl (fl.program .primary
      (statusAt b.board (plan.entry k)) [UInt8.ofNat bs.state]) := by
    have wide : Flash.EqOutside .primary (plan.n * S) (b.board.faSize .primary) fl _ := out.mono (by omega) (by omega)
    exact .ofPrimary wide
  have secondary : swapState b.board (fl.program .primary (statusAt b.board (plan.entry k))
      [UInt8.ofNat bs.state]) .secondary = swapState b.board fl .secondary :=
    swapState_congr (by omega) (out.eqOn fun eq => by simp at eq)
  refine ⟨lt, ⟨?_, progress.recorded.status.write plan.slots.keeps (plan.found_le k) entry state,
    secondary ▸ progress.recorded.secondary, secondary ▸ progress.recorded.unset⟩, ?_⟩
  · exact progress.recorded.marked.congr (by omega) (out.eqOn fun _ => .inr (by omega))
  · refine done.congr fun c _ known => sectors.cells ?_
    exact after_inside tracked plan.dst_in lt known

theorem wp_step (plan : Plan b.board S) {src dst : Area} {i j : Nat}
    (tracked : ∀ c, init c ≠ none → InSectors plan.n plan.m c)
    (lt : k < plan.length) (copy : plan.copy k = ⟨(src, i), (dst, j)⟩)
    (progress : plan.Progress rec init k fl)
    (off : internalOff bs = plan.entry k * b.board.writeSz)
    (state : UInt8.ofNat bs.state ≠ erasedVal)
    (cuts : ∀ fl', plan.Progress rec init k fl' → C fl')
    (post : ∀ fl', plan.Progress rec init (k + 1) fl' → Q () fl') :
    wp (do
      replaceSector b.board src dst (b.board.sectorOff src i) (b.board.sectorOff dst j) S
      statusAssert b (bootWriteStatus b.board internalOff bs)) Q E C fl := by
  have srcIn := plan.src_in k lt
  have dstIn := plan.dst_in k lt
  have ne := plan.ne k lt
  have srcCell : (plan.copy k).src = (src, i) := by rw [copy]
  have dstCell : (plan.copy k).dst = (dst, j) := by rw [copy]
  rw [srcCell] at srcIn ne
  rw [dstCell] at dstIn ne
  obtain ⟨srcSlot, srcLt, -⟩ := plan.inSectors_lt srcIn
  obtain ⟨dstSlot, dstLt, -⟩ := plan.inSectors_lt dstIn
  have still : ∀ {fl'}, Flash.EqOutside dst (j * S) ((j + 1) * S) fl fl' →
      plan.Progress rec init k fl' := fun out =>
    ⟨progress.le, plan.recorded_congr dstIn progress.recorded out,
      progress.midway.congr fun c away _ => cells_of_ne out (dstCell ▸ away lt)⟩
  rw [wp_bind]
  refine wp_replaceSector (plan.slots.even.sectorAt srcSlot srcLt) (plan.slots.even.sectorAt dstSlot dstLt) ne
    (fun fl' out => cuts fl' (still out)) fun fl₁ out copied => ?_
  refine wp_logStep plan tracked lt (still out) ?_ off state (cuts fl₁ (still out)) post
  refine progress.midway.copied (by rwa [srcCell, dstCell]) (by rwa [srcCell, dstCell]) ?_
  exact fun c away _ => cells_of_ne out (dstCell ▸ away)

theorem midway_of_untouched {fl₀ : Flash} (tracked : ∀ c, init c ≠ none → InSectors plan.n plan.m c)
    (known : ∀ c d, init c = some d → cells S fl₀ c = d) (untouched : Untouched bd S plan.n plan.m fl₀ fl) :
    Midway plan.copy plan.length init 0 (cells S fl) := by
  intro c d _ value
  have value : init c = some d := value
  exact (untouched.sectors.cells (tracked c (by simp [value]))).trans (known c d value)

/-- A swap that is requested is put on record. One that is on record stays so. -/
theorem wp_begin {fl₀ : Flash} {st : BootState} (requested : rec.swapType = requestedType bd fl₀)
    (tracked : ∀ c, init c ≠ none → InSectors plan.n plan.m c)
    (records : bs.source ≠ .primarySlot → Records bd rec st bs)
    (midway : Midway plan.copy plan.length init k (cells S fl))
    (resumed : bs.source = .primarySlot → plan.Progress rec init k fl)
    (fresh : bs.source ≠ .primarySlot → k = 0 ∧ Untouched bd S plan.n plan.m fl₀ fl)
    (before : ∀ fl', Untouched bd S plan.n plan.m fl₀ fl' → C fl') (cuts : ∀ fl', plan.Progress rec init k fl' → C fl')
    (post : ∀ fl', plan.Progress rec init k fl' → Q () fl') : wp (beginSwap bd st bs) Q E C fl := by
  have le : k ≤ plan.length := by
    by_cases source : bs.source = .primarySlot
    · exact (resumed source).le
    · exact (fresh source).1 ▸ Nat.zero_le _
  have progress : ∀ fl', SameSectors S plan.n plan.m fl fl' → Recorded bd rec (plan.found k) fl' →
      plan.Progress rec init k fl' := fun fl' same recorded =>
    ⟨le, recorded, midway.congr fun c _ known => same.cells (after_inside tracked plan.dst_in le known)⟩
  refine wp_beginSwap plan.slots plan.roomPri plan.roomSec (requested ▸ requestedType_upgrade bd fl₀)
    (fun source => ?_) (fun source => ?_) (fun fl' same recorded => cuts fl' (progress fl' same recorded))
    fun fl' same recorded => post fl' (progress fl' same recorded)
  · have recorded := (resumed source).recorded
    exact ⟨recorded.marked, recorded.status, cuts fl (resumed source)⟩
  · obtain ⟨rfl, untouched⟩ := fresh source
    have info := infoSz_le_scrambleSz bd .secondary
    have room := plan.roomSec
    refine ⟨rfl, records source, fun set => ?_, fun fl' out => before fl' ⟨untouched.sectors.trans (.ofPrimary out), ?_⟩⟩
    · rw [untouched.secondary] at set
      simp [requested, requestedType, set]
    · rw [← untouched.secondary]
      exact swapState_congr (by omega) (out.eqOn fun eq => by simp at eq)

end Plan

end Steps

/-! ### Around the swap -/

section Around

variable {b : LoaderBuild} {alg : SwapAlgo} {S : Nat} {fl : Flash} {st st₁ st₂ : BootState} {bs : BootStatus}
  {E : BootErr → Flash → Prop} {C : Flash → Prop} (slots : UniformSlots b.board S)

theorem imageSizeIfPresent_held {a : Area} {img : Image b.validate} (hdr : st.hdr a = img.hdr)
    (read : alg.bootReadImageSize fl st a = some (img.size, st₁)) :
    imageSizeIfPresent alg fl st a = pure (img.size, st₁) := by
  have magic : (st.hdr a).ihMagic = imageMagic := hdr ▸ img.magic
  rw [imageSizeIfPresent, if_pos magic, read]

include slots

theorem wp_bootPerformUpdate {pri sec : Image b.validate} {Q : BootState → Flash → Prop}
    (reset : bs.isReset b.board = true) (sizePri : imageSizeIfPresent alg fl st .primary = pure (pri.size, st₁))
    (sizeSec : imageSizeIfPresent alg fl st₁ .secondary = pure (sec.size, st₂))
    (run : wp (alg.swapRun st₂ { bs with swapSize := swapSizeOf pri sec } (swapSizeOf pri sec))
      (fun _ fl' => wp (finishSwap b st₂.swapType) (fun _ fl'' => Q st₂ fl'') E C fl') E C fl) :
    wp (bootPerformUpdate b alg st bs) Q E C fl := by
  unfold bootPerformUpdate bootSwapImage
  simp only [slots.keeps.not_overwrite, Bool.false_eq_true, if_false, wp_bind, wp_get, reset, if_true, sizePri, sizeSec,
    wp_pure]
  exact run

theorem wp_bootCompletePartialSwap {rec : SwapRecord} {Q : Flash → Prop} (room : b.board.HoldsTrailer .primary)
    (marked : Marked b.board rec fl) (lt : rec.swapSize < 2 ^ 32) (progress : bs.isReset b.board = false)
    (run : wp (alg.swapRun st { bs with swapSize := rec.swapSize } rec.swapSize)
      (fun bs' fl' => wp (finishSwap b bs'.swapType) (fun _ fl'' => Q fl'') E C fl') E C fl) :
    wp (bootCompletePartialSwap b alg st bs) (fun _ fl' => Q fl') E C fl := by
  unfold bootCompletePartialSwap bootSwapImage
  simp only [wp_bind, wp_get, progress, Bool.false_eq_true, if_false, slots.bootFindStatus_eq room,
    marked.swapSize_eq room lt, wp_pure]
  exact run

end Around

end Adaboot
