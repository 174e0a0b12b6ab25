import Adaboot.Swap.OffsetPlan

/-!
# Power cuts in updates using offset

The new image arrives whatever the cuts if the update takes more than one sector. An update that is resumed at its
last sector takes the header of the new image for that of the old one, and may leave the last sector of the old image
out.
-/

namespace Adaboot.SwapOffset

open Nor Crash

/-- The primary slot has the old image, the secondary slot the new one in its second sector, and a request. -/
structure Start (b : LoaderBuild) (S last : Nat) (old new : Image b.validate) (fl : Flash) : Prop where
  old_held : Holds fl .primary 0 old
  new_held : Holds fl .secondary S new
  requested : Requested b.board fl
  placed : (ImageHeader.decode (fl.read .secondary 0 imageHeaderSize)).ihMagic ≠ imageMagic
  lastIdx : findLastIdx b.board (swapSizeOf old new) = last

/-- The sectors that an update is followed on: the first ones of the old image and those of the new
one. -/
def followed {v : ValidateBuild} (S kept : Nat) (new : Image v) (fl : Flash) : Cell → Option Bytes
  | (.primary, i) => if i < kept then some (cells S fl (.primary, i)) else none
  | (.secondary, i) =>
    if 0 < i ∧ i ≤ sectorCount S new.size then some (cells S fl (.secondary, i)) else none
  | (.scratch, _) => none

def record (b : LoaderBuild) (old new : Image b.validate) (fl₀ : Flash) : SwapRecord :=
  ⟨requestedType b.board fl₀, swapSizeOf old new, old.tlvSize, new.tlvSize⟩

/-! ### The run of an update -/

section Run

variable {b : LoaderBuild} {S last k : Nat} {layout : Layout b S last} {rec : SwapRecord}
  {init : Cell → Option Bytes} {fl : Flash} {bs : BootStatus} {st : BootState}
  {E : BootErr → Flash → Prop} {C : Flash → Prop}

theorem fixupRevert_eq (ne : bs.swapType ≠ .revert) : fixupRevert b st bs = pure () := by
  rw [fixupRevert]
  simp [ne]

/-- The trailer of the secondary slot is cleared once more when only the first step was taken. -/
theorem wp_swapRun {size : Nat} {Q : BootStatus → Flash → Prop}
    (tracked : ∀ c, init c ≠ none → InSectors (last + 1) (last + 2) c)
    (lastIdx : findLastIdx b.board size = last) (update : bs.swapType ≠ .revert)
    (at_k : StatusAt k bs) (tlvPri : rec.tlvSizePrimary < 65536) (tlvSec : rec.tlvSizeSecondary < 65536)
    (freePri : ∀ i, i ≤ last → k ≤ 2 * i →
      usedSectors S st.hdrPrimary rec.tlvSizePrimary < i → init (.primary, i) = none) (freeSec : ∀ i, i ≤ last →
      usedSectors S st.hdrSecondary rec.tlvSizeSecondary < i → init (.secondary, i + 1) = none)
    (begins : k ≤ 1 → wp (beginSwap b.board st bs)
      (fun _ fl' => (plan layout (forward last)).Progress rec init k fl') E C fl)
    (resumes : 1 < k → (plan layout (forward last)).Progress rec init k fl)
    (cuts : ∀ k' fl', k ≤ k' → (plan layout (forward last)).Progress rec init k' fl' → C fl')
    (post : ∀ bs' fl', bs'.swapType = bs.swapType →
      (plan layout (forward last)).Progress rec init (2 * (last + 1)) fl' → Q bs' fl') :
    wp (swapRun b st bs size) Q E C fl := by
  have room : last + 1 ≤ firstTrailerIdx b.board := layout.slots.even.le_firstTrailerIdx layout.primary
  have loop : ∀ fl', (plan layout (forward last)).Progress rec init k fl' →
      isRevert b.board fl' { bs with op := .swap } = false ∧
      wp (swapSectors b last (usedSectors S st.hdrPrimary rec.tlvSizePrimary)
        (usedSectors S st.hdrSecondary rec.tlvSizeSecondary) { bs with op := .swap }) Q E C fl' := by
    intro fl' progress
    have none := progress.recorded.swapType_none layout.roomPri layout.roomSec
    refine ⟨by simp [isRevert, none, update], ?_⟩
    have exchanges : { bs with op := .swap }.Exchanges :=
      ⟨rfl, at_k.idx ▸ Nat.le_add_left .., at_k.eq ▸ exchangeStatus_state bs k⟩
    obtain ⟨after, type, writes⟩ := swapSectors_writes b last (usedSectors S st.hdrPrimary rec.tlvSizePrimary)
      (usedSectors S st.hdrSecondary rec.tlvSizeSecondary) exchanges
    have written := pending_eq last bs k
    rw [at_k.eq] at written
    rw [written] at writes
    exact wp_imp (wp_writes tracked writes freePri freeSec progress cuts) fun bs' fl'' ⟨eq, done⟩ =>
      post bs' fl'' (eq ▸ type) done
  unfold swapRun
  simp only [lastIdx]
  rw [if_neg (by omega), fixupRevert_eq update, wp_bind, wp_pure, layout.sectorSize_eq.1]
  have idx : bs.idx = statusIdx0 ↔ k ≤ 1 := by
    rw [at_k.idx, statusIdx0]
    omega
  by_cases first : k ≤ 1
  · rw [if_pos (idx.mpr first), wp_bind]
    refine wp_imp (begins first) (fun _ fl' progress => ?_)
    obtain ⟨notRevert, done⟩ := loop fl' progress
    have tlv := progress.recorded.marked.tlvSizes_eq layout.roomPri layout.mode tlvPri tlvSec
    rw [wp_bind, wp_get]
    simpa only [tlv, Option.getD_some, notRevert, Bool.false_eq_true, if_false] using done
  · have progress := resumes (by omega)
    obtain ⟨notRevert, done⟩ := loop fl progress
    have tlv := progress.recorded.marked.tlvSizes_eq layout.roomPri layout.mode tlvPri tlvSec
    rw [if_neg (mt idx.mp first), wp_bind, wp_get]
    simpa only [tlv, Option.getD_some, notRevert, Bool.false_eq_true, if_false] using done

end Run

/-! ### Boots -/

section Boots

variable {b : LoaderBuild} {S last kept k : Nat} {old new : Image b.validate} {fl₀ fl : Flash}
  {E : BootErr → Flash → Prop} {i m size : Nat} {bs : BootStatus}

theorem followed_pri (lt : i < kept) :
    followed S kept new fl₀ (.primary, i) = some (cells S fl₀ (.primary, i)) := if_pos lt

theorem followed_sec (inside : 0 < i ∧ i ≤ sectorCount S new.size) :
    followed S kept new fl₀ (.secondary, i) = some (cells S fl₀ (.secondary, i)) := if_pos inside

theorem followed_eq (c : Cell) (d : Bytes) (value : followed S kept new fl₀ c = some d) : cells S fl₀ c = d := by
  obtain ⟨a, i⟩ := c
  cases a with
  | scratch => simp [followed] at value
  | _ =>
    simp only [followed] at value
    split at value
    · exact Option.some.inj value
    · simp at value

theorem followed_mono {kept' : Nat} (le : kept ≤ kept') (c : Cell) (d : Bytes)
    (value : followed S kept new fl₀ c = some d) : followed S kept' new fl₀ c = some d := by
  obtain ⟨a, i⟩ := c
  cases a with
  | primary =>
    simp only [followed] at value ⊢
    split at value
    · rwa [if_pos (by omega)]
    · simp at value
  | _ => exact value

/-- The request, or an update on record. The old image is followed completely until the last sector is due. -/
def Safe (layout : Layout b S last) (kept : Nat) (old new : Image b.validate) (fl₀ fl : Flash) : Prop :=
  Untouched b.board S (last + 1) (last + 2) fl₀ fl ∨ ∃ k, (plan layout (forward last)).Progress (record b old new fl₀)
      (followed S (if k < 2 * last then sectorCount S old.size else kept) new fl₀) k fl

/-- The update with `m` sectors of the old image followed. -/
abbrev OnRecord (layout : Layout b S last) (old new : Image b.validate) (fl₀ : Flash) (m k : Nat) (fl : Flash) : Prop :=
  (plan layout (forward last)).Progress (record b old new fl₀) (followed S m new fl₀) k fl

variable {layout : Layout b S last}

theorem safe_of_progress (enough : (if k < 2 * last then sectorCount S old.size else kept) ≤ m)
    (progress : OnRecord layout old new fl₀ m k fl) : Safe layout kept old new fl₀ fl :=
  .inr ⟨k, progress.mono (followed_mono enough)⟩

theorem usedSectors_held (layout : Layout b S last) {img : Image b.validate}
    (le : img.size ≤ size) (lastIdx : findLastIdx b.board size = last) :
    usedSectors S img.hdr img.tlvSize = sectorCount S img.size := by
  obtain ⟨sectors, covers⟩ := layout.sectors_le le lastIdx
  have wide : 32 ≤ S := layout.wide
  have room := layout.secondary
  have lt := b.board.size_lt .secondary
  have fits : b.board.faSize .secondary < 2 ^ 32 := lt
  have := Nat.mul_le_mul_right S sectors
  rw [Nat.add_mul] at room
  rw [Nat.add_mul] at this
  exact usedSectors_eq img (by omega) (by omega)

theorem followed_free : (m < i → followed S m new fl₀ (.primary, i) = none) ∧
      (sectorCount S new.size < i → followed S m new fl₀ (.secondary, i + 1) = none) :=
  ⟨fun lt => if_neg (by omega), fun lt => if_neg (by omega)⟩

variable (start : Start b S last old new fl₀)
include start

theorem followed_in (layout : Layout b S last) (kept_le : kept ≤ sectorCount S old.size) (c : Cell) (known : followed S kept new fl₀ c ≠ none) :
    InSectors (last + 1) (last + 2) c := by
  obtain ⟨old_le, new_le⟩ := size_le_swapSizeOf old new
  obtain ⟨oldSectors, -⟩ := layout.sectors_le old_le start.lastIdx
  obtain ⟨newSectors, -⟩ := layout.sectors_le new_le start.lastIdx
  obtain ⟨a, i⟩ := c
  cases a with
  | primary =>
    simp only [followed] at known
    split at known
    · exact .inl ⟨rfl, by show i < last + 1; omega⟩
    · exact absurd rfl known
  | secondary =>
    simp only [followed] at known
    split at known
    · exact .inr ⟨rfl, by show i < last + 2; omega⟩
    · exact absurd rfl known
  | scratch => simp [followed] at known

theorem holds_of_midway (layout : Layout b S last)
    (midway : Midway (forward last).copy (2 * (last + 1))
      (followed S (sectorCount S old.size) new fl₀) 0 (cells S fl)) :
    Holds fl .primary 0 old ∧ Holds fl .secondary S new := by
  obtain ⟨old_le, new_le⟩ := size_le_swapSizeOf old new
  obtain ⟨-, oldSize⟩ := layout.sectors_le old_le start.lastIdx
  obtain ⟨-, newSize⟩ := layout.sectors_le new_le start.lastIdx
  have dst : ((forward last).copy 0).dst = (.secondary, 0) := rfl
  constructor
  · refine start.old_held.of_cells 0 0 (by omega) (by omega) oldSize fun i lt => ?_
    rw [Nat.zero_add]
    exact midway _ _ (fun _ same => by simp [dst] at same) (followed_pri lt)
  · refine start.new_held.of_cells 1 1 (by omega) (by omega) newSize fun i lt => ?_
    exact midway _ _ (fun _ same => by simp [dst] at same) (followed_sec ⟨by omega, by omega⟩)

/-- The new image in the primary slot, what was followed of the old one in the secondary slot, and trailers that say
so. -/
structure Swapped (b : LoaderBuild) (S kept : Nat) (old new : Image b.validate) (fl₀ fl : Flash) : Prop where
  new_held : Holds fl .primary 0 new
  old_cells : ∀ i, i < kept → cells S fl (.secondary, i) = cells S fl₀ (.primary, i)
  finished : Finished b.board (record b old new fl₀) fl
  secondary : (swapState b.board fl .secondary).magic = .unset

/-- A boot completes the update, and each of its cuts is safe. -/
abbrev Completes (layout : Layout b S last) (kept : Nat) (old new : Image b.validate) (fl₀ fl : Flash) : Prop :=
  wp (bootGo b) (fun booted fl' => booted = true ∧ Swapped b S kept old new fl₀ fl')
    (fun _ _ => False) (Safe layout kept old new fl₀) fl

theorem wp_finish (kept_le : kept ≤ m) (m_le : m ≤ sectorCount S old.size)
    (progress : OnRecord layout old new fl₀ m (2 * (last + 1)) fl) :
    wp (finishSwap b (requestedType b.board fl₀)) (fun _ fl' => Swapped b S kept old new fl₀ fl')
      E (Safe layout kept old new fl₀) fl := by
  obtain ⟨old_le, new_le⟩ := size_le_swapSizeOf old new
  obtain ⟨oldSectors, -⟩ := layout.sectors_le old_le start.lastIdx
  obtain ⟨newSectors, newSize⟩ := layout.sectors_le new_le start.lastIdx
  have tracked := followed_in start layout m_le
  refine @wp_finishSwap (record b old new fl₀) _ _ _ _ _ layout.roomPri
    (requestedType_upgrade b.board fl₀) progress.recorded.marked (fun fl' out marked => ?_)
    fun fl' out finished => ?_
  · refine safe_of_progress ?_ (progress.mark tracked out marked)
    rw [if_neg (by omega)]
    exact kept_le
  have same := (plan layout (forward last)).sameSectors_of_fields out
  have cell : ∀ {c d}, InSectors (last + 1) (last + 2) c →
      after (forward last).copy (followed S m new fl₀) (2 * (last + 1)) c = some d →
      cells S fl' c = d := by
    intro c d inside value
    rw [same.cells inside]
    exact progress.midway c d (fun lt => absurd lt (Nat.lt_irrefl _)) value
  refine ⟨?_, fun i lt => ?_, finished, ?_⟩
  · refine start.new_held.of_cells 1 0 (by omega) (by omega) newSize fun i lt => ?_
    refine cell (.inl ⟨rfl, by show 0 + i < last + 1; omega⟩) ?_
    rw [Nat.zero_add, forward_pri (by omega) le_rfl, if_pos (by omega), Nat.add_comm 1]
    exact followed_sec ⟨by omega, by omega⟩
  · refine cell (.inr ⟨rfl, by show i < last + 2; omega⟩) ?_
    rw [forward_sec (by omega) le_rfl, if_pos (by omega)]
    exact followed_pri (by omega)
  · rw [swapState_congr layout.roomSec (out.eqOn fun eq => by simp at eq)]
    exact progress.recorded.unset layout.mode

theorem bootGo_begin_wp (bs : BootStatus) (layout : Layout b S last) (le : new.size ≤ appMaxSize b.board)
    (kept_le : kept ≤ sectorCount S old.size) (at_0 : StatusAt 0 bs)
    (kind : bs.swapType = .none ∧ bootSwapTypeMulti b.board fl = requestedType b.board fl₀ ∨
      bs.swapType = requestedType b.board fl₀ ∧ bootSwapTypeMulti b.board fl = .none)
    (resumed : bs.source = .primarySlot → OnRecord layout old new fl₀ (sectorCount S old.size) 0 fl)
    (fresh : bs.source ≠ .primarySlot → Untouched b.board S (last + 1) (last + 2) fl₀ fl)
    (placed : bs.swapType = .none → Untouched b.board S (last + 1) (last + 2) fl₀ fl)
    (status : wp (swapReadStatus b.board (algo b) (bootStatusReset b.board))
      (fun bs' fl' => bs' = bs ∧ fl' = fl) (fun _ _ => False) (Safe layout kept old new fl₀) fl) :
    Completes layout kept old new fl₀ fl := by
  obtain ⟨old_le, new_le⟩ := size_le_swapSizeOf old new
  obtain ⟨oldSectors, oldSize⟩ := layout.sectors_le old_le start.lastIdx
  obtain ⟨newSectors, newSize⟩ := layout.sectors_le new_le start.lastIdx
  obtain ⟨notRevert, notNone⟩ := requestedType_ne b.board fl₀
  have oldFits := Nat.mul_le_mul_right S oldSectors
  have newFits := Nat.mul_le_mul_right S newSectors
  have roomPri := layout.primary
  have roomSec := layout.secondary
  have next : (last + 2) * S = (last + 1) * S + S := Nat.succ_mul ..
  have max : ∀ a, new.size ≤ bootutilMaxImageSize b (algo b) a := fun a =>
    layout.maxImageSize_eq a ▸ le
  have tracked := followed_in start layout le_rfl
  have midway : Midway (plan layout (forward last)).copy (plan layout (forward last)).length
      (followed S (sectorCount S old.size) new fl₀) 0 (cells S fl) := by
    by_cases source : bs.source = .primarySlot
    · exact (resumed source).midway
    · exact Plan.midway_of_untouched tracked followed_eq (fresh source)
  obtain ⟨pri, sec⟩ := holds_of_midway start layout midway
  have isReset := (at_0.reset_iff layout.mode).mpr rfl
  have update : isRevert b.board fl bs = false := by
    rcases kind with ⟨h, h'⟩ | ⟨h, h'⟩ <;> simp [isRevert, h, h', notRevert]
  refine wp_bootGo_begin layout.swaps new (by omega) (max _) (max _)
    (requestedType_upgrade b.board fl₀) (wp_imp status ?_)
  rintro bs' fl' ⟨rfl, rfl⟩
  refine ⟨isReset, kind.imp_right And.left, fun _ none => ?_, fun st _ => ?_⟩
  · have inside : 0 + imageHeaderSize ≤ b.board.faSize .secondary := by
      have := layout.wide
      omega
    refine ⟨_, flashAreaRead_area inside, ?_⟩
    rw [(placed none).sectors.secondary.read (Nat.zero_le _) (by have := layout.wide; omega)]
    exact start.placed
  have placePri : headerPlace b.board fl' .primary (some bs') = some (.primary, 0 * S) := by
    simp [headerPlace, isReset, update]
  have placeSec : headerPlace b.board fl' .secondary (some bs') = some (.secondary, 1 * S) := by
    simp [headerPlace, isReset, update, layout.sectorSize_eq]
  obtain ⟨st', headers, hdrPri, hdrSec, off⟩ := bootReadImageHeaders_found st false (.primary, 0)
    (.secondary, 1) layout placePri placeSec
    (.inl ⟨rfl, by show 0 < last + 1; omega⟩) (.inr ⟨rfl, by show 1 < last + 2; omega⟩)
    (pri.header_of_cells 0 (by omega) layout.wide rfl) (sec.header_of_cells 1 (by omega) layout.wide rfl)
    old.magic new.magic
  have off : st'.secondaryOffset = S := by
    rw [off rfl]
    exact Nat.one_mul S
  refine ⟨st', headers, hdrSec, ?_, ?_, ?_⟩
  · simpa [BootState.startOff, off] using sec
  · simp only [BootState.startOff, if_true, off]
    omega
  refine wp_bootPerformUpdate layout.slots isReset (imageSize_held hdrPri (pri.imageSizeRead (by omega)))
    (imageSize_held hdrSec (?_ : readImageSize _ _ st'.secondaryOffset = _)) ?_
  · rw [off]
    exact sec.imageSizeRead (by omega)
  refine wp_swapRun tracked start.lastIdx notRevert ⟨at_0.op, at_0.idx, at_0.state⟩ old.tlvSize_lt new.tlvSize_lt
    (fun i _ _ skip => ?_) (fun i _ skip => ?_) (fun _ => ?_) (fun more => absurd more (by omega))
    (fun k fl' _ progress => safe_of_progress (by split <;> omega) progress) fun _ fl' _ progress => ?_
  · have skip : usedSectors S st'.hdrPrimary old.tlvSize < i := skip
    rw [hdrPri, usedSectors_held layout old_le start.lastIdx] at skip
    exact followed_free.1 skip
  · have skip : usedSectors S st'.hdrSecondary new.tlvSize < i := skip
    rw [hdrSec, usedSectors_held layout new_le start.lastIdx] at skip
    exact followed_free.2 skip
  · exact Plan.wp_begin rfl tracked (fun _ => ⟨rfl, rfl, fun _ => ⟨rfl, rfl⟩⟩) midway resumed
      (fun source => ⟨rfl, fresh source⟩) (fun _ => .inl)
      (fun _ progress => safe_of_progress (by split <;> omega) progress) fun _ progress => progress
  · refine wp_imp (wp_finish start kept_le le_rfl progress) ?_
    intro _ fl'' swapped
    exact ⟨notNone, swapped.new_held, rfl, swapped⟩

theorem bootGo_untouched_wp (kept_le : kept ≤ sectorCount S old.size) (le : new.size ≤ appMaxSize b.board)
    (untouched : Untouched b.board S (last + 1) (last + 2) fl₀ fl) :
    Completes layout kept old new fl₀ fl := by
  have op : (bootStatusReset b.board).op = .swap := by
    simp [bootStatusReset, resetOp, layout.mode]
  have source := swapStatusSource_none fl layout.roomPri layout.roomSec fun _ => by
    rw [untouched.secondary]
    exact start.requested.magic
  exact bootGo_begin_wp start { bootStatusReset b.board with source := .none } layout le kept_le ⟨op, rfl, rfl⟩
    (.inl ⟨rfl, untouched.swapType_eq layout.roomPri layout.roomSec start.requested⟩)
    (fun eq => by simp at eq) (fun _ => untouched) (fun _ => untouched)
    (wp_swapReadStatus_none source ⟨rfl, rfl⟩)

/-- Towards the end of an update the header of the new image is taken for that of the old one. -/
theorem headers_of_progress (several : 0 < last) (m_pos : k < 2 * last → 0 < m) (pos : 0 < k) (at_k : StatusAt k bs)
    (bsType : bs.swapType = requestedType b.board fl₀)
    (progress : OnRecord layout old new fl₀ m k fl) (st : BootState) : ∃ st', bootReadImageHeaders (algo b) fl st true (some bs) = (st', true) ∧
      st'.hdrPrimary = (if k / 2 + 1 ≤ last then old.hdr else new.hdr) ∧ st'.hdrSecondary = new.hdr := by
  have le : k ≤ 2 * (last + 1) := progress.le
  have none := progress.recorded.swapType_none layout.roomPri layout.roomSec
  have update : isRevert b.board fl bs = false := by
    simp [isRevert, none, bsType, (requestedType_ne b.board fl₀).1]
  have reset := at_k.not_reset layout.mode pos
  obtain ⟨placePri, placeSec⟩ := movedHeaderPlace_forward layout progress.recorded.marked
    (swapSizeOf_lt old new) start.lastIdx update pos at_k
  have sectors : 0 < sectorCount S new.size :=
    (@sectorCount_spec S new.size (Nat.lt_of_lt_of_le (by decide) layout.wide)).1
  -- the three sectors that a header can be in
  have oldAbove : k < 2 * last →
      ImageHeader.decode (fl.read .secondary (0 * S) imageHeaderSize) = old.hdr := by
    intro lt
    refine start.old_held.header_of_cells 0 (by omega) layout.wide
      (progress.midway _ _ (fun _ => Order.sec_ne_dst fun l eq => ?_) ?_)
    · show 0 ≠ l
      omega
    · show after (forward last).copy _ _ _ = _
      rw [forward_sec (by omega) le, if_pos (by omega)]
      exact followed_pri (m_pos lt)
  have newBelow : k ≠ 1 → ImageHeader.decode (fl.read .primary (0 * S) imageHeaderSize) = new.hdr := by
    intro ne
    refine start.new_held.header_of_cells 1 (by omega) layout.wide
      (progress.midway _ _ (fun _ => Order.pri_ne_dst fun l eq => ?_) ?_)
    · show 0 ≠ l
      omega
    · show after (forward last).copy _ _ _ = _
      rw [forward_pri (by omega) le, if_pos (by omega)]
      exact followed_sec ⟨by omega, sectors⟩
  have newAbove : k = 1 → ImageHeader.decode (fl.read .secondary (1 * S) imageHeaderSize) = new.hdr := by
    rintro rfl
    refine start.new_held.header_of_cells 1 (by omega) layout.wide
      (progress.midway _ _ (fun _ => Order.sec_ne_dst fun l eq => by omega) ?_)
    show after (forward last).copy _ _ _ = _
    rw [forward_sec (by omega) le, if_neg (by omega)]
    exact followed_sec ⟨by omega, sectors⟩
  have inside : ∀ {a : Area} {i : Nat}, a ≠ .scratch → i ≤ last →
      InSectors (last + 1) (last + 2) (a, i) := by
    intro a i slot lt
    cases a with
    | primary => exact .inl ⟨rfl, by show i < last + 1; omega⟩
    | secondary => exact .inr ⟨rfl, by show i < last + 2; omega⟩
    | scratch => exact absurd rfl slot
  have moved : ∀ slot, headerPlace b.board fl slot (some bs) = movedHeaderPlace b.board fl slot bs :=
    fun slot => by simp [headerPlace, reset]
  rw [← moved] at placePri placeSec
  have pri : ∃ c : Cell, InSectors (last + 1) (last + 2) c ∧
      headerPlace b.board fl .primary (some bs) = some (c.1, c.2 * S) ∧
      ImageHeader.decode (fl.read c.1 (c.2 * S) imageHeaderSize) =
        (if k / 2 + 1 ≤ last then old.hdr else new.hdr) := by
    split_ifs at placePri ⊢ with more
    · exact ⟨(.secondary, 0), inside (by decide) (by omega), placePri, oldAbove (by omega)⟩
    · exact ⟨(.primary, 0), inside (by decide) (by omega), placePri, newBelow (by omega)⟩
  have sec : ∃ c : Cell, InSectors (last + 1) (last + 2) c ∧
      headerPlace b.board fl .secondary (some bs) = some (c.1, c.2 * S) ∧
      ImageHeader.decode (fl.read c.1 (c.2 * S) imageHeaderSize) = new.hdr := by
    split_ifs at placeSec with one
    · exact ⟨(.secondary, 1), inside (by decide) several, placeSec, newAbove one⟩
    · exact ⟨(.primary, 0), inside (by decide) (by omega), placeSec, newBelow one⟩
  obtain ⟨cellPri, inPri, atPri, hdrPri⟩ := pri
  obtain ⟨cellSec, inSec, atSec, hdrSec⟩ := sec
  obtain ⟨st', read, first, second, -⟩ := bootReadImageHeaders_found st true cellPri cellSec layout atPri
    atSec inPri inSec hdrPri hdrSec (by split <;> [exact old.magic; exact new.magic]) new.magic
  exact ⟨st', read, first, second⟩

/-- The sectors of the old image are counted by the header of the new one when the last of them is due. -/
theorem bootGo_resume_wp (several : 0 < last)
    (kept_le : kept ≤ sectorCount S old.size) (skips : kept ≤ last ∨ last ≤ usedSectors S new.hdr old.tlvSize)
    (le : new.size ≤ appMaxSize b.board) (pos : 0 < k)
    (progress : OnRecord layout old new fl₀ (if k < 2 * last then sectorCount S old.size else kept) k fl) :
    Completes layout kept old new fl₀ fl := by
  obtain ⟨old_le, new_le⟩ := size_le_swapSizeOf old new
  obtain ⟨newSectors, newSize⟩ := layout.sectors_le new_le start.lastIdx
  have newFits := Nat.mul_le_mul_right S newSectors
  have roomPri := layout.primary
  have oldSectors := (@sectorCount_spec S old.size (Nat.lt_of_lt_of_le (by decide) layout.wide)).1
  have recorded := progress.recorded
  rw [plan_found] at recorded
  generalize m_eq : (if k < 2 * last then sectorCount S old.size else kept) = m at progress
  have m_le : m ≤ sectorCount S old.size := by
    rw [← m_eq]
    split <;> omega
  have kept_le' : kept ≤ m := by
    rw [← m_eq]
    split <;> omega
  refine wp_bootGo_resume layout.swaps new (by omega) (layout.maxImageSize_eq _ ▸ le) ?_
  refine recorded.wp_swapReadStatus layout.roomPri (requestedType_upgrade b.board fl₀)
    (recorded.source_eq layout.roomPri layout.roomSec) ?_
  refine wp_swapReadStatusBytes recorded.status layout fun bs' source _ decoded => ⟨rfl, ?_⟩
  have at_k : StatusAt k { bs' with swapType := (record b old new fl₀).swapType } :=
    ⟨(decoded pos).op, (decoded pos).idx, (decoded pos).state⟩
  refine ⟨at_k.not_reset layout.mode pos, fun st _ => ?_⟩
  obtain ⟨st', headers, hdrPri, hdrSec⟩ := headers_of_progress start several
    (fun lt => by rw [← m_eq, if_pos lt]; exact oldSectors) pos at_k rfl progress st
  refine ⟨st', headers, ?_⟩
  refine wp_bootCompletePartialSwap layout.slots layout.roomPri recorded.marked (swapSizeOf_lt old new)
    (at_k.not_reset layout.mode pos) ?_
  have safe : ∀ k' fl', k ≤ k' → OnRecord layout old new fl₀ m k' fl' → Safe layout kept old new fl₀ fl' := by
    intro k' fl' ge progress
    refine safe_of_progress ?_ progress
    rw [← m_eq]
    split <;> split <;> omega
  have tracked := followed_in start layout m_le
  refine wp_swapRun tracked start.lastIdx (requestedType_ne b.board fl₀).1
    ⟨at_k.op, at_k.idx, at_k.state⟩ old.tlvSize_lt new.tlvSize_lt (fun i i_le due skip => ?_)
    (fun i _ skip => ?_) (fun first => ?_) (fun _ => progress) safe fun bs'' fl' type done => ?_
  · have skip : usedSectors S st'.hdrPrimary old.tlvSize < i := skip
    rw [hdrPri] at skip
    split at skip
    next more =>
      rw [usedSectors_held layout old_le start.lastIdx] at skip
      exact followed_free.1 (by omega)
    next =>
      -- the last sector is due
      rw [← m_eq, if_neg (by omega)]
      exact if_neg (by omega)
  · have skip : usedSectors S st'.hdrSecondary new.tlvSize < i := skip
    rw [hdrSec, usedSectors_held layout new_le start.lastIdx] at skip
    exact followed_free.2 skip
  · exact Plan.wp_begin rfl tracked (fun ne => absurd source ne) progress.midway (fun _ => progress)
      (fun ne => absurd source ne) (fun _ => .inl) (fun fl' => safe k fl' le_rfl) fun _ progress => progress
  · rw [type]
    refine wp_imp (wp_finish start kept_le' m_le done) ?_
    intro _ fl'' swapped
    exact ⟨swapped.new_held, rfl, swapped⟩

theorem bootGo_wp (several : 0 < last) (kept_le : kept ≤ sectorCount S old.size)
    (skips : kept ≤ last ∨ last ≤ usedSectors S new.hdr old.tlvSize)
    (le : new.size ≤ appMaxSize b.board) (safe : Safe layout kept old new fl₀ fl) :
    Completes layout kept old new fl₀ fl := by
  have op : (bootStatusReset b.board).op = .swap := by
    simp [bootStatusReset, resetOp, layout.mode]
  rcases safe with untouched | ⟨k, progress⟩
  · exact bootGo_untouched_wp start kept_le le untouched
  rcases Nat.eq_zero_or_pos k with rfl | pos
  · have recorded := progress.recorded
    rw [if_pos (by omega)] at progress
    refine bootGo_begin_wp start { bootStatusReset b.board with
        source := .primarySlot, swapType := requestedType b.board fl₀ } layout le kept_le
      ⟨op, rfl, rfl⟩ (.inr ⟨rfl, recorded.swapType_none layout.roomPri layout.roomSec⟩)
      (fun _ => progress) (fun ne => absurd rfl ne)
      (fun none => absurd none (requestedType_ne b.board fl₀).2) ?_
    refine recorded.wp_swapReadStatus layout.roomPri (requestedType_upgrade b.board fl₀)
      (recorded.source_eq layout.roomPri layout.roomSec) ?_
    refine wp_swapReadStatusBytes recorded.status layout fun bs' _ same _ => ⟨rfl, ?_, rfl⟩
    rw [same rfl]
    rfl
  · exact bootGo_resume_wp start several kept_le skips le pos progress

omit start

/-! ### Every sequence of cuts -/

theorem appMaxSize_room {bd : Board} (slots : EvenSlots bd S)
    (priRoom : reserved bd S ≤ bd.faSize .primary) (secRoom : reserved bd S + S ≤ bd.faSize .secondary)
    (sectorSize : bd.sectorSize .primary 0 = S) (le : size ≤ appMaxSize bd) :
    size + reserved bd S ≤ bd.faSize .primary ∧ size + reserved bd S + S ≤ bd.faSize .secondary := by
  have priLt : bd.faSize .primary < 2 ^ 32 := bd.size_lt .primary
  have secLt : bd.faSize .secondary < 2 ^ 32 := bd.size_lt .secondary
  simp only [appMaxSize, sectorSize, ← slots.faSize_eq (a := .primary) (by decide),
    ← slots.faSize_eq (a := .secondary) (by decide), u32] at le
  split at le <;> constructor <;> omega

/-- With sectors of a power of two and no larger writes in the secondary slot there is room for both trailers. -/
theorem Layout.of_appMaxSize {e : Nat} (mode : b.board.mode = .offset)
    (slots : UniformSlots b.board (2 ^ e)) (compatible : bootSlotsCompatible b.board = true)
    (align : b.board.align .secondary ≤ b.board.align .primary)
    (room : ∀ a, a ≠ .scratch → reserved b.board (2 ^ e) + 2 ^ e ≤ b.board.faSize a)
    (old_le : old.size ≤ appMaxSize b.board) (new_le : new.size ≤ appMaxSize b.board) :
    Layout b (2 ^ e) (findLastIdx b.board (swapSizeOf old new)) := by
  have pos := Nat.two_pow_pos e
  have trailer_le := slots.even.scrambleSz_le_reserved
  have trailer_eq := slots.even.scrambleSz_secondary align
  have sectorSize := slots.even.sectorSize_eq (a := .primary) (by decide)
    (slots.even.sectors_pos (by decide) (by have := room .primary (by decide); omega))
  obtain ⟨size_pos, size_le⟩ := swapSizeOf_le old_le new_le
  obtain ⟨priLe, secLe⟩ := appMaxSize_room slots.even (Nat.le_of_add_right_le (room .primary (by decide)))
    (room .secondary (by decide)) sectorSize size_le
  have some := (@sectorCount_spec (2 ^ e) (swapSizeOf old new) pos).1
  have pri := slots.even.sectorCount_room (k := 0) (a := .primary) (by decide) size_pos (by omega)
  have sec := slots.even.sectorCount_room (k := 1) (a := .secondary) (by decide) size_pos (by omega)
  have lastIdx : findLastIdx b.board (swapSizeOf old new) + 1 =
      sectorCount (2 ^ e) (swapSizeOf old new) := by
    rw [findLastIdx, sectorSize]
    omega
  rw [← lastIdx] at pri sec
  exact ⟨mode, slots, compatible, Nat.le_trans (Nat.add_le_add_left (by omega) _) pri,
    Nat.le_trans (Nat.add_le_add_left (by omega) _) sec⟩

/-- An update of more than one sector survives all power cuts: the boot that is not cut boots the new image. -/
theorem update_survives_cuts (old new : Image b.validate) (layout : Layout b S last)
    (start : Start b S last old new fl) (several : 0 < last) (le : new.size ≤ appMaxSize b.board)
    {fl' : Flash} (cuts : Interrupted (bootGo b) fl fl') :
    (bootGo b fl').value = .ok true ∧ Holds (bootGo b fl').state .primary 0 new ∧
      Finished b.board (record b old new fl) (bootGo b fl').state := by
  have safe : Safe layout 0 old new fl fl := .inl ⟨.refl _ _ _ _, rfl⟩
  have run := cuts.recovers
    (fun fl' safe => bootGo_wp start several (Nat.zero_le _) (.inl (Nat.zero_le _)) le safe) safe
  obtain ⟨booted, value, rfl, swapped⟩ := wp_returns run
  exact ⟨value, swapped.new_held, swapped.finished⟩

/-- A loader with two slots of `n` sectors of `S` bytes. -/
def demoLoader (n S : Nat) (ok : Board.Fits 8 n 64 (fun _ => 0) fun _ => List.replicate n S) : LoaderBuild where
  board := .ofLayout .offset 8 n 64 (fun _ => 0) (fun _ => List.replicate n S) ok
  validate := hashBuild
  validatePrimarySlot := true

def smallImage : Image hashBuild := .ofBytes hashBuild (hashedImage []) check_hashedImage_nil

def otherImage : Image hashBuild := .ofBytes hashBuild (hashedImage (List.replicate 4 2)) (by decide +kernel)

def largeImage : Image hashBuild := .ofBytes hashBuild (hashedImage (List.replicate 150 1)) (by decide +kernel)

/-- An image, an update in the second sector of the secondary slot, and a request. -/
def demoFlash (bd : Board) (S : Nat) (old new : Image hashBuild) : Flash
  | .primary, i => old.bytes.getD i erasedVal
  | .secondary, i =>
    if i < S then erasedVal
    else if i < S + new.size then new.bytes.getD (i - S) erasedVal
    else if i < bd.faSize .secondary - 16 then erasedVal
    else (bootImgMagic bd).getD (i - (bd.faSize .secondary - 16)) erasedVal
  | .scratch, _ => erasedVal

theorem demoFlash_holds (bd : Board) (S : Nat) (old new : Image hashBuild) :
    Holds (demoFlash bd S old new) .primary 0 old ∧ Holds (demoFlash bd S old new) .secondary S new := by
  constructor
  · intro i lt
    have lt : i < old.bytes.length := lt
    simp [demoFlash, List.getD, lt]
  · intro i lt
    have inside : i < new.bytes.length := lt
    simp [demoFlash, List.getD, inside, show S + i < S + new.size by omega]

theorem demo_start :
    let b := demoLoader 7 64 (by decide)
    Start b 64 3 smallImage largeImage (demoFlash b.board 64 smallImage largeImage) := by
  obtain ⟨old_held, new_held⟩ := demoFlash_holds (demoLoader 7 64 (by decide)).board 64 smallImage largeImage
  exact ⟨old_held, new_held, ⟨by decide +kernel, by decide +kernel, by decide +kernel⟩, by decide +kernel,
    by decide +kernel⟩

theorem demo_layout : Layout (demoLoader 7 64 (by decide)) (2 ^ 6) 3 :=
  demo_start.lastIdx ▸ .of_appMaxSize rfl ⟨.inr rfl, fun _ _ => rfl, fun _ => by decide⟩ (by decide +kernel)
    le_rfl (fun a _ => by cases a <;> decide +kernel) (by decide +kernel) (by decide +kernel)

theorem update_survives_cuts_demo :
    let b := demoLoader 7 64 (by decide)
    let fl := demoFlash b.board 64 smallImage largeImage
    let fl' := cutAt (bootGo b) (cutAt (bootGo b) fl 15) 9
    Start b 64 3 smallImage largeImage fl ∧ Layout b 64 3 ∧
      largeImage.size ≤ appMaxSize b.board ∧ (bootGo b fl').value = .ok true ∧
      Holds (bootGo b fl').state .primary 0 largeImage ∧
      Finished b.board (record b smallImage largeImage fl) (bootGo b fl').state := by
  have new_le : largeImage.size ≤ appMaxSize (demoLoader 7 64 (by decide)).board := by decide +kernel
  exact ⟨demo_start, demo_layout, new_le, update_survives_cuts smallImage largeImage demo_layout demo_start (by decide)
    new_le (interrupted_twice (by decide +kernel) (by decide +kernel))⟩

/-! ### Updates of one sector -/

theorem swapReadStatus_readsOnly (bs : BootStatus) : ReadsOnly (swapReadStatus b.board (algo b) bs) := by
  have off : ∀ fap, ReadsOnly (statusOff b.board fap) := by
    intro fap
    unfold statusOff
    split
    · exact .pure _
    · exact .throw _
  have bytes : ∀ fap bs, ReadsOnly (swapReadStatusBytes b fap bs) := by
    intro fap bs
    refine .bind (.bind (off fap) fun _ => .get fun fl => ?_) fun found => ?_
    · split
      · exact .throw _
      · simp only
        split
        · exact .throw _
        · exact .pure _
    · split <;> exact .pure _
  refine .get fun fl => ?_
  split
  · exact .throw _
  split
  · exact .pure _
  refine .bind (bytes _ _) fun _ => ?_
  split
  · exact .throw _
  · exact .pure _

/-- A swap whose status points to a place without a header cannot be resumed. -/
theorem bootReadImageHeaders_lost {a : Area} {off : Nat} (progress : bs.isReset b.board = false)
    (place : headerPlace b.board fl .primary (some bs) = some (a, off))
    (fits : off + imageHeaderSize ≤ b.board.faSize a)
    (lost : (ImageHeader.decode (fl.read a off imageHeaderSize)).ihMagic ≠ imageMagic) (st : BootState) (all : Bool) :
    (bootReadImageHeaders (algo b) fl st all (some bs)).2 = false := by
  have unread : bootReadImageHeader b.board fl st .primary (some bs) =
      (st.setHdr .primary (.decode (fl.read a off imageHeaderSize)), false) := by
    simp only [bootReadImageHeader, place, flashAreaRead_area fits]
    simp [progress, lost]
  simp [bootReadImageHeaders, algo, unread]

def oneSectorLoader : LoaderBuild := demoLoader 4 128 Board.fourSectors_fits

def oneSectorFlash : Flash := demoFlash oneSectorLoader.board 128 smallImage otherImage

/-- The update is cut when the only sector of the primary slot has been erased. -/
def oneSectorCut : Flash := cutAt (bootGo oneSectorLoader) oneSectorFlash 11

theorem oneSector_layout : Layout oneSectorLoader 128 0 :=
  ⟨rfl, ⟨.inr rfl, fun _ _ => rfl, fun _ => by decide⟩, by decide +kernel, by decide +kernel, by decide +kernel⟩

theorem oneSector_start : Start oneSectorLoader 128 0 smallImage otherImage oneSectorFlash := by
  obtain ⟨old_held, new_held⟩ := demoFlash_holds oneSectorLoader.board 128 smallImage otherImage
  exact ⟨old_held, new_held, ⟨by decide +kernel, by decide +kernel, by decide +kernel⟩,
    by decide +kernel, by decide +kernel⟩

/-- The header of the old image is looked for in the erased sector. -/
theorem oneSectorCut_stays : (bootGo oneSectorLoader oneSectorCut).state = oneSectorCut := by
  let bs : BootStatus := { bootStatusReset oneSectorLoader.board with
    state := 2, swapType := .test, source := .primarySlot }
  have status : (swapReadStatus oneSectorLoader.board (algo oneSectorLoader)
      (bootStatusReset oneSectorLoader.board) oneSectorCut).value = .ok bs := by
    decide +kernel
  have run : wp (bootGo oneSectorLoader) (fun _ fl' => fl' = oneSectorCut) (fun _ _ => False)
      (fun _ => True) oneSectorCut := by
    refine wp_bootGo_unreadable oneSector_layout.swaps (fun _ => rfl)
      (wp_of_value status (fun _ _ => trivial) ⟨swapReadStatus_readsOnly _ _, fun st => ?_⟩)
    exact @bootReadImageHeaders_lost oneSectorLoader oneSectorCut bs .primary 0 (by decide +kernel)
      (by decide +kernel) (by decide +kernel) (by decide +kernel) st _
  obtain ⟨_, -, same⟩ := wp_returns run
  exact same

/-- After this cut no boot finds the header, and none completes the update. -/
theorem one_sector_update_stuck :
    Layout oneSectorLoader 128 0 ∧ Start oneSectorLoader 128 0 smallImage otherImage oneSectorFlash ∧
      smallImage.size ≤ appMaxSize oneSectorLoader.board ∧ otherImage.size ≤ appMaxSize oneSectorLoader.board ∧
      ∃ fl, Interrupted (bootGo oneSectorLoader) oneSectorFlash fl ∧
        ∀ n, (bootGo oneSectorLoader (boots (bootGo oneSectorLoader) n fl)).value = .ok false ∧
          ¬Holds (boots (bootGo oneSectorLoader) n fl) .primary 0 otherImage := by
  refine ⟨oneSector_layout, oneSector_start, by decide +kernel, by decide +kernel, oneSectorCut,
    .cut (cutAt_mem (by decide +kernel)) (.none _), fun n => ?_⟩
  have same : boots (bootGo oneSectorLoader) n oneSectorCut = oneSectorCut :=
    boots_invariant (I := (· = oneSectorCut)) (fun _ eq => by rw [eq]; exact oneSectorCut_stays) rfl n
  rw [same]
  refine ⟨by decide +kernel, fun held => ?_⟩
  exact absurd (held 0 (by decide +kernel)) (by decide +kernel)

/-! ### The old image -/

/-- The old image is kept as well if it ends before the last sector, or the header of the new image makes it look long
enough. -/
theorem update_keeps_old (old new : Image b.validate) (layout : Layout b S last)
    (start : Start b S last old new fl) (several : 0 < last) (le : new.size ≤ appMaxSize b.board)
    (skips : sectorCount S old.size ≤ last ∨ last ≤ usedSectors S new.hdr old.tlvSize)
    {fl' : Flash} (cuts : Interrupted (bootGo b) fl fl') :
    (bootGo b fl').value = .ok true ∧ Holds (bootGo b fl').state .primary 0 new ∧
      Holds (bootGo b fl').state .secondary 0 old := by
  have safe : Safe layout (sectorCount S old.size) old new fl fl := .inl ⟨.refl _ _ _ _, rfl⟩
  have run := cuts.recovers (fun fl' safe => bootGo_wp start several le_rfl skips le safe) safe
  obtain ⟨booted, value, rfl, swapped⟩ := wp_returns run
  obtain ⟨-, covers⟩ := layout.sectors_le (size_le_swapSizeOf old new).1 start.lastIdx
  refine ⟨value, swapped.new_held, ?_⟩
  refine start.old_held.of_cells 0 0 (by omega) (by omega) covers fun i lt => ?_
  rw [Nat.zero_add]
  exact swapped.old_cells i lt

theorem update_keeps_old_demo :
    let b := demoLoader 7 64 (by decide)
    let fl := demoFlash b.board 64 smallImage largeImage
    let fl' := cutAt (bootGo b) (cutAt (bootGo b) fl 15) 9
    Start b 64 3 smallImage largeImage fl ∧ Layout b 64 3 ∧ sectorCount 64 smallImage.size ≤ 3 ∧
      Holds (bootGo b fl').state .primary 0 largeImage ∧
      Holds (bootGo b fl').state .secondary 0 smallImage := by
  have short : sectorCount 64 smallImage.size ≤ 3 := by decide +kernel
  exact ⟨demo_start, demo_layout, short, (update_keeps_old smallImage largeImage demo_layout demo_start (by decide)
    (by decide +kernel) (.inl short) (interrupted_twice (by decide +kernel) (by decide +kernel))).2⟩

def shrinkLoader : LoaderBuild := demoLoader 7 64 (by decide)

def shrinkFlash : Flash := demoFlash shrinkLoader.board 64 largeImage smallImage

/-- The update is cut when its last sector is due. The next boot leaves the last sector of the old image out, and
reports success. -/
theorem shrinking_update_loses_old :
    Layout shrinkLoader 64 3 ∧ Start shrinkLoader 64 3 largeImage smallImage shrinkFlash ∧
      largeImage.size ≤ appMaxSize shrinkLoader.board ∧ smallImage.size ≤ appMaxSize shrinkLoader.board ∧
      ∃ fl, Interrupted (bootGo shrinkLoader) shrinkFlash fl ∧ (bootGo shrinkLoader fl).value = .ok true ∧
        ¬Holds (bootGo shrinkLoader fl).state .secondary 0 largeImage := by
  obtain ⟨old_held, new_held⟩ := demoFlash_holds shrinkLoader.board 64 largeImage smallImage
  refine ⟨⟨rfl, ⟨.inr rfl, fun _ _ => rfl, fun _ => by decide⟩, by decide +kernel, by decide +kernel,
    by decide +kernel⟩, ⟨old_held, new_held, ⟨by decide +kernel, by decide +kernel, by decide +kernel⟩,
    by decide +kernel, by decide +kernel⟩, by decide +kernel, by decide +kernel,
    cutAt (bootGo shrinkLoader) shrinkFlash 26, .cut (cutAt_mem (by decide +kernel)) (.none _),
    by decide +kernel, fun held => ?_⟩
  -- byte 200 is in the fourth sector of the old image
  exact absurd (held 200 (by decide +kernel)) (by decide +kernel)

end Boots

end Adaboot.SwapOffset
