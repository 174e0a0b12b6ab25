import Adaboot.Uf2.Disk
import Adaboot.Uf2.Erase
import Adaboot.Uf2.Ghostfat

/-!
# Writing back what was read

`CURRENT.UF2` shows the flash device as UF2 blocks. A block that is written back finds its place if its address is an
offset of the device.
-/

namespace Adaboot.Uf2

/-- What the configuration says about the family and the board. -/
structure Identity where
  familyId : Nat
  boardId : Bytes
  boardName : Option Bytes
  boardUrl : Option Bytes
  versionString : Bytes
  familyId_lt : familyId < 2 ^ 32

def uf2FlashRead (fl : Nor.Flash (Option Nat)) (device : Option Nat) : ReadCb where
  read offset len := fl.read device offset len
  length_read _ _ := Nor.Flash.length_read _ _ _ _

/-- The region table of `uf2_disk_register`: the primary slot, and the areas the configuration
adds. -/
def uf2DiskRegister (map : FlashMap) (primaryId : Nat) (optional : List (Nat × Bytes)) (d : Disk) : Except Int Disk :=
  let ret := uf2DiskAddRegion map primaryId [115, 108, 111, 116, 48] d
  if ret.1 ≠ 0 then .error ret.1 else .ok (uf2DiskAddRegions map optional ret.2)

/-- The volume of `uf2_disk_register`, for a primary slot on a device at an address. -/
def diskVolume (ident : Identity) (primary : DiskArea) (flashBaseAddr : Nat)
    (fl : Nor.Flash (Option Nat)) : Volume where
  read := some (uf2FlashRead fl primary.device)
  readbackBase := u32 flashBaseAddr
  readbackSize := u32 (primary.faOff + primary.faSize)
  familyId := ident.familyId
  boardId := ident.boardId
  boardName := ident.boardName
  boardUrl := ident.boardUrl
  versionString := ident.versionString

def zeroState : State := ⟨0, 0, fun _ => 0, false, fun _ => false⟩

/-! ### Registered tables -/

section Register

variable {map : FlashMap} {primaryId : Nat} {optional : List (Nat × Bytes)} {d d' : Disk} {area : DiskArea}

theorem uf2DiskAddRegion_first (map : FlashMap) (areaId : Nat) (label : Bytes) (some : 0 < d.numDiskRegions) :
    0 < (uf2DiskAddRegion map areaId label d).2.numDiskRegions ∧
      (uf2DiskAddRegion map areaId label d).2.regions 0 = d.regions 0 := by
  unfold uf2DiskAddRegion
  split
  · exact ⟨some, rfl⟩
  split
  · exact ⟨some, rfl⟩
  next area _ =>
  simp only
  generalize (if d.numDiskRegions = 0 then area.device else d.primaryFlashDev) = primary
  split
  · exact ⟨some, rfl⟩
  · exact ⟨Nat.succ_pos _, if_neg some.ne⟩

/-- Region 0 is the primary slot. -/
structure Disk.First (d : Disk) (primaryId : Nat) (area : DiskArea) : Prop where
  nonempty : 0 < d.numDiskRegions
  ctx : (d.regions 0).ctx = primaryId
  base : (d.regions 0).base = area.faOff
  size : (d.regions 0).size = area.faSize
  routed : (d.regions 0).addressRouted = true

theorem uf2DiskRegister_spec {memory : Nat → Region} {dev₀ : Option Nat}
    (registered : uf2DiskRegister map primaryId optional (Disk.empty memory dev₀) = .ok d)
    (opened : map primaryId = .ok area) : d.Built map ∧ d.First primaryId area := by
  let label : Bytes := [115, 108, 111, 116, 48]
  have first : (uf2DiskAddRegion map primaryId label (Disk.empty memory dev₀)).2.First primaryId area := by
    simp only [uf2DiskAddRegion, Disk.empty, opened]
    exact ⟨Nat.one_pos, rfl, rfl, rfl, rfl⟩
  have built := (Disk.Built.empty map memory dev₀).add primaryId label
  unfold uf2DiskRegister at registered
  simp only at registered
  split at registered
  · simp at registered
  · cases registered
    refine List.foldlRecOn (motive := fun d : Disk => d.Built map ∧ d.First primaryId area) optional _
      ⟨built, first⟩ fun d inv added _ => ⟨inv.1.add added.1 added.2, ?_⟩
    obtain ⟨some, same⟩ := uf2DiskAddRegion_first map added.1 added.2 inv.2.nonempty
    exact ⟨some, by rw [same]; exact inv.2.ctx, by rw [same]; exact inv.2.base,
      by rw [same]; exact inv.2.size, by rw [same]; exact inv.2.routed⟩

end Register

/-! ### Blocks of the file -/

section Current

variable {vol : Volume} {cb : ReadCb} {i : Nat}

theorem currentPayloadLen_spec (size_lt : vol.readbackSize < 2 ^ 32) (lt : i < currentUf2NumBlocks vol) :
    0 < currentPayloadLen vol i ∧ currentPayloadLen vol i ≤ uf2PayloadSize ∧
      256 * i + currentPayloadLen vol i ≤ vol.readbackSize ∧ 256 * i + 256 < 2 ^ 32 ∧
      u32 (i * uf2PayloadSize) = 256 * i := by
  unfold currentUf2NumBlocks at lt
  split at lt
  · omega
  unfold u32 uf2PayloadSize at lt
  have last : 256 * i + 256 < 2 ^ 32 := by omega
  have offset : u32 (i * uf2PayloadSize) = 256 * i := by
    rw [u32_of_lt (by unfold uf2PayloadSize; omega), Nat.mul_comm]
    rfl
  have len : currentPayloadLen vol i = min 256 (vol.readbackSize - 256 * i) := by
    unfold currentPayloadLen
    simp only [offset]
    unfold uf2PayloadSize
    rw [u32_of_lt last]
    split
    · unfold u32
      omega
    · omega
  unfold uf2PayloadSize
  exact ⟨by omega, by omega, by omega, last, offset⟩

/-- What the bootloader sees of a block of the file. -/
structure IsCurrent (vol : Volume) (cb : ReadCb) (i : Nat) (block : Block) : Prop where
  isUf2 : block.isUf2 = true
  family : vol.familyId ≠ 0 → block.hasFlag uf2FlagFamilyId = true ∧ block.familyId = vol.familyId
  targetAddr : block.targetAddr = u32 (vol.readbackBase + 256 * i)
  payloadSize : block.payloadSize = currentPayloadLen vol i
  blockNo : block.blockNo = i
  numBlocks : block.numBlocks = currentUf2NumBlocks vol
  payload : block.data.take (currentPayloadLen vol i) = cb.read (256 * i) (currentPayloadLen vol i)
  board : vol.boardId ≠ [] → (uf2FindExtTag block uf2ExtTagBoardId = .found vol.boardId ↔
    boardTagFits vol (currentPayloadLen vol i) = true)
  untagged : uf2FindExtTag block uf2ExtTagPartition = .absent

theorem current_dataAt {n k : Nat} (lt : k < uf2DataSize) : (buildCurrentUf2Block vol cb i n).dataAt k =
      (cb.read (u32 (i * uf2PayloadSize)) (currentPayloadLen vol i) ++
        boardTag vol (currentPayloadLen vol i)).getD k 0 := by
  unfold buildCurrentUf2Block
  rw [dataAt_pack lt, fill_getD _ _ lt]

theorem current_tags {n : Nat} (size_lt : vol.readbackSize < 2 ^ 32)
    (lt : i < currentUf2NumBlocks vol) (board : vol.boardId ≠ []) (tagType : Nat) :
    findExtTagLoop (buildCurrentUf2Block vol cb i n) tagType uf2DataSize (currentPayloadLen vol i) =
      if boardTagFits vol (currentPayloadLen vol i) then
        if uf2ExtTagBoardId = tagType then .found vol.boardId else .absent else .absent := by
  obtain ⟨-, le, -⟩ := currentPayloadLen_spec size_lt lt
  unfold uf2PayloadSize at le
  have behind : ∀ {k}, currentPayloadLen vol i + k < uf2DataSize →
      (buildCurrentUf2Block vol cb i n).dataAt (currentPayloadLen vol i + k) =
        (boardTag vol (currentPayloadLen vol i)).getD k 0 := by
    intro k within
    rw [current_dataAt within, List.getD, List.getElem?_append_right (by rw [cb.length_read]; omega),
      cb.length_read, Nat.add_sub_cancel_left]
    rfl
  split
  next fits =>
    have tag : boardTag vol (currentPayloadLen vol i) = _ := if_pos ⟨board, fits⟩
    have fits := of_decide_eq_true fits
    let spec : TagSpec := ⟨uf2ExtTagBoardId, vol.boardId, by decide, by omega⟩
    have blob : buildExtensionBlob [spec] = boardTag vol (currentPayloadLen vol i) ++
        List.replicate ((4 - (4 + vol.boardId.length) % 4) % 4 + 4) 0 := by
      rw [tag, List.replicate_add, ← List.append_assoc]
      simp [buildExtensionBlob, packExtensionTag, spec, Nat.add_comm, List.replicate]
      omega
    have room : currentPayloadLen vol i + (buildExtensionBlob [spec]).length ≤ uf2DataSize := by
      rw [blob, tag]
      simp only [List.length_append, List.length_cons, List.length_replicate]
      unfold uf2DataSize
      omega
    rw [findExtTagLoop_blob (fun k within => ?_) room (show 1 < uf2DataSize by decide)]
    · by_cases same : uf2ExtTagBoardId = tagType <;> simp [lookupTag, spec, same]
    · rw [behind (by omega), blob, getD_append_zeros]
  next none =>
    have tag : boardTag vol (currentPayloadLen vol i) = [] := if_neg fun h => none h.2
    have zero := behind (k := 0) (by unfold uf2DataSize; omega)
    rw [tag] at zero
    show findExtTagLoop _ tagType (475 + 1) _ = _
    rw [findExtTagLoop, u32_of_lt (by omega), if_pos (by unfold uf2DataSize; omega)]
    rw [Nat.add_zero] at zero
    simp only [zero]
    rfl

theorem isCurrent (size_lt : vol.readbackSize < 2 ^ 32) (family_lt : vol.familyId < 2 ^ 32)
    (lt : i < currentUf2NumBlocks vol) {block : Block}
    (built : block = buildCurrentUf2Block vol cb i (currentUf2NumBlocks vol)) : IsCurrent vol cb i block := by
  obtain ⟨-, le, inside, last, offset⟩ := currentPayloadLen_spec size_lt lt
  have count : currentUf2NumBlocks vol < 2 ^ 32 := by
    unfold currentUf2NumBlocks
    split
    · decide
    · exact Nat.lt_of_le_of_lt (Nat.div_le_self _ _) (u32_lt _)
  have small : (currentFields vol i (currentUf2NumBlocks vol)).payloadSize < 2 ^ 32 := by
    show currentPayloadLen vol i < _
    omega
  obtain ⟨length, packed⟩ : ∃ length, block = Block.pack (currentFields vol i (currentUf2NumBlocks vol))
      (fill uf2DataSize (cb.read (u32 (i * uf2PayloadSize)) (currentPayloadLen vol i) ++
        boardTag vol (currentPayloadLen vol i))) length := ⟨length_fill _ _, built⟩
  have size : block.payloadSize = currentPayloadLen vol i := by
    rw [packed]
    exact payloadSize_pack small
  have flags : block.flags = (currentFields vol i (currentUf2NumBlocks vol)).flags := by
    rw [packed]
    exact flags_pack flags_lt
  have scan : ∀ tagType, uf2FindExtTag block tagType =
      if vol.boardId ≠ [] ∧ boardTagFits vol (currentPayloadLen vol i) ∧ uf2ExtTagBoardId = tagType then
        .found vol.boardId
      else .absent := by
    intro tagType
    unfold uf2FindExtTag
    rw [Block.hasFlag, flags, size]
    have flagged : (currentFields vol i (currentUf2NumBlocks vol)).flags &&& uf2FlagExtensionTags ≠ 0 ↔
        vol.boardId ≠ [] := flags_tags
    by_cases board : vol.boardId = []
    · rw [decide_eq_false fun flag => flagged.mp flag board]
      simp [board]
    · rw [decide_eq_true (flagged.mpr board), if_pos rfl, built, current_tags size_lt lt board]
      by_cases fits : boardTagFits vol (currentPayloadLen vol i) = true <;> simp [board, fits]
  constructor
  · rw [packed]
    exact isUf2_pack
  · intro family
    constructor
    · rw [Block.hasFlag, flags]
      exact decide_eq_true (flags_family.mpr family)
    · rw [packed]
      exact familyId_pack family_lt
  · rw [packed, ← offset]
    exact targetAddr_pack (u32_lt _)
  · exact size
  · rw [packed]
    exact blockNo_pack (lt.trans count)
  · rw [packed]
    exact numBlocks_pack count
  · have read_length := cb.length_read (256 * i) (currentPayloadLen vol i)
    have room : currentPayloadLen vol i ≤ uf2DataSize := le.trans (by decide)
    rw [packed, data_pack, offset, List.take_append_of_le_length (by rw [length_fill]; omega),
      take_fill (by omega) (by rw [List.length_append]; omega), List.take_left' read_length]
  · intro board
    rw [scan]
    simp [board]
  · rw [scan]
    exact if_neg fun h => absurd h.2.2 (by decide)

end Current

/-! ### Writing back -/

abbrev Identity.cfg (ident : Identity) (d : Disk) : Cfg := d.cfg ident.familyId ident.boardId

section WriteBack

variable {map : FlashMap} {primaryId maxBlocks i : Nat} {d : Disk} {area : DiskArea}
  {ident : Identity} {baseAddr : Nat} {fl : Nor.Flash (Option Nat)} {block : Block}
  {familyId offset len : Nat} {boardId : Bytes}

theorem Disk.First.route (first : d.First primaryId area)
    (untagged : uf2FindExtTag block uf2ExtTagPartition = .absent)
    (start : area.faOff ≤ block.targetAddr) (inside : block.targetAddr < area.faOff + area.faSize)
    (end_lt : area.faOff + area.faSize < 2 ^ 32) : uf2RouteBlock (d.cfg familyId boardId) block = Option.some 0 := by
  have table := Disk.table_cfg first.nonempty familyId boardId
  have count := Disk.numRegions_cfg first.nonempty familyId boardId
  have contains : uf2RegionContains (d.cfg familyId boardId) 0 block.targetAddr = true := by
    simp only [uf2RegionContains, uf2RegionBase, uf2RegionSize, table, first.base, first.size,
      u32_of_lt end_lt, decide_eq_true_eq]
    exact ⟨start, inside⟩
  have routed : (d.cfg familyId boardId).routed 0 = true := first.routed
  unfold uf2RouteBlock
  rw [untagged]
  obtain ⟨n, some⟩ : ∃ n, d.numDiskRegions = n + 1 := ⟨_, (Nat.succ_pred_eq_of_pos first.nonempty).symm⟩
  rw [uf2FindRegion, count, some, List.range_succ_eq_map, List.find?_cons_of_pos]
  rw [routed, contains]
  rfl

theorem Disk.First.erase (first : d.First primaryId area) (opened : map primaryId = .ok area)
    {endOffset : Nat} {rc : Int}
    {s s₁ : Session (Nor.Flash (Option Nat) × List Call)} (fresh : s.state.eraseFrontier 0 = 0)
    (erased : eraseUpTo (d.cfg familyId boardId) (diskCallbacks map).logged 0 endOffset s = (rc, s₁)) :
    rc = 0 ∧ ∀ device j, s₁.dev.1 device j = s.dev.1 device j ∨ s₁.dev.1 device j = Nor.erasedVal := by
  have table := Disk.table_cfg first.nonempty familyId boardId
  have ctx : uf2RegionCtx (d.cfg familyId boardId) 0 = primaryId := by
    simp only [uf2RegionCtx, table, first.ctx]
  have size : uf2RegionSize (d.cfg familyId boardId) 0 = area.faSize := by
    simp only [uf2RegionSize, table, first.size]
  have stop_le : eraseEnd (d.cfg familyId boardId) 0 endOffset ≤ area.faSize := by
    unfold eraseEnd
    simp only
    split <;> omega
  obtain ⟨ok, -, bytes⟩ := eraseLoop_works
    (I := fun s' : Session (Nor.Flash (Option Nat) × List Call) =>
      ((d.cfg familyId boardId).eraseSize ∣ s'.state.eraseFrontier 0 ∨ s'.state.eraseFrontier 0 = area.faSize) ∧
      ∀ device j, s'.dev.1 device j = s.dev.1 device j ∨ s'.dev.1 device j = Nor.erasedVal)
    ⟨.inl (by rw [fresh]; exact Nat.dvd_zero _), fun _ _ => .inl rfl⟩ erased fun s' inv more => by
      obtain ⟨aligned, bytes⟩ := inv
      have aligned := aligned.resolve_right (by omega)
      obtain ⟨inside, small, next⟩ := eraseLen_aligned aligned more
      rw [size] at inside next
      simp only [ctx, Callbacks.logged, diskCallbacks, opened, if_pos inside, State.setFrontier, if_true, small]
      refine ⟨trivial, next, fun device j => ?_⟩
      rcases Nor.Flash.erase_or_same s'.dev.1 area.device device (area.faOff + s'.state.eraseFrontier 0)
        (eraseLen (d.cfg familyId boardId) 0 (s'.state.eraseFrontier 0)) j with same | erased
      · rw [same]
        exact bytes device j
      · exact .inr erased
  exact ⟨ok, bytes⟩

/-- A write to the primary slot that stays inside works, and it writes at least its own data. -/
theorem alignedLen_spec (room : area.faSize + area.writeBlockSize ≤ 2 ^ 32)
    (inside : offset + len ≤ area.faSize) :
    len ≤ alignedLen area offset len ∧ offset + alignedLen area offset len ≤ area.faSize := by
  obtain ⟨k, -, size⟩ := area.writeBlockSize_pow
  have pos : 0 < area.writeBlockSize := size ▸ Nat.two_pow_pos k
  unfold alignedLen
  split
  next =>
    rw [u32_of_lt (by omega)]
    have parts := Nat.div_add_mod (len + (area.writeBlockSize - 1)) area.writeBlockSize
    have rest := Nat.mod_lt (len + (area.writeBlockSize - 1)) pos
    rw [Nat.mul_comm] at parts
    simp only
    rw [u32_of_lt (by omega)]
    refine ⟨?_, ?_⟩ <;> split <;> omega
  next => exact ⟨le_rfl, inside⟩

/-- Writing bytes to where they came from puts them there again, whether they were erased or not. -/
theorem diskCallbacks_rewrite (opened : map primaryId = .ok area)
    (room : area.faSize + area.writeBlockSize ≤ 2 ^ 32) {fl₁ : Nor.Flash (Option Nat)}
    {data : Bytes} (inside : offset + len ≤ area.faSize)
    (kept : ∀ j, fl₁ area.device j = fl area.device j ∨ fl₁ area.device j = Nor.erasedVal)
    (source : data.take len = fl.read area.device (area.faOff + offset) len) :
    let ret := (diskCallbacks map).write primaryId offset data len fl₁
    ret.1 = 0 ∧ ret.2.read area.device (area.faOff + offset) len =
      fl.read area.device (area.faOff + offset) len := by
  obtain ⟨le, fits⟩ := alignedLen_spec room inside
  simp only [diskCallbacks, opened, if_pos fits, true_and]
  refine Nor.Flash.read_congr fun k lt => ?_
  have byte : (data.take (alignedLen area offset len)).getD k Nor.erasedVal =
      fl area.device (area.faOff + offset + k) := by
    rw [← Nor.Flash.read_getD fl area.device (area.faOff + offset) len k Nor.erasedVal lt, ← source,
      List.getD, List.getD, List.getElem?_take_of_lt lt, List.getElem?_take_of_lt (by omega)]
  rw [Nor.Flash.program_at, byte]
  rcases kept (area.faOff + offset + k) with same | erased
  · rw [same, UInt8.and_self]
  · rw [erased, Nor.Flash.erasedVal_and]

def writeBack (map : FlashMap) (d : Disk) (area : DiskArea) (ident : Identity) (baseAddr maxBlocks : Nat)
    (fl : Nor.Flash (Option Nat)) (i : Nat) : Int × Session (Nor.Flash (Option Nat) × List Call) :=
  ghostfatWriteSector (d.cfg ident.familyId ident.boardId) (diskCallbacks map).logged maxBlocks
    (currentStartSector + i) (readBlock (diskVolume ident area baseAddr fl) (currentStartSector + i))
    ⟨uf2Init zeroState maxBlocks, (fl, [])⟩

/-- The block was accepted and its bytes were written to where they were. -/
structure Rewritten (primaryId : Nat) (area : DiskArea) (fl : Nor.Flash (Option Nat)) (i len : Nat)
    (ret : Int × Session (Nor.Flash (Option Nat) × List Call)) : Prop where
  accepted : ret.1 = 0
  written : ∃ data, Call.write primaryId (256 * i - area.faOff) data len 0 ∈ ret.2.dev.2 ∧
    data.take len = fl.read area.device (256 * i) len
  same : ret.2.dev.1.read area.device (256 * i) len = fl.read area.device (256 * i) len

section Slot

variable (first : d.First primaryId area) (opened : map primaryId = .ok area)
  (lt : i < currentUf2NumBlocks (diskVolume ident area baseAddr fl)) (inside : area.faOff ≤ 256 * i)

include lt inside in
theorem payload_in_slot :
    let len := currentPayloadLen (diskVolume ident area baseAddr fl) i
    0 < len ∧ len ≤ uf2PayloadSize ∧ 256 * i + len ≤ area.faOff + area.faSize ∧
      area.faOff + area.faSize < 2 ^ 32 ∧ 256 * i + 256 < 2 ^ 32 := by
  obtain ⟨pos, le, within, last, -⟩ := currentPayloadLen_spec (u32_lt _) lt
  have size := area.faSize_lt
  have total : (diskVolume ident area baseAddr fl).readbackSize = (area.faOff + area.faSize) % 2 ^ 32 := rfl
  rw [total] at within
  intro len
  refine ⟨pos, le, ?_, ?_, last⟩ <;> omega

variable (current : IsCurrent (diskVolume ident area baseAddr fl) (uf2FlashRead fl area.device) i block)

include current in
theorem IsCurrent.native_iff : foreign (ident.cfg d) block = false ↔
    ident.boardId = [] ∨ boardTagFits (diskVolume ident area baseAddr fl)
      (currentPayloadLen (diskVolume ident area baseAddr fl) i) = true := by
  have family : ¬(ident.familyId ≠ 0 ∧
      ¬(block.hasFlag uf2FlagFamilyId = true ∧ block.familyId = ident.familyId)) := by
    rintro ⟨wanted, other⟩
    exact other (current.family wanted)
  by_cases board : ident.boardId = []
  · refine iff_of_true (decide_eq_false ?_) (.inl board)
    rintro (other | ⟨wanted, -⟩)
    · exact family other
    · exact wanted board
  · have tag : uf2FindExtTag block uf2ExtTagBoardId = .found ident.boardId ↔ _ := current.board board
    rw [or_iff_right board, ← tag]
    constructor
    · intro native
      have native := of_decide_eq_false native
      by_contra other
      exact native (.inr ⟨board, other⟩)
    · intro found
      refine decide_eq_false ?_
      rintro (other | ⟨-, other⟩)
      · exact family other
      · exact other found

include first lt inside current in
theorem IsCurrent.checked (base : u32 baseAddr = 0)
    (count : currentUf2NumBlocks (diskVolume ident area baseAddr fl) ≤ maxBlocks)
    (native : foreign (ident.cfg d) block = false) :
    Checked (ident.cfg d) maxBlocks block 0 (256 * i - area.faOff) := by
  obtain ⟨pos, le, within, end_lt, last⟩ := payload_in_slot lt inside
  have table := Disk.table_cfg first.nonempty ident.familyId ident.boardId
  have addr : block.targetAddr = 256 * i := by
    rw [current.targetAddr]
    show u32 (u32 baseAddr + 256 * i) = _
    rw [base, u32_of_lt (by omega), Nat.zero_add]
  have offset : u32 (block.targetAddr + 2 ^ 32 - uf2RegionBase (ident.cfg d) 0) =
      256 * i - area.faOff := by
    simp only [uf2RegionBase, table, first.base, addr]
    unfold u32
    omega
  have size : uf2RegionSize (ident.cfg d) 0 = area.faSize := by
    simp only [uf2RegionSize, table, first.size]
  refine ⟨current.isUf2, native, ?_, ?_, ?_, ?_, ?_, offset.symm, ?_⟩
  · rw [current.blockNo, current.numBlocks]
    exact lt
  · rw [current.numBlocks]
    exact count
  · rw [current.payloadSize]
    exact pos
  · rw [current.payloadSize]
    exact le
  · exact first.route current.untagged (by omega) (by omega) end_lt
  · rw [current.payloadSize, size, u32_of_lt (by omega)]
    omega

include first opened lt inside current in
theorem IsCurrent.rewritten (room : area.faSize + area.writeBlockSize ≤ 2 ^ 32) (few : d.numDiskRegions ≤ uf2MaxRegions)
    (checked : Checked (ident.cfg d) maxBlocks block 0 (256 * i - area.faOff)) :
    Rewritten primaryId area fl i (currentPayloadLen (diskVolume ident area baseAddr fl) i)
      (uf2ProcessBlock (ident.cfg d) (diskCallbacks map).logged maxBlocks block
        ⟨uf2Init zeroState maxBlocks, (fl, [])⟩) := by
  obtain ⟨pos, le, within, end_lt, last⟩ := payload_in_slot lt inside
  let start : Session (Nor.Flash (Option Nat) × List Call) := ⟨uf2Init zeroState maxBlocks, (fl, [])⟩
  have table := Disk.table_cfg first.nonempty ident.familyId ident.boardId
  have ctx : uf2RegionCtx (ident.cfg d) 0 = primaryId := by
    simp only [uf2RegionCtx, table, first.ctx]
  have admits : Admitted (ident.cfg d) maxBlocks block start 0
      (256 * i - area.faOff) := ⟨checked.ok fun _ => few, .inl rfl⟩
  have clear : start.state.blockMap block.blockNo = false := by
    show (if _ then false else false) = false
    split <;> rfl
  have writes : ∀ {s₁ : Session (Nor.Flash (Option Nat) × List Call)},
      (∀ device j, s₁.dev.1 device j = fl device j ∨ s₁.dev.1 device j = Nor.erasedVal) →
      ∃ fl', (diskCallbacks map).logged.write primaryId (256 * i - area.faOff) block.data
          block.payloadSize s₁.dev = (0, fl', s₁.dev.2 ++ [.write primaryId (256 * i - area.faOff)
            block.data block.payloadSize 0]) ∧
        fl'.read area.device (256 * i) (currentPayloadLen (diskVolume ident area baseAddr fl) i) =
          fl.read area.device (256 * i) (currentPayloadLen (diskVolume ident area baseAddr fl) i) := by
    intro s₁ kept
    have place : area.faOff + (256 * i - area.faOff) = 256 * i := by omega
    obtain ⟨ok, read⟩ := diskCallbacks_rewrite opened room
      (show 256 * i - area.faOff + currentPayloadLen (diskVolume ident area baseAddr fl) i ≤ area.faSize
        by omega) (kept area.device) (place.symm ▸ current.payload)
    rw [place] at read
    refine ⟨_, ?_, read⟩
    simp only [current.payloadSize, Callbacks.logged, ok]
  have outcome := uf2ProcessBlock_outcome (ident.cfg d) (diskCallbacks map).logged maxBlocks block start
  obtain ⟨ok, ⟨seen, -⟩ | ⟨-, s₁, bytes, received⟩⟩ := outcome.works admits (first.erase opened rfl) fun s₁ bytes => by
    obtain ⟨fl', write, -⟩ := writes bytes
    rw [ctx, write]
  · exact absurd (clear.symm.trans seen) Bool.false_ne_true
  · obtain ⟨fl', write, kept⟩ := writes bytes
    rw [ctx, write] at received
    refine ⟨ok, ⟨block.data, ?_, current.payload⟩, ?_⟩
    · rw [received, ← current.payloadSize]
      exact List.mem_append_right _ (List.mem_singleton.mpr rfl)
    · rw [received]
      exact kept

end Slot

/-- Only the right address leads back to where the bytes came from. -/
theorem base_of_target (addr : u32 (u32 baseAddr + 256 * i) = 256 * i) : u32 baseAddr = 0 := by
  unfold u32 at *
  omega

/-- A sector of `CURRENT.UF2` is accepted and rewrites its bytes exactly if the device is at address 0, the blocks are
not too many, and the tag with the board has room. -/
theorem readback_rewrites (map : FlashMap) (d : Disk) {optional : List (Nat × Bytes)} {memory : Nat → Region}
    {dev₀ : Option Nat}
    (registered : uf2DiskRegister map primaryId optional (Disk.empty memory dev₀) = .ok d)
    (opened : map primaryId = .ok area) (room : area.faSize + area.writeBlockSize ≤ 2 ^ 32)
    (ident : Identity) (baseAddr maxBlocks : Nat) (fl : Nor.Flash (Option Nat))
    (lt : i < currentUf2NumBlocks (diskVolume ident area baseAddr fl)) (inside : area.faOff ≤ 256 * i) :
    let vol := diskVolume ident area baseAddr fl
    Rewritten primaryId area fl i (currentPayloadLen vol i) (writeBack map d area ident baseAddr maxBlocks fl i) ↔
      u32 baseAddr = 0 ∧ currentUf2NumBlocks vol ≤ maxBlocks ∧
        (ident.boardId = [] ∨ boardTagFits vol (currentPayloadLen vol i) = true) := by
  intro vol
  obtain ⟨built, first⟩ := uf2DiskRegister_spec registered opened
  obtain ⟨block, made⟩ : ∃ block, block =
    buildCurrentUf2Block vol (uf2FlashRead fl area.device) i (currentUf2NumBlocks vol) := ⟨_, rfl⟩
  have current := isCurrent (u32_lt _) ident.familyId_lt lt made
  have written : writeBack map d area ident baseAddr maxBlocks fl i =
      uf2ProcessBlock (ident.cfg d) (diskCallbacks map).logged maxBlocks block
        ⟨uf2Init zeroState maxBlocks, (fl, [])⟩ := by
    unfold writeBack
    rw [readBlock_current rfl lt, ← made, ghostfatWriteSector, if_neg (by unfold currentStartSector; omega),
      if_neg fun other => other current.isUf2]
  rw [written]
  constructor
  · intro rewritten
    obtain ⟨data, mem, -⟩ := rewritten.written
    rcases (uf2ProcessBlock_outcome (ident.cfg d) (diskCallbacks map).logged maxBlocks block _).serves
      (s := ⟨uf2Init zeroState maxBlocks, fl⟩) with ⟨none, -⟩ | ⟨r, offset, admitted, -, -, on_r⟩
    · exact absurd none (List.ne_nil_of_mem mem)
    have checked := uf2CheckBlock_ok admitted.check
    refine ⟨?_, current.numBlocks ▸ checked.numBlocks_le, current.native_iff.mp checked.native⟩
    obtain ⟨r_lt, addr, -⟩ := checked.located
    rw [Disk.numRegions_cfg first.nonempty] at r_lt
    have table := Disk.table_cfg first.nonempty ident.familyId ident.boardId
    have ctx := (on_r _ mem).ctx_eq
    simp only [Call.ctx, uf2RegionCtx, table] at ctx
    -- the region of the write is the primary slot, maybe under another name
    obtain ⟨area', opened', base, -⟩ := built.entry r r_lt
    cases opened.symm.trans (ctx ▸ opened')
    simp only [uf2RegionBase, table, base] at addr
    rw [← (on_r _ mem).at_offset, current.targetAddr, Nat.add_sub_cancel' inside] at addr
    exact base_of_target addr
  · rintro ⟨base, count, board⟩
    have checked := current.checked first lt inside base count (current.native_iff.mpr board)
    exact current.rewritten first opened lt inside room built.count_le checked

end WriteBack

/-- No family and no board. -/
def anyIdentity : Identity := ⟨0, [], none, none, [], Cfg.zero_lt⟩

theorem readback_rewrites_demo : Rewritten 0 demoArea (fun _ _ => 0xa5) 16 256
      (writeBack (slotMap demoArea) (slotDisk demoArea) demoArea anyIdentity 0 64 (fun _ _ => 0xa5) 16) :=
  (readback_rewrites (slotMap demoArea) (slotDisk demoArea) rfl rfl (by decide) anyIdentity 0 64
    (fun _ _ => 0xa5) (by decide) (by decide)).mpr ⟨by decide, by decide, .inl rfl⟩

/-- On a device that is mapped at another address than 0 the block is refused. -/
theorem mapped_device_refuses :
    let ret := writeBack (slotMap demoArea) (slotDisk demoArea) demoArea anyIdentity 0x10000000 64 (fun _ _ => 0xa5) 16
    16 < currentUf2NumBlocks (diskVolume anyIdentity demoArea 0x10000000 fun _ _ => 0xa5) ∧
      demoArea.faOff ≤ 256 * 16 ∧ ret.1 = -1 ∧ ¬Rewritten 0 demoArea (fun _ _ => 0xa5) 16 256 ret := by
  intro ret
  have refused : ret.1 = -1 := by decide +kernel
  refine ⟨by decide, by decide, refused, fun rewritten => ?_⟩
  exact absurd (refused.symm.trans rewritten.accepted) (by decide)

end Adaboot.Uf2
