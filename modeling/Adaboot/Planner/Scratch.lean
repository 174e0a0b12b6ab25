import Adaboot.Planner.Predefined

/-!
# Planning from scratch

`plan_partitions`: which partitions go where depends on the flash devices, internal and external together, or only one
of the two kinds.
-/

namespace Adaboot.Planner

open Spans

def mcubootSize : Int := 128 * kb

section Sizes

variable (edt : Edt)

def nvmSize (erase : Int) : Int := if dataFlash edt = [] then erase else 0

def nvmPartitions (offset erase : Int) : List Partition :=
  if dataFlash edt = [] then [nvmPartition offset erase] else []

def filesystemRest (total erase cursor : Int) : List Partition :=
  let fsSize := alignDown (total - cursor) erase
  if fsSize > 0 then [filesystemPartition edt cursor fsSize] else []

/-- An eighth of the device and at most 2 MB, and less if that leaves too little for the file system. -/
def xipSlotSize (total erase bootSize tailMin : Int) : Int :=
  let slotSize := min (alignDown (total / 8) erase) (alignDown (2 * mb) erase)
  if slotSize > mb then
    let maxSlot := alignDown ((total - bootSize - tailMin - alignUp mb erase) / 2) erase
    min slotSize (max maxSlot erase)
  else slotSize

end Sizes

/-! ### The topologies -/

section Topologies

variable (edt : Edt) (opts : PlanOptions) (int ext : FlashDevice)

/-- The slot size where the internal flash has room only for the boot loader. -/
def smallInternalSlotSize : Int :=
  xipSlotSize ext.totalSize ext.eraseSize 0 (alignUp storageSize ext.eraseSize + nvmSize edt ext.eraseSize)

def planSmallInternal : List PlannedDevice :=
  let erase := ext.eraseSize
  let slotSize := smallInternalSlotSize edt ext
  let slots := if secondarySlot edt opts then [slot0Partition 0 slotSize, slot1Partition slotSize slotSize]
    else [slot0Partition 0 slotSize]
  let cursor := if secondarySlot edt opts then slotSize + slotSize else slotSize
  let storageSize := alignUp storageSize erase
  let tail := storagePartition cursor storageSize :: nvmPartitions edt (cursor + storageSize) erase
  let cursor := cursor + storageSize
  let cursor := if dataFlash edt = [] then alignUp (cursor + erase) erase else cursor
  [int.planned [bootPartition 0 (alignUp mcubootSize int.eraseSize)],
    ext.planned (slots ++ tail ++ filesystemRest edt ext.totalSize erase cursor)]

def planSingleApp : List PlannedDevice :=
  let erase := int.eraseSize
  let slot0Offset := alignUp mcubootSize erase
  let storageSize := alignUp storageSize erase
  let slot0Size := alignDown (int.totalSize - slot0Offset - storageSize - nvmSize edt erase) erase
  let cursor := slot0Offset + slot0Size
  [int.planned ([bootPartition 0 slot0Offset, slot0Partition slot0Offset slot0Size,
      storagePartition cursor storageSize] ++ nvmPartitions edt (cursor + storageSize) erase),
    ext.planned [filesystemPartition edt 0 (alignDown ext.totalSize ext.eraseSize)]]

/-- Both slots are whole blocks of the larger erase size. -/
def swapSlot0Size : Int :=
  alignDown (int.totalSize - alignUp mcubootSize int.eraseSize) (max int.eraseSize ext.eraseSize)

/-- An update by offset needs one more block in the second slot. -/
def swapSlot1Size : Int :=
  if opts.overwriteOnly then swapSlot0Size int ext
  else swapSlot0Size int ext + max int.eraseSize ext.eraseSize

def storageOnInternal : Bool :=
  int.totalSize - (alignUp mcubootSize int.eraseSize + swapSlot0Size int ext) ≥ alignUp storageSize int.eraseSize

def swapSlot1Offset : Int :=
  if storageOnInternal int ext then alignUp (nvmSize edt ext.eraseSize) ext.eraseSize
  else alignUp (alignUp storageSize ext.eraseSize + nvmSize edt ext.eraseSize) ext.eraseSize

def planSwap : List PlannedDevice :=
  let slot0Offset := alignUp mcubootSize int.eraseSize
  let slot0Size := swapSlot0Size int ext
  let onInternal := storageOnInternal int ext
  let intStorage := if onInternal then
    [storagePartition (slot0Offset + slot0Size) (alignUp storageSize int.eraseSize)] else []
  let extStorageSize := alignUp storageSize ext.eraseSize
  let extStorage := if onInternal then [] else [storagePartition 0 extStorageSize]
  let nvmOffset := if onInternal then 0 else extStorageSize
  let slot1Offset := swapSlot1Offset edt int ext
  let slot1Size := swapSlot1Size opts int ext
  let fsOffset := alignUp (slot1Offset + slot1Size) ext.eraseSize
  let fsSize := alignDown (ext.totalSize - fsOffset) ext.eraseSize
  [int.planned ([bootPartition 0 slot0Offset, slot0Partition slot0Offset slot0Size] ++ intStorage),
    ext.planned (extStorage ++ nvmPartitions edt nvmOffset ext.eraseSize ++
      [slot1Partition slot1Offset slot1Size, filesystemPartition edt fsOffset fsSize])]

def planInternal : List PlannedDevice :=
  let erase := int.eraseSize
  let bootSize := alignUp mcubootSize erase
  let storageSize := alignUp storageSize erase
  let remaining := int.totalSize - bootSize - storageSize - nvmSize edt erase
  let slot0Size := alignDown (remaining / 2) erase
  let storageOffset := bootSize + slot0Size
  let nvmOffset := storageOffset + storageSize
  let fsOffset := nvmOffset + nvmSize edt erase
  let fsSize := alignDown (int.totalSize - fsOffset) erase
  [int.planned ([bootPartition 0 bootSize, slot0Partition bootSize slot0Size,
      storagePartition storageOffset storageSize] ++ nvmPartitions edt nvmOffset erase ++
    [filesystemPartition edt fsOffset fsSize])]

def xipBootSize : Int := alignUp (mcubootSize * 2) ext.eraseSize

def xipSlots : Int :=
  xipSlotSize ext.totalSize ext.eraseSize (xipBootSize ext) (alignUp storageSize ext.eraseSize + ext.eraseSize)

def planExternal : List PlannedDevice :=
  let erase := ext.eraseSize
  let bootSize := xipBootSize ext
  let slotSize := xipSlots ext
  let slot1Offset := bootSize + slotSize
  let storageOffset := slot1Offset + slotSize
  let storageSize := alignUp storageSize erase
  let nvmOffset := storageOffset + storageSize
  let fsOffset := nvmOffset + erase
  let fsSize := alignDown (ext.totalSize - fsOffset) erase
  [ext.planned [bootPartition 0 bootSize, slot0Partition bootSize slotSize,
    slot1Partition slot1Offset slotSize, storagePartition storageOffset storageSize,
    nvmPartition nvmOffset erase, filesystemPartition edt fsOffset fsSize]]

end Topologies

/-- A device for data is used entirely for the nvm partition. -/
def planDataFlash (edt : Edt) : List PlannedDevice :=
  match dataFlash edt with
  | [] => []
  | dev :: _ =>
    let nvmSize := alignDown dev.totalSize dev.eraseSize
    if nvmSize > 0 then [dev.planned [nvmPartition 0 nvmSize]] else []

/-- The part of `plan_partitions` for boards without a predefined layout. -/
def planFromScratch (edt : Edt) (opts : PlanOptions) : List PlannedDevice :=
  let slots := match internalFlash edt, externalFlash edt with
    | int :: _, ext :: _ =>
      if int.totalSize - alignUp mcubootSize int.eraseSize < slot0MinSize then planSmallInternal edt opts int ext
      else if ¬ secondarySlot edt opts then planSingleApp edt int ext
      else planSwap edt opts int ext
    | int :: _, [] => planInternal edt int
    | [], ext :: _ => planExternal edt ext
    | [], [] => []
  slots ++ planDataFlash edt

def planPartitions (edt : Edt) (opts : PlanOptions) (existing : Existing) (deletedDevices : List String) :
    List PlannedDevice :=
  if hasPredefinedMcuboot edt then planPartitionsPredefined edt opts existing deletedDevices
  else planFromScratch edt opts

/-! ### When the plan is right -/

def WellPlanned (plan : List PlannedDevice) : Prop := ∀ dev ∈ plan, WellPlaced dev.totalSize dev.eraseSize dev.parts

theorem wellPlanned_append {plan rest : List PlannedDevice} :
    WellPlanned (plan ++ rest) ↔ WellPlanned plan ∧ WellPlanned rest := List.forall_mem_append

theorem wellPlanned_pair {int ext : FlashDevice} {intParts extParts : List Partition} :
    WellPlanned [int.planned intParts, ext.planned extParts] ↔
      WellPlaced int.totalSize int.eraseSize intParts ∧ WellPlaced ext.totalSize ext.eraseSize extParts := by
  simp [WellPlanned, FlashDevice.planned]

theorem wellPlanned_single {dev : FlashDevice} {parts : List Partition} :
    WellPlanned [dev.planned parts] ↔ WellPlaced dev.totalSize dev.eraseSize parts := by
  simp [WellPlanned, FlashDevice.planned]

section Tail

variable {edt : Edt} {erase cursor : Int} {parts : List Partition}

theorem nvmSize_dvd : erase ∣ nvmSize edt erase := by
  unfold nvmSize
  split
  · exact Int.dvd_refl _
  · exact Int.dvd_zero _

theorem bootSize_nonneg (pos : 0 < erase) : 0 ≤ alignUp mcubootSize erase := Int.le_trans (by decide) (le_alignUp pos _)

theorem storageSize_nonneg (pos : 0 < erase) : 0 ≤ alignUp storageSize erase :=
  Int.le_trans (by decide) (le_alignUp pos _)

theorem xipSlotSize_dvd (total bootSize tailMin : Int) : erase ∣ xipSlotSize total erase bootSize tailMin := by
  have small := dvd_min (dvd_alignDown (total / 8) erase) (dvd_alignDown (2 * mb) erase)
  simp only [xipSlotSize]
  split
  · exact dvd_min small (dvd_max (dvd_alignDown _ _) (Int.dvd_refl _))
  · exact small

theorem xipSlotSize_nonneg {total : Int} (pos : 0 < erase) (nonneg : 0 ≤ total) (bootSize tailMin : Int) :
    0 ≤ xipSlotSize total erase bootSize tailMin := by
  have eighth : 0 ≤ alignDown (total / 8) erase := (alignDown_nonneg pos _).mpr (by omega)
  have cap : 0 ≤ alignDown (2 * mb) erase := (alignDown_nonneg pos _).mpr (by decide)
  simp only [xipSlotSize]
  split
  · exact le_min (le_min eighth cap) (Int.le_trans pos.le (le_max_right _ _))
  · exact le_min eighth cap

theorem consecutive_nvm (pos : 0 < erase) (dvd : erase ∣ cursor)
    (rest : Consecutive erase (cursor + nvmSize edt erase) parts) :
    Consecutive erase cursor (nvmPartitions edt cursor erase ++ parts) := by
  unfold nvmPartitions nvmSize at *
  split
  next none =>
    rw [if_pos none] at rest
    exact ⟨Int.le_refl _, pos.le, dvd, Int.dvd_refl _, rest⟩
  next dev => rwa [if_neg dev, Int.add_zero] at rest

theorem lastEnd_nvm : lastEnd cursor (nvmPartitions edt cursor erase ++ parts) =
    lastEnd (cursor + nvmSize edt erase) parts := by
  unfold nvmPartitions nvmSize
  split
  next => rfl
  next => rw [Int.add_zero, List.nil_append]

/-- The boot loader, the application and the data behind it. -/
theorem consecutive_app {boot slot storage : Int} (pos : 0 < erase) (bootNonneg : 0 ≤ boot) (bootDvd : erase ∣ boot)
    (slotNonneg : 0 ≤ slot) (slotDvd : erase ∣ slot) (storageNonneg : 0 ≤ storage) (storageDvd : erase ∣ storage)
    (rest : Consecutive erase (boot + slot + storage + nvmSize edt erase) parts) :
    Consecutive erase 0 ([bootPartition 0 boot, slot0Partition boot slot, storagePartition (boot + slot) storage] ++
      (nvmPartitions edt (boot + slot + storage) erase ++ parts)) := by
  have appDvd := Int.dvd_add bootDvd slotDvd
  refine .first bootNonneg bootDvd (.next bootDvd slotNonneg slotDvd (.next appDvd storageNonneg storageDvd ?_))
  exact consecutive_nvm pos (Int.dvd_add appDvd storageDvd) rest

end Tail

theorem consecutive_filesystemRest {total : Int} (dvd : erase ∣ cursor) :
    Consecutive erase cursor (filesystemRest edt total erase cursor) := by
  simp only [filesystemRest]
  split
  · exact .next dvd (by omega) (dvd_alignDown _ _) trivial
  · trivial

theorem lastEnd_filesystemRest {total : Int} (pos : 0 < erase) :
    lastEnd cursor (filesystemRest edt total erase cursor) ≤ total ↔ cursor ≤ total := by
  have le := alignDown_le pos (total - cursor)
  simp only [filesystemRest]
  split
  · simp only [lastEnd, filesystemPartition]
    omega
  · rfl

/-! #### One kind of flash -/

section OneKind

variable {edt : Edt} {int ext : FlashDevice}

theorem planInternal_wellPlanned : WellPlanned (planInternal edt int) ↔
      alignUp mcubootSize int.eraseSize + alignUp storageSize int.eraseSize + nvmSize edt int.eraseSize ≤
        int.totalSize := by
  have pos := int.erase_pos
  have bootDvd := dvd_alignUp mcubootSize int.eraseSize
  have storageDvd := dvd_alignUp storageSize int.eraseSize
  have boot := bootSize_nonneg pos
  have storage := storageSize_nonneg pos
  simp only [planInternal]
  generalize alignUp mcubootSize int.eraseSize = bootSize at *
  generalize alignUp storageSize int.eraseSize = storageSize at *
  generalize remaining : int.totalSize - bootSize - storageSize - nvmSize edt int.eraseSize = rest
  have slotDvd := dvd_alignDown (rest / 2) int.eraseSize
  have slot_le := alignDown_le pos (rest / 2)
  have slot_nonneg := alignDown_nonneg pos (rest / 2)
  generalize alignDown (rest / 2) int.eraseSize = slot0Size at *
  rw [wellPlanned_single]
  constructor
  · intro placed
    -- a negative remainder would make the slot negative
    have nonneg : 0 ≤ slot0Size := placed.nonneg (slot0Partition bootSize slot0Size) (by simp)
    omega
  · intro room
    have nonneg : 0 ≤ slot0Size := slot_nonneg.mpr (by omega)
    have tailDvd := Int.dvd_add (Int.dvd_add bootDvd slotDvd) storageDvd
    have fs_le := alignDown_le pos (int.totalSize - (bootSize + slot0Size + storageSize + nvmSize edt int.eraseSize))
    refine Consecutive.wellPlaced (?_ : Consecutive int.eraseSize 0 _) ?_
    · refine consecutive_app pos boot bootDvd nonneg slotDvd storage storageDvd
        (.next (Int.dvd_add tailDvd nvmSize_dvd) ?_ (dvd_alignDown _ _) trivial)
      rw [alignDown_nonneg pos]
      omega
    · simp only [List.cons_append, List.nil_append, lastEnd, bootPartition, slot0Partition, storagePartition,
        filesystemPartition, lastEnd_nvm]
      omega

theorem planExternal_wellPlanned : WellPlanned (planExternal edt ext) ↔
      xipBootSize ext + xipSlots ext + xipSlots ext + alignUp storageSize ext.eraseSize + ext.eraseSize ≤
        ext.totalSize := by
  have pos := ext.erase_pos
  have bootDvd : ext.eraseSize ∣ xipBootSize ext := dvd_alignUp _ _
  have slotDvd : ext.eraseSize ∣ xipSlots ext := xipSlotSize_dvd _ _ _
  have storageDvd := dvd_alignUp storageSize ext.eraseSize
  have boot : 0 ≤ xipBootSize ext := Int.le_trans (by decide) (le_alignUp pos _)
  have slot : 0 ≤ xipSlots ext := xipSlotSize_nonneg pos ext.size_pos.le _ _
  have storage := storageSize_nonneg pos
  simp only [planExternal]
  generalize xipBootSize ext = bootSize at *
  generalize xipSlots ext = slotSize at *
  generalize alignUp storageSize ext.eraseSize = storageSize at *
  have fs_le := alignDown_le pos (ext.totalSize - (bootSize + slotSize + slotSize + storageSize + ext.eraseSize))
  have fs_nonneg := alignDown_nonneg pos
    (ext.totalSize - (bootSize + slotSize + slotSize + storageSize + ext.eraseSize))
  generalize fs : alignDown (ext.totalSize - (bootSize + slotSize + slotSize + storageSize + ext.eraseSize))
    ext.eraseSize = fsSize at *
  have fsDvd : ext.eraseSize ∣ fsSize := fs ▸ dvd_alignDown _ _
  rw [wellPlanned_single]
  constructor
  · intro placed
    have nonneg : 0 ≤ fsSize := placed.nonneg
      (filesystemPartition edt (bootSize + slotSize + slotSize + storageSize + ext.eraseSize) fsSize) (by simp)
    omega
  · intro room
    have slot0Dvd := Int.dvd_add bootDvd slotDvd
    have slot1Dvd := Int.dvd_add slot0Dvd slotDvd
    have tailDvd := Int.dvd_add slot1Dvd storageDvd
    refine Consecutive.wellPlaced (?_ : Consecutive ext.eraseSize 0 _) ?_
    · refine .first boot bootDvd (.next bootDvd slot slotDvd (.next slot0Dvd slot slotDvd
        (.next slot1Dvd storage storageDvd ?_)))
      refine .next tailDvd pos.le (Int.dvd_refl _) (.next (Int.dvd_add tailDvd (Int.dvd_refl _)) ?_ fsDvd trivial)
      exact fs_nonneg.mpr (by omega)
    · simp only [lastEnd, filesystemPartition]
      omega

end OneKind

/-! #### Internal and external flash -/

section BothKinds

variable {edt : Edt} {opts : PlanOptions} {int ext : FlashDevice}

/-- The slots in the external flash, one or two. -/
def slotCount (edt : Edt) (opts : PlanOptions) : Int := if secondarySlot edt opts then 2 else 1

theorem planSmallInternal_wellPlanned : WellPlanned (planSmallInternal edt opts int ext) ↔
      alignUp mcubootSize int.eraseSize ≤ int.totalSize ∧
        slotCount edt opts * smallInternalSlotSize edt ext + alignUp storageSize ext.eraseSize +
          nvmSize edt ext.eraseSize ≤ ext.totalSize := by
  have pos := ext.erase_pos
  have slotDvd : ext.eraseSize ∣ smallInternalSlotSize edt ext := xipSlotSize_dvd _ _ _
  have storageDvd := dvd_alignUp storageSize ext.eraseSize
  have slot : 0 ≤ smallInternalSlotSize edt ext := xipSlotSize_nonneg pos ext.size_pos.le _ _
  have storage := storageSize_nonneg pos
  simp only [planSmallInternal]
  rw [wellPlanned_pair, bootPartition, wellPlaced_only (bootSize_nonneg int.erase_pos) (dvd_alignUp _ _)]
  generalize smallInternalSlotSize edt ext = slotSize at *
  generalize alignUp storageSize ext.eraseSize = storageSize at *
  generalize hCursor : (if secondarySlot edt opts = true then slotSize + slotSize else slotSize) = cursor
  have cursor_eq : slotCount edt opts * slotSize = cursor := by
    rw [← hCursor, slotCount]
    split <;> omega
  have cursorDvd : ext.eraseSize ∣ cursor := cursor_eq ▸ Dvd.dvd.mul_left slotDvd _
  have tailDvd := Int.dvd_add cursorDvd storageDvd
  -- the cursor behind the nvm partition, if there is one
  have behind : (if dataFlash edt = [] then alignUp (cursor + storageSize + ext.eraseSize) ext.eraseSize
      else cursor + storageSize) = cursor + storageSize + nvmSize edt ext.eraseSize := by
    unfold nvmSize
    split
    · exact alignUp_eq pos (Int.dvd_add tailDvd (Int.dvd_refl _))
    · rw [Int.add_zero]
  rw [behind, cursor_eq]
  generalize hSlots : (if secondarySlot edt opts = true then
      [slot0Partition 0 slotSize, slot1Partition slotSize slotSize] else [slot0Partition 0 slotSize]) = slots
  have slotsPlaced : Consecutive ext.eraseSize 0 slots ∧ lastEnd 0 slots = cursor := by
    rw [← hSlots, ← hCursor]
    split
    · exact ⟨.first slot slotDvd (.next slotDvd slot slotDvd trivial), rfl⟩
    · exact ⟨.first slot slotDvd trivial, Int.zero_add _⟩
  have placed : Consecutive ext.eraseSize 0 (slots ++
      (storagePartition cursor storageSize :: nvmPartitions edt (cursor + storageSize) ext.eraseSize ++
        filesystemRest edt ext.totalSize ext.eraseSize (cursor + storageSize + nvmSize edt ext.eraseSize))) := by
    refine slotsPlaced.1.append ?_
    rw [slotsPlaced.2, List.cons_append]
    exact .next cursorDvd storage storageDvd
      (consecutive_nvm pos tailDvd (consecutive_filesystemRest (Int.dvd_add tailDvd nvmSize_dvd)))
  rw [List.append_assoc]
  rw [placed.wellPlaced_iff (by simp), lastEnd_append, slotsPlaced.2, List.cons_append]
  simp only [lastEnd, storagePartition]
  rw [lastEnd_nvm, lastEnd_filesystemRest pos]

theorem planSingleApp_wellPlanned : WellPlanned (planSingleApp edt int ext) ↔
      alignUp mcubootSize int.eraseSize + alignUp storageSize int.eraseSize + nvmSize edt int.eraseSize ≤
        int.totalSize := by
  have pos := int.erase_pos
  have bootDvd := dvd_alignUp mcubootSize int.eraseSize
  have storageDvd := dvd_alignUp storageSize int.eraseSize
  have boot := bootSize_nonneg pos
  have storage := storageSize_nonneg pos
  have ext_le := alignDown_le ext.erase_pos ext.totalSize
  have ext_nonneg := (alignDown_nonneg ext.erase_pos _).mpr ext.size_pos.le
  simp only [planSingleApp]
  generalize alignUp mcubootSize int.eraseSize = bootSize at *
  generalize alignUp storageSize int.eraseSize = storageSize at *
  generalize remaining : int.totalSize - bootSize - storageSize - nvmSize edt int.eraseSize = rest
  have slotDvd := dvd_alignDown rest int.eraseSize
  have slot_le := alignDown_le pos rest
  have slot_nonneg := alignDown_nonneg pos rest
  generalize alignDown rest int.eraseSize = slot0Size at *
  rw [wellPlanned_pair]
  constructor
  · rintro ⟨placed, -⟩
    have nonneg : 0 ≤ slot0Size := placed.nonneg (slot0Partition bootSize slot0Size) (by simp)
    omega
  · intro room
    constructor
    · rw [← List.append_nil (nvmPartitions ..)]
      refine Consecutive.wellPlaced (?_ : Consecutive int.eraseSize 0 _) ?_
      · exact consecutive_app pos boot bootDvd (slot_nonneg.mpr (by omega)) slotDvd storage storageDvd trivial
      · simp only [List.cons_append, List.nil_append, lastEnd, storagePartition, lastEnd_nvm]
        omega
    · exact (wellPlaced_only ext_nonneg (dvd_alignDown _ _)).mpr ext_le

variable (room : slot0MinSize ≤ int.totalSize - alignUp mcubootSize int.eraseSize)
include room

theorem swapSlot0Size_bounds :
    0 ≤ swapSlot0Size int ext ∧ alignUp mcubootSize int.eraseSize + swapSlot0Size int ext ≤ int.totalSize := by
  have pos : 0 < max int.eraseSize ext.eraseSize := lt_max_of_lt_left int.erase_pos
  have le := alignDown_le pos (int.totalSize - alignUp mcubootSize int.eraseSize)
  have min : (0 : Int) ≤ slot0MinSize := by decide
  unfold swapSlot0Size
  exact ⟨(alignDown_nonneg pos _).mpr (by omega), by omega⟩

theorem swapInternal_wellPlaced :
    WellPlaced int.totalSize int.eraseSize ([bootPartition 0 (alignUp mcubootSize int.eraseSize),
          slot0Partition (alignUp mcubootSize int.eraseSize) (swapSlot0Size int ext)] ++
        if storageOnInternal int ext then [storagePartition (alignUp mcubootSize int.eraseSize + swapSlot0Size int ext)
            (alignUp storageSize int.eraseSize)] else []) ↔ int.eraseSize ∣ swapSlot0Size int ext := by
  have pos := int.erase_pos
  have bootDvd := dvd_alignUp mcubootSize int.eraseSize
  obtain ⟨nonneg, fits⟩ : 0 ≤ swapSlot0Size int ext ∧ _ := swapSlot0Size_bounds room
  constructor
  · intro placed
    exact (placed.aligned (slot0Partition (alignUp mcubootSize int.eraseSize) (swapSlot0Size int ext)) (by simp)).2
  · intro dvd
    have slots : Consecutive int.eraseSize 0 [bootPartition 0 (alignUp mcubootSize int.eraseSize),
          slot0Partition (alignUp mcubootSize int.eraseSize) (swapSlot0Size int ext)] :=
      .first (bootSize_nonneg pos) bootDvd (.next bootDvd nonneg dvd trivial)
    split
    next onInternal =>
      have leftover := of_decide_eq_true onInternal
      refine (slots.append ?_).wellPlaced ?_
      · exact .next (Int.dvd_add bootDvd dvd) (storageSize_nonneg pos) (dvd_alignUp _ _) trivial
      · rw [lastEnd_append]
        simp only [lastEnd, storagePartition]
        omega
    next =>
      exact slots.wellPlaced fits

omit room

theorem swapFront (edt : Edt) (int : FlashDevice) (pos : 0 < ext.eraseSize) :
    let front := (if storageOnInternal int ext then []
        else [storagePartition 0 (alignUp storageSize ext.eraseSize)]) ++
      nvmPartitions edt (if storageOnInternal int ext then 0 else alignUp storageSize ext.eraseSize) ext.eraseSize
    Consecutive ext.eraseSize 0 front ∧ lastEnd 0 front = swapSlot1Offset edt int ext := by
  have storageDvd := dvd_alignUp storageSize ext.eraseSize
  have nvmDvd : ext.eraseSize ∣ nvmSize edt ext.eraseSize := nvmSize_dvd
  rw [← List.append_nil (nvmPartitions ..)]
  unfold swapSlot1Offset
  by_cases onInternal : storageOnInternal int ext = true
  · simp only [onInternal, if_true, List.nil_append]
    refine ⟨consecutive_nvm pos (Int.dvd_zero _) trivial, ?_⟩
    rw [lastEnd_nvm, alignUp_eq pos nvmDvd, lastEnd, Int.zero_add]
  · simp only [onInternal, if_false, Bool.false_eq_true, List.cons_append, List.nil_append]
    rw [alignUp_eq pos (Int.dvd_add storageDvd nvmDvd)]
    constructor
    · exact .first (storageSize_nonneg pos) storageDvd (consecutive_nvm pos storageDvd trivial)
    · simp only [lastEnd, storagePartition, Int.zero_add]
      rw [lastEnd_nvm, lastEnd]

/-- The larger blocks that fit behind the boot loader, and one more for an update by offset, are whole blocks of the
device with the smaller ones and fit into the external flash with the data that is there. -/
def RoomForSwap (edt : Edt) (opts : PlanOptions) (int ext : FlashDevice) : Prop :=
  let block := max int.eraseSize ext.eraseSize
  let room := int.totalSize - alignUp mcubootSize int.eraseSize
  let blocks := room / block + if opts.overwriteOnly then 0 else 1
  (if int.eraseSize < ext.eraseSize then int.eraseSize ∣ room / block * block else ext.eraseSize ∣ blocks * block) ∧
    (if alignUp storageSize int.eraseSize ≤ room % block then 0 else alignUp storageSize ext.eraseSize) +
      nvmSize edt ext.eraseSize + blocks * block ≤ ext.totalSize

theorem roomForSwap_iff : RoomForSwap edt opts int ext ↔
    int.eraseSize ∣ swapSlot0Size int ext ∧ ext.eraseSize ∣ swapSlot1Size opts int ext ∧
      swapSlot1Offset edt int ext + swapSlot1Size opts int ext ≤ ext.totalSize := by
  have pos := ext.erase_pos
  have storageDvd := dvd_alignUp storageSize ext.eraseSize
  have nvmDvd : ext.eraseSize ∣ nvmSize edt ext.eraseSize := nvmSize_dvd
  have slot1 : swapSlot1Size opts int ext = ((int.totalSize - alignUp mcubootSize int.eraseSize) /
      max int.eraseSize ext.eraseSize + if opts.overwriteOnly then 0 else 1) * max int.eraseSize ext.eraseSize := by
    rw [swapSlot1Size, swapSlot0Size, alignDown, Int.add_mul]
    split <;> simp
  have leftover : storageOnInternal int ext = true ↔ alignUp storageSize int.eraseSize ≤
      (int.totalSize - alignUp mcubootSize int.eraseSize) % max int.eraseSize ext.eraseSize := by
    have := Int.ediv_mul_add_emod (int.totalSize - alignUp mcubootSize int.eraseSize) (max int.eraseSize ext.eraseSize)
    rw [storageOnInternal, swapSlot0Size, alignDown, decide_eq_true_eq]
    omega
  have front : swapSlot1Offset edt int ext = (if alignUp storageSize int.eraseSize ≤ (int.totalSize -
      alignUp mcubootSize int.eraseSize) % max int.eraseSize ext.eraseSize then 0 else alignUp storageSize ext.eraseSize) +
      nvmSize edt ext.eraseSize := by
    simp only [swapSlot1Offset, leftover, alignUp_eq pos nvmDvd, alignUp_eq pos (Int.dvd_add storageDvd nvmDvd)]
    split <;> simp
  rw [front, slot1, ← and_assoc]
  unfold RoomForSwap swapSlot0Size alignDown
  refine and_congr ?_ Iff.rfl
  split
  next smaller => simp [max_eq_right smaller.le]
  next larger => simp [max_eq_left (not_lt.mp larger)]

theorem planSwap_wellPlanned (room : slot0MinSize ≤ int.totalSize - alignUp mcubootSize int.eraseSize) :
    WellPlanned (planSwap edt opts int ext) ↔
      int.eraseSize ∣ swapSlot0Size int ext ∧ ext.eraseSize ∣ swapSlot1Size opts int ext ∧
        swapSlot1Offset edt int ext + swapSlot1Size opts int ext ≤ ext.totalSize := by
  have pos := ext.erase_pos
  obtain ⟨nonneg, -⟩ : 0 ≤ swapSlot0Size int ext ∧ _ := swapSlot0Size_bounds room
  have slot_nonneg : 0 ≤ swapSlot1Size opts int ext := by
    unfold swapSlot1Size
    split <;> omega
  have offsetDvd : ext.eraseSize ∣ swapSlot1Offset edt int ext := by
    unfold swapSlot1Offset
    split <;> exact dvd_alignUp _ _
  obtain ⟨frontPlaced, frontEnd⟩ := swapFront edt int pos
  simp only [planSwap]
  rw [wellPlanned_pair]
  refine and_congr (swapInternal_wellPlaced room) ?_
  generalize swapSlot1Offset edt int ext = slot1Offset at *
  generalize swapSlot1Size opts int ext = slot1Size at *
  have le := le_alignUp pos (slot1Offset + slot1Size)
  have fs_le := alignDown_le pos (ext.totalSize - alignUp (slot1Offset + slot1Size) ext.eraseSize)
  constructor
  · intro placed
    have dvd := (placed.aligned (slot1Partition slot1Offset slot1Size) (by simp)).2
    have fs := placed.nonneg (filesystemPartition edt (alignUp (slot1Offset + slot1Size) ext.eraseSize)
      (alignDown (ext.totalSize - alignUp (slot1Offset + slot1Size) ext.eraseSize) ext.eraseSize)) (by simp)
    have := (alignDown_nonneg pos _).mp fs
    exact ⟨dvd, by omega⟩
  · rintro ⟨dvd, fits⟩
    have behind := alignUp_eq pos (Int.dvd_add offsetDvd dvd)
    rw [behind] at fs_le ⊢
    refine (frontPlaced.append ?_).wellPlaced ?_
    · rw [frontEnd]
      refine .next offsetDvd slot_nonneg dvd (.next (Int.dvd_add offsetDvd dvd) ?_ (dvd_alignDown _ _) trivial)
      exact (alignDown_nonneg pos _).mpr (by omega)
    · rw [lastEnd_append]
      simp only [lastEnd, filesystemPartition]
      omega

end BothKinds

theorem planDataFlash_wellPlanned (edt : Edt) : WellPlanned (planDataFlash edt) := by
  unfold planDataFlash
  split
  · simp [WellPlanned]
  next dev _ _ =>
    have le := alignDown_le dev.erase_pos dev.totalSize
    simp only
    split
    · rw [wellPlanned_single]
      exact (wellPlaced_only (by omega) (dvd_alignDown _ _)).mpr le
    · simp [WellPlanned]

/-- There is room for what is planned. -/
def RoomForPlan (edt : Edt) (opts : PlanOptions) : Prop :=
  match internalFlash edt, externalFlash edt with
  | int :: _, ext :: _ =>
    if int.totalSize - alignUp mcubootSize int.eraseSize < slot0MinSize then
      alignUp mcubootSize int.eraseSize ≤ int.totalSize ∧
        slotCount edt opts * smallInternalSlotSize edt ext + alignUp storageSize ext.eraseSize +
          nvmSize edt ext.eraseSize ≤ ext.totalSize
    else if ¬ secondarySlot edt opts then
      alignUp mcubootSize int.eraseSize + alignUp storageSize int.eraseSize + nvmSize edt int.eraseSize ≤ int.totalSize
    else RoomForSwap edt opts int ext
  | int :: _, [] =>
    alignUp mcubootSize int.eraseSize + alignUp storageSize int.eraseSize + nvmSize edt int.eraseSize ≤ int.totalSize
  | [], ext :: _ =>
    xipBootSize ext + xipSlots ext + xipSlots ext + alignUp storageSize ext.eraseSize + ext.eraseSize ≤ ext.totalSize
  | [], [] => True

theorem planFromScratch_wellPlanned (edt : Edt) (opts : PlanOptions) :
    WellPlanned (planFromScratch edt opts) ↔ RoomForPlan edt opts := by
  simp only [planFromScratch]
  rw [wellPlanned_append, and_iff_left (planDataFlash_wellPlanned edt)]
  unfold RoomForPlan
  split
  next int _ ext _ =>
    split
    · exact planSmallInternal_wellPlanned
    · split
      · exact planSingleApp_wellPlanned
      · exact (planSwap_wellPlanned (by omega)).trans roomForSwap_iff.symm
  · exact planInternal_wellPlanned
  · exact planExternal_wellPlanned
  · simp [WellPlanned]

theorem planPartitions_scratch {edt : Edt} (scratch : hasPredefinedMcuboot edt = false) (opts : PlanOptions)
    (existing : Existing) (deletedDevices : List String) :
    planPartitions edt opts existing deletedDevices = planFromScratch edt opts := by
  simp [planPartitions, scratch]

/-- A plan from scratch is well placed on every device exactly if there is room for it. -/
theorem scratch_plan_placed_iff (edt : Edt) (opts : PlanOptions) (existing : Existing)
    (deletedDevices : List String) (scratch : hasPredefinedMcuboot edt = false) :
    WellPlanned (planPartitions edt opts existing deletedDevices) ↔ RoomForPlan edt opts := by
  rw [planPartitions_scratch scratch]
  exact planFromScratch_wellPlanned edt opts

def twoFlashes (external : FlashDevice) : Edt := ⟨[FlashDevice.blocks "flash0" 512 true [], external], none, true, []⟩

def noOptions : PlanOptions := ⟨false, false, none, none, none, false⟩

def nothingExisting : Existing := fun _ => ⟨none, []⟩

/-- With 8 MB of external flash there is room for the second slot. -/
theorem scratch_plan_placed_large :
    WellPlanned (planPartitions (twoFlashes (FlashDevice.blocks "mx25r64" 2048 false [])) noOptions
      nothingExisting []) := by
  refine (scratch_plan_placed_iff _ _ _ _ (by decide)).mpr ?_
  have int : internalFlash (twoFlashes (FlashDevice.blocks "mx25r64" 2048 false [])) =
      [FlashDevice.blocks "flash0" 512 true []] := rfl
  have ext : externalFlash (twoFlashes (FlashDevice.blocks "mx25r64" 2048 false [])) =
      [FlashDevice.blocks "mx25r64" 2048 false []] := rfl
  simp only [RoomForPlan, RoomForSwap, int, ext]
  decide

/-- With 1 MB the second slot ends behind the device and the file system has a negative size. -/
theorem scratch_plan_overflows : hasPredefinedMcuboot (twoFlashes (FlashDevice.blocks "mx25r80" 256 false [])) = false ∧
      ¬ WellPlanned (planPartitions (twoFlashes (FlashDevice.blocks "mx25r80" 256 false [])) noOptions
        nothingExisting []) := by
  refine ⟨by decide, fun planned => ?_⟩
  have slot1 : (FlashDevice.blocks "mx25r80" 256 false []).planned
      [storagePartition 0 (32 * kb), nvmPartition (32 * kb) (4 * kb), slot1Partition (36 * kb) (1924 * kb),
        filesystemPartition (twoFlashes (FlashDevice.blocks "mx25r80" 256 false [])) (1960 * kb) (-936 * kb)] ∈
      planPartitions (twoFlashes (FlashDevice.blocks "mx25r80" 256 false [])) noOptions nothingExisting [] := by decide
  have nonneg := (planned _ slot1).nonneg
    (filesystemPartition (twoFlashes (FlashDevice.blocks "mx25r80" 256 false [])) (1960 * kb) (-936 * kb)) (by decide)
  revert nonneg
  decide

end Adaboot.Planner
