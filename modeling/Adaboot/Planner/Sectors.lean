import Adaboot.Planner.Scratch
import Adaboot.Swap.Offset

/-!
# Sector settings

`gen_sectors_conf` pins the number of sectors and the page size of external flash for a plan. A swap layout with slots
on two devices is accepted by the boot loader only where the erase sizes are the same.
-/

namespace Adaboot.Planner

open Spans

/-- What `gen_sectors_conf` has found of the slots. -/
structure SlotScan where
  maxSectors : Int
  hasSlot1 : Bool
  slot0Dev : Option String
  slot0Offset : Int
  slot1Dev : Option String
  slot1EraseSize : Int

def SlotScan.part (entry : PlannedDevice) (s : SlotScan) (p : Partition) : SlotScan :=
  let maxSectors := max s.maxSectors (p.size / entry.eraseSize)
  if p.label = some "image-0" ∧ entry.eraseSize ≠ 0 then
    { s with slot0Dev := entry.devLabel, slot0Offset := p.offset, maxSectors }
  else if p.label = some "image-1" ∧ entry.eraseSize ≠ 0 then
    { s with hasSlot1 := true, slot1Dev := entry.devLabel, slot1EraseSize := entry.eraseSize, maxSectors }
  else s

def scanSlots (planned : List PlannedDevice) : SlotScan :=
  planned.foldl (fun s entry => entry.parts.foldl (.part entry) s) ⟨0, false, none, 0, none, 0⟩

/-- The settings that are written. -/
structure SectorsConf where
  maxImgSectors : Int
  layoutKconfig : Option String
  norPageSize : Int
  hasSlot1 : Bool
  uf2AppBase : Int

/-- `gen_sectors_conf` for a board whose code partition is not split. -/
def genSectorsConf (planned : List PlannedDevice) (norKconfigs : String → Option String) : Option SectorsConf :=
  let s := scanSlots planned
  let layoutKconfig := if s.slot1Dev ≠ s.slot0Dev then s.slot1Dev.bind norKconfigs else none
  let norPageSize := if layoutKconfig.isSome then s.slot1EraseSize else 0
  if s.maxSectors = 0 then none else some ⟨s.maxSectors, layoutKconfig, norPageSize, s.hasSlot1, s.slot0Offset⟩

/-! ### Sectors as the boot loader finds them -/

/-- The pages that begin in the partition. -/
def Partition.sectors (p : Partition) (page : Int) : List Nat :=
  List.replicate ((p.offset + p.size + page - 1) / page - (p.offset + page - 1) / page).toNat page.toNat

def slotSectors (planned : List PlannedDevice) (label : String) (page : Int → Int) : List Nat :=
  planned.flatMap fun entry => (entry.parts.filter (·.label = some label)).flatMap (·.sectors (page entry.eraseSize))

/-- `boot_slots_compatible` of swaps using offset, over the sector sizes of the slots. -/
def slotsCompatible (pri sec : List Nat) (maxImgSectors : Nat) : Bool :=
  (pri.length = sec.length ∨ pri.length + 1 = sec.length) ∧ pri.length ≤ maxImgSectors ∧
    (∀ i, i < sec.length - 1 → Nor.sectorSize pri i = Nor.sectorSize sec i) ∧
    (pri.length > sec.length → (if sec.length ≤ 1 then 0 else Nor.sectorSize pri (sec.length - 2)) =
        Nor.sectorSize pri (sec.length - 1))

theorem bootSlotsCompatible_eq (bd : Board) : SwapOffset.bootSlotsCompatible bd =
    slotsCompatible (bd.layout .primary) (bd.layout .secondary) bd.maxImgSectors := rfl

theorem slotsCompatible_replicate {a b x y m : Nat} :
    slotsCompatible (List.replicate a x) (List.replicate b y) m = true ↔
      (a = b ∨ a + 1 = b) ∧ a ≤ m ∧ (2 ≤ b → x = y) := by
  simp only [slotsCompatible, List.length_replicate, decide_eq_true_eq]
  refine and_congr_right fun counts => and_congr_right fun _ => ?_
  constructor
  · rintro ⟨same, -⟩ two
    have first := same 0 (by omega)
    rwa [Nor.sectorSize_replicate (by omega), Nor.sectorSize_replicate (by omega)] at first
  · intro same
    refine ⟨fun i lt => ?_, fun more => by omega⟩
    rw [Nor.sectorSize_replicate (by omega), Nor.sectorSize_replicate (by omega), same (by omega)]

theorem ceil_mul {unit : Int} (pos : 0 < unit) (k : Int) : (k * unit + unit - 1) / unit = k := by
  rw [Int.add_sub_assoc, Int.add_comm, Int.add_mul_ediv_right _ _ pos.ne', Int.ediv_eq_zero_of_lt (by omega) (by omega),
    Int.zero_add]

theorem sectors_of_dvd {label : Option String} {node : String} {offset size page : Int} (pos : 0 < page)
    (dvd : page ∣ offset) : Partition.sectors ⟨label, node, offset, size⟩ page =
      List.replicate ((size + page - 1) / page).toNat page.toNat := by
  obtain ⟨k, rfl⟩ := dvd
  have last : (page * k + size + page - 1) / page = (size + page - 1) / page + k := by
    rw [show page * k + size + page - 1 = size + page - 1 + page * k by omega, Int.add_mul_ediv_left _ _ pos.ne']
  rw [Partition.sectors, last, Int.mul_comm, ceil_mul pos, Int.add_sub_cancel]

/-- The slots of a plan in erase blocks, the second one in pages of the size that is pinned. -/
def accepted (planned : List PlannedDevice) (conf : SectorsConf) : Bool :=
  slotsCompatible (slotSectors planned "image-0" id)
    (slotSectors planned "image-1" fun erase => if conf.norPageSize = 0 then erase else conf.norPageSize)
    conf.maxImgSectors.toNat

/-- `plan_partitions` puts the slots of a swap on an internal and an external flash. -/
structure PlansSwap (edt : Edt) (opts : PlanOptions) (int ext : FlashDevice) : Prop where
  scratch : hasPredefinedMcuboot edt = false
  internal : (internalFlash edt).head? = some int
  external : (externalFlash edt).head? = some ext
  room : slot0MinSize ≤ int.totalSize - Spans.alignUp mcubootSize int.eraseSize
  second : secondarySlot edt opts = true
  swaps : opts.overwriteOnly = false

section Swap

variable {edt : Edt} {opts : PlanOptions} {int ext : FlashDevice} (plans : PlansSwap edt opts int ext)
  (existing : Existing) (deleted : List String)
include plans

theorem PlansSwap.plan_eq :
    planPartitions edt opts existing deleted = planSwap edt opts int ext ++ planDataFlash edt := by
  obtain ⟨ints, internal⟩ := List.head?_eq_some_iff.mp plans.internal
  obtain ⟨exts, external⟩ := List.head?_eq_some_iff.mp plans.external
  rw [planPartitions_scratch plans.scratch, planFromScratch, internal, external]
  simp only [plans.second, not_true_eq_false, if_false, if_neg (Int.not_lt.mpr plans.room)]

theorem PlansSwap.slotSectors_eq (page : Int → Int) :
    slotSectors (planPartitions edt opts existing deleted) "image-0" page =
        (slot0Partition (Spans.alignUp mcubootSize int.eraseSize) (swapSlot0Size int ext)).sectors (page int.eraseSize) ∧
      slotSectors (planPartitions edt opts existing deleted) "image-1" page =
        (slot1Partition (swapSlot1Offset edt int ext) (swapSlot1Size opts int ext)).sectors (page ext.eraseSize) := by
  rw [plans.plan_eq]
  cases onInternal : storageOnInternal int ext <;> cases data : dataFlash edt <;>
    simp [slotSectors, planSwap, planDataFlash, FlashDevice.planned, nvmPartitions, onInternal, data,
      bootPartition, slot0Partition, slot1Partition, storagePartition, nvmPartition, filesystemPartition]

theorem PlansSwap.scan : scanSlots (planPartitions edt opts existing deleted) =
    ⟨max (max 0 (swapSlot0Size int ext / int.eraseSize)) (swapSlot1Size opts int ext / ext.eraseSize), true,
      some int.devLabel, Spans.alignUp mcubootSize int.eraseSize, some ext.devLabel, ext.eraseSize⟩ := by
  have intPos := int.erase_pos
  have extPos := ext.erase_pos
  rw [plans.plan_eq]
  cases onInternal : storageOnInternal int ext <;> cases data : dataFlash edt <;>
    simp [scanSlots, SlotScan.part, planSwap, planDataFlash, FlashDevice.planned, nvmPartitions, onInternal, data,
      bootPartition, slot0Partition, slot1Partition, storagePartition, nvmPartition, filesystemPartition,
      intPos.ne', extPos.ne'] <;>
    split <;> simp [SlotScan.part]

theorem PlansSwap.conf (norKconfigs : String → Option String) :
    ∃ conf, genSectorsConf (planPartitions edt opts existing deleted) norKconfigs = some conf ∧
      (conf.norPageSize = 0 ∨ conf.norPageSize = ext.eraseSize) ∧ conf.maxImgSectors =
        max (max 0 (swapSlot0Size int ext / int.eraseSize)) (swapSlot1Size opts int ext / ext.eraseSize) := by
  have pos := ext.erase_pos
  have nonneg : 0 ≤ swapSlot0Size int ext := (swapSlot0Size_bounds plans.room).1
  have second : 1 ≤ swapSlot1Size opts int ext / ext.eraseSize := by
    rw [swapSlot1Size, plans.swaps, Int.le_ediv_iff_mul_le pos]
    simp only [Bool.false_eq_true, if_false]
    omega
  rw [genSectorsConf, plans.scan]
  simp only
  rw [if_neg (by omega)]
  exact ⟨_, rfl, (ite_eq_or_eq _ _ _).symm, rfl⟩

end Swap

theorem slots_accepted_iff {ie ee k m : Int} (intPos : 0 < ie) (extPos : 0 < ee) (nonneg : 0 ≤ k)
    (max_eq : m = max (max 0 (k * max ie ee / ie)) ((k * max ie ee + max ie ee) / ee)) :
    slotsCompatible (List.replicate ((k * max ie ee + ie - 1) / ie).toNat ie.toNat)
        (List.replicate ((k * max ie ee + max ie ee + ee - 1) / ee).toNat ee.toNat) m.toNat = true ↔
      ie = ee ∨ ie < ee ∧ k < 1 := by
  rw [slotsCompatible_replicate]
  rcases lt_trichotomy ie ee with less | rfl | more
  · -- one block of the external flash for each `k`, and blocks of another size in the first slot
    rw [max_eq_right less.le, ← add_one_mul, ceil_mul extPos]
    constructor
    · rintro ⟨-, -, same⟩
      refine .inr ⟨less, ?_⟩
      by_contra some
      have := same (by omega)
      omega
    · rintro (same | ⟨-, empty⟩)
      · omega
      · obtain rfl : k = 0 := by omega
        rw [Int.zero_mul, Int.zero_add, Int.ediv_eq_zero_of_lt (by omega) (by omega)]
        exact ⟨.inr rfl, Nat.zero_le _, fun two => absurd two (by decide)⟩
  · rw [max_self, ceil_mul intPos, ← add_one_mul, ceil_mul intPos]
    rw [max_self, Int.mul_ediv_cancel _ intPos.ne'] at max_eq
    exact iff_of_true ⟨.inr (by omega), by omega, fun _ => rfl⟩ (.inl rfl)
  · -- at least two blocks in the second slot, as the first one is larger
    rw [max_eq_left more.le, ceil_mul intPos]
    have blocks := Int.mul_nonneg nonneg intPos.le
    have two : 2 ≤ (k * ie + ie + ee - 1) / ee := (Int.le_ediv_iff_mul_le extPos).mpr (by omega)
    omega

/-- A swap layout with slots on two devices is accepted just if their erase sizes are the same, or the first slot is
empty as a block of the external flash is larger than the room behind the boot loader. -/
theorem swap_layout_accepted_iff (edt : Edt) (opts : PlanOptions) (existing : Existing) (deleted : List String)
    (norKconfigs : String → Option String) (int ext : FlashDevice) (plans : PlansSwap edt opts int ext) :
    ∃ conf, genSectorsConf (planPartitions edt opts existing deleted) norKconfigs = some conf ∧
      (accepted (planPartitions edt opts existing deleted) conf = true ↔
        int.eraseSize = ext.eraseSize ∨ int.eraseSize < ext.eraseSize ∧
          int.totalSize - Spans.alignUp mcubootSize int.eraseSize < ext.eraseSize) := by
  obtain ⟨conf, written, page, max_eq⟩ := plans.conf existing deleted norKconfigs
  refine ⟨conf, written, ?_⟩
  have pinned : (if conf.norPageSize = 0 then ext.eraseSize else conf.norPageSize) = ext.eraseSize := by
    rcases page with none | same
    · rw [if_pos none]
    · rw [same, if_neg ext.erase_pos.ne']
  have offset : ext.eraseSize ∣ swapSlot1Offset edt int ext := by
    unfold swapSlot1Offset
    split <;> exact Spans.dvd_alignUp _ _
  have slot1 : swapSlot1Size opts int ext = swapSlot0Size int ext + max int.eraseSize ext.eraseSize := by
    rw [swapSlot1Size, plans.swaps]
    rfl
  obtain ⟨pri, -⟩ := plans.slotSectors_eq existing deleted id
  obtain ⟨-, sec⟩ := plans.slotSectors_eq existing deleted fun erase =>
    if conf.norPageSize = 0 then erase else conf.norPageSize
  rw [slot1] at max_eq
  rw [accepted, pri, sec, pinned, id, slot0Partition, slot1Partition, sectors_of_dvd ext.erase_pos offset,
    sectors_of_dvd int.erase_pos (Spans.dvd_alignUp _ _), slot1]
  have pos : 0 < max int.eraseSize ext.eraseSize := lt_max_of_lt_left int.erase_pos
  refine (slots_accepted_iff int.erase_pos ext.erase_pos
    (Int.ediv_nonneg (Int.le_trans (by decide) plans.room) pos.le) max_eq).trans ?_
  rw [Int.ediv_lt_iff_lt_mul pos]
  omega

def norFlash : FlashDevice := .blocks "mx25r64" 2048 false []

/-- Both devices have blocks of 4 KB. -/
theorem swap_layout_accepted_same : ∃ conf,
    genSectorsConf (planPartitions (twoFlashes norFlash) noOptions nothingExisting []) (fun _ => none) = some conf ∧
      accepted (planPartitions (twoFlashes norFlash) noOptions nothingExisting []) conf = true := by
  obtain ⟨conf, written, iff⟩ := swap_layout_accepted_iff (twoFlashes norFlash) noOptions nothingExisting []
    (fun _ => none) (.blocks "flash0" 512 true []) norFlash ⟨by decide, rfl, rfl, by decide, by decide, rfl⟩
  exact ⟨conf, written, iff.mpr (.inl rfl)⟩

def largePages : Edt := ⟨[⟨"flash0", 2 * mb, 8 * kb, [], true, by decide, by decide⟩, norFlash], none, true, []⟩

/-- Blocks of 8 KB and of 4 KB: the slots have 240 and 482 sectors. -/
theorem different_erase_sizes_rejected : hasPredefinedMcuboot largePages = false ∧ ∃ conf,
    genSectorsConf (planPartitions largePages noOptions nothingExisting []) (fun _ => some "page size") = some conf ∧
      conf.norPageSize = 4 * kb ∧ conf.maxImgSectors = 482 ∧
      accepted (planPartitions largePages noOptions nothingExisting []) conf = false :=
  ⟨by decide, _, rfl, by decide, by decide, by decide +kernel⟩

end Adaboot.Planner
