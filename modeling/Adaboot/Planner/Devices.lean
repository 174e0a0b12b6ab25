import Adaboot.Spans

/-!
# Flash devices and partitions

What `partition_layout.py` takes from the devicetree and `boards.toml`, and the partitions that it plans. Sizes are
integers, and nothing keeps a computed one from being negative.
-/

namespace Adaboot.Planner

open Spans

def kb : Int := 1024
def mb : Int := 1024 * 1024

def storageSize : Int := 32 * kb

def slot0MinSize : Int := 1 * mb

/-- Labels are compared as they are. -/
instance lawfulBEqLabel : LawfulBEq (Option String) := inferInstance

/-- A partition. One that is carried from an earlier file need not have a label. -/
structure Partition where
  label : Option String
  nodeLabel : String
  offset : Int
  size : Int
deriving DecidableEq, Repr

def Partition.span (p : Partition) : Span := ⟨p.offset, p.size⟩

/-- A flash device with its partitions. Nodes without a size are not listed; an erase size of 0 would be an exception.
-/
structure FlashDevice where
  devLabel : String
  totalSize : Int
  eraseSize : Int
  parts : List Partition
  internal : Bool
  size_pos : 0 < totalSize
  erase_pos : 0 < eraseSize

theorem blocks_pos (blocks : Nat) [NeZero blocks] : 0 < (blocks : Int) * (4 * kb) :=
  Int.mul_pos (Int.natCast_pos.mpr (Nat.pos_of_neZero blocks)) (by decide)

theorem block_pos : 0 < 4 * kb := by decide

instance neZeroNor : NeZero 2048 := ⟨by decide⟩

def FlashDevice.blocks (devLabel : String) (blocks : Nat) [NeZero blocks] (internal : Bool)
    (parts : List Partition) : FlashDevice :=
  ⟨devLabel, blocks * (4 * kb), 4 * kb, parts, internal, blocks_pos blocks, block_pos⟩

/-- What the planner reads from the devicetree. -/
structure Edt where
  devices : List FlashDevice
  /-- The `write-block-size` of the chosen flash. -/
  writeBlockSize : Option Nat
  /-- There is an enabled `zephyr_udc0`. -/
  nativeUsb : Bool
  /-- `_fork_sized_partition_labels`: the partitions whose size is one that was generated earlier. -/
  forkSized : List (Option String)

/-- The options of a board in `boards.toml`. -/
structure PlanOptions where
  singleApp : Bool
  overwriteOnly : Bool
  bootSizeKb : Option Int
  slotSizeKb : Option Int
  filesystemSizeKb : Option Int
  externalStorage : Bool

def filesystemNodeLabel (nativeUsb : Bool) : String :=
  if nativeUsb then "fatfs_partition" else "littlefs_partition"

def swapSupported (edt : Edt) : Bool :=
  match edt.writeBlockSize with
  | none => true
  | some size => max size 8 ≤ 32

def dataFlash (edt : Edt) : List FlashDevice := edt.devices.filter fun dev => dev.internal ∧ dev.totalSize < 64 * kb

def internalFlash (edt : Edt) : List FlashDevice := edt.devices.filter fun dev => dev.internal ∧ 64 * kb ≤ dev.totalSize

def externalFlash (edt : Edt) : List FlashDevice :=
  edt.devices.filter fun dev => ¬ dev.internal ∧ 1 * mb ≤ dev.totalSize

def secondarySlot (edt : Edt) (opts : PlanOptions) : Bool :=
  !opts.singleApp && (swapSupported edt || opts.overwriteOnly)

/-- The plan for one device, and the labels that the generated file leaves to the upstream one. -/
structure PlannedDevice where
  devLabel : String
  totalSize : Int
  eraseSize : Int
  parts : List Partition
  predefined : List (Option String)
deriving DecidableEq, Repr

def FlashDevice.planned (dev : FlashDevice) (parts : List Partition) : PlannedDevice :=
  ⟨dev.devLabel, dev.totalSize, dev.eraseSize, parts, []⟩

def hasPredefinedMcuboot (edt : Edt) : Bool :=
  edt.devices.any fun dev =>
    dev.parts.any (·.label = some "mcuboot") && dev.parts.any (·.label = some "image-0")

/-! ### The partitions that are planned -/

def bootPartition (offset size : Int) : Partition := ⟨some "mcuboot", "boot_partition", offset, size⟩

def slot0Partition (offset size : Int) : Partition := ⟨some "image-0", "slot0_partition", offset, size⟩

def slot1Partition (offset size : Int) : Partition := ⟨some "image-1", "slot1_partition", offset, size⟩

def storagePartition (offset size : Int) : Partition := ⟨some "storage", "storage_partition", offset, size⟩

def nvmPartition (offset size : Int) : Partition := ⟨some "nvm", "nvm_partition", offset, size⟩

def filesystemPartition (edt : Edt) (offset size : Int) : Partition :=
  ⟨some "filesystem", filesystemNodeLabel edt.nativeUsb, offset, size⟩

/-! ### What a plan should be -/

/-- The partitions of a device have a size, are whole erase blocks, do not overlap and are inside the
device. -/
structure WellPlaced (total erase : Int) (parts : List Partition) : Prop where
  nonneg : ∀ p ∈ parts, 0 ≤ p.size
  aligned : ∀ p ∈ parts, erase ∣ p.offset ∧ erase ∣ p.size
  disjoint : parts.Pairwise fun p q => p.span.Disjoint q.span
  inside : ∀ p ∈ parts, p.span.stop ≤ total

section WellPlaced

variable {total erase : Int} {parts : List Partition}

def Consecutive (erase : Int) : Int → List Partition → Prop
  | _, [] => True
  | cursor, p :: parts =>
    cursor ≤ p.offset ∧ 0 ≤ p.size ∧ erase ∣ p.offset ∧ erase ∣ p.size ∧ Consecutive erase (p.offset + p.size) parts

def lastEnd : Int → List Partition → Int
  | cursor, [] => cursor
  | _, p :: parts => lastEnd (p.offset + p.size) parts

variable {cursor : Int}

theorem Consecutive.next {size : Int} {label : Option String} {nodeLabel : String}
    (start : erase ∣ cursor) (nonneg : 0 ≤ size) (dvd : erase ∣ size) (rest : Consecutive erase (cursor + size) parts) :
    Consecutive erase cursor (⟨label, nodeLabel, cursor, size⟩ :: parts) :=
  ⟨Int.le_refl _, nonneg, start, dvd, rest⟩

theorem Consecutive.first {size : Int} {label : Option String} {nodeLabel : String} (nonneg : 0 ≤ size)
    (dvd : erase ∣ size) (rest : Consecutive erase size parts) :
    Consecutive erase 0 (⟨label, nodeLabel, 0, size⟩ :: parts) :=
  .next (Int.dvd_zero _) nonneg dvd (by rwa [Int.zero_add])

theorem lastEnd_append (cursor : Int) (parts rest : List Partition) :
    lastEnd cursor (parts ++ rest) = lastEnd (lastEnd cursor parts) rest := by
  induction parts generalizing cursor with
  | nil => rfl
  | cons p parts ih => exact ih _

variable (placed : Consecutive erase cursor parts)
include placed

theorem Consecutive.append {rest : List Partition}
    (behind : Consecutive erase (lastEnd cursor parts) rest) : Consecutive erase cursor (parts ++ rest) := by
  induction parts generalizing cursor with
  | nil => exact behind
  | cons p parts ih =>
    obtain ⟨starts, nonneg, start, dvd, others⟩ := placed
    exact ⟨starts, nonneg, start, dvd, ih others behind⟩

theorem Consecutive.ascending :
    Ascending cursor (parts.map Partition.span) := by
  induction parts generalizing cursor with
  | nil => trivial
  | cons p parts ih => exact ⟨placed.1, placed.2.1, ih placed.2.2.2.2⟩

theorem Consecutive.le_lastEnd :
    cursor ≤ lastEnd cursor parts ∧ ∀ p ∈ parts, p.span.stop ≤ lastEnd cursor parts := by
  induction parts generalizing cursor with
  | nil => exact ⟨Int.le_refl _, by simp⟩
  | cons p parts ih =>
    obtain ⟨starts, nonneg, _, _, rest⟩ := placed
    obtain ⟨le, inside⟩ := ih rest
    rw [lastEnd]
    refine ⟨by omega, fun q mem => ?_⟩
    rcases List.mem_cons.mp mem with rfl | later
    · exact le
    · exact inside q later

theorem Consecutive.aligned :
    ∀ p ∈ parts, erase ∣ p.offset ∧ erase ∣ p.size := by
  induction parts generalizing cursor with
  | nil => simp
  | cons p parts ih =>
    intro q mem
    rcases List.mem_cons.mp mem with rfl | later
    · exact ⟨placed.2.2.1, placed.2.2.2.1⟩
    · exact ih placed.2.2.2.2 q later

theorem Consecutive.wellPlaced (fits : lastEnd cursor parts ≤ total) : WellPlaced total erase parts where
  nonneg p mem := (placed.ascending.ge p.span (List.mem_map_of_mem mem)).2
  aligned := placed.aligned
  disjoint := List.pairwise_map.mp placed.ascending.pairwise
  inside p mem := Int.le_trans (placed.le_lastEnd.2 p mem) fits

omit placed

theorem WellPlaced.lastEnd_le (placed : WellPlaced total erase parts) (some : parts ≠ []) (cursor : Int) :
    lastEnd cursor parts ≤ total := by
  have inside := placed.inside
  clear placed
  induction parts generalizing cursor with
  | nil => exact absurd rfl some
  | cons p parts ih =>
    cases parts with
    | nil => exact inside p (List.mem_singleton.mpr rfl)
    | cons q parts => exact ih (by simp) cursor fun r mem => inside r (List.mem_cons_of_mem _ mem)

theorem Consecutive.wellPlaced_iff (placed : Consecutive erase cursor parts) (some : parts ≠ []) :
    WellPlaced total erase parts ↔ lastEnd cursor parts ≤ total :=
  ⟨fun well => well.lastEnd_le some cursor, placed.wellPlaced⟩

theorem wellPlaced_only {size : Int} {label : Option String} {nodeLabel : String} (nonneg : 0 ≤ size)
    (dvd : erase ∣ size) : WellPlaced total erase [⟨label, nodeLabel, 0, size⟩] ↔ size ≤ total := by
  have placed : Consecutive erase 0 [⟨label, nodeLabel, 0, size⟩] := .first nonneg dvd trivial
  rw [placed.wellPlaced_iff (by simp), lastEnd, lastEnd, Int.zero_add]

end WellPlaced

/-! ### What is shown of a device -/

def Has (s : Span) (b : Int) : Prop := s.off ≤ b ∧ b < s.stop

instance {s : Span} {b : Int} : Decidable (Has s b) := inferInstanceAs (Decidable (_ ∧ _))

def gapsLoop (totalSize : Int) : Int → List Partition → List (Option String × Span)
  | cursor, [] => if cursor < totalSize then [(some "free", ⟨cursor, totalSize - cursor⟩)] else []
  | cursor, p :: parts =>
    (if p.offset > cursor then [(some "free", ⟨cursor, p.offset - cursor⟩)] else []) ++
      (p.label, p.span) :: gapsLoop totalSize (p.offset + p.size) parts

def makePartitionsWithGaps (parts : List Partition) (totalSize : Int) : List (Option String × Span) :=
  gapsLoop totalSize 0 (parts.mergeSort fun p q => p.offset ≤ q.offset)

def ReportedFree (segments : List (Option String × Span)) (b : Int) : Prop :=
  ∃ seg ∈ segments, seg.1 = some "free" ∧ Has seg.2 b

/-- A partition that is followed by a gap ends at `top`, where the partitions so far end, and none is called "free".
-/
def GapsOpen : Int → Int → List Partition → Prop
  | top, cursor, [] => top ≤ cursor
  | top, cursor, p :: parts =>
    (cursor < p.offset → top ≤ cursor) ∧ (p.label = some "free" → p.size = 0) ∧
      GapsOpen (max top p.span.stop) p.span.stop parts

section Gaps

variable {totalSize top cursor b : Int} {p : Partition} {parts : List Partition}

theorem free_nil : ReportedFree (gapsLoop totalSize cursor []) b ↔ cursor ≤ b ∧ b < totalSize := by
  unfold gapsLoop
  split <;> simp [ReportedFree, Has, Span.stop]
  omega

theorem free_cons : ReportedFree (gapsLoop totalSize cursor (p :: parts)) b ↔
    (cursor ≤ b ∧ b < p.offset) ∨ (p.label = some "free" ∧ Has p.span b) ∨
      ReportedFree (gapsLoop totalSize p.span.stop parts) b := by
  have gap : (∃ seg ∈ if p.offset > cursor then [(some "free", Span.mk cursor (p.offset - cursor))] else [],
      seg.1 = some "free" ∧ Has seg.2 b) ↔ cursor ≤ b ∧ b < p.offset := by
    split <;> simp [Has, Span.stop]
    omega
  simp only [ReportedFree, gapsLoop, List.mem_append, List.mem_cons, or_and_right, exists_or, gap, exists_eq_left]
  rfl

theorem free_ge (start' : top ≤ cursor) (offsets : ∀ p ∈ parts, top ≤ p.offset ∧ 0 ≤ p.size)
    (free : ReportedFree (gapsLoop totalSize cursor parts) b) : top ≤ b := by
  induction parts generalizing cursor with
  | nil => exact start'.trans (free_nil.mp free).1
  | cons p parts ih =>
    obtain ⟨start, nonneg⟩ := offsets p List.mem_cons_self
    rcases free_cons.mp free with gap | ⟨-, named⟩ | later
    · exact start'.trans gap.1
    · exact start.trans named.1
    · refine ih ?_ (fun q mem => offsets q (List.mem_cons_of_mem _ mem)) later
      simp only [Partition.span, Span.stop]
      omega

/-- Whatever the order of the partitions, a byte of none of them is behind the cursor when the gap is added. -/
theorem free_of_uncovered (behind : cursor ≤ b) (within : b < totalSize) (apart : ∀ p ∈ parts, ¬ Has p.span b) :
    ReportedFree (gapsLoop totalSize cursor parts) b := by
  induction parts generalizing cursor with
  | nil => exact free_nil.mpr ⟨behind, within⟩
  | cons p parts ih =>
    by_cases before : b < p.offset
    · exact free_cons.mpr (.inl ⟨behind, before⟩)
    · have ended : p.span.stop ≤ b := not_lt.mp fun lt => apart p List.mem_cons_self ⟨not_lt.mp before, lt⟩
      exact free_cons.mpr (.inr (.inr (ih ended fun q mem => apart q (List.mem_cons_of_mem _ mem))))

theorem gapsLoop_exact_iff (sorted : parts.Pairwise fun p q => p.offset ≤ q.offset)
    (inside : ∀ p ∈ parts, 0 ≤ p.size ∧ p.span.stop ≤ totalSize) (le : cursor ≤ top) (topIn : top ≤ totalSize) :
    (∀ b, ReportedFree (gapsLoop totalSize cursor parts) b ↔
      top ≤ b ∧ b < totalSize ∧ ∀ p ∈ parts, ¬ Has p.span b) ↔ GapsOpen top cursor parts := by
  induction parts generalizing cursor top with
  | nil =>
    simp only [free_nil, List.not_mem_nil, false_implies, implies_true, and_true, GapsOpen]
    constructor
    · intro exactly
      have here := exactly cursor
      omega
    · omega
  | cons p parts ih =>
    obtain ⟨later, sorted⟩ := List.pairwise_cons.mp sorted
    obtain ⟨nonneg, stopIn⟩ := inside p List.mem_cons_self
    have inside' := fun q mem => inside q (List.mem_cons_of_mem p mem)
    have stop : p.span.stop = p.offset + p.size := rfl
    have rest := ih sorted inside' (le_max_right top p.span.stop) (max_le topIn stopIn)
    rw [GapsOpen, ← rest]
    simp only [free_cons, List.forall_mem_cons]
    constructor
    · intro exactly
      refine ⟨fun gap => ?_, fun named => ?_, fun b => ⟨fun free => ?_, fun ⟨behind, within, apart⟩ => ?_⟩⟩
      · exact ((exactly cursor).mp (.inl ⟨le_rfl, gap⟩)).1
      · by_contra some
        have own : Has p.span p.offset := ⟨le_rfl, by omega⟩
        exact ((exactly p.offset).mp (.inr (.inl ⟨named, own⟩))).2.2.1 own
      · obtain ⟨ge, within, notOwn, apart⟩ := (exactly b).mp (.inr (.inr free))
        have start' : p.offset ≤ b := free_ge (by omega) (fun q mem => ⟨later q mem, (inside' q mem).1⟩) free
        exact ⟨max_le ge (not_lt.mp fun lt => notOwn ⟨start', lt⟩), within, apart⟩
      · exact free_of_uncovered ((le_max_right _ _).trans behind) within apart
    · rintro ⟨gap, named, exactly⟩ b
      constructor
      · rintro (⟨ge, lt⟩ | ⟨free, has⟩ | free)
        · refine ⟨(gap (ge.trans_lt lt)).trans ge, by omega, fun has => lt.not_ge has.1, fun q mem has => ?_⟩
          exact lt.not_ge ((later q mem).trans has.1)
        · have lt := has.2
          rw [stop, named free] at lt
          exact absurd has.1 (by simp only [Partition.span]; omega)
        · obtain ⟨ge, within, apart⟩ := (exactly b).mp free
          exact ⟨(le_max_left _ _).trans ge, within, fun has => has.2.not_ge ((le_max_right _ _).trans ge), apart⟩
      · rintro ⟨ge, within, notOwn, apart⟩
        refine free_cons.mp (free_of_uncovered (le.trans ge) within fun q mem => ?_)
        rcases List.mem_cons.mp mem with rfl | mem
        · exact notOwn
        · exact apart q mem

end Gaps

/-- The gaps are the bytes of no partition exactly if a partition that ends inside an earlier one is never followed by
one. -/
theorem gaps_exact_iff (dev : FlashDevice) (parts : List Partition)
    (inside : ∀ p ∈ parts, 0 ≤ p.offset ∧ 0 ≤ p.size ∧ p.span.stop ≤ dev.totalSize) :
    (∀ b, ReportedFree (makePartitionsWithGaps parts dev.totalSize) b ↔
      0 ≤ b ∧ b < dev.totalSize ∧ ∀ p ∈ parts, ¬ Has p.span b) ↔
      GapsOpen 0 0 (parts.mergeSort fun p q => p.offset ≤ q.offset) := by
  have sorted : (parts.mergeSort fun p q => p.offset ≤ q.offset).Pairwise fun p q => decide (p.offset ≤ q.offset) :=
    List.pairwise_mergeSort (fun _ _ _ => by simpa using Int.le_trans) (fun _ _ => by simpa using Int.le_total _ _) parts
  rw [← gapsLoop_exact_iff (sorted.imp of_decide_eq_true) (fun p mem => (inside p (List.mem_mergeSort.mp mem)).2)
    (Int.le_refl 0) dev.size_pos.le]
  simp only [makePartitionsWithGaps, List.mem_mergeSort]

def nestedParts (sizeKb : Int) : List Partition :=
  [slot0Partition 0 (8 * kb), ⟨some "carried", "carried", 4 * kb, sizeKb * kb⟩]

/-- The carried partition ends with the slot. -/
theorem gaps_exact_nested : ReportedFree (makePartitionsWithGaps (nestedParts 4) (16 * kb)) (12 * kb) ∧
    ¬ReportedFree (makePartitionsWithGaps (nestedParts 4) (16 * kb)) (6 * kb) := by
  have order : (nestedParts 4).Pairwise fun p q => decide (p.offset ≤ q.offset) = true := by decide
  have opened : GapsOpen 0 0 ((nestedParts 4).mergeSort fun p q => p.offset ≤ q.offset) := by
    rw [List.mergeSort_of_pairwise order]
    simp [GapsOpen, nestedParts, slot0Partition, Partition.span, Span.stop, kb]
  have exactly := (gaps_exact_iff (.blocks "flash" 4 true []) (nestedParts 4) (by decide)).mpr opened
  exact ⟨(exactly _).mpr (by decide), fun free => absurd ((exactly _).mp free) (by decide)⟩

/-- What follows a partition inside the first slot is shown as free, though it belongs to the slot. -/
theorem nested_shown_free : ReportedFree (makePartitionsWithGaps (nestedParts 1) (16 * kb)) (6 * kb) ∧
    ∃ p ∈ nestedParts 1, Has p.span (6 * kb) := by
  have order : (nestedParts 1).Pairwise fun p q => decide (p.offset ≤ q.offset) = true := by decide
  rw [makePartitionsWithGaps, List.mergeSort_of_pairwise order]
  exact ⟨⟨(some "free", ⟨5 * kb, 11 * kb⟩), by decide, rfl, by decide⟩, _, List.mem_cons_self, by decide⟩

end Adaboot.Planner
