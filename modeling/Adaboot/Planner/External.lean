import Adaboot.Planner.Upstream

/-!
# Moving the second slot to external flash

Both devices are planned around the partitions that are carried from an earlier file. Only the boot partition, and the
first slot, can meet them.
-/

namespace Adaboot.Planner

open Spans

/-! ### The order of the carried partitions -/

theorem sortByOffset_sorted (parts : List Partition) :
    (sortByOffset parts).Pairwise fun p q => p.offset ≤ q.offset := by
  have sorted : (sortByOffset parts).Pairwise fun p q => decide (p.offset ≤ q.offset) :=
    List.pairwise_mergeSort (fun p q r => by simpa using Int.le_trans)
      (fun p q => by simpa using Int.le_total p.offset q.offset) parts
  simpa using sorted

variable {parts : List Partition} {first p : Partition} (sorted : parts.Pairwise fun p q => p.offset ≤ q.offset)
include sorted

theorem find?_offset_le {pred : Partition → Bool} (found : parts.find? pred = some first) (mem : p ∈ parts)
    (holds : pred p) : first.offset ≤ p.offset := by
  obtain ⟨_, before, behind, rfl, fails⟩ := List.find?_eq_some_iff_append.mp found
  rcases List.mem_append.mp mem with mem | mem
  · have contradiction := fails p mem
    simp [holds] at contradiction
  · rcases List.mem_cons.mp mem with rfl | mem
    · exact Int.le_refl _
    · exact (List.pairwise_cons.mp (List.pairwise_append.mp sorted).2.1).1 p mem

theorem head_offset_le {rest : List Partition} (head : parts = first :: rest) (mem : p ∈ parts) :
    first.offset ≤ p.offset := by
  subst head
  rcases List.mem_cons.mp mem with rfl | mem
  · exact Int.le_refl _
  · exact (List.pairwise_cons.mp sorted).1 p mem

omit sorted

section External

variable (edt : Edt) (opts : PlanOptions) (dev ext : FlashDevice) (existing : Existing) (boot : Partition)
  {c p : Partition}

theorem mem_carriedParts {devLabel : String} :
    c ∈ carriedParts existing devLabel ↔ c ∈ (existing devLabel).carried :=
  (sortByOffset_perm _).mem_iff

/-! ### What a plan should keep -/

def InsideOld (carry : Carry) (c : Partition) : Prop :=
  ∃ old, carry.slot0 = some old ∧ old.off ≤ c.offset ∧ c.span.stop ≤ old.stop

/-- Carried partitions stay as they were, and only the first slot may meet those that lay inside the earlier one. -/
structure KeepsCarried : Prop where
  kept : ∃ int' ext', moveExternal edt opts dev ext existing boot = [int', ext'] ∧
    (∀ c ∈ (existing dev.devLabel).carried, c ∈ int'.parts) ∧ ∀ c ∈ (existing ext.devLabel).carried, c ∈ ext'.parts
  internal : ∀ p ∈ internalPlan edt opts dev ext existing boot, ∀ c ∈ (existing dev.devLabel).carried,
    p.span.Disjoint c.span ∨ p.label = some "image-0" ∧ InsideOld (existing dev.devLabel) c
  external : ∀ p ∈ externalFront edt opts dev ext existing boot ++ externalFilesystem edt opts dev ext existing boot,
    ∀ c ∈ (existing ext.devLabel).carried, p.span.Disjoint c.span
  slot0 : 0 ≤ grownSlot0Size edt opts dev ext existing boot
  slot1 : 0 ≤ movedSlot1Size edt opts dev ext existing boot

/-- The first slot can have the size from `start` on: whole blocks of the larger erase size that end in front of the
data at the end and of what is carried behind the earlier slot, and no more than the pin. -/
structure SlotFits (start size : Int) : Prop where
  blocks : max dev.eraseSize ext.eraseSize ∣ size
  tail : start + size ≤ alignDown (dev.totalSize - ((if opts.externalStorage then 0 else upstreamStorageSize dev) +
    internalNvmSize edt dev)) dev.eraseSize
  carried : ∀ c ∈ (existing dev.devLabel).carried, (∀ old ∈ (existing dev.devLabel).slot0, old.stop ≤ c.offset) →
    start + size ≤ c.offset
  pin : ∀ sizeKb ∈ opts.slotSizeKb, size ≤ sizeKb * kb

/-- No carried partition is in the way of a boot partition that ends at `stop`, none that starts in front of the end
of the earlier slot and lay not inside is in the way of the first slot, and that slot has a size. -/
structure ClearBehind (stop : Int) : Prop where
  boot : ∀ c ∈ (existing dev.devLabel).carried, 0 < c.size → boot.offset < c.span.stop →
    stop ≤ boot.offset ∨ stop ≤ c.offset
  straddling : ∀ old ∈ (existing dev.devLabel).slot0, ∀ c ∈ (existing dev.devLabel).carried, 0 < c.size →
    c.offset < old.stop → ¬ InsideOld (existing dev.devLabel) c → alignUp stop dev.eraseSize < c.span.stop →
    ∀ size > 0, SlotFits edt opts dev ext existing (alignUp stop dev.eraseSize) size →
      alignUp stop dev.eraseSize + size ≤ c.offset
  slot0 : SlotFits edt opts dev ext existing (alignUp stop dev.eraseSize) 0

/-- There is room behind the boot partition, which has the pinned size or at least 128 KB, and on the external flash
the carried partitions are behind the nvm partition that may be there. -/
structure RoomForCarried : Prop where
  pinned : ∀ sizeKb ∈ opts.bootSizeKb,
    ClearBehind edt opts dev ext existing boot (boot.offset + alignUp (sizeKb * kb) dev.eraseSize)
  grown : opts.bootSizeKb = none →
    ClearBehind edt opts dev ext existing boot (boot.offset + max boot.size (alignUp (128 * kb) dev.eraseSize))
  external : ∀ c ∈ (existing ext.devLabel).carried,
    (if nvmOnInternal edt dev ∨ dataFlash edt ≠ [] then 0 else ext.eraseSize) ≤ c.offset

variable {edt opts dev ext existing boot}

/-! ### The internal flash -/

theorem slot0Limit_le (mem : c ∈ (existing dev.devLabel).carried)
    (behind : ∀ old, (existing dev.devLabel).slot0 = some old → old.stop ≤ c.offset) :
    slot0Limit edt opts dev existing ≤ c.offset := by
  have mem := (mem_carriedParts existing).mpr mem
  simp only [slot0Limit]
  cases found : protectedPart dev existing with
  | none =>
    refine absurd ?_ (List.find?_eq_none.mp found c mem)
    split
    · rfl
    next old slot0 => simpa using behind old slot0
  | some first =>
    have le : first.offset ≤ c.offset := by
      apply find?_offset_le (sortByOffset_sorted _) found mem
      split
      · rfl
      next old slot0 => simpa using behind old slot0
    exact Int.le_trans (Int.min_le_right _ _) le

theorem le_slot0Limit {x : Int} : x ≤ slot0Limit edt opts dev existing ↔ x ≤ alignDown (dev.totalSize -
      ((if opts.externalStorage then 0 else upstreamStorageSize dev) + internalNvmSize edt dev)) dev.eraseSize ∧
    ∀ c ∈ (existing dev.devLabel).carried, (∀ old ∈ (existing dev.devLabel).slot0, old.stop ≤ c.offset) →
      x ≤ c.offset := by
  constructor
  · intro le
    refine ⟨Int.le_trans le ?_, fun c mem behind => Int.le_trans le (slot0Limit_le mem behind)⟩
    simp only [slot0Limit]
    split <;> omega
  · rintro ⟨tail, carried⟩
    simp only [slot0Limit]
    split
    next => exact tail
    next c found =>
      refine le_min tail (carried c ((mem_carriedParts existing).mp (List.mem_of_find?_eq_some found)) fun old slot0 => ?_)
      have behind := List.find?_some found
      rw [Option.mem_def] at slot0
      simpa [slot0] using behind

/-- The planner takes the largest size that fits. -/
theorem slotFits_iff {size : Int} : SlotFits edt opts dev ext existing (grownSlot0Offset opts dev boot) size ↔
    max dev.eraseSize ext.eraseSize ∣ size ∧ size ≤ grownSlot0Size edt opts dev ext existing boot := by
  have pos : 0 < max dev.eraseSize ext.eraseSize := Int.lt_of_lt_of_le dev.erase_pos (Int.le_max_left _ _)
  have whole {x : Int} (dvd : max dev.eraseSize ext.eraseSize ∣ size) :
      size ≤ alignDown x (max dev.eraseSize ext.eraseSize) ↔ size ≤ x :=
    ⟨fun le => Int.le_trans le (alignDown_le pos x), le_alignDown pos dvd⟩
  have fits : SlotFits edt opts dev ext existing (grownSlot0Offset opts dev boot) size ↔
      max dev.eraseSize ext.eraseSize ∣ size ∧
        grownSlot0Offset opts dev boot + size ≤ slot0Limit edt opts dev existing ∧
        ∀ sizeKb ∈ opts.slotSizeKb, size ≤ sizeKb * kb := by
    rw [le_slot0Limit]
    exact ⟨fun fits => ⟨fits.blocks, ⟨fits.tail, fits.carried⟩, fits.pin⟩,
      fun ⟨blocks, ⟨tail, carried⟩, pin⟩ => ⟨blocks, tail, carried, pin⟩⟩
  rw [fits]
  refine and_congr_right fun dvd => ?_
  have fill := @whole (slot0Limit edt opts dev existing - grownSlot0Offset opts dev boot) dvd
  simp only [grownSlot0Size]
  cases opts.slotSizeKb with
  | none =>
    simp only [Option.mem_def, reduceCtorEq, false_implies, implies_true, and_true]
    omega
  | some sizeKb =>
    -- The smaller of the two sizes is taken.
    have pinned := @whole (sizeKb * kb) dvd
    simp only [Option.mem_def, Option.some.injEq, forall_eq']
    split <;> omega

theorem grownSlot0Size_dvd : max dev.eraseSize ext.eraseSize ∣ grownSlot0Size edt opts dev ext existing boot := by
  simp only [grownSlot0Size]
  split
  · exact dvd_alignDown _ _
  · split <;> exact dvd_alignDown _ _

theorem slotFits_grown : SlotFits edt opts dev ext existing (grownSlot0Offset opts dev boot)
    (grownSlot0Size edt opts dev ext existing boot) := slotFits_iff.mpr ⟨grownSlot0Size_dvd, Int.le_refl _⟩

theorem grownSlot0Size_nonneg : 0 ≤ grownSlot0Size edt opts dev ext existing boot ↔
    SlotFits edt opts dev ext existing (grownSlot0Offset opts dev boot) 0 := by
  rw [slotFits_iff, and_iff_right (Int.dvd_zero _)]

theorem internalPlan_cases (mem : p ∈ internalPlan edt opts dev ext existing boot) :
    p = bootPartition boot.offset (grownBootSize opts dev boot) ∨
      p = slot0Partition (grownSlot0Offset opts dev boot) (grownSlot0Size edt opts dev ext existing boot) ∨
      p.label ≠ some "image-0" ∧ maxEnd (carriedParts existing dev.devLabel) ≤ p.offset := by
  have carried := le_alignUp dev.erase_pos (maxEnd (carriedParts existing dev.devLabel))
  simp only [internalPlan] at mem
  -- The cursor is behind the carried partitions from here on.
  have behind := Int.le_trans carried (Int.le_max_right
    (grownSlot0Offset opts dev boot + grownSlot0Size edt opts dev ext existing boot) _)
  generalize max (grownSlot0Offset opts dev boot + grownSlot0Size edt opts dev ext existing boot) _ = cursor
    at mem behind
  have atNvm := le_alignUp dev.erase_pos cursor
  rcases List.mem_append.mp mem with mem | mem
  · rcases List.mem_append.mp mem with mem | mem
    · rcases List.mem_pair.mp mem with rfl | rfl
      · exact .inl rfl
      · exact .inr (.inl rfl)
    · split at mem
      · cases List.mem_singleton.mp mem
        exact .inr (.inr ⟨by simp [nvmPartition], Int.le_trans behind atNvm⟩)
      · cases mem
  · split at mem
    · cases mem
    · cases List.mem_singleton.mp mem
      refine .inr (.inr ⟨by simp [storagePartition], Int.le_trans ?_ (le_alignUp dev.erase_pos _)⟩)
      split <;> omega

theorem ClearBehind.internal
    (clear : ClearBehind edt opts dev ext existing boot (boot.offset + grownBootSize opts dev boot)) :
    ∀ p ∈ internalPlan edt opts dev ext existing boot, ∀ c ∈ (existing dev.devLabel).carried,
      p.span.Disjoint c.span ∨ p.label = some "image-0" ∧ InsideOld (existing dev.devLabel) c := by
  intro p planned c mem
  rcases internalPlan_cases planned with rfl | rfl | ⟨_, behind⟩
  · have apart := clear.boot c mem
    refine .inl (Span.disjoint_iff.mpr ?_)
    simp only [bootPartition, Partition.span, Span.stop] at apart ⊢
    omega
  · by_cases inside : InsideOld (existing dev.devLabel) c
    · exact .inr ⟨rfl, inside⟩
    · left
      by_cases limits : ∀ old ∈ (existing dev.devLabel).slot0, old.stop ≤ c.offset
      · exact Span.disjoint_of_le (slotFits_grown.carried c mem limits)
      · push Not at limits
        obtain ⟨old, found, lt⟩ := limits
        have apart := fun nonempty starts size =>
          clear.straddling old found c mem nonempty lt inside starts _ size slotFits_grown
        refine Span.disjoint_iff.mpr ?_
        simp only [slot0Partition, grownSlot0Offset, Partition.span, Span.stop] at apart ⊢
        omega
  · have stop := le_maxEnd ((mem_carriedParts existing).mpr mem)
    exact .inl (Span.disjoint_of_le (Int.le_trans stop behind)).symm

theorem KeepsCarried.clear (keeps : KeepsCarried edt opts dev ext existing boot) :
    ClearBehind edt opts dev ext existing boot (boot.offset + grownBootSize opts dev boot) := by
  refine ⟨fun c mem nonempty starts => ?_, fun old found c mem nonempty lt inside starts size pos fits => ?_,
    grownSlot0Size_nonneg.mp keeps.slot0⟩
  · have planned : bootPartition boot.offset (grownBootSize opts dev boot) ∈
      internalPlan edt opts dev ext existing boot := by simp [internalPlan]
    have apart := (keeps.internal _ planned c mem).resolve_right (by simp [bootPartition])
    rw [Span.disjoint_iff] at apart
    simp only [bootPartition, Partition.span, Span.stop] at apart starts
    omega
  · have planned : slot0Partition (grownSlot0Offset opts dev boot) (grownSlot0Size edt opts dev ext existing boot) ∈
      internalPlan edt opts dev ext existing boot := by simp [internalPlan]
    have apart := (keeps.internal _ planned c mem).resolve_right fun was => inside was.2
    have le := (slotFits_iff.mp fits).2
    rw [Span.disjoint_iff] at apart
    simp only [slot0Partition, grownSlot0Offset, Partition.span, Span.stop] at apart starts
    omega

/-! ### The external flash -/

theorem movedSlot1Offset_eq : movedSlot1Offset edt dev ext =
    if nvmOnInternal edt dev ∨ dataFlash edt ≠ [] then 0 else ext.eraseSize := by
  have own := alignUp_eq ext.erase_pos (Int.dvd_refl ext.eraseSize)
  simp only [movedSlot1Offset, Int.zero_add, own]
  split
  · exact alignUp_eq ext.erase_pos (Int.dvd_zero _)
  · exact own

theorem externalNvm_stop (mem : p ∈ externalNvm edt dev ext) :
    p.span.stop = movedSlot1Offset edt dev ext := by
  rw [movedSlot1Offset_eq]
  unfold externalNvm at mem
  split at mem
  · cases mem
  next external =>
    cases List.mem_singleton.mp mem
    rw [if_neg external]
    exact Int.zero_add _

section Carried

variable {c : Partition} {rest : List Partition} (head : carriedParts existing ext.devLabel = c :: rest)
include head

theorem movedSlot1_stop : movedSlot1Offset edt dev ext + movedSlot1Size edt opts dev ext existing boot ≤ c.offset := by
  have avail := alignDown_le ext.erase_pos (alignDown c.offset ext.eraseSize - movedSlot1Offset edt dev ext)
  have le := alignDown_le ext.erase_pos c.offset
  simp only [movedSlot1Size, head]
  omega

theorem externalStorage_stop {cursor : Int} {p : Partition}
    (mem : p ∈ externalStorage opts dev ext existing cursor) : p.span.stop ≤ c.offset := by
  simp only [externalStorage, head] at mem
  split at mem
  · split at mem
    · cases mem
    · cases List.mem_singleton.mp mem
      simp only [Partition.span, Span.stop, storagePartition]
      omega
  · cases mem

theorem carried_ge {d : Partition} (mem : d ∈ (existing ext.devLabel).carried) : c.offset ≤ d.offset :=
  head_offset_le (sortByOffset_sorted _) head ((mem_carriedParts existing).mpr mem)

end Carried

theorem exists_head {devLabel : String} {c : Partition} (mem : c ∈ (existing devLabel).carried) :
    ∃ first rest, carriedParts existing devLabel = first :: rest := by
  cases parts : carriedParts existing devLabel with
  | nil =>
    have mem := (mem_carriedParts existing).mpr mem
    rw [parts] at mem
    cases mem
  | cons first rest => exact ⟨first, rest, rfl⟩

theorem movedSlot1Size_nonneg (slot0 : 0 ≤ grownSlot0Size edt opts dev ext existing boot) :
    0 ≤ movedSlot1Size edt opts dev ext existing boot ↔
      ∀ c ∈ (existing ext.devLabel).carried, movedSlot1Offset edt dev ext ≤ c.offset := by
  have pos := ext.erase_pos
  constructor
  · intro nonneg c mem
    obtain ⟨first, rest, head⟩ := exists_head mem
    have stop : movedSlot1Offset edt dev ext + movedSlot1Size edt opts dev ext existing boot ≤ first.offset :=
      movedSlot1_stop head
    have ge := carried_ge head mem
    omega
  · intro starts
    cases parts : carriedParts existing ext.devLabel with
    | nil =>
      simp only [movedSlot1Size, parts]
      split <;> omega
    | cons first rest =>
      have mem : first ∈ (existing ext.devLabel).carried := (mem_carriedParts existing).mp (by simp [parts])
      have dvd : ext.eraseSize ∣ movedSlot1Offset edt dev ext := dvd_alignUp _ _
      have le := le_alignDown pos dvd (starts first mem)
      have avail := (alignDown_nonneg pos (alignDown first.offset ext.eraseSize - movedSlot1Offset edt dev ext)).mpr
        (by omega)
      simp only [movedSlot1Size, parts]
      split <;> omega

theorem externalFront_apart (starts : ∀ c ∈ (existing ext.devLabel).carried, movedSlot1Offset edt dev ext ≤ c.offset) :
    ∀ p ∈ externalFront edt opts dev ext existing boot, ∀ c ∈ (existing ext.devLabel).carried,
      p.span.Disjoint c.span := by
  intro p planned c mem
  obtain ⟨first, rest, head⟩ := exists_head mem
  have ge := carried_ge head mem
  simp only [externalFront, List.append_assoc] at planned
  rcases List.mem_append.mp planned with nvm | planned
  · exact Span.disjoint_of_le (externalNvm_stop nvm ▸ starts c mem)
  · rcases List.mem_cons.mp planned with rfl | storage
    · exact Span.disjoint_of_le (Int.le_trans (movedSlot1_stop head) ge)
    · exact Span.disjoint_of_le (Int.le_trans (externalStorage_stop head storage) ge)

theorem le_carriedCursor (erase : Int) (parts : List Partition) (cursor : Int) :
    let behind := parts.foldl (fun cursor c => max cursor (alignUp (c.offset + c.size) erase)) cursor
    cursor ≤ behind ∧ ∀ c ∈ parts, alignUp (c.offset + c.size) erase ≤ behind := by
  induction parts generalizing cursor with
  | nil => simp
  | cons first rest ih =>
    obtain ⟨le, others⟩ := ih (max cursor (alignUp (first.offset + first.size) erase))
    refine ⟨Int.le_trans (Int.le_max_left _ _) le, fun c mem => ?_⟩
    rcases List.mem_cons.mp mem with rfl | mem
    · exact Int.le_trans (Int.le_max_right _ _) le
    · exact others c mem

theorem externalFilesystem_apart :
    ∀ p ∈ externalFilesystem edt opts dev ext existing boot, ∀ c ∈ (existing ext.devLabel).carried,
      p.span.Disjoint c.span := by
  intro p planned c mem
  simp only [externalFilesystem] at planned
  split at planned
  · cases List.mem_singleton.mp planned
    refine (Span.disjoint_of_le (Int.le_trans (le_alignUp ext.erase_pos _) ?_)).symm
    exact (le_carriedCursor ext.eraseSize _ _).2 c ((mem_carriedParts existing).mpr mem)
  · cases planned

/-! ### Both devices -/

/-- The carried partitions stay and are not overlapped exactly if there is room for them. -/
theorem external_keeps_carried_iff (edt : Edt) (opts : PlanOptions) (dev ext : FlashDevice) (existing : Existing)
    (boot : Partition) :
    KeepsCarried edt opts dev ext existing boot ↔ RoomForCarried edt opts dev ext existing boot := by
  have room : RoomForCarried edt opts dev ext existing boot ↔
      ClearBehind edt opts dev ext existing boot (boot.offset + grownBootSize opts dev boot) ∧
        ∀ c ∈ (existing ext.devLabel).carried, movedSlot1Offset edt dev ext ≤ c.offset := by
    rw [movedSlot1Offset_eq, grownBootSize]
    refine ⟨fun ⟨pinned, grown, external⟩ => ⟨?_, external⟩, fun ⟨clear, external⟩ => ⟨?_, ?_, external⟩⟩
    · split
      next sizeKb pin => exact pinned sizeKb pin
      next free => exact grown free
    · intro sizeKb pin
      rw [Option.mem_def] at pin
      simpa only [pin] using clear
    · intro free
      simpa only [free] using clear
  rw [room]
  constructor
  · exact fun keeps => ⟨keeps.clear, (movedSlot1Size_nonneg keeps.slot0).mp keeps.slot1⟩
  · rintro ⟨clear, external⟩
    have slot0 : 0 ≤ grownSlot0Size edt opts dev ext existing boot := grownSlot0Size_nonneg.mpr clear.slot0
    refine ⟨⟨_, _, rfl, fun c mem => ?_, fun c mem => ?_⟩, clear.internal,
      List.forall_mem_append.mpr ⟨externalFront_apart external, externalFilesystem_apart⟩, slot0,
      (movedSlot1Size_nonneg slot0).mpr external⟩
    · exact List.mem_append_right _ ((mem_carriedParts existing).mpr mem)
    · exact List.mem_append_left _ (List.mem_append_right _ ((mem_carriedParts existing).mpr mem))

/-- A boot partition of 64 KB, and a partition that was put inside the first slot by hand. -/
def seededFile : List DtsiLine :=
  [.device "flash0", .partition "boot_partition" [] 0, .label "mcuboot", .reg (some (64 * 1024)),
    .partition "slot0_partition" [] (64 * 1024), .label "image-0", .reg (some (896 * 1024)),
    .partition "cpuflpr_code_partition" [] (96 * 1024), .reg (some (8 * 1024)), .other]

def seededFlash : FlashDevice :=
  .blocks "flash0" 256 true [bootPartition 0 (64 * kb), slot0Partition (64 * kb) (896 * kb)]

def spareFlash : FlashDevice := .blocks "mx25r64" 2048 false []

/-- The boot partition grows to 128 KB, over the partition that lay inside the earlier slot. -/
theorem external_boot_overlaps_carried :
    ¬ KeepsCarried ⟨[seededFlash, spareFlash], none, true, []⟩ (pinned none none) seededFlash spareFlash
      (parseExistingPartitionsDtsi seededFile) (bootPartition 0 (64 * kb)) := by
  intro keeps
  have carried : ⟨none, "cpuflpr_code_partition", 96 * kb, 8 * kb⟩ ∈
      (parseExistingPartitionsDtsi seededFile seededFlash.devLabel).carried := by decide
  have planned : bootPartition 0 (128 * kb) ∈ internalPlan ⟨[seededFlash, spareFlash], none, true, []⟩
      (pinned none none) seededFlash spareFlash (parseExistingPartitionsDtsi seededFile)
      (bootPartition 0 (64 * kb)) := List.mem_cons_self
  rcases keeps.internal _ planned _ carried with apart | ⟨slot0, _⟩
  · revert apart
    decide
  · revert slot0
    decide

end External

end Adaboot.Planner
