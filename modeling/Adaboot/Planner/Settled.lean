import Adaboot.Planner.Upstream

/-!
# Keeping the upstream slots twice

After a first run the sizes that are found on the device are the planner's own. The partitions of a second run are
worked out from them (`keptParts_again`, `resizing`); the rest is arithmetic.
-/

namespace Adaboot.Planner

open Spans

/-! ### Sorting by offset -/

def Sorted (parts : List Partition) : Prop := parts.Pairwise fun p q => p.offset ≤ q.offset

section Sorting

variable {parts : List Partition} {labels : List (Option String)}

theorem offset_trans (p q r : Partition) (first : decide (p.offset ≤ q.offset) = true)
    (second : decide (q.offset ≤ r.offset) = true) : decide (p.offset ≤ r.offset) = true := by
  simp only [decide_eq_true_eq] at *
  exact Int.le_trans first second

theorem offset_total (p q : Partition) : (decide (p.offset ≤ q.offset) || decide (q.offset ≤ p.offset)) = true := by
  simpa using Int.le_total p.offset q.offset

theorem sorted_iff : Sorted parts ↔ parts.Pairwise fun p q => decide (p.offset ≤ q.offset) = true := by
  simp only [Sorted, decide_eq_true_eq]

theorem sorted_sortByOffset (parts : List Partition) : Sorted (sortByOffset parts) :=
  sorted_iff.mpr (List.pairwise_mergeSort offset_trans offset_total parts)

theorem sortByOffset_of_sorted (sorted : Sorted parts) : sortByOffset parts = parts :=
  List.mergeSort_of_pairwise (sorted_iff.mp sorted)

variable {keep : Partition → Bool} {new : Option (List Partition)} {label : String}

theorem filter_sortByOffset (sorted : Sorted (parts.filter keep)) :
    (sortByOffset parts).filter keep = parts.filter keep := by
  have inside : (parts.filter keep).Sublist (sortByOffset parts) :=
    List.sublist_mergeSort offset_trans offset_total (sorted_iff.mp sorted) List.filter_sublist
  have filtered : (parts.filter keep).Sublist ((sortByOffset parts).filter keep) := by
    simpa using inside.filter keep
  exact (filtered.eq_of_length ((sortByOffset_perm parts).filter keep).length_eq.symm).symm

theorem replaceLabels_sorted (new : Option (List Partition)) (sorted : Sorted parts) :
    Sorted (replaceLabels labels new parts) := by
  cases new with
  | none => exact sorted
  | some new => exact sorted_sortByOffset _

theorem filter_replaceLabels (sorted : Sorted parts)
    (others : ∀ p, keep p = true → p.label ∉ labels) (same : ∀ p ∈ new.getD [], p.label ∈ labels) :
    (replaceLabels labels new parts).filter keep = parts.filter keep := by
  cases new with
  | none => rfl
  | some new =>
    have nothing : new.filter keep = [] := List.filter_eq_nil_iff.mpr fun p mem kept =>
      others p kept (same p mem)
    have stay : (parts.filter (·.label ∉ labels)).filter keep = parts.filter keep := by
      rw [List.filter_filter]
      refine List.filter_congr fun p _ => ?_
      cases kept : keep p with
      | false => rfl
      | true => simpa using others p kept
    have whole : (parts.filter (·.label ∉ labels) ++ new).filter keep = parts.filter keep := by
      rw [List.filter_append, nothing, stay, List.append_nil]
    rw [replaceLabels, filter_sortByOffset (by rw [whole]; exact sorted.filter _), whole]

theorem replaceLabels_again {first : Option (List Partition)} (sorted : Sorted parts)
    (same : ∀ p ∈ first.getD [], p.label ∈ labels) (second : Option (List Partition)) :
    replaceLabels labels second (replaceLabels labels first parts) = replaceLabels labels (second.or first) parts := by
  cases second with
  | none => rfl
  | some new =>
    have stay : (replaceLabels labels first parts).filter (·.label ∉ labels) = parts.filter (·.label ∉ labels) :=
      filter_replaceLabels sorted (fun p kept => by simpa using kept) same
    simp only [replaceLabels] at stay ⊢
    rw [stay, Option.some_or]

theorem findLabel_eq_head (label : String) (parts : List Partition) :
    findLabel label parts = (parts.filter (·.label = some label)).head? := List.head?_filter.symm

theorem findLabel_replaceLabels (sorted : Sorted parts)
    (other : some label ∉ labels) (same : ∀ p ∈ new.getD [], p.label ∈ labels) :
    findLabel label (replaceLabels labels new parts) = findLabel label parts := by
  rw [findLabel_eq_head, findLabel_eq_head, filter_replaceLabels sorted (fun p kept => ?_) same]
  rw [of_decide_eq_true kept]
  exact other

theorem findLabel_replaced {new : List Partition} {found : Option Partition}
    (replaced : some label ∈ labels) (only : new.filter (·.label = some label) = found.toList) :
    findLabel label (replaceLabels labels (some new) parts) = found := by
  have old : (parts.filter (·.label ∉ labels)).filter (·.label = some label) = [] := by
    refine List.filter_eq_nil_iff.mpr fun p mem kept => ?_
    have dropped := (List.mem_filter.mp mem).2
    rw [of_decide_eq_true kept] at dropped
    exact of_decide_eq_true dropped replaced
  have whole : (parts.filter (·.label ∉ labels) ++ new).filter (·.label = some label) = found.toList := by
    rw [List.filter_append, old, only, List.nil_append]
  have sorted : Sorted found.toList := by cases found <;> simp [Sorted]
  rw [findLabel_eq_head, replaceLabels, filter_sortByOffset (by rw [whole]; exact sorted), whole]
  cases found <;> rfl

end Sorting

/-! ### The partitions that the second run finds -/

def FlashDevice.withParts (dev : FlashDevice) (parts : List Partition) : FlashDevice := { dev with parts := parts }

section Again

variable {edt : Edt} {opts : PlanOptions} {dev : FlashDevice} {carried : List Partition}

def resizing (edt : Edt) (opts : PlanOptions) (dev : FlashDevice) (carried : List Partition)
    (boot slot0 slot1 : Option Partition) : Option (List Partition) :=
  (cappedSlots opts dev carried boot slot0 slot1).or (reslotted edt opts dev carried boot slot0 slot1)

def bootedParts (opts : PlanOptions) (dev : FlashDevice) : List Partition :=
  replaceLabels bootLabels ((newBoot opts dev).map fun boot => [boot]) (sortByOffset (upstreamParts opts dev))

theorem newBoot_label : ∀ p ∈ ((newBoot opts dev).map fun boot => [boot]).getD [], p.label ∈ bootLabels := by
  intro p mem
  cases pinned : newBoot opts dev with
  | none => simp [pinned] at mem
  | some boot =>
    simp only [pinned, Option.map_some, Option.getD_some, List.mem_singleton] at mem
    subst mem
    rw [(pinnedBoot_label p pinned).1]
    exact List.mem_singleton.mpr rfl

theorem resizedSlots_label : ∀ p ∈ (resizedSlots edt opts dev carried).getD [],
    p.label ∈ slotLabels ∧ p.nodeLabel ∈ managedNodeLabels := by
  cases resized : resizedSlots edt opts dev carried with
  | none => simp
  | some slots => exact (resizedSlots_behind resized).label

theorem bootedParts_sorted : Sorted (bootedParts opts dev) := replaceLabels_sorted _ (sorted_sortByOffset _)

theorem keptParts_eq : keptParts edt opts dev carried =
      replaceLabels slotLabels (resizedSlots edt opts dev carried) (bootedParts opts dev) := by
  have same : ∀ p ∈ (reslotted edt opts dev carried (plannedBoot opts dev) (upstreamPart opts dev "image-0")
      (upstreamPart opts dev "image-1")).getD [], p.label ∈ slotLabels := by
    cases grown : reslotted edt opts dev carried (plannedBoot opts dev) (upstreamPart opts dev "image-0")
      (upstreamPart opts dev "image-1") with
    | none => simp
    | some slots => exact fun p mem => ((reslotted_behind grown).label p mem).1
  exact replaceLabels_again bootedParts_sorted same _

theorem keptParts_sorted : Sorted (keptParts edt opts dev carried) := by
  rw [keptParts_eq]
  exact replaceLabels_sorted _ bootedParts_sorted

theorem appTail_label (cursor : Int) : ∀ p ∈ appTail edt opts dev cursor,
    (p.label ∈ appPartitionLabels ∨ p.label = some "storage") ∧ p.nodeLabel ∈ managedNodeLabels := by
  intro p mem
  simp only [appTail, List.mem_append, List.mem_ite_nil_right, List.mem_singleton] at mem
  rcases mem with (⟨_, rfl⟩ | ⟨_, rfl⟩) | ⟨_, rfl⟩
  · simp [storagePartition, managedNodeLabels]
  · simp [nvmPartition, appPartitionLabels, managedNodeLabels]
  · cases usb : edt.nativeUsb <;>
      simp [filesystemPartition, filesystemNodeLabel, usb, appPartitionLabels, managedNodeLabels]

theorem keptParts_upstream : ∀ p ∈ keptParts edt opts dev carried,
    p.label ∉ appPartitionLabels ∧ p.label ≠ some "storage" ∧ ¬ (opts.singleApp ∧ p.label = some "image-1") := by
  intro p mem
  rcases List.mem_append.mp (keptParts_perm.mem_iff.mp mem) with untouched | resized
  · exact of_decide_eq_true (List.mem_filter.mp (List.mem_of_mem_filter untouched)).2
  rcases List.mem_append.mp resized with boot | slot
  · rw [(pinnedBoot_label p (Option.mem_toList.mp boot)).1]
    simp [appPartitionLabels]
  cases resize : resizedSlots edt opts dev carried with
  | none => simp [resize] at slot
  | some slots =>
    rw [resize, Option.getD_some] at slot
    obtain ⟨b, newSize, place, _, rfl⟩ := resizedSlots_behind resize
    -- A second slot is only planned where there is one, and then the board has not just one application.
    cases second : upstreamPart opts dev "image-1" with
    | none =>
      simp only [second, newSlots, List.mem_singleton] at slot
      subst slot
      simp [slot0Partition, appPartitionLabels]
    | some slot1 =>
      have found := findLabel_spec second
      have twoApps := of_decide_eq_true (List.mem_filter.mp ((sortByOffset_perm _).mem_iff.mp found.1)).2
      simp only [second, newSlots, List.mem_cons, List.not_mem_nil, or_false] at slot
      rcases slot with rfl | rfl
      · simp [slot0Partition, appPartitionLabels]
      · have two : opts.singleApp ≠ true := fun single => twoApps.2.2 ⟨single, found.2⟩
        simp [slot1Partition, appPartitionLabels, two]

theorem upstreamParts_again :
    upstreamParts opts (dev.withParts (keepUpstream edt opts dev carried)) = keptParts edt opts dev carried := by
  have kept : ∀ p ∈ keptParts edt opts dev carried, p.label ∉ appPartitionLabels ∧ p.label ≠ some "storage" ∧
      ¬ (opts.singleApp ∧ p.label = some "image-1") := keptParts_upstream
  rw [upstreamParts, FlashDevice.withParts, keepUpstream, List.filter_append]
  rw [List.filter_eq_self.mpr fun p mem => decide_eq_true (kept p mem)]
  rw [List.filter_eq_nil_iff.mpr fun p mem => ?_, List.append_nil]
  have tail := (appTail_label _ p mem).1
  simp only [decide_eq_true_eq]
  rintro ⟨notApp, notStorage, _⟩
  exact tail.elim notApp notStorage

variable (edt opts dev carried) in
def keptDevice : FlashDevice := dev.withParts (keepUpstream edt opts dev carried)

theorem upstreamPart_again (label : String) :
    upstreamPart opts (keptDevice edt opts dev carried) label = findLabel label (keptParts edt opts dev carried) := by
  rw [upstreamPart, keptDevice, upstreamParts_again, sortByOffset_of_sorted keptParts_sorted]

theorem findLabel_bootedParts {label : String} (other : some label ∉ bootLabels) :
    findLabel label (bootedParts opts dev) = upstreamPart opts dev label :=
  findLabel_replaceLabels (sorted_sortByOffset _) other newBoot_label

theorem upstreamPart_boot_again :
    upstreamPart opts (keptDevice edt opts dev carried) "mcuboot" = plannedBoot opts dev := by
  have other : some "mcuboot" ∉ slotLabels := by decide
  rw [upstreamPart_again, keptParts_eq, findLabel_replaceLabels bootedParts_sorted other fun p mem => (resizedSlots_label p mem).1]
  unfold bootedParts plannedBoot
  cases pinned : newBoot opts dev with
  | none => rfl
  | some boot =>
    refine findLabel_replaced (List.mem_singleton.mpr rfl) ?_
    simp [pinnedBoot_label boot pinned]

theorem pinnedBoot_pinned (boot : Option Partition) :
    pinnedBoot opts dev ((pinnedBoot opts dev boot).or boot) = none := by
  unfold pinnedBoot
  cases opts.bootSizeKb with
  | none => rfl
  | some sizeKb =>
    cases boot with
    | none => rfl
    | some boot =>
      by_cases same : alignUp (sizeKb * kb) dev.eraseSize = boot.size
      · simp [same]
      · simp [same, bootPartition]

theorem newBoot_again : newBoot opts (keptDevice edt opts dev carried) = none := by
  rw [newBoot, upstreamPart_boot_again]
  exact pinnedBoot_pinned _

theorem plannedBoot_again : plannedBoot opts (keptDevice edt opts dev carried) = plannedBoot opts dev := by
  rw [plannedBoot, newBoot_again, upstreamPart_boot_again, Option.none_or]

def slotAgain (label : String) (slots : Option (List Partition)) (slot : Option Partition) : Option Partition :=
  match slots with
  | none => slot
  | some slots => findLabel label slots

theorem filter_newSlots (dev : FlashDevice) (b : Partition) (slot1 : Option Partition) (newSize : Int)
    (place : Int × Int) :
    (newSlots dev b slot1 newSize place).filter (·.label = some "image-0") = [slot0Partition (bootEnd dev b) newSize] ∧
      (newSlots dev b slot1 newSize place).filter (·.label = some "image-1") =
        (slot1.map fun _ => slot1Partition place.1 place.2).toList := by
  cases slot1 <;> simp [newSlots, slot0Partition, slot1Partition]

theorem upstreamPart_slot_again {label : String} (slot : label = "image-0" ∨ label = "image-1") :
    upstreamPart opts (keptDevice edt opts dev carried) label =
      slotAgain label (resizedSlots edt opts dev carried) (upstreamPart opts dev label) := by
  have other : some label ∉ bootLabels := by
    rcases slot with rfl | rfl <;> decide
  have replaced : some label ∈ slotLabels := by
    rcases slot with rfl | rfl <;> decide
  rw [upstreamPart_again, keptParts_eq]
  cases resize : resizedSlots edt opts dev carried with
  | none => exact findLabel_bootedParts other
  | some slots =>
    refine findLabel_replaced replaced ?_
    obtain ⟨b, newSize, place, _, rfl⟩ := resizedSlots_behind resize
    obtain ⟨first, second⟩ := filter_newSlots dev b (upstreamPart opts dev "image-1") newSize place
    rcases slot with rfl | rfl
    · rw [first]; rfl
    · cases upstreamPart opts dev "image-1" <;> rfl

theorem keptParts_again (carried' : List Partition) : keptParts edt opts (keptDevice edt opts dev carried) carried' =
      replaceLabels slotLabels ((resizing edt opts dev carried' (plannedBoot opts dev)
        (slotAgain "image-0" (resizedSlots edt opts dev carried) (upstreamPart opts dev "image-0"))
        (slotAgain "image-1" (resizedSlots edt opts dev carried) (upstreamPart opts dev "image-1"))).or
          (resizedSlots edt opts dev carried)) (bootedParts opts dev) := by
  have booted : bootedParts opts (keptDevice edt opts dev carried) = keptParts edt opts dev carried := by
    rw [bootedParts, newBoot_again, keptDevice, upstreamParts_again, sortByOffset_of_sorted keptParts_sorted]
    rfl
  have slots : resizedSlots edt opts (keptDevice edt opts dev carried) carried' =
      resizing edt opts dev carried' (plannedBoot opts dev)
        (slotAgain "image-0" (resizedSlots edt opts dev carried) (upstreamPart opts dev "image-0"))
        (slotAgain "image-1" (resizedSlots edt opts dev carried) (upstreamPart opts dev "image-1")) := by
    rw [resizedSlots, plannedBoot_again, upstreamPart_slot_again (.inl rfl), upstreamPart_slot_again (.inr rfl)]
    rfl
  rw [keptParts_eq, booted, slots, keptParts_eq]
  exact replaceLabels_again bootedParts_sorted (fun p mem => (resizedSlots_label p mem).1) _

theorem keepUpstream_again_iff (carried' : List Partition) :
    keepUpstream edt opts (keptDevice edt opts dev carried) carried' = keepUpstream edt opts dev carried ↔
      keptParts edt opts (keptDevice edt opts dev carried) carried' = keptParts edt opts dev carried := by
  constructor
  · intro same
    rw [← upstreamParts_again, ← upstreamParts_again, same]
    rfl
  · intro same
    simp only [keepUpstream, same]
    rfl

end Again

/-! ### The slots of the second run -/

def slotExceeds (slot : Option Partition) (size : Int) : Bool :=
  match slot with
  | none => false
  | some slot => slot.size > size

def slotCap (dev : FlashDevice) : Int := alignDown (2 * mb) dev.eraseSize

/-- Where the second slot is put behind a first one that is cut. -/
def cappedPlace (dev : FlashDevice) (b : Partition) (slot1 : Option Partition) : Int × Int :=
  match slot1 with
  | some slot1 => (max slot1.offset (bootEnd dev b + slotCap dev), slotCap dev)
  | none => (0, 0)

section Slots

variable {edt : Edt} {opts : PlanOptions} {dev : FlashDevice} {carried : List Partition}
variable {b : Partition} {slot0 slot1 : Option Partition} {newSize : Int} {place : Int × Int}

theorem cappedSlots_boot : cappedSlots opts dev carried (some b) slot0 slot1 =
      if opts.slotSizeKb = none ∧ slotExceeds slot0 (slotCap dev) = true ∧ carried = [] then
        some (newSlots dev b slot1 (slotCap dev) (cappedPlace dev b slot1)) else none := by
  cases slot0 with
  | none => simp [cappedSlots, slotExceeds]
  | some slot0 =>
    have same : slotExceeds (some slot0) (slotCap dev) = true ↔ slot0.size > alignDown (2 * mb) dev.eraseSize :=
      decide_eq_true_iff
    exact if_congr (and_congr_right fun _ => and_congr_left fun _ => same.symm) rfl rfl

theorem reslotted_eq_some {slots : List Partition} : reslotted edt opts dev carried (some b) slot0 slot1 = some slots ↔
      ∃ newSize shared, wantedSizes edt opts dev carried (some b) slot0 slot1 = some (newSize, shared) ∧
        (secondSlot slot1 (bootEnd dev b + newSize) newSize shared).1 +
          (secondSlot slot1 (bootEnd dev b + newSize) newSize shared).2 + tailMin edt dev ≤ dev.totalSize ∧
        slots = newSlots dev b slot1 newSize (secondSlot slot1 (bootEnd dev b + newSize) newSize shared) := by
  unfold reslotted
  cases wanted : wantedSizes edt opts dev carried (some b) slot0 slot1 with
  | none => simp
  | some sizes =>
    obtain ⟨newSize, shared⟩ := sizes
    by_cases room : (secondSlot slot1 (bootEnd dev b + newSize) newSize shared).1 +
        (secondSlot slot1 (bootEnd dev b + newSize) newSize shared).2 + tailMin edt dev ≤ dev.totalSize
    · simp [Int.not_lt.mpr room, room, eq_comm]
    · simp [Int.not_le.mp room, room]

theorem reslotted_none (unwanted : wantedSizes edt opts dev carried (some b) slot0 slot1 = none) :
    reslotted edt opts dev carried (some b) slot0 slot1 = none := by
  unfold reslotted
  rw [unwanted]

theorem resizing_carried {boot : Option Partition} (some : carried ≠ []) :
    resizing edt opts dev carried boot slot0 slot1 = none := by
  cases boot with
  | none => rfl
  | some b => simp [resizing, cappedSlots_boot, reslotted, wantedSizes, some]

theorem slotAgain_slot0 (dev : FlashDevice) (b : Partition) (slot0 slot1 : Option Partition) (newSize : Int)
    (place : Int × Int) : slotAgain "image-0" (some (newSlots dev b slot1 newSize place)) slot0 =
      some (slot0Partition (bootEnd dev b) newSize) := by
  rfl

theorem slotAgain_slot1 (dev : FlashDevice) (b : Partition) (slot1 : Option Partition) (newSize : Int)
    (place : Int × Int) : slotAgain "image-1" (some (newSlots dev b slot1 newSize place)) slot1 =
      slot1.map fun _ => slot1Partition place.1 place.2 := by
  cases slot1 <;> rfl

theorem newSlots_map (f : Partition → Partition) :
    newSlots dev b (slot1.map f) newSize place = newSlots dev b slot1 newSize place := by
  cases slot1 <;> rfl

theorem newSlots_inj {newSize' : Int} {place' : Int × Int} {parts : List Partition}
    (same : replaceLabels slotLabels (some (newSlots dev b slot1 newSize place)) parts =
      replaceLabels slotLabels (some (newSlots dev b slot1 newSize' place')) parts) :
    newSize = newSize' ∧ (slot1.isSome → place.2 = place'.2) := by
  have found (size : Int) (place : Int × Int) :
      findLabel "image-0" (replaceLabels slotLabels (some (newSlots dev b slot1 size place)) parts) =
          some (slot0Partition (bootEnd dev b) size) ∧
        findLabel "image-1" (replaceLabels slotLabels (some (newSlots dev b slot1 size place)) parts) =
          slot1.map fun _ => slot1Partition place.1 place.2 :=
    ⟨findLabel_replaced (by decide) (filter_newSlots dev b slot1 size place).1,
      findLabel_replaced (by decide) (filter_newSlots dev b slot1 size place).2⟩
  obtain ⟨first, second⟩ := found newSize place
  rw [same, (found newSize' place').1] at first
  rw [same, (found newSize' place').2] at second
  constructor
  · simpa [slot0Partition] using first.symm
  · intro some
    obtain ⟨slot1, rfl⟩ := Option.isSome_iff_exists.mp some
    simp only [Option.map_some, Option.some.injEq, slot1Partition, Partition.mk.injEq, true_and] at second
    exact second.2.symm

variable (edt opts dev b slot0 slot1) in
/-- The change of the slots in a first run, and in a second one that finds the result of the first. -/
def firstResize : Option (List Partition) := resizing edt opts dev [] (some b) slot0 slot1

variable (edt opts dev b slot0 slot1) in
def secondResize : Option (List Partition) :=
  resizing edt opts dev [] (some b) (slotAgain "image-0" (firstResize edt opts dev b slot0 slot1) slot0)
    (slotAgain "image-1" (firstResize edt opts dev b slot0 slot1) slot1)

theorem secondResize_none (unchanged : firstResize edt opts dev b slot0 slot1 = none) :
    secondResize edt opts dev b slot0 slot1 = none := by
  rw [secondResize, unchanged]
  exact unchanged

theorem secondResize_some
    (changed : firstResize edt opts dev b slot0 slot1 = some (newSlots dev b slot1 newSize place)) :
    secondResize edt opts dev b slot0 slot1 =
      resizing edt opts dev [] (some b) (some (slot0Partition (bootEnd dev b) newSize))
        (slot1.map fun _ => slot1Partition place.1 place.2) := by
  rw [secondResize, changed, slotAgain_slot0, slotAgain_slot1]

theorem wantedSizes_pinned {sizeKb : Int} (pin : opts.slotSizeKb = some sizeKb) :
    wantedSizes edt opts dev [] (some b) slot0 slot1 =
      if slotDiffers slot0 (alignDown (sizeKb * kb) dev.eraseSize) = true then
        some (alignDown (sizeKb * kb) dev.eraseSize, none) else none := by
  simp [wantedSizes, pin]

theorem secondResize_pinned {sizeKb : Int} (pin : opts.slotSizeKb = some sizeKb) :
    secondResize edt opts dev b slot0 slot1 = none := by
  have uncapped (slot0 slot1 : Option Partition) : cappedSlots opts dev [] (some b) slot0 slot1 = none := by
    simp [cappedSlots_boot, pin]
  cases first : firstResize edt opts dev b slot0 slot1 with
  | none => exact secondResize_none first
  | some slots =>
    have grown : reslotted edt opts dev [] (some b) slot0 slot1 = some slots := by
      rw [← first, firstResize, resizing, uncapped, Option.none_or]
    obtain ⟨newSize, shared, wanted, _, rfl⟩ := reslotted_eq_some.mp grown
    rw [wantedSizes_pinned pin] at wanted
    split at wanted
    · cases wanted
      rw [secondResize_some first, resizing, uncapped, Option.none_or]
      apply reslotted_none
      rw [wantedSizes_pinned pin]
      simp [slotDiffers, slot0Partition]
    · cases wanted

theorem minSize_le_cap (dev : FlashDevice) : alignDown slot0MinSize dev.eraseSize ≤ slotCap dev :=
  le_alignDown dev.erase_pos (dvd_alignDown _ _) (Int.le_trans (alignDown_le dev.erase_pos _) (by decide))

theorem cap_eq_minSize (small : slotCap dev < slot0MinSize) : slotCap dev = alignDown slot0MinSize dev.eraseSize :=
  Int.le_antisymm (le_alignDown dev.erase_pos (dvd_alignDown _ _) (Int.le_of_lt small)) (minSize_le_cap dev)

theorem resizing_uncapped (within : slotExceeds slot0 (slotCap dev) = false) :
    resizing edt opts dev [] (some b) slot0 slot1 = reslotted edt opts dev [] (some b) slot0 slot1 := by
  simp [resizing, cappedSlots_boot, within]

section Free

variable (slotFree : opts.slotSizeKb = none) (filesystemFree : opts.filesystemSizeKb = none)
include slotFree

theorem resizing_capped (exceeds : slotExceeds slot0 (slotCap dev) = true) :
    resizing edt opts dev [] (some b) slot0 slot1 =
      some (newSlots dev b slot1 (slotCap dev) (cappedPlace dev b slot1)) := by
  simp [resizing, cappedSlots_boot, slotFree, exceeds]

include filesystemFree

theorem wantedSizes_free (slot0 : Partition) : wantedSizes edt opts dev [] (some b) (some slot0) slot1 =
      if slot0.size < slot0MinSize then some (alignDown slot0MinSize dev.eraseSize, none) else none := by
  simp [wantedSizes, slotFree, filesystemFree]

theorem or_grown_again (within : newSize ≤ slotCap dev)
    (same : newSize < slot0MinSize → newSize = alignDown slot0MinSize dev.eraseSize)
    (room : slot1.isSome → bootEnd dev b + alignDown slot0MinSize dev.eraseSize ≤ place.1 ∧
      alignDown slot0MinSize dev.eraseSize ≤ place.2) :
    (resizing edt opts dev [] (some b) (some (slot0Partition (bootEnd dev b) newSize))
      (slot1.map fun _ => slot1Partition place.1 place.2)).or (some (newSlots dev b slot1 newSize place)) =
        some (newSlots dev b slot1 newSize place) := by
  have notExceeds : slotExceeds (some (slot0Partition (bootEnd dev b) newSize)) (slotCap dev) = false := by
    simpa [slotExceeds, slot0Partition] using within
  rw [resizing_uncapped notExceeds]
  cases second : reslotted edt opts dev [] (some b) (some (slot0Partition (bootEnd dev b) newSize))
      (slot1.map fun _ => slot1Partition place.1 place.2) with
  | none => rfl
  | some slots =>
    obtain ⟨size, shared, wanted, _, rfl⟩ := reslotted_eq_some.mp second
    rw [wantedSizes_free slotFree filesystemFree] at wanted
    split at wanted
    next small =>
      cases wanted
      rw [Option.some_or, newSlots_map, same small]
      cases slot1 with
      | none => rfl
      | some slot1 =>
        obtain ⟨start, size⟩ := room rfl
        simp [newSlots, secondSlot, slot1Partition, Int.max_eq_left start, Int.max_eq_left size]
    · cases wanted

theorem secondResize_free : (secondResize edt opts dev b slot0 slot1).or (firstResize edt opts dev b slot0 slot1) =
      firstResize edt opts dev b slot0 slot1 := by
  cases exceeds : slotExceeds slot0 (slotCap dev) with
  | true =>
    have first : firstResize edt opts dev b slot0 slot1 = _ := resizing_capped slotFree exceeds
    rw [secondResize_some first, first]
    refine or_grown_again slotFree filesystemFree (Int.le_refl _) cap_eq_minSize fun some => ?_
    obtain ⟨slot1, rfl⟩ := Option.isSome_iff_exists.mp some
    exact ⟨Int.le_trans (Int.add_le_add_left (minSize_le_cap dev) _) (Int.le_max_right _ _), minSize_le_cap dev⟩
  | false =>
    have grown : firstResize edt opts dev b slot0 slot1 = _ := resizing_uncapped exceeds
    cases first : firstResize edt opts dev b slot0 slot1 with
    | none => rw [secondResize_none first, Option.none_or]
    | some slots =>
      cases slot0 with
      | none =>
        rw [first, reslotted_none (by simp [wantedSizes, slotFree, filesystemFree])] at grown
        cases grown
      | some slot0 =>
        obtain ⟨newSize, shared, wanted, _, rfl⟩ := reslotted_eq_some.mp (grown.symm.trans first)
        rw [wantedSizes_free slotFree filesystemFree] at wanted
        split at wanted
        · cases wanted
          rw [secondResize_some first]
          refine or_grown_again slotFree filesystemFree (minSize_le_cap dev) (fun _ => rfl) fun some => ?_
          obtain ⟨slot1, rfl⟩ := Option.isSome_iff_exists.mp some
          exact ⟨Int.le_max_right _ _, Int.le_max_right _ _⟩
        · cases wanted

end Free

/-! ### A pinned file system -/

variable (edt dev b) in
def SharedFits (fsKb : Int) : Prop := 0 < sharedSize edt dev b fsKb ∧
    bootEnd dev b + sharedSize edt dev b fsKb + (sharedSize edt dev b fsKb + dev.eraseSize) + tailMin edt dev ≤
      dev.totalSize

theorem slotDiffers_some {slot : Partition} {size : Int} : slotDiffers (some slot) size = true ↔ size ≠ slot.size :=
  decide_eq_true_iff

theorem slotDiffers_none {size : Int} : ¬ slotDiffers none size = true := Bool.false_ne_true

variable (edt dev b slot0 slot1) in
def SharedDiffers (fsKb : Int) : Prop := slotDiffers slot0 (sharedSize edt dev b fsKb) = true ∨
    slotDiffers slot1 (sharedSize edt dev b fsKb + dev.eraseSize) = true

variable (edt dev b slot0 slot1) in
/-- The size for a pinned file system and the cut at 2 MB do not contradict each other. -/
def SharedSettles (fsKb : Int) : Prop := SharedFits edt dev b fsKb →
    if slotExceeds slot0 (slotCap dev) then sharedSize edt dev b fsKb = slotCap dev ∧ slot1 = none
    else SharedDiffers edt dev b slot0 slot1 fsKb → sharedSize edt dev b fsKb ≤ slotCap dev

section Shared

variable {fsKb : Int} (slotFree : opts.slotSizeKb = none) (filesystemPin : opts.filesystemSizeKb = some fsKb)
include slotFree filesystemPin

theorem reslotted_shared (changes : SharedFits edt dev b fsKb ∧ SharedDiffers edt dev b slot0 slot1 fsKb) :
    reslotted edt opts dev [] (some b) slot0 slot1 = some (newSlots dev b slot1 (sharedSize edt dev b fsKb)
        (bootEnd dev b + sharedSize edt dev b fsKb, sharedSize edt dev b fsKb + dev.eraseSize)) := by
  obtain ⟨⟨pos, room⟩, differs⟩ := changes
  refine reslotted_eq_some.mpr ⟨_, some (sharedSize edt dev b fsKb + dev.eraseSize), ?_, room, rfl⟩
  unfold SharedDiffers at differs
  simp [wantedSizes, slotFree, filesystemPin, Int.not_le.mpr pos, differs]

theorem reslotted_unshared (stays : ¬ (SharedFits edt dev b fsKb ∧ SharedDiffers edt dev b slot0 slot1 fsKb)) :
    reslotted edt opts dev [] (some b) slot0 slot1 = none := by
  cases grown : reslotted edt opts dev [] (some b) slot0 slot1 with
  | none => rfl
  | some slots =>
    obtain ⟨newSize, shared, wanted, room, rfl⟩ := reslotted_eq_some.mp grown
    simp only [wantedSizes, slotFree, filesystemPin, ne_eq, not_true_eq_false, if_false] at wanted
    split at wanted
    · cases wanted
    next pos =>
      split at wanted
      next differs =>
        cases wanted
        exact absurd ⟨⟨Int.not_le.mp pos, room⟩, differs⟩ stays
      · cases wanted

theorem secondResize_shared_capped (exceeds : slotExceeds slot0 (slotCap dev) = true) (parts : List Partition) :
    replaceLabels slotLabels ((secondResize edt opts dev b slot0 slot1).or (firstResize edt opts dev b slot0 slot1))
        parts = replaceLabels slotLabels (firstResize edt opts dev b slot0 slot1) parts ↔
      (SharedFits edt dev b fsKb → sharedSize edt dev b fsKb = slotCap dev ∧ slot1 = none) := by
  have first : firstResize edt opts dev b slot0 slot1 = _ := resizing_capped slotFree exceeds
  have within : slotExceeds (some (slot0Partition (bootEnd dev b) (slotCap dev))) (slotCap dev) = false := by
    simp [slotExceeds, slot0Partition]
  rw [secondResize_some first, first, resizing_uncapped within]
  have pos := dev.erase_pos
  by_cases changes : SharedFits edt dev b fsKb ∧ SharedDiffers edt dev b
      (some (slot0Partition (bootEnd dev b) (slotCap dev)))
      (slot1.map fun _ => slot1Partition (cappedPlace dev b slot1).1 (cappedPlace dev b slot1).2) fsKb
  · rw [reslotted_shared slotFree filesystemPin changes, newSlots_map, Option.some_or]
    constructor
    · intro same _
      obtain ⟨size, second⟩ := newSlots_inj same
      cases slot1 with
      | none => exact ⟨size, rfl⟩
      | some slot1 =>
        have larger : sharedSize edt dev b fsKb + dev.eraseSize = slotCap dev := second rfl
        omega
    · intro settles
      obtain ⟨size, rfl⟩ := settles changes.1
      simp [SharedDiffers, slotDiffers, slot0Partition, size] at changes
  · rw [reslotted_unshared slotFree filesystemPin changes, Option.none_or]
    refine iff_of_true rfl fun fits => ?_
    have agree : ¬ SharedDiffers edt dev b _ _ fsKb := fun differs => changes ⟨fits, differs⟩
    cases slot1 with
    | none => simpa [SharedDiffers, slotDiffers_some, slotDiffers_none, slot0Partition] using agree
    | some slot1 =>
      simp only [SharedDiffers, Option.map_some, slotDiffers_some, slot0Partition, slot1Partition, cappedPlace] at agree
      omega

theorem secondResize_shared_uncapped (within : slotExceeds slot0 (slotCap dev) = false) (parts : List Partition) :
    replaceLabels slotLabels ((secondResize edt opts dev b slot0 slot1).or (firstResize edt opts dev b slot0 slot1))
        parts = replaceLabels slotLabels (firstResize edt opts dev b slot0 slot1) parts ↔
      (SharedFits edt dev b fsKb → SharedDiffers edt dev b slot0 slot1 fsKb →
        sharedSize edt dev b fsKb ≤ slotCap dev) := by
  have uncapped : firstResize edt opts dev b slot0 slot1 = _ := resizing_uncapped within
  by_cases changes : SharedFits edt dev b fsKb ∧ SharedDiffers edt dev b slot0 slot1 fsKb
  · have first : firstResize edt opts dev b slot0 slot1 = _ :=
      uncapped.trans (reslotted_shared slotFree filesystemPin changes)
    rw [secondResize_some first, first]
    cases exceeds : slotExceeds (some (slot0Partition (bootEnd dev b) (sharedSize edt dev b fsKb))) (slotCap dev) with
    | true =>
      rw [resizing_capped slotFree exceeds, newSlots_map, Option.some_or]
      simp only [slotExceeds, slot0Partition, gt_iff_lt, decide_eq_true_eq] at exceeds
      refine iff_of_false (fun same => ?_) fun settles => ?_
      · have size := (newSlots_inj same).1
        omega
      · have le := settles changes.1 changes.2
        omega
    | false =>
      have stays : ¬ SharedDiffers edt dev b (some (slot0Partition (bootEnd dev b) (sharedSize edt dev b fsKb)))
          (slot1.map fun _ => slot1Partition (bootEnd dev b + sharedSize edt dev b fsKb)
            (sharedSize edt dev b fsKb + dev.eraseSize)) fsKb := by
        cases slot1 <;> simp [SharedDiffers, slotDiffers, slot0Partition, slot1Partition]
      rw [resizing_uncapped exceeds,
        reslotted_unshared slotFree filesystemPin (fun changed => stays changed.2), Option.none_or]
      simp only [slotExceeds, slot0Partition, gt_iff_lt, decide_eq_false_iff_not, Int.not_lt] at exceeds
      exact iff_of_true rfl fun _ _ => exceeds
  · have first := uncapped.trans (reslotted_unshared slotFree filesystemPin changes)
    rw [secondResize_none first, first]
    exact iff_of_true rfl fun fits differs => absurd ⟨fits, differs⟩ changes

end Shared

/-- The second run finds the same partitions exactly if the rules for the slots agree. -/
theorem secondResize_iff (parts : List Partition) :
    replaceLabels slotLabels ((secondResize edt opts dev b slot0 slot1).or (firstResize edt opts dev b slot0 slot1))
        parts = replaceLabels slotLabels (firstResize edt opts dev b slot0 slot1) parts ↔
      ∀ fsKb, opts.slotSizeKb = none → opts.filesystemSizeKb = some fsKb →
        SharedSettles edt dev b slot0 slot1 fsKb := by
  cases slot : opts.slotSizeKb with
  | some sizeKb =>
    rw [secondResize_pinned slot, Option.none_or]
    simp
  | none =>
    cases filesystem : opts.filesystemSizeKb with
    | none =>
      rw [secondResize_free slot filesystem]
      simp
    | some fsKb =>
      simp only [Option.some.injEq, forall_eq', forall_const, SharedSettles]
      cases exceeds : slotExceeds slot0 (slotCap dev) with
      | true => simpa using secondResize_shared_capped slot filesystem exceeds parts
      | false => simpa using secondResize_shared_uncapped slot filesystem exceeds parts

end Slots

/-! ### The whole device -/

/-- Only a pinned file system, without a pinned slot, can be in the way of another rule. -/
def SlotsSettled (edt : Edt) (opts : PlanOptions) (dev : FlashDevice) : Prop :=
  ∀ b fsKb, plannedBoot opts dev = some b → opts.slotSizeKb = none → opts.filesystemSizeKb = some fsKb →
    SharedSettles edt dev b (upstreamPart opts dev "image-0") (upstreamPart opts dev "image-1") fsKb

theorem keep_again_iff (edt : Edt) (opts : PlanOptions) (dev : FlashDevice) (carried : List Partition) :
    keepUpstream edt opts (keptDevice edt opts dev []) carried = keepUpstream edt opts dev [] ↔
      carried ≠ [] ∨ SlotsSettled edt opts dev := by
  rw [keepUpstream_again_iff, keptParts_again, keptParts_eq]
  by_cases carries : carried = []
  · subst carries
    rw [or_iff_right (not_not_intro rfl)]
    cases boot : plannedBoot opts dev with
    | none =>
      exact iff_of_true rfl fun b fsKb planned => by cases boot.symm.trans planned
    | some b =>
      have first : resizedSlots edt opts dev [] = firstResize edt opts dev b (upstreamPart opts dev "image-0")
          (upstreamPart opts dev "image-1") := by rw [resizedSlots, boot]; rfl
      rw [first]
      refine (secondResize_iff _).trans ⟨fun settles c fsKb planned => ?_, fun settled fsKb => settled b fsKb boot⟩
      cases boot.symm.trans planned
      exact settles fsKb
  · rw [resizing_carried carries, Option.none_or]
    exact iff_of_true rfl (.inl carries)

end Adaboot.Planner
