import Adaboot.Planner.Predefined

/-!
# Keeping an upstream layout

The planner resizes the boot partition and the slots of a layout that it keeps, and puts the application's partitions
behind everything else.
-/

namespace Adaboot.Planner

open Spans

/-! ### The kept partitions -/

theorem sortByOffset_perm (parts : List Partition) : (sortByOffset parts).Perm parts := List.mergeSort_perm parts _

theorem findLabel_spec {label : String} {parts : List Partition} {p : Partition}
    (found : findLabel label parts = some p) : p ∈ parts ∧ p.label = some label :=
  ⟨List.mem_of_find?_eq_some found, by simpa using List.find?_some found⟩

section Kept

variable (edt : Edt) (opts : PlanOptions) (dev : FlashDevice) (carried : List Partition)

def upstreamPart (label : String) : Option Partition := findLabel label (sortByOffset (upstreamParts opts dev))

def newBoot : Option Partition := pinnedBoot opts dev (upstreamPart opts dev "mcuboot")

def plannedBoot : Option Partition := (newBoot opts dev).or (upstreamPart opts dev "mcuboot")

def resizedSlots : Option (List Partition) :=
  (cappedSlots opts dev carried (plannedBoot opts dev) (upstreamPart opts dev "image-0")
    (upstreamPart opts dev "image-1")).or
  (reslotted edt opts dev carried (plannedBoot opts dev) (upstreamPart opts dev "image-0")
    (upstreamPart opts dev "image-1"))

def resizedParts : List Partition := (newBoot opts dev).toList ++ (resizedSlots edt opts dev carried).getD []

def untouchedParts : List Partition :=
  (upstreamParts opts dev).filter fun p =>
    ¬ ((newBoot opts dev).isSome ∧ p.label ∈ bootLabels) ∧
      ¬ ((resizedSlots edt opts dev carried).isSome ∧ p.label ∈ slotLabels)

variable {edt opts dev carried}

theorem replaceLabels_perm (labels : List (Option String)) (new : Option (List Partition)) (parts : List Partition) :
    (replaceLabels labels new parts).Perm
      (parts.filter (fun p => ¬ (new.isSome ∧ p.label ∈ labels)) ++ new.getD []) := by
  cases new with
  | none => simp [replaceLabels]
  | some new => simpa [replaceLabels] using sortByOffset_perm _

theorem replaceLabels_twice {labels : List (Option String)} {first : Option (List Partition)}
    (same : ∀ p ∈ first.getD [], p.label ∈ labels) (second : Option (List Partition)) (parts : List Partition) :
    (replaceLabels labels second (replaceLabels labels first parts)).Perm
      (replaceLabels labels (second.or first) parts) := by
  cases second with
  | none => exact List.Perm.refl _
  | some second =>
    refine (replaceLabels_perm labels _ _).trans (List.Perm.trans ?_ (replaceLabels_perm labels _ _).symm)
    refine List.Perm.append_right _ (((replaceLabels_perm labels first parts).filter _).trans ?_)
    -- What the first replacement added is filtered out again.
    have gone : (first.getD []).filter (fun p => ¬ ((some second).isSome ∧ p.label ∈ labels)) = [] := by
      simpa using same
    rw [List.filter_append, gone, List.append_nil, List.filter_filter]
    refine List.Perm.of_eq (List.filter_congr fun p _ => ?_)
    by_cases listed : p.label ∈ labels <;> simp [listed]

variable {boot slot1 slot0 : Option Partition} {slots parts : List Partition} {p b : Partition}

theorem pinnedBoot_label :
    ∀ p ∈ (pinnedBoot opts dev boot), p.label = some "mcuboot" ∧ p.nodeLabel = "boot_partition" := by
  intro p pinned
  simp only [pinnedBoot] at pinned
  split at pinned
  · split at pinned
    · cases pinned
      exact ⟨rfl, rfl⟩
    · cases pinned
  · cases pinned

theorem newSlots_label {boot : Partition} {newSize : Int} {place : Int × Int} :
    ∀ p ∈ newSlots dev boot slot1 newSize place, p.label ∈ slotLabels ∧ p.nodeLabel ∈ managedNodeLabels := by
  cases slot1 with
  | none => simp [newSlots, slot0Partition, slotLabels, managedNodeLabels]
  | some slot1 => simp [newSlots, slot0Partition, slot1Partition, slotLabels, managedNodeLabels]

def SlotsBehindBoot (dev : FlashDevice) (boot slot1 : Option Partition) (slots : List Partition) : Prop :=
  ∃ b newSize place, boot = some b ∧ slots = newSlots dev b slot1 newSize place

theorem reslotted_behind (resized : reslotted edt opts dev carried boot slot0 slot1 = some slots) :
    SlotsBehindBoot dev boot slot1 slots := by
  simp only [reslotted] at resized
  split at resized
  · split at resized
    · cases resized
    · cases resized
      exact ⟨_, _, _, rfl, rfl⟩
  · cases resized

theorem cappedSlots_behind
    (resized : cappedSlots opts dev carried boot slot0 slot1 = some slots) : SlotsBehindBoot dev boot slot1 slots := by
  simp only [cappedSlots] at resized
  split at resized
  · split at resized
    · cases resized
      exact ⟨_, _, _, rfl, rfl⟩
    · cases resized
  · cases resized

theorem resizedSlots_behind (resized : resizedSlots edt opts dev carried = some slots) :
    SlotsBehindBoot dev (plannedBoot opts dev) (upstreamPart opts dev "image-1") slots := by
  rcases Option.or_eq_some_iff.mp resized with capped | ⟨_, grown⟩
  · exact cappedSlots_behind capped
  · exact reslotted_behind grown

theorem SlotsBehindBoot.label (behind : SlotsBehindBoot dev boot slot1 slots) :
    ∀ p ∈ slots, p.label ∈ slotLabels ∧ p.nodeLabel ∈ managedNodeLabels := by
  obtain ⟨b, newSize, place, _, rfl⟩ := behind
  exact newSlots_label

theorem keptParts_perm : (keptParts edt opts dev carried).Perm
      (untouchedParts edt opts dev carried ++ resizedParts edt opts dev carried) := by
  have reslottedLabel : ∀ p ∈ (reslotted edt opts dev carried (plannedBoot opts dev) (upstreamPart opts dev "image-0")
      (upstreamPart opts dev "image-1")).getD [], p.label ∈ slotLabels := by
    intro p mem
    cases resized : reslotted edt opts dev carried (plannedBoot opts dev) (upstreamPart opts dev "image-0")
        (upstreamPart opts dev "image-1") with
    | none => simp [resized] at mem
    | some slots => exact ((reslotted_behind resized).label p (by simpa [resized] using mem)).1
  refine (replaceLabels_twice reslottedLabel _ _).trans ?_
  refine (replaceLabels_perm _ _ _).trans ?_
  rw [resizedParts, ← List.append_assoc]
  refine List.Perm.append_right _ (((replaceLabels_perm _ _ _).filter _).trans ?_)
  rw [List.filter_append]
  refine List.Perm.append ((((sortByOffset_perm _).filter _).filter _).trans ?_) ?_
  · rw [List.filter_filter]
    refine List.Perm.of_eq (List.filter_congr fun p _ => ?_)
    rw [Option.isSome_map]
    exact (Bool.decide_and _ _).symm.trans (decide_eq_decide.mpr and_comm)
  · -- A resized boot partition does not count as a slot.
    change (List.filter _ (((newBoot opts dev).map fun boot => [boot]).getD [])).Perm _
    cases boot : newBoot opts dev with
    | none => exact List.Perm.refl _
    | some b =>
      have label := pinnedBoot_label b boot
      simp [label, slotLabels]

/-! ### The whole plan -/

theorem le_maxEnd (mem : p ∈ parts) : p.span.stop ≤ maxEnd parts := by
  have stop : p.span.stop ∈ parts.map (·.span.stop) := List.mem_map_of_mem mem
  unfold maxEnd
  cases last : (parts.map (·.span.stop)).max? with
  | none =>
    rw [List.max?_eq_none_iff.mp last] at stop
    cases stop
  | some last' => exact (List.max?_eq_some_iff.mp last).2 _ stop

def stockFlash : FlashDevice := .blocks "flash0" 1024 true
    [bootPartition 0 (64 * kb), slot0Partition (64 * kb) mb, slot1Partition (64 * kb + mb) mb]

def stockEdt : Edt := ⟨[stockFlash], none, true, []⟩

def pinned (bootSizeKb slotSizeKb : Option Int) : PlanOptions := ⟨false, false, bootSizeKb, slotSizeKb, none, false⟩

end Kept

end Adaboot.Planner
