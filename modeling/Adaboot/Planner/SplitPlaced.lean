import Adaboot.Planner.Split

/-!
# Where a split puts its partitions

`plan_code_partition_split` subtracts sizes from the room of a region and checks no result. Only mapped partitions
behind the start of the region bound the split.
-/

namespace Adaboot.Planner

open Spans

def preservedSpan (region : Region) (node : Node) : Option Span :=
  -- Only the children of a `partitions` node have an address here.
  if node.address.isSome ∧ ¬ node.fork ∧ ¬ (∃ label ∈ node.labels, label ∈ region.labels) then
    match node.reg, node.memory with
    | some (offset, size), some dev => if region.devLabel ∈ dev.labels then some ⟨offset, size⟩ else none
    | _, _ => none
  else none

/-- The places of the `preserved` partitions. The source sorts them and adds their labels for a comment. -/
def preserved (region : Region) (nodes : List Node) : List Span := nodes.filterMap (preservedSpan region)

def SplitPlan.parts (plan : SplitPlan) : List Partition :=
  [plan.boot, plan.slot0] ++ plan.filesystem.toList ++ [plan.nvm]

/-- The partitions have a size, do not overlap, stay in the region and in front of the upstream partitions behind its
start, and leave the preserved ones alone. -/
structure SplitPlaced (region : Region) (nodes : List Node) (plan : SplitPlan) : Prop where
  positive : ∀ p ∈ plan.parts, 0 < p.size
  disjoint : plan.parts.Pairwise fun p q => p.span.Disjoint q.span
  inside : ∀ p ∈ plan.parts, region.base ≤ p.offset ∧ (∀ size ∈ region.size, p.span.stop ≤ region.base + size) ∧
    ∀ offset ∈ nodes.filterMap (boundingOffset region), p.span.stop ≤ offset
  apart : ∀ p ∈ plan.parts, ∀ q ∈ preserved region nodes, p.span.Disjoint q

/-! ### The sizes -/

def splitRoom (region : Region) (bound : Int) : Int :=
  bound - region.erase - (region.base + alignUp (128 * kb) region.erase)

/-- The room is enough for a first slot and for the file system: the pinned one, or one of an erase block. -/
def RoomForSplit (slotSizeKb filesystemSizeKb : Option Int) (avail erase : Int) : Prop :=
  match filesystemSizeKb with
  | some sizeKb => 0 ≤ alignUp (sizeKb * kb) erase ∧ alignUp (sizeKb * kb) erase + erase ≤ avail
  | none => (∀ sizeKb ∈ slotSizeKb, 0 ≤ sizeKb) ∧ 2 * erase ≤ avail

section Sizes

variable {slotSizeKb filesystemSizeKb : Option Int} {avail erase : Int} {unit val : Int}

theorem alignDown_sub {taken : Int} (pos : 0 < unit) (dvd : unit ∣ taken) :
    alignDown (val - taken) unit = alignDown val unit - taken := by
  obtain ⟨k, rfl⟩ := dvd
  unfold alignDown
  rw [Int.sub_mul_ediv_left _ _ (by omega), Int.sub_mul, Int.mul_comm k unit]

theorem splitSizes_sum (pos : 0 < erase) : erase ∣ (splitSizes slotSizeKb filesystemSizeKb avail erase).2 ∧
      (splitSizes slotSizeKb filesystemSizeKb avail erase).1 +
        (splitSizes slotSizeKb filesystemSizeKb avail erase).2 = alignDown avail erase := by
  unfold splitSizes
  cases filesystemSizeKb with
  | some sizeKb =>
    refine ⟨dvd_alignUp _ _, ?_⟩
    simp only
    rw [alignDown_sub pos (dvd_alignUp _ _)]
    omega
  | none =>
    refine ⟨dvd_alignDown _ _, ?_⟩
    simp only
    rw [alignDown_sub pos (dvd_min (dvd_alignUp _ _) (dvd_alignDown _ _))]
    omega

theorem alignDown_pos (pos : 0 < unit) : 0 < alignDown val unit ↔ unit ≤ val := by
  constructor
  · intro positive
    have block : unit ≤ alignDown val unit := Int.le_of_dvd positive (dvd_alignDown _ _)
    exact Int.le_trans block (alignDown_le pos val)
  · intro le
    exact Int.lt_of_lt_of_le pos (le_alignDown pos (Int.dvd_refl _) le)

theorem alignUp_pos (pos : 0 < unit) : 0 < alignUp val unit ↔ 0 < val := by
  constructor
  · intro positive
    have block : unit ≤ alignUp val unit := Int.le_of_dvd positive (dvd_alignUp _ _)
    have lt := alignUp_lt pos val
    omega
  · intro positive
    exact Int.lt_of_lt_of_le positive (le_alignUp pos val)

theorem roomForSplit_iff (pos : 0 < erase) : RoomForSplit slotSizeKb filesystemSizeKb avail erase ↔
      0 < (splitSizes slotSizeKb filesystemSizeKb avail erase).1 ∧
        0 ≤ (splitSizes slotSizeKb filesystemSizeKb avail erase).2 := by
  cases filesystemSizeKb with
  | some sizeKb =>
    simp only [RoomForSplit, splitSizes, alignDown_pos pos]
    omega
  | none =>
    simp only [RoomForSplit, splitSizes, lt_min_iff, alignDown_pos pos, alignUp_pos pos, alignDown_nonneg pos]
    -- What the slot leaves is an erase block at least, whatever is pinned.
    have below := alignDown_le pos (avail - erase)
    have rest : ∀ size, 0 ≤ avail - min size (alignDown (avail - erase) erase) := by
      omega
    simp only [rest, and_true]
    have enough : 2 * erase ≤ avail ↔ erase ≤ avail - erase := by omega
    rw [enough]
    cases slotSizeKb with
    | none => simp [slot0MinSize, mb, kb]
    | some sizeKb =>
      by_cases none : sizeKb = 0
      · simp [none, slot0MinSize, mb, kb]
      · simp only [Option.mem_def, Option.some.injEq, forall_eq', if_neg none, kb]
        omega

end Sizes

/-! ### The plan -/

section Plan

variable {slotSizeKb filesystemSizeKb : Option Int} {nativeUsb : Bool} {region : Region} {bound : Int}
  {nodes : List Node}

theorem tailBound_le (bounded : tailBound region nodes = some bound) :
    (∀ size ∈ region.size, bound ≤ region.base + size) ∧
      ∀ offset ∈ nodes.filterMap (boundingOffset region), bound ≤ offset := by
  rw [tailBound_eq] at bounded
  cases size : region.size with
  | none =>
    rw [size, Option.map_none, foldl_lower_none] at bounded
    exact ⟨fun _ known => absurd known (by simp), (List.min?_eq_some_iff.mp bounded).2⟩
  | some size' =>
    rw [size, Option.map_some, foldl_lower_some] at bounded
    have least := (List.min?_eq_some_iff.mp bounded).2
    refine ⟨fun other known => ?_, fun offset mem => least offset (List.mem_cons_of_mem _ mem)⟩
    cases known
    exact least _ List.mem_cons_self

/-- No preserved partition reaches into the addresses that the split takes. -/
def LeavesPreserved (region : Region) (bound : Int) (nodes : List Node) : Prop := ∀ q ∈ preserved region nodes,
    q.Disjoint ⟨region.base, alignUp (128 * kb) region.erase + alignDown (splitRoom region bound) region.erase⟩ ∧
      q.Disjoint ⟨bound - region.erase, region.erase⟩

end Plan

/-! ### The places -/

/-- The places of a boot partition, a first slot, a file system of a block at least, and nvm at the end. -/
def splitSpans (base bootSize slot0Size fsSize erase bound : Int) : List Span :=
  [⟨base, bootSize⟩, ⟨base + bootSize, slot0Size⟩] ++
    (if erase ≤ fsSize then [⟨base + bootSize + slot0Size, fsSize⟩] else []) ++ [⟨bound - erase, erase⟩]

section Spans

variable {base bootSize slot0Size fsSize erase bound : Int} {q : Span} (boot : 0 < bootSize)
include boot

variable (slot0 : 0 < slot0Size)
include slot0

theorem splitSpans_ascending (pos : 0 < erase)
    (fs : 0 ≤ fsSize) (fits : base + bootSize + slot0Size + fsSize ≤ bound - erase) :
    Ascending base (splitSpans base bootSize slot0Size fsSize erase bound) := by
  unfold splitSpans
  split
  · simp only [List.cons_append, List.nil_append, Ascending, Span.stop, and_true]
    omega
  · simp only [List.append_nil, List.cons_append, List.nil_append, Ascending, Span.stop, and_true]
    omega

theorem splitSpans_inside (pos : 0 < erase) (fs : 0 ≤ fsSize)
    (fits : base + bootSize + slot0Size + fsSize ≤ bound - erase) :
    ∀ s ∈ splitSpans base bootSize slot0Size fsSize erase bound, 0 < s.size ∧ s.stop ≤ bound ∧
      (base ≤ s.off ∧ s.stop ≤ base + (bootSize + (slot0Size + fsSize)) ∨ s = ⟨bound - erase, erase⟩) := by
  intro s mem
  simp only [splitSpans, List.mem_append, List.mem_cons, List.not_mem_nil, or_false] at mem
  rcases mem with ((rfl | rfl) | inside) | rfl
  · simp only [Span.stop]
    omega
  · simp only [Span.stop]
    omega
  · split at inside
    next has =>
      cases List.mem_singleton.mp inside
      simp only [Span.stop]
      omega
    · cases inside
  · exact ⟨pos, by simp only [Span.stop]; omega, .inr rfl⟩

/-- The partitions in front leave no gap, so that what avoids each of them avoids all of their addresses. -/
theorem splitSpans_covers (small : fsSize < erase → fsSize = 0)
    (apart : ∀ s ∈ splitSpans base bootSize slot0Size fsSize erase bound, s.Disjoint q) :
    q.Disjoint ⟨base, bootSize + (slot0Size + fsSize)⟩ ∧ q.Disjoint ⟨bound - erase, erase⟩ := by
  have first := apart ⟨base, bootSize⟩ (by simp [splitSpans])
  have second := apart ⟨base + bootSize, slot0Size⟩ (by simp [splitSpans])
  have last := apart ⟨bound - erase, erase⟩ (by simp [splitSpans])
  refine ⟨?_, last.symm⟩
  by_cases has : erase ≤ fsSize
  · have third := apart ⟨base + bootSize + slot0Size, fsSize⟩ (by simp [splitSpans, has])
    rw [Span.disjoint_iff] at *
    simp only [Span.stop] at *
    omega
  · rw [Span.disjoint_iff] at *
    simp only [Span.stop] at *
    omega

/-- A file system of a negative size would have the slot reach beyond the start of the nvm partition. -/
theorem splitSpans_nonneg (pos : 0 < erase) (dvd : erase ∣ fsSize)
    (blocks : bound - erase < base + bootSize + slot0Size + fsSize + erase) (start : base ≤ bound - erase)
    (disjoint : (splitSpans base bootSize slot0Size fsSize erase bound).Pairwise Span.Disjoint) : 0 ≤ fsSize := by
  by_contra negative
  have block : erase ≤ -fsSize := Int.le_of_dvd (by omega) (Int.dvd_neg.mpr dvd)
  rw [splitSpans, if_neg (by omega)] at disjoint
  simp only [List.append_nil, List.cons_append, List.nil_append, List.pairwise_cons, List.mem_cons,
    List.not_mem_nil, or_false, forall_eq_or_imp, forall_eq, Span.disjoint_iff, Span.stop] at disjoint
  omega

end Spans

section Placed

variable {slotSizeKb filesystemSizeKb : Option Int} {nativeUsb : Bool} {region : Region} {bound : Int}
  {nodes : List Node}

variable (slotSizeKb filesystemSizeKb nativeUsb region bound) in
theorem splitRegion_spans :
    let sizes := splitSizes slotSizeKb filesystemSizeKb (splitRoom region bound) region.erase
    (splitRegion slotSizeKb filesystemSizeKb nativeUsb region bound).parts.map Partition.span =
      splitSpans region.base (alignUp (128 * kb) region.erase) sizes.1 sizes.2 region.erase bound := by
  intro sizes
  have room : bound - region.erase - (region.base + alignUp (128 * kb) region.erase) = splitRoom region bound := rfl
  simp only [SplitPlan.parts, splitRegion, splitSpans, ge_iff_le, room]
  by_cases has : region.erase ≤ sizes.2
  · simp [has, sizes, bootPartition, slot0Partition, nvmPartition, Partition.span]
  · simp [has, sizes, bootPartition, slot0Partition, nvmPartition, Partition.span]

variable (pos : 0 < region.erase)
include pos

theorem splitSizes_fit :
    let sizes := splitSizes slotSizeKb filesystemSizeKb (splitRoom region bound) region.erase
    region.base + alignUp (128 * kb) region.erase + sizes.1 + sizes.2 ≤ bound - region.erase := by
  intro sizes
  have sum : sizes.1 + sizes.2 = _ := (splitSizes_sum pos).2
  have fits := alignDown_le pos (splitRoom region bound)
  rw [← sum, splitRoom] at fits
  omega

theorem splitRegion_placed (bounded : tailBound region nodes = some bound)
    (room : RoomForSplit slotSizeKb filesystemSizeKb (splitRoom region bound) region.erase)
    (leaves : LeavesPreserved region bound nodes) :
    SplitPlaced region nodes (splitRegion slotSizeKb filesystemSizeKb nativeUsb region bound) := by
  obtain ⟨slot0, fs⟩ := (roomForSplit_iff pos).mp room
  have boot : 0 < alignUp (128 * kb) region.erase := (alignUp_pos pos).mpr (by decide)
  obtain ⟨ends, following⟩ := tailBound_le bounded
  have spans := splitRegion_spans slotSizeKb filesystemSizeKb nativeUsb region bound
  have ascending := splitSpans_ascending boot slot0 pos fs (splitSizes_fit pos)
  have inside := splitSpans_inside boot slot0 pos fs (splitSizes_fit pos)
  rw [← spans] at ascending inside
  rw [List.forall_mem_map] at inside
  have starts := List.forall_mem_map.mp ascending.ge
  refine ⟨fun p mem => (inside p mem).1, List.pairwise_map.mp ascending.pairwise, ?_, ?_⟩
  · intro p mem
    have stop := (inside p mem).2.1
    exact ⟨(starts p mem).1, fun size known => Int.le_trans stop (ends size known),
      fun offset known => Int.le_trans stop (following offset known)⟩
  · intro p mem q known
    obtain ⟨front, back⟩ := leaves q known
    have sum : (splitSizes slotSizeKb filesystemSizeKb (splitRoom region bound) region.erase).1 + _ = _ :=
      (splitSizes_sum pos).2
    rcases (inside p mem).2.2 with ⟨start, stop⟩ | nvm
    · rw [Span.disjoint_iff] at *
      simp only [Span.stop] at *
      omega
    · rw [nvm]
      exact back.symm

theorem room_of_placed
    (placed : SplitPlaced region nodes (splitRegion slotSizeKb filesystemSizeKb nativeUsb region bound)) :
    RoomForSplit slotSizeKb filesystemSizeKb (splitRoom region bound) region.erase ∧
      LeavesPreserved region bound nodes := by
  obtain ⟨dvd, sum⟩ : _ ∣ (splitSizes slotSizeKb filesystemSizeKb (splitRoom region bound) region.erase).2 ∧ _ :=
    splitSizes_sum pos
  have boot : 0 < alignUp (128 * kb) region.erase := (alignUp_pos pos).mpr (by decide)
  have blocks := lt_alignDown_add pos (splitRoom region bound)
  have spans := splitRegion_spans slotSizeKb filesystemSizeKb nativeUsb region bound
  rw [roomForSplit_iff pos]
  unfold LeavesPreserved
  rw [← sum] at blocks ⊢
  generalize splitSizes slotSizeKb filesystemSizeKb (splitRoom region bound) region.erase = sizes at *
  have each : ∀ s ∈ splitSpans region.base (alignUp (128 * kb) region.erase) sizes.1 sizes.2 region.erase bound,
      0 < s.size ∧ region.base ≤ s.off ∧ ∀ q ∈ preserved region nodes, s.Disjoint q := by
    rw [← spans]
    intro s mem
    obtain ⟨p, known, rfl⟩ := List.mem_map.mp mem
    exact ⟨placed.positive p known, (placed.inside p known).1, placed.apart p known⟩
  have disjoint := List.pairwise_map.mpr placed.disjoint
  rw [spans] at disjoint
  have slot0 : 0 < sizes.1 := (each ⟨region.base + alignUp (128 * kb) region.erase, sizes.1⟩ (by simp [splitSpans])).1
  have start : region.base ≤ bound - region.erase :=
    (each ⟨bound - region.erase, region.erase⟩ (by simp [splitSpans])).2.1
  have fs : 0 ≤ sizes.2 := by
    refine splitSpans_nonneg boot slot0 pos dvd ?_ start disjoint
    unfold splitRoom at blocks
    omega
  refine ⟨⟨slot0, fs⟩, fun q known => ?_⟩
  refine splitSpans_covers boot slot0 (fun small => ?_) fun s mem => (each s mem).2.2 q known
  exact Int.eq_zero_of_dvd_of_nonneg_of_lt fs small dvd

end Placed

/-- The plan of a split is placed as it should be exactly if there is room for its sizes and no preserved
partition reaches into it. -/
theorem split_placed_iff (slotSizeKb filesystemSizeKb : Option Int) (dt : Devicetree) (region : Region)
    (bound : Int) (plan : SplitPlan) (found : findCodePartitionRegion dt.nodes = some region)
    (bounded : tailBound region dt.nodes = some bound)
    (planned : planCodePartitionSplit slotSizeKb filesystemSizeKb dt = some plan) : SplitPlaced region dt.nodes plan ↔
      RoomForSplit slotSizeKb filesystemSizeKb (splitRoom region bound) region.erase ∧
        LeavesPreserved region bound dt.nodes := by
  obtain ⟨_, _, dev, _, _, _, _, erase⟩ := findCodePartitionRegion_spec found
  have pos : 0 < region.erase := erase ▸ dev.erase_pos
  have plan_eq : splitRegion slotSizeKb filesystemSizeKb dt.nativeUsb region bound = plan := by
    unfold planCodePartitionSplit at planned
    split at planned
    · cases planned
    · rw [found] at planned
      simpa [bounded] using planned
  subst plan_eq
  constructor
  · exact room_of_placed pos
  · intro ⟨room, leaves⟩
    exact splitRegion_placed pos bounded room leaves

/-- A code partition of 2 MB with settings at its end. -/
theorem split_placed_settings : ∃ region plan, findCodePartitionRegion
    (sharedFlash [settingsNode]).nodes = some region ∧
    planCodePartitionSplit none none (sharedFlash [settingsNode]) = some plan ∧
      SplitPlaced region (sharedFlash [settingsNode]).nodes plan := by
  obtain ⟨region, found⟩ : ∃ region, findCodePartitionRegion (sharedFlash [settingsNode]).nodes = some region := ⟨_, rfl⟩
  obtain ⟨plan, planned⟩ : ∃ plan, planCodePartitionSplit none none (sharedFlash [settingsNode]) = some plan := ⟨_, rfl⟩
  have bounded : tailBound region (sharedFlash [settingsNode]).nodes = some (3 * mb - 32 * kb) := by
    cases found
    decide
  refine ⟨region, plan, found, planned, ?_⟩
  apply (split_placed_iff none none _ region _ plan found bounded planned).mpr
  cases found
  refine ⟨⟨by simp, by decide⟩, ?_⟩
  unfold LeavesPreserved
  decide

/-- A file system of 2 MB is pinned for the same code partition: the first slot gets a negative size. -/
theorem split_pin_without_room : ∃ region plan,
    findCodePartitionRegion (sharedFlash [settingsNode]).nodes = some region ∧
      planCodePartitionSplit none (some 2048) (sharedFlash [settingsNode]) = some plan ∧ plan.slot0.size < 0 ∧
      ¬ SplitPlaced region (sharedFlash [settingsNode]).nodes plan := by
  refine ⟨_, _, rfl, rfl, by decide, fun placed => ?_⟩
  have positive := placed.positive _ (List.mem_cons_of_mem _ List.mem_cons_self)
  revert positive
  decide

end Adaboot.Planner
