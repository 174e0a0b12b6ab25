import Adaboot.Loader.SlotUsage
import Mathlib.Data.List.FinRange

/-!
# Several images in RAM

`ram_load.c` with more than one image. An image is loaded if its range is in the executable RAM and overlaps no loaded
one. The comparison counts the first byte behind the new image as its own.
-/

namespace Adaboot

/-- What `slot_usage` says about an image, with `active` for an active slot. -/
structure ImageUsage where
  active : Bool
  imgDst : Nat
  imgSz : Nat

/-- The load address and the size that an image has in its header and its TLVs. -/
structure RamImage where
  imgDst : Nat
  imgSz : Nat
  imgSz_lt : imgSz < 2 ^ 32

namespace RamImage

def stop (img : RamImage) : Nat := img.imgDst + img.imgSz

def Shares (a b : RamImage) : Prop := ∃ p, (a.imgDst ≤ p ∧ p < a.stop) ∧ b.imgDst ≤ p ∧ p < b.stop

def Inside (ram : ExecRam) (img : RamImage) : Prop := ram.start ≤ img.imgDst ∧ img.stop ≤ ram.start + ram.size

/-- The image `b` starts where `a` ends, or one of them is empty and at or inside the other. -/
def Touches (a b : RamImage) : Prop := b.imgDst = a.stop ∨ a.imgSz = 0 ∧ b.imgDst ≤ a.imgDst ∧ a.imgDst < b.stop ∨
    b.imgSz = 0 ∧ a.imgDst ≤ b.imgDst ∧ b.imgDst ≤ a.stop

end RamImage

def doRegionsOverlap (startA endA startB endB : Nat) : Bool :=
  if startB > endA then false
  else if startB ≥ startA then true
  else if endB > startA then true
  else false

section Loads

variable {n : Nat} (execRam : Fin n → ExecRam) (imgs : Fin n → RamImage)

/-- `boot_check_ram_load_overlapping`; true if there is no overlap. -/
def bootCheckRamLoadOverlapping (usage : Fin n → ImageUsage) (cur : Fin n) : Bool :=
  let startA := (usage cur).imgDst
  let endA := u32 (startA + (usage cur).imgSz)
  (List.finRange n).all fun i =>
    !(usage i).active || i == cur ||
      !doRegionsOverlap startA endA (usage i).imgDst (u32 ((usage i).imgDst + (usage i).imgSz))

def activate (usage : Fin n → ImageUsage) (cur : Fin n) : Fin n → ImageUsage :=
  Function.update usage cur ⟨true, (imgs cur).imgDst, (imgs cur).imgSz⟩

/-- `boot_load_image_to_sram` as far as ranges are concerned, or none if the image is rejected. -/
def loadToSram (usage : Fin n → ImageUsage) (cur : Fin n) : Option (Fin n → ImageUsage) :=
  let usage := activate imgs usage cur
  if !bootVerifyRamLoadAddress (execRam cur) (imgs cur).imgDst (imgs cur).imgSz then none
  else if !bootCheckRamLoadOverlapping usage cur then none
  else some usage

def loadAll : List (Fin n) → (Fin n → ImageUsage) → Option (Fin n → ImageUsage)
  | [], usage => some usage
  | i :: rest, usage => (loadToSram execRam imgs usage i).bind (loadAll rest)

def noneLoaded : Fin n → ImageUsage := fun _ => ⟨false, 0, 0⟩

def Verified (i : Fin n) : Prop := bootVerifyRamLoadAddress (execRam i) (imgs i).imgDst (imgs i).imgSz = true

/-- What loading should do, in every order. -/
structure LoadsApart : Prop where
  rejects : ∀ order usage cur, order.Nodup → cur ∉ order → loadAll execRam imgs order noneLoaded = some usage →
    Verified execRam imgs cur →
    (bootCheckRamLoadOverlapping (activate imgs usage cur) cur = false ↔ ∃ i ∈ order, (imgs cur).Shares (imgs i))
  reorders : ∀ order order' : List (Fin n), order.Nodup → order.Perm order' →
    ((loadAll execRam imgs order noneLoaded).isSome ↔ (loadAll execRam imgs order' noneLoaded).isSome)
  disjoint : ∀ order, order.Nodup → (loadAll execRam imgs order noneLoaded).isSome →
    (∀ i ∈ order, (imgs i).Inside (execRam i)) ∧ order.Pairwise fun i j => ¬(imgs i).Shares (imgs j)

def usageOf (loaded : List (Fin n)) : Fin n → ImageUsage := fun i =>
  if i ∈ loaded then ⟨true, (imgs i).imgDst, (imgs i).imgSz⟩ else ⟨false, 0, 0⟩

/-- What the loader takes for an overlap of a new image `a` with `b`. -/
def Clash (a b : RamImage) : Prop := b.imgDst ≤ a.stop ∧ (a.imgDst ≤ b.imgDst ∨ a.imgDst < b.stop)

/-- No image that the loader accepts starts where another one ends. -/
def NoneTouch : Prop := ∀ i j, i ≠ j → Verified execRam imgs i → Verified execRam imgs j → ¬(imgs i).Touches (imgs j)

variable {execRam imgs} {loaded order : List (Fin n)} {cur : Fin n}

theorem clash_iff (a b : RamImage) : Clash a b ↔ a.Shares b ∨ a.Touches b := by
  constructor
  · rintro ⟨le, starts⟩
    by_cases common : max a.imgDst b.imgDst < a.stop ∧ max a.imgDst b.imgDst < b.stop
    · exact .inl ⟨max a.imgDst b.imgDst, by omega, by omega⟩
    · right
      unfold RamImage.Touches RamImage.stop at *
      omega
  · rintro (⟨p, inA, inB⟩ | touches)
    · exact ⟨by omega, by omega⟩
    · unfold RamImage.Touches at touches
      unfold Clash RamImage.stop at *
      omega

theorem RamImage.Touches.not_shares {a b : RamImage} (touches : a.Touches b) : ¬a.Shares b := by
  rintro ⟨p, inA, inB⟩
  unfold RamImage.Touches RamImage.stop at *
  omega

theorem RamImage.Shares.symm {a b : RamImage} : a.Shares b → b.Shares a := by
  rintro ⟨p, inA, inB⟩
  exact ⟨p, inB, inA⟩

theorem Verified.lt (verified : Verified execRam imgs cur) : (imgs cur).stop < 2 ^ 32 :=
  ((bootVerifyRamLoadAddress_iff (imgs cur).imgSz_lt).mp verified).2.1

theorem Verified.inside (verified : Verified execRam imgs cur) : (imgs cur).Inside (execRam cur) := by
  obtain ⟨above, -, below⟩ := (bootVerifyRamLoadAddress_iff (imgs cur).imgSz_lt).mp verified
  exact ⟨above, below.trans (Nat.mod_le ..)⟩

theorem activate_usageOf : activate imgs (usageOf imgs loaded) cur = usageOf imgs (cur :: loaded) := by
  funext i
  by_cases same : i = cur
  · simp [activate, usageOf, same]
  · simp [activate, usageOf, same]

theorem check_iff (verified : ∀ i ∈ cur :: loaded, Verified execRam imgs i) (new : cur ∉ loaded) :
    bootCheckRamLoadOverlapping (usageOf imgs (cur :: loaded)) cur = true ↔
      ∀ i ∈ loaded, ¬Clash (imgs cur) (imgs i) := by
  have endA := (verified cur List.mem_cons_self).lt
  simp only [bootCheckRamLoadOverlapping, List.all_eq_true, List.mem_finRange, true_imp_iff]
  refine forall_congr' fun i => ?_
  by_cases same : i = cur
  · simp [same, new]
  by_cases isLoaded : i ∈ loaded
  · have endB := (verified i (List.mem_cons_of_mem cur isLoaded)).lt
    unfold RamImage.stop at endA endB
    -- neither end wraps around, as the loader verified both ranges
    simp only [usageOf, List.mem_cons, isLoaded, or_true, true_or, if_true, u32_of_lt endA, u32_of_lt endB,
      doRegionsOverlap, Clash, RamImage.stop, true_imp_iff, same, beq_iff_eq, Bool.or_eq_true, Bool.not_true,
      Bool.false_eq_true, false_or, Bool.not_eq_true']
    split_ifs <;> simp <;> omega
  · simp [usageOf, isLoaded, same]

theorem loadToSram_iff (verified : ∀ i ∈ loaded, Verified execRam imgs i) (new : cur ∉ loaded)
    (usage' : Fin n → ImageUsage) : loadToSram execRam imgs (usageOf imgs loaded) cur = some usage' ↔
      (Verified execRam imgs cur ∧ ∀ i ∈ loaded, ¬Clash (imgs cur) (imgs i)) ∧ usageOf imgs (cur :: loaded) = usage' := by
  unfold loadToSram
  dsimp only
  rw [activate_usageOf]
  by_cases own : Verified execRam imgs cur
  · rw [← check_iff (List.forall_mem_cons.mpr ⟨own, verified⟩) new]
    cases bootCheckRamLoadOverlapping (usageOf imgs (cur :: loaded)) cur <;> simp [Verified]
  · simp only [Verified, Bool.not_eq_true] at own
    simp [Verified, own]

/-- An order can be loaded if no image clashes with one that was loaded before it, by induction over the order. -/
theorem loadAll_iff (verified : ∀ i ∈ loaded, Verified execRam imgs i) (nodup : order.Nodup)
    (new : ∀ i ∈ order, i ∉ loaded) (usage' : Fin n → ImageUsage) :
    loadAll execRam imgs order (usageOf imgs loaded) = some usage' ↔
      ((∀ i ∈ order, Verified execRam imgs i ∧ ∀ j ∈ loaded, ¬Clash (imgs i) (imgs j)) ∧
        order.Pairwise fun i j => ¬Clash (imgs j) (imgs i)) ∧ usageOf imgs (order.reverse ++ loaded) = usage' := by
  induction order generalizing loaded with
  | nil => simp [loadAll]
  | cons i rest ih =>
    have fresh : ∀ j ∈ rest, j ∉ i :: loaded := by
      intro j mem
      rw [List.mem_cons, not_or]
      exact ⟨fun same => (List.nodup_cons.mp nodup).1 (same ▸ mem), new j (List.mem_cons_of_mem i mem)⟩
    have step := loadToSram_iff verified (new i List.mem_cons_self)
    rw [loadAll, Option.bind_eq_some_iff]
    simp only [step, List.forall_mem_cons, List.pairwise_cons, List.reverse_cons, List.append_assoc,
      List.singleton_append]
    constructor
    · rintro ⟨_, ⟨accepted, rfl⟩, run⟩
      obtain ⟨⟨all, pairwise⟩, result⟩ :=
        (ih (List.forall_mem_cons.mpr ⟨accepted.1, verified⟩) (List.nodup_cons.mp nodup).2 fresh).mp run
      exact ⟨⟨⟨accepted, fun j mem => ⟨(all j mem).1, (List.forall_mem_cons.mp (all j mem).2).2⟩⟩,
        fun j mem => (List.forall_mem_cons.mp (all j mem).2).1, pairwise⟩, result⟩
    · rintro ⟨⟨⟨accepted, all⟩, first, pairwise⟩, result⟩
      refine ⟨_, ⟨accepted, rfl⟩, ?_⟩
      rw [ih (List.forall_mem_cons.mpr ⟨accepted.1, verified⟩) (List.nodup_cons.mp nodup).2 fresh]
      exact ⟨⟨fun j mem => ⟨(all j mem).1, List.forall_mem_cons.mpr ⟨first j mem, (all j mem).2⟩⟩,
        pairwise⟩, result⟩

theorem loadAll_none_iff (nodup : order.Nodup) (usage' : Fin n → ImageUsage) :
    loadAll execRam imgs order noneLoaded = some usage' ↔ ((∀ i ∈ order, Verified execRam imgs i) ∧
      order.Pairwise fun i j => ¬Clash (imgs j) (imgs i)) ∧ usageOf imgs order.reverse = usage' := by
  have start : noneLoaded = usageOf imgs [] := by
    funext i
    simp [noneLoaded, usageOf]
  rw [start, loadAll_iff (by simp) nodup (by simp)]
  simp

theorem NoneTouch.clash_iff (apart : NoneTouch execRam imgs) {i j : Fin n} (ne : i ≠ j)
    (vi : Verified execRam imgs i) (vj : Verified execRam imgs j) :
    Clash (imgs i) (imgs j) ↔ (imgs i).Shares (imgs j) := by
  rw [Adaboot.clash_iff, or_iff_left (apart i j ne vi vj)]

/-- Without touching images the order does not matter. -/
theorem NoneTouch.isSome_iff (apart : NoneTouch execRam imgs) (nodup : order.Nodup) :
    (loadAll execRam imgs order noneLoaded).isSome ↔
      (∀ i ∈ order, Verified execRam imgs i) ∧ order.Pairwise fun i j => ¬(imgs i).Shares (imgs j) := by
  simp only [Option.isSome_iff_exists, loadAll_none_iff nodup, exists_and_left, exists_eq', and_true]
  refine and_congr_right fun verified => ?_
  constructor
  · intro pairwise
    refine (nodup.and pairwise).imp_of_mem fun hi hj pair shares => pair.2 ?_
    exact (apart.clash_iff pair.1.symm (verified _ hj) (verified _ hi)).mpr shares.symm
  · intro pairwise
    refine (nodup.and pairwise).imp_of_mem fun hi hj pair clash => pair.2 ?_
    exact ((apart.clash_iff pair.1.symm (verified _ hj) (verified _ hi)).mp clash).symm

end Loads

/-- Images are rejected for a common byte only, in every order alike, exactly if no two of them touch. -/
theorem loads_apart_iff {n : Nat} (execRam : Fin n → ExecRam) (imgs : Fin n → RamImage) :
    LoadsApart execRam imgs ↔ NoneTouch execRam imgs := by
  constructor
  · intro loads i j ne vi vj touches
    -- the upper image first, then the lower one, which ends where the upper one starts
    have first : loadAll execRam imgs [j] noneLoaded = some (usageOf imgs [j]) :=
      (loadAll_none_iff (List.nodup_singleton j) _).mpr ⟨by simpa using vj, rfl⟩
    have both : ∀ k ∈ [i, j], Verified execRam imgs k := by simp [vi, vj]
    have rejected : bootCheckRamLoadOverlapping (activate imgs (usageOf imgs [j]) i) i = false := by
      rw [activate_usageOf, ← Bool.not_eq_true, check_iff both (by simpa using ne)]
      exact fun all => all j List.mem_cons_self ((clash_iff _ _).mpr (.inr touches))
    obtain ⟨k, mem, shares⟩ :=
      (loads.rejects [j] _ i (List.nodup_singleton j) (by simpa using ne) first vi).mp rejected
    rw [List.mem_singleton.mp mem] at shares
    exact touches.not_shares shares
  · intro apart
    refine ⟨?_, ?_, ?_⟩
    · intro order usage cur nodup new run own
      obtain ⟨⟨verified, -⟩, rfl⟩ := (loadAll_none_iff nodup _).mp run
      have all : ∀ i ∈ cur :: order.reverse, Verified execRam imgs i := by simpa using ⟨own, verified⟩
      rw [activate_usageOf, ← Bool.not_eq_true, check_iff all (by simpa using new)]
      simp only [List.mem_reverse, not_forall, not_not, exists_prop]
      refine exists_congr fun i => and_congr_right fun mem => ?_
      exact apart.clash_iff (fun same => new (same ▸ mem)) own (verified i mem)
    · intro order order' nodup perm
      rw [apart.isSome_iff nodup, apart.isSome_iff (perm.nodup_iff.mp nodup)]
      refine and_congr (forall_congr' fun i => by rw [perm.mem_iff]) (perm.pairwise_iff ?_)
      exact fun apart shares => apart shares.symm
    · intro order nodup loads
      obtain ⟨verified, pairwise⟩ := (apart.isSome_iff nodup).mp loads
      exact ⟨fun i mem => (verified i mem).inside, pairwise⟩

def adjoiningImages : Fin 2 → RamImage
  | 0 => ⟨0x1000, 0x100, by decide⟩
  | 1 => ⟨0x1100, 0x100, by decide⟩

/-- They can be loaded in the order of their addresses only. -/
theorem adjoining_images_ordered :
    (loadAll (fun _ => ⟨0x1000, 0x1000⟩) adjoiningImages [0, 1] noneLoaded).isSome = true ∧
      (loadAll (fun _ => ⟨0x1000, 0x1000⟩) adjoiningImages [1, 0] noneLoaded).isSome = false := by
  decide

end Adaboot
