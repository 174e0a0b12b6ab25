import Adaboot.Image.Version
import Adaboot.Image.Walk
import Adaboot.Loader.Boot

/-!
# Dependencies between images

`boot_verify_dependencies`. `HasDependency` says which versions of other images an image needs, without the iterator,
and `Met` when all of them are there after the planned swaps.
-/

namespace Adaboot

def imageTlvDependency : Nat := 0x40
def bootEFlash : Int := 1
def bootEBadImage : Int := 3
def bootEBadArgs : Int := 7

/-- `BOOT_SLOT_PRIMARY` and `BOOT_SLOT_SECONDARY`. -/
inductive Slot where
  | primary
  | secondary
deriving DecidableEq, Repr

/-- `struct image_dependency`. -/
structure ImageDependency where
  imageId : Nat
  imageMinVersion : ImageVersion
deriving DecidableEq, Repr

def ImageDependency.size : Nat := 12

def ImageDependency.decode (data : Bytes) : ImageDependency where
  imageId := (data.getD 0 0).toNat
  imageMinVersion :=
    { ivMajor := data.getD 4 0
      ivMinor := data.getD 5 0
      ivRevision := .ofNat (le16 data 6)
      ivBuildNum := .ofNat (le32 data 8) }

/-- What `boot_verify_dependencies` reads: headers and areas of the slots, where images start in the secondary slots,
and which images are left out. -/
structure Images (n : Nat) where
  hdr : Fin n → Slot → ImageHeader
  area : Fin n → Slot → FlashArea
  secondaryOffset : Fin n → Nat
  imgMask : Fin n → Bool

/-- `state->swap_type`. -/
abbrev SwapTypes (n : Nat) : Type := Fin n → SwapType

section Verify

variable {n : Nat} (useBuildNumber : Bool) (imgs : Images n)

/-- `boot_get_state_secondary_offset`. -/
def Images.startOff (cur : Fin n) : Slot → Nat
  | .primary => 0
  | .secondary => imgs.secondaryOffset cur

/-- The swap type that an image gets whose dependency is not satisfied. -/
def SwapType.lowered : SwapType → SwapType
  | .test | .perm => .none
  | .none => .revert
  | type => type

/-- `boot_verify_slot_dependency` for the image `cur` and a dependency on the image `id`. -/
def bootVerifySlotDependency (types : SwapTypes n) (cur : Fin n) (dep : ImageDependency) (id : Fin n) :
    Int × SwapTypes n :=
  let depSlot := if (types id).isUpgrade then Slot.secondary else .primary
  let rc := bootCompareVersion useBuildNumber (imgs.hdr id depSlot).ihVer dep.imageMinVersion
  if rc < 0 then (rc, Function.update types cur (types cur).lowered) else (0, types)

/-- The loop of `boot_verify_slot_dependencies`. -/
def slotDependenciesLoop (cur : Fin n) : Nat → ImageTlvIter → SwapTypes n → Int × SwapTypes n
  | 0, _, types => (-1, types)
  | fuel + 1, it, types =>
    match bootutilTlvIterNext it with
    | .error => (-1, types)
    | .notFound => (0, types)
    | .found it' off len _ =>
      if len ≠ ImageDependency.size then (bootEBadImage, types)
      else match flashAreaRead it.fap off len with
        | none => (bootEFlash, types)
        | some data =>
          let dep := ImageDependency.decode data
          if lt : dep.imageId < n then
            let (rc, types) := bootVerifySlotDependency useBuildNumber imgs types cur dep ⟨dep.imageId, lt⟩
            if rc ≠ 0 then (rc, types) else slotDependenciesLoop cur fuel it' types
          else (bootEBadArgs, types)

/-- `boot_verify_slot_dependencies`. A record takes at least four bytes, so that `tlvEnd` rounds suffice. -/
def bootVerifySlotDependencies (types : SwapTypes n) (cur : Fin n) (slot : Slot) : Int × SwapTypes n :=
  match bootutilTlvIterBegin (imgs.hdr cur slot) (imgs.area cur slot) (imgs.startOff cur slot) imageTlvDependency true with
  | none => (-1, types)
  | some it => slotDependenciesLoop useBuildNumber imgs cur (it.tlvEnd + 1) it types

def verifiedSlot (type : SwapType) : Slot := if type ≠ .none ∧ type ≠ .fail then .secondary else .primary

/-- The loop of `boot_verify_dependencies` over the images. -/
def verifyDependenciesLoop : List (Fin n) → Int → SwapTypes n → Int × SwapTypes n
  | [], rc, types => (rc, types)
  | cur :: rest, rc, types =>
    if imgs.imgMask cur then verifyDependenciesLoop rest rc types
    else
      let (rc, types) := bootVerifySlotDependencies useBuildNumber imgs types cur (verifiedSlot (types cur))
      if rc = 0 then verifyDependenciesLoop rest rc types
      else (rc, fun _ => .none) -- no upgrade at all if one cannot be made

def bootVerifyDependencies (types : SwapTypes n) : Int × SwapTypes n :=
  verifyDependenciesLoop useBuildNumber imgs (List.finRange n) (-1) types

end Verify

/-! ### The dependencies of an image -/

/-- An image that lies in its area, with all its TLVs, names a dependency in the protected ones. -/
def HasDependency (hdr : ImageHeader) (fap : FlashArea) (startOff : Nat) (dep : ImageDependency) : Prop :=
  startOff + imageSize hdr fap startOff ≤ fap.faSize ∧
    ∃ q len payload, RecordsFrom fap (tlvStart hdr startOff + 4) q ∧ RecordAt fap q imageTlvDependency len ∧
      q + 4 + len ≤ tlvProtEnd hdr startOff ∧ flashAreaRead fap (q + 4) len = some payload ∧
      ImageDependency.decode payload = dep

section Planned

variable {n : Nat} (useBuildNumber : Bool) (imgs : Images n) (types : SwapTypes n)

/-- The swap types at which `context_boot_go` does not stop. -/
def SwapType.isHandled : SwapType → Bool
  | .none | .test | .perm | .revert | .fail => true
  | _ => false

def plannedSlot (type : SwapType) : Slot := if type.isUpgrade then .secondary else .primary

/-- The primary slot of the image with this number will hold a version that is new enough. -/
def Satisfied (dep : ImageDependency) : Prop := ∃ lt : dep.imageId < n, dep.imageMinVersion.rank useBuildNumber ≤
      (imgs.hdr ⟨dep.imageId, lt⟩ (plannedSlot (types ⟨dep.imageId, lt⟩))).ihVer.rank useBuildNumber

/-- All dependencies of the image that the primary slot of image `i` will hold are satisfied. -/
def Met (i : Fin n) : Prop :=
  let slot := plannedSlot (types i)
  ∀ dep, HasDependency (imgs.hdr i slot) (imgs.area i slot) (imgs.startOff i slot) dep →
    Satisfied useBuildNumber imgs types dep

end Planned

/-! ### What a successful check says -/

section Success

variable {n : Nat} {useBuildNumber : Bool} {imgs : Images n} {types types' : SwapTypes n} {cur : Fin n}

theorem bootVerifySlotDependency_ok {dep : ImageDependency} {id : Fin n}
    (ok : bootVerifySlotDependency useBuildNumber imgs types cur dep id = (0, types')) : types' = types ∧
      dep.imageMinVersion.rank useBuildNumber ≤ (imgs.hdr id (plannedSlot (types id))).ihVer.rank useBuildNumber := by
  have slot : (if (types id).isUpgrade then Slot.secondary else .primary) = plannedSlot (types id) := rfl
  unfold bootVerifySlotDependency at ok
  rw [slot] at ok
  dsimp only at ok
  split at ok
  next less =>
    -- a version that is too low is returned as such
    rw [(Prod.mk.inj ok).1] at less
    exact absurd less (Int.lt_irrefl 0)
  next enough =>
    rw [bootCompareVersion_neg_iff] at enough
    exact ⟨(Prod.mk.inj ok).2.symm, Nat.le_of_not_lt enough⟩

variable {fuel : Nat} {it : ImageTlvIter}
  (ok : slotDependenciesLoop useBuildNumber imgs cur fuel it types = (0, types'))
include ok

theorem slotDependenciesLoop_ok :
    (bootutilTlvIterNext it = .notFound ∧ types' = types) ∨
      ∃ it' off type data fuel', bootutilTlvIterNext it = .found it' off ImageDependency.size type ∧
        flashAreaRead it.fap off ImageDependency.size = some data ∧ Satisfied useBuildNumber imgs types (.decode data) ∧
        slotDependenciesLoop useBuildNumber imgs cur fuel' it' types = (0, types') ∧ fuel = fuel' + 1 := by
  cases fuel with
  | zero => simp [slotDependenciesLoop] at ok
  | succ fuel =>
    rw [slotDependenciesLoop] at ok
    cases next : bootutilTlvIterNext it with
    | error => simp [next] at ok
    | notFound =>
      simp only [next, Prod.mk.injEq, true_and] at ok
      exact .inl ⟨rfl, ok.symm⟩
    | found it' off len type =>
      simp only [next] at ok
      by_cases size : len = ImageDependency.size
      · subst size
        rw [if_neg (not_not.mpr rfl)] at ok
        cases read : flashAreaRead it.fap off ImageDependency.size with
        | none => simp [read, bootEFlash] at ok
        | some data =>
          simp only [read] at ok
          split at ok
          next lt =>
            generalize verified : bootVerifySlotDependency useBuildNumber imgs types cur (.decode data)
              ⟨(ImageDependency.decode data).imageId, lt⟩ = answer at ok
            obtain ⟨rc, after⟩ := answer
            split at ok
            next failed => exact absurd (Prod.mk.inj ok).1 failed
            next passed =>
              obtain rfl := not_not.mp passed
              obtain ⟨rfl, le⟩ := bootVerifySlotDependency_ok verified
              exact .inr ⟨it', off, type, data, fuel, rfl, read, ⟨lt, le⟩, ok, rfl⟩
          next => simp [bootEBadArgs] at ok
      · rw [if_pos size] at ok
        simp [bootEBadImage] at ok

theorem slotDependenciesLoop_unchanged : types' = types := by
  induction fuel generalizing it with
  | zero => simp [slotDependenciesLoop] at ok
  | succ fuel ih =>
    obtain ⟨-, same⟩ | ⟨_, _, _, _, _, -, -, -, rest, same⟩ := slotDependenciesLoop_ok ok
    · exact same
    · cases same
      exact ih rest

omit ok

theorem slotDependenciesLoop_walk (bounded : it.Bounded)
    (ok : slotDependenciesLoop useBuildNumber imgs cur fuel it types = (0, types')) :
    ∃ es, Walk it es true ∧ ∀ e ∈ es, ∃ data, flashAreaRead it.fap e.off e.len = some data ∧
      Satisfied useBuildNumber imgs types (.decode data) := by
  induction fuel generalizing it with
  | zero => simp [slotDependenciesLoop] at ok
  | succ fuel ih =>
    have returns := returns_bootutilTlvIterNext bounded
    obtain ⟨past, -⟩ | ⟨it', off, type, data, _, next, read, satisfied, rest, same⟩ := slotDependenciesLoop_ok ok
    · exact ⟨[], .done (past ▸ returns), nofun⟩
    · cases same
      rw [next] at returns
      obtain ⟨moved, -⟩ := returns.moves bounded
      obtain ⟨es, walk, all⟩ := ih (moved ▸ bounded.move _) rest
      refine ⟨_, .entry returns walk, fun e mem => ?_⟩
      rcases List.mem_cons.mp mem with rfl | mem
      · exact ⟨data, read, satisfied⟩
      · rw [moved] at all
        exact all e mem

/-- The rounds that the loop is given suffice: with more of them it does the same. -/
theorem slotDependenciesLoop_fuel {fuel' : Nat} (bounded : it.Bounded)
    (enough : it.Enough fuel) (enough' : it.Enough fuel') : slotDependenciesLoop useBuildNumber imgs cur fuel it types =
      slotDependenciesLoop useBuildNumber imgs cur fuel' it types := by
  induction fuel generalizing it types fuel' with
  | zero => exact absurd enough.1 (Nat.lt_irrefl 0)
  | succ fuel ih =>
    obtain ⟨fuel', rfl⟩ := Nat.exists_eq_add_of_lt enough'.1
    rw [Nat.zero_add] at enough' ⊢
    rw [slotDependenciesLoop, slotDependenciesLoop]
    have returns := returns_bootutilTlvIterNext bounded
    cases next : bootutilTlvIterNext it with
    | error => rfl
    | notFound => rfl
    | found it' off len type =>
      rw [next] at returns
      obtain ⟨moved, ahead, more⟩ := returns.moves bounded
      have reaches : ∀ {k}, it.Enough (k + 1) → it'.Enough k := by
        intro k enough
        have bound := enough.2
        rw [moved]
        exact ⟨by omega, by dsimp only; omega⟩
      have bounded' : it'.Bounded := moved ▸ bounded.move _
      have rounds : ∀ types, slotDependenciesLoop useBuildNumber imgs cur fuel it' types =
          slotDependenciesLoop useBuildNumber imgs cur fuel' it' types :=
        fun _ => ih bounded' (reaches enough) (reaches enough')
      simp only [rounds]

theorem bootVerifySlotDependencies_ok {slot : Slot}
    (ok : bootVerifySlotDependencies useBuildNumber imgs types cur slot = (0, types')) : types' = types ∧
      ∀ dep, HasDependency (imgs.hdr cur slot) (imgs.area cur slot) (imgs.startOff cur slot) dep →
        Satisfied useBuildNumber imgs types dep := by
  unfold bootVerifySlotDependencies at ok
  split at ok
  next => simp at ok
  next it begun =>
    refine ⟨slotDependenciesLoop_unchanged ok, ?_⟩
    rintro dep ⟨fits, q, len, payload, records, found, inside, read, rfl⟩
    have bounded := bootutilTlvIterBegin_bounded begun
    obtain ⟨es, walk, all⟩ := slotDependenciesLoop_walk bounded ok
    have seen := walk.seen bounded
    -- the bounds of the iterator are those of the image, which lies in its area
    have protLe : tlvProtEnd (imgs.hdr cur slot) (imgs.startOff cur slot) ≤
        imgs.startOff cur slot + imageSize (imgs.hdr cur slot) (imgs.area cur slot) (imgs.startOff cur slot) := by
      rw [tlvProtEnd, imageSize]
      omega
    have size := (imgs.area cur slot).faSize_lt
    obtain ⟨-, rfl⟩ := bootutilTlvIterBegin_spec (by omega) begun
    have mem := seen.mem records found (.inr rfl) (by dsimp only; omega) inside
      (by dsimp only; rw [u32_of_lt (by omega)]; omega)
    obtain ⟨data, read', satisfied⟩ := all _ mem
    cases read.symm.trans read'
    exact satisfied

theorem verifyDependenciesLoop_ok {images : List (Fin n)} {rc : Int}
    (ok : verifyDependenciesLoop useBuildNumber imgs images rc types = (0, types')) :
    types' = types ∧ ∀ i ∈ images, imgs.imgMask i = false →
      bootVerifySlotDependencies useBuildNumber imgs types i (verifiedSlot (types i)) = (0, types) := by
  induction images generalizing rc with
  | nil => exact ⟨(Prod.mk.inj ok).2.symm, nofun⟩
  | cons cur rest ih =>
    rw [verifyDependenciesLoop] at ok
    by_cases masked : imgs.imgMask cur = true
    · rw [if_pos masked] at ok
      obtain ⟨same, checked⟩ := ih ok
      refine ⟨same, fun i mem unmasked => ?_⟩
      obtain rfl | later := List.mem_cons.mp mem
      · simp [masked] at unmasked
      · exact checked i later unmasked
    · rw [if_neg masked] at ok
      generalize verified : bootVerifySlotDependencies useBuildNumber imgs types cur (verifiedSlot (types cur)) = answer
        at ok
      obtain ⟨rc', after⟩ := answer
      dsimp only at ok
      split at ok
      next passed =>
        subst passed
        obtain ⟨rfl, -⟩ := bootVerifySlotDependencies_ok verified
        obtain ⟨same, checked⟩ := ih ok
        refine ⟨same, fun i mem unmasked => ?_⟩
        obtain rfl | later := List.mem_cons.mp mem
        · exact verified
        · exact checked i later unmasked
      next failed => exact absurd (Prod.mk.inj ok).1 failed

theorem verifiedSlot_eq {type : SwapType} (handled : type.isHandled = true) : verifiedSlot type = plannedSlot type := by
  cases type with
  | none | test | perm | revert | fail => simp [verifiedSlot, plannedSlot, SwapType.isUpgrade]
  | panic | other => exact absurd handled Bool.false_ne_true

end Success

/-! ### Images with dependencies -/

def dependentArea : FlashArea := .ofBytes (List.replicate 32 0 ++ tlvArea imageTlvProtInfoMagic
    [(imageTlvDependency, [0, 0, 0, 0, 2, 0, 0, 0, 0, 0, 0, 0])] ++ tlvArea imageTlvInfoMagic []) (by decide)

theorem dependentArea_hasDependency : HasDependency (emptyImageHeader 1 20) dependentArea 0 ⟨0, 2, 0, 0, 0⟩ :=
  ⟨by decide +kernel, 36, 12, [0, 0, 0, 0, 2, 0, 0, 0, 0, 0, 0, 0], .here 36,
    ⟨[0x40, 0, 12, 0], by decide +kernel, by decide +kernel, by decide +kernel⟩, by decide +kernel,
    by decide +kernel, by decide +kernel⟩

theorem noDependencies_fits : (List.replicate 32 0 ++ tlvArea imageTlvInfoMagic [] : Bytes).length < 2 ^ 32 := by decide

/-- Image 0 has the version `old` and an update `new`. Image 1, which a boot may leave out, needs version 2 of image 0.
-/
def dependentImages (old new : UInt8) (mask : Bool) : Images 2 where
  hdr
    | 0, .primary => emptyImageHeader old 0
    | 0, .secondary => emptyImageHeader new 0
    | 1, .primary => emptyImageHeader 1 20
    | 1, .secondary => emptyImageHeader 1 0
  area
    | 1, .primary => dependentArea
    | _, _ => .ofBytes (List.replicate 32 0 ++ tlvArea imageTlvInfoMagic []) noDependencies_fits
  secondaryOffset _ := 0
  imgMask i := mask && i.val == 1

def upgradeFirst (second : SwapType) : SwapTypes 2
  | 0 => .test
  | 1 => second

/-- A check that succeeds leaves all swap types as they are, and the dependencies of the images that take part are met
after the swaps. -/
theorem verified_dependencies_met {n : Nat} (useBuildNumber : Bool) (imgs : Images n) (types types' : SwapTypes n)
    (ok : bootVerifyDependencies useBuildNumber imgs types = (0, types')) : types' = types ∧
      ∀ i, imgs.imgMask i = false → (types' i).isHandled = true → Met useBuildNumber imgs types' i := by
  obtain ⟨rfl, checked⟩ := verifyDependenciesLoop_ok ok
  refine ⟨rfl, fun i unmasked handled => ?_⟩
  obtain ⟨-, satisfied⟩ := bootVerifySlotDependencies_ok (checked i (List.mem_finRange i) unmasked)
  rw [verifiedSlot_eq handled] at satisfied
  exact satisfied

theorem verified_dependencies_met_upgrade :
    bootVerifyDependencies false (dependentImages 1 2 false) (upgradeFirst .none) = (0, upgradeFirst .none) ∧
      Met false (dependentImages 1 2 false) (upgradeFirst .none) 1 := by
  have ok : bootVerifyDependencies false (dependentImages 1 2 false) (upgradeFirst .none) = (0, upgradeFirst .none) := by
    refine Prod.ext (by decide +kernel) (funext fun i => ?_)
    revert i
    decide +kernel
  exact ⟨ok, (verified_dependencies_met _ _ _ _ ok).2 1 rfl rfl⟩

/-- Dependencies are not checked of images that the boot leaves out, nor of one that stays at a swap type at which the
loader stops. -/
theorem other_dependencies_unmet :
    ((bootVerifyDependencies false (dependentImages 2 1 true) (upgradeFirst .none)).1 = 0 ∧
      (bootVerifyDependencies false (dependentImages 2 1 true) (upgradeFirst .none)).2 = upgradeFirst .none ∧
      ¬Met false (dependentImages 2 1 true) (upgradeFirst .none) 1) ∧
    ((bootVerifyDependencies false (dependentImages 2 1 false) (upgradeFirst .panic)).1 = 0 ∧
      (bootVerifyDependencies false (dependentImages 2 1 false) (upgradeFirst .panic)).2 = upgradeFirst .panic ∧
      ¬Met false (dependentImages 2 1 false) (upgradeFirst .panic) 1) := by
  have older : ¬(⟨2, 0, 0, 0⟩ : ImageVersion).rank false ≤ (⟨1, 0, 0, 0⟩ : ImageVersion).rank false := by decide +kernel
  refine ⟨⟨by decide +kernel, funext fun i => ?_, fun met => ?_⟩, by decide +kernel, funext fun i => ?_, fun met => ?_⟩
  · revert i
    decide +kernel
  · obtain ⟨_, le⟩ := met _ dependentArea_hasDependency
    exact older le
  · revert i
    decide +kernel
  · obtain ⟨_, le⟩ := met _ dependentArea_hasDependency
    exact older le

end Adaboot
