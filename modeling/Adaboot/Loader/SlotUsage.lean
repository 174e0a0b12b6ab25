import Adaboot.Erase
import Adaboot.Image.Version
import Adaboot.Loader.State
import Adaboot.Selection

/-!
# Choosing the slot to run

`context_boot_go` of direct-XIP and RAM-load builds: the slot with the highest version is tried, one that fails is
erased. `SlotPasses` says when an image can be run from the bytes of its slot. A RAM-load build decides it from a
copy, which can be completed by what was in RAM before.
-/

namespace Adaboot

open Nor Crash Selection

def imageFRamLoad : UInt32 := 0x20
def imageFRomFixed : UInt32 := 0x100

/-- `IMAGE_EXECUTABLE_RAM_START` and `IMAGE_EXECUTABLE_RAM_SIZE`. -/
structure ExecRam where
  start : Nat
  size : Nat

/-- The options of a loader that swaps nothing. -/
structure SlotBuild where
  board : Board
  validate : ValidateBuild
  /-- `MCUBOOT_RAM_LOAD`, and `MCUBOOT_DIRECT_XIP` where it is missing. -/
  execRam : Option ExecRam
  /-- `boot_img_slot_off`. -/
  slotOff : Area → Nat
  /-- `MCUBOOT_VERSION_CMP_USE_BUILD_NUMBER`. -/
  useBuildNumber : Bool
  header_fits : ∀ a, imageHeaderSize ≤ board.faSize a

def bootSlots : List Area := [.primary, .secondary]

/-- `boot_loader_state` with its `slot_usage`, the flash and the RAM that images are loaded to. -/
structure SlotState where
  flash : Flash
  ram : Nat → UInt8
  hdr : Area → ImageHeader
  slotAvailable : Area → Bool
  activeSlot : Option Area
  imgDst : Nat
  imgSz : Nat

/-- `memcpy` to RAM. -/
def copyToRam (ram : Nat → UInt8) (dst : Nat) (data : Bytes) : Nat → UInt8 := fun i =>
  if dst ≤ i ∧ i < dst + data.length then data.getD (i - dst) 0 else ram i

section Loader

variable (x : SlotBuild)

/-- `boot_read_image_header`, which leaves the header alone when the read fails. -/
def SlotState.readHeader (s : SlotState) (slot : Area) : Option SlotState :=
  (flashAreaRead (x.board.area s.flash slot) 0 imageHeaderSize).map fun out =>
    { s with hdr := fun a => if a = slot then .decode out else s.hdr a }

/-- `boot_read_image_headers` that does not require all of them. -/
def readHeaders (s : SlotState) : Option SlotState :=
  match s.readHeader x .primary with
  | none => none
  | some s =>
    match s.readHeader x .secondary with
    | none => some s
    | some s => some s

def bootGetSlotUsage (s : SlotState) : Option SlotState :=
  (readHeaders x s).map fun s =>
    { s with
      slotAvailable := fun slot => (s.hdr slot).bootCheckHeaderValid (x.board.faSize slot)
      activeSlot := none }

/-- The loop of `find_slot_with_highest_version` moves on when a version is greater. -/
def newerSlot (s : SlotState) (slot candidate : Area) : Bool :=
  bootCompareVersion x.useBuildNumber (s.hdr slot).ihVer (s.hdr candidate).ihVer = 1

def findSlotWithHighestVersion (s : SlotState) : Option Area := firstBest (newerSlot x s) s.slotAvailable bootSlots

/-- `boot_rom_address_check`: true when the image was built for another slot. -/
def bootRomAddressCheck (s : SlotState) (slot : Area) : Bool :=
  (s.hdr slot).ihFlags &&& imageFRomFixed ≠ 0 ∧ (s.hdr slot).ihLoadAddr.toNat ≠ x.slotOff slot

def bootVerifyRamLoadAddress (execRam : ExecRam) (imgDst imgSz : Nat) : Bool :=
  if imgDst < execRam.start then false
  else match bootU32SafeAdd imgDst imgSz with
    | none => false
    | some imgEndAddr => imgEndAddr ≤ u32 (execRam.start + execRam.size)

/-- `boot_load_image_to_sram`, with `boot_copy_image_to_sram`. -/
def bootLoadImageToSram (execRam : ExecRam) (s : SlotState) (slot : Area) : Bool × SlotState :=
  let fap := x.board.area s.flash slot
  if (s.hdr slot).ihFlags &&& imageFRamLoad = 0 then (false, { s with imgDst := 0, imgSz := 0 })
  else match readImageSize fap (s.hdr slot) 0 with
    | none => (false, s)
    | some (imgSz, _) =>
      let s := { s with imgDst := (s.hdr slot).ihLoadAddr.toNat, imgSz }
      if !bootVerifyRamLoadAddress execRam s.imgDst s.imgSz then (false, s)
      else match flashAreaRead fap 0 s.imgSz with
        | none => (false, { s with imgDst := 0, imgSz := 0 })
        | some data => (true, { s with ram := copyToRam s.ram s.imgDst data })

def bootRemoveImageFromSram (s : SlotState) : SlotState :=
  { s with ram := copyToRam s.ram s.imgDst (List.replicate s.imgSz 0), imgDst := 0, imgSz := 0 }

/-- `boot_scramble_slot` and `boot_remove_image_from_flash`, whose return codes nobody looks at. -/
def SlotState.scramble (s : SlotState) (slot : Area) : SlotState :=
  { s with flash := (bootScrambleSlot x.board slot s.flash).state }

/-- What `LOAD_IMAGE_DATA` reads: the flash, or the RAM behind the load address. A read that leaves the slot leaves the
image, and the TLV iterator refuses it before. -/
def SlotState.imageData (s : SlotState) (slot : Area) : FlashArea :=
  match x.execRam with
  | none => x.board.area s.flash slot
  | some _ => ⟨x.board.faSize slot, fun i => s.ram ((s.hdr slot).ihLoadAddr.toNat + i), x.board.size_lt slot⟩

/-- `boot_check_image`. The maximum is that of `bootutil_max_image_size`. -/
def SlotState.checkImage (s : SlotState) (slot : Area) : Bool :=
  bootutilImgValidate x.validate (s.hdr slot) (s.imageData x slot) 0 (bootSwapInfoOff x.board slot) []

/-- `boot_validate_slot` in builds whose slots are equivalent. -/
def SlotState.validateSlot (s : SlotState) (slot : Area) : Bool × SlotState :=
  if (s.hdr slot).bootCheckHeaderErased ∨ (s.hdr slot).ihFlags &&& imageFNonBootable ≠ 0 then (false, s)
  else if (s.hdr slot).bootCheckHeaderValid (x.board.faSize slot) && s.checkImage x slot then (true, s)
  else (false, s.scramble x slot)

/-- What the loop of `boot_load_and_validate_images` does with the slot it has picked. -/
def tryActiveSlot (s : SlotState) (slot : Area) : Bool × SlotState :=
  match x.execRam with
  | none => if bootRomAddressCheck x s slot then (false, s) else s.validateSlot x slot
  | some execRam =>
    match bootLoadImageToSram x execRam s slot with
    | (false, s) => (false, s.scramble x slot)
    | (true, s) =>
      match s.validateSlot x slot with
      | (false, s) => (false, bootRemoveImageFromSram s)
      | (true, s) => (true, s)

def SlotState.setUnavailable (s : SlotState) (slot : Area) : SlotState :=
  { s with slotAvailable := fun a => if a = slot then false else s.slotAvailable a, activeSlot := none }

/-- The loop of `boot_load_and_validate_images`; `none` when it has not ended after so many
rounds. -/
def loadAndValidateLoop : Nat → SlotState → Option (Bool × SlotState)
  | 0, _ => none
  | rounds + 1, s =>
    if s.activeSlot.isSome then some (true, s)
    else match findSlotWithHighestVersion x s with
      | none => some (false, s)
      | some slot =>
        match tryActiveSlot x { s with activeSlot := some slot } slot with
        | (true, s) => some (true, s)
        | (false, s) => loadAndValidateLoop rounds (s.setUnavailable slot)

def SlotState.init (fl : Flash) (ram : Nat → UInt8) : SlotState where
  flash := fl
  ram := ram
  hdr _ := .decode (List.replicate imageHeaderSize 0)
  slotAvailable _ := false
  activeSlot := none
  imgDst := 0
  imgSz := 0

/-- `context_boot_go`: the slot that `fill_rsp` reports, if any. The loop is given a round for each slot and one more.
-/
def slotBootGo (fl : Flash) (ram : Nat → UInt8) : Option (Option Area × SlotState) :=
  match bootGetSlotUsage x (.init fl ram) with
  | none => some (none, .init fl ram)
  | some s =>
    (loadAndValidateLoop x (bootSlots.length + 1) s).map fun
      | (true, s) => (s.activeSlot, s)
      | (false, s) => (none, s)

end Loader

/-! ### Images that can be run -/

section Images

variable (x : SlotBuild) (fl : Flash) (a : Area)

def SlotBuild.header : ImageHeader := .decode ((List.range imageHeaderSize).map fun i => fl a (0 + i))

/-- The image in the slot has the size and a load address that let it be copied to RAM. -/
structure Loadable (execRam : ExecRam) (imgSz : Nat) : Prop where
  flagged : (SlotBuild.header fl a).ihFlags &&& imageFRamLoad ≠ 0
  size : ∃ tlvSz, readImageSize (x.board.area fl a) (SlotBuild.header fl a) 0 = some (imgSz, tlvSz)
  above : execRam.start ≤ (SlotBuild.header fl a).ihLoadAddr.toNat
  lt : (SlotBuild.header fl a).ihLoadAddr.toNat + imgSz < 2 ^ 32
  below : (SlotBuild.header fl a).ihLoadAddr.toNat + imgSz ≤ u32 (execRam.start + execRam.size)
  fits : imgSz ≤ x.board.faSize a

/-- The image was built for the slot, or can be loaded from it. -/
def Placed : Prop :=
  match x.execRam with
  | none =>
    (SlotBuild.header fl a).ihFlags &&& imageFRomFixed = 0 ∨ (SlotBuild.header fl a).ihLoadAddr.toNat = x.slotOff a
  | some execRam => ∃ imgSz, Loadable x fl a execRam imgSz

/-- The slot holds an image that passes validation, and loading where it is loaded. -/
structure SlotPasses : Prop where
  header : (SlotBuild.header fl a).bootCheckHeaderValid (x.board.faSize a) = true
  bootable : (SlotBuild.header fl a).ihFlags &&& imageFNonBootable = 0
  placed : Placed x fl a
  valid : bootutilImgValidate x.validate (SlotBuild.header fl a) (x.board.area fl a) 0
    (bootSwapInfoOff x.board a) [] = true

def slotRank : Nat := (SlotBuild.header fl a).ihVer.rank x.useBuildNumber

/-- The loop gets to the slot: no slot that passes has a higher version, or the same one and comes first. -/
structure Tried : Prop where
  header : (SlotBuild.header fl a).bootCheckHeaderValid (x.board.faSize a) = true
  unbeaten : ∀ a' ∈ bootSlots, SlotPasses x fl a' → slotRank x fl a' ≤ slotRank x fl a
  first : a = .secondary → SlotPasses x fl .primary → slotRank x fl .primary < slotRank x fl a

/-- What is copied of an image that is tried includes the info header of its TLVs. -/
def CopiesTlvInfo : Prop := ∀ a ∈ bootSlots, Tried x fl a → ∀ execRam imgSz, x.execRam = some execRam →
    Loadable x fl a execRam imgSz → (SlotBuild.header fl a).hashedSize + 4 ≤ imgSz

end Images

/-! ### The verdict on a copy -/

theorem bootVerifyRamLoadAddress_iff {execRam : ExecRam} {imgDst imgSz : Nat} (small : imgSz < 2 ^ 32) :
    bootVerifyRamLoadAddress execRam imgDst imgSz = true ↔
      execRam.start ≤ imgDst ∧ imgDst + imgSz < 2 ^ 32 ∧ imgDst + imgSz ≤ u32 (execRam.start + execRam.size) := by
  unfold bootVerifyRamLoadAddress bootU32SafeAdd
  split
  next low => simp; omega
  next above =>
    split
    next overflow => grind
    next stop added =>
      split at added
      next => simp at added
      next =>
        cases added
        simp only [decide_eq_true_eq]
        omega

theorem copyToRam_inside {ram : Nat → UInt8} {dst i : Nat} {data : Bytes} (lt : i < data.length) :
    copyToRam ram dst data (dst + i) = data.getD i 0 := by
  rw [copyToRam, if_pos ⟨by omega, by omega⟩, Nat.add_sub_cancel_left]

theorem readImageSize_begun {fap : FlashArea} {hdr : ImageHeader} {imgSz tlvSz : Nat}
    (read : readImageSize fap hdr 0 = some (imgSz, tlvSz)) :
    imgSz < 2 ^ 32 ∧ ∃ it, bootutilTlvIterBegin hdr fap 0 imageTlvAny false = some it ∧ it.tlvEnd = imgSz := by
  have off_eq : u32 (bootTlvOff hdr + 0) = bootTlvOff hdr := u32_of_lt (u32_lt _)
  rw [readImageSize, off_eq] at read
  rw [bootutilTlvIterBegin, off_eq]
  cases info : readTlvInfo hdr fap (bootTlvOff hdr) with
  | none => simp [info] at read
  | some bytes =>
    simp only [info] at read ⊢
    split at read
    next => simp at read
    next magic =>
      cases read
      rw [if_neg magic]
      exact ⟨u32_lt _, _, rfl, rfl⟩

/-- An image gets the same verdict in RAM when what was copied includes the info header of its
TLVs. -/
theorem bootutilImgValidate_ram {b : ValidateBuild} {hdr : ImageHeader} {fap fap' : FlashArea}
    {imgSz tlvSz maxImageSize : Nat} {seed : Bytes} (header : hdr.hashedSize < fap.faSize)
    (read : readImageSize fap hdr 0 = some (imgSz, tlvSz)) (counted : hdr.hashedSize + 4 ≤ imgSz)
    (copied : Copied fap fap' 0 imgSz) :
    bootutilImgValidate b hdr fap' 0 maxImageSize seed = bootutilImgValidate b hdr fap 0 maxImageSize seed := by
  have protEnd : tlvProtEnd hdr 0 = hdr.hashedSize := Nat.zero_add _
  obtain ⟨-, it, begun, tlvEnd⟩ := readImageSize_begun read
  obtain ⟨-, it_eq⟩ := bootutilTlvIterBegin_spec (by omega) begun
  -- the size did not wrap around, since it does not end before the TLVs
  have size_eq : imageSize hdr fap 0 = imgSz := by
    rw [it_eq, Nat.zero_add] at tlvEnd
    have wrapped : u32 (imageSize hdr fap 0) = imgSz := tlvEnd
    have tot_lt := tlvTot_lt hdr fap 0
    unfold u32 at wrapped
    unfold imageSize at wrapped ⊢
    omega
  exact bootutilImgValidate_shift_eq (size_eq ▸ copied) (by omega) begun Iff.rfl


/-! ### One slot -/

/-- What a function does to the state when it works on one slot only. -/
structure WorksOn (slot : Area) (s s' : SlotState) : Prop where
  hdr : s'.hdr = s.hdr
  available : s'.slotAvailable = s.slotAvailable
  active : s'.activeSlot = s.activeSlot
  others : ∀ a, a ≠ slot → s'.flash a = s.flash a

theorem WorksOn.refl (slot : Area) (s : SlotState) : WorksOn slot s s := ⟨rfl, rfl, rfl, fun _ _ => rfl⟩

theorem WorksOn.trans {slot : Area} {s s' s'' : SlotState} (first : WorksOn slot s s')
    (second : WorksOn slot s' s'') : WorksOn slot s s'' where
  hdr := second.hdr.trans first.hdr
  available := second.available.trans first.available
  active := second.active.trans first.active
  others a ne := (second.others a ne).trans (first.others a ne)

section Slot

variable {x : SlotBuild} {fl : Flash} {s : SlotState} {slot : Area}

theorem SlotState.scramble_worksOn : WorksOn slot s (s.scramble x slot) where
  hdr := rfl
  available := rfl
  active := rfl
  others a ne := by
    have left : Leaves (fun fl : Flash => fl a) (bootScrambleSlot x.board slot) :=
      .ite (.pure ()) (bootEraseRegion_leaves ne)
    exact left s.flash

theorem SlotState.validateSlot_spec (header : (s.hdr slot).bootCheckHeaderValid (x.board.faSize slot) = true) :
    WorksOn slot s (s.validateSlot x slot).2 ∧ ((s.validateSlot x slot).1 = true ↔
        (s.hdr slot).ihFlags &&& imageFNonBootable = 0 ∧ s.checkImage x slot = true) := by
  -- a header with the magic number is not erased
  have written : (s.hdr slot).bootCheckHeaderErased = false := by
    have magic := ((ImageHeader.bootCheckHeaderValid_iff _ (x.board.size_lt slot)).mp header).1
    rw [ImageHeader.bootCheckHeaderErased, magic]
    decide
  rw [SlotState.validateSlot, written, header, Bool.true_and]
  by_cases bootable : (s.hdr slot).ihFlags &&& imageFNonBootable = 0
  · rw [if_neg (by simp [bootable])]
    cases checked : s.checkImage x slot with
    | true => exact ⟨.refl slot s, by simp [bootable]⟩
    | false => exact ⟨scramble_worksOn, by simp⟩
  · rw [if_pos (.inr bootable)]
    exact ⟨.refl slot s, by simp [bootable]⟩

def slotBytes (fl : Flash) (slot : Area) (imgSz : Nat) : Bytes := (List.range imgSz).map fun i => fl slot (0 + i)

variable (hdr : s.hdr slot = SlotBuild.header fl slot)
  (kept : s.flash slot = fl slot)
include hdr kept

variable {execRam : ExecRam} {imgSz : Nat}

theorem bootLoadImageToSram_of_loadable (load : Loadable x fl slot execRam imgSz) :
    bootLoadImageToSram x execRam s slot =
      (true, { s with
        imgDst := (SlotBuild.header fl slot).ihLoadAddr.toNat
        imgSz := imgSz
        ram := copyToRam s.ram (SlotBuild.header fl slot).ihLoadAddr.toNat (slotBytes fl slot imgSz) }) := by
  have area : x.board.area s.flash slot = x.board.area fl slot := by
    rw [Board.area, Board.area, kept]
  obtain ⟨tlvSz, size⟩ := load.size
  have verified : bootVerifyRamLoadAddress execRam (SlotBuild.header fl slot).ihLoadAddr.toNat imgSz = true :=
    (bootVerifyRamLoadAddress_iff (readImageSize_begun size).1).mpr ⟨load.above, load.lt, load.below⟩
  have read : flashAreaRead (x.board.area fl slot) 0 imgSz = some (slotBytes fl slot imgSz) :=
    flashAreaRead_of_le (by rw [Nat.zero_add]; exact load.fits)
  rw [bootLoadImageToSram, area, hdr, if_neg load.flagged, size]
  simp only [verified, read, Bool.not_true, Bool.false_eq_true, if_false]

theorem bootLoadImageToSram_of_not_loadable (never : ∀ imgSz, ¬Loadable x fl slot execRam imgSz) :
    ∃ s', bootLoadImageToSram x execRam s slot = (false, s') ∧ WorksOn slot s s' := by
  have area : x.board.area s.flash slot = x.board.area fl slot := by
    rw [Board.area, Board.area, kept]
  have reset : ∀ imgDst imgSz, WorksOn slot s { s with imgDst := imgDst, imgSz := imgSz } :=
    fun _ _ => ⟨rfl, rfl, rfl, fun _ _ => rfl⟩
  rw [bootLoadImageToSram, area, hdr]
  split
  next => exact ⟨_, rfl, reset 0 0⟩
  next flagged =>
    split
    next => exact ⟨_, rfl, .refl slot s⟩
    next imgSz tlvSz size =>
      dsimp only
      split
      next => exact ⟨_, rfl, reset _ _⟩
      next verified =>
        split
        next => exact ⟨_, rfl, reset 0 0⟩
        next data read =>
          -- every check has passed, so the image could be loaded
          have fits := (flashAreaRead_eq_some read).1
          obtain ⟨above, lt, below⟩ :=
            (bootVerifyRamLoadAddress_iff (readImageSize_begun size).1).mp (by simpa using verified)
          exact absurd ⟨flagged, ⟨tlvSz, size⟩, above, lt, below, by simpa [Board.area] using fits⟩ (never imgSz)

variable (header : (SlotBuild.header fl slot).bootCheckHeaderValid (x.board.faSize slot) = true)
include header

omit kept in
theorem checkImage_loaded {ram₀ : Nat → UInt8} (ramLoad : x.execRam = some execRam)
    (load : Loadable x fl slot execRam imgSz)
    (counted : (SlotBuild.header fl slot).hashedSize + 4 ≤ imgSz)
    (ram : s.ram = copyToRam ram₀ (SlotBuild.header fl slot).ihLoadAddr.toNat (slotBytes fl slot imgSz)) :
    s.checkImage x slot = bootutilImgValidate x.validate (SlotBuild.header fl slot) (x.board.area fl slot) 0
        (bootSwapInfoOff x.board slot) [] := by
  obtain ⟨-, hashed, -⟩ := (ImageHeader.bootCheckHeaderValid_iff _ (x.board.size_lt slot)).mp header
  obtain ⟨tlvSz, size⟩ := load.size
  have copied : Copied (x.board.area fl slot) (s.imageData x slot) 0 imgSz := by
    rw [SlotState.imageData, ramLoad]
    refine ⟨load.fits, load.fits, ?_⟩
    intro i lt
    have long : i < (slotBytes fl slot imgSz).length := by simpa [slotBytes] using lt
    simp only [hdr, ram, Nat.add_zero, copyToRam_inside long]
    simp [slotBytes, lt, Board.area]
  rw [SlotState.checkImage, hdr]
  exact bootutilImgValidate_ram hashed size counted copied

omit kept in
theorem validateSlot_passes (placed : Placed x fl slot) (checked : s.checkImage x slot = bootutilImgValidate x.validate
      (SlotBuild.header fl slot) (x.board.area fl slot) 0 (bootSwapInfoOff x.board slot) []) :
    WorksOn slot s (s.validateSlot x slot).2 ∧ ((s.validateSlot x slot).1 = true ↔ SlotPasses x fl slot) := by
  have header' : (s.hdr slot).bootCheckHeaderValid (x.board.faSize slot) = true := hdr ▸ header
  obtain ⟨works, validated⟩ := s.validateSlot_spec header'
  rw [checked, hdr] at validated
  refine ⟨works, validated.trans ⟨?_, fun passes => ⟨passes.bootable, passes.valid⟩⟩⟩
  rintro ⟨bootable, valid⟩
  exact ⟨header, bootable, placed, valid⟩

theorem tryActiveSlot_directXip (mode : x.execRam = none) :
    WorksOn slot s (tryActiveSlot x s slot).2 ∧ ((tryActiveSlot x s slot).1 = true ↔ SlotPasses x fl slot) := by
  have placed : Placed x fl slot ↔ bootRomAddressCheck x s slot = false := by
    rw [Placed, mode, bootRomAddressCheck, hdr, decide_eq_false_iff_not]
    tauto
  rw [tryActiveSlot, mode]
  dsimp only
  split
  next misplaced =>
    refine ⟨.refl slot s, by simp, ?_⟩
    intro passes
    rw [placed.mp passes.placed] at misplaced
    exact absurd misplaced Bool.false_ne_true
  next suited =>
    refine validateSlot_passes hdr header (placed.mpr (by simpa using suited)) ?_
    rw [SlotState.checkImage, SlotState.imageData, mode, hdr, Board.area, Board.area, kept]

theorem tryActiveSlot_ramLoad (mode : x.execRam = some execRam)
    (counted : ∀ imgSz, Loadable x fl slot execRam imgSz → (SlotBuild.header fl slot).hashedSize + 4 ≤ imgSz) :
    WorksOn slot s (tryActiveSlot x s slot).2 ∧ ((tryActiveSlot x s slot).1 = true ↔ SlotPasses x fl slot) := by
  have placed : Placed x fl slot ↔ ∃ imgSz, Loadable x fl slot execRam imgSz := by rw [Placed, mode]
  rw [tryActiveSlot, mode]
  dsimp only
  by_cases loads : ∃ imgSz, Loadable x fl slot execRam imgSz
  · obtain ⟨imgSz, load⟩ := loads
    rw [bootLoadImageToSram_of_loadable hdr kept load]
    dsimp only
    generalize loaded : ({ s with
      imgDst := (SlotBuild.header fl slot).ihLoadAddr.toNat
      imgSz := imgSz
      ram := copyToRam s.ram (SlotBuild.header fl slot).ihLoadAddr.toNat (slotBytes fl slot imgSz) } :
        SlotState) = t
    have copied : WorksOn slot s t := by
      subst loaded
      exact ⟨rfl, rfl, rfl, fun _ _ => rfl⟩
    have hdr' : t.hdr slot = SlotBuild.header fl slot := by rw [copied.hdr, hdr]
    obtain ⟨works, passes⟩ := validateSlot_passes hdr' header (placed.mpr ⟨imgSz, load⟩)
      (checkImage_loaded hdr' header mode load (counted imgSz load) (by rw [← loaded]))
    rcases result : t.validateSlot x slot with ⟨verdict, t'⟩
    rw [result] at works passes
    cases verdict with
    | true => exact ⟨copied.trans works, passes⟩
    | false =>
      have removed : WorksOn slot t' (bootRemoveImageFromSram t') := ⟨rfl, rfl, rfl, fun _ _ => rfl⟩
      exact ⟨(copied.trans works).trans removed, passes⟩
  · have never : ∀ imgSz, ¬Loadable x fl slot execRam imgSz := fun imgSz load => loads ⟨imgSz, load⟩
    obtain ⟨t, failed, works⟩ := bootLoadImageToSram_of_not_loadable hdr kept never
    rw [failed]
    refine ⟨works.trans SlotState.scramble_worksOn, by simp, ?_⟩
    intro passes
    exact absurd (placed.mp passes.placed) loads

theorem tryActiveSlot_spec (copies : CopiesTlvInfo x fl) (mem : slot ∈ bootSlots) (tried : Tried x fl slot) :
    WorksOn slot s (tryActiveSlot x s slot).2 ∧ ((tryActiveSlot x s slot).1 = true ↔ SlotPasses x fl slot) := by
  cases mode : x.execRam with
  | none => exact tryActiveSlot_directXip hdr kept header mode
  | some execRam =>
    exact tryActiveSlot_ramLoad hdr kept header mode fun imgSz => copies slot mem tried execRam imgSz mode

end Slot

/-! ### The loop -/

section Loop

variable {x : SlotBuild} {fl : Flash} {s : SlotState}

def SlotState.candidates (s : SlotState) : Set Area := { a | a ∈ bootSlots ∧ s.slotAvailable a = true }

/-- Between two rounds a slot that can still be tried is as it was, and the others do not pass. -/
structure Choosing (fl : Flash) (x : SlotBuild) (s : SlotState) : Prop where
  idle : s.activeSlot = none
  hdr : ∀ a ∈ bootSlots, s.hdr a = SlotBuild.header fl a
  kept : ∀ a ∈ s.candidates, s.flash a = fl a
  header : ∀ a ∈ s.candidates, (SlotBuild.header fl a).bootCheckHeaderValid (x.board.faSize a) = true
  struck : ∀ a ∈ bootSlots, a ∉ s.candidates → ¬SlotPasses x fl a

theorem newerSlot_iff (i j : Area) : newerSlot x s i j = true ↔
    (s.hdr j).ihVer.rank x.useBuildNumber < (s.hdr i).ihVer.rank x.useBuildNumber := by
  rw [newerSlot, decide_eq_true_eq, bootCompareVersion_eq_one_iff]

theorem Choosing.picks (choosing : Choosing fl x s) :
    BestOf (slotRank x fl) s.slotAvailable (· ∈ bootSlots) (findSlotWithHighestVersion x s) := by
  have best : BestOf _ s.slotAvailable (· ∈ bootSlots) (findSlotWithHighestVersion x s) :=
    bestOf_firstBest newerSlot_iff bootSlots
  refine ⟨best.none_avail, best.usable, ?_⟩
  intro i found j mem usable
  have le := best.max i found j mem usable
  rwa [choosing.hdr j mem, choosing.hdr i (best.usable i found).1] at le

variable {s' : SlotState} {slot : Area}

theorem Choosing.tried (choosing : Choosing fl x s) (found : findSlotWithHighestVersion x s = some slot) :
    Tried x fl slot := by
  obtain ⟨mem, available⟩ := choosing.picks.usable slot found
  have left : ∀ a ∈ bootSlots, SlotPasses x fl a → s.slotAvailable a = true := by
    intro a mem passes
    by_contra gone
    exact choosing.struck a mem (fun candidate => gone candidate.2) passes
  refine ⟨choosing.header slot ⟨mem, available⟩,
    fun a mem passes => choosing.picks.max slot found a mem (left a mem passes), ?_⟩
  rintro rfl passes
  -- the search moves on from the primary slot to a higher version only
  have newer := (newerSlot_iff _ _).mp (better_of_second (by decide) (left .primary (by decide) passes) found)
  rwa [choosing.hdr .primary (by decide), choosing.hdr .secondary mem] at newer

theorem candidates_setUnavailable (same : s'.slotAvailable = s.slotAvailable) :
    (s'.setUnavailable slot).candidates = s.candidates \ {slot} := by
  ext a
  simp only [SlotState.candidates, SlotState.setUnavailable, same, Set.mem_ofPred_eq, Set.mem_sdiff,
    Set.mem_singleton_iff]
  by_cases eq : a = slot
  · simp [eq]
  · simp [eq]

theorem Choosing.strike (choosing : Choosing fl x s) (failed : ¬SlotPasses x fl slot)
    (works : WorksOn slot { s with activeSlot := some slot } s') : Choosing fl x (s'.setUnavailable slot) where
  idle := rfl
  hdr a mem := by
    show s'.hdr a = _
    rw [works.hdr]
    exact choosing.hdr a mem
  kept a candidate := by
    rw [candidates_setUnavailable works.available] at candidate
    show s'.flash a = _
    rw [works.others a candidate.2]
    exact choosing.kept a candidate.1
  header a candidate := by
    rw [candidates_setUnavailable works.available] at candidate
    exact choosing.header a candidate.1
  struck a mem gone := by
    rw [candidates_setUnavailable works.available] at gone
    by_cases eq : a = slot
    · rwa [eq]
    · exact choosing.struck a mem fun candidate => gone ⟨candidate, eq⟩

theorem length_setUnavailable (same : s'.slotAvailable = s.slotAvailable)
    (mem : slot ∈ bootSlots) (available : s.slotAvailable slot = true) :
    (bootSlots.filter (s'.setUnavailable slot).slotAvailable).length < (bootSlots.filter s.slotAvailable).length := by
  have filtered : bootSlots.filter (s'.setUnavailable slot).slotAvailable =
      (bootSlots.filter s.slotAvailable).filter (· ≠ slot) := by
    rw [List.filter_filter]
    apply List.filter_congr
    intro a _
    by_cases eq : a = slot
    · simp [SlotState.setUnavailable, eq]
    · simp [SlotState.setUnavailable, eq, same]
  rw [filtered, List.length_filter_lt_length_iff_exists]
  exact ⟨slot, List.mem_filter.mpr ⟨mem, available⟩, by simp⟩

/-- The loop ends when it is given more rounds than there are slots to try, and searches them from
the highest version down. -/
theorem loadAndValidateLoop_chooses {rounds : Nat} (copies : CopiesTlvInfo x fl) (choosing : Choosing fl x s)
    (enough : (bootSlots.filter s.slotAvailable).length < rounds) :
    ∃ ok s', loadAndValidateLoop x rounds s = some (ok, s') ∧
      Chooses (slotRank x fl) (SlotPasses x fl) s.candidates (if ok then s'.activeSlot else none) := by
  induction rounds generalizing s with
  | zero => omega
  | succ rounds ih =>
    have picks := choosing.picks
    rw [loadAndValidateLoop, choosing.idle, if_neg (by simp)]
    cases found : findSlotWithHighestVersion x s with
    | none =>
      refine ⟨false, s, rfl, .exhausted ?_⟩
      rintro a ⟨mem, available⟩
      rw [picks.none_avail found a mem] at available
      exact absurd available Bool.false_ne_true
    | some slot =>
      obtain ⟨mem, available⟩ := picks.usable slot found
      have candidate : slot ∈ s.candidates := ⟨mem, available⟩
      have max : ∀ a ∈ s.candidates, slotRank x fl a ≤ slotRank x fl slot :=
        fun a other => picks.max slot found a other.1 other.2
      have tried := @tryActiveSlot_spec x fl { s with activeSlot := some slot } slot (choosing.hdr slot mem)
        (choosing.kept slot candidate) (choosing.header slot candidate) copies mem (choosing.tried found)
      dsimp only
      rcases result : tryActiveSlot x { s with activeSlot := some slot } slot with ⟨verdict, s'⟩
      rw [result] at tried
      have works : WorksOn slot { s with activeSlot := some slot } s' := tried.1
      have passes : verdict = true ↔ SlotPasses x fl slot := tried.2
      cases verdict with
      | true =>
        refine ⟨true, s', rfl, ?_⟩
        rw [if_pos rfl, works.active]
        exact .pass candidate max (passes.mp rfl)
      | false =>
        have failed : ¬SlotPasses x fl slot := fun passed => Bool.false_ne_true (passes.mpr passed)
        have fewer := length_setUnavailable (s := s) works.available mem available
        obtain ⟨ok, t, ends, chooses⟩ := ih (choosing.strike failed works) (by omega)
        refine ⟨ok, t, ends, .fail candidate failed ?_⟩
        rwa [candidates_setUnavailable works.available] at chooses

theorem bootGetSlotUsage_choosing (x : SlotBuild) (fl : Flash) (ram : Nat → UInt8) :
    ∃ s, bootGetSlotUsage x (.init fl ram) = some s ∧ Choosing fl x s ∧
      ∀ a ∈ bootSlots, s.slotAvailable a = (SlotBuild.header fl a).bootCheckHeaderValid (x.board.faSize a) := by
  have read : ∀ a, flashAreaRead (x.board.area fl a) 0 imageHeaderSize =
      some ((List.range imageHeaderSize).map fun i => fl a (0 + i)) := by
    intro a
    exact flashAreaRead_of_le (x.header_fits a)
  rw [bootGetSlotUsage, readHeaders, SlotState.readHeader]
  simp only [SlotState.init, read, Option.map_some, SlotState.readHeader]
  have headers : ∀ a ∈ bootSlots, (if a = .secondary then SlotBuild.header fl .secondary
      else if a = .primary then SlotBuild.header fl .primary
      else .decode (List.replicate imageHeaderSize 0)) = SlotBuild.header fl a := by
    intro a mem
    rcases List.mem_pair.mp mem with rfl | rfl
    · rfl
    · rfl
  refine ⟨_, rfl, ⟨rfl, headers, fun _ _ => rfl, ?_, ?_⟩, ?_⟩
  · rintro a ⟨mem, available⟩
    rw [← headers a mem]
    exact available
  · intro a mem gone passes
    have valid := passes.header
    rw [← headers a mem] at valid
    exact gone ⟨mem, valid⟩
  · intro a mem
    rw [← headers a mem]
    rfl

end Loop

/-- The loader ends, succeeds exactly when some slot passes, and chooses the highest version among those, if no image
is loaded without the info header of its TLVs. -/
theorem slot_choice_highest (x : SlotBuild) (fl : Flash) (ram : Nat → UInt8) (copies : CopiesTlvInfo x fl) :
    ∃ out s, slotBootGo x fl ram = some (out, s) ∧ (out.isSome = true ↔ ∃ a ∈ bootSlots, SlotPasses x fl a) ∧
      ∀ a, out = some a → a ∈ bootSlots ∧ SlotPasses x fl a ∧
        ∀ a' ∈ bootSlots, SlotPasses x fl a' → slotRank x fl a' ≤ slotRank x fl a := by
  obtain ⟨s, usage, choosing, available⟩ := bootGetSlotUsage_choosing x fl ram
  obtain ⟨ok, s', ends, chooses⟩ := @loadAndValidateLoop_chooses x fl s (bootSlots.length + 1) copies choosing
    (Nat.lt_succ_of_le (List.length_filter_le _ _))
  have best := chooses.best
  -- a slot that passes has a valid header, so it is one of the candidates
  have candidate : ∀ a ∈ bootSlots, SlotPasses x fl a → a ∈ s.candidates :=
    fun a mem passes => ⟨mem, (available a mem).trans passes.header⟩
  refine ⟨if ok then s'.activeSlot else none, s', ?_, ?_, ?_⟩
  · rw [slotBootGo, usage]
    simp only [ends, Option.map_some]
    cases ok <;> rfl
  · rw [best.some_iff]
    constructor
    · rintro ⟨a, mem, passes⟩
      exact ⟨a, mem.1, passes⟩
    · rintro ⟨a, mem, passes⟩
      exact ⟨a, candidate a mem passes, passes⟩
  · intro a chosen
    obtain ⟨mem, passes⟩ := best.chosen a chosen
    exact ⟨mem.1, passes, fun a' member' passes' =>
      best.max a chosen a' (candidate a' member' passes') passes'⟩

/-- Images whose TLV areas say that they hold their info header are copied with it. -/
theorem copiesTlvInfo_of_read {x : SlotBuild} {fl : Flash}
    (counted : ∀ a ∈ bootSlots, (readImageSize (x.board.area fl a) (SlotBuild.header fl a) 0).all
      fun sizes => decide ((SlotBuild.header fl a).hashedSize + 4 ≤ sizes.1)) : CopiesTlvInfo x fl := by
  intro a mem _ execRam imgSz _ load
  obtain ⟨tlvSz, size⟩ := load.size
  have all := counted a mem
  rw [size] at all
  simpa using all

def ramLoadBuild : SlotBuild where
  board := Board.ofLayout .single 8 4 64 (fun _ => 0) (fun _ => List.replicate 4 128) Board.fourSectors_fits
  validate := hashBuild
  execRam := some ⟨0, 1024⟩
  slotOff _ := 0
  useBuildNumber := false
  header_fits a := by cases a <;> decide

def ramHeader (major : UInt8) : Bytes :=
  put32 imageMagic.toNat ++ put32 64 ++ put16 imageHeaderSize ++ put16 0 ++ put32 0 ++ put32 imageFRamLoad.toNat ++
    major :: List.replicate 11 0

def ramImage (major : UInt8) : Bytes :=
  ramHeader major ++ put16 0x6907 ++ put16 40 ++ tlvRecord 0x10 (sumDigest (ramHeader major))

def slotsOf (primary secondary : Bytes) : Flash := fun a i =>
  match a with
  | .primary => primary.getD i erasedVal
  | .secondary => secondary.getD i erasedVal
  | .scratch => erasedVal

/-- The secondary slot has the higher version and a digest of another image. -/
def damagedUpdate : Flash := slotsOf (ramImage 1) (ramHeader 2 ++ (ramImage 1).drop imageHeaderSize)

theorem slot_choice_highest_damaged :
    (slotBootGo ramLoadBuild damagedUpdate fun _ => 0).map (·.1) = some (some .primary) ∧
      ∃ out s, slotBootGo ramLoadBuild damagedUpdate (fun _ => 0) = some (out, s) ∧
        (out.isSome = true ↔ ∃ a ∈ bootSlots, SlotPasses ramLoadBuild damagedUpdate a) ∧
        ∀ a, out = some a → a ∈ bootSlots ∧ SlotPasses ramLoadBuild damagedUpdate a ∧
          ∀ a' ∈ bootSlots, SlotPasses ramLoadBuild damagedUpdate a' →
            slotRank ramLoadBuild damagedUpdate a' ≤ slotRank ramLoadBuild damagedUpdate a :=
  ⟨by decide +kernel, slot_choice_highest ramLoadBuild damagedUpdate (fun _ => 0)
    (copiesTlvInfo_of_read (by decide +kernel))⟩

/-- A loader that finds the TLVs of an earlier copy in RAM boots an image that its slot does not hold. -/
theorem image_completed_from_ram :
    (slotBootGo ramLoadBuild (slotsOf (ramHeader 1 ++ put16 0x6907 ++ put16 0) []) fun i =>
        (ramImage 1).getD (i - 64) 0).map (·.1) = some (some .primary) ∧
      ∀ a ∈ bootSlots, ¬SlotPasses ramLoadBuild (slotsOf (ramHeader 1 ++ put16 0x6907 ++ put16 0) []) a := by
  refine ⟨by decide +kernel, ?_⟩
  intro a mem passes
  rcases List.mem_pair.mp mem with rfl | rfl
  · exact absurd passes.valid (by decide +kernel)
  · exact absurd passes.header (by decide +kernel)

end Adaboot
