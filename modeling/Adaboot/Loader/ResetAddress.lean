import Adaboot.Swap.Offset

/-!
# The reset address of an update

With `MCUBOOT_VERIFY_IMG_ADDRESS`, `boot_validate_slot` erases an update whose reset vector is not in the primary
slot. The vector is read as if the image were at the start of the slot.
-/

namespace Adaboot

open Nor Crash

def resetOffset : Nat := 4

section Check

variable (b : LoaderBuild) (minAddr : Nat) (fl : Flash) (st : BootState)

/-- The word of the secondary slot that is `pos` bytes behind the start of the slot. -/
def slotWord (pos : Nat) : Option Nat := (flashAreaRead (b.board.area fl .secondary) pos 4).map (le32 · 0)

/-- What the loader reads into `internal_img_addr`. -/
def internalImgAddr : Option Nat := slotWord b fl (st.hdrSecondary.ihHdrSize.toNat + resetOffset)

def resetVector : Option Nat := slotWord b fl (st.startOff .secondary + (st.hdrSecondary.ihHdrSize.toNat + resetOffset))

/-- The address is in the primary slot, which starts at `minAddr`. -/
def inPrimarySlot (addr : Nat) : Prop := minAddr ≤ addr ∧ addr < u32 (b.board.faSize .primary + minAddr)

instance (addr : Nat) : Decidable (inPrimarySlot b minAddr addr) := inferInstanceAs (Decidable (_ ∧ _))

/-- The end of `boot_validate_slot` for a valid image in the secondary slot. -/
def verifyImgAddress : Boot FihRet := do
  let fl ← .get
  match internalImgAddr b fl st with
  | none => return .noBootableImage
  | some addr =>
    if inPrimarySlot b minAddr addr then return .success
    else
      -- the image may have been loaded to the wrong slot
      ignoreRc (bootScrambleSlot b.board .secondary)
      return .noBootableImage

/-- A correctly linked image is kept: its reset vector is in the primary slot, and the check passes it. -/
def KeepsLinked : Prop := ∀ addr, resetVector b fl st = some addr → inPrimarySlot b minAddr addr →
    wp (verifyImgAddress b minAddr st) (fun ret fl' => ret = .success ∧ fl' = fl) (fun _ _ => False) (· = fl) fl

variable {b minAddr fl st}

theorem keepsLinked_of_own (own : internalImgAddr b fl st = resetVector b fl st) : KeepsLinked b minAddr fl st := by
  intro addr vector linked
  unfold verifyImgAddress
  rw [wp_bind, wp_get, own, vector]
  simp only
  rw [if_pos linked, wp_pure]
  exact ⟨rfl, rfl⟩

end Check

/-- The address that is compared is the reset vector of the validated image if the image starts with the slot. -/
theorem reset_address_own (b : LoaderBuild) (fl : Flash) (st : BootState) (start : st.secondaryOffset = 0) :
    internalImgAddr b fl st = resetVector b fl st ∧ ∀ minAddr, KeepsLinked b minAddr fl st := by
  have own : internalImgAddr b fl st = resetVector b fl st := by
    rw [resetVector, BootState.startOff, if_pos rfl, start, Nat.zero_add]
    rfl
  exact ⟨own, fun _ => keepsLinked_of_own own⟩

def offsetAddressBuild : LoaderBuild where
  board := .ofLayout .offset 8 4 64 (fun _ => 0) (fun _ => List.replicate 4 128) Board.fourSectors_fits
  validate := hashBuild
  validatePrimarySlot := true

/-- An image for a primary slot at 0x1000, in the secondary slot from `start` on. -/
def linkedUpdate (start : Nat) : Flash := fun a i =>
  if a = .secondary ∧ start ≤ i then
    (packImage (put32 0x2000 ++ put32 0x1009)
      (tlvRecord 0x10 (sumDigest (packHeader (put32 0x2000 ++ put32 0x1009))))).getD (i - start) erasedVal
  else erasedVal

def linkedState (start : Nat) : BootState :=
  (SwapOffset.bootReadImageHeader offsetAddressBuild.board (linkedUpdate start) .clear .secondary
    (some (bootStatusReset offsetAddressBuild.board))).1

theorem reset_address_own_linked :
    resetVector offsetAddressBuild (linkedUpdate 0) (linkedState 0) = some 0x1009 ∧
      internalImgAddr offsetAddressBuild (linkedUpdate 0) (linkedState 0) = some 0x1009 ∧
      KeepsLinked offsetAddressBuild 0x1000 (linkedUpdate 0) (linkedState 0) := by
  obtain ⟨own, keeps⟩ := reset_address_own offsetAddressBuild (linkedUpdate 0) (linkedState 0) (by decide +kernel)
  have vector : resetVector offsetAddressBuild (linkedUpdate 0) (linkedState 0) = some 0x1009 := by decide +kernel
  exact ⟨vector, own.trans vector, keeps 0x1000⟩

/-- In the second sector it is erased. -/
theorem linked_update_erased :
    bootCheckImage offsetAddressBuild (SwapOffset.algo offsetAddressBuild) (linkedUpdate 128) (linkedState 128)
        .secondary = true ∧
      resetVector offsetAddressBuild (linkedUpdate 128) (linkedState 128) = some 0x1009 ∧
      inPrimarySlot offsetAddressBuild 0x1000 0x1009 ∧
      (verifyImgAddress offsetAddressBuild 0x1000 (linkedState 128) (linkedUpdate 128)).value = .ok .noBootableImage ∧
      (verifyImgAddress offsetAddressBuild 0x1000 (linkedState 128) (linkedUpdate 128)).state .secondary 128 =
        erasedVal := by
  decide +kernel

end Adaboot
