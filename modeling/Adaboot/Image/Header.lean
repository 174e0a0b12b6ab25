import Adaboot.Nor.Flash
import Mathlib.Algebra.Ring.Nat

/-!
# Image headers

The layout of `struct image_header` (`image.h`), its decoding from flash, and the checks the
loader makes on a header before it looks at the image behind it (`bootutil_loader.c`).
-/

namespace Adaboot

abbrev Bytes : Type := List UInt8

/-- A flash area as readers see it. Sizes and offsets are `uint32_t` in the source. -/
structure FlashArea where
  faSize : Nat
  byte : Nat → UInt8
  faSize_lt : faSize < 2 ^ 32

/-- `flash_area_read`: fails when the range leaves the area. -/
def flashAreaRead (fap : FlashArea) (off len : Nat) : Option Bytes :=
  if off + len ≤ fap.faSize then some ((List.range len).map fun i => fap.byte (off + i)) else none

variable {fap : FlashArea} {off len a b : Nat}

theorem flashAreaRead_eq_some {data : Bytes}
    (read : flashAreaRead fap off len = some data) :
    off + len ≤ fap.faSize ∧ data = (List.range len).map fun i => fap.byte (off + i) := by
  unfold flashAreaRead at read
  split at read
  next fits => exact ⟨fits, (Option.some.inj read).symm⟩
  next => simp at read

theorem flashAreaRead_of_le (fits : off + len ≤ fap.faSize) :
    flashAreaRead fap off len = some ((List.range len).map fun i => fap.byte (off + i)) :=
  if_pos fits

/-- Truncation to `uint32_t`. -/
def u32 (n : Nat) : Nat := n % 2 ^ 32

theorem u32_of_lt {n : Nat} (lt : n < 2 ^ 32) : u32 n = n := Nat.mod_eq_of_lt lt

theorem u32_lt (n : Nat) : u32 n < 2 ^ 32 := Nat.mod_lt _ (by decide)

def bootU32SafeAdd (a b : Nat) : Option Nat :=
  if a > 2 ^ 32 - 1 - b then none else some (a + b)

theorem bootU32SafeAdd_eq_some {c : Nat} (added : bootU32SafeAdd a b = some c) : c = a + b := by
  unfold bootU32SafeAdd at added
  split at added
  next => simp at added
  next => exact (Option.some.inj added).symm

theorem bootU32SafeAdd_of_lt (lt : a + b < 2 ^ 32) : bootU32SafeAdd a b = some (a + b) := if_neg (by omega)

/-- A little-endian 16-bit field at byte `i`. -/
def le16 (data : Bytes) (i : Nat) : Nat := (data.getD i 0).toNat + 256 * (data.getD (i + 1) 0).toNat

/-- A little-endian 32-bit field at byte `i`. -/
def le32 (data : Bytes) (i : Nat) : Nat := le16 data i + 65536 * le16 data (i + 2)

theorem le16_lt (data : Bytes) (i : Nat) : le16 data i < 65536 := by
  unfold le16
  have := (data.getD i 0).toNat_lt
  have := (data.getD (i + 1) 0).toNat_lt
  omega

structure ImageVersion where
  ivMajor : UInt8
  ivMinor : UInt8
  ivRevision : UInt16
  ivBuildNum : UInt32
deriving DecidableEq, Repr

/-- `struct image_header`. -/
structure ImageHeader where
  ihMagic : UInt32
  ihLoadAddr : UInt32
  ihHdrSize : UInt16
  ihProtectTlvSize : UInt16
  ihImgSize : UInt32
  ihFlags : UInt32
  ihVer : ImageVersion
deriving DecidableEq, Repr

def imageMagic : UInt32 := 0x96f3b83d
def imageHeaderSize : Nat := 32
def imageFEncryptedAes128 : UInt32 := 0x4
def imageFEncryptedAes256 : UInt32 := 0x8
def imageFNonBootable : UInt32 := 0x10
def compressionFlags : UInt32 := 0x200 ||| 0x400 ||| 0x800

namespace ImageHeader

/-- The header in the `imageHeaderSize` bytes read from flash. -/
def decode (data : Bytes) : ImageHeader where
  ihMagic := .ofNat (le32 data 0)
  ihLoadAddr := .ofNat (le32 data 4)
  ihHdrSize := .ofNat (le16 data 8)
  ihProtectTlvSize := .ofNat (le16 data 10)
  ihImgSize := .ofNat (le32 data 12)
  ihFlags := .ofNat (le32 data 16)
  ihVer :=
    { ivMajor := data.getD 20 0
      ivMinor := data.getD 21 0
      ivRevision := .ofNat (le16 data 22)
      ivBuildNum := .ofNat (le32 data 24) }

def isEncrypted (hdr : ImageHeader) : Bool :=
  hdr.ihFlags &&& imageFEncryptedAes128 != 0 || hdr.ihFlags &&& imageFEncryptedAes256 != 0

def isCompressed (hdr : ImageHeader) : Bool := hdr.ihFlags &&& compressionFlags != 0

/-- Header, body and protected TLVs: the part of the image that the digest covers. -/
def hashedSize (hdr : ImageHeader) : Nat := hdr.ihHdrSize.toNat + hdr.ihImgSize.toNat + hdr.ihProtectTlvSize.toNat

def bootCheckHeaderErased (hdr : ImageHeader) : Bool := hdr.ihMagic == 0xffffffff

/-- `boot_check_header_valid`, in builds without encrypted or compressed images. -/
def bootCheckHeaderValid (hdr : ImageHeader) (faSize : Nat) : Bool :=
  if hdr.ihMagic ≠ imageMagic then false
  else match bootU32SafeAdd hdr.ihImgSize.toNat hdr.ihHdrSize.toNat with
    | none => false
    | some size => match bootU32SafeAdd size hdr.ihProtectTlvSize.toNat with
      | none => false
      | some size =>
        if size ≥ faSize then false
        else if hdr.isEncrypted then false
        else if hdr.isCompressed then false
        else true

theorem bootCheckHeaderValid_iff (hdr : ImageHeader) {faSize : Nat} (lt : faSize < 2 ^ 32) :
    hdr.bootCheckHeaderValid faSize = true ↔ hdr.ihMagic = imageMagic ∧ hdr.hashedSize < faSize ∧
        hdr.isEncrypted = false ∧ hdr.isCompressed = false := by
  unfold bootCheckHeaderValid hashedSize
  constructor
  · intro valid
    split at valid
    next => simp at valid
    next magic =>
    split at valid
    next => simp at valid
    next s₁ h₁ =>
    split at valid
    next => simp at valid
    next s₂ h₂ =>
      obtain rfl := bootU32SafeAdd_eq_some h₁
      obtain rfl := bootU32SafeAdd_eq_some h₂
      split_ifs at valid with size enc comp
      exact ⟨Decidable.not_not.mp magic, by omega, by simpa using enc, by simpa using comp⟩
  · rintro ⟨magic, size, enc, comp⟩
    rw [if_neg (Decidable.not_not.mpr magic), bootU32SafeAdd_of_lt (by omega)]
    simp only
    rw [bootU32SafeAdd_of_lt (by omega)]
    simp only [enc, comp]
    rw [if_neg (by omega)]
    simp

end ImageHeader

end Adaboot
