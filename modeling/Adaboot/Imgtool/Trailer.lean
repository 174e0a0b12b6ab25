import Adaboot.Trailer.Fields
import Mathlib.Tactic.Ring

/-!
# The trailer of `imgtool`

`imgtool` computes the size of the trailer on its own; its formula agrees with that of the boot loader only in part.
-/

namespace Adaboot.Imgtool

/-! ### Encryption -/

/-- How the key of an encrypted image is wrapped. -/
inductive KeyExchange where
  | rsa
  | ec256
  /-- With HMAC-SHA512 or with HMAC-SHA256. -/
  | x25519 (hmacSha512 : Bool)
deriving DecidableEq, Repr

/-- The encryption that an image is made with and a loader is built for. -/
structure Encryption where
  exchange : KeyExchange
  aes256 : Bool
deriving DecidableEq, Repr

/-- `BOOT_ENC_KEY_SIZE`, also the length of `plainkey` in `Image.create`. -/
def Encryption.keySize (enc : Encryption) : Nat := if enc.aes256 then 32 else 16

/-- `BOOT_ENC_TLV_SIZE`. -/
def Encryption.tlvSize (enc : Encryption) : Nat :=
  match enc.exchange with
  | .rsa => 256
  | .ec256 => 65 + 32 + enc.keySize
  | .x25519 hmacSha512 => 32 + (if hmacSha512 then 64 else 32) + enc.keySize

/-- `enctlv_len` after `Image.create`: the wrapped key, or the public key, the tag and the wrapped key. -/
def Encryption.enctlvLen (enc : Encryption) : Nat :=
  match enc.exchange with
  | .rsa => 2048 / 8
  | .ec256 => (1 + 2 * 32) + 256 / 8 + enc.keySize
  | .x25519 hmacSha512 => 32 + (if hmacSha512 then 512 else 256) / 8 + enc.keySize

theorem Encryption.enctlvLen_eq (enc : Encryption) : enc.enctlvLen = enc.tlvSize := by
  unfold enctlvLen tlvSize
  cases enc.exchange with
  | rsa => rfl
  | ec256 => rfl
  | x25519 hmacSha512 => cases hmacSha512 <;> rfl

/-! ### The image object -/

/-- The byte order that is asked for. -/
inductive Endian where
  | little
  | big
deriving DecidableEq, Repr

/-- The fields of an `Image` that the trailer depends on. -/
structure Image where
  align : Nat
  maxSectors : Option Nat
  overwriteOnly : Bool
  maxAlign : Nat
  slotSize : Nat
  erasedVal : UInt8
  enckey : Option Encryption
  saveEnctlv : Bool
  confirm : Bool
  test : Bool
  endian : Endian
  payload : Bytes

def defaultMaxSectors : Nat := 128

namespace Image

variable (img : Image)

def magicAlignSize : Nat := alignUp 16 img.maxAlign

def keylen (enc : Encryption) : Nat :=
  if img.saveEnctlv then alignUp enc.enctlvLen img.maxAlign else alignUp 16 img.maxAlign

def keysSize : Nat :=
  match img.enckey with
  | none => 0
  | some enc => img.keylen enc * 2

/-- `_trailer_size`. Other write sizes raise an exception. -/
def trailerSize : Option Nat :=
  if img.overwriteOnly then some (img.maxAlign * 2 + img.magicAlignSize)
  else if img.align ∉ [1, 2, 4, 8, 16, 32] then none
  else
    let m := img.maxSectors.getD defaultMaxSectors
    some (m * 3 * img.align + img.keysSize + img.maxAlign * 4 + img.magicAlignSize)

def checkTrailer : Bool :=
  if img.slotSize > 0 then
    match img.trailerSize with
    | none => false
    | some tsize => img.payload.length + tsize ≤ img.slotSize
  else true

end Image

/-! ### The trailer of a loader for encrypted images -/

/-- The keys that `boot_trailer_info_sz` counts. -/
def encTrailerSz (bd : Board) (saveEnctlv : Bool) : Option Encryption → Nat
  | none => 0
  | some enc => (if saveEnctlv then alignUp enc.tlvSize bd.maxAlign else alignUp enc.keySize bd.maxAlign) * 2

/-- `boot_trailer_sz` with `MCUBOOT_ENC_IMAGES`. -/
def bootTrailerSzEnc (bd : Board) (saveEnctlv : Bool) (enc : Option Encryption) (minWriteSz : Nat) : Nat :=
  bootStatusSz bd minWriteSz + (encTrailerSz bd saveEnctlv enc + bootTrailerInfoSz bd)

/-- The image is made with the settings that the loader is built with. -/
structure SameSettings (img : Image) (bd : Board) (saveEnctlv : Bool) (enc : Option Encryption) (minWriteSz : Nat) :
    Prop where
  writeSize : minWriteSz ∈ [1, 2, 4, 8, 16, 32]
  align : img.align = minWriteSz
  maxAlign : img.maxAlign = bd.maxAlign
  sectors : img.maxSectors.getD defaultMaxSectors = bd.maxImgSectors
  overwrite : img.overwriteOnly = true ↔ ∃ fast keepBackup, bd.mode = .overwrite fast keepBackup
  enckey : img.enckey = enc
  saveEnctlv : img.saveEnctlv = saveEnctlv

/-- What the two keys of an image for AES-256 lack: `imgtool` always counts 16 bytes for a key. -/
def keyShortage (bd : Board) (saveEnctlv : Bool) (enc : Option Encryption) : Nat :=
  match enc with
  | none => 0
  | some enc => if enc.aes256 ∧ saveEnctlv = false ∧ bd.maxAlign ≠ 32 then 32 else 0

/-- Where the status bytes that `imgtool` counts too many make up for what it does not count. -/
def EnoughForTrailer (bd : Board) (saveEnctlv : Bool) (enc : Option Encryption) (minWriteSz : Nat) : Prop :=
  match bd.mode with
  | .overwrite _ _ => False
  | .single => keyShortage bd saveEnctlv enc ≤ 3 * (bd.maxImgSectors * minWriteSz)
  | .offset => bd.maxAlign + keyShortage bd saveEnctlv enc ≤ bd.maxImgSectors * minWriteSz
  | .move | .scratch => keyShortage bd saveEnctlv enc = 0

section Sizes

variable {img : Image} {bd : Board} {saveEnctlv : Bool} {enc : Option Encryption} {minWriteSz : Nat}

theorem encTrailerSz_eq (same : SameSettings img bd saveEnctlv enc minWriteSz) :
    encTrailerSz bd saveEnctlv enc = img.keysSize + keyShortage bd saveEnctlv enc := by
  rw [Image.keysSize, same.enckey]
  cases enc with
  | none => rfl
  | some enc =>
    simp only [encTrailerSz, Image.keylen, keyShortage, same.saveEnctlv, same.maxAlign, enc.enctlvLen_eq]
    cases saveEnctlv with
    | true => simp
    | false =>
      rcases bd.maxAlign_eq with h | h | h <;> rw [h] <;> unfold Encryption.keySize <;> cases enc.aes256 <;> rfl

theorem check_leaves_iff {tsize : Nat} (size : img.trailerSize = some tsize) (pos : 0 < tsize) (bound : Nat) :
    (∀ slotSize payload, 0 < slotSize →
      ({ img with slotSize := slotSize, payload := payload } : Image).checkTrailer = true →
      payload.length + bound ≤ slotSize) ↔ bound ≤ tsize := by
  have check : ∀ slotSize payload, 0 < slotSize →
      (({ img with slotSize := slotSize, payload := payload } : Image).checkTrailer = true ↔
        payload.length + tsize ≤ slotSize) := by
    intro slotSize payload nonempty
    have same : ({ img with slotSize := slotSize, payload := payload } : Image).trailerSize = some tsize := size
    simp [Image.checkTrailer, same, nonempty]
  constructor
  · intro leaves
    have least := leaves tsize [] pos ((check tsize [] pos).mpr (by simp))
    simpa using least
  · intro le slotSize payload nonempty passes
    have fits := (check slotSize payload nonempty).mp passes
    omega

variable (same : SameSettings img bd saveEnctlv enc minWriteSz)
include same

theorem not_overwrite (swaps : img.overwriteOnly = false)
    (fast keepBackup : Bool) : bd.mode ≠ .overwrite fast keepBackup := fun mode => by
  simp [same.overwrite.mpr ⟨fast, keepBackup, mode⟩] at swaps

theorem trailerSize_enough :
    ∃ tsize, img.trailerSize = some tsize ∧ 0 < tsize ∧
      (bootTrailerSzEnc bd saveEnctlv enc minWriteSz ≤ tsize ↔ EnoughForTrailer bd saveEnctlv enc minWriteSz) := by
  have unit := bd.maxAlign_ge
  have magic : img.magicAlignSize = bd.magicAlignSize := by rw [Image.magicAlignSize, same.maxAlign]; rfl
  by_cases overwrite : img.overwriteOnly = true
  · obtain ⟨fast, keepBackup, mode⟩ := same.overwrite.mp overwrite
    refine ⟨bd.maxAlign * 2 + bd.magicAlignSize, ?_, by omega, ?_⟩
    · simp [Image.trailerSize, overwrite, same.maxAlign, magic]
    · simp only [EnoughForTrailer, mode, bootTrailerSzEnc, bootTrailerInfoSz, iff_false]
      omega
  · have swaps : img.overwriteOnly = false := by simpa using overwrite
    have keys := encTrailerSz_eq same
    -- The sizes differ by the keys, the status bytes and the field for TLV sizes.
    refine ⟨bd.maxImgSectors * 3 * minWriteSz + img.keysSize + bd.maxAlign * 4 + bd.magicAlignSize, ?_, ?_, ?_⟩
    · rw [Image.trailerSize, swaps, same.align, same.maxAlign, same.sectors, magic]
      simp only [Bool.false_eq_true, if_false, if_neg (not_not.mpr same.writeSize)]
    · omega
    · have three : bd.maxImgSectors * 3 * minWriteSz = 3 * (bd.maxImgSectors * minWriteSz) := by ring
      have entry : ∀ count, bd.maxImgSectors * (count * minWriteSz) = count * (bd.maxImgSectors * minWriteSz) := by
        intro count
        ring
      simp only [EnoughForTrailer, bootTrailerSzEnc, bootTrailerInfoSz, bootStatusSz, bootStatusEntrySz,
        Board.statusStateCount, keys, three]
      cases mode : bd.mode with
      | overwrite fast keepBackup => exact absurd mode (not_overwrite same swaps fast keepBackup)
      | single => simp; omega
      | offset => simp [entry]; omega
      | move => simp [entry]; omega
      | scratch => simp [entry]; omega

end Sizes

/-- An image that passes leaves the trailer free exactly if the loader has no more trailer than `imgtool` counts. -/
theorem check_trailer_leaves_trailer_iff (img : Image) (bd : Board) (saveEnctlv : Bool) (enc : Option Encryption)
    (minWriteSz : Nat) (same : SameSettings img bd saveEnctlv enc minWriteSz) : (∀ slotSize payload, 0 < slotSize →
      ({ img with slotSize := slotSize, payload := payload } : Image).checkTrailer = true →
      payload.length + bootTrailerSzEnc bd saveEnctlv enc minWriteSz ≤ slotSize) ↔
      EnoughForTrailer bd saveEnctlv enc minWriteSz := by
  obtain ⟨tsize, size, pos, enough⟩ := trailerSize_enough same
  exact (check_leaves_iff size pos _).trans enough

def moveBoard : Board := .ofLayout .move 8 4 64 (fun _ => 0) (fun _ => List.replicate 4 128) Board.fourSectors_fits

def moveImage (enckey : Option Encryption) (payload : Bytes) : Image where
  align := 1
  maxSectors := some 4
  overwriteOnly := false
  maxAlign := 8
  slotSize := 512
  erasedVal := 0xff
  enckey := enckey
  saveEnctlv := false
  confirm := false
  test := false
  endian := .little
  payload := payload

theorem moveImage_same (enc : Option Encryption) : SameSettings (moveImage enc []) moveBoard false enc 1 :=
  ⟨by decide, rfl, rfl, rfl, by simp [moveImage, moveBoard, Board.ofLayout], rfl, rfl⟩

/-- With keys of 128 bits there is always room. -/
theorem check_trailer_leaves_trailer_aes128 :
    EnoughForTrailer moveBoard false (some ⟨.ec256, false⟩) 1 ∧ ∀ slotSize payload, 0 < slotSize →
      ({ moveImage (some ⟨.ec256, false⟩) [] with slotSize := slotSize, payload := payload } : Image).checkTrailer =
        true →
      payload.length + bootTrailerSzEnc moveBoard false (some ⟨.ec256, false⟩) 1 ≤ slotSize :=
  have enough : EnoughForTrailer moveBoard false (some ⟨.ec256, false⟩) 1 :=
    (by decide : keyShortage moveBoard false (some ⟨.ec256, false⟩) = 0)
  ⟨enough, (check_trailer_leaves_trailer_iff (moveImage (some ⟨.ec256, false⟩) []) moveBoard false
    (some ⟨.ec256, false⟩) 1 (moveImage_same _)).mpr enough⟩

/-- With keys of 256 bits an image of 420 bytes passes, and ends 32 bytes behind the start of the trailer. -/
theorem check_trailer_misses_aes256 :
    SameSettings (moveImage (some ⟨.ec256, true⟩) []) moveBoard false (some ⟨.ec256, true⟩) 1 ∧
      (moveImage (some ⟨.ec256, true⟩) (List.replicate 420 0)).checkTrailer = true ∧
      420 + bootTrailerSzEnc moveBoard false (some ⟨.ec256, true⟩) 1 = 512 + 32 := by
  refine ⟨moveImage_same _, ?_, by decide⟩
  decide +kernel

end Adaboot.Imgtool
