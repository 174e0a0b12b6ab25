import Adaboot.Erase
import Adaboot.Loader.State

/-!
# Decryption in place

After an upload to the primary slot an encrypted image is decrypted where it is (`boot_serial_encryption.c`); an
upgrade decrypts it while it copies it (`boot_copy_region`). Both compute which part of a buffer is body, and they do
so differently.
-/

namespace Adaboot.SerialEncryption

open Crash Nor

/-- AES-CTR with the key of an image (`bootutil_aes_ctr_*`), given by the bytes of its key stream. It honours every
`blk_off`, the back ends only 0. -/
abbrev KeyStream : Type := Nat → UInt8

/-- What `boot_enc_decrypt` is asked to do: `blkSz` bytes from `idx` on, with the key stream from the block of `off` on
and `blkOff` bytes into it. -/
structure Window where
  idx : Nat
  blkSz : Nat
  off : Nat
  blkOff : Nat
deriving DecidableEq, Repr

/-- `boot_enc_decrypt`. There is no result if it leaves the buffer. -/
def bootEncDecrypt (ks : KeyStream) (w : Window) (buf : Bytes) : Option Bytes :=
  if w.blkSz = 0 then some buf
  else if w.idx + w.blkSz ≤ buf.length then
    some (buf.mapIdx fun i byte =>
      if w.idx ≤ i ∧ i < w.idx + w.blkSz then byte ^^^ ks (16 * (w.off / 16) + w.blkOff + (i - w.idx))
      else byte)
  else none

/-- `boot_enc_encrypt`: in counter mode the same. -/
def bootEncEncrypt : KeyStream → Window → Bytes → Option Bytes := bootEncDecrypt

theorem bootEncDecrypt_length {ks : KeyStream} {w : Window} {buf buf' : Bytes}
    (decrypted : bootEncDecrypt ks w buf = some buf') : buf'.length = buf.length := by
  unfold bootEncDecrypt at decrypted
  split_ifs at decrypted
  · rw [← Option.some.inj decrypted]
  · rw [← Option.some.inj decrypted, List.length_mapIdx]

/-! ### The two windows -/

section Windows

variable (hdr : ImageHeader) (off chunkSz : Nat)

/-- The window of `decrypt_region_inplace` for a buffer read from `off`. -/
def inplaceWindow : Window :=
  let hdrSize := hdr.ihHdrSize.toNat
  let tlvOff := bootTlvOff hdr
  -- the header ends at `hdrSize` in the image, not in the buffer
  let idx := if off < hdrSize then hdrSize else 0
  let blkOff := if off < hdrSize then 0 else (off - hdrSize) % 16
  let blkSz :=
    if off + chunkSz > tlvOff then
      if off ≥ tlvOff then 0 else tlvOff - off
    else if off < hdrSize then
      if hdrSize > off + chunkSz then 0 else off + chunkSz - hdrSize
    else chunkSz
  { idx, blkSz, off := off + idx - hdrSize, blkOff }

/-- The window of `boot_copy_region` for a buffer that goes to `off`. -/
def copyWindow : Window :=
  let hdrSize := hdr.ihHdrSize.toNat
  let tlvOff := bootTlvOff hdr
  if off < hdrSize ∧ off + chunkSz ≤ hdrSize then ⟨0, 0, 0, 0⟩
  else
    let idx := if off < hdrSize then hdrSize - off else 0
    let blkOff := if off < hdrSize then 0 else (off - hdrSize) % 16
    let blkSz := if off < hdrSize then chunkSz - (hdrSize - off) else chunkSz
    if blkSz > 0 ∧ off + chunkSz > tlvOff then
      { idx, blkSz := if off ≥ tlvOff then 0 else tlvOff - off - idx, off := off + idx - hdrSize, blkOff }
    else { idx, blkSz, off := off + idx - hdrSize, blkOff }

end Windows

/-! ### The programs -/

section Programs

variable (bd : Board) (ks : KeyStream) (hdr : ImageHeader)

/-- `decrypt_region_inplace`, with one round as its buffer holds the region. A write outside the buffer stops the
model. -/
def decryptRegionInplace (a : Area) (off sz : Nat) : Boot Unit := do
  let fl ← .get
  match flashAreaRead (bd.area fl a) off sz with
  | none => .throw .eflash
  | some buf =>
    match if hdr.isEncrypted then bootEncDecrypt ks (inplaceWindow hdr off sz) buf else some buf with
    | none => .throw .panic
    | some buf => do
      bootEraseRegion bd a off sz false
      flashAreaWrite bd a off buf

/-- The loop of `decrypt_image_inplace` over the sectors. -/
def inplaceLoop (a : Area) (srcSize sectSize sectCount : Nat) : Nat → Nat → Nat → Boot Unit
  | 0, _, _ => pure ()
  | fuel + 1, sect, size =>
    if size < srcSize ∧ sect < sectCount then do
      decryptRegionInplace bd ks hdr a size sectSize
      inplaceLoop a srcSize sectSize sectCount fuel (sect + 1) (size + sectSize)
    else pure ()

/-- The loop of `boot_copy_region` in a build with `MCUBOOT_ENC_IMAGES`, into the primary slot. -/
def decryptCopyLoop (src : Area) (offSrc offDst sz : Nat) : Nat → Nat → Boot Unit
  | 0, _ => .throw .panic
  | fuel + 1, bytesCopied =>
    if bytesCopied < sz then do
      let chunkSz := if sz - bytesCopied > bd.bufSz then bd.bufSz else sz - bytesCopied
      let fl ← .get
      match flashAreaRead (bd.area fl src) (offSrc + bytesCopied) chunkSz with
      | none => .throw .eflash
      | some buf =>
        match if hdr.isEncrypted then bootEncDecrypt ks (copyWindow hdr (offDst + bytesCopied) chunkSz) buf
          else some buf with
        | none => .throw .panic
        | some buf => do
          flashAreaWrite bd .primary (offDst + bytesCopied) buf
          decryptCopyLoop src offSrc offDst sz fuel (bytesCopied + chunkSz)
    else pure ()

/-- The loop of `boot_copy_region` between the primary slot and another area, with the header and the key of the
source. -/
def cryptCopyLoop (src dst : Area) (offSrc offDst sz sectorOff : Nat) : Nat → Nat → Boot Unit
  | 0, _ => .throw .panic
  | fuel + 1, bytesCopied =>
    if bytesCopied < sz then do
      let chunkSz := if sz - bytesCopied > bd.bufSz then bd.bufSz else sz - bytesCopied
      let fl ← .get
      match flashAreaRead (bd.area fl src) (offSrc + bytesCopied) chunkSz with
      | none => .throw .eflash
      | some buf =>
        let absOff := u32 (offDst + 2 ^ 32 - sectorOff + bytesCopied)
        let window := copyWindow hdr absOff chunkSz
        match if hdr.isEncrypted then
            if dst = .primary then bootEncDecrypt ks window buf else bootEncEncrypt ks window buf
          else some buf with
        | none => .throw .panic
        | some buf => do
          flashAreaWrite bd dst (offDst + bytesCopied) buf
          cryptCopyLoop src dst offSrc offDst sz sectorOff fuel (bytesCopied + chunkSz)
    else pure ()

/-- `boot_copy_region` from the secondary to the primary slot. -/
def bootCopyRegionDecrypt (offSrc offDst sz : Nat) : Boot Unit :=
  decryptCopyLoop bd ks hdr .secondary offSrc offDst sz (sz + 1) 0

end Programs

/-- `decrypt_image_inplace`, with the key stream of the key that `boot_enc_load` finds. -/
def decryptImageInplace (bd : Board) (key : Option KeyStream) (hdr : ImageHeader) (a : Area) : Boot Unit := do
  let statusOff ← statusOff bd a
  match sectorAt (bd.layout a) statusOff with
  | none => .throw .eflash
  | some (_, sectSize) =>
    if hdr.isEncrypted then
      match key with
      | none => .throw .ebadimage
      | some ks => do
        let fl ← .get
        match readImageSize (bd.area fl a) hdr 0 with
        | none => .throw .ebadimage
        | some (srcSize, _) =>
          inplaceLoop bd ks hdr a srcSize sectSize (bd.faSize a / sectSize) (bd.faSize a / sectSize) 0 0
    else .throw .ebadimage

/-! ### What is to be done -/

/-- A byte of the image: the body is decrypted. -/
def plainByte (hdr : ImageHeader) (ks : KeyStream) (p : Nat) (byte : UInt8) : UInt8 :=
  if hdr.ihHdrSize.toNat ≤ p ∧ p < bootTlvOff hdr then byte ^^^ ks (p - hdr.ihHdrSize.toNat) else byte

/-- The window is the body of the image within a buffer of `len` bytes at `off`. -/
structure Window.Covers (w : Window) (hdr : ImageHeader) (off len : Nat) : Prop where
  inside : w.blkSz = 0 ∨ w.idx + w.blkSz ≤ len
  body : ∀ i, i < len → ((w.idx ≤ i ∧ i < w.idx + w.blkSz) ↔ (hdr.ihHdrSize.toNat ≤ off + i ∧ off + i < bootTlvOff hdr))
  stream : ∀ i, w.idx ≤ i → i < w.idx + w.blkSz →
    16 * (w.off / 16) + w.blkOff + (i - w.idx) = off + i - hdr.ihHdrSize.toNat

section Covers

variable {hdr : ImageHeader} {ks : KeyStream} {w : Window} {off len : Nat} {buf : Bytes}

theorem Window.Covers.decrypt (covers : w.Covers hdr off len) (length : buf.length = len) :
    bootEncDecrypt ks w buf = some (buf.mapIdx fun i byte => plainByte hdr ks (off + i) byte) := by
  have bytes : (buf.mapIdx fun i byte =>
      if w.idx ≤ i ∧ i < w.idx + w.blkSz then byte ^^^ ks (16 * (w.off / 16) + w.blkOff + (i - w.idx))
      else byte) = buf.mapIdx fun i byte => plainByte hdr ks (off + i) byte := by
    apply List.ext_getElem (by simp)
    intro i lt _
    rw [List.length_mapIdx, length] at lt
    simp only [List.getElem_mapIdx, plainByte]
    by_cases within : w.idx ≤ i ∧ i < w.idx + w.blkSz
    · rw [if_pos within, if_pos ((covers.body i lt).mp within), covers.stream i within.1 within.2]
    · rw [if_neg within, if_neg fun body => within ((covers.body i lt).mpr body)]
  unfold bootEncDecrypt
  by_cases none : w.blkSz = 0
  · rw [if_pos none, ← bytes]
    congr 1
    apply List.ext_getElem (by simp)
    intro i _ _
    simp [none, show ¬ (w.idx ≤ i ∧ i < w.idx) by omega]
  · rw [if_neg none, if_pos (length ▸ covers.inside.resolve_left none), bytes]

variable (ordered : hdr.ihHdrSize.toNat ≤ bootTlvOff hdr)
include ordered

theorem copyWindow_covers (off len : Nat) :
    (copyWindow hdr off len).Covers hdr off len := by
  unfold copyWindow
  refine ⟨?_, fun i lt => ?_, fun i low high => ?_⟩ <;> simp only at * <;> split_ifs at * <;> simp only at * <;>
    omega

/-- Right unless the header ends inside a buffer that is not at the start of the image or reaches into the TLVs. -/
theorem inplaceWindow_covers
    (apart : off < hdr.ihHdrSize.toNat → hdr.ihHdrSize.toNat < off + len → off = 0 ∧ len ≤ bootTlvOff hdr) :
    (inplaceWindow hdr off len).Covers hdr off len := by
  unfold inplaceWindow
  refine ⟨?_, fun i lt => ?_, fun i low high => ?_⟩ <;> simp only at * <;> split_ifs at * <;> omega

end Covers

/-! ### Sectors -/

def overwritten (fl : Flash) (a : Area) (off : Nat) (data : Bytes) : Flash := fun a' p =>
  if a' = a ∧ off ≤ p ∧ p < off + data.length then data.getD (p - off) 0 else fl a' p

theorem program_erase (fl : Flash) (a : Area) (off : Nat) (data : Bytes) :
    (fl.erase a off data.length).program a off data = overwritten fl a off data := by
  funext a' p
  unfold overwritten
  split
  next within =>
    obtain ⟨rfl, low, high⟩ := within
    obtain ⟨i, rfl⟩ : ∃ i, p = off + i := ⟨p - off, by omega⟩
    rw [Flash.program_erased _ _ (by omega) (Flash.erase_inside _ _ low high), Nat.add_sub_cancel_left]
  next out =>
    have outside : a' = a → p < off ∨ off + data.length ≤ p := fun eq => by
      by_contra within
      exact out ⟨eq, by omega⟩
    rw [Flash.program_outside _ outside, Flash.erase_outside _ outside]

section Sectors

variable {bd : Board} {a : Area} {hdr : ImageHeader} {ks : KeyStream} {n S k : Nat} {fl : Flash}
  {Q : Unit → Flash → Prop} {E : BootErr → Flash → Prop} (uniform : bd.layout a = List.replicate n S)
include uniform

theorem faSize_uniform : bd.faSize a = n * S := by
  rw [Board.faSize, uniform, List.sum_replicate_nat]

theorem sector_fits (lt : k < n) : k * S + S ≤ bd.faSize a := by
  have fits : (k + 1) * S ≤ n * S := Nat.mul_le_mul_right S lt
  rwa [Nat.succ_mul, ← faSize_uniform uniform] at fits

theorem flashAreaRead_sector (lt : k < n) :
    flashAreaRead (bd.area fl a) (k * S) S = some (fl.read a (k * S) S) :=
  flashAreaRead_of_le (sector_fits uniform lt)

theorem rewriteSector_wp (lt : k < n) {data : Bytes} (length : data.length = S)
    (post : Q () (overwritten fl a (k * S) data)) :
    wp (do
        bootEraseRegion bd a (k * S) S false
        flashAreaWrite bd a (k * S) data) Q E (fun _ => True) fl := by
  have count : bd.numSectors a = n := by simp [Board.numSectors, uniform]
  have start : bd.sectorOff a k = k * S := by
    rw [Board.sectorOff, uniform, sectorOff_replicate (by omega)]
  have sector : bd.sectorSize a k = S := by rw [Board.sectorSize, uniform, sectorSize_replicate lt]
  have fits := sector_fits uniform lt
  have erase : ∀ {Q' : Unit → Flash → Prop}, Q' () (fl.erase a (k * S) S) →
      wp (bootEraseRegion bd a (k * S) S false) Q' E (fun _ => True) fl := by
    intro Q' post'
    have sector_wp : wp (bootEraseRegion bd a (bd.sectorOff a k) (bd.sectorSize a k) false) Q' E
        (fun _ => True) fl := bootEraseSector_wp (by omega) trivial (by rwa [start, sector])
    rwa [start, sector] at sector_wp
  rw [wp_bind]
  apply erase
  rw [wp_flashAreaWrite (by omega)]
  refine ⟨trivial, ?_⟩
  have replaced := program_erase fl a (k * S) data
  rw [length] at replaced
  rwa [replaced]

omit uniform

/-- The image is decrypted as far as `bound`. -/
def plainTo (hdr : ImageHeader) (ks : KeyStream) (a : Area) (bound : Nat) (fl : Flash) : Flash := fun a' p =>
  if a' = a ∧ p < bound then plainByte hdr ks p (fl a' p) else fl a' p

theorem plainTo_zero : plainTo hdr ks a (0 * S) fl = fl := by
  funext a' p
  simp [plainTo]

def plainFlash (hdr : ImageHeader) (ks : KeyStream) (a : Area) (fl : Flash) : Flash := fun a' p =>
  if a' = a then plainByte hdr ks p (fl a' p) else fl a' p

theorem plainTo_eq {bound : Nat} (le : bootTlvOff hdr ≤ bound) :
    plainTo hdr ks a bound fl = plainFlash hdr ks a fl := by
  funext a' p
  unfold plainTo plainFlash
  by_cases eq : a' = a
  · by_cases below : p < bound
    · rw [if_pos ⟨eq, below⟩, if_pos eq]
    · rw [if_neg fun h => below h.2, if_pos eq, plainByte, if_neg (by omega)]
  · rw [if_neg fun h => eq h.1, if_neg eq]

variable (encrypted : hdr.isEncrypted = true)
include encrypted uniform

theorem decryptRegionInplace_wp (lt : k < n)
    (covers : (inplaceWindow hdr (k * S) S).Covers hdr (k * S) S) : wp (decryptRegionInplace bd ks hdr a (k * S) S)
      (fun _ fl' => fl' = plainTo hdr ks a ((k + 1) * S) fl) E (fun _ => True) (plainTo hdr ks a (k * S) fl) := by
  have length : ((plainTo hdr ks a (k * S) fl).read a (k * S) S).length = S := by simp [Flash.read]
  unfold decryptRegionInplace
  rw [wp_bind, wp_get, flashAreaRead_sector uniform lt]
  simp only [encrypted, if_true]
  rw [covers.decrypt length]
  refine rewriteSector_wp uniform lt (by rw [List.length_mapIdx, length]) ?_
  funext a' p
  unfold overwritten
  rw [List.length_mapIdx, length]
  split
  next within =>
    obtain ⟨rfl, low, high⟩ := within
    obtain ⟨i, rfl⟩ : ∃ i, p = k * S + i := ⟨p - k * S, by omega⟩
    have inside : i < S := by omega
    simp only [plainTo, Nat.add_sub_cancel_left, List.getD, Flash.read, List.getElem?_mapIdx,
      List.getElem?_map, List.getElem?_range inside, Option.map_some, Option.getD_some, true_and,
      if_neg (show ¬ k * S + i < k * S by omega),
      if_pos (show k * S + i < (k + 1) * S by rw [Nat.add_mul, Nat.one_mul]; omega)]
  next out =>
    unfold plainTo
    by_cases eq : a' = a
    · by_cases below : p < k * S
      · rw [if_pos ⟨eq, below⟩, if_pos ⟨eq, by rw [Nat.add_mul, Nat.one_mul]; omega⟩]
      · rw [if_neg fun h => below h.2, if_neg fun h => out ⟨eq, by omega, by
          have := h.2
          rw [Nat.add_mul, Nat.one_mul] at this
          omega⟩]
    · rw [if_neg fun h => eq h.1, if_neg fun h => eq h.1]

theorem inplaceLoop_wp {srcSize fuel : Nat} (fits : srcSize ≤ n * S) (enough : n ≤ k + fuel)
    (covers : ∀ j, j < n → j * S < srcSize → (inplaceWindow hdr (j * S) S).Covers hdr (j * S) S) :
    wp (inplaceLoop bd ks hdr a srcSize S n fuel k (k * S))
      (fun _ fl' => ∃ m, fl' = plainTo hdr ks a (m * S) fl ∧ srcSize ≤ m * S) E (fun _ => True)
      (plainTo hdr ks a (k * S) fl) := by
  induction fuel generalizing k with
  | zero =>
    rw [inplaceLoop, wp_pure]
    exact ⟨k, rfl, fits.trans (Nat.mul_le_mul_right S (by omega))⟩
  | succ fuel ih =>
    rw [inplaceLoop]
    split
    next more =>
      rw [wp_bind]
      refine wp_imp (decryptRegionInplace_wp uniform encrypted more.2 (covers k more.2 more.1)) ?_
      rintro _ _ rfl
      have := ih (k := k + 1) (by omega)
      rwa [Nat.add_mul, Nat.one_mul] at this ⊢
    next done =>
      rw [wp_pure]
      refine ⟨k, rfl, ?_⟩
      by_cases below : k * S < srcSize
      · have last : n ≤ k := not_lt.mp fun lt => done ⟨below, lt⟩
        exact fits.trans (Nat.mul_le_mul_right S last)
      · omega

end Sectors

/-! ### Whole images -/

/-- The primary slot has an encrypted image of this size with its TLVs. -/
structure EncryptedImage (bd : Board) (hdr : ImageHeader) (fl : Flash) (size : Nat) : Prop where
  encrypted : hdr.isEncrypted = true
  tlvOff : bootTlvOff hdr = hdr.ihHdrSize.toNat + hdr.ihImgSize.toNat
  read : ∃ tlvs, readImageSize (bd.area fl .primary) hdr 0 = some (size, tlvs)
  le : bootTlvOff hdr ≤ size
  fits : size ≤ bd.faSize .primary

theorem bootTrailerSzOf_pos (bd : Board) (a : Area) : 0 < bootTrailerSzOf bd a := by
  have := magicAlignSize_ge bd
  unfold bootTrailerSzOf bootTrailerSz bootScratchTrailerSz bootTrailerInfoSz
  split <;> omega

section Images

variable {bd : Board} {hdr : ImageHeader} {ks : KeyStream} {n S size : Nat} {fl : Flash}
  {Q : Unit → Flash → Prop} {E : BootErr → Flash → Prop}

theorem EncryptedImage.ordered (image : EncryptedImage bd hdr fl size) : hdr.ihHdrSize.toNat ≤ bootTlvOff hdr := by
  rw [image.tlvOff]
  omega

variable (uniform : bd.layout .primary = List.replicate n S) (room : bootTrailerSzOf bd .primary ≤ bd.faSize .primary)
  (image : EncryptedImage bd hdr fl size)
include uniform room image

theorem decryptImageInplace_wp_iff :
    wp (decryptImageInplace bd (some ks) hdr .primary) Q E (fun _ => True) fl ↔
      wp (inplaceLoop bd ks hdr .primary size S n n 0 0) Q E (fun _ => True) fl := by
  have trailer := bootTrailerSzOf_pos bd .primary
  have area := faSize_uniform uniform
  have status_lt : bootStatusOff bd .primary < (bd.layout .primary).sum := by
    change _ < bd.faSize .primary
    unfold bootStatusOff
    omega
  obtain ⟨⟨start, sectSize⟩, found⟩ := sectorAt_isSome status_lt
  obtain ⟨i, lt, _, sector, _⟩ := sectorAt_eq_some found
  rw [uniform, List.length_replicate] at lt
  rw [uniform, sectorSize_replicate lt] at sector
  subst sector
  have pos : 0 < sectSize := by
    have ne : n * sectSize ≠ 0 := by omega
    exact Nat.pos_of_ne_zero fun zero => ne (by rw [zero, Nat.mul_zero])
  obtain ⟨tlvs, read⟩ := image.read
  unfold decryptImageInplace
  rw [statusOff, if_pos room, wp_bind, wp_pure, found]
  simp only [image.encrypted, if_true]
  rw [wp_bind, wp_get, read]
  rw [area, Nat.mul_div_cancel _ pos]

omit uniform room image in
theorem inplace_covers (ordered : hdr.ihHdrSize.toNat ≤ bootTlvOff hdr)
    (layout : S ∣ hdr.ihHdrSize.toNat ∨ hdr.ihHdrSize.toNat < S ∧ S ≤ bootTlvOff hdr) (k : Nat) :
    (inplaceWindow hdr (k * S) S).Covers hdr (k * S) S := by
  refine inplaceWindow_covers ordered fun low high => ?_
  rcases layout with ⟨m, eq⟩ | ⟨first, apart⟩
  · -- no multiple of the sector size lies strictly inside a sector
    rw [eq, Nat.mul_comm S m] at low high
    have above : k < m := Nat.lt_of_mul_lt_mul_right low
    rw [← Nat.succ_mul] at high
    have below : m < k + 1 := Nat.lt_of_mul_lt_mul_right high
    omega
  · have zero : k = 0 := by
      by_contra some
      have := Nat.mul_le_mul_right S (Nat.pos_of_ne_zero some)
      omega
    exact ⟨by rw [zero, Nat.zero_mul], apart⟩

theorem decryptImageInplace_plain
    (layout : S ∣ hdr.ihHdrSize.toNat ∨ hdr.ihHdrSize.toNat < S ∧ S ≤ bootTlvOff hdr) :
    wp (decryptImageInplace bd (some ks) hdr .primary)
      (fun _ fl' => fl' = plainFlash hdr ks .primary fl) E (fun _ => True) fl := by
  have fits := image.fits
  rw [faSize_uniform uniform] at fits
  have loop : wp (inplaceLoop bd ks hdr .primary size S n n 0 (0 * S))
      (fun _ fl' => ∃ m, fl' = plainTo hdr ks .primary (m * S) fl ∧ size ≤ m * S) E (fun _ => True)
      (plainTo hdr ks .primary (0 * S) fl) :=
    inplaceLoop_wp uniform image.encrypted fits (by omega) fun j _ _ => inplace_covers image.ordered layout j
  rw [plainTo_zero, Nat.zero_mul] at loop
  rw [decryptImageInplace_wp_iff uniform room image]
  refine wp_imp loop ?_
  rintro _ _ ⟨m, rfl, reached⟩
  exact plainTo_eq (image.le.trans reached)

end Images

/-! ### Copying -/

section Copies

variable {bd : Board} {hdr : ImageHeader} {ks : KeyStream} {offSrc offDst sz n : Nat} {fl fl' : Flash}
  {E : BootErr → Flash → Prop}

/-- The first `n` bytes have been decrypted to where the primary slot was erased. -/
structure DecryptedTo (hdr : ImageHeader) (ks : KeyStream) (offSrc offDst n : Nat) (fl fl' : Flash) : Prop where
  outside : Flash.EqOutside .primary offDst (offDst + n) fl fl'
  copied : ∀ i, i < n → fl .primary (offDst + i) = erasedVal →
    fl' .primary (offDst + i) = plainByte hdr ks (offDst + i) (fl .secondary (offSrc + i))

/-- The first `n` bytes have been copied to where the destination was erased, with the body decrypted or encrypted. -/
structure CryptedTo (hdr : ImageHeader) (ks : KeyStream) (src dst : Area) (offSrc offDst sectorOff n : Nat)
    (fl fl' : Flash) : Prop where
  outside : Flash.EqOutside dst offDst (offDst + n) fl fl'
  copied : ∀ i, i < n → fl dst (offDst + i) = erasedVal →
    fl' dst (offDst + i) = plainByte hdr ks (offDst - sectorOff + i) (fl src (offSrc + i))

variable {src dst : Area} {sectorOff : Nat}

theorem CryptedTo.chunk (so_far : CryptedTo hdr ks src dst offSrc offDst sectorOff n fl fl') (apart : src ≠ dst)
    (len : Nat) : CryptedTo hdr ks src dst offSrc offDst sectorOff (n + len) fl (fl'.program dst (offDst + n)
      ((fl'.read src (offSrc + n) len).mapIdx fun i byte => plainByte hdr ks (offDst - sectorOff + n + i) byte)) := by
  have length : ((fl'.read src (offSrc + n) len).mapIdx
      fun i byte => plainByte hdr ks (offDst - sectorOff + n + i) byte).length = len := by simp [Flash.read]
  constructor
  · intro b i out
    rw [Flash.program_outside _ (fun eq => by have := out eq; omega)]
    exact so_far.outside b i fun eq => by have := out eq; omega
  · intro i lt blank
    by_cases old : i < n
    · rw [Flash.program_outside _ fun _ => by left; omega]
      exact so_far.copied i old blank
    · -- the destination is still erased, and the source is in another area
      obtain ⟨k, rfl⟩ : ∃ k, i = n + k := ⟨i - n, by omega⟩
      have inside : k < len := by omega
      have still : fl' dst (offDst + n + k) = erasedVal := by
        rw [so_far.outside dst _ fun _ => by right; omega, Nat.add_assoc]
        exact blank
      have same : fl' src (offSrc + n + k) = fl src (offSrc + (n + k)) := by
        rw [so_far.outside.other apart, Nat.add_assoc]
      rw [← Nat.add_assoc, Flash.program_erased _ _ (by omega) still, ← same]
      simp [List.getD, Flash.read, inside, Nat.add_assoc]

theorem cryptCopyLoop_wp {fuel : Nat} (encrypted : hdr.isEncrypted = true)
    (ordered : hdr.ihHdrSize.toNat ≤ bootTlvOff hdr) (apart : src ≠ dst) (srcFits : offSrc + sz ≤ bd.faSize src)
    (dstFits : offDst + sz ≤ bd.faSize dst) (shift : sectorOff ≤ offDst) (le : n ≤ sz) (enough : sz < n + fuel)
    (so_far : CryptedTo hdr ks src dst offSrc offDst sectorOff n fl fl') :
    wp (cryptCopyLoop bd ks hdr src dst offSrc offDst sz sectorOff fuel n)
      (fun _ => CryptedTo hdr ks src dst offSrc offDst sectorOff sz fl) E (fun _ => True) fl' := by
  have lt : bd.faSize dst < 2 ^ 32 := bd.size_lt dst
  induction fuel generalizing n fl' with
  | zero => omega
  | succ fuel ih =>
    rw [cryptCopyLoop]
    split
    next more =>
      have pos := bd.bufSz_pos
      generalize chunk : (if sz - n > bd.bufSz then bd.bufSz else sz - n) = chunkSz
      have chunk_le : chunkSz ≤ sz - n := by rw [← chunk]; split <;> omega
      have chunk_pos : 0 < chunkSz := by rw [← chunk]; split <;> omega
      have length : (fl'.read src (offSrc + n) chunkSz).length = chunkSz := by simp [Flash.read]
      have absOff : u32 (offDst + 2 ^ 32 - sectorOff + n) = offDst - sectorOff + n := by
        unfold u32
        omega
      rw [wp_bind, wp_get, flashAreaRead_area (by omega)]
      simp only [absOff, bootEncEncrypt, ite_self]
      rw [(copyWindow_covers ordered _ chunkSz).decrypt length]
      rw [wp_bind, wp_flashAreaWrite (by rw [List.length_mapIdx, length]; omega)]
      exact ⟨trivial, ih (by omega) (by omega) (so_far.chunk apart chunkSz)⟩
    next done =>
      obtain rfl : n = sz := by omega
      rw [wp_pure]
      exact so_far

/-- The loop into the primary slot is the general one. -/
theorem decryptCopyLoop_eq {fuel : Nat}
    (le : offDst + sz ≤ 2 ^ 32) : decryptCopyLoop bd ks hdr src offSrc offDst sz fuel n =
    cryptCopyLoop bd ks hdr src .primary offSrc offDst sz 0 fuel n := by
  induction fuel generalizing n with
  | zero => rfl
  | succ fuel ih =>
    rw [decryptCopyLoop, cryptCopyLoop]
    split
    next more =>
      have absOff : u32 (offDst + 2 ^ 32 - 0 + n) = offDst + n := by
        unfold u32
        omega
      simp only [absOff, ih, if_true]
    next => rfl

theorem bootCopyRegionDecrypt_wp (encrypted : hdr.isEncrypted = true)
    (ordered : hdr.ihHdrSize.toNat ≤ bootTlvOff hdr) (srcFits : offSrc + sz ≤ bd.faSize .secondary)
    (dstFits : offDst + sz ≤ bd.faSize .primary) : wp (bootCopyRegionDecrypt bd ks hdr offSrc offDst sz)
      (fun _ => DecryptedTo hdr ks offSrc offDst sz fl) E (fun _ => True) fl := by
  have lt : bd.faSize .primary < 2 ^ 32 := bd.size_lt .primary
  rw [bootCopyRegionDecrypt, decryptCopyLoop_eq (by omega)]
  refine wp_imp (cryptCopyLoop_wp encrypted ordered (by decide) srcFits dstFits (Nat.zero_le _) (Nat.zero_le _)
    (by omega) ⟨.refl _ _ _ _, fun i lt => absurd lt (Nat.not_lt_zero i)⟩) ?_
  exact fun _ fl' crypted => ⟨crypted.outside, crypted.copied⟩

end Copies

/-! ### Where the window is wrong

With a key stream of ones every decrypted byte changes. -/

section Wrong

variable {bd : Board} {hdr : ImageHeader} {ks : KeyStream} {n S k srcSize fuel : Nat} {fl : Flash}
  (uniform : bd.layout .primary = List.replicate n S) (encrypted : hdr.isEncrypted = true)
  (ordered : hdr.ihHdrSize.toNat ≤ bootTlvOff hdr)

theorem xor_one_ne (byte : UInt8) : byte ^^^ 1 ≠ byte := by
  intro same
  have cancelled := congrArg (byte ^^^ ·) same
  rw [← UInt8.xor_assoc, UInt8.xor_self, UInt8.zero_xor] at cancelled
  exact absurd cancelled (by decide)

theorem bootEncDecrypt_overrun {w : Window} {buf : Bytes} (some : 0 < w.blkSz)
    (past : buf.length < w.idx + w.blkSz) : bootEncDecrypt ks w buf = none := by
  rw [bootEncDecrypt, if_neg (by omega), if_neg (by omega)]

include uniform

include encrypted in
theorem decryptRegionInplace_overrun (lt : k < n) (some : 0 < (inplaceWindow hdr (k * S) S).blkSz)
    (past : S < (inplaceWindow hdr (k * S) S).idx + (inplaceWindow hdr (k * S) S).blkSz) {Q : Unit → Flash → Prop} :
    wp (decryptRegionInplace bd ks hdr .primary (k * S) S) Q (fun _ _ => True) (fun _ => True) fl := by
  unfold decryptRegionInplace
  rw [wp_bind, wp_get, flashAreaRead_sector uniform lt]
  simp only [if_pos encrypted]
  rw [bootEncDecrypt_overrun some (by simpa [Flash.read] using past)]
  simp only [wp_throw]

theorem decryptRegionInplace_below (lt : k < n) :
    wp (decryptRegionInplace bd ks hdr .primary (k * S) S)
      (fun _ fl' => ∀ p, p < k * S → fl' .primary p = fl .primary p) (fun _ _ => True) (fun _ => True) fl := by
  unfold decryptRegionInplace
  rw [wp_bind, wp_get, flashAreaRead_sector uniform lt]
  simp only
  split
  next => rw [wp_throw]; trivial
  next buf decrypted =>
    have length : buf.length = S := by
      have read : (fl.read .primary (k * S) S).length = S := by simp [Flash.read]
      split at decrypted
      · rw [bootEncDecrypt_length decrypted, read]
      · rw [← Option.some.inj decrypted, read]
    refine rewriteSector_wp uniform lt length fun p below => ?_
    rw [overwritten, if_neg (by omega)]

theorem inplaceLoop_below :
    wp (inplaceLoop bd ks hdr .primary srcSize S n fuel k (k * S))
      (fun _ fl' => ∀ p, p < k * S → fl' .primary p = fl .primary p) (fun _ _ => True) (fun _ => True) fl := by
  induction fuel generalizing k fl with
  | zero =>
    rw [inplaceLoop, wp_pure]
    exact fun _ _ => rfl
  | succ fuel ih =>
    rw [inplaceLoop]
    split
    next more =>
      rw [wp_bind]
      refine wp_imp (decryptRegionInplace_below uniform more.2) ?_
      intro _ fl₁ first
      have rest : wp (inplaceLoop bd ks hdr .primary srcSize S n fuel (k + 1) ((k + 1) * S))
          (fun _ fl' => ∀ p, p < (k + 1) * S → fl' .primary p = fl₁ .primary p) (fun _ _ => True)
          (fun _ => True) fl₁ := ih
      rw [Nat.succ_mul] at rest
      refine wp_imp rest ?_
      intro _ fl₂ later p below
      rw [later p (by omega), first p below]
    next =>
      rw [wp_pure]
      exact fun _ _ => rfl

include encrypted ordered

theorem inplaceLoop_stuck {m : Nat} (low : m * S < hdr.ihHdrSize.toNat) (high : hdr.ihHdrSize.toNat < m * S + S)
    (later : 0 < m)
    (lt : m < n) (reached : hdr.ihHdrSize.toNat ≤ srcSize) (le : k ≤ m) (enough : m < k + fuel) :
    wp (inplaceLoop bd ks hdr .primary srcSize S n fuel k (k * S)) (fun _ _ => False) (fun _ _ => True)
      (fun _ => True) (plainTo hdr ks .primary (k * S) fl) := by
  induction fuel generalizing k with
  | zero => omega
  | succ fuel ih =>
    have before : k * S ≤ m * S := Nat.mul_le_mul_right S le
    rw [inplaceLoop, if_pos ⟨by omega, by omega⟩, wp_bind]
    rcases Nat.lt_or_eq_of_le le with earlier | rfl
    · -- a sector of the header
      have next_le : (k + 1) * S ≤ m * S := Nat.mul_le_mul_right S earlier
      rw [Nat.succ_mul] at next_le
      have covers : (inplaceWindow hdr (k * S) S).Covers hdr (k * S) S :=
        inplaceWindow_covers ordered fun _ inside => by omega
      refine wp_imp (decryptRegionInplace_wp uniform encrypted (by omega) covers) ?_
      rintro _ _ rfl
      have rest := ih (k := k + 1) earlier (by omega)
      rwa [Nat.succ_mul] at rest ⊢
    · -- the window starts at the size of the header, which is more than a sector
      have first : S ≤ k * S := Nat.le_mul_of_pos_left S later
      apply decryptRegionInplace_overrun uniform encrypted lt
      all_goals
        simp only [inplaceWindow, if_pos low, if_neg (show ¬ k * S ≥ bootTlvOff hdr by omega),
          if_neg (show ¬ hdr.ihHdrSize.toNat > k * S + S by omega)]
        split <;> omega

theorem inplaceLoop_changes_tlv (header : 0 < hdr.ihHdrSize.toNat) (inside : bootTlvOff hdr < S) (lt : 0 < n)
    (reached : bootTlvOff hdr ≤ srcSize) (enough : 0 < fuel) :
    wp (inplaceLoop bd (fun _ => 1) hdr .primary srcSize S n fuel 0 0)
      (fun _ fl' => fl' .primary (bootTlvOff hdr) ≠ fl .primary (bootTlvOff hdr)) (fun _ _ => True)
      (fun _ => True) fl := by
  have window : inplaceWindow hdr (0 * S) S = ⟨hdr.ihHdrSize.toNat, bootTlvOff hdr, 0, 0⟩ := by
    simp only [inplaceWindow, Nat.zero_mul, Nat.zero_add, if_pos header, if_pos inside,
      if_neg (show ¬ 0 ≥ bootTlvOff hdr by omega), Nat.sub_self, Nat.sub_zero]
  obtain ⟨fuel, rfl⟩ : ∃ m, fuel = m + 1 := ⟨fuel - 1, by omega⟩
  rw [inplaceLoop, if_pos ⟨by omega, lt⟩, wp_bind]
  have first : wp (decryptRegionInplace bd (fun _ => 1) hdr .primary (0 * S) S)
      (fun _ fl' => fl' .primary (bootTlvOff hdr) = fl .primary (bootTlvOff hdr) ^^^ 1) (fun _ _ => True)
      (fun _ => True) fl := by
    by_cases past : S < hdr.ihHdrSize.toNat + bootTlvOff hdr
    · apply decryptRegionInplace_overrun uniform encrypted lt
      · rw [window]
        exact header.trans_le ordered
      · rwa [window]
    · have length : (fl.read .primary (0 * S) S).length = S := by simp [Flash.read]
      unfold decryptRegionInplace
      rw [wp_bind, wp_get, flashAreaRead_sector uniform lt]
      simp only [if_pos encrypted, window]
      rw [bootEncDecrypt, if_neg (by simp only; omega), if_pos (by rw [length]; simp only; omega)]
      refine rewriteSector_wp uniform lt (by rw [List.length_mapIdx, length]) ?_
      rw [overwritten, List.length_mapIdx, length, if_pos ⟨rfl, by omega, by omega⟩]
      simp [List.getD, Flash.read, inside, ordered, header]
  rw [Nat.zero_mul] at first
  refine wp_imp first ?_
  intro _ fl₁ changed
  have rest : wp (inplaceLoop bd (fun _ => 1) hdr .primary srcSize S n fuel 1 (1 * S))
      (fun _ fl' => ∀ p, p < 1 * S → fl' .primary p = fl₁ .primary p) (fun _ _ => True) (fun _ => True) fl₁ :=
    inplaceLoop_below uniform
  rw [Nat.one_mul] at rest
  rw [Nat.zero_add, Nat.zero_add]
  refine wp_imp rest ?_
  intro _ fl₂ kept
  rw [kept _ inside, changed]
  exact xor_one_ne _

end Wrong

/-! ### The two decryptions agree -/

/-- Only the body is decrypted, as copying the image to an erased slot does. -/
structure DecryptsInplace (bd : Board) (ks : KeyStream) (hdr : ImageHeader) (fl : Flash) (size : Nat) : Prop where
  returns : (decryptImageInplace bd (some ks) hdr .primary fl).value = .ok ()
  plain : (decryptImageInplace bd (some ks) hdr .primary fl).state = plainFlash hdr ks .primary fl
  as_copy : ∀ fl' : Flash, size ≤ bd.faSize .secondary →
    (∀ p, p < size → fl' .secondary p = fl .primary p) → (∀ p, p < size → fl' .primary p = erasedVal) →
    (bootCopyRegionDecrypt bd ks hdr 0 0 size fl').value = .ok () ∧
      ∀ p, p < size → (bootCopyRegionDecrypt bd ks hdr 0 0 size fl').state .primary p =
        (decryptImageInplace bd (some ks) hdr .primary fl).state .primary p

section Agree

variable {bd : Board} {hdr : ImageHeader} {ks : KeyStream} {n S size : Nat} {fl : Flash}

section Conditions

variable (uniform : bd.layout .primary = List.replicate n S) (room : bootTrailerSzOf bd .primary ≤ bd.faSize .primary)
  (image : EncryptedImage bd hdr fl size)
include uniform room image

theorem decryptsInplace_of_layout
    (layout : S ∣ hdr.ihHdrSize.toNat ∨ hdr.ihHdrSize.toNat < S ∧ S ≤ bootTlvOff hdr) :
    DecryptsInplace bd ks hdr fl size := by
  obtain ⟨_, returns, plain⟩ : ∃ _, _ ∧ _ = plainFlash hdr ks .primary fl :=
    wp_returns (decryptImageInplace_plain uniform room image layout)
  refine ⟨returns, plain, fun fl' fits same blank => ?_⟩
  obtain ⟨_, copied, bytes⟩ : ∃ _, _ ∧ DecryptedTo hdr ks 0 0 size fl' _ :=
    wp_returns (bootCopyRegionDecrypt_wp image.encrypted image.ordered
      (show 0 + size ≤ bd.faSize .secondary by omega) (by have := image.fits; omega))
  refine ⟨copied, fun p lt => ?_⟩
  have byte := bytes.copied p lt
  rw [Nat.zero_add, same p lt] at byte
  rw [byte (blank p lt), plain, plainFlash, if_pos rfl]

theorem layout_of_decryptsInplace (decrypts : DecryptsInplace bd (fun _ => 1) hdr fl size) :
    S ∣ hdr.ihHdrSize.toNat ∨ hdr.ihHdrSize.toNat < S ∧ S ≤ bootTlvOff hdr := by
  by_contra wrong
  rw [not_or, not_and, not_le] at wrong
  obtain ⟨inside, overlap⟩ := wrong
  have ordered := image.ordered
  have le := image.le
  have fits := image.fits
  rw [faSize_uniform uniform] at fits
  have header : 0 < hdr.ihHdrSize.toNat := Nat.pos_of_ne_zero fun zero => inside (zero ▸ Nat.dvd_zero S)
  have sector : 0 < S := Nat.pos_of_ne_zero fun zero => by
    rw [zero, Nat.mul_zero] at fits
    omega
  have sectors : 0 < n := Nat.pos_of_ne_zero fun zero => by
    rw [zero, Nat.zero_mul] at fits
    omega
  by_cases first : hdr.ihHdrSize.toNat < S
  · have run := (decryptImageInplace_wp_iff uniform room image).mpr
      (inplaceLoop_changes_tlv uniform image.encrypted ordered header (overlap first) sectors le sectors)
    apply wp_post run decrypts.returns
    rw [decrypts.plain, plainFlash, if_pos rfl, plainByte, if_neg (by omega)]
  · -- the sector in which the header ends
    have split := Nat.div_add_mod hdr.ihHdrSize.toNat S
    have rest := Nat.mod_lt hdr.ihHdrSize.toNat sector
    rw [Nat.mul_comm] at split
    have later : 0 < hdr.ihHdrSize.toNat / S := Nat.div_pos (by omega) sector
    have below : hdr.ihHdrSize.toNat / S < n := Nat.lt_of_mul_lt_mul_right (a := S) (by omega)
    have loop : wp (inplaceLoop bd (fun _ => 1) hdr .primary size S n n 0 (0 * S)) (fun _ _ => False)
        (fun _ _ => True) (fun _ => True) (plainTo hdr (fun _ => 1) .primary (0 * S) fl) :=
      inplaceLoop_stuck uniform image.encrypted ordered (by omega) (by omega) later below
        (ordered.trans le) (Nat.zero_le _) (by omega)
    rw [plainTo_zero, Nat.zero_mul] at loop
    exact wp_post ((decryptImageInplace_wp_iff uniform room image).mpr loop) decrypts.returns

end Conditions

/-- In place and copying agree exactly if the header ends with a sector, or inside the first one which then has no
TLVs. -/
theorem inplace_decrypts_iff (bd : Board) (hdr : ImageHeader) (fl : Flash) (n S size : Nat)
    (uniform : bd.layout .primary = List.replicate n S)
    (room : bootTrailerSzOf bd .primary ≤ bd.faSize .primary) (image : EncryptedImage bd hdr fl size) :
    (∀ ks, DecryptsInplace bd ks hdr fl size) ↔
      S ∣ hdr.ihHdrSize.toNat ∨ hdr.ihHdrSize.toNat < S ∧ S ≤ bootTlvOff hdr :=
  ⟨fun decrypts => layout_of_decryptsInplace uniform room image (decrypts _),
    fun layout _ => decryptsInplace_of_layout uniform room image layout⟩

def decryptBoard : Board :=
  .ofLayout .scratch 8 4 64 (fun _ => 0) (fun _ => List.replicate 4 128) Board.fourSectors_fits

def encryptedHeader (imgSize : UInt32) : ImageHeader where
  ihMagic := imageMagic
  ihLoadAddr := 0
  ihHdrSize := 32
  ihProtectTlvSize := 0
  ihImgSize := imgSize
  ihFlags := imageFEncryptedAes128
  ihVer := ⟨1, 0, 0, 0⟩

/-- A slot of zeros with an empty list of TLVs at `tlvOff`. -/
def encryptedSlot (tlvOff : Nat) : Flash := fun _ i =>
  if tlvOff ≤ i ∧ i < tlvOff + 4 then [0x07, 0x69, 4, 0].getD (i - tlvOff) 0 else 0

theorem inplace_decrypts_iff_demo : EncryptedImage decryptBoard (encryptedHeader 96) (encryptedSlot 128) 132 ∧
      ∀ ks, DecryptsInplace decryptBoard ks (encryptedHeader 96) (encryptedSlot 128) 132 :=
  have image : EncryptedImage decryptBoard (encryptedHeader 96) (encryptedSlot 128) 132 :=
    ⟨by decide, by decide, ⟨4, by decide +kernel⟩, by decide, by decide⟩
  ⟨image, (inplace_decrypts_iff decryptBoard _ _ 4 128 132 rfl (by decide) image).mpr (.inr (by decide))⟩

/-- A header, a body of 16 bytes and the TLVs in one sector of 128 bytes: the TLVs are changed. -/
theorem inplace_decrypts_tlvs : EncryptedImage decryptBoard (encryptedHeader 16) (encryptedSlot 48) 52 ∧
      ¬ DecryptsInplace decryptBoard (fun _ => 1) (encryptedHeader 16) (encryptedSlot 48) 52 := by
  refine ⟨⟨by decide, by decide, ⟨4, by decide +kernel⟩, by decide, by decide⟩, fun decrypts => ?_⟩
  have same := congrFun (congrFun decrypts.plain .primary) 48
  revert same
  decide +kernel

end Agree

end Adaboot.SerialEncryption
