import Adaboot.Serial.Decrypt
import Mathlib.Data.PNat.Defs

/-!
# How an image reaches the digest

`bootutil_img_hash` with `MCUBOOT_ENC_IMAGES`, where an encrypted image is decrypted buffer by buffer, and with
`MCUBOOT_HASH_STORAGE_DIRECTLY`, where the digest gets the mapped storage.
-/

namespace Adaboot

open SerialEncryption

/-- How many bytes a round of the loop reads. -/
def encBlkSz (hdrSize tlvOff size tmpBufSz off : Nat) : Nat :=
  let blkSz := if size - off > tmpBufSz then tmpBufSz else size - off
  -- read only the header
  let blkSz := if off < hdrSize ∧ off + blkSz > hdrSize then hdrSize - off else blkSz
  -- read only up to the end of the image payload
  if off < tlvOff ∧ off + blkSz > tlvOff then tlvOff - off else blkSz

def encBlk (ks : Option KeyStream) (hdrSize tlvOff off : Nat) (buf : Bytes) : Option Bytes :=
  match ks with
  | none => some buf
  | some ks =>
    if off ≥ hdrSize ∧ off < tlvOff then
      bootEncDecrypt ks ⟨0, buf.length, off - hdrSize, (off - hdrSize) % 16⟩ buf
    else some buf

/-- The loop of `bootutil_img_hash`, with the key if the image is to be decrypted. -/
def imgHashEncLoop (fap : FlashArea) (ks : Option KeyStream) (hdrSize tlvOff sectorOff size tmpBufSz : Nat) :
    Nat → Nat → Bytes → Option Bytes
  | 0, _, _ => none
  | fuel + 1, off, fed =>
    if off < size then
      let blkSz := encBlkSz hdrSize tlvOff size tmpBufSz off
      match flashAreaRead fap (off + sectorOff) blkSz with
      | none => none
      | some buf =>
        match encBlk ks hdrSize tlvOff off buf with
        | none => none
        | some buf => imgHashEncLoop fap ks hdrSize tlvOff sectorOff size tmpBufSz fuel (off + blkSz) (fed ++ buf)
    else some fed

/-- The bytes that go to the digest, with the key that was loaded for the slot. -/
def imgHashEncInput (tmpBufSz : Nat) (hdr : ImageHeader) (fap : FlashArea) (secondary : Bool)
    (enc : Option KeyStream) (sectorOff : Nat) (seed : Bytes) : Option Bytes :=
  -- `MUST_DECRYPT`
  let mustDecrypt := secondary && hdr.isEncrypted
  if mustDecrypt ∧ enc.isNone then none
  else match bootU32SafeAdd hdr.ihImgSize.toNat hdr.ihHdrSize.toNat with
    | none => none
    | some tlvOff => match bootU32SafeAdd tlvOff hdr.ihProtectTlvSize.toNat with
      | none => none
      | some size => match bootU32SafeAdd size sectorOff with
        | none => none
        | some stop =>
          if stop > fap.faSize then none
          else imgHashEncLoop fap (if mustDecrypt then enc else none) hdr.ihHdrSize.toNat tlvOff sectorOff size
            tmpBufSz (size + 1) 0 seed

/-- `bootutil_img_hash` with `MCUBOOT_ENC_IMAGES`. -/
def bootutilImgHashEnc (b : ValidateBuild) (hdr : ImageHeader) (fap : FlashArea) (secondary : Bool)
    (enc : Option KeyStream) (sectorOff : Nat) (seed : Bytes) : Option Bytes :=
  (imgHashEncInput b.tmpBufSz hdr fap secondary enc sectorOff seed).map b.sha

/-! ### What is digested -/

/-- A byte of the image as it goes to the digest. -/
def digestedByte (hdr : ImageHeader) (ks : Option KeyStream) (p : Nat) (byte : UInt8) : UInt8 :=
  match ks with
  | none => byte
  | some ks => plainByte hdr ks p byte

section Loop

variable {hdr : ImageHeader} {fap : FlashArea} {ks : Option KeyStream} {sectorOff tmpBufSz : Nat}
  {size off : Nat} {buf : Bytes}

theorem encBlkSz_spec {hdrSize tlvOff : Nat} (pos : 0 < tmpBufSz) (ordered : hdrSize ≤ tlvOff)
    (more : off < size) :
    0 < encBlkSz hdrSize tlvOff size tmpBufSz off ∧ off + encBlkSz hdrSize tlvOff size tmpBufSz off ≤ size ∧
      (off < hdrSize → off + encBlkSz hdrSize tlvOff size tmpBufSz off ≤ hdrSize) ∧
      (off < tlvOff → off + encBlkSz hdrSize tlvOff size tmpBufSz off ≤ tlvOff) := by
  unfold encBlkSz
  simp only
  split_ifs <;> omega

theorem mapIdx_same {f : Nat → UInt8 → UInt8} (same : ∀ i byte, i < buf.length → f i byte = byte) :
    buf.mapIdx f = buf := by
  apply List.ext_getElem (List.length_mapIdx ..)
  intro i _ lt
  rw [List.getElem_mapIdx, same i _ lt]

theorem encBlk_eq (tlvOff : hdr.ihHdrSize.toNat + hdr.ihImgSize.toNat < 2 ^ 32)
    (header : off < hdr.ihHdrSize.toNat → off + buf.length ≤ hdr.ihHdrSize.toNat)
    (body : off < hdr.ihHdrSize.toNat + hdr.ihImgSize.toNat →
      off + buf.length ≤ hdr.ihHdrSize.toNat + hdr.ihImgSize.toNat) :
    encBlk ks hdr.ihHdrSize.toNat (hdr.ihHdrSize.toNat + hdr.ihImgSize.toNat) off buf =
      some (buf.mapIdx fun i byte => digestedByte hdr ks (off + i) byte) := by
  have bootTlvOff_eq : bootTlvOff hdr = hdr.ihHdrSize.toNat + hdr.ihImgSize.toNat := u32_of_lt tlvOff
  cases ks with
  | none =>
    rw [encBlk, mapIdx_same]
    exact fun i byte _ => rfl
  | some ks =>
    simp only [encBlk, digestedByte]
    split
    next inside =>
      -- the window of the round is the whole buffer
      apply Window.Covers.decrypt _ rfl
      exact ⟨.inr (by simp), fun i lt => by rw [bootTlvOff_eq]; simp only; omega, fun i _ _ => by simp only; omega⟩
    next outside =>
      rw [mapIdx_same]
      intro i byte lt
      rw [plainByte, bootTlvOff_eq, if_neg (by omega)]

theorem imgHashEncLoop_eq (pos : 0 < tmpBufSz)
    (tlvOff : hdr.ihHdrSize.toNat + hdr.ihImgSize.toNat < 2 ^ 32) (fits : sectorOff + size ≤ fap.faSize)
    {fuel : Nat} (fed : Bytes) (le : off ≤ size) (enough : size < off + fuel) :
    imgHashEncLoop fap ks hdr.ihHdrSize.toNat (hdr.ihHdrSize.toNat + hdr.ihImgSize.toNat) sectorOff size tmpBufSz
        fuel off fed = some (fed ++ (List.range (size - off)).map fun i =>
        digestedByte hdr ks (off + i) (fap.byte (sectorOff + off + i))) := by
  induction fuel generalizing off fed with
  | zero => omega
  | succ fuel ih =>
    rw [imgHashEncLoop]
    split
    next more =>
      obtain ⟨blkPos, inside, header, body⟩ := encBlkSz_spec pos (Nat.le_add_right _ hdr.ihImgSize.toNat) more
      simp only
      generalize encBlkSz hdr.ihHdrSize.toNat (hdr.ihHdrSize.toNat + hdr.ihImgSize.toNat) size tmpBufSz off = blkSz at *
      rw [flashAreaRead_of_le (by omega)]
      simp only
      rw [encBlk_eq tlvOff (by simpa using header) (by simpa using body)]
      simp only
      rw [ih _ inside (by omega)]
      -- one buffer, then the rest by induction
      have split_range : size - off = blkSz + (size - (off + blkSz)) := by omega
      rw [split_range, List.range_add, List.map_append, List.map_map, List.append_assoc]
      congr 3
      · apply List.ext_getElem (by simp)
        simp [Nat.add_comm off sectorOff]
      · exact List.map_congr_left fun i _ => by simp only [Function.comp_apply, Nat.add_assoc]
    next done => simp [show size - off = 0 by omega]

/-- What the digest covers: header, body and protected TLVs, with the body decrypted if it has to be. -/
def digestedBytes (hdr : ImageHeader) (fap : FlashArea) (ks : Option KeyStream) (sectorOff : Nat) : Bytes :=
  (List.range hdr.hashedSize).map fun i => digestedByte hdr ks i (fap.byte (sectorOff + i))

theorem imgHashEncInput_span (secondary : Bool) (enc : Option KeyStream) (seed : Bytes) :
    imgHashEncInput tmpBufSz hdr fap secondary enc sectorOff seed =
      if (secondary && hdr.isEncrypted) = true ∧ enc.isNone = true then none
      else (imgHashSpan hdr fap sectorOff).bind fun span =>
        imgHashEncLoop fap (if secondary && hdr.isEncrypted then enc else none) hdr.ihHdrSize.toNat span.1
          sectorOff span.2 tmpBufSz (span.2 + 1) 0 seed := by
  unfold imgHashEncInput imgHashSpan
  dsimp only
  congr 1
  cases bootU32SafeAdd hdr.ihImgSize.toNat hdr.ihHdrSize.toNat with
  | none => rfl
  | some tlvOff =>
    dsimp only
    cases bootU32SafeAdd tlvOff hdr.ihProtectTlvSize.toNat with
    | none => rfl
    | some size =>
      dsimp only
      cases bootU32SafeAdd size sectorOff with
      | none => rfl
      | some stop =>
        dsimp only
        split <;> rfl

theorem imgHashEncInput_eq (pos : 0 < tmpBufSz) (secondary : Bool) (enc : Option KeyStream) (seed : Bytes) :
    imgHashEncInput tmpBufSz hdr fap secondary enc sectorOff seed =
      if (secondary && hdr.isEncrypted) = true ∧ enc.isNone = true then none
      else if tlvProtEnd hdr sectorOff ≤ fap.faSize then
        some (seed ++ digestedBytes hdr fap (if secondary && hdr.isEncrypted then enc else none) sectorOff)
      else none := by
  rw [imgHashEncInput_span, imgHashSpan_eq]
  split
  · rfl
  split
  next fits =>
    have lt := fap.faSize_lt
    unfold tlvProtEnd ImageHeader.hashedSize at fits
    rw [Option.bind_some, imgHashEncLoop_eq pos (by omega) (by exact fits) seed (Nat.zero_le _) (by simp only; omega)]
    simp only [Nat.sub_zero, Nat.zero_add, Nat.add_zero, digestedBytes]
  next => rfl

end Loop

/-! ### What is read -/

/-- The reads of the loop, as offset and length. -/
def imgHashReads (hdrSize tlvOff sectorOff size tmpBufSz : Nat) : Nat → Nat → List (Nat × Nat)
  | 0, _ => []
  | fuel + 1, off =>
    if off < size then
      let blkSz := encBlkSz hdrSize tlvOff size tmpBufSz off
      (off + sectorOff, blkSz) :: imgHashReads hdrSize tlvOff sectorOff size tmpBufSz fuel (off + blkSz)
    else []

/-- The reads of `bootutil_img_hash`. Without `MCUBOOT_ENC_IMAGES` no key is asked for and no buffer is cut. -/
def bootutilImgHashReads (encImages : Bool) (tmpBufSz : Nat) (hdr : ImageHeader) (fap : FlashArea) (secondary : Bool)
    (enc : Option KeyStream) (sectorOff : Nat) : List (Nat × Nat) :=
  if encImages ∧ secondary ∧ hdr.isEncrypted ∧ enc.isNone then []
  else match imgHashSpan hdr fap sectorOff with
    | none => []
    | some (tlvOff, size) =>
      if encImages then imgHashReads hdr.ihHdrSize.toNat tlvOff sectorOff size tmpBufSz (size + 1) 0
      else imgHashReads 0 0 sectorOff size tmpBufSz (size + 1) 0

def FlashArea.Holds (fap : FlashArea) (reads : List (Nat × Nat)) : Prop := ∀ r ∈ reads, r.1 + r.2 ≤ fap.faSize

theorem holds_imgHashReads {fap : FlashArea} {hdrSize tlvOff sectorOff size tmpBufSz : Nat} (pos : 0 < tmpBufSz)
    (ordered : hdrSize ≤ tlvOff) (fits : sectorOff + size ≤ fap.faSize) (fuel off : Nat) :
    fap.Holds (imgHashReads hdrSize tlvOff sectorOff size tmpBufSz fuel off) := by
  induction fuel generalizing off with
  | zero => simp [imgHashReads, FlashArea.Holds]
  | succ fuel ih =>
    rw [imgHashReads]
    split
    next more =>
      have inside := (encBlkSz_spec pos ordered more).2.1
      intro r mem
      rcases List.mem_cons.mp mem with rfl | mem
      · omega
      · exact ih _ r mem
    next => simp [FlashArea.Holds]

/-- For every buffer size, with and without `MCUBOOT_ENC_IMAGES`: the digest of the seed and the decrypted image,
unless the key is missing or the image does not fit, and no read leaves the area. -/
theorem bootutilImgHash_chunked (b : ValidateBuild) (hdr : ImageHeader) (fap : FlashArea) (secondary : Bool)
    (enc : Option KeyStream) (sectorOff : Nat) (seed : Bytes) (tmpBufSz : ℕ+) :
    bootutilImgHashEnc { b with tmpBufSz, tmpBufSz_pos := tmpBufSz.pos } hdr fap secondary enc sectorOff seed =
        (if (secondary && hdr.isEncrypted) = true ∧ enc.isNone = true then none
        else if tlvProtEnd hdr sectorOff ≤ fap.faSize then
          some (b.sha (seed ++ digestedBytes hdr fap (if secondary && hdr.isEncrypted then enc else none) sectorOff))
        else none) ∧
      bootutilImgHash { b with tmpBufSz, tmpBufSz_pos := tmpBufSz.pos } hdr fap sectorOff seed =
        (if tlvProtEnd hdr sectorOff ≤ fap.faSize then some (b.sha (seed ++ hashedBytes hdr fap sectorOff))
        else none) ∧
      ∀ encImages, fap.Holds (bootutilImgHashReads encImages tmpBufSz hdr fap secondary enc sectorOff) := by
  refine ⟨?_, bootutilImgHash_eq .., ?_⟩
  · rw [bootutilImgHashEnc, imgHashEncInput_eq tmpBufSz.pos]
    split
    · rfl
    · split <;> rfl
  · intro encImages
    unfold bootutilImgHashReads
    rw [imgHashSpan_eq]
    split
    · simp [FlashArea.Holds]
    by_cases fits : tlvProtEnd hdr sectorOff ≤ fap.faSize
    · rw [if_pos fits]
      simp only
      split
      · exact holds_imgHashReads tmpBufSz.pos (Nat.le_add_right ..) fits _ _
      · exact holds_imgHashReads tmpBufSz.pos (Nat.le_refl 0) fits _ _
    · rw [if_neg fits]
      simp [FlashArea.Holds]

/-! ### Mapped storage -/

/-- `boot_get_state_secondary_offset`: the place of the image, if the area is the secondary slot of the state. -/
def bootGetStateSecondaryOffset (secondary : Bool) (secondaryOffset : Nat) : Nat :=
  if secondary then secondaryOffset else 0

/-- `bootutil_img_hash` with `MCUBOOT_HASH_STORAGE_DIRECTLY`. `mapped` is the memory from `base +
flash_area_get_off(fap)` on. -/
def bootutilImgHashDirectly (b : ValidateBuild) (hdr : ImageHeader) (fap : FlashArea) (mapped : Nat → UInt8)
    (sectorOff : Nat) (seed : Bytes) : Option Bytes :=
  match imgHashSpan hdr fap sectorOff with
  | none => none
  | some (_, size) => some (b.sha (seed ++ (List.range size).map mapped))

/-- The image starts with the slot, the slot starts with the same bytes, or the image does not fit. -/
def SameStart (hdr : ImageHeader) (fap : FlashArea) (sectorOff : Nat) : Prop :=
  sectorOff = 0 ∨ (∀ i < hdr.hashedSize, fap.byte i = fap.byte (sectorOff + i)) ∨ fap.faSize < tlvProtEnd hdr sectorOff

/-- Both ways agree under `SameStart`, and only then if the hash has no collisions. -/
theorem bootutilImgHashDirectly_eq_iff (b : ValidateBuild) (hdr : ImageHeader) (fap : FlashArea)
    (mapped : Nat → UInt8) (maps : ∀ i < fap.faSize, mapped i = fap.byte i) (secondary : Bool) (secondaryOffset : Nat)
    (seed : Bytes) :
    let sectorOff := bootGetStateSecondaryOffset secondary secondaryOffset
    (SameStart hdr fap sectorOff →
        bootutilImgHashDirectly b hdr fap mapped sectorOff seed = bootutilImgHash b hdr fap sectorOff seed) ∧
      (Function.Injective b.sha →
        bootutilImgHashDirectly b hdr fap mapped sectorOff seed = bootutilImgHash b hdr fap sectorOff seed →
          SameStart hdr fap sectorOff) := by
  intro sectorOff
  rw [bootutilImgHashDirectly, bootutilImgHash_eq, imgHashSpan_eq]
  by_cases fits : tlvProtEnd hdr sectorOff ≤ fap.faSize
  · have start : (List.range hdr.hashedSize).map mapped = hashedBytes hdr fap 0 := by
      refine List.map_congr_left fun i mem => ?_
      rw [List.mem_range] at mem
      rw [tlvProtEnd] at fits
      rw [maps i (by omega), Nat.zero_add]
    have same : hashedBytes hdr fap 0 = hashedBytes hdr fap sectorOff ↔
        ∀ i < hdr.hashedSize, fap.byte i = fap.byte (sectorOff + i) := by
      simp [hashedBytes, List.map_inj_left]
    rw [if_pos fits, if_pos fits]
    simp only [start, Option.some.injEq]
    constructor
    · rintro (atStart | bytes | short)
      · rw [atStart]
      · rw [same.mpr bytes]
      · omega
    · intro injective equal
      exact .inr (.inl (same.mp (List.append_cancel_left (injective equal))))
  · rw [if_neg fits, if_neg fits]
    exact ⟨fun _ => rfl, fun _ _ => .inr (.inr (by omega))⟩

theorem bootutilImgHashDirectly_eq_primary :
    let area := FlashArea.ofBytes (packImage [1, 2, 3] (signedRecords [1, 2, 3])) (by decide)
    bootutilImgHashDirectly signedBuild (.decode (packHeader [1, 2, 3])) area area.byte 0 [] =
      bootutilImgHash signedBuild (.decode (packHeader [1, 2, 3])) area 0 [] :=
  (bootutilImgHashDirectly_eq_iff signedBuild _ _ _ (fun _ _ => rfl) false 4 []).1 (.inl rfl)

/-- An image behind a sector of four bytes, as in the secondary slot of swap-using-offset. -/
theorem bootutilImgHashDirectly_misses_offset :
    let area := FlashArea.ofBytes ([255, 255, 255, 255] ++ packImage [1, 2, 3] (signedRecords [1, 2, 3])) (by decide +kernel)
    bootutilImgHashDirectly signedBuild (.decode (packHeader [1, 2, 3])) area area.byte
        (bootGetStateSecondaryOffset true 4) [] ≠
      bootutilImgHash signedBuild (.decode (packHeader [1, 2, 3])) area (bootGetStateSecondaryOffset true 4) [] := by
  decide +kernel

end Adaboot
