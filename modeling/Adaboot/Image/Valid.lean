import Adaboot.Image.Validate

/-!
# Valid images

The verdict of `bootutil_img_validate` depends only on the bytes of the image. `Image` packs bytes that are valid, so
that the swaps can move images without looking into them.
-/

namespace Adaboot

/-- The iterator at the same place of a copy of the image `d` bytes further up in `fap`. -/
def ImageTlvIter.shift (it : ImageTlvIter) (fap : FlashArea) (d : Nat) : ImageTlvIter :=
  { it with fap := fap, protEnd := it.protEnd + d, tlvOff := it.tlvOff + d, tlvEnd := it.tlvEnd + d }

def TlvNext.shift (fap : FlashArea) (d : Nat) : TlvNext → TlvNext
  | .found it off len type => .found (it.shift fap d) (off + d) len type
  | .notFound => .notFound
  | .error => .error

section Passed

variable {b : ValidateBuild} {hdr : ImageHeader} {fap : FlashArea} {startOff maxImageSize : Nat} {seed : Bytes}
  (valid : bootutilImgValidate b hdr fap startOff maxImageSize seed = true)
include valid

theorem bootutilImgValidate_hashed :
    tlvProtEnd hdr startOff ≤ fap.faSize := by
  obtain ⟨hash, it, st, passes, -⟩ := exists_otherwiseValid valid
  exact (bootutilImgHash_eq_some passes.hashed).1

theorem bootutilImgValidate_begun :
    ∃ it, bootutilTlvIterBegin hdr fap startOff imageTlvAny false = some it := by
  obtain ⟨hash, it, st, passes, -⟩ := exists_otherwiseValid valid
  exact ⟨it, passes.begun⟩

omit valid

theorem bootutilImgValidate_le {it : ImageTlvIter}
    (begun : bootutilTlvIterBegin hdr fap startOff imageTlvAny false = some it)
    (valid : bootutilImgValidate b hdr fap startOff maxImageSize seed = true) :
    u32 (it.tlvEnd + 2 ^ 32 - startOff) ≤ maxImageSize := by
  obtain ⟨hash, it', st, passes, -⟩ := exists_otherwiseValid valid
  cases begun.symm.trans passes.begun
  exact passes.size

end Passed

section Shift

variable {fap fap' : FlashArea} {d n : Nat}

/-- The first `n` bytes of `fap` stand in `fap'` from offset `d` on. -/
structure Copied (fap fap' : FlashArea) (d n : Nat) : Prop where
  fits : n ≤ fap.faSize
  fits' : n + d ≤ fap'.faSize
  same : ∀ i, i < n → fap'.byte (i + d) = fap.byte i

variable {off len fuel fuel' type maxImageSize maxImageSize' : Nat} {it : ImageTlvIter} {b : ValidateBuild}
  {hash seed : Bytes} {st : ValidateState} {hdr : ImageHeader}

theorem Copied.read (copied : Copied fap fap' d n) (le : off + len ≤ n) :
    flashAreaRead fap' (off + d) len = flashAreaRead fap off len := by
  have := copied.fits
  have := copied.fits'
  rw [flashAreaRead_of_le (by omega), flashAreaRead_of_le (by omega)]
  congr 1
  apply List.map_congr_left
  intro i mem
  have lt := List.mem_range.mp mem
  have := copied.same (off + i) (by omega)
  rwa [show off + i + d = off + d + i by omega] at this

/-- Fuel that lets the walk reach its end. -/
def ImageTlvIter.Enough (it : ImageTlvIter) (fuel : Nat) : Prop := 0 < fuel ∧ it.tlvEnd < it.tlvOff + fuel

theorem ImageTlvIter.Enough.step {k : Nat} (more : it.tlvOff < it.tlvEnd)
    (enough : it.tlvEnd < it.tlvOff + (fuel + 1)) (pos : 0 < k) :
    ImageTlvIter.Enough { it with tlvOff := it.tlvOff + k } fuel := by
  refine ⟨by omega, ?_⟩
  show it.tlvEnd < it.tlvOff + k + fuel
  omega

theorem tlvIterNextLoop_shift (copied : Copied it.fap fap' d it.tlvEnd)
    (room : it.protEnd + 4 ≤ it.tlvEnd) (enough : it.Enough fuel) (enough' : it.Enough fuel') :
    tlvIterNextLoop fuel' (it.shift fap' d) = (tlvIterNextLoop fuel it).shift fap' d := by
  have lt := it.fap.faSize_lt
  have lt' := fap'.faSize_lt
  have fits := copied.fits
  have fits' := copied.fits'
  induction fuel generalizing it fuel' with
  | zero => exact absurd enough.1 (by omega)
  | succ fuel ih =>
    obtain ⟨fuel', rfl⟩ : ∃ k, fuel' = k + 1 := ⟨fuel' - 1, by have := enough'.1; omega⟩
    obtain ⟨-, enough⟩ := enough
    obtain ⟨-, enough'⟩ := enough'
    have stop_eq : (it.shift fap' d).sectionEnd = it.sectionEnd + d := by
      unfold ImageTlvIter.sectionEnd ImageTlvIter.shift
      split <;> rfl
    have stop_le : it.sectionEnd ≤ it.tlvEnd := by
      unfold ImageTlvIter.sectionEnd
      split <;> omega
    rw [tlvIterNextLoop, tlvIterNextLoop, stop_eq]
    simp only [ImageTlvIter.shift, Nat.add_lt_add_iff_right, ge_iff_le, Nat.add_le_add_iff_right,
      Nat.add_right_cancel_iff, gt_iff_lt, Nat.add_sub_add_right]
    split_ifs with more outside skip noRoom
    · rfl
    · have step : tlvIterNextLoop fuel' (ImageTlvIter.shift { it with tlvOff := it.tlvOff + 4 } fap' d) =
          (tlvIterNextLoop fuel { it with tlvOff := it.tlvOff + 4 }).shift fap' d :=
        @ih fuel' { it with tlvOff := it.tlvOff + 4 } copied room (.step more enough (by decide))
          (.step more enough' (by decide)) lt fits fits'
      rw [u32_of_lt (n := it.tlvOff + 4) (by omega), ← step, u32_of_lt (by omega)]
      simp only [ImageTlvIter.shift, Nat.add_right_comm]
    · rfl
    · rw [copied.read (by omega)]
      cases read : flashAreaRead it.fap it.tlvOff 4 with
      | none => rfl
      | some tlv =>
        by_cases long : it.sectionEnd - it.tlvOff - 4 < le16 tlv 2
        · simp only [if_pos long, TlvNext.shift]
        simp only [if_neg long]
        by_cases wanted : it.type = imageTlvAny ∨ le16 tlv 0 = it.type
        · simp only [wanted, ↓reduceIte]
          rw [u32_of_lt (n := it.tlvOff + 4 + le16 tlv 2) (by omega),
            u32_of_lt (n := it.tlvOff + 4) (by omega), u32_of_lt (n := it.tlvOff + d + 4) (by omega),
            u32_of_lt (n := it.tlvOff + d + 4 + le16 tlv 2) (by omega)]
          simp only [TlvNext.shift, ImageTlvIter.shift, Nat.add_right_comm]
        · simp only [wanted, ↓reduceIte]
          have step : tlvIterNextLoop fuel'
                (ImageTlvIter.shift { it with tlvOff := it.tlvOff + (4 + le16 tlv 2) } fap' d) =
              (tlvIterNextLoop fuel { it with tlvOff := it.tlvOff + (4 + le16 tlv 2) }).shift fap' d :=
            @ih fuel' { it with tlvOff := it.tlvOff + (4 + le16 tlv 2) } copied room
              (.step more enough (by omega)) (.step more enough' (by omega)) lt fits fits'
          rw [u32_of_lt (n := it.tlvOff + 4 + le16 tlv 2) (by omega), Nat.add_assoc it.tlvOff 4, ← step,
            u32_of_lt (by omega)]
          simp only [ImageTlvIter.shift]
          congr 2
          omega
    · rfl

theorem bootutilTlvIterNext_shift (copied : Copied it.fap fap' d it.tlvEnd)
    (room : it.protEnd + 4 ≤ it.tlvEnd) :
    bootutilTlvIterNext (it.shift fap' d) = (bootutilTlvIterNext it).shift fap' d :=
  tlvIterNextLoop_shift copied room ⟨by omega, by omega⟩ ⟨by omega, by simp only [ImageTlvIter.shift]; omega⟩

theorem validateTlv_congr {off' : Nat}
    (read : flashAreaRead fap' off' len = flashAreaRead fap off len) :
    validateTlv b fap' hash off' len st type = validateTlv b fap hash off len st type := by
  have hash_eq : validateHashTlv b fap' hash off' len st = validateHashTlv b fap hash off len st := by
    unfold validateHashTlv
    split
    next => rfl
    next size => rw [← Decidable.not_not.mp size, read]
  simp only [validateTlv, hash_eq, validateKeyTlv, validateSigTlv, validateOtherTlv,
    validateSecCntTlv, validateUuidTlv, read]

theorem imgValidateLoop_shift {start : Nat} (walks : it.Walks hdr fap start)
    (copied : Copied fap fap' d it.tlvEnd) (room : it.protEnd + 4 ≤ it.tlvEnd)
    (enough : it.Enough fuel) (enough' : it.Enough fuel') :
    imgValidateLoop b fap' hash fuel' (it.shift fap' d) st = imgValidateLoop b fap hash fuel it st := by
  induction fuel generalizing it st fuel' with
  | zero => exact absurd enough.1 (by omega)
  | succ fuel ih =>
    obtain ⟨fuel', rfl⟩ : ∃ k, fuel' = k + 1 := ⟨fuel' - 1, by have := enough'.1; omega⟩
    rw [imgValidateLoop, imgValidateLoop, bootutilTlvIterNext_shift (walks.fap_eq.symm ▸ copied) room]
    cases next : bootutilTlvIterNext it with
    | error => rfl
    | notFound => rfl
    | found it' off len type =>
      obtain ⟨walks', le, above, more, -⟩ := tlvIterNextLoop_found walks next
      have end_eq : it'.tlvEnd = it.tlvEnd := walks'.tlvEnd_eq.trans walks.tlvEnd_eq.symm
      have prot_eq : it'.protEnd = it.protEnd := walks'.protEnd_eq.trans walks.protEnd_eq.symm
      have isProt : bootutilTlvIterIsProt (it'.shift fap' d) (off + d) =
          bootutilTlvIterIsProt it' off := by
        simp [bootutilTlvIterIsProt, ImageTlvIter.shift]
      simp only [TlvNext.shift, validateTlv_congr (copied.read le), isProt]
      split_ifs
      · rfl
      · cases validateTlv b fap hash off len st type with
        | none => rfl
        | some st' =>
          obtain ⟨-, enough⟩ := enough
          obtain ⟨-, enough'⟩ := enough'
          exact ih walks' (end_eq ▸ copied) (by omega) ⟨by omega, by omega⟩ ⟨by omega, by omega⟩

theorem tlvStart_zero_add (hdr : ImageHeader) (d : Nat) : tlvStart hdr d = tlvStart hdr 0 + d := by
  unfold tlvStart
  omega

variable (copied : Copied fap fap' d (imageSize hdr fap 0))
include copied

theorem bootutilTlvIterBegin_shift {prot : Bool}
    (room : tlvProtEnd hdr 0 + 4 ≤ imageSize hdr fap 0) (begun : bootutilTlvIterBegin hdr fap 0 type prot = some it) :
    bootutilTlvIterBegin hdr fap' d type prot = some (it.shift fap' d) := by
  have lt' := fap'.faSize_lt
  have fits := copied.fits
  have fits' := copied.fits'
  have prot_eq := tlvStart_add hdr 0
  have start_eq := tlvStart_zero_add hdr d
  -- both walks read the same info headers
  have info_eq : readTlvInfo hdr fap' (tlvStart hdr d) = readTlvInfo hdr fap (tlvStart hdr 0) := by
    rw [start_eq, readTlvInfo, readTlvInfo, copied.read (by omega)]
    cases flashAreaRead fap (tlvStart hdr 0) 4 with
    | none => rfl
    | some info =>
      simp only
      split_ifs with protMagic differ
      · rfl
      · rw [← Decidable.not_not.mp differ, Nat.add_right_comm, prot_eq, u32_of_lt (by omega),
          u32_of_lt (by omega), copied.read room]
      · rfl
      · rfl
  have end_eq : imageSize hdr fap 0 = tlvProtEnd hdr 0 + tlvTot hdr fap 0 := by
    unfold imageSize tlvProtEnd
    omega
  obtain ⟨-, rfl⟩ := bootutilTlvIterBegin_spec (by omega) begun
  rw [bootutilTlvIterBegin, bootTlvOff_add (by omega)] at begun ⊢
  rw [info_eq]
  cases read : readTlvInfo hdr fap (tlvStart hdr 0) with
  | none => simp [read] at begun
  | some info =>
    simp only [read] at begun ⊢
    split_ifs at begun ⊢ with magic
    obtain ⟨-, infoBytes⟩ := flashAreaRead_eq_some (readTlvInfo_eq_some (by omega) read)
    have tot_eq : le16 info 2 = tlvTot hdr fap 0 := by
      rw [infoBytes]
      simp [le16, tlvTot]
    rw [start_eq, tot_eq, Nat.add_right_comm, prot_eq, u32_of_lt (by omega), u32_of_lt (by omega),
      Nat.zero_add, u32_of_lt (by omega), u32_of_lt (by omega)]
    simp only [ImageTlvIter.shift, end_eq, Nat.add_right_comm]

/-- The verdict on a copy that stands `d` bytes up, for maxima that both allow the image or both refuse it. -/
theorem bootutilImgValidate_shift_eq (room : tlvProtEnd hdr 0 + 4 ≤ imageSize hdr fap 0)
    (begun : bootutilTlvIterBegin hdr fap 0 imageTlvAny false = some it)
    (allowed : imageSize hdr fap 0 ≤ maxImageSize' ↔ imageSize hdr fap 0 ≤ maxImageSize) :
    bootutilImgValidate b hdr fap' d maxImageSize' seed = bootutilImgValidate b hdr fap 0 maxImageSize seed := by
  have lt := fap.faSize_lt
  have fits := copied.fits
  have fits' := copied.fits'
  have prot_eq : tlvProtEnd hdr d = tlvProtEnd hdr 0 + d := by
    unfold tlvProtEnd
    omega
  have hash_eq : hashedBytes hdr fap' d = hashedBytes hdr fap 0 := by
    apply List.map_congr_left
    intro i mem
    have small := List.mem_range.mp mem
    rw [Nat.add_comm d, Nat.zero_add]
    exact copied.same i (by unfold imageSize; omega)
  obtain ⟨-, it_eq⟩ := bootutilTlvIterBegin_spec (by omega) begun
  have tlvEnd_eq : it.tlvEnd = imageSize hdr fap 0 := by
    rw [it_eq, Nat.zero_add, u32_of_lt (by omega)]
  have walks : it.Walks hdr fap 0 := by
    refine ⟨?_, ?_, ?_, by omega, by omega, ?_, ?_⟩ <;> simp only [it_eq]
    · omega
    · exact .first
  have same : imgValidateLoop b fap' (b.sha (seed ++ hashedBytes hdr fap 0))
        ((it.shift fap' d).tlvEnd + 1) (it.shift fap' d) (.init b) =
      imgValidateLoop b fap (b.sha (seed ++ hashedBytes hdr fap 0)) (it.tlvEnd + 1) it (.init b) :=
    imgValidateLoop_shift walks (tlvEnd_eq ▸ copied) (by rw [walks.protEnd_eq]; omega)
      ⟨by omega, by omega⟩ ⟨by omega, by simp only [ImageTlvIter.shift]; omega⟩
  unfold bootutilImgValidate
  rw [bootutilImgHash_of_le seed (by omega), bootutilImgHash_of_le seed (by omega), hash_eq,
    bootutilTlvIterBegin_shift copied room begun, begun]
  dsimp only
  rw [same]
  -- both maxima are compared with the size of the image
  have end_eq : u32 (it.tlvEnd + 2 ^ 32 - 0) = imageSize hdr fap 0 := by
    rw [tlvEnd_eq, u32]
    omega
  have end_eq' : u32 ((it.shift fap' d).tlvEnd + 2 ^ 32 - d) = imageSize hdr fap 0 := by
    simp only [ImageTlvIter.shift, tlvEnd_eq, u32]
    omega
  by_cases le : imageSize hdr fap 0 ≤ maxImageSize
  · rw [if_neg (by omega), if_neg (by omega)]
  · rw [if_pos (by omega), if_pos (by omega)]

theorem bootutilImgValidate_shift
    (exact : imageSize hdr fap 0 = fap.faSize) (le : imageSize hdr fap 0 ≤ maxImageSize')
    (valid : bootutilImgValidate b hdr fap 0 maxImageSize seed = true) :
    bootutilImgValidate b hdr fap' d maxImageSize' seed = true := by
  have lt := fap.faSize_lt
  obtain ⟨it, begun⟩ := bootutilImgValidate_begun valid
  have hashed := bootutilImgValidate_hashed valid
  obtain ⟨room, it_eq⟩ := bootutilTlvIterBegin_spec hashed begun
  have tlvEnd_eq : it.tlvEnd = imageSize hdr fap 0 := by
    rw [it_eq, Nat.zero_add, u32_of_lt (by omega)]
  have fits : imageSize hdr fap 0 ≤ maxImageSize := by
    have max := bootutilImgValidate_le begun valid
    rw [tlvEnd_eq, u32] at max
    omega
  rw [bootutilImgValidate_shift_eq copied (by omega) begun ⟨fun _ => fits, fun _ => le⟩]
  exact valid

end Shift

/-! ### Images -/

/-- The bytes of an image that the build accepts, without any behind its TLVs. -/
structure Image (b : ValidateBuild) where
  bytes : Bytes
  length_lt : bytes.length < 2 ^ 32
  header_le : imageHeaderSize ≤ bytes.length
  size_eq : imageSize (.decode bytes) (.ofBytes bytes length_lt) 0 = bytes.length
  magic : (ImageHeader.decode bytes).ihMagic = imageMagic
  plain : (ImageHeader.decode bytes).isEncrypted = false ∧ (ImageHeader.decode bytes).isCompressed = false
  bootable : (ImageHeader.decode bytes).ihFlags &&& imageFNonBootable = 0
  valid : bootutilImgValidate b (.decode bytes) (.ofBytes bytes length_lt) 0 bytes.length [] = true

namespace Image

variable {b : ValidateBuild} (img : Image b)

def hdr : ImageHeader := .decode img.bytes

def size : Nat := img.bytes.length

theorem validAt {fap : FlashArea} {d maxImageSize : Nat}
    (held : ∀ i, i < img.size → fap.byte (d + i) = img.bytes.getD i 0)
    (fits : d + img.size ≤ fap.faSize) (le : img.size ≤ maxImageSize) :
    bootutilImgValidate b img.hdr fap d maxImageSize [] = true := by
  have size_eq : imageSize img.hdr (.ofBytes img.bytes img.length_lt) 0 = img.size := img.size_eq
  refine bootutilImgValidate_shift ⟨?_, ?_, ?_⟩ ?_ ?_ img.valid
  · exact Nat.le_of_eq size_eq
  · rw [size_eq, Nat.add_comm]
    exact fits
  · intro i lt
    rw [size_eq] at lt
    rw [Nat.add_comm, held i lt]
    have inside : i < img.bytes.length := lt
    simp [FlashArea.ofBytes, List.getD, inside]
  · exact size_eq
  · rw [size_eq]
    exact le

theorem tlvInfo_le : img.hdr.hashedSize + 4 ≤ img.size := by
  obtain ⟨it, begun⟩ := bootutilImgValidate_begun img.valid
  have hashed := bootutilImgValidate_hashed img.valid
  have room := (bootutilTlvIterBegin_spec hashed begun).1
  simp only [tlvProtEnd, FlashArea.ofBytes, Nat.zero_add] at room
  exact room

theorem hashedSize_lt : img.hdr.hashedSize < img.size := Nat.lt_of_lt_of_le (by omega) img.tlvInfo_le

def tlvSize : Nat := img.size - img.hdr.hashedSize

theorem tlvSize_lt : img.tlvSize < 65536 := by
  have size_eq : img.hdr.hashedSize + tlvTot img.hdr (.ofBytes img.bytes img.length_lt) 0 =
      img.size := img.size_eq
  have tot_lt := tlvTot_lt img.hdr (.ofBytes img.bytes img.length_lt) 0
  unfold tlvSize
  omega

theorem headerValid {faSize : Nat} (lt : faSize < 2 ^ 32) (le : img.size ≤ faSize) :
    img.hdr.bootCheckHeaderValid faSize = true := by
  rw [ImageHeader.bootCheckHeaderValid_iff _ lt]
  exact ⟨img.magic, by have := img.hashedSize_lt; omega, img.plain⟩

def check (b : ValidateBuild) (bytes : Bytes) : Bool :=
  if lt : bytes.length < 2 ^ 32 then
    let hdr := ImageHeader.decode bytes
    imageHeaderSize ≤ bytes.length && imageSize hdr (.ofBytes bytes lt) 0 == bytes.length &&
      hdr.ihMagic == imageMagic && !hdr.isEncrypted && !hdr.isCompressed &&
      hdr.ihFlags &&& imageFNonBootable == 0 &&
      bootutilImgValidate b hdr (.ofBytes bytes lt) 0 bytes.length []
  else false

theorem check_spec {bytes : Bytes} (ok : check b bytes = true) :
    ∃ lt : bytes.length < 2 ^ 32, imageHeaderSize ≤ bytes.length ∧
      imageSize (.decode bytes) (.ofBytes bytes lt) 0 = bytes.length ∧ (ImageHeader.decode bytes).ihMagic = imageMagic ∧
      (ImageHeader.decode bytes).isEncrypted = false ∧ (ImageHeader.decode bytes).isCompressed = false ∧
      (ImageHeader.decode bytes).ihFlags &&& imageFNonBootable = 0 ∧
      bootutilImgValidate b (.decode bytes) (.ofBytes bytes lt) 0 bytes.length [] = true := by
  unfold check at ok
  split at ok
  next lt =>
    refine ⟨lt, ?_⟩
    simpa only [Bool.and_eq_true, beq_iff_eq, decide_eq_true_eq, Bool.not_eq_true', and_assoc] using ok
  next => simp at ok

def ofBytes (b : ValidateBuild) (bytes : Bytes) (ok : check b bytes = true) : Image b where
  bytes
  length_lt := (check_spec ok).1
  header_le := (check_spec ok).2.1
  size_eq := (check_spec ok).2.2.1
  magic := (check_spec ok).2.2.2.1
  plain := ⟨(check_spec ok).2.2.2.2.1, (check_spec ok).2.2.2.2.2.1⟩
  bootable := (check_spec ok).2.2.2.2.2.2.1
  valid := (check_spec ok).2.2.2.2.2.2.2

end Image

/-- A build that checks the digest of images and no signature. -/
def hashBuild : ValidateBuild := { signedBuild with signature := none, useTlvAllowList := false }

/-- The packed image with a body, for `hashBuild`. -/
def hashedImage (body : Bytes) : Bytes := packImage body (tlvRecord 0x10 (sumDigest (packHeader body)))

theorem check_hashedImage_nil : Image.check hashBuild (hashedImage []) = true := by decide +kernel

end Adaboot
