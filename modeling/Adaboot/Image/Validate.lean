import Adaboot.Image.Pack
import Adaboot.Image.Tlv

/-!
# Image validation

`bootutil_img_hash` and `bootutil_img_validate`, over any digest and signature check. A validated image carries its
digest and, if signatures are checked, one that verifies under a built-in key.
-/

namespace Adaboot

def imageTlvKeyhash : Nat := 0x01
def imageTlvSecCnt : Nat := 0x50
def imageTlvUuidVid : Nat := 0x74
def imageTlvUuidCid : Nat := 0x75

/-- `allowed_unprot_tlvs`: key, digest, signature and encryption records. -/
def allowedUnprotTlvs : List Nat := [0x01, 0x02, 0x10, 0x11, 0x12, 0x20, 0x21, 0x22, 0x23, 0x24, 0x30, 0x31, 0x32, 0x33]

/-- How `key_id` is chosen: `MCUBOOT_BUILTIN_KEY` passes the image index, the others call `bootutil_find_key`, which
compares digests unless `MCUBOOT_BYPASS_KEY_MATCH` accepts any. -/
inductive KeyMode where
  | lookup
  | bypass
  | builtin (imageIndex : Nat)
deriving DecidableEq

/-- The signature scheme of a build that checks signatures. -/
structure SignatureBuild where
  expectedSigTlv : Nat
  sigBufSize : Nat
  expectedSigLen : Nat → Bool
  keyMode : KeyMode
  bootutilKeys : List Bytes
  /-- `bootutil_verify_sig` of digest, signature and key number. -/
  verifySig : Bytes → Bytes → Nat → Bool

/-- `EXPECTED_KEY_TLV` is defined. -/
def SignatureBuild.usesKeyTlv (sig : SignatureBuild) : Bool :=
  match sig.keyMode with
  | .builtin _ => false
  | _ => true

/-- `MCUBOOT_HW_ROLLBACK_PROT`: the stored counter, and whether it can still be raised to a value. -/
structure RollbackBuild where
  nvSecurityCounter : Option Nat
  isUpdatePossible : Option (Nat → Bool)

structure ValidateBuild where
  expectedHashTlv : Nat
  imageHashSize : Nat
  sha : Bytes → Bytes
  tmpBufSz : Nat
  tmpBufSz_pos : 0 < tmpBufSz
  signature : Option SignatureBuild
  useTlvAllowList : Bool
  rollback : Option RollbackBuild
  uuidVidMatch : Option (Bytes → Bool)
  uuidCidMatch : Option (Bytes → Bool)

/-- The loop of `bootutil_img_hash` that feeds the image to the digest a buffer at a time. -/
def imgHashLoop (fap : FlashArea) (sectorOff size tmpBufSz : Nat) : Nat → Nat → Bytes → Option Bytes
  | 0, _, _ => none
  | fuel + 1, off, fed =>
    if off < size then
      let blkSz := if size - off > tmpBufSz then tmpBufSz else size - off
      match flashAreaRead fap (off + sectorOff) blkSz with
      | none => none
      | some blk => imgHashLoop fap sectorOff size tmpBufSz fuel (off + blkSz) (fed ++ blk)
    else some fed

def bootutilImgHash (b : ValidateBuild) (hdr : ImageHeader) (fap : FlashArea) (sectorOff : Nat)
    (seed : Bytes) : Option Bytes :=
  match bootU32SafeAdd hdr.ihImgSize.toNat hdr.ihHdrSize.toNat with
  | none => none
  | some size => match bootU32SafeAdd size hdr.ihProtectTlvSize.toNat with
    | none => none
    | some size => match bootU32SafeAdd size sectorOff with
      | none => none
      | some stop =>
        if stop > fap.faSize then none
        else (imgHashLoop fap sectorOff size b.tmpBufSz (size + 1) 0 seed).map b.sha

/-- `bootutil_find_key`: the first built-in key whose digest starts with the given bytes. -/
def bootutilFindKey (b : ValidateBuild) (sig : SignatureBuild) (keyhash : Bytes) : Int :=
  match sig.keyMode with
  | .bypass => 0
  | _ =>
    if keyhash.length > b.imageHashSize then -1
    else match sig.bootutilKeys.findIdx? fun key => (b.sha key).take keyhash.length == keyhash with
      | none => -1
      | some i => i

/-- The variables that `bootutil_img_validate` carries from record to record. -/
structure ValidateState where
  fihRc : Bool
  imageHashValid : Bool
  keyId : Int
  validSignature : Bool
  securityCounterValid : Bool
  uuidVidValid : Bool
  uuidCidValid : Bool

def ValidateState.init (b : ValidateBuild) : ValidateState where
  fihRc := false
  imageHashValid := false
  keyId := match b.signature with
    | some { keyMode := .builtin imageIndex, .. } => imageIndex
    | _ => -1
  validSignature := false
  securityCounterValid := false
  uuidVidValid := false
  uuidCidValid := false

section Records

variable (b : ValidateBuild) (fap : FlashArea) (hash : Bytes) (off len : Nat) (st : ValidateState)

/-- `case EXPECTED_HASH_TLV`. -/
def validateHashTlv : Option ValidateState :=
  if len ≠ b.imageHashSize then none
  else match flashAreaRead fap off b.imageHashSize with
    | none => none
    | some buf => if hash = buf then some { st with fihRc := true, imageHashValid := true } else none

/-- `case EXPECTED_KEY_TLV`. An unknown key is acceptable: another one may follow. -/
def validateKeyTlv (sig : SignatureBuild) : Option ValidateState :=
  if len > b.imageHashSize then none
  else match flashAreaRead fap off len with
    | none => none
    | some buf => some { st with keyId := bootutilFindKey b sig buf }

/-- `case EXPECTED_SIG_TLV`. The last signature that is checked decides. -/
def validateSigTlv (sig : SignatureBuild) : Option ValidateState :=
  if st.keyId < 0 ∨ st.keyId ≥ sig.bootutilKeys.length then some { st with keyId := -1 }
  else if !sig.expectedSigLen len || len > sig.sigBufSize then none
  else match flashAreaRead fap off len with
    | none => none
    | some buf =>
      some { st with validSignature := sig.verifySig hash buf st.keyId.toNat, keyId := -1 }

/-- `case IMAGE_TLV_SEC_CNT`. -/
def validateSecCntTlv (rollback : RollbackBuild) : Option ValidateState :=
  if len ≠ 4 then none
  else match flashAreaRead fap off len, rollback.nvSecurityCounter with
    | some buf, some securityCnt =>
      if le32 buf 0 < securityCnt then none
      else if le32 buf 0 > securityCnt ∧ rollback.isUpdatePossible.any (fun p => !p (le32 buf 0)) then
        none
      else some { st with fihRc := true, securityCounterValid := true }
    | _, _ => none

/-- `case IMAGE_TLV_UUID_VID` and `case IMAGE_TLV_UUID_CID` up to the flag they set. -/
def validateUuidTlv (uuidMatch : Bytes → Bool) (valid : ValidateState → ValidateState) : Option ValidateState :=
  if len ≠ 16 then none
  else match flashAreaRead fap off len with
    | none => none
    | some buf => if uuidMatch buf then some (valid { st with fihRc := true }) else none

/-- The cases of the `switch` that do not concern digest and signature. Types without a case in
the build are ignored. -/
def validateOtherTlv (type : Nat) : Option ValidateState :=
  if type = imageTlvSecCnt then
    match b.rollback with
    | some rollback => validateSecCntTlv fap off len st rollback
    | none => some st
  else if type = imageTlvUuidVid then
    match b.uuidVidMatch with
    | some vid => validateUuidTlv fap off len st vid fun st => { st with uuidVidValid := true }
    | none => some st
  else if type = imageTlvUuidCid then
    match b.uuidCidMatch with
    | some cid => validateUuidTlv fap off len st cid fun st => { st with uuidCidValid := true }
    | none => some st
  else some st

/-- The `switch` over the type of a record. -/
def validateTlv (type : Nat) : Option ValidateState :=
  if type = b.expectedHashTlv then validateHashTlv b fap hash off len st
  else match b.signature with
    | none => validateOtherTlv b fap off len st type
    | some sig =>
      if type = imageTlvKeyhash ∧ sig.usesKeyTlv then validateKeyTlv b fap off len st sig
      else if type = sig.expectedSigTlv then validateSigTlv fap hash off len st sig
      else validateOtherTlv b fap off len st type

end Records

/-- The loop over the records. `none` is a `goto out`, all of which end in failure. -/
def imgValidateLoop (b : ValidateBuild) (fap : FlashArea) (hash : Bytes) :
    Nat → ImageTlvIter → ValidateState → Option ValidateState
  | 0, _, _ => none
  | fuel + 1, it, st =>
    match bootutilTlvIterNext it with
    | .error => none
    | .notFound => some st
    | .found it off len type =>
      if b.useTlvAllowList ∧ !bootutilTlvIterIsProt it off ∧ type ∉ allowedUnprotTlvs then none
      else match validateTlv b fap hash off len st type with
        | none => none
        | some st => imgValidateLoop b fap hash fuel it st

/-- `bootutil_img_validate` without `MCUBOOT_SIGN_PURE` and `MCUBOOT_HW_KEY`. `maxImageSize` is what
`bootutil_max_image_size` returns for the area. -/
def bootutilImgValidate (b : ValidateBuild) (hdr : ImageHeader) (fap : FlashArea)
    (startOff maxImageSize : Nat) (seed : Bytes) : Bool :=
  match bootutilImgHash b hdr fap startOff seed with
  | none => false
  | some hash =>
    match bootutilTlvIterBegin hdr fap startOff imageTlvAny false with
    | none => false
    | some it =>
      if u32 (it.tlvEnd + 2 ^ 32 - startOff) > maxImageSize then false
      else match imgValidateLoop b fap hash (it.tlvEnd + 1) it (.init b) with
        | none => false
        | some st =>
          st.imageHashValid && (if b.signature.isSome then st.validSignature else st.fihRc) &&
            (b.rollback.isNone || st.securityCounterValid) &&
            (b.uuidVidMatch.isNone || st.uuidVidValid) && (b.uuidCidMatch.isNone || st.uuidCidValid)

/-- Only the signatures of the image are in question. -/
structure OtherwiseValid (b : ValidateBuild) (hdr : ImageHeader) (fap : FlashArea) (startOff maxImageSize : Nat)
    (seed hash : Bytes) (it : ImageTlvIter) (st : ValidateState) : Prop where
  hashed : bootutilImgHash b hdr fap startOff seed = some hash
  begun : bootutilTlvIterBegin hdr fap startOff imageTlvAny false = some it
  size : u32 (it.tlvEnd + 2 ^ 32 - startOff) ≤ maxImageSize
  walked : imgValidateLoop b fap hash (it.tlvEnd + 1) it (.init b) = some st
  digest : st.imageHashValid = true
  counter : (b.rollback.isNone || st.securityCounterValid) = true
  vid : (b.uuidVidMatch.isNone || st.uuidVidValid) = true
  cid : (b.uuidCidMatch.isNone || st.uuidCidValid) = true

theorem exists_otherwiseValid {b : ValidateBuild} {hdr : ImageHeader} {fap : FlashArea} {startOff maxImageSize : Nat}
    {seed : Bytes} (valid : bootutilImgValidate b hdr fap startOff maxImageSize seed = true) :
    ∃ hash it st, OtherwiseValid b hdr fap startOff maxImageSize seed hash it st ∧
      (if b.signature.isSome then st.validSignature else st.fihRc) = true := by
  unfold bootutilImgValidate at valid
  split at valid
  next => simp at valid
  next hash hashed =>
  split at valid
  next => simp at valid
  next it begun =>
  split at valid
  next => simp at valid
  next size =>
  split at valid
  next => simp at valid
  next st walked =>
    simp only [Bool.and_eq_true] at valid
    obtain ⟨⟨⟨⟨digest, signed⟩, counter⟩, vid⟩, cid⟩ := valid
    exact ⟨hash, it, st, ⟨hashed, begun, Nat.not_lt.mp size, walked, digest, counter, vid, cid⟩, signed⟩

/-! ### The digest -/

def hashedBytes (hdr : ImageHeader) (fap : FlashArea) (startOff : Nat) : Bytes :=
  (List.range hdr.hashedSize).map fun i => fap.byte (startOff + i)

variable {fap : FlashArea} {b : ValidateBuild} {hdr : ImageHeader} {startOff : Nat}

/-- The loop feeds the rest of the range, whatever the size of the buffer. -/
theorem imgHashLoop_eq {sectorOff size tmpBufSz : Nat} (pos : 0 < tmpBufSz)
    (fits : sectorOff + size ≤ fap.faSize) {fuel off : Nat} (fed : Bytes) (le : off ≤ size)
    (enough : size < off + fuel) : imgHashLoop fap sectorOff size tmpBufSz fuel off fed =
      some (fed ++ (List.range (size - off)).map fun i => fap.byte (sectorOff + off + i)) := by
  induction fuel generalizing off fed with
  | zero => omega
  | succ fuel ih =>
    rw [imgHashLoop]
    split
    next more =>
      -- one buffer, then the rest by induction
      simp only
      generalize h : (if size - off > tmpBufSz then tmpBufSz else size - off) = blkSz
      have blk_le : blkSz ≤ size - off := by rw [← h]; split <;> omega
      have blk_pos : 0 < blkSz := by rw [← h]; split <;> omega
      rw [flashAreaRead_of_le (by omega)]
      simp only
      rw [ih _ (by omega) (by omega)]
      have split_range : size - off = blkSz + (size - (off + blkSz)) := by omega
      rw [split_range, List.range_add, List.map_append, List.map_map, List.append_assoc]
      simp only [Function.comp_def, Nat.add_comm off sectorOff, Nat.add_assoc]
    next done =>
      have : size - off = 0 := by omega
      simp [this]

/-- The size checks of `bootutil_img_hash`: where the body ends and how much is digested. -/
def imgHashSpan (hdr : ImageHeader) (fap : FlashArea) (sectorOff : Nat) : Option (Nat × Nat) :=
  match bootU32SafeAdd hdr.ihImgSize.toNat hdr.ihHdrSize.toNat with
  | none => none
  | some tlvOff => match bootU32SafeAdd tlvOff hdr.ihProtectTlvSize.toNat with
    | none => none
    | some size => match bootU32SafeAdd size sectorOff with
      | none => none
      | some stop => if stop > fap.faSize then none else some (tlvOff, size)

/-- No sum wraps around unnoticed: the checks pass exactly if the area holds what is digested. -/
theorem imgHashSpan_eq (hdr : ImageHeader) (fap : FlashArea) (sectorOff : Nat) : imgHashSpan hdr fap sectorOff =
      if tlvProtEnd hdr sectorOff ≤ fap.faSize then some (hdr.ihHdrSize.toNat + hdr.ihImgSize.toNat, hdr.hashedSize)
      else none := by
  have lt := fap.faSize_lt
  unfold imgHashSpan bootU32SafeAdd tlvProtEnd ImageHeader.hashedSize
  by_cases fits : sectorOff + (hdr.ihHdrSize.toNat + hdr.ihImgSize.toNat + hdr.ihProtectTlvSize.toNat) ≤ fap.faSize
  · rw [if_neg (by omega), if_pos fits]
    simp only
    rw [if_neg (by omega)]
    simp only
    rw [if_neg (by omega)]
    simp only
    rw [if_neg (by omega), Nat.add_comm hdr.ihImgSize.toNat]
  · rw [if_neg fits]
    split
    next => rfl
    next h₁ =>
    obtain rfl := bootU32SafeAdd_eq_some h₁
    split
    next => rfl
    next h₂ =>
    obtain rfl := bootU32SafeAdd_eq_some h₂
    split
    next => rfl
    next h₃ =>
    obtain rfl := bootU32SafeAdd_eq_some h₃
    exact if_pos (by omega)

theorem bootutilImgHash_eq (b : ValidateBuild) (hdr : ImageHeader) (fap : FlashArea) (startOff : Nat) (seed : Bytes) :
    bootutilImgHash b hdr fap startOff seed =
      if tlvProtEnd hdr startOff ≤ fap.faSize then some (b.sha (seed ++ hashedBytes hdr fap startOff)) else none := by
  have spanned : bootutilImgHash b hdr fap startOff seed = (imgHashSpan hdr fap startOff).bind fun span =>
      (imgHashLoop fap startOff span.2 b.tmpBufSz (span.2 + 1) 0 seed).map b.sha := by
    unfold bootutilImgHash imgHashSpan
    split
    · rfl
    · split
      · rfl
      · split
        · rfl
        · split <;> rfl
  rw [spanned, imgHashSpan_eq]
  split
  next fits =>
    rw [Option.bind_some, imgHashLoop_eq b.tmpBufSz_pos fits seed (Nat.zero_le _) (by simp only; omega)]
    simp [hashedBytes]
  next => rfl

theorem bootutilImgHash_eq_some {seed hash : Bytes} (hashed : bootutilImgHash b hdr fap startOff seed = some hash) :
    tlvProtEnd hdr startOff ≤ fap.faSize ∧ hash = b.sha (seed ++ hashedBytes hdr fap startOff) := by
  rw [bootutilImgHash_eq] at hashed
  split at hashed
  next fits => exact ⟨fits, (Option.some.inj hashed).symm⟩
  next => simp at hashed

theorem bootutilImgHash_of_le (seed : Bytes) (fits : tlvProtEnd hdr startOff ≤ fap.faSize) :
    bootutilImgHash b hdr fap startOff seed = some (b.sha (seed ++ hashedBytes hdr fap startOff)) := by
  rw [bootutilImgHash_eq, if_pos fits]

/-! ### Soundness -/

section Sound

variable {b : ValidateBuild} {hdr : ImageHeader} {fap : FlashArea} {startOff : Nat} {hash : Bytes}

/-- What the flags of the loop stand for. -/
structure ValidateState.Backed (st : ValidateState) (b : ValidateBuild) (hdr : ImageHeader)
    (fap : FlashArea) (startOff : Nat) (hash : Bytes) : Prop where
  hashTlv : st.imageHashValid = true → HasTlv hdr fap startOff b.expectedHashTlv hash
  sigTlv : ∀ sig, b.signature = some sig → st.validSignature = true →
    ∃ payload keyId, HasTlv hdr fap startOff sig.expectedSigTlv payload ∧
      keyId < sig.bootutilKeys.length ∧ sig.verifySig hash payload keyId = true

theorem ValidateState.Backed.init : (ValidateState.init b).Backed b hdr fap startOff hash :=
  ⟨by simp [ValidateState.init], by simp [ValidateState.init]⟩

theorem ValidateState.Backed.congr {st st' : ValidateState}
    (backed : st.Backed b hdr fap startOff hash) (h : st'.imageHashValid = st.imageHashValid)
    (s : st'.validSignature = st.validSignature) : st'.Backed b hdr fap startOff hash :=
  ⟨fun valid => backed.hashTlv (h ▸ valid), fun sig eq valid => backed.sigTlv sig eq (s ▸ valid)⟩

variable {st st' : ValidateState} {off len type : Nat}

theorem validateHashTlv_eq_some (run : validateHashTlv b fap hash off len st = some st') :
    flashAreaRead fap off len = some hash ∧ st' = { st with fihRc := true, imageHashValid := true } := by
  unfold validateHashTlv at run
  split at run
  next => simp at run
  next size =>
  split at run
  next => simp at run
  next buf read =>
  split at run
  next same =>
    cases run
    exact ⟨Decidable.not_not.mp size ▸ same ▸ read, rfl⟩
  next => simp at run

variable {sig : SignatureBuild} {fuel : Nat} {it : ImageTlvIter}

theorem validateKeyTlv_eq_some (run : validateKeyTlv b fap off len st sig = some st') :
    ∃ buf, flashAreaRead fap off len = some buf ∧ st' = { st with keyId := bootutilFindKey b sig buf } := by
  unfold validateKeyTlv at run
  split at run
  next => simp at run
  next =>
  split at run
  next => simp at run
  next buf read =>
    cases run
    exact ⟨buf, read, rfl⟩

/-- The key number is checked before the signature is loaded. -/
theorem validateSigTlv_eq_some (run : validateSigTlv fap hash off len st sig = some st') :
    if st.keyId < 0 ∨ st.keyId ≥ sig.bootutilKeys.length then st' = { st with keyId := -1 }
    else ∃ buf, flashAreaRead fap off len = some buf ∧
      st' = { st with validSignature := sig.verifySig hash buf st.keyId.toNat, keyId := -1 } := by
  unfold validateSigTlv at run
  split at run
  next unknown => rwa [if_pos unknown, eq_comm, ← Option.some.injEq]
  next known =>
  rw [if_neg known]
  split at run
  next => simp at run
  next =>
  split at run
  next => simp at run
  next buf read =>
    cases run
    exact ⟨buf, read, rfl⟩

theorem validateOtherTlv_keeps (run : validateOtherTlv b fap off len st type = some st') :
    st'.imageHashValid = st.imageHashValid ∧ st'.keyId = st.keyId ∧ st'.validSignature = st.validSignature := by
  unfold validateOtherTlv validateSecCntTlv validateUuidTlv at run
  split_ifs at run <;> (repeat' split at run) <;> first
    | (cases run; exact ⟨rfl, rfl, rfl⟩)
    | simp at run

theorem validateTlv_backed (backed : st.Backed b hdr fap startOff hash)
    (carried : ∀ payload, flashAreaRead fap off len = some payload → HasTlv hdr fap startOff type payload)
    (run : validateTlv b fap hash off len st type = some st') : st'.Backed b hdr fap startOff hash := by
  have other (run : validateOtherTlv b fap off len st type = some st') : st'.Backed b hdr fap startOff hash :=
    backed.congr (validateOtherTlv_keeps run).1 (validateOtherTlv_keeps run).2.2
  unfold validateTlv at run
  split at run
  next eq =>
    obtain ⟨read, rfl⟩ := validateHashTlv_eq_some run
    exact ⟨fun _ => eq ▸ carried hash read, backed.sigTlv⟩
  next =>
  split at run
  next => exact other run
  next sig signed =>
  split at run
  next =>
    obtain ⟨buf, -, rfl⟩ := validateKeyTlv_eq_some run
    exact backed.congr rfl rfl
  next =>
  split at run
  next eq =>
    have run := validateSigTlv_eq_some run
    split at run
    next => exact run ▸ backed.congr rfl rfl
    next inRange =>
      obtain ⟨buf, read, rfl⟩ := run
      refine ⟨backed.hashTlv, fun sig' eq' valid => ?_⟩
      obtain rfl : sig = sig' := Option.some.inj (signed.symm.trans eq')
      exact ⟨buf, st.keyId.toNat, eq ▸ carried buf read, by omega, valid⟩
  next => exact other run

theorem imgValidateLoop_backed (walks : it.Walks hdr fap startOff) (backed : st.Backed b hdr fap startOff hash)
    (run : imgValidateLoop b fap hash fuel it st = some st') : st'.Backed b hdr fap startOff hash := by
  induction fuel generalizing it st with
  | zero => simp [imgValidateLoop] at run
  | succ fuel ih =>
    rw [imgValidateLoop] at run
    cases next : bootutilTlvIterNext it with
    | error => simp [next] at run
    | notFound =>
      simp only [next, Option.some.injEq] at run
      exact run ▸ backed
    | found it' off len type =>
      simp only [next] at run
      split at run
      next => simp at run
      next =>
      split at run
      next => simp at run
      next st₁ step =>
        have carried : ∀ payload, flashAreaRead fap off len = some payload →
            HasTlv hdr fap startOff type payload :=
          fun _ read => bootutilTlvIterNext_found walks next read
        exact ih (tlvIterNextLoop_found walks next).1 (validateTlv_backed backed carried step) run

theorem imgValidateLoop_empty (done : it.tlvEnd ≤ it.tlvOff)
    (run : imgValidateLoop b fap hash fuel it st = some st') : st' = st := by
  cases fuel with
  | zero => simp [imgValidateLoop] at run
  | succ fuel =>
    have next : bootutilTlvIterNext it = .notFound := by
      rw [bootutilTlvIterNext, tlvIterNextLoop, if_neg (by omega)]
    simp only [imgValidateLoop, next, Option.some.injEq] at run
    exact run.symm

/-- Validation succeeds only if the image is within the allowed size, a hash record holds its digest, and in builds
that check signatures a signature record verifies under a built-in key. -/
theorem bootutilImgValidate_sound (b : ValidateBuild) (hdr : ImageHeader) (fap : FlashArea)
    (startOff maxImageSize : Nat) (seed : Bytes)
    (valid : bootutilImgValidate b hdr fap startOff maxImageSize seed = true) :
    imageSize hdr fap startOff ≤ maxImageSize ∧
      HasTlv hdr fap startOff b.expectedHashTlv (b.sha (seed ++ hashedBytes hdr fap startOff)) ∧
      ∀ sig, b.signature = some sig → ∃ payload keyId, HasTlv hdr fap startOff sig.expectedSigTlv payload ∧
          keyId < sig.bootutilKeys.length ∧
          sig.verifySig (b.sha (seed ++ hashedBytes hdr fap startOff)) payload keyId = true := by
  obtain ⟨hash, it, st, ⟨hashed, begun, size, run, hashValid, -⟩, sigValid⟩ := exists_otherwiseValid valid
  obtain ⟨fits, rfl⟩ := bootutilImgHash_eq_some hashed
  obtain ⟨infoFits, rfl⟩ := bootutilTlvIterBegin_spec fits begun
  have bound := fap.faSize_lt
  have end_eq : startOff + imageSize hdr fap startOff =
      tlvProtEnd hdr startOff + tlvTot hdr fap startOff := by
    unfold imageSize tlvProtEnd
    omega
  by_cases wraps : startOff + imageSize hdr fap startOff < 2 ^ 32
  · have walks : ImageTlvIter.Walks ⟨hdr, fap, imageTlvAny, false, tlvProtEnd hdr startOff,
        tlvStart hdr startOff + 4, u32 (startOff + imageSize hdr fap startOff)⟩ hdr fap startOff :=
      ⟨rfl, rfl, rfl, u32_of_lt wraps, u32_lt _, by simp only; omega, .first⟩
    have backed := imgValidateLoop_backed walks .init run
    refine ⟨?_, backed.hashTlv hashValid, fun sig signed => ?_⟩
    · simp only [u32] at size
      omega
    · refine backed.sigTlv sig signed ?_
      simpa [signed] using sigValid
  · -- `tlv_end` has wrapped around and lies before the first record: no digest is found
    have tot_lt := tlvTot_lt hdr fap startOff
    have prot_lt := hdr.ihProtectTlvSize.toNat_lt
    have start_eq := tlvStart_add hdr startOff
    have done : u32 (startOff + imageSize hdr fap startOff) ≤ tlvStart hdr startOff + 4 := by
      unfold u32
      omega
    rw [imgValidateLoop_empty done run] at hashValid
    simp [ValidateState.init] at hashValid

end Sound

/-- A build that checks ECDSA signatures, with one key. -/
def signedBuild : ValidateBuild where
  expectedHashTlv := 0x10
  imageHashSize := 32
  sha := sumDigest
  tmpBufSz := 256
  tmpBufSz_pos := by decide
  signature := some
    { expectedSigTlv := 0x22
      sigBufSize := 128
      expectedSigLen := fun _ => true
      keyMode := .lookup
      bootutilKeys := [[7]]
      verifySig := fun hash sig _ => sig == hash.take 4 }
  useTlvAllowList := true
  rollback := none
  uuidVidMatch := none
  uuidCidMatch := none

/-- Digest, key and signature of an image for `signedBuild`. -/
def signedRecords (body : Bytes) : Bytes :=
  tlvRecord 0x10 (sumDigest (packHeader body)) ++ tlvRecord imageTlvKeyhash (sumDigest [7]) ++
    tlvRecord 0x22 ((sumDigest (packHeader body)).take 4)

theorem bootutilImgValidate_sound_signed :
    let area := FlashArea.ofBytes (packImage [1, 2, 3] (signedRecords [1, 2, 3])) (by decide)
    let hdr := ImageHeader.decode (packHeader [1, 2, 3])
    bootutilImgValidate signedBuild hdr area 0 200 [] = true ∧
      HasTlv hdr area 0 0x10 (sumDigest (hashedBytes hdr area 0)) :=
  have valid := by decide +kernel
  ⟨valid, (bootutilImgValidate_sound signedBuild _ _ 0 200 [] valid).2.1⟩

end Adaboot
