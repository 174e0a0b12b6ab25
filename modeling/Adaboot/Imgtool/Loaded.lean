import Adaboot.Image.EncHash
import Adaboot.Image.TlvList
import Adaboot.Imgtool.Layout

/-!
# A created image in the boot loader

The boot loader derives all ranges of a created image from the header, digests what `imgtool` digested, and finds the
records that `imgtool` added.
-/

namespace Adaboot.Imgtool

open SerialEncryption (KeyStream plainByte)

/-! ### Records in the little byte order -/

def Record.typed (r : Record) : TypedPayload := (r.kind.type, r.payload)

theorem Record.encode_little (r : Record) : r.encode .little = tlvRecord r.typed.1 r.typed.2 := by
  cases kind : r.kind with
  | named v =>
    -- the zero byte behind a name is the upper byte of the type
    have high : v.value / 256 = 0 := Nat.div_eq_of_lt v.value_lt
    simp [encode, typed, kind, Kind.bytes, Kind.type, tlvRecord, Endian.order, put16, high]
  | custom n => simp [encode, typed, kind, Kind.bytes, Kind.type, tlvRecord, Endian.order]

theorem encodeAll_little (rs : List Record) : encodeAll .little rs = tlvRecords (rs.map Record.typed) := by
  induction rs with
  | nil => rfl
  | cons r rs ih => rw [encodeAll_cons, ih, r.encode_little, List.map_cons, tlvRecords_cons]

theorem areaBytes_little (magic : Nat) (rs : List Record) :
    areaBytes .little magic rs = if rs.map Record.typed = [] then [] else tlvArea magic (rs.map Record.typed) := by
  rw [areaBytes, encodeAll_little]
  simp only [List.map_eq_nil_iff]
  rfl

theorem fit_typed {rs : List Record} (writable : ∀ r ∈ rs, r.Writable) : Fit (rs.map Record.typed) := by
  intro t mem
  obtain ⟨r, there, rfl⟩ := List.mem_map.mp mem
  exact ⟨Nat.lt_trans (writable r there).type_lt (by decide), (writable r there).length_lt⟩

/-! ### Where an image belongs -/

/-- An encrypted body is for the secondary slot. With the flag and a clear body (`--clear`) it is for the primary slot.
-/
def CreateArgs.MeantFor (args : CreateArgs) (secondary : Bool) : Prop :=
  if args.cipher.isSome then secondary = true else args.enckey = none ∨ secondary = false

theorem CreateArgs.encryptedFlag_cases (args : CreateArgs) : (args.enckey.isSome = false ∧ args.encryptedFlag = 0) ∨
      (args.enckey.isSome = true ∧ (args.encryptedFlag = 4 ∨ args.encryptedFlag = 8)) := by
  unfold encryptedFlag
  cases args.enckey with
  | none => exact .inl ⟨rfl, rfl⟩
  | some key =>
    right
    simp only
    split <;> simp

variable {hdr : ImageHeader} {img : SourceImage} {args : CreateArgs} {size : Nat} {payload : Bytes}

theorem Describes.isEncrypted
    (describes : Describes hdr img args size payload) : hdr.isEncrypted = args.enckey.isSome := by
  have flags : hdr.ihFlags = .ofNat (headerFlags img args) := by
    rw [← describes.flags, UInt32.ofNat_toNat]
  unfold ImageHeader.isEncrypted
  rw [flags]
  unfold headerFlags CreateArgs.compressionFlags
  -- the other flags are other bits
  rcases args.encryptedFlag_cases with ⟨given, flag⟩ | ⟨given, flag | flag⟩ <;> rw [given, flag] <;>
    rcases args.compressionType with _ | _ | _ <;> split_ifs <;> rfl

theorem CreateArgs.enckey_of_cipher (some : args.cipher.isSome) : args.enckey.isSome := by
  unfold cipher wrapsKey at some
  split_ifs at some
  · simp at some
  · simp at some
  · simpa using some

theorem Describes.key {secondary : Bool} {enc : Option KeyStream} (describes : Describes hdr img args size payload)
    (meant : args.MeantFor secondary) (loaded : args.cipher.isSome → enc = args.cipher) :
    (secondary = true → hdr.isEncrypted = true → enc.isSome) ∧
      (if secondary && hdr.isEncrypted then enc else none) = args.cipher := by
  rw [describes.isEncrypted]
  unfold CreateArgs.MeantFor at meant
  split at meant
  next some =>
    rw [loaded some, meant, CreateArgs.enckey_of_cipher some]
    exact ⟨fun _ _ => some, rfl⟩
  next none =>
    rw [Bool.not_eq_true, Option.isSome_eq_false_iff, Option.isNone_iff_eq_none] at none
    rcases meant with plain | primary
    · simp [plain, none]
    · simp [primary, none]

/-! ### Decryption -/

theorem FlashArea.Contains.mapIdx {fap : FlashArea} {off : Nat} {data : Bytes} (contains : fap.Contains off data)
    (f : Nat → UInt8 → UInt8) : (List.range data.length).map (fun i => f i (fap.byte (off + i))) = data.mapIdx f := by
  apply List.ext_getElem (by simp)
  intro i _ lt
  rw [List.length_mapIdx] at lt
  simp [contains.byte lt, lt]

theorem mapIdx_storedPlain {plain : Bytes}
    (hdrSize : hdr.ihHdrSize.toNat = img.headerSize)
    (length : plain.length = hdr.ihHdrSize.toNat + hdr.ihImgSize.toNat) (lt : plain.length < 2 ^ 32) :
    (storedPlain img args plain).mapIdx (digestedByte hdr args.cipher) = plain := by
  have bootTlvOff_eq : bootTlvOff hdr = plain.length := (u32_of_lt (length ▸ lt)).trans length.symm
  unfold storedPlain
  cases cipher : args.cipher with
  | none => exact mapIdx_same fun i byte _ => rfl
  | some stream =>
    simp only [encryptBody]
    rw [List.mapIdx_append, List.mapIdx_mapIdx]
    have head : (plain.take img.headerSize).mapIdx (digestedByte hdr (some stream)) = plain.take img.headerSize := by
      apply mapIdx_same
      intro i byte lt
      simp only [List.length_take] at lt
      rw [digestedByte, plainByte, if_neg (by omega)]
    have body : (plain.drop img.headerSize).mapIdx (fun i byte =>
        digestedByte hdr (some stream) (i + (plain.take img.headerSize).length) (byte ^^^ stream i)) =
        plain.drop img.headerSize := by
      apply mapIdx_same
      intro i byte lt
      simp only [List.length_drop, List.length_take] at lt ⊢
      have place : i + min img.headerSize plain.length = img.headerSize + i := by omega
      rw [digestedByte, plainByte, place, if_pos (by omega), hdrSize, Nat.add_sub_cancel_left,
        UInt8.xor_assoc, UInt8.xor_self, UInt8.xor_zero]
    rw [head]
    exact (congrArg (plain.take img.headerSize ++ ·) body).trans (List.take_append_drop ..)

theorem storedPlain_length (img : SourceImage) (args : CreateArgs) (plain : Bytes) :
    (storedPlain img args plain).length = plain.length := by
  unfold storedPlain encryptBody
  cases args.cipher with
  | none => rfl
  | some stream =>
    simp only [List.length_append, List.length_take, List.length_mapIdx, List.length_drop]
    omega

theorem storedPlain_take (args : CreateArgs) (header rest : Bytes)
    (length : header.length ≤ img.headerSize) :
    (storedPlain img args (header ++ rest)).take header.length = header := by
  unfold storedPlain encryptBody
  cases args.cipher with
  | none => simp
  | some stream => rw [List.take_append_of_le_length (by simp [length]), List.take_take, Nat.min_eq_left length,
      List.take_left]

/-! ### The agreement -/

section Agreement

variable {lib : Lib} {img : SourceImage} {args : CreateArgs} {out : Created}

theorem create_eq_some (created : create lib img args = some out) :
    ∃ em hdr, emit lib img args = some em ∧ em.Laid lib img args hdr ∧
      out.image.payload = storedPlain img args em.plain ++ em.prot ++ em.tlv ∧
      out.imageHash = lib.sha em.sha em.region := by
  simp only [create, Option.bind_eq_bind, Option.bind_eq_some_iff] at created
  obtain ⟨em, emitted, checked⟩ := created
  split at checked
  next =>
    obtain ⟨hdr, laid⟩ := emit_eq_some emitted
    simp only [Option.pure_def, Option.some.injEq] at checked
    subst checked
    exact ⟨em, hdr, emitted, laid, rfl, rfl⟩
  next => simp at checked

theorem Emitted.Laid.contains {em : Emitted} {hdr : ImageHeader} {fap : FlashArea} {startOff : Nat}
    (laid : em.Laid lib img args hdr) (min : 32 ≤ img.headerSize)
    (contains : fap.Contains startOff (storedPlain img args em.plain ++ em.prot ++ em.tlv)) :
    fap.Contains startOff (headerBytes img.endian hdr) ∧
      fap.Contains startOff (storedPlain img args em.plain ++ em.prot) ∧
      fap.Contains (tlvStart hdr startOff) (em.prot ++ em.tlv) := by
  have long : 32 ≤ (paddedPayload img args).length := by
    have := laid.describes.hdrSize
    have := laid.describes.imgSize
    omega
  have length := laid.plain_length long
  refine ⟨?_, (FlashArea.contains_append.mp contains).1, ?_⟩
  · rw [List.append_assoc, FlashArea.contains_append] at contains
    have short : (headerBytes img.endian hdr).length ≤ img.headerSize := by simpa using min
    have header := storedPlain_take args _ ((paddedPayload img args).drop 32) short
    rw [← laid.plain, headerBytes_length] at header
    rw [← List.take_append_drop 32 (storedPlain img args em.plain), FlashArea.contains_append, header] at contains
    exact contains.1.1
  · rw [List.append_assoc, FlashArea.contains_append, storedPlain_length, length, ← Nat.add_assoc] at contains
    exact contains.2

/-- The boot loader digests the bytes whose digest is stored, the size in the header is that of the protected area, and
the iterator yields the records that were added, in their order. -/
theorem loader_reads_created_image (little : img.endian = .little) (min : 32 ≤ img.headerSize)
    (created : create lib img args = some out) {fap : FlashArea} {startOff : Nat}
    (contains : fap.Contains startOff out.image.payload) {secondary : Bool} (meant : args.MeantFor secondary)
    {enc : Option KeyStream} (loaded : args.cipher.isSome → enc = args.cipher) {tmpBufSz : Nat} (pos : 0 < tmpBufSz) :
    ∃ em hdr, emit lib img args = some em ∧
      (flashAreaRead fap startOff imageHeaderSize).map ImageHeader.decode = some hdr ∧
      em.tlvs.head? = some ⟨.named em.sha.tlv, lib.sha em.sha em.region⟩ ∧
      imgHashEncInput tmpBufSz hdr fap secondary enc startOff [] = some em.region ∧
      (args.cipher = none → ∀ b : ValidateBuild, bootutilImgHash b hdr fap startOff [] = some (b.sha em.region)) ∧
      hdr.ihProtectTlvSize.toNat = em.prot.length ∧ ∀ type prot, imageTlvs hdr fap startOff type prot =
        some (((if prot then em.prots else em.prots ++ em.tlvs).map Record.typed).filter (wanted type)) := by
  obtain ⟨em, hdr, emitted, laid, stored, -⟩ := create_eq_some created
  rw [stored] at contains
  obtain ⟨header, region, areas⟩ := laid.contains min contains
  have length : em.plain.length = hdr.ihHdrSize.toNat + hdr.ihImgSize.toNat := by
    apply laid.plain_length
    have := laid.describes.hdrSize
    have := laid.describes.imgSize
    omega
  have hashed : hdr.hashedSize = (storedPlain img args em.plain ++ em.prot).length := by
    rw [List.length_append, storedPlain_length, length, ← laid.describes.protSize, ImageHeader.hashedSize]
  have lt := fap.faSize_lt
  have le := region.le
  rw [← hashed] at le
  have plainLt : em.plain.length < 2 ^ 32 := by
    rw [hashed, List.length_append, storedPlain_length] at le
    omega
  obtain ⟨keyed, key⟩ := laid.describes.key meant loaded
  -- what the loader digests: the stored bytes, decrypted
  have digested : (List.range hdr.hashedSize).map
      (fun i => digestedByte hdr args.cipher i (fap.byte (startOff + i))) = em.region := by
    rw [hashed, FlashArea.Contains.mapIdx region, List.mapIdx_append,
      mapIdx_storedPlain laid.describes.hdrSize length plainLt, mapIdx_same, Emitted.region]
    intro i byte _
    rw [storedPlain_length]
    cases args.cipher with
    | none => rfl
    | some stream =>
      have bootTlvOff_eq : bootTlvOff hdr = em.plain.length := (u32_of_lt (length ▸ plainLt)).trans length.symm
      rw [digestedByte, plainByte, if_neg (by omega)]
  obtain ⟨rest, tlvs⟩ := laid.tlvs_head
  have read : (flashAreaRead fap startOff imageHeaderSize).map ImageHeader.decode = some hdr := by
    have bytes : flashAreaRead fap startOff imageHeaderSize = some (headerBytes img.endian hdr) := by
      simpa [FlashArea.Contains, imageHeaderSize] using header
    rw [bytes, little]
    exact congrArg some (decode_headerBytes hdr)
  refine ⟨em, hdr, emitted, read, by rw [tlvs]; rfl, ?_, ?_, laid.describes.protSize, ?_⟩
  · have loaded : ¬((secondary && hdr.isEncrypted) = true ∧ enc.isNone = true) := by
      rintro ⟨must, none⟩
      rw [Bool.and_eq_true] at must
      simp [Option.isNone_iff_eq_none.mp none] at keyed
      exact absurd must.2 (by simp [keyed must.1])
    rw [imgHashEncInput_eq pos, if_neg loaded, if_pos (by exact le), key, digestedBytes, digested]
    rfl
  · intro plain b
    have fits : tlvProtEnd hdr startOff ≤ fap.faSize := le
    simp only [plain, digestedByte] at digested
    rw [bootutilImgHash_of_le [] fits, List.nil_append, hashedBytes, digested]
  · intro type prot
    have prot_eq := laid.prot
    have tlv_eq := laid.tlv
    rw [little, areaBytes_little] at prot_eq tlv_eq
    rw [if_neg (by simp [tlvs])] at tlv_eq
    have size : hdr.ihProtectTlvSize.toNat =
        if em.prots.map Record.typed = [] then 0 else 4 + (tlvRecords (em.prots.map Record.typed)).length := by
      rw [laid.describes.protSize, prot_eq]
      split
      next => rfl
      next => exact tlvArea_length ..
    rw [prot_eq, tlv_eq] at areas
    have lengthLt := laid.tlv_length
    rw [tlv_eq] at lengthLt
    rw [imageTlvs_eq size areas lengthLt (fit_typed laid.protsWritable) (fit_typed laid.tlvsWritable)]
    cases prot <;> simp

end Agreement

/-! ### An encrypted image -/

/-- A library whose hashes have no collisions: the digest is the data, with a byte that tells the hash. -/
def plainLib : Lib where
  sha sha data := .ofNat sha.tlv.value :: data
  digestSize _ := 32
  dumps component := component.swSignerId
  uuid5 ns _ := ns
  isprintable _ := true

def sampleImage (endian : Endian) (body : Bytes) : SourceImage where
  align := 4
  maxSectors := none
  overwriteOnly := false
  maxAlign := 8
  slotSize := 4096
  erasedVal := 0xff
  enckey := none
  saveEnctlv := false
  confirm := false
  test := false
  endian := endian
  payload := List.replicate 32 0 ++ body
  version := ⟨1, 2, 3, 4⟩
  headerSize := 32
  loadAddr := 0
  romFixed := none
  securityCounter := some 7
  nonBootable := false
  vid := none
  cid := none
  imageSize := body.length

def sampleArgs (enckey : Option WrappedKey) : CreateArgs where
  key := none
  fullPublicKey := false
  enckey := enckey
  dependencies := some ⟨[1], [⟨1, 0, 0, 0⟩]⟩
  swType := none
  customTlvs := some [(0xa0, [0x5a, 0xa5])]
  compressionTlvs := none
  compressionType := none
  clear := false
  fixedSig := none
  pubKey := none
  userSha := none
  isPure := false
  keepCompSize := false
  dontEncrypt := false

def sampleKey : WrappedKey where
  enc := ⟨.x25519 false, false⟩
  enctlv := List.replicate 80 0x11
  stream i := .ofNat (i + 1)
  enctlv_length := rfl

def sampleEncrypted : Created :=
  (create plainLib (sampleImage .little [1, 2, 3, 4, 5]) (sampleArgs (some sampleKey))).get rfl

theorem sampleEncrypted_lt : sampleEncrypted.image.payload.length < 2 ^ 32 := by decide

theorem loader_reads_encrypted_image :
    let area := FlashArea.ofBytes sampleEncrypted.image.payload sampleEncrypted_lt
    ∃ em hdr, emit plainLib (sampleImage .little [1, 2, 3, 4, 5]) (sampleArgs (some sampleKey)) = some em ∧
      (flashAreaRead area 0 imageHeaderSize).map ImageHeader.decode = some hdr ∧
      imgHashEncInput 64 hdr area true (some sampleKey.stream) 0 [] = some em.region := by
  have created : create plainLib (sampleImage .little [1, 2, 3, 4, 5]) (sampleArgs (some sampleKey)) =
      some sampleEncrypted := (Option.some_get _).symm
  have meant : (sampleArgs (some sampleKey)).MeantFor true := rfl
  obtain ⟨em, hdr, emitted, header, -, digested, -⟩ :=
    loader_reads_created_image rfl (by decide) created (FlashArea.ofBytes_contains sampleEncrypted_lt) meant
      (fun _ => rfl) (show 0 < 64 by decide)
  exact ⟨em, hdr, emitted, header, digested⟩

end Adaboot.Imgtool
