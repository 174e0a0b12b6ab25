import Adaboot.Imgtool.Tlv
import Adaboot.Serial.Decrypt

/-!
# Creating an image

`Image.create`. The size of the protected TLVs is computed before they are written. Hashes, signatures, UUIDs and CBOR
are parameters. An exception is `none`.
-/

namespace Adaboot.Imgtool

open SerialEncryption (KeyStream)

/-! ### Keys and hashes -/

inductive Sha where
  | sha256
  | sha384
  | sha512
deriving DecidableEq, Repr

/-- The name of the record of a hash. -/
def Sha.tlv : Sha → TlvValue
  | .sha256 => .sha256
  | .sha384 => .sha384
  | .sha512 => .sha512

/-- The classes of keys. -/
inductive KeyType where
  | ecdsa384p1
  | ecdsa384p1Public
  | ecdsa256p1
  | ecdsa256p1Public
  | rsa (bits3072 : Bool)
  | rsaPublic (bits3072 : Bool)
  | ed25519
  | ed25519Public
  | x25519
  | x25519Public
deriving DecidableEq, Repr

namespace KeyType

def allowedKeySha : KeyType → Option (List Sha)
  | ecdsa384p1 => some [.sha384]
  | ecdsa384p1Public => some [.sha384]
  | ecdsa256p1 => some [.sha256]
  | ecdsa256p1Public => some [.sha256, .sha512]
  | rsa _ => some [.sha256]
  | rsaPublic _ => some [.sha256]
  | ed25519 => some [.sha256, .sha512]
  | ed25519Public => some [.sha256, .sha512]
  | x25519 => some [.sha256, .sha512]
  | x25519Public => none

def allowedPureKeySha : KeyType → Option (List Sha)
  | ed25519 => some [.sha512]
  | _ => none

/-- `sig_tlv`. The name that X25519 keys give is not in `TLV_VALUES`. -/
def sigTlv : KeyType → Option TlvValue
  | ecdsa384p1 | ecdsa384p1Public | ecdsa256p1 | ecdsa256p1Public => some .ecdsasig
  | rsa bits3072 | rsaPublic bits3072 => some (if bits3072 then .rsa3072 else .rsa2048)
  | ed25519 | ed25519Public => some .ed25519
  | x25519 | x25519Public => none

/-- The class has `sign`, which takes the payload. -/
def signsPayload : KeyType → Bool
  | ecdsa384p1 | ecdsa256p1 | rsa _ => true
  | _ => false

/-- The class has `sign_digest`. -/
def signsDigest : KeyType → Bool
  | ed25519 | x25519 => true
  | _ => false

/-- The class has `verify`, which takes the payload. -/
def verifiesPayload : KeyType → Bool
  | ecdsa384p1 | ecdsa384p1Public | ecdsa256p1 | ecdsa256p1Public | rsa _ | rsaPublic _ => true
  | _ => false

/-- The class has a `verify_digest` that works. That of X25519 keys raises an exception. -/
def verifiesDigest : KeyType → Bool
  | ed25519 | ed25519Public => true
  | _ => false

end KeyType

/-- A key. `sign` gives the signature that is made in the run at hand. -/
structure Key where
  type : KeyType
  publicBytes : Bytes
  sign : Bytes → Bytes
  /-- Signature and message. An invalid signature raises an exception that the callers catch. -/
  verify : Bytes → Bytes → Bool

/-- `key_and_user_sha_to_alg_and_tlv`. No choice of the user is `auto`. -/
def keyAndUserShaToAlgAndTlv (key : Option KeyType) (userSha : Option Sha) (isPure : Bool) : Option Sha :=
  match key with
  | none => some (userSha.getD .sha256)
  | some type =>
    match if isPure then type.allowedPureKeySha else type.allowedKeySha with
    | none => none
    | some allowed =>
      if isPure then allowed.head?
      else match userSha with
        | none => allowed.head?
        | some sha => if sha ∈ allowed then some sha else none

/-! ### The arguments -/

/-- `SemiSemVersion`. -/
structure Version where
  major : Int
  minor : Int
  revision : Int
  build : Int
deriving DecidableEq, Repr

/-- What `create_sw_component_data` encodes. -/
structure SwComponent where
  swType : String
  swVersion : String
  swSignerId : Bytes
  swMeasurementDescription : Sha
  swMeasurementValue : Bytes

/-- The functions of other libraries. -/
structure Lib where
  /-- `hashlib`. -/
  sha : Sha → Bytes → Bytes
  digestSize : Sha → Nat
  /-- `cbor2`. -/
  dumps : SwComponent → Bytes
  /-- `uuid.uuid5` of a namespace and a name. -/
  uuid5 : Bytes → String → Bytes
  isprintable : String → Bool

/-- The fields of an `Image` that `create` reads besides those of the trailer. -/
structure SourceImage extends Image where
  version : Version
  headerSize : Nat
  loadAddr : Int
  romFixed : Option Int
  securityCounter : Option Int
  nonBootable : Bool
  vid : Option String
  cid : Option String
  imageSize : Int

/-- The record with the wrapped key, and the key stream of AES-CTR with that key and a zero nonce. -/
structure WrappedKey where
  enc : Encryption
  enctlv : Bytes
  stream : KeyStream
  enctlv_length : enctlv.length = enc.enctlvLen

/-- The two lists of the dependencies. -/
structure Dependencies where
  images : List Int
  versions : List Version

inductive CompressionType where
  | lzma2
  | lzma2armthumb
deriving DecidableEq, Repr

/-- The arguments of `create`. -/
structure CreateArgs where
  key : Option Key
  fullPublicKey : Bool
  enckey : Option WrappedKey
  dependencies : Option Dependencies
  swType : Option String
  customTlvs : Option (List (Int × Bytes))
  compressionTlvs : Option (List (TlvValue × Bytes))
  compressionType : Option CompressionType
  clear : Bool
  fixedSig : Option Bytes
  pubKey : Option Key
  userSha : Option Sha
  isPure : Bool
  keepCompSize : Bool
  dontEncrypt : Bool

/-! ### UUIDs -/

def hexDigit (c : Char) : Option Nat :=
  if '0' ≤ c ∧ c ≤ '9' then some (c.toNat - '0'.toNat)
  else if 'a' ≤ c ∧ c ≤ 'f' then some (c.toNat - 'a'.toNat + 10)
  else if 'A' ≤ c ∧ c ≤ 'F' then some (c.toNat - 'A'.toNat + 10)
  else none

/-- `bytes.fromhex`, for digits without blanks. -/
def fromhex : List Char → Option Bytes
  | [] => some []
  | [_] => none
  | high :: low :: cs => do
    let h ← hexDigit high
    let l ← hexDigit low
    let rest ← fromhex cs
    pure (.ofNat (16 * h + l) :: rest)

def withoutHyphens (cs : List Char) : Option (List Char) :=
  if cs.length = 36 ∧ [8, 13, 18, 23].all fun i => cs.getD i '0' = '-' then
    some (cs.take 8 ++ (cs.drop 9).take 4 ++ (cs.drop 14).take 4 ++ (cs.drop 19).take 4 ++ cs.drop 24)
  else none

def parseUuid (lib : Lib) (ns : Option Bytes) (value : String) : Option Bytes :=
  let cs := value.toList
  match (withoutHyphens cs).bind fromhex, if cs.length = 32 then fromhex cs else none with
  | some raw, _ => some raw
  | none, some raw => some raw
  | none, none => if lib.isprintable value then ns.map (lib.uuid5 · value) else none

def namespaceDns : Bytes :=
  [0x6b, 0xa7, 0xb8, 0x10, 0x9d, 0xad, 0x11, 0xd1, 0x80, 0xb4, 0x00, 0xc0, 0x4f, 0xd4, 0x30, 0xc8]

/-- Format `16s`. -/
def pack16s (data : Bytes) : Bytes := (data ++ List.replicate 16 0).take 16

@[simp] theorem pack16s_length (data : Bytes) : (pack16s data).length = 16 := by
  simp [pack16s]

/-! ### Protected TLVs -/

section Create

variable (lib : Lib) (img : SourceImage) (args : CreateArgs)

/-- The public key: of the key, or of the one that belongs to a fixed signature. -/
def CreateArgs.pub : Option Bytes := (args.key.or args.pubKey).map Key.publicBytes

def CreateArgs.pubbytes (sha : Sha) : Bytes :=
  match args.pub with
  | some pub => lib.sha sha pub
  | none => List.replicate 32 0

/-- `boot_record`, if there is one. A type of more than 12 characters raises an exception. -/
def bootRecord (sha : Sha) : Option (Option Bytes) :=
  match args.swType with
  | none => some none
  | some swType =>
    if swType.length > 12 then none
    else some (some (lib.dumps
      { swType
        swVersion := toString img.version.major ++ "." ++ toString img.version.minor ++ "." ++
          toString img.version.revision
        swSignerId := args.pubbytes lib sha
        swMeasurementDescription := sha
        -- the boot loader puts the digest here
        swMeasurementValue := List.replicate (lib.digestSize sha) 0 }))

def dictSet (dict : List (TlvValue × Bytes)) (k : TlvValue) (v : Bytes) : List (TlvValue × Bytes) :=
  if dict.any (·.1 = k) then dict.map fun kv => if kv.1 = k then (k, v) else kv else dict ++ [(k, v)]

/-- `compression_tlvs` with the size that `keep_comp_size` adds. -/
def compressionTlvs : Option (List (TlvValue × Bytes)) :=
  if args.keepCompSize then
    match args.compressionTlvs with
    | none => none
    | some tlvs => do
      let size ← packI img.endian img.imageSize
      pure (dictSet tlvs .compDecSize size)
  else some (args.compressionTlvs.getD [])

def protectedTlvSize (record : Option Bytes) (compression : List (TlvValue × Bytes)) : Nat :=
  let size := (if img.securityCounter.isSome then 4 + 4 else 0) + (if img.vid.isSome then 4 + 16 else 0) +
    (if img.cid.isSome then 4 + 16 else 0) +
    (record.elim 0 fun record => 4 + record.length) +
    (args.dependencies.elim 0 fun deps => deps.images.length * 16) +
    (compression.map fun kv => 4 + kv.2.length).sum +
    ((args.customTlvs.getD []).map fun kv => 4 + kv.2.length).sum
  -- the info header comes on top
  if size ≠ 0 then size + 4 else 0

def secCntTlvs : Option (List Record) :=
  match img.securityCounter with
  | none => some []
  | some counter => do
    let payload ← packI img.endian counter
    pure [⟨.named .secCnt, payload⟩]

/-- The payload of a dependency, format `B3xBBHI`. -/
def dependencyPayload (image : Int) (version : Version) : Option Bytes := do
  let image ← packB image
  let major ← packB version.major
  let minor ← packB version.minor
  let revision ← packH img.endian version.revision
  let build ← packI img.endian version.build
  pure (image ++ [0, 0, 0] ++ major ++ minor ++ revision ++ build)

def dependencyRecords : List Int → List Version → Option (List Record)
  | [], _ => some []
  | _ :: _, [] => none
  | image :: images, version :: versions => do
    let payload ← dependencyPayload img image version
    let rest ← dependencyRecords images versions
    pure (⟨.named .dependency, payload⟩ :: rest)

def dependencyTlvs : Option (List Record) :=
  match args.dependencies with
  | none => some []
  | some deps => dependencyRecords img deps.images deps.versions

def uuidTlvs : Option (List Record) :=
  match img.vid, img.cid with
  | none, none => some []
  | some vid, none => do
    let vid ← parseUuid lib (some namespaceDns) vid
    pure [⟨.named .uuidVid, pack16s vid⟩]
  | none, some cid => do
    let cid ← parseUuid lib none cid
    pure [⟨.named .uuidCid, pack16s cid⟩]
  | some vid, some cid => do
    let vid ← parseUuid lib (some namespaceDns) vid
    let cid ← parseUuid lib (some vid) cid
    pure [⟨.named .uuidVid, pack16s vid⟩, ⟨.named .uuidCid, pack16s cid⟩]

/-- The records that are added to `prot_tlv`, in their order. -/
def protectedTlvs (record : Option Bytes) (compression : List (TlvValue × Bytes)) : Option (List Record) := do
  let counter ← secCntTlvs img
  let boot := record.toList.map fun record => ⟨.named .bootRecord, record⟩
  let dependencies ← dependencyTlvs img args
  let uuids ← uuidTlvs lib img
  pure (counter ++ boot ++ dependencies ++ compression.map (fun kv => ⟨.named kv.1, kv.2⟩) ++ uuids ++
    (args.customTlvs.getD []).map fun kv => ⟨.custom kv.1, kv.2⟩)

def protectedArea (record : Option Bytes) (compression : List (TlvValue × Bytes)) : Option (List Record) :=
  if protectedTlvSize img args record compression ≠ 0 then protectedTlvs lib img args record compression
  else some []

/-! ### Header and body -/

def CreateArgs.wrapsKey : Option WrappedKey := if args.dontEncrypt then none else args.enckey

/-- The payload, padded to whole blocks if it is to be encrypted. -/
def paddedPayload : Bytes :=
  match args.wrapsKey with
  | none => img.payload
  | some _ =>
    let padLen := img.payload.length % 16
    if padLen > 0 then img.payload ++ List.replicate (16 - padLen) 0 else img.payload

def CreateArgs.compressionFlags : Nat :=
  if args.compressionTlvs.isNone then 0
  else match args.compressionType with
    | none => 0
    | some .lzma2 => 0x400
    | some .lzma2armthumb => 0x400 ||| 0x800

/-- `ENCRYPTED_AES128` or `ENCRYPTED_AES256`, if there is a key. -/
def CreateArgs.encryptedFlag : Nat :=
  match args.enckey with
  | none => 0
  | some key => if key.enc.aes256 then 0x8 else 0x4

def headerFlags : Nat :=
  args.encryptedFlag |||
  (if img.loadAddr ≠ 0 then 0x20 else 0) |||
  (if img.romFixed.getD 0 ≠ 0 then 0x100 else 0) |||
  (if img.nonBootable then 0x10 else 0) |||
  args.compressionFlags

/-- The header that `add_header` packs for a payload. -/
def header (protectedSize : Nat) (payload : Bytes) : Option Bytes := do
  let magic ← packI img.endian imageMagic.toNat
  -- `rom_fixed or load_addr`
  let load ← packI img.endian (if img.romFixed.getD 0 ≠ 0 then img.romFixed.getD 0 else img.loadAddr)
  let hdrSize ← packH img.endian img.headerSize
  let protSize ← packH img.endian protectedSize
  let imgSize ← packI img.endian ((payload.length : Int) - img.headerSize)
  let flags ← packI img.endian (headerFlags img args)
  let major ← packB img.version.major
  let minor ← packB img.version.minor
  let revision ← packH img.endian img.version.revision
  let build ← packI img.endian img.version.build
  let pad ← packI img.endian 0
  pure (magic ++ load ++ hdrSize ++ protSize ++ imgSize ++ flags ++ major ++ minor ++ revision ++ build ++ pad)

/-- `add_header`: the header replaces the first bytes of the payload. -/
def addHeader (protectedSize : Nat) (payload : Bytes) : Option Bytes := do
  let header ← header img args protectedSize payload
  pure (header ++ payload.drop header.length)

/-! ### Unprotected TLVs -/

def keyTlv (sha : Sha) : Option Record :=
  if args.fullPublicKey then args.pub.map fun pub => ⟨.named .pubkey, pub⟩
  else some ⟨.named .keyhash, args.pubbytes lib sha⟩

/-- The signature that is stored, with the class of its key: made over the payload or the message, or given. -/
def signature (region message : Bytes) : Option (Option (KeyType × Bytes)) :=
  match args.key, args.fixedSig with
  | none, none => some none
  | some key, none =>
    if key.type.signsPayload then some (some (key.type, key.sign region))
    else if key.type.signsDigest then some (some (key.type, key.sign message))
    else none
  | none, some sig => args.pubKey.map fun pubKey => some (pubKey.type, sig)
  | some _, some _ => none

def signatureTlvs (sha : Sha) (region message : Bytes) : Option (List Record) := do
  match ← signature args region message with
  | none => pure []
  | some (type, sig) =>
    let key ← keyTlv lib args sha
    let tlv ← type.sigTlv
    pure [key, ⟨.named tlv, sig⟩]

def encTlvs : List Record :=
  match args.wrapsKey with
  | none => []
  | some key =>
    match key.enc.exchange with
    | .rsa => [⟨.named .encrsa2048, key.enctlv⟩]
    | .ec256 => [⟨.named .encec256, key.enctlv⟩]
    | .x25519 hmacSha512 => [⟨.named (if hmacSha512 then .encx25519Sha512 else .encx25519), key.enctlv⟩]

/-- What is signed, unless the key takes the payload. -/
def CreateArgs.message (sha : Sha) (region : Bytes) : Bytes :=
  if args.isPure then region else lib.sha sha region

/-- The records that are added to `tlv`, in their order. -/
def unprotectedTlvs (sha : Sha) (region : Bytes) : Option (List Record) := do
  let signed ← signatureTlvs lib args sha region (args.message lib sha region)
  pure (⟨.named sha.tlv, lib.sha sha region⟩ :: (if args.isPure then [⟨.named .sigPure, [1]⟩] else []) ++
    signed ++ encTlvs args)

/-! ### `create` -/

/-- What `create` has computed before it puts the image together. -/
structure Emitted where
  sha : Sha
  /-- Header and body, not encrypted. -/
  plain : Bytes
  prots : List Record
  prot : Bytes
  tlvs : List Record
  tlv : Bytes

def Emitted.region (em : Emitted) : Bytes := em.plain ++ em.prot

/-- `create` up to the encryption. -/
def emit : Option Emitted := do
  let sha ← keyAndUserShaToAlgAndTlv ((args.key.or args.pubKey).map Key.type) args.userSha args.isPure
  let record ← bootRecord lib img args sha
  let compression ← compressionTlvs img args
  let size := protectedTlvSize img args record compression
  let plain ← addHeader img args size (paddedPayload img args)
  let prots ← protectedArea lib img args record compression
  let prot ← (← Tlv.addAll ⟨img.endian, 0x6908, []⟩ prots).get
  let tlvs ← unprotectedTlvs lib args sha (plain ++ prot)
  let tlv ← (← Tlv.addAll ⟨img.endian, 0x6907, []⟩ tlvs).get
  pure { sha, plain, prots, prot, tlvs, tlv }

/-- The stream that the body is encrypted with, if it is. -/
def CreateArgs.cipher : Option KeyStream :=
  if args.clear then none else args.wrapsKey.map WrappedKey.stream

/-- The part of the payload behind the header, encrypted. -/
def encryptBody (stream : KeyStream) (headerSize : Nat) (payload : Bytes) : Bytes :=
  payload.take headerSize ++ (payload.drop headerSize).mapIdx fun i byte => byte ^^^ stream i

/-- Header and body as they are stored. -/
def storedPlain (plain : Bytes) : Bytes :=
  match args.cipher with
  | none => plain
  | some stream => encryptBody stream img.headerSize plain

/-- What `create` leaves in the object. -/
structure Created where
  image : SourceImage
  imageHash : Bytes

/-- The image whose trailer `check_trailer` computes. -/
def checkedImage (payload : Bytes) : Image :=
  -- without a record of the key `enctlv_len` is zero, and there is no key to save
  let enckey := if args.dontEncrypt ∧ img.saveEnctlv then none else args.enckey.map WrappedKey.enc
  { img.toImage with payload, enckey }

def create : Option Created := do
  let em ← emit lib img args
  let payload := storedPlain img args em.plain ++ em.prot ++ em.tlv
  if (checkedImage img args payload).checkTrailer then
    pure ⟨{ img with payload, enckey := args.enckey.map WrappedKey.enc }, lib.sha em.sha em.region⟩
  else none

end Create

end Adaboot.Imgtool
