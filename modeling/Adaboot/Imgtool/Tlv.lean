import Adaboot.Imgtool.Trailer

/-!
# TLV areas of `imgtool`

The fields that `struct.pack` writes, the records, and the class `TLV` that collects them. What `TLV.get` returns is
described by the list of records, for either byte order.
-/

namespace Adaboot.Imgtool

/-! ### Fields -/

def Endian.order (e : Endian) (data : Bytes) : Bytes :=
  match e with
  | .little => data
  | .big => data.reverse

/-- Format `B`. A value that does not fit raises `struct.error`, here and below. -/
def packB (n : Int) : Option Bytes := if 0 ≤ n ∧ n < 256 then some [.ofNat n.toNat] else none

/-- Format `H`. -/
def packH (e : Endian) (n : Int) : Option Bytes :=
  if 0 ≤ n ∧ n < 65536 then some (e.order (put16 n.toNat)) else none

/-- Format `I`, and `L` with an explicit byte order. -/
def packI (e : Endian) (n : Int) : Option Bytes :=
  if 0 ≤ n ∧ n < 2 ^ 32 then some (e.order (put32 n.toNat)) else none

/-- Format `H` of `struct.unpack`. -/
def unpackH (e : Endian) (data : Bytes) : Nat := le16 (e.order data) 0

/-- Format `I` of `struct.unpack`. -/
def unpackI (e : Endian) (data : Bytes) : Nat := le32 (e.order data) 0

@[simp] theorem Endian.order_length (e : Endian) (data : Bytes) : (e.order data).length = data.length := by
  cases e <;> simp [order]

@[simp] theorem Endian.order_order (e : Endian) (data : Bytes) : e.order (e.order data) = data := by
  cases e <;> simp [order]

@[simp] theorem put16_length (n : Nat) : (put16 n).length = 2 := rfl

@[simp] theorem put32_length (n : Nat) : (put32 n).length = 4 := rfl

variable {n : Int} {data : Bytes} {e : Endian} {r : Record} {rs : List Record} {t t' : Tlv}

theorem packB_eq_some (packed : packB n = some data) :
    0 ≤ n ∧ n < 256 ∧ data = [.ofNat n.toNat] := by
  unfold packB at packed
  split at packed
  next fits => exact ⟨fits.1, fits.2, (Option.some.inj packed).symm⟩
  next => simp at packed

theorem packH_eq_some (packed : packH e n = some data) :
    0 ≤ n ∧ n < 65536 ∧ data = e.order (put16 n.toNat) := by
  unfold packH at packed
  split at packed
  next fits => exact ⟨fits.1, fits.2, (Option.some.inj packed).symm⟩
  next => simp at packed

theorem packI_eq_some (packed : packI e n = some data) :
    0 ≤ n ∧ n < 2 ^ 32 ∧ data = e.order (put32 n.toNat) := by
  unfold packI at packed
  split at packed
  next fits => exact ⟨fits.1, fits.2, (Option.some.inj packed).symm⟩
  next => simp at packed

theorem unpackH_order {n : Nat} (lt : n < 65536) : unpackH e (e.order (put16 n)) = n := by
  rw [unpackH, Endian.order_order, ← List.append_nil (put16 n), le16_put16 lt]

/-! ### Records -/

/-- `TLV_VALUES`. -/
inductive TlvValue where
  | keyhash
  | pubkey
  | sha256
  | sha384
  | sha512
  | rsa2048
  | ecdsasig
  | rsa3072
  | ed25519
  | sigPure
  | encrsa2048
  | enckw
  | encec256
  | encx25519
  | encx25519Sha512
  | dependency
  | secCnt
  | bootRecord
  | decompSize
  | decompSha
  | decompSignature
  | compDecSize
  | uuidVid
  | uuidCid
deriving DecidableEq, Repr

def TlvValue.value : TlvValue → Nat
  | .keyhash => 0x01
  | .pubkey => 0x02
  | .sha256 => 0x10
  | .sha384 => 0x11
  | .sha512 => 0x12
  | .rsa2048 => 0x20
  | .ecdsasig => 0x22
  | .rsa3072 => 0x23
  | .ed25519 => 0x24
  | .sigPure => 0x25
  | .encrsa2048 => 0x30
  | .enckw => 0x31
  | .encec256 => 0x32
  | .encx25519 => 0x33
  | .encx25519Sha512 => 0x34
  | .dependency => 0x40
  | .secCnt => 0x50
  | .bootRecord => 0x60
  | .decompSize => 0x70
  | .decompSha => 0x71
  | .decompSignature => 0x72
  | .compDecSize => 0x73
  | .uuidVid => 0x74
  | .uuidCid => 0x75

theorem TlvValue.value_lt (v : TlvValue) : v.value < 256 := by cases v <;> decide

/-- The first argument of `TLV.add`: a name, or the number of a custom record. -/
inductive Kind where
  | named (v : TlvValue)
  | custom (n : Int)
deriving DecidableEq, Repr

def Kind.type : Kind → Nat
  | .named v => v.value
  | .custom n => n.toNat

/-- The arguments of a call of `TLV.add`. -/
structure Record where
  kind : Kind
  payload : Bytes
deriving DecidableEq, Repr

/-- The first two bytes of a record. A name is written as two bytes, the second zero, in either byte order. -/
def Kind.bytes (e : Endian) : Kind → Bytes
  | .named v => [.ofNat v.value, 0]
  | .custom n => e.order (put16 n.toNat)

def Record.encode (e : Endian) (r : Record) : Bytes := r.kind.bytes e ++ e.order (put16 r.payload.length) ++ r.payload

/-- The length fits the field, and a custom type is reserved for vendors. -/
structure Record.Writable (r : Record) : Prop where
  length_lt : r.payload.length < 65536
  vendor : ∀ n, r.kind = .custom n → 0x00a0 ≤ n ∧ n ≤ 0xfffe

@[simp] theorem Kind.bytes_length (e : Endian) (k : Kind) : (k.bytes e).length = 2 := by
  cases k <;> simp [bytes]

@[simp] theorem Record.encode_length (e : Endian) (r : Record) : (r.encode e).length = 4 + r.payload.length := by
  simp only [encode, List.length_append, Kind.bytes_length, Endian.order_length, put16_length]

/-- The type fits the field, and it is not the one that stands for any type in the boot loader. -/
theorem Record.Writable.type_lt (writable : r.Writable) : r.kind.type < 0xffff := by
  cases kind : r.kind with
  | named v =>
    have := v.value_lt
    simp only [Kind.type]
    omega
  | custom n =>
    have := writable.vendor n kind
    simp only [Kind.type]
    omega

/-! ### The class `TLV` -/

structure Tlv where
  endian : Endian
  magic : Nat
  buf : Bytes

def Tlv.add (t : Tlv) (r : Record) : Option Tlv :=
  match r.kind with
  | .custom n =>
    if ¬ (0x00a0 ≤ n ∧ n ≤ 0xfffe) then none
    else do
      let type ← packH t.endian n
      let len ← packH t.endian r.payload.length
      pure { t with buf := t.buf ++ (type ++ len) ++ r.payload }
  | .named v => do
    let type ← packB v.value
    let zero ← packB 0
    let len ← packH t.endian r.payload.length
    pure { t with buf := t.buf ++ (type ++ zero ++ len) ++ r.payload }

/-- The calls of `TLV.add` for a list of records. -/
def Tlv.addAll (t : Tlv) : List Record → Option Tlv
  | [] => some t
  | r :: rs => do
    let t ← t.add r
    t.addAll rs

def Tlv.get (t : Tlv) : Option Bytes :=
  if t.buf.length = 0 then some []
  else do
    let magic ← packH t.endian t.magic
    let len ← packH t.endian (4 + t.buf.length)
    pure (magic ++ len ++ t.buf)

def encodeAll (e : Endian) (rs : List Record) : Bytes := rs.flatMap (Record.encode e)

def areaBytes (e : Endian) (magic : Nat) (rs : List Record) : Bytes :=
  if rs = [] then []
  else e.order (put16 magic) ++ e.order (put16 (4 + (encodeAll e rs).length)) ++ encodeAll e rs

@[simp] theorem encodeAll_nil (e : Endian) : encodeAll e [] = [] := rfl

@[simp] theorem encodeAll_cons (e : Endian) (r : Record) (rs : List Record) :
    encodeAll e (r :: rs) = r.encode e ++ encodeAll e rs := rfl

theorem encodeAll_length_eq_zero : (encodeAll e rs).length = 0 ↔ rs = [] := by
  cases rs with
  | nil => simp
  | cons r rs =>
    simp only [encodeAll_cons, List.length_append, Record.encode_length, reduceCtorEq, iff_false]
    omega

theorem Tlv.add_eq_some (added : t.add r = some t') :
    r.Writable ∧ t' = { t with buf := t.buf ++ r.encode t.endian } := by
  unfold Tlv.add at added
  cases kind : r.kind with
  | custom n =>
    simp only [kind] at added
    split at added
    next => simp at added
    next vendor =>
      simp only [Option.bind_eq_bind, Option.bind_eq_some_iff, Option.pure_def, Option.some.injEq] at added
      obtain ⟨type, packedType, len, packedLen, rfl⟩ := added
      obtain ⟨_, _, rfl⟩ := packH_eq_some packedType
      obtain ⟨_, lt, rfl⟩ := packH_eq_some packedLen
      refine ⟨⟨by omega, fun m eq => ?_⟩, by simp [Record.encode, kind, Kind.bytes]⟩
      rw [kind, Kind.custom.injEq] at eq
      subst eq
      exact Decidable.not_not.mp vendor
  | named v =>
    simp only [kind, Option.bind_eq_bind, Option.bind_eq_some_iff, Option.pure_def, Option.some.injEq] at added
    obtain ⟨type, packedType, zero, packedZero, len, packedLen, rfl⟩ := added
    obtain ⟨_, _, rfl⟩ := packB_eq_some packedType
    obtain ⟨_, _, rfl⟩ := packB_eq_some packedZero
    obtain ⟨_, lt, rfl⟩ := packH_eq_some packedLen
    refine ⟨⟨by omega, fun m eq => ?_⟩, by simp [Record.encode, kind, Kind.bytes]⟩
    simp [kind] at eq

theorem Tlv.addAll_eq_some (added : t.addAll rs = some t') :
    (∀ r ∈ rs, r.Writable) ∧ t' = { t with buf := t.buf ++ encodeAll t.endian rs } := by
  induction rs generalizing t with
  | nil =>
    rw [addAll, Option.some.injEq] at added
    subst added
    simp
  | cons r rs ih =>
    rw [addAll, Option.bind_eq_bind, Option.bind_eq_some_iff] at added
    obtain ⟨t₁, first, rest⟩ := added
    obtain ⟨writable, rfl⟩ := add_eq_some first
    obtain ⟨others, rfl⟩ := ih rest
    refine ⟨?_, by simp⟩
    intro s mem
    rcases List.mem_cons.mp mem with rfl | later
    · exact writable
    · exact others s later

theorem Tlv.get_eq_some {magic : Nat}
    (added : Tlv.addAll ⟨e, magic, []⟩ rs = some t) (got : t.get = some data) :
    (∀ r ∈ rs, r.Writable) ∧ data = areaBytes e magic rs ∧ data.length < 65536 := by
  obtain ⟨writable, rfl⟩ := addAll_eq_some added
  refine ⟨writable, ?_⟩
  unfold Tlv.get at got
  simp only [List.nil_append] at got
  split at got
  next empty =>
    cases got
    simp [areaBytes, encodeAll_length_eq_zero.mp empty]
  next more =>
    simp only [Option.bind_eq_bind, Option.bind_eq_some_iff, Option.pure_def, Option.some.injEq] at got
    obtain ⟨m, packedMagic, len, packedLen, rfl⟩ := got
    obtain ⟨_, _, rfl⟩ := packH_eq_some packedMagic
    obtain ⟨_, lt, rfl⟩ := packH_eq_some packedLen
    constructor
    · rw [areaBytes, if_neg (mt encodeAll_length_eq_zero.mpr more)]
      congr 3
    · simp only [List.length_append, Endian.order_length, put16_length]
      omega

def recordsSize (rs : List Record) : Nat := (rs.map fun r => 4 + r.payload.length).sum

@[simp] theorem recordsSize_nil : recordsSize [] = 0 := rfl

@[simp] theorem recordsSize_cons (r : Record) (rs : List Record) :
    recordsSize (r :: rs) = 4 + r.payload.length + recordsSize rs := by
  simp [recordsSize]

@[simp] theorem recordsSize_append (rs rs' : List Record) :
    recordsSize (rs ++ rs') = recordsSize rs + recordsSize rs' := by
  simp [recordsSize]

theorem encodeAll_length (e : Endian) (rs : List Record) : (encodeAll e rs).length = recordsSize rs := by
  induction rs with
  | nil => rfl
  | cons r rs ih => simp [ih]

theorem areaBytes_length (e : Endian) (magic : Nat) (rs : List Record) :
    (areaBytes e magic rs).length = if recordsSize rs ≠ 0 then recordsSize rs + 4 else 0 := by
  have empty : recordsSize rs = 0 ↔ rs = [] := by
    rw [← encodeAll_length e rs, encodeAll_length_eq_zero]
  unfold areaBytes
  split
  next none => simp [none]
  next some =>
    rw [if_pos (mt empty.mp some)]
    simp only [List.length_append, Endian.order_length, put16_length, encodeAll_length]
    omega

end Adaboot.Imgtool
