import Adaboot.Image.TlvList
import Mathlib.Data.List.GetD
import Mathlib.Data.List.Nodup

/-!
# Data for the application

`boot_record.c`: entries that the loader leaves for the application in RAM. `boot_add_data_to_shared_area` keeps wide
types and sizes in narrow fields; `boot_save_shared_data` adds what the loader knows about itself.
-/

namespace Adaboot

def sharedDataTlvInfoMagic : Nat := 0x2016

/-- `MCUBOOT_SHARED_DATA_SIZE`. -/
structure SharedArea where
  size : Nat
  size_lt : size < 2 ^ 32
  header_fits : 4 ≤ size

/-- Memory from `MCUBOOT_SHARED_DATA_BASE` on, and `shared_memory_init_done`. -/
structure SharedState where
  mem : Nat → UInt8
  initDone : Bool

inductive AddRet where
  | ok
  | overflow
  | overwrite
  | genError
deriving DecidableEq, Repr

/-- The arguments of `boot_add_data_to_shared_area`; `none` is a null pointer. -/
structure AddCall where
  majorType : UInt8
  minorType : UInt16
  size : Nat
  data : Option (Nat → UInt8)

/-- `memcpy` of `n` bytes. -/
def copyMem (mem : Nat → UInt8) (dst : Nat) (src : Nat → UInt8) (n : Nat) : Nat → UInt8 := fun p =>
  if dst ≤ p ∧ p < dst + n then src (p - dst) else mem p

def putMem (mem : Nat → UInt8) (dst : Nat) (data : Bytes) : Nat → UInt8 := copyMem mem dst (data.getD · 0) data.length

def mem16 (mem : Nat → UInt8) (off : Nat) : Nat := (mem off).toNat + 256 * (mem (off + 1)).toNat

def setTlvType (major minor : Nat) : Nat := major % 16 * 4096 + minor % 4096

/-- The walk over the entries, which does not mask the type that it looks for. -/
def findEntry (mem : Nat → UInt8) (major minor tlvEnd : Nat) : Nat → Nat → Bool
  | 0, _ => false
  | fuel + 1, off =>
    if off < tlvEnd then
      if mem16 mem off / 4096 = major ∧ mem16 mem off % 4096 = minor then true
      else findEntry mem major minor tlvEnd fuel (off + (mem16 mem (off + 2) + 4))
    else false

def SharedState.initialised (area : SharedArea) (st : SharedState) : SharedState :=
  if st.initDone then st
  else ⟨putMem (copyMem st.mem 0 (fun _ => 0) area.size) 0 (put16 sharedDataTlvInfoMagic ++ put16 4), true⟩

/-- An entry is written behind the others, and counted. -/
def appendEntry (mem : Nat → UInt8) (type size : Nat) (data : Nat → UInt8) : Nat → UInt8 :=
  let tlvEnd := mem16 mem 2
  let mem := putMem mem tlvEnd (put16 type ++ put16 size)
  let mem := copyMem mem (tlvEnd + 4) data size
  -- `tlv_tot_len` stands in front of what was written
  putMem mem 2 (put16 (tlvEnd + (size + 4)))

def bootAddDataToSharedArea (area : SharedArea) (st : SharedState) (call : AddCall) : AddRet × SharedState :=
  match call.data with
  | none => (.genError, st)
  | some data =>
    let st := st.initialised area
    let totLen := mem16 st.mem 2
    if findEntry st.mem call.majorType.toNat call.minorType.toNat totLen totLen 4 then (.overwrite, st)
    else
      -- the operands of `boot_u16_safe_add` have 16 bits
      let bootDataSize := totLen + (call.size + 4) % 65536
      if bootDataSize > 65535 then (.genError, st)
      else if bootDataSize > area.size then (.overflow, st)
      else
        (.ok, ⟨appendEntry st.mem (setTlvType call.majorType.toNat call.minorType.toNat) call.size data, true⟩)

def AddCall.entry (call : AddCall) : TypedPayload :=
  (setTlvType call.majorType.toNat call.minorType.toNat, (List.range call.size).map (call.data.getD fun _ => 0))

/-- Calls one after the other, with the entries that were added. -/
def addAll (area : SharedArea) : List AddCall → SharedState → List TypedPayload × SharedState
  | [], st => ([], st)
  | call :: calls, st =>
    let added := bootAddDataToSharedArea area st call
    let rest := addAll area calls added.2
    ((if added.1 = .ok then [call.entry] else []) ++ rest.1, rest.2)

/-- Each call is made in a state in which the condition holds. -/
def EachCall (area : SharedArea) (p : SharedState → AddCall → Prop) : List AddCall → SharedState → Prop
  | [], _ => True
  | call :: calls, st => p st call ∧ EachCall area p calls (bootAddDataToSharedArea area st call).2

/-- The type and the size of a call fit the fields of an entry. -/
structure AddCall.Narrow (call : AddCall) : Prop where
  major : call.majorType.toNat < 16
  minor : call.minorType.toNat < 4096
  size : call.size + 4 < 65536

/-- The call does not clear the area and then fail. -/
def AddCall.Starts (area : SharedArea) (st : SharedState) (call : AddCall) : Prop :=
  st.initDone = true ∨ call.data = none ∨ call.size + 8 ≤ area.size ∧ call.size + 8 < 65536

def AddCall.FailureKeeps (area : SharedArea) (st : SharedState) (call : AddCall) : Prop :=
  (bootAddDataToSharedArea area st call).1 ≠ .ok → (bootAddDataToSharedArea area st call).2 = st

def SharedArea.view (area : SharedArea) (mem : Nat → UInt8) : FlashArea := ⟨area.size, mem, area.size_lt⟩

/-- The area is a list of entries with different types, and memory behind it is as it was. -/
structure HoldsEntries (area : SharedArea) (mem₀ : Nat → UInt8) (rs : List TypedPayload) (st : SharedState) : Prop where
  contains : (area.view (st.initialised area).mem).Contains 0 (tlvArea sharedDataTlvInfoMagic rs)
  nodup : (rs.map (·.1)).Nodup
  fit : Fit rs
  lt : (tlvArea sharedDataTlvInfoMagic rs).length < 65536
  outside : ∀ p, area.size ≤ p → st.mem p = mem₀ p

/-! ### Memory -/

section Memory

variable {area : SharedArea} {mem : Nat → UInt8} {off : Nat}

theorem putMem_eq (dst : Nat) (data : Bytes) (p : Nat) :
    putMem mem dst data p = if dst ≤ p ∧ p < dst + data.length then data.getD (p - dst) 0 else mem p := rfl

variable {data : Bytes} {n : Nat} {src : Nat → UInt8}

theorem contains_of_bytes (fits : off + data.length ≤ area.size)
    (bytes : ∀ i < data.length, mem (off + i) = data.getD i 0) : (area.view mem).Contains off data := by
  rw [FlashArea.Contains, flashAreaRead_of_le fits]
  congr 1
  apply List.ext_getElem (by simp)
  intro i _ lt
  have byte := bytes i lt
  rw [List.getD_eq_getElem _ _ lt] at byte
  simpa [SharedArea.view] using byte

theorem FlashArea.Contains.copyMem (contains : (area.view mem).Contains off data) {dst : Nat}
    (apart : off + data.length ≤ dst ∨ dst + n ≤ off) :
    (area.view (copyMem mem dst src n)).Contains off data := by
  refine contains_of_bytes contains.le fun i lt => ?_
  rw [Adaboot.copyMem, if_neg (by omega)]
  exact contains.byte lt

theorem contains_putMem (fits : off + data.length ≤ area.size) :
    (area.view (putMem mem off data)).Contains off data := by
  refine contains_of_bytes fits fun i lt => ?_
  rw [putMem_eq, if_pos (by omega), Nat.add_sub_cancel_left]

theorem contains_copyMem (fits : off + n ≤ area.size) :
    (area.view (copyMem mem off src n)).Contains off ((List.range n).map src) := by
  refine contains_of_bytes (by simpa using fits) fun i lt => ?_
  rw [List.length_map, List.length_range] at lt
  rw [copyMem, if_pos (by omega), Nat.add_sub_cancel_left]
  simp [lt]

theorem mem16_eq (contains : (area.view mem).Contains off (put16 n)) (lt : n < 65536) :
    mem16 mem off = n := by
  have low : mem (off + 0) = .ofNat n := contains.byte (by simp [put16])
  have high : mem (off + 1) = .ofNat (n / 256) := contains.byte (by simp [put16])
  rw [mem16, ← Nat.add_zero off, low, Nat.add_zero, high]
  simp
  omega

end Memory

section Entries

variable {area : SharedArea} {mem₀ mem : Nat → UInt8} {rs : List TypedPayload} {st : SharedState} {call : AddCall}

theorem tlvArea_append (r : TypedPayload) : tlvArea sharedDataTlvInfoMagic (rs ++ [r]) =
    put16 sharedDataTlvInfoMagic ++ put16 ((tlvArea sharedDataTlvInfoMagic rs).length + (r.2.length + 4)) ++
      tlvRecords rs ++ (put16 r.1 ++ put16 r.2.length ++ r.2) := by
  have length : 4 + (tlvRecords (rs ++ [r])).length =
      (tlvArea sharedDataTlvInfoMagic rs).length + (r.2.length + 4) := by
    simp [tlvArea, tlvRecords, put16]
    omega
  rw [tlvArea, length]
  simp [tlvRecords, tlvRecord, List.append_assoc]

/-- The walk finds the type of an entry, by induction over the entries ahead. -/
theorem findEntry_eq {major minor tlvEnd : Nat} (majorLt : major < 16) (minorLt : minor < 4096) (fit : Fit rs)
    {fuel off : Nat} (contains : (area.view mem).Contains off (tlvRecords rs))
    (ends : off + (tlvRecords rs).length = tlvEnd) (enough : rs.length ≤ fuel) :
    findEntry mem major minor tlvEnd fuel off = decide (setTlvType major minor ∈ rs.map (·.1)) := by
  induction rs generalizing fuel off with
  | nil => cases fuel <;> simp_all [findEntry]
  | cons r rs ih =>
    obtain ⟨fuel, rfl⟩ := Nat.exists_eq_add_one_of_ne_zero (Nat.ne_of_gt (Nat.lt_of_lt_of_le (Nat.succ_pos _) enough))
    obtain ⟨⟨typeLt, lengthLt⟩, fitRest⟩ := List.forall_mem_cons.mp fit
    rw [tlvRecords_cons, FlashArea.contains_append, tlvRecord, FlashArea.contains_append,
      FlashArea.contains_append] at contains
    obtain ⟨⟨⟨type, length⟩, -⟩, rest⟩ := contains
    simp only [tlvRecords_cons, List.length_append, tlvRecord_length] at ends rest
    have length : (area.view mem).Contains (off + 2) (put16 r.2.length) := length
    rw [findEntry, if_pos (by omega), mem16_eq type typeLt, mem16_eq length lengthLt]
    have same : r.1 / 4096 = major ∧ r.1 % 4096 = minor ↔ setTlvType major minor = r.1 := by
      unfold setTlvType
      omega
    split
    next found => simp [same.mp found]
    next other =>
      have rest : (area.view mem).Contains (off + (r.2.length + 4)) (tlvRecords rs) := by
        simpa [put16, Nat.add_comm, Nat.add_left_comm] using rest
      rw [ih fitRest rest (by omega) (by simpa using enough)]
      simp [mt same.mpr other]

theorem initialised_done (area : SharedArea) (done : st.initDone = true) : st.initialised area = st := if_pos done

theorem initialised_initDone (area : SharedArea) (st : SharedState) : (st.initialised area).initDone = true := by
  unfold SharedState.initialised
  split
  · assumption
  · rfl

theorem holdsEntries_uninitialised (area : SharedArea) (mem₀ : Nat → UInt8) :
    HoldsEntries area mem₀ [] ⟨mem₀, false⟩ := by
  have fits := area.header_fits
  refine ⟨contains_of_bytes (by simpa [tlvArea, put16] using fits) ?_, List.nodup_nil, by simp [Fit], by decide,
    fun _ _ => rfl⟩
  intro i lt
  have short : i < (put16 sharedDataTlvInfoMagic ++ put16 4).length := lt
  simp only [SharedState.initialised, Bool.false_eq_true, if_false, Nat.zero_add, putMem_eq]
  rw [if_pos ⟨Nat.zero_le i, short⟩]
  rfl

theorem HoldsEntries.initialise (holds : HoldsEntries area mem₀ rs st) :
    HoldsEntries area mem₀ rs (st.initialised area) := by
  have done := initialised_done area (initialised_initDone area st)
  refine ⟨done.symm ▸ holds.contains, holds.nodup, holds.fit, holds.lt, fun p behind => ?_⟩
  have fits := area.header_fits
  rw [← holds.outside p behind]
  unfold SharedState.initialised
  split
  · rfl
  · simp only [putMem_eq, copyMem]
    rw [if_neg (by simp [put16]; omega), if_neg (by omega)]

theorem HoldsEntries.totLen (holds : HoldsEntries area mem₀ rs st) :
    mem16 (st.initialised area).mem 2 = 4 + (tlvRecords rs).length := by
  have contains := holds.contains
  rw [tlvArea, FlashArea.contains_append, FlashArea.contains_append] at contains
  exact mem16_eq contains.1.2 (by simpa using holds.lt)

theorem HoldsEntries.append {data : Nat → UInt8} {type size : Nat} (holds : HoldsEntries area mem₀ rs ⟨mem, true⟩)
    (new : type ∉ rs.map (·.1)) (typeLt : type < 65536) (lt : 4 + (tlvRecords rs).length + (size + 4) < 65536)
    (fits : 4 + (tlvRecords rs).length + (size + 4) ≤ area.size) :
    HoldsEntries area mem₀ (rs ++ [(type, (List.range size).map data)]) ⟨appendEntry mem type size data, true⟩ := by
  have eq : appendEntry mem type size data = putMem (copyMem (putMem mem (4 + (tlvRecords rs).length)
      (put16 type ++ put16 size)) (4 + (tlvRecords rs).length + 4) data size) 2
      (put16 (4 + (tlvRecords rs).length + (size + 4))) := by
    have totLen : mem16 mem 2 = _ := holds.totLen
    simp only [appendEntry, totLen]
  have contains : (area.view mem).Contains 0 (tlvArea sharedDataTlvInfoMagic rs) := holds.contains
  have two (n : Nat) : (put16 n).length = 2 := rfl
  rw [tlvArea, FlashArea.contains_append, FlashArea.contains_append] at contains
  obtain ⟨⟨magic, -⟩, records⟩ := contains
  simp only [List.length_append, two, Nat.zero_add, Nat.reduceAdd] at records
  refine ⟨?_, ?_, ?_, ?_, fun p behind => ?_⟩
  · change (area.view (appendEntry mem type size data)).Contains 0 _
    rw [eq, tlvArea_append]
    -- the new entry is written behind the others, and then the length in front of them
    simp only [FlashArea.contains_append, List.length_append, two, Nat.zero_add, List.length_map, List.length_range,
      tlvArea_length, Nat.reduceAdd]
    have entry : (area.view (putMem mem (4 + (tlvRecords rs).length) (put16 type ++ put16 size))).Contains
        (4 + (tlvRecords rs).length) (put16 type ++ put16 size) :=
      contains_putMem (by simp only [List.length_append, two]; omega)
    refine ⟨⟨⟨?_, contains_putMem (by rw [two]; omega)⟩, ?_⟩,
      FlashArea.contains_append.mp ((entry.copyMem (.inl (Nat.le_refl _))).copyMem (.inr ?_)), ?_⟩
    · exact ((magic.copyMem (.inl (by rw [two]; omega))).copyMem (.inl (by rw [two]; omega))).copyMem
        (.inl (by rw [two]))
    · exact ((records.copyMem (.inl (Nat.le_refl _))).copyMem (.inl (by omega))).copyMem (.inr (by rw [two]))
    · rw [two]
      omega
    · exact (contains_copyMem (by omega)).copyMem (.inr (by rw [two]; omega))
  · rw [List.map_append, List.nodup_append]
    refine ⟨holds.nodup, List.nodup_singleton _, fun t old u => ?_⟩
    rintro is rfl
    have same : t = type := List.mem_singleton.mp is
    exact new (same ▸ old)
  · refine List.forall_mem_append.mpr ⟨holds.fit, ?_⟩
    simpa using ⟨typeLt, by omega⟩
  · simpa [tlvRecords, Nat.add_assoc, Nat.add_comm size] using lt
  · rw [← holds.outside p behind]
    change appendEntry mem type size data p = mem p
    rw [eq, putMem_eq, if_neg (by rw [two]; omega), copyMem, if_neg (by omega), putMem_eq, if_neg]
    simp only [List.length_append, two]
    omega

variable (holds : HoldsEntries area mem₀ rs st)
include holds

theorem HoldsEntries.findEntry {major minor : Nat} (majorLt : major < 16)
    (minorLt : minor < 4096) : findEntry (st.initialised area).mem major minor (4 + (tlvRecords rs).length)
      (4 + (tlvRecords rs).length) 4 = decide (setTlvType major minor ∈ rs.map (·.1)) := by
  have contains := holds.contains
  have few := length_le_tlvRecords rs
  rw [tlvArea, FlashArea.contains_append] at contains
  exact findEntry_eq majorLt minorLt holds.fit contains.2 rfl (by omega)

/-- What a narrow call does to an area that holds entries. -/
theorem HoldsEntries.add_cases (narrow : call.Narrow) :
    (bootAddDataToSharedArea area st call).1 = .ok ∧
        HoldsEntries area mem₀ (rs ++ [call.entry]) (bootAddDataToSharedArea area st call).2 ∨
      (bootAddDataToSharedArea area st call).1 ≠ .ok ∧
        ((bootAddDataToSharedArea area st call).2 = st ∨ (bootAddDataToSharedArea area st call).2 = st.initialised area ∧
          (call.entry.1 ∈ rs.map (·.1) ∨ area.size < 4 + (tlvRecords rs).length + (call.size + 4) ∨
            65535 < 4 + (tlvRecords rs).length + (call.size + 4))) := by
  obtain ⟨major, minor, size⟩ := narrow
  have walk := holds.findEntry major minor
  unfold bootAddDataToSharedArea
  cases given : call.data with
  | none => exact .inr ⟨AddRet.noConfusion, .inl rfl⟩
  | some data =>
    have entry : call.entry = (setTlvType call.majorType.toNat call.minorType.toNat, (List.range call.size).map data) := by
      rw [AddCall.entry, given, Option.getD_some]
    simp only [holds.totLen, Nat.mod_eq_of_lt size]
    rw [walk, entry]
    split
    next found => exact .inr ⟨AddRet.noConfusion, .inr ⟨rfl, .inl (of_decide_eq_true found)⟩⟩
    next new =>
      split
      next wide => exact .inr ⟨AddRet.noConfusion, .inr ⟨rfl, .inr (.inr wide)⟩⟩
      next short =>
        split
        next large => exact .inr ⟨AddRet.noConfusion, .inr ⟨rfl, .inr (.inl large)⟩⟩
        next fits =>
          have done : (⟨(st.initialised area).mem, true⟩ : SharedState) = st.initialised area := by
            rw [← initialised_initDone area st]
          refine .inl ⟨rfl, (done ▸ holds.initialise).append ?_ ?_ (by omega) (by omega)⟩
          · simpa using new
          · unfold setTlvType
            omega

theorem HoldsEntries.add (narrow : call.Narrow) :
    HoldsEntries area mem₀ (rs ++ if (bootAddDataToSharedArea area st call).1 = .ok then [call.entry] else [])
      (bootAddDataToSharedArea area st call).2 := by
  rcases holds.add_cases narrow with ⟨ok, added⟩ | ⟨failed, same | ⟨same, -⟩⟩
  · rwa [if_pos ok]
  · rwa [if_neg failed, List.append_nil, same]
  · rw [if_neg failed, List.append_nil, same]
    exact holds.initialise

theorem HoldsEntries.eq_nil (fresh : st.initDone ≠ true) : rs = [] := by
  have totLen := holds.totLen
  have few := length_le_tlvRecords rs
  have header : mem16 (st.initialised area).mem 2 = 4 := by
    rw [SharedState.initialised, if_neg fresh]
    rfl
  exact List.length_eq_zero_iff.mp (by omega)

theorem HoldsEntries.failureKeeps (narrow : call.Narrow)
    (starts : call.Starts area st) : call.FailureKeeps area st := by
  intro failed
  rcases holds.add_cases narrow with ⟨ok, -⟩ | ⟨-, same | ⟨same, why⟩⟩
  · exact absurd ok failed
  · exact same
  · rw [same]
    by_cases done : st.initDone = true
    · exact initialised_done area done
    · -- the first call, with data, which fits
      cases holds.eq_nil done
      rcases starts with done' | null | ⟨fits, lt⟩
      · exact absurd done' done
      · rw [← same, bootAddDataToSharedArea, null]
      · simp at why
        omega

theorem HoldsEntries.addAll {calls : List AddCall}
    (each : EachCall area (fun st call => call.Narrow ∧ call.Starts area st) calls st) :
    HoldsEntries area mem₀ (rs ++ (addAll area calls st).1) (addAll area calls st).2 ∧
      EachCall area (fun st call => call.FailureKeeps area st) calls st := by
  induction calls generalizing rs st with
  | nil => exact ⟨by simpa [Adaboot.addAll] using holds, trivial⟩
  | cons call calls ih =>
    obtain ⟨⟨narrow, starts⟩, rest⟩ := each
    obtain ⟨added, keeps⟩ := ih (holds.add narrow) rest
    refine ⟨?_, holds.failureKeeps narrow starts, keeps⟩
    simpa only [Adaboot.addAll, List.append_assoc] using added

end Entries

/-- The calls fill the area with the entries of those that succeed, if types and sizes fit the fields of an entry and
the first call with data fits the area. -/
theorem addAll_holdsEntries (area : SharedArea) (mem₀ : Nat → UInt8) (calls : List AddCall)
    (each : EachCall area (fun st call => call.Narrow ∧ call.Starts area st) calls ⟨mem₀, false⟩) :
    HoldsEntries area mem₀ (addAll area calls ⟨mem₀, false⟩).1 (addAll area calls ⟨mem₀, false⟩).2 ∧
      EachCall area (fun st call => call.FailureKeeps area st) calls ⟨mem₀, false⟩ :=
  (holdsEntries_uninitialised area mem₀).addAll each

def smallArea : SharedArea := ⟨64, by decide, by decide⟩

def AddCall.ofBytes (major : UInt8) (minor : UInt16) (data : Bytes) : AddCall :=
  ⟨major, minor, data.length, some (data.getD · 0)⟩

theorem addAll_holdsEntries_two : HoldsEntries smallArea (fun _ => 0) [(0x2000, [7])]
      (addAll smallArea [.ofBytes 2 0 [7], .ofBytes 2 0 [8]] ⟨fun _ => 0, false⟩).2 :=
  (addAll_holdsEntries smallArea (fun _ => 0) [.ofBytes 2 0 [7], .ofBytes 2 0 [8]]
    ⟨⟨⟨by decide, by decide, by decide⟩, .inr (.inr ⟨by decide, by decide⟩)⟩,
      ⟨⟨by decide, by decide, by decide⟩, .inl rfl⟩, trivial⟩).1

/-- Major type 18 is kept as 2, and not found again. The length of 65532 bytes of data wraps to 0. -/
theorem wide_calls_break_area :
    (addAll smallArea [.ofBytes 18 0 [7], .ofBytes 18 0 [8]] ⟨fun _ => 0, false⟩).1.map (·.1) = [0x2000, 0x2000] ∧
      (bootAddDataToSharedArea smallArea ⟨fun _ => 0, false⟩ ⟨2, 0, 65532, some fun _ => 1⟩).1 = .ok ∧
      (bootAddDataToSharedArea smallArea ⟨fun _ => 0, false⟩ ⟨2, 0, 65532, some fun _ => 1⟩).2.mem 64 = 1 := by
  decide +kernel

/-! ### What the loader leaves -/

/-- What `boot_save_shared_data` is given, or knows when it is built. -/
structure BootInfo where
  singleSlot : Bool
  mode : UInt8
  signatureType : UInt8
  recovery : UInt8
  slot : UInt8
  version : Option Bytes
  /-- What `boot_nv_security_counter_get` reads for each image, with `MCUBOOT_HW_ROLLBACK_PROT`. -/
  counters : List (Option Nat)
  /-- `max_app_sizes`; `none` has not been calculated. -/
  maxSizes : List (Option Nat)
  version_length : version.all (·.length = 8)
  counters_lt : counters.length < 256
  maxSizes_lt : maxSizes.length < 256

/-- `TLV_MAJOR_BLINFO`. -/
def blinfo (minor : Nat) (data : Bytes) : AddCall := .ofBytes 2 (.ofNat minor) data

def BootInfo.fields (info : BootInfo) : List AddCall :=
  [blinfo 0 [info.mode], blinfo 1 [info.signatureType], blinfo 2 [info.recovery]] ++
    (if info.singleSlot then [] else [blinfo 3 [info.slot]]) ++
    (info.version.map (blinfo 4)).toList ++
    if info.singleSlot then []
    else info.counters.zipIdx.filterMap fun ⟨counter, image⟩ => counter.map fun n => blinfo (0x10 + image) (put32 n)

/-- Calls are made while they succeed. -/
def addWhile (area : SharedArea) : List AddCall → SharedState → AddRet × SharedState
  | [], st => (.ok, st)
  | call :: calls, st =>
    let added := bootAddDataToSharedArea area st call
    if added.1 = .ok then addWhile area calls added.2 else added

/-- The loop over the images. The first call ends it, by `break` if it succeeds and by its condition if it fails. -/
def saveMaxSizes (area : SharedArea) : List (Option Nat) → Nat → SharedState → AddRet × SharedState
  | [], _, st => (.ok, st)
  | none :: sizes, image, st => saveMaxSizes area sizes (image + 1) st
  | some size :: _, image, st => bootAddDataToSharedArea area st (blinfo (5 + image) (put32 size))

/-- `boot_save_shared_data`: what it returns, `saved_bootinfo` and the area. -/
def bootSaveSharedData (area : SharedArea) (info : BootInfo) (saved : Bool) (st : SharedState) :
    AddRet × Bool × SharedState :=
  if saved then (.ok, saved, st)
  else
    let added := addWhile area info.fields st
    let added := if added.1 = .ok ∧ ¬ info.singleSlot then saveMaxSizes area info.maxSizes 0 added.2 else added
    (added.1, decide (added.1 = .ok), added.2)

def maxSizeEntry (image : Nat × Nat) : TypedPayload := (setTlvType 2 (5 + image.1), put32 image.2)

def BootInfo.Calculated (info : BootInfo) (image : Nat × Nat) : Prop := info.maxSizes[image.1]? = some (some image.2)

def BootInfo.earlier (info : BootInfo) (saved : Bool) : List TypedPayload :=
  if saved then [] else info.fields.map AddCall.entry

def firstSize (sizes : List (Option Nat)) (image : Nat) : Option (Nat × Nat) :=
  (sizes.zipIdx image).findSome? fun size => size.1.map (size.2, ·)

def BootInfo.first (info : BootInfo) (saved : Bool) : List (Nat × Nat) :=
  if saved || info.singleSlot then [] else (firstSize info.maxSizes 0).toList

def BootInfo.after (info : BootInfo) (saved : Bool) (rs : List TypedPayload) : List TypedPayload :=
  rs ++ info.earlier saved ++ (info.first saved).map maxSizeEntry

section Save

variable {area : SharedArea} {mem₀ : Nat → UInt8} {rs : List TypedPayload} {st : SharedState} {info : BootInfo}
  {minor : Nat} {image : Nat × Nat} {saved : Bool} {calls : List AddCall}

theorem blinfo_entry (lt : minor < 4096) (data : Bytes) :
    (blinfo minor data).entry = (setTlvType 2 minor, data) := by
  have type : (UInt16.ofNat minor).toNat = minor := Nat.mod_eq_of_lt (by omega)
  have same : (List.range data.length).map (data.getD · 0) = data := by
    apply List.ext_getElem (by simp)
    intro i _ lt
    simp [lt]
  simp only [blinfo, AddCall.ofBytes, AddCall.entry, type, Option.getD_some, same]
  rfl

theorem blinfo_narrow (lt : minor < 4096) {data : Bytes} (short : data.length ≤ 8) :
    (blinfo minor data).Narrow := by
  have type : (UInt16.ofNat minor).toNat = minor := Nat.mod_eq_of_lt (by omega)
  exact ⟨(by decide : (2 : UInt8).toNat < 16), type.symm ▸ lt, by simp only [blinfo, AddCall.ofBytes]; omega⟩

theorem fields_narrow (info : BootInfo) : ∀ call ∈ info.fields, call.Narrow := by
  intro call mem
  simp only [BootInfo.fields, List.mem_append] at mem
  rcases mem with ((mem | mem) | mem) | mem
  · simp only [List.mem_cons, List.not_mem_nil, or_false] at mem
    rcases mem with rfl | rfl | rfl <;> exact blinfo_narrow (by decide) (by simp)
  · split at mem
    · cases mem
    · exact List.mem_singleton.mp mem ▸ blinfo_narrow (by decide) (by simp)
  · obtain ⟨data, given, rfl⟩ : ∃ data, info.version = some data ∧ blinfo 4 data = call := by simpa using mem
    have length := info.version_length
    rw [given] at length
    exact blinfo_narrow (by decide) (Nat.le_of_eq (of_decide_eq_true length))
  · split at mem
    · cases mem
    · obtain ⟨⟨counter, image⟩, counted, eq⟩ := List.mem_filterMap.mp mem
      obtain ⟨n, -, rfl⟩ := Option.map_eq_some_iff.mp eq
      have lt := List.snd_lt_of_mem_zipIdx counted
      have few := info.counters_lt
      exact blinfo_narrow (by omega) (by simp [put32, put16])

theorem first_calculated (first : image ∈ info.first saved) :
    info.Calculated image := by
  unfold BootInfo.first at first
  split at first
  · cases first
  · obtain ⟨⟨size, i⟩, mem, eq⟩ := List.exists_of_findSome?_eq_some (Option.mem_toList.mp first)
    obtain ⟨n, rfl, rfl⟩ := Option.map_eq_some_iff.mp eq
    exact List.mk_mem_zipIdx_iff_getElem?.mp mem

theorem BootInfo.Calculated.lt (calculated : info.Calculated image) : image.1 < 256 :=
  Nat.lt_trans (List.getElem?_eq_some_iff.mp calculated).1 info.maxSizes_lt

theorem addWhile_append {calls' : List AddCall} : addWhile area (calls ++ calls') st =
    if (addWhile area calls st).1 = .ok then addWhile area calls' (addWhile area calls st).2
    else addWhile area calls st := by
  induction calls generalizing st with
  | nil => rfl
  | cons call calls ih =>
    simp only [List.cons_append, addWhile]
    split
    next ok => exact ih
    next failed => rfl

theorem saveMaxSizes_eq {sizes : List (Option Nat)} {image : Nat} : saveMaxSizes area sizes image st =
    addWhile area ((firstSize sizes image).toList.map fun im => blinfo (5 + im.1) (put32 im.2)) st := by
  induction sizes generalizing image with
  | nil => rfl
  | cons size sizes ih =>
    cases size with
    | none => simpa [saveMaxSizes, firstSize] using ih
    | some size =>
      have first : firstSize (some size :: sizes) image = some (image, size) := rfl
      simp only [saveMaxSizes, first, Option.toList_some, List.map_cons, List.map_nil, addWhile]
      split
      next ok => rw [← ok]
      next => rfl

theorem HoldsEntries.addWhile (holds : HoldsEntries area mem₀ rs st)
    (narrow : ∀ call ∈ calls, call.Narrow) (ok : (addWhile area calls st).1 = .ok) :
    HoldsEntries area mem₀ (rs ++ calls.map AddCall.entry) (addWhile area calls st).2 := by
  induction calls generalizing rs st with
  | nil => simpa [Adaboot.addWhile] using holds
  | cons call calls ih =>
    obtain ⟨first, rest⟩ := List.forall_mem_cons.mp narrow
    have added := holds.add first
    rw [Adaboot.addWhile] at ok ⊢
    split at ok
    next succeeds =>
      rw [if_pos succeeds] at added ⊢
      simpa using ih added rest ok
    next fails => exact absurd ok fails

theorem bootSaveSharedData_eq : ((bootSaveSharedData area info false st).1, (bootSaveSharedData area info false st).2.2) =
    addWhile area (info.fields ++ (info.first false).map fun im => blinfo (5 + im.1) (put32 im.2)) st := by
  simp only [bootSaveSharedData, Bool.false_eq_true, if_false, addWhile_append, saveMaxSizes_eq, BootInfo.first,
    Bool.false_or]
  by_cases ok : (addWhile area info.fields st).1 = .ok
  · cases info.singleSlot <;> simp [ok, addWhile]
  · simp [ok]

theorem HoldsEntries.save (holds : HoldsEntries area mem₀ rs st)
    (ok : (bootSaveSharedData area info saved st).1 = .ok) :
    HoldsEntries area mem₀ (info.after saved rs) (bootSaveSharedData area info saved st).2.2 := by
  cases saved with
  | true => simpa [BootInfo.after, BootInfo.earlier, BootInfo.first, bootSaveSharedData] using holds
  | false =>
    have saves := @bootSaveSharedData_eq area st info
    have ret : (bootSaveSharedData area info false st).1 = _ := congrArg (fun added => added.1) saves
    rw [ret] at ok
    have lt (im : Nat × Nat) (mem : im ∈ info.first false) : 5 + im.1 < 4096 := by
      have := (first_calculated mem).lt
      omega
    have entries : ((info.first false).map fun im => blinfo (5 + im.1) (put32 im.2)).map AddCall.entry =
        (info.first false).map maxSizeEntry := by
      rw [List.map_map]
      exact List.map_congr_left fun im mem => blinfo_entry (lt im mem) _
    have added := holds.addWhile ?_ ok
    · rwa [List.map_append, entries, ← List.append_assoc, ← saves] at added
    · refine List.forall_mem_append.mpr ⟨fields_narrow info, List.forall_mem_map.mpr fun im mem => ?_⟩
      exact blinfo_narrow (lt im mem) (by simp [put32, put16])

end Save

/-- After success, the area holds the maximum size of each image that has one, just if it held those of all but the
first ahead of the loop. -/
theorem bootSaveSharedData_maxSizes_iff {area : SharedArea} {mem₀ : Nat → UInt8} {rs : List TypedPayload}
    {st : SharedState} (info : BootInfo) (saved : Bool) (holds : HoldsEntries area mem₀ rs st)
    (ok : (bootSaveSharedData area info saved st).1 = .ok) :
    HoldsEntries area mem₀ (info.after saved rs) (bootSaveSharedData area info saved st).2.2 ∧
      ((∀ image, info.Calculated image → maxSizeEntry image ∈ info.after saved rs) ↔
        ∀ image, info.Calculated image → image ∉ info.first saved → maxSizeEntry image ∈ rs ++ info.earlier saved) := by
  refine ⟨holds.save ok, fun all image calculated other => ?_, fun others image calculated => ?_⟩
  · rcases List.mem_append.mp (all image calculated) with before | is
    · exact before
    · -- the entry of the first image has another type
      obtain ⟨first, mem, eq⟩ := List.mem_map.mp is
      have is := first_calculated mem
      have lt := calculated.lt
      have lt' := is.lt
      have type : setTlvType 2 (5 + first.1) = setTlvType 2 (5 + image.1) := congrArg Prod.fst eq
      have index : first.1 = image.1 := by
        unfold setTlvType at type
        omega
      have size : some (some first.2) = some (some image.2) := by rw [← is, ← calculated, index]
      have same : first = image := Prod.ext index (by simpa using size)
      exact absurd (same ▸ mem) other
  · by_cases mem : image ∈ info.first saved
    · exact List.mem_append_right _ (List.mem_map_of_mem mem)
    · exact List.mem_append_left _ (others image calculated mem)

def twoImages (sizes : List (Option Nat)) (lt : sizes.length < 256) : BootInfo :=
  ⟨false, 1, 2, 1, 0, none, [], sizes, rfl, by decide, lt⟩

theorem bootSaveSharedData_maxSizes_one : let info := twoImages [none, some 4096] (by decide)
    (bootSaveSharedData smallArea info false ⟨fun _ => 0, false⟩).1 = .ok ∧
      ∀ image, info.Calculated image → maxSizeEntry image ∈ info.after false [] := by
  have ok : (bootSaveSharedData smallArea (twoImages [none, some 4096] (by decide)) false ⟨fun _ => 0, false⟩).1 = .ok := by
    decide +kernel
  refine ⟨ok, ((bootSaveSharedData_maxSizes_iff (twoImages [none, some 4096] (by decide)) false
    (holdsEntries_uninitialised smallArea fun _ => 0) ok).2).mpr ?_⟩
  rintro ⟨_ | _ | image, size⟩ calculated other
  · cases calculated
  · cases calculated
    exact absurd (by decide) other
  · cases calculated

/-- Both images have a size; success is returned without an entry for the second. -/
theorem second_maxSize_missing :
    let saved := bootSaveSharedData smallArea (twoImages [some 4096, some 8192] (by decide)) false ⟨fun _ => 0, false⟩
    saved.1 = .ok ∧ findEntry saved.2.2.mem 2 6 (mem16 saved.2.2.mem 2) 64 4 = false := by
  decide +kernel

end Adaboot
