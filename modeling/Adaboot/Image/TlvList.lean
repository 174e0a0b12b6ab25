import Adaboot.Image.Pack
import Adaboot.Image.Tlv

/-!
# The records that the iterator yields

The converse of `HasTlv` for TLV areas that hold known lists of records: the iterator returns all of them, in order.
-/

namespace Adaboot

/-! ### Contents of an area -/

/-- The bytes stand in the area from the offset on. -/
def FlashArea.Contains (fap : FlashArea) (off : Nat) (data : Bytes) : Prop :=
  flashAreaRead fap off data.length = some data

section Contains

variable {fap : FlashArea} {off : Nat} {data : Bytes}

theorem FlashArea.Contains.le (contains : fap.Contains off data) : off + data.length ≤ fap.faSize :=
  (flashAreaRead_eq_some contains).1

theorem FlashArea.Contains.byte (contains : fap.Contains off data) {i : Nat}
    (lt : i < data.length) : fap.byte (off + i) = data.getD i 0 := by
  obtain ⟨_, eq⟩ := flashAreaRead_eq_some contains
  have at_i := congrArg (·.getD i 0) eq
  simpa [lt] using at_i.symm

theorem FlashArea.contains_append {x y : Bytes} :
    fap.Contains off (x ++ y) ↔ fap.Contains off x ∧ fap.Contains (off + x.length) y := by
  have shift : (List.range y.length).map ((fun i => fap.byte (off + i)) ∘ fun i => x.length + i) =
      (List.range y.length).map fun i => fap.byte (off + x.length + i) :=
    List.map_congr_left fun i _ => by rw [Function.comp_apply, Nat.add_assoc]
  unfold Contains flashAreaRead
  rw [List.length_append, List.range_add, List.map_append, List.map_map, shift]
  constructor
  · intro read
    split at read
    next fits =>
      obtain ⟨left, right⟩ := List.append_inj (Option.some.inj read) (by simp)
      rw [if_pos (by omega), if_pos (by omega)]
      exact ⟨congrArg some left, congrArg some right⟩
    next => simp at read
  · rintro ⟨left, right⟩
    split_ifs at left right with fitsLeft fitsRight
    rw [if_pos (by omega), Option.some.inj left, Option.some.inj right]

theorem FlashArea.ofBytes_contains (lt : data.length < 2 ^ 32) :
    (FlashArea.ofBytes data lt).Contains 0 data := by
  have fits : 0 + data.length ≤ (FlashArea.ofBytes data lt).faSize := Nat.le_of_eq (Nat.zero_add _)
  rw [Contains, flashAreaRead_of_le fits]
  congr 1
  apply List.ext_getElem (by simp)
  intro i _ lt
  simp [FlashArea.ofBytes, lt]

end Contains

/-! ### Lists of records -/

abbrev TypedPayload : Type := Nat × Bytes

def tlvRecords (rs : List TypedPayload) : Bytes := rs.flatMap fun r => tlvRecord r.1 r.2

@[simp] theorem tlvRecords_nil : tlvRecords [] = [] := rfl

@[simp] theorem tlvRecords_cons (r : TypedPayload) (rs : List TypedPayload) :
    tlvRecords (r :: rs) = tlvRecord r.1 r.2 ++ tlvRecords rs := rfl

@[simp] theorem tlvRecord_length (type : Nat) (payload : Bytes) :
    (tlvRecord type payload).length = 4 + payload.length := by
  simp only [tlvRecord, put16, List.length_append, List.length_cons, List.length_nil]

theorem length_le_tlvRecords (rs : List TypedPayload) : 4 * rs.length ≤ (tlvRecords rs).length := by
  induction rs with
  | nil => simp
  | cons r rs ih =>
    simp only [List.length_cons, tlvRecords_cons, List.length_append, tlvRecord_length]
    omega

def Fit (rs : List TypedPayload) : Prop := ∀ r ∈ rs, r.1 < 65536 ∧ r.2.length < 65536

def wanted (type : Nat) (r : TypedPayload) : Bool := type = imageTlvAny || r.1 = type

/-- The payloads that calls of `bootutil_tlv_iter_next` lead to, until there is no further record. -/
def tlvList : Nat → ImageTlvIter → Option (List TypedPayload)
  | 0, _ => none
  | fuel + 1, it =>
    match bootutilTlvIterNext it with
    | .error => none
    | .notFound => some []
    | .found it' off len type => do
      let payload ← flashAreaRead it.fap off len
      let rest ← tlvList fuel it'
      pure ((type, payload) :: rest)

def imageTlvs (hdr : ImageHeader) (fap : FlashArea) (startOff type : Nat) (prot : Bool) :
    Option (List TypedPayload) := do
  let it ← bootutilTlvIterBegin hdr fap startOff type prot
  tlvList (it.tlvEnd + 1) it

/-! ### The walk -/

section Walk

variable {it : ImageTlvIter} {off fuel : Nat} {r : TypedPayload} {it it' : ImageTlvIter} {rs us : List TypedPayload}

theorem flashAreaRead_tlvRecord {fap : FlashArea} {type : Nat} {payload : Bytes}
    (contains : fap.Contains off (tlvRecord type payload)) (typeLt : type < 65536) (lengthLt : payload.length < 65536) :
    ∃ tlv, flashAreaRead fap off 4 = some tlv ∧ le16 tlv 0 = type ∧ le16 tlv 2 = payload.length ∧
      flashAreaRead fap (off + 4) payload.length = some payload := by
  rw [tlvRecord, FlashArea.contains_append] at contains
  refine ⟨put16 type ++ put16 payload.length, contains.1, le16_put16 typeLt _, ?_, contains.2⟩
  have := le16_put16 lengthLt []
  simpa [le16, put16] using this

/-- The iterator stands in the unprotected area, with these records ahead. -/
structure ImageTlvIter.Over (it : ImageTlvIter) (us : List TypedPayload) : Prop where
  contains : it.fap.Contains it.tlvOff (tlvRecords us)
  stop : it.tlvOff + (tlvRecords us).length = it.tlvEnd
  lt : it.tlvEnd < 2 ^ 32
  past : it.hdr.ihProtectTlvSize.toNat = 0 ∨ it.protEnd < it.tlvOff
  any : it.prot = false
  fit : Fit us

/-- The iterator stands in the protected area, with the records `ps` ahead there and `us` behind it. -/
structure ImageTlvIter.Before (it : ImageTlvIter) (ps us : List TypedPayload) : Prop where
  contains : it.fap.Contains it.tlvOff (tlvRecords ps)
  stop : it.tlvOff + (tlvRecords ps).length = it.protEnd
  behind : it.fap.Contains (it.protEnd + 4) (tlvRecords us)
  stopBehind : it.protEnd + 4 + (tlvRecords us).length = it.tlvEnd
  lt : it.tlvEnd < 2 ^ 32
  hasProt : 0 < it.hdr.ihProtectTlvSize.toNat
  fit : Fit ps
  fitBehind : Fit us

/-- The records that are still to come. -/
inductive ImageTlvIter.Ahead : ImageTlvIter → List TypedPayload → Prop where
  | last {it : ImageTlvIter} {us : List TypedPayload} : it.Over us → it.Ahead us
  | before {it : ImageTlvIter} {ps us : List TypedPayload} :
      it.Before ps us → it.Ahead (if it.prot then ps else ps ++ us)
  | past {it : ImageTlvIter} : it.prot = true → it.protEnd ≤ it.tlvOff → it.Ahead []

/-- What a call returns with the records `rs` ahead: the first one that is wanted. -/
def Yields (it : ImageTlvIter) (rs : List TypedPayload) (next : TlvNext) : Prop :=
  match rs.filter (wanted it.type) with
  | [] => next = .notFound
  | r :: more => ∃ it' off rest, next = .found it' off r.2.length r.1 ∧
      flashAreaRead it.fap off r.2.length = some r.2 ∧ it'.Ahead rest ∧
      rest.filter (wanted it'.type) = more ∧ it'.fap = it.fap ∧ it'.type = it.type

/-- A round of the loop at a record that the iterator may return. -/
theorem Yields.record (contains : it.fap.Contains it.tlvOff (tlvRecord r.1 r.2))
    (fits : r.1 < 65536 ∧ r.2.length < 65536) (inProt : it.prot = true → it.tlvOff < it.protEnd)
    (notBetween : ¬(0 < it.hdr.ihProtectTlvSize.toNat ∧ it.tlvOff = it.protEnd))
    (room : it.tlvOff + 4 + r.2.length ≤ it.sectionEnd) (le : it.sectionEnd ≤ it.tlvEnd) (lt : it.tlvEnd < 2 ^ 32)
    (ahead : ImageTlvIter.Ahead { it with tlvOff := it.tlvOff + 4 + r.2.length } rs)
    (yields : Yields { it with tlvOff := it.tlvOff + 4 + r.2.length } rs
      (tlvIterNextLoop fuel { it with tlvOff := it.tlvOff + 4 + r.2.length })) :
    Yields it (r :: rs) (tlvIterNextLoop (fuel + 1) it) := by
  obtain ⟨tlv, read, type, length, payload⟩ := flashAreaRead_tlvRecord contains fits.1 fits.2
  have outside : ¬(it.prot = true ∧ it.tlvOff ≥ it.protEnd) := fun ⟨prot, ge⟩ =>
    absurd (inProt prot) (Nat.not_lt.mpr ge)
  rw [tlvIterNextLoop, if_pos (by omega), if_neg outside, if_neg notBetween, if_neg (by omega), read]
  simp only [type, length]
  rw [if_neg (by omega), u32_of_lt (n := it.tlvOff + 4) (by omega),
    u32_of_lt (n := it.tlvOff + 4 + r.2.length) (by omega)]
  unfold Yields at yields ⊢
  by_cases want : it.type = imageTlvAny ∨ r.1 = it.type
  · rw [if_pos want, List.filter_cons_of_pos (by simpa [wanted] using want)]
    exact ⟨_, _, rs, rfl, payload, ahead, rfl, rfl, rfl⟩
  · rw [if_neg want, List.filter_cons_of_neg (by simpa [wanted] using want)]
    exact yields

theorem ImageTlvIter.Over.yields (last : it.Over us)
    (enough : us.length < fuel) : Yields it us (tlvIterNextLoop fuel it) := by
  induction us generalizing it fuel with
  | nil =>
    obtain ⟨fuel, rfl⟩ : ∃ n, fuel = n + 1 := ⟨fuel - 1, by simp at enough; omega⟩
    have stop := last.stop
    simp only [tlvRecords_nil, List.length_nil] at stop
    change tlvIterNextLoop (fuel + 1) it = .notFound
    rw [tlvIterNextLoop, if_neg (by omega)]
  | cons r us ih =>
    obtain ⟨fuel, rfl⟩ : ∃ n, fuel = n + 1 := ⟨fuel - 1, by simp at enough; omega⟩
    obtain ⟨contains, stop, lt, past, any, fit⟩ := last
    rw [tlvRecords_cons, FlashArea.contains_append, tlvRecord_length] at contains
    simp only [tlvRecords_cons, List.length_append, tlvRecord_length] at stop
    simp only [List.length_cons] at enough
    have sectionEnd : it.sectionEnd = it.tlvEnd := by simp [sectionEnd, any]
    have next : ImageTlvIter.Over { it with tlvOff := it.tlvOff + 4 + r.2.length } us :=
      ⟨by simpa only [Nat.add_assoc] using contains.2, by simp only; omega, lt, by simp only; omega, any,
        fun s mem => fit s (List.mem_cons_of_mem _ mem)⟩
    exact .record contains.1 (fit r List.mem_cons_self) (by simp [any]) (by omega) (by omega) (by omega) lt (.last next)
      (ih next (by omega))

/-- At the end of the protected area the iterator is done, or it goes on behind the other info header. -/
theorem ImageTlvIter.Before.yields_nil (before : it.Before [] us)
    (enough : us.length + 1 < fuel) : Yields it (if it.prot then [] else us) (tlvIterNextLoop fuel it) := by
  obtain ⟨fuel, rfl⟩ : ∃ n, fuel = n + 1 := ⟨fuel - 1, by omega⟩
  obtain ⟨-, stop, behind, stopBehind, lt, hasProt, -, fitBehind⟩ := before
  simp only [tlvRecords_nil, List.length_nil, Nat.add_zero] at stop
  have more : it.tlvOff < it.tlvEnd := by omega
  cases prot : it.prot with
  | true =>
    change tlvIterNextLoop (fuel + 1) it = .notFound
    rw [tlvIterNextLoop, if_pos more, if_pos ⟨prot, by omega⟩]
  | false =>
    have last : ImageTlvIter.Over { it with tlvOff := it.tlvOff + 4 } us :=
      ⟨by simpa only [stop] using behind, by simp only; omega, lt, .inr (by simp only; omega), prot, fitBehind⟩
    have skip : tlvIterNextLoop (fuel + 1) it = tlvIterNextLoop fuel { it with tlvOff := it.tlvOff + 4 } := by
      rw [tlvIterNextLoop, if_pos more, if_neg (by simp [prot]), if_pos ⟨hasProt, stop⟩, u32_of_lt (by omega)]
    rw [skip]
    exact last.yields (by omega)

theorem ImageTlvIter.Before.yields {ps : List TypedPayload} (before : it.Before ps us)
    (enough : ps.length + us.length + 1 < fuel) :
    Yields it (if it.prot then ps else ps ++ us) (tlvIterNextLoop fuel it) := by
  induction ps generalizing it fuel with
  | nil => exact before.yields_nil (by simpa using enough)
  | cons r ps ih =>
    obtain ⟨fuel, rfl⟩ : ∃ n, fuel = n + 1 := ⟨fuel - 1, by omega⟩
    obtain ⟨contains, stop, behind, stopBehind, lt, hasProt, fit, fitBehind⟩ := before
    rw [tlvRecords_cons, FlashArea.contains_append, tlvRecord_length] at contains
    simp only [tlvRecords_cons, List.length_append, tlvRecord_length] at stop
    simp only [List.length_cons] at enough
    have sectionEnd : it.protEnd ≤ it.sectionEnd ∧ it.sectionEnd ≤ it.tlvEnd := by
      unfold sectionEnd
      split <;> omega
    have next : ImageTlvIter.Before { it with tlvOff := it.tlvOff + 4 + r.2.length } ps us :=
      ⟨by simpa only [Nat.add_assoc] using contains.2, by simp only; omega, behind, stopBehind, lt, hasProt,
        fun s mem => fit s (List.mem_cons_of_mem _ mem), fitBehind⟩
    have split_cons : (if it.prot then r :: ps else r :: ps ++ us) = r :: if it.prot then ps else ps ++ us := by
      split <;> rfl
    rw [split_cons]
    exact .record contains.1 (fit r List.mem_cons_self) (by omega) (by omega) (by omega) sectionEnd.2 lt (.before next)
      (ih next (by omega))

theorem ImageTlvIter.Ahead.yields (ahead : it.Ahead rs) :
    Yields it rs (bootutilTlvIterNext it) := by
  cases ahead with
  | last last =>
    have := length_le_tlvRecords rs
    have := last.stop
    exact last.yields (by omega)
  | @before ps us before =>
    have := length_le_tlvRecords ps
    have := length_le_tlvRecords us
    have := before.stop
    have := before.stopBehind
    exact before.yields (by omega)
  | past prot ge =>
    change tlvIterNextLoop _ it = .notFound
    rw [tlvIterNextLoop]
    split
    next => rw [if_pos ⟨prot, ge⟩]
    next => rfl

theorem tlvList_eq (ahead : it.Ahead rs)
    (enough : (rs.filter (wanted it.type)).length < fuel) : tlvList fuel it = some (rs.filter (wanted it.type)) := by
  induction fuel generalizing it rs with
  | zero => omega
  | succ fuel ih =>
    have yields := ahead.yields
    unfold Yields at yields
    rw [tlvList]
    cases wants : rs.filter (wanted it.type) with
    | nil =>
      rw [wants] at yields
      rw [yields]
    | cons r more =>
      rw [wants] at yields
      obtain ⟨it', off, rest, next, read, ahead', rfl, -, -⟩ := yields
      rw [wants, List.length_cons] at enough
      rw [next]
      simp [read, ih ahead' (by omega)]

end Walk

/-! ### The start of the walk -/

def tlvArea (magic : Nat) (rs : List TypedPayload) : Bytes :=
  put16 magic ++ put16 (4 + (tlvRecords rs).length) ++ tlvRecords rs

section Begin

variable {hdr : ImageHeader} {fap : FlashArea} {startOff : Nat}

@[simp] theorem tlvArea_length (magic : Nat) (rs : List TypedPayload) :
    (tlvArea magic rs).length = 4 + (tlvRecords rs).length := by
  simp [tlvArea, put16]
  omega

theorem flashAreaRead_tlvArea {off magic : Nat} {rs : List TypedPayload}
    (contains : fap.Contains off (tlvArea magic rs)) (magicLt : magic < 65536)
    (lengthLt : (tlvArea magic rs).length < 65536) : ∃ info, flashAreaRead fap off 4 = some info ∧ le16 info 0 = magic ∧
      le16 info 2 = 4 + (tlvRecords rs).length ∧ fap.Contains (off + 4) (tlvRecords rs) := by
  rw [tlvArea, FlashArea.contains_append] at contains
  refine ⟨put16 magic ++ put16 (4 + (tlvRecords rs).length), contains.1, le16_put16 magicLt _, ?_, contains.2⟩
  have := le16_put16 lengthLt []
  simpa [le16, put16] using this

variable {us ps : List TypedPayload}

theorem begin_unprotected (none : hdr.ihProtectTlvSize.toNat = 0)
    (contains : fap.Contains (tlvStart hdr startOff) (tlvArea imageTlvInfoMagic us))
    (lengthLt : (tlvArea imageTlvInfoMagic us).length < 65536) (fit : Fit us) (type : Nat) (prot : Bool) :
    ∃ it, bootutilTlvIterBegin hdr fap startOff type prot = some it ∧ it.type = type ∧
      it.Ahead (if prot then [] else us) ∧ (tlvRecords us).length ≤ it.tlvEnd := by
  obtain ⟨info, read, magic, size, records⟩ := flashAreaRead_tlvArea contains (by decide) lengthLt
  have le := contains.le
  have lt := fap.faSize_lt
  rw [tlvArea_length] at le
  have begun : bootutilTlvIterBegin hdr fap startOff type prot =
      some ⟨hdr, fap, type, prot, tlvStart hdr startOff, tlvStart hdr startOff + 4,
        tlvStart hdr startOff + (4 + (tlvRecords us).length)⟩ := by
    rw [bootutilTlvIterBegin, bootTlvOff_add (by omega), readTlvInfo, read]
    simp only [magic, none, size]
    rw [if_neg (by decide), if_neg (by simp)]
    simp only [magic, size, ne_eq, not_true_eq_false, if_false, Nat.add_zero]
    rw [u32_of_lt (by omega), u32_of_lt (by omega), u32_of_lt (by omega)]
  refine ⟨_, begun, rfl, ?_, by simp only; omega⟩
  cases prot with
  | true => exact .past rfl (by simp only; omega)
  | false =>
    rw [if_neg (by decide)]
    exact .last ⟨records, by simp only; omega, by simp only; omega, .inl none, rfl, fit⟩

theorem begin_protected (size : hdr.ihProtectTlvSize.toNat = 4 + (tlvRecords ps).length)
    (contains : fap.Contains (tlvStart hdr startOff) (tlvArea imageTlvProtInfoMagic ps ++ tlvArea imageTlvInfoMagic us))
    (lengthLt : (tlvArea imageTlvInfoMagic us).length < 65536) (fit : Fit ps) (fitBehind : Fit us)
    (type : Nat) (prot : Bool) : ∃ it, bootutilTlvIterBegin hdr fap startOff type prot = some it ∧ it.type = type ∧
      it.Ahead (if prot then ps else ps ++ us) ∧ (tlvRecords ps).length + (tlvRecords us).length ≤ it.tlvEnd := by
  have le := contains.le
  have lt := fap.faSize_lt
  have protLt := hdr.ihProtectTlvSize.toNat_lt
  rw [FlashArea.contains_append, tlvArea_length, ← size] at contains
  obtain ⟨info, read, magic, infoSize, records⟩ :=
    flashAreaRead_tlvArea contains.1 (by decide) (by rw [tlvArea_length]; omega)
  obtain ⟨info', read', magic', infoSize', records'⟩ := flashAreaRead_tlvArea contains.2 (by decide) lengthLt
  rw [List.length_append, tlvArea_length, tlvArea_length] at le
  have begun : bootutilTlvIterBegin hdr fap startOff type prot =
      some ⟨hdr, fap, type, prot, tlvStart hdr startOff + hdr.ihProtectTlvSize.toNat, tlvStart hdr startOff + 4,
        tlvStart hdr startOff + hdr.ihProtectTlvSize.toNat + (4 + (tlvRecords us).length)⟩ := by
    rw [bootutilTlvIterBegin, bootTlvOff_add (by omega), readTlvInfo, read]
    simp only [magic, if_true, infoSize, ← size, ne_eq, not_true_eq_false, if_false]
    rw [u32_of_lt (n := tlvStart hdr startOff + hdr.ihProtectTlvSize.toNat) (by omega), read']
    simp only [magic', infoSize', not_true_eq_false, if_false]
    rw [u32_of_lt (by omega), u32_of_lt (by omega)]
  refine ⟨_, begun, rfl, ?_, by simp only; omega⟩
  exact .before ⟨records, by simp only; omega, records', by simp only; omega, by simp only; omega,
    by simp only; omega, fit, fitBehind⟩

theorem imageTlvs_eq (size : hdr.ihProtectTlvSize.toNat = if ps = [] then 0 else 4 + (tlvRecords ps).length)
    (contains : fap.Contains (tlvStart hdr startOff)
      ((if ps = [] then [] else tlvArea imageTlvProtInfoMagic ps) ++ tlvArea imageTlvInfoMagic us))
    (lengthLt : (tlvArea imageTlvInfoMagic us).length < 65536) (fit : Fit ps) (fitBehind : Fit us)
    (type : Nat) (prot : Bool) :
    imageTlvs hdr fap startOff type prot = some ((if prot then ps else ps ++ us).filter (wanted type)) := by
  have begun : ∃ it, bootutilTlvIterBegin hdr fap startOff type prot = some it ∧ it.type = type ∧
      it.Ahead (if prot then ps else ps ++ us) ∧
      (tlvRecords ps).length + (tlvRecords us).length ≤ it.tlvEnd := by
    by_cases none : ps = []
    · subst none
      simpa using begin_unprotected size contains lengthLt fitBehind type prot
    · rw [if_neg none] at size contains
      exact begin_protected size contains lengthLt fit fitBehind type prot
  obtain ⟨it, begun, rfl, ahead, le⟩ := begun
  rw [imageTlvs, begun]
  apply tlvList_eq ahead
  -- there are not more records than bytes
  have := length_le_tlvRecords ps
  have := length_le_tlvRecords us
  have filtered := List.length_filter_le (wanted it.type) (if prot then ps else ps ++ us)
  have listed : (if prot then ps else ps ++ us).length ≤ ps.length + us.length := by
    split <;> simp
  omega

end Begin

end Adaboot
