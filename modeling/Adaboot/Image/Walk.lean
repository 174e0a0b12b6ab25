import Adaboot.Image.TlvList

/-!
# Walks over the TLVs

What a caller sees that asks for records until there is none, or one is malformed, with no bound on the rounds. Every
walk ends, and its payloads follow each other within the area.
-/

namespace Adaboot

/-! ### Rounds and calls -/

/-- One round of the loop of `bootutil_tlv_iter_next`: an answer, or another round with the iterator moved on. -/
def tlvRound (it : ImageTlvIter) : TlvNext ⊕ ImageTlvIter :=
  if it.tlvOff < it.tlvEnd then
    if it.prot ∧ it.tlvOff ≥ it.protEnd then .inl .notFound
    else if 0 < it.hdr.ihProtectTlvSize.toNat ∧ it.tlvOff = it.protEnd then .inr { it with tlvOff := u32 (it.tlvOff + 4) }
    else if it.tlvOff > it.sectionEnd ∨ 4 > it.sectionEnd - it.tlvOff then .inl .error
    else match flashAreaRead it.fap it.tlvOff 4 with
      | none => .inl .error
      | some tlv =>
        let next := { it with tlvOff := u32 (it.tlvOff + 4 + le16 tlv 2) }
        if le16 tlv 2 > it.sectionEnd - it.tlvOff - 4 then .inl .error
        else if it.type = imageTlvAny ∨ le16 tlv 0 = it.type then
          .inl (.found next (u32 (it.tlvOff + 4)) (le16 tlv 2) (le16 tlv 0))
        else .inr next
  else .inl .notFound

/-- A call ends with an answer, after any number of rounds. -/
inductive Returns : ImageTlvIter → TlvNext → Prop where
  | answer {it : ImageTlvIter} {next : TlvNext} : tlvRound it = .inl next → Returns it next
  | again {it it' : ImageTlvIter} {next : TlvNext} : tlvRound it = .inr it' → Returns it' next → Returns it next

/-- Where the payload of a record is, its length and its type. -/
structure TlvEntry where
  off : Nat
  len : Nat
  type : Nat
deriving DecidableEq, Repr

/-- What a caller sees that asks until there is no further record, and whether all were well formed. -/
inductive Walk : ImageTlvIter → List TlvEntry → Bool → Prop where
  | done {it : ImageTlvIter} : Returns it .notFound → Walk it [] true
  | failed {it : ImageTlvIter} : Returns it .error → Walk it [] false
  | entry {it it' : ImageTlvIter} {off len type : Nat} {es : List TlvEntry} {clean : Bool} :
      Returns it (.found it' off len type) → Walk it' es clean → Walk it (⟨off, len, type⟩ :: es) clean

theorem tlvIterNextLoop_succ (fuel : Nat) (it : ImageTlvIter) : tlvIterNextLoop (fuel + 1) it =
      match tlvRound it with
      | .inl next => next
      | .inr it' => tlvIterNextLoop fuel it' := by
  rw [tlvIterNextLoop, tlvRound]
  split_ifs
  · rfl
  · rfl
  · rfl
  · cases flashAreaRead it.fap it.tlvOff 4 with
    | none => rfl
    | some tlv =>
      dsimp only
      split_ifs <;> rfl
  · rfl

/-! ### The records in flash -/

/-- The header of a record with the type and the length is at `q`. -/
def RecordAt (fap : FlashArea) (q type len : Nat) : Prop :=
  ∃ tlv, flashAreaRead fap q 4 = some tlv ∧ le16 tlv 0 = type ∧ le16 tlv 2 = len

/-- Stepping over records leads from `p` to `q`. -/
inductive RecordsFrom (fap : FlashArea) : Nat → Nat → Prop where
  | here (p : Nat) : RecordsFrom fap p p
  | later {p q type len : Nat} : RecordAt fap p type len → RecordsFrom fap (p + 4 + len) q → RecordsFrom fap p q

theorem RecordAt.unique {fap : FlashArea} {q type type' len len' : Nat} (found : RecordAt fap q type len)
    (found' : RecordAt fap q type' len') : type' = type ∧ len' = len := by
  obtain ⟨tlv, read, rfl, rfl⟩ := found
  obtain ⟨tlv', read', rfl, rfl⟩ := found'
  rw [read] at read'
  cases read'
  exact ⟨rfl, rfl⟩

theorem RecordsFrom.le {fap : FlashArea} {p q : Nat} (records : RecordsFrom fap p q) : p ≤ q := by
  induction records with
  | here => exact Nat.le_refl _
  | later _ _ ih => omega

section Rounds

variable {it : ImageTlvIter}

def ImageTlvIter.Wants (it : ImageTlvIter) (type : Nat) : Prop := it.type = imageTlvAny ∨ type = it.type

instance (type : Nat) : Decidable (it.Wants type) := inferInstanceAs (Decidable (_ ∨ _))

/-- The bounds of the iterator are offsets, also that of the first record behind the second info header. -/
structure ImageTlvIter.Bounded (it : ImageTlvIter) : Prop where
  tlvEnd_lt : it.tlvEnd < 2 ^ 32
  protEnd_lt : it.protEnd < 2 ^ 32
  skip_lt : 0 < it.hdr.ihProtectTlvSize.toNat → it.protEnd + 4 < 2 ^ 32

theorem ImageTlvIter.Bounded.move (bounded : it.Bounded) (off : Nat) : ImageTlvIter.Bounded { it with tlvOff := off } :=
  ⟨bounded.tlvEnd_lt, bounded.protEnd_lt, bounded.skip_lt⟩

theorem ImageTlvIter.Bounded.sectionEnd_lt (bounded : it.Bounded) : it.sectionEnd < 2 ^ 32 := by
  unfold ImageTlvIter.sectionEnd
  split
  · exact bounded.protEnd_lt
  · exact bounded.tlvEnd_lt

/-- The iterator is at a place where a record can be. -/
structure ImageTlvIter.AtRecord (it : ImageTlvIter) : Prop where
  more : it.tlvOff < it.tlvEnd
  inProt : it.prot = true → it.tlvOff < it.protEnd
  notBetween : ¬(0 < it.hdr.ihProtectTlvSize.toNat ∧ it.tlvOff = it.protEnd)

/-- What a round can do. -/
inductive RoundSpec (it : ImageTlvIter) : TlvNext ⊕ ImageTlvIter → Prop where
  | finished : (it.tlvEnd ≤ it.tlvOff ∨ it.prot = true ∧ it.protEnd ≤ it.tlvOff) → RoundSpec it (.inl .notFound)
  | skipped : it.prot = false → it.tlvOff < it.tlvEnd → it.tlvOff = it.protEnd →
      RoundSpec it (.inr { it with tlvOff := it.tlvOff + 4 })
  | malformed : it.AtRecord → (∀ type len, RecordAt it.fap it.tlvOff type len → it.sectionEnd < it.tlvOff + 4 + len) →
      RoundSpec it (.inl .error)
  | found {type len : Nat} : it.AtRecord → RecordAt it.fap it.tlvOff type len → it.tlvOff + 4 + len ≤ it.sectionEnd →
      it.Wants type → RoundSpec it (.inl (.found { it with tlvOff := it.tlvOff + 4 + len } (it.tlvOff + 4) len type))
  | passed {type len : Nat} : it.AtRecord → RecordAt it.fap it.tlvOff type len → it.tlvOff + 4 + len ≤ it.sectionEnd →
      ¬it.Wants type → RoundSpec it (.inr { it with tlvOff := it.tlvOff + 4 + len })

theorem tlvRound_spec (bounded : it.Bounded) : RoundSpec it (tlvRound it) := by
  have sectionEnd := bounded.sectionEnd_lt
  rw [tlvRound]
  split_ifs with more outside between short
  · exact .finished (.inr outside)
  · have := bounded.skip_lt between.1
    rw [u32_of_lt (by omega)]
    refine .skipped ?_ more between.2
    cases prot : it.prot with
    | false => rfl
    | true => exact absurd ⟨prot, Nat.le_of_eq between.2.symm⟩ outside
  · have record : it.AtRecord := ⟨more, fun prot => Nat.lt_of_not_le fun ge => outside ⟨prot, ge⟩, between⟩
    exact .malformed record fun _ _ _ => by omega
  · have record : it.AtRecord := ⟨more, fun prot => Nat.lt_of_not_le fun ge => outside ⟨prot, ge⟩, between⟩
    cases read : flashAreaRead it.fap it.tlvOff 4 with
    | none =>
      refine .malformed record fun type len found => ?_
      obtain ⟨tlv, read', -⟩ := found
      simp [read] at read'
    | some tlv =>
      have found : RecordAt it.fap it.tlvOff (le16 tlv 0) (le16 tlv 2) := ⟨tlv, read, rfl, rfl⟩
      dsimp only
      split_ifs with long wants
      · refine .malformed record fun type len found' => ?_
        obtain ⟨-, rfl⟩ := found.unique found'
        omega
      · rw [u32_of_lt (n := it.tlvOff + 4) (by omega), u32_of_lt (by omega)]
        exact .found record found (by omega) wants
      · rw [u32_of_lt (by omega)]
        exact .passed record found (by omega) wants
  · exact .finished (.inl (Nat.le_of_not_lt more))

end Rounds

/-! ### Every walk ends -/

section Calls

variable {it it' : ImageTlvIter} {off len type : Nat} {es : List TlvEntry} {clean : Bool}

/-- The iterator with its rounds bounded returns what the loop returns: the loop ends. -/
theorem returns_tlvIterNextLoop {fuel : Nat} (bounded : it.Bounded) (enough : it.tlvEnd < it.tlvOff + fuel)
    (pos : 0 < fuel) : Returns it (tlvIterNextLoop fuel it) := by
  induction fuel generalizing it with
  | zero => exact absurd pos (Nat.lt_irrefl 0)
  | succ fuel ih =>
    have spec := tlvRound_spec bounded
    rw [tlvIterNextLoop_succ]
    cases round : tlvRound it with
    | inl next => exact .answer round
    | inr it' =>
      rw [round] at spec
      refine .again round ?_
      cases spec with
      | skipped _ more _ => exact ih (bounded.move _) (by dsimp only; omega) (by omega)
      | passed record _ _ _ =>
        have := record.more
        exact ih (bounded.move _) (by dsimp only; omega) (by omega)

theorem returns_bootutilTlvIterNext (bounded : it.Bounded) : Returns it (bootutilTlvIterNext it) :=
  returns_tlvIterNextLoop bounded (by omega) (Nat.succ_pos _)

theorem Returns.unique {next next' : TlvNext} (returns : Returns it next) (returns' : Returns it next') :
    next' = next := by
  induction returns with
  | answer round =>
    cases returns' with
    | answer round' => exact Sum.inl.inj (round'.symm.trans round)
    | again round' _ => simp [round] at round'
  | again round _ ih =>
    cases returns' with
    | answer round' => simp [round] at round'
    | again round' rest =>
      rw [round] at round'
      cases round'
      exact ih rest

theorem Walk.unique {es' : List TlvEntry} {clean' : Bool} (walk : Walk it es clean) (walk' : Walk it es' clean') :
    es' = es ∧ clean' = clean := by
  induction walk generalizing es' clean' with
  | done returns =>
    cases walk' with
    | done _ => exact ⟨rfl, rfl⟩
    | failed returns' | entry returns' _ => cases returns.unique returns'
  | failed returns =>
    cases walk' with
    | failed _ => exact ⟨rfl, rfl⟩
    | done returns' | entry returns' _ => cases returns.unique returns'
  | entry returns _ ih =>
    cases walk' with
    | done returns' | failed returns' => cases returns.unique returns'
    | entry returns' rest =>
      cases returns.unique returns'
      obtain ⟨rfl, rfl⟩ := ih rest
      exact ⟨rfl, rfl⟩

theorem Returns.moves (returns : Returns it (.found it' off len type)) (bounded : it.Bounded) :
    it' = { it with tlvOff := off + len } ∧ it.tlvOff < off ∧ it.tlvOff < it.tlvEnd := by
  generalize answer : TlvNext.found it' off len type = next at returns
  induction returns with
  | answer round =>
    have spec := tlvRound_spec bounded
    rw [round] at spec
    cases spec with
    | finished _ | malformed _ _ => cases answer
    | found record _ _ _ =>
      cases answer
      exact ⟨rfl, by omega, record.more⟩
  | again round _ ih =>
    have spec := tlvRound_spec bounded
    rw [round] at spec
    cases spec with
    | skipped _ more _ =>
      obtain ⟨rfl, le, -⟩ := ih (bounded.move _) answer
      dsimp only at le
      exact ⟨rfl, by omega, more⟩
    | passed record _ _ _ =>
      obtain ⟨rfl, le, -⟩ := ih (bounded.move _) answer
      dsimp only at le
      exact ⟨rfl, by omega, record.more⟩

theorem exists_walk (bounded : it.Bounded) : ∃ es clean, Walk it es clean := by
  induction bytes : it.tlvEnd - it.tlvOff using Nat.strong_induction_on generalizing it with
  | _ n ih =>
    have returns := returns_bootutilTlvIterNext bounded
    cases next : bootutilTlvIterNext it with
    | notFound => exact ⟨[], true, .done (next ▸ returns)⟩
    | error => exact ⟨[], false, .failed (next ▸ returns)⟩
    | found it' off len type =>
      rw [next] at returns
      obtain ⟨moved, ahead, more⟩ := returns.moves bounded
      subst moved
      obtain ⟨es, clean, walk⟩ := ih (it.tlvEnd - (off + len)) (by omega) (bounded.move (off + len)) rfl
      exact ⟨⟨off, len, type⟩ :: es, clean, .entry returns walk⟩

/-! ### What a walk has seen -/

/-- A walk round by round. -/
inductive Seen : ImageTlvIter → List TlvEntry → Bool → Prop where
  | finished {it : ImageTlvIter} : (it.tlvEnd ≤ it.tlvOff ∨ it.prot = true ∧ it.protEnd ≤ it.tlvOff) → Seen it [] true
  | skipped {it : ImageTlvIter} {es : List TlvEntry} {clean : Bool} : it.prot = false → it.tlvOff < it.tlvEnd →
      it.tlvOff = it.protEnd → Seen { it with tlvOff := it.tlvOff + 4 } es clean → Seen it es clean
  | malformed {it : ImageTlvIter} : it.AtRecord →
      (∀ type len, RecordAt it.fap it.tlvOff type len → it.sectionEnd < it.tlvOff + 4 + len) → Seen it [] false
  | found {it : ImageTlvIter} {type len : Nat} {es : List TlvEntry} {clean : Bool} : it.AtRecord →
      RecordAt it.fap it.tlvOff type len → it.tlvOff + 4 + len ≤ it.sectionEnd → it.Wants type →
      Seen { it with tlvOff := it.tlvOff + 4 + len } es clean → Seen it (⟨it.tlvOff + 4, len, type⟩ :: es) clean
  | passed {it : ImageTlvIter} {type len : Nat} {es : List TlvEntry} {clean : Bool} : it.AtRecord →
      RecordAt it.fap it.tlvOff type len → it.tlvOff + 4 + len ≤ it.sectionEnd → ¬it.Wants type →
      Seen { it with tlvOff := it.tlvOff + 4 + len } es clean → Seen it es clean

/-- What remains to be seen after a call. -/
def TlvNext.Leaves (es : List TlvEntry) (clean : Bool) : TlvNext → Prop
  | .notFound => es = [] ∧ clean = true
  | .error => es = [] ∧ clean = false
  | .found it' off len type => ∃ rest, es = ⟨off, len, type⟩ :: rest ∧ Seen it' rest clean

theorem Returns.seen {next : TlvNext} (returns : Returns it next) (bounded : it.Bounded)
    (leaves : next.Leaves es clean) : Seen it es clean := by
  induction returns with
  | answer round =>
    have spec := tlvRound_spec bounded
    rw [round] at spec
    cases spec with
    | finished past =>
      obtain ⟨rfl, rfl⟩ := leaves
      exact .finished past
    | malformed record bad =>
      obtain ⟨rfl, rfl⟩ := leaves
      exact .malformed record bad
    | found record found inside wants =>
      obtain ⟨rest, rfl, seen⟩ := leaves
      exact .found record found inside wants seen
  | again round _ ih =>
    have spec := tlvRound_spec bounded
    rw [round] at spec
    cases spec with
    | skipped any more between => exact .skipped any more between (ih (bounded.move _) leaves)
    | passed record found inside unwanted => exact .passed record found inside unwanted (ih (bounded.move _) leaves)

theorem Walk.seen (walk : Walk it es clean) (bounded : it.Bounded) : Seen it es clean := by
  induction walk with
  | done returns | failed returns => exact returns.seen bounded ⟨rfl, rfl⟩
  | @entry it it' off len type es clean returns _ ih =>
    obtain ⟨moved, -⟩ := returns.moves bounded
    exact returns.seen bounded ⟨es, rfl, ih (moved ▸ bounded.move (off + len))⟩

theorem Seen.inside (seen : Seen it es clean) : ∀ e ∈ es, it.tlvOff + 4 ≤ e.off ∧ e.off + e.len ≤ it.sectionEnd := by
  induction seen with
  | finished _ | malformed _ _ => exact nofun
  | skipped _ _ _ _ ih | passed _ _ _ _ _ ih =>
    intro e mem
    obtain ⟨ahead, inside⟩ := ih e mem
    dsimp only at ahead
    exact ⟨by omega, inside⟩
  | found _ _ inside _ _ ih =>
    intro e mem
    rcases List.mem_cons.mp mem with rfl | mem
    · exact ⟨Nat.le_refl _, inside⟩
    · obtain ⟨ahead, inside⟩ := ih e mem
      dsimp only at ahead
      exact ⟨by omega, inside⟩

theorem Seen.pairwise (seen : Seen it es clean) : es.Pairwise fun e f => e.off + e.len + 4 ≤ f.off := by
  induction seen with
  | finished _ | malformed _ _ => exact .nil
  | skipped _ _ _ _ ih | passed _ _ _ _ _ ih => exact ih
  | found _ _ _ _ rest ih => exact .cons (fun f mem => (rest.inside f mem).1) ih

end Calls

/-! ### Well-formed areas -/

section Areas

variable {hdr : ImageHeader} {fap : FlashArea} {startOff type : Nat} {prot : Bool} {it : ImageTlvIter}

/-- Also where bounds wrap around the second info header has been read. -/
theorem bootutilTlvIterBegin_bounded (begun : bootutilTlvIterBegin hdr fap startOff type prot = some it) :
    it.Bounded := by
  have lt := fap.faSize_lt
  unfold bootutilTlvIterBegin at begun
  dsimp only at begun
  split at begun
  next => simp at begun
  next info read =>
    split at begun
    next => simp at begun
    next =>
      cases begun
      refine ⟨u32_lt _, u32_lt _, fun hasProt => ?_⟩
      dsimp only at hasProt ⊢
      unfold readTlvInfo at read
      split at read
      next => simp at read
      next first _ =>
        split_ifs at read with protMagic differ zero
        · obtain ⟨le, -⟩ := flashAreaRead_eq_some read
          rw [← Decidable.not_not.mp differ] at le
          omega
        · omega

/-- Behind the image there are the protected records `ps`, if the header says so, and the records `us`. -/
structure WellFormedTlvs (hdr : ImageHeader) (fap : FlashArea) (startOff : Nat) (ps us : List TypedPayload) : Prop where
  fit : Fit ps
  fitBehind : Fit us
  lengthLt : (tlvArea imageTlvInfoMagic us).length < 65536
  areas : hdr.ihProtectTlvSize.toNat = 0 ∧ ps = [] ∧ fap.Contains (tlvStart hdr startOff) (tlvArea imageTlvInfoMagic us) ∨
    hdr.ihProtectTlvSize.toNat = 4 + (tlvRecords ps).length ∧
      fap.Contains (tlvStart hdr startOff) (tlvArea imageTlvProtInfoMagic ps ++ tlvArea imageTlvInfoMagic us)

theorem WellFormedTlvs.ahead {ps us : List TypedPayload} (wellFormed : WellFormedTlvs hdr fap startOff ps us)
    (begun : bootutilTlvIterBegin hdr fap startOff type prot = some it) :
    it.type = type ∧ it.Ahead (if prot then ps else ps ++ us) := by
  rcases wellFormed.areas with ⟨none, rfl, contains⟩ | ⟨size, contains⟩
  · obtain ⟨it', begun', type_eq, ahead, -⟩ :=
      begin_unprotected none contains wellFormed.lengthLt wellFormed.fitBehind type prot
    rw [begun] at begun'
    cases begun'
    exact ⟨type_eq, by simpa using ahead⟩
  · obtain ⟨it', begun', type_eq, ahead, -⟩ :=
      begin_protected size contains wellFormed.lengthLt wellFormed.fit wellFormed.fitBehind type prot
    rw [begun] at begun'
    cases begun'
    exact ⟨type_eq, ahead⟩

theorem Walk.lists {es : List TlvEntry} {clean : Bool} {rs : List TypedPayload} (walk : Walk it es clean)
    (bounded : it.Bounded) (ahead : it.Ahead rs) :
    clean = true ∧ es.map (fun e => (e.type, flashAreaRead it.fap e.off e.len)) =
      (rs.filter (wanted it.type)).map fun r => (r.1, some r.2) := by
  induction walk generalizing rs with
  | done returns =>
    have yields := ahead.yields
    rw [returns.unique (returns_bootutilTlvIterNext bounded), Yields] at yields
    split at yields
    next none => simp [none]
    next => simp at yields
  | failed returns =>
    have yields := ahead.yields
    rw [returns.unique (returns_bootutilTlvIterNext bounded), Yields] at yields
    split at yields <;> simp at yields
  | @entry it it' off len type es clean returns _ ih =>
    have yields := ahead.yields
    rw [returns.unique (returns_bootutilTlvIterNext bounded), Yields] at yields
    split at yields
    next => simp at yields
    next r more filtered =>
      obtain ⟨it'', off', rest, next, read, ahead', rfl, fap, type_eq⟩ := yields
      cases next
      obtain ⟨moved, -⟩ := returns.moves bounded
      obtain ⟨clean, listed⟩ := ih (moved ▸ bounded.move _) ahead'
      rw [fap, type_eq] at listed
      rw [filtered, List.map_cons, List.map_cons, listed, read, type_eq]
      exact ⟨clean, rfl⟩

end Areas

def emptyImageHeader (major : UInt8) (protectTlvSize : UInt16) : ImageHeader where
  ihMagic := imageMagic
  ihLoadAddr := 0
  ihHdrSize := 32
  ihProtectTlvSize := protectTlvSize
  ihImgSize := 0
  ihFlags := 0
  ihVer := ⟨major, 0, 0, 0⟩

/-- A record in each of the two areas, behind a header without a body. -/
def bothAreas : FlashArea := .ofBytes (List.replicate 32 0 ++ tlvArea imageTlvProtInfoMagic [(0x50, [1, 2, 3, 4])] ++
    tlvArea imageTlvInfoMagic [(0x10, [5])]) (by decide)

/-- A walk that begins without wrapping around ends, its payloads follow each other within the area, and in a
well-formed area they are those of the records that were asked for. -/
theorem tlv_walk_in_order (hdr : ImageHeader) (fap : FlashArea) (startOff type : Nat) (prot : Bool) (it : ImageTlvIter)
    (begun : bootutilTlvIterBegin hdr fap startOff type prot = some it)
    (noWrap : startOff + imageSize hdr fap startOff < 2 ^ 32) :
    ∃ es clean, Walk it es clean ∧ (∀ es' clean', Walk it es' clean' → es' = es ∧ clean' = clean) ∧
      es.Pairwise (fun e f => e.off < f.off ∧ e.off + e.len ≤ f.off) ∧
      (∀ e ∈ es, tlvStart hdr startOff + 8 ≤ e.off ∧ e.off + e.len ≤ startOff + imageSize hdr fap startOff ∧
        (prot = true → e.off + e.len ≤ tlvProtEnd hdr startOff)) ∧ ∀ ps us, WellFormedTlvs hdr fap startOff ps us →
        clean = true ∧ es.map (fun e => (e.type, flashAreaRead fap e.off e.len)) =
          ((if prot then ps else ps ++ us).filter (wanted type)).map fun r => (r.1, some r.2) := by
  have bounded := bootutilTlvIterBegin_bounded begun
  obtain ⟨es, clean, walk⟩ := exists_walk bounded
  have seen := walk.seen bounded
  have protLe : tlvProtEnd hdr startOff ≤ startOff + imageSize hdr fap startOff := by
    rw [tlvProtEnd, imageSize]
    omega
  obtain ⟨-, it_eq⟩ := bootutilTlvIterBegin_of_lt (by omega) begun
  rw [u32_of_lt noWrap] at it_eq
  refine ⟨es, clean, walk, fun es' clean' walk' => walk.unique walk', ?_, ?_, ?_⟩
  · exact seen.pairwise.imp fun gap => ⟨by omega, by omega⟩
  · intro e mem
    obtain ⟨ahead, inside⟩ := seen.inside e mem
    subst it_eq
    dsimp only [ImageTlvIter.sectionEnd] at ahead inside
    refine ⟨ahead, ?_, ?_⟩
    · split at inside <;> omega
    · intro isProt
      rwa [if_pos isProt] at inside
  · intro ps us wellFormed
    obtain ⟨-, ahead⟩ := wellFormed.ahead begun
    have listed := walk.lists bounded ahead
    rwa [it_eq] at listed

theorem tlv_walk_in_order_both :
    ∃ it, bootutilTlvIterBegin (emptyImageHeader 1 12) bothAreas 0 imageTlvAny false = some it ∧
      ∃ es clean, Walk it es clean ∧ es.Pairwise fun e f => e.off < f.off ∧ e.off + e.len ≤ f.off := by
  have begins : (bootutilTlvIterBegin (emptyImageHeader 1 12) bothAreas 0 imageTlvAny false).isSome = true := by
    decide +kernel
  obtain ⟨it, begun⟩ := Option.isSome_iff_exists.mp begins
  obtain ⟨es, clean, walk, -, ordered, -⟩ := tlv_walk_in_order _ _ _ _ _ it begun (by decide +kernel)
  exact ⟨it, begun, es, clean, walk, ordered⟩

/-! ### Protected records in a walk over both areas -/

section Marked

variable {it : ImageTlvIter} {es es' : List TlvEntry} {clean clean' : Bool}

/-- A record starts in the protected area and ends behind it, or it has no payload and the area ends with its header.
-/
def ImageTlvIter.Straddles (it : ImageTlvIter) : Prop :=
  ∃ q type len, RecordsFrom it.fap it.tlvOff q ∧ RecordAt it.fap q type len ∧ it.Wants type ∧ q + 4 + len ≤ it.tlvEnd ∧
    (q + 4 < it.protEnd ∧ it.protEnd < q + 4 + len ∨ q + 4 = it.protEnd ∧ len = 0)

variable {type len : Nat} {hdr : ImageHeader} {fap : FlashArea}

theorem ImageTlvIter.Straddles.later (record : RecordAt it.fap it.tlvOff type len)
    (straddles : ImageTlvIter.Straddles { it with tlvOff := it.tlvOff + 4 + len }) : it.Straddles := by
  obtain ⟨q, type', len', records, rest⟩ := straddles
  exact ⟨q, type', len', .later record records, rest⟩

/-- The records that are marked as protected are those that a walk over the protected area returns. -/
structure MarksProtected (it : ImageTlvIter) (es es' : List TlvEntry) : Prop where
  inside : ∀ e ∈ es, bootutilTlvIterIsProt it e.off = true → e.off + e.len ≤ it.protEnd
  same : es.filter (fun e => bootutilTlvIterIsProt it e.off) = es'

theorem Seen.unmarked (seen : Seen it es clean) (past : it.protEnd ≤ it.tlvOff + 4) : MarksProtected it es [] := by
  have unmarked : ∀ e ∈ es, bootutilTlvIterIsProt it e.off = false := by
    intro e mem
    have := (seen.inside e mem).1
    exact decide_eq_false (by omega)
  refine ⟨fun e mem marked => ?_, ?_⟩
  · rw [unmarked e mem] at marked
    exact absurd marked Bool.false_ne_true
  · exact List.filter_eq_nil_iff.mpr fun e mem => by simp [unmarked e mem]

theorem Seen.mem (seen : Seen it es clean) {q : Nat} (records : RecordsFrom it.fap it.tlvOff q)
    (record : RecordAt it.fap q type len) (wants : it.Wants type) (before : q < it.protEnd)
    (inside : q + 4 + len ≤ it.sectionEnd) (inArea : q + 4 + len ≤ it.tlvEnd) : ⟨q + 4, len, type⟩ ∈ es := by
  have ahead := records.le
  induction seen with
  | finished past => rcases past with past | ⟨-, past⟩ <;> omega
  | skipped _ _ between _ _ => omega
  | malformed _ bad =>
    cases records with
    | here => exact absurd inside (Nat.not_le.mpr (bad _ _ record))
    | later first rest =>
      have := bad _ _ first
      have := rest.le
      omega
  | found _ first _ _ _ ih =>
    cases records with
    | here =>
      obtain ⟨rfl, rfl⟩ := first.unique record
      exact List.mem_cons_self
    | later first' rest =>
      obtain ⟨rfl, rfl⟩ := first.unique first'
      exact List.mem_cons_of_mem _ (ih rest record wants before inside inArea rest.le)
  | passed _ first _ unwanted _ ih =>
    cases records with
    | here =>
      obtain ⟨rfl, rfl⟩ := first.unique record
      exact absurd wants unwanted
    | later first' rest =>
      obtain ⟨rfl, rfl⟩ := first.unique first'
      exact ih rest record wants before inside inArea rest.le

theorem Seen.protected_cases (seen : Seen { it with prot := true } es clean) :
    es = [] ∧ (it.tlvEnd ≤ it.tlvOff ∨ ∀ type len, RecordAt it.fap it.tlvOff type len → it.protEnd < it.tlvOff + 4 + len) ∨
    ∃ type len, it.tlvOff < it.tlvEnd ∧ it.tlvOff < it.protEnd ∧ RecordAt it.fap it.tlvOff type len ∧
      it.tlvOff + 4 + len ≤ it.protEnd ∧
      ∃ rest, Seen { it with prot := true, tlvOff := it.tlvOff + 4 + len } rest clean ∧
        (it.Wants type ∧ es = ⟨it.tlvOff + 4, len, type⟩ :: rest ∨ ¬it.Wants type ∧ es = rest) := by
  cases seen with
  | finished past =>
    refine .inl ⟨rfl, past.imp_right fun past type len _ => ?_⟩
    have := past.2
    dsimp only at this
    omega
  | skipped prot _ _ _ => cases prot
  | malformed _ bad => exact .inl ⟨rfl, .inr bad⟩
  | found record found inside wants rest =>
    exact .inr ⟨_, _, record.more, record.inProt rfl, found, inside, _, rest, .inl ⟨wants, rfl⟩⟩
  | passed record found inside unwanted rest =>
    exact .inr ⟨_, _, record.more, record.inProt rfl, found, inside, _, rest, .inr ⟨unwanted, rfl⟩⟩

theorem Seen.marksProtected (seen : Seen it es clean) (any : it.prot = false)
    (order : it.tlvOff < it.tlvEnd → it.protEnd ≤ it.tlvEnd)
    (seen' : Seen { it with prot := true } es' clean') (straddles : ¬it.Straddles) : MarksProtected it es es' := by
  have sectionEnd : it.sectionEnd = it.tlvEnd := by simp [ImageTlvIter.sectionEnd, any]
  have whole := seen
  induction seen generalizing es' with
  | @finished it past =>
    have past : it.tlvEnd ≤ it.tlvOff := past.resolve_right fun prot => by simp [any] at prot
    obtain ⟨rfl, -⟩ | ⟨_, _, more, -⟩ := seen'.protected_cases
    · exact ⟨fun _ mem _ => absurd mem List.not_mem_nil, rfl⟩
    · exact absurd more (Nat.not_lt.mpr past)
  | skipped _ _ between _ _ =>
    obtain ⟨rfl, -⟩ | ⟨_, _, -, inProt, -⟩ := seen'.protected_cases
    · exact whole.unmarked (by omega)
    · omega
  | malformed record bad =>
    obtain ⟨rfl, -⟩ | ⟨_, _, more, -, found, inside, -⟩ := seen'.protected_cases
    · exact ⟨fun _ mem _ => absurd mem List.not_mem_nil, rfl⟩
    · have := bad _ _ found
      omega
  | @found it type len es clean record found inside wants rest ih =>
    have more := record.more
    obtain ⟨rfl, past | bad⟩ | ⟨_, _, -, -, found', inside', rest', seenRest, cases⟩ := seen'.protected_cases
    · omega
    · -- the protected area ends within the record, so that it is not marked
      have bad := bad _ _ found
      refine whole.unmarked (Nat.le_of_not_lt fun inProt => straddles ?_)
      exact ⟨it.tlvOff, type, len, .here _, found, wants, by omega, .inl ⟨inProt, bad⟩⟩
    · obtain ⟨rfl, rfl⟩ := found'.unique found
      obtain ⟨-, rfl⟩ | ⟨unwanted, -⟩ := cases
      · have inProt : it.tlvOff + 4 < it.protEnd := by
          refine Nat.lt_of_not_le fun ends => straddles ?_
          exact ⟨it.tlvOff, type, len, .here _, found, wants, by omega, .inr ⟨by omega, by omega⟩⟩
        have marked : bootutilTlvIterIsProt it (it.tlvOff + 4) = true := decide_eq_true inProt
        obtain ⟨insideRest, same⟩ := ih any (fun _ => order more) seenRest (fun later => straddles (later.later found))
          sectionEnd rest
        refine ⟨fun e mem marked => ?_, ?_⟩
        · rcases List.mem_cons.mp mem with rfl | mem
          · exact inside'
          · exact insideRest e mem marked
        · rw [← same]
          exact List.filter_cons_of_pos (p := fun e : TlvEntry => bootutilTlvIterIsProt it e.off) marked
      · exact absurd wants unwanted
  | @passed it type len es clean record found inside unwanted rest ih =>
    have more := record.more
    obtain ⟨rfl, past | bad⟩ | ⟨_, _, -, -, found', -, rest', seenRest, cases⟩ := seen'.protected_cases
    · omega
    · have bad := bad _ _ found
      obtain ⟨insideRest, same⟩ := rest.unmarked (by dsimp only; omega)
      exact ⟨insideRest, same⟩
    · obtain ⟨rfl, rfl⟩ := found'.unique found
      obtain ⟨wants, -⟩ | ⟨-, rfl⟩ := cases
      · exact absurd wants unwanted
      · obtain ⟨insideRest, same⟩ := ih any (fun _ => order more) seenRest (fun later => straddles (later.later found))
          sectionEnd rest
        exact ⟨insideRest, same⟩

/-- Without a record that straddles the end of the protected area, and only then, the marks are right. -/
theorem Seen.marksProtected_iff (seen : Seen it es clean) (any : it.prot = false)
    (order : it.tlvOff < it.tlvEnd → it.protEnd ≤ it.tlvEnd)
    (seen' : Seen { it with prot := true } es' clean') : MarksProtected it es es' ↔ ¬it.Straddles := by
  have sectionEnd : it.sectionEnd = it.tlvEnd := by simp [ImageTlvIter.sectionEnd, any]
  constructor
  · rintro marks ⟨q, type, len, records, record, wants, inArea, ⟨inProt, crosses⟩ | ⟨ends, empty⟩⟩
    · -- it is marked, and its payload ends outside
      have mem := seen.mem records record wants (by omega) (by omega) inArea
      have := marks.inside _ mem (decide_eq_true inProt)
      dsimp only at this
      omega
    · -- it is returned by the walk over the protected area, and not marked
      have mem := seen'.mem records record wants (show q < it.protEnd by omega)
        (show q + 4 + len ≤ it.protEnd by omega) inArea
      rw [← marks.same] at mem
      have marked : q + 4 < it.protEnd := of_decide_eq_true (List.mem_filter.mp mem).2
      omega
  · exact seen.marksProtected any order seen'

theorem readTlvInfo_le {off : Nat} {info : Bytes}
    (read : readTlvInfo hdr fap off = some info) : off + 4 ≤ fap.faSize := by
  unfold readTlvInfo at read
  split at read
  next => simp at read
  next first firstRead => exact (flashAreaRead_eq_some firstRead).1

theorem bootutilTlvIterBegin_prot {startOff : Nat}
    (begun : bootutilTlvIterBegin hdr fap startOff type false = some it) :
    bootutilTlvIterBegin hdr fap startOff type true = some { it with prot := true } ∧ it.prot = false ∧
      (it.tlvOff < it.tlvEnd → it.protEnd ≤ it.tlvEnd) := by
  have lt := fap.faSize_lt
  have protLt := hdr.ihProtectTlvSize.toNat_lt
  unfold bootutilTlvIterBegin at begun ⊢
  cases read : readTlvInfo hdr fap (u32 (bootTlvOff hdr + startOff)) with
  | none => simp [read] at begun
  | some info =>
    simp only [read] at begun ⊢
    split at begun
    next => simp at begun
    next magic =>
      rw [if_neg magic]
      cases begun
      refine ⟨rfl, rfl, ?_⟩
      have := le16_lt info 2
      have := readTlvInfo_le read
      generalize u32 (bootTlvOff hdr + startOff) = off at *
      dsimp only [u32]
      omega

end Marked

/-- The records marked as protected are those of the protected area exactly if no record that was asked for straddles
its end. -/
theorem marked_entries_protected_iff (hdr : ImageHeader) (fap : FlashArea) (startOff type : Nat) (it : ImageTlvIter)
    (begun : bootutilTlvIterBegin hdr fap startOff type false = some it) :
    ∃ it' es clean es' clean', bootutilTlvIterBegin hdr fap startOff type true = some it' ∧
      Walk it es clean ∧ Walk it' es' clean' ∧ (MarksProtected it es es' ↔ ¬it.Straddles) := by
  obtain ⟨begun', any, order⟩ := bootutilTlvIterBegin_prot begun
  have bounded := bootutilTlvIterBegin_bounded begun
  have bounded' := bootutilTlvIterBegin_bounded begun'
  obtain ⟨es, clean, walk⟩ := exists_walk bounded
  obtain ⟨es', clean', walk'⟩ := exists_walk bounded'
  exact ⟨_, es, clean, es', clean', begun', walk, walk',
    (walk.seen bounded).marksProtected_iff any order (walk'.seen bounded')⟩

theorem marked_entries_protected_both :
    ∃ it, bootutilTlvIterBegin (emptyImageHeader 1 12) bothAreas 0 imageTlvAny false = some it ∧
      ∃ it' es clean es' clean', Walk it es clean ∧ Walk it' es' clean' ∧ MarksProtected it es es' := by
  have begins : (bootutilTlvIterBegin (emptyImageHeader 1 12) bothAreas 0 imageTlvAny false).isSome = true := by
    decide +kernel
  obtain ⟨it, begun⟩ := Option.isSome_iff_exists.mp begins
  obtain ⟨it', es, clean, es', clean', -, walk, walk', iff⟩ := marked_entries_protected_iff _ _ _ _ it begun
  refine ⟨it, begun, it', es, clean, es', clean', walk, walk', iff.mpr ?_⟩
  obtain ⟨-, rfl⟩ := bootutilTlvIterBegin_spec (by decide +kernel) begun
  -- the only record of the protected area ends with it
  have record : RecordAt bothAreas 36 0x50 4 := ⟨_, rfl, rfl, rfl⟩
  rintro ⟨q, type, len, records, found, -, -, crosses⟩
  have stop : tlvProtEnd (emptyImageHeader 1 12) 0 = 44 := by decide
  cases records with
  | here =>
    obtain ⟨-, rfl⟩ := record.unique found
    revert crosses
    decide +kernel
  | later first rest =>
    obtain ⟨-, rfl⟩ := record.unique first
    have behind : 44 ≤ q := rest.le
    dsimp only at crosses
    omega

/-- The payload of the only protected record takes in the second info header. -/
def straddlingArea : FlashArea :=
  .ofBytes (List.replicate 32 0 ++ put16 imageTlvProtInfoMagic ++ put16 10 ++ put16 0x50 ++ put16 6 ++ [1, 2] ++
    put16 imageTlvInfoMagic ++ put16 4) (by decide)

/-- A payload that is marked as protected and ends outside the protected area. -/
theorem straddling_entry_marked :
    ∃ it, bootutilTlvIterBegin (emptyImageHeader 1 10) straddlingArea 0 imageTlvAny false = some it ∧
      Walk it [⟨40, 6, 0x50⟩] true ∧ bootutilTlvIterIsProt it 40 = true ∧ it.protEnd = 42 ∧
      ∀ es', ¬MarksProtected it [⟨40, 6, 0x50⟩] es' := by
  have begins : (bootutilTlvIterBegin (emptyImageHeader 1 10) straddlingArea 0 imageTlvAny false).isSome = true := by
    decide +kernel
  obtain ⟨it, begun⟩ := Option.isSome_iff_exists.mp begins
  obtain ⟨-, rfl⟩ := bootutilTlvIterBegin_spec (by decide +kernel) begun
  have found : ∀ tlvOff, tlvOff = 36 → tlvRound
      ⟨emptyImageHeader 1 10, straddlingArea, imageTlvAny, false, 42, tlvOff, 46⟩ = .inl (.found
        ⟨emptyImageHeader 1 10, straddlingArea, imageTlvAny, false, 42, 46, 46⟩ 40 6 0x50) := by
    intro tlvOff at36
    subst at36
    rfl
  refine ⟨_, begun, .entry (.answer (found 36 rfl)) (.done (.answer rfl)), by decide +kernel, by decide +kernel,
    fun es' marks => ?_⟩
  exact absurd (marks.inside _ (List.mem_singleton.mpr rfl) (by decide +kernel)) (by decide +kernel)

end Adaboot
