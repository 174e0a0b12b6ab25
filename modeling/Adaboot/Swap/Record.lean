import Adaboot.Swap.Common

/-!
# The record of a swap

Fields in the trailer of the primary slot say which swap it is, and status bytes how far it has come. The record is
complete before the secondary trailer loses its magic.
-/

namespace Adaboot

open Nor Crash

/-! ### Status bytes -/

section Scan

variable {erased : Nat → Bool}

theorem statusScanLoop_erasedSections (n : Nat) (s : StatusScan) :
    (statusScanLoop erased n 0 s).erasedSections = s.erasedSections := by
  induction n generalizing s with
  | zero => rfl
  | succ n ih =>
    simp only [statusScanLoop]
    rw [ih]
    split <;> simp

/-- Only the first entry can start an erased section, so the check for two of them never fires. -/
theorem statusScanLoop_sections_le (erased : Nat → Bool) (n : Nat) :
    (statusScanLoop erased n 1 ⟨0, 0⟩).erasedSections ≤ 1 := by
  cases n with
  | zero => simp [statusScanLoop]
  | succ n =>
    simp only [statusScanLoop]
    rw [statusScanLoop_erasedSections]
    split <;> simp

variable {n lastRc : Nat} {s : StatusScan}

theorem statusScanLoop_found (found : s.foundIdx ≠ 0) :
    (statusScanLoop erased n lastRc s).foundIdx = s.foundIdx := by
  induction n generalizing s lastRc with
  | zero => rfl
  | succ n ih =>
    simp only [statusScanLoop, found, if_false]
    split <;> exact ih found

theorem statusScanLoop_foundIdx {k : Nat} (le : k ≤ n)
    (none : s.foundIdx = 0) (written : 0 < k → erased (k - 1) = false) (blank : ∀ i, k ≤ i → i < n → erased i = true) :
    (statusScanLoop erased n lastRc s).foundIdx = k := by
  induction n generalizing s lastRc with
  | zero =>
    obtain rfl : k = 0 := by omega
    exact none
  | succ n ih =>
    simp only [statusScanLoop]
    by_cases last : k = n + 1
    · subst last
      have : erased n = false := written (by omega)
      simp only [this, Bool.false_eq_true, if_false, none, if_true]
      exact statusScanLoop_found (by simp)
    · simp only [blank n (by omega) (by omega), if_true]
      exact ih (by omega) none fun i ge lt => blank i ge (by omega)

end Scan

def statusAt (bd : Board) (i : Nat) : Nat := bootStatusOff bd .primary + i * bd.writeSz

/-- Of the status bytes of the primary slot, the last one written is that before entry `k`. -/
structure LastStatus (bd : Board) (fl : Flash) (k : Nat) : Prop where
  le : k ≤ bootStatusEntries bd .primary
  written : 0 < k → fl .primary (statusAt bd (k - 1)) ≠ erasedVal
  blank : ∀ i, k ≤ i → i < bootStatusEntries bd .primary → fl .primary (statusAt bd i) = erasedVal

section Status

variable {bd : Board} {S : Nat} {fl fl' : Flash} {Q : Unit → Flash → Prop}
  {E : BootErr → Flash → Prop} {C : Flash → Prop}

theorem Board.KeepsStatus.bootTrailerSzOf_eq (keeps : bd.KeepsStatus) :
    bootTrailerSzOf bd .primary = scrambleSz bd .primary := by
  rw [bootTrailerSzOf, if_neg fun h => keeps.not_scratch h.1, keeps.scrambleSz_primary, keeps.writeSz_eq]

theorem Board.KeepsStatus.statusAt_entries (keeps : bd.KeepsStatus)
    (room : scrambleSz bd .primary ≤ bd.faSize .primary) :
    statusAt bd (bootStatusEntries bd .primary) + bootTrailerInfoSz bd = bd.faSize .primary ∧
      bd.faSize .primary - scrambleSz bd .primary = statusAt bd 0 := by
  have entries : bootStatusEntries bd .primary * bd.writeSz = bootStatusSz bd bd.writeSz := by
    have single : bd.mode ≠ .single := by rcases keeps with h | h <;> simp [h]
    rw [bootStatusEntries, if_neg fun h => keeps.not_scratch h.1, bootStatusSz, bootStatusEntrySz,
      if_neg single, Nat.mul_comm bd.statusStateCount, Nat.mul_assoc]
  have off : bootStatusOff bd .primary = bd.faSize .primary - scrambleSz bd .primary := by
    rw [bootStatusOff, keeps.bootTrailerSzOf_eq]
  have sz : scrambleSz bd .primary = bootStatusSz bd bd.writeSz + bootTrailerInfoSz bd := keeps.scrambleSz_primary
  unfold statusAt
  omega

variable {i j k p : Nat} {b : LoaderBuild}

theorem statusAt_mono (bd : Board) (le : i ≤ j) : statusAt bd i ≤ statusAt bd j :=
  Nat.add_le_add_left (Nat.mul_le_mul_right _ le) _

variable (keeps : bd.KeepsStatus)
include keeps

theorem Board.KeepsStatus.writeSz_pos : 0 < bd.writeSz := by
  obtain ⟨k, pow⟩ := bd.align_pow .primary
  rw [keeps.writeSz_eq, pow]
  exact Nat.two_pow_pos k

theorem Board.KeepsStatus.statusAt_lt (lt : i < j) :
    statusAt bd i < statusAt bd j := by
  have pos := keeps.writeSz_pos
  have := Nat.mul_lt_mul_of_pos_right lt pos
  unfold statusAt
  omega

variable (room : scrambleSz bd .primary ≤ bd.faSize .primary)
include room

theorem LastStatus.congr (status : LastStatus bd fl k)
    (same : Flash.EqOn .primary (bd.faSize .primary - scrambleSz bd .primary)
      (bd.faSize .primary - bootTrailerInfoSz bd) fl fl') : LastStatus bd fl' k := by
  obtain ⟨top, bottom⟩ := keeps.statusAt_entries room
  have entry : ∀ i, i < bootStatusEntries bd .primary →
      fl' .primary (statusAt bd i) = fl .primary (statusAt bd i) := by
    intro i lt
    have := keeps.statusAt_lt lt
    have := statusAt_mono bd (Nat.zero_le i)
    exact same _ (by omega) (by omega)
  refine ⟨status.le, fun pos => ?_, fun i ge lt => ?_⟩
  · have := status.le
    rw [entry _ (by omega)]
    exact status.written pos
  · rw [entry i lt]
    exact status.blank i ge lt

theorem LastStatus.ofErased (blank : Flash.Erased fl .primary (bd.faSize .primary - scrambleSz bd .primary)
      (bd.faSize .primary)) : LastStatus bd fl 0 := by
  obtain ⟨top, bottom⟩ := keeps.statusAt_entries room
  refine ⟨Nat.zero_le _, fun pos => absurd pos (Nat.lt_irrefl 0), fun i _ lt => ?_⟩
  have := keeps.statusAt_lt lt
  have := statusAt_mono bd (Nat.zero_le i)
  exact blank _ (by omega) (by omega)

omit room

omit keeps

theorem wp_findStatusIdx {Q : Nat → Flash → Prop}
    (keeps : b.board.KeepsStatus) (room : scrambleSz b.board .primary ≤ b.board.faSize .primary)
    (status : LastStatus b.board fl k) (post : Q k fl) : wp (findStatusIdx b .primary) Q E C fl := by
  obtain ⟨top, bottom⟩ := keeps.statusAt_entries room
  have info := bootTrailerInfoSz_ge b.board
  have le := statusAt_mono b.board (Nat.sub_le (bootStatusEntries b.board .primary) 1)
  unfold statusAt at top le
  have found : (statusScanLoop (fun i => fl .primary (bootStatusOff b.board .primary +
      i * b.board.writeSz) = erasedVal) (bootStatusEntries b.board .primary) 1 ⟨0, 0⟩).foundIdx = k :=
    statusScanLoop_foundIdx status.le rfl (fun pos => decide_eq_false (status.written pos))
      fun i ge lt => decide_eq_true (status.blank i ge lt)
  have sections := statusScanLoop_sections_le
    (fun i => fl .primary (bootStatusOff b.board .primary + i * b.board.writeSz) = erasedVal)
    (bootStatusEntries b.board .primary)
  unfold findStatusIdx
  simp only [statusOff]
  rw [if_pos (by rw [keeps.bootTrailerSzOf_eq]; exact room), wp_bind, wp_pure, wp_bind, wp_get,
    if_neg (by omega), if_neg fun h => not_lt.mpr sections h.1, wp_pure, found]
  exact post

theorem wp_bootWriteStatus {internalOff : BootStatus → Nat} {bs : BootStatus}
    (keeps : bd.KeepsStatus) (room : scrambleSz bd .primary ≤ bd.faSize .primary)
    (off : internalOff bs = p * bd.writeSz) (lt : p < bootStatusEntries bd .primary) :
    wp (bootWriteStatus bd internalOff bs) Q E C fl ↔
      C fl ∧ Q () (fl.program .primary (statusAt bd p) [.ofNat bs.state]) := by
  obtain ⟨top, -⟩ := keeps.statusAt_entries room
  have le := statusAt_mono bd (show p + 1 ≤ _ from lt)
  have unit : statusAt bd (p + 1) = statusAt bd p + bd.writeSz := by
    unfold statusAt
    rw [Nat.succ_mul, Nat.add_assoc]
  have pos := keeps.writeSz_pos
  have pad := keeps.writeSz_eq
  unfold bootWriteStatus
  simp only [keeps.not_scratch, false_and, if_false, statusOff]
  rw [if_pos (by rw [keeps.bootTrailerSzOf_eq]; exact room), wp_bind, wp_pure, off]
  change wp (flashAreaWrite bd .primary (statusAt bd p)
    ([.ofNat bs.state] ++ List.replicate (bd.align .primary - 1) erasedVal)) Q E C fl ↔ _
  rw [wp_flashAreaWrite (by
    simp only [List.length_append, List.length_replicate, List.length_cons, List.length_nil]
    omega), Flash.program_append_erased]

theorem LastStatus.write (keeps : bd.KeepsStatus) (status : LastStatus bd fl k)
    (ge : k ≤ p) (lt : p < bootStatusEntries bd .primary) {value : UInt8} (ne : value ≠ erasedVal) :
    LastStatus bd (fl.program .primary (statusAt bd p) [value]) (p + 1) := by
  refine ⟨lt, fun _ => ?_, fun i le below => ?_⟩
  · have byte : fl.program .primary (statusAt bd p) [value] .primary (statusAt bd p + 0) = value :=
      Flash.program_erased fl .primary Nat.zero_lt_one (status.blank p ge lt)
    intro erased
    exact ne (byte.symm.trans erased)
  · have := keeps.statusAt_lt (show p < i by omega)
    rw [Flash.program_outside _ fun _ => .inr (by simp only [List.length_cons, List.length_nil]; omega)]
    exact status.blank i (by omega) below

theorem wp_statusAssert {m : Boot Unit} (holds : wp m Q (fun _ _ => False) C fl) :
    wp (statusAssert b m) Q E C fl := by
  unfold statusAssert
  split
  · exact wp_ignoreRc holds
  · exact wp_assertOk holds

end Status

/-! ### Fields -/

/-- What the fields of a trailer record about a swap. -/
structure SwapRecord where
  swapType : SwapType
  swapSize : Nat
  tlvSizePrimary : Nat
  tlvSizeSecondary : Nat

/-- What `swap_status_init` adds to a trailer: all of the record, and at last the magic. -/
def SwapRecord.fields (bd : Board) (rec : SwapRecord) (ok : Bool) : Field → Option Bytes
  | .magic => some (bootImgMagic bd)
  | .imageOk => if ok then some [1] else none
  | .copyDone => none
  | .swapInfo => some [.ofNat rec.swapType.code]
  | .tlvSizes =>
    if bd.mode = .offset then some (put16 rec.tlvSizePrimary ++ put16 rec.tlvSizeSecondary) else none
  | .swapSize => some (put32 rec.swapSize)

section Fields

variable {bd : Board} {S : Nat} {fl fl' : Flash} {a : Area} {Q : Unit → Flash → Prop}
  {E : BootErr → Flash → Prop} {C : Flash → Prop}
  {st : BootState} {bs : BootStatus} {ok : Bool} {rec : SwapRecord} {n m hi : Nat}

theorem wp_finishInit {data : Field → Option Bytes} (room : bd.HoldsTrailer a)
    (blank : ∀ f, f ≠ .copyDone → f.Present bd → trailerField bd fl a f = List.replicate f.len erasedVal)
    (cuts : ∀ fl', Flash.EqOutside a (bd.faSize a - bootTrailerInfoSz bd) (bd.faSize a) fl fl' →
      trailerField bd fl' a .magic = trailerField bd fl a .magic → C fl')
    (post : ∀ fl', Written bd a (SwapRecord.fields bd
      ⟨bs.swapType, bs.swapSize, st.unprotectedTlvSizePrimary, st.unprotectedTlvSizeSecondary⟩ ok)
      fl fl' → Q () fl')
    (written : Written bd a data fl fl')
    (data_eq : data = Function.update (fun f => if f = .imageOk ∧ ok then some [1] else none)
      .swapInfo (some [.ofNat bs.swapType.code])) :
    wp (do
      assertOk (bootWriteSwapSize bd a bs.swapSize)
      if bd.mode = .offset then
        assertOk (bootWriteUnprotectedTlvSizes bd a st.unprotectedTlvSizePrimary st.unprotectedTlvSizeSecondary)
      assertOk (bootWriteMagic bd a)) Q E C fl' := by
  rw [wp_bind]
  have cut {data fl'} (written : Written bd a data fl fl') (none : data .magic = none) : C fl' :=
    cuts fl' written.outside (by rw [written.fields _ (by nofun), none]; rfl)
  refine wp_assertOk ((wp_bootWriteSwapSize room).mpr ⟨cut written (by simp [data_eq]), ?_⟩)
  have size := written.set room (f := .swapSize) nofun (by simp [data_eq])
    (blank _ (by simp) nofun) (show (put32 bs.swapSize).length = 4 from rfl)
  have magic {data fl'} (written : Written bd a data fl fl') (new : data .magic = none) :=
    written.set room (f := .magic) nofun new (blank _ (by simp) nofun)
      (length_bootImgMagic bd)
  by_cases mode : bd.mode = .offset
  · simp only [mode, if_true]
    rw [wp_bind]
    refine wp_assertOk ((wp_bootWriteUnprotectedTlvSizes room mode).mpr ⟨cut size (by simp [data_eq]), ?_⟩)
    have tlv := size.set room (f := .tlvSizes) (fun _ => mode) (by simp [data_eq])
      (blank _ (by simp) fun _ => mode) (show (put16 st.unprotectedTlvSizePrimary ++
        put16 st.unprotectedTlvSizeSecondary).length = 4 from rfl)
    refine wp_assertOk ((wp_bootWriteMagic room).mpr ⟨cut tlv (by simp [data_eq]), post _ ?_⟩)
    convert magic tlv (by simp [data_eq]) using 1
    funext f
    cases f <;> simp [SwapRecord.fields, mode, data_eq]
  · simp only [mode, if_false]
    refine wp_assertOk ((wp_bootWriteMagic room).mpr ⟨cut size (by simp [data_eq]), post _ ?_⟩)
    convert magic size (by simp [data_eq]) using 1
    funext f
    cases f <;> simp [SwapRecord.fields, mode, data_eq]

theorem wp_swapStatusInit (roomSec : bd.HoldsTrailer .secondary)
    (room : bd.HoldsTrailer a) (some : bs.swapType ≠ .none) (code : bs.swapType.code < 0xf)
    (blank : ∀ f, f ≠ .copyDone → f.Present bd → trailerField bd fl a f = List.replicate f.len erasedVal)
    (cuts : ∀ fl', Flash.EqOutside a (bd.faSize a - bootTrailerInfoSz bd) (bd.faSize a) fl fl' →
      trailerField bd fl' a .magic = trailerField bd fl a .magic → C fl')
    (post : ∀ fl', Written bd a (SwapRecord.fields bd
      ⟨bs.swapType, bs.swapSize, st.unprotectedTlvSizePrimary, st.unprotectedTlvSizeSecondary⟩
      ((swapState bd fl .secondary).imageOk = .set)) fl fl' → Q () fl') : wp (swapStatusInit bd st a bs) Q E C fl := by
  unfold swapStatusInit
  rw [wp_bind]
  refine wp_assertOk ((wp_readSwapState roomSec).mpr ?_)
  simp only [ne_eq, some, not_false_eq_true, if_true]
  rw [wp_bind]
  refine wp_assertOk ((wp_bootWriteSwapInfo room code).mpr ⟨cuts _ (.refl _ _ _ _) rfl, ?_⟩)
  have info := (Written.none bd a fl).set room (f := .swapInfo) nofun rfl
    (blank _ (by simp) nofun) (show [UInt8.ofNat bs.swapType.code].length = 1 from rfl)
  generalize (swapState bd fl .secondary).imageOk = ok at post ⊢
  by_cases set : ok = .set
  · simp only [set, if_true]
    rw [wp_bind]
    refine wp_assertOk ((wp_bootWriteImageOk room).mpr ⟨cuts _ info.outside (info.fields _ nofun), ?_⟩)
    have both := info.set room (f := .imageOk) nofun (by simp)
      (blank _ (by simp) nofun) (show [(1 : UInt8)].length = 1 from rfl)
    refine wp_finishInit room blank cuts post both ?_
    funext f
    cases f <;> simp [set]
  · simp only [set, if_false]
    refine wp_finishInit room blank cuts post info ?_
    funext f
    cases f <;> simp [set]

/-- The fields of the primary slot's trailer record a swap in progress. -/
structure Marked (bd : Board) (rec : SwapRecord) (fl : Flash) : Prop where
  magic : trailerField bd fl .primary .magic = bootImgMagic bd
  copyDone : trailerField bd fl .primary .copyDone = [erasedVal]
  imageOk : trailerField bd fl .primary .imageOk = [erasedVal] ∨
    trailerField bd fl .primary .imageOk = [1] ∧ rec.swapType ≠ .test
  swapInfo : trailerField bd fl .primary .swapInfo = [.ofNat rec.swapType.code]
  swapSize : trailerField bd fl .primary .swapSize = put32 rec.swapSize
  tlvSizes : bd.mode = .offset → trailerField bd fl .primary .tlvSizes =
    put16 rec.tlvSizePrimary ++ put16 rec.tlvSizeSecondary

/-- A record can only gain the confirmation of an image that is not under test. -/
theorem Marked.of_fields (marked : Marked bd rec fl) (imageOk : trailerField bd fl' .primary .imageOk = [erasedVal] ∨
      trailerField bd fl' .primary .imageOk = [1] ∧ rec.swapType ≠ .test)
    (field : ∀ f, f ≠ .imageOk → f.Present bd → trailerField bd fl' .primary f = trailerField bd fl .primary f) :
    Marked bd rec fl' where
  magic := (field .magic nofun nofun).trans marked.magic
  copyDone := (field .copyDone nofun nofun).trans marked.copyDone
  imageOk := imageOk
  swapInfo := (field .swapInfo nofun nofun).trans marked.swapInfo
  swapSize := (field .swapSize nofun nofun).trans marked.swapSize
  tlvSizes mode := (field .tlvSizes nofun fun _ => mode).trans (marked.tlvSizes mode)

theorem Marked.congr (room : bd.HoldsTrailer .primary) (marked : Marked bd rec fl)
    (same : Flash.EqOn .primary (bd.faSize .primary - bootTrailerInfoSz bd) (bd.faSize .primary)
      fl fl') : Marked bd rec fl' := by
  have field (f : Field) (here : f.Present bd) := trailerField_congr room same here
  exact marked.of_fields (field .imageOk nofun ▸ marked.imageOk) fun f _ => field f

theorem Written.marked (written : Written bd .primary (rec.fields bd ok) fl fl')
    (blank : ∀ f, f.Present bd → trailerField bd fl .primary f = List.replicate f.len erasedVal)
    (test : ok = true → rec.swapType ≠ .test) : Marked bd rec fl' := by
  have field {f : Field} (ne : f ≠ .tlvSizes) := written.fields f fun tlv => absurd tlv ne
  have blank {f : Field} (ne : f ≠ .tlvSizes) := blank f fun tlv => absurd tlv ne
  constructor
  · exact field (by simp)
  · rw [field (by simp)]
    exact blank (by simp)
  · rw [field (by simp), blank (by simp)]
    cases ok with
    | false => exact .inl rfl
    | true => exact .inr ⟨rfl, test rfl⟩
  · exact field (by simp)
  · exact field (by simp)
  · intro mode
    rw [written.fields _ fun _ => mode]
    simp [SwapRecord.fields, mode]

/-- A swap is on record up to entry `k`, and the secondary slot no longer asks for it. -/
structure Recorded (bd : Board) (rec : SwapRecord) (k : Nat) (fl : Flash) : Prop where
  marked : Marked bd rec fl
  status : LastStatus bd fl k
  secondary : (swapState bd fl .secondary).magic ≠ .good
  unset : bd.mode = .offset → (swapState bd fl .secondary).magic = .unset

/-- The sectors below `n` in the primary and below `m` in the secondary slot are the same. -/
structure SameSectors (S n m : Nat) (fl fl' : Flash) : Prop where
  primary : Flash.EqOn .primary 0 (n * S) fl fl'
  secondary : Flash.EqOn .secondary 0 (m * S) fl fl'

theorem SameSectors.refl (S n m : Nat) (fl : Flash) : SameSectors S n m fl fl := ⟨fun _ _ _ => rfl, fun _ _ _ => rfl⟩

theorem SameSectors.trans {fl'' : Flash} (first : SameSectors S n m fl fl')
    (second : SameSectors S n m fl' fl'') : SameSectors S n m fl fl'' :=
  ⟨fun i lo hi => (second.primary i lo hi).trans (first.primary i lo hi),
    fun i lo hi => (second.secondary i lo hi).trans (first.secondary i lo hi)⟩

theorem SameSectors.ofPrimary (same : Flash.EqOutside .primary (n * S) hi fl fl') :
    SameSectors S n m fl fl' :=
  ⟨same.eqOn fun _ => .inl le_rfl, same.eqOn fun eq => by simp at eq⟩

theorem SameSectors.ofSecondary (same : Flash.EqOutside .secondary (m * S) hi fl fl') :
    SameSectors S n m fl fl' :=
  ⟨same.eqOn fun eq => by simp at eq, same.eqOn fun _ => .inl le_rfl⟩

end Fields

/-! ### The beginning and the end of a swap -/

section Swap

variable {bd : Board} {S n m : Nat} {fl : Flash} {rec : SwapRecord} {E : BootErr → Flash → Prop} {C : Flash → Prop}
  {k : Nat} {Q : Unit → Flash → Prop} {swapType : SwapType} {st : BootState} {bs : BootStatus}

theorem wp_clearSecondary (slots : UniformSlots bd S)
    (roomPri : scrambleSz bd .primary ≤ bd.faSize .primary)
    (roomSec : m * S + scrambleSz bd .secondary ≤ bd.faSize .secondary)
    (marked : Marked bd rec fl) (status : LastStatus bd fl k) (start : C fl)
    (cuts : ∀ fl', SameSectors S n m fl fl' → Recorded bd rec k fl' → C fl')
    (post : ∀ fl', SameSectors S n m fl fl' → Recorded bd rec k fl' → Q () fl') :
    wp (swapScrambleTrailerSectors bd .secondary) Q E C fl := by
  have info := infoSz_le_scrambleSz bd .primary
  have info' := infoSz_le_scrambleSz bd .secondary
  have pos := bootTrailerInfoSz_ge bd
  have ge := slots.even.size_ge (a := .secondary) (by decide) (by omega)
  have recorded : ∀ fl', Flash.EqOutside .secondary (m * S) (bd.faSize .secondary) fl fl' →
      (∀ w, w ≤ S → w ≤ scrambleSz bd .secondary →
        Flash.Erased fl' .secondary (bd.faSize .secondary - w) (bd.faSize .secondary)) →
      Recorded bd rec k fl' := by
    intro fl' same blank
    have primary := same.other (b := .primary) (by decide)
    refine ⟨marked.congr (by omega) fun i _ _ => primary i,
      status.congr slots.keeps roomPri fun i _ _ => primary i, ?_, fun mode => ?_⟩
    · exact magic_ne_good (by omega) (blank 1 (by omega) (by omega) _ (by omega) (by omega))
    · have wide : bootMagicSz ≤ S := Nat.le_trans (by decide) (slots.wide mode)
      exact magic_unset (by omega) (blank bootMagicSz wide (Nat.le_trans (by decide : _ ≤ 48) (by omega)))
  refine slots.even.wp_scrambleTrailer (by decide) roomSec start ?_ ?_
  · intro fl' same blank
    exact cuts fl' (.ofSecondary same) (recorded fl' same fun w _ _ i lo hi => blank i (by omega) hi)
  · intro fl' same blank
    exact post fl' (.ofSecondary same) (recorded fl' same fun w _ _ i lo hi => blank i (by omega) hi)

theorem SwapType.code_of_upgrade (upgrade : swapType.isUpgrade = true) :
    swapType ≠ .none ∧ swapType.code < 0xf := by
  cases swapType <;> simp [SwapType.isUpgrade, SwapType.code] at upgrade ⊢

/-- The record of the swap that is about to begin. -/
structure Records (bd : Board) (rec : SwapRecord) (st : BootState) (bs : BootStatus) : Prop where
  swapType : bs.swapType = rec.swapType
  swapSize : bs.swapSize = rec.swapSize
  tlvSizes : bd.mode = .offset → st.unprotectedTlvSizePrimary = rec.tlvSizePrimary ∧
    st.unprotectedTlvSizeSecondary = rec.tlvSizeSecondary

theorem Records.fields_eq (records : Records bd rec st bs)
    (ok : Bool) : SwapRecord.fields bd ⟨bs.swapType, bs.swapSize, st.unprotectedTlvSizePrimary,
      st.unprotectedTlvSizeSecondary⟩ ok = rec.fields bd ok := by
  funext f
  cases f with
  | tlvSizes =>
    by_cases mode : bd.mode = .offset
    · simp [SwapRecord.fields, records.tlvSizes mode]
    · simp [SwapRecord.fields, mode]
  | _ => simp [SwapRecord.fields, records.swapType, records.swapSize]

/-- Until the record is complete only the primary trailer changes. A swap on record is begun again by clearing the
secondary trailer. -/
theorem wp_beginSwap (slots : UniformSlots bd S) (roomPri : n * S + scrambleSz bd .primary ≤ bd.faSize .primary)
    (roomSec : m * S + scrambleSz bd .secondary ≤ bd.faSize .secondary) (upgrade : rec.swapType.isUpgrade = true)
    (resumed : bs.source = .primarySlot → Marked bd rec fl ∧ LastStatus bd fl k ∧ C fl)
    (fresh : bs.source ≠ .primarySlot → k = 0 ∧ Records bd rec st bs ∧
      ((swapState bd fl .secondary).imageOk = .set → rec.swapType ≠ .test) ∧
      ∀ fl', Flash.EqOutside .primary (n * S) (bd.faSize .primary) fl fl' → C fl')
    (cuts : ∀ fl', SameSectors S n m fl fl' → Recorded bd rec k fl' → C fl')
    (post : ∀ fl', SameSectors S n m fl fl' → Recorded bd rec k fl' → Q () fl') : wp (beginSwap bd st bs) Q E C fl := by
  have fits : scrambleSz bd .primary ≤ bd.faSize .primary := by omega
  have info := infoSz_le_scrambleSz bd .primary
  have info' := infoSz_le_scrambleSz bd .secondary
  unfold beginSwap
  by_cases source : bs.source = .primarySlot
  · obtain ⟨marked, status, start⟩ := resumed source
    simp only [source, ne_eq, not_true_eq_false, if_false]
    exact wp_assertOk (wp_clearSecondary (n := n) slots fits roomSec marked status start cuts post)
  · obtain ⟨rfl, records, test, before⟩ := fresh source
    obtain ⟨some, code⟩ := SwapType.code_of_upgrade (records.swapType ▸ upgrade)
    simp only [source, ne_eq, not_false_eq_true, if_true]
    rw [wp_bind]
    refine wp_assertOk (slots.even.wp_scrambleTrailer (by decide) roomPri (before fl (.refl _ _ _ _))
      (fun fl' same _ => before fl' same) fun fl₁ same blank => ?_)
    rw [wp_bind]
    have erased : ∀ f, f.Present bd → trailerField bd fl₁ .primary f =
        List.replicate f.len erasedVal := fun f here =>
      trailerField_erased (by omega) (fun i lo hi => blank i (by omega) hi) here
    have state : swapState bd fl₁ .secondary = swapState bd fl .secondary :=
      swapState_congr (by omega) (same.eqOn fun eq => by simp at eq)
    have below : ∀ {fl'}, Flash.EqOutside .primary (bd.faSize .primary - bootTrailerInfoSz bd)
        (bd.faSize .primary) fl₁ fl' →
        Flash.EqOutside .primary (n * S) (bd.faSize .primary) fl fl' := fun out =>
      same.trans (out.mono (by omega) le_rfl)
    refine wp_assertOk (wp_swapStatusInit (by omega) (by omega) some code
      (fun f _ here => erased f here) (fun fl' out _ => before fl' (below out)) fun fl₂ written => ?_)
    -- the record is complete
    rw [records.fields_eq] at written
    have marked : Marked bd rec fl₂ := written.marked erased fun set => by
      rw [state] at set
      exact test (by simpa using set)
    have status : LastStatus bd fl₂ 0 := (LastStatus.ofErased slots.keeps fits blank).congr slots.keeps fits
      (written.outside.eqOn fun _ => .inl le_rfl)
    have sectors : SameSectors S n m fl fl₂ := .ofPrimary (below written.outside)
    exact wp_assertOk (wp_clearSecondary (n := n) slots fits roomSec marked status
      (before fl₂ (below written.outside)) (fun fl' same => cuts fl' (sectors.trans same))
      fun fl' same => post fl' (sectors.trans same))

/-- The trailer of the primary slot after a swap. -/
structure Finished (bd : Board) (rec : SwapRecord) (fl : Flash) : Prop where
  magic : trailerField bd fl .primary .magic = bootImgMagic bd
  copyDone : trailerField bd fl .primary .copyDone = [1]
  imageOk : trailerField bd fl .primary .imageOk =
    if rec.swapType = .test then [erasedVal] else [1]

/-- The end of a swap: the record stays until the copy-done flag is set. -/
theorem wp_finishSwap {b : LoaderBuild} {fl : Flash} (room : b.board.HoldsTrailer .primary)
    (upgrade : rec.swapType.isUpgrade = true) (marked : Marked b.board rec fl)
    (cuts : ∀ fl', Flash.EqOutside .primary (b.board.faSize .primary - bootTrailerInfoSz b.board)
      (b.board.faSize .primary) fl fl' → Marked b.board rec fl' → C fl')
    (post : ∀ fl', Flash.EqOutside .primary (b.board.faSize .primary - bootTrailerInfoSz b.board)
      (b.board.faSize .primary) fl fl' → Finished b.board rec fl' → Q () fl') :
    wp (finishSwap b rec.swapType) Q E C fl := by
  -- the copy-done flag goes last
  have done : ∀ fl', Flash.EqOutside .primary (b.board.faSize .primary - bootTrailerInfoSz b.board)
      (b.board.faSize .primary) fl fl' → Marked b.board rec fl' →
      trailerField b.board fl' .primary .imageOk = (if rec.swapType = .test then [erasedVal] else [1]) →
      wp (assertOk (swapSetCopyDone b.board)) Q E C fl' := by
    intro fl' out marked' ok
    refine wp_assertOk ((wp_bootWriteCopyDone room).mpr ⟨cuts fl' out marked', ?_⟩)
    have set := (Written.none b.board .primary fl').set room (f := .copyDone) nofun rfl
      marked'.copyDone (show [(1 : UInt8)].length = 1 from rfl)
    refine post _ (out.trans set.outside) ⟨?_, ?_, ?_⟩
    · exact (set.fields .magic nofun).trans marked'.magic
    · exact set.fields .copyDone nofun
    · exact (set.fields .imageOk nofun).trans ok
  unfold finishSwap
  by_cases test : rec.swapType = .test
  · have unset : trailerField b.board fl .primary .imageOk = [erasedVal] := by
      rcases marked.imageOk with h | h
      · exact h
      · exact absurd test h.2
    simp only [test, SwapType.isUpgrade]
    exact done fl (.refl _ _ _ _) marked (by rw [if_pos test, unset])
  · have confirmed : rec.swapType = .revert ∨ rec.swapType = .perm := by
      simp only [SwapType.isUpgrade, decide_eq_true_eq] at upgrade
      tauto
    simp only [confirmed, upgrade, if_true]
    rw [wp_bind]
    refine wp_assertOk ?_
    unfold swapSetImageOk
    rw [wp_bind, wp_readSwapState room]
    rcases marked.imageOk with blank | ⟨set, -⟩
    · have unset : (swapState b.board fl .primary).imageOk = .unset := flagOf_eq_unset.mpr blank
      rw [if_pos unset, wp_bootWriteImageOk room]
      refine ⟨cuts fl (.refl _ _ _ _) marked, ?_⟩
      have ok := (Written.none b.board .primary fl).set room (f := .imageOk) nofun rfl
        blank (show [(1 : UInt8)].length = 1 from rfl)
      have self : trailerField b.board (setField b.board fl .primary .imageOk [1]) .primary .imageOk =
          [1] := ok.fields .imageOk nofun
      refine done _ ok.outside (marked.of_fields (.inr ⟨self, test⟩) fun f ne here => ?_) (by rw [if_neg test, self])
      rw [ok.fields f here, Function.update_of_ne ne]
      rfl
    · have isSet : (swapState b.board fl .primary).imageOk ≠ .unset := by
        intro unset
        have := flagOf_eq_unset.mp unset
        rw [set] at this
        exact absurd this (by decide)
      rw [if_neg isSet]
      exact (wp_pure _).mpr (done fl (.refl _ _ _ _) marked (by rw [if_neg test, set]))

/-! ### Reading the record -/

theorem Recorded.source_eq (roomPri : bd.HoldsTrailer .primary)
    (roomSec : bd.HoldsTrailer .secondary) (recorded : Recorded bd rec k fl) :
    swapStatusSource bd fl = some .primarySlot := by
  have good : (swapState bd fl .primary).magic = .good := magicOf_eq_good.mpr recorded.marked.magic
  have unset : (swapState bd fl .primary).copyDone = .unset := flagOf_eq_unset.mpr recorded.marked.copyDone
  simp [swapStatusSource, bootReadSwapState_eq roomPri, bootReadSwapState_eq roomSec, good, unset, recorded.secondary]

theorem Recorded.swapType_none (roomPri : bd.HoldsTrailer .primary)
    (roomSec : bd.HoldsTrailer .secondary) (recorded : Recorded bd rec k fl) :
    bootSwapTypeMulti bd fl = .none := by
  have unset : (swapState bd fl .primary).copyDone = .unset := flagOf_eq_unset.mpr recorded.marked.copyDone
  simp [bootSwapTypeMulti_eq roomPri roomSec, swapTypeOfStates_eq, recorded.secondary, unset]

theorem swapStatusSource_none (fl : Flash) (roomPri : bd.HoldsTrailer .primary)
    (roomSec : bd.HoldsTrailer .secondary) (quiet : (swapState bd fl .primary).copyDone = .unset →
      (swapState bd fl .secondary).magic = .good) : swapStatusSource bd fl = some .none := by
  simp only [swapStatusSource, bootReadSwapState_eq roomPri, bootReadSwapState_eq roomSec,
    Option.bind_eq_bind, Option.bind_some]
  rw [if_neg]
  · rfl
  · rintro ⟨-, unset, ne⟩
    exact ne (quiet unset)

theorem UniformSlots.bootFindStatus_eq (slots : UniformSlots bd S)
    (room : bd.HoldsTrailer .primary) : bootFindStatus bd fl = some .primary := by
  have magic : flashAreaRead (bd.area fl .primary) (bootMagicOff bd .primary) bootMagicSz = some _ :=
    flashAreaRead_field fl room (f := .magic) nofun
  simp [bootFindStatus, slots.keeps.not_scratch, magic]

theorem Marked.swapSize_eq (marked : Marked bd rec fl)
    (room : bd.HoldsTrailer .primary) (lt : rec.swapSize < 2 ^ 32) :
    bootReadSwapSize bd fl .primary = some rec.swapSize := by
  rw [bootReadSwapSize_eq room, marked.swapSize, le32_put32 lt]

theorem Marked.tlvSizes_eq (marked : Marked bd rec fl)
    (room : bd.HoldsTrailer .primary) (mode : bd.mode = .offset)
    (pri : rec.tlvSizePrimary < 65536) (sec : rec.tlvSizeSecondary < 65536) :
    bootReadUnprotectedTlvSizes bd fl .primary = some (rec.tlvSizePrimary, rec.tlvSizeSecondary) := by
  have second : le16 (put16 rec.tlvSizePrimary ++ put16 rec.tlvSizeSecondary) 2 =
      le16 (put16 rec.tlvSizeSecondary ++ []) 0 := rfl
  rw [bootReadUnprotectedTlvSizes_eq room mode, marked.tlvSizes mode, le16_put16 pri, second, le16_put16 sec]

variable {alg : SwapAlgo} {bs bs' : BootStatus} {Q : BootStatus → Flash → Prop}

theorem wp_swapReadStatus_none (source : alg.swapStatusSource fl = some .none)
    (post : Q { bs with source := .none } fl) : wp (swapReadStatus bd alg bs) Q E C fl := by
  unfold swapReadStatus
  rw [wp_bind, wp_get, source]
  simpa using post

theorem SwapType.ofCode_code (upgrade : swapType.isUpgrade = true) :
    .ofCode ((UInt8.ofNat swapType.code).toNat % 16) = swapType ∧ UInt8.ofNat swapType.code ≠ erasedVal := by
  cases swapType <;> first | decide | simp [SwapType.isUpgrade] at upgrade

theorem Recorded.wp_swapReadStatus (recorded : Recorded bd rec k fl)
    (roomPri : bd.HoldsTrailer .primary) (upgrade : rec.swapType.isUpgrade = true)
    (source : alg.swapStatusSource fl = some .primarySlot)
    (bytes : wp (alg.swapReadStatusBytes .primary { bs with source := .primarySlot })
      (fun bs' fl' => fl' = fl ∧ Q { bs' with swapType := rec.swapType } fl) E C fl) :
    wp (swapReadStatus bd alg bs) Q E C fl := by
  have info : flashAreaRead (bd.area fl .primary) (bootSwapInfoOff bd .primary) 1 = some _ :=
    flashAreaRead_field fl roomPri (f := .swapInfo) nofun
  rw [recorded.marked.swapInfo] at info
  obtain ⟨decoded, ne⟩ := SwapType.ofCode_code upgrade
  unfold swapReadStatus
  rw [wp_bind, wp_get, source]
  simp only [reduceCtorEq, if_false]
  rw [wp_bind]
  refine wp_imp bytes ?_
  rintro bs' _ ⟨rfl, post⟩
  simp only [info]
  rw [wp_pure]
  have notErased : bufferIsErased [UInt8.ofNat rec.swapType.code] = false := by
    simp [bufferIsErased, ne]
  simp only [notErased, Bool.false_eq_true, if_false, List.getD_cons_zero, decoded]
  exact post

end Swap

/-! ### The update that is requested -/

def swapSizeOf {v : ValidateBuild} (old new : Image v) : Nat :=
  if new.size > old.size then new.size else old.size

theorem swapSizeOf_lt {v : ValidateBuild} (old new : Image v) : swapSizeOf old new < 2 ^ 32 := by
  have : old.size < 2 ^ 32 := old.length_lt
  have : new.size < 2 ^ 32 := new.length_lt
  unfold swapSizeOf
  split <;> omega

def requestedType (bd : Board) (fl : Flash) : SwapType :=
  if (swapState bd fl .secondary).imageOk = .set then .perm else .test

theorem requestedType_cases (bd : Board) (fl : Flash) : requestedType bd fl = .test ∨ requestedType bd fl = .perm := by
  unfold requestedType
  split <;> simp

theorem requestedType_ne (bd : Board) (fl : Flash) : requestedType bd fl ≠ .revert ∧ requestedType bd fl ≠ .none := by
  rcases requestedType_cases bd fl with h | h <;> simp [h]

theorem requestedType_upgrade (bd : Board) (fl : Flash) : (requestedType bd fl).isUpgrade = true := by
  rcases requestedType_cases bd fl with h | h <;> simp [h, SwapType.isUpgrade]

theorem swapSizeOf_le {v : ValidateBuild} {old new : Image v} {size : Nat} (old_le : old.size ≤ size)
    (new_le : new.size ≤ size) : 0 < swapSizeOf old new ∧ swapSizeOf old new ≤ size := by
  have : 0 < new.size := Nat.lt_of_lt_of_le (by decide) new.header_le
  unfold swapSizeOf
  split <;> omega

/-- The slots as they were before the update, apart from the trailer of the primary slot. -/
structure Untouched (bd : Board) (S n m : Nat) (fl₀ fl : Flash) : Prop where
  sectors : SameSectors S n m fl₀ fl
  secondary : swapState bd fl .secondary = swapState bd fl₀ .secondary

theorem Untouched.swapType_eq {bd : Board} {S n m : Nat} {fl₀ fl : Flash}
    (untouched : Untouched bd S n m fl₀ fl) (roomPri : bd.HoldsTrailer .primary)
    (roomSec : bd.HoldsTrailer .secondary) (requested : Requested bd fl₀) :
    bootSwapTypeMulti bd fl = requestedType bd fl₀ := by
  have good := requested.magic
  have notBad := requested.imageOk
  rw [bootSwapTypeMulti_eq roomPri roomSec, swapTypeOfStates_eq, untouched.secondary, requestedType]
  simp only [good, requested.copyDone, reduceCtorEq, true_and, and_false, if_false]
  cases ok : (swapState bd fl₀ .secondary).imageOk <;> simp_all

end Adaboot
