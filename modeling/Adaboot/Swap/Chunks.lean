import Adaboot.Swap.Common
import Adaboot.Swap.Compatible
import Mathlib.Data.Nat.Find

/-!
# The chunks of a swap using scratch

`find_last_sector_idx` finds the end of what is swapped, and `boot_copy_sz` packs the sectors of the primary slot into
chunks. That they also end where sectors of the secondary slot end is left to `boot_slots_compatible`.
-/

namespace Adaboot.SwapScratch

open Nor

/-! ### The end of the swap -/

/-- What the loop of `find_last_sector_idx` carries. -/
structure LastScan where
  size0 : Nat
  size1 : Nat
  idx0 : Nat
  idx1 : Nat

section LastSector

variable (primary secondary : List Nat) (copySize : Nat)

/-- Takes a sector of the primary slot. There is no outcome where the slot has none. -/
def LastScan.takePrimary (s : LastScan) : Option LastScan :=
  if s.size0 < copySize ∨ s.size0 < s.size1 then
    (primary[s.idx0]?).map fun size => { s with size0 := s.size0 + size, idx0 := s.idx0 + 1 }
  else some s

def LastScan.takeSecondary (s : LastScan) : Option LastScan :=
  if s.size1 < copySize ∨ s.size1 < s.size0 then
    (secondary[s.idx1]?).map fun size => { s with size1 := s.size1 + size, idx1 := s.idx1 + 1 }
  else some s

def LastScan.round (s : LastScan) : Option LastScan :=
  (s.takePrimary primary copySize).bind (LastScan.takeSecondary secondary copySize)

def LastScan.found (s : LastScan) : Prop := s.size0 ≥ copySize ∧ s.size1 ≥ copySize ∧ s.size0 = s.size1

instance (s : LastScan) : Decidable (s.found copySize) := inferInstanceAs (Decidable (_ ∧ _))

/-- The loop ends with `n` sectors of the primary slot, and every sector it reads is one that the slot has. -/
inductive LastReturns : LastScan → Nat → Prop
  | done {s s' : LastScan} : s.round primary secondary copySize = some s' → s'.found copySize →
      LastReturns s s'.idx0
  | goesOn {s s' : LastScan} {n : Nat} : s.round primary secondary copySize = some s' → ¬s'.found copySize →
      LastReturns s' n → LastReturns s n

/-- The first `n` sectors of the primary slot end at the first common boundary not in front of the size. -/
structure EndsAt (n : Nat) : Prop where
  le : n ≤ primary.length
  common : CommonBoundary primary secondary (sectorOff primary n)
  covers : copySize ≤ sectorOff primary n
  first : ∀ x, CommonBoundary primary secondary x → copySize ≤ x → sectorOff primary n ≤ x

end LastSector

section LastSpec

variable {primary secondary : List Nat} {copySize : Nat} {s s' : LastScan}

/-- The loop knows where it is, and has not passed a boundary it looks for. -/
structure Walking (primary secondary : List Nat) (copySize : Nat) (s : LastScan) : Prop where
  le0 : s.idx0 ≤ primary.length
  le1 : s.idx1 ≤ secondary.length
  size0 : s.size0 = sectorOff primary s.idx0
  size1 : s.size1 = sectorOff secondary s.idx1
  before : ∀ x, CommonBoundary primary secondary x → copySize ≤ x → s.size0 ≤ x ∧ s.size1 ≤ x

theorem walking_start (primary secondary : List Nat) (copySize : Nat) :
    Walking primary secondary copySize ⟨0, 0, 0, 0⟩ :=
  ⟨Nat.zero_le _, Nat.zero_le _, by simp, by simp, fun x _ _ => ⟨Nat.zero_le _, Nat.zero_le _⟩⟩

/-- The two slots change their roles. -/
def LastScan.swap (s : LastScan) : LastScan := ⟨s.size1, s.size0, s.idx1, s.idx0⟩

theorem takeSecondary_eq (s : LastScan) :
    s.takeSecondary secondary copySize = (s.swap.takePrimary secondary copySize).map LastScan.swap := by
  rw [LastScan.takeSecondary, LastScan.takePrimary, apply_ite (Option.map LastScan.swap), Option.map_map]
  rfl

variable {t : LastScan} {n x : Nat} (walking : Walking primary secondary copySize s)
include walking

theorem Walking.swap : Walking secondary primary copySize s.swap :=
  ⟨walking.le1, walking.le0, walking.size1, walking.size0, fun x common ge => (walking.before x common.symm ge).symm⟩

theorem Walking.takePrimary (taken : s.takePrimary primary copySize = some t) : Walking primary secondary copySize t ∧
    ((t = s ∧ s.size0 ≥ copySize ∧ s.size0 ≥ s.size1) ∨ t.idx0 = s.idx0 + 1 ∧ t.idx1 = s.idx1) := by
  unfold LastScan.takePrimary at taken
  split at taken
  next more =>
    obtain ⟨size, read, rfl⟩ := Option.map_eq_some_iff.mp taken
    obtain ⟨lt, -⟩ := List.getElem?_eq_some_iff.mp read
    rw [getElem?_eq_sectorSize lt] at read
    cases read
    have size0 := walking.size0
    have off := sectorOff_succ lt
    refine ⟨⟨lt, walking.le1, by simp only; omega, walking.size1, fun x common ge => ?_⟩, .inr ⟨rfl, rfl⟩⟩
    have before := walking.before x common ge
    have next := common.1.next_le (show sectorOff primary s.idx0 < x by omega)
    exact ⟨by simp only; omega, before.2⟩
  next enough =>
    cases taken
    exact ⟨walking, .inl ⟨rfl, by omega, by omega⟩⟩

theorem Walking.takeSecondary (taken : s.takeSecondary secondary copySize = some t) :
    Walking primary secondary copySize t ∧
      ((t = s ∧ s.size1 ≥ copySize ∧ s.size1 ≥ s.size0) ∨ t.idx1 = s.idx1 + 1 ∧ t.idx0 = s.idx0) := by
  rw [takeSecondary_eq] at taken
  obtain ⟨u, found, rfl⟩ := Option.map_eq_some_iff.mp taken
  obtain ⟨walking', how⟩ := walking.swap.takePrimary found
  exact ⟨walking'.swap, how.imp_left (And.imp_left (congrArg LastScan.swap))⟩

theorem Walking.round (round : s.round primary secondary copySize = some s') :
    Walking primary secondary copySize s' ∧ (s.idx0 + s.idx1 < s'.idx0 + s'.idx1 ∨ s'.found copySize) := by
  obtain ⟨t, first, second⟩ := Option.bind_eq_some_iff.mp round
  obtain ⟨walking', first⟩ := walking.takePrimary first
  obtain ⟨walking'', second⟩ := walking'.takeSecondary second
  refine ⟨walking'', ?_⟩
  rcases first with ⟨rfl, ge, ge'⟩ | first
  · rcases second with ⟨rfl, _⟩ | second
    · exact .inr ⟨by omega, by omega, by omega⟩
    · exact .inl (by omega)
  · rcases second with ⟨rfl, _⟩ | second
    · exact .inl (by omega)
    · exact .inl (by omega)

theorem Walking.exists_takePrimary (common : CommonBoundary primary secondary x) (ge : copySize ≤ x) :
    ∃ t, s.takePrimary primary copySize = some t := by
  unfold LastScan.takePrimary
  split
  next more =>
    have before := walking.before x common ge
    have size0 := walking.size0
    have inside := common.1.le_sum
    have lt : s.idx0 < primary.length := by
      apply @lt_of_sectorOff_lt primary
      rw [sectorOff_length]
      omega
    rw [getElem?_eq_sectorSize lt]
    exact ⟨_, rfl⟩
  next => exact ⟨s, rfl⟩

theorem Walking.exists_round (common : CommonBoundary primary secondary x) (ge : copySize ≤ x) :
    ∃ s', s.round primary secondary copySize = some s' := by
  obtain ⟨t, first⟩ := walking.exists_takePrimary common ge
  obtain ⟨u, second⟩ := (walking.takePrimary first).1.swap.exists_takePrimary common.symm ge
  refine ⟨u.swap, ?_⟩
  rw [LastScan.round, first, Option.bind_some, takeSecondary_eq, second]
  rfl

omit walking

theorem LastReturns.endsAt (returns : LastReturns primary secondary copySize s n)
    (walking : Walking primary secondary copySize s) : EndsAt primary secondary copySize n := by
  induction returns with
  | @done s s' round found =>
    obtain ⟨walking', -⟩ := walking.round round
    obtain ⟨ge0, ge1, same⟩ := found
    have size0 := walking'.size0
    have size1 := walking'.size1
    refine ⟨walking'.le0, ⟨boundary_sectorOff walking'.le0, ?_⟩, by omega, fun x common ge => ?_⟩
    · rw [← size0, same, size1]
      exact boundary_sectorOff walking'.le1
    · have := walking'.before x common ge
      omega
  | goesOn round _ _ ih => exact ih (walking.round round).1

theorem Walking.exists_returns (common : CommonBoundary primary secondary x) (ge : copySize ≤ x) (s : LastScan)
    (walking : Walking primary secondary copySize s) : ∃ n, LastReturns primary secondary copySize s n := by
  -- a round that does not find the end takes a sector
  induction left : primary.length + secondary.length - (s.idx0 + s.idx1) using Nat.strong_induction_on
    generalizing s with
  | _ m ih =>
    obtain ⟨s', round⟩ := walking.exists_round common ge
    obtain ⟨walking', progress⟩ := walking.round round
    by_cases found : s'.found copySize
    · exact ⟨_, .done round found⟩
    · have taken := progress.resolve_right found
      have le0 := walking'.le0
      have le1 := walking'.le1
      obtain ⟨n, returns⟩ := ih _ (by omega) s' walking' rfl
      exact ⟨n, .goesOn round found returns⟩

/-- It reads only sectors of the slots if these have a common boundary that is not in front of the size. -/
theorem lastReturns_iff (positive : ∀ size ∈ primary, 0 < size) :
    LastReturns primary secondary copySize ⟨0, 0, 0, 0⟩ n ↔ EndsAt primary secondary copySize n := by
  constructor
  · intro returns
    exact returns.endsAt (walking_start _ _ _)
  · intro ends
    obtain ⟨n', returns⟩ := Walking.exists_returns ends.common ends.covers _ (walking_start _ _ _)
    have ends' := returns.endsAt (walking_start _ _ _)
    have same : sectorOff primary n' = sectorOff primary n :=
      Nat.le_antisymm (ends'.first _ ends.common ends.covers) (ends.first _ ends'.common ends'.covers)
    obtain rfl := sectorOff_inj positive ends'.le ends.le same
    exact returns

end LastSpec

section LastSector

variable {bd : Board} {copySize : Nat} {s s' : LastScan}

theorem lastSectorLoop_round (round : s.round (bd.layout .primary) (bd.layout .secondary) copySize = some s')
    (fuel : Nat) : lastSectorLoop bd copySize (fuel + 1) s.size0 s.size1 s.idx0 s.idx1 =
      if s'.found copySize then s'.idx0 else lastSectorLoop bd copySize fuel s'.size0 s'.size1 s'.idx0 s'.idx1 := by
  have size (a : Area) {k size : Nat} (read : (bd.layout a)[k]? = some size) : bd.sectorSize a k = size := by
    simp [Board.sectorSize, sectorSize, List.getD, read]
  obtain ⟨t, first, second⟩ := Option.bind_eq_some_iff.mp round
  have size0 : t.size0 = (if s.size0 < copySize ∨ s.size0 < s.size1 then
      s.size0 + bd.sectorSize .primary s.idx0 else s.size0) ∧
      t.idx0 = (if s.size0 < copySize ∨ s.size0 < s.size1 then s.idx0 + 1 else s.idx0) ∧
      t.size1 = s.size1 ∧ t.idx1 = s.idx1 := by
    unfold LastScan.takePrimary at first
    split at first
    next more =>
      obtain ⟨read, found, rfl⟩ := Option.map_eq_some_iff.mp first
      simp [more, size .primary found]
    next enough =>
      cases first
      simp [enough]
  obtain ⟨size0, idx0, size1, idx1⟩ := size0
  rw [SwapScratch.lastSectorLoop]
  rw [← size0, ← idx0, ← size1, ← idx1]
  unfold LastScan.takeSecondary at second
  split at second
  next more =>
    obtain ⟨read, found, rfl⟩ := Option.map_eq_some_iff.mp second
    simp only [more, if_true, size .secondary found]
    rfl
  next enough =>
    cases second
    simp only [enough, if_false]
    rfl

theorem LastReturns.lastSectorLoop {n fuel : Nat}
    (returns : LastReturns (bd.layout .primary) (bd.layout .secondary) copySize s n)
    (walking : Walking (bd.layout .primary) (bd.layout .secondary) copySize s)
    (enough : bd.numSectors .primary + bd.numSectors .secondary < fuel + (s.idx0 + s.idx1)) :
    lastSectorLoop bd copySize fuel s.size0 s.size1 s.idx0 s.idx1 = n := by
  have some {s : LastScan} {fuel : Nat} (walking : Walking (bd.layout .primary) (bd.layout .secondary) copySize s)
      (enough : bd.numSectors .primary + bd.numSectors .secondary < fuel + (s.idx0 + s.idx1)) :
      ∃ less, fuel = less + 1 := by
    have le0 := walking.le0
    have le1 := walking.le1
    simp only [Board.numSectors] at enough
    exact ⟨fuel - 1, by omega⟩
  induction returns generalizing fuel with
  | done round found =>
    obtain ⟨fuel, rfl⟩ := some walking enough
    rw [lastSectorLoop_round round, if_pos found]
  | goesOn round found _ ih =>
    obtain ⟨fuel, rfl⟩ := some walking enough
    obtain ⟨walking', progress⟩ := walking.round round
    have taken := progress.resolve_right found
    rw [lastSectorLoop_round round, if_neg found]
    exact ih walking' (by omega)

theorem sectorsToSwap_eq {n : Nat} (ends : EndsAt (bd.layout .primary) (bd.layout .secondary) copySize n) :
    sectorsToSwap bd copySize = n := by
  have returns := (lastReturns_iff (bd.sector_pos .primary)).mpr ends
  exact returns.lastSectorLoop (walking_start _ _ _) (by simp only; omega)

end LastSector

/-! ### The chunks -/

/-- Where the chunk that ends at `e` starts: as low as scratch allows. -/
structure ChunkStart (primary : List Nat) (scratchSz e x : Nat) : Prop where
  boundary : Boundary primary x
  fits : e ≤ x + scratchSz
  lowest : ∀ y, Boundary primary y → e ≤ y + scratchSz → x ≤ y

theorem ChunkStart.unique {primary : List Nat} {scratchSz e x y : Nat} (start : ChunkStart primary scratchSz e x)
    (start' : ChunkStart primary scratchSz e y) : x = y :=
  Nat.le_antisymm (start.lowest y start'.boundary start'.fits) (start'.lowest x start.boundary start.fits)

/-- The chunks of `swap_run`, by first sector and size, over the sectors below `n`. -/
def chunksLoop (bd : Board) : Nat → Nat → List (Nat × Nat)
  | 0, _ => []
  | _ + 1, 0 => []
  | fuel + 1, n + 1 =>
    let (sz, first) := bootCopySz bd n
    (first, sz) :: chunksLoop bd fuel first

section Chunks

variable {bd : Board}

theorem copySzLoop_spec {i sz e : Nat} (le : i ≤ bd.numSectors .primary) (sum : bd.sectorOff .primary i + sz = e)
    (fits : sz ≤ bd.faSize .scratch) :
    (copySzLoop bd i sz).2 ≤ i ∧ bd.sectorOff .primary (copySzLoop bd i sz).2 + (copySzLoop bd i sz).1 = e ∧
      ChunkStart (bd.layout .primary) (bd.faSize .scratch) e (bd.sectorOff .primary (copySzLoop bd i sz).2) := by
  induction i generalizing sz with
  | zero =>
    have zero : bd.sectorOff .primary 0 = 0 := sectorOff_zero _
    refine ⟨le_rfl, sum, ?_⟩
    exact ⟨boundary_zero _, by omega, fun y _ _ => Nat.zero_le y⟩
  | succ i ih =>
    have next := bd.sectorOff_succ (show i < bd.numSectors .primary by omega)
    rw [copySzLoop]
    by_cases large : sz + bd.sectorSize .primary i > bd.faSize .scratch
    · rw [if_pos large]
      have high : e ≤ bd.sectorOff .primary (i + 1) + bd.faSize .scratch := by omega
      refine ⟨le_rfl, sum, boundary_sectorOff le, high, fun y boundary enough => ?_⟩
      apply Nat.le_of_not_lt
      intro lower
      -- a lower start takes in the sector that does not fit
      have before : y ≤ bd.sectorOff .primary i := boundary.le_previous lower
      omega
    · rw [if_neg large]
      have sum' : bd.sectorOff .primary i + (sz + bd.sectorSize .primary i) = e := by omega
      obtain ⟨le', sum', start⟩ := ih (by omega) sum' (by omega)
      exact ⟨by omega, sum', start⟩

theorem bootCopySz_spec {last : Nat} (lt : last < bd.numSectors .primary) : (bootCopySz bd last).2 ≤ last + 1 ∧
      bd.sectorOff .primary (bootCopySz bd last).2 + (bootCopySz bd last).1 = bd.sectorOff .primary (last + 1) ∧
      ChunkStart (bd.layout .primary) (bd.faSize .scratch) (bd.sectorOff .primary (last + 1))
        (bd.sectorOff .primary (bootCopySz bd last).2) :=
  copySzLoop_spec lt rfl (Nat.zero_le _)

end Chunks

/-- The chunks one after the other, with those left out that the status records. -/
def runChunks (b : LoaderBuild) (st : BootState) : List (Nat × Nat) → Nat → BootStatus → Boot BootStatus
  | [], _, bs => pure bs
  | (first, sz) :: rest, swapIdx, bs => do
    let bs ← if swapIdx ≥ bs.idx - statusIdx0 then bootSwapSectors b st first sz bs else pure bs
    runChunks b st rest (swapIdx + 1) bs

theorem swapRun_eq (b : LoaderBuild) (st : BootState) (bs : BootStatus) (copySize : Nat) : swapRun b st bs copySize =
      runChunks b st (chunksLoop b.board (sectorsToSwap b.board copySize + 1) (sectorsToSwap b.board copySize)) 0 bs := by
  have loop (fuel n swapIdx : Nat) (bs : BootStatus) :
      swapRunLoop b st fuel n swapIdx bs = runChunks b st (chunksLoop b.board fuel n) swapIdx bs := by
    induction fuel generalizing n swapIdx bs with
    | zero => rfl
    | succ fuel ih =>
      cases n with
      | zero => rfl
      | succ n =>
        rw [swapRunLoop, chunksLoop, runChunks]
        simp only [ih]
  exact loop _ _ _ _

/-! ### What a chunk erases in the secondary slot -/

section Erases

variable (bd : Board)

/-- `swap_scramble_trailer_sectors`, by the sectors it erases. -/
def trailerErasure (a : Area) : Erasure :=
  match bootTrailerScrambleOffset bd a bd.writeSz with
  | none => ([], some .eflash)
  | some off =>
    if bd.faSize a - off = 0 then ([], none) else erasedSectors (bd.layout a) off (bd.faSize a - off) true

/-- The bytes that the second step of `boot_swap_sectors` erases from the start of the chunk on. -/
def secondaryEraseSz (idx0 : Bool) (imgOff sz : Nat) : Nat :=
  if idx0 ∧ chunkCopySz bd imgOff sz ≠ sz then
    u32 (bd.sectorOff .secondary
      (bootGetFirstTrailerSector bd .secondary (bootTrailerSz bd bd.writeSz)) + 2 ^ 32 - imgOff)
  else sz

def secondaryErasures (idx0 : Bool) (imgOff sz : Nat) : List (Nat × Nat) :=
  (if idx0 then (trailerErasure bd .secondary).1 else []) ++
    if secondaryEraseSz bd idx0 imgOff sz > 0 then
      (erasedSectors (bd.layout .secondary) imgOff (secondaryEraseSz bd idx0 imgOff sz) false).1
    else []

theorem swapScrambleTrailerSectors_eq (a : Area) :
    swapScrambleTrailerSectors bd a = eraseAll bd a (trailerErasure bd a) := by
  unfold swapScrambleTrailerSectors trailerErasure
  cases bootTrailerScrambleOffset bd a bd.writeSz with
  | none => rfl
  | some off =>
    simp only [bootScrambleRegion]
    split
    · rfl
    · exact bootEraseRegion_eq ..

end Erases

theorem swapSectors1_eq (b : LoaderBuild) (imgOff sz : Nat) (bs : BootStatus)
    (useScratch : bs.useScratch = decide (bs.idx = statusIdx0 ∧ chunkCopySz b.board imgOff sz ≠ sz)) :
    swapSectors1 b imgOff sz (chunkCopySz b.board imgOff sz) bs = do
      if bs.idx = statusIdx0 then assertOk (eraseAll b.board .secondary (trailerErasure b.board .secondary))
      if secondaryEraseSz b.board (bs.idx = statusIdx0) imgOff sz > 0 then
        assertOk (eraseAll b.board .secondary (erasedSectors (b.board.layout .secondary) imgOff
          (secondaryEraseSz b.board (bs.idx = statusIdx0) imgOff sz) false))
      assertOk (bootCopyRegion b.board .primary .secondary imgOff imgOff (chunkCopySz b.board imgOff sz))
      writeStatus b bs
      return { bs with state := statusState2 } := by
  have eraseSz : (if bs.idx = statusIdx0 ∧ bs.useScratch then
      u32 (b.board.sectorOff .secondary
        (bootGetFirstTrailerSector b.board .secondary (bootTrailerSz b.board b.board.writeSz)) + 2 ^ 32 - imgOff)
      else sz) = secondaryEraseSz b.board (bs.idx = statusIdx0) imgOff sz := by
    rw [secondaryEraseSz, useScratch]
    simp only [decide_eq_true_eq]
    congr 1
    exact propext ⟨fun both => both.2, fun both => ⟨both.1, both⟩⟩
  rw [swapSectors1, swapScrambleTrailerSectors_eq]
  simp only [bootEraseRegion_eq, eraseSz]

/-! ### Chunks that are made of sectors of both slots -/

/-- A chunk is made of sectors of both slots and fits scratch, and nothing in front of it is erased. -/
structure ChunkSafe (bd : Board) (idx0 : Bool) (chunk : Nat × Nat) : Prop where
  some : 0 < chunk.2
  starts : CommonBoundary (bd.layout .primary) (bd.layout .secondary) (bd.sectorOff .primary chunk.1)
  ends : CommonBoundary (bd.layout .primary) (bd.layout .secondary) (bd.sectorOff .primary chunk.1 + chunk.2)
  fits : chunk.2 ≤ bd.faSize .scratch
  keeps : ∀ sector ∈ secondaryErasures bd idx0 (bd.sectorOff .primary chunk.1) chunk.2,
    bd.sectorOff .primary chunk.1 ≤ sector.1

/-- `find_last_sector_idx` stays in range, and all chunks of the swap are safe. -/
def SwapSafe (bd : Board) (copySize : Nat) : Prop :=
  ∃ n, LastReturns (bd.layout .primary) (bd.layout .secondary) copySize ⟨0, 0, 0, 0⟩ n ∧
    ∀ k chunk, (chunksLoop bd (n + 1) n)[k]? = some chunk → ChunkSafe bd (k = 0) chunk

/-- The chunks start where a sector of the secondary slot does, and not behind the start of the trailer that is
removed. -/
def ChunksAligned (bd : Board) (limit : Nat) : Prop :=
  ∀ e, CommonBoundary (bd.layout .primary) (bd.layout .secondary) e → 0 < e → e ≤ limit →
    ∀ x, ChunkStart (bd.layout .primary) (bd.faSize .scratch) e x → Boundary (bd.layout .secondary) x ∧
        (scrambleSz bd .secondary ≤ bd.faSize .secondary → x + scrambleSz bd .secondary ≤ bd.faSize .secondary)

section Safe

variable {bd : Board} {last limit : Nat} {a : Area}

theorem lastSector_fits (passed : ¬Refused (bd.layout .primary) (bd.layout .secondary) (bd.faSize .scratch))
    (lt : last < bd.numSectors .primary)
    (common : CommonBoundary (bd.layout .primary) (bd.layout .secondary) (bd.sectorOff .primary (last + 1))) :
    bd.sectorSize .primary last ≤ bd.faSize .scratch := by
  classical
  have next := bd.sectorOff_succ lt
  have size := sectorSize_pos (bd.sector_pos .primary) lt
  have positive : 0 < bd.sectorOff .primary (last + 1) := by
    rw [next]
    exact Nat.add_pos_right _ size
  generalize same : bd.sectorOff .primary (last + 1) = e at common next positive
  -- the group begins at the last common boundary in front of `e`
  let begins := Nat.findGreatest (CommonBoundary (bd.layout .primary) (bd.layout .secondary)) (e - 1)
  have beginsCommon : CommonBoundary (bd.layout .primary) (bd.layout .secondary) begins :=
    Nat.findGreatest_spec (Nat.zero_le _) (commonBoundary_zero _ _)
  have beginsLe : begins ≤ e - 1 := Nat.findGreatest_le _
  have between : ∀ x, begins < x → x ≤ e - 1 → ¬CommonBoundary (bd.layout .primary) (bd.layout .secondary) x :=
    fun x => Nat.findGreatest_is_greatest
  obtain ⟨⟨a, leA, offA⟩, ⟨b, leB, offB⟩⟩ := beginsCommon
  have le0 := common.1.le_sum
  have le1 := common.2.le_sum
  have ltA : a < (bd.layout .primary).length := by
    apply @lt_of_sectorOff_lt (bd.layout .primary)
    rw [sectorOff_length]
    omega
  have ltB : b < (bd.layout .secondary).length := by
    apply @lt_of_sectorOff_lt (bd.layout .secondary)
    rw [sectorOff_length]
    omega
  have groupLe := groupEnd_le (offA.trans offB.symm) common (show _ < e by omega)
  have front : sectorOff (bd.layout .primary) a ≤ bd.sectorOff .primary last := by
    apply (boundary_sectorOff leA).le_previous
    change _ < bd.sectorOff .primary (last + 1)
    omega
  apply Nat.le_of_not_lt
  intro large
  refine passed ⟨a, b, ltA, ltB, offA.trans offB.symm, ?_⟩
  by_cases ends : CommonBoundary (bd.layout .primary) (bd.layout .secondary)
      (groupEnd (bd.layout .primary) (bd.layout .secondary) a b)
  · refine .inl ⟨ends, ?_⟩
    have behind : sectorOff (bd.layout .primary) a < groupEnd (bd.layout .primary) (bd.layout .secondary) a b :=
      Nat.lt_of_lt_of_le (sectorOff_lt (bd.sector_pos .primary) (Nat.lt_succ_self a) ltA) (Nat.le_max_left _ _)
    have whole : groupEnd (bd.layout .primary) (bd.layout .secondary) a b = e := by
      apply Nat.le_antisymm groupLe
      apply Nat.le_of_not_lt
      intro short
      exact between _ (offA ▸ behind) (by omega) ends
    omega
  · have short : groupEnd (bd.layout .primary) (bd.layout .secondary) a b ≠ e := by
      intro whole
      exact ends (whole ▸ common)
    exact .inr ⟨ends, by omega⟩

theorem trailerErasure_eq (room : scrambleSz bd a ≤ bd.faSize a) :
    ∃ i, InSector (bd.layout a) i (bd.faSize a - scrambleSz bd a) ∧
      (trailerErasure bd a).1 = ((List.range' i (bd.numSectors a - i)).map (sectorOf (bd.layout a))).reverse := by
  have some : 48 ≤ scrambleSz bd a := (bootTrailerInfoSz_ge bd).trans (infoSz_le_scrambleSz bd a)
  have size : bd.faSize a = (bd.layout a).sum := rfl
  obtain ⟨i, inside⟩ := InSector.exists (show bd.faSize a - scrambleSz bd a < (bd.layout a).sum by omega)
  refine ⟨i, inside, ?_⟩
  have offset : bootTrailerScrambleOffset bd a bd.writeSz = Option.some (sectorOff (bd.layout a) i) := by
    change (if bd.faSize a < scrambleSz bd a then none
      else (sectorAt (bd.layout a) (bd.faSize a - scrambleSz bd a)).map (·.1)) = _
    rw [if_neg (by omega), inside.sectorAt]
    rfl
  have before := sectorOff_lt (bd.sector_pos a) inside.lt le_rfl
  rw [sectorOff_length] at before
  unfold trailerErasure
  rw [offset]
  simp only
  rw [if_neg (by omega)]
  have tail := erasedSectors_span_backwards (bd.sector_pos a) inside.lt le_rfl
  rw [sectorOff_length] at tail
  exact congrArg Prod.fst tail

theorem mem_trailerErasure {sector : Nat × Nat} (mem : sector ∈ (trailerErasure bd a).1) :
    scrambleSz bd a ≤ bd.faSize a ∧
      ∃ k, sector.1 = sectorOff (bd.layout a) k ∧ bd.faSize a - scrambleSz bd a < sectorOff (bd.layout a) (k + 1) := by
  by_cases room : scrambleSz bd a ≤ bd.faSize a
  · obtain ⟨i, inside, erased⟩ := trailerErasure_eq room
    rw [erased, List.mem_reverse] at mem
    obtain ⟨k, range, rfl⟩ := List.mem_map.mp mem
    have ge := (List.mem_range'_1.mp range).1
    exact ⟨room, k, rfl, inside.high.trans_le (sectorOff_mono _ (by omega))⟩
  · have offset : bootTrailerScrambleOffset bd a bd.writeSz = none := if_pos (Nat.lt_of_not_le room)
    simp [trailerErasure, offset] at mem

variable (passed : ¬Refused (bd.layout .primary) (bd.layout .secondary) (bd.faSize .scratch))
include passed

/-- A chunk that ends at a common boundary of slots that are not refused is safe where it is aligned. -/
theorem chunkSafe (aligned : ChunksAligned bd limit) (lt : last < bd.numSectors .primary)
    (common : CommonBoundary (bd.layout .primary) (bd.layout .secondary) (bd.sectorOff .primary (last + 1)))
    (le : bd.sectorOff .primary (last + 1) ≤ limit) (idx0 : Bool) :
    ChunkSafe bd idx0 ((bootCopySz bd last).2, (bootCopySz bd last).1) := by
  obtain ⟨firstLe, sum, start⟩ := bootCopySz_spec lt
  have next := bd.sectorOff_succ lt
  have size : 0 < bd.sectorSize .primary last := sectorSize_pos (bd.sector_pos .primary) lt
  have lastFits := lastSector_fits passed lt common
  obtain ⟨boundary, trailer⟩ := aligned _ common (by omega) le _ start
  have lower := start.lowest _ (boundary_sectorOff lt.le) (show _ ≤ bd.sectorOff .primary last + _ by omega)
  have fits := start.fits
  refine ⟨?_, ⟨start.boundary, boundary⟩, ?_, ?_, fun sector mem => ?_⟩
  · change bd.sectorOff .primary _ ≤ bd.sectorOff .primary last at lower
    simp only
    omega
  · rw [sum]
    exact common
  · omega
  · rcases List.mem_append.mp mem with mem | mem
    · split at mem
      · obtain ⟨room, k, start, behind⟩ := mem_trailerErasure mem
        rw [start]
        exact boundary.le_previous (by omega)
      · simp at mem
    · split at mem
      · exact le_of_mem_erasedSectors boundary mem
      · simp at mem

theorem chunksLoop_safe (aligned : ChunksAligned bd limit) {fuel n : Nat} (le : n ≤ bd.numSectors .primary)
    (common : CommonBoundary (bd.layout .primary) (bd.layout .secondary) (bd.sectorOff .primary n))
    (low : bd.sectorOff .primary n ≤ limit) {chunk : Nat × Nat} (mem : chunk ∈ chunksLoop bd fuel n)
    (idx0 : Bool) : ChunkSafe bd idx0 chunk := by
  induction fuel generalizing n with
  | zero => simp [chunksLoop] at mem
  | succ fuel ih =>
    cases n with
    | zero => simp [chunksLoop] at mem
    | succ last =>
      have safe := chunkSafe passed aligned le common low
      rcases List.mem_cons.mp mem with rfl | mem
      · exact safe idx0
      · obtain ⟨firstLe, sum, -⟩ := bootCopySz_spec le
        have lower : bd.sectorOff .primary (bootCopySz bd last).2 ≤ limit := by omega
        exact ih (by omega) (safe idx0).starts lower mem

end Safe

/-- All swaps up to a size are safe exactly if the size is not behind the last common boundary of the slots and the
chunks up to there are aligned. -/
theorem swaps_safe_iff (bd : Board) (mode : bd.mode = .scratch) (compatible : bootSlotsCompatible bd = true)
    (maxSize : Nat) : (∀ copySize, copySize ≤ maxSize → SwapSafe bd copySize) ↔
      ∃ limit, CommonBoundary (bd.layout .primary) (bd.layout .secondary) limit ∧ maxSize ≤ limit ∧
        ChunksAligned bd limit := by
  have passed := not_refused_of_compatible mode compatible
  constructor
  · intro safe
    obtain ⟨n, returns, -⟩ := safe maxSize le_rfl
    have ends := (lastReturns_iff (bd.sector_pos .primary)).mp returns
    refine ⟨_, ends.common, ends.covers, fun e common positive le x start => ?_⟩
    -- the swap whose sectors end at `e`
    obtain ⟨n', returns', chunks⟩ := safe (min e maxSize) (Nat.min_le_right _ _)
    have ends' := (lastReturns_iff (bd.sector_pos .primary)).mp returns'
    have upper := ends'.first e common (Nat.min_le_left _ _)
    have covers := ends'.covers
    have offset : bd.sectorOff .primary n' = e := by
      apply Nat.le_antisymm upper
      rcases Nat.le_total e maxSize with small | large
      · rwa [Nat.min_eq_left small] at covers
      · rw [Nat.min_eq_right large] at covers
        exact le.trans (ends.first _ ends'.common covers)
    cases n' with
    | zero =>
      have zero : bd.sectorOff .primary 0 = 0 := sectorOff_zero _
      omega
    | succ last =>
      have first := chunks 0 _ rfl
      obtain ⟨-, -, start'⟩ := bootCopySz_spec ends'.le
      rw [offset] at start'
      rw [start.unique start']
      refine ⟨first.starts.2, fun room => ?_⟩
      obtain ⟨i, inside, erased⟩ := trailerErasure_eq room
      have mem : sectorOf (bd.layout .secondary) i ∈
          secondaryErasures bd true (bd.sectorOff .primary (bootCopySz bd last).2) (bootCopySz bd last).1 := by
        apply List.mem_append_left
        rw [if_pos rfl, erased, List.mem_reverse]
        exact List.mem_map_of_mem (List.mem_range'_1.mpr ⟨le_rfl, by have := inside.lt; unfold Board.numSectors; omega⟩)
      have keeps := first.keeps _ mem
      have low := inside.low
      change bd.sectorOff .primary (bootCopySz bd last).2 ≤ sectorOff (bd.layout .secondary) i at keeps
      omega
  · rintro ⟨limit, common, ge, aligned⟩ copySize le
    obtain ⟨n, returns⟩ := Walking.exists_returns common (le.trans ge) _ (walking_start _ _ _)
    have ends := (lastReturns_iff (bd.sector_pos .primary)).mp returns
    refine ⟨n, returns, fun k chunk entry => ?_⟩
    exact chunksLoop_safe passed aligned ends.le ends.common (ends.first _ common (le.trans ge))
      (List.mem_of_getElem? entry) _

def doubleLayout (scratch : List Nat) : Area → List Nat
  | .primary => [128, 128, 128, 128]
  | .secondary => [256, 256]
  | .scratch => scratch

def doubleSectors (scratch : List Nat) (ok : Board.Fits 8 4 16 (fun _ => 0) (doubleLayout scratch)) : Board :=
  .ofLayout .scratch 8 4 16 (fun _ => 0) (doubleLayout scratch) ok

theorem doubleLayout_fits_two : Board.Fits 8 4 16 (fun _ => 0) (doubleLayout [128, 128]) := by decide

theorem doubleLayout_fits_three : Board.Fits 8 4 16 (fun _ => 0) (doubleLayout [128, 128, 128]) := by decide

/-- Scratch of the size of one larger sector. -/
theorem swaps_safe_double : bootSlotsCompatible (doubleSectors [128, 128] doubleLayout_fits_two) = true ∧
      SwapSafe (doubleSectors [128, 128] doubleLayout_fits_two) 300 := by
  have compatible : bootSlotsCompatible (doubleSectors [128, 128] doubleLayout_fits_two) = true := by decide
  have aligned : ChunksAligned (doubleSectors [128, 128] doubleLayout_fits_two) 512 := by
    rintro e ⟨-, j, le, rfl⟩ positive - x start
    have trailer : scrambleSz (doubleSectors [128, 128] doubleLayout_fits_two) .secondary ≤ 256 := by decide
    have fits : sectorOff [256, 256] j ≤ x + 256 := start.fits
    have lowest : ∀ y, Boundary [128, 128, 128, 128] y → sectorOff [256, 256] j ≤ y + 256 → x ≤ y := start.lowest
    change Boundary [256, 256] x ∧ (_ ≤ 512 → x + _ ≤ 512)
    have le : j ≤ 2 := le
    obtain rfl | rfl | rfl : j = 0 ∨ j = 1 ∨ j = 2 := by omega
    · simp at positive
    · obtain rfl : x = 0 := Nat.le_zero.mp (lowest 0 (boundary_zero _) (by decide))
      exact ⟨boundary_zero _, fun _ => by omega⟩
    · have high : x ≤ 256 := lowest 256 ⟨2, by decide, by decide⟩ (by decide)
      have low : 512 ≤ x + 256 := fits
      obtain rfl : x = 256 := by omega
      exact ⟨⟨1, by decide, by decide⟩, fun _ => by omega⟩
  exact ⟨compatible, (swaps_safe_iff (doubleSectors [128, 128] doubleLayout_fits_two) rfl compatible 300).mpr
    ⟨512, ⟨⟨4, by decide, by decide⟩, ⟨2, by decide, by decide⟩⟩, by decide, aligned⟩ 300 le_rfl⟩

/-- Scratch of three smaller sectors: the first chunk starts inside a sector of the secondary slot. -/
theorem wide_scratch_splits_sector :
    bootSlotsCompatible (doubleSectors [128, 128, 128] doubleLayout_fits_three) = true ∧
      ¬SwapSafe (doubleSectors [128, 128, 128] doubleLayout_fits_three) 300 := by
  refine ⟨by decide, ?_⟩
  rintro ⟨n, returns, chunks⟩
  have ends := (lastReturns_iff (Board.sector_pos _ .primary)).mp returns
  obtain rfl : 4 = n := sectorsToSwap_eq ends
  obtain ⟨i, le, offset⟩ := (chunks 0 (1, 384) (by decide)).starts.2
  have le : i ≤ 2 := le
  have offset : sectorOff [256, 256] i = 128 := offset
  obtain rfl | rfl | rfl : i = 0 ∨ i = 1 ∨ i = 2 := by omega
  all_goals simp [sectorOff] at offset

end Adaboot.SwapScratch
