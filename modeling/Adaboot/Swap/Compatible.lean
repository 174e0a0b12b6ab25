import Adaboot.Swap.Scratch

/-!
# The compatibility scan

`boot_slots_compatible` of `swap_scratch.c` walks through both slots side by side; where both have come equally far a
group of sectors is closed, which must fit scratch. Where one slot ends in front of the other it can read behind the
table of the shorter one.
-/

namespace Adaboot.SwapScratch

open Nor

section Scan

variable (primary secondary : List Nat) (scratchSz : Nat)

/-! ### The loop with its reads -/

def SlotScan.close (s : SlotScan) : Option SlotScan :=
  if s.sz0 = s.sz1 then
    if s.sz0 > scratchSz ∨ s.sz1 > scratchSz then none
    else some { s with slotSz := s.slotSz + s.sz0, smaller := 0, sz0 := 0, sz1 := 0 }
  else some s

/-- One round; `some none` finds the slots not compatible. There is no outcome where a slot has no sector left. -/
def SlotScan.round (s : SlotScan) : Option (Option SlotScan) :=
  if s.sz0 = s.sz1 then do
    let size0 ← primary[s.i]?
    let size1 ← secondary[s.j]?
    return SlotScan.close scratchSz { s with sz0 := s.sz0 + size0, sz1 := s.sz1 + size1, i := s.i + 1, j := s.j + 1 }
  else if s.sz0 < s.sz1 then do
    -- the sector is read in front of the test
    let size0 ← primary[s.i]?
    return if s.smaller = 2 then none
      else SlotScan.close scratchSz { s with sz0 := s.sz0 + size0, smaller := 1, i := s.i + 1 }
  else do
    let size1 ← secondary[s.j]?
    return if s.smaller = 1 then none
      else SlotScan.close scratchSz { s with sz1 := s.sz1 + size1, smaller := 2, j := s.j + 1 }

def SlotScan.more (s : SlotScan) : Prop := s.i < primary.length ∨ s.j < secondary.length

/-- The loop returns from `s` with an answer, and every sector it reads is one that the slot has. -/
inductive ScanReturns : SlotScan → Bool → Prop
  | done {s} : ¬s.more primary secondary →
      ScanReturns s (s.i = primary.length ∧ s.j = secondary.length)
  | refuses {s} : s.more primary secondary → s.round primary secondary scratchSz = some none →
      ScanReturns s false
  | goesOn {s s' answer} : s.more primary secondary →
      s.round primary secondary scratchSz = some (some s') → ScanReturns s' answer →
      ScanReturns s answer

/-- `boot_slots_compatible` answers, and every sector it reads is one that the slot has. -/
def Answers (maxImgSectors : Nat) (answer : Bool) : Prop :=
  if primary.length > maxImgSectors ∨ secondary.length > maxImgSectors then answer = false
  else ScanReturns primary secondary scratchSz ⟨0, 0, 0, 0, 0, 0⟩ answer

/-! ### What the scan looks for -/

/-- Where the first sectors behind a common boundary have both ended. -/
def groupEnd (a b : Nat) : Nat := max (sectorOff primary (a + 1)) (sectorOff secondary (b + 1))

/-- The sectors from a common boundary on come to one again and do not fit scratch, or the larger of the first two ends
inside one of the other slot. -/
def GroupRefused (a b : Nat) : Prop := CommonBoundary primary secondary (groupEnd primary secondary a b) ∧
      scratchSz < groupEnd primary secondary a b - sectorOff primary a ∨
    ¬CommonBoundary primary secondary (groupEnd primary secondary a b) ∧
      groupEnd primary secondary a b < min primary.sum secondary.sum

def Refused : Prop := ∃ a b, a < primary.length ∧ b < secondary.length ∧ sectorOff primary a = sectorOff secondary b ∧
    GroupRefused primary secondary scratchSz a b

/-- The last sector of each slot begins in front of the end of the other slot. -/
def LastsOverlap : Prop := sectorOff primary (primary.length - 1) < secondary.sum ∧
    sectorOff secondary (secondary.length - 1) < primary.sum

end Scan

section Invariant

variable {primary secondary : List Nat} {scratchSz : Nat} {s t : SlotScan} {a b i j : Nat}

theorem groupEnd_comm (a b : Nat) : groupEnd primary secondary a b = groupEnd secondary primary b a := Nat.max_comm _ _

theorem groupRefused_comm (same : sectorOff primary a = sectorOff secondary b) :
    GroupRefused primary secondary scratchSz a b ↔ GroupRefused secondary primary scratchSz b a := by
  unfold GroupRefused CommonBoundary
  rw [groupEnd_comm, same, and_comm (a := Boundary primary _), Nat.min_comm]

theorem refused_comm : Refused primary secondary scratchSz ↔ Refused secondary primary scratchSz := by
  constructor
  · rintro ⟨a, b, ltA, ltB, same, refused⟩
    exact ⟨b, a, ltB, ltA, same.symm, (groupRefused_comm same).mp refused⟩
  · rintro ⟨b, a, ltB, ltA, same, refused⟩
    exact ⟨a, b, ltA, ltB, same.symm, (groupRefused_comm same).mp refused⟩

theorem lastsOverlap_comm : LastsOverlap primary secondary ↔ LastsOverlap secondary primary := and_comm

theorem groupEnd_le {x : Nat} (same : sectorOff primary a = sectorOff secondary b)
    (common : CommonBoundary primary secondary x) (behind : sectorOff primary a < x) :
    groupEnd primary secondary a b ≤ x :=
  Nat.max_le.mpr ⟨common.1.next_le behind, common.2.next_le (same ▸ behind)⟩

/-- None of the groups in front of the one that begins at `a` is refused. -/
def PassedTo (primary secondary : List Nat) (scratchSz a : Nat) : Prop :=
  ∀ a' b', a' < primary.length → b' < secondary.length → sectorOff primary a' = sectorOff secondary b' →
    sectorOff primary a' < sectorOff primary a → ¬GroupRefused primary secondary scratchSz a' b'

theorem PassedTo.comm (same : sectorOff primary a = sectorOff secondary b)
    (passed : PassedTo primary secondary scratchSz a) : PassedTo secondary primary scratchSz b := by
  intro b' a' ltB ltA same' before refused
  exact passed a' b' ltA ltB same'.symm (by omega) ((groupRefused_comm same'.symm).mpr refused)

theorem PassedTo.not_refused (passed : PassedTo primary secondary scratchSz primary.length)
    (positive : ∀ size ∈ primary, 0 < size) : ¬Refused primary secondary scratchSz := by
  rintro ⟨a', b', ltA, ltB, same, refused⟩
  exact passed a' b' ltA ltB same (sectorOff_lt positive ltA le_rfl) refused

/-- A group that ends in no common boundary and not in front of the end of the shorter slot is the last one. -/
theorem PassedTo.not_refused_open (passed : PassedTo primary secondary scratchSz a)
    (positive : ∀ size ∈ primary, 0 < size) (positive' : ∀ size ∈ secondary, 0 < size)
    (leA : a ≤ primary.length) (leB : b ≤ secondary.length) (same : sectorOff primary a = sectorOff secondary b)
    (apart : ¬CommonBoundary primary secondary (groupEnd primary secondary a b))
    (long : min primary.sum secondary.sum ≤ groupEnd primary secondary a b) : ¬Refused primary secondary scratchSz := by
  rintro ⟨a', b', ltA, ltB, same', refused⟩
  rcases Nat.lt_trichotomy (sectorOff primary a') (sectorOff primary a) with before | here | behind
  · exact passed a' b' ltA ltB same' before refused
  · obtain rfl := sectorOff_inj positive ltA.le leA here
    obtain rfl := sectorOff_inj positive' ltB.le leB (by omega)
    rcases refused with ⟨common, -⟩ | ⟨-, short⟩
    · exact apart common
    · omega
  · -- a later group would begin behind the end of the shorter slot
    have common : CommonBoundary primary secondary (sectorOff primary a') :=
      ⟨boundary_sectorOff ltA.le, same' ▸ boundary_sectorOff ltB.le⟩
    have next := groupEnd_le same common behind
    have inside := sectorOff_lt positive ltA le_rfl
    have inside' := sectorOff_lt positive' ltB le_rfl
    rw [sectorOff_length] at inside inside'
    omega

theorem groupEnd_inside (first : sectorOff secondary (b + 1) ≤ sectorOff secondary j)
    (low : sectorOff secondary j < sectorOff primary (a + 1))
    (high : sectorOff primary (a + 1) < sectorOff secondary (j + 1)) :
    groupEnd primary secondary a b = sectorOff primary (a + 1) ∧
      ¬CommonBoundary primary secondary (groupEnd primary secondary a b) := by
  have last : groupEnd primary secondary a b = sectorOff primary (a + 1) := Nat.max_eq_left (by omega)
  refine ⟨last, fun common => ?_⟩
  rw [last] at common
  have := common.2.le_previous high
  omega

/-- One sector of each slot, or one of the slot whose sectors are larger and several of the other. -/
inductive Phase (primary secondary : List Nat) (a b : Nat) (t : SlotScan) : Prop
  | first : t.i = a + 1 → t.j = b + 1 → t.smaller = 0 → Phase primary secondary a b t
  | primarySmaller {i : Nat} : t.i = i + 1 → a + 1 ≤ i → t.j = b + 1 → t.smaller = 1 →
      sectorOff primary i < sectorOff secondary (b + 1) → Phase primary secondary a b t
  | secondarySmaller {j : Nat} : t.j = j + 1 → b + 1 ≤ j → t.i = a + 1 → t.smaller = 2 →
      sectorOff secondary j < sectorOff primary (a + 1) → Phase primary secondary a b t

/-- The scan in a group that begins at `a` and `b`, behind the sectors that a round adds. -/
structure Grown (primary secondary : List Nat) (scratchSz a b : Nat) (t : SlotScan) : Prop where
  leI : t.i ≤ primary.length
  leJ : t.j ≤ secondary.length
  same : sectorOff primary a = sectorOff secondary b
  size0 : sectorOff primary t.i = sectorOff primary a + t.sz0
  size1 : sectorOff secondary t.j = sectorOff primary a + t.sz1
  passed : PassedTo primary secondary scratchSz a
  phase : Phase primary secondary a b t

/-- The scan between two rounds: at the start of a group or inside one. -/
inductive Scanning (primary secondary : List Nat) (scratchSz : Nat) (s : SlotScan) : Prop
  | start : s.i ≤ primary.length → s.j ≤ secondary.length → sectorOff primary s.i = sectorOff secondary s.j →
      s.sz0 = 0 → s.sz1 = 0 → s.smaller = 0 → PassedTo primary secondary scratchSz s.i →
      Scanning primary secondary scratchSz s
  | inside {a b : Nat} : Grown primary secondary scratchSz a b s → s.sz0 ≠ s.sz1 → Scanning primary secondary scratchSz s

theorem Phase.lt (phase : Phase primary secondary a b t) : a + 1 ≤ t.i ∧ b + 1 ≤ t.j := by
  cases phase with
  | first i j => omega
  | primarySmaller i le j => omega
  | secondarySmaller j le i => omega

def SlotScan.swap (s : SlotScan) : SlotScan where
  i := s.j
  j := s.i
  sz0 := s.sz1
  sz1 := s.sz0
  smaller := if s.smaller = 1 then 2 else if s.smaller = 2 then 1 else s.smaller
  slotSz := s.slotSz

theorem Phase.comm (phase : Phase primary secondary a b s) : Phase secondary primary b a s.swap := by
  cases phase with
  | first i j smaller => exact .first j i (by simp [SlotScan.swap, smaller])
  | primarySmaller i le j smaller low => exact .secondarySmaller i le j (by simp [SlotScan.swap, smaller]) low
  | secondarySmaller j le i smaller low => exact .primarySmaller j le i (by simp [SlotScan.swap, smaller]) low

theorem Grown.comm (grown : Grown primary secondary scratchSz a b s) :
    Grown secondary primary scratchSz b a s.swap where
  leI := grown.leJ
  leJ := grown.leI
  same := grown.same.symm
  size0 := grown.same ▸ grown.size1
  size1 := grown.same ▸ grown.size0
  passed := grown.passed.comm grown.same
  phase := grown.phase.comm

theorem not_lastsOverlap (left : j < secondary.length) (beyond : primary.sum ≤ sectorOff secondary j) :
    ¬LastsOverlap primary secondary := by
  rintro ⟨-, overlap⟩
  have := sectorOff_mono secondary (show j ≤ secondary.length - 1 by omega)
  omega

theorem Scanning.le (scanning : Scanning primary secondary scratchSz s) :
    s.i ≤ primary.length ∧ s.j ≤ secondary.length := by
  cases scanning with
  | start leI leJ => exact ⟨leI, leJ⟩
  | inside grown => exact ⟨grown.leI, grown.leJ⟩

section Close

variable (positive : ∀ size ∈ primary, 0 < size) (positive' : ∀ size ∈ secondary, 0 < size)
include positive positive'

omit positive in
theorem Grown.halves (grown : Grown primary secondary scratchSz a b t) :
    (∃ i, t.i = i + 1 ∧ t.j = b + 1 ∧ a ≤ i ∧ sectorOff primary i < sectorOff secondary (b + 1)) ∨
      ∃ j, t.j = j + 1 ∧ t.i = a + 1 ∧ b ≤ j ∧ sectorOff secondary j < sectorOff primary (a + 1) := by
  cases grown.phase with
  | first i j =>
    refine .inl ⟨a, i, j, Nat.le_refl a, ?_⟩
    rw [grown.same]
    exact sectorOff_lt positive' (Nat.lt_succ_self b) (j ▸ grown.leJ)
  | primarySmaller i le j _ low => exact .inl ⟨_, i, j, Nat.le_of_succ_le le, low⟩
  | secondarySmaller j le i _ low => exact .inr ⟨_, j, i, Nat.le_of_succ_le le, low⟩

omit positive in
theorem Grown.groupEnd_eq (grown : Grown primary secondary scratchSz a b t) (agree : t.sz0 = t.sz1) :
    groupEnd primary secondary a b = sectorOff primary t.i := by
  have size0 := grown.size0
  have size1 := grown.size1
  have next0 := sectorOff_mono primary grown.phase.lt.1
  have next1 := sectorOff_mono secondary grown.phase.lt.2
  unfold groupEnd
  rcases grown.halves positive' with ⟨i, iEq, jEq, -⟩ | ⟨j, jEq, iEq, -⟩
  · rw [jEq] at size1 next1
    omega
  · rw [iEq] at size0 ⊢
    omega

theorem Grown.passed_end (grown : Grown primary secondary scratchSz a b t) (agree : t.sz0 = t.sz1)
    (fits : t.sz0 ≤ scratchSz) : PassedTo primary secondary scratchSz t.i := by
  have last := grown.groupEnd_eq positive' agree
  have size0 := grown.size0
  have size1 := grown.size1
  have common : CommonBoundary primary secondary (groupEnd primary secondary a b) := by
    rw [last]
    exact ⟨boundary_sectorOff grown.leI, (show sectorOff secondary t.j = sectorOff primary t.i by omega) ▸
      boundary_sectorOff grown.leJ⟩
  have leA : a ≤ primary.length := by
    have := grown.phase.lt.1
    have := grown.leI
    omega
  have leB : b ≤ secondary.length := by
    have := grown.phase.lt.2
    have := grown.leJ
    omega
  intro a' b' ltA ltB same' before refused
  rcases Nat.lt_trichotomy (sectorOff primary a') (sectorOff primary a) with front | here | behind
  · exact grown.passed a' b' ltA ltB same' front refused
  · obtain rfl := sectorOff_inj positive ltA.le leA here
    obtain rfl := sectorOff_inj positive' ltB.le leB (by have := grown.same; omega)
    rcases refused with ⟨-, large⟩ | ⟨apart, -⟩
    · omega
    · exact apart common
  · have common' : CommonBoundary primary secondary (sectorOff primary a') :=
      ⟨boundary_sectorOff ltA.le, same' ▸ boundary_sectorOff ltB.le⟩
    have := groupEnd_le grown.same common' behind
    omega

theorem Grown.close (grown : Grown primary secondary scratchSz a b t) :
    match t.close scratchSz with
    | none => Refused primary secondary scratchSz
    | some s' => Scanning primary secondary scratchSz s' ∧ s'.i = t.i ∧ s'.j = t.j := by
  have size0 := grown.size0
  have size1 := grown.size1
  unfold SlotScan.close
  by_cases agree : t.sz0 = t.sz1
  · have last := grown.groupEnd_eq positive' agree
    rw [if_pos agree]
    by_cases large : t.sz0 > scratchSz ∨ t.sz1 > scratchSz
    · rw [if_pos large]
      have reached := grown.phase.lt
      have leI := grown.leI
      have leJ := grown.leJ
      refine ⟨a, b, by omega, by omega, grown.same, Or.inl ⟨?_, by omega⟩⟩
      rw [last]
      exact ⟨boundary_sectorOff grown.leI, (show sectorOff secondary t.j = sectorOff primary t.i by omega) ▸
        boundary_sectorOff grown.leJ⟩
    · rw [if_neg large]
      have passed := grown.passed_end positive positive' agree (by omega)
      exact ⟨.start grown.leI grown.leJ (by simp only; omega) rfl rfl rfl passed, rfl, rfl⟩
  · rw [if_neg agree]
    exact ⟨.inside grown agree, rfl, rfl⟩

/-- A round adds the next sector, or refuses it for a reason, or the primary slot has no sector left. -/
theorem Grown.primary_behind (grown : Grown primary secondary scratchSz a b s) (behind : s.sz0 < s.sz1) :
    (s.i < primary.length ∧ s.smaller ≠ 2 ∧ Grown primary secondary scratchSz a b
          { s with sz0 := s.sz0 + sectorSize primary s.i, smaller := 1, i := s.i + 1 }) ∨
      (s.i < primary.length ∧ s.smaller = 2 ∧ Refused primary secondary scratchSz) ∨
      (s.i = primary.length ∧ primary.sum < sectorOff secondary s.j ∧ ¬Refused primary secondary scratchSz) := by
  have size0 := grown.size0
  have size1 := grown.size1
  have reached := grown.phase.lt
  have leI := grown.leI
  have leJ := grown.leJ
  by_cases left : s.i < primary.length
  · have next := sectorOff_succ left
    by_cases turned : s.smaller = 2
    · -- the larger sector of the primary slot has ended inside one of the secondary slot
      right; left
      refine ⟨left, turned, ?_⟩
      cases grown.phase with
      | first _ _ smaller | primarySmaller _ _ _ smaller => omega
      | @secondarySmaller j jEq le iEq smaller low =>
        rw [iEq] at size0 left
        rw [jEq] at size1 leJ
        obtain ⟨last, apart⟩ := groupEnd_inside (sectorOff_mono secondary le) low (by omega)
        refine ⟨a, b, by omega, by omega, grown.same, Or.inr ⟨apart, ?_⟩⟩
        have inside := sectorOff_lt positive left le_rfl
        have inside' := sectorOff_le_sum secondary (j + 1)
        rw [sectorOff_length] at inside
        omega
    · left
      refine ⟨left, turned, left, leJ, grown.same, ?_, size1, grown.passed, ?_⟩
      · simp only
        omega
      · cases grown.phase with
        | first iEq jEq _ | primarySmaller iEq _ jEq _ => exact .primarySmaller rfl reached.1 jEq rfl (by rw [← jEq]; omega)
        | secondarySmaller _ _ _ smaller => exact absurd smaller turned
  · right; right
    have ended : s.i = primary.length := by omega
    rw [ended, sectorOff_length] at size0
    refine ⟨ended, by omega, ?_⟩
    have apart : ¬CommonBoundary primary secondary (groupEnd primary secondary a b) ∧
        primary.sum ≤ groupEnd primary secondary a b := by
      cases grown.phase with
      | first _ jEq _ | primarySmaller _ _ jEq _ =>
        rw [jEq] at size1
        have le : sectorOff secondary (b + 1) ≤ groupEnd primary secondary a b := Nat.le_max_right _ _
        exact ⟨fun common => by have := common.1.le_sum; omega, by omega⟩
      | @secondarySmaller j jEq le iEq smaller low =>
        rw [iEq] at ended
        rw [jEq] at size1
        have inside : sectorOff primary (a + 1) < sectorOff secondary (j + 1) := by
          rw [ended, sectorOff_length]
          omega
        obtain ⟨last, apart⟩ := groupEnd_inside (sectorOff_mono secondary le) low inside
        rw [ended, sectorOff_length] at last
        exact ⟨apart, by omega⟩
    exact grown.passed.not_refused_open positive positive' (by omega) (by omega) grown.same apart.1
      (Nat.le_trans (Nat.min_le_left _ _) apart.2)

theorem Grown.secondary_behind (grown : Grown primary secondary scratchSz a b s) (behind : s.sz1 < s.sz0) :
    (s.j < secondary.length ∧ s.smaller ≠ 1 ∧ Grown primary secondary scratchSz a b
          { s with sz1 := s.sz1 + sectorSize secondary s.j, smaller := 2, j := s.j + 1 }) ∨
      (s.j < secondary.length ∧ s.smaller = 1 ∧ Refused primary secondary scratchSz) ∨
      (s.j = secondary.length ∧ secondary.sum < sectorOff primary s.i ∧ ¬Refused primary secondary scratchSz) := by
  have turned : s.swap.smaller = 2 ↔ s.smaller = 1 := by
    simp only [SlotScan.swap]
    split
    next one => exact iff_of_true rfl one
    next other => split <;> omega
  rw [refused_comm]
  rcases grown.comm.primary_behind positive' positive behind with
    ⟨left, straight, grown'⟩ | ⟨left, turn, refused⟩ | ⟨ended, beyond, passed⟩
  · exact .inl ⟨left, fun turn => straight (turned.mpr turn), grown'.comm⟩
  · exact .inr (.inl ⟨left, turned.mp turn, refused⟩)
  · exact .inr (.inr ⟨ended, beyond, passed⟩)

/-- What a round does between two rounds: it reads behind the end of a slot, refuses the slots, or goes on. -/
def RoundSpec (primary secondary : List Nat) (scratchSz : Nat) (s : SlotScan) : Option (Option SlotScan) → Prop
  | none => ¬(LastsOverlap primary secondary ∨ Refused primary secondary scratchSz)
  | some none => Refused primary secondary scratchSz
  | some (some s') => Scanning primary secondary scratchSz s' ∧ s.i + s.j < s'.i + s'.j

theorem Grown.roundSpec_close (grown : Grown primary secondary scratchSz a b t) (further : s.i + s.j < t.i + t.j) :
    RoundSpec primary secondary scratchSz s (some (t.close scratchSz)) := by
  have spec := grown.close positive positive'
  cases closed : t.close scratchSz with
  | none =>
    rw [closed] at spec
    exact spec
  | some s' =>
    rw [closed] at spec
    obtain ⟨scanning, iEq, jEq⟩ := spec
    exact ⟨scanning, by omega⟩

theorem Scanning.round_start (leI : s.i ≤ primary.length) (leJ : s.j ≤ secondary.length)
    (same : sectorOff primary s.i = sectorOff secondary s.j) (zero0 : s.sz0 = 0) (zero1 : s.sz1 = 0)
    (smaller : s.smaller = 0) (passed : PassedTo primary secondary scratchSz s.i) (more : s.more primary secondary) :
    RoundSpec primary secondary scratchSz s (s.round primary secondary scratchSz) := by
  rw [SlotScan.round, if_pos (by omega)]
  by_cases left0 : s.i < primary.length
  · rw [getElem?_eq_sectorSize left0]
    by_cases left1 : s.j < secondary.length
    · rw [getElem?_eq_sectorSize left1]
      have next0 := sectorOff_succ left0
      have next1 := sectorOff_succ left1
      have grown : Grown primary secondary scratchSz s.i s.j
          { s with sz0 := s.sz0 + sectorSize primary s.i, sz1 := s.sz1 + sectorSize secondary s.j,
                   i := s.i + 1, j := s.j + 1 } :=
        ⟨left0, left1, same, by simp only; omega, by simp only; omega, passed, .first rfl rfl smaller⟩
      exact grown.roundSpec_close positive positive' (by simp only; omega)
    · -- the secondary slot has ended at the start of the group
      have ended : s.j = secondary.length := by omega
      have none1 : secondary[s.j]? = none := List.getElem?_eq_none (by omega)
      rw [none1]
      have passed' := passed.comm same
      rw [ended] at passed'
      rintro (overlap | refused)
      · rw [ended, sectorOff_length] at same
        exact not_lastsOverlap left0 same.symm.le (lastsOverlap_comm.mp overlap)
      · exact passed'.not_refused positive' (refused_comm.mp refused)
  · have ended : s.i = primary.length := by omega
    have none0 : primary[s.i]? = none := List.getElem?_eq_none (by omega)
    rw [none0]
    have left1 : s.j < secondary.length := more.resolve_left left0
    rw [ended] at passed
    rw [ended, sectorOff_length] at same
    rintro (overlap | refused)
    · exact not_lastsOverlap left1 same.le overlap
    · exact passed.not_refused positive refused

theorem Grown.round (grown : Grown primary secondary scratchSz a b s) (differ : s.sz0 ≠ s.sz1)
    (more : s.more primary secondary) :
    RoundSpec primary secondary scratchSz s (s.round primary secondary scratchSz) := by
  rw [SlotScan.round, if_neg differ]
  by_cases behind : s.sz0 < s.sz1
  · rw [if_pos behind]
    rcases grown.primary_behind positive positive' behind with
      ⟨left, straight, grown'⟩ | ⟨left, turn, refused⟩ | ⟨ended, beyond, passed⟩
    · rw [getElem?_eq_sectorSize left]
      have spec := grown'.roundSpec_close (s := s) positive positive' (by simp only; omega)
      simpa [straight] using spec
    · rw [getElem?_eq_sectorSize left]
      simpa [turn, RoundSpec] using refused
    · have read : primary[s.i]? = none := List.getElem?_eq_none (by omega)
      rw [read]
      have left : s.j < secondary.length := more.resolve_left (by omega)
      rintro (overlap | refused)
      · exact not_lastsOverlap left beyond.le overlap
      · exact passed refused
  · rw [if_neg behind]
    rcases grown.secondary_behind positive positive' (by omega) with
      ⟨left, straight, grown'⟩ | ⟨left, turn, refused⟩ | ⟨ended, beyond, passed⟩
    · rw [getElem?_eq_sectorSize left]
      have spec := grown'.roundSpec_close (s := s) positive positive' (by simp only; omega)
      simpa [straight] using spec
    · rw [getElem?_eq_sectorSize left]
      simpa [turn, RoundSpec] using refused
    · have read : secondary[s.j]? = none := List.getElem?_eq_none (by omega)
      rw [read]
      have left : s.i < primary.length := more.resolve_right (by omega)
      rintro (overlap | refused)
      · exact not_lastsOverlap left beyond.le (lastsOverlap_comm.mp overlap)
      · exact passed refused

theorem Scanning.round (scanning : Scanning primary secondary scratchSz s) (more : s.more primary secondary) :
    RoundSpec primary secondary scratchSz s (s.round primary secondary scratchSz) := by
  cases scanning with
  | start leI leJ same zero0 zero1 smaller passed =>
    exact Scanning.round_start positive positive' leI leJ same zero0 zero1 smaller passed more
  | inside grown differ => exact grown.round positive positive' differ more

theorem Scanning.lastsOverlap (scanning : Scanning primary secondary scratchSz s)
    (some0 : primary ≠ []) (some1 : secondary ≠ []) (ended : ¬s.more primary secondary) :
    LastsOverlap primary secondary := by
  have pos0 := List.length_pos_iff.mpr some0
  have pos1 := List.length_pos_iff.mpr some1
  have last0 := sectorOff_lt positive (show primary.length - 1 < primary.length by omega) le_rfl
  have last1 := sectorOff_lt positive' (show secondary.length - 1 < secondary.length by omega) le_rfl
  rw [sectorOff_length] at last0 last1
  unfold SlotScan.more at ended
  cases scanning with
  | start leI leJ same =>
    rw [show s.i = primary.length by omega, show s.j = secondary.length by omega, sectorOff_length,
      sectorOff_length] at same
    exact ⟨by omega, by omega⟩
  | @inside a b grown =>
    have iEq : s.i = primary.length := by
      have := grown.leI
      omega
    have jEq : s.j = secondary.length := by
      have := grown.leJ
      omega
    have same := grown.same
    rcases grown.halves positive' with ⟨i, iEq', jEq', le, low⟩ | ⟨j, jEq', iEq', le, low⟩
    · rw [show b + 1 = secondary.length by omega, sectorOff_length] at low
      have behind := sectorOff_lt positive (show a < primary.length by omega) le_rfl
      rw [sectorOff_length] at behind
      constructor
      · rwa [show primary.length - 1 = i by omega]
      · rw [show secondary.length - 1 = b by omega]
        omega
    · rw [show a + 1 = primary.length by omega, sectorOff_length] at low
      have behind := sectorOff_lt positive' (show b < secondary.length by omega) le_rfl
      rw [sectorOff_length] at behind
      constructor
      · rw [show primary.length - 1 = a by omega]
        omega
      · rwa [show secondary.length - 1 = j by omega]

/-- No read behind the end of a slot, where the last sectors overlap or some group is refused. -/
theorem Scanning.returns_iff (some0 : primary ≠ []) (some1 : secondary ≠ []) (s : SlotScan)
    (scanning : Scanning primary secondary scratchSz s) : (∃ answer, ScanReturns primary secondary scratchSz s answer) ↔
      LastsOverlap primary secondary ∨ Refused primary secondary scratchSz := by
  -- every round that goes on leaves fewer sectors
  induction left : primary.length + secondary.length - (s.i + s.j) using Nat.strong_induction_on generalizing s with
  | _ n ih =>
    by_cases more : s.more primary secondary
    · have spec := scanning.round positive positive' more
      cases round : s.round primary secondary scratchSz with
      | none =>
        rw [round] at spec
        refine iff_of_false ?_ spec
        rintro ⟨answer, returns⟩
        cases returns with
        | done ended => exact ended more
        | refuses _ read | goesOn _ read => simp [round] at read
      | some next =>
        rw [round] at spec
        cases next with
        | none => exact iff_of_true ⟨false, .refuses more round⟩ (.inr spec)
        | some s' =>
          obtain ⟨scanning', further⟩ := spec
          have le := scanning'.le
          rw [← ih _ (by omega) s' scanning' rfl]
          constructor
          · rintro ⟨answer, returns⟩
            cases returns with
            | done ended => exact absurd more ended
            | refuses _ read => simp [round] at read
            | goesOn _ read rest =>
              obtain rfl : s' = _ := by simpa [round] using read
              exact ⟨answer, rest⟩
          · rintro ⟨answer, rest⟩
            exact ⟨answer, .goesOn more round rest⟩
    · exact iff_of_true ⟨_, .done more⟩ (.inl (scanning.lastsOverlap positive positive' some0 some1 more))

theorem Scanning.not_refused (scanning : Scanning primary secondary scratchSz s) (iEq : s.i = primary.length)
    (jEq : s.j = secondary.length) : ¬Refused primary secondary scratchSz := by
  cases scanning with
  | start _ _ _ _ _ _ passed =>
    rw [iEq] at passed
    exact passed.not_refused positive
  | @inside a b grown differ =>
    have size0 := grown.size0
    have size1 := grown.size1
    rw [iEq, sectorOff_length] at size0
    rw [jEq, sectorOff_length] at size1
    have reached := grown.phase.lt
    rcases grown.halves positive' with ⟨k, iEq', jEq', -, low⟩ | ⟨k, jEq', iEq', -, low⟩
    · have last : secondary.sum ≤ groupEnd primary secondary a b := by
        rw [groupEnd, show b + 1 = secondary.length by omega, sectorOff_length secondary]
        exact Nat.le_max_right _ _
      rw [show b + 1 = secondary.length by omega, sectorOff_length] at low
      refine grown.passed.not_refused_open positive positive' (by omega) (by omega) grown.same (fun common => ?_) (by omega)
      have le0 := common.1.le_sum
      have le1 := common.2.le_sum
      have behind := common.1.next_le (show sectorOff primary k < _ by omega)
      rw [show k + 1 = primary.length by omega, sectorOff_length] at behind
      omega
    · have last : primary.sum ≤ groupEnd primary secondary a b := by
        rw [groupEnd, show a + 1 = primary.length by omega, sectorOff_length primary]
        exact Nat.le_max_left _ _
      rw [show a + 1 = primary.length by omega, sectorOff_length] at low
      refine grown.passed.not_refused_open positive positive' (by omega) (by omega) grown.same (fun common => ?_) (by omega)
      have le0 := common.1.le_sum
      have le1 := common.2.le_sum
      have behind := common.2.next_le (show sectorOff secondary k < _ by omega)
      rw [show k + 1 = secondary.length by omega, sectorOff_length] at behind
      omega

theorem ScanReturns.not_refused {answer : Bool} (returns : ScanReturns primary secondary scratchSz s answer)
    (scanning : Scanning primary secondary scratchSz s) (accepted : answer = true) :
    ¬Refused primary secondary scratchSz := by
  induction returns with
  | done ended =>
    obtain ⟨iEq, jEq⟩ := of_decide_eq_true accepted
    exact scanning.not_refused positive positive' iEq jEq
  | refuses => exact absurd accepted Bool.false_ne_true
  | goesOn more round _ ih =>
    have spec := scanning.round positive positive' more
    rw [round] at spec
    exact ih spec.1 accepted

end Close

theorem scanning_start (primary secondary : List Nat) (scratchSz : Nat) :
    Scanning primary secondary scratchSz ⟨0, 0, 0, 0, 0, 0⟩ := by
  refine .start (Nat.zero_le _) (Nat.zero_le _) (by simp) rfl rfl rfl ?_
  intro a' b' _ _ _ before
  simp at before

end Invariant

/-! ### The scan on a board -/

section Board

variable {bd : Board} {s s' : SlotScan} {next : Option SlotScan}

theorem step_of_round (mode : bd.mode = .scratch)
    (round : s.round (bd.layout .primary) (bd.layout .secondary) (bd.faSize .scratch) = some next) :
    s.step bd = next := by
  have size (a : Area) {k size : Nat} (read : (bd.layout a)[k]? = some size) : bd.sectorSize a k = size := by
    simp [Board.sectorSize, sectorSize, List.getD, read]
  have notOverwrite : bd.mode.isOverwrite = false := by rw [mode]; rfl
  have closes (t : SlotScan) :
      (if ¬bd.mode.isOverwrite ∧ t.sz0 = t.sz1 then
        if t.sz0 > bd.faSize .scratch ∨ t.sz1 > bd.faSize .scratch then none
        else some { t with slotSz := t.slotSz + t.sz0, smaller := 0, sz0 := 0, sz1 := 0 }
      else some t) = t.close (bd.faSize .scratch) := by
    simp [SlotScan.close, notOverwrite]
  unfold SlotScan.round at round
  simp only [SlotScan.step, closes]
  split at round
  next agree =>
    obtain ⟨size0, read0, round⟩ := Option.bind_eq_some_iff.mp round
    obtain ⟨size1, read1, round⟩ := Option.bind_eq_some_iff.mp round
    rw [if_pos agree, size _ read0, size _ read1]
    exact Option.some.inj round
  next differ =>
    rw [if_neg differ]
    split at round
    next behind =>
      obtain ⟨size0, read0, round⟩ := Option.bind_eq_some_iff.mp round
      rw [if_pos behind, size _ read0, ← Option.some.inj round]
      split <;> rfl
    next ahead =>
      obtain ⟨size1, read1, round⟩ := Option.bind_eq_some_iff.mp round
      rw [if_neg ahead, size _ read1, ← Option.some.inj round]
      split <;> rfl

theorem slotScanLoop_more (more : s.more (bd.layout .primary) (bd.layout .secondary)) (fuel : Nat) :
    slotScanLoop bd (fuel + 1) s = (s.step bd).bind (slotScanLoop bd fuel) := if_pos more

theorem slotScanLoop_ended (ended : ¬s.more (bd.layout .primary) (bd.layout .secondary)) (fuel : Nat) :
    slotScanLoop bd (fuel + 1) s = some s := if_neg ended

variable {answer : Bool} {fuel : Nat}

/-- Where the reads of the scan stay inside the slots, its answer is that of the loader's scan. -/
theorem ScanReturns.slotScanLoop (mode : bd.mode = .scratch)
    (returns : ScanReturns (bd.layout .primary) (bd.layout .secondary) (bd.faSize .scratch) s answer)
    (scanning : Scanning (bd.layout .primary) (bd.layout .secondary) (bd.faSize .scratch) s)
    (enough : bd.numSectors .primary + bd.numSectors .secondary < fuel + (s.i + s.j)) :
    ((slotScanLoop bd fuel s).any fun s => s.i = bd.numSectors .primary ∧ s.j = bd.numSectors .secondary) = answer := by
  induction returns generalizing fuel with
  | @done s ended =>
    cases fuel with
    | zero =>
      have le := scanning.le
      simp only [Board.numSectors] at enough
      omega
    | succ fuel =>
      rw [slotScanLoop_ended ended]
      rfl
  | @refuses s more round =>
    cases fuel with
    | zero => rfl
    | succ fuel =>
      rw [slotScanLoop_more more, step_of_round mode round]
      rfl
  | @goesOn s s' answer more round _ ih =>
    have spec := scanning.round (bd.sector_pos .primary) (bd.sector_pos .secondary) more
    rw [round] at spec
    obtain ⟨scanning', further⟩ := spec
    cases fuel with
    | zero =>
      have le := scanning.le
      simp only [Board.numSectors] at enough
      omega
    | succ fuel =>
      rw [slotScanLoop_more more, step_of_round mode round]
      exact ih scanning' (by omega)

/-- `boot_slots_compatible` gives the answer of the scan where its reads stay inside the slots. -/
theorem Answers.bootSlotsCompatible (mode : bd.mode = .scratch)
    (answers : Answers (bd.layout .primary) (bd.layout .secondary) (bd.faSize .scratch) bd.maxImgSectors answer) :
    bootSlotsCompatible bd = answer := by
  have few0 : bd.numSectors .primary ≤ bd.maxImgSectors := bd.sectors_le .primary
  have few1 : bd.numSectors .secondary ≤ bd.maxImgSectors := bd.sectors_le .secondary
  have few : ¬((bd.layout .primary).length > bd.maxImgSectors ∨ (bd.layout .secondary).length > bd.maxImgSectors) := by
    simp only [Board.numSectors] at few0 few1
    omega
  rw [Answers, if_neg few] at answers
  have scan := answers.slotScanLoop mode (scanning_start _ _ _)
    (show bd.numSectors .primary + bd.numSectors .secondary < bd.numSectors .primary + bd.numSectors .secondary + 1 + (0 + 0)
      by omega)
  simp only [SwapScratch.bootSlotsCompatible, few0, few1, true_and]
  rw [← scan]
  exact Bool.eq_iff_iff.mpr decide_eq_true_iff

theorem step_indices (step : s.step bd = some s') :
    s'.i = (if s.sz0 ≤ s.sz1 then s.i + 1 else s.i) ∧ s'.j = (if s.sz1 ≤ s.sz0 then s.j + 1 else s.j) := by
  obtain ⟨t, taken, closed⟩ := Option.bind_eq_some_iff.mp step
  have kept : s'.i = t.i ∧ s'.j = t.j := by
    split at closed
    · split at closed
      · simp at closed
      · cases closed
        exact ⟨rfl, rfl⟩
    · cases closed
      exact ⟨rfl, rfl⟩
  rw [kept.1, kept.2]
  split at taken
  next agree =>
    cases taken
    exact ⟨(if_pos (by omega)).symm, (if_pos (by omega)).symm⟩
  next differ =>
    split at taken
    next behind =>
      split at taken
      · simp at taken
      · cases taken
        exact ⟨(if_pos (by omega)).symm, (if_neg (by omega)).symm⟩
    next ahead =>
      split at taken
      · simp at taken
      · cases taken
        exact ⟨(if_neg (by omega)).symm, (if_pos (by omega)).symm⟩

theorem slotScanLoop_le (scan : slotScanLoop bd fuel s = some s') : s.i ≤ s'.i ∧ s.j ≤ s'.j := by
  induction fuel generalizing s with
  | zero => simp [slotScanLoop] at scan
  | succ fuel ih =>
    rw [slotScanLoop] at scan
    split at scan
    next =>
      obtain ⟨t, step, rest⟩ := Option.bind_eq_some_iff.mp scan
      obtain ⟨iEq, jEq⟩ := step_indices step
      have later := ih rest
      split at iEq <;> split at jEq <;> omega
    next =>
      cases scan
      exact ⟨le_rfl, le_rfl⟩

theorem beyond_of_round (round : s.round (bd.layout .primary) (bd.layout .secondary) (bd.faSize .scratch) = none)
    (step : s.step bd = some s') : bd.numSectors .primary < s'.i ∨ bd.numSectors .secondary < s'.j := by
  obtain ⟨iEq, jEq⟩ := step_indices step
  have ended (a : Area) {k : Nat} (read : (bd.layout a)[k]? = none) : bd.numSectors a ≤ k :=
    List.getElem?_eq_none_iff.mp read
  unfold SlotScan.round at round
  split at round
  next agree =>
    rw [if_pos (by omega)] at iEq jEq
    cases read0 : (bd.layout .primary)[s.i]? with
    | none =>
      have := ended .primary read0
      omega
    | some size0 =>
      cases read1 : (bd.layout .secondary)[s.j]? with
      | none =>
        have := ended .secondary read1
        omega
      | some size1 => simp [read0, read1] at round
  next differ =>
    split at round
    next behind =>
      rw [if_pos (by omega)] at iEq
      cases read0 : (bd.layout .primary)[s.i]? with
      | none =>
        have := ended .primary read0
        omega
      | some size0 => simp [read0] at round
    next ahead =>
      rw [if_pos (by omega)] at jEq
      cases read1 : (bd.layout .secondary)[s.j]? with
      | none =>
        have := ended .secondary read1
        omega
      | some size1 => simp [read1] at round

/-- Whatever the scan reads behind the end of a slot, it accepts only slots for which it reads nothing there. -/
theorem scanReturns_of_slotScanLoop (mode : bd.mode = .scratch)
    (scan : slotScanLoop bd fuel s = some s') (iEq : s'.i = bd.numSectors .primary)
    (jEq : s'.j = bd.numSectors .secondary) :
    ScanReturns (bd.layout .primary) (bd.layout .secondary) (bd.faSize .scratch) s true := by
  induction fuel generalizing s with
  | zero => simp [slotScanLoop] at scan
  | succ fuel ih =>
    by_cases more : s.more (bd.layout .primary) (bd.layout .secondary)
    · rw [slotScanLoop_more more] at scan
      obtain ⟨t, step, rest⟩ := Option.bind_eq_some_iff.mp scan
      cases round : s.round (bd.layout .primary) (bd.layout .secondary) (bd.faSize .scratch) with
      | none =>
        have beyond := beyond_of_round round step
        have later := slotScanLoop_le rest
        omega
      | some next =>
        have same := step_of_round mode round
        rw [step] at same
        rw [← same] at round
        exact .goesOn more round (ih rest)
    · rw [slotScanLoop_ended more] at scan
      obtain rfl := Option.some.inj scan
      have done : ScanReturns (bd.layout .primary) (bd.layout .secondary) (bd.faSize .scratch) s _ := .done more
      rwa [decide_eq_true (show s.i = (bd.layout .primary).length ∧ s.j = (bd.layout .secondary).length
        from ⟨iEq, jEq⟩)] at done

theorem not_refused_of_compatible (mode : bd.mode = .scratch) (compatible : bootSlotsCompatible bd = true) :
    ¬Refused (bd.layout .primary) (bd.layout .secondary) (bd.faSize .scratch) := by
  simp only [SwapScratch.bootSlotsCompatible, decide_eq_true_eq] at compatible
  obtain ⟨s', scan, ended⟩ := (Option.any_eq_true _ _).mp compatible.2.2
  obtain ⟨iEq, jEq⟩ := of_decide_eq_true ended
  have returns := scanReturns_of_slotScanLoop mode scan iEq jEq
  exact returns.not_refused (bd.sector_pos .primary) (bd.sector_pos .secondary) (scanning_start _ _ _) rfl

end Board

/-! ### The reads of the scan -/

/-- Only sectors that the slots have are read for exactly those layouts whose last sectors overlap, or of which some
group is refused, or that have more sectors than the table. -/
theorem slots_compatible_reads_iff (primary secondary : List Nat) (scratchSz maxImgSectors : Nat)
    (some0 : primary ≠ []) (some1 : secondary ≠ [])
    (positive : ∀ size ∈ primary, 0 < size) (positive' : ∀ size ∈ secondary, 0 < size) :
    (∃ answer, Answers primary secondary scratchSz maxImgSectors answer) ↔
      maxImgSectors < primary.length ∨ maxImgSectors < secondary.length ∨
        LastsOverlap primary secondary ∨ Refused primary secondary scratchSz := by
  unfold Answers
  by_cases many : primary.length > maxImgSectors ∨ secondary.length > maxImgSectors
  · simp only [if_pos many]
    rw [← or_assoc]
    exact iff_of_true ⟨false, rfl⟩ (.inl many)
  · simp only [if_neg many]
    rw [(scanning_start primary secondary scratchSz).returns_iff positive positive' some0 some1]
    rw [← or_assoc]
    exact (or_iff_right many).symm

/-- Sectors of different sizes in slots of one size are read within the slots. -/
theorem slots_compatible_reads_mixed : [128, 128, 256] ≠ [] ∧ LastsOverlap [128, 128, 256] [256, 256] ∧
      ∃ answer, Answers [128, 128, 256] [256, 256] 256 4 answer := by
  have overlap : LastsOverlap [128, 128, 256] [256, 256] := by
    constructor <;> decide
  exact ⟨by simp, overlap, (slots_compatible_reads_iff [128, 128, 256] [256, 256] 256 4 (by simp) (by simp)
    (by simp) (by simp)).mpr (.inr (.inr (.inl overlap)))⟩

/-- A secondary slot of one sector against a primary slot of two: the second round reads a second sector of the
secondary slot. -/
theorem shorter_secondary_read_behind : ¬∃ answer, Answers [128, 128] [128] 128 4 answer := by
  rintro ⟨answer, answers⟩
  cases answers with
  | done ended => exact ended (.inl (by decide))
  | refuses more round => simp [SlotScan.round, SlotScan.close] at round
  | goesOn more round rest =>
    simp [SlotScan.round, SlotScan.close] at round
    subst round
    cases rest with
    | done ended => exact ended (.inl (by decide))
    | refuses more round | goesOn more round => simp [SlotScan.round] at round

end Adaboot.SwapScratch
