import Adaboot.Board
import Adaboot.Nor.Boundaries
import Mathlib.Data.List.Range

/-!
# The sectors that `boot_erase_region` erases

The function finds its sectors by looking up offsets. What it erases, over any layout, is compared with the sectors
that the range meets.
-/

namespace Adaboot

open Nor Crash

/-- Sectors, by offset and size, that are erased one after the other, and the error that ends the run. -/
abbrev Erasure : Type := List (Nat × Nat) × Option BootErr

/-- The loop of `boot_erase_region` from low to high sectors. -/
def forwardSectors (layout : List Nat) (endOffset : Nat) : Nat → Nat → Erasure
  | 0, _ => ([], some .panic)
  | fuel + 1, off =>
    match sectorAt layout off with
    | none => ([], some .eflash)
    | some (off, csize) =>
      if off + csize > endOffset then ([(off, csize)], none)
      else
        let (rest, failure) := forwardSectors layout endOffset fuel (off + csize + 1)
        ((off, csize) :: rest, failure)

/-- The loop of `boot_erase_region` from high to low sectors. -/
def backwardSectors (layout : List Nat) (endOffset : Nat) : Nat → Nat → Erasure
  | 0, _ => ([], some .panic)
  | fuel + 1, off =>
    match sectorAt layout off with
    | none => ([], some .eflash)
    | some (off, csize) =>
      if endOffset ≥ off then ([(off, csize)], none)
      else
        let (rest, failure) := backwardSectors layout endOffset fuel (off - 1)
        ((off, csize) :: rest, failure)

/-- `boot_erase_region` on a device that requires erase, with flash that does what it is told. -/
def erasedSectors (layout : List Nat) (off size : Nat) (backwards : Bool) : Erasure :=
  if off ≥ layout.sum ∨ layout.sum - off < size then ([], some .eflash)
  else if backwards then
    match sectorAt layout off with
    | none => ([], some .eflash)
    | some (endOffset, _) => backwardSectors layout endOffset layout.length (off + (size - 1))
  else
    match sectorAt layout (off + size - 1) with
    | none => ([], some .eflash)
    | some (endOffset, _) => forwardSectors layout endOffset layout.length off

/-! ### The erases of the loader -/

section Erases

variable (bd : Board) (a : Area)

/-- Sectors erased in the order of a list, with the error behind them. -/
def eraseSectors (failure : Option BootErr) : List (Nat × Nat) → Boot Unit
  | [] =>
    match failure with
    | none => pure ()
    | some e => .throw e
  | (off, csize) :: rest => do
    flashAreaErase bd a off csize
    eraseSectors failure rest

def eraseAll (erasure : Erasure) : Boot Unit := eraseSectors bd a erasure.2 erasure.1

theorem eraseForward_eq (endOffset fuel off : Nat) :
    eraseForward bd a endOffset fuel off = eraseAll bd a (forwardSectors (bd.layout a) endOffset fuel off) := by
  induction fuel generalizing off with
  | zero => rfl
  | succ fuel ih =>
    rw [eraseForward, forwardSectors]
    cases sectorAt (bd.layout a) off with
    | none => rfl
    | some sector =>
      dsimp only
      split
      · rfl
      · rw [ih]
        rfl

theorem eraseBackward_eq (endOffset fuel off : Nat) :
    eraseBackward bd a endOffset fuel off = eraseAll bd a (backwardSectors (bd.layout a) endOffset fuel off) := by
  induction fuel generalizing off with
  | zero => rfl
  | succ fuel ih =>
    rw [eraseBackward, backwardSectors]
    cases sectorAt (bd.layout a) off with
    | none => rfl
    | some sector =>
      dsimp only
      split
      · rfl
      · rw [ih]
        rfl

theorem bootEraseRegion_eq (off size : Nat) (backwards : Bool) :
    bootEraseRegion bd a off size backwards = eraseAll bd a (erasedSectors (bd.layout a) off size backwards) := by
  rw [bootEraseRegion, erasedSectors]
  change (if off ≥ (bd.layout a).sum ∨ (bd.layout a).sum - off < size then _ else _) = _
  split
  · rfl
  · cases backwards with
    | true =>
      cases sectorAt (bd.layout a) off with
      | none => rfl
      | some sector => exact eraseBackward_eq bd a sector.1 _ _
    | false =>
      cases sectorAt (bd.layout a) (off + size - 1) with
      | none => rfl
      | some sector => exact eraseForward_eq bd a sector.1 _ _

variable {bd a}

theorem flashAreaErase_leaves {b : Area} (ne : b ≠ a) {off len : Nat} :
    Leaves (fun fl : Flash => fl b) (flashAreaErase bd a off len) := by
  apply Leaves.ite
  · intro fl
    funext i
    exact Flash.erase_outside fl fun eq => absurd eq ne
  · exact .throw _

theorem bootEraseRegion_leaves {b : Area} (ne : b ≠ a) {off size : Nat} {backwards : Bool} :
    Leaves (fun fl : Flash => fl b) (bootEraseRegion bd a off size backwards) := by
  rw [bootEraseRegion_eq, eraseAll]
  obtain ⟨sectors, failure⟩ := erasedSectors (bd.layout a) off size backwards
  induction sectors with
  | nil =>
    cases failure with
    | none => exact .pure ()
    | some e => exact .throw e
  | cons sector rest ih => exact .bind (flashAreaErase_leaves ne) fun _ => ih

end Erases

/-! ### The sectors of a range -/

section Range

variable {layout : List Nat} {off size i j : Nat}

def sectorOf (layout : List Nat) (k : Nat) : Nat × Nat := (sectorOff layout k, sectorSize layout k)

def meets (layout : List Nat) (off size k : Nat) : Bool :=
  sectorOff layout k < off + size && off < sectorOff layout (k + 1)

def metSectors (layout : List Nat) (off size : Nat) : List (Nat × Nat) :=
  ((List.range layout.length).filter (meets layout off size)).map (sectorOf layout)

/-- The byte at an offset is in sector `i`. -/
structure InSector (layout : List Nat) (i off : Nat) : Prop where
  lt : i < layout.length
  low : sectorOff layout i ≤ off
  high : off < sectorOff layout (i + 1)

theorem InSector.exists (lt : off < layout.sum) : ∃ i, InSector layout i off := by
  obtain ⟨⟨start, size⟩, found⟩ := sectorAt_isSome lt
  obtain ⟨i, lt, rfl, -, low, high⟩ := sectorAt_eq_some found
  exact ⟨i, lt, low, high⟩

theorem InSector.sectorAt (inside : InSector layout i off) : sectorAt layout off = some (sectorOf layout i) := by
  have next := sectorOff_succ inside.lt
  have low := inside.low
  have high := inside.high
  have found := sectorAt_sectorOff (k := off - sectorOff layout i) inside.lt (by omega)
  rwa [show sectorOff layout i + (off - sectorOff layout i) = off by omega] at found

theorem InSector.lt_sectorOff_iff (inside : InSector layout i off) {k : Nat} : off < sectorOff layout k ↔ i < k :=
  ⟨fun lt => lt_of_sectorOff_lt (inside.low.trans_lt lt),
    fun lt => inside.high.trans_le (sectorOff_mono layout lt)⟩

theorem InSector.mono {off' : Nat} (first : InSector layout i off) (last : InSector layout j off') (le : off ≤ off') :
    i ≤ j :=
  Nat.le_of_lt_succ (first.lt_sectorOff_iff.mp (le.trans_lt last.high))

theorem meets_iff (pos : 0 < size) (first : InSector layout i off) (last : InSector layout j (off + size - 1)) (k : Nat) :
    meets layout off size k = true ↔ i ≤ k ∧ k ≤ j := by
  have starts := last.lt_sectorOff_iff (k := k)
  have ends := first.lt_sectorOff_iff (k := k + 1)
  simp only [meets, Bool.and_eq_true, decide_eq_true_eq]
  omega

theorem range_split {i m n : Nat} (le : i ≤ m) (le' : m ≤ n) :
    List.range n = List.range' 0 i ++ (List.range' i (m - i) ++ List.range' m (n - m)) := by
  obtain ⟨c, rfl⟩ := Nat.exists_eq_add_of_le le
  obtain ⟨d, rfl⟩ := Nat.exists_eq_add_of_le le'
  have upper := List.range'_append_1 (s := i) (m := c) (n := d)
  have whole := List.range'_append_1 (s := 0) (m := i) (n := c + d)
  rw [Nat.zero_add] at whole
  rw [Nat.add_sub_cancel_left, Nat.add_sub_cancel_left, upper, whole, List.range_eq_range', Nat.add_assoc]

theorem metSectors_eq (pos : 0 < size) (first : InSector layout i off) (last : InSector layout j (off + size - 1)) :
    metSectors layout off size = (List.range' i (j + 1 - i)).map (sectorOf layout) := by
  have le := first.mono last (by omega)
  have lt := last.lt
  have meets_iff := meets_iff pos first last
  have below : (List.range' 0 i).filter (meets layout off size) = [] := by
    refine List.filter_eq_nil_iff.mpr fun k mem => ?_
    have := List.mem_range'_1.mp mem
    rw [meets_iff k]
    omega
  have between : (List.range' i (j + 1 - i)).filter (meets layout off size) = List.range' i (j + 1 - i) := by
    refine List.filter_eq_self.mpr fun k mem => ?_
    have := List.mem_range'_1.mp mem
    exact (meets_iff k).mpr ⟨by omega, by omega⟩
  have above : (List.range' (j + 1) (layout.length - (j + 1))).filter (meets layout off size) = [] := by
    refine List.filter_eq_nil_iff.mpr fun k mem => ?_
    have := List.mem_range'_1.mp mem
    rw [meets_iff k]
    omega
  rw [metSectors, range_split (show i ≤ j + 1 by omega) lt, List.filter_append, List.filter_append, below, between, above, List.nil_append, List.append_nil]

/-! ### The two loops -/

variable {fuel : Nat} {sector : Nat × Nat}

theorem mem_forwardSectors {endOffset : Nat} (mem : sector ∈ (forwardSectors layout endOffset fuel off).1) :
    ∃ k, k < layout.length ∧ sector = sectorOf layout k ∧ off < sectorOff layout (k + 1) := by
  induction fuel generalizing off with
  | zero => simp [forwardSectors] at mem
  | succ fuel ih =>
    rw [forwardSectors] at mem
    cases found : sectorAt layout off with
    | none => simp [found] at mem
    | some first =>
      obtain ⟨k, lt, start, size, low, high⟩ := sectorAt_eq_some found
      have firstEq : first = sectorOf layout k := Prod.ext start size
      have next := sectorOff_succ lt
      simp only [found] at mem
      split at mem
      · exact ⟨k, lt, (List.mem_singleton.mp mem).trans firstEq, high⟩
      · rcases List.mem_cons.mp mem with same | mem
        · exact ⟨k, lt, same.trans firstEq, high⟩
        · obtain ⟨k', lt', same, behind⟩ := ih mem
          exact ⟨k', lt', same, by omega⟩

theorem mem_erasedSectors (mem : sector ∈ (erasedSectors layout off size false).1) :
    ∃ k, k < layout.length ∧ sector = sectorOf layout k ∧ off < sectorOff layout (k + 1) := by
  unfold erasedSectors at mem
  split at mem
  · simp at mem
  · cases found : sectorAt layout (off + size - 1) with
    | none => simp [found] at mem
    | some last =>
      simp only [found] at mem
      exact mem_forwardSectors mem

theorem le_of_mem_erasedSectors (boundary : Boundary layout off)
    (mem : sector ∈ (erasedSectors layout off size false).1) : off ≤ sector.1 := by
  obtain ⟨k, lt, rfl, behind⟩ := mem_erasedSectors mem
  exact boundary.le_previous behind

variable (positive : ∀ s ∈ layout, 0 < s)
include positive

/-- Upwards the loop goes from sector to sector, but steps over a sector of one byte. -/
theorem forwardSectors_eq_iff (inside : InSector layout i off) (le : i ≤ j)
    (lt : j < layout.length) (enough : j < i + fuel) :
    forwardSectors layout (sectorOff layout j) fuel off = ((List.range' i (j + 1 - i)).map (sectorOf layout), none) ↔
      ∀ k, i < k → k ≤ j → sectorSize layout k ≠ 1 := by
  induction fuel generalizing i off with
  | zero => omega
  | succ fuel ih =>
    have next := sectorOff_succ inside.lt
    have size := sectorSize_pos positive inside.lt
    rw [forwardSectors, inside.sectorAt]
    dsimp only [sectorOf]
    rw [← next]
    rcases Nat.eq_or_lt_of_le le with rfl | less
    · rw [if_pos (by omega), show i + 1 - i = 1 by omega]
      constructor
      · omega
      · intro _
        rfl
    · have lastLe := sectorOff_mono layout (show i + 1 ≤ j from less)
      have after := sectorOff_succ (show i + 1 < layout.length by omega)
      have sizeAfter := sectorSize_pos positive (show i + 1 < layout.length by omega)
      have range : List.range' i (j + 1 - i) = i :: List.range' (i + 1) (j + 1 - (i + 1)) := by
        rw [show j + 1 - i = j + 1 - (i + 1) + 1 by omega, List.range'_succ]
      rw [if_neg (by omega), range, List.map_cons]
      constructor
      · intro same
        obtain ⟨heads, failure⟩ := Prod.mk.inj same
        have rest := (List.cons.inj heads).2
        -- the next sector is erased, so that the offset is still in it
        have mem : sectorOf layout (i + 1) ∈
            (forwardSectors layout (sectorOff layout j) fuel (sectorOff layout (i + 1) + 1)).1 := by
          rw [rest]
          exact List.mem_map_of_mem (List.mem_range'_1.mpr ⟨le_rfl, by omega⟩)
        have two : sectorOff layout (i + 1) + 1 < sectorOff layout (i + 1 + 1) := by
          obtain ⟨k, lt', same, behind⟩ := mem_forwardSectors mem
          have start := (Prod.mk.inj same).1
          obtain rfl := sectorOff_inj positive (show i + 1 ≤ layout.length by omega) lt'.le start
          exact behind
        have inNext : InSector layout (i + 1) (sectorOff layout (i + 1) + 1) := ⟨by omega, by omega, by omega⟩
        have all := (ih inNext (show i + 1 ≤ j from less) (by omega)).mp (Prod.ext rest failure)
        intro k more le
        rcases Nat.eq_or_lt_of_le (show i + 1 ≤ k from more) with rfl | later
        · omega
        · exact all k later le
      · intro all
        have two := all (i + 1) (Nat.lt_succ_self i) less
        have inNext : InSector layout (i + 1) (sectorOff layout (i + 1) + 1) := ⟨by omega, by omega, by omega⟩
        have rest := (ih inNext (show i + 1 ≤ j from less) (by omega)).mpr fun k more le => all k (by omega) le
        rw [rest]
        rfl

theorem backwardSectors_eq (inside : InSector layout j off) (le : i ≤ j)
    (enough : j < i + fuel) : backwardSectors layout (sectorOff layout i) fuel off =
      (((List.range' i (j + 1 - i)).map (sectorOf layout)).reverse, none) := by
  induction fuel generalizing j off with
  | zero => omega
  | succ fuel ih =>
    rw [backwardSectors, inside.sectorAt]
    dsimp only [sectorOf]
    rcases Nat.eq_or_lt_of_le le with rfl | less
    · rw [if_pos le_rfl, show i + 1 - i = 1 by omega]
      rfl
    · obtain ⟨j, rfl⟩ : ∃ m, j = m + 1 := ⟨j - 1, by omega⟩
      have lt := inside.lt
      have before := sectorOff_succ (show j < layout.length by omega)
      have size := sectorSize_pos positive (show j < layout.length by omega)
      have first := sectorOff_mono layout (show i ≤ j by omega)
      have range : List.range' i (j + 1 + 1 - i) = List.range' i (j + 1 - i) ++ [j + 1] := by
        have snoc := List.range'_append_1 (s := i) (m := j + 1 - i) (n := 1)
        rw [show j + 1 + 1 - i = j + 1 - i + 1 by omega, ← snoc, show i + (j + 1 - i) = j + 1 by omega]
        rfl
      have inPrevious : InSector layout j (sectorOff layout (j + 1) - 1) := ⟨by omega, by omega, by omega⟩
      rw [if_neg (by omega), ih inPrevious (by omega) (by omega), range, List.map_append, List.reverse_append]
      rfl

theorem inSector_span (lt : i < j) (le : j ≤ layout.length) : InSector layout i (sectorOff layout i) ∧
    InSector layout (j - 1) (sectorOff layout j - 1) ∧ sectorOff layout i < sectorOff layout j := by
  have top : j - 1 + 1 = j := by omega
  have before := sectorOff_lt positive lt le
  have next := sectorOff_lt positive (Nat.lt_succ_self i) (show i + 1 ≤ layout.length by omega)
  have previous := sectorOff_lt positive (show j - 1 < j by omega) le
  exact ⟨⟨by omega, le_rfl, next⟩, ⟨by omega, by omega, by rw [top]; omega⟩, before⟩

theorem erasedSectors_span_backwards (lt : i < j) (le : j ≤ layout.length) :
    erasedSectors layout (sectorOff layout i) (sectorOff layout j - sectorOff layout i) true =
      (((List.range' i (j - i)).map (sectorOf layout)).reverse, none) := by
  have ends := sectorOff_le_sum layout j
  obtain ⟨first, last, before⟩ := inSector_span positive lt le
  rw [erasedSectors, if_neg (by omega), if_pos rfl, first.sectorAt]
  rw [show sectorOff layout i + (sectorOff layout j - sectorOff layout i - 1) = sectorOff layout j - 1 by omega]
  have erased := @backwardSectors_eq layout _ i _ layout.length positive last (show i ≤ j - 1 by omega) (by omega)
  rwa [show j - 1 + 1 = j by omega] at erased

omit positive

theorem erasedSectors_span (sizes : ∀ s ∈ layout, 2 ≤ s) (lt : i < j) (le : j ≤ layout.length) :
    erasedSectors layout (sectorOff layout i) (sectorOff layout j - sectorOff layout i) false =
      ((List.range' i (j - i)).map (sectorOf layout), none) := by
  have positive : ∀ s ∈ layout, 0 < s := fun s mem => Nat.lt_of_lt_of_le (by decide) (sizes s mem)
  have ends := sectorOff_le_sum layout j
  obtain ⟨first, last, before⟩ := inSector_span positive lt le
  rw [erasedSectors, if_neg (by omega), if_neg Bool.false_ne_true,
    show sectorOff layout i + (sectorOff layout j - sectorOff layout i) = sectorOff layout j by omega, last.sectorAt]
  dsimp only [sectorOf]
  rw [(forwardSectors_eq_iff positive first (show i ≤ j - 1 by omega) (by omega) (by omega)).mpr, show j - 1 + 1 = j by omega]
  intro k _ below one
  have size := sectorSize_mem (show k < layout.length by omega)
  have := sizes _ size
  omega

end Range

/-! ### Erasing whole sectors -/

section Specs

variable {bd : Board} {a : Area} {Q : Unit → Flash → Prop} {E : BootErr → Flash → Prop}
  {C : Flash → Prop} {fl : Flash} {i j : Nat}

theorem wp_eraseSectors_cons {k : Nat} {rest : List (Nat × Nat)} (lt : k < bd.numSectors a) :
    wp (eraseSectors bd a none (sectorOf (bd.layout a) k :: rest)) Q E C fl ↔
      C fl ∧ wp (eraseSectors bd a none rest) Q E C (fl.erase a (bd.sectorOff a k) (bd.sectorSize a k)) := by
  have next := bd.sectorOff_succ lt
  have fits := bd.sectorOff_le_faSize a (k + 1)
  rw [eraseSectors, wp_bind]
  exact wp_flashAreaErase (show bd.sectorOff a k + bd.sectorSize a k ≤ _ by omega)

theorem eraseSectors_wp {n : Nat} (le : i + n ≤ bd.numSectors a)
    (post : Q () (fl.erase a (bd.sectorOff a i) (bd.sectorOff a (i + n) - bd.sectorOff a i)))
    (cuts : ∀ k, i ≤ k → k < i + n → C (fl.erase a (bd.sectorOff a i) (bd.sectorOff a k - bd.sectorOff a i))) :
    wp (eraseSectors bd a none ((List.range' i n).map (sectorOf (bd.layout a)))) Q E C fl := by
  induction n generalizing i fl with
  | zero => simpa [eraseSectors] using post
  | succ n ih =>
    have next := bd.sectorOff_succ (a := a) (i := i) (by omega)
    have now := cuts i le_rfl (by omega)
    rw [Nat.sub_self, Flash.erase_zero] at now
    -- what the later sectors erase continues what this one does
    have merge : ∀ k, i + 1 ≤ k → (fl.erase a (bd.sectorOff a i) (bd.sectorSize a i)).erase a (bd.sectorOff a (i + 1))
            (bd.sectorOff a k - bd.sectorOff a (i + 1)) =
          fl.erase a (bd.sectorOff a i) (bd.sectorOff a k - bd.sectorOff a i) := by
      intro k ge
      have := bd.sectorOff_mono a ge
      rw [next, Flash.erase_erase]
      congr 1
      omega
    rw [List.range'_succ, List.map_cons, wp_eraseSectors_cons (by omega)]
    refine ⟨now, ih (by omega) ?_ ?_⟩
    · rwa [merge _ (by omega), show i + 1 + n = i + (n + 1) by omega]
    · intro k ge below
      rw [merge k ge]
      exact cuts k (by omega) (by omega)

theorem eraseSectors_reverse_wp {n : Nat} (le : i + n ≤ bd.numSectors a)
    (post : Q () (fl.erase a (bd.sectorOff a i) (bd.sectorOff a (i + n) - bd.sectorOff a i)))
    (cuts : ∀ k, i < k → k ≤ i + n → C (fl.erase a (bd.sectorOff a k) (bd.sectorOff a (i + n) - bd.sectorOff a k))) :
    wp (eraseSectors bd a none ((List.range' i n).map (sectorOf (bd.layout a))).reverse) Q E C fl := by
  induction n generalizing fl with
  | zero => simpa [eraseSectors] using post
  | succ n ih =>
    have next := bd.sectorOff_succ (a := a) (i := i + n) (by omega)
    have now := cuts (i + n + 1) (by omega) le_rfl
    rw [← Nat.add_assoc, Nat.sub_self, Flash.erase_zero] at now
    have merge : ∀ k, k ≤ i + n →
        (fl.erase a (bd.sectorOff a (i + n)) (bd.sectorSize a (i + n))).erase a (bd.sectorOff a k)
            (bd.sectorOff a (i + n) - bd.sectorOff a k) =
          fl.erase a (bd.sectorOff a k) (bd.sectorOff a (i + n + 1) - bd.sectorOff a k) := by
      intro k ge
      have := bd.sectorOff_mono a ge
      have down := fl.erase_erase_down a (bd.sectorOff a k) (bd.sectorOff a (i + n) - bd.sectorOff a k)
        (bd.sectorSize a (i + n))
      rw [show bd.sectorOff a k + (bd.sectorOff a (i + n) - bd.sectorOff a k) = bd.sectorOff a (i + n) by omega]
        at down
      rw [down]
      congr 1
      omega
    rw [List.range'_concat, List.map_append, List.reverse_append, Nat.one_mul]
    refine (wp_eraseSectors_cons (by omega)).mpr ⟨now, ih (by omega) ?_ ?_⟩
    · rwa [merge i (by omega)]
    · intro k ge below
      rw [merge k below]
      exact cuts k ge (by omega)

/-- Erasing sectors `i` to `j - 1`: a cut leaves the first ones erased. -/
theorem bootEraseRegion_wp (lt : i < j) (le : j ≤ bd.numSectors a)
    (post : Q () (fl.erase a (bd.sectorOff a i) (bd.sectorOff a j - bd.sectorOff a i))) (cuts : ∀ k, i ≤ k → k < j →
      C (fl.erase a (bd.sectorOff a i) (bd.sectorOff a k - bd.sectorOff a i))) :
    wp (bootEraseRegion bd a (bd.sectorOff a i) (bd.sectorOff a j - bd.sectorOff a i) false) Q E C fl := by
  obtain ⟨n, rfl⟩ := Nat.exists_eq_add_of_le lt.le
  have span := erasedSectors_span (fun s mem => Nat.le_trans (by decide) (bd.sector_ge a s mem)) lt le
  rw [Nat.add_sub_cancel_left] at span
  rw [bootEraseRegion_eq]
  change wp (eraseAll bd a (erasedSectors _ (sectorOff _ i) (sectorOff _ _ - sectorOff _ i) _)) Q E C fl
  rw [span]
  exact eraseSectors_wp le post cuts

theorem bootEraseSector_wp (lt : i < bd.numSectors a) (cut : C fl)
    (post : Q () (fl.erase a (bd.sectorOff a i) (bd.sectorSize a i))) :
    wp (bootEraseRegion bd a (bd.sectorOff a i) (bd.sectorSize a i) false) Q E C fl := by
  have size : bd.sectorSize a i = bd.sectorOff a (i + 1) - bd.sectorOff a i := by
    rw [bd.sectorOff_succ lt, Nat.add_sub_cancel_left]
  rw [size] at post ⊢
  refine bootEraseRegion_wp (by omega) lt post ?_
  intro k ge below
  obtain rfl : k = i := by omega
  rwa [Nat.sub_self, Flash.erase_zero]

theorem bootEraseRegion_backwards_wp (lt : i < j) (le : j ≤ bd.numSectors a)
    (post : Q () (fl.erase a (bd.sectorOff a i) (bd.sectorOff a j - bd.sectorOff a i))) (cuts : ∀ k, i < k → k ≤ j →
      C (fl.erase a (bd.sectorOff a k) (bd.sectorOff a j - bd.sectorOff a k))) :
    wp (bootEraseRegion bd a (bd.sectorOff a i) (bd.sectorOff a j - bd.sectorOff a i) true) Q E C fl := by
  obtain ⟨n, rfl⟩ := Nat.exists_eq_add_of_le lt.le
  have span := erasedSectors_span_backwards (bd.sector_pos a) lt le
  rw [Nat.add_sub_cancel_left] at span
  rw [bootEraseRegion_eq]
  change wp (eraseAll bd a (erasedSectors _ (sectorOff _ i) (sectorOff _ _ - sectorOff _ i) _)) Q E C fl
  rw [span]
  exact eraseSectors_reverse_wp le post cuts

end Specs

/-- The sectors that a range meets are erased once each, in order, and no others, exactly if the loop goes downwards or
meets no sector of one byte behind its first one. -/
theorem erase_region_sectors_iff (layout : List Nat) (off size : Nat) (backwards : Bool)
    (positive : ∀ s ∈ layout, 0 < s) (pos : 0 < size) (inBounds : off + size ≤ layout.sum) :
    erasedSectors layout off size backwards =
        (if backwards then (metSectors layout off size).reverse else metSectors layout off size, none) ↔
      backwards = true ∨ ∀ k, k < layout.length → meets layout off size k = true → off < sectorOff layout k →
        sectorSize layout k ≠ 1 := by
  obtain ⟨i, first⟩ := InSector.exists (show off < layout.sum by omega)
  obtain ⟨j, last⟩ := InSector.exists (show off + size - 1 < layout.sum by omega)
  have le := first.mono last (by omega)
  have lt := last.lt
  rw [erasedSectors, if_neg (by omega), metSectors_eq pos first last]
  cases backwards with
  | true =>
    rw [if_pos rfl, if_pos rfl, first.sectorAt]
    rw [show off + (size - 1) = off + size - 1 by omega]
    simp only [true_or, iff_true]
    exact backwardSectors_eq positive last le (by omega)
  | false =>
    rw [if_neg Bool.false_ne_true, if_neg Bool.false_ne_true, last.sectorAt]
    dsimp only [sectorOf]
    rw [forwardSectors_eq_iff positive first le lt (by omega)]
    simp only [Bool.false_eq_true, false_or]
    simp only [meets_iff pos first last, first.lt_sectorOff_iff]
    constructor
    · intro all k _ met behind
      exact all k behind met.2
    · intro all k more le
      exact all k (by omega) ⟨by omega, le⟩ more

theorem erase_region_sectors_mixed :
    erasedSectors [8, 16, 8, 64] 4 30 false = ([(0, 8), (8, 16), (24, 8), (32, 64)], none) ∧
      erasedSectors [8, 16, 8, 64] 4 20 true = ([(8, 16), (0, 8)], none) := by
  constructor
  · have erased := (erase_region_sectors_iff [8, 16, 8, 64] 4 30 false (by decide) (by decide) (by decide)).mpr
      (.inr (by decide))
    exact erased.trans (by decide)
  · have erased := (erase_region_sectors_iff [8, 16, 8, 64] 4 20 true (by decide) (by decide) (by decide)).mpr (.inl rfl)
    exact erased.trans (by decide)

/-- A sector of one byte between two others is stepped over. -/
theorem one_byte_sector_not_erased : erasedSectors [4, 1, 4] 0 9 false = ([(0, 4), (5, 4)], none) ∧
      metSectors [4, 1, 4] 0 9 = [(0, 4), (4, 1), (5, 4)] := by
  decide

end Adaboot
