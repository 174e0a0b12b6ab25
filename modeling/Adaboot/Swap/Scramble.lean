import Adaboot.Swap.MoveCuts

/-!
# Scrambling on devices with and without erase

`boot_scramble_region` erases sectors, or writes erased bytes over the range. Downwards it stops before it writes the
first block of the range, where the first status byte of a trailer survives.
-/

namespace Adaboot

open Nor Crash

/-! ### The functions -/

section Functions

variable (bd : Board) (requiresErase : Bool) (a : Area)

/-- `flash_area_write` to a device that requires no erase: the data replaces what was there. -/
def overwrite (off : Nat) (data : Bytes) : Boot Unit :=
  if off + data.length ≤ bd.faSize a then
    .op fun fl b i => if b = a ∧ off ≤ i ∧ i < off + data.length then data.getD (i - off) erasedVal else fl b i
  else .throw .eflash

/-- The loop of `boot_scramble_region` on a device that requires no erase. -/
def scrambleLoop (backwards : Bool) (endOffset : Nat) : Nat → Nat → Boot Unit
  | 0, _ => .throw .panic
  | fuel + 1, off =>
    if off = endOffset then pure ()
    else do
      overwrite bd a off (List.replicate (bd.align a) erasedVal)
      if backwards then
        if endOffset ≥ off then pure ()
        else scrambleLoop backwards endOffset fuel (u32 (off + 2 ^ 32 - bd.align a))
      else
        if endOffset ≤ u32 (off + bd.align a) then pure ()
        else scrambleLoop backwards endOffset fuel (u32 (off + bd.align a))

/-- `boot_scramble_region`, on any device. -/
def bootScrambleRegionOn (off size : Nat) (backwards : Bool) : Boot Unit :=
  if size = 0 then pure ()
  else if requiresErase then bootEraseRegion bd a off size backwards
  else if off ≥ bd.faSize a ∨ bd.faSize a - off < size then .throw .eflash
  else if backwards then
    -- from the last block of the range
    scrambleLoop bd a true (alignDown off (bd.align a)) (size + 2) (u32 (off + size + 2 ^ 32 - bd.align a))
  else scrambleLoop bd a false (alignDown (off + size) (bd.align a)) (size + 2) off

/-- `boot_trailer_scramble_offset`, on any device. -/
def bootTrailerScrambleOffsetOn (alignment : Nat) : Option Nat :=
  let alignment := if alignment < bd.align a then bd.align a else alignment
  if requiresErase then bootTrailerScrambleOffset bd a alignment
  else
    let trailerSz := alignDown (bootTrailerSz bd alignment) alignment
    if bd.faSize a < trailerSz then none else some (bd.faSize a - trailerSz)

/-- `swap_scramble_trailer_sectors`, on any device. -/
def swapScrambleTrailerSectorsOn : Boot Unit :=
  match bootTrailerScrambleOffsetOn bd requiresErase a bd.writeSz with
  | none => .throw .eflash
  | some off => bootScrambleRegionOn bd requiresErase a off (bd.faSize a - off) true

theorem bootScrambleRegionOn_erase (off size : Nat) (backwards : Bool) :
    bootScrambleRegionOn bd true a off size backwards = bootScrambleRegion bd a off size backwards := by
  rw [bootScrambleRegionOn, bootScrambleRegion, if_pos rfl]

/-- On a device that requires erase these are the functions that the swaps use. -/
theorem swapScrambleTrailerSectorsOn_erase : swapScrambleTrailerSectorsOn bd true a = swapScrambleTrailerSectors bd a := by
  have same : bootTrailerScrambleOffsetOn bd true a bd.writeSz = bootTrailerScrambleOffset bd a bd.writeSz := by
    simp only [bootTrailerScrambleOffsetOn, bootTrailerScrambleOffset, if_true]
    by_cases less : bd.writeSz < bd.align a
    · rw [if_pos less, if_neg (Nat.lt_irrefl _)]
    · rw [if_neg less, if_neg less]
  rw [swapScrambleTrailerSectorsOn, same, swapScrambleTrailerSectors]
  cases bootTrailerScrambleOffset bd a bd.writeSz with
  | none => rfl
  | some off => exact bootScrambleRegionOn_erase bd a off _ true

end Functions

/-! ### Devices that require no erase -/

section Overwrite

variable {bd : Board} {a : Area} {Q : Unit → Flash → Prop} {E : BootErr → Flash → Prop} {fl : Flash}
  {off n fuel : Nat}

theorem wp_overwrite_erased {len : Nat} (fits : off + len ≤ bd.faSize a) (post : Q () (fl.erase a off len)) :
    wp (overwrite bd a off (List.replicate len erasedVal)) Q E (fun _ => True) fl := by
  have same : (fun b i => if b = a ∧ off ≤ i ∧ i < off + (List.replicate len erasedVal).length then
      (List.replicate len erasedVal).getD (i - off) erasedVal else fl b i) = fl.erase a off len := by
    funext b i
    rw [List.length_replicate, Flash.erase]
    split
    next inside => rw [List.getD_eq_getElem?_getD, List.getElem?_replicate, if_pos (by omega), Option.getD_some]
    next => rfl
  rw [overwrite, if_pos (by rwa [List.length_replicate]), wp_op]
  exact ⟨trivial, same ▸ post⟩

theorem scrambleLoop_forward_wp (pos : 0 < bd.align a)
    (fits : off + n * bd.align a ≤ bd.faSize a) (enough : n < fuel) (post : Q () (fl.erase a off (n * bd.align a))) :
    wp (scrambleLoop bd a false (off + n * bd.align a) fuel off) Q E (fun _ => True) fl := by
  have small : bd.faSize a < 2 ^ 32 := bd.size_lt a
  induction n generalizing off fuel fl with
  | zero =>
    obtain ⟨fuel, rfl⟩ := Nat.exists_eq_add_one_of_ne_zero enough.ne'
    rw [scrambleLoop, if_pos (by omega), wp_pure]
    rwa [Nat.zero_mul, Flash.erase_zero] at post
  | succ n ih =>
    obtain ⟨fuel, rfl⟩ := Nat.exists_eq_add_one_of_ne_zero (Nat.zero_lt_of_lt enough).ne'
    have step : (n + 1) * bd.align a = bd.align a + n * bd.align a := by rw [Nat.succ_mul, Nat.add_comm]
    rw [step] at fits post ⊢
    have next : u32 (off + bd.align a) = off + bd.align a := Nat.mod_eq_of_lt (by omega)
    rw [scrambleLoop, if_neg (by omega), wp_bind]
    refine wp_overwrite_erased (by omega) ?_
    rw [if_neg Bool.false_ne_true, next, ← Nat.add_assoc]
    rw [← Flash.erase_erase] at post
    by_cases done : n = 0
    · rw [done, Nat.zero_mul, Nat.add_zero, if_pos le_rfl, wp_pure]
      rwa [done, Nat.zero_mul, Flash.erase_zero] at post
    · have more := Nat.mul_pos (Nat.pos_of_ne_zero done) pos
      rw [if_neg (by omega)]
      exact ih (by omega) (by omega) post

/-- Downwards the block that the loop ends at is not written. -/
theorem scrambleLoop_backward_wp (pos : 0 < bd.align a)
    (fits : off + (n + 1) * bd.align a ≤ bd.faSize a) (enough : n < fuel)
    (post : Q () (fl.erase a (off + bd.align a) (n * bd.align a))) :
    wp (scrambleLoop bd a true off fuel (off + n * bd.align a)) Q E (fun _ => True) fl := by
  have small : bd.faSize a < 2 ^ 32 := bd.size_lt a
  induction n generalizing fuel fl with
  | zero =>
    obtain ⟨fuel, rfl⟩ := Nat.exists_eq_add_one_of_ne_zero enough.ne'
    rw [scrambleLoop, if_pos (by omega), wp_pure]
    rwa [Nat.zero_mul, Flash.erase_zero] at post
  | succ n ih =>
    obtain ⟨fuel, rfl⟩ := Nat.exists_eq_add_one_of_ne_zero (Nat.zero_lt_of_lt enough).ne'
    have step : (n + 1) * bd.align a = n * bd.align a + bd.align a := Nat.succ_mul ..
    have step' : (n + 1 + 1) * bd.align a = n * bd.align a + bd.align a + bd.align a := by rw [Nat.succ_mul, step]
    rw [step] at post ⊢
    have next : u32 (off + (n * bd.align a + bd.align a) + 2 ^ 32 - bd.align a) = off + n * bd.align a := by
      unfold u32
      omega
    rw [scrambleLoop, if_neg (by omega), wp_bind]
    refine wp_overwrite_erased (by omega) ?_
    rw [if_pos rfl, if_neg (by omega), next]
    refine ih (by rw [step]; omega) (by omega) ?_
    have down : off + (n * bd.align a + bd.align a) = off + bd.align a + n * bd.align a := by omega
    rwa [down, Flash.erase_erase_down]

end Overwrite

/-! ### What is left of a range -/

section Regions

variable {bd : Board} {requiresErase backwards : Bool} {a : Area} {off size : Nat} {fl : Flash}

/-- A range in units of the device: sectors where it requires erase, write blocks otherwise. -/
def Aligned (bd : Board) (requiresErase : Bool) (a : Area) (off size : Nat) : Prop :=
  if requiresErase then ∃ i j, off = bd.sectorOff a i ∧ off + size = bd.sectorOff a j
  else bd.align a ∣ off ∧ bd.align a ∣ size

/-- The first byte of the range that is written. -/
def scrambledFrom (bd : Board) (requiresErase backwards : Bool) (a : Area) (off : Nat) : Nat :=
  if requiresErase = false ∧ backwards = true then off + bd.align a else off

theorem alignDown_of_dvd {num align k : Nat} (pow : align = 2 ^ k) (dvd : align ∣ num) : alignDown num align = num := by
  rw [pow, alignDown_pow, Nat.mod_eq_zero_of_dvd (pow ▸ dvd), Nat.sub_zero]

theorem bootScrambleRegionOn_wp (some : 0 < size) (fits : off + size ≤ bd.faSize a)
    (aligned : Aligned bd requiresErase a off size) {Q : Unit → Flash → Prop} {E : BootErr → Flash → Prop}
    (post : Q () (fl.erase a (scrambledFrom bd requiresErase backwards a off)
      (off + size - scrambledFrom bd requiresErase backwards a off))) :
    wp (bootScrambleRegionOn bd requiresErase a off size backwards) Q E (fun _ => True) fl := by
  unfold bootScrambleRegionOn
  rw [if_neg (by omega)]
  cases requiresErase with
  | true =>
    obtain ⟨i, j, low, high⟩ := aligned
    have small : bd.sectorOff a (min j (bd.numSectors a)) = off + size := by
      rw [high]
      by_cases inside : j ≤ bd.numSectors a
      · rw [Nat.min_eq_left inside]
      · have past := bd.sectorOff_mono a (Nat.le_of_not_le inside)
        rw [bd.sectorOff_numSectors] at past
        rw [Nat.min_eq_right (Nat.le_of_not_le inside), bd.sectorOff_numSectors]
        omega
    have lt : i < min j (bd.numSectors a) := by
      by_contra above
      have := bd.sectorOff_mono a (not_lt.mp above)
      omega
    have range : size = bd.sectorOff a (min j (bd.numSectors a)) - bd.sectorOff a i := by omega
    have erased : Q () (fl.erase a (bd.sectorOff a i)
        (bd.sectorOff a (min j (bd.numSectors a)) - bd.sectorOff a i)) := by
      simpa [scrambledFrom, low, small] using post
    rw [if_pos rfl, low, range]
    cases backwards with
    | true => exact bootEraseRegion_backwards_wp lt (Nat.min_le_right ..) erased fun _ _ _ => trivial
    | false => exact bootEraseRegion_wp lt (Nat.min_le_right ..) erased fun _ _ _ => trivial
  | false =>
    obtain ⟨lowDvd, sizeDvd⟩ := aligned
    obtain ⟨k, pow⟩ := bd.align_pow a
    have pos : 0 < bd.align a := pow ▸ Nat.two_pow_pos k
    obtain ⟨n, size_eq⟩ := sizeDvd
    rw [Nat.mul_comm] at size_eq
    obtain ⟨n, rfl⟩ : ∃ m, n = m + 1 := by
      refine Nat.exists_eq_add_one_of_ne_zero ?_
      rintro rfl
      omega
    have blocks : n + 1 ≤ size := size_eq ▸ Nat.le_mul_of_pos_right _ pos
    have step : (n + 1) * bd.align a = n * bd.align a + bd.align a := Nat.succ_mul ..
    have lt : bd.faSize a < 2 ^ 32 := bd.size_lt a
    rw [if_neg Bool.false_ne_true, if_neg (by omega)]
    cases backwards with
    | true =>
      have last : u32 (off + size + 2 ^ 32 - bd.align a) = off + n * bd.align a := by
        unfold u32
        omega
      rw [if_pos rfl, alignDown_of_dvd pow lowDvd, last]
      refine scrambleLoop_backward_wp pos (by omega) (by omega) ?_
      have rest : off + size - (off + bd.align a) = n * bd.align a := by omega
      simpa [scrambledFrom, rest] using post
    | false =>
      rw [if_neg Bool.false_ne_true, alignDown_of_dvd pow (Nat.dvd_add lowDvd ⟨n + 1, by rw [size_eq, Nat.mul_comm]⟩), size_eq]
      refine scrambleLoop_forward_wp pos (by omega) (by omega) ?_
      simpa [scrambledFrom, size_eq] using post

theorem erased_iff {lo hi : Nat} (lt : lo ≤ hi) :
    Flash.Erased (fl.erase a lo (hi - lo)) a off hi ↔ Flash.Erased fl a off lo := by
  constructor
  · intro erased i low high
    rw [← erased i low (by omega), Flash.erase_outside]
    omega
  · intro erased i low high
    by_cases inside : lo ≤ i
    · exact Flash.erase_inside _ _ inside (by omega)
    · rw [Flash.erase_outside _ (by omega)]
      exact erased i low (by omega)

end Regions

/-! ### What is left of a trailer -/

section Trailers

variable {bd : Board} {requiresErase : Bool} {a : Area} {fl : Flash}

theorem maxAlign_dvd_infoSz (bd : Board) : bd.maxAlign ∣ bootTrailerInfoSz bd := by
  have magic : bd.maxAlign ∣ bd.magicAlignSize := by
    unfold Board.magicAlignSize
    rcases bd.maxAlign_eq with eq | eq | eq <;> rw [eq] <;> decide
  have tlvs : bd.maxAlign ∣ if bd.mode = .offset then bd.maxAlign else 0 := by
    split
    · exact Nat.dvd_refl _
    · exact Nat.dvd_zero _
  exact Nat.dvd_add (Nat.dvd_add (Nat.dvd_mul_right ..) tlvs) magic

theorem dvd_bootTrailerSz {w : Nat} (dvd : w ∣ bd.maxAlign) : w ∣ bootTrailerSz bd w := by
  refine Nat.dvd_add (Nat.dvd_mul_left_of_dvd ?_ _) (Nat.dvd_trans dvd (maxAlign_dvd_infoSz bd))
  unfold bootStatusEntrySz
  split
  · exact Nat.dvd_zero _
  · exact Nat.dvd_mul_left ..

theorem scramble_alignment (bd : Board) (a : Area) :
    ∃ k, (if bd.writeSz < bd.align a then bd.align a else bd.writeSz) = 2 ^ k ∧ 2 ^ k ∣ bd.maxAlign ∧
      bd.align a ∣ 2 ^ k := by
  obtain ⟨x, eq⟩ : ∃ x, bd.writeSz = bd.align x := by
    unfold Board.writeSz
    split
    · exact ⟨_, rfl⟩
    · exact ⟨_, rfl⟩
  obtain ⟨k, pow⟩ := bd.align_pow a
  obtain ⟨l, pow'⟩ := bd.align_pow x
  rw [eq]
  split
  next => exact ⟨k, pow, pow ▸ bd.align_dvd a, pow ▸ Nat.dvd_refl _⟩
  next le =>
    rw [pow, pow', Nat.not_lt] at le
    exact ⟨l, pow', pow' ▸ bd.align_dvd x, pow ▸ Nat.pow_dvd_pow 2 ((Nat.pow_le_pow_iff_right (by decide)).mp le)⟩

/-- The first byte of the slot that is removed with the trailer. -/
def trailerScrambledFrom (bd : Board) (requiresErase : Bool) (a : Area) : Nat :=
  if requiresErase then (bootTrailerScrambleOffset bd a bd.writeSz).getD 0
  else bd.faSize a - scrambleSz bd a + bd.align a

theorem swapScrambleTrailerSectorsOn_wp (room : scrambleSz bd a ≤ bd.faSize a) {Q : Unit → Flash → Prop}
    {E : BootErr → Flash → Prop} (post : Q () (fl.erase a (trailerScrambledFrom bd requiresErase a)
      (bd.faSize a - trailerScrambledFrom bd requiresErase a))) :
    wp (swapScrambleTrailerSectorsOn bd requiresErase a) Q E (fun _ => True) fl := by
  have info := infoSz_le_scrambleSz bd a
  have ge := bootTrailerInfoSz_ge bd
  cases requiresErase with
  | true =>
    obtain ⟨t, lt, found, low, -⟩ := trailerSector room
    have whole : bd.sectorOff a t + (bd.faSize a - bd.sectorOff a t) = bd.faSize a := by omega
    have aligned : Aligned bd true a (bd.sectorOff a t) (bd.faSize a - bd.sectorOff a t) :=
      ⟨t, bd.numSectors a, rfl, by rw [whole, bd.sectorOff_numSectors]⟩
    rw [swapScrambleTrailerSectorsOn_erase, swapScrambleTrailerSectors, found]
    dsimp only
    rw [← bootScrambleRegionOn_erase]
    refine bootScrambleRegionOn_wp (by omega) (by omega) aligned ?_
    simpa [scrambledFrom, trailerScrambledFrom, found, whole] using post
  | false =>
    obtain ⟨k, pow, dvd, unit⟩ := scramble_alignment bd a
    have whole : alignDown (bootTrailerSz bd (2 ^ k)) (2 ^ k) = scrambleSz bd a := by
      rw [alignDown_of_dvd rfl (dvd_bootTrailerSz dvd), scrambleSz, pow]
    have found : bootTrailerScrambleOffsetOn bd false a bd.writeSz = some (bd.faSize a - scrambleSz bd a) := by
      simp only [bootTrailerScrambleOffsetOn, pow, whole]
      rw [if_neg Bool.false_ne_true, if_neg (by omega)]
    have trailer : bd.align a ∣ scrambleSz bd a := by
      rw [scrambleSz, pow]
      exact Nat.dvd_trans unit (dvd_bootTrailerSz dvd)
    have start := Nat.dvd_sub (Nat.dvd_trans (bd.align_dvd a) (bd.maxAlign_dvd_faSize a)) trailer
    have size : bd.faSize a - (bd.faSize a - scrambleSz bd a) = scrambleSz bd a := by omega
    rw [swapScrambleTrailerSectorsOn, found]
    dsimp only
    rw [size]
    have aligned : Aligned bd false a (bd.faSize a - scrambleSz bd a) (scrambleSz bd a) := ⟨start, trailer⟩
    refine bootScrambleRegionOn_wp (by omega) (by omega) aligned ?_
    have top : bd.faSize a - scrambleSz bd a + scrambleSz bd a = bd.faSize a := by omega
    simpa [scrambledFrom, trailerScrambledFrom, top] using post

end Trailers

/-! ### What survives -/

section Survives

variable {bd : Board} (requiresErase : Bool) {a : Area} (fl : Flash)

theorem bootScrambleRegionOn_run (backwards : Bool) {off size : Nat} (some : 0 < size) (fits : off + size ≤ bd.faSize a)
    (aligned : Aligned bd requiresErase a off size) :
    let run := bootScrambleRegionOn bd requiresErase a off size backwards fl
    let start := scrambledFrom bd requiresErase backwards a off
    run.value = .ok () ∧ run.state = fl.erase a start (off + size - start) ∧ off ≤ start ∧ start ≤ off + size := by
  obtain ⟨_, value, state⟩ := wp_returns
    (bootScrambleRegionOn_wp some fits aligned (Q := fun _ fl' => fl' = fl.erase a _ (off + size - _)) rfl)
  refine ⟨value, state, ?_, ?_⟩
  · unfold scrambledFrom
    split <;> omega
  · unfold scrambledFrom
    split
    next blocks =>
      rw [Aligned, blocks.1, if_neg Bool.false_ne_true] at aligned
      exact Nat.add_le_add_left (Nat.le_of_dvd some aligned.2) off
    next => omega

/-- A range is erased, and nothing else is, unless its first block is left out and was not erased before. -/
theorem region_erased_iff (backwards : Bool) {off size : Nat} (some : 0 < size) (fits : off + size ≤ bd.faSize a)
    (aligned : Aligned bd requiresErase a off size) :
    let run := bootScrambleRegionOn bd requiresErase a off size backwards fl
    Flash.Erased run.state a off (off + size) ∧ Flash.EqOutside a off (off + size) fl run.state ↔
      requiresErase = true ∨ backwards = false ∨ Flash.Erased fl a off (off + bd.align a) := by
  obtain ⟨-, state, le_start, start_le⟩ := bootScrambleRegionOn_run requiresErase fl backwards some fits aligned
  have outside : Flash.EqOutside a off (off + size) fl
      (bootScrambleRegionOn bd requiresErase a off size backwards fl).state := by
    rw [state]
    exact (Flash.eqOutside_erase fl a _ _).mono le_start (by omega)
  dsimp only
  rw [and_iff_left outside, state, erased_iff start_le]
  have nothing : Flash.Erased fl a off off := fun i lo hi => by omega
  cases requiresErase with
  | true => simpa [scrambledFrom] using nothing
  | false =>
    cases backwards with
    | true => simp [scrambledFrom]
    | false => simpa [scrambledFrom] using nothing

theorem swapScrambleTrailerSectorsOn_run (room : scrambleSz bd a ≤ bd.faSize a) :
    let run := swapScrambleTrailerSectorsOn bd requiresErase a fl
    let start := trailerScrambledFrom bd requiresErase a
    run.value = .ok () ∧ run.state = fl.erase a start (bd.faSize a - start) := by
  obtain ⟨_, value, state⟩ := wp_returns
    (swapScrambleTrailerSectorsOn_wp room (Q := fun _ fl' => fl' = fl.erase a _ (bd.faSize a - _)) rfl)
  exact ⟨value, state⟩

theorem align_le_scrambleSz (bd : Board) (a : Area) : bd.align a ≤ scrambleSz bd a := by
  have unit := Nat.le_of_dvd (Nat.lt_of_lt_of_le (by decide) bd.maxAlign_ge) (bd.align_dvd a)
  have info := infoSz_le_scrambleSz bd a
  unfold bootTrailerInfoSz at info
  omega

theorem trailer_byte (room : scrambleSz bd a ≤ bd.faSize a) {i : Nat} (low : bd.faSize a - scrambleSz bd a ≤ i)
    (high : i < bd.faSize a) : (swapScrambleTrailerSectorsOn bd requiresErase a fl).state a i =
      if requiresErase = true ∨ bd.faSize a - scrambleSz bd a + bd.align a ≤ i then erasedVal else fl a i := by
  obtain ⟨-, state⟩ := swapScrambleTrailerSectorsOn_run requiresErase fl room
  rw [state]
  cases requiresErase with
  | true =>
    obtain ⟨t, -, found, start, -⟩ := trailerSector room
    have first : trailerScrambledFrom bd true a = bd.sectorOff a t := by simp [trailerScrambledFrom, found]
    exact Flash.erase_inside _ _ (by omega) (by omega)
  | false =>
    have first : trailerScrambledFrom bd false a = bd.faSize a - scrambleSz bd a + bd.align a := by
      simp [trailerScrambledFrom]
    by_cases above : bd.faSize a - scrambleSz bd a + bd.align a ≤ i
    · rw [if_pos (.inr above)]
      exact Flash.erase_inside _ _ above (by omega)
    · rw [if_neg (by simp [above])]
      exact Flash.erase_outside _ (by omega)

theorem trailer_erased_iff (room : scrambleSz bd a ≤ bd.faSize a) :
    let start := bd.faSize a - scrambleSz bd a
    Flash.Erased (swapScrambleTrailerSectorsOn bd requiresErase a fl).state a start (bd.faSize a) ↔
      requiresErase = true ∨ Flash.Erased fl a start (start + bd.align a) := by
  obtain ⟨-, state⟩ := swapScrambleTrailerSectorsOn_run requiresErase fl room
  dsimp only
  rw [state]
  cases requiresErase with
  | true =>
    obtain ⟨t, -, found, low, -⟩ := trailerSector room
    have first : trailerScrambledFrom bd true a = bd.sectorOff a t := by simp [trailerScrambledFrom, found]
    rw [first, erased_iff (by omega)]
    exact iff_of_true (fun i lo hi => by omega) (.inl rfl)
  | false =>
    have unit := align_le_scrambleSz bd a
    have first : trailerScrambledFrom bd false a = bd.faSize a - scrambleSz bd a + bd.align a := by
      simp [trailerScrambledFrom]
    rw [first, erased_iff (by omega)]
    simp

theorem status_erased_iff (keeps : bd.KeepsStatus) (room : scrambleSz bd .primary ≤ bd.faSize .primary) :
    (∀ i, i < bootStatusEntries bd .primary →
      (swapScrambleTrailerSectorsOn bd requiresErase .primary fl).state .primary (statusAt bd i) = erasedVal) ↔
    requiresErase = true ∨ fl .primary (statusAt bd 0) = erasedVal := by
  obtain ⟨top, bottom⟩ := keeps.statusAt_entries room
  have inside : ∀ i, i < bootStatusEntries bd .primary → statusAt bd i < bd.faSize .primary := by
    intro i lt
    have := keeps.statusAt_lt lt
    omega
  have byte : ∀ i, i < bootStatusEntries bd .primary →
      (swapScrambleTrailerSectorsOn bd requiresErase .primary fl).state .primary (statusAt bd i) = _ := fun i lt =>
    trailer_byte requiresErase fl room (bottom ▸ statusAt_mono bd (Nat.zero_le i)) (inside i lt)
  constructor
  · intro erased
    have entries : 0 < bootStatusEntries bd .primary := by
      have count : bootStatusEntries bd .primary = bd.statusStateCount * bd.maxImgSectors := by
        rw [bootStatusEntries, if_neg fun h => keeps.not_scratch h.1]
      have states : 0 < bd.statusStateCount := by
        unfold Board.statusStateCount
        split <;> decide
      have sectors : 0 < bd.numSectors .primary := by
        obtain ⟨t, lt, -⟩ := trailerSector room
        omega
      rw [count]
      exact Nat.mul_pos states (sectors.trans_le (bd.sectors_le .primary))
    have first := erased 0 entries
    rw [byte 0 entries] at first
    by_cases erases : requiresErase = true
    · exact .inl erases
    · have block : ¬bd.faSize .primary - scrambleSz bd .primary + bd.align .primary ≤ statusAt bd 0 := by
        have pos := keeps.writeSz_pos
        rw [keeps.writeSz_eq] at pos
        omega
      rw [if_neg (by simp [erases, block])] at first
      exact .inr first
  · intro enough i lt
    rw [byte i lt]
    split
    next => rfl
    next survives =>
      rw [not_or] at survives
      cases i with
      | zero => exact enough.resolve_left survives.1
      | succ i =>
        -- the next status byte is in the next block
        have next : statusAt bd 0 + bd.align .primary ≤ statusAt bd (i + 1) := by
          rw [← keeps.writeSz_eq, statusAt, statusAt, Nat.succ_mul]
          omega
        omega

end Survives

/-- A range, and a trailer, is erased exactly if the device requires erase, blocks are written upwards, or the first
block was erased before; of the status exactly if its first byte was. -/
theorem scramble_erases_iff (bd : Board) (requiresErase : Bool) (a : Area) (fl : Flash) :
    (∀ off size backwards, 0 < size → off + size ≤ bd.faSize a → Aligned bd requiresErase a off size →
      let run := bootScrambleRegionOn bd requiresErase a off size backwards fl
      run.value = .ok () ∧
        (Flash.Erased run.state a off (off + size) ∧ Flash.EqOutside a off (off + size) fl run.state ↔
          requiresErase = true ∨ backwards = false ∨ Flash.Erased fl a off (off + bd.align a))) ∧
    (scrambleSz bd a ≤ bd.faSize a →
      let run := swapScrambleTrailerSectorsOn bd requiresErase a fl
      let start := bd.faSize a - scrambleSz bd a
      run.value = .ok () ∧ (Flash.Erased run.state a start (bd.faSize a) ↔
          requiresErase = true ∨ Flash.Erased fl a start (start + bd.align a)) ∧
        (bd.KeepsStatus → a = .primary →
          ((∀ i, i < bootStatusEntries bd .primary → run.state .primary (statusAt bd i) = erasedVal) ↔
            requiresErase = true ∨ fl .primary (statusAt bd 0) = erasedVal))) := by
  constructor
  · intro off size backwards some fits aligned
    exact ⟨(bootScrambleRegionOn_run requiresErase fl backwards some fits aligned).1,
      region_erased_iff requiresErase fl backwards some fits aligned⟩
  · intro room
    refine ⟨(swapScrambleTrailerSectorsOn_run requiresErase fl room).1, trailer_erased_iff requiresErase fl room, ?_⟩
    rintro keeps rfl
    exact status_erased_iff requiresErase fl keeps room

theorem scramble_erases_upwards :
    let bd := (SwapMove.demoLoader (fun _ => 3) (by decide)).board
    let run := bootScrambleRegionOn bd false .primary 64 128 false (fun _ _ => 0)
    Flash.Erased run.state .primary 64 192 ∧ Flash.EqOutside .primary 64 192 (fun _ _ => 0) run.state := by
  refine (((scramble_erases_iff (SwapMove.demoLoader (fun _ => 3) (by decide)).board false .primary (fun _ _ => 0)).1
    64 128 false (by decide) (by decide) ?_).2).mpr (.inr (.inl rfl))
  exact ⟨by decide, by decide⟩

/-- On a device that requires no erase the first status byte is still there after the trailer was scrambled. -/
theorem first_status_survives :
    let bd := (SwapMove.demoLoader (fun _ => 0) (by decide)).board
    let fl : Flash := fun a i => if a = .primary ∧ i = statusAt bd 0 then 1 else erasedVal
    let run := swapScrambleTrailerSectorsOn bd false .primary fl
    scrambleSz bd .primary ≤ bd.faSize .primary ∧ run.value = .ok () ∧ run.state .primary (statusAt bd 0) = 1 := by
  decide +kernel

end Adaboot
