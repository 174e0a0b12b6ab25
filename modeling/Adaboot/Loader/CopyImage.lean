import Adaboot.Crash.Log
import Adaboot.Swap.Scratch

/-!
# What `boot_copy_image` erases before it writes

Fast builds, and those that bootstrap a bad primary slot, erase only the sectors of the image and of the trailer. How
much is copied is rounded separately. The calls are followed one by one, to see which bytes are written to sectors
that were not erased.
-/

namespace Adaboot

open Nor Crash

/-- A call of the flash driver that changes an area. -/
inductive Call where
  | erase (a : Area) (off len : Nat)
  | write (a : Area) (off : Nat) (data : Bytes)
deriving DecidableEq

def Call.act : Call → Flash → Flash
  | erase a off len, fl => fl.erase a off len
  | write a off data, fl => fl.program a off data

/-! ### The calls of the function -/

section Logs

variable (bd : Board)

def Erasure.log (a : Area) (erasure : Erasure) : Log Call BootErr Unit :=
  ⟨erasure.1.map fun sector => .erase a sector.1 sector.2,
    match erasure.2 with
    | none => .ok ()
    | some e => .error e⟩

/-- `boot_erase_region`, from low to high sectors. -/
def eraseRegionLog (a : Area) (off size : Nat) : Log Call BootErr Unit :=
  (erasedSectors (bd.layout a) off size false).log a

/-- `flash_area_write`. -/
def writeLog (a : Area) (off : Nat) (data : Bytes) : Log Call BootErr Unit :=
  if off + data.length ≤ bd.faSize a then .call (.write a off data) else .throw .eflash

/-- `assert(rc == 0)` behind a call. -/
def assertOkLog {α : Type} (log : Log Call BootErr α) : Log Call BootErr α := log.mapError fun _ => .panic

/-- The loop of `boot_copy_region`, with what it reads from `fl`. -/
def copyLoopLog (fl : Flash) (src dst : Area) (offSrc offDst sz : Nat) : Nat → Nat → Log Call BootErr Unit
  | 0, _ => .throw .panic
  | fuel + 1, bytesCopied =>
    if bytesCopied < sz then
      let chunkSz := if sz - bytesCopied > bd.bufSz then bd.bufSz else sz - bytesCopied
      match flashAreaRead (bd.area fl src) (offSrc + bytesCopied) chunkSz with
      | none => .throw .eflash
      | some buf => do
        writeLog bd dst (offDst + bytesCopied) buf
        copyLoopLog fl src dst offSrc offDst sz fuel (bytesCopied + chunkSz)
    else pure ()

/-- The loop of `boot_copy_image` that erases the primary slot. -/
def copyImageEraseLog (srcSize : Nat) : Nat → Nat → Nat → Log Call BootErr Nat
  | 0, _, size => pure size
  | n + 1, sect, size => do
    let thisSize := bd.sectorSize .primary sect
    assertOkLog (eraseRegionLog bd .primary size thisSize)
    if bd.mode.isFast ∧ size + thisSize ≥ srcSize then
      return srcSize + (bd.writeSz - srcSize % bd.writeSz)
    copyImageEraseLog srcSize n (sect + 1) (size + thisSize)

/-- `boot_scramble_region`. -/
def scrambleRegionLog (a : Area) (off size : Nat) : Log Call BootErr Unit :=
  if size = 0 then pure () else eraseRegionLog bd a off size

/-- `boot_write_magic`. -/
def writeMagicLog (a : Area) : Log Call BootErr Unit := writeLog bd a (alignDown (bootMagicOff bd a) bd.maxAlign)
    (List.replicate (bd.magicAlignSize - bootMagicSz) erasedVal ++ bootImgMagic bd)

/-- The end of `boot_copy_image`. -/
def eraseSecondaryLog : Log Call BootErr Unit := do
  if ¬bd.mode.keepsBackup then
    assertOkLog (scrambleRegionLog bd .secondary (bd.sectorOff .secondary 0) (bd.sectorSize .secondary 0))
  let lastSector := bd.numSectors .secondary - 1
  assertOkLog (scrambleRegionLog bd .secondary (bd.sectorOff .secondary lastSector)
    (bd.sectorSize .secondary lastSector))

end Logs

/-- The calls of `boot_copy_image` from a state of the flash. -/
def copyImageLog (b : LoaderBuild) (alg : SwapAlgo) (st : BootState) (fl : Flash) : Log Call BootErr Unit :=
  let bd := b.board
  let copy (srcOff size : Nat) := copyLoopLog bd fl .secondary .primary srcOff 0 size (size + 1) 0
  if bd.mode.isFast then
    match alg.bootReadImageSize fl st .secondary with
    | none => .throw .panic
    | some (srcSize, _) => do
      let size ← copyImageEraseLog bd srcSize (bd.numSectors .primary) 0 0
      match trailerSectors bd (bootTrailerSz bd bd.writeSz) (bd.numSectors .primary) 0 with
      | none => .throw .panic
      | some (off, sz) => do
        assertOkLog (eraseRegionLog bd .primary off sz)
        copy (copyImageFrom b) size
        writeMagicLog bd .primary
        eraseSecondaryLog bd
  else do
    let size ← copyImageEraseLog bd 0 (bd.numSectors .primary) 0 0
    copy 0 size
    eraseSecondaryLog bd

/-! ### The function makes these calls -/

section Makes

variable {bd : Board} {a : Area} {fl : Flash}

theorem makes_eraseAll {erasure : Erasure} (inside : ∀ sector ∈ erasure.1, sector.1 + sector.2 ≤ bd.faSize a) :
    Makes Call.act (eraseAll bd a erasure) fl (erasure.log a) := by
  obtain ⟨sectors, failure⟩ := erasure
  induction sectors generalizing fl with
  | nil => cases failure <;> rfl
  | cons sector sectors ih =>
    have fits := inside sector (.head _)
    have first : Makes Call.act (flashAreaErase bd a sector.1 sector.2) fl (.call (.erase a sector.1 sector.2)) := by
      rw [flashAreaErase, if_pos fits]
      exact Makes.op (Call.erase a sector.1 sector.2)
    exact first.bind fun _ _ => ih fun sector mem => inside sector (.tail _ mem)

theorem makes_eraseRegion (off size : Nat) :
    Makes Call.act (bootEraseRegion bd a off size false) fl (eraseRegionLog bd a off size) := by
  rw [bootEraseRegion_eq]
  apply makes_eraseAll
  intro sector mem
  obtain ⟨k, lt, rfl, -⟩ := mem_erasedSectors mem
  have next := sectorOff_succ lt
  have ends := sectorOff_le_sum (bd.layout a) (k + 1)
  unfold sectorOf Board.faSize
  omega

theorem makes_assertOk {α : Type} {m : Boot α} {log : Log Call BootErr α} (made : Makes Call.act m fl log) :
    Makes Call.act (assertOk m) fl (assertOkLog log) :=
  made.handle_throw

theorem makes_write (off : Nat) (data : Bytes) :
    Makes Call.act (flashAreaWrite bd a off data) fl (writeLog bd a off data) := by
  unfold flashAreaWrite writeLog
  split
  · exact Makes.op (Call.write a off data)
  · exact Makes.throw _

theorem makes_copyLoop {src dst : Area} {offSrc offDst sz : Nat} (ne : dst ≠ src) {fl' : Flash}
    (same : fl' src = fl src)
    (fuel bytesCopied : Nat) : Makes Call.act (copyLoop bd src dst offSrc offDst sz fuel bytesCopied) fl'
      (copyLoopLog bd fl src dst offSrc offDst sz fuel bytesCopied) := by
  induction fuel generalizing fl' bytesCopied with
  | zero => exact Makes.throw _
  | succ fuel ih =>
    unfold copyLoop copyLoopLog
    split
    · refine Makes.get_bind ?_
      have area : bd.area fl' src = bd.area fl src := by simp only [Board.area, same]
      rw [area]
      dsimp only
      cases flashAreaRead (bd.area fl src) (offSrc + bytesCopied)
          (if sz - bytesCopied > bd.bufSz then bd.bufSz else sz - bytesCopied) with
      | none => exact Makes.throw _
      | some buf =>
        refine (makes_write _ _).bind fun _ _ => ih ?_ _
        rw [← same]
        refine stateAfter_part (fun fl => fl src) (fun call mem fl => ?_) fl'
        rw [writeLog] at mem
        split at mem
        · obtain rfl := List.mem_singleton.mp mem
          funext i
          exact Flash.program_outside _ fun there => absurd there.symm ne
        · exact absurd mem (List.not_mem_nil)
    · exact Makes.pure _

theorem makes_copyImageErase (srcSize n sect size : Nat) :
    Makes Call.act (copyImageErase bd srcSize n sect size) fl (copyImageEraseLog bd srcSize n sect size) := by
  induction n generalizing sect size fl with
  | zero => exact Makes.pure _
  | succ n ih =>
    refine (makes_assertOk (makes_eraseRegion _ _)).bind fun _ _ => ?_
    split
    · exact Makes.pure _
    · exact ih _ _

theorem makes_scrambleRegion (off size : Nat) :
    Makes Call.act (bootScrambleRegion bd a off size false) fl (scrambleRegionLog bd a off size) := by
  unfold bootScrambleRegion scrambleRegionLog
  split
  · exact Makes.pure _
  · exact makes_eraseRegion _ _

theorem makes_eraseSecondary (b : LoaderBuild) : Makes Call.act (eraseSecondary b) fl (eraseSecondaryLog b.board) := by
  unfold eraseSecondary eraseSecondaryLog
  dsimp only
  split
  · refine (makes_assertOk (makes_scrambleRegion _ _)).bind fun _ _ => ?_
    exact makes_assertOk (makes_scrambleRegion _ _)
  · exact makes_assertOk (makes_scrambleRegion _ _)

theorem stateAfter_erases {calls : List Call} (erases : ∀ call ∈ calls, ∃ off len, call = .erase .primary off len)
    (fl : Flash) : stateAfter Call.act calls fl .secondary = fl .secondary := by
  refine stateAfter_part (fun fl => fl .secondary) (fun call mem fl => ?_) fl
  obtain ⟨off, len, rfl⟩ := erases call mem
  funext i
  exact Flash.erase_outside _ fun there => absurd there (by decide)

theorem mem_eraseRegionLog {off size : Nat} {call : Call} (mem : call ∈ (eraseRegionLog bd a off size).calls) :
    ∃ off len, call = .erase a off len := by
  obtain ⟨sector, -, rfl⟩ := List.mem_map.mp mem
  exact ⟨_, _, rfl⟩

theorem mem_copyImageEraseLog {srcSize n sect size : Nat} {call : Call}
    (mem : call ∈ (copyImageEraseLog bd srcSize n sect size).calls) : ∃ off len, call = .erase .primary off len := by
  induction n generalizing sect size with
  | zero => exact absurd mem List.not_mem_nil
  | succ n ih =>
    rcases Log.mem_bind mem with first | ⟨_, -, rest⟩
    · exact mem_eraseRegionLog first
    · split at rest
      · exact absurd rest List.not_mem_nil
      · exact ih rest

theorem makes_bootCopyImage (b : LoaderBuild) (alg : SwapAlgo) (st : BootState) (fl : Flash) :
    Makes Call.act (bootCopyImage b alg st) fl (copyImageLog b alg st fl) := by
  unfold bootCopyImage copyImageLog
  dsimp only
  refine Makes.get_bind ?_
  split
  · cases alg.bootReadImageSize fl st .secondary with
    | none => exact Makes.throw _
    | some read =>
      refine (makes_copyImageErase _ _ _ _).bind fun size _ => ?_
      cases trailerSectors b.board (bootTrailerSz b.board b.board.writeSz) (b.board.numSectors .primary) 0 with
      | none => exact Makes.throw _
      | some trailer =>
        refine (makes_assertOk (makes_eraseRegion _ _)).bind fun _ _ => ?_
        refine (makes_copyLoop (by decide) ?_ _ _).bind fun _ _ => ?_
        · exact (stateAfter_erases (fun _ => mem_eraseRegionLog) _).trans
            (stateAfter_erases (fun _ => mem_copyImageEraseLog) fl)
        · refine (makes_write _ _).bind fun _ _ => ?_
          exact makes_eraseSecondary b
  · refine (makes_copyImageErase _ _ _ _).bind fun size _ => ?_
    refine (makes_copyLoop (by decide) ?_ _ _).bind fun _ _ => ?_
    · exact stateAfter_erases (fun _ => mem_copyImageEraseLog) fl
    · exact makes_eraseSecondary b

end Makes

/-! ### Writes and erased sectors -/

section Erased

variable (bd : Board)

def SectorErased (calls : List Call) (i : Nat) : Prop := ∃ k, InSector (bd.layout .primary) k i ∧
    .erase .primary (bd.sectorOff .primary k) (bd.sectorSize .primary k) ∈ calls

/-- Every byte that is written to the primary slot is in a sector that an earlier call has erased. -/
def ErasedFirst (calls : List Call) : Prop :=
  ∀ before off data after, calls = before ++ .write .primary off data :: after →
    ∀ i, off ≤ i → i < off + data.length → SectorErased bd before i

def WritesByte (calls : List Call) (i : Nat) : Prop :=
  ∃ off data, .write .primary off data ∈ calls ∧ off ≤ i ∧ i < off + data.length

/-- Where the chunk of `boot_copy_region` that has the byte ends, in a copy of `sz` bytes. -/
def chunkEnd (bufSz sz i : Nat) : Nat := min ((i / bufSz + 1) * bufSz) sz

def eraseSector (k : Nat) : Call := .erase .primary (bd.sectorOff .primary k) (bd.sectorSize .primary k)

variable {bd} {calls : List Call} {call : Call} {i off first n sz c offSrc fuel len : Nat} {fl : Flash} {src : Area}

/-- Calls that only erase, and then calls that do not erase the primary slot. -/
theorem erasedFirst_append_iff {erases : List Call}
    (first : ∀ call ∈ erases, ∃ off len, call = .erase .primary off len)
    (rest : ∀ off len, .erase .primary off len ∉ calls) :
    ErasedFirst bd (erases ++ calls) ↔ ∀ i, WritesByte calls i → SectorErased bd erases i := by
  constructor
  · rintro all i ⟨off, data, mem, low, high⟩
    obtain ⟨before, after, rfl⟩ := List.append_of_mem mem
    obtain ⟨k, inside, erased⟩ := all (erases ++ before) off data after (List.append_assoc ..).symm i low high
    refine ⟨k, inside, (List.mem_append.mp erased).resolve_right fun later => ?_⟩
    exact rest _ _ (List.mem_append_left _ later)
  · intro all before off data after same i low high
    rcases List.append_eq_append_iff.mp same with ⟨between, rfl, behind⟩ | ⟨between, erasesEq, behind⟩
    · obtain ⟨k, inside, erased⟩ := all i ⟨off, data, by rw [behind]; simp, low, high⟩
      exact ⟨k, inside, List.mem_append_left _ erased⟩
    · -- a write is none of the first calls
      cases between with
      | nil =>
        rw [List.append_nil] at erasesEq
        obtain ⟨k, inside, erased⟩ := all i ⟨off, data, by rw [← List.nil_append calls, ← behind]; simp, low, high⟩
        exact ⟨k, inside, erasesEq ▸ erased⟩
      | cons call between =>
        obtain ⟨rfl, -⟩ := List.cons.inj behind
        obtain ⟨_, _, wrong⟩ := first (.write .primary off data) (by rw [erasesEq]; simp)
        cases wrong

theorem writesByte_cons :
    WritesByte (call :: calls) i ↔ WritesByte [call] i ∨ WritesByte calls i := by
  simp only [WritesByte, List.mem_cons, List.not_mem_nil, or_false, or_and_right, exists_or]

theorem writesByte_write {data : Bytes} :
    WritesByte [.write .primary off data] i ↔ off ≤ i ∧ i < off + data.length := by
  constructor
  · rintro ⟨off', data', mem, range⟩
    obtain ⟨-, rfl, rfl⟩ := Call.write.inj (List.mem_singleton.mp mem)
    exact range
  · intro range
    exact ⟨off, data, List.mem_singleton.mpr rfl, range⟩

theorem sectorErased_range (le : first + n ≤ bd.numSectors .primary) :
    SectorErased bd ((List.range' first n).map (eraseSector bd)) i ↔
      bd.sectorOff .primary first ≤ i ∧ i < bd.sectorOff .primary (first + n) := by
  constructor
  · rintro ⟨k, inside, mem⟩
    obtain ⟨k', range, same⟩ := List.mem_map.mp mem
    obtain ⟨-, start, -⟩ := Call.erase.inj same
    obtain ⟨low, high⟩ := List.mem_range'_1.mp range
    have lt : k' < bd.numSectors .primary := by omega
    obtain rfl := sectorOff_inj (bd.sector_pos .primary) lt.le inside.lt.le start
    exact ⟨Nat.le_trans (bd.sectorOff_mono .primary low) inside.low,
      inside.high.trans_le (bd.sectorOff_mono .primary high)⟩
  · rintro ⟨low, high⟩
    have ends := bd.sectorOff_le_faSize .primary (first + n)
    obtain ⟨k, inside⟩ : ∃ k, InSector (bd.layout .primary) k i := InSector.exists (high.trans_le ends)
    have above : first < k + 1 := lt_of_sectorOff_lt (low.trans_lt inside.high)
    have below : k < first + n := lt_of_sectorOff_lt (inside.low.trans_lt high)
    exact ⟨k, inside, List.mem_map.mpr ⟨k, List.mem_range'_1.mpr ⟨by omega, below⟩, rfl⟩⟩

theorem chunkEnd_le (bufSz sz i : Nat) : chunkEnd bufSz sz i ≤ sz := Nat.min_le_right _ _

theorem chunkEnd_spec {bufSz : Nat} (pos : 0 < bufSz) (dvd : bufSz ∣ n) (lt : n < sz)
    (size : c = if sz - n > bufSz then bufSz else sz - n) :
    (∀ i, n ≤ i → i < n + c → chunkEnd bufSz sz i = n + c) ∧ (∀ i, n ≤ i → i < sz → n + c ≤ chunkEnd bufSz sz i) := by
  obtain ⟨q, rfl⟩ := dvd
  have unit (j : Nat) : (j + 1) * bufSz = bufSz * j + bufSz := by rw [Nat.mul_comm, Nat.mul_succ]
  constructor
  · intro i low high
    have chunk : i / bufSz = q := by
      have within : i < bufSz * q + bufSz := by
        split at size <;> omega
      exact Nat.div_eq_of_lt_le (by rw [Nat.mul_comm]; exact low) (by rw [unit]; exact within)
    unfold chunkEnd
    rw [chunk, unit]
    split at size <;> omega
  · intro i low _
    have chunk : q ≤ i / bufSz := (Nat.le_div_iff_mul_le pos).mpr (by rw [Nat.mul_comm]; exact low)
    have behind := Nat.mul_le_mul_left bufSz chunk
    unfold chunkEnd
    rw [unit]
    split at size <;> omega

theorem writesByte_nil (i : Nat) : ¬WritesByte [] i := by
  rintro ⟨off, data, mem, -⟩
  exact absurd mem List.not_mem_nil

theorem copyLoopLog_round (more : n < sz)
    (size : c = if sz - n > bd.bufSz then bd.bufSz else sz - n) :
    (offSrc + (n + c) ≤ bd.faSize src ∧ n + c ≤ bd.faSize .primary ∧ ∃ buf : Bytes, buf.length = c ∧
        (copyLoopLog bd fl src .primary offSrc 0 sz (fuel + 1) n).calls =
          .write .primary n buf :: (copyLoopLog bd fl src .primary offSrc 0 sz fuel (n + c)).calls) ∨
      ¬(offSrc + (n + c) ≤ bd.faSize src ∧ n + c ≤ bd.faSize .primary) ∧
        (copyLoopLog bd fl src .primary offSrc 0 sz (fuel + 1) n).calls = [] := by
  rw [copyLoopLog, if_pos more, ← size]
  dsimp only
  cases read : flashAreaRead (bd.area fl src) (offSrc + n) c with
  | none =>
    refine .inr ⟨fun fits => ?_, rfl⟩
    have isSome : flashAreaRead (bd.area fl src) (offSrc + n) c = _ :=
      flashAreaRead_of_le (show offSrc + n + c ≤ bd.faSize src by omega)
    rw [isSome] at read
    cases read
  | some buf =>
    obtain ⟨reads, rfl⟩ := flashAreaRead_eq_some read
    have reads : offSrc + n + c ≤ bd.faSize src := reads
    have length : ((List.range c).map fun j => (bd.area fl src).byte (offSrc + n + j)).length = c := by simp
    rw [Nat.zero_add]
    dsimp only
    by_cases fits : n + c ≤ bd.faSize .primary
    · refine .inl ⟨by omega, fits, _, length, ?_⟩
      rw [writeLog, if_pos (by rwa [length])]
      rfl
    · refine .inr ⟨fun both => fits both.2, ?_⟩
      rw [writeLog, if_neg (by rwa [length])]
      rfl

/-- From the first chunk on that it cannot read, or that does not fit, the copy writes nothing. -/
theorem copyLoopLog_writesByte (start : bd.bufSz ∣ n ∨ sz ≤ n)
    (enough : sz < n + fuel) : WritesByte (copyLoopLog bd fl src .primary offSrc 0 sz fuel n).calls i ↔
      n ≤ i ∧ i < sz ∧ offSrc + chunkEnd bd.bufSz sz i ≤ bd.faSize src ∧
        chunkEnd bd.bufSz sz i ≤ bd.faSize .primary := by
  induction fuel generalizing n with
  | zero =>
    refine iff_of_false (writesByte_nil i) ?_
    omega
  | succ fuel ih =>
    by_cases more : n < sz
    · have dvd := start.resolve_right (by omega)
      have pos := bd.bufSz_pos
      obtain ⟨c, size⟩ : ∃ c, c = if sz - n > bd.bufSz then bd.bufSz else sz - n := ⟨_, rfl⟩
      obtain ⟨chunk, behind⟩ := chunkEnd_spec pos dvd more size
      have cPos : 0 < c := by
        split at size <;> omega
      have cLe : n + c ≤ sz := by
        split at size <;> omega
      rcases @copyLoopLog_round bd n sz c offSrc fuel fl src more size with ⟨reads, fits, buf, length, calls⟩ | ⟨fails, calls⟩
      · have next : bd.bufSz ∣ n + c ∨ sz ≤ n + c := by
          split at size
          · rw [size]
            exact .inl (Nat.dvd_add dvd (Nat.dvd_refl _))
          · exact .inr (by omega)
        rw [calls, writesByte_cons, writesByte_write, ih next (by omega), length]
        by_cases this : i < n + c
        · constructor
          · intro written
            have ends := chunk i (by omega) this
            omega
          · intro written
            exact .inl ⟨written.1, this⟩
        · constructor
          · rintro (written | written)
            · omega
            · exact ⟨by omega, written.2⟩
          · intro written
            exact .inr ⟨by omega, written.2⟩
      · rw [calls]
        refine iff_of_false (writesByte_nil i) fun ⟨low, high, reads, fits⟩ => fails ?_
        have := behind i low high
        omega
    · have ended : copyLoopLog bd fl src .primary offSrc 0 sz (fuel + 1) n = pure () := if_neg more
      rw [ended]
      refine iff_of_false (writesByte_nil i) ?_
      omega

theorem erases_none_of_copyLoopLog :
    .erase .primary off len ∉ (copyLoopLog bd fl src .primary offSrc 0 sz fuel n).calls := by
  induction fuel generalizing n with
  | zero => exact List.not_mem_nil
  | succ fuel ih =>
    by_cases more : n < sz
    · rcases @copyLoopLog_round bd n sz _ offSrc fuel fl src more rfl with ⟨-, -, buf, -, calls⟩ | ⟨-, calls⟩
      · rw [calls]
        intro mem
        rcases List.mem_cons.mp mem with same | mem
        · cases same
        · exact ih mem
      · rw [calls]
        exact List.not_mem_nil
    · have ended : copyLoopLog bd fl src .primary offSrc 0 sz (fuel + 1) n = pure () := if_neg more
      rw [ended]
      exact List.not_mem_nil

theorem eraseRegionLog_span {last : Nat} (lt : first < last) (le : last ≤ bd.numSectors .primary) :
    eraseRegionLog bd .primary (bd.sectorOff .primary first) (bd.sectorOff .primary last - bd.sectorOff .primary first) =
      ⟨(List.range' first (last - first)).map (eraseSector bd), .ok ()⟩ := by
  unfold eraseRegionLog Board.sectorOff
  rw [erasedSectors_span (fun s mem => Nat.le_trans (by decide) (bd.sector_ge .primary s mem)) lt le]
  simp only [Erasure.log, List.map_map]
  rfl

/-- The erase loop erases sector by sector, up to the end of the slot or, in fast builds, of the image. -/
structure ErasesImage (bd : Board) (srcSize sect m : Nat) (log : Log Call BootErr Nat) : Prop where
  le : sect ≤ m
  inside : m ≤ bd.numSectors .primary
  calls : log.calls = (List.range' sect (m - sect)).map (eraseSector bd)
  ends : m = bd.numSectors .primary ∧ log.value = .ok (bd.faSize .primary) ∧
      (bd.mode.isFast → sect < m → bd.faSize .primary < srcSize) ∨
    bd.mode.isFast ∧ sect < m ∧ (m = sect + 1 ∨ bd.sectorOff .primary (m - 1) < srcSize) ∧
      srcSize ≤ bd.sectorOff .primary m ∧ log.value = .ok (srcSize + (bd.writeSz - srcSize % bd.writeSz))

theorem copyImageEraseLog_spec {srcSize sect : Nat} (sum : sect + n = bd.numSectors .primary) :
    ∃ m, ErasesImage bd srcSize sect m (copyImageEraseLog bd srcSize n sect (bd.sectorOff .primary sect)) := by
  induction n generalizing sect with
  | zero =>
    obtain rfl : sect = bd.numSectors .primary := by omega
    refine ⟨_, le_rfl, le_rfl, by rw [Nat.sub_self]; rfl, .inl ⟨rfl, ?_, fun _ lt => by omega⟩⟩
    rw [bd.sectorOff_numSectors]
    rfl
  | succ n ih =>
    have lt : sect < bd.numSectors .primary := by omega
    have next := bd.sectorOff_succ lt
    have one : eraseRegionLog bd .primary (bd.sectorOff .primary sect) (bd.sectorSize .primary sect) =
        ⟨[eraseSector bd sect], .ok ()⟩ := by
      have span := @eraseRegionLog_span bd sect (sect + 1) (Nat.lt_succ_self _) lt
      rwa [next, Nat.add_sub_cancel_left, Nat.add_sub_cancel_left] at span
    rw [copyImageEraseLog, one, ← next]
    split
    next stop =>
      refine ⟨sect + 1, by omega, lt, by rw [Nat.add_sub_cancel_left]; rfl, .inr ⟨stop.1, by omega, .inl rfl, ?_, rfl⟩⟩
      exact stop.2
    next go =>
      obtain ⟨m, rest⟩ := ih (show sect + 1 + n = _ by omega)
      have le := rest.le
      refine ⟨m, by omega, rest.inside, ?_, ?_⟩
      · have split : m - sect = m - (sect + 1) + 1 := by omega
        rw [split, List.range'_succ, List.map_cons, ← rest.calls]
        rfl
      · have behind (fast : bd.mode.isFast = true) : bd.sectorOff .primary (sect + 1) < srcSize := by
          have := not_and.mp go fast
          omega
        rcases rest.ends with ⟨whole, value, larger⟩ | ⟨fast, _, after, enough, value⟩
        · refine .inl ⟨whole, value, fun fast _ => ?_⟩
          rcases Nat.eq_or_lt_of_le le with same | more
          · have := behind fast
            rwa [same, whole, bd.sectorOff_numSectors] at this
          · exact larger fast more
        · refine .inr ⟨fast, by omega, .inr ?_, enough, value⟩
          rcases after with same | after
          · rw [same, Nat.add_sub_cancel]
            exact behind fast
          · exact after

theorem trailerSectors_eq_some {trailerSz sector : Nat} (le : sector ≤ bd.numSectors .primary)
    (sum : bd.sectorOff .primary sector + sz = bd.faSize .primary)
    (found : trailerSectors bd trailerSz sector sz = some (off, len)) :
    ∃ s, s < bd.numSectors .primary ∧ off = bd.sectorOff .primary s ∧
      len = bd.faSize .primary - bd.sectorOff .primary s ∧ trailerSz ≤ len := by
  induction sector generalizing sz with
  | zero => simp [trailerSectors] at found
  | succ sector ih =>
    have next := bd.sectorOff_succ (show sector < bd.numSectors .primary by omega)
    rw [trailerSectors] at found
    split at found
    · exact ih (by omega) (by omega) found
    next enough =>
      cases found
      exact ⟨sector, by omega, rfl, by omega, by omega⟩

theorem writeMagicLog_writesByte (room : bootTrailerSz bd bd.writeSz ≤ bd.faSize .primary - off)
    (written : WritesByte (writeMagicLog bd .primary).calls i) : off ≤ i ∧ i < bd.faSize .primary := by
  have info : bd.magicAlignSize ≤ bootTrailerSz bd bd.writeSz := by
    unfold bootTrailerSz bootTrailerInfoSz
    omega
  have start := alignDown_magicOff (show bd.magicAlignSize ≤ bd.faSize .primary by omega)
  unfold writeMagicLog writeLog at written
  split at written
  · have range := writesByte_write.mp written
    omega
  · exact absurd written (writesByte_nil i)

theorem writeSz_dvd_sectorOff (fast : bd.mode.isFast = true) (k : Nat) :
    0 < bd.writeSz ∧ bd.writeSz ∣ bd.sectorOff .primary k := by
  have unit : bd.writeSz = bd.align .primary := if_neg fun scratch => by simp [scratch.1, SwapMode.isFast] at fast
  obtain ⟨log, pow⟩ := bd.align_pow .primary
  rw [unit]
  refine ⟨pow ▸ Nat.two_pow_pos log, ?_⟩
  exact List.dvd_sum fun s mem => Nat.dvd_trans (bd.align_dvd .primary)
    (bd.sector_dvd .primary s (List.mem_of_mem_take mem))

theorem roundUp_le {w x e : Nat} (dvd : w ∣ e) (lt : x < e) : x + (w - x % w) ≤ e := by
  obtain ⟨q, rfl⟩ := dvd
  have split := Nat.div_add_mod x w
  have less : x / w < q := Nat.div_lt_of_lt_mul lt
  have whole := Nat.mul_le_mul_left w (show x / w + 1 ≤ q from less)
  rw [Nat.mul_succ] at whole
  omega

theorem sectorErased_append {calls' : List Call} :
    SectorErased bd (calls ++ calls') i ↔ SectorErased bd calls i ∨ SectorErased bd calls' i := by
  simp only [SectorErased, List.mem_append, and_or_left, exists_or]

theorem mem_scrambleRegionLog {a : Area} {size : Nat}
    (mem : call ∈ (scrambleRegionLog bd a off size).calls) : ∃ off len, call = .erase a off len := by
  unfold scrambleRegionLog at mem
  split at mem
  · exact absurd mem List.not_mem_nil
  · exact mem_eraseRegionLog mem

theorem mem_eraseSecondaryLog (mem : call ∈ (eraseSecondaryLog bd).calls) :
    ∃ off len, call = .erase .secondary off len := by
  unfold eraseSecondaryLog at mem
  split at mem
  · rcases Log.mem_bind mem with first | ⟨_, -, last⟩
    · exact mem_scrambleRegionLog first
    · exact mem_scrambleRegionLog last
  · exact mem_scrambleRegionLog mem

theorem writesByte_of_bind {α β : Type} {log : Log Call BootErr α} {f : α → Log Call BootErr β}
    (written : WritesByte (log >>= f).calls i) : WritesByte log.calls i ∨ ∃ a, WritesByte (f a).calls i := by
  obtain ⟨off, data, mem, range⟩ := written
  rcases Log.mem_bind mem with first | ⟨a, -, rest⟩
  · exact .inl ⟨off, data, first, range⟩
  · exact .inr ⟨a, off, data, rest, range⟩

theorem eraseSecondaryLog_writesByte (i : Nat) : ¬WritesByte (eraseSecondaryLog bd).calls i := by
  rintro ⟨off, data, mem, -⟩
  obtain ⟨_, _, same⟩ := mem_eraseSecondaryLog mem
  cases same

end Erased

/-! ### When a byte is written that was not erased -/

/-- The image ends where a sector does, the sectors of the trailer start later, and the secondary slot has the chunk
behind the image. -/
def CopiesBehind (b : LoaderBuild) (srcSize : Nat) : Prop :=
  ∃ k off len, 0 < k ∧ srcSize = b.board.sectorOff .primary k ∧
    trailerSectors b.board (bootTrailerSz b.board b.board.writeSz) (b.board.numSectors .primary) 0 = some (off, len) ∧
    srcSize < off ∧
    copyImageFrom b + chunkEnd b.board.bufSz (srcSize + b.board.writeSz) srcSize ≤ b.board.faSize .secondary

section Copies

variable {b : LoaderBuild} {alg : SwapAlgo} {st : BootState} {fl : Flash}

def copyFastLog (b : LoaderBuild) (fl : Flash) (size : Nat) : Log Call BootErr Unit := do
  copyLoopLog b.board fl .secondary .primary (copyImageFrom b) 0 size (size + 1) 0
  writeMagicLog b.board .primary
  eraseSecondaryLog b.board

theorem copyFastLog_erases (size off len : Nat) : .erase .primary off len ∉ (copyFastLog b fl size).calls := by
  intro mem
  rcases Log.mem_bind mem with copy | ⟨_, -, rest⟩
  · exact erases_none_of_copyLoopLog copy
  · rcases Log.mem_bind rest with magic | ⟨_, -, erased⟩
    · unfold writeMagicLog writeLog at magic
      split at magic
      · cases List.mem_singleton.mp magic
      · exact absurd magic List.not_mem_nil
    · obtain ⟨_, _, same⟩ := mem_eraseSecondaryLog erased
      cases same

variable {size i bufSz sz srcSize m : Nat} {log : Log Call BootErr Nat}

theorem copyFastLog_writesByte {off : Nat}
    (room : bootTrailerSz b.board b.board.writeSz ≤ b.board.faSize .primary - off)
    (written : WritesByte (copyFastLog b fl size).calls i) :
    (i < size ∧ copyImageFrom b + chunkEnd b.board.bufSz size i ≤ b.board.faSize .secondary ∧
      chunkEnd b.board.bufSz size i ≤ b.board.faSize .primary) ∨ off ≤ i ∧ i < b.board.faSize .primary := by
  rcases writesByte_of_bind written with copy | ⟨_, rest⟩
  · rw [copyLoopLog_writesByte (.inl (Nat.dvd_zero _)) (by omega)] at copy
    exact .inl copy.2
  · rcases writesByte_of_bind rest with magic | ⟨_, erased⟩
    · exact .inr (writeMagicLog_writesByte room magic)
    · exact absurd erased (eraseSecondaryLog_writesByte i)

theorem lt_chunkEnd (pos : 0 < bufSz) (lt : i < sz) : i < chunkEnd bufSz sz i := by
  have behind := Nat.lt_mul_div_succ i pos
  rw [Nat.mul_comm] at behind
  exact Nat.lt_min.mpr ⟨behind, lt⟩

theorem chunkEnd_mono {j : Nat} (le : i ≤ j) : chunkEnd bufSz sz i ≤ chunkEnd bufSz sz j := by
  have chunks : (i / bufSz + 1) * bufSz ≤ (j / bufSz + 1) * bufSz :=
    Nat.mul_le_mul_right bufSz (Nat.succ_le_succ (Nat.div_le_div_right le))
  unfold chunkEnd
  omega

theorem ErasesImage.at_end {k : Nat} {bd : Board}
    (fast : bd.mode.isFast = true) (image : ErasesImage bd srcSize 0 m log) (value : log.value = .ok size) (some : 0 < k)
    (le : k ≤ bd.numSectors .primary) (ends : srcSize = bd.sectorOff .primary k) :
    k = m ∧ size = srcSize + bd.writeSz := by
  have inside := bd.sectorOff_le_faSize .primary k
  rcases image.ends with ⟨whole, -, larger⟩ | ⟨-, _, previous, enough, value'⟩
  · have := larger fast (by omega)
    omega
  · have same : k = m := by
      apply Nat.le_antisymm
      · by_contra more
        have := sectorOff_lt (bd.sector_pos .primary) (show m < k by omega) le
        unfold Board.sectorOff at enough ends
        omega
      · rcases previous with one | previous
        · omega
        · rw [ends] at previous
          have := lt_of_sectorOff_lt previous
          omega
    refine ⟨same, ?_⟩
    rw [value'] at value
    rw [← Except.ok.inj value, ends, Nat.mod_eq_zero_of_dvd (writeSz_dvd_sectorOff fast k).2, Nat.sub_zero]

/-- The erased sectors are those up to `m` and those from `s` on. -/
theorem writes_erased_iff {s : Nat} (fast : b.board.mode.isFast = true)
    (image : ErasesImage b.board srcSize 0 m log) (value : log.value = .ok size) (lt : s < b.board.numSectors .primary)
    (room : bootTrailerSz b.board b.board.writeSz ≤ b.board.faSize .primary - b.board.sectorOff .primary s)
    (found : trailerSectors b.board (bootTrailerSz b.board b.board.writeSz) (b.board.numSectors .primary) 0 =
      some (b.board.sectorOff .primary s, b.board.faSize .primary - b.board.sectorOff .primary s)) :
    (∀ i, WritesByte (copyFastLog b fl size).calls i →
        i < b.board.sectorOff .primary m ∨ b.board.sectorOff .primary s ≤ i ∧ i < b.board.faSize .primary) ↔
      ¬CopiesBehind b srcSize := by
  have inside := image.inside
  constructor
  · rintro all ⟨k, off, len, some, ends, same, before, reads⟩
    cases found.symm.trans same
    have below : k < s := lt_of_sectorOff_lt (ends ▸ before)
    obtain ⟨rfl, rfl⟩ := image.at_end fast value some (by omega) ends
    -- the first byte behind the image is written
    obtain ⟨pos, dvd⟩ := writeSz_dvd_sectorOff fast (k + 1)
    have next : b.board.sectorOff .primary k < b.board.sectorOff .primary (k + 1) :=
      sectorOff_lt (b.board.sector_pos .primary) (Nat.lt_succ_self k) (show k + 1 ≤ b.board.numSectors .primary by omega)
    have fits := roundUp_le dvd next
    rw [Nat.mod_eq_zero_of_dvd (writeSz_dvd_sectorOff fast k).2, Nat.sub_zero, ← ends] at fits
    have top := b.board.sectorOff_le_faSize .primary (k + 1)
    have chunk := chunkEnd_le b.board.bufSz (srcSize + b.board.writeSz) srcSize
    have written : WritesByte (copyLoopLog b.board fl .secondary .primary (copyImageFrom b) 0 (srcSize + b.board.writeSz)
        (srcSize + b.board.writeSz + 1) 0).calls srcSize :=
      (copyLoopLog_writesByte (.inl (Nat.dvd_zero _)) (by omega)).mpr ⟨by omega, by omega, reads, by omega⟩
    obtain ⟨off, data, mem, range⟩ := written
    rcases all srcSize ⟨off, data, Log.mem_bind_of_mem _ mem, range⟩ with erased | erased
    · omega
    · omega
  · intro none i written
    rcases copyFastLog_writesByte room written with ⟨below, reads, fits⟩ | trailer
    · have within := lt_chunkEnd b.board.bufSz_pos below
      rcases image.ends with ⟨whole, -, -⟩ | ⟨-, some, -, enough, value'⟩
      · left
        rw [whole, b.board.sectorOff_numSectors]
        omega
      · rcases Nat.eq_or_lt_of_le enough with ends | inSector
        · obtain ⟨-, rfl⟩ := image.at_end fast value some inside ends
          by_contra outside
          refine none ⟨m, _, _, some, ends, found, by omega, ?_⟩
          exact Nat.le_trans (Nat.add_le_add_left (chunkEnd_mono (show srcSize ≤ i by omega)) _) reads
        · left
          have := roundUp_le (writeSz_dvd_sectorOff fast m).2 inSector
          rw [value'] at value
          have := Except.ok.inj value
          omega
    · exact .inr trailer

/-- In fast builds the writes are in erased sectors, unless the unit behind the image is copied to one that is not. -/
theorem copyImageLog_fast {st' : BootState} (fast : b.board.mode.isFast = true)
    (read : alg.bootReadImageSize fl st .secondary = some (srcSize, st')) :
    ErasedFirst b.board (copyImageLog b alg st fl).calls ↔ ¬CopiesBehind b srcSize := by
  obtain ⟨m, image⟩ := @copyImageEraseLog_spec b.board (b.board.numSectors .primary) srcSize 0 (by omega)
  have zero : b.board.sectorOff .primary 0 = 0 := sectorOff_zero _
  rw [zero] at image
  have erases := fun call => @mem_copyImageEraseLog b.board srcSize (b.board.numSectors .primary) 0 0 call
  obtain ⟨size, value⟩ : ∃ size, (copyImageEraseLog b.board srcSize (b.board.numSectors .primary) 0 0).value = .ok size := by
    rcases image.ends with ⟨-, value, -⟩ | ⟨-, -, -, -, value⟩
    · exact ⟨_, value⟩
    · exact ⟨_, value⟩
  have inside := image.inside
  unfold copyImageLog
  rw [if_pos fast, read]
  dsimp only
  rw [Log.bind_calls_of_ok value]
  cases found : trailerSectors b.board (bootTrailerSz b.board b.board.writeSz) (b.board.numSectors .primary) 0 with
  | none =>
    have noCalls : (Log.throw BootErr.panic : Log Call BootErr Unit).calls = [] := rfl
    rw [noCalls, erasedFirst_append_iff erases (fun _ _ => List.not_mem_nil)]
    refine iff_of_true (fun i written => absurd written (writesByte_nil i)) ?_
    rintro ⟨_, _, _, -, -, some, -⟩
    rw [found] at some
    cases some
  | some trailer =>
    obtain ⟨s, lt, off, len, room⟩ := trailerSectors_eq_some le_rfl
      (by rw [b.board.sectorOff_numSectors, Nat.add_zero]) found
    obtain ⟨off', len'⟩ := trailer
    subst off len
    have top : b.board.sectorOff .primary (b.board.numSectors .primary) = b.board.faSize .primary :=
      b.board.sectorOff_numSectors .primary
    have span := eraseRegionLog_span lt le_rfl
    rw [top] at span
    dsimp only
    rw [span, Log.bind_calls_of_ok (show (assertOkLog ⟨_, .ok ()⟩ : Log Call BootErr Unit).value = .ok () from rfl)]
    change ErasedFirst b.board ((copyImageEraseLog b.board srcSize (b.board.numSectors .primary) 0 0).calls ++
      ((List.range' s (b.board.numSectors .primary - s)).map (eraseSector b.board) ++ (copyFastLog b fl size).calls)) ↔ _
    have written : (∀ i, WritesByte (copyFastLog b fl size).calls i → _) ↔ _ :=
      writes_erased_iff fast image value lt room found
    rw [← List.append_assoc, erasedFirst_append_iff ?_ (copyFastLog_erases size), ← written]
    · have last : s + (b.board.numSectors .primary - s) = b.board.numSectors .primary := by omega
      apply forall_congr'
      intro i
      rw [sectorErased_append, image.calls, sectorErased_range (by omega), sectorErased_range (by omega), last, top,
        zero, Nat.sub_zero, Nat.zero_add]
      simp only [Nat.zero_le, true_and]
    · intro call mem
      rcases List.mem_append.mp mem with first | second
      · exact erases call first
      · obtain ⟨k, -, rfl⟩ := List.mem_map.mp second
        exact ⟨_, _, rfl⟩

theorem copyImageLog_slow (slow : b.board.mode.isFast = false) :
    ErasedFirst b.board (copyImageLog b alg st fl).calls := by
  obtain ⟨m, image⟩ := @copyImageEraseLog_spec b.board (b.board.numSectors .primary) 0 0 (by omega)
  have zero : b.board.sectorOff .primary 0 = 0 := sectorOff_zero _
  rw [zero] at image
  obtain ⟨whole, value⟩ : m = b.board.numSectors .primary ∧
      (copyImageEraseLog b.board 0 (b.board.numSectors .primary) 0 0).value = .ok (b.board.faSize .primary) := by
    rcases image.ends with ⟨whole, value, -⟩ | ⟨fast, -⟩
    · exact ⟨whole, value⟩
    · simp [slow] at fast
  unfold copyImageLog
  rw [if_neg (by simp [slow]), Log.bind_calls_of_ok value,
    erasedFirst_append_iff (fun call => mem_copyImageEraseLog) fun off len mem => ?_]
  · intro i written
    have below : i < b.board.faSize .primary := by
      rcases writesByte_of_bind written with copy | ⟨_, erased⟩
      · rw [copyLoopLog_writesByte (.inl (Nat.dvd_zero _)) (by omega)] at copy
        exact copy.2.1
      · exact absurd erased (eraseSecondaryLog_writesByte i)
    rw [image.calls, whole, sectorErased_range (by omega), Nat.sub_zero, Nat.zero_add, b.board.sectorOff_numSectors, zero]
    exact ⟨Nat.zero_le _, below⟩
  · rcases Log.mem_bind mem with copy | ⟨_, -, erased⟩
    · exact erases_none_of_copyLoopLog copy
    · obtain ⟨_, _, same⟩ := mem_eraseSecondaryLog erased
      cases same

end Copies

/-- In every build and from every state, only sectors that were erased before are written, exactly if the unit behind
the image is not copied to a sector in between. -/
theorem copy_image_erased_first_iff (b : LoaderBuild) (alg : SwapAlgo) (st : BootState) (fl : Flash) :
    Makes Call.act (bootCopyImage b alg st) fl (copyImageLog b alg st fl) ∧
      (ErasedFirst b.board (copyImageLog b alg st fl).calls ↔
        ∀ srcSize st', b.board.mode.isFast = true → alg.bootReadImageSize fl st .secondary = some (srcSize, st') →
          ¬CopiesBehind b srcSize) := by
  refine ⟨makes_bootCopyImage b alg st fl, ?_⟩
  cases fast : b.board.mode.isFast with
  | false => exact iff_of_true (copyImageLog_slow fast) fun _ _ wrong => by cases wrong
  | true =>
    cases read : alg.bootReadImageSize fl st .secondary with
    | none =>
      refine iff_of_true ?_ fun _ _ _ wrong => by cases wrong
      have panics : copyImageLog b alg st fl = .throw .panic := by
        unfold copyImageLog
        rw [if_pos fast, read]
      rw [panics]
      intro before off data after wrong
      cases before <;> cases wrong
    | some size =>
      rw [copyImageLog_fast fast read]
      constructor
      · rintro none _ _ - same
        rw [← (Prod.mk.inj (Option.some.inj same)).1]
        exact none
      · intro all
        exact all _ _ rfl rfl

def fastLoader : LoaderBuild where
  board := .ofLayout (.overwrite true false) 8 4 64 (fun _ => 0) (fun _ => List.replicate 4 128) Board.fourSectors_fits
  validate := hashBuild
  validatePrimarySlot := true

def sectorImageFlash : Flash := fun a i =>
  if a = .secondary ∧ i < 128 then (hashedImage (List.replicate 56 5)).getD i 0 else erasedVal

def sectorImageState : BootState :=
  BootState.clear.setHdr .secondary (.decode ((hashedImage (List.replicate 56 5)).take 32))

/-- The image fills the first sector: the unit behind it is written to the second one, which has not been erased. -/
theorem sector_image_copied_behind :
    bootCheckImage fastLoader (SwapScratch.algo fastLoader) sectorImageFlash sectorImageState .secondary = true ∧
      (SwapScratch.algo fastLoader).bootReadImageSize sectorImageFlash sectorImageState .secondary =
        some (128, sectorImageState) ∧ ¬ErasedFirst fastLoader.board
        (copyImageLog fastLoader (SwapScratch.algo fastLoader) sectorImageState sectorImageFlash).calls := by
  have read : (SwapScratch.algo fastLoader).bootReadImageSize sectorImageFlash sectorImageState .secondary =
      some (128, sectorImageState) := by decide +kernel
  refine ⟨by decide +kernel, read, fun first => ?_⟩
  refine (copyImageLog_fast rfl read).mp first ⟨1, 384, 128, by decide, by decide, by decide, by decide, by decide⟩

end Adaboot
