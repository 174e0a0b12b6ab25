import Adaboot.Swap.Move
import Adaboot.Swap.Offset

/-!
# The statuses that a swap writes

The loops of `swap_run` do the work of a status and then write it, for one status after the other. The statuses that
they write from a given one on are listed (`pending`), for swaps using move and using offset.
-/

namespace Adaboot

open Nor Crash

/-! ### The statuses that the loops write -/

theorem statusState1_ne : statusState1 ≠ statusState0 := by decide

/-- The statuses that an exchange of two sectors writes: `boot_swap_sectors` of both files. -/
def exchangeStatuses (bs : BootStatus) : List BootStatus :=
  if bs.state = statusState0 then [bs, { bs with state := statusState1 }]
  else if bs.state = statusState1 then [bs]
  else []

def afterExchange (bs : BootStatus) : BootStatus :=
  if bs.state = statusState0 ∨ bs.state = statusState1 then { bs with idx := bs.idx + 1, state := statusState0 }
  else bs

/-- The loop over the sectors: those that come before the place of the status are left alone. -/
def exchangeLoop (place : BootStatus → Nat) : Nat → Nat → BootStatus → List BootStatus
  | 0, _, _ => []
  | n + 1, idx, bs =>
    if idx ≥ place bs then exchangeStatuses bs ++ exchangeLoop place n (idx + 1) (afterExchange bs)
    else exchangeLoop place n (idx + 1) bs

def exchangeStatus (bs : BootStatus) (m : Nat) : BootStatus :=
  { bs with op := .swap, idx := m / 2 + statusIdx0, state := m % 2 + statusState0 }

section Exchange

variable {bs : BootStatus} {m : Nat}

theorem exchangeStatus_state (bs : BootStatus) (m : Nat) :
    (exchangeStatus bs m).state = statusState0 ∨ (exchangeStatus bs m).state = statusState1 := by
  rcases Nat.mod_two_eq_zero_or_one m with even | odd
  · exact .inl (by simp [exchangeStatus, even])
  · exact .inr (by simp [exchangeStatus, odd, statusState0, statusState1])

theorem exchangeStatus_eq (op : bs.op = .swap) (idx : bs.idx = m / 2 + statusIdx0)
    (state : bs.state = m % 2 + statusState0) : exchangeStatus bs m = bs := by
  rw [exchangeStatus, ← op, ← idx, ← state]

theorem exchangeStatuses_eq (bs : BootStatus) (i : Nat) :
    exchangeStatuses (exchangeStatus bs (2 * i)) = [exchangeStatus bs (2 * i), exchangeStatus bs (2 * i + 1)] ∧
      exchangeStatuses (exchangeStatus bs (2 * i + 1)) = [exchangeStatus bs (2 * i + 1)] ∧
      afterExchange (exchangeStatus bs (2 * i)) = exchangeStatus bs (2 * i + 2) ∧
      afterExchange (exchangeStatus bs (2 * i + 1)) = exchangeStatus bs (2 * i + 2) := by
  have half : (2 * i + 1) / 2 = i := by omega
  have next : (2 * i + 2) / 2 = i + 1 := by omega
  have odd : (2 * i + 1) % 2 = 1 := by omega
  have even : (2 * i + 2) % 2 = 0 := by omega
  simp only [exchangeStatuses, afterExchange, exchangeStatus, Nat.mul_mod_right, statusState0, statusState1, statusIdx0,
    half, next, odd, even, Nat.mul_div_cancel_left i Nat.two_pos]
  exact ⟨rfl, rfl, rfl, rfl⟩

theorem exchangeLoop_eq {place : BootStatus → Nat} {start n j : Nat} (before : j ≤ m / 2)
    (places : ∀ m, place (exchangeStatus bs m) = start + m / 2) :
    exchangeLoop place n (start + j) (exchangeStatus bs m) =
      (List.range' m (2 * (j + n) - m)).map (exchangeStatus bs) := by
  induction n generalizing j m with
  | zero =>
    rw [exchangeLoop, show 2 * (j + 0) - m = 0 by omega]
    rfl
  | succ n ih =>
    rw [exchangeLoop]
    by_cases now : m / 2 ≤ j
    · rw [if_pos (places m ▸ Nat.add_le_add_left now start)]
      obtain ⟨i, rfl | rfl⟩ : ∃ i, m = 2 * i ∨ m = 2 * i + 1 := ⟨m / 2, by omega⟩
      · obtain ⟨written, -, after, -⟩ := exchangeStatuses_eq bs i
        rw [written, after, Nat.add_assoc, ih (by omega),
          show 2 * (j + (n + 1)) - 2 * i = 2 * (j + 1 + n) - (2 * i + 2) + 2 by omega, List.range'_succ, List.range'_succ]
        rfl
      · obtain ⟨-, written, -, after⟩ := exchangeStatuses_eq bs i
        rw [written, after, Nat.add_assoc, ih (by omega),
          show 2 * (j + (n + 1)) - (2 * i + 1) = 2 * (j + 1 + n) - (2 * i + 2) + 1 by omega, List.range'_succ]
        rfl
    · rw [if_neg (places m ▸ mt Nat.le_of_add_le_add_left now), Nat.add_assoc, ih (by omega),
        show 2 * (j + (n + 1)) - m = 2 * (j + 1 + n) - m by omega]

theorem exchangeLoop_start {place : BootStatus → Nat} {start : Nat} (n : Nat)
    (places : ∀ m, place (exchangeStatus bs m) = start + m / 2) :
    exchangeLoop place n start (exchangeStatus bs m) = (List.range' m (2 * n - m)).map (exchangeStatus bs) := by
  have loop := exchangeLoop_eq (n := n) (Nat.zero_le (m / 2)) places
  rwa [Nat.zero_add] at loop

end Exchange

/-! ### Programs that write statuses -/

/-- The program does the work of a status and then writes it, for each status of a list, and returns a value. -/
inductive Writes (work : BootStatus → Boot Unit → Prop) (write : BootStatus → Boot Unit) {α : Type} :
    List BootStatus → α → Boot α → Prop
  | done (a : α) : Writes work write [] a (pure a)
  | step {m : Boot Unit} {bs : BootStatus} {list : List BootStatus} {a : α} {rest : Boot α} (works : work bs m)
      (next : Writes work write list a rest) : Writes work write (bs :: list) a (do m; write bs; rest)

section Writes

variable {work : BootStatus → Boot Unit → Prop} {write : BootStatus → Boot Unit} {α β : Type}

theorem Writes.bind {list rest : List BootStatus} {a : α} {c : β} {m : Boot α} {f : α → Boot β}
    (first : Writes work write list a m) (next : Writes work write rest c (f a)) :
    Writes work write (list ++ rest) c (m >>= f) := by
  induction first with
  | done a =>
    exact next
  | step works _ ih =>
    simp only [Prog.bind_assoc]
    exact .step works (ih next)

variable {bs : BootStatus}

theorem Writes.last {m : Boot Unit} (works : work bs m) :
    Writes work write [bs] () (do m; write bs) := by
  have unit : (do write bs; pure ()) = write bs := Prog.bind_pure (write bs)
  have written : Writes work write [bs] () (do m; write bs; pure ()) := .step works (.done ())
  rwa [unit] at written

theorem Writes.exchange {copy₀ copy₁ : BootStatus → Boot Unit}
    (first : bs.state = statusState0 → Writes work write [bs] () (copy₀ bs))
    (second : Writes work write [{ bs with state := statusState1 }] () (copy₁ { bs with state := statusState1 })) :
    Writes work write (exchangeStatuses bs) (afterExchange bs) (do
      let bs ← if bs.state = statusState0 then do
          copy₀ bs
          pure { bs with state := statusState1 }
        else pure bs
      if bs.state = statusState1 then do
        copy₁ bs
        pure { bs with idx := bs.idx + 1, state := statusState0 }
      else pure bs) := by
  unfold exchangeStatuses afterExchange
  by_cases state₀ : bs.state = statusState0
  · rw [if_pos state₀, if_pos (.inl state₀), if_pos state₀]
    refine (first state₀).bind ?_
    rw [Prog.pure_bind]
    exact second.bind (.done _)
  · by_cases state₁ : bs.state = statusState1
    · have same : { bs with state := statusState1 } = bs := by rw [← state₁]
      rw [same] at second
      rw [if_neg state₀, if_pos state₁, if_pos (.inr state₁), if_neg state₀, Prog.pure_bind]
      beta_reduce
      rw [if_pos state₁]
      exact second.bind (.done _)
    · rw [if_neg state₀, if_neg state₁, if_neg (not_or_intro state₀ state₁), if_neg state₀, Prog.pure_bind]
      beta_reduce
      rw [if_neg state₁]
      exact .done _

/-- A status with which sectors are exchanged. -/
structure BootStatus.Exchanges (bs : BootStatus) : Prop where
  op : bs.op = .swap
  idx : statusIdx0 ≤ bs.idx
  state : bs.state = statusState0 ∨ bs.state = statusState1

theorem BootStatus.Exchanges.after (exchanges : bs.Exchanges) :
    (afterExchange bs).Exchanges ∧ (afterExchange bs).idx = bs.idx + 1 ∧
      (afterExchange bs).swapType = bs.swapType := by
  rw [afterExchange, if_pos exchanges.state]
  exact ⟨⟨exchanges.op, Nat.le_succ_of_le exchanges.idx, .inl rfl⟩, rfl, rfl⟩

/-- For any way to exchange a sector. Where it does not skip one, the loop has come to the place of the status. -/
theorem Writes.loop {place : BootStatus → Nat} {exchange : Nat → BootStatus → Boot BootStatus}
    {loop : Nat → Nat → BootStatus → Boot BootStatus} (zero : ∀ idx bs, loop 0 idx bs = pure bs)
    (succ : ∀ n idx bs, loop (n + 1) idx bs = do
      let bs ← if idx ≥ place bs then exchange idx bs else pure bs
      loop n (idx + 1) bs)
    (next : ∀ bs, bs.Exchanges → place (afterExchange bs) = place bs + 1)
    (writes : ∀ bs, bs.Exchanges →
      Writes work write (exchangeStatuses bs) (afterExchange bs) (exchange (place bs) bs)) {n idx : Nat}
    (exchanges : bs.Exchanges) (le : idx ≤ place bs) :
    ∃ after, after.swapType = bs.swapType ∧
      Writes work write (exchangeLoop place n idx bs) after (loop n idx bs) := by
  induction n generalizing idx bs with
  | zero => exact ⟨bs, rfl, zero idx bs ▸ .done bs⟩
  | succ n ih =>
    rw [succ, exchangeLoop]
    by_cases now : idx ≥ place bs
    · have here : idx = place bs := Nat.le_antisymm le now
      have reached : idx + 1 ≤ place (afterExchange bs) := by rw [next bs exchanges, here]
      obtain ⟨after, type, rest⟩ := ih exchanges.after.1 reached
      refine ⟨after, type.trans exchanges.after.2.2, ?_⟩
      rw [if_pos now, if_pos now]
      refine Writes.bind ?_ rest
      rw [here]
      exact writes bs exchanges
    · obtain ⟨after, type, rest⟩ := ih exchanges (Nat.lt_of_not_le now)
      refine ⟨after, type, ?_⟩
      rw [if_neg now, if_neg now, Prog.pure_bind]
      exact rest

/-- What each of the numbered steps keeps up holds after all of them. -/
theorem Writes.wp {step : Nat → BootStatus} {j n : Nat} {a : α} {prog : Boot α}
    (writes : Writes work write ((List.range' j n).map step) a prog) {I : Nat → Flash → Prop} {fl : Flash}
    {E : BootErr → Flash → Prop} {C : Flash → Prop} (keeps : ∀ k m fl, j ≤ k → k < j + n → work (step k) m → I k fl →
      Crash.wp (do m; write (step k)) (fun _ fl' => I (k + 1) fl') E C fl) (start : I j fl) :
    Crash.wp prog (fun r fl' => r = a ∧ I (j + n) fl') E C fl := by
  induction n generalizing j fl prog with
  | zero =>
    cases writes
    exact (wp_pure _).mpr ⟨rfl, start⟩
  | succ n ih =>
    cases writes with
    | step works next =>
      have first := keeps j _ fl (Nat.le_refl j) (by omega) works start
      rw [wp_bind] at first ⊢
      refine wp_imp first fun _ fl₁ wrote => ?_
      rw [wp_bind]
      refine wp_imp wrote fun _ fl₂ reached => ?_
      rw [Nat.add_succ, ← Nat.succ_add]
      exact ih next (fun k m fl ge lt => keeps k m fl (by omega) (by omega)) reached

end Writes

/-- The entries of numbered steps. -/
structure Entries (bd : Board) (internalOff : BootStatus → Nat) (step : Nat → BootStatus) (entry : Nat → Nat)
    (total : Nat) : Prop where
  off : ∀ i, i < total → internalOff (step i) = entry i * bd.writeSz
  lt : ∀ i, i < total → entry i < bootStatusEntries bd .primary
  mono : ∀ i, entry i < entry (i + 1)
  state : ∀ i, (step i).state = statusState0 ∨ (step i).state = statusState1

theorem Entries.not_erased {bd : Board} {internalOff : BootStatus → Nat} {step : Nat → BootStatus} {entry : Nat → Nat}
    {total : Nat} (entries : Entries bd internalOff step entry total) (i : Nat) :
    UInt8.ofNat (step i).state ≠ erasedVal := by
  rcases entries.state i with first | second
  · rw [first]
    decide
  · rw [second]
    decide

/-- A sector that is to be replaced by another one. -/
structure Replacement where
  src : Area
  dst : Area
  srcOff : Nat
  dstOff : Nat

/-- All steps replace as many bytes as the first sector of the primary slot has. -/
def Replacement.run (bd : Board) (r : Replacement) : Boot Unit :=
  replaceSector bd r.src r.dst r.srcOff r.dstOff (bd.sectorSize .primary 0)

end Adaboot

/-! ### Swaps using offset -/

namespace Adaboot.SwapOffset

open Nor Crash

/-- The sector that the loops of `swap_run` have come to with a status. -/
def place (bs : BootStatus) : Nat := bs.idx - statusIdx0

/-- The statuses that `swap_run` writes from a status on, for an update and for a revert alike. -/
def pending (last : Nat) (bs : BootStatus) : List BootStatus := exchangeLoop place (last + 1) 0 { bs with op := .swap }

/-- The index that `boot_swap_sectors` or `boot_swap_sectors_revert` is called with. -/
def sectorIdx (revert : Bool) (last : Nat) (bs : BootStatus) : Nat :=
  if revert then last - place bs else place bs

def replacement (bd : Board) (revert : Bool) (last : Nat) (bs : BootStatus) : Replacement :=
  let idx := sectorIdx revert last bs
  if bs.state = statusState0 then
    ⟨.primary, .secondary, bd.sectorOff .primary idx, bd.sectorOff .secondary (if revert then idx + 1 else idx)⟩
  else
    -- the offset in the secondary slot is taken from the sectors of the primary slot
    ⟨.secondary, .primary, bd.sectorOff .primary (if revert then idx else idx + 1), bd.sectorOff .primary idx⟩

/-- A step that leaves its sector alone, as the image it is for has so few sectors. -/
def skipped (revert : Bool) (last usedPri usedSec : Nat) (bs : BootStatus) : Bool :=
  sectorIdx revert last bs > if bs.state = statusState0 then usedPri else usedSec

/-- What is done before a status is written. -/
def Copies (b : LoaderBuild) (revert : Bool) (last usedPri usedSec : Nat) (bs : BootStatus) (m : Boot Unit) : Prop :=
  m = if skipped revert last usedPri usedSec bs then pure () else (replacement b.board revert last bs).run b.board

/-- `boot_write_status` and what its failure means. -/
def writeStatus (b : LoaderBuild) (bs : BootStatus) : Boot Unit :=
  statusAssert b (bootWriteStatus b.board (bootStatusInternalOff b.board) bs)

section Writes

variable (b : LoaderBuild) {work : BootStatus → Boot Unit → Prop} {bs : BootStatus}

theorem copySector_writes {skip : Bool} {src dst : Area} {srcOff dstOff : Nat}
    (works : work bs (if skip then pure () else Replacement.run b.board ⟨src, dst, srcOff, dstOff⟩)) :
    Writes work (writeStatus b) [bs] () (copySector b skip src dst srcOff dstOff bs) := by
  cases skip with
  | true => exact Writes.last (m := pure ()) works
  | false => exact Writes.last works

theorem exchangeSectors_writes {priOff secOff secUpOff : Nat}
    {skipPrimary skipSecondary : Bool} (first : bs.state = statusState0 →
      work bs (if skipPrimary then pure () else Replacement.run b.board ⟨.primary, .secondary, priOff, secOff⟩))
    (second : work { bs with state := statusState1 }
      (if skipSecondary then pure () else Replacement.run b.board ⟨.secondary, .primary, secUpOff, priOff⟩)) :
    Writes work (writeStatus b) (exchangeStatuses bs) (afterExchange bs)
      (exchangeSectors b priOff secOff secUpOff skipPrimary skipSecondary bs) :=
  Writes.exchange (fun state₀ => copySector_writes b (first state₀)) (copySector_writes b second)

theorem bootSwapSectors_writes (last usedPri usedSec : Nat) (bs : BootStatus) :
    Writes (Copies b false last usedPri usedSec) (writeStatus b) (exchangeStatuses bs) (afterExchange bs)
      (bootSwapSectors b (place bs) (place bs > usedPri) (place bs > usedSec) bs) := by
  refine exchangeSectors_writes b (fun state₀ => ?_) ?_
  · simp [Copies, skipped, replacement, sectorIdx, state₀]
  · simp [Copies, skipped, replacement, sectorIdx, place, statusState1_ne]

theorem bootSwapSectorsRevert_writes (last usedPri usedSec : Nat) (bs : BootStatus) :
    Writes (Copies b true last usedPri usedSec) (writeStatus b) (exchangeStatuses bs) (afterExchange bs)
      (bootSwapSectorsRevert b (last - place bs) (last - place bs > usedPri) (last - place bs > usedSec) bs) := by
  refine exchangeSectors_writes b (fun state₀ => ?_) ?_
  · simp [Copies, skipped, replacement, sectorIdx, state₀]
  · simp [Copies, skipped, replacement, sectorIdx, place, statusState1_ne]

theorem sectorLoop_writes {step : Nat → BootStatus → Boot BootStatus}
    (writes : ∀ bs, Writes work (writeStatus b) (exchangeStatuses bs) (afterExchange bs) (step (place bs) bs))
    (last : Nat) (exchanges : { bs with op := .swap }.Exchanges) :
    ∃ after, after.swapType = bs.swapType ∧ Writes work (writeStatus b) (pending last bs) after
      (sectorLoop step (last + 1) 0 { bs with op := .swap }) := by
  have next : ∀ bs : BootStatus, bs.Exchanges → place (afterExchange bs) = place bs + 1 := by
    intro bs exchanges
    rw [place, exchanges.after.2.1, place, Nat.sub_add_comm exchanges.idx]
  exact Writes.loop (fun _ _ => rfl) (fun _ _ _ => rfl) next (fun bs _ => writes bs) exchanges (Nat.zero_le _)

theorem swapSectors_writes (last usedPri usedSec : Nat) (exchanges : { bs with op := .swap }.Exchanges) :
    ∃ after, after.swapType = bs.swapType ∧
      Writes (Copies b false last usedPri usedSec) (writeStatus b) (pending last bs) after
        (swapSectors b last usedPri usedSec { bs with op := .swap }) :=
  sectorLoop_writes b (bootSwapSectors_writes b last usedPri usedSec) last exchanges

def revertLoop (last usedPri usedSec : Nat) (bs : BootStatus) : Boot BootStatus :=
  sectorLoop (fun idx => bootSwapSectorsRevert b (last - idx) (last - idx > usedPri) (last - idx > usedSec))
    (last + 1) 0 bs

theorem revertLoop_writes (last usedPri usedSec : Nat) (exchanges : { bs with op := .swap }.Exchanges) :
    ∃ after, after.swapType = bs.swapType ∧
      Writes (Copies b true last usedPri usedSec) (writeStatus b) (pending last bs) after
        (revertLoop b last usedPri usedSec { bs with op := .swap }) :=
  sectorLoop_writes b (bootSwapSectorsRevert_writes b last usedPri usedSec) last exchanges

end Writes

theorem pending_eq (last : Nat) (bs : BootStatus) (m : Nat) :
    pending last (exchangeStatus bs m) = (List.range' m (2 * (last + 1) - m)).map (exchangeStatus bs) :=
  exchangeLoop_start (last + 1) fun m => by simp [place, exchangeStatus]

end Adaboot.SwapOffset

/-! ### Swaps using move -/

namespace Adaboot.SwapMove

open Nor Crash

/-- The first loop of `swap_run`: the statuses that it writes. -/
def moveStatuses (lastIdx : Nat) : Nat → BootStatus → List BootStatus
  | 0, _ => []
  | idx + 1, bs =>
    if idx + 1 ≤ u32 (lastIdx + 2 ^ 32 - bs.idx + 1) then
      bs :: moveStatuses lastIdx idx { bs with idx := bs.idx + 1 }
    else moveStatuses lastIdx idx bs

/-- The statuses that `swap_run` writes from a status on. -/
def pending (last : Nat) (bs : BootStatus) : List BootStatus :=
  if bs.op = .move then
    moveStatuses last last bs ++ exchangeLoop BootStatus.idx last 1 { bs with op := .swap, idx := statusIdx0 }
  else exchangeLoop BootStatus.idx last 1 bs

def replacement (bd : Board) (last : Nat) (bs : BootStatus) : Replacement :=
  match bs.op with
  | .move =>
    ⟨.primary, .primary, bd.sectorOff .primary (last - bs.idx), bd.sectorOff .primary (last + 1 - bs.idx)⟩
  | .swap =>
    if bs.state = statusState0 then
      ⟨.secondary, .primary, bd.sectorOff .secondary (bs.idx - 1), bd.sectorOff .primary (bs.idx - 1)⟩
    else ⟨.primary, .secondary, bd.sectorOff .primary bs.idx, bd.sectorOff .secondary (bs.idx - 1)⟩

/-- What is done before a status is written: a sector is replaced, and before the first one the swap begins. -/
def Copies (b : LoaderBuild) (st : BootState) (last : Nat) (bs : BootStatus) (m : Boot Unit) : Prop :=
  m = if bs.op = .move ∧ bs.idx = statusIdx0 then do
      beginSwap b.board st bs
      (replacement b.board last bs).run b.board
    else (replacement b.board last bs).run b.board

section Writes

variable (b : LoaderBuild) (st : BootState) {last : Nat} {bs : BootStatus}

theorem bootMoveSectorUp_writes (moving : bs.op = .move) (le : bs.idx ≤ last) :
    Writes (Copies b st last) (writeStatus b) [bs] { bs with idx := bs.idx + 1 }
      (bootMoveSectorUp b st (last + 1 - bs.idx) bs) := by
  have up : (replacement b.board last bs).run b.board =
      replaceSector b.board .primary .primary (b.board.sectorOff .primary (last + 1 - bs.idx - 1))
        (b.board.sectorOff .primary (last + 1 - bs.idx)) (b.board.sectorSize .primary 0) := by
    rw [replacement, moving, show last + 1 - bs.idx - 1 = last - bs.idx by omega]
    rfl
  have work : Copies b st last bs _ := rfl
  rw [moving, up] at work
  unfold bootMoveSectorUp
  split
  next first =>
    rw [if_pos ⟨rfl, first⟩] at work
    have written : Writes (Copies b st last) (writeStatus b) [bs] { bs with idx := bs.idx + 1 } _ :=
      .step work (.done _)
    simpa only [copySector, Prog.bind_assoc] using written
  next later =>
    rw [if_neg fun both => later both.2] at work
    exact (Writes.last work).bind (.done _)

theorem moveLoop_writes (small : last < 2 ^ 32) {idx : Nat} (moving : bs.op = .move)
    (first : statusIdx0 ≤ bs.idx) (le : bs.idx ≤ last + 1) (short : idx ≤ last) (reached : last + 1 ≤ bs.idx + idx) :
    ∃ after, Writes (Copies b st last) (writeStatus b) (moveStatuses last idx bs)
      { bs with idx := after } (moveLoop b st last idx bs) := by
  have limit : u32 (last + 2 ^ 32 - bs.idx + 1) = last + 1 - bs.idx := by
    unfold u32
    omega
  induction idx generalizing bs with
  | zero => exact ⟨bs.idx, .done bs⟩
  | succ idx ih =>
    rw [moveLoop, moveStatuses, limit]
    split
    next now =>
      have here : idx + 1 = last + 1 - bs.idx := by omega
      obtain ⟨after, rest⟩ := @ih { bs with idx := bs.idx + 1 } moving (Nat.le_succ_of_le first)
        (by simp only; omega) (by omega) (by simp only; omega) (by unfold u32; unfold statusIdx0 at first; simp only; omega)
      have moved := bootMoveSectorUp_writes b st moving (show bs.idx ≤ last by omega)
      rw [← here] at moved
      exact ⟨after, moved.bind rest⟩
    next later =>
      obtain ⟨after, rest⟩ := ih moving first le (by omega) (by omega) limit
      exact ⟨after, by rwa [Prog.pure_bind]⟩

theorem bootSwapSectors_writes (exchanges : bs.Exchanges) :
    Writes (Copies b st last) (writeStatus b) (exchangeStatuses bs) (afterExchange bs) (bootSwapSectors b bs.idx bs) := by
  refine Writes.exchange (fun state₀ => Writes.last ?_) (Writes.last ?_)
  · simp [Copies, replacement, exchanges.op, state₀, Replacement.run]
  · simp [Copies, replacement, exchanges.op, Replacement.run, statusState1_ne]

theorem swapLoop_writes (last : Nat) (exchanges : bs.Exchanges) :
    ∃ after, after.swapType = bs.swapType ∧
      Writes (Copies b st last) (writeStatus b) (exchangeLoop BootStatus.idx last 1 bs) after (swapLoop b last 1 bs) :=
  Writes.loop (fun _ _ => rfl) (fun _ _ _ => rfl) (fun _ exchanges => exchanges.after.2.1)
    (fun _ => bootSwapSectors_writes b st) exchanges exchanges.idx

/-- The two loops of `swap_run`. -/
def loops (last : Nat) (bs : BootStatus) : Boot BootStatus := do
  let bs ←
    if bs.op = .move then do
      let bs ← moveLoop b st last last bs
      pure { bs with idx := statusIdx0 }
    else pure bs
  swapLoop b last 1 { bs with op := .swap }

theorem loops_write (small : last < 2 ^ 32) (first : statusIdx0 ≤ bs.idx)
    (state : bs.state = statusState0 ∨ bs.state = statusState1) (le : bs.op = .move → bs.idx ≤ last + 1) :
    ∃ after, after.swapType = bs.swapType ∧
      Writes (Copies b st last) (writeStatus b) (pending last bs) after (loops b st last bs) := by
  unfold pending loops
  split
  next moving =>
    have start : { bs with op := .swap, idx := statusIdx0 }.Exchanges := ⟨rfl, le_rfl, state⟩
    obtain ⟨moved, moves⟩ := moveLoop_writes b st small moving first (le moving) (Nat.le_refl last)
      (by unfold statusIdx0 at first; omega)
    obtain ⟨after, type, exchanges⟩ := swapLoop_writes b st last start
    refine ⟨after, type, ?_⟩
    refine moves.bind ?_
    exact exchanges
  next exchanging =>
    have swapping : { bs with op := .swap } = bs := by
      cases bs with
      | mk idx state op useScratch swapType swapSize source =>
        cases op
        · exact absurd rfl exchanging
        · rfl
    have start : bs.Exchanges := ⟨by rw [← swapping], first, state⟩
    obtain ⟨after, type, exchanges⟩ := swapLoop_writes b st last start
    refine ⟨after, type, ?_⟩
    dsimp only
    rw [Prog.pure_bind, swapping]
    exact exchanges

end Writes

def moveStatus (bs : BootStatus) (i : Nat) : BootStatus :=
  { bs with op := .move, idx := i + statusIdx0, state := statusState0 }

theorem exchanges_eq (last : Nat) (bs : BootStatus) (m : Nat) :
    exchangeLoop BootStatus.idx last 1 (exchangeStatus bs m) = (List.range' m (2 * last - m)).map (exchangeStatus bs) :=
  exchangeLoop_start last fun _ => Nat.add_comm _ _

variable {last j : Nat}

theorem moveStatuses_eq (bs : BootStatus) {idx : Nat} (small : last < 2 ^ 32) (le : j ≤ last)
    (left : last - j ≤ idx) (short : idx ≤ last) :
    moveStatuses last idx (moveStatus bs j) = (List.range' j (last - j)).map (moveStatus bs) := by
  have limit : ∀ j, j ≤ last → u32 (last + 2 ^ 32 - (moveStatus bs j).idx + 1) = last - j := by
    simp only [moveStatus, statusIdx0, u32]
    omega
  induction idx generalizing j with
  | zero =>
    rw [moveStatuses, show last - j = 0 by omega]
    rfl
  | succ idx ih =>
    rw [moveStatuses, limit j le]
    by_cases now : idx + 1 ≤ last - j
    · have next : { moveStatus bs j with idx := (moveStatus bs j).idx + 1 } = moveStatus bs (j + 1) := by
        simp [moveStatus, Nat.add_right_comm]
      rw [if_pos now, next, ih (by omega) (by omega) (by omega), show last - j = last - (j + 1) + 1 by omega,
        List.range'_succ]
      rfl
    · rw [if_neg now, ih le (by omega) (by omega)]

/-- The status of a step: first the moves, then the exchanges. -/
def stepStatus (last : Nat) (bs : BootStatus) (k : Nat) : BootStatus :=
  if k < last then moveStatus bs k else exchangeStatus bs (k - last)

theorem exchangeStatus_steps (last : Nat) (bs : BootStatus) (m n : Nat) :
    (List.range' m n).map (exchangeStatus bs) = (List.range' (last + m) n).map (stepStatus last bs) := by
  have shift : (List.range' (last + m) n).map (fun i => i - last) = List.range' (last + m - last) n :=
    List.map_sub_range' (Nat.le_add_right _ _) _
  rw [Nat.add_sub_cancel_left] at shift
  rw [← shift, List.map_map]
  refine List.map_congr_left fun i mem => ?_
  rw [List.mem_range'_1] at mem
  rw [stepStatus, if_neg (by omega)]
  rfl

theorem pending_move (bs : BootStatus) (small : last < 2 ^ 32) (le : j ≤ last) :
    pending last (moveStatus bs j) = (List.range' j (3 * last - j)).map (stepStatus last bs) := by
  have moves : (List.range' j (last - j)).map (moveStatus bs) = (List.range' j (last - j)).map (stepStatus last bs) :=
    List.map_congr_left fun i mem => by
      rw [List.mem_range'_1] at mem
      rw [stepStatus, if_pos (by omega)]
  have start : { moveStatus bs j with op := .swap, idx := statusIdx0 } = exchangeStatus bs 0 := by
    simp [moveStatus, exchangeStatus]
  have joined : List.range' j (last - j) ++ List.range' last (2 * last) = List.range' j (3 * last - j) := by
    have append : List.range' j (last - j) ++ List.range' (j + (last - j)) (2 * last) = _ := List.range'_append_1
    rwa [show j + (last - j) = last by omega, show last - j + 2 * last = 3 * last - j by omega] at append
  have moving : (moveStatus bs j).op = .move := rfl
  rw [pending, if_pos moving, moveStatuses_eq bs small le (Nat.sub_le _ _) le_rfl, start, exchanges_eq, moves,
    Nat.sub_zero, exchangeStatus_steps last, ← List.map_append, Nat.add_zero, joined]

theorem pending_exchange (last : Nat) (bs : BootStatus) (m : Nat) :
    pending last (exchangeStatus bs m) = (List.range' (last + m) (2 * last - m)).map (stepStatus last bs) := by
  have exchanging : (exchangeStatus bs m).op ≠ .move := by simp [exchangeStatus]
  rw [pending, if_neg exchanging, exchanges_eq, exchangeStatus_steps last]

end Adaboot.SwapMove
