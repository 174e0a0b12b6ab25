import Adaboot.Uf2.Process
import Mathlib.Data.Finset.Card
import Mathlib.Data.Finset.Range

/-!
# Transfers

A transfer is a run of calls of `uf2_process_block` on blocks of any kind and with callbacks that
fail at will. The block map counts exactly the blocks that were written.
-/

namespace Adaboot.Uf2

variable {δ : Type}

/-- A callback and the code it returned. -/
inductive Call where
  | erase (ctx offset len : Nat) (rc : Int)
  | write (ctx offset : Nat) (data : Bytes) (len : Nat) (rc : Int)
deriving DecidableEq

/-- The same callbacks, with a list of what was called. -/
def Callbacks.logged (cb : Callbacks δ) : Callbacks (δ × List Call) where
  write ctx offset data len dev :=
    let ret := cb.write ctx offset data len dev.1
    (ret.1, (ret.2, dev.2 ++ [.write ctx offset data len ret.1]))
  erase ctx offset len dev :=
    let ret := cb.erase ctx offset len dev.1
    (ret.1, (ret.2, dev.2 ++ [.erase ctx offset len ret.1]))

/-- One call of `uf2_process_block`: its block, what it called and returned, and the state after it. -/
structure Entry where
  block : Block
  rc : Int
  calls : List Call
  state : State

def Entry.wrote (e : Entry) : Prop := ∃ ctx offset data len, Call.write ctx offset data len 0 ∈ e.calls

section Run

variable (cfg : Cfg) (cb : Callbacks δ) (maxBlocks : Nat)

def uf2Step (run : List Entry × Session δ) (block : Block) : List Entry × Session δ :=
  let next := uf2ProcessBlock cfg cb.logged maxBlocks block ⟨run.2.state, (run.2.dev, [])⟩
  (run.1 ++ [⟨block, next.1, next.2.dev.2, next.2.state⟩], ⟨next.2.state, next.2.dev.1⟩)

/-- A session in which nothing was called yet. -/
abbrev Session.fresh (s : Session δ) : Session (δ × List Call) := ⟨s.state, (s.dev, [])⟩

/-- The calls for a list of blocks, and where they lead. -/
def uf2Run (blocks : List Block) (s : Session δ) : List Entry × Session δ :=
  blocks.foldl (uf2Step cfg cb maxBlocks) ([], s)

end Run

section Steps

variable {cfg : Cfg} {cb : Callbacks δ} {maxBlocks : Nat}
  {I : Session δ → Prop} {s s₁ : Session δ} {region stop fuel : Nat} {rc : Int}

theorem uf2Run_invariant {I : List Entry × Session δ → Prop} (start : I ([], s))
    (step : ∀ run block, I run → I (uf2Step cfg cb maxBlocks run block)) (blocks : List Block) :
    I (uf2Run cfg cb maxBlocks blocks s) :=
  List.foldlRecOn blocks _ start fun run inv block _ => step run block inv

theorem uf2Step_rule {P : List Entry × Session δ → Prop} {run : List Entry × Session δ} {block : Block}
    (each : ∀ rc s', Outcome cfg cb.logged maxBlocks block run.2.fresh rc s' →
      P (run.1 ++ [⟨block, rc, s'.dev.2, s'.state⟩], ⟨s'.state, s'.dev.1⟩)) : P (uf2Step cfg cb maxBlocks run block) :=
  each _ _ (uf2ProcessBlock_outcome cfg cb.logged maxBlocks block run.2.fresh)

theorem eraseLoop_invariant (start : I s)
    (step : ∀ s rc dev, I s → s.state.eraseFrontier region < stop →
      cb.erase (uf2RegionCtx cfg region) (s.state.eraseFrontier region)
        (eraseLen cfg region (s.state.eraseFrontier region)) s.dev = (rc, dev) → if rc = 0 then
        I ⟨s.state.setFrontier region (u32 (s.state.eraseFrontier region +
          eraseLen cfg region (s.state.eraseFrontier region))), dev⟩ else I { s with dev }) :
    I (eraseLoop cfg cb region stop fuel s).2 := by
  induction fuel generalizing s with
  | zero => exact start
  | succ fuel ih =>
    rw [eraseLoop]
    simp only
    split
    next more =>
      have next := step s _ _ start more rfl
      split
      next fails => rwa [if_neg fails] at next
      next ok =>
        rw [if_pos (Decidable.not_not.mp ok)] at next
        exact ih next
    next => exact start

theorem eraseLoop_works (start : I s) (erased : eraseLoop cfg cb region stop fuel s = (rc, s₁))
    (step : ∀ s, I s → s.state.eraseFrontier region < stop →
      let len := eraseLen cfg region (s.state.eraseFrontier region)
      let ret := cb.erase (uf2RegionCtx cfg region) (s.state.eraseFrontier region) len s.dev
      ret.1 = 0 ∧ I ⟨s.state.setFrontier region (u32 (s.state.eraseFrontier region + len)), ret.2⟩) :
    rc = 0 ∧ I s₁ := by
  induction fuel generalizing s with
  | zero =>
    cases erased
    exact ⟨rfl, start⟩
  | succ fuel ih =>
    rw [eraseLoop] at erased
    split at erased
    next more =>
      obtain ⟨ok, next⟩ := step s start more
      rw [if_neg fun fails => fails ok] at erased
      exact ih next erased
    next =>
      cases erased
      exact ⟨rfl, start⟩

theorem eraseLoop_state (erased : eraseLoop cfg cb region stop fuel s = (rc, s₁)) :
    ∃ front, s₁.state = { s.state with eraseFrontier := front } := by
  have result : s₁ = (eraseLoop cfg cb region stop fuel s).2 := by rw [erased]
  rw [result]
  refine eraseLoop_invariant (I := fun s₁ => ∃ front, s₁.state = { s.state with eraseFrontier := front })
    ⟨s.state.eraseFrontier, rfl⟩ ?_
  rintro s₁ rc dev ⟨front, state⟩ _ _
  split
  · exact ⟨_, by rw [state]; rfl⟩
  · exact ⟨front, state⟩

/-- An erase of the region in steps, from below `stop`. -/
def Call.Erases (cfg : Cfg) (region stop : Nat) (call : Call) : Prop :=
  ∃ off rc, off < stop ∧ call = .erase (uf2RegionCtx cfg region) off (eraseLen cfg region off) rc

theorem eraseLoop_calls {s s₁ : Session (δ × List Call)}
    (erased : eraseLoop cfg cb.logged region stop fuel s = (rc, s₁)) :
    ∃ calls, s₁.dev.2 = s.dev.2 ++ calls ∧ (∀ call ∈ calls, call.Erases cfg region stop) ∧
      (calls = [] → rc = 0 ∧ (0 < fuel → stop ≤ s.state.eraseFrontier region)) := by
  induction fuel generalizing s with
  | zero =>
    cases erased
    exact ⟨[], by simp, by simp, fun _ => ⟨rfl, fun some => absurd some (Nat.lt_irrefl 0)⟩⟩
  | succ fuel ih =>
    rw [eraseLoop] at erased
    simp only at erased
    split at erased
    next more =>
      split at erased
      next fails =>
        cases erased
        exact ⟨_, rfl, by simpa using ⟨_, _, more, rfl⟩, by simp⟩
      next ok =>
        obtain ⟨calls, log, erases, -⟩ := ih erased
        exact ⟨_ :: calls, log.trans (List.append_assoc ..), List.forall_mem_cons.mpr ⟨⟨_, _, more, rfl⟩, erases⟩,
          by simp⟩
    next done =>
      cases erased
      exact ⟨[], by simp, by simp, fun _ => ⟨rfl, fun _ => not_lt.mp done⟩⟩

theorem Call.Erases.not_write {ctx offset len : Nat} {data : Bytes} :
    ¬(Call.write ctx offset data len rc).Erases cfg region stop :=
  fun ⟨_, _, _, same⟩ => nomatch same

theorem eraseUpTo_fresh {s : Session δ} {n endOffset : Nat} {s₁ : Session (δ × List Call)}
    (erased : eraseUpTo cfg cb.logged region endOffset (s.fresh.expect n) = (rc, s₁)) :
    (∃ front, s₁.state = { s.state with numBlocks := n, eraseFrontier := front }) ∧
      (∀ call ∈ s₁.dev.2, call.Erases cfg region (eraseEnd cfg region endOffset)) ∧ (s₁.dev.2 = [] → rc = 0) := by
  obtain ⟨calls, log, erases, none⟩ := eraseLoop_calls erased
  rw [log]
  exact ⟨eraseLoop_state erased, erases, fun empty => (none empty).1⟩

/-- What is called for a block at an offset of a region: erases as far as the block reaches, and its write. -/
inductive Serves (cfg : Cfg) (block : Block) (region offset : Nat) : Call → Prop where
  | erase {call : Call} (erases : call.Erases cfg region (eraseEnd cfg region (u32 (offset + block.payloadSize)))) :
      Serves cfg block region offset call
  | write (rc : Int) :
      Serves cfg block region offset (.write (uf2RegionCtx cfg region) offset block.data block.payloadSize rc)

/-- A block that is not known yet is served, and no other one. -/
theorem Outcome.serves {block : Block} {s : Session δ} {s' : Session (δ × List Call)}
    (outcome : Outcome cfg cb.logged maxBlocks block s.fresh rc s') :
    (s'.dev.2 = [] ∧ ∀ region offset, Admitted cfg maxBlocks block s.fresh region offset →
      s.state.blockMap block.blockNo = true) ∨
    ∃ region offset, Admitted cfg maxBlocks block s.fresh region offset ∧ s.state.blockMap block.blockNo = false ∧
      s'.dev.2 ≠ [] ∧ ∀ call ∈ s'.dev.2, Serves cfg block region offset call := by
  cases outcome with
  | ignored _ unfit => exact .inl ⟨rfl, fun region offset admitted => absurd admitted (unfit region offset)⟩
  | duplicate _ seen => exact .inl ⟨rfl, fun _ _ _ => seen⟩
  | @eraseFailed region offset _ _ admitted erased fails fresh =>
    obtain ⟨-, erases, none⟩ := eraseUpTo_fresh erased
    exact .inr ⟨region, offset, admitted, fresh, fun empty => fails (none empty), fun call mem => .erase (erases call mem)⟩
  | @writeFailed region offset _ _ _ admitted erased wrote _ fresh
  | @received region offset _ _ admitted fresh erased wrote =>
    obtain ⟨-, rfl⟩ := Prod.mk.inj wrote
    refine .inr ⟨region, offset, admitted, fresh, by simp, fun call mem => ?_⟩
    rcases List.mem_append.mp mem with old | new
    · exact .erase ((eraseUpTo_fresh erased).2.1 call old)
    · exact List.mem_singleton.mp new ▸ .write _

/-- The session without the list of calls. -/
def Session.plain (s : Session (δ × List Call)) : Session δ := ⟨s.state, s.dev.1⟩

theorem eraseLoop_logged (s : Session (δ × List Call)) : eraseLoop cfg cb region stop fuel s.plain =
      Prod.map id Session.plain (eraseLoop cfg cb.logged region stop fuel s) := by
  induction fuel generalizing s with
  | zero => rfl
  | succ fuel ih =>
    simp only [eraseLoop, apply_ite (Prod.map id Session.plain)]
    rw [← ih]
    rfl

theorem uf2ProcessBlock_logged (block : Block) (s : Session (δ × List Call)) :
    uf2ProcessBlock cfg cb maxBlocks block s.plain =
      Prod.map id Session.plain (uf2ProcessBlock cfg cb.logged maxBlocks block s) := by
  unfold uf2ProcessBlock
  rcases uf2CheckBlock cfg maxBlocks block with rc | ⟨region, offset⟩
  · rfl
  have erased : eraseUpTo cfg cb region (u32 (offset + block.payloadSize)) (s.plain.expect block.numBlocks) = _ :=
    eraseLoop_logged (s.expect block.numBlocks)
  simp only [apply_ite (Prod.map id Session.plain), erased]
  exact if_congr Iff.rfl rfl (if_congr Iff.rfl rfl (if_congr Iff.rfl rfl (if_congr Iff.rfl rfl rfl)))

theorem uf2Run_session (blocks : List Block) (s : Session δ) : (uf2Run cfg cb maxBlocks blocks s).2 =
      blocks.foldl (fun s block => (uf2ProcessBlock cfg cb maxBlocks block s).2) s := by
  suffices runs : ∀ run : List Entry × Session δ, (blocks.foldl (uf2Step cfg cb maxBlocks) run).2 =
        blocks.foldl (fun s block => (uf2ProcessBlock cfg cb maxBlocks block s).2) run.2 from
    runs ([], s)
  induction blocks with
  | nil => exact fun _ => rfl
  | cons block blocks ih =>
    intro run
    have logged : uf2ProcessBlock cfg cb maxBlocks block run.2 = _ :=
      uf2ProcessBlock_logged block run.2.fresh
    rw [List.foldl_cons, ih, List.foldl_cons]
    exact congrArg (fun ret => blocks.foldl _ (Prod.snd ret)) logged.symm

end Steps

/-! ### The block map -/

/-- The bits that the map of a state for `maxBlocks` blocks has. -/
def mapBits (maxBlocks : Nat) : Nat := 8 * ((maxBlocks + 7) / 8)

def State.setBits (state : State) (maxBlocks : Nat) : Finset Nat :=
  (Finset.range (mapBits maxBlocks)).filter fun n => state.blockMap n = true

/-- The payload of block `n` was written by one of the calls. -/
def Written (calls : List Entry) (n : Nat) : Prop := ∃ e ∈ calls, e.block.blockNo = n ∧ e.wrote

theorem written_append {calls : List Entry} {e : Entry} {n : Nat} :
    Written (calls ++ [e]) n ↔ Written calls n ∨ e.block.blockNo = n ∧ e.wrote := by
  simp [Written, or_and_right, exists_or]

/-- The state keeps track of the calls made so far. -/
structure Tracks (maxBlocks : Nat) (calls : List Entry) (state : State) : Prop where
  total_le : state.numBlocks ≤ maxBlocks
  bits : ∀ n, n < mapBits maxBlocks → (state.blockMap n = true ↔ Written calls n)
  below : ∀ n, Written calls n → n < state.numBlocks
  count : state.blocksReceived = (state.setBits maxBlocks).card
  complete : state.complete = true ↔ state.numBlocks ≠ 0 ∧ state.numBlocks ≤ state.blocksReceived

namespace Tracks

variable {maxBlocks : Nat} {calls : List Entry} {state : State}

theorem le_mapBits (n : Nat) : n ≤ mapBits n := by
  unfold mapBits
  omega

variable (tracks : Tracks maxBlocks calls state)
include tracks

theorem setBits_subset :
    state.setBits maxBlocks ⊆ Finset.range state.numBlocks := by
  intro n mem
  rw [State.setBits, Finset.mem_filter, Finset.mem_range] at mem
  exact Finset.mem_range.mpr (tracks.below n ((tracks.bits n mem.1).mp mem.2))

theorem received_le : state.blocksReceived ≤ state.numBlocks := by
  rw [tracks.count, ← Finset.card_range state.numBlocks]
  exact Finset.card_le_card tracks.setBits_subset

theorem all_written_iff :
    state.numBlocks ≤ state.blocksReceived ↔ ∀ n, n < state.numBlocks → Written calls n := by
  have room := le_mapBits maxBlocks
  have total_le := tracks.total_le
  constructor
  · intro enough n lt
    have all : state.setBits maxBlocks = Finset.range state.numBlocks := by
      refine Finset.eq_of_subset_of_card_le tracks.setBits_subset ?_
      rwa [Finset.card_range, ← tracks.count]
    have mem : n ∈ state.setBits maxBlocks := all ▸ Finset.mem_range.mpr lt
    rw [State.setBits, Finset.mem_filter, Finset.mem_range] at mem
    exact (tracks.bits n mem.1).mp mem.2
  · intro all
    rw [tracks.count, ← Finset.card_range state.numBlocks]
    refine Finset.card_le_card fun n mem => ?_
    have lt := Finset.mem_range.mp mem
    rw [State.setBits, Finset.mem_filter, Finset.mem_range]
    exact ⟨by omega, (tracks.bits n (by omega)).mpr (all n lt)⟩

theorem expect {total : Nat} (pos : 0 < total)
    (le : total ≤ maxBlocks) (same : state.numBlocks = 0 ∨ state.numBlocks = total) :
    Tracks maxBlocks calls { state with numBlocks := total } := by
  have received := tracks.received_le
  refine ⟨le, tracks.bits, fun n written => ?_, tracks.count, ?_⟩
  · have := tracks.below n written
    show n < total
    omega
  · show state.complete = true ↔ total ≠ 0 ∧ total ≤ state.blocksReceived
    rw [tracks.complete]
    omega

theorem erase (front : Nat → Nat) :
    Tracks maxBlocks calls { state with eraseFrontier := front } :=
  ⟨tracks.total_le, tracks.bits, tracks.below, tracks.count, tracks.complete⟩

theorem skip {e : Entry} (idle : ¬e.wrote) :
    Tracks maxBlocks (calls ++ [e]) state := by
  have same : ∀ n, Written (calls ++ [e]) n ↔ Written calls n := by
    simp [written_append, idle]
  exact ⟨tracks.total_le, fun n lt => (tracks.bits n lt).trans (same n).symm,
    fun n written => tracks.below n ((same n).mp written), tracks.count, tracks.complete⟩

theorem receive {e : Entry} (wrote : e.wrote)
    (lt : e.block.blockNo < state.numBlocks) (fresh : state.blockMap e.block.blockNo = false)
    (small : maxBlocks + 7 < 2 ^ 32) : Tracks maxBlocks (calls ++ [e]) (state.receive e.block.blockNo) := by
  have room := le_mapBits maxBlocks
  have total_le := tracks.total_le
  have received := tracks.received_le
  have bits : (state.receive e.block.blockNo).setBits maxBlocks =
      insert e.block.blockNo (state.setBits maxBlocks) := by
    ext n
    simp only [State.setBits, State.receive, Finset.mem_filter, Finset.mem_range, Finset.mem_insert, decide_eq_true_eq]
    constructor
    · rintro ⟨inside, here | before⟩
      · exact .inl here
      · exact .inr ⟨inside, before⟩
    · rintro (rfl | ⟨inside, before⟩)
      · exact ⟨by omega, .inl rfl⟩
      · exact ⟨inside, .inr before⟩
  have count : u32 (state.blocksReceived + 1) = state.blocksReceived + 1 := u32_of_lt (by omega)
  refine ⟨tracks.total_le, fun n inside => ?_, fun n written => ?_, ?_, ?_⟩
  · rw [written_append, ← tracks.bits n inside]
    simp only [State.receive, decide_eq_true_eq, wrote, and_true]
    constructor
    · rintro (rfl | before)
      · exact .inr rfl
      · exact .inl before
    · rintro (before | rfl)
      · exact .inr before
      · exact .inl rfl
  · rw [written_append] at written
    rcases written with before | ⟨rfl, -⟩
    · exact tracks.below n before
    · exact lt
  · rw [bits, Finset.card_insert_of_notMem (by simp [State.setBits, fresh]), ← tracks.count]
    exact count
  · show (state.complete || decide (u32 (state.blocksReceived + 1) ≥ state.numBlocks)) = true ↔
      state.numBlocks ≠ 0 ∧ state.numBlocks ≤ u32 (state.blocksReceived + 1)
    rw [count, Bool.or_eq_true, decide_eq_true_eq, tracks.complete]
    omega

omit tracks

theorem step {cfg : Cfg} {cb : Callbacks δ} {run : List Entry × Session δ} (block : Block)
    (small : maxBlocks + 7 < 2 ^ 32) (tracks : Tracks maxBlocks run.1 run.2.state) :
    Tracks maxBlocks (uf2Step cfg cb maxBlocks run block).1 (uf2Step cfg cb maxBlocks run block).2.state := by
  refine uf2Step_rule (P := fun run => Tracks maxBlocks run.1 run.2.state) fun rc s' outcome => ?_
  -- an admitted block has the total that is expected, or sets it
  have expected : ∀ {region offset}, Admitted cfg maxBlocks block run.2.fresh region offset →
      0 < block.numBlocks ∧ block.blockNo < block.numBlocks ∧
        Tracks maxBlocks run.1 { run.2.state with numBlocks := block.numBlocks } := by
    intro region offset admitted
    have checked := uf2CheckBlock_ok admitted.check
    have lt := checked.blockNo_lt
    exact ⟨by omega, lt, tracks.expect (by omega) checked.numBlocks_le admitted.total⟩
  cases outcome with
  | ignored => exact tracks.skip (by simp [Entry.wrote])
  | duplicate admitted => exact (expected admitted).2.2.skip (by simp [Entry.wrote, Session.expect])
  | eraseFailed admitted erased =>
    obtain ⟨⟨front, state⟩, erases, -⟩ := eraseUpTo_fresh erased
    rw [state]
    refine ((expected admitted).2.2.erase front).skip ?_
    rintro ⟨ctx, offset, data, len, mem⟩
    exact (erases _ mem).not_write
  | writeFailed admitted erased wrote fails =>
    obtain ⟨⟨front, state⟩, erases, -⟩ := eraseUpTo_fresh erased
    cases wrote
    rw [state]
    refine ((expected admitted).2.2.erase front).skip ?_
    rintro ⟨ctx, offset, data, len, mem⟩
    rcases List.mem_append.mp mem with before | now
    · exact (erases _ before).not_write
    · have now := List.mem_singleton.mp now
      simp only [Call.write.injEq] at now
      exact fails now.2.2.2.2.symm
  | @received region offset _ _ admitted fresh erased wrote =>
    obtain ⟨⟨front, state⟩, -⟩ := eraseUpTo_fresh erased
    obtain ⟨ok, rfl⟩ := Prod.mk.inj wrote
    obtain ⟨-, lt, tracks⟩ := expected admitted
    rw [state]
    refine (tracks.erase front).receive ⟨uf2RegionCtx cfg region, offset, block.data,
      block.payloadSize, List.mem_append.mpr (.inr ?_)⟩ lt fresh small
    exact List.mem_singleton.mpr (by rw [ok])

theorem uf2Init_clear (memory : State) (small : maxBlocks + 7 < 2 ^ 32) {n : Nat}
    (lt : n < mapBits maxBlocks) : (uf2Init memory maxBlocks).blockMap n = false := by
  have lt : n < 8 * ((maxBlocks + 7) / 8) := lt
  show (if n / 8 < statePadding + u32 (maxBlocks + 7) / 8 then false else memory.blockMap n) = false
  rw [u32_of_lt small, if_pos (by unfold statePadding; omega)]

theorem init (memory : State) (small : maxBlocks + 7 < 2 ^ 32) : Tracks maxBlocks [] (uf2Init memory maxBlocks) := by
  have clear : ∀ n, n < mapBits maxBlocks → (uf2Init memory maxBlocks).blockMap n = false :=
    fun n lt => uf2Init_clear memory small lt
  refine ⟨Nat.zero_le _, fun n lt => by simp [clear n lt, Written], by simp [Written], ?_, by simp [uf2Init]⟩
  have none : (uf2Init memory maxBlocks).setBits maxBlocks = ∅ := by
    refine Finset.filter_eq_empty_iff.mpr fun n mem => ?_
    rw [clear n (Finset.mem_range.mp mem)]
    simp
  rw [none]
  rfl

end Tracks

theorem uf2Run_tracks (cfg : Cfg) (cb : Callbacks δ) {maxBlocks : Nat} (small : maxBlocks + 7 < 2 ^ 32)
    (memory : State) (dev : δ) (blocks : List Block) :
    Tracks maxBlocks (uf2Run cfg cb maxBlocks blocks ⟨uf2Init memory maxBlocks, dev⟩).1
      (uf2Run cfg cb maxBlocks blocks ⟨uf2Init memory maxBlocks, dev⟩).2.state :=
  uf2Run_invariant (I := fun run => Tracks maxBlocks run.1 run.2.state) (.init memory small)
    (fun _ block inv => inv.step block small) blocks

/-- After any run as many blocks are counted as bits are set, none beyond the total and only for blocks that were
written, and the transfer is complete exactly when all blocks were written. -/
theorem block_map_tracks_writes (cfg : Cfg) (cb : Callbacks δ) (maxBlocks : Nat)
    (small : maxBlocks + 7 < 2 ^ 32) (memory : State) (dev : δ) (blocks : List Block) :
    let run := uf2Run cfg cb maxBlocks blocks ⟨uf2Init memory maxBlocks, dev⟩
    let state := run.2.state
    state.blocksReceived = (state.setBits maxBlocks).card ∧
      (∀ n, state.numBlocks ≤ n → n < mapBits maxBlocks → state.blockMap n = false) ∧
      (∀ n, n < mapBits maxBlocks → state.blockMap n = true → Written run.1 n) ∧
      (state.complete = true ↔ state.numBlocks ≠ 0 ∧ ∀ n, n < state.numBlocks → Written run.1 n) := by
  intro run state
  have tracks : Tracks maxBlocks run.1 state := uf2Run_tracks cfg cb small memory dev blocks
  refine ⟨tracks.count, fun n beyond lt => ?_, fun n lt => (tracks.bits n lt).mp, ?_⟩
  · rw [Bool.eq_false_iff]
    intro set
    have := tracks.below n ((tracks.bits n lt).mp set)
    omega
  · rw [tracks.complete, tracks.all_written_iff]

def demoCfg : Cfg where
  cbCtx := 0
  flashBase := 4096
  flashSize := 8192
  regions := none
  numRegions := 0
  familyId := 0
  boardId := []
  eraseSize := 4096
  flashBase_lt := by decide
  flashSize_lt := by decide
  eraseSize_pow := Cfg.sector_pow

def okCallbacks : Callbacks Unit := ⟨fun _ _ _ _ _ => (0, ()), fun _ _ _ _ => (0, ())⟩

/-- Memory in which one bit of the block map was set before. -/
def staleMemory : State := ⟨0, 0, fun _ => 0, false, fun n => n = 100⟩

/-- Blocks of 256 bytes, 512 bytes apart. -/
def demoBlock (blockNo numBlocks : Nat) : Block :=
  .pack ⟨0, 4096 + 512 * blockNo % 8192, 256, blockNo, numBlocks, 0⟩ (List.replicate 476 0) List.length_replicate

def demoBlocks : List Block := [demoBlock 8 16, demoBlock 1 16, demoBlock 8 16]

theorem block_map_tracks_writes_demo :
    let run := uf2Run demoCfg okCallbacks 16 demoBlocks ⟨uf2Init staleMemory 16, ()⟩
    run.2.state.blocksReceived = 2 ∧ Written run.1 1 ∧ Written run.1 8 := by
  obtain ⟨-, -, written, -⟩ := block_map_tracks_writes demoCfg okCallbacks 16 (by decide) staleMemory () demoBlocks
  exact ⟨by decide +kernel, written 1 (by decide) (by decide +kernel), written 8 (by decide) (by decide +kernel)⟩

/-- With the largest limit the size of the map wraps around, and a block whose bit was set in memory counts as
received. -/
theorem stale_map_skips_block :
    let run := uf2Run demoCfg okCallbacks (2 ^ 32 - 1) [demoBlock 100 101] ⟨uf2Init staleMemory (2 ^ 32 - 1), ()⟩
    run.2.state.blockMap 100 = true ∧ 100 < mapBits (2 ^ 32 - 1) ∧ ¬Written run.1 100 := by
  refine ⟨by decide +kernel, by decide, ?_⟩
  have idle : ((uf2Run demoCfg okCallbacks (2 ^ 32 - 1) [demoBlock 100 101]
      ⟨uf2Init staleMemory (2 ^ 32 - 1), ()⟩).1.all fun e => e.calls.isEmpty) = true := by
    decide +kernel
  rintro ⟨e, mem, -, ctx, offset, data, len, called⟩
  have none := List.isEmpty_iff.mp (List.all_eq_true.mp idle e mem)
  simp [none] at called

/-! ### Failed blocks -/

/-- What the state knows about the transfer, without how far the regions are erased. -/
def State.record (state : State) : State := { state with eraseFrontier := fun _ => 0 }

structure Callbacks.Works (cb : Callbacks δ) : Prop where
  write : ∀ ctx offset data len dev, (cb.write ctx offset data len dev).1 = 0
  erase : ∀ ctx offset len dev, (cb.erase ctx offset len dev).1 = 0

/-- What a block does to the record if no callback fails. -/
def State.accept (cfg : Cfg) (maxBlocks : Nat) (state : State) (block : Block) : State :=
  match uf2CheckBlock cfg maxBlocks block with
  | .error _ => state
  | .ok _ =>
    if state.numBlocks ≠ 0 ∧ state.numBlocks ≠ block.numBlocks then state
    else if state.blockMap block.blockNo then { state with numBlocks := block.numBlocks }
    else { state with numBlocks := block.numBlocks }.receive block.blockNo

section Failed

variable {cfg : Cfg} {cb : Callbacks δ} {maxBlocks : Nat}

theorem Callbacks.Works.record (works : cb.Works) (block : Block) (s : Session δ) :
    (uf2ProcessBlock cfg cb maxBlocks block s).2.state.record = s.state.record.accept cfg maxBlocks block := by
  rcases check : uf2CheckBlock cfg maxBlocks block with rc | ⟨region, offset⟩
  · simp only [uf2ProcessBlock, State.accept, check]
  simp only [uf2ProcessBlock, State.accept, check]
  by_cases other : s.state.numBlocks ≠ 0 ∧ s.state.numBlocks ≠ block.numBlocks
  · rw [if_pos other]
    exact (if_pos other).symm
  rw [if_neg other]
  refine Eq.trans ?_ (if_neg other).symm
  by_cases seen : s.state.blockMap block.blockNo = true
  · refine Eq.trans ?_ (if_pos seen).symm
    exact congrArg (fun ret : Int × Session δ => ret.2.state.record) (if_pos seen)
  refine Eq.trans ?_ (if_neg seen).symm
  rw [if_neg (show ¬(s.expect block.numBlocks).state.blockMap block.blockNo = true from seen)]
  rcases erased : eraseUpTo cfg cb region (u32 (offset + block.payloadSize))
    (s.expect block.numBlocks) with ⟨rc, s₁⟩
  obtain ⟨front, state⟩ := eraseLoop_state erased
  obtain ⟨rfl, -⟩ := eraseLoop_works (I := fun _ => True) trivial erased fun _ _ _ => ⟨works.erase _ _ _ _, trivial⟩
  simp only [works.write, ne_eq, not_true_eq_false, if_false, state]
  rfl

theorem Callbacks.Works.run_record (works : cb.Works) (blocks : List Block) (s : Session δ) :
    (uf2Run cfg cb maxBlocks blocks s).2.state.record = blocks.foldl (State.accept cfg maxBlocks) s.state.record := by
  rw [uf2Run_session]
  induction blocks generalizing s with
  | nil => rfl
  | cons block blocks ih => rw [List.foldl_cons, List.foldl_cons, ih, works.record]

/-- A failed callback comes after the total is stored, and before anything else. -/
theorem record_failed {block : Block} {s s₁ : Session δ} {rc : Int} {region endOffset : Nat}
    (erased : eraseUpTo cfg cb region endOffset (s.expect block.numBlocks) = (rc, s₁)) :
    s₁.state.record = { s.state.record with numBlocks := block.numBlocks } := by
  obtain ⟨front, state⟩ := eraseLoop_state erased
  rw [state]
  rfl

end Failed

/-- A block that fails leaves no trace in the record, and later blocks fare as without it, exactly if it is not the
block that stores the total. -/
theorem failed_block_unrecorded_iff (cfg : Cfg) (cb : Callbacks δ) (maxBlocks : Nat) (block : Block) (s : Session δ) :
    let next := uf2ProcessBlock cfg cb maxBlocks block s
    (next.1 ≠ 0 → next.2.state.record = s.state.record ∧ ∀ later : Callbacks δ, later.Works → ∀ blocks,
        (uf2Run cfg later maxBlocks blocks next.2).2.state.record =
          (uf2Run cfg later maxBlocks blocks s).2.state.record) ↔
      ¬(next.1 ≠ 0 ∧ s.state.numBlocks = 0 ∧ ∃ region offset, Admitted cfg maxBlocks block s region offset) := by
  intro next
  have outcome : Outcome cfg cb maxBlocks block s next.1 next.2 := uf2ProcessBlock_outcome cfg cb maxBlocks block s
  obtain ⟨rc, s'⟩ := next
  -- an admitted block that fails has stored its total
  have stored : rc ≠ 0 → ∀ {region offset}, Admitted cfg maxBlocks block s region offset →
      s'.state.record = { s.state.record with numBlocks := block.numBlocks } := by
    intro fails region offset admitted
    cases outcome with
    | ignored _ unfit => exact absurd admitted (unfit region offset)
    | duplicate => exact absurd rfl fails
    | eraseFailed _ erased => exact record_failed erased
    | writeFailed _ erased =>
      have same := record_failed erased
      exact same
    | received => exact absurd rfl fails
  constructor
  · rintro kept ⟨fails, first, region, offset, admitted⟩
    have same := (stored fails admitted).symm.trans (kept fails).1
    have zero : block.numBlocks = 0 := (congrArg State.numBlocks same).trans first
    have := (uf2CheckBlock_ok admitted.check).blockNo_lt
    omega
  · intro later fails
    have same : s'.state.record = s.state.record := by
      by_cases fit : ∃ region offset, Admitted cfg maxBlocks block s region offset
      · obtain ⟨region, offset, admitted⟩ := fit
        have total := admitted.total.resolve_left fun first => later ⟨fails, first, region, offset, admitted⟩
        rw [stored fails admitted, ← total]
        rfl
      · cases outcome with
        | ignored => rfl
        | duplicate admitted => exact absurd ⟨_, _, admitted⟩ fit
        | eraseFailed admitted => exact absurd ⟨_, _, admitted⟩ fit
        | writeFailed admitted => exact absurd ⟨_, _, admitted⟩ fit
        | received admitted => exact absurd ⟨_, _, admitted⟩ fit
    exact ⟨same, fun later works blocks => by rw [works.run_record, works.run_record, same]⟩

/-- The first of two blocks is not written. The blocks of a file of three are refused from then on. -/
theorem failed_block_keeps_total :
    let failing : Callbacks Unit := ⟨fun _ _ _ _ _ => (-5, ()), fun _ _ _ _ => (0, ())⟩
    let start : Session Unit := ⟨uf2Init staleMemory 16, ()⟩
    let next := uf2ProcessBlock demoCfg failing 16 (demoBlock 0 2) start
    next.1 = -5 ∧ start.state.numBlocks = 0 ∧ next.2.state.numBlocks = 2 ∧
      (uf2ProcessBlock demoCfg okCallbacks 16 (demoBlock 0 3) start).1 = 0 ∧
      (uf2ProcessBlock demoCfg okCallbacks 16 (demoBlock 0 3) next.2).1 = -1 := by
  decide +kernel

end Adaboot.Uf2
