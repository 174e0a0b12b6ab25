import Adaboot.Nor.Frontier
import Adaboot.Uf2.Session

/-!
# Erasing regions

A region is erased in order, as far as the blocks reach, so a transfer never erases what it has written. This needs
regions that stay away from the last address: sums are `uint32_t`.
-/

namespace Adaboot.Uf2

variable {δ : Type}

def Call.access : Call → Nor.Access Nat
  | .erase ctx offset len rc => .erase ctx offset len (rc = 0)
  | .write ctx offset _ len rc => .write ctx offset len (rc = 0)

def accesses (calls : List Entry) : List (Nor.Access Nat) := (calls.flatMap Entry.calls).map Call.access

/-- Neither an erase block nor a payload behind the end of a region leaves 32 bits. -/
structure Cfg.Bounded (cfg : Cfg) : Prop where
  end_lt : ∀ r, r < uf2NumRegions cfg → uf2RegionBase cfg r + uf2RegionSize cfg r < 2 ^ 32
  erase_lt : ∀ r, r < uf2NumRegions cfg → uf2RegionSize cfg r + cfg.eraseSize < 2 ^ 32
  payload_lt : ∀ r, r < uf2NumRegions cfg → uf2RegionSize cfg r + uf2PayloadSize ≤ 2 ^ 32

/-- Different regions are different flash. -/
def Cfg.Separate (cfg : Cfg) : Prop :=
  ∀ i j, i < uf2NumRegions cfg → j < uf2NumRegions cfg → uf2RegionCtx cfg i = uf2RegionCtx cfg j → i = j

/-- The frontiers of the state are those of the accesses made. -/
def Fronts (cfg : Cfg) (log : List (Nor.Access Nat)) (state : State) : Prop :=
  ∃ front, Nor.Progressive log front ∧ ∀ r, r < uf2NumRegions cfg →
    front (uf2RegionCtx cfg r) = state.eraseFrontier r ∧ state.eraseFrontier r ≤ uf2RegionSize cfg r

namespace Fronts

variable {cfg : Cfg} {cb : Callbacks δ} {log : List (Nor.Access Nat)} {state : State} {region : Nat}
  (fronts : Fronts cfg log state)
include fronts

theorem erase (separate : cfg.Separate) (lt : region < uf2NumRegions cfg) {len : Nat}
    (le : state.eraseFrontier region + len ≤ uf2RegionSize cfg region) :
    Fronts cfg (log ++ [.erase (uf2RegionCtx cfg region) (state.eraseFrontier region) len true])
      (state.setFrontier region (state.eraseFrontier region + len)) := by
  obtain ⟨front, progress, fronts⟩ := fronts
  have next := progress.erase (uf2RegionCtx cfg region) len
  rw [(fronts region lt).1] at next
  refine ⟨_, next, fun r lt' => ?_⟩
  by_cases same : r = region
  · subst same
    rw [Function.update_self]
    simpa only [State.setFrontier, if_true, true_and] using le
  · rw [Function.update_of_ne fun eq => same (separate r region lt' lt eq)]
    simp only [State.setFrontier, if_neg same]
    exact fronts r lt'

theorem erase_failed (lt : region < uf2NumRegions cfg) (len : Nat) :
    Fronts cfg (log ++ [.erase (uf2RegionCtx cfg region) (state.eraseFrontier region) len false]) state := by
  obtain ⟨front, progress, fronts⟩ := fronts
  have next := progress.erase_failed (uf2RegionCtx cfg region) len
  rw [(fronts region lt).1] at next
  exact ⟨front, next, fronts⟩

theorem write (lt : region < uf2NumRegions cfg) {offset len : Nat}
    (le : offset + len ≤ state.eraseFrontier region) (ok : Bool) :
    Fronts cfg (log ++ [.write (uf2RegionCtx cfg region) offset len ok]) state := by
  obtain ⟨front, progress, fronts⟩ := fronts
  exact ⟨front, progress.write ok ((fronts region lt).1 ▸ le), fronts⟩

end Fronts

section Ahead

variable {cfg : Cfg} {cb : Callbacks δ} {region : Nat} (wide : uf2RegionSize cfg region + cfg.eraseSize < 2 ^ 32)
include wide

variable {frontier endOffset maxBlocks : Nat}

theorem eraseLen_spec (below : frontier < uf2RegionSize cfg region) : 0 < eraseLen cfg region frontier ∧
      frontier + eraseLen cfg region frontier ≤ uf2RegionSize cfg region := by
  obtain ⟨k, -, size⟩ := cfg.eraseSize_pow
  have pos : 0 < cfg.eraseSize := size ▸ Nat.two_pow_pos k
  unfold eraseLen
  rw [u32_of_lt (by omega)]
  split <;> omega

theorem eraseEnd_spec (le : endOffset ≤ uf2RegionSize cfg region) : endOffset ≤ eraseEnd cfg region endOffset ∧
      eraseEnd cfg region endOffset ≤ uf2RegionSize cfg region := by
  obtain ⟨k, -, size⟩ := cfg.eraseSize_pow
  have pos : 0 < cfg.eraseSize := size ▸ Nat.two_pow_pos k
  have parts := Nat.div_add_mod endOffset cfg.eraseSize
  have rest := Nat.mod_lt endOffset pos
  have rounded : (endOffset / cfg.eraseSize + 1) * cfg.eraseSize =
      cfg.eraseSize * (endOffset / cfg.eraseSize) + cfg.eraseSize := by
    rw [Nat.add_mul, Nat.one_mul, Nat.mul_comm]
  unfold eraseEnd
  simp only
  rw [rounded, u32_of_lt (by omega)]
  split <;> omega

omit wide

theorem eraseLen_aligned (aligned : cfg.eraseSize ∣ frontier)
    (more : frontier < eraseEnd cfg region endOffset) :
    let next := frontier + eraseLen cfg region frontier
    next ≤ uf2RegionSize cfg region ∧ u32 next = next ∧
      (cfg.eraseSize ∣ next ∨ next = uf2RegionSize cfg region) := by
  obtain ⟨k, k_lt, size⟩ := cfg.eraseSize_pow
  have whole : cfg.eraseSize ∣ 2 ^ 32 := size ▸ Nat.pow_dvd_pow 2 k_lt.le
  have limit := uf2RegionSize_lt cfg region
  -- the end is a multiple of the erase block below the last address, or cut off by the region
  have rounded : ∃ stop, cfg.eraseSize ∣ stop ∧ stop < 2 ^ 32 ∧ frontier < stop ∧
      frontier < uf2RegionSize cfg region := by
    refine ⟨u32 ((endOffset / cfg.eraseSize + 1) * cfg.eraseSize), ?_, u32_lt _, ?_⟩
    · exact (Nat.dvd_mod_iff whole).mpr (Nat.dvd_mul_left _ _)
    · unfold eraseEnd at more
      simp only at more
      split at more <;> omega
  obtain ⟨stop, multiple, stop_lt, below, inside⟩ := rounded
  have next_le : frontier + cfg.eraseSize ≤ stop := by
    obtain ⟨a, rfl⟩ := aligned
    obtain ⟨b, rfl⟩ := multiple
    have lt : a < b := Nat.lt_of_mul_lt_mul_left below
    calc cfg.eraseSize * a + cfg.eraseSize = cfg.eraseSize * (a + 1) := by rw [Nat.mul_add, Nat.mul_one]
      _ ≤ cfg.eraseSize * b := Nat.mul_le_mul_left _ lt
  intro next
  have next_eq : next = frontier + cfg.eraseSize ∧ next ≤ uf2RegionSize cfg region ∨
      next = uf2RegionSize cfg region := by
    have len : next = frontier + eraseLen cfg region frontier := rfl
    unfold eraseLen at len
    rw [u32_of_lt (by omega)] at len
    split at len <;> omega
  rcases next_eq with ⟨eq, le⟩ | eq
  · exact ⟨le, u32_of_lt (by omega), .inl (eq ▸ Nat.dvd_add aligned (Nat.dvd_refl _))⟩
  · exact ⟨eq.le, u32_of_lt (by omega), .inr eq⟩

theorem eraseLoop_reaches (wide : uf2RegionSize cfg region + cfg.eraseSize < 2 ^ 32)
    {stop fuel : Nat} (stop_le : stop ≤ uf2RegionSize cfg region) {s s₁ : Session δ}
    (enough : stop ≤ s.state.eraseFrontier region + fuel) (erased : eraseLoop cfg cb region stop fuel s = (0, s₁)) :
    stop ≤ s₁.state.eraseFrontier region := by
  induction fuel generalizing s with
  | zero =>
    cases erased
    exact enough
  | succ fuel ih =>
    rw [eraseLoop] at erased
    simp only at erased
    split at erased
    next more =>
      obtain ⟨pos, inside⟩ := eraseLen_spec wide (more.trans_le stop_le)
      split at erased
      next fails => exact absurd (Prod.mk.inj erased).1 fails
      next ok =>
        refine ih ?_ erased
        simp only [State.setFrontier, if_true]
        rw [u32_of_lt (by omega)]
        omega
    next done =>
      cases erased
      exact not_lt.mp done

theorem eraseUpTo_fronts (bounded : cfg.Bounded) (separate : cfg.Separate)
    (lt : region < uf2NumRegions cfg) (le : endOffset ≤ uf2RegionSize cfg region)
    {before : List (Nor.Access Nat)} {s s₁ : Session (δ × List Call)} {rc : Int}
    (fronts : Fronts cfg (before ++ s.dev.2.map Call.access) s.state)
    (erased : eraseUpTo cfg cb.logged region endOffset s = (rc, s₁)) :
    Fronts cfg (before ++ s₁.dev.2.map Call.access) s₁.state ∧
      (rc = 0 → endOffset ≤ s₁.state.eraseFrontier region) := by
  have wide := bounded.erase_lt region lt
  obtain ⟨le_stop, stop_le⟩ := eraseEnd_spec wide le
  have result : s₁ = (eraseUpTo cfg cb.logged region endOffset s).2 := by rw [erased]
  constructor
  · rw [result]
    refine eraseLoop_invariant
      (I := fun s : Session (δ × List Call) =>
        Fronts cfg (before ++ s.dev.2.map Call.access) s.state) fronts ?_
    intro s rc dev fronts more call
    cases call
    obtain ⟨-, inside⟩ := eraseLen_spec wide (more.trans_le stop_le)
    simp only [List.map_append, List.map_cons, List.map_nil, Call.access, ← List.append_assoc]
    split
    next ok =>
      rw [ok, u32_of_lt (by omega)]
      exact fronts.erase separate lt inside
    next fails =>
      rw [decide_eq_false fails]
      exact fronts.erase_failed lt _
  · rintro rfl
    exact le_stop.trans (eraseLoop_reaches wide stop_le (Nat.le_add_left _ _) erased)

theorem Checked.inside {offset : Nat} {block : Block} (bounded : cfg.Bounded)
    (checked : Checked cfg maxBlocks block region offset) :
    region < uf2NumRegions cfg ∧ block.targetAddr = uf2RegionBase cfg region + offset ∧
      u32 (offset + block.payloadSize) = offset + block.payloadSize ∧
      offset + block.payloadSize ≤ uf2RegionSize cfg region := by
  obtain ⟨lt, addr, below⟩ := checked.located
  have payload_lt := bounded.payload_lt region lt
  have payload_le := checked.payload_le
  have small : u32 (offset + block.payloadSize) = offset + block.payloadSize := u32_of_lt (by omega)
  exact ⟨lt, addr, small, small ▸ checked.end_le⟩

/-- The payload writes of a call are below the frontiers that the call leaves. -/
def Entry.Ahead (cfg : Cfg) (e : Entry) : Prop :=
  ∀ ctx offset data len rc, Call.write ctx offset data len rc ∈ e.calls →
    ∃ r, r < uf2NumRegions cfg ∧ ctx = uf2RegionCtx cfg r ∧
      offset + len ≤ e.state.eraseFrontier r ∧ e.state.eraseFrontier r ≤ uf2RegionSize cfg r

theorem uf2Step_ahead (bounded : cfg.Bounded) (separate : cfg.Separate)
    {run : List Entry × Session δ} (block : Block)
    (inv : Fronts cfg (accesses run.1) run.2.state ∧ ∀ e ∈ run.1, e.Ahead cfg) :
    Fronts cfg (accesses (uf2Step cfg cb maxBlocks run block).1) (uf2Step cfg cb maxBlocks run block).2.state ∧
      ∀ e ∈ (uf2Step cfg cb maxBlocks run block).1, e.Ahead cfg := by
  obtain ⟨fronts, ahead⟩ := inv
  refine uf2Step_rule (P := fun run => Fronts cfg (accesses run.1) run.2.state ∧ ∀ e ∈ run.1, e.Ahead cfg)
    fun rc s' outcome => ?_
  -- it is enough to look at the new call
  suffices new : Fronts cfg (accesses run.1 ++ s'.dev.2.map Call.access) s'.state ∧
      Entry.Ahead cfg ⟨block, rc, s'.dev.2, s'.state⟩ by
    refine ⟨by simpa [accesses] using new.1, fun e mem => ?_⟩
    rcases List.mem_append.mp mem with old | last
    · exact ahead e old
    · exact List.mem_singleton.mp last ▸ new.2
  have start : Fronts cfg (accesses run.1 ++ ([] : List Call).map Call.access) run.2.state := by
    simpa using fronts
  -- a write comes when everything up to its end is erased
  have write : ∀ {region offset rc s₁ dev}, Admitted cfg maxBlocks block run.2.fresh region offset →
      eraseUpTo cfg cb.logged region (u32 (offset + block.payloadSize))
        (run.2.fresh.expect block.numBlocks) = (0, s₁) →
      cb.logged.write (uf2RegionCtx cfg region) offset block.data block.payloadSize s₁.dev = (rc, dev) →
      Fronts cfg (accesses run.1 ++ dev.2.map Call.access) s₁.state ∧
        Entry.Ahead cfg ⟨block, rc, dev.2, s₁.state⟩ := by
    intro region offset rc s₁ dev admitted erased wrote
    obtain ⟨lt, -, small, inside⟩ := (uf2CheckBlock_ok admitted.check).inside bounded
    rw [small] at erased
    obtain ⟨-, erases, -⟩ := eraseUpTo_fresh erased
    obtain ⟨fronts, reached⟩ := eraseUpTo_fronts bounded separate lt inside start erased
    cases wrote
    refine ⟨?_, fun ctx offset' data len rc' mem => ?_⟩
    · simp only [List.map_append, List.map_cons, List.map_nil, Call.access, ← List.append_assoc]
      exact fronts.write lt (reached rfl) _
    · rcases List.mem_append.mp mem with before | now
      · exact absurd (erases _ before) Call.Erases.not_write
      · have now := List.mem_singleton.mp now
        obtain ⟨rfl, rfl, -, rfl, -⟩ := now
        obtain ⟨front, -, le⟩ := fronts
        exact ⟨region, lt, rfl, reached rfl, (le region lt).2⟩
  cases outcome with
  | ignored => exact ⟨start, by simp [Entry.Ahead]⟩
  | duplicate => exact ⟨start, by simp [Entry.Ahead, Session.expect]⟩
  | eraseFailed admitted erased =>
    obtain ⟨lt, -, small, inside⟩ := (uf2CheckBlock_ok admitted.check).inside bounded
    rw [small] at erased
    refine ⟨(eraseUpTo_fronts bounded separate lt inside start erased).1, fun ctx offset data len rc mem => ?_⟩
    exact absurd ((eraseUpTo_fresh erased).2.1 _ mem) Call.Erases.not_write
  | writeFailed admitted erased wrote =>
    have new := write admitted erased wrote
    exact new
  | received admitted fresh erased wrote =>
    have new := write admitted erased wrote
    exact new

/-- After any run: every payload write is inside its region and below the frontier, the bytes below it were erased
once, and no erase covers a byte that was written before. -/
theorem erase_stays_ahead (cfg : Cfg) (cb : Callbacks δ) (maxBlocks : Nat) (bounded : cfg.Bounded)
    (separate : cfg.Separate) (memory : State) (dev : δ) (blocks : List Block) :
    let run := uf2Run cfg cb maxBlocks blocks ⟨uf2Init memory maxBlocks, dev⟩
    (∀ e ∈ run.1, e.Ahead cfg) ∧ (∀ r, r < uf2NumRegions cfg → ∀ i, i < run.2.state.eraseFrontier r →
        (accesses run.1).countP (Nor.Access.erases (uf2RegionCtx cfg r) i) = 1) ∧
      (accesses run.1).Pairwise Nor.Access.Spares := by
  have start : Fronts cfg (accesses []) (uf2Init memory maxBlocks) :=
    ⟨fun _ => 0, .nil, fun r _ => ⟨rfl, Nat.zero_le _⟩⟩
  obtain ⟨⟨front, progress, fronts⟩, ahead⟩ := uf2Run_invariant (s := ⟨uf2Init memory maxBlocks, dev⟩)
      (I := fun run => Fronts cfg (accesses run.1) run.2.state ∧ ∀ e ∈ run.1, e.Ahead cfg)
      ⟨start, by simp⟩ (fun run block inv => uf2Step_ahead bounded separate block inv) blocks
  refine ⟨ahead, fun r lt i below => ?_, progress.spares⟩
  rw [progress.once, (fronts r lt).1]
  exact if_pos below

theorem erase_stays_ahead_demo :
    let run := uf2Run demoCfg okCallbacks 16 demoBlocks ⟨uf2Init staleMemory 16, ()⟩
    run.2.state.eraseFrontier 0 = 8192 ∧ (accesses run.1).countP (Nor.Access.erases 0 17) = 1 ∧
      (accesses run.1).Pairwise Nor.Access.Spares := by
  have front : (uf2Run demoCfg okCallbacks 16 demoBlocks
      ⟨uf2Init staleMemory 16, ()⟩).2.state.eraseFrontier 0 = 8192 := by decide +kernel
  have single : ∀ {r}, r < uf2NumRegions demoCfg → r = 0 := fun lt => Nat.lt_one_iff.mp lt
  obtain ⟨-, once, spares⟩ := erase_stays_ahead demoCfg okCallbacks 16
    ⟨fun r lt => by decide +revert, fun r lt => by decide +revert, fun r lt => by decide +revert⟩
    (fun i j lti ltj _ => (single lti).trans (single ltj).symm) staleMemory () demoBlocks
  exact ⟨front, once 0 (by decide) 17 (by rw [front]; decide), spares⟩

end Ahead

def wideCfg : Cfg :=
  { demoCfg with
    flashBase := 0
    flashSize := 2 ^ 32 - 4096
    flashBase_lt := Cfg.zero_lt
    flashSize_lt := by decide }

/-- The end of what has to be erased wraps around, so nothing is erased and the payload is written above the frontier.
-/
theorem last_block_not_erased :
    let block : Block := .pack ⟨0, 2 ^ 32 - 4096 - 256, 256, 0, 1, 0⟩ (List.replicate 476 0) List.length_replicate
    let run := uf2Run wideCfg okCallbacks 16 [block] ⟨uf2Init staleMemory 16, ()⟩
    uf2RegionBase wideCfg 0 + uf2RegionSize wideCfg 0 + wideCfg.eraseSize ≤ 2 ^ 32 ∧
      run.2.state.eraseFrontier 0 = 0 ∧ (accesses run.1).length = 1 ∧
      ¬∀ e ∈ run.1, e.Ahead wideCfg := by
  refine ⟨by decide, by decide +kernel, by decide +kernel, fun ahead => ?_⟩
  have above : ((uf2Run wideCfg okCallbacks 16 [.pack ⟨0, 2 ^ 32 - 4096 - 256, 256, 0, 1, 0⟩
      (List.replicate 476 0) List.length_replicate] ⟨uf2Init staleMemory 16, ()⟩).1.all fun e =>
      e.calls.all fun
        | .write _ offset _ len _ => offset + len ≤ e.state.eraseFrontier 0
        | .erase .. => true) = false := by decide +kernel
  rw [List.all_eq_false] at above
  obtain ⟨e, mem, written⟩ := above
  refine written (List.all_eq_true.mpr fun call called => ?_)
  cases call with
  | erase => rfl
  | write ctx offset data len rc =>
    obtain ⟨r, lt, -, le, -⟩ := ahead e mem ctx offset data len rc called
    obtain rfl := Nat.lt_one_iff.mp lt
    exact decide_eq_true le

/-! ### How far regions are erased -/

/-- No call erases behind the last byte that it or a call before it has written to the region. -/
def Tight (calls : List Entry) : Prop :=
  ∀ before e after, calls = before ++ e :: after → ∀ ctx off len rc, Call.erase ctx off len rc ∈ e.calls →
    ∃ e' ∈ before ++ [e], ∃ off' data len', Call.write ctx off' data len' 0 ∈ e'.calls ∧ off < off' + len'

/-- The block does not end with an erase block, unless the region ends there. -/
def Cfg.EndsInside (cfg : Cfg) (maxBlocks : Nat) (block : Block) : Prop :=
  ∀ region offset, uf2CheckBlock cfg maxBlocks block = .ok (region, offset) →
    ¬cfg.eraseSize ∣ u32 (offset + block.payloadSize) ∨ u32 (offset + block.payloadSize) = uf2RegionSize cfg region

/-- Regions are erased by whole erase blocks, or to their end. -/
def State.Aligned (cfg : Cfg) (state : State) : Prop :=
  ∀ r, cfg.eraseSize ∣ state.eraseFrontier r ∨ state.eraseFrontier r = uf2RegionSize cfg r

/-- The call writes behind the start of everything that it erases. -/
def Entry.Covers (e : Entry) : Prop := ∀ ctx off len rc, Call.erase ctx off len rc ∈ e.calls →
  ∃ off' data len', Call.write ctx off' data len' 0 ∈ e.calls ∧ off < off' + len'

def ErasesBelow (cfg : Cfg) (region endOffset : Nat) (calls : List Call) : Prop :=
  ∀ ctx off len rc, Call.erase ctx off len rc ∈ calls →
    ctx = uf2RegionCtx cfg region ∧ cfg.eraseSize ∣ off ∧ off < eraseEnd cfg region endOffset

def Covered (cfg : Cfg) (run : List Entry × Session δ) : Prop :=
  run.2.state.Aligned cfg ∧ ∀ e ∈ run.1, e.rc = 0 → e.Covers

section Tight

variable {cfg : Cfg} {cb : Callbacks δ} {region endOffset maxBlocks : Nat}

theorem eraseEnd_le_size : eraseEnd cfg region endOffset ≤ uf2RegionSize cfg region := by
  unfold eraseEnd
  simp only
  split <;> omega

theorem lt_of_lt_eraseEnd {off : Nat} (dvd : cfg.eraseSize ∣ off) (below : off < eraseEnd cfg region endOffset)
    (inside : ¬cfg.eraseSize ∣ endOffset ∨ endOffset = uf2RegionSize cfg region) : off < endOffset := by
  rcases inside with partly | last
  · -- the erase block at `off` is not behind the one that has the end, and the end is not its start
    have rounded : off < (endOffset / cfg.eraseSize + 1) * cfg.eraseSize := by
      have le : u32 ((endOffset / cfg.eraseSize + 1) * cfg.eraseSize) ≤ _ := Nat.mod_le _ _
      unfold eraseEnd at below
      simp only at below
      split at below <;> omega
    obtain ⟨k, rfl⟩ := dvd
    rw [Nat.mul_comm] at rounded
    have le : k ≤ endOffset / cfg.eraseSize := Nat.le_of_lt_succ (Nat.lt_of_mul_lt_mul_right rounded)
    refine Nat.lt_of_le_of_ne ?_ fun eq => partly (eq ▸ Nat.dvd_mul_right _ _)
    exact (Nat.mul_le_mul_left _ le).trans (Nat.mul_div_le _ _)
  · rw [last]
    exact below.trans_le eraseEnd_le_size

theorem ErasesBelow.snoc {calls : List Call} {off : Nat} (below : ErasesBelow cfg region endOffset calls)
    (dvd : cfg.eraseSize ∣ off) (more : off < eraseEnd cfg region endOffset) (len : Nat) (rc : Int) :
    ErasesBelow cfg region endOffset (calls ++ [.erase (uf2RegionCtx cfg region) off len rc]) := by
  intro ctx off' len' rc' mem
  rcases List.mem_append.mp mem with old | new
  · exact below ctx off' len' rc' old
  · obtain ⟨rfl, rfl, -⟩ := Call.erase.inj (List.mem_singleton.mp new)
    exact ⟨rfl, dvd, more⟩

theorem eraseUpTo_below {s s₁ : Session (δ × List Call)} {rc : Int} (aligned : s.state.Aligned cfg)
    (none : s.dev.2 = []) (erased : eraseUpTo cfg cb.logged region endOffset s = (rc, s₁)) :
    s₁.state.Aligned cfg ∧ ErasesBelow cfg region endOffset s₁.dev.2 := by
  have result : s₁ = (eraseUpTo cfg cb.logged region endOffset s).2 := by rw [erased]
  rw [result]
  refine eraseLoop_invariant (I := fun s : Session (δ × List Call) =>
    s.state.Aligned cfg ∧ ErasesBelow cfg region endOffset s.dev.2) ⟨aligned, by simp [ErasesBelow, none]⟩ ?_
  rintro s rc dev ⟨aligned, below⟩ more call
  cases call
  have dvd := (aligned region).resolve_right fun full => by
    rw [full] at more
    exact absurd more (not_lt.mpr eraseEnd_le_size)
  obtain ⟨-, small, next⟩ := eraseLen_aligned dvd more
  have below' := fun len rc => below.snoc dvd more len rc
  split
  · refine ⟨fun r => ?_, below' _ _⟩
    by_cases same : r = region
    · subst same
      simpa only [State.setFrontier, if_true, small] using next
    · simpa only [State.setFrontier, if_neg same] using aligned r
  · exact ⟨aligned, below' _ _⟩

/-- Every call leaves the frontiers aligned, and erases from aligned offsets of the region of its block. -/
theorem Outcome.aligned {block : Block} {s : Session δ} {s' : Session (δ × List Call)} {rc : Int}
    (outcome : Outcome cfg cb.logged maxBlocks block s.fresh rc s') (aligned : s.state.Aligned cfg) :
    s'.state.Aligned cfg ∧ ∀ ctx off len rc, Call.erase ctx off len rc ∈ s'.dev.2 → ∃ region offset,
      uf2CheckBlock cfg maxBlocks block = .ok (region, offset) ∧ ctx = uf2RegionCtx cfg region ∧
      cfg.eraseSize ∣ off ∧ off < eraseEnd cfg region (u32 (offset + block.payloadSize)) := by
  have start : (s.fresh.expect block.numBlocks).state.Aligned cfg := aligned
  cases outcome with
  | ignored => exact ⟨aligned, by simp⟩
  | duplicate => exact ⟨start, by simp [Session.expect]⟩
  | eraseFailed admitted erased =>
    obtain ⟨aligned, below⟩ := eraseUpTo_below start rfl erased
    exact ⟨aligned, fun ctx off len rc mem => ⟨_, _, admitted.check, below ctx off len rc mem⟩⟩
  | writeFailed admitted erased wrote | received admitted _ erased wrote =>
    obtain ⟨aligned, below⟩ := eraseUpTo_below start rfl erased
    obtain ⟨-, rfl⟩ := Prod.mk.inj wrote
    exact ⟨aligned, fun ctx off len rc mem => ⟨_, _, admitted.check, below ctx off len rc (by simpa using mem)⟩⟩

theorem Covered.step {run : List Entry × Session δ} {block : Block} (inside : cfg.EndsInside maxBlocks block)
    (covered : Covered cfg run) : Covered cfg (uf2Step cfg cb maxBlocks run block) := by
  refine uf2Step_rule (P := Covered cfg) fun rc s' outcome => ?_
  obtain ⟨aligned, below⟩ := outcome.aligned covered.1
  refine ⟨aligned, fun e mem ok ctx off len rc called => ?_⟩
  rcases List.mem_append.mp mem with old | last
  · exact covered.2 e old ok ctx off len rc called
  obtain rfl := List.mem_singleton.mp last
  obtain ⟨region, offset, check, rfl, dvd, lt⟩ := below ctx off len rc called
  cases outcome with
  | ignored | duplicate => simp [Session.expect] at called
  | eraseFailed _ _ fails | writeFailed _ _ _ fails => exact absurd ok fails
  | received admitted _ _ wrote =>
    cases check.symm.trans admitted.check
    obtain ⟨done, rfl⟩ := Prod.mk.inj wrote
    refine ⟨offset, block.data, block.payloadSize, List.mem_append_right _ (by rw [done]; simp), ?_⟩
    exact Nat.lt_of_lt_of_le (lt_of_lt_eraseEnd dvd lt (inside region offset check)) (Nat.mod_le _ _)

end Tight

/-! ### Pages -/

/-- The block goes to no other region. -/
def Cfg.LeadsTo (cfg : Cfg) (maxBlocks region : Nat) (block : Block) : Prop :=
  ∀ r offset, uf2CheckBlock cfg maxBlocks block = .ok (r, offset) → r = region

/-- Every erase is of whole pages. -/
def Entry.WholePages (page : Nat) (e : Entry) : Prop :=
  ∀ ctx off len rc, Call.erase ctx off len rc ∈ e.calls → page ∣ off ∧ page ∣ len

/-- The steps in which a region is erased are pages, or there is only one step. -/
def Cfg.Pages (cfg : Cfg) (region page : Nat) : Prop :=
  page ∣ cfg.eraseSize ∨ uf2RegionSize cfg region ≤ cfg.eraseSize

section Pages

variable {cfg : Cfg} {cb : Callbacks δ} {region maxBlocks page : Nat} (whole : page ∣ uf2RegionSize cfg region)
  (pages : cfg.Pages region page)
include whole pages

theorem eraseLen_whole {off : Nat} (dvd : cfg.eraseSize ∣ off) (below : off < uf2RegionSize cfg region) :
    page ∣ off ∧ page ∣ eraseLen cfg region off := by
  unfold eraseLen
  rcases pages with step | one
  · have off_dvd := Nat.dvd_trans step dvd
    refine ⟨off_dvd, ?_⟩
    split
    · exact Nat.dvd_sub whole off_dvd
    · exact step
  · obtain rfl := Nat.eq_zero_of_dvd_of_lt dvd (below.trans_le one)
    refine ⟨Nat.dvd_zero _, ?_⟩
    split
    · exact whole
    next fits =>
      obtain ⟨k, lt, size⟩ := cfg.eraseSize_pow
      rw [Nat.zero_add, u32_of_lt (size ▸ Nat.pow_lt_pow_right (by decide) lt)] at fits
      rwa [Nat.le_antisymm (not_lt.mp fits) one]

theorem uf2Run_wholePages {blocks : List Block} (leads : ∀ block ∈ blocks, cfg.LeadsTo maxBlocks region block)
    (memory : State) (dev : δ) :
    ∀ e ∈ (uf2Run cfg cb maxBlocks blocks ⟨uf2Init memory maxBlocks, dev⟩).1, e.WholePages page := by
  refine (List.foldlRecOn (motive := fun run : List Entry × Session δ =>
    run.2.state.Aligned cfg ∧ ∀ e ∈ run.1, e.WholePages page) blocks _ ⟨fun _ => .inl (Nat.dvd_zero _), by simp⟩
    fun run inv block sent => ?_).2
  refine uf2Step_rule (P := fun run : List Entry × Session δ =>
    run.2.state.Aligned cfg ∧ ∀ e ∈ run.1, e.WholePages page) fun rc s' outcome => ?_
  obtain ⟨aligned, below⟩ := outcome.aligned inv.1
  refine ⟨aligned, fun e mem ctx off len rc called => ?_⟩
  rcases List.mem_append.mp mem with old | last
  · exact inv.2 e old ctx off len rc called
  obtain rfl := List.mem_singleton.mp last
  obtain ⟨r, offset, check, rfl, dvd, lt⟩ := below ctx off len rc called
  obtain rfl := leads block sent r offset check
  rcases outcome.serves with ⟨none, -⟩ | ⟨r', offset', admitted, -, -, served⟩
  · simp [none] at called
  cases check.symm.trans admitted.check
  rcases served _ called with ⟨off', rc', -, same⟩ | -
  cases same
  exact eraseLen_whole whole pages dvd (lt.trans_le eraseEnd_le_size)

end Pages

/-- A stream of accepted blocks that end inside erase blocks erases nothing behind what it has written. -/
theorem erase_stays_tight (cfg : Cfg) (cb : Callbacks δ) (maxBlocks : Nat) (memory : State) (dev : δ)
    (blocks : List Block) (inside : ∀ block ∈ blocks, cfg.EndsInside maxBlocks block) :
    let run := uf2Run cfg cb maxBlocks blocks ⟨uf2Init memory maxBlocks, dev⟩
    (∀ e ∈ run.1, e.rc = 0) → Tight run.1 := by
  intro run accepted before e after parts ctx off len rc mem
  have covered : Covered cfg run := List.foldlRecOn (motive := Covered cfg) blocks _
    ⟨fun _ => .inl (Nat.dvd_zero _), by simp⟩ fun run inv block mem => inv.step (inside block mem)
  have here : e ∈ run.1 := parts ▸ List.mem_append_right _ List.mem_cons_self
  exact ⟨e, by simp, covered.2 e here (accepted e here) ctx off len rc mem⟩

theorem erase_stays_tight_demo :
    let run := uf2Run demoCfg okCallbacks 16 demoBlocks ⟨uf2Init staleMemory 16, ()⟩
    (accesses run.1).length = 4 ∧ Tight run.1 := by
  refine ⟨by decide +kernel, erase_stays_tight demoCfg okCallbacks 16 staleMemory () demoBlocks ?_ ?_⟩
  · intro block mem region offset check
    have inside : ∀ block ∈ demoBlocks, (uf2CheckBlock demoCfg 16 block).toOption.all fun place =>
        ¬4096 ∣ u32 (place.2 + block.payloadSize) := by decide +kernel
    have ends := inside block mem
    rw [check] at ends
    exact .inl (of_decide_eq_true ends)
  · have ok : ((uf2Run demoCfg okCallbacks 16 demoBlocks ⟨uf2Init staleMemory 16, ()⟩).1.all
        fun e => e.rc = 0) = true := by decide +kernel
    exact fun e mem => of_decide_eq_true (List.all_eq_true.mp ok e mem)

/-- A block that ends with the first erase block of its region has the second one erased as well. -/
theorem next_sector_erased :
    let block : Block := .pack ⟨0, 4096 + 3840, 256, 0, 1, 0⟩ (List.replicate 476 0) List.length_replicate
    let run := uf2Run demoCfg okCallbacks 16 [block] ⟨uf2Init staleMemory 16, ()⟩
    run.1.map Entry.rc = [0] ∧ ¬Tight run.1 := by
  intro block run
  refine ⟨by decide +kernel, fun tight => ?_⟩
  obtain ⟨e, one⟩ : ∃ e, run.1 = [e] := ⟨_, rfl⟩
  have calls : run.1.flatMap Entry.calls =
      [.erase 0 0 4096 0, .erase 0 4096 4096 0, .write 0 3840 block.data 256 0] := by decide +kernel
  simp only [one, List.flatMap_singleton] at calls
  obtain ⟨e', mem, off, data, len, wrote, lt⟩ := tight [] e [] one 0 4096 4096 0 (by simp [calls])
  obtain rfl := List.mem_singleton.mp mem
  obtain ⟨-, rfl, -, rfl, -⟩ : 0 = 0 ∧ off = 3840 ∧ data = block.data ∧ len = 256 ∧ 0 = 0 := by
    simpa [calls] using wrote
  omega

end Adaboot.Uf2
