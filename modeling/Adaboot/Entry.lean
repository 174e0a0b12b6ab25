import Mathlib.Algebra.Ring.Int.Defs
import Mathlib.Order.Basic

/-!
# Entering update mode

`boot_wait_for_update` and the part of `main` behind it: how a boot ends, over the inputs that it polls and the boot
mode flag that is retained across resets.
-/

namespace Adaboot.Entry

/-! ### The configuration -/

/-- The options that decide how update mode is entered. Delays are in milliseconds. -/
structure Config where
  uf2DoubleTap : Option Int
  serialDoubleTap : Option Int
  /-- `CONFIG_BOOT_SERIAL_WAIT_FOR_DFU` with its timeout. -/
  waitForDfu : Option Int
  /-- `MCUBOOT_SERIAL_INACTIVITY_TIMEOUT`, which is defined if it is positive. -/
  inactivity : Option Int
  uf2BootMode : Bool
  serialBootMode : Bool
  uf2Gpio : Bool
  serialGpio : Bool
  serialPinReset : Bool
  /-- `MCUBOOT_UPDATE_MODE_COMBINED`. -/
  combined : Bool
  /-- One of the options that enter update mode without an application. -/
  noApplication : Bool
  inactivity_pos : ∀ ms ∈ inactivity, 0 < ms

namespace Config

variable (cfg : Config)

def doubleTap : Bool := cfg.uf2DoubleTap.isSome || cfg.serialDoubleTap.isSome

def bootMode : Bool := cfg.uf2BootMode || cfg.serialBootMode

def doubleTapDelayMs : Option Int := cfg.uf2DoubleTap.or cfg.serialDoubleTap

/-- The length of the wait. Without `MCUBOOT_UPDATE_WAIT_WINDOW` it is 0. -/
def windowMs : Int := max (max 0 (cfg.doubleTapDelayMs.getD 0)) (cfg.waitForDfu.getD 0)

end Config

/-! ### Waiting on the console -/

/-- What one read of the console brings: no full packet, a command, or the command to reset. -/
inductive Input where
  | none
  | command
  | reset
deriving DecidableEq, Repr

/-- One turn of the loop of `boot_serial_read_console`. -/
structure Poll where
  elapsed : Nat
  input : Input
deriving DecidableEq, Repr

/-- How the loop ends. It still runs if it needs more turns than are given. -/
inductive Wait where
  /-- The time is over; `bs_rearm_seen`. -/
  | expired (seen : Bool)
  | reboot
  | running
deriving DecidableEq, Repr

/-- `boot_serial_read_console`. With a rearm time each command restarts the countdown, otherwise the first one ends it.
-/
def readConsole (rearmMs : Option Int) (timeout : Int) (entry seen : Bool) : List Poll → Wait
  | [] => if timeout > 0 ∨ entry then .running else .expired seen
  | poll :: polls =>
    if timeout > 0 ∨ entry then
      match poll.input, rearmMs with
      | .reset, _ => .reboot
      | .command, some ms => readConsole rearmMs ms entry true polls
      | .command, none => readConsole rearmMs (timeout - poll.elapsed) true seen polls
      | .none, _ => readConsole rearmMs (timeout - poll.elapsed) entry seen polls
    else .expired seen

/-! ### One boot -/

/-- A turn of the wait without an inactivity timeout: the button, then 10 ms of the console. -/
structure Slice where
  button : Bool
  polls : List Poll
  elapsed : Nat

/-- What a boot meets. -/
structure Inputs where
  /-- `io_detect_pin`. -/
  pin : Bool
  /-- `io_boot_skip_serial_recovery`. -/
  skipSerialRecovery : Bool
  /-- `io_detect_pin_reset`. -/
  pinReset : Bool
  /-- The console during the wait, with an inactivity timeout and without. -/
  polls : List Poll
  slices : List Slice
  /-- The drive, USB and the console of update mode can be started. -/
  starts : Bool
  /-- The console in update mode. -/
  session : List Poll
  /-- `boot_go` finds an image. -/
  bootable : Bool

/-- How a boot ends. -/
inductive Outcome where
  | application
  | updateMode
  /-- The wait was ended by the inactivity timeout. -/
  | windowReset
  /-- Update mode was ended by the inactivity timeout. -/
  | sessionReset
  | commandReset
  | panic
  | waiting
deriving DecidableEq, Repr

structure Stage where
  flag : Bool
  ended : Option Outcome

section Boot

variable (cfg : Config) (inp : Inputs)

/-- What the console brings. It is initialized only with `CONFIG_BOOT_SERIAL_WAIT_FOR_DFU`. -/
def Config.console (polls : List Poll) : List Poll :=
  if cfg.waitForDfu.isSome then polls else polls.map fun poll => { poll with input := .none }

/-- `boot_uf2_enter`. It returns if it cannot start; with both transports that is a panic. -/
def bootUf2Enter : Option Outcome :=
  if inp.starts then some .updateMode
  else if cfg.combined then some .panic
  else none

/-- `boot_serial_enter`, with an inactivity timeout or 0. -/
def bootSerialEnter (inactivity : Option Int) : Outcome :=
  if ¬ inp.starts then .panic
  else match cfg.combined, inactivity with
    | false, some ms =>
      match readConsole (some ms) ms false false inp.session with
      | .expired _ => .sessionReset
      | .reboot => .commandReset
      | .running => .updateMode
    | _, _ => .updateMode

def Stage.andThen (stage : Stage) (next : Bool → Stage) : Stage :=
  match stage.ended with
  | some _ => stage
  | none => next stage.flag

def heldEntrances (flag : Bool) : Stage :=
  let held := inp.pin ∧ ¬ inp.skipSerialRecovery
  (Stage.mk flag (if cfg.uf2Gpio ∧ held then bootUf2Enter cfg inp else none)).andThen fun flag =>
  ⟨flag, if cfg.serialGpio ∧ held ∨ cfg.serialPinReset ∧ inp.pinReset then some (bootSerialEnter cfg inp none)
    else none⟩

/-- The flag of an earlier boot. `io_detect_boot_mode` clears it. -/
def flagEntrance (flag : Bool) : Stage :=
  if cfg.bootMode ∧ flag then
    ⟨false, if cfg.uf2BootMode then bootUf2Enter cfg inp else some (bootSerialEnter cfg inp none)⟩
  else ⟨flag, none⟩

def slicedWait (elapsed : Int) : List Slice → Option Outcome
  | [] => if elapsed < cfg.windowMs then some .waiting else none
  | slice :: slices =>
    let pressed := if slice.button then
      if cfg.uf2Gpio then bootUf2Enter cfg inp
      else if cfg.serialGpio then some (bootSerialEnter cfg inp none)
      else none
    else none
    if elapsed < cfg.windowMs then
      if pressed.isSome then pressed
      else if cfg.waitForDfu.isSome then
        match readConsole none (min 10 (cfg.windowMs - elapsed)) false false slice.polls with
        | .expired _ => slicedWait (elapsed + slice.elapsed) slices
        | .reboot => some .commandReset
        | .running => some .updateMode
      else slicedWait (elapsed + slice.elapsed) slices
    else none

def windowWait : Option Outcome :=
  match cfg.inactivity with
  | some ms =>
    -- The whole wait is one call, the button is not polled.
    match readConsole (some ms) cfg.windowMs false false (cfg.console inp.polls) with
    | .expired true => some .windowReset
    | .expired false => none
    | .reboot => some .commandReset
    | .running => some .waiting
  | none => slicedWait cfg inp 0 inp.slices

/-- The wait with the flag set, which is cleared behind it. A reset in between leaves it. -/
def flaggedWait (flag : Bool) : Stage :=
  let flag := flag || cfg.doubleTap
  match windowWait cfg inp with
  | some outcome => ⟨flag, some outcome⟩
  | none => ⟨flag && !cfg.doubleTap, none⟩

def bootWaitForUpdate (flag : Bool) : Stage :=
  if cfg.windowMs ≤ 0 then ⟨flag, none⟩
  else ((heldEntrances cfg inp flag).andThen (flagEntrance cfg inp)).andThen (flaggedWait cfg inp)

/-- The flag behind `boot_go`, for serial recovery and for UF2. -/
def serialRequest (flag : Bool) : Stage :=
  if cfg.serialBootMode ∧ flag then ⟨false, some (bootSerialEnter cfg inp cfg.inactivity)⟩ else ⟨flag, none⟩

def uf2Request (flag : Bool) : Stage :=
  if cfg.uf2BootMode ∧ flag then ⟨false, bootUf2Enter cfg inp⟩ else ⟨flag, none⟩

/-- `main` behind the wait: the request of an application, and the image. -/
def bootImage (flag : Bool) : Stage :=
  ((serialRequest cfg inp flag).andThen (uf2Request cfg inp)).andThen fun flag =>
    ⟨flag, some (if inp.bootable then .application else if cfg.noApplication then .updateMode else .panic)⟩

/-- `main`. -/
def boot (flag : Bool) : Stage := (bootWaitForUpdate cfg inp flag).andThen (bootImage cfg inp)

end Boot

/-! ### A quiet boot -/

def QuietPolls (polls : List Poll) : Prop := ∀ poll ∈ polls, poll.input = .none

def totalElapsed (polls : List Poll) : Int := (polls.map fun poll => (poll.elapsed : Int)).sum

theorem readConsole_quiet {rearmMs : Option Int} {seen : Bool} {polls : List Poll} (quiet : QuietPolls polls)
    {timeout : Int} (enough : timeout ≤ totalElapsed polls) :
    readConsole rearmMs timeout false seen polls = .expired seen := by
  induction polls generalizing timeout with
  | nil =>
    have expired : ¬ (timeout > 0 ∨ false = true) := by simpa [totalElapsed] using enough
    rw [readConsole, if_neg expired]
  | cons poll polls ih =>
    have silent := quiet poll List.mem_cons_self
    have rest : readConsole rearmMs (timeout - poll.elapsed) false seen polls = .expired seen := by
      refine ih (fun p mem => quiet p (List.mem_cons_of_mem _ mem)) ?_
      simp only [totalElapsed, List.map_cons, List.sum_cons] at enough ⊢
      omega
    simp only [readConsole, silent]
    split
    · exact rest
    · rfl

/-- A boot without a button press, a reset or a command, that waits long enough, with an image. -/
structure Quiet (cfg : Config) (inp : Inputs) : Prop where
  pin : inp.pin = false
  pinReset : inp.pinReset = false
  polls : QuietPolls inp.polls
  enough : cfg.windowMs ≤ totalElapsed inp.polls
  bootable : inp.bootable = true

section Boots

variable {cfg : Config} {inp : Inputs} {flag : Bool}

theorem console_quiet {polls : List Poll} (quiet : QuietPolls polls) : cfg.console polls = polls := by
  unfold Config.console
  split
  · rfl
  · refine (List.map_congr_left fun poll mem => ?_).trans (List.map_id polls)
    cases poll
    cases quiet _ mem
    rfl

theorem windowWait_quiet (inactivity : cfg.inactivity.isSome) (quiet : Quiet cfg inp) : windowWait cfg inp = none := by
  obtain ⟨ms, inactivity⟩ := Option.isSome_iff_exists.mp inactivity
  simp only [windowWait, inactivity, console_quiet quiet.polls, readConsole_quiet quiet.polls quiet.enough]

theorem heldEntrances_quiet (quiet : Quiet cfg inp) : heldEntrances cfg inp flag = ⟨flag, none⟩ := by
  simp [heldEntrances, quiet.pin, quiet.pinReset, Stage.andThen]

/-- The flag is not one that the boot enters update mode for. -/
def Unheeded (cfg : Config) (flag : Bool) : Prop := ¬ (cfg.bootMode = true ∧ flag = true)

theorem bootImage_unheeded (unheeded : Unheeded cfg flag) (bootable : inp.bootable = true) :
    (bootImage cfg inp flag).ended = some .application := by
  have serial : ¬ (cfg.serialBootMode = true ∧ flag = true) := fun h => unheeded ⟨by simp [Config.bootMode, h.1], h.2⟩
  have uf2 : ¬ (cfg.uf2BootMode = true ∧ flag = true) := fun h => unheeded ⟨by simp [Config.bootMode, h.1], h.2⟩
  simp only [bootImage, serialRequest, if_neg serial, Stage.andThen, uf2Request, if_neg uf2, if_pos bootable]

theorem flaggedWait_quiet (inactivity : cfg.inactivity.isSome) (quiet : Quiet cfg inp) (unheeded : Unheeded cfg flag) :
    ((flaggedWait cfg inp flag).andThen (bootImage cfg inp)).ended = some .application := by
  simp only [flaggedWait, windowWait_quiet inactivity quiet, Stage.andThen]
  refine bootImage_unheeded (fun heeded => unheeded ⟨heeded.1, ?_⟩) quiet.bootable
  have set := heeded.2
  revert set
  cases flag <;> cases cfg.doubleTap <;> simp

theorem bootSerialEnter_ne (inactivity : Option Int) :
    bootSerialEnter cfg inp inactivity ≠ .application ∧ bootSerialEnter cfg inp inactivity ≠ .windowReset := by
  unfold bootSerialEnter
  split
  · simp
  · split
    · split <;> simp
    · simp

theorem flagEntrance_heeded (inp : Inputs) (heeded : cfg.bootMode = true ∧ flag = true) :
    (flagEntrance cfg inp flag).flag = false ∧ (flagEntrance cfg inp flag).ended ≠ some .application ∧
      ((flagEntrance cfg inp flag).ended = none ↔
        cfg.uf2BootMode = true ∧ cfg.combined = false ∧ inp.starts = false) := by
  rw [flagEntrance, if_pos heeded]
  refine ⟨rfl, ?_⟩
  by_cases uf2 : cfg.uf2BootMode = true
  · simp only [if_pos uf2, bootUf2Enter]
    cases inp.starts <;> cases cfg.combined <;> simp [uf2]
  · simp only [if_neg uf2]
    exact ⟨fun h => (bootSerialEnter_ne none).1 (Option.some.inj h), by simp [uf2]⟩

theorem boot_quiet (inactivity : cfg.inactivity.isSome) (window : 0 < cfg.windowMs) (quiet : Quiet cfg inp) :
    (boot cfg inp flag).ended = some .application ↔
      Unheeded cfg flag ∨ cfg.uf2BootMode = true ∧ cfg.combined = false ∧ inp.starts = false := by
  have open' : ¬ cfg.windowMs ≤ 0 := by omega
  rw [boot, bootWaitForUpdate, if_neg open', heldEntrances_quiet quiet]
  change (Stage.andThen (Stage.andThen (flagEntrance cfg inp flag) _) _).ended = _ ↔ _
  by_cases heeded : cfg.bootMode = true ∧ flag = true
  · obtain ⟨cleared, entered, returns⟩ := flagEntrance_heeded inp heeded
    have unheeded : ¬ Unheeded cfg flag := fun unheeded => unheeded heeded
    cases ended : (flagEntrance cfg inp flag).ended with
    | none =>
      have started : ((flaggedWait cfg inp false).andThen (bootImage cfg inp)).ended = some .application :=
        flaggedWait_quiet inactivity quiet (by simp [Unheeded])
      simp only [Stage.andThen, ended, cleared] at started ⊢
      exact iff_of_true started (.inr (returns.mp ended))
    | some outcome =>
      simp only [Stage.andThen, ended]
      refine iff_of_false (fun h => entered (ended.symm ▸ h)) ?_
      rintro (h | h)
      · exact unheeded h
      · simp [returns.mpr h] at ended
  · rw [flagEntrance, if_neg heeded]
    exact iff_of_true (flaggedWait_quiet inactivity quiet heeded) (.inl heeded)

/-! ### Behind an inactivity reset -/

variable {stage : Stage} {next : Bool → Stage}

theorem Stage.andThen_ended {outcome : Outcome}
    (ended : (stage.andThen next).ended = some outcome) : stage.ended = some outcome ∨
      stage.ended = none ∧ (next stage.flag).ended = some outcome ∧ stage.andThen next = next stage.flag := by
  unfold Stage.andThen at ended ⊢
  cases first : stage.ended with
  | none =>
    simp only [first] at ended
    exact .inr ⟨rfl, ended, rfl⟩
  | some other =>
    simp only [first] at ended
    exact .inl ended

theorem Stage.andThen_passed (passed : (stage.andThen next).ended = none) :
    stage.andThen next = next stage.flag := by
  unfold Stage.andThen at passed ⊢
  cases first : stage.ended with
  | none => rfl
  | some outcome => simp [first] at passed

theorem bootUf2Enter_ne : bootUf2Enter cfg inp ≠ some .windowReset := by
  unfold bootUf2Enter
  split
  · simp
  · split <;> simp

theorem heldEntrances_ne : (heldEntrances cfg inp flag).ended ≠ some .windowReset := by
  intro reset
  rcases Stage.andThen_ended reset with first | ⟨_, second, _⟩
  · split at first
    · exact bootUf2Enter_ne first
    · cases first
  · simp only at second
    split at second
    · exact (bootSerialEnter_ne none).2 (Option.some.inj second)
    · cases second

theorem flagEntrance_ne : (flagEntrance cfg inp flag).ended ≠ some .windowReset := by
  unfold flagEntrance
  split
  · split
    · exact bootUf2Enter_ne
    · exact fun reset => (bootSerialEnter_ne none).2 (Option.some.inj reset)
  · simp

theorem flagEntrance_unheeded : Unheeded cfg (flagEntrance cfg inp flag).flag := by
  unfold flagEntrance
  split
  · simp [Unheeded]
  next unheeded => exact unheeded

theorem serialRequest_ne : (serialRequest cfg inp flag).ended ≠ some .windowReset := by
  unfold serialRequest
  split
  · exact fun reset => (bootSerialEnter_ne _).2 (Option.some.inj reset)
  · simp

theorem uf2Request_ne : (uf2Request cfg inp flag).ended ≠ some .windowReset := by
  unfold uf2Request
  split
  · exact bootUf2Enter_ne
  · simp

theorem bootImage_ne : (bootImage cfg inp flag).ended ≠ some .windowReset := by
  intro reset
  rcases Stage.andThen_ended reset with requested | ⟨_, started, _⟩
  · rcases Stage.andThen_ended requested with serial | ⟨_, uf2, _⟩
    · exact serialRequest_ne serial
    · exact uf2Request_ne uf2
  · split at started
    · cases started
    · split at started <;> cases started

theorem flaggedWait_flag (ended : (flaggedWait cfg inp flag).ended.isSome) :
    (flaggedWait cfg inp flag).flag = (flag || cfg.doubleTap) := by
  unfold flaggedWait at ended ⊢
  split
  · rfl
  next none => simp [none] at ended

theorem boot_windowReset (reset : (boot cfg inp flag).ended = some .windowReset) :
    0 < cfg.windowMs ∧ ∃ met, Unheeded cfg met ∧ (boot cfg inp flag).flag = (met || cfg.doubleTap) := by
  rcases Stage.andThen_ended reset with waited | ⟨_, started, _⟩
  · have same : boot cfg inp flag = bootWaitForUpdate cfg inp flag := by simp only [boot, Stage.andThen, waited]
    rw [same]
    unfold bootWaitForUpdate at waited ⊢
    split at waited
    · cases waited
    next window =>
      -- The held entrances and the flag end a boot in other ways.
      rcases Stage.andThen_ended waited with entered | ⟨passed, ended, is⟩
      · rcases Stage.andThen_ended entered with held | ⟨_, met, _⟩
        · exact absurd held heldEntrances_ne
        · exact absurd met flagEntrance_ne
      · rw [if_neg window, is, flaggedWait_flag (by simp [ended])]
        refine ⟨by omega, _, ?_, rfl⟩
        rw [Stage.andThen_passed passed]
        exact flagEntrance_unheeded
  · exact absurd started bootImage_ne

end Boots

/-- After an inactivity reset the next quiet boot starts the application exactly if the flag is not both set and
heeded, or update mode cannot be entered. -/
theorem window_reset_next_boot_iff (cfg : Config) (flag : Bool) (first next : Inputs)
    (inactivity : cfg.inactivity.isSome) (reset : (boot cfg first flag).ended = some .windowReset)
    (quiet : Quiet cfg next) : (boot cfg next (boot cfg first flag).flag).ended = some .application ↔
      ¬ (cfg.doubleTap = true ∧ cfg.bootMode = true) ∨
        cfg.uf2BootMode = true ∧ cfg.combined = false ∧ next.starts = false := by
  obtain ⟨window, met, unheeded, flagged⟩ := boot_windowReset reset
  rw [boot_quiet inactivity window quiet, flagged]
  unfold Unheeded at unheeded ⊢
  cases met <;> cases cfg.doubleTap <;> simp_all

/-- Serial recovery with a double reset, a request by the application and an inactivity timeout. -/
def serialConfig (doubleTap : Option Int) : Config where
  uf2DoubleTap := none
  serialDoubleTap := doubleTap
  waitForDfu := some 500
  inactivity := some 5000
  uf2BootMode := false
  serialBootMode := true
  uf2Gpio := false
  serialGpio := false
  serialPinReset := false
  combined := false
  noApplication := true
  inactivity_pos := by simp

def consoleInputs (polls : List Poll) : Inputs := ⟨false, false, false, polls, [], true, [], true⟩

theorem serialConfig_quiet (doubleTap : Option Int) (short : doubleTap = none ∨ doubleTap = some 500) :
    Quiet (serialConfig doubleTap) (consoleInputs [⟨500, .none⟩]) :=
  ⟨rfl, rfl, by simp [QuietPolls, consoleInputs], by rcases short with rfl | rfl <;> decide, rfl⟩

/-- Without a double reset the application is started. -/
theorem window_reset_next_boot_single :
    (boot (serialConfig none) (consoleInputs [⟨100, .command⟩, ⟨5000, .none⟩]) false).ended = some .windowReset ∧
      (boot (serialConfig none) (consoleInputs [⟨500, .none⟩])
        (boot (serialConfig none) (consoleInputs [⟨100, .command⟩, ⟨5000, .none⟩]) false).flag).ended =
        some .application :=
  ⟨by decide, (window_reset_next_boot_iff (serialConfig none) false _ _ rfl (by decide)
    (serialConfig_quiet none (.inl rfl))).mpr (by decide)⟩

/-- With it a single command during the wait is enough to find the device in update mode afterwards. -/
theorem window_reset_enters_update_mode :
    (boot (serialConfig (some 500)) (consoleInputs [⟨100, .command⟩, ⟨5000, .none⟩]) false).ended = some .windowReset ∧
      Quiet (serialConfig (some 500)) (consoleInputs [⟨500, .none⟩]) ∧
      (boot (serialConfig (some 500)) (consoleInputs [⟨500, .none⟩])
        (boot (serialConfig (some 500)) (consoleInputs [⟨100, .command⟩, ⟨5000, .none⟩]) false).flag).ended =
        some .updateMode :=
  ⟨by decide, serialConfig_quiet _ (.inr rfl), by decide⟩

/-! ### The inactivity timeout of a session -/

/-- Whatever came before, the last polls bring no command for `ms`. -/
def FallsSilent (ms : Int) (polls : List Poll) : Prop :=
  ∃ before quiet, polls = before ++ quiet ∧ QuietPolls quiet ∧ ms ≤ totalElapsed quiet

inductive Via where
  | flag
  | command
deriving DecidableEq, Repr

/-- A boot that enters serial recovery through the boot mode flag or through the first command of the wait, in a session
that falls silent. -/
inductive Session (cfg : Config) (ms : Int) (inp : Inputs) : Bool → Via → Prop where
  | flag : (heldEntrances cfg inp true).ended = none → cfg.serialBootMode = true → inp.starts = true →
      FallsSilent ms inp.session → Session cfg ms inp true .flag
  | command {flag : Bool} {first later : List Poll} {poll : Poll} :
      ((heldEntrances cfg inp flag).andThen (flagEntrance cfg inp)).ended = none → cfg.waitForDfu.isSome →
      inp.polls = first ++ poll :: later → QuietPolls first → totalElapsed first < cfg.windowMs →
      poll.input ≠ .none → FallsSilent ms later → Session cfg ms inp flag .command

def Outcome.isReset : Outcome → Bool
  | .windowReset | .sessionReset | .commandReset => true
  | _ => false

section Sessions

variable {cfg : Config} {inp : Inputs} {flag : Bool} {ms timeout : Int} {polls : List Poll}

/-- A command restarts the countdown, so it never starts above `ms`. -/
theorem FallsSilent.ends (silent : FallsSilent ms polls) (seen : Bool) (le : timeout ≤ ms) :
    (∃ seen', readConsole (some ms) timeout false seen polls = .expired seen' ∧ (seen = true → seen' = true)) ∨
      readConsole (some ms) timeout false seen polls = .reboot := by
  obtain ⟨before, quiet, rfl, silence, enough⟩ := silent
  induction before generalizing timeout seen with
  | nil => exact .inl ⟨seen, readConsole_quiet silence (Int.le_trans le enough), id⟩
  | cons poll before ih =>
    by_cases runs : timeout > 0 ∨ false = true
    · cases input : poll.input with
      | reset => simp only [List.cons_append, readConsole, if_pos runs, input, or_true]
      | none =>
        simp only [List.cons_append, readConsole, if_pos runs, input]
        exact ih seen (by omega)
      | command =>
        simp only [List.cons_append, readConsole, if_pos runs, input]
        exact (ih true (Int.le_refl ms)).imp_left fun ⟨seen', ends, kept⟩ => ⟨seen', ends, fun _ => kept rfl⟩
    · exact .inl ⟨seen, by simp only [List.cons_append, readConsole, if_neg runs], id⟩

theorem totalElapsed_nonneg (polls : List Poll) : 0 ≤ totalElapsed polls := by
  induction polls with
  | nil => exact Int.le_refl 0
  | cons poll polls ih => exact Int.add_nonneg (Int.natCast_nonneg _) ih

theorem readConsole_first {first later : List Poll} (quiet : QuietPolls first) (within : totalElapsed first < timeout) :
    readConsole (some ms) timeout false false (first ++ later) =
      readConsole (some ms) (timeout - totalElapsed first) false false later := by
  induction first generalizing timeout with
  | nil => simp [totalElapsed]
  | cons poll first ih =>
    have silent := quiet poll List.mem_cons_self
    have split : totalElapsed (poll :: first) = poll.elapsed + totalElapsed first := by simp [totalElapsed]
    have nonneg := totalElapsed_nonneg first
    have open' : timeout > 0 ∨ false = true := .inl (by omega)
    simp only [List.cons_append, readConsole, if_pos open', silent]
    rw [ih (fun p mem => quiet p (List.mem_cons_of_mem _ mem)) (by omega), split, Int.sub_sub]

theorem bootSerialEnter_resets (starts : inp.starts = true) (silent : FallsSilent ms inp.session) :
    (bootSerialEnter cfg inp (some ms)).isReset = true ↔ cfg.combined = false := by
  unfold bootSerialEnter
  rw [if_neg (by simp [starts])]
  cases cfg.combined with
  | true => simp [Outcome.isReset]
  | false =>
    rcases silent.ends false (Int.le_refl ms) with ⟨seen', ends, _⟩ | reboot
    · simp [ends, Outcome.isReset]
    · simp [reboot, Outcome.isReset]

theorem heldEntrances_flag : (heldEntrances cfg inp flag).flag = flag := by
  simp only [heldEntrances, Stage.andThen]
  split <;> rfl

theorem windowWait_silent {first later : List Poll} {poll : Poll} (inactivity : cfg.inactivity = some ms)
    (dfu : cfg.waitForDfu.isSome) (polls : inp.polls = first ++ poll :: later) (quiet : QuietPolls first)
    (within : totalElapsed first < cfg.windowMs) (command : poll.input ≠ .none) (silent : FallsSilent ms later) :
    ∃ outcome, windowWait cfg inp = some outcome ∧ outcome.isReset := by
  have open' : cfg.windowMs - totalElapsed first > 0 ∨ false = true := .inl (by omega)
  simp only [windowWait, inactivity, Config.console, if_pos dfu, polls, readConsole_first quiet within, readConsole,
    if_pos open']
  cases input : poll.input with
  | none => exact absurd input command
  | reset => exact ⟨_, rfl, rfl⟩
  | command =>
    rcases silent.ends true (Int.le_refl ms) with ⟨seen', ends, kept⟩ | reboot
    · exact ⟨.windowReset, by simp only [ends, kept rfl], rfl⟩
    · exact ⟨.commandReset, by simp only [reboot], rfl⟩

end Sessions

/-- A session that falls silent is ended by a reset if the first command entered it. One that the flag entered is ended
only without a wait, where the flag is left to `main`, and only with serial recovery alone. -/
theorem silent_session_resets_iff (cfg : Config) (ms : Int) (inactivity : cfg.inactivity = some ms) (inp : Inputs)
    (flag : Bool) (via : Via) (session : Session cfg ms inp flag via) :
    (∃ outcome, (boot cfg inp flag).ended = some outcome ∧ outcome.isReset) ↔
      via = .command ∨ cfg.windowMs ≤ 0 ∧ cfg.combined = false := by
  cases session with
  | flag held serial starts silent =>
    by_cases window : cfg.windowMs ≤ 0
    · have ended : (boot cfg inp true).ended = some (bootSerialEnter cfg inp (some ms)) := by
        simp [boot, bootWaitForUpdate, window, Stage.andThen, bootImage, serialRequest, serial, inactivity]
      simp [ended, window, bootSerialEnter_resets starts silent]
    · have waiting : (boot cfg inp true).ended = some .updateMode := by
        simp [boot, bootWaitForUpdate, window, Stage.andThen, held, heldEntrances_flag, flagEntrance, Config.bootMode,
          serial, bootUf2Enter, starts, bootSerialEnter]
      simp [waiting, window, Outcome.isReset]
  | @command _ first _ _ entered dfu polls quiet within command silent =>
    obtain ⟨outcome, waits, reset⟩ := windowWait_silent inactivity dfu polls quiet within command silent
    have nonneg := totalElapsed_nonneg first
    have window : ¬ cfg.windowMs ≤ 0 := by omega
    refine iff_of_true ⟨outcome, ?_, reset⟩ (.inl rfl)
    rw [boot, bootWaitForUpdate, if_neg window]
    generalize (heldEntrances cfg inp flag).andThen (flagEntrance cfg inp) = stage at entered ⊢
    simp only [Stage.andThen, entered, flaggedWait, waits]

/-- A session that a command entered, without a double reset. -/
theorem silent_session_resets_single : ∃ outcome, (boot (serialConfig none)
    (consoleInputs [⟨100, .command⟩, ⟨5000, .none⟩]) false).ended = some outcome ∧ outcome.isReset :=
  (silent_session_resets_iff _ _ rfl _ _ .command (@Session.command _ _ _ _ [] _ _ rfl rfl rfl (by simp [QuietPolls])
    (by decide) (by decide) ⟨[], [⟨5000, .none⟩], rfl, by simp [QuietPolls], by decide⟩)).mpr (.inl rfl)

def silentInputs : Inputs := { consoleInputs [] with session := [⟨5000, .none⟩] }

/-- The flag is met in front of the wait, where the session has no timeout. -/
theorem flagged_session_stays : Session (serialConfig none) 5000 silentInputs true .flag ∧
    (boot (serialConfig none) silentInputs true).ended = some .updateMode :=
  ⟨.flag rfl rfl rfl ⟨[], _, rfl, by simp [QuietPolls], by decide⟩, by decide⟩

/-! ### Boots in a row -/

/-- The boots of a device, each with the flag that the one before it leaves. -/
def boots (cfg : Config) : Bool → List Inputs → List Stage
  | _, [] => []
  | flag, inp :: rest => boot cfg inp flag :: boots cfg (boot cfg inp flag).flag rest

/-- No button and no reset, the wait ends by itself, and there is an image. -/
structure Undisturbed (cfg : Config) (inp : Inputs) : Prop where
  pin : inp.pin = false
  pinReset : inp.pinReset = false
  passes : windowWait cfg inp = none
  bootable : inp.bootable = true

theorem bootImage_flag (cfg : Config) (inp : Inputs) (flag : Bool) : Unheeded cfg (bootImage cfg inp flag).flag := by
  cases flag <;> cases serial : cfg.serialBootMode <;> cases uf2 : cfg.uf2BootMode <;>
    cases started : bootUf2Enter cfg inp <;>
    simp [bootImage, serialRequest, uf2Request, Stage.andThen, Unheeded, Config.bootMode, serial, uf2, started]

theorem boot_undisturbed {cfg : Config} {inp : Inputs} (undisturbed : Undisturbed cfg inp) (flag : Bool) :
    Unheeded cfg (boot cfg inp flag).flag ∧
      (Unheeded cfg flag → (boot cfg inp flag).ended = some .application) := by
  have behind : ∀ met, Unheeded cfg (bootImage cfg inp met).flag ∧
      (Unheeded cfg met → (bootImage cfg inp met).ended = some .application) := fun met =>
    ⟨bootImage_flag cfg inp met, fun unheeded => bootImage_unheeded unheeded undisturbed.bootable⟩
  by_cases window : cfg.windowMs ≤ 0
  · simpa only [boot, bootWaitForUpdate, if_pos window, Stage.andThen] using behind flag
  have held : heldEntrances cfg inp flag = ⟨flag, none⟩ := by
    simp [heldEntrances, undisturbed.pin, undisturbed.pinReset, Stage.andThen]
  rw [boot, bootWaitForUpdate, if_neg window, held]
  by_cases heeded : cfg.bootMode = true ∧ flag = true
  · have cleared := (flagEntrance_heeded inp heeded).1
    refine ⟨?_, fun unheeded => absurd heeded unheeded⟩
    cases ended : (flagEntrance cfg inp flag).ended with
    | some outcome => simp [Stage.andThen, ended, cleared, Unheeded]
    | none =>
      simp only [Stage.andThen, ended, flaggedWait, undisturbed.passes]
      exact (behind _).1
  · simp only [flagEntrance, if_neg heeded, Stage.andThen, flaggedWait, undisturbed.passes]
    -- Behind the wait the flag of a double reset is cleared.
    refine (behind _).imp_right fun starts _ => starts fun left => heeded ⟨left.1, ?_⟩
    have set := left.2
    revert set
    cases flag <;> cases cfg.doubleTap <;> simp

/-- A request is honoured once: whatever flag the first boot finds, the undisturbed boots behind it all start the
application. -/
theorem requests_honoured_once (cfg : Config) (flag : Bool) (first : Inputs) (rest : List Inputs)
    (quiet : Undisturbed cfg first) (undisturbed : ∀ inp ∈ rest, Undisturbed cfg inp) :
    ∀ stage ∈ boots cfg (boot cfg first flag).flag rest, stage.ended = some .application := by
  have unheeded := (boot_undisturbed quiet flag).1
  generalize (boot cfg first flag).flag = met at unheeded
  induction rest generalizing met with
  | nil => simp [boots]
  | cons inp rest ih =>
    obtain ⟨left, starts⟩ := boot_undisturbed (undisturbed inp List.mem_cons_self) met
    refine List.forall_mem_cons.mpr ⟨starts unheeded, ih (fun later mem => ?_) _ left⟩
    exact undisturbed later (List.mem_cons_of_mem _ mem)

/-- With a double reset, behind a request that is met in front of the wait. -/
theorem requests_honoured_once_serial : (boot (serialConfig (some 500)) (consoleInputs [⟨500, .none⟩])
    (boot (serialConfig (some 500)) (consoleInputs [⟨500, .none⟩]) true).flag).ended = some .application := by
  have quiet : Undisturbed (serialConfig (some 500)) (consoleInputs [⟨500, .none⟩]) := ⟨rfl, rfl, by decide, rfl⟩
  exact requests_honoured_once _ true _ [_] quiet (by simpa using quiet) _ List.mem_cons_self

end Adaboot.Entry
