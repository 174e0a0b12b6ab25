import Adaboot.Nor.Flash
import Mathlib.Data.List.Basic

/-!
# Flash operations that can fail

The operations of a driver on any device. One that fails stays inside its range, and may have cleared some of the bits
it was to clear, so that writing the same bytes again works.
-/

namespace Nor

/-- Writing and erasing. The codes are 0 for success and negative otherwise. -/
structure Ops (δ ι : Type) where
  write : (a : ι) → (off : Nat) → (data : List UInt8) → δ → Int × δ
  erase : (a : ι) → (off len : Nat) → δ → Int × δ
  write_le : ∀ a off data dev, (write a off data dev).1 ≤ 0
  erase_le : ∀ a off len dev, (erase a off len dev).1 ≤ 0

/-- A write that reached the driver. -/
structure WriteCall (ι : Type) where
  area : ι
  off : Nat
  len : Nat
deriving DecidableEq

namespace Ops

variable {δ ι : Type} (ops : Ops δ ι)

def logged : Ops (δ × List (WriteCall ι)) ι where
  write a off data dev :=
    let ret := ops.write a off data dev.1
    (ret.1, (ret.2, dev.2 ++ [⟨a, off, data.length⟩]))
  erase a off len dev :=
    let ret := ops.erase a off len dev.1
    (ret.1, (ret.2, dev.2))
  write_le a off data dev := ops.write_le a off data dev.1
  erase_le a off len dev := ops.erase_le a off len dev.1

/-- No operation fails. -/
structure Works : Prop where
  write : ∀ a off data dev, (ops.write a off data dev).1 = 0
  erase : ∀ a off len dev, (ops.erase a off len dev).1 = 0

variable [DecidableEq ι]

/-- The operations work on NOR flash, as far as they succeed. -/
structure Sound (view : δ → Flash ι) : Prop where
  write_ok : ∀ a off data dev, (ops.write a off data dev).1 = 0 →
    view (ops.write a off data dev).2 = (view dev).program a off data
  write_failed : ∀ a off data dev, (ops.write a off data dev).1 ≠ 0 →
    Flash.EqOutside a off (off + data.length) (view dev) (view (ops.write a off data dev).2) ∧
      ∀ i, i < data.length → view (ops.write a off data dev).2 a (off + i) &&& data.getD i 0 =
        view dev a (off + i) &&& data.getD i 0
  erase_ok : ∀ a off len dev, (ops.erase a off len dev).1 = 0 →
    view (ops.erase a off len dev).2 = (view dev).erase a off len
  erase_failed : ∀ a off len dev, (ops.erase a off len dev).1 ≠ 0 →
    Flash.EqOutside a off (off + len) (view dev) (view (ops.erase a off len dev).2)

theorem Sound.erase_outside {ops : Ops δ ι} {view : δ → Flash ι} (sound : ops.Sound view) (a : ι)
    (off len : Nat) (dev : δ) : Flash.EqOutside a off (off + len) (view dev) (view (ops.erase a off len dev).2) := by
  by_cases ok : (ops.erase a off len dev).1 = 0
  · rw [sound.erase_ok a off len dev ok]
    exact fun b i out => Flash.erase_outside _ out
  · exact sound.erase_failed a off len dev ok

def flash : Ops (Flash ι) ι where
  write a off data fl := (0, fl.program a off data)
  erase a off len fl := (0, fl.erase a off len)
  write_le _ _ _ _ := Int.le_refl 0
  erase_le _ _ _ _ := Int.le_refl 0

theorem works_flash : (flash : Ops (Flash ι) ι).Works := ⟨fun _ _ _ _ => rfl, fun _ _ _ _ => rfl⟩

theorem sound_flash : (flash : Ops (Flash ι) ι).Sound id where
  write_ok _ _ _ _ _ := rfl
  write_failed _ _ _ _ failed := absurd rfl failed
  erase_ok _ _ _ _ _ := rfl
  erase_failed _ _ _ _ failed := absurd rfl failed

end Ops

/-! ### Sequential writers -/

/-- The data is a part of the image, with erased bytes behind the end of the image. -/
def Slice (image : List UInt8) (pos : Nat) (data : List UInt8) : Prop := ∀ i, i < data.length →
    data.getD i 0 = if pos + i < image.length then image.getD (pos + i) 0 else erasedVal

/-- The first `pos` bytes of the image are there from `base` on, and no bit of those below `front` has been lost. -/
structure Streams {ι : Type} (fl : Flash ι) (a : ι) (base : Nat) (image : List UInt8) (pos front : Nat) : Prop where
  inside : pos ≠ 0 → base + pos ≤ front
  pos_le : pos ≤ image.length
  written : ∀ i, i < pos → fl a (base + i) = image.getD i 0
  ready : ∀ i, i < image.length → base + i < front → fl a (base + i) &&& image.getD i 0 = image.getD i 0

namespace Streams

variable {ι δ : Type} {fl fl' : Flash ι} {a : ι} {base : Nat} {image : List UInt8} {pos front : Nat}

theorem start (fl : Flash ι) (a : ι) (base : Nat) (image : List UInt8) : Streams fl a base image 0 0 where
  inside none := absurd rfl none
  pos_le := Nat.zero_le _
  written i lt := absurd lt (Nat.not_lt_zero i)
  ready _ _ lt := absurd lt (Nat.not_lt_zero _)

variable (streams : Streams fl a base image pos front)
include streams

theorem congr (same : ∀ i, i < image.length → base + i < front → fl' a (base + i) = fl a (base + i)) :
    Streams fl' a base image pos front where
  inside := streams.inside
  pos_le := streams.pos_le
  written i lt := by
    have inside := streams.inside (by omega)
    have pos_le := streams.pos_le
    rw [same i (by omega) (by omega)]
    exact streams.written i lt
  ready i lt below := by
    rw [same i lt below]
    exact streams.ready i lt below

variable {pos' front' : Nat} {data : List UInt8}

theorem anti (le : pos' ≤ pos)
    (front_le : front' ≤ front) (inside : pos' ≠ 0 → base + pos' ≤ front') : Streams fl a base image pos' front' where
  inside := inside
  pos_le := Nat.le_trans le streams.pos_le
  written i lt := streams.written i (by omega)
  ready i lt below := streams.ready i lt (by omega)

theorem extend (le : front ≤ front')
    (same : Flash.EqOn a 0 front fl fl') (erased : Flash.Erased fl' a front front') :
    Streams fl' a base image pos front' where
  inside some := Nat.le_trans (streams.inside some) le
  pos_le := streams.pos_le
  written := (streams.congr fun _ _ below => same _ (Nat.zero_le _) below).written
  ready i lt below := by
    by_cases old : base + i < front
    · rw [same _ (Nat.zero_le _) old]
      exact streams.ready i lt old
    · rw [erased _ (by omega) below, Flash.erasedVal_and]

theorem retry (slice : Slice image pos data)
    (outside : Flash.EqOutside a (base + pos) (base + pos + data.length) fl fl')
    (masked : ∀ i, i < data.length → fl' a (base + pos + i) &&& data.getD i 0 =
      fl a (base + pos + i) &&& data.getD i 0) : Streams fl' a base image pos front := by
  refine ⟨streams.inside, streams.pos_le, fun i lt => ?_, fun i lt below => ?_⟩
  · rw [outside _ _ fun _ => by omega]
    exact streams.written i lt
  · by_cases within : pos ≤ i ∧ i < pos + data.length
    · obtain ⟨k, rfl⟩ : ∃ k, i = pos + k := ⟨i - pos, by omega⟩
      have here := slice k (by omega)
      rw [if_pos lt] at here
      have same := masked k (by omega)
      rw [here, Nat.add_assoc] at same
      rw [same]
      exact streams.ready _ lt below
    · rw [outside _ _ fun _ => by omega]
      exact streams.ready i lt below

omit streams

variable [DecidableEq ι]

theorem program (streams : Streams fl a base image pos front)
    (slice : Slice image pos data) (le : pos' ≤ pos + data.length)
    (pos_le : pos' ≤ image.length) (erased : base + pos' ≤ front) :
    Streams (fl.program a (base + pos) data) a base image pos' front := by
  -- where the data reaches, it keeps exactly the bits of the image
  have byte : ∀ i, i < image.length → base + i < front → fl.program a (base + pos) data a (base + i) =
        if pos ≤ i ∧ i < pos + data.length then image.getD i 0 else fl a (base + i) := by
    intro i lt below
    split
    next within =>
      obtain ⟨k, rfl⟩ : ∃ k, i = pos + k := ⟨i - pos, by omega⟩
      have here := slice k (by omega)
      rw [if_pos lt] at here
      rw [← Nat.add_assoc, Flash.program_inside _ _ (by omega), ← streams.ready _ lt below, ← here, Nat.add_assoc]
      simp [List.getD, show k < data.length by omega]
    next out => exact Flash.program_outside _ fun _ => by omega
  refine ⟨fun _ => erased, pos_le, fun i lt => ?_, fun i lt below => ?_⟩
  · rw [byte i (by omega) (by omega)]
    split
    · rfl
    · exact streams.written i (by omega)
  · rw [byte i lt below]
    split
    · exact UInt8.and_self
    · exact streams.ready i lt below

end Streams

end Nor
