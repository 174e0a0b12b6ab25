import Mathlib.Tactic.SplitIfs

/-!
# Erase-type flash

The contents of a family of flash areas. Erasing sets every bit of a range, programming can only
clear bits, so data survives programming exactly where the range was erased before.
-/

namespace Nor

abbrev Flash (ι : Type) : Type := ι → Nat → UInt8

def erasedVal : UInt8 := 0xff

namespace Flash

variable {ι : Type} [DecidableEq ι]

def erase (fl : Flash ι) (a : ι) (off len : Nat) : Flash ι := fun b i =>
  if b = a ∧ off ≤ i ∧ i < off + len then erasedVal else fl b i

def program (fl : Flash ι) (a : ι) (off : Nat) (data : List UInt8) : Flash ι := fun b i =>
  if b = a ∧ off ≤ i ∧ i < off + data.length then fl b i &&& data.getD (i - off) erasedVal
  else fl b i

def read (fl : Flash ι) (a : ι) (off len : Nat) : List UInt8 := (List.range len).map fun i => fl a (off + i)

def Erased (fl : Flash ι) (a : ι) (lo hi : Nat) : Prop := ∀ i, lo ≤ i → i < hi → fl a i = erasedVal

def EqOutside (a : ι) (lo hi : Nat) (fl fl' : Flash ι) : Prop := ∀ b i, (b = a → i < lo ∨ hi ≤ i) → fl' b i = fl b i

def EqOn (a : ι) (lo hi : Nat) (fl fl' : Flash ι) : Prop := ∀ i, lo ≤ i → i < hi → fl' a i = fl a i

omit [DecidableEq ι] in
@[simp] theorem length_read (fl : Flash ι) (a : ι) (off len : Nat) : (fl.read a off len).length = len := by
  simp [read]

omit [DecidableEq ι] in
theorem read_getD (fl : Flash ι) (a : ι) (off len i : Nat) (d : UInt8) (lt : i < len) :
    (fl.read a off len).getD i d = fl a (off + i) := by
  simp [read, List.getD, lt]

omit [DecidableEq ι] in
theorem read_eq_iff (fl : Flash ι) (a : ι) (off : Nat) (data : List UInt8) :
    fl.read a off data.length = data ↔ ∀ i, i < data.length → fl a (off + i) = data.getD i 0 := by
  constructor
  · intro same i lt
    rw [← read_getD fl a off data.length i 0 lt, same]
  · intro bytes
    apply List.ext_getElem (by simp)
    intro i h1 h2
    simpa [read, List.getD, h2] using bytes i h2

variable {fl fl' : Flash ι} {a b : ι} {off len i lo hi lo' hi' : Nat} {data : List UInt8}

omit [DecidableEq ι] in
theorem read_congr {a' : ι} {off' : Nat}
    (same : ∀ i, i < len → fl' a' (off' + i) = fl a (off + i)) : fl'.read a' off' len = fl.read a off len := by
  apply List.map_congr_left
  intro i mem
  exact same i (List.mem_range.mp mem)

/-! ### Erasing -/

theorem erase_inside (fl : Flash ι) (a : ι) (lo : off ≤ i) (hi : i < off + len) :
    fl.erase a off len a i = erasedVal := by
  simp [erase, lo, hi]

theorem erase_outside (fl : Flash ι) (out : b = a → i < off ∨ off + len ≤ i) : fl.erase a off len b i = fl b i := by
  unfold erase
  split
  next h => have := out h.1; omega
  next => rfl

theorem erase_or_same (fl : Flash ι) (a b : ι) (off len i : Nat) :
    fl.erase a off len b i = fl b i ∨ fl.erase a off len b i = erasedVal := by
  unfold erase
  split
  · exact .inr rfl
  · exact .inl rfl

theorem eqOutside_erase (fl : Flash ι) (a : ι) (off len : Nat) : EqOutside a off (off + len) fl (fl.erase a off len) :=
  fun _ _ out => erase_outside fl out

theorem erase_erase (fl : Flash ι) (a : ι) (off len len' : Nat) :
    (fl.erase a off len).erase a (off + len) len' = fl.erase a off (len + len') := by
  funext b i
  unfold erase
  by_cases same : b = a
  · simp only [same, true_and]
    split_ifs <;> first | rfl | omega
  · simp [same]

theorem erase_erase_down (fl : Flash ι) (a : ι) (off len len' : Nat) :
    (fl.erase a (off + len) len').erase a off len = fl.erase a off (len + len') := by
  funext b i
  unfold erase
  by_cases same : b = a
  · simp only [same, true_and]
    split_ifs <;> first | rfl | omega
  · simp [same]

@[simp] theorem erase_zero (fl : Flash ι) (a : ι) (off : Nat) : fl.erase a off 0 = fl := by
  funext b i
  unfold erase
  split
  next h => omega
  next => rfl

/-! ### Programming -/

theorem program_outside (fl : Flash ι)
    (out : b = a → i < off ∨ off + data.length ≤ i) : fl.program a off data b i = fl b i := by
  unfold program
  split
  next h => have := out h.1; omega
  next => rfl

theorem program_inside (fl : Flash ι) (a : ι) (lt : i < data.length) :
    fl.program a off data a (off + i) = fl a (off + i) &&& data.getD i erasedVal := by
  simp [program, lt]

@[simp] theorem erasedVal_and (x : UInt8) : erasedVal &&& x = x := by
  apply UInt8.toBitVec_inj.mp
  exact BitVec.allOnes_and

@[simp] theorem and_erasedVal (x : UInt8) : x &&& erasedVal = x := by
  apply UInt8.toBitVec_inj.mp
  exact BitVec.and_allOnes

theorem program_erased (fl : Flash ι) (a : ι) (lt : i < data.length) (blank : fl a (off + i) = erasedVal) :
    fl.program a off data a (off + i) = data.getD i 0 := by
  rw [program_inside fl a lt, blank, erasedVal_and]
  simp [List.getD, lt]

theorem program_at (fl : Flash ι) (a : ι) (off : Nat) (data : List UInt8) (i : Nat) :
    fl.program a off data a (off + i) = fl a (off + i) &&& data.getD i erasedVal := by
  by_cases lt : i < data.length
  · exact program_inside fl a lt
  · rw [program_outside fl fun _ => .inr (by omega), List.getD, List.getElem?_eq_none (by omega)]
    simp

theorem program_append_erased (fl : Flash ι) (a : ι) (off k : Nat) (data : List UInt8) :
    fl.program a off (data ++ List.replicate k erasedVal) = fl.program a off data := by
  funext b i
  by_cases here : b = a ∧ off ≤ i
  · obtain ⟨rfl, le⟩ := here
    obtain ⟨j, rfl⟩ : ∃ j, i = off + j := ⟨i - off, by omega⟩
    rw [program_at, program_at]
    simp only [List.getD, List.getElem?_append, List.getElem?_replicate]
    split_ifs <;> simp [*]
  · rw [program_outside fl fun eq => .inl (by have := not_and.mp here eq; omega),
      program_outside fl fun eq => .inl (by have := not_and.mp here eq; omega)]

theorem program_replicate_append (fl : Flash ι) (a : ι) (off k : Nat) (data : List UInt8) :
    fl.program a off (List.replicate k erasedVal ++ data) = fl.program a (off + k) data := by
  funext b i
  by_cases here : b = a ∧ off ≤ i
  · obtain ⟨rfl, le⟩ := here
    obtain ⟨j, rfl⟩ : ∃ j, i = off + j := ⟨i - off, by omega⟩
    rw [program_at, List.getD]
    by_cases pad : j < k
    · rw [List.getElem?_append_left (by simpa using pad), program_outside fl fun _ => .inl (by omega)]
      simp [pad]
    · obtain ⟨m, rfl⟩ : ∃ m, j = k + m := ⟨j - k, by omega⟩
      rw [← Nat.add_assoc, program_at, List.getElem?_append_right (by simp), List.getD]
      simp
  · rw [program_outside fl fun eq => .inl (by have := not_and.mp here eq; omega),
      program_outside fl fun eq => .inl (by have := not_and.mp here eq; omega)]

theorem eqOutside_program (fl : Flash ι) (a : ι) (off : Nat) (data : List UInt8) :
    EqOutside a off (off + data.length) fl (fl.program a off data) :=
  fun _ _ out => program_outside fl out

/-! ### Frames -/

omit [DecidableEq ι] in
theorem EqOutside.refl (a : ι) (lo hi : Nat) (fl : Flash ι) : EqOutside a lo hi fl fl := fun _ _ _ => rfl

omit [DecidableEq ι] in
theorem EqOutside.trans {fl₁ fl₂ fl₃ : Flash ι}
    (first : EqOutside a lo hi fl₁ fl₂) (second : EqOutside a lo hi fl₂ fl₃) : EqOutside a lo hi fl₁ fl₃ :=
  fun b i out => (second b i out).trans (first b i out)

omit [DecidableEq ι] in
theorem EqOutside.mono
    (same : EqOutside a lo hi fl fl') (le : lo' ≤ lo) (ge : hi ≤ hi') : EqOutside a lo' hi' fl fl' :=
  fun b i out => same b i fun eq => (out eq).imp (fun h => by omega) (fun h => by omega)

omit [DecidableEq ι] in
theorem EqOutside.other (same : EqOutside a lo hi fl fl') (ne : b ≠ a) (i : Nat) : fl' b i = fl b i :=
  same b i fun eq => absurd eq ne

omit [DecidableEq ι] in
theorem EqOutside.eqOn
    (same : EqOutside a lo hi fl fl') (out : b = a → hi' ≤ lo ∨ hi ≤ lo') : EqOn b lo' hi' fl fl' :=
  fun i l h => same b i fun eq => (out eq).elim (fun _ => .inl (by omega)) (fun _ => .inr (by omega))

omit [DecidableEq ι] in
theorem EqOn.read (same : EqOn a lo hi fl fl')
    (le : lo ≤ off) (ge : off + len ≤ hi) : fl'.read a off len = fl.read a off len :=
  read_congr fun i lt => same (off + i) (by omega) (by omega)

end Flash

end Nor
