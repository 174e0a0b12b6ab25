import Adaboot.Image.Header

/-!
# Versions

`boot_compare_version` and the order of versions that it decides.
-/

namespace Adaboot

/-- `boot_compare_version`. `useBuildNumber` is `MCUBOOT_VERSION_CMP_USE_BUILD_NUMBER`. -/
def bootCompareVersion (useBuildNumber : Bool) (ver1 ver2 : ImageVersion) : Int :=
  if ver1.ivMajor > ver2.ivMajor then 1
  else if ver1.ivMajor < ver2.ivMajor then -1
  else if ver1.ivMinor > ver2.ivMinor then 1
  else if ver1.ivMinor < ver2.ivMinor then -1
  else if ver1.ivRevision > ver2.ivRevision then 1
  else if ver1.ivRevision < ver2.ivRevision then -1
  else if useBuildNumber ∧ ver1.ivBuildNum > ver2.ivBuildNum then 1
  else if useBuildNumber ∧ ver1.ivBuildNum < ver2.ivBuildNum then -1
  else 0

def order (x y : Nat) : Int := if y < x then 1 else if x < y then -1 else 0

theorem order_neg_iff {x y : Nat} : order x y < 0 ↔ x < y := by
  grind [order]

theorem order_eq_one_iff {x y : Nat} : order x y = 1 ↔ y < x := by
  grind [order]

theorem order_digit {base x y a b : Nat} (lta : a < base) (ltb : b < base) :
    order (x * base + a) (y * base + b) = if y < x then 1 else if x < y then -1 else order a b := by
  rcases Nat.lt_trichotomy x y with less | rfl | more
  · have := Nat.mul_le_mul_right base (show x + 1 ≤ y from less)
    have next : (x + 1) * base = x * base + base := Nat.succ_mul ..
    rw [order, if_neg (by omega), if_pos (by omega), if_neg (by omega), if_pos less]
  · simp [order]
  · have := Nat.mul_le_mul_right base (show y + 1 ≤ x from more)
    have next : (y + 1) * base = y * base + base := Nat.succ_mul ..
    rw [order, if_pos (by omega), if_pos more]

/-- A version as one number: later versions have larger ones. -/
def ImageVersion.rank (useBuildNumber : Bool) (ver : ImageVersion) : Nat :=
  ((ver.ivMajor.toNat * 2 ^ 8 + ver.ivMinor.toNat) * 2 ^ 16 + ver.ivRevision.toNat) * 2 ^ 32 +
    if useBuildNumber then ver.ivBuildNum.toNat else 0

section Compare

variable (useBuildNumber : Bool) (ver1 ver2 : ImageVersion)

theorem bootCompareVersion_eq :
    bootCompareVersion useBuildNumber ver1 ver2 = order (ver1.rank useBuildNumber) (ver2.rank useBuildNumber) := by
  have build : ∀ ver : ImageVersion, (if useBuildNumber then ver.ivBuildNum.toNat else 0) < 2 ^ 32 := by
    intro ver
    have := ver.ivBuildNum.toNat_lt
    split <;> omega
  rw [ImageVersion.rank, ImageVersion.rank, order_digit (build ver1) (build ver2)]
  have lead := order_digit (x := ver1.ivMajor.toNat * 2 ^ 8 + ver1.ivMinor.toNat)
    (y := ver2.ivMajor.toNat * 2 ^ 8 + ver2.ivMinor.toNat) ver1.ivRevision.toNat_lt ver2.ivRevision.toNat_lt
  have major := order_digit (x := ver1.ivMajor.toNat) (y := ver2.ivMajor.toNat) ver1.ivMinor.toNat_lt
    ver2.ivMinor.toNat_lt
  simp only [bootCompareVersion, gt_iff_lt, UInt8.lt_iff_toNat_lt, UInt16.lt_iff_toNat_lt, UInt32.lt_iff_toNat_lt]
  unfold order at *
  cases useBuildNumber <;> grind

theorem bootCompareVersion_neg_iff :
    bootCompareVersion useBuildNumber ver1 ver2 < 0 ↔ ver1.rank useBuildNumber < ver2.rank useBuildNumber := by
  rw [bootCompareVersion_eq, order_neg_iff]

theorem bootCompareVersion_eq_one_iff :
    bootCompareVersion useBuildNumber ver1 ver2 = 1 ↔ ver2.rank useBuildNumber < ver1.rank useBuildNumber := by
  rw [bootCompareVersion_eq, order_eq_one_iff]

end Compare

end Adaboot
