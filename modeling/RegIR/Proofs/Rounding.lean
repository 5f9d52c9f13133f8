import Mathlib.Algebra.Group.Nat.Defs
import Mathlib.Order.Bounds.Basic
/-!
# Rounding up

Storage starts at multiples of its alignment.  Rounding up finds the least multiple that is not
below a number.
-/

namespace RegIR

/-- The least multiple of an alignment that is not below a number. -/
def roundUp (n align : Nat) : Nat := (n + align - 1) / align * align

theorem dvd_roundUp (n align : Nat) : align ∣ roundUp n align := Nat.dvd_mul_left ..

section
variable {n align : Nat} (h : 0 < align)
include h

theorem le_roundUp : n ≤ roundUp n align := by
  have hdiv := Nat.div_add_mod (n + align - 1) align
  have hmod := Nat.mod_lt (n + align - 1) h
  rw [roundUp, Nat.mul_comm]
  omega

theorem roundUp_lt : roundUp n align < n + align := by
  have hle := Nat.div_mul_le_self (n + align - 1) align
  rw [roundUp]
  omega

theorem roundUp_le_of_dvd {m : Nat} (hdvd : align ∣ m) (hle : n ≤ m) : roundUp n align ≤ m := by
  obtain ⟨q, rfl⟩ := hdvd
  rw [roundUp, Nat.mul_comm align q]
  apply Nat.mul_le_mul_right
  apply Nat.le_of_lt_succ
  rw [Nat.div_lt_iff_lt_mul h, Nat.succ_mul, Nat.mul_comm q]
  omega

theorem isLeast_roundUp : IsLeast {m | n ≤ m ∧ align ∣ m} (roundUp n align) :=
  ⟨⟨le_roundUp h, dvd_roundUp n align⟩, fun _ hm => roundUp_le_of_dvd h hm.2 hm.1⟩

/-- A multiple bounds the rounded number as soon as no further number would round to it. -/
theorem le_roundUp_iff {m : Nat} (hdvd : align ∣ m) : m ≤ roundUp n align ↔ m < n + align := by
  constructor
  · intro hle
    exact Nat.lt_of_le_of_lt hle (roundUp_lt h)
  · intro hlt
    -- Otherwise the next multiple behind the rounded number is not above `m`.
    obtain ⟨q, rfl⟩ := hdvd
    obtain ⟨r, hr⟩ := dvd_roundUp n align
    have hn : n ≤ align * r := hr ▸ le_roundUp h
    rw [hr]
    apply Nat.mul_le_mul_left
    apply Nat.le_of_lt_succ
    apply Nat.lt_of_mul_lt_mul_left (a := align)
    rw [Nat.mul_succ]
    omega

end

/-! ## Powers of two -/

theorem max_two_pow (j k : Nat) : max (2 ^ j) (2 ^ k) = 2 ^ max j k := by
  rcases Nat.le_total j k with h | h
  · rw [Nat.max_eq_right h, Nat.max_eq_right (Nat.pow_le_pow_right (by decide) h)]
  · rw [Nat.max_eq_left h, Nat.max_eq_left (Nat.pow_le_pow_right (by decide) h)]

/-- What is aligned to the larger of two powers of two is aligned to both. -/
theorem two_pow_dvd_max (j k : Nat) : 2 ^ j ∣ max (2 ^ j) (2 ^ k) ∧ 2 ^ k ∣ max (2 ^ j) (2 ^ k) := by
  rw [max_two_pow]
  exact ⟨Nat.pow_dvd_pow 2 (Nat.le_max_left j k), Nat.pow_dvd_pow 2 (Nat.le_max_right j k)⟩

end RegIR
