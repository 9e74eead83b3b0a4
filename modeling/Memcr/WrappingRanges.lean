import Mathlib.Tactic.Ring

namespace Memcr.WrappingRanges

/-- How far `a` lies behind `base` among the addresses of 64 bits, which wrap
around. -/
def distance (base a : Nat) : Nat := (a + (2 ^ 64 - base % 2 ^ 64)) % 2 ^ 64

variable {base a x y : Nat}

theorem distance_lt (base a : Nat) : distance base a < 2 ^ 64 :=
  Nat.mod_lt _ (by decide)

theorem distance_of_le (hle : base ≤ a) (ha : a < 2 ^ 64) : distance base a = a - base := by
  simp only [distance]
  omega

theorem distance_lt_sub_iff {stop : Nat} (hle : base ≤ stop) (hstop : stop < 2 ^ 64)
    (ha : a < 2 ^ 64) : distance base a < stop - base ↔ base ≤ a ∧ a < stop := by
  simp only [distance]
  omega

theorem distance_lt_add (hxy : x + y ≤ 2 ^ 64)
    (h : distance ((base + x) % 2 ^ 64) a < y) : distance base a < x + y := by
  simp only [distance] at h ⊢
  omega

theorem distance_add_lt (hle : x ≤ distance base a) (hlt : distance base a < x + y) :
    distance ((base + x) % 2 ^ 64) a < y := by
  simp only [distance] at hle hlt ⊢
  omega

theorem add_mod_ne (hxy : x < y) (hy : y < 2 ^ 64) : (base + x) % 2 ^ 64 ≠ (base + y) % 2 ^ 64 := by
  omega

end Memcr.WrappingRanges
