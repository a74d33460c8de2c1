import Mathlib.Algebra.Group.Nat.Defs

/-!
# Fields of a word

A word that is put together from fields, as a number: the fields in front are multiplied by the width
of those behind, and a mask of low bits takes the remainder.
-/

namespace Lib
namespace Fields

variable {v w : Nat}

theorem append_toNat (x : BitVec v) (y : BitVec w) :
    (x ++ y).toNat = x.toNat * 2 ^ w + y.toNat := by
  rw [BitVec.toNat_append, ← Nat.shiftLeft_add_eq_or_of_lt y.isLt, Nat.shiftLeft_eq]

/-- A mask of the `k` low bits. -/
theorem and_mask_toNat (x : BitVec w) {k : Nat} (hk : k ≤ w) :
    (x &&& BitVec.ofNat w (2 ^ k - 1)).toNat = x.toNat % 2 ^ k := by
  have hlt : 2 ^ k - 1 < 2 ^ w := by
    have := Nat.pow_le_pow_right (show 0 < 2 by omega) hk
    have := Nat.two_pow_pos k
    omega
  rw [BitVec.toNat_and, BitVec.toNat_ofNat, Nat.mod_eq_of_lt hlt, Nat.and_two_pow_sub_one_eq_mod]

/-- A field above a number that fits below it. -/
theorem shiftLeft_or_toNat (x y : BitVec w) {k : Nat} (hx : x.toNat * 2 ^ k < 2 ^ w)
    (hy : y.toNat < 2 ^ k) : (x <<< k ||| y).toNat = x.toNat * 2 ^ k + y.toNat := by
  rw [BitVec.toNat_or, BitVec.toNat_shiftLeft, Nat.shiftLeft_eq, Nat.mod_eq_of_lt hx,
    ← Nat.shiftLeft_eq, ← Nat.shiftLeft_add_eq_or_of_lt hy, Nat.shiftLeft_eq]

/-! ## A number read in two halves

The number is `a` when its high half is read and `b` when its low half is.  A mask may keep only
the `k` lowest values of the high half. -/

theorem halves_le {a b : Nat} (h : a ≤ b) (m k : Nat) : a / m % k * m + b % m ≤ b := by
  have hhigh : a / m % k ≤ b / m := Nat.le_trans (Nat.mod_le _ _) (Nat.div_le_div_right h)
  calc a / m % k * m + b % m ≤ b / m * m + b % m := Nat.add_le_add_right (Nat.mul_le_mul_right m hhigh) _
    _ = b := Nat.div_add_mod' b m

theorem le_halves_iff (a b : Nat) {m k : Nat} (hm : 0 < m) (hk : 0 < k) :
    a ≤ a / m % k * m + b % m ↔ a / m < k ∧ a % m ≤ b % m := by
  have hsplit := Nat.div_add_mod' a m
  rcases Nat.lt_or_ge (a / m) k with hlt | hge
  · rw [Nat.mod_eq_of_lt hlt]
    constructor
    · intro h
      exact ⟨hlt, by omega⟩
    · intro h
      omega
  · -- the high half that is kept is too small by one at least
    refine iff_of_false (fun h => ?_) (fun h => Nat.not_lt.mpr hge h.1)
    have hkept : a / m % k + 1 ≤ a / m := Nat.lt_of_lt_of_le (Nat.mod_lt _ hk) hge
    have hmul := Nat.mul_le_mul_right m hkept
    rw [Nat.succ_mul] at hmul
    have hlow := Nat.mod_lt b hm
    omega

end Fields
end Lib
