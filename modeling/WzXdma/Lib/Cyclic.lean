import Mathlib.Data.Nat.ModEq
import Mathlib.Data.Nat.Bits
import Mathlib.Data.List.Nodup

/-!
# Unbounded counters and ring indices

A ring of `n` slots is driven by counters that never wrap, and slot `k % n` is
the one counter value `k` uses.  The facts below say when two counter values use
different slots, and that the masked increment of a power-of-two ring is the
successor of the counter.
-/

namespace Lib
namespace Cyclic

/-- Two counter values less than one lap apart use the same slot only when they
are equal. -/
theorem eq_of_mod_eq {n a b : Nat} (h : a % n = b % n) (hab : a ≤ b) (hlt : b < a + n) :
    a = b := by
  have hd : n ∣ b - a := (Nat.modEq_iff_dvd' hab).mp h
  have hz : b - a = 0 := Nat.eq_zero_of_dvd_of_lt hd (by omega)
  omega

/-- The counter values of one lap use pairwise different slots. -/
theorem mod_ne_of_window {n base a b : Nat} (ha : base ≤ a) (ha' : a < base + n)
    (hb : base ≤ b) (hb' : b < base + n) (hne : a ≠ b) : a % n ≠ b % n := by
  intro h
  rcases Nat.le_total a b with hab | hab
  · exact hne (eq_of_mod_eq h hab (by omega))
  · exact hne (eq_of_mod_eq h.symm hab (by omega)).symm

/-- Every slot is used by some counter value of a given lap. -/
theorem exists_window {n : Nat} (base : Nat) {i : Nat} (hi : i < n) :
    ∃ k, base ≤ k ∧ k < base + n ∧ k % n = i := by
  have hn : 0 < n := by omega
  by_cases hle : base % n ≤ i
  · refine ⟨base + (i - base % n), by omega, by omega, ?_⟩
    have hdiv := Nat.div_add_mod base n
    have : base + (i - base % n) = i + n * (base / n) := by omega
    rw [this, Nat.add_mul_mod_self_left, Nat.mod_eq_of_lt hi]
  · have hmod := Nat.mod_lt base hn
    refine ⟨base + (n + i - base % n), by omega, by omega, ?_⟩
    have hdiv := Nat.div_add_mod base n
    have hmul : n * (base / n + 1) = n * (base / n) + n := Nat.mul_succ _ _
    have : base + (n + i - base % n) = i + n * (base / n + 1) := by omega
    rw [this, Nat.add_mul_mod_self_left, Nat.mod_eq_of_lt hi]

/-- The masked increment of a ring of `2 ^ k` slots is the increment modulo the
number of slots. -/
theorem succ_and_mask {n k : Nat} (hn : n = 2 ^ k) (i : Nat) :
    (i + 1) &&& (n - 1) = (i + 1) % n := by
  rw [hn, Nat.and_two_pow_sub_one_eq_mod]

theorem succ_mod (n k : Nat) : (k % n + 1) % n = (k + 1) % n := by
  rw [Nat.mod_add_mod]

/-- The increment that is wrapped by a comparison. -/
theorem wrap_succ {n : Nat} (hn : 0 < n) (k : Nat) :
    (if k % n + 1 = n then 0 else k % n + 1) = (k + 1) % n := by
  have hlt := Nat.mod_lt k hn
  rw [← succ_mod]
  by_cases hlast : k % n + 1 = n
  · rw [if_pos hlast, hlast, Nat.mod_self]
  · rw [if_neg hlast, Nat.mod_eq_of_lt (show k % n + 1 < n by omega)]

/-- The slots of `m` counter values in a row. -/
def window (n a m : Nat) : List Nat := (List.range' a m).map (· % n)

theorem mem_window {n a m i : Nat} : i ∈ window n a m ↔ ∃ k, a ≤ k ∧ k < a + m ∧ k % n = i := by
  simp only [window, List.mem_map, List.mem_range'_1, and_assoc]

theorem window_append (n a m m' : Nat) :
    window n a m ++ window n (a + m) m' = window n a (m + m') := by
  rw [window, window, window, ← List.map_append, List.range'_append_1]

/-- Within one lap no slot comes twice. -/
theorem nodup_window {n a m : Nat} (hm : m ≤ n) : (window n a m).Nodup := by
  refine List.Nodup.map_on (fun x hx y hy hxy => ?_) List.nodup_range'
  rw [List.mem_range'_1] at hx hy
  by_contra hne
  exact mod_ne_of_window hx.1 (by omega) hy.1 (by omega) hne hxy

/-- A list whose entry `j` uses the slot of `a + j`. -/
theorem map_eq_window {α : Type} {f : α → Nat} {l : List α} {n a : Nat}
    (hf : ∀ j x, l[j]? = some x → f x = (a + j) % n) : l.map f = window n a l.length := by
  induction l generalizing a with
  | nil => rfl
  | cons x l ih =>
      have hrest : l.map f = window n (a + 1) l.length := by
        refine ih fun j y hy => ?_
        rw [hf (j + 1) y hy]
        congr 1
        omega
      rw [List.map_cons, hrest, hf 0 x rfl]
      rfl

/-! ## Stretches of the ring -/

/-- How many increments lead from slot `a` to slot `b`. -/
def dist (n a b : Nat) : Nat := if a ≤ b then b - a else b + n - a

/-- Slot `i` is met on the way from slot `first` to slot `last`. -/
def Covers (n first last i : Nat) : Prop := i < n ∧ dist n first i ≤ dist n first last

instance (n first last i : Nat) : Decidable (Covers n first last i) :=
  inferInstanceAs (Decidable (_ ∧ _))

variable {n a b i : Nat}

theorem dist_lt (ha : a < n) (hb : b < n) : dist n a b < n := by
  unfold dist
  split <;> omega

theorem dist_next (ha : a < n) (hb : b < n) (hne : a ≠ b) :
    dist n ((a + 1) % n) b + 1 = dist n a b := by
  have hmod : (a + 1) % n = if a + 1 < n then a + 1 else 0 := by
    split
    · exact Nat.mod_eq_of_lt (by assumption)
    · have : a + 1 = n := by omega
      rw [this, Nat.mod_self]
  rw [hmod]
  unfold dist
  split <;> split <;> split <;> omega

theorem covers_first (ha : a < n) : Covers n a b a :=
  ⟨ha, by simp [dist]⟩

theorem covers_self_iff (ha : a < n) : Covers n a a i ↔ i = a := by
  constructor
  · rintro ⟨hi, hle⟩
    unfold dist at hle
    split at hle <;> split at hle <;> omega
  · rintro rfl
    exact covers_first ha

/-- A stretch is its first slot and the stretch from the next one. -/
theorem covers_next_iff (ha : a < n) (hb : b < n) (hne : a ≠ b) :
    Covers n a b i ↔ i = a ∨ Covers n ((a + 1) % n) b i := by
  have hstep := dist_next ha hb hne
  constructor
  · rintro ⟨hi, hle⟩
    by_cases hia : i = a
    · exact .inl hia
    · have := dist_next ha hi (Ne.symm hia)
      exact .inr ⟨hi, by omega⟩
  · rintro (rfl | ⟨hi, hle⟩)
    · exact covers_first ha
    · by_cases hia : i = a
      · subst hia
        exact covers_first ha
      · have := dist_next ha hi (Ne.symm hia)
        exact ⟨hi, by omega⟩

/-- For counter values of one lap the distance of the slots is that of the counters. -/
theorem dist_mod {a b n : Nat} (hab : a ≤ b) (hb : b < a + n) : dist n (a % n) (b % n) = b - a := by
  have hn : 0 < n := by omega
  have ha := Nat.div_add_mod a n
  have hb' := Nat.div_add_mod b n
  have hma := Nat.mod_lt a hn
  have hmb := Nat.mod_lt b hn
  have hle : a / n ≤ b / n := Nat.div_le_div_right hab
  have hlt : b / n < a / n + 2 := by
    rw [Nat.div_lt_iff_lt_mul hn, Nat.add_mul, Nat.mul_comm (a / n) n]
    omega
  have hcases : b / n = a / n ∨ b / n = a / n + 1 := by omega
  unfold dist
  rcases hcases with h | h
  · rw [h] at hb'
    split <;> omega
  · rw [h, Nat.mul_add, Nat.mul_one] at hb'
    split <;> omega

/-- The distance of two slots in machine arithmetic. -/
theorem sub_mod_eq_dist {w : Nat} (hdvd : n ∣ 2 ^ w) {a b : BitVec w} (ha : a.toNat < n)
    (hb : b.toNat < n) : (b - a).toNat % n = dist n a.toNat b.toNat := by
  obtain ⟨m, hm⟩ := hdvd
  have hle : a.toNat ≤ 2 ^ w := Nat.le_of_lt a.isLt
  rw [BitVec.toNat_sub, Nat.mod_mod_of_dvd _ ⟨m, hm⟩]
  unfold dist
  split
  · have hlap : 2 ^ w - a.toNat + b.toNat = b.toNat - a.toNat + n * m := by omega
    rw [hlap, Nat.add_mul_mod_self_left, Nat.mod_eq_of_lt (by omega)]
  · have hm0 : m ≠ 0 := by
      rintro rfl
      rw [Nat.mul_zero] at hm
      exact absurd hm (Nat.two_pow_pos w).ne'
    obtain ⟨m', rfl⟩ := Nat.exists_eq_succ_of_ne_zero hm0
    have hmul : n * m'.succ = n * m' + n := Nat.mul_succ n m'
    have hlap : 2 ^ w - a.toNat + b.toNat = b.toNat + n - a.toNat + n * m' := by omega
    rw [hlap, Nat.add_mul_mod_self_left, Nat.mod_eq_of_lt (by omega)]

/-- The slots from counter value `a` to `b` are those the stretch meets. -/
theorem covers_mod {a b n i : Nat} (hab : a ≤ b) (hb : b < a + n)
    (hi : Covers n (a % n) (b % n) i) : ∃ k, a ≤ k ∧ k ≤ b ∧ k % n = i := by
  obtain ⟨hin, hle⟩ := hi
  obtain ⟨k, hak, hk, rfl⟩ := exists_window a hin
  rw [dist_mod hab hb, dist_mod hak hk] at hle
  exact ⟨k, hak, by omega, rfl⟩

/-- The first slot is not met again on the rest of the way. -/
theorem not_covers_next (ha : a < n) (hb : b < n) (hne : a ≠ b) :
    ¬Covers n ((a + 1) % n) b a := by
  rintro ⟨-, hle⟩
  have hstep := dist_next ha hb hne
  have hlt := dist_lt ha hb
  have hback : dist n ((a + 1) % n) a + 1 = n := by
    by_cases ha1 : a + 1 < n
    · rw [Nat.mod_eq_of_lt ha1]
      unfold dist
      split <;> omega
    · have : a + 1 = n := by omega
      rw [this, Nat.mod_self]
      unfold dist
      split <;> omega
  omega

end Cyclic
end Lib
