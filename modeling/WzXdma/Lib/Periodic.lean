import Mathlib.Data.List.Basic

/-!
# Periodic sequences

The first elements of the sequence that repeats `f 0, …, f (len - 1)`, and the sequence as
whole periods followed by the beginning of one.
-/

namespace Lib
namespace Periodic

variable {β : Type}

/-- `count` elements of the sequence with period `len`, from position `start` on. -/
def periodic (len : Nat) (f : Nat → β) (start count : Nat) : List β :=
  (List.range count).map fun j => f ((start + j) % len)

def period (len : Nat) (f : Nat → β) : List β :=
  (List.range len).map f

/-- Whole periods, and the beginning of one that is still under way. -/
def Periods (len : Nat) (f : Nat → β) (xs : List β) : Prop :=
  ∃ whole part, xs = (List.replicate whole (period len f)).flatten ++ (period len f).take part

@[simp]
theorem periodic_zero (len : Nat) (f : Nat → β) (start : Nat) : periodic len f start 0 = [] := rfl

@[simp]
theorem length_periodic (len : Nat) (f : Nat → β) (start count : Nat) :
    (periodic len f start count).length = count := by
  simp [periodic]

theorem periodic_succ (len : Nat) (f : Nat → β) (start count : Nat) :
    periodic len f start (count + 1) =
      periodic len f start count ++ [f ((start + count) % len)] := by
  simp [periodic, List.range_succ]

theorem periodic_add (len : Nat) (f : Nat → β) (start count more : Nat) :
    periodic len f start (count + more) =
      periodic len f start count ++ periodic len f (start + count) more := by
  induction more with
  | zero => simp
  | succ more ih =>
      rw [← Nat.add_assoc, periodic_succ, ih, periodic_succ, List.append_assoc, Nat.add_assoc]

theorem periodic_take (len : Nat) (f : Nat → β) (start : Nat) {m count : Nat} (h : m ≤ count) :
    (periodic len f start count).take m = periodic len f start m := by
  rw [periodic, periodic, ← List.map_take, List.take_range, Nat.min_eq_left h]

/-- Only the position in the period matters. -/
theorem periodic_start_mod (len : Nat) (f : Nat → β) (start count : Nat) :
    periodic len f (start % len) count = periodic len f start count := by
  simp [periodic, Nat.mod_add_mod]

theorem period_take_succ (f : Nat → β) {len r : Nat} (h : r < len) :
    (period len f).take (r + 1) = (period len f).take r ++ [f r] := by
  have hr : (period len f)[r]? = some (f r) := by simp [period, h]
  rw [List.take_add_one, hr]
  rfl

/-- A sequence from the start of a period is whole periods and the beginning of one. -/
theorem periodic_eq {len : Nat} (hlen : 0 < len) (f : Nat → β) (count : Nat) :
    periodic len f 0 count =
      (List.replicate (count / len) (period len f)).flatten ++ (period len f).take (count % len) := by
  induction count with
  | zero => simp
  | succ count ih =>
      have hr : count % len < len := Nat.mod_lt _ hlen
      rw [periodic_succ, ih, Nat.zero_add, List.append_assoc, ← period_take_succ f hr]
      by_cases hend : count % len + 1 = len
      · have hdvd : len ∣ count + 1 := by
          refine Nat.dvd_of_mod_eq_zero ?_
          rw [Nat.add_mod_eq_add_mod_right 1 (Nat.mod_mod count len).symm, hend, Nat.mod_self]
        rw [Nat.succ_div_of_dvd hdvd, Nat.mod_eq_zero_of_dvd hdvd, hend, List.take_zero,
          List.append_nil, List.replicate_succ', List.flatten_append,
          List.take_of_length_le (by simp [period])]
        simp
      · have hmod : (count + 1) % len = count % len + 1 := by
          rw [Nat.add_mod_eq_add_mod_right 1 (Nat.mod_mod count len).symm]
          exact Nat.mod_eq_of_lt (by omega)
        have hdvd : ¬len ∣ count + 1 := by
          intro hd
          have := Nat.mod_eq_zero_of_dvd hd
          omega
        rw [Nat.succ_div_of_not_dvd hdvd, hmod]

theorem periods_periodic {len : Nat} (hlen : 0 < len) (f : Nat → β) (count : Nat) :
    Periods len f (periodic len f 0 count) :=
  ⟨_, _, periodic_eq hlen f count⟩

/-- Whole periods begin with the first element. -/
theorem Periods.head {len : Nat} {f : Nat → β} {x : β} {xs : List β} (h : Periods len f (x :: xs)) :
    x = f 0 := by
  obtain ⟨whole, part, heq⟩ := h
  have hhead : ∀ y ys, period len f = y :: ys → y = f 0 := by
    intro y ys hp
    cases len with
    | zero => cases hp
    | succ len =>
        rw [period, List.range_succ_eq_map, List.map_cons] at hp
        exact (List.cons.inj hp).1.symm
  cases hp : period len f with
  | nil => simp [hp] at heq
  | cons y ys =>
      rw [← hhead y ys hp]
      cases whole with
      | succ whole =>
          rw [hp, List.replicate_succ, List.flatten_cons, List.cons_append, List.cons_append] at heq
          exact (List.cons.inj heq).1
      | zero =>
          cases part with
          | zero => simp at heq
          | succ part =>
              rw [hp, List.replicate_zero, List.flatten_nil, List.nil_append,
                List.take_succ_cons] at heq
              exact (List.cons.inj heq).1

end Periodic
end Lib
