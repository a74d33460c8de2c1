import Mathlib.Data.List.Basic

/-!
# Records of a stream

A stream whose items may carry an end mark is a row of records, each of which ends with its
first marked item.  Items that are written out in pieces of equal number are found again by
division.
-/

namespace Lib
namespace Records

variable {α β : Type}

/-- The records that are complete, where `open` has been seen of the first one. -/
def recordsFrom (last : α → Bool) : List α → List α → List (List α)
  | _, [] => []
  | seen, x :: xs =>
      if last x then (seen ++ [x]) :: recordsFrom last [] xs else recordsFrom last (seen ++ [x]) xs

/-- The complete records of a stream. -/
def records (last : α → Bool) (xs : List α) : List (List α) := recordsFrom last [] xs

/-- The last item is marked and no other. -/
def IsRecord (last : α → Bool) (xs : List α) : Prop :=
  ∃ ys x, xs = ys ++ [x] ∧ last x = true ∧ ∀ y ∈ ys, last y = false

variable {last : α → Bool}

theorem recordsFrom_open {ys : List α} (h : ∀ y ∈ ys, last y = false) (seen : List α) :
    recordsFrom last seen ys = [] := by
  induction ys generalizing seen with
  | nil => rfl
  | cons y ys ih =>
      rw [recordsFrom, h y List.mem_cons_self, if_neg Bool.false_ne_true]
      exact ih (fun z hz => h z (List.mem_cons_of_mem y hz)) _

theorem recordsFrom_append {ys : List α} {x : α} (h : ∀ y ∈ ys, last y = false)
    (hx : last x = true) (seen rest : List α) :
    recordsFrom last seen (ys ++ [x] ++ rest) = (seen ++ (ys ++ [x])) :: records last rest := by
  induction ys generalizing seen with
  | nil =>
      show recordsFrom last seen (x :: rest) = _
      rw [recordsFrom, hx, if_pos rfl]
      rfl
  | cons y ys ih =>
      show recordsFrom last seen (y :: (ys ++ [x] ++ rest)) = _
      rw [recordsFrom, h y List.mem_cons_self, if_neg Bool.false_ne_true,
        ih (fun z hz => h z (List.mem_cons_of_mem y hz)), List.append_assoc]
      rfl

/-- Some records in a row, and the beginning of another one. -/
theorem records_flatten {ps : List (List α)} (hps : ∀ p ∈ ps, IsRecord last p) {part : List α}
    (hpart : ∀ y ∈ part, last y = false) : records last (ps.flatten ++ part) = ps := by
  induction ps with
  | nil => exact recordsFrom_open hpart []
  | cons p ps ih =>
      obtain ⟨ys, x, rfl, hx, hys⟩ := hps p List.mem_cons_self
      rw [List.flatten_cons, List.append_assoc, records, recordsFrom_append hys hx,
        List.nil_append, ih fun q hq => hps q (List.mem_cons_of_mem _ hq)]

section Pieces

variable {f : α → List β} {n : Nat}

theorem length_pieces (hf : ∀ x, (f x).length = n) (xs : List α) :
    (xs.flatMap f).length = n * xs.length := by
  induction xs with
  | nil => rfl
  | cons x xs ih =>
      rw [List.flatMap_cons, List.length_append, hf, ih, List.length_cons, Nat.mul_succ,
        Nat.add_comm]

/-- Piece `j` of item `k`. -/
theorem getElem_pieces (hf : ∀ x, (f x).length = n) {xs : List α} {k j : Nat} {x : α}
    (hx : xs[k]? = some x) (hj : j < n) : (xs.flatMap f)[n * k + j]? = (f x)[j]? := by
  induction xs generalizing k with
  | nil => cases hx
  | cons y ys ih =>
      rw [List.flatMap_cons]
      cases k with
      | zero =>
          obtain rfl := Option.some.inj hx
          rw [Nat.mul_zero, Nat.zero_add, List.getElem?_append_left (by rw [hf]; exact hj)]
      | succ k =>
          have hle : (f y).length ≤ n * (k + 1) + j := by
            rw [hf, Nat.mul_succ]
            omega
          have hsub : n * (k + 1) + j - n = n * k + j := by
            rw [Nat.mul_succ]
            omega
          rw [List.getElem?_append_right hle, hf, hsub]
          exact ih hx

end Pieces

end Records
end Lib
