/-!
# Clocked designs

The states a synchronous design goes through on an unbounded sequence of inputs, and
what it is seen to do in the first cycles of such a run.
-/

namespace Lib
namespace Clocked

variable {σ ι β : Type}

/-- The state in each clock cycle, before the edge that ends it. -/
def stateAt (next : σ → ι → σ) (s : σ) (input : Nat → ι) : Nat → σ
  | 0 => s
  | n + 1 => next (stateAt next s input n) (input n)

/-- What waits was asked for and not answered since.  At an edge it is either asked for, or it goes
on to wait. -/
theorem waits_succ {waits : Prop} {asked answered : Nat → Prop} {n : Nat}
    (hbefore : waits → ∃ m, m < n ∧ asked m ∧ ∀ j, m < j → j < n → ¬answered j)
    (hedge : asked n ∨ waits ∧ ¬answered n) :
    ∃ m, m < n + 1 ∧ asked m ∧ ∀ j, m < j → j < n + 1 → ¬answered j := by
  rcases hedge with hasked | ⟨hwaits, hnot⟩
  · exact ⟨n, Nat.lt_succ_self n, hasked, fun j hj hj' => by omega⟩
  · obtain ⟨m, hm, hasked, hno⟩ := hbefore hwaits
    refine ⟨m, by omega, hasked, fun j hj hj' => ?_⟩
    by_cases hjn : j = n
    · exact hjn ▸ hnot
    · exact hno j hj (by omega)

/-- What every edge keeps while `valid` stays up is the same as long as it is up. -/
theorem eq_of_held {valid : Nat → Prop} {data : Nat → β}
    (hedge : ∀ k, valid k → valid (k + 1) → data (k + 1) = data k) {m n : Nat} (hmn : m ≤ n)
    (hvalid : ∀ k, m ≤ k → k ≤ n → valid k) : data m = data n := by
  induction hmn with
  | refl => rfl
  | @step n hmn ih =>
      rw [ih fun k hk hk' => hvalid k hk (Nat.le_succ_of_le hk')]
      exact (hedge n (hvalid n hmn (Nat.le_succ n)) (hvalid (n + 1) (Nat.le_succ_of_le hmn)
        (Nat.le_refl _))).symm

/-- The events of the first `n` cycles, in order. -/
def events (event : Nat → Option β) (n : Nat) : List β :=
  (List.range n).filterMap event

@[simp]
theorem events_zero (event : Nat → Option β) : events event 0 = [] := rfl

theorem events_succ_some {event : Nat → Option β} {n : Nat} {b : β} (h : event n = some b) :
    events event (n + 1) = events event n ++ [b] := by
  simp [events, List.range_succ, h]

theorem events_succ_none {event : Nat → Option β} {n : Nat} (h : event n = none) :
    events event (n + 1) = events event n := by
  simp [events, List.range_succ, h]

theorem events_succ (event : Nat → Option β) (n : Nat) :
    events event (n + 1) = events event n ++ (event n).toList := by
  cases h : event n with
  | none => rw [events_succ_none h, Option.toList_none, List.append_nil]
  | some b => rw [events_succ_some h, Option.toList_some]

/-- The event of the first cycle, and those of the cycles after it. -/
theorem events_succ_left (event : Nat → Option β) (n : Nat) :
    events event (n + 1) = (event 0).toList ++ events (fun k => event (k + 1)) n := by
  unfold events
  rw [List.range_succ_eq_map, List.filterMap_cons, List.filterMap_map]
  cases event 0 with
  | none => rfl
  | some b => rfl

theorem events_split (event : Nat → Option β) (a k : Nat) :
    events event (a + k) = events event a ++ events (fun j => event (a + j)) k := by
  induction k with
  | zero => exact (List.append_nil _).symm
  | succ k ih =>
      show events event (a + k + 1) = _
      rw [events_succ, ih, events_succ, List.append_assoc]

/-- What `f` gives in the `k` cycles from cycle `a` on. -/
def during (f : Nat → List β) (a : Nat) : Nat → List β
  | 0 => []
  | k + 1 => during f a k ++ f (a + k)

theorem events_add (event : Nat → Option β) (a k : Nat) :
    events event (a + k) = events event a ++ during (fun n => (event n).toList) a k := by
  induction k with
  | zero => simp [during]
  | succ k ih =>
      rw [during, ← List.append_assoc, ← ih]
      show events event (a + k + 1) = _
      cases h : event (a + k) with
      | none => simpa using events_succ_none h
      | some b => simpa using events_succ_some h

end Clocked
end Lib
