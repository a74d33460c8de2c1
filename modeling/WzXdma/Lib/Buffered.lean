import Mathlib.Data.List.Basic
import Mathlib.Logic.Function.Basic
import WzXdma.Lib.Clocked

/-!
# Designs that store what they accept

A clocked design that takes data in at one side and gives it out at the other.  `Holds q s`
says that the data `q` is inside in state `s`.  The rule is that a clock edge changes `q` as
a queue does, and from it a run gives out what it took in, in order.

`window` reads a memory with a pointer that runs freely, as the memories of such designs are
addressed.
-/

namespace Lib
namespace Clocked

variable {σ ι β : Type}

/-- An edge appends what is accepted and removes what is given out. -/
def Queues (next : σ → ι → σ) (accepts emits : σ → ι → Option β) (ok : ι → Prop)
    (Holds : List β → σ → Prop) : Prop :=
  ∀ q s i, Holds q s → ok i → ∃ q', Holds q' (next s i) ∧
    q ++ (accepts s i).toList = (emits s i).toList ++ q'

/-- What was inside and what came in is what went out and what is inside. -/
theorem Queues.run {next : σ → ι → σ} {accepts emits : σ → ι → Option β} {ok : ι → Prop}
    {Holds : List β → σ → Prop} (hqueues : Queues next accepts emits ok Holds)
    {input : Nat → ι} {st : Nat → σ} (hedge : ∀ n, st (n + 1) = next (st n) (input n))
    (hok : ∀ n, ok (input n)) {q : List β} (hstart : Holds q (st 0)) (n : Nat) :
    ∃ q', Holds q' (st n) ∧
      q ++ events (fun k => accepts (st k) (input k)) n =
        events (fun k => emits (st k) (input k)) n ++ q' := by
  induction n with
  | zero => exact ⟨q, hstart, by rw [events_zero, events_zero, List.append_nil, List.nil_append]⟩
  | succ n ih =>
      obtain ⟨q', hq', heq⟩ := ih
      obtain ⟨q'', hq'', heq'⟩ := hqueues q' (st n) (input n) hq' (hok n)
      refine ⟨q'', by rwa [hedge], ?_⟩
      rw [events_succ, events_succ, ← List.append_assoc, heq, List.append_assoc, heq',
        List.append_assoc]

section Window

variable {κ : Type}

/-- The `n` entries from position `r` on, where position `p` is kept in slot `slot p`. -/
def window (mem : κ → β) (slot : Nat → κ) (r n : Nat) : List β :=
  (List.range n).map fun k => mem (slot (r + k))

variable {mem : κ → β} {slot : Nat → κ} {r n : Nat}

@[simp]
theorem length_window : (window mem slot r n).length = n := by
  simp [window]

theorem window_zero : window mem slot r 0 = [] := rfl

/-- Reading takes the first entry. -/
theorem window_pop : window mem slot r (n + 1) = mem (slot r) :: window mem slot (r + 1) n := by
  unfold window
  rw [List.range_succ_eq_map, List.map_cons, List.map_map, Nat.add_zero]
  congr 1
  apply List.map_congr_left
  intro k _
  show mem (slot (r + (k + 1))) = mem (slot (r + 1 + k))
  rw [Nat.add_assoc, Nat.add_comm 1 k]

theorem drop_window (k : Nat) :
    (window mem slot r n).drop k = window mem slot (r + k) (n - k) := by
  induction k generalizing r n with
  | zero => rfl
  | succ k ih =>
      cases n with
      | zero => rw [Nat.zero_sub, window_zero, List.drop_nil, window_zero]
      | succ n =>
          rw [window_pop, List.drop_succ_cons, ih, Nat.add_sub_add_right, Nat.add_assoc,
            Nat.add_comm 1 k]

/-- Writing to a slot that is not in use appends an entry. -/
theorem window_push [DecidableEq κ] {b : β} (hfree : ∀ k, k < n → slot (r + k) ≠ slot (r + n)) :
    window (Function.update mem (slot (r + n)) b) slot r (n + 1) = window mem slot r n ++ [b] := by
  unfold window
  rw [List.range_succ, List.map_append, List.map_singleton, Function.update_self]
  congr 1
  apply List.map_congr_left
  intro k hk
  exact Function.update_of_ne (hfree k (List.mem_range.mp hk)) ..

end Window

end Clocked
end Lib
