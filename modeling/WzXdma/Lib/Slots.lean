import Mathlib.Logic.Function.Basic

/-!
# Slots that refer to the objects of an allocator

A routine keeps the objects it was given in slots.  `Holds` says that no slot
dangles and that no two slots share an object, which is what makes releasing the
object of one slot safe for the others.  `Owns` says in addition that the slots
below a bound account for all the live objects, so that emptying them leaks
nothing.

Both are kept by the two moves an allocator sees: an empty slot takes a new
object, and a slot gives its object back.
-/

namespace Lib
namespace Slots

variable {κ : Type} {slot : Nat → Option κ} {live live' : κ → Prop}

structure Holds (slot : Nat → Option κ) (live : κ → Prop) : Prop where
  alive : ∀ i k, slot i = some k → live k
  inj : ∀ i j k, slot i = some k → slot j = some k → i = j

theorem Holds.empty : Holds (fun _ => none) live :=
  ⟨fun _ _ h => (by cases h), fun _ _ _ h => (by cases h)⟩

theorem Holds.mono (h : Holds slot live) (himp : ∀ i k, slot i = some k → live k → live' k) :
    Holds slot live' :=
  ⟨fun i k hk => himp i k hk (h.alive i k hk), h.inj⟩

/-- Slot `i` gives back what it holds. -/
theorem Holds.clear (h : Holds slot live) (i : Nat)
    (hlive : ∀ k, live k → slot i ≠ some k → live' k) : Holds (Function.update slot i none) live' := by
  constructor
  · intro j k hj
    by_cases hji : j = i
    · subst hji
      simp at hj
    · rw [Function.update_of_ne hji] at hj
      exact hlive k (h.alive j k hj) fun hi => hji (h.inj j i k hj hi)
  · intro j l k hj hl
    by_cases hji : j = i
    · subst hji
      simp at hj
    · by_cases hli : l = i
      · subst hli
        simp at hl
      · rw [Function.update_of_ne hji] at hj
        rw [Function.update_of_ne hli] at hl
        exact h.inj j l k hj hl

/-- Slot `i` takes an object that no slot holds; what it held before is dropped. -/
theorem Holds.fill (h : Holds slot live) (i : Nat) {k : κ} (hnew : ∀ j, slot j ≠ some k)
    (hk : live' k) (hlive : ∀ j l, slot j = some l → live l → live' l) :
    Holds (Function.update slot i (some k)) live' := by
  constructor
  · intro j l hj
    by_cases hji : j = i
    · subst hji
      rw [Function.update_self, Option.some.injEq] at hj
      exact hj ▸ hk
    · rw [Function.update_of_ne hji] at hj
      exact hlive j l hj (h.alive j l hj)
  · intro j m l hj hm
    by_cases hji : j = i
    · by_cases hmi : m = i
      · rw [hji, hmi]
      · subst hji
        rw [Function.update_self, Option.some.injEq] at hj
        rw [Function.update_of_ne hmi, ← hj] at hm
        exact absurd hm (hnew m)
    · by_cases hmi : m = i
      · subst hmi
        rw [Function.update_self, Option.some.injEq] at hm
        rw [Function.update_of_ne hji, ← hm] at hj
        exact absurd hj (hnew j)
      · rw [Function.update_of_ne hji] at hj
        rw [Function.update_of_ne hmi] at hm
        exact h.inj j m l hj hm

/-- The first `n` slots hold exactly the live objects. -/
structure Owns (n : Nat) (slot : Nat → Option κ) (live : κ → Prop) : Prop
    extends Holds slot live where
  covered : ∀ k, live k → ∃ i, i < n ∧ slot i = some k

variable {n : Nat}

theorem Owns.mono (h : Owns n slot live) (hiff : ∀ k, live' k ↔ live k) : Owns n slot live' :=
  ⟨h.toHolds.mono fun _ k _ hk => (hiff k).mpr hk, fun k hk => h.covered k ((hiff k).mp hk)⟩

theorem Owns.clear (h : Owns n slot live) (i : Nat)
    (hlive : ∀ k, live' k ↔ live k ∧ slot i ≠ some k) :
    Owns n (Function.update slot i none) live' := by
  refine ⟨h.toHolds.clear i fun k hk hne => (hlive k).mpr ⟨hk, hne⟩, ?_⟩
  intro k hk
  obtain ⟨hkl, hne⟩ := (hlive k).mp hk
  obtain ⟨j, hj, hjk⟩ := h.covered k hkl
  have hji : j ≠ i := fun e => hne (e ▸ hjk)
  exact ⟨j, hj, by rw [Function.update_of_ne hji]; exact hjk⟩

theorem Owns.fill (h : Owns n slot live) {i : Nat} (hi : i < n) {k : κ} (hempty : slot i = none)
    (hk : ¬live k) (hlive : ∀ l, live' l ↔ live l ∨ l = k) :
    Owns n (Function.update slot i (some k)) live' := by
  refine ⟨h.toHolds.fill i (fun j hj => hk (h.alive j k hj)) ((hlive k).mpr (.inr rfl))
    fun j l _ hl => (hlive l).mpr (.inl hl), ?_⟩
  intro l hl
  rcases (hlive l).mp hl with hll | rfl
  · obtain ⟨j, hj, hjl⟩ := h.covered l hll
    have hji : j ≠ i := by
      rintro rfl
      rw [hempty] at hjl
      cases hjl
    exact ⟨j, hj, by rw [Function.update_of_ne hji]; exact hjl⟩
  · exact ⟨i, hi, Function.update_self i _ _⟩

/-- When the slots are empty nothing is left. -/
theorem Owns.none_live (h : Owns n slot live) (hempty : ∀ i, i < n → slot i = none) (k : κ) :
    ¬live k := by
  intro hk
  obtain ⟨i, hi, hik⟩ := h.covered k hk
  rw [hempty i hi] at hik
  cases hik

end Slots
end Lib
