import Mathlib.Algebra.Group.Basic
import Mathlib.Algebra.GroupWithZero.Nat
import Mathlib.Data.List.Chain
import Mathlib.Data.Nat.Cast.Prod

/-!
# Runs of consecutive addresses

A segment stands for the addresses `start`, `start + 1`, ..., `start + len - 1` of an
address space.  A function of the positions of a buffer, such as the translation of its
bytes to bus addresses, is described by a list of segments when the segments, one after
the other, give its values: `Covers f x segs` says so from position `x` on.

Two rules carry a cover through a program that cuts and merges segments: `Covers.runsOn`
joins neighbours that are consecutive, and `Covers.append` puts two covers in a row.
`Covers.expand_eq` reads the addresses off in the end.
-/

namespace Lib

/-- `len` addresses from `start` on. -/
structure Seg (A : Type) where
  start : A
  len : Nat
  deriving DecidableEq, Repr

namespace Runs

section Length

variable {A : Type}

def total (segs : List (Seg A)) : Nat := (segs.map Seg.len).sum

@[simp] theorem total_nil : total ([] : List (Seg A)) = 0 := rfl

@[simp] theorem total_cons (s : Seg A) (rest : List (Seg A)) :
    total (s :: rest) = s.len + total rest := rfl

theorem total_append (segs segs' : List (Seg A)) : total (segs ++ segs') = total segs + total segs' := by
  unfold total
  rw [List.map_append, List.sum_append]

end Length

variable {A B : Type} [AddMonoidWithOne A] [AddMonoidWithOne B]

/-- From position `x` on, `f` takes `n` consecutive values from `a`. -/
def RunsOn (f : Nat → A) (x : Nat) (a : A) (n : Nat) : Prop :=
  ∀ k, k < n → f (x + k) = a + (k : A)

theorem RunsOn.append {f : Nat → A} {x : Nat} {a : A} {m n : Nat} (hm : RunsOn f x a m)
    (hn : RunsOn f (x + m) (a + (m : A)) n) : RunsOn f x a (m + n) := by
  intro k hk
  rcases Nat.lt_or_ge k m with hlt | hge
  · exact hm k hlt
  · have hsplit : k = m + (k - m) := by omega
    have hpos : x + k = x + m + (k - m) := by omega
    rw [hpos, hn (k - m) (by omega), add_assoc, ← Nat.cast_add, ← hsplit]

theorem RunsOn.prod {f : Nat → A} {g : Nat → B} {x : Nat} {a : A} {b : B} {n : Nat}
    (hf : RunsOn f x a n) (hg : RunsOn g x b n) : RunsOn (fun k => (f k, g k)) x (a, b) n := by
  intro k hk
  exact Prod.ext (hf k hk) (hg k hk)

/-- The addresses of some segments, in order. -/
def expand (segs : List (Seg A)) : List A :=
  segs.flatMap fun s => (List.range s.len).map fun (k : Nat) => s.start + (k : A)

/-- The segments give the values of `f` from position `x` on. -/
def Covers (f : Nat → A) : Nat → List (Seg A) → Prop
  | _, [] => True
  | x, s :: rest => RunsOn f x s.start s.len ∧ Covers f (x + s.len) rest

theorem Covers.append {f : Nat → A} {x : Nat} {segs segs' : List (Seg A)} (h : Covers f x segs)
    (h' : Covers f (x + total segs) segs') : Covers f x (segs ++ segs') := by
  induction segs generalizing x with
  | nil => exact h'
  | cons s rest ih =>
      rw [total_cons, ← Nat.add_assoc] at h'
      exact ⟨h.1, ih h.2 h'⟩

theorem Covers.of_append {f : Nat → A} {x : Nat} {segs segs' : List (Seg A)}
    (h : Covers f x (segs ++ segs')) : Covers f x segs ∧ Covers f (x + total segs) segs' := by
  induction segs generalizing x with
  | nil => exact ⟨trivial, h⟩
  | cons s rest ih =>
      obtain ⟨hrest, hrest'⟩ := ih h.2
      rw [Nat.add_assoc] at hrest'
      exact ⟨⟨h.1, hrest⟩, hrest'⟩

/-- Segments each of which goes on where the one before ends are one run. -/
theorem Covers.runsOn {f : Nat → A} {x : Nat} {s : Seg A} {rest : List (Seg A)}
    (h : Covers f x (s :: rest))
    (hchain : (s :: rest).IsChain fun a b => b.start = a.start + (a.len : A)) :
    RunsOn f x s.start (total (s :: rest)) := by
  induction rest generalizing x s with
  | nil => exact h.1
  | cons next rest ih =>
      obtain ⟨hgoes, htail⟩ := List.isChain_cons_cons.mp hchain
      refine h.1.append ?_
      rw [← hgoes]
      exact ih h.2 htail

/-- A cover lists the values of the function. -/
theorem Covers.expand_eq {f : Nat → A} {x : Nat} {segs : List (Seg A)} (h : Covers f x segs) :
    expand segs = (List.range (total segs)).map fun k => f (x + k) := by
  induction segs generalizing x with
  | nil => rfl
  | cons s rest ih =>
      have hhead : (List.range s.len).map (fun (k : Nat) => s.start + (k : A)) =
          (List.range s.len).map fun k => f (x + k) := by
        apply List.map_congr_left
        intro k hk
        exact (h.1 k (List.mem_range.mp hk)).symm
      have hrest : expand rest = (List.range (total rest)).map fun k => f (x + (s.len + k)) := by
        rw [ih h.2]
        apply List.map_congr_left
        intro k _
        rw [Nat.add_assoc]
      show (List.range s.len).map (fun (k : Nat) => s.start + (k : A)) ++ expand rest = _
      rw [hhead, hrest, total_cons, List.range_add, List.map_append, List.map_map]
      rfl

/-! ## Segments at their positions -/

section Positions

variable {S : Type} {Q Q' : Nat → Seg S → Prop} {x : Nat} {segs segs' : List (Seg S)}

/-- `Q` holds of every segment and the position it starts at. -/
def EachAt (Q : Nat → Seg S → Prop) : Nat → List (Seg S) → Prop
  | _, [] => True
  | x, s :: rest => Q x s ∧ EachAt Q (x + s.len) rest

theorem EachAt.mono (h : EachAt Q x segs) (himp : ∀ y s, Q y s → Q' y s) : EachAt Q' x segs := by
  induction segs generalizing x with
  | nil => exact trivial
  | cons s rest ih => exact ⟨himp x s h.1, ih h.2⟩

theorem EachAt.of_append (h : EachAt Q x (segs ++ segs')) :
    EachAt Q x segs ∧ EachAt Q (x + total segs) segs' := by
  induction segs generalizing x with
  | nil => exact ⟨trivial, h⟩
  | cons s rest ih =>
      obtain ⟨hrest, hrest'⟩ := ih h.2
      rw [Nat.add_assoc] at hrest'
      exact ⟨⟨h.1, hrest⟩, hrest'⟩

theorem EachAt.mem (h : EachAt Q x segs) {s : Seg S} (hs : s ∈ segs) : ∃ y, x ≤ y ∧ Q y s := by
  induction segs generalizing x with
  | nil => exact absurd hs List.not_mem_nil
  | cons s' rest ih =>
      rcases List.mem_cons.mp hs with rfl | hrest
      · exact ⟨x, Nat.le_refl x, h.1⟩
      · obtain ⟨y, hle, hq⟩ := ih h.2 hrest
        exact ⟨y, Nat.le_trans (Nat.le_add_right x s'.len) hle, hq⟩

/-- Segments that all start at multiples of `d` have lengths that are multiples, if the last one
ends at one too. -/
theorem EachAt.len_dvd {d : Nat} (h : EachAt (fun y _ => d ∣ y) x segs)
    (hend : d ∣ x + total segs) : ∀ s ∈ segs, d ∣ s.len := by
  induction segs generalizing x with
  | nil => exact fun _ hs => absurd hs List.not_mem_nil
  | cons s rest ih =>
      rw [total_cons, ← Nat.add_assoc] at hend
      have hnext : d ∣ x + s.len := by
        cases rest with
        | nil => exact hend
        | cons s' rest => exact h.2.1
      intro s' hs'
      rcases List.mem_cons.mp hs' with rfl | hrest
      · exact (Nat.dvd_add_right h.1).mp hnext
      · exact ih h.2 hend s' hrest

end Positions

end Runs
end Lib
