import WzXdma.Lib.Spans

/-!
# Records cut into chunks of bounded size

A sender puts each record into chunks of `n` items: every chunk but the last one of
a record is full, and the last one is marked.  A stream of records is sent one
after the other, so the marked chunks split it into groups again, and group `m` is
record `m`.
-/

namespace Lib

/-- Some items of a record, and whether they are the last ones. -/
structure Chunk (α : Type) where
  last : Bool
  data : List α
  deriving DecidableEq, Repr

namespace Chunks

open Spans

variable {α : Type} {n : Nat}

/-- The ways to cut a record. -/
inductive Cut (n : Nat) : List α → List (Chunk α) → Prop
  | last {xs : List α} (h : xs.length ≤ n) : Cut n xs [⟨true, xs⟩]
  | full {xs ys : List α} {cs : List (Chunk α)} (h : xs.length = n) (hcut : Cut n ys cs) :
      Cut n (xs ++ ys) (⟨false, xs⟩ :: cs)

/-- The ways to send some records in a row. -/
inductive Sends (n : Nat) : List (List α) → List (Chunk α) → Prop
  | nil : Sends n [] []
  | cons {x : List α} {xs : List (List α)} {cs ds : List (Chunk α)} (hcut : Cut n x cs)
      (hrest : Sends n xs ds) : Sends n (x :: xs) (cs ++ ds)

variable {xs : List α} {cs : List (Chunk α)}

theorem Cut.length_pos (h : Cut n xs cs) : 0 < cs.length := by
  cases h <;> simp

theorem Cut.data_le (h : Cut n xs cs) {ch : Chunk α} (hch : ch ∈ cs) : ch.data.length ≤ n := by
  induction h with
  | last h =>
      rw [List.mem_singleton] at hch
      subst hch
      exact h
  | full h _ ih =>
      rcases List.mem_cons.mp hch with rfl | hch
      · exact Nat.le_of_eq h
      · exact ih hch

/-- The chunks before the last one count `n` items each. -/
theorem Cut.length_eq (h : Cut n xs cs) {ch : Chunk α} (hch : cs[cs.length - 1]? = some ch) :
    xs.length = n * (cs.length - 1) + ch.data.length := by
  induction h with
  | last h =>
      simp only [List.length_singleton, Nat.sub_self, List.getElem?_cons_zero,
        Option.some.injEq] at hch
      subst hch
      simp
  | @full xs ys cs h hcut ih =>
      have hpos := hcut.length_pos
      have hlast : cs.length = cs.length - 1 + 1 := by omega
      rw [List.length_cons, Nat.add_sub_cancel, hlast, List.getElem?_cons_succ] at hch
      rw [List.length_append, h, ih hch, List.length_cons, Nat.add_sub_cancel]
      conv_rhs => rw [hlast, Nat.mul_succ]
      omega

/-- Where an item of the record is. -/
theorem Cut.getElem (hn : 0 < n) (h : Cut n xs cs) {k : Nat} {a : α} (hk : xs[k]? = some a) :
    ∃ ch, cs[k / n]? = some ch ∧ ch.data[k % n]? = some a := by
  induction h generalizing k with
  | @last xs h =>
      have hlt := (List.getElem?_eq_some_iff.mp hk).1
      have hkn : k < n := by omega
      refine ⟨⟨true, xs⟩, ?_, ?_⟩
      · rw [Nat.div_eq_of_lt hkn, List.getElem?_cons_zero]
      · rwa [Nat.mod_eq_of_lt hkn]
  | @full xs ys cs h hcut ih =>
      by_cases hkn : k < n
      · refine ⟨⟨false, xs⟩, ?_, ?_⟩
        · rw [Nat.div_eq_of_lt hkn, List.getElem?_cons_zero]
        · rw [List.getElem?_append_left (by omega)] at hk
          rwa [Nat.mod_eq_of_lt hkn]
      · have hge : n ≤ k := by omega
        rw [List.getElem?_append_right (by omega), h] at hk
        obtain ⟨ch, hch, hdata⟩ := ih hk
        refine ⟨ch, ?_, ?_⟩
        · rwa [Nat.div_eq_sub_div hn hge, List.getElem?_cons_succ]
        · rwa [Nat.mod_eq_sub_mod hge]

/-- The chunks of one record are one group. -/
theorem Cut.spansFrom_append (h : Cut n xs cs) (first pos : Nat) (rest : List (Chunk α)) :
    ∃ ch, spansFrom Chunk.last first pos (cs ++ rest) =
      ⟨first, pos + cs.length - 1, ch⟩ ::
        spansFrom Chunk.last (pos + cs.length) (pos + cs.length) rest := by
  induction h generalizing pos with
  | last h => exact ⟨_, rfl⟩
  | @full xs ys cs h hcut ih =>
      obtain ⟨ch, hch⟩ := ih (pos + 1)
      refine ⟨ch, ?_⟩
      have hlen : pos + 1 + cs.length = pos + (cs.length + 1) := by omega
      rw [hlen] at hch
      simpa [spansFrom] using hch

/-- Group `m` of the chunks is record `m`. -/
theorem Sends.group {ps : List (List α)} (h : Sends n ps cs) {pos m : Nat} {g : Span (Chunk α)}
    (hg : (spansFrom Chunk.last pos pos cs)[m]? = some g) :
    ∃ p ds, ps[m]? = some p ∧ Cut n p ds ∧ pos ≤ g.first ∧ g.last + 1 = g.first + ds.length ∧
      ∀ j, j < ds.length → cs[g.first - pos + j]? = ds[j]? := by
  induction h generalizing pos m with
  | nil => simp [spansFrom] at hg
  | @cons x xs cs ds hcut hrest ih =>
      obtain ⟨ch, hch⟩ := hcut.spansFrom_append pos pos ds
      have hpos := hcut.length_pos
      rw [hch] at hg
      cases m with
      | zero =>
          rw [List.getElem?_cons_zero, Option.some.injEq] at hg
          subst hg
          refine ⟨x, cs, rfl, hcut, Nat.le_refl _, by simp only; omega, fun j hj => ?_⟩
          rw [Nat.sub_self, Nat.zero_add, List.getElem?_append_left hj]
      | succ m =>
          rw [List.getElem?_cons_succ] at hg
          obtain ⟨p, es, hp, hes, hfirst, hlast, hget⟩ := ih hg
          refine ⟨p, es, hp, hes, by omega, hlast, fun j hj => ?_⟩
          have hle : cs.length ≤ g.first - pos + j := by omega
          rw [List.getElem?_append_right hle, ← hget j hj]
          congr 1
          omega

theorem Sends.data_le {ps : List (List α)} (h : Sends n ps cs) {ch : Chunk α} (hch : ch ∈ cs) :
    ch.data.length ≤ n := by
  induction h with
  | nil => cases hch
  | cons hcut _ ih =>
      rcases List.mem_append.mp hch with hch | hch
      · exact hcut.data_le hch
      · exact ih hch

/-- A receiver that has seen some of the chunks finds record `m` in group `m` of them:
its length, and each of its items. -/
theorem Sends.record {ps : List (List α)} (hn : 0 < n) (h : Sends n ps cs)
    {seen : List (Chunk α)} (hseen : seen <+: cs) {m : Nat} {g : Span (Chunk α)}
    (hg : (spans Chunk.last seen)[m]? = some g) :
    ∃ p, ps[m]? = some p ∧ p.length = n * (g.last - g.first) + g.item.data.length ∧
      ∀ k a, p[k]? = some a → k / n ≤ g.last - g.first ∧
        ∃ ch, seen[g.first + k / n]? = some ch ∧ ch.data[k % n]? = some a := by
  obtain ⟨-, hfl, hitem, -⟩ := spans_getElem hg
  have hlast : g.last < seen.length := (List.getElem?_eq_some_iff.mp hitem).1
  obtain ⟨more, rfl⟩ := hseen
  obtain ⟨zs, hzs⟩ := spans_append Chunk.last seen more
  have hg' : (spansFrom Chunk.last 0 0 (seen ++ more))[m]? = some g := by
    show (spans Chunk.last (seen ++ more))[m]? = some g
    rw [hzs, List.getElem?_append_left (List.getElem?_eq_some_iff.mp hg).1, hg]
  obtain ⟨p, ds, hp, hcut, -, hlen, hget⟩ := h.group hg'
  have hpos := hcut.length_pos
  -- the chunks of the record have been seen
  have hin : ∀ j, j < ds.length → seen[g.first + j]? = ds[j]? := by
    intro j hj
    have := hget j hj
    rw [Nat.sub_zero] at this
    rw [← this, List.getElem?_append_left (by omega)]
  refine ⟨p, hp, ?_, ?_⟩
  · have hch : ds[ds.length - 1]? = some g.item := by
      rw [← hin _ (by omega), ← hitem]
      congr 1
      omega
    rw [hcut.length_eq hch]
    congr 2
    omega
  · intro k a hk
    obtain ⟨ch, hch, hdata⟩ := hcut.getElem hn hk
    have hlt : k / n < ds.length := (List.getElem?_eq_some_iff.mp hch).1
    exact ⟨by omega, ch, by rw [hin _ hlt, hch], hdata⟩

end Chunks
end Lib
