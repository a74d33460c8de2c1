import Mathlib.Data.List.Basic

/-!
# Groups of a stream that end at marked items

A stream of items, some of them marked, falls into groups: a group starts right
after the previous one and ends at the first marked item from there.  Items after
the last mark belong to a group that is still open.  `spans` lists the closed
groups with the positions of their first and last items, and `openAt` is the
position where the open group starts.

`endOf gs m` is the position right after the first `m` groups, which is where
group `m` starts.
-/

namespace Lib

/-- A closed group: the positions of its first and last items, and the marked
item that ends it. -/
structure Span (α : Type) where
  first : Nat
  last : Nat
  item : α
  deriving DecidableEq, Repr

namespace Spans

variable {α : Type}

/-- The groups of `xs` when `xs` starts at position `pos` and the group open
there started at `first`. -/
def spansFrom (mark : α → Bool) : Nat → Nat → List α → List (Span α)
  | _, _, [] => []
  | first, pos, x :: xs =>
      if mark x then ⟨first, pos, x⟩ :: spansFrom mark (pos + 1) (pos + 1) xs
      else spansFrom mark first (pos + 1) xs

/-- Where the group left open at the end of `xs` starts. -/
def openFrom (mark : α → Bool) : Nat → Nat → List α → Nat
  | first, _, [] => first
  | first, pos, x :: xs =>
      if mark x then openFrom mark (pos + 1) (pos + 1) xs else openFrom mark first (pos + 1) xs

def spans (mark : α → Bool) (xs : List α) : List (Span α) := spansFrom mark 0 0 xs

def openAt (mark : α → Bool) (xs : List α) : Nat := openFrom mark 0 0 xs

variable {mark : α → Bool}

theorem spansFrom_append (first pos : Nat) (xs ys : List α) :
    spansFrom mark first pos (xs ++ ys) =
      spansFrom mark first pos xs ++
        spansFrom mark (openFrom mark first pos xs) (pos + xs.length) ys := by
  induction xs generalizing first pos with
  | nil => simp [spansFrom, openFrom]
  | cons x xs ih =>
      have hpos : pos + 1 + xs.length = pos + (xs.length + 1) := by omega
      by_cases hx : mark x = true
      · simp [spansFrom, openFrom, hx, ih, hpos]
      · simp [spansFrom, openFrom, hx, ih, hpos]

theorem openFrom_append (first pos : Nat) (xs ys : List α) :
    openFrom mark first pos (xs ++ ys) =
      openFrom mark (openFrom mark first pos xs) (pos + xs.length) ys := by
  induction xs generalizing first pos with
  | nil => simp [openFrom]
  | cons x xs ih =>
      have hpos : pos + 1 + xs.length = pos + (xs.length + 1) := by omega
      by_cases hx : mark x = true
      · simp [openFrom, hx, ih, hpos]
      · simp [openFrom, hx, ih, hpos]

theorem spansFrom_unmarked {xs : List α} (h : ∀ x ∈ xs, mark x = false) (first pos : Nat) :
    spansFrom mark first pos xs = [] ∧ openFrom mark first pos xs = first := by
  induction xs generalizing pos with
  | nil => exact ⟨rfl, rfl⟩
  | cons x xs ih =>
      have hx := h x List.mem_cons_self
      simpa [spansFrom, openFrom, hx] using ih (fun y hy => h y (List.mem_cons_of_mem x hy)) (pos + 1)

/-- Appending items can only add groups at the end. -/
theorem spans_append (mark : α → Bool) (xs ys : List α) :
    ∃ zs, spans mark (xs ++ ys) = spans mark xs ++ zs :=
  ⟨_, spansFrom_append 0 0 xs ys⟩

/-- A stretch without marks leaves the groups and the open position alone. -/
theorem spans_append_unmarked (xs : List α) {ys : List α} (h : ∀ y ∈ ys, mark y = false) :
    spans mark (xs ++ ys) = spans mark xs ∧ openAt mark (xs ++ ys) = openAt mark xs := by
  have hu := spansFrom_unmarked h (openAt mark xs) (0 + xs.length)
  constructor
  · rw [spans, spansFrom_append]
    exact (congrArg _ hu.1).trans (List.append_nil _)
  · rw [openAt, openFrom_append]
    exact hu.2

/-- A marked item closes the open group and opens the next one right after. -/
theorem spans_append_marked (xs : List α) {x : α} (hx : mark x = true) :
    spans mark (xs ++ [x]) = spans mark xs ++ [⟨openAt mark xs, xs.length, x⟩] ∧
      openAt mark (xs ++ [x]) = xs.length + 1 := by
  constructor
  · rw [spans, spansFrom_append]
    simp [spansFrom, hx, spans, openAt]
  · rw [openAt, openFrom_append]
    simp [openFrom, hx]

/-- Groups of items that are seen through a function. -/
theorem spansFrom_map {β : Type} (f : β → α) (first pos : Nat) (xs : List β) :
    spansFrom mark first pos (xs.map f) =
      (spansFrom (fun x => mark (f x)) first pos xs).map fun g => ⟨g.first, g.last, f g.item⟩ := by
  induction xs generalizing first pos with
  | nil => rfl
  | cons x xs ih =>
      by_cases hx : mark (f x) = true
      · simp [spansFrom, hx, ih]
      · simp [spansFrom, hx, ih]

/-! ## The shape of the groups -/

/-- The bounds of a group and the items in it. -/
theorem spansFrom_mem {first pos : Nat} (hle : first ≤ pos) {xs : List α} {g : Span α}
    (hg : g ∈ spansFrom mark first pos xs) :
    first ≤ g.first ∧ g.first ≤ g.last ∧ pos ≤ g.last ∧ g.last < pos + xs.length ∧
      xs[g.last - pos]? = some g.item ∧ mark g.item = true ∧
      ∀ k, g.first ≤ k → pos ≤ k → k < g.last → ∀ x, xs[k - pos]? = some x → mark x = false := by
  induction xs generalizing first pos with
  | nil => simp [spansFrom] at hg
  | cons y ys ih =>
      -- shifting the index by one moves from the tail to the whole list
      have shift : ∀ k, pos + 1 ≤ k → (y :: ys)[k - pos]? = ys[k - (pos + 1)]? := by
        intro k hk
        have : k - pos = k - (pos + 1) + 1 := by omega
        rw [this, List.getElem?_cons_succ]
      by_cases hy : mark y = true
      · simp only [spansFrom, hy, if_true, List.mem_cons] at hg
        rcases hg with rfl | hg
        · refine ⟨Nat.le_refl _, hle, Nat.le_refl _, by simp, by simp, hy, ?_⟩
          intro k _ hk hk'
          exact absurd hk' (by simp only; omega)
        · obtain ⟨h1, h2, h3, h4, h5, h6, h7⟩ := ih (Nat.le_refl _) hg
          refine ⟨by omega, h2, by omega, by simp; omega, ?_, h6, ?_⟩
          · rw [shift _ h3]; exact h5
          · intro k hk _ hk' x hx
            rw [shift k (by omega)] at hx
            exact h7 k hk (by omega) hk' x hx
      · simp only [spansFrom, hy, if_false, Bool.false_eq_true] at hg
        obtain ⟨h1, h2, h3, h4, h5, h6, h7⟩ := ih (Nat.le_succ_of_le hle) hg
        refine ⟨h1, h2, by omega, by simp; omega, ?_, h6, ?_⟩
        · rw [shift _ h3]; exact h5
        · intro k hk hpk hk' x hx
          rcases Nat.eq_or_lt_of_le hpk with rfl | hlt
          · simp only [Nat.sub_self, List.getElem?_cons_zero, Option.some.injEq] at hx
            rw [← hx]
            simpa using hy
          · rw [shift k hlt] at hx
            exact h7 k hk hlt hk' x hx

/-- The position right after the first `m` groups. -/
def endOf (gs : List (Span α)) : Nat → Nat
  | 0 => 0
  | m + 1 =>
      match gs[m]? with
      | some g => g.last + 1
      | none => endOf gs m

theorem endOf_succ {gs : List (Span α)} {m : Nat} {g : Span α} (h : gs[m]? = some g) :
    endOf gs (m + 1) = g.last + 1 := by
  simp [endOf, h]

theorem endOf_append {gs hs : List (Span α)} {m : Nat} (hm : m ≤ gs.length) :
    endOf (gs ++ hs) m = endOf gs m := by
  induction m with
  | zero => rfl
  | succ m ih =>
      have hlt : m < gs.length := hm
      rw [endOf_succ (g := gs[m]) (by simp [List.getElem?_append_left hlt]),
        endOf_succ (g := gs[m]) (by simp)]

/-- Consecutive groups touch. -/
theorem spansFrom_getElem {first pos : Nat} {xs : List α} :
    (∀ g, (spansFrom mark first pos xs)[0]? = some g → g.first = first) ∧
    ∀ m g g', (spansFrom mark first pos xs)[m]? = some g →
      (spansFrom mark first pos xs)[m + 1]? = some g' → g'.first = g.last + 1 := by
  induction xs generalizing first pos with
  | nil => simp [spansFrom]
  | cons x xs ih =>
      by_cases hx : mark x = true
      · simp only [spansFrom, hx, if_true]
        refine ⟨?_, ?_⟩
        · intro g hg
          simp only [List.getElem?_cons_zero, Option.some.injEq] at hg
          rw [← hg]
        · intro m g g' hg hg'
          rw [List.getElem?_cons_succ] at hg'
          cases m with
          | zero =>
              simp only [List.getElem?_cons_zero, Option.some.injEq] at hg
              rw [← hg]
              exact (@ih (pos + 1) (pos + 1)).1 g' hg'
          | succ m =>
              rw [List.getElem?_cons_succ] at hg
              exact (@ih (pos + 1) (pos + 1)).2 m g g' hg hg'
      · simpa only [spansFrom, hx, if_false, Bool.false_eq_true] using ih

/-- Group `m` starts where the first `m` groups end. -/
theorem first_eq_endOf {xs : List α} {m : Nat} {g : Span α}
    (hg : (spans mark xs)[m]? = some g) : g.first = endOf (spans mark xs) m := by
  cases m with
  | zero => exact spansFrom_getElem.1 g hg
  | succ m =>
      have hlt : m + 1 < (spans mark xs).length := (List.getElem?_eq_some_iff.mp hg).1
      have hprev : (spans mark xs)[m]? = some (spans mark xs)[m] := by simp
      rw [endOf_succ hprev]
      exact spansFrom_getElem.2 m _ g hprev hg

/-- What a group of the whole stream looks like. -/
theorem spans_getElem {xs : List α} {m : Nat} {g : Span α} (hg : (spans mark xs)[m]? = some g) :
    g.first = endOf (spans mark xs) m ∧ g.first ≤ g.last ∧ xs[g.last]? = some g.item ∧
      mark g.item = true ∧ ∀ k, g.first ≤ k → k < g.last → ∀ x, xs[k]? = some x → mark x = false := by
  obtain ⟨-, h2, -, -, h5, h6, h7⟩ :=
    spansFrom_mem (Nat.le_refl 0) (List.mem_of_getElem? hg)
  refine ⟨first_eq_endOf hg, h2, by simpa using h5, h6, ?_⟩
  intro k hk hk' x hx
  exact h7 k hk (Nat.zero_le k) hk' x (by simpa using hx)

/-- Each group takes at least one position, so the ends grow strictly. -/
theorem endOf_lt_succ {xs : List α} {m : Nat} (hm : m < (spans mark xs).length) :
    endOf (spans mark xs) m < endOf (spans mark xs) (m + 1) := by
  have hg : (spans mark xs)[m]? = some (spans mark xs)[m] := by simp
  obtain ⟨h1, h2, -⟩ := spans_getElem hg
  rw [endOf_succ hg, ← h1]
  omega

/-- `j` groups take at least `j` positions. -/
theorem endOf_add_le (mark : α → Bool) (xs : List α) (m j : Nat)
    (h : m + j ≤ (spans mark xs).length) :
    endOf (spans mark xs) m + j ≤ endOf (spans mark xs) (m + j) := by
  induction j with
  | zero => simp
  | succ j ih =>
      have := ih (by omega)
      have := @endOf_lt_succ _ mark xs (m + j) (by omega)
      rw [show m + (j + 1) = m + j + 1 from rfl]
      omega

theorem endOf_mono (mark : α → Bool) (xs : List α) {m m' : Nat} (h : m ≤ m')
    (h' : m' ≤ (spans mark xs).length) :
    endOf (spans mark xs) m ≤ endOf (spans mark xs) m' := by
  have := endOf_add_le mark xs m (m' - m) (by omega)
  rw [Nat.add_sub_cancel' h] at this
  omega

end Spans
end Lib
