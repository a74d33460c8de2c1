import WzXdma.Lib.Spans

/-!
# Reporting the groups of a growing stream by restartable scans

A producer appends items to a stream, some of them marked.  Scans walk over the
stream from where the last one stopped, report every group they see close, and
may give up at any item.  A consumer takes the reported groups in order and
releases the positions of the groups it has taken.

Positions here never wrap and items are never overwritten, so this machine says
what such a scan is for.  `Inv` ties the two cursors to the groups of the stream,
and `Step.inv` shows that every move keeps it: what has been reported is at every
moment exactly the groups that close before the assembly cursor, and when a scan
meets the end of the stream these are all groups of the stream.
-/

namespace Lib

open Spans

/-- The state of the stream, of the scan and of the consumer.

`first` is where the group being assembled starts and `scanned` where the next
scan begins.  `check` is the position of the scan in progress. -/
structure Tape (α : Type) where
  items : List α
  released : Nat
  first : Nat
  scanned : Nat
  check : Option Nat
  put : List (Span α)
  taken : Nat

namespace Tape

variable {α : Type}

def start : Tape α :=
  { items := [], released := 0, first := 0, scanned := 0, check := none, put := [], taken := 0 }

/-- The moves of the producer, of the scan and of the consumer. -/
inductive Step (mark : α → Bool) : Tape α → Tape α → Prop
  | complete {t : Tape α} (x : α) : Step mark t { t with items := t.items ++ [x] }
  | release {t : Tape α} (h : t.released < endOf t.put t.taken) :
      Step mark t { t with released := t.released + 1 }
  | begin {t : Tape α} (h : t.check = none) : Step mark t { t with check := some t.scanned }
  | pass {t : Tape α} {k : Nat} {x : α} (h : t.check = some k) (hx : t.items[k]? = some x)
      (hm : mark x = false) : Step mark t { t with check := some (k + 1) }
  | report {t : Tape α} {k : Nat} {x : α} (h : t.check = some k) (hx : t.items[k]? = some x)
      (hm : mark x = true) :
      Step mark t { t with put := t.put ++ [⟨t.first, k, x⟩], first := k + 1, scanned := k + 1,
                           check := some (k + 1) }
  | finish {t : Tape α} (h : t.check = some t.items.length) :
      Step mark t { t with scanned := t.items.length, check := none }
  | stall {t : Tape α} {k : Nat} (h : t.check = some k) : Step mark t { t with check := none }
  | take {t : Tape α} (h : t.taken < t.put.length) : Step mark t { t with taken := t.taken + 1 }

/-- No item from the assembly cursor up to position `k` is marked, and `k` is
inside the stream. -/
def Clear (mark : α → Bool) (t : Tape α) (k : Nat) : Prop :=
  t.first ≤ k ∧ k ≤ t.items.length ∧ ∀ j, t.first ≤ j → j < k → ∀ x, t.items[j]? = some x → mark x = false

/-- The cursors agree with the groups of the stream. -/
structure Inv (mark : α → Bool) (t : Tape α) : Prop where
  put_eq : t.put = spans mark (t.items.take t.first)
  open_eq : openAt mark (t.items.take t.first) = t.first
  taken_le : t.taken ≤ t.put.length
  released_le : t.released ≤ endOf t.put t.taken
  ends : endOf t.put t.put.length = t.first
  scanned_clear : Clear mark t t.scanned
  check_clear : ∀ k, t.check = some k → Clear mark t k

variable {mark : α → Bool} {t t' : Tape α}

theorem start_inv : Inv mark (start : Tape α) := by
  refine ⟨rfl, rfl, Nat.le_refl _, Nat.le_refl _, rfl, ?_, ?_⟩
  · exact ⟨Nat.le_refl _, Nat.le_refl _, fun j hj hj' => absurd hj' (Nat.not_lt_zero j)⟩
  · intro k hk
    cases hk

theorem Inv.first_le (h : Inv mark t) : t.first ≤ t.items.length :=
  Nat.le_trans h.scanned_clear.1 h.scanned_clear.2.1

/-- The groups of the stream begin with the reported ones. -/
theorem Inv.put_prefix (h : Inv mark t) : t.put <+: spans mark t.items := by
  obtain ⟨zs, hzs⟩ := spans_append mark (t.items.take t.first) (t.items.drop t.first)
  rw [List.take_append_drop] at hzs
  rw [h.put_eq, hzs]
  exact ⟨zs, rfl⟩

/-- When no mark is left between the assembly cursor and the end of the stream,
everything has been reported. -/
theorem Inv.put_all (h : Inv mark t) (hc : Clear mark t t.items.length) :
    t.put = spans mark t.items := by
  have hdrop : ∀ y ∈ t.items.drop t.first, mark y = false := by
    intro y hy
    obtain ⟨j, hj, rfl⟩ := List.mem_iff_getElem.mp hy
    rw [List.length_drop] at hj
    refine hc.2.2 (t.first + j) (by omega) (by omega) _ ?_
    rw [List.getElem_drop, List.getElem?_eq_getElem (by omega)]
  have := (spans_append_unmarked (t.items.take t.first) hdrop).1
  rw [List.take_append_drop] at this
  rw [h.put_eq, this]

/-- The groups that are reported and not yet taken fit between the positions the
taken ones end at and the assembly cursor. -/
theorem Inv.untaken_le (h : Inv mark t) :
    endOf t.put t.taken + (t.put.length - t.taken) ≤ t.first := by
  have hle := h.taken_le
  have hsum := endOf_add_le mark (t.items.take t.first) t.taken (t.put.length - t.taken)
    (by rw [← h.put_eq]; omega)
  rw [← h.put_eq, Nat.add_sub_cancel' hle, h.ends] at hsum
  exact hsum

theorem Inv.taken_end_le (h : Inv mark t) : endOf t.put t.taken ≤ t.first := by
  have := h.untaken_le
  omega

/-- The next group in line, with its place in the stream. -/
theorem Inv.group (h : Inv mark t) {m : Nat} {g : Span α} (hg : t.put[m]? = some g) :
    g.first = endOf t.put m ∧ g.first ≤ g.last ∧ g.last < t.first ∧
      t.items[g.last]? = some g.item ∧ mark g.item = true ∧
      ∀ k, g.first ≤ k → k < g.last → ∀ x, t.items[k]? = some x → mark x = false := by
  have hg' : (spans mark (t.items.take t.first))[m]? = some g := h.put_eq ▸ hg
  obtain ⟨h1, h2, h3, h4, h5⟩ := spans_getElem hg'
  have hlast : g.last < t.first := by
    have := (List.getElem?_eq_some_iff.mp h3).1
    rw [List.length_take] at this
    omega
  refine ⟨h.put_eq ▸ h1, h2, hlast, ?_, h4, ?_⟩
  · rw [← List.getElem?_take_of_lt hlast]
    exact h3
  · intro k hk hk' x hx
    refine h5 k hk hk' x ?_
    rw [List.getElem?_take_of_lt (by omega)]
    exact hx

/-- When every item that is reported and not taken is marked, each of them is a group
of its own. -/
theorem Inv.le_untaken (h : Inv mark t)
    (hall : ∀ k x, endOf t.put t.taken ≤ k → k < t.first → t.items[k]? = some x → mark x = true) :
    t.first ≤ endOf t.put t.taken + (t.put.length - t.taken) := by
  have hle := h.taken_le
  have hstep : ∀ j, t.taken + j ≤ t.put.length →
      endOf t.put (t.taken + j) = endOf t.put t.taken + j := by
    intro j
    induction j with
    | zero => simp
    | succ j ih =>
        intro hj
        have hg : t.put[t.taken + j]? = some t.put[t.taken + j] := List.getElem?_eq_getElem (by omega)
        obtain ⟨hfirst, hfl, hlast, -, -, hclear⟩ := h.group hg
        have hend := ih (by omega)
        rw [show t.taken + (j + 1) = t.taken + j + 1 from rfl, endOf_succ hg]
        by_contra hne
        -- a longer group begins with an item that is not marked
        have hlen := h.first_le
        have hlt : (t.put[t.taken + j]).first < t.items.length := by omega
        have hx := List.getElem?_eq_getElem hlt
        have hm := hall _ _ (by omega) (by omega) hx
        rw [hclear _ (Nat.le_refl _) (by omega) _ hx] at hm
        cases hm
  have := hstep (t.put.length - t.taken) (by omega)
  rw [Nat.add_sub_cancel' hle, h.ends] at this
  omega

/-- When there are as many groups as positions, every position is a group. -/
theorem Inv.marked_of_untaken (h : Inv mark t)
    (hmany : t.first ≤ endOf t.put t.taken + (t.put.length - t.taken)) {k : Nat} {x : α}
    (hk : endOf t.put t.taken ≤ k) (hk' : k < t.first) (hx : t.items[k]? = some x) :
    mark x = true := by
  have hle := h.taken_le
  obtain ⟨j, rfl⟩ : ∃ j, k = endOf t.put t.taken + j := ⟨k - endOf t.put t.taken, by omega⟩
  have hbetween : ∀ i, t.taken + i ≤ t.put.length →
      endOf t.put t.taken + i ≤ endOf t.put (t.taken + i) ∧
        endOf t.put (t.taken + i) + (t.put.length - (t.taken + i)) ≤ t.first := by
    intro i hi
    have h1 := endOf_add_le mark (t.items.take t.first) (t.taken) (i)
      (by rw [← h.put_eq]; exact hi)
    have h2 := endOf_add_le mark (t.items.take t.first) (t.taken + i) (t.put.length - (t.taken + i))
      (by rw [← h.put_eq]; omega)
    rw [← h.put_eq] at h1 h2
    rw [Nat.add_sub_cancel' hi, h.ends] at h2
    exact ⟨h1, h2⟩
  have huntaken := h.untaken_le
  have hj : t.taken + j < t.put.length := by omega
  have hg : t.put[t.taken + j]? = some t.put[t.taken + j] := List.getElem?_eq_getElem hj
  obtain ⟨hfirst, -, -, hitem, hmark, -⟩ := h.group hg
  have hend := endOf_succ hg
  have hb := hbetween j (by omega)
  have hb' := hbetween (j + 1) (by omega)
  rw [show t.taken + (j + 1) = t.taken + j + 1 from rfl, hend] at hb'
  have hlast : (t.put[t.taken + j]).last = endOf t.put t.taken + j := by omega
  rw [hlast, hx] at hitem
  exact Option.some.inj hitem ▸ hmark

/-- Growing the stream keeps a clear stretch clear. -/
theorem Clear.complete {k : Nat} (h : Clear mark t k) (x : α) :
    Clear mark { t with items := t.items ++ [x] } k := by
  refine ⟨h.1, by simp; exact Nat.le_succ_of_le h.2.1, ?_⟩
  intro j hj hj' y hy
  refine h.2.2 j hj hj' y ?_
  have hlt : j < t.items.length := Nat.lt_of_lt_of_le hj' h.2.1
  simpa [List.getElem?_append_left hlt] using hy

/-- A clear stretch followed by an unmarked item is clear. -/
theorem Clear.pass {k : Nat} {x : α} (h : Clear mark t k) (hx : t.items[k]? = some x)
    (hm : mark x = false) : Clear mark t (k + 1) := by
  have hlt : k < t.items.length := (List.getElem?_eq_some_iff.mp hx).1
  refine ⟨by have := h.1; omega, hlt, ?_⟩
  intro j hj hj' y hy
  rcases Nat.eq_or_lt_of_le (Nat.le_of_lt_succ hj') with rfl | hjk
  · rw [hx] at hy
    exact Option.some.inj hy ▸ hm
  · exact h.2.2 j hj hjk y hy

/-- Right at the assembly cursor there is nothing to be clear of. -/
theorem clear_first (h : t.first ≤ t.items.length) : Clear mark t t.first :=
  ⟨Nat.le_refl _, h, fun j hj hj' => absurd hj' (by omega)⟩

/-- Closing the group at a marked item after a clear stretch. -/
theorem spans_take_report {k : Nat} {x : α} (hi : Inv mark t) (hc : Clear mark t k)
    (hx : t.items[k]? = some x) (hm : mark x = true) :
    spans mark (t.items.take (k + 1)) = t.put ++ [⟨t.first, k, x⟩] ∧
      openAt mark (t.items.take (k + 1)) = k + 1 := by
  have hlt : k < t.items.length := (List.getElem?_eq_some_iff.mp hx).1
  have hfk := hc.1
  -- the stream up to `k` is the reported part followed by the clear stretch
  have hsplit : t.items.take k = t.items.take t.first ++ (t.items.take k).drop t.first := by
    conv_lhs => rw [← List.take_append_drop t.first (t.items.take k)]
    rw [List.take_take, Nat.min_eq_left hfk]
  have hclear : ∀ y ∈ (t.items.take k).drop t.first, mark y = false := by
    intro y hy
    obtain ⟨j, hj, rfl⟩ := List.mem_iff_getElem.mp hy
    rw [List.length_drop, List.length_take] at hj
    refine hc.2.2 (t.first + j) (by omega) (by omega) _ ?_
    rw [List.getElem_drop, List.getElem_take, List.getElem?_eq_getElem (by omega)]
  have hun := spans_append_unmarked (t.items.take t.first) hclear
  rw [← hsplit, ← hi.put_eq, hi.open_eq] at hun
  have hlast : t.items.take (k + 1) = t.items.take k ++ [x] := by
    rw [List.take_add_one, hx, Option.toList_some]
  have hlen : (t.items.take k).length = k := by simp; omega
  have hma := spans_append_marked (t.items.take k) hm
  rw [← hlast, hun.1, hun.2, hlen] at hma
  exact hma

theorem Step.inv (h : Step mark t t') (hi : Inv mark t) : Inv mark t' := by
  cases h with
  | complete x =>
      have htake : (t.items ++ [x]).take t.first = t.items.take t.first :=
        List.take_append_of_le_length hi.first_le
      refine ⟨?_, ?_, hi.taken_le, hi.released_le, hi.ends, hi.scanned_clear.complete x, ?_⟩
      · simpa only [htake] using hi.put_eq
      · simpa only [htake] using hi.open_eq
      · exact fun k hk => (hi.check_clear k hk).complete x
  | release hr => exact ⟨hi.put_eq, hi.open_eq, hi.taken_le, hr, hi.ends, hi.scanned_clear, hi.check_clear⟩
  | begin hn =>
      refine ⟨hi.put_eq, hi.open_eq, hi.taken_le, hi.released_le, hi.ends, hi.scanned_clear, ?_⟩
      intro k hk
      cases hk
      exact hi.scanned_clear
  | pass hk hx hm =>
      refine ⟨hi.put_eq, hi.open_eq, hi.taken_le, hi.released_le, hi.ends, hi.scanned_clear, ?_⟩
      intro j hj
      cases hj
      exact (hi.check_clear _ hk).pass hx hm
  | @report k x hk hx hm =>
      have hc := hi.check_clear k hk
      obtain ⟨hput, hopen⟩ := spans_take_report hi hc hx hm
      have hlt : k < t.items.length := (List.getElem?_eq_some_iff.mp hx).1
      have htaken := hi.taken_le
      refine ⟨hput.symm, hopen, by simp; omega, ?_, ?_, clear_first hlt, ?_⟩
      · simp only [endOf_append htaken]
        exact hi.released_le
      · simp [endOf]
      · intro j hj
        cases hj
        exact clear_first hlt
  | finish hk =>
      refine ⟨hi.put_eq, hi.open_eq, hi.taken_le, hi.released_le, hi.ends, hi.check_clear _ hk, ?_⟩
      intro k hn
      cases hn
  | stall hk =>
      refine ⟨hi.put_eq, hi.open_eq, hi.taken_le, hi.released_le, hi.ends, hi.scanned_clear, ?_⟩
      intro k hn
      cases hn
  | take ht =>
      refine ⟨hi.put_eq, hi.open_eq, ht, ?_, hi.ends, hi.scanned_clear, hi.check_clear⟩
      have hmono := endOf_mono mark (t.items.take t.first)
        (Nat.le_succ t.taken) (by rw [← hi.put_eq]; exact ht)
      rw [← hi.put_eq] at hmono
      exact Nat.le_trans hi.released_le hmono

end Tape
end Lib
