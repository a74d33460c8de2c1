import Mathlib.Data.Finset.Image
import Mathlib.Order.Interval.Finset.Nat

/-!
# An interval on pages

The positions from `a` up to `b` lie on pages of `size` positions each.  A page holds a part of
them, and the parts of the touched pages, one after the other, are the interval.
-/

namespace Lib
namespace Paging

variable {size a b p : Nat}

/-- The pages of the positions from `a` up to `b`. -/
def touched (size a b : Nat) : Finset Nat := (Finset.Ico a b).image (· / size)

theorem touched_eq (hsize : 0 < size) (hab : a < b) :
    touched size a b = Finset.Icc (a / size) ((b - 1) / size) := by
  ext p
  rw [touched, Finset.mem_image, Finset.mem_Icc]
  constructor
  · rintro ⟨x, hx, rfl⟩
    rw [Finset.mem_Ico] at hx
    exact ⟨Nat.div_le_div_right hx.1, Nat.div_le_div_right (Nat.le_sub_one_of_lt hx.2)⟩
  · rintro ⟨hfirst, hlast⟩
    -- the first position of the interval on this page
    refine ⟨max a (p * size), ?_, ?_⟩
    · have hlt := (Nat.le_div_iff_mul_le hsize).mp hlast
      rw [Finset.mem_Ico]
      omega
    · rcases Nat.le_total a (p * size) with hle | hle
      · rw [Nat.max_eq_right hle, Nat.mul_div_cancel _ hsize]
      · rw [Nat.max_eq_left hle]
        exact Nat.le_antisymm hfirst ((Nat.le_div_iff_mul_le hsize).mpr hle)

theorem card_touched (hsize : 0 < size) (hab : a < b) :
    (touched size a b).card = (b - 1) / size - a / size + 1 := by
  have hle : a / size ≤ (b - 1) / size := Nat.div_le_div_right (Nat.le_sub_one_of_lt hab)
  rw [touched_eq hsize hab, Nat.card_Icc]
  omega

/-- An interval of `len` positions may begin and end in the middle of a page. -/
theorem card_touched_le (hsize : 0 < size) {len : Nat} (hlen : a < a + len) :
    (touched size a (a + len)).card ≤ len / size + 2 := by
  have hlast : (a + len - 1) / size ≤ (a + len) / size := Nat.div_le_div_right (Nat.sub_le _ _)
  have hsum : (a + len) / size ≤ a / size + len / size + 1 := by
    rw [Nat.add_div hsize]
    split <;> omega
  rw [card_touched hsize hlen]
  exact Nat.succ_le_succ (Nat.sub_le_iff_le_add'.mpr (Nat.le_trans hlast hsum))

/-- Where the part on page `p` starts. -/
def partStart (size a p : Nat) : Nat := max a (p * size)

/-- Its length. -/
def partLen (size a b p : Nat) : Nat := min b ((p + 1) * size) - partStart size a p

/-- An interval that is cut at `m`. -/
theorem range'_cut (a b m c : Nat) (hmc : m ≤ c) :
    List.range' a (min b m - a) ++ List.range' (max a m) (min b c - max a m) =
      List.range' a (min b c - a) := by
  rcases Nat.le_total m a with hle | hle
  · rw [Nat.max_eq_left hle, show min b m - a = 0 by omega]
    rfl
  · rw [Nat.max_eq_right hle]
    rcases Nat.le_total b m with hb | hb
    · rw [Nat.min_eq_left hb, Nat.min_eq_left (Nat.le_trans hb hmc), Nat.sub_eq_zero_of_le hb]
      exact List.append_nil _
    · have hjoin := @List.range'_append_1 a (m - a) (min b c - m)
      rw [Nat.add_sub_cancel' hle] at hjoin
      rw [Nat.min_eq_right hb, hjoin, show m - a + (min b c - m) = min b c - a by omega]

/-- The parts on the first `n` pages. -/
theorem flatMap_parts (size a b n : Nat) :
    (List.range n).flatMap (fun i => List.range' (partStart size a (a / size + i))
      (partLen size a b (a / size + i))) =
      List.range' a (min b ((a / size + n) * size) - a) := by
  induction n with
  | zero =>
      have hle := Nat.div_mul_le_self a size
      rw [Nat.add_zero, Nat.sub_eq_zero_of_le (Nat.le_trans (Nat.min_le_right _ _) hle)]
      rfl
  | succ n ih =>
      rw [List.range_succ, List.flatMap_append, ih, List.flatMap_singleton, partLen, partStart,
        ← Nat.add_assoc]
      exact range'_cut a b _ _ (Nat.mul_le_mul_right size (Nat.le_succ _))

/-- The parts on all touched pages are the interval. -/
theorem flatMap_touched (hsize : 0 < size) (hab : a < b) :
    (List.range (touched size a b).card).flatMap (fun i =>
      List.range' (partStart size a (a / size + i)) (partLen size a b (a / size + i))) =
      List.range' a (b - a) := by
  have hle : a / size ≤ (b - 1) / size := Nat.div_le_div_right (Nat.le_sub_one_of_lt hab)
  have hend := Nat.lt_mul_div_succ (b - 1) hsize
  rw [flatMap_parts, card_touched hsize hab,
    show a / size + ((b - 1) / size - a / size + 1) = (b - 1) / size + 1 by omega,
    Nat.mul_comm, Nat.min_eq_left (by omega)]

/-! ## The part on a page -/

/-- A touched page holds at least one position, and no more than there is room for. -/
theorem part_bounds (hsize : 0 < size) (hab : a < b) (hfirst : a / size ≤ p)
    (hlast : p ≤ (b - 1) / size) :
    0 < partLen size a b p ∧ p * size ≤ partStart size a p ∧
      partStart size a p - p * size + partLen size a b p ≤ size := by
  have hstart := (Nat.le_div_iff_mul_le hsize).mp hlast
  have hend : a < (p + 1) * size := (Nat.div_lt_iff_lt_mul hsize).mp (Nat.lt_succ_of_le hfirst)
  rw [Nat.succ_mul] at hend
  rw [partLen, partStart, Nat.succ_mul]
  omega

/-- Where the part starts on its page. -/
theorem partStart_sub (hsize : 0 < size) (hfirst : a / size ≤ p) :
    partStart size a p - p * size = if p = a / size then a % size else 0 := by
  have hsplit := Nat.div_add_mod' a size
  rw [partStart]
  split
  · rename_i hp
    rw [hp]
    omega
  · rename_i hp
    have hlt : a < p * size := (Nat.div_lt_iff_lt_mul hsize).mp (by omega)
    omega

/-- The positions of a part by page and place on the page. -/
theorem part_place {k : Nat} (hp : p * size ≤ partStart size a p)
    (hk : partStart size a p - p * size + k < size) :
    (partStart size a p + k) / size = p ∧
      (partStart size a p + k) % size = partStart size a p - p * size + k := by
  have hsplit : partStart size a p + k = partStart size a p - p * size + k + p * size := by omega
  rw [hsplit, Nat.add_mul_div_right _ _ (by omega), Nat.div_eq_of_lt hk, Nat.add_mul_mod_self_right,
    Nat.mod_eq_of_lt hk]
  exact ⟨Nat.zero_add p, rfl⟩

/-! ## All parts -/

/-- Where the pages of the interval from `a` up to `b` end, of which it touches `n`. -/
structure OnPages (size a b n : Nat) : Prop where
  more : 0 < n
  first : a < (a / size + 1) * size
  last : (a / size + (n - 1)) * size < b
  fits : b ≤ (a / size + n) * size

namespace OnPages

variable {n i : Nat}

theorem of_touched (hsize : 0 < size) (hab : a < b) : OnPages size a b (touched size a b).card := by
  have hle : a / size ≤ (b - 1) / size := Nat.div_le_div_right (Nat.le_sub_one_of_lt hab)
  have hlast := Nat.div_mul_le_self (b - 1) size
  have hend := Nat.lt_mul_div_succ (b - 1) hsize
  rw [card_touched hsize hab]
  refine ⟨Nat.succ_pos _, ?_, ?_, ?_⟩
  · rw [Nat.mul_comm]
    exact Nat.lt_mul_div_succ a hsize
  · rw [show a / size + ((b - 1) / size - a / size + 1 - 1) = (b - 1) / size by omega]
    omega
  · rw [show a / size + ((b - 1) / size - a / size + 1) = (b - 1) / size + 1 by omega, Nat.mul_comm]
    omega

/-- A page behind the first one is used from its start. -/
theorem partStart_eq (h : OnPages size a b n) (hi : 0 < i) :
    partStart size a (a / size + i) = (a / size + i) * size := by
  have hle := Nat.mul_le_mul_right size (show a / size + 1 ≤ a / size + i by omega)
  exact Nat.max_eq_right (Nat.le_trans (Nat.le_of_lt h.first) hle)

theorem more_pages (h : OnPages size a b n) (hi : i + 1 < n) : (a / size + i + 1) * size < b :=
  Nat.lt_of_le_of_lt
    (Nat.mul_le_mul_right size (show a / size + i + 1 ≤ a / size + (n - 1) by omega)) h.last

/-- A page before the last one is used up to its end. -/
theorem partLen_eq (h : OnPages size a b n) (hi : i + 1 < n) :
    partLen size a b (a / size + i) = (a / size + i + 1) * size - partStart size a (a / size + i) := by
  rw [partLen, Nat.min_eq_right (Nat.le_of_lt (h.more_pages hi))]

theorem partLen_last (h : OnPages size a b n) (hi : i + 1 = n) :
    partLen size a b (a / size + i) = b - partStart size a (a / size + i) := by
  have hfits := h.fits
  rw [← hi, ← Nat.add_assoc] at hfits
  rw [partLen, Nat.min_eq_left hfits]

theorem bounds (h : OnPages size a b n) (hsize : 0 < size) (hab : a < b) (hi : i < n) :
    0 < partLen size a b (a / size + i) ∧
      (a / size + i) * size ≤ partStart size a (a / size + i) ∧
      partStart size a (a / size + i) - (a / size + i) * size + partLen size a b (a / size + i) ≤
        size := by
  have hlast := (Nat.le_div_iff_mul_le hsize).mpr (Nat.le_sub_one_of_lt h.last)
  exact part_bounds hsize hab (Nat.le_add_right _ _) (by omega)

/-- A part ends where the next one starts. -/
theorem part_next (h : OnPages size a b n) (hi : i + 1 < n) :
    partStart size a (a / size + i) + partLen size a b (a / size + i) =
      partStart size a (a / size + (i + 1)) := by
  have hle : partStart size a (a / size + i) ≤ (a / size + i + 1) * size :=
    Nat.max_le.mpr ⟨Nat.le_trans (Nat.le_of_lt h.first)
      (Nat.mul_le_mul_right size (by omega)), Nat.mul_le_mul_right size (Nat.le_succ _)⟩
  rw [h.partLen_eq hi, h.partStart_eq (Nat.succ_pos i), Nat.add_sub_cancel' hle, Nat.add_assoc]

/-- What is left of the interval behind a part. -/
theorem part_left (h : OnPages size a b n) (hi : i + 1 < n) :
    b - partStart size a (a / size + i) =
      partLen size a b (a / size + i) + (b - partStart size a (a / size + (i + 1))) := by
  have hnext := h.part_next hi
  have hmore := h.more_pages hi
  have hstart : partStart size a (a / size + (i + 1)) = (a / size + i + 1) * size :=
    h.partStart_eq (Nat.succ_pos i)
  rw [hstart] at hnext ⊢
  omega

end OnPages

end Paging
end Lib
