import WzXdma.Kernel
import WzXdma.Lib.Paging
import WzXdma.Lib.Runs
import Mathlib.Data.BitVec

/-!
# Scatterlists of user buffers

`xdma-sgm.c` pins the pages of a buffer and lists the piece of the buffer that lies on each
of them.  A page is named by the number of the virtual page it is mapped at, so that the
list says which bytes of the buffer an entry stands for.
-/

namespace WzXdma

open Lib Lib.Paging Lib.Runs

/-- `struct scatterlist` as `sg_set_page` leaves it. -/
structure Scatterlist where
  page : Nat
  offset : Nat
  length : Nat
  deriving DecidableEq, Repr

/-- `max_pages` of the mapper that `sg_create_mapper` creates for `maxLen` bytes. -/
def sgCreateMapper (maxLen : Nat) : Nat := maxLen / pageSize + 2

/-- The entries after the first one: `todo` full pages from `page` on, and the last page
with what is left of `count`. -/
def sgmFill : Nat → Nat → Nat → Except Crash (List Scatterlist)
  | 0, page, count => if pageSize < count then .error .bugOn else .ok [⟨page, 0, count⟩]
  | todo + 1, page, count =>
      if count < pageSize then .error .bugOn
      else
        match sgmFill todo (page + 1) (count - pageSize) with
        | .error e => .error e
        | .ok rest => .ok (⟨page, 0, pageSize⟩ :: rest)

/-- The table for the `count` bytes from `start` on, and the value returned.  `got` says
whether all pages were obtained.  Addresses have 64 bits. -/
def sgmPages (maxPages start count : Nat) (got : Bool) : Except Crash (Int × List Scatterlist) :=
  let first := start / pageSize
  let last := (start + count - 1) % 2 ^ 64 / pageSize
  let nrPages := last - first + 1
  if (start + count) % 2 ^ 64 < start then .ok (-einval, [])
  else if maxPages < nrPages then .ok (-einval, [])
  else if count = 0 then .ok (0, [])
  else if got = false then .ok (-enomem, [])
  else
    let offset := start % pageSize
    if 1 < nrPages then
      match sgmFill (nrPages - 2) (first + 1) (count - (pageSize - offset)) with
      | .error e => .error e
      | .ok rest => .ok (nrPages, ⟨first, offset, pageSize - offset⟩ :: rest)
    else .ok (nrPages, [⟨first, offset, count⟩])

/-- `sgm_get_user_pages`; `got` is the success of `get_user_pages_fast`. -/
def sgmGetUserPages (maxPages start count : Nat) (got : Bool) :
    Except Crash (Int × List Scatterlist) :=
  sgmPages maxPages start count got

/-- `sgm_kernel_pages`; `got` says that `vmalloc_to_page` knew all pages. -/
def sgmKernelPages (maxPages start count : Nat) (got : Bool) :
    Except Crash (Int × List Scatterlist) :=
  sgmPages maxPages start count got

/-- `pci_map_sg` with one bus range for each entry.  `dma` is the bus address of a page. -/
def pciMapSg (dma : Nat → DmaAddr) (sgl : List Scatterlist) : List (Seg DmaAddr) :=
  sgl.map fun e => ⟨dma e.page + BitVec.ofNat 64 e.offset, e.length⟩

/-- The bus address of the byte at a virtual address. -/
def dmaByte (dma : Nat → DmaAddr) (addr : Nat) : DmaAddr :=
  dma (addr / pageSize) + BitVec.ofNat 64 (addr % pageSize)

/-! ## The table describes the buffer -/

variable {dma : Nat → DmaAddr}

/-- Within a page the bus addresses are consecutive. -/
theorem runsOn_dmaByte {start len : Nat} (h : start % pageSize + len ≤ pageSize) :
    RunsOn (dmaByte dma) start (dma (start / pageSize) + BitVec.ofNat 64 (start % pageSize)) len := by
  intro k hk
  have hpos : 0 < pageSize := Nat.two_pow_pos _
  have hdiv : (start + k) / pageSize = start / pageSize := by
    have hk' : start % pageSize + k < pageSize := by omega
    have hsum : start + k = start % pageSize + k + pageSize * (start / pageSize) := by
      have := Nat.mod_add_div start pageSize
      omega
    rw [hsum, Nat.add_mul_div_left _ _ hpos, Nat.div_eq_of_lt hk', Nat.zero_add]
  have hmod : (start + k) % pageSize = start % pageSize + k := by
    have h1 := Nat.mod_add_div start pageSize
    have h2 := Nat.mod_add_div (start + k) pageSize
    rw [hdiv] at h2
    omega
  unfold dmaByte
  rw [hdiv, hmod, BitVec.ofNat_add, add_assoc]
  rfl

/-- What `transfer_build` needs of a table: it covers the buffer, and no entry is longer than
a page. -/
structure Describes (dma : Nat → DmaAddr) (start count : Nat) (sgl : List Scatterlist) : Prop where
  covers : Covers (dmaByte dma) start (pciMapSg dma sgl)
  total : total (pciMapSg dma sgl) = count
  short : ∀ e ∈ sgl, e.length ≤ pageSize

/-- The mapped entries are no longer than a page. -/
theorem Describes.short_mapped {start count : Nat} {sgl : List Scatterlist}
    (h : Describes dma start count sgl) : ∀ s ∈ pciMapSg dma sgl, s.len ≤ pageSize := by
  intro s hs
  obtain ⟨e, he, rfl⟩ := List.mem_map.mp hs
  exact h.short e he

theorem Describes.cons {start count : Nat} {e : Scatterlist} {sgl : List Scatterlist}
    (hrun : RunsOn (dmaByte dma) start (dma e.page + BitVec.ofNat 64 e.offset) e.length)
    (hshort : e.length ≤ pageSize) (h : Describes dma (start + e.length) count sgl) :
    Describes dma start (e.length + count) (e :: sgl) := by
  refine ⟨⟨hrun, h.covers⟩, congrArg (e.length + ·) h.total, fun e' he' => ?_⟩
  rcases List.mem_cons.mp he' with rfl | he'
  · exact hshort
  · exact h.short e' he'

theorem Describes.single {start : Nat} {e : Scatterlist}
    (hrun : RunsOn (dmaByte dma) start (dma e.page + BitVec.ofNat 64 e.offset) e.length)
    (hshort : e.length ≤ pageSize) : Describes dma start e.length [e] := by
  refine ⟨⟨hrun, trivial⟩, Nat.add_zero _, fun e' he' => ?_⟩
  rw [List.mem_singleton.mp he']
  exact hshort

/-! ### The parts of the pages -/

/-- The part of the buffer from `a` up to `b` that lies on page `p`. -/
def pagePart (a b p : Nat) : Scatterlist :=
  ⟨p, partStart pageSize a p - p * pageSize, partLen pageSize a b p⟩

/-- The last `todo + 1` pages. -/
theorem sgmFill_eq {a b n : Nat} (hon : OnPages pageSize a b n) (todo : Nat) :
    ∀ i, 0 < i → i + todo + 1 = n →
      sgmFill todo (a / pageSize + i) (b - (a / pageSize + i) * pageSize) =
        .ok ((List.range' i (todo + 1)).map fun j => pagePart a b (a / pageSize + j)) := by
  induction todo with
  | zero =>
      intro i hi hn
      have hstart := hon.partStart_eq hi
      have hlen := hon.partLen_last hn
      have hfits := hon.fits
      rw [← hn, Nat.add_zero, ← Nat.add_assoc, Nat.succ_mul] at hfits
      rw [sgmFill, if_neg (by omega), List.range'_one, List.map_singleton, pagePart, hlen, hstart,
        Nat.sub_self]
  | succ todo ih =>
      intro i hi hn
      have hstart := hon.partStart_eq hi
      have hlen := hon.partLen_eq (show i + 1 < n by omega)
      have hmore := hon.more_pages (show i + 1 < n by omega)
      have hnext := ih (i + 1) (Nat.succ_pos i) (by omega)
      rw [hstart] at hlen
      rw [Nat.succ_mul] at hmore hlen
      rw [Nat.add_sub_cancel_left] at hlen
      rw [← Nat.add_assoc, Nat.succ_mul, ← Nat.sub_sub] at hnext
      have hpart : pagePart a b (a / pageSize + i) = ⟨a / pageSize + i, 0, pageSize⟩ := by
        rw [pagePart, hlen, hstart, Nat.sub_self]
      have hcons : List.range' i (todo + 1 + 1) = i :: List.range' (i + 1) (todo + 1) := List.range'_succ
      rw [sgmFill, if_neg (by omega), hnext, hcons, List.map_cons, hpart]

theorem sgmPages_eq {a count n maxPages : Nat} (hcount : 0 < count) (hspace : a + count < 2 ^ 64)
    (hn : n = (touched pageSize a (a + count)).card) (hroom : n ≤ maxPages) :
    sgmPages maxPages a count true =
      .ok ((n : Int), (List.range n).map fun i => pagePart a (a + count) (a / pageSize + i)) := by
  have hab : a < a + count := Nat.lt_add_of_pos_right hcount
  have hnum := hn.trans (card_touched (show 0 < pageSize by decide) hab)
  have hon : OnPages pageSize a (a + count) n := hn ▸ OnPages.of_touched (by decide) hab
  have hle := Nat.div_mul_le_self a pageSize
  have hsplit := Nat.div_add_mod' a pageSize
  have hstart : partStart pageSize a (a / pageSize) = a := Nat.max_eq_left hle
  have hhead : pagePart a (a + count) (a / pageSize + 0) =
      ⟨a / pageSize, a % pageSize, partLen pageSize a (a + count) (a / pageSize)⟩ := by
    rw [pagePart, Nat.add_zero, hstart, show a - a / pageSize * pageSize = a % pageSize by omega]
  unfold sgmPages
  rw [Nat.mod_eq_of_lt (by omega : a + count - 1 < 2 ^ 64), Nat.mod_eq_of_lt hspace]
  dsimp only
  rw [← hnum, if_neg (Nat.not_lt.mpr (Nat.le_of_lt hab)), if_neg (Nat.not_lt.mpr hroom),
    if_neg (Nat.ne_of_gt hcount), if_neg (by decide)]
  obtain ⟨m, rfl⟩ : ∃ m, n = m + 1 := ⟨n - 1, (Nat.sub_add_cancel hon.more).symm⟩
  rw [List.range_eq_range', List.range'_succ, List.map_cons, hhead]
  by_cases hmulti : 1 < m + 1
  · have hpage := hon.first
    have hlen := hon.partLen_eq (show 0 + 1 < m + 1 from hmulti)
    have hrest := sgmFill_eq hon (m - 1) 1 Nat.one_pos (by omega)
    rw [Nat.succ_mul] at hpage hrest
    rw [Nat.add_zero, hstart, Nat.succ_mul] at hlen
    rw [if_pos hmulti, show m + 1 - 2 = m - 1 by omega,
      show count - (pageSize - a % pageSize) = a + count - (a / pageSize * pageSize + pageSize) by omega,
      hrest, Nat.sub_add_cancel (by omega), hlen,
      show a / pageSize * pageSize + pageSize - a = pageSize - a % pageSize by omega]
  · obtain rfl : m = 0 := by omega
    have hlen := hon.partLen_last (Nat.zero_add 1)
    rw [Nat.add_zero, hstart, Nat.add_sub_cancel_left] at hlen
    rw [if_neg hmulti, hlen]
    rfl

/-- The parts on the last `todo + 1` pages. -/
theorem parts_describe {a b n : Nat} (hon : OnPages pageSize a b n) (hab : a < b) (todo : Nat) :
    ∀ i, i + todo + 1 = n →
      Describes dma (partStart pageSize a (a / pageSize + i))
        (b - partStart pageSize a (a / pageSize + i))
        ((List.range' i (todo + 1)).map fun j => pagePart a b (a / pageSize + j)) := by
  have hpart : ∀ i, i < n →
      RunsOn (dmaByte dma) (partStart pageSize a (a / pageSize + i))
        (dma (pagePart a b (a / pageSize + i)).page +
          BitVec.ofNat 64 (pagePart a b (a / pageSize + i)).offset)
        (pagePart a b (a / pageSize + i)).length ∧
      (pagePart a b (a / pageSize + i)).length ≤ pageSize := by
    intro i hi
    obtain ⟨hpos, hpage, hfits⟩ := hon.bounds (by decide) hab hi
    obtain ⟨hdiv, hmod⟩ := @part_place pageSize a (a / pageSize + i) 0 hpage (by omega)
    rw [Nat.add_zero] at hdiv hmod
    have hrun := @runsOn_dmaByte dma (partStart pageSize a (a / pageSize + i))
      (partLen pageSize a b (a / pageSize + i)) (by rw [hmod]; exact hfits)
    rw [hdiv, hmod] at hrun
    exact ⟨hrun, Nat.le_trans (Nat.le_add_left ..) hfits⟩
  induction todo with
  | zero =>
      intro i hi
      obtain ⟨hrun, hshort⟩ := hpart i (by omega)
      rw [List.range'_one, List.map_singleton, ← hon.partLen_last hi]
      exact Describes.single (e := pagePart a b (a / pageSize + i)) hrun hshort
  | succ todo ih =>
      intro i hi
      obtain ⟨hrun, hshort⟩ := hpart i (by omega)
      have hmore : i + 1 < n := by omega
      have hrest := ih (i + 1) (by omega)
      have hcons : List.range' i (todo + 1 + 1) = i :: List.range' (i + 1) (todo + 1) := List.range'_succ
      rw [hon.part_left hmore, hcons, List.map_cons]
      rw [← hon.part_next hmore] at hrest ⊢
      exact Describes.cons (e := pagePart a b (a / pageSize + i)) hrun hshort hrest

/-- For a buffer inside the address space the table can be made, it fits into the mapper,
and it describes the buffer. -/
theorem sgmPages_describes {start count : Nat} (hcount : 0 < count)
    (hspace : start + count < 2 ^ 64) :
    ∃ (nrPages : Nat) (sgl : List Scatterlist),
      sgmPages (sgCreateMapper count) start count true = .ok ((nrPages : Int), sgl) ∧
      0 < nrPages ∧ sgl.length = nrPages ∧ Describes dma start count sgl := by
  have hpos : 0 < pageSize := by decide
  have hab : start < start + count := Nat.lt_add_of_pos_right hcount
  have hon := OnPages.of_touched hpos hab
  have hdesc := @parts_describe dma start (start + count) _ hon hab
    ((touched pageSize start (start + count)).card - 1) 0 (by have := hon.more; omega)
  rw [Nat.add_zero, partStart, Nat.max_eq_left (Nat.div_mul_le_self start pageSize),
    Nat.add_sub_cancel_left, Nat.sub_add_cancel hon.more, ← List.range_eq_range'] at hdesc
  refine ⟨_, _, sgmPages_eq hcount hspace rfl ?_, hon.more, ?_, hdesc⟩
  · exact card_touched_le hpos hab
  · rw [List.length_map, List.length_range]

/-- A table with entries means that all pages were obtained. -/
theorem got_of_sgmPages {maxPages start count : Nat} {got : Bool} {rc : Int}
    {sgl : List Scatterlist} (h : sgmPages maxPages start count got = .ok (rc, sgl))
    (hrc : 0 < rc) : got = true := by
  cases got with
  | true => rfl
  | false =>
      have hrefused : ∃ rc' : Int, sgmPages maxPages start count false = .ok (rc', []) ∧ rc' ≤ 0 := by
        unfold sgmPages
        dsimp only
        split
        · exact ⟨_, rfl, by decide⟩
        · split
          · exact ⟨_, rfl, by decide⟩
          · split
            · exact ⟨_, rfl, by decide⟩
            · exact ⟨_, rfl, by decide⟩
      obtain ⟨rc', hrc', hle⟩ := hrefused
      rw [hrc'] at h
      cases h
      omega

theorem length_sgmFill {todo page count : Nat} {sgl : List Scatterlist}
    (h : sgmFill todo page count = .ok sgl) : sgl.length = todo + 1 := by
  induction todo generalizing page count sgl with
  | zero =>
      rw [sgmFill] at h
      split at h
      · cases h
      · cases h
        rfl
  | succ todo ih =>
      rw [sgmFill] at h
      split at h
      · cases h
      · split at h
        · cases h
        · rename_i rest hrest
          cases h
          rw [List.length_cons, ih hrest]

/-- A table that was made has one entry for each page, and no more than the mapper has room for. -/
theorem length_of_sgmPages {maxPages start count : Nat} {got : Bool} {rc : Int}
    {sgl : List Scatterlist} (h : sgmPages maxPages start count got = .ok (rc, sgl))
    (hrc : 0 < rc) : (sgl.length : Int) = rc ∧ sgl.length ≤ maxPages := by
  obtain rfl := got_of_sgmPages h hrc
  unfold sgmPages at h
  dsimp only at h
  split at h
  · cases h
    exact absurd hrc (by decide)
  · split at h
    · cases h
      exact absurd hrc (by decide)
    · split at h
      · cases h
        exact absurd hrc (by decide)
      · rw [if_neg Bool.true_eq_false.mp] at h
        split at h
        · split at h
          · cases h
          · rename_i rest hrest
            cases h
            rw [List.length_cons, length_sgmFill hrest]
            omega
        · cases h
          rw [List.length_singleton]
          omega

end WzXdma
