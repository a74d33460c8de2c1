import WzXdma.Mapper
import Mathlib.Data.List.Basic

/-!
# Buffers in a mapper

Both calls of the mapper put the pages of a buffer into the page array and make the table of the
buffer from there.  The entries of the table, one after the other, are the bytes of the buffer.  The
transfers are built from the same table.
-/

namespace WzXdma

open Lib Lib.Loop Lib.Paging

variable {P : Type}

/-! ## The page array -/

/-- The page array with the pages of a buffer in front, which has its first byte on page `first`. -/
def withPages (pageAt : Nat → P) (first n : Nat) (pages : List (Option P)) : List (Option P) :=
  (List.range n).map (fun i => some (pageAt (first + i))) ++ pages.drop n

theorem withPages_getElem? (pageAt : Nat → P) (first : Nat) (pages : List (Option P)) {i n : Nat}
    (hi : i < n) : (withPages pageAt first n pages)[i]? = some (some (pageAt (first + i))) := by
  rw [withPages, List.getElem?_append_left (by rw [List.length_map, List.length_range]; exact hi),
    List.getElem?_map, List.getElem?_range hi]
  rfl

/-- What the loop that clears the array leaves behind the pages of the buffer. -/
theorem drop_cleared (pages : List (Option P)) (n : Nat) :
    (pages.mapIdx fun i page => if (i : Int) < (n : Int) - 1 then none else page).drop n =
      pages.drop n := by
  refine List.ext_getElem? fun i => ?_
  rw [List.getElem?_drop, List.getElem?_drop, List.getElem?_mapIdx]
  have hmap : ∀ page : Option P, (if ((n + i : Nat) : Int) < (n : Int) - 1 then none else page) = page :=
    fun page => if_neg (by omega)
  simp only [hmap, Option.map_id']

/-- The loop over the pages of kernel memory, when the entries in `done` are set. -/
theorem kernelPages_eq {vmallocToPage : ULong → Option P} {f : Nat → P} (todo : Nat) :
    ∀ (done rest : List (Option P)) (virt : ULong), todo ≤ rest.length →
      (∀ k, k < todo → vmallocToPage (virt + BitVec.ofNat 64 (k * pageSize)) =
        some (f (done.length + k))) →
      SgMapping.kernelPages vmallocToPage todo done.length virt (done ++ rest) =
        .ok (done ++ ((List.range' done.length todo).map fun i => some (f i)) ++ rest.drop todo, true) := by
  induction todo with
  | zero =>
      intro done rest virt _ _
      rw [SgMapping.kernelPages, List.range'_zero, List.map_nil, List.append_nil, List.drop_zero]
  | succ todo ih =>
      rintro done (_ | ⟨page, rest⟩) virt hlen hvm
      · exact absurd hlen (Nat.not_succ_le_zero todo)
      have hpage : vmallocToPage virt = some (f done.length) := by
        have hzero := hvm 0 (Nat.succ_pos todo)
        rwa [Nat.zero_mul, BitVec.add_zero, Nat.add_zero] at hzero
      have hset : (done ++ page :: rest).set done.length (some (f done.length)) =
          done ++ [some (f done.length)] ++ rest := by
        rw [List.set_append_right _ _ (Nat.le_refl _), Nat.sub_self, List.set_cons_zero,
          List.append_assoc]
        rfl
      have hnext := ih (done ++ [some (f done.length)]) rest (virt + pageBytes)
        (Nat.le_of_succ_le_succ hlen) (fun k hk => by
          have hk' := hvm (k + 1) (Nat.succ_lt_succ hk)
          rw [Nat.succ_mul, Nat.add_comm (k * pageSize), BitVec.ofNat_add, ← BitVec.add_assoc] at hk'
          rw [List.length_append, List.length_singleton, Nat.add_assoc, Nat.add_comm 1]
          exact hk')
      rw [List.length_append, List.length_singleton] at hnext
      rw [SgMapping.kernelPages, if_pos (by rw [List.length_append, List.length_cons]; omega)]
      dsimp only
      rw [hpage, hset, Option.isNone_some, if_neg Bool.false_ne_true, hnext, List.range'_succ,
        List.map_cons, List.append_assoc, List.append_assoc, List.append_assoc]
      rfl

theorem kernelPages_withPages {vmallocToPage : ULong → Option P} {pageAt : Nat → P} {first n : Nat}
    {start : ULong} {pages : List (Option P)} (hlen : n ≤ pages.length)
    (hvm : ∀ i, i < n → vmallocToPage (start + BitVec.ofNat 64 (i * pageSize)) =
      some (pageAt (first + i))) :
    SgMapping.kernelPages vmallocToPage n 0 start pages = .ok (withPages pageAt first n pages, true) := by
  have hloop := @kernelPages_eq P vmallocToPage (fun i => pageAt (first + i)) n [] pages start hlen
    (fun k hk => by rw [List.length_nil, Nat.zero_add]; exact hvm k hk)
  rw [List.nil_append, List.nil_append, List.length_nil, ← List.range_eq_range'] at hloop
  exact hloop

/-! ## The two calls -/

/-- A mapper made for `maxLen` bytes that has no pages mapped. -/
structure SgMapping.Idle (maxLen : ULong) (sgm : SgMapping P) : Prop where
  room : sgm.maxPages = (maxLen.toNat / pageSize + 2 : Nat)
  entries : sgm.sgl.length = maxLen.toNat / pageSize + 2
  slots : sgm.pages.length = maxLen.toNat / pageSize + 2
  unmapped : sgm.mappedPages = 0

theorem length_blankTable (n : Nat) (sgl : List (SgEntry P)) : (blankTable n sgl).length = sgl.length :=
  List.length_mapIdx

theorem sgInitTable_eq {n : Nat} {sgl : List (SgEntry P)} (hpos : 0 < n) (hlen : n ≤ sgl.length)
    (hword : n < 2 ^ 32) : sgInitTable (BitVec.ofInt 32 n) sgl = .ok (blankTable n sgl) := by
  have hnat : (BitVec.ofNat 32 n).toNat = n := Nat.mod_eq_of_lt hword
  have hne : BitVec.ofNat 32 n ≠ 0 := by
    intro hzero
    rw [hzero] at hnat
    exact absurd hnat (Nat.ne_of_lt hpos)
  rw [sgInitTable, BitVec.ofInt_natCast, hnat,
    if_neg (not_or.mpr ⟨hne, Nat.not_lt.mpr hlen⟩)]

theorem filled_blankTable (pageAt : Nat → P) (a b : Nat) {n : Nat} {sgl : List (SgEntry P)}
    (hn : n ≤ sgl.length) : Filled pageAt a b n 0 (blankTable n sgl) where
  done := fun i hi => absurd hi (Nat.not_lt_zero i)
  rest := by
    intro i _ hi
    rw [blankTable, List.getElem?_mapIdx, List.getElem?_eq_getElem (Nat.lt_of_lt_of_le hi hn),
      Option.map_some, if_pos hi]

section Calls

variable {maxLen start count : ULong} {sgm : SgMapping P} {pageAt : Nat → P}

/-- What `sg_create_mapper` makes. -/
theorem SgMapping.idle_of_create (h : SgmRequest maxLen start count) {got : Bool × Bool × Bool}
    (hsgm : sgCreateMapper maxLen got = .ok (some sgm)) : sgm.Idle maxLen := by
  have hmax := h.maxPages_le
  have hnum : (maxLen / pageBytes + 2).toNat = maxLen.toNat / pageSize + 2 := by
    rw [BitVec.toNat_add, BitVec.toNat_udiv]
    show (maxLen.toNat / pageSize + 2) % 2 ^ 64 = _
    exact Nat.mod_eq_of_lt (by omega)
  unfold sgCreateMapper at hsgm
  split at hsgm
  · cases hsgm
  split at hsgm
  · cases hsgm
  dsimp only at hsgm
  split at hsgm
  · cases hsgm
  split at hsgm
  · cases hsgm
  rw [setWidth_toInt (by rw [hnum]; omega), hnum, Int.toNat_natCast,
    sgInitTable_eq (Nat.succ_pos _) (Nat.le_of_eq List.length_replicate.symm) (by omega)] at hsgm
  cases hsgm
  exact ⟨rfl, by rw [length_blankTable, List.length_replicate], List.length_replicate, rfl⟩

namespace SgMapping.Idle

theorem not_refused (hsgm : sgm.Idle maxLen) (h : SgmRequest maxLen start count) :
    ¬ 0 < sgm.mappedPages ∧ ¬ start + count < start ∧ ¬ sgm.maxPages < pagesTouched start count ∧
      count ≠ 0 := by
  have hpos := h.pos
  have hspace := h.space
  have hcap := h.pagesTouched_le
  refine ⟨?_, ?_, ?_, ?_⟩
  · rw [hsgm.unmapped]
    exact Int.lt_irrefl 0
  · rw [BitVec.lt_def, BitVec.toNat_add, Nat.mod_eq_of_lt (by omega)]
    omega
  · rw [hsgm.room]
    omega
  · rintro rfl
    exact absurd hpos (by decide)

/-- The part of the scatterlist that is made blank for the buffer. -/
theorem blank (hsgm : sgm.Idle maxLen) (h : SgmRequest maxLen start count) {n : Nat}
    (hn : n = pagesTouched start count) :
    sgInitTable (BitVec.ofInt 32 n) sgm.sgl = .ok (blankTable n sgm.sgl) := by
  have hcap := h.pagesTouched_le
  have hmax := h.maxPages_le
  have hpos : 0 < pagesTouched start count := h.pagesTouched_eq ▸ Nat.succ_pos _
  exact sgInitTable_eq (hn ▸ hpos) (by rw [hsgm.entries]; omega) (by omega)

/-- The mapper with the table for the buffer. -/
theorem table (hsgm : sgm.Idle maxLen) (h : SgmRequest maxLen start count) (pageAt : Nat → P) :
    ∃ sgl, SgMapping.populate
        (withPages pageAt (start.toNat / pageSize) (pagesTouched start count) sgm.pages)
        (pagesTouched start count) start count (blankTable (pagesTouched start count) sgm.sgl) = .ok sgl ∧
      Filled pageAt start.toNat (start.toNat + count.toNat) (pagesTouched start count)
        (pagesTouched start count) sgl := by
  have hpos := h.pos
  exact populate_table (OnPages.of_touched (by decide) (by omega)) rfl (Nat.add_sub_cancel_left ..).symm
    (fun i hi => withPages_getElem? pageAt _ _ hi)
    (filled_blankTable _ _ _ (by rw [hsgm.entries]; exact h.pagesTouched_le))

theorem sgmGetUserPages_eq (hsgm : sgm.Idle maxLen) (h : SgmRequest maxLen start count) {n : Nat}
    (hn : n = pagesTouched start count) {fast : ULong → Int → PinnedPages P}
    (hfast : fast start n = ⟨n, (List.range n).map fun i => pageAt (start.toNat / pageSize + i)⟩)
    {sgl : List (SgEntry P)}
    (hsgl : SgMapping.populate (withPages pageAt (start.toNat / pageSize) n sgm.pages) n start count
      (blankTable n sgm.sgl) = .ok sgl) :
    sgmGetUserPages fast sgm start count = .ok ⟨{ sgm with
      sgl := sgl, pages := withPages pageAt (start.toNat / pageSize) n sgm.pages, mappedPages := n },
      n, []⟩ := by
  obtain ⟨hmapped, hwrap, hroom, hcount⟩ := hsgm.not_refused h
  have hpages : ((List.range n).map fun i => pageAt (start.toNat / pageSize + i)).map some ++
      (sgm.pages.mapIdx fun i page => if (i : Int) < (n : Int) - 1 then none else page).drop
        ((List.range n).map fun i => pageAt (start.toNat / pageSize + i)).length =
      withPages pageAt (start.toNat / pageSize) n sgm.pages := by
    rw [List.length_map, List.length_range, drop_cleared, List.map_map]
    rfl
  unfold sgmGetUserPages
  dsimp only
  rw [h.nrPages_eq, if_neg hmapped, if_neg hwrap, if_neg hroom, if_neg hcount, ← hn, hfast,
    hsgm.blank h hn]
  dsimp only
  rw [if_neg (Int.lt_irrefl _), if_neg (not_not.mpr rfl), hpages, hsgl]

theorem sgmKernelPages_eq (hsgm : sgm.Idle maxLen) (h : SgmRequest maxLen start count) {n : Nat}
    (hn : n = pagesTouched start count) {vmallocToPage : ULong → Option P}
    (hvm : ∀ i, i < n → vmallocToPage (start + BitVec.ofNat 64 (i * pageSize)) =
      some (pageAt (start.toNat / pageSize + i))) {sgl : List (SgEntry P)}
    (hsgl : SgMapping.populate (withPages pageAt (start.toNat / pageSize) n sgm.pages) n start count
      (blankTable n sgm.sgl) = .ok sgl) :
    sgmKernelPages vmallocToPage sgm start count = .ok ⟨{ sgm with
      sgl := sgl, pages := withPages pageAt (start.toNat / pageSize) n sgm.pages, mappedPages := n },
      n, []⟩ := by
  obtain ⟨hmapped, hwrap, hroom, hcount⟩ := hsgm.not_refused h
  have hlen : n ≤ sgm.pages.length := by
    rw [hn, hsgm.slots]
    exact h.pagesTouched_le
  unfold sgmKernelPages
  dsimp only
  rw [h.nrPages_eq, if_neg hmapped, if_neg hwrap, if_neg hroom, if_neg hcount, ← hn, hsgm.blank h hn,
    Int.toNat_natCast, kernelPages_withPages hlen hvm]
  dsimp only
  rw [hsgl]

end SgMapping.Idle

end Calls

/-! ## The buffer in the table -/

/-- The bytes that an entry stands for, by page and place on the page. -/
def SgEntry.bytes (entry : SgEntry P) : List (Option P × Nat) :=
  (List.range entry.length.toNat).map fun k => (entry.page, entry.offset.toNat + k)

def SgEntry.total : List (SgEntry P) → Nat
  | [] => 0
  | entry :: rest => entry.length.toNat + total rest

theorem SgEntry.length_bytes (sgl : List (SgEntry P)) : (sgl.flatMap bytes).length = total sgl := by
  induction sgl with
  | nil => rfl
  | cons entry rest ih =>
      rw [List.flatMap_cons, List.length_append, ih, total, bytes, List.length_map, List.length_range]

/-- The first `n` entries are the `count` bytes from `start` on.  `pageAt` names the page that is
mapped at a virtual page. -/
structure SgMapping.Covers (pageAt : Nat → P) (start count : ULong) (n : Nat) (sgm : SgMapping P) :
    Prop where
  page : ∀ i, i < n → sgm.pages[i]? = some (some (pageAt (start.toNat / pageSize + i)))
  entry : ∀ i, i < n → ∃ entry, sgm.sgl[i]? = some entry ∧ sgm.pages[i]? = some entry.page ∧
    entry.offset.toNat = (if i = 0 then start.toNat % pageSize else 0) ∧ 0 < entry.length.toNat ∧
    entry.offset.toNat + entry.length.toNat ≤ pageSize ∧ entry.isEnd = decide (i + 1 = n)
  total : SgEntry.total (sgm.sgl.take n) = count.toNat
  bytes : (sgm.sgl.take n).flatMap SgEntry.bytes = (List.range count.toNat).map fun k =>
    (some (pageAt ((start.toNat + k) / pageSize)), (start.toNat + k) % pageSize)

/-- The byte at an address, by page and place on the page. -/
def place (pageAt : Nat → P) (addr : Nat) : Option P × Nat :=
  (some (pageAt (addr / pageSize)), addr % pageSize)

section Entries

variable {a b n i : Nat}

/-- An entry of the table in numbers. -/
theorem tableEntry_toNat (h : OnPages pageSize a b n) (hab : a < b) (hi : i < n) (pageAt : Nat → P) :
    (tableEntry pageAt a b n i).offset.toNat =
        partStart pageSize a (a / pageSize + i) - (a / pageSize + i) * pageSize ∧
      (tableEntry pageAt a b n i).length.toNat = partLen pageSize a b (a / pageSize + i) := by
  obtain ⟨_, _, hfits⟩ := h.bounds (by decide) hab hi
  have hsize : pageSize = 4096 := rfl
  exact ⟨Nat.mod_eq_of_lt (by omega), Nat.mod_eq_of_lt (by omega)⟩

theorem tableEntry_bytes (h : OnPages pageSize a b n) (hab : a < b) (hi : i < n) (pageAt : Nat → P) :
    (tableEntry pageAt a b n i).bytes =
      (List.range' (partStart pageSize a (a / pageSize + i))
        (partLen pageSize a b (a / pageSize + i))).map (place pageAt) := by
  obtain ⟨_, hpage, hfits⟩ := h.bounds (by decide) hab hi
  obtain ⟨hoff, hlen⟩ := tableEntry_toNat h hab hi pageAt
  rw [SgEntry.bytes, hoff, hlen, List.range'_eq_map_range, List.map_map]
  refine List.map_congr_left fun k hk => ?_
  have hplace := part_place hpage
    (Nat.lt_of_lt_of_le (Nat.add_lt_add_left (List.mem_range.mp hk) _) hfits)
  rw [Function.comp, place, hplace.1, hplace.2]
  rfl

end Entries

namespace Filled

variable {pageAt : Nat → P} {a b n : Nat} {sgl : List (SgEntry P)}

theorem take_eq (h : Filled pageAt a b n n sgl) :
    sgl.take n = (List.range n).map (tableEntry pageAt a b n) := by
  refine List.ext_getElem? fun i => ?_
  by_cases hi : i < n
  · rw [List.getElem?_take_of_lt hi, h.done i hi, List.getElem?_map, List.getElem?_range hi]
    rfl
  · rw [List.getElem?_take, if_neg hi, List.getElem?_eq_none]
    rw [List.length_map, List.length_range]
    exact Nat.not_lt.mp hi

/-- The entries of a table, one after the other, are the buffer. -/
theorem bytes_eq (h : Filled pageAt a b n n sgl) (hab : a < b) (hn : n = (touched pageSize a b).card) :
    (sgl.take n).flatMap SgEntry.bytes = (List.range (b - a)).map fun k => place pageAt (a + k) := by
  have hon : OnPages pageSize a b n := hn ▸ OnPages.of_touched (by decide) hab
  rw [h.take_eq, List.flatMap_map,
    List.flatMap_congr fun i hi => tableEntry_bytes hon hab (List.mem_range.mp hi) pageAt,
    ← List.map_flatMap, hn, flatMap_touched (by decide) hab, List.range'_eq_map_range, List.map_map]
  rfl

end Filled

/-- A mapper with the pages of the buffer and its table. -/
theorem SgMapping.covers_of_filled {start count : ULong} {pageAt : Nat → P} {n : Nat}
    {sgm : SgMapping P} (hcount : 1 ≤ count.toNat) (hn : n = pagesTouched start count)
    (hpage : ∀ i, i < n → sgm.pages[i]? = some (some (pageAt (start.toNat / pageSize + i))))
    (h : Filled pageAt start.toNat (start.toNat + count.toNat) n n sgm.sgl) :
    sgm.Covers pageAt start count n := by
  have hab : start.toNat < start.toNat + count.toNat := by omega
  have hon : OnPages pageSize start.toNat (start.toNat + count.toNat) n :=
    hn ▸ OnPages.of_touched (by decide) hab
  have hbytes := h.bytes_eq hab hn
  rw [Nat.add_sub_cancel_left] at hbytes
  refine ⟨hpage, fun i hi => ?_, ?_, hbytes⟩
  · obtain ⟨hpos, _, hfits⟩ := hon.bounds (by decide) hab hi
    obtain ⟨hoff, hlen⟩ := tableEntry_toNat hon hab hi pageAt
    refine ⟨_, h.done i hi, hpage i hi, ?_, hlen ▸ hpos, hoff ▸ hlen ▸ hfits, rfl⟩
    rw [hoff, partStart_sub (by decide) (Nat.le_add_right _ _)]
    simp only [Nat.add_eq_left]
  · rw [← SgEntry.length_bytes, hbytes, List.length_map, List.length_range]

/-- A request that the callers can make is answered with a table of the buffer, one entry for each
page that it touches, and kernel memory on the same pages gets the same table. -/
theorem sgm_tables_cover_buffer {maxLen start count : ULong} (h : SgmRequest maxLen start count)
    {got : Bool × Bool × Bool} {sgm : SgMapping P}
    (hsgm : SgMapping.sgCreateMapper maxLen got = .ok (some sgm)) {n : Nat}
    (hn : n = pagesTouched start count)
    {pageAt : Nat → P} {fast : ULong → Int → PinnedPages P} {vmallocToPage : ULong → Option P}
    (hfast : fast start n = ⟨n, (List.range n).map fun i => pageAt (start.toNat / pageSize + i)⟩)
    (hvm : ∀ i, i < n → vmallocToPage (start + BitVec.ofNat 64 (i * pageSize)) =
      some (pageAt (start.toNat / pageSize + i))) :
    SgMapping.nrPages start count ≤ sgm.maxPages ∧
      ∃ sgm', SgMapping.sgmGetUserPages fast sgm start count = .ok ⟨sgm', n, []⟩ ∧
        sgm'.Covers pageAt start count n ∧ sgm'.mappedPages = n ∧
        SgMapping.sgmKernelPages vmallocToPage sgm start count = .ok ⟨sgm', n, []⟩ := by
  have hidle := SgMapping.idle_of_create h hsgm
  obtain ⟨_, _, hroom, _⟩ := hidle.not_refused h
  obtain ⟨sgl, hsgl, hfilled⟩ := hidle.table h pageAt
  rw [← hn] at hsgl hfilled
  refine ⟨?_, _, hidle.sgmGetUserPages_eq h hn hfast hsgl, ?_, rfl,
    hidle.sgmKernelPages_eq h hn hvm hsgl⟩
  · rw [h.nrPages_eq]
    exact Int.not_lt.mp hroom
  · exact SgMapping.covers_of_filled h.pos hn (fun i hi => withPages_getElem? pageAt _ _ hi) hfilled

/-- A buffer that begins six bytes before the end of a page, where the pages have their own numbers. -/
theorem sgm_tables_cover_buffer_unaligned :
    ∃ sgm sgm' : SgMapping Nat, SgMapping.sgCreateMapper 5000 (true, true, true) = .ok (some sgm) ∧
      SgMapping.sgmGetUserPages (fun start n =>
        ⟨n, (List.range n.toNat).map fun i => id (start.toNat / pageSize + i)⟩) sgm 4090 5000 =
          .ok ⟨sgm', 3, []⟩ ∧
      SgMapping.sgmKernelPages (fun addr => some (addr.toNat / pageSize)) sgm 4090 5000 =
        .ok ⟨sgm', 3, []⟩ ∧ sgm'.Covers id 4090 5000 3 := by
  have hrequest : SgmRequest 5000 4090 5000 := ⟨by decide, by decide, by decide, by decide⟩
  have hn : 3 = pagesTouched 4090 5000 := by
    rw [hrequest.pagesTouched_eq]
    decide
  obtain ⟨sgm, hsgm⟩ : ∃ sgm : SgMapping Nat,
      SgMapping.sgCreateMapper 5000 (true, true, true) = .ok (some sgm) := ⟨_, rfl⟩
  obtain ⟨_, sgm', hget, hcovers, _, hkernel⟩ := @sgm_tables_cover_buffer Nat 5000 4090 5000 hrequest
    (true, true, true) sgm hsgm 3 hn id
    (fun start n => ⟨n, (List.range n.toNat).map fun i => id (start.toNat / pageSize + i)⟩)
    (fun addr => some (addr.toNat / pageSize)) rfl (by decide)
  exact ⟨sgm, sgm', hsgm, hget, hkernel, hcovers⟩

/-! ## The tables of the transfers

A transfer reads off its scatterlist which part of the buffer lies on which page.  The arrays of the
mapper say the same. -/

/-- The mapper's entries without the pages they refer to. -/
theorem Filled.parts_eq {pageAt : Nat → P} {a b n : Nat} {sgl : List (SgEntry P)}
    (h : Filled pageAt a b n n sgl) (hab : a < b) (hn : n = (touched pageSize a b).card) :
    (sgl.take n).map (fun e => (e.page, e.offset.toNat, e.length.toNat)) =
      ((List.range n).map fun i => pagePart a b (a / pageSize + i)).map
        fun e => (some (pageAt e.page), e.offset, e.length) := by
  have hon : OnPages pageSize a b n := hn ▸ OnPages.of_touched (by decide) hab
  rw [h.take_eq, List.map_map, List.map_map]
  refine List.map_congr_left fun i hi => ?_
  obtain ⟨hoff, hlen⟩ := tableEntry_toNat hon hab (List.mem_range.mp hi) pageAt
  rw [Function.comp, hoff, hlen]
  rfl

section Refinement

variable {maxLen start count : ULong} {sgm : SgMapping P} {pageAt : Nat → P} {n : Nat}

theorem SgmRequest.table_refines (h : SgmRequest maxLen start count) (hsgm : sgm.Idle maxLen)
    (hn : n = pagesTouched start count) (pageAt : Nat → P) :
    ∃ table sgl, sgmPages (sgCreateMapper maxLen.toNat) start.toNat count.toNat true =
        .ok ((n : Int), table) ∧
      SgMapping.populate (withPages pageAt (start.toNat / pageSize) n sgm.pages) n start count
        (blankTable n sgm.sgl) = .ok sgl ∧
      (sgl.take n).map (fun e => (e.page, e.offset.toNat, e.length.toNat)) =
        table.map fun e => (some (pageAt e.page), e.offset, e.length) := by
  have hab : start.toNat < start.toNat + count.toNat := Nat.lt_add_of_pos_right h.pos
  have hspace : start.toNat + count.toNat < 2 ^ 64 := Nat.lt_of_le_of_lt h.space (by decide)
  obtain ⟨sgl, hsgl, hfilled⟩ := hsgm.table h pageAt
  rw [← hn] at hsgl hfilled
  exact ⟨_, sgl, sgmPages_eq h.pos hspace hn (hn ▸ h.pagesTouched_le), hsgl, hfilled.parts_eq hab hn⟩

/-- The table that a transfer is built from is the one in the arrays of the mapper. -/
theorem sgmGetUserPages_refines (h : SgmRequest maxLen start count) (hsgm : sgm.Idle maxLen)
    (hn : n = pagesTouched start count) {fast : ULong → Int → PinnedPages P}
    (hfast : fast start n = ⟨n, (List.range n).map fun i => pageAt (start.toNat / pageSize + i)⟩) :
    ∃ table sgm', sgmGetUserPages (sgCreateMapper maxLen.toNat) start.toNat count.toNat true =
        .ok ((n : Int), table) ∧
      SgMapping.sgmGetUserPages fast sgm start count = .ok ⟨sgm', n, []⟩ ∧
      (sgm'.sgl.take n).map (fun e => (e.page, e.offset.toNat, e.length.toNat)) =
        table.map fun e => (some (pageAt e.page), e.offset, e.length) := by
  obtain ⟨table, sgl, hpages, hsgl, hparts⟩ := h.table_refines hsgm hn pageAt
  exact ⟨table, _, hpages, hsgm.sgmGetUserPages_eq h hn hfast hsgl, hparts⟩

/-- The same for kernel memory. -/
theorem sgmKernelPages_refines (h : SgmRequest maxLen start count) (hsgm : sgm.Idle maxLen)
    (hn : n = pagesTouched start count) {vmallocToPage : ULong → Option P}
    (hvm : ∀ i, i < n → vmallocToPage (start + BitVec.ofNat 64 (i * pageSize)) =
      some (pageAt (start.toNat / pageSize + i))) :
    ∃ table sgm', sgmKernelPages (sgCreateMapper maxLen.toNat) start.toNat count.toNat true =
        .ok ((n : Int), table) ∧
      SgMapping.sgmKernelPages vmallocToPage sgm start count = .ok ⟨sgm', n, []⟩ ∧
      (sgm'.sgl.take n).map (fun e => (e.page, e.offset.toNat, e.length.toNat)) =
        table.map fun e => (some (pageAt e.page), e.offset, e.length) := by
  obtain ⟨table, sgl, hpages, hsgl, hparts⟩ := h.table_refines hsgm hn pageAt
  exact ⟨table, _, hpages, hsgm.sgmKernelPages_eq h hn hvm hsgl, hparts⟩

end Refinement

/-! ## Giving the pages back -/

section Release

variable {maxLen start count : ULong} {sgm : SgMapping P} {n : Nat}

theorem length_withPages (pageAt : Nat → P) (first : Nat) {pages : List (Option P)}
    (hn : n ≤ pages.length) :
    (withPages pageAt first n pages).length = pages.length := by
  rw [withPages, List.length_append, List.length_map, List.length_range, List.length_drop]
  omega

/-- The pages of a buffer are put back as they were pinned, and the mapper can then be destroyed or
used again. -/
theorem sgmPutUserPages_returns (h : SgmRequest maxLen start count) (hsgm : sgm.Idle maxLen)
    (hn : n = pagesTouched start count) {pageAt : Nat → P} {fast : ULong → Int → PinnedPages P}
    (hfast : fast start n = ⟨n, (List.range n).map fun i => pageAt (start.toNat / pageSize + i)⟩)
    (dirtied : Bool) :
    ∃ sgm' sgm'', SgMapping.sgmGetUserPages fast sgm start count = .ok ⟨sgm', n, []⟩ ∧
      sgm'.sgmPutUserPages dirtied = (⟨sgm'', 0, (fast start n).pages.map some⟩,
        if dirtied then (fast start n).pages.map some else []) ∧
      sgm''.Idle maxLen ∧ sgm''.sgDestroyMapper = .ok () := by
  obtain ⟨sgl, hsgl, _⟩ := hsgm.table h pageAt
  rw [← hn] at hsgl
  have hroom : n ≤ sgm.pages.length := by
    rw [hn, hsgm.slots]
    exact h.pagesTouched_le
  have hput : (withPages pageAt (start.toNat / pageSize) n sgm.pages).take n =
      (fast start n).pages.map some := by
    rw [hfast, withPages, List.take_left' (by rw [List.length_map, List.length_range]), List.map_map]
    rfl
  refine ⟨_, _, hsgm.sgmGetUserPages_eq h hn hfast hsgl, Prod.ext (congrArg (SgmResult.mk _ 0) hput)
    (congrArg (fun l => if dirtied then l else []) hput), ?_, rfl⟩
  exact ⟨hsgm.room, (length_populate hsgl).trans ((length_blankTable _ _).trans hsgm.entries),
    (length_withPages pageAt _ hroom).trans hsgm.slots, rfl⟩

/-! ### Requests that fail -/


/-- When not all pages can be pinned, those that were are given back, and the mapper is as free as
before. -/
theorem sgmGetUserPages_unwinds (h : SgmRequest maxLen start count) (hsgm : sgm.Idle maxLen)
    (hn : n = pagesTouched start count) {fast : ULong → Int → PinnedPages P}
    (hrc : (fast start n).rc < n) (hlen : (fast start n).pages.length = (fast start n).rc.toNat) :
    ∃ sgm', SgMapping.sgmGetUserPages fast sgm start count =
        .ok ⟨sgm', -enomem, (fast start n).pages.map some⟩ ∧ sgm'.Idle maxLen := by
  obtain ⟨hmapped, hwrap, hroom, hcount⟩ := hsgm.not_refused h
  have hcap := h.pagesTouched_le
  have hput : (if 0 < (fast start n).rc then (fast start n).rc else sgm.mappedPages).toNat =
      (fast start n).pages.length := by
    rw [hlen, hsgm.unmapped]
    split
    · rfl
    · rename_i hnot
      exact (Int.toNat_of_nonpos (Int.not_lt.mp hnot)).symm
  unfold SgMapping.sgmGetUserPages
  dsimp only
  rw [h.nrPages_eq, if_neg hmapped, if_neg hwrap, if_neg hroom, if_neg hcount, ← hn, hsgm.blank h hn]
  dsimp only
  rw [if_pos hrc, hput, List.take_append_of_le_length (by rw [List.length_map]),
    List.take_of_length_le (by rw [List.length_map])]
  refine ⟨_, rfl, hsgm.room, ?_, ?_, rfl⟩
  · exact (length_blankTable _ _).trans hsgm.entries
  · dsimp only
    rw [List.length_append, List.length_map, List.length_drop, List.length_mapIdx, hsgm.slots]
    omega

/-- The loop ends before its last page when it finds one that is not there. -/
theorem kernelPages_length {vmallocToPage : ULong → Option P} (todo : Nat) :
    ∀ (i : Nat) (virt : ULong) (pages : List (Option P)), i + todo ≤ pages.length →
      ∃ pages' ready, SgMapping.kernelPages vmallocToPage todo i virt pages = .ok (pages', ready) ∧
        pages'.length = pages.length ∧ (ready = true →
          ∀ k, k < todo → (vmallocToPage (virt + BitVec.ofNat 64 (k * pageSize))).isSome) := by
  induction todo with
  | zero =>
      intro i virt pages _
      exact ⟨pages, true, rfl, rfl, fun _ k hk => absurd hk (Nat.not_lt_zero k)⟩
  | succ todo ih =>
      intro i virt pages hlen
      rw [SgMapping.kernelPages, if_pos (by omega)]
      dsimp only
      cases hpage : vmallocToPage virt with
      | none => exact ⟨_, false, rfl, List.length_set, fun h => absurd h Bool.false_ne_true⟩
      | some page =>
          obtain ⟨pages', ready, hloop, hsame, hall⟩ :=
            ih (i + 1) (virt + pageBytes) (pages.set i (some page)) (by rw [List.length_set]; omega)
          rw [Option.isNone_some, if_neg Bool.false_ne_true, hloop]
          refine ⟨pages', ready, rfl, hsame.trans List.length_set, fun hready k hk => ?_⟩
          cases k with
          | zero => rw [Nat.zero_mul, BitVec.add_zero, hpage, Option.isSome_some]
          | succ k =>
              have hnext := hall hready k (Nat.lt_of_succ_lt_succ hk)
              rw [Nat.succ_mul, Nat.add_comm (k * pageSize), BitVec.ofNat_add, ← BitVec.add_assoc]
              exact hnext

/-- Kernel memory of which a page is not there leaves the mapper as free as before. -/
theorem sgmKernelPages_unwinds (h : SgmRequest maxLen start count) (hsgm : sgm.Idle maxLen)
    (hn : n = pagesTouched start count) {vmallocToPage : ULong → Option P} {i : Nat} (hi : i < n)
    (hvm : vmallocToPage (start + BitVec.ofNat 64 (i * pageSize)) = none) :
    ∃ sgm', SgMapping.sgmKernelPages vmallocToPage sgm start count = .ok ⟨sgm', -enomem, []⟩ ∧
      sgm'.Idle maxLen := by
  obtain ⟨hmapped, hwrap, hroom, hcount⟩ := hsgm.not_refused h
  have hcap := h.pagesTouched_le
  obtain ⟨pages', ready, hloop, hsame, hall⟩ := @kernelPages_length P vmallocToPage n 0 start sgm.pages
    (by rw [hsgm.slots]; omega)
  have hready : ready = false := by
    refine Bool.eq_false_iff.mpr fun htrue => ?_
    have hsome := hall htrue i hi
    rw [hvm] at hsome
    exact absurd hsome Bool.false_ne_true
  rw [hready] at hloop
  unfold SgMapping.sgmKernelPages
  dsimp only
  rw [h.nrPages_eq, if_neg hmapped, if_neg hwrap, if_neg hroom, if_neg hcount, ← hn, hsgm.blank h hn,
    Int.toNat_natCast, hloop]
  exact ⟨_, rfl, hsgm.room, (length_blankTable _ _).trans hsgm.entries, hsame.trans hsgm.slots, rfl⟩

end Release

end WzXdma
