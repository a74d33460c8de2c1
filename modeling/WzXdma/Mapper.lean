import WzXdma.Lib.Fields
import WzXdma.Lib.Loop
import WzXdma.Lib.Paging
import WzXdma.Sgm
import WzXdma.Transfer

/-!
# The mapper

`xdma-sgm.c` with its arrays and its machine arithmetic.  A mapper has room for a number of pages.
`sgm_get_user_pages` and `sgm_kernel_pages` put the pages of a buffer into its page array, each in
its own way, and fill the scatterlist from there.  This last part stands in the source twice, word
for word.
-/

namespace WzXdma

open Lib Lib.Loop Lib.Paging

/-- `unsigned long` and `size_t` -/
abbrev ULong := BitVec 64

/-- `PAGE_MASK` -/
def pageMask : ULong := ~~~0xFFF

/-- `PAGE_SIZE` -/
def pageBytes : ULong := BitVec.ofNat 64 pageSize

/-- `struct scatterlist`.  `isEnd` is the mark that `sg_init_table` sets. -/
structure SgEntry (P : Type) where
  page : Option P
  offset : Word
  length : Word
  isEnd : Bool
  deriving DecidableEq, Repr

/-- `struct sg_mapping_t` -/
structure SgMapping (P : Type) where
  sgl : List (SgEntry P)
  pages : List (Option P)
  maxPages : Int
  mappedPages : Int

/-- The answer of `get_user_pages_fast`: its value, and the pages it wrote to the front of the
array. -/
structure PinnedPages (P : Type) where
  rc : Int
  pages : List P

/-- What a call leaves: the mapper, the value returned, and the pages given back with `put_page`. -/
structure SgmResult (P : Type) where
  sgm : SgMapping P
  rc : Int
  put : List (Option P)

variable {P : Type}

/-- The first `n` entries cleared, and the last of them marked. -/
def blankTable (n : Nat) (sgl : List (SgEntry P)) : List (SgEntry P) :=
  sgl.mapIdx fun i entry => if i < n then ⟨none, 0, 0, decide (i + 1 = n)⟩ else entry

/-- `sg_init_table`, which takes an `unsigned int` -/
def sgInitTable (nents : Word) (sgl : List (SgEntry P)) : Except Crash (List (SgEntry P)) :=
  if nents = 0 ∨ sgl.length < nents.toNat then .error .outOfBounds
  else .ok (blankTable nents.toNat sgl)

/-- `sg_set_page(&sgl[i], pages[i], len, offset)` -/
def sgSetPage (pages : List (Option P)) (i : Nat) (len offset : Word) (sgl : List (SgEntry P)) :
    Except Crash (List (SgEntry P)) :=
  match pages[i]? with
  | none => .error .outOfBounds
  | some page =>
      if i < sgl.length then
        .ok (sgl.modify i fun entry => { entry with page := page, offset := offset, length := len })
      else .error .outOfBounds

namespace SgMapping

/-- `sg_create_mapper`; `got` are the answers of its three allocations. -/
def sgCreateMapper (maxLen : ULong) (got : Bool × Bool × Bool) :
    Except Crash (Option (SgMapping P)) :=
  if maxLen = 0 then .ok none
  else if got.1 = false then .ok none
  else
    let maxPages := ((maxLen / pageBytes + 2).setWidth 32).toInt
    if got.2.1 = false then .ok none
    else if got.2.2 = false then .ok none
    else
      match sgInitTable (BitVec.ofInt 32 maxPages)
          (List.replicate maxPages.toNat ⟨none, 0, 0, false⟩) with
      | .error e => .error e
      | .ok sgl => .ok (some
          { sgl := sgl
            pages := List.replicate maxPages.toNat none
            maxPages := maxPages
            mappedPages := 0 })

/-- Page `i` between the first and the last one, with what is left of `count`. -/
def fillPage (pages : List (Option P)) (i : Nat) (s : List (SgEntry P) × ULong) :
    Except Crash (List (SgEntry P) × ULong) :=
  if s.2 < pageBytes then .error .bugOn
  else (sgSetPage pages i (pageBytes.setWidth 32) 0 s.1).map (·, s.2 - pageBytes)

/-- The entries are filled from the page array. -/
def populate (pages : List (Option P)) (nrPages : Int) (start count : ULong) (sgl : List (SgEntry P)) :
    Except Crash (List (SgEntry P)) :=
  let offset := (start &&& ~~~pageMask).setWidth 32
  match sgSetPage pages 0 0 offset sgl with
  | .error e => .error e
  | .ok sgl =>
      if 1 < nrPages then
        let length := (pageBytes - offset.setWidth 64).setWidth 32
        let sgl := sgl.modify 0 ({ · with length := length })
        -- the pages from 1 to `nr_pages - 2`
        match forUpTo (fun i => fillPage pages (i + 1)) (nrPages - 2).toNat
            (sgl, count - length.setWidth 64) with
        | .error e => .error e
        | .ok (sgl, count) =>
            if pageBytes < count then .error .bugOn
            else sgSetPage pages (nrPages - 1).toNat (count.setWidth 32) 0 sgl
      else .ok (sgl.modify 0 ({ · with length := count.setWidth 32 }))

/-- `nr_pages`, which is an `int` -/
def nrPages (start count : ULong) : Int :=
  let first := (start &&& pageMask) >>> pageShift
  let last := ((start + count - 1) &&& pageMask) >>> pageShift
  ((last - first + 1).setWidth 32).toInt

/-- `sgm_get_user_pages`.  `fast` answers for `get_user_pages_fast`. -/
def sgmGetUserPages (fast : ULong → Int → PinnedPages P) (sgm : SgMapping P) (start count : ULong) :
    Except Crash (SgmResult P) :=
  let nrPages := nrPages start count
  if 0 < sgm.mappedPages then .error .bugOn
  else if start + count < start then .ok ⟨sgm, -einval, []⟩
  else if sgm.maxPages < nrPages then .ok ⟨sgm, -einval, []⟩
  else if count = 0 then .ok ⟨sgm, 0, []⟩
  else
    match sgInitTable (BitVec.ofInt 32 nrPages) sgm.sgl with
    | .error e => .error e
    | .ok sgl =>
        let cleared := sgm.pages.mapIdx fun i page => if (i : Int) < nrPages - 1 then none else page
        let pinned := fast start nrPages
        let pages := pinned.pages.map some ++ cleared.drop pinned.pages.length
        if pinned.rc < nrPages then
          let mappedPages := if 0 < pinned.rc then pinned.rc else sgm.mappedPages
          .ok ⟨{ sgm with sgl := sgl, pages := pages, mappedPages := 0 }, -enomem,
            pages.take mappedPages.toNat⟩
        else if pinned.rc ≠ nrPages then .error .bugOn
        else
          match populate pages nrPages start count sgl with
          | .error e => .error e
          | .ok sgl =>
              .ok ⟨{ sgm with sgl := sgl, pages := pages, mappedPages := pinned.rc }, nrPages, []⟩

/-- The loop of `sgm_kernel_pages` from page `i` on: the page array, and whether all pages are there. -/
def kernelPages (vmallocToPage : ULong → Option P) :
    Nat → Nat → ULong → List (Option P) → Except Crash (List (Option P) × Bool)
  | 0, _, _, pages => .ok (pages, true)
  | todo + 1, i, virt, pages =>
      if i < pages.length then
        let page := vmallocToPage virt
        let pages := pages.set i page
        if page.isNone then .ok (pages, false)
        else kernelPages vmallocToPage todo (i + 1) (virt + pageBytes) pages
      else .error .outOfBounds

/-- `sgm_kernel_pages`.  `vmallocToPage` answers for `vmalloc_to_page`.  With 64-bit addresses no page
is in high memory. -/
def sgmKernelPages (vmallocToPage : ULong → Option P) (sgm : SgMapping P) (start count : ULong) :
    Except Crash (SgmResult P) :=
  let nrPages := nrPages start count
  if 0 < sgm.mappedPages then .error .bugOn
  else if start + count < start then .ok ⟨sgm, -einval, []⟩
  else if sgm.maxPages < nrPages then .ok ⟨sgm, -einval, []⟩
  else if count = 0 then .ok ⟨sgm, 0, []⟩
  else
    match sgInitTable (BitVec.ofInt 32 nrPages) sgm.sgl with
    | .error e => .error e
    | .ok sgl =>
        match kernelPages vmallocToPage nrPages.toNat 0 start sgm.pages with
        | .error e => .error e
        | .ok (pages, false) =>
            .ok ⟨{ sgm with sgl := sgl, pages := pages, mappedPages := 0 }, -enomem, []⟩
        | .ok (pages, true) =>
            match populate pages nrPages start count sgl with
            | .error e => .error e
            | .ok sgl =>
                .ok ⟨{ sgm with sgl := sgl, pages := pages, mappedPages := nrPages }, nrPages, []⟩

/-- `sgm_dirty_pages`: the pages that are marked. -/
def sgmDirtyPages (sgm : SgMapping P) : List (Option P) := sgm.pages.take sgm.mappedPages.toNat

/-- `sgm_put_user_pages`, and the pages that it marks as dirty. -/
def sgmPutUserPages (dirtied : Bool) (sgm : SgMapping P) : SgmResult P × List (Option P) :=
  (⟨{ sgm with mappedPages := 0 }, 0, sgm.pages.take sgm.mappedPages.toNat⟩,
    if dirtied then sgm.sgmDirtyPages else [])

/-- `sg_destroy_mapper` -/
def sgDestroyMapper (sgm : SgMapping P) : Except Crash Unit :=
  if 0 < sgm.mappedPages then .error .bugOn else .ok ()

end SgMapping

/-! ## The arithmetic of the pages -/

/-- What the callers ask for: a buffer inside the address space, no longer than the mapper is made
for, and a mapper for one transfer at most. -/
structure SgmRequest (maxLen start count : ULong) : Prop where
  pos : 1 ≤ count.toNat
  le : count.toNat ≤ maxLen.toNat
  max : maxLen.toNat ≤ xdmaTransferMaxBytes
  space : start.toNat + count.toNat ≤ 2 ^ 64 - 1

/-- The number of a page. -/
theorem frame_toNat (x : ULong) : ((x &&& pageMask) >>> pageShift).toNat = x.toNat / pageSize := by
  have hmask : pageMask >>> pageShift = BitVec.ofNat 64 (2 ^ 52 - 1) := by decide
  have hlt : x.toNat / 2 ^ 12 < 2 ^ 52 := Nat.div_lt_of_lt_mul x.isLt
  have hdiv : (x >>> pageShift).toNat = x.toNat / 2 ^ 12 := by
    rw [BitVec.toNat_ushiftRight, Nat.shiftRight_eq_div_pow]
    rfl
  rw [BitVec.ushiftRight_and_distrib, hmask, Fields.and_mask_toNat _ (by decide), hdiv]
  exact Nat.mod_eq_of_lt hlt

/-- The place of an address on its page. -/
theorem offset_toNat (x : ULong) : ((x &&& ~~~pageMask).setWidth 32).toNat = x.toNat % pageSize := by
  have hmask : ~~~pageMask = BitVec.ofNat 64 (2 ^ 12 - 1) := by decide
  have hlt := Nat.mod_lt x.toNat (Nat.two_pow_pos 12)
  rw [hmask, BitVec.toNat_setWidth, Fields.and_mask_toNat x (by decide)]
  exact Nat.mod_eq_of_lt (Nat.lt_trans hlt (by decide))

/-- A number that an `int` can hold. -/
theorem setWidth_toInt {x : ULong} (h : x.toNat < 2 ^ 31) : (x.setWidth 32).toInt = x.toNat := by
  have hword : (x.setWidth 32).toNat = x.toNat := by
    rw [BitVec.toNat_setWidth]
    exact Nat.mod_eq_of_lt (by omega)
  rw [BitVec.toInt_eq_toNat_of_lt (by omega), hword]

/-- The number of pages that a buffer touches. -/
def pagesTouched (start count : ULong) : Nat :=
  (touched pageSize start.toNat (start.toNat + count.toNat)).card

namespace SgmRequest

variable {maxLen start count : ULong}

theorem pagesTouched_eq (h : SgmRequest maxLen start count) :
    pagesTouched start count = (start.toNat + count.toNat - 1) / pageSize - start.toNat / pageSize + 1 :=
  card_touched (by decide) (by have := h.pos; omega)

/-- The mapper has room for every place of the buffer on its first page. -/
theorem pagesTouched_le (h : SgmRequest maxLen start count) :
    pagesTouched start count ≤ maxLen.toNat / pageSize + 2 :=
  Nat.le_trans (card_touched_le (by decide) (Nat.lt_add_of_pos_right h.pos))
    (Nat.add_le_add_right (Nat.div_le_div_right h.le) 2)

theorem maxPages_le (h : SgmRequest maxLen start count) : maxLen.toNat / pageSize ≤ 2048 :=
  Nat.div_le_of_le_mul h.max

theorem nrPages_eq (h : SgmRequest maxLen start count) :
    SgMapping.nrPages start count = pagesTouched start count := by
  have hpos := h.pos
  have hspace := h.space
  have hcap := h.pagesTouched_le
  have hmax := h.maxPages_le
  have hlast : (start + count - 1).toNat = start.toNat + count.toNat - 1 := by
    rw [BitVec.toNat_sub_of_le, BitVec.toNat_add, Nat.mod_eq_of_lt (by omega)]
    · rfl
    · rw [BitVec.le_def, BitVec.toNat_add, Nat.mod_eq_of_lt (by omega)]
      exact Nat.le_trans hpos (Nat.le_add_left ..)
  have hfirst := frame_toNat start
  have hlast' := frame_toNat (start + count - 1)
  rw [hlast] at hlast'
  unfold SgMapping.nrPages
  dsimp only
  generalize (start &&& pageMask) >>> pageShift = first at hfirst ⊢
  generalize ((start + count - 1) &&& pageMask) >>> pageShift = last at hlast' ⊢
  have hle : first ≤ last := by
    rw [BitVec.le_def, hfirst, hlast']
    exact Nat.div_le_div_right (by omega)
  have hnum : (last - first + 1).toNat = pagesTouched start count := by
    have heq := h.pagesTouched_eq
    have hone : (1 : ULong).toNat = 1 := rfl
    rw [BitVec.toNat_add, BitVec.toNat_sub_of_le hle, hfirst, hlast', hone, ← heq]
    exact Nat.mod_eq_of_lt (by omega)
  rw [setWidth_toInt (by rw [hnum]; omega), hnum]

end SgmRequest

/-! ## The table -/

/-- Entry `i` of `n` for the buffer from `a` up to `b`: its part on the page it touches after `i`
others. -/
def tableEntry (pageAt : Nat → P) (a b n i : Nat) : SgEntry P :=
  let p := a / pageSize + i
  ⟨some (pageAt p), BitVec.ofNat 32 (partStart pageSize a p - p * pageSize),
    BitVec.ofNat 32 (partLen pageSize a b p), decide (i + 1 = n)⟩

/-- The first `k` entries are those of the table, and the others are as `sg_init_table` left them. -/
structure Filled (pageAt : Nat → P) (a b n k : Nat) (sgl : List (SgEntry P)) : Prop where
  done : ∀ i, i < k → sgl[i]? = some (tableEntry pageAt a b n i)
  rest : ∀ i, k ≤ i → i < n → sgl[i]? = some ⟨none, 0, 0, decide (i + 1 = n)⟩

namespace Filled

variable {pageAt : Nat → P} {a b n k : Nat} {sgl : List (SgEntry P)} {pages : List (Option P)}

theorem setPage (h : Filled pageAt a b n k sgl) (hk : k < n)
    (hpages : ∀ i, i < n → pages[i]? = some (some (pageAt (a / pageSize + i)))) (len offset : Word) :
    sgSetPage pages k len offset sgl = .ok (sgl.modify k fun entry =>
      { entry with page := some (pageAt (a / pageSize + k)), offset := offset, length := len }) := by
  have hlt : k < sgl.length := (List.getElem?_eq_some_iff.mp (h.rest k (Nat.le_refl k) hk)).1
  unfold sgSetPage
  simp only [hpages k hk, if_pos hlt]

theorem modify (h : Filled pageAt a b n k sgl) (hk : k < n) {f : SgEntry P → SgEntry P}
    (hf : f ⟨none, 0, 0, decide (k + 1 = n)⟩ = tableEntry pageAt a b n k) :
    Filled pageAt a b n (k + 1) (sgl.modify k f) where
  done := by
    intro i hi
    rcases Nat.lt_succ_iff_lt_or_eq.mp hi with hlt | rfl
    · rw [List.getElem?_modify_ne _ _ (by omega), h.done i hlt]
    · rw [List.getElem?_modify_eq, h.rest i (Nat.le_refl i) hk]
      exact congrArg some hf
  rest := by
    intro i hi hin
    rw [List.getElem?_modify_ne _ _ (by omega), h.rest i (by omega) hin]

/-- A page behind the first one, with `len` bytes. -/
theorem step (h : Filled pageAt a b n k sgl) (hk : k < n)
    (hpages : ∀ i, i < n → pages[i]? = some (some (pageAt (a / pageSize + i)))) {len : Word}
    (hstart : partStart pageSize a (a / pageSize + k) = (a / pageSize + k) * pageSize)
    (hlen : len = BitVec.ofNat 32 (partLen pageSize a b (a / pageSize + k))) :
    ∃ sgl', sgSetPage pages k len 0 sgl = .ok sgl' ∧ Filled pageAt a b n (k + 1) sgl' := by
  refine ⟨_, h.setPage hk hpages len 0, h.modify hk ?_⟩
  unfold tableEntry
  dsimp only
  rw [hstart, Nat.sub_self, hlen]
  rfl

end Filled

/-! ## Filling it -/

theorem length_sgSetPage {pages : List (Option P)} {i : Nat} {len offset : Word}
    {sgl sgl' : List (SgEntry P)} (h : sgSetPage pages i len offset sgl = .ok sgl') :
    sgl'.length = sgl.length := by
  unfold sgSetPage at h
  split at h
  · cases h
  split at h
  · cases h
    exact List.length_modify ..
  · cases h

theorem length_fillPage {pages : List (Option P)} {i : Nat} {s s' : List (SgEntry P) × ULong}
    (h : SgMapping.fillPage pages i s = .ok s') : s'.1.length = s.1.length := by
  unfold SgMapping.fillPage at h
  split at h
  · cases h
  cases hset : sgSetPage pages i (pageBytes.setWidth 32) 0 s.1 with
  | error e =>
      rw [hset] at h
      cases h
  | ok sgl =>
      rw [hset] at h
      cases h
      exact length_sgSetPage hset

/-- No entry is added or lost. -/
theorem length_populate {pages : List (Option P)} {nrPages : Int} {start count : ULong}
    {sgl sgl' : List (SgEntry P)} (h : SgMapping.populate pages nrPages start count sgl = .ok sgl') :
    sgl'.length = sgl.length := by
  unfold SgMapping.populate at h
  dsimp only at h
  split at h
  · cases h
  rename_i sgl₁ hfirst
  have hfirst_len := length_sgSetPage hfirst
  split at h
  · split at h
    · cases h
    rename_i sgl₂ left hloop
    have hloop_len := forUpTo_ok (fun _ (s : List (SgEntry P) × ULong) => s.1.length = sgl.length)
      ((List.length_modify ..).trans hfirst_len)
      (fun _ _ _ _ hlen hbody => (length_fillPage hbody).trans hlen) hloop
    split at h
    · cases h
    · exact (length_sgSetPage h).trans hloop_len
  · cases h
    exact (List.length_modify ..).trans hfirst_len

section Populate

variable {pageAt : Nat → P} {pages : List (Option P)} {start count : ULong} {a b n : Nat}

/-- The pages between the first and the last one are used as a whole, so there is always a page left
to count down. -/
theorem fillPages (hon : OnPages pageSize a b n)
    (hpages : ∀ i, i < n → pages[i]? = some (some (pageAt (a / pageSize + i))))
    {sgl : List (SgEntry P)} (hfirst : Filled pageAt a b n 1 sgl) {left : ULong}
    (hleft : left.toNat = b - (a / pageSize + 1) * pageSize) (m : Nat) (hm : m + 2 ≤ n) :
    ∃ s, forUpTo (fun i => SgMapping.fillPage pages (i + 1)) m (sgl, left) = .ok s ∧
      Filled pageAt a b n (m + 1) s.1 ∧ s.2.toNat = b - (a / pageSize + (m + 1)) * pageSize := by
  refine forUpTo_total (fun i (s : List (SgEntry P) × ULong) => Filled pageAt a b n (i + 1) s.1 ∧
    s.2.toNat = b - (a / pageSize + (i + 1)) * pageSize) ⟨hfirst, hleft⟩ ?_
  rintro i ⟨sgl', left'⟩ hi ⟨hfilled, hleft'⟩
  dsimp only at hfilled hleft'
  have hmore := hon.more_pages (show i + 1 + 1 < n by omega)
  rw [Nat.succ_mul] at hmore
  have hpage : pageBytes ≤ left' := by
    rw [BitVec.le_def, hleft']
    show pageSize ≤ _
    omega
  have hstart := hon.partStart_eq (Nat.succ_pos i)
  have hlen : partLen pageSize a b (a / pageSize + (i + 1)) = pageSize := by
    rw [hon.partLen_eq (by omega), hstart, Nat.succ_mul, Nat.add_sub_cancel_left]
  obtain ⟨sgl'', hset, hfilled'⟩ := hfilled.step (by omega) hpages hstart
    (show pageBytes.setWidth 32 = BitVec.ofNat 32 (partLen pageSize a b (a / pageSize + (i + 1))) by
      rw [hlen]
      rfl)
  refine ⟨(sgl'', left' - pageBytes), ?_, hfilled', ?_⟩
  · unfold SgMapping.fillPage
    rw [if_neg (BitVec.not_lt.mpr hpage), hset]
    rfl
  · show (left' - pageBytes).toNat = _
    rw [BitVec.toNat_sub_of_le hpage, hleft', show a / pageSize + (i + 1 + 1) = a / pageSize + (i + 1) + 1
      by omega, Nat.succ_mul]
    show _ - pageSize = _
    omega

/-- The last page takes what is left. -/
theorem fillRest (hon : OnPages pageSize a b n) (hmulti : 1 < n)
    (hpages : ∀ i, i < n → pages[i]? = some (some (pageAt (a / pageSize + i))))
    {sgl : List (SgEntry P)} (hfirst : Filled pageAt a b n 1 sgl) {left : ULong}
    (hleft : left.toNat = b - (a / pageSize + 1) * pageSize) :
    ∃ s sgl', forUpTo (fun i => SgMapping.fillPage pages (i + 1)) (n - 2) (sgl, left) = .ok s ∧
      ¬ pageBytes < s.2 ∧ sgSetPage pages (n - 1) (s.2.setWidth 32) 0 s.1 = .ok sgl' ∧
      Filled pageAt a b n n sgl' := by
  obtain ⟨s, hloop, hfilled, hrest⟩ := fillPages hon hpages hfirst hleft (n - 2) (by omega)
  have hfits := hon.fits
  rw [show n - 2 + 1 = n - 1 by omega] at hfilled hrest
  rw [show a / pageSize + n = a / pageSize + (n - 1) + 1 by omega, Nat.succ_mul] at hfits
  have hstart := hon.partStart_eq (show 0 < n - 1 by omega)
  have hlen : s.2.setWidth 32 = BitVec.ofNat 32 (partLen pageSize a b (a / pageSize + (n - 1))) := by
    rw [hon.partLen_last (Nat.sub_add_cancel hon.more), hstart, ← hrest, BitVec.ofNat_toNat]
  obtain ⟨sgl', hset, hdone⟩ := hfilled.step (Nat.sub_one_lt_of_lt hmulti) hpages hstart hlen
  rw [Nat.sub_add_cancel hon.more] at hdone
  refine ⟨s, sgl', hloop, ?_, hset, hdone⟩
  rw [BitVec.lt_def, hrest]
  show ¬ pageSize < _
  omega

/-- The first page of several is used up to its end. -/
theorem firstLength (hon : OnPages pageSize a b n) (hmulti : 1 < n) (hb : count.toNat = b - a) {offset : Word}
    (hoff : offset.toNat = a % pageSize) {length : Word}
    (hlength : length = (pageBytes - offset.setWidth 64).setWidth 32) :
    length.toNat = partLen pageSize a b (a / pageSize) ∧
      (count - length.setWidth 64).toNat = b - (a / pageSize + 1) * pageSize := by
  have hsize : pageSize = 4096 := rfl
  have hmod := Nat.mod_lt a (show 0 < pageSize by decide)
  have hsplit := Nat.div_add_mod' a pageSize
  have hpart := hon.partLen_eq (show 0 + 1 < n from hmulti)
  have hmore := hon.more_pages (show 0 + 1 < n from hmulti)
  rw [Nat.add_zero, Nat.succ_mul] at hmore
  rw [Nat.add_zero, partStart, Nat.max_eq_left (Nat.div_mul_le_self a pageSize), Nat.succ_mul] at hpart
  have hlen : length.toNat = pageSize - a % pageSize := by
    have hle : offset.setWidth 64 ≤ pageBytes := by
      rw [BitVec.le_def, BitVec.toNat_setWidth_of_le (by decide), hoff]
      exact Nat.le_of_lt hmod
    rw [hlength, BitVec.toNat_setWidth, BitVec.toNat_sub_of_le hle,
      BitVec.toNat_setWidth_of_le (by decide), hoff]
    show (pageSize - a % pageSize) % 2 ^ 32 = _
    exact Nat.mod_eq_of_lt (by omega)
  have hle : length.setWidth 64 ≤ count := by
    rw [BitVec.le_def, BitVec.toNat_setWidth_of_le (by decide), hlen, hb]
    omega
  constructor
  · rw [hpart, hlen]
    omega
  · rw [BitVec.toNat_sub_of_le hle, BitVec.toNat_setWidth_of_le (by decide), hlen, hb, Nat.succ_mul]
    omega

/-- The table that is made for a buffer whose pages are all in the page array. -/
theorem populate_table (hon : OnPages pageSize a b n) (ha : start.toNat = a) (hb : count.toNat = b - a)
    (hpages : ∀ i, i < n → pages[i]? = some (some (pageAt (a / pageSize + i))))
    {sgl : List (SgEntry P)} (hinit : Filled pageAt a b n 0 sgl) :
    ∃ sgl', SgMapping.populate pages n start count sgl = .ok sgl' ∧ Filled pageAt a b n n sgl' := by
  have hoff : ((start &&& ~~~pageMask).setWidth 32).toNat = a % pageSize := by rw [offset_toNat, ha]
  have hstart : partStart pageSize a (a / pageSize) = a :=
    Nat.max_eq_left (Nat.div_mul_le_self a pageSize)
  have hset := hinit.setPage hon.more hpages 0 ((start &&& ~~~pageMask).setWidth 32)
  unfold SgMapping.populate
  simp only [hset]
  generalize ((start &&& ~~~pageMask).setWidth 32) = offset at hoff ⊢
  -- the first entry, with the length that it gets
  have hentry : ∀ len : Word, len.toNat = partLen pageSize a b (a / pageSize) →
      Filled pageAt a b n 1 (sgl.modify 0 ((fun entry => { entry with length := len }) ∘ fun entry =>
        { entry with page := some (pageAt (a / pageSize + 0)), offset := offset, length := 0 })) := by
    intro len hlen
    refine hinit.modify hon.more ?_
    have hsplit := Nat.div_add_mod' a pageSize
    unfold tableEntry
    dsimp only [Function.comp]
    rw [Nat.add_zero, ← hlen, hstart, show a - a / pageSize * pageSize = a % pageSize by omega, ← hoff,
      BitVec.ofNat_toNat, BitVec.ofNat_toNat, BitVec.setWidth_eq, BitVec.setWidth_eq]
  by_cases hmulti : 1 < n
  · obtain ⟨hlen, hleft⟩ := firstLength hon hmulti hb hoff rfl
    obtain ⟨s, sgl', hloop, hbug, hlast, hdone⟩ := fillRest hon hmulti hpages (hentry _ hlen) hleft
    refine ⟨sgl', ?_, hdone⟩
    rw [if_pos (by omega), List.modify_modify_eq, show ((n : Int) - 2).toNat = n - 2 by omega, hloop]
    dsimp only
    rw [if_neg hbug, show ((n : Int) - 1).toNat = n - 1 by omega, hlast]
  · obtain rfl : n = 1 := Nat.le_antisymm (Nat.not_lt.mp hmulti) hon.more
    rw [if_neg (by decide), List.modify_modify_eq]
    refine ⟨_, rfl, hentry _ ?_⟩
    have hsize : pageSize = 4096 := rfl
    have hle := Nat.div_mul_le_self a pageSize
    have hfits := hon.fits
    have hlen := hon.partLen_last (Nat.zero_add 1)
    rw [Nat.succ_mul] at hfits
    rw [Nat.add_zero, hstart] at hlen
    rw [hlen, BitVec.toNat_setWidth, hb]
    exact Nat.mod_eq_of_lt (by omega)

end Populate

end WzXdma
