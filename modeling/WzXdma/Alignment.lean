import WzXdma.NonIncr

/-!
# Alignment of read and write requests

`check_transfer_align` looks at a request before it is cut into descriptors: at the address of the
buffer, its length and the position on the device.  The engine sees the descriptors only, which start
where the buffer or a page of it does.

The register `alignments` gives the numbers of bytes as powers of two, and the kernel maps pages
to bus addresses that are multiples of the page size.
-/

namespace WzXdma

open Lib Lib.Runs

/-! ## The check -/

/-- `addr_align`, `len_granularity` and `addr_bits` of an engine, of type `int`. -/
structure Alignments where
  addrAlign : Word
  lenGranularity : Word
  addrBits : Word
  deriving DecidableEq, Repr

/-- `engine_alignments`, where `w` is the register. -/
def engineAlignments (w : Word) : Alignments :=
  if w ≠ 0 then
    { addrAlign := (w &&& 0x00ff0000) >>> 16
      lenGranularity := (w &&& 0x0000ff00) >>> 8
      addrBits := w &&& 0x000000ff }
  else { addrAlign := 1, lenGranularity := 1, addrBits := 64 }

/-- `check_transfer_align` -/
def checkTransferAlign (engine : XdmaEngine) (al : Alignments) (buf count pos : BitVec 64)
    (sync : Bool) : Int :=
  if engine.streaming || engine.nonIncrAddr then
    let bufLsb := buf.setWidth 32 &&& (al.addrAlign - 1)
    let lenLsb := count &&& (al.lenGranularity.signExtend 64 - 1)
    let posLsb := pos.setWidth 32 &&& (al.addrAlign - 1)
    if bufLsb ≠ 0 then -einval
    else if engine.streaming = false ∧ posLsb ≠ 0 ∧ sync = true then -einval
    else if lenLsb ≠ 0 then -einval
    else 0
  else
    let bufLsb := buf.setWidth 32 &&& (al.addrAlign - 1)
    let posLsb := pos.setWidth 32 &&& (al.addrAlign - 1)
    if bufLsb ≠ posLsb then -einval else 0

/-- `char_sgdma_read_write` -/
def charSgdmaReadWrite (p : Polled) (al : Alignments) (buf count : Nat) (pos : DmaAddr)
    (dirToDev : Bool) (env : Nat → DataEnv) : DataState × Except Crash Int :=
  if dirToDev ≠ p.engine.dirToDev then (.first p buf count pos, .ok (-einval))
  else
    let rc := checkTransferAlign p.engine al (BitVec.ofNat 64 buf) (BitVec.ofNat 64 count) pos true
    if rc ≠ 0 then (.first p buf count pos, .ok rc)
    else transferData p buf count pos env

/-- What the engine needs of the addresses of a descriptor. -/
def DescAligned (engine : XdmaEngine) (align : Nat) (d : XdmaDesc) : Prop :=
  if engine.streaming || engine.nonIncrAddr then
    align ∣ (d.moves engine.dirToDev).start.1.toNat ∧
      (engine.streaming = false → align ∣ (d.moves engine.dirToDev).start.2.toNat)
  else (d.moves engine.dirToDev).start.1.toNat % align = (d.moves engine.dirToDev).start.2.toNat % align

/-- What `check_transfer_align` asks of a request, with the numbers of bytes as powers of two. -/
def RequestAligned (engine : XdmaEngine) (a g buf count pos : Nat) : Prop :=
  if engine.streaming || engine.nonIncrAddr then
    2 ^ a ∣ buf ∧ (engine.streaming = false → 2 ^ a ∣ pos) ∧ 2 ^ g ∣ count
  else buf % 2 ^ a = pos % 2 ^ a

/-! ## Masks -/

section Masks

variable {a g : Nat} {w : Word}

theorem addrAlign_lt (w : Word) : (engineAlignments w).addrAlign.toNat < 2 ^ 8 := by
  unfold engineAlignments
  split
  · show ((w &&& 0x00ff0000) >>> 16).toNat < 2 ^ 8
    have hle : (w &&& 0x00ff0000).toNat ≤ 0x00ff0000 := Nat.and_le_right
    rw [BitVec.toNat_ushiftRight, Nat.shiftRight_eq_div_pow]
    omega
  · decide

theorem lenGranularity_lt (w : Word) : (engineAlignments w).lenGranularity.toNat < 2 ^ 8 := by
  unfold engineAlignments
  split
  · show ((w &&& 0x0000ff00) >>> 8).toNat < 2 ^ 8
    have hle : (w &&& 0x0000ff00).toNat ≤ 0x0000ff00 := Nat.and_le_right
    rw [BitVec.toNat_ushiftRight, Nat.shiftRight_eq_div_pow]
    omega
  · decide

theorem lt_eight_of_pow {n k : Nat} (h : n < 2 ^ 8) (hk : n = 2 ^ k) : k < 8 := by
  rw [hk] at h
  exact (Nat.pow_lt_pow_iff_right (by decide)).mp h

/-- Masking with a power of two less one is the remainder. -/
theorem toNat_and_mask {n k : Nat} (x m : BitVec n) (hm : m.toNat = 2 ^ k) :
    (x &&& (m - 1)).toNat = x.toNat % 2 ^ k := by
  have hpos : 0 < 2 ^ k := Nat.two_pow_pos k
  have hlt := m.isLt
  have hn : 0 < n := by
    rcases Nat.eq_zero_or_pos n with rfl | hn
    · rw [hm] at hlt
      exact absurd hlt (by omega)
    · exact hn
  have hone : (1 : BitVec n).toNat = 1 := by
    rw [BitVec.ofNat_eq_ofNat, BitVec.toNat_ofNat, Nat.mod_eq_of_lt (Nat.one_lt_two_pow (by omega))]
  have hle : (1 : BitVec n) ≤ m := by
    rw [BitVec.le_def, hone, hm]
    exact hpos
  rw [BitVec.toNat_and, BitVec.toNat_sub_of_le hle, hone, hm, Nat.and_two_pow_sub_one_eq_mod]

theorem lsb_toNat (x : BitVec 64) {m : Word} (hm : m.toNat = 2 ^ a) (ha : a < 8) :
    (x.setWidth 32 &&& (m - 1)).toNat = x.toNat % 2 ^ a := by
  have hdvd : 2 ^ a ∣ 2 ^ 32 := Nat.pow_dvd_pow 2 (by omega)
  rw [toNat_and_mask _ m hm, BitVec.toNat_setWidth, Nat.mod_mod_of_dvd _ hdvd]

theorem len_lsb_toNat (x : BitVec 64) {m : Word} (hm : m.toNat = 2 ^ g) (hg : g < 8) :
    (x &&& (m.signExtend 64 - 1)).toNat = x.toNat % 2 ^ g := by
  have hsmall : m.toNat < 2 ^ 8 := by
    rw [hm]
    exact Nat.pow_lt_pow_right (by decide) hg
  have hmsb : m.msb = false := by
    rw [BitVec.msb_eq_decide, decide_eq_false (by omega)]
  have hext : (m.signExtend 64).toNat = 2 ^ g := by
    rw [BitVec.signExtend_eq_setWidth_of_msb_false hmsb, BitVec.toNat_setWidth,
      Nat.mod_eq_of_lt (by omega), hm]
  exact toNat_and_mask x _ hext

theorem bitVec_eq_zero_iff {n : Nat} (x : BitVec n) : x = 0 ↔ x.toNat = 0 := by
  rw [← BitVec.toNat_inj, BitVec.ofNat_eq_ofNat, BitVec.toNat_ofNat, Nat.zero_mod]

theorem checkTransferAlign_eq_zero_iff (engine : XdmaEngine)
    (ha : (engineAlignments w).addrAlign.toNat = 2 ^ a)
    (hg : (engineAlignments w).lenGranularity.toNat = 2 ^ g) (buf count pos : BitVec 64) :
    checkTransferAlign engine (engineAlignments w) buf count pos true = 0 ↔
      RequestAligned engine a g buf.toNat count.toNat pos.toNat := by
  have ha' := lt_eight_of_pow (addrAlign_lt w) ha
  have hg' := lt_eight_of_pow (lenGranularity_lt w) hg
  have hbuf := lsb_toNat buf ha ha'
  have hpos := lsb_toNat pos ha ha'
  have hlen := len_lsb_toNat count hg hg'
  have hne : -einval ≠ 0 := by decide
  unfold checkTransferAlign RequestAligned
  split
  · dsimp only
    rw [Nat.dvd_iff_mod_eq_zero, Nat.dvd_iff_mod_eq_zero, Nat.dvd_iff_mod_eq_zero, ← hbuf, ← hpos,
      ← hlen, ← bitVec_eq_zero_iff, ← bitVec_eq_zero_iff, ← bitVec_eq_zero_iff]
    split
    · rename_i hno
      exact ⟨fun h => absurd h hne, fun h => absurd h.1 hno⟩
    · rename_i hyes
      split
      · rename_i hno
        exact ⟨fun h => absurd h hne, fun h => absurd (h.2.1 hno.1) hno.2.1⟩
      · rename_i hyes'
        split
        · rename_i hno
          exact ⟨fun h => absurd h hne, fun h => absurd h.2.2 hno⟩
        · rename_i hyes''
          exact ⟨fun _ => ⟨not_not.mp hyes, fun hs => not_not.mp fun hp => hyes' ⟨hs, hp, rfl⟩,
            not_not.mp hyes''⟩, fun _ => rfl⟩
  · dsimp only
    rw [← hbuf, ← hpos, BitVec.toNat_inj]
    split
    · rename_i hno
      exact ⟨fun h => absurd h hne, fun h => absurd h hno⟩
    · rename_i hyes
      exact ⟨fun _ => not_not.mp hyes, fun _ => rfl⟩

end Masks

/-! ## Where descriptors start -/

section Starts

variable {dma : Nat → DmaAddr}

/-- An entry for bytes of the buffer from position `y` on, where the buffer or a page of it starts. -/
def StartsAt (dma : Nat → DmaAddr) (start y : Nat) (s : Seg DmaAddr) : Prop :=
  s.start = dmaByte dma y ∧ (y = start ∨ pageSize ∣ y)

/-- The entries of the touched pages of a buffer. -/
def pageEntries (start count : Nat) : List Scatterlist :=
  (List.range (Paging.touched pageSize start (start + count)).card).map fun i =>
    pagePart start (start + count) (start / pageSize + i)

/-- The table of a buffer has these entries, and describes it. -/
theorem pageEntries_describes {start count : Nat} (hcount : 0 < count)
    (hspace : start + count < 2 ^ 64) :
    ∃ nrPages : Nat, sgmPages (sgCreateMapper count) start count true =
        .ok ((nrPages : Int), pageEntries start count) ∧
      0 < nrPages ∧ (pageEntries start count).length = nrPages ∧
      Describes dma start count (pageEntries start count) := by
  have hab : start < start + count := Nat.lt_add_of_pos_right hcount
  obtain ⟨nrPages, sgl, hsgl, hnr, hlen, hdesc⟩ := @sgmPages_describes dma start count hcount hspace
  have heq := hsgl.symm.trans
    (sgmPages_eq hcount hspace rfl (Paging.card_touched_le (by decide) hab))
  rw [Except.ok.injEq, Prod.mk.injEq] at heq
  obtain rfl : sgl = pageEntries start count := heq.2
  exact ⟨nrPages, hsgl, hnr, hlen, hdesc⟩

theorem entries_startAt {a b n : Nat} (hon : Paging.OnPages pageSize a b n) (hab : a < b) (todo : Nat) :
    ∀ i, i + todo = n →
      EachAt (StartsAt dma a) (Paging.partStart pageSize a (a / pageSize + i))
        (pciMapSg dma ((List.range' i todo).map fun j => pagePart a b (a / pageSize + j))) := by
  induction todo with
  | zero => exact fun _ _ => trivial
  | succ todo ih =>
      intro i hi
      have hpos : 0 < pageSize := by decide
      obtain ⟨hlen, hpage, hfits⟩ := hon.bounds hpos hab (show i < n by omega)
      have hplace := @Paging.part_place pageSize a (a / pageSize + i) 0 hpage (by omega)
      rw [Nat.add_zero, Nat.add_zero] at hplace
      have hcons : List.range' i (todo + 1) = i :: List.range' (i + 1) todo := List.range'_succ
      rw [hcons, List.map_cons]
      refine ⟨⟨?_, ?_⟩, ?_⟩
      · show _ = dma _ + BitVec.ofNat 64 _
        rw [hplace.1, hplace.2]
        rfl
      · rcases Nat.eq_zero_or_pos i with rfl | hi'
        · refine .inl ?_
          rw [Nat.add_zero]
          exact Nat.max_eq_left (Nat.div_mul_le_self a pageSize)
        · exact .inr ⟨a / pageSize + i, by rw [hon.partStart_eq hi', Nat.mul_comm]⟩
      · show EachAt _ (Paging.partStart pageSize a (a / pageSize + i) +
          Paging.partLen pageSize a b (a / pageSize + i)) _
        rcases Nat.eq_zero_or_pos todo with rfl | hmore
        · exact trivial
        · rw [hon.part_next (by omega)]
          exact ih (i + 1) (by omega)

theorem pageEntries_startAt {start count : Nat} (hcount : 0 < count) :
    EachAt (StartsAt dma start) start (pciMapSg dma (pageEntries start count)) := by
  have hab : start < start + count := Nat.lt_add_of_pos_right hcount
  have hon := Paging.OnPages.of_touched (show 0 < pageSize by decide) hab
  have hall := @entries_startAt dma start (start + count) _ hon hab _ 0 (Nat.zero_add _)
  rw [Nat.add_zero, Paging.partStart, Nat.max_eq_left (Nat.div_mul_le_self start pageSize)] at hall
  unfold pageEntries
  rw [List.range_eq_range']
  exact hall

/-- A run starts where its first entry does, at the device address of its position. -/
theorem each_runMoves {mode : BuildMode} {Q : Nat → Seg DmaAddr → Prop} (epAddr : DmaAddr)
    (start : Nat) {runs : List (List (Seg DmaAddr))} (hne : ∀ run ∈ runs, run ≠ []) (n : Nat)
    (h : EachAt Q (start + n) runs.flatten) :
    EachAt (fun y m => (∃ s, Q y s ∧ m.start.1 = s.start) ∧
        m.start.2 = mode.epAddr epAddr (y - start))
      (start + n) (runMoves mode (mode.epAddr epAddr n) runs) := by
  induction runs generalizing n with
  | nil => exact trivial
  | cons run rest ih =>
      obtain ⟨hrun, hrest⟩ := h.of_append
      rw [runMoves]
      refine ⟨⟨?_, ?_⟩, ?_⟩
      · cases run with
        | nil => exact absurd rfl (hne [] List.mem_cons_self)
        | cons s tail => exact ⟨s, hrun.1, rfl⟩
      · rw [Nat.add_sub_cancel_left]
      · rw [Nat.add_assoc] at hrest
        rw [Coalesced.epAddr_add]
        show EachAt _ (start + n + total run) _
        rw [Nat.add_assoc]
        exact ih (fun r hr => hne r (List.mem_cons_of_mem run hr)) (n + total run) hrest

theorem total_runMoves (mode : BuildMode) (epAddr : DmaAddr) (runs : List (List (Seg DmaAddr))) :
    total (runMoves mode epAddr runs) = total runs.flatten := by
  induction runs generalizing epAddr with
  | nil => rfl
  | cons run rest ih => rw [runMoves, total_cons, ih, List.flatten_cons, total_append]

/-- In every mode, the descriptors of a transfer start where the buffer or a page of it does. -/
theorem transferCreate_starts {env : CreateEnv} {mode : BuildMode} {start cnt : Nat}
    {epAddr : DmaAddr} {k k' : Kernel} {t : Nat} (hcnt : 0 < cnt) (hspace : start + cnt < 2 ^ 64)
    (h : k.transferCreate env start cnt epAddr mode = .ok (k', some t)) :
    EachAt (fun y m => m.start.1 = dmaByte env.dma y ∧ m.start.2 = mode.epAddr epAddr (y - start) ∧
        (y = start ∨ pageSize ∣ y)) start
      ((k'.transferDescs t).map (·.moves mode.dirToDev)) ∧
      total ((k'.transferDescs t).map (·.moves mode.dirToDev)) = cnt ∧ k'.transferDescs t ≠ [] := by
  obtain ⟨nrPages, hsgl, hnr, hlen, hdesc⟩ := @pageEntries_describes env.dma start cnt hcnt hspace
  obtain ⟨k'', t'', -, descs, hcreate, -, -, hroom, hdescs⟩ :=
    transferCreate_of_pages (granted_of_transferCreate h) mode hcnt hnr hlen hsgl k epAddr
  obtain ⟨rfl, rfl⟩ : k' = k'' ∧ t = t'' := by
    rw [h, Except.ok.injEq, Prod.mk.injEq, Option.some.injEq] at hcreate
    exact hcreate
  have hne : pciMapSg env.dma (pageEntries start cnt) ≠ [] := by
    refine List.ne_nil_of_length_pos ?_
    rw [pciMapSg, List.length_map, hlen]
    exact hnr
  obtain ⟨runs, hruns⟩ := @transferBuild_coalesces mode _ hne hdesc.short_mapped epAddr descs
    (by rw [hroom, pciMapSg, List.length_map, hlen])
  have hmoves := (createDescs_moves hruns.holds).2
  rw [← hdescs] at hmoves
  have heach : EachAt (StartsAt env.dma start) (start + 0) runs.flatten := by
    rw [hruns.flatten]
    exact pageEntries_startAt hcnt
  have hstarts := @each_runMoves mode (StartsAt env.dma start) epAddr start runs
    hruns.nonempty 0 heach
  have htotal : total ((k'.transferDescs t).map (·.moves mode.dirToDev)) = cnt := by
    rw [hmoves, total_runMoves, hruns.flatten]
    exact hdesc.total
  refine ⟨?_, htotal, fun hnil => ?_⟩
  · rw [Coalesced.epAddr_zero, ← hmoves] at hstarts
    refine hstarts.mono ?_
    rintro y m ⟨⟨s, ⟨hstart, hy⟩, hm⟩, hep⟩
    exact ⟨hm.trans hstart, hep, hy⟩
  · rw [hnil] at htotal
    exact absurd htotal.symm (Nat.ne_of_gt hcnt)

end Starts

/-! ## Transfers -/

section Cut

variable {engine : XdmaEngine} {a g buf count m : Nat} {pos : DmaAddr} {dma : Nat → DmaAddr}

theorem toNat_add_ofNat_mod (x : DmaAddr) (n : Nat) (ha : a ≤ 64) :
    (x + BitVec.ofNat 64 n).toNat % 2 ^ a = (x.toNat + n) % 2 ^ a := by
  have hdvd : 2 ^ a ∣ 2 ^ 64 := Nat.pow_dvd_pow 2 ha
  rw [BitVec.toNat_add, BitVec.toNat_ofNat, Nat.add_mod_mod, Nat.mod_mod_of_dvd _ hdvd]

/-- Inside a page the bus address has the alignment of the virtual one. -/
theorem dmaByte_mod (hpages : ∀ page, pageSize ∣ (dma page).toNat) (ha : a ≤ 12) (y : Nat) :
    (dmaByte dma y).toNat % 2 ^ a = y % 2 ^ a := by
  have hpage : 2 ^ a ∣ pageSize := Nat.pow_dvd_pow 2 ha
  have hdma : (dma (y / pageSize)).toNat % 2 ^ a = 0 :=
    Nat.dvd_iff_mod_eq_zero.mp (Nat.dvd_trans hpage (hpages _))
  unfold dmaByte
  rw [toNat_add_ofNat_mod _ _ (by omega), Nat.add_mod, hdma, Nat.zero_add, Nat.mod_mod,
    Nat.mod_mod_of_dvd _ hpage]

/-- The front of an aligned request and what is behind it. -/
theorem RequestAligned.split (h : RequestAligned engine a g buf count pos.toNat) (ha : a ≤ 64)
    (hma : 2 ^ a ∣ m) (hmg : 2 ^ g ∣ m) :
    RequestAligned engine a g buf m pos.toNat ∧
      RequestAligned engine a g (buf + m) (count - m) (pos + BitVec.ofNat 64 m).toNat := by
  unfold RequestAligned at h ⊢
  split at h
  · rename_i hmode
    rw [if_pos hmode, if_pos hmode]
    obtain ⟨hbuf, hpos, hcount⟩ := h
    refine ⟨⟨hbuf, hpos, hmg⟩, Nat.dvd_add hbuf hma, fun hs => ?_, Nat.dvd_sub hcount hmg⟩
    rw [Nat.dvd_iff_mod_eq_zero, toNat_add_ofNat_mod _ _ ha]
    exact Nat.dvd_iff_mod_eq_zero.mp (Nat.dvd_add (hpos hs) hma)
  · rename_i hmode
    rw [if_neg hmode, if_neg hmode]
    refine ⟨h, ?_⟩
    rw [toNat_add_ofNat_mod _ _ ha, Nat.add_mod, Nat.add_mod pos.toNat, h]

/-- A block that starts where the buffer or a page of it does is aligned if the request is. -/
theorem descAligned_of_start {d : XdmaDesc} {y : Nat} (hpages : ∀ page, pageSize ∣ (dma page).toNat)
    (ha : a ≤ 12) (h : RequestAligned engine a g buf count pos.toNat) {mode : BuildMode}
    (hmode : (mode.userspace && mode.nonIncrAddr) = engine.nonIncrAddr) (hle : buf ≤ y)
    (hhost : (d.moves engine.dirToDev).start.1 = dmaByte dma y)
    (hdev : (d.moves engine.dirToDev).start.2 = mode.epAddr pos (y - buf))
    (hy : y = buf ∨ pageSize ∣ y) : DescAligned engine (2 ^ a) d := by
  have hstart : y % 2 ^ a = buf % 2 ^ a ∨ 2 ^ a ∣ y := by
    rcases hy with rfl | hy
    · exact .inl rfl
    · exact .inr (Nat.dvd_trans (Nat.pow_dvd_pow 2 ha) hy)
  unfold RequestAligned at h
  unfold DescAligned
  rw [hhost, hdev, Nat.dvd_iff_mod_eq_zero, Nat.dvd_iff_mod_eq_zero, dmaByte_mod hpages ha]
  unfold BuildMode.epAddr
  rw [hmode]
  split at h
  · rename_i hfixed
    rw [if_pos hfixed]
    obtain ⟨hbuf, hpos, -⟩ := h
    refine ⟨?_, fun hs => ?_⟩
    · rcases hstart with heq | hdvd
      · rw [heq]
        exact Nat.dvd_iff_mod_eq_zero.mp hbuf
      · exact Nat.dvd_iff_mod_eq_zero.mp hdvd
    · rw [hs, Bool.false_or] at hfixed
      rw [if_pos hfixed]
      exact Nat.dvd_iff_mod_eq_zero.mp (hpos hs)
  · rename_i hincr
    have hnon : ¬engine.nonIncrAddr = true := fun hn => hincr (by rw [hn, Bool.or_true])
    rw [if_neg hincr, if_neg hnon, toNat_add_ofNat_mod _ _ (by omega), Nat.add_mod, ← h,
      ← Nat.add_mod, Nat.add_sub_of_le hle]

section Transfer

variable {env : CreateEnv} {mode : BuildMode} {k k' : Kernel} {t : Nat}

/-- The descriptors of an aligned transfer are aligned, and where the length is checked their
lengths are multiples of what both numbers are multiples of. -/
theorem transferCreate_aligned (hpages : ∀ page, pageSize ∣ (env.dma page).toNat) (ha : a ≤ 12)
    (hdir : mode.dirToDev = engine.dirToDev)
    (hmode : (mode.userspace && mode.nonIncrAddr) = engine.nonIncrAddr) (hcount : 0 < count)
    (hspace : buf + count < 2 ^ 64) (h : RequestAligned engine a g buf count pos.toNat)
    (hcreate : k.transferCreate env buf count pos mode = .ok (k', some t)) :
    ∀ d ∈ k'.transferDescs t, DescAligned engine (2 ^ a) d ∧
      ((engine.streaming || engine.nonIncrAddr) = true → 2 ^ min a g ∣ d.bytes.toNat) := by
  obtain ⟨hstarts, htotal, -⟩ := transferCreate_starts hcount hspace hcreate
  rw [hdir] at hstarts htotal
  intro d hd
  have hmem := List.mem_map_of_mem (f := (·.moves engine.dirToDev)) hd
  refine ⟨?_, fun hfixed => ?_⟩
  · obtain ⟨y, hle, hhost, hdev, hy⟩ := hstarts.mem hmem
    exact descAligned_of_start hpages ha h hmode hle hhost hdev hy
  · unfold RequestAligned at h
    rw [if_pos hfixed] at h
    obtain ⟨hbuf, -, hlen⟩ := h
    have hbuf' : 2 ^ min a g ∣ buf := Nat.dvd_trans (Nat.pow_dvd_pow 2 (Nat.min_le_left a g)) hbuf
    have hlen' : 2 ^ min a g ∣ count := Nat.dvd_trans (Nat.pow_dvd_pow 2 (Nat.min_le_right a g)) hlen
    have hpage : 2 ^ min a g ∣ pageSize :=
      Nat.pow_dvd_pow 2 (Nat.le_trans (Nat.min_le_left a g) ha)
    have hdvd : EachAt (fun y _ => 2 ^ min a g ∣ y) buf
        ((k'.transferDescs t).map (·.moves engine.dirToDev)) := hstarts.mono (by
      rintro y s ⟨-, -, rfl | hy⟩
      · exact hbuf'
      · exact Nat.dvd_trans hpage hy)
    exact hdvd.len_dvd (by
      rw [htotal]
      exact Nat.dvd_add hbuf' hlen') _ hmem

/-- The first descriptor of a transfer is aligned only if the buffer and the position are. -/
theorem requestAligned_of_descs (hpages : ∀ page, pageSize ∣ (env.dma page).toNat) (ha : a ≤ 12)
    (hdir : mode.dirToDev = engine.dirToDev) {cnt : Nat} (hcnt : 0 < cnt) (hspace : buf + cnt < 2 ^ 64)
    (hcreate : k.transferCreate env buf cnt pos mode = .ok (k', some t))
    (h : ∀ d ∈ k'.transferDescs t, DescAligned engine (2 ^ a) d)
    (hlen : (engine.streaming || engine.nonIncrAddr) = true → 2 ^ g ∣ count) :
    RequestAligned engine a g buf count pos.toNat := by
  obtain ⟨hstarts, -, hne⟩ := transferCreate_starts hcnt hspace hcreate
  rw [hdir] at hstarts
  cases hdescs : k'.transferDescs t with
  | nil => exact absurd hdescs hne
  | cons d rest =>
      rw [hdescs] at h hstarts
      obtain ⟨hhost, hdev, -⟩ := hstarts.1
      have hd := h d List.mem_cons_self
      have hdev' : ((d.moves engine.dirToDev).start.2).toNat % 2 ^ a = pos.toNat % 2 ^ a := by
        rw [hdev, Nat.sub_self, Coalesced.epAddr_zero]
      unfold DescAligned at hd
      rw [hhost, Nat.dvd_iff_mod_eq_zero, Nat.dvd_iff_mod_eq_zero, hdev',
        dmaByte_mod hpages ha] at hd
      unfold RequestAligned
      split at hd
      · rename_i hfixed
        rw [if_pos hfixed, Nat.dvd_iff_mod_eq_zero, Nat.dvd_iff_mod_eq_zero]
        exact ⟨hd.1, hd.2, hlen hfixed⟩
      · rename_i hincr
        rw [if_neg hincr]
        exact hd

end Transfer

end Cut

/-! ## Requests -/

namespace DataState

variable {s s' : DataState} {env : TurnEnv} {a g : Nat}

/-- What the loop puts on the log has a property that it has of every transfer made in a state with
the invariant. -/
theorem loopIn_log_forall {I : DataState → Prop} {Q : List XdmaDesc → Prop} (envs : Nat → TurnEnv)
    (hcreate : ∀ s, I s → s.res = 0 ∧ 0 < s.remaining → ∀ i k t,
      s.polled.kern.transferCreate (envs i).create s.transferAddr s.transferLen s.pos s.mode =
        .ok (k, some t) → Q (k.transferDescs t))
    (hturn : ∀ s s', I s → s.res = 0 ∧ 0 < s.remaining → ∀ i, s.turnIn (envs i) = (s', .ok ()) →
      s'.res = 0 → I s')
    (fuel i : Nat) (hlog : ∀ q ∈ s.log, Q q.descs) (h : I s) :
    ∀ q ∈ (s.loopIn envs fuel i).1.log, Q q.descs := by
  induction fuel generalizing s i with
  | zero => exact hlog
  | succ fuel ih =>
      by_cases hgo : s.res = 0 ∧ 0 < s.remaining
      · have hnext : ∀ q ∈ (s.turnIn (envs i)).1.log, Q q.descs := by
          by_cases hmade : ∃ k t, s.polled.kern.transferCreate (envs i).create s.transferAddr
              s.transferLen s.pos s.mode = .ok (k, some t)
          · obtain ⟨k, t, hmade⟩ := hmade
            obtain ⟨state, heq⟩ := turnIn_created hmade
            rw [heq]
            intro q hq
            rcases List.mem_append.mp hq with hq | hq
            · exact hlog q hq
            · rw [List.mem_singleton.mp hq]
              exact hcreate s h hgo i k t hmade
          · rw [(turnIn_refused fun k t hkt => hmade ⟨k, t, hkt⟩).1]
            exact hlog
        rcases @loopIn_turn s envs fuel i hgo with ⟨heq, -⟩ | ⟨hok, heq⟩
        · rw [heq]
          exact hnext
        · rw [heq]
          by_cases hres : (s.turnIn (envs i)).1.res = 0
          · exact ih (i + 1) hnext (hturn s _ h hgo i (Prod.ext rfl hok) hres)
          · rw [loopIn_of_res hres]
            exact hnext
      · rw [loopIn, if_neg hgo]
        exact hlog

/-- What is left of an aligned request is aligned. -/
structure RestAligned (engine : XdmaEngine) (a g : Nat) (s : DataState) : Prop where
  dirToDev : s.polled.engine.dirToDev = engine.dirToDev
  nonIncrAddr : s.polled.engine.nonIncrAddr = engine.nonIncrAddr
  aligned : 0 < s.remaining → RequestAligned engine a g s.transferAddr s.remaining.toNat s.pos.toNat
  space : 0 < s.remaining → s.transferAddr + s.remaining.toNat < 2 ^ 64

theorem RestAligned.turn {engine : XdmaEngine} (h : RestAligned engine a g s) (ha : a ≤ 23)
    (hg : g ≤ 23) (hgo : s.res = 0 ∧ 0 < s.remaining) (hturn : s.turnIn env = (s', .ok ()))
    (hres' : s'.res = 0) : RestAligned engine a g s' := by
  have hadv := turnIn_advanced hturn hgo.1 hres'
  have haddr := hadv.transferAddr
  have hrem := hadv.remaining
  have hpos := hadv.pos
  by_cases hlong : (xdmaTransferMaxBytes : Int) < s.remaining
  · rw [transferLen_of_lt hlong] at haddr hrem hpos
    have hleft : s'.remaining.toNat = s.remaining.toNat - xdmaTransferMaxBytes := by omega
    have hmax : xdmaTransferMaxBytes = 2 ^ 23 := rfl
    have hspace := h.space hgo.2
    refine ⟨hadv.config.dirToDev.trans h.dirToDev, hadv.config.nonIncrAddr.trans h.nonIncrAddr,
      fun _ => ?_, fun _ => ?_⟩
    · rw [haddr, hleft, hpos]
      exact ((h.aligned hgo.2).split (by omega) (hmax ▸ Nat.pow_dvd_pow 2 ha)
        (hmax ▸ Nat.pow_dvd_pow 2 hg)).2
    · rw [haddr, hleft]
      omega
  · rw [transferLen_of_le hgo.2 (Int.not_lt.mp hlong), Int.sub_self] at hrem
    exact ⟨hadv.config.dirToDev.trans h.dirToDev, hadv.config.nonIncrAddr.trans h.nonIncrAddr,
      fun hmore => by omega, fun hmore => by omega⟩

/-- The transfer of the next turn is aligned. -/
theorem RestAligned.next {engine : XdmaEngine} (h : RestAligned engine a g s) (ha : a ≤ 23)
    (hg : g ≤ 23) (hmore : 0 < s.remaining) :
    RequestAligned engine a g s.transferAddr s.transferLen s.pos.toNat ∧ 0 < s.transferLen ∧
      s.transferAddr + s.transferLen < 2 ^ 64 := by
  have hmax : xdmaTransferMaxBytes = 2 ^ 23 := rfl
  have hspace := h.space hmore
  by_cases hlong : (xdmaTransferMaxBytes : Int) < s.remaining
  · rw [transferLen_of_lt hlong]
    exact ⟨((h.aligned hmore).split (by omega) (hmax ▸ Nat.pow_dvd_pow 2 ha)
      (hmax ▸ Nat.pow_dvd_pow 2 hg)).1, by decide, by omega⟩
  · have hlen : s.transferLen = s.remaining.toNat := if_neg hlong
    rw [hlen]
    exact ⟨h.aligned hmore, by omega, hspace⟩

/-- In every run all descriptors of an aligned request are aligned. -/
theorem RestAligned.loop {engine : XdmaEngine} (h : RestAligned engine a g s) (ha : a ≤ 12)
    (hg : g ≤ 23) {envs : Nat → TurnEnv}
    (hpages : ∀ i page, pageSize ∣ ((envs i).create.dma page).toNat) (hlog : s.log = []) (fuel : Nat) :
    ∀ q ∈ (s.loopIn envs fuel 0).1.log, ∀ d ∈ q.descs, DescAligned engine (2 ^ a) d ∧
      ((engine.streaming || engine.nonIncrAddr) = true → 2 ^ min a g ∣ d.bytes.toNat) := by
  refine @loopIn_log_forall s (RestAligned engine a g) (fun descs => ∀ d ∈ descs,
    DescAligned engine (2 ^ a) d ∧ ((engine.streaming || engine.nonIncrAddr) = true →
      2 ^ min a g ∣ d.bytes.toNat)) envs ?_ ?_ fuel 0 ?_ h
  · intro s h hgo i k t hcreate
    obtain ⟨hnext, hlen, hspace⟩ := h.next (by omega) hg hgo.2
    have hmode : (s.mode.userspace && s.mode.nonIncrAddr) = engine.nonIncrAddr := h.nonIncrAddr
    exact transferCreate_aligned (hpages i) ha h.dirToDev hmode hlen hspace hnext hcreate
  · intro s s' h hgo i hturn hres'
    exact h.turn (by omega) hg hgo hturn hres'
  · rw [hlog]
    exact fun q hq => absurd hq List.not_mem_nil

/-- The first turn of a request that has something on its log in the end. -/
theorem first_created {envs : Nat → TurnEnv} {fuel : Nat} (hlog : s.log = [])
    (hne : (s.loopIn envs (fuel + 1) 0).1.log ≠ []) : (s.res = 0 ∧ 0 < s.remaining) ∧
      ∃ k t, s.polled.kern.transferCreate (envs 0).create s.transferAddr s.transferLen s.pos s.mode =
        .ok (k, some t) := by
  by_cases hgo : s.res = 0 ∧ 0 < s.remaining
  · refine ⟨hgo, ?_⟩
    by_contra hnone
    have hleft := @loopIn_refused s envs fuel 0 hgo fun k t hkt =>
      hnone ⟨k, t, hkt⟩
    exact hne (hleft.trans hlog)
  · rw [loopIn, if_neg hgo] at hne
    exact absurd hlog hne

end DataState

section Request

variable {p : Polled} {a g buf count : Nat} {pos : DmaAddr} {env : Nat → DataEnv}

theorem first_transferLen (p : Polled) (buf : Nat) (pos : DmaAddr) (hcount : 0 < count) :
    0 < (DataState.first p buf count pos).transferLen ∧
      (DataState.first p buf count pos).transferLen ≤ count := by
  have hmore : 0 < (DataState.first p buf count pos).remaining := Int.ofNat_lt.mpr hcount
  have hmax : 0 < xdmaTransferMaxBytes := by decide
  by_cases hlong : (xdmaTransferMaxBytes : Int) < (DataState.first p buf count pos).remaining
  · rw [DataState.transferLen_of_lt hlong]
    exact ⟨hmax, Nat.le_of_lt (Int.ofNat_lt.mp hlong)⟩
  · have hlen := DataState.transferLen_of_le hmore (Int.not_lt.mp hlong)
    have hcount' : (DataState.first p buf count pos).remaining = count := rfl
    omega

theorem first_restAligned (hspace : buf + count < 2 ^ 64)
    (h : RequestAligned p.engine a g buf count pos.toNat) :
    DataState.RestAligned p.engine a g (DataState.first p buf count pos) :=
  ⟨rfl, rfl, fun _ => h, fun _ => hspace⟩

/-- A request whose descriptors are aligned is aligned. -/
theorem requestAligned_of_log (hpages : ∀ i page, pageSize ∣ ((env i).create.dma page).toNat)
    (ha : a ≤ 12) (hspace : buf + count < 2 ^ 64) (hne : (transferData p buf count pos env).1.log ≠ [])
    (h : ∀ q ∈ (transferData p buf count pos env).1.log, ∀ d ∈ q.descs,
      DescAligned p.engine (2 ^ a) d)
    (hlen : (p.engine.streaming || p.engine.nonIncrAddr) = true → 2 ^ g ∣ count) :
    RequestAligned p.engine a g buf count pos.toNat := by
  rw [transferData_first] at hne h
  obtain ⟨hgo, k, t, hcreate⟩ := DataState.first_created rfl hne
  obtain ⟨q, hq, hdescs⟩ := @DataState.loopIn_created _ (fun i => (env i).polled) _ 0 hgo k t hcreate
  obtain ⟨hpos, hle⟩ := first_transferLen p buf pos (Int.ofNat_lt.mp hgo.2)
  have haligned := h q hq
  rw [hdescs] at haligned
  exact requestAligned_of_descs (hpages 0) ha rfl hpos
    (Nat.lt_of_le_of_lt (Nat.add_le_add_left hle buf) hspace) hcreate haligned hlen

end Request

/-- A request to which nothing is refused puts something on the log. -/
theorem transferData_granted_ne_nil (p : Polled) {buf count : Nat} (hcount : 0 < count)
    (hspace : buf + count < 2 ^ 64) (pos : DmaAddr) {env : Nat → DataEnv}
    (hgranted : (env 0).create.Granted) : (transferData p buf count pos env).1.log ≠ [] := by
  have hgo : (DataState.first p buf count pos).res = 0 ∧ 0 < (DataState.first p buf count pos).remaining :=
    ⟨rfl, Int.ofNat_lt.mpr hcount⟩
  obtain ⟨hpos, hle⟩ := first_transferLen p buf pos hcount
  obtain ⟨k, t, hcreate⟩ := @transferCreate_granted _ hgranted (DataState.first p buf count pos).mode buf
    _ hpos (by omega) p.kern pos
  obtain ⟨q, hq, -⟩ := @DataState.loopIn_created _ (fun i => (env i).polled) _ 0 hgo k t hcreate
  rw [transferData_first]
  exact List.ne_nil_of_mem hq

/-- The check of a request against what the engine needs of its descriptors, for every buffer,
length and position and for every answer of the kernel and the device, when the register has powers
of two.  All that is queued for a request that passes is aligned, also behind its first transfer, and
where the length is checked the lengths are too.  A request of which something would be queued is
refused only if that is not aligned or the length is not. -/
theorem sgdma_requests_aligned (p : Polled) {w : Word} {a g : Nat}
    (ha : (engineAlignments w).addrAlign.toNat = 2 ^ a)
    (hg : (engineAlignments w).lenGranularity.toNat = 2 ^ g) (env : Nat → DataEnv)
    (hpages : ∀ i page, pageSize ∣ ((env i).create.dma page).toNat) (buf count : Nat)
    (hspace : buf + count < 2 ^ 64) (pos : DmaAddr) (dirToDev : Bool) :
    (∀ q ∈ (charSgdmaReadWrite p (engineAlignments w) buf count pos dirToDev env).1.log,
      ∀ d ∈ q.descs, DescAligned p.engine (2 ^ a) d ∧
        ((p.engine.streaming || p.engine.nonIncrAddr) = true → 2 ^ min a g ∣ d.bytes.toNat)) ∧
    ((transferData p buf count pos env).1.log ≠ [] →
      (checkTransferAlign p.engine (engineAlignments w) (BitVec.ofNat 64 buf) (BitVec.ofNat 64 count)
          pos true = 0 ↔
        (∀ q ∈ (transferData p buf count pos env).1.log, ∀ d ∈ q.descs,
          DescAligned p.engine (2 ^ a) d) ∧
        ((p.engine.streaming || p.engine.nonIncrAddr) = true → 2 ^ g ∣ count))) := by
  have ha' := lt_eight_of_pow (addrAlign_lt w) ha
  have hg' := lt_eight_of_pow (lenGranularity_lt w) hg
  have hbuf : (BitVec.ofNat 64 buf).toNat = buf := by
    rw [BitVec.toNat_ofNat, Nat.mod_eq_of_lt (by omega)]
  have hcount : (BitVec.ofNat 64 count).toNat = count := by
    rw [BitVec.toNat_ofNat, Nat.mod_eq_of_lt (by omega)]
  have hcheck := checkTransferAlign_eq_zero_iff p.engine ha hg (BitVec.ofNat 64 buf)
    (BitVec.ofNat 64 count) pos
  rw [hbuf, hcount] at hcheck
  have hqueued (h : RequestAligned p.engine a g buf count pos.toNat) := @DataState.RestAligned.loop
    _ a g p.engine (first_restAligned hspace h) (by omega) (by omega) (fun i => (env i).polled)
    hpages rfl
  constructor
  · unfold charSgdmaReadWrite
    split
    · exact fun q hq => absurd hq List.not_mem_nil
    · dsimp only
      split
      · exact fun q hq => absurd hq List.not_mem_nil
      · rename_i hpass
        rw [transferData_first]
        exact hqueued (hcheck.mp (not_not.mp hpass)) _
  · intro hne
    rw [hcheck]
    constructor
    · intro h
      refine ⟨?_, fun hfixed => ?_⟩
      · rw [transferData_first]
        exact fun q hq d hd => (hqueued h _ q hq d hd).1
      · unfold RequestAligned at h
        rw [if_pos hfixed] at h
        exact h.2.2
    · rintro ⟨haligned, hlen⟩
      exact requestAligned_of_log hpages (by omega) hspace hne haligned hlen

/-- Pages of a device without an IOMMU. -/
theorem pages_dvd (page : Nat) : pageSize ∣ (BitVec.ofNat 64 (page * 4096)).toNat := by
  rw [BitVec.toNat_ofNat]
  exact (Nat.dvd_mod_iff (by decide)).mpr (Nat.dvd_mul_left pageSize page)

/-- An engine that wants addresses of 64 bytes and lengths of 8: a request from the second such
address of a page on, and one four bytes behind it. -/
theorem sgdma_requests_aligned_page :
    ((charSgdmaReadWrite (.created false false true) (engineAlignments 0x00400840) 0x1040 5000 0x1000
        false fun _ => dataGranted (fun page => BitVec.ofNat 64 (page * 4096)) 1).1.log ≠ [] ∧
      ∀ q ∈ (charSgdmaReadWrite (.created false false true) (engineAlignments 0x00400840) 0x1040 5000
          0x1000 false fun _ => dataGranted (fun page => BitVec.ofNat 64 (page * 4096)) 1).1.log,
        ∀ d ∈ q.descs, DescAligned (Polled.created false false true).engine (2 ^ 6) d) ∧
    ¬∀ q ∈ (transferData (.created false false true) (0x1044 : Nat) (5000 : Nat) 0x1000
          fun _ => dataGranted (fun page => BitVec.ofNat 64 (page * 4096)) 1).1.log,
        ∀ d ∈ q.descs, DescAligned (Polled.created false false true).engine (2 ^ 6) d := by
  have hlog (buf : Nat) (hbuf : buf < 2 ^ 32) :=
    @transferData_granted_ne_nil (.created false false true) buf 5000 (by decide) (by omega) 0x1000
      (fun _ => dataGranted (fun page => BitVec.ofNat 64 (page * 4096)) 1) ⟨rfl, rfl, rfl, rfl⟩
  have hall (buf : Nat) (hbuf : buf < 2 ^ 32) :=
    @sgdma_requests_aligned (.created false false true) 0x00400840 6 3 (by decide) (by decide)
      (fun _ => dataGranted (fun page => BitVec.ofNat 64 (page * 4096)) 1) (fun _ => pages_dvd) buf 5000
      (by omega) 0x1000 false
  refine ⟨⟨?_, fun q hq d hd => ((hall 0x1040 (by decide)).1 q hq d hd).1⟩, fun haligned => ?_⟩
  · unfold charSgdmaReadWrite
    rw [if_neg (by decide), if_neg (by decide)]
    exact hlog 0x1040 (by decide)
  · exact absurd (((hall 0x1044 (by decide)).2 (hlog 0x1044 (by decide))).mpr
      ⟨haligned, fun _ => by decide⟩) (by decide)

end WzXdma
