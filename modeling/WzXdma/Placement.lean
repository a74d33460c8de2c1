import WzXdma.Assembly
import WzXdma.Lib.Chunks
import WzXdma.Programmed

/-!
# Where the data of a packet is

The device cuts packets into chunks of `WZ_DMA_BUFLEN` bytes, one for each
descriptor.  The application finds a packet again from the three numbers of its
block, in a mapping that the page faults fill with the frames of the buffers.

`Unstarted` holds between `ALLOC_BUFFERS` and the first `START` on the buffers, and
gives the pages behind them.  `Stored` says that the data of every descriptor that
was not given back is in its buffer.
-/

namespace WzXdma

open Lib Lib.Cyclic Lib.Spans Lib.Loop

def Act.isStart : Act → Bool
  | .start _ => true
  | _ => false

/-! ## The buffers before the first START -/

namespace Driver

variable {c : WzConsts} {d d' : Driver}

/-- No descriptor exists, and buffers that are ready have their pages and addresses. -/
structure Unstarted (c : WzConsts) (d : Driver) : Prop where
  desc : ∀ i, d.ext.desc i = none
  kfifo : d.ext.kfifo = []
  pages : d.ext.bufReady = true → ∀ i, i < c.nofbufs →
    d.ext.bufDmaT i ≠ 0 ∧ ∃ p block, d.ext.bufPage i = some p ∧ d.kern.pages p = some block

theorem allocLoop_pages {env : AllocEnv} {n : Nat} (h : forUpTo (allocBuffer env) n d = .ok d') :
    ∀ i, i < n → ∃ p block, d'.ext.bufPage i = some p ∧ d'.kern.pages p = some block := by
  refine forUpTo_ok (fun n (t : Driver) => ∀ i, i < n → ∃ p block, t.ext.bufPage i = some p ∧
    t.kern.pages p = some block) (fun i hi => absurd hi (Nat.not_lt_zero i)) ?_ h
  intro n t t' _ hI hb i hi
  obtain ⟨-, he⟩ | ⟨pfn, -, ⟨-, he⟩ | ⟨-, he⟩⟩ := allocBuffer_cases env n t
  · simp [he] at hb
  · simp [he] at hb
  · rw [he, Except.ok.injEq] at hb
    subst hb
    by_cases hin : i = n
    · subst hin
      exact ⟨_, _, Function.update_self .., Function.update_self ..⟩
    · simp only [Function.update_of_ne hin]
      obtain ⟨p, block, hp, hblock⟩ := hI i (by omega)
      by_cases hpn : p = t.kern.next
      · exact ⟨p, _, hp, by rw [hpn, Function.update_self]⟩
      · exact ⟨p, block, hp, by rw [Function.update_of_ne hpn, hblock]⟩

/-- The ring and the FIFO are as before, but for a FIFO that was made anew. -/
def SameRing (d d' : Driver) : Prop :=
  d'.ext.desc = d.ext.desc ∧ (d'.ext.kfifo = d.ext.kfifo ∨ d'.ext.kfifo = [])

theorem BuffersOnly.sameRing (h : BuffersOnly d d') : SameRing d d' := by
  obtain ⟨_, _, _, _, _, _, -, rfl⟩ := h
  exact ⟨rfl, .inl rfl⟩

theorem releaseCopy_sameRing (d : Driver) : SameRing d d.releaseCopy := by
  obtain ⟨-, he⟩ | ⟨v, fs, -, he⟩ := d.releaseCopy_cases <;> rw [he] <;> exact ⟨rfl, .inl rfl⟩

theorem SameRing.trans {d'' : Driver} (h : SameRing d d') (h' : SameRing d' d'') :
    SameRing d d'' := by
  refine ⟨h'.1.trans h.1, ?_⟩
  rcases h'.2 with he | he
  · rw [he]
    exact h.2
  · exact .inr he

theorem allocBuffers_sameRing (c : WzConsts) (env : AllocEnv) (d : Driver) :
    SameRing d (ioctlDoWzAllocBuffers c env d).1 := by
  obtain ⟨t, junk, ht, he⟩ | ⟨u, t, hu, rfl, he⟩ := ioctlDoWzAllocBuffers_cases c env d
  · rw [he]
    exact ⟨(allocLoop_buffersOnly ht).sameRing.1, .inr rfl⟩
  · have hu' : SameRing d u := by
      cases hu with
      | buffer hi ht hu =>
          exact ((allocLoop_buffersOnly ht).trans (allocBuffer_error hu).1).sameRing
      | copy ht => exact (allocLoop_buffersOnly ht).sameRing
      | kfifo _ ht => exact ⟨(allocLoop_buffersOnly ht).sameRing.1, .inr rfl⟩
    rw [he]
    exact (hu'.trans (releaseAll_buffersOnly c.nofbufs u).sameRing).trans (releaseCopy_sameRing _)

theorem freeBuffers_sameRing (c : WzConsts) (d : Driver) :
    SameRing d (ioctlDoWzFreeBuffers c d).1 := by
  refine SameRing.trans ?_ (releaseCopy_sameRing _)
  dsimp only
  split
  · exact ⟨(releaseAll_buffersOnly c.nofbufs d).sameRing.1, .inr rfl⟩
  · exact ⟨rfl, .inr rfl⟩

/-- Right after `ALLOC_BUFFERS`, if it found no descriptors. -/
theorem Unstarted.allocated {env : AllocEnv} {rc : Int} (hdesc : ∀ i, d.ext.desc i = none)
    (hkfifo : rc = 0 ∨ d.ext.kfifo = []) (h : ioctlDoWzAllocBuffers c env d = (d', rc)) :
    Unstarted c d' := by
  have hring := allocBuffers_sameRing c env d
  obtain ⟨t, junk, ht, he⟩ | ⟨u, t, -, rfl, he⟩ := ioctlDoWzAllocBuffers_cases c env d
  · rw [he, Prod.mk.injEq] at h
    obtain ⟨rfl, -⟩ := h
    rw [he] at hring
    refine ⟨fun i => by rw [hring.1, hdesc i], rfl, fun _ i hi => ⟨?_, allocLoop_pages ht i hi⟩⟩
    obtain ⟨hmaps, hne⟩ := allocLoop_dma ht i hi
    rwa [hmaps]
  · rw [he, Prod.mk.injEq] at h
    obtain ⟨rfl, rfl⟩ := h
    rw [he] at hring
    refine ⟨fun i => by rw [hring.1, hdesc i], ?_, fun hready => by cases hready⟩
    have hk := hkfifo.resolve_left (by decide)
    rcases hring.2 with he' | he'
    · exact he'.trans hk
    · exact he'

/-- A scan cannot begin while there is no ring. -/
theorem scanLoop_ne_ok {fuel check : Nat} (h : d.ext.desc check = none) :
    scanLoop c fuel check d ≠ .ok d' := by
  cases fuel with
  | zero => simp [scanLoop]
  | succ fuel => simp [scanLoop, Kernel.derefDesc, h]

theorem stopFree_none {n : Nat} (h : ∀ i, d.ext.desc i = none) : upTo stopFree n d = d :=
  upTo_invariant (fun _ t => t = d) rfl fun i t _ ht => by
    subst ht
    simp [stopFree, h i]

theorem Unstarted.step {a : Act} (h : Unstarted c d) (ha : a.isStart = false)
    (heffect : Effect c d a d') : Unstarted c d' := by
  cases heffect with
  | allocBuffers env => exact .allocated h.desc (.inr h.kfifo) rfl
  | freeBuffers =>
      obtain ⟨hdesc, hk⟩ := freeBuffers_sameRing c d
      refine ⟨fun i => by rw [hdesc, h.desc i], ?_, fun hready => ?_⟩
      · exact hk.elim (fun he => he.trans h.kfifo) id
      · rw [freeBuffers_bufReady] at hready
        cases hready
  | start _ => cases ha
  | stopFinish hrun =>
      obtain ⟨t, ht⟩ := d.stopTransfer_ext
      have hnone : ∀ i, d.stopTransfer.ext.desc i = none := by
        intro i
        rw [ht]
        exact h.desc i
      have hpages : d.stopTransfer.kern.pages = d.kern.pages := by
        obtain ⟨-, he⟩ | ⟨t, fs, -, he⟩ := d.stopTransfer_cases <;> rw [he]
      simp only [ioctlDoWzStopFinish, hrun, Bool.false_eq_true, if_false, stopFree_none hnone]
      refine ⟨hnone, by rw [ht]; exact h.kfifo, ?_⟩
      rw [ht, hpages]
      exact h.pages
  | getbuf copyFails q hq =>
      refine ⟨h.desc, ?_, h.pages⟩
      rcases hq with rfl | rfl <;> simp [h.kfifo]
  | contents _ hk _ _ =>
      refine ⟨h.desc, h.kfifo, ?_⟩
      simp only [hk.pages]
      exact h.pages
  | perfStart hperf =>
      refine ⟨?_, ?_, ?_⟩
      · rw [hperf.ext]
        exact h.desc
      · rw [hperf.ext]
        exact h.kfifo
      · rw [hperf.ext, hperf.pages]
        exact h.pages
  | service hservice =>
      obtain ⟨b, e, -, ⟨t, ht, -⟩, -⟩ := service_ok hservice
      exact absurd ht (scanLoop_ne_ok (h.desc _))
  | user _ => exact h

end Driver

/-! ## The data in the buffers -/

/-- What a completed descriptor carries of its packet. -/
def toChunk (x : Completion) : Chunk Byte := ⟨x.eop, x.data⟩

/-- The device sends these chunks in order, and the length it stores with the last one of
a packet is the number of bytes in it. -/
def sends (cs : List (Chunk Byte)) (s : Acq) : AcqAct → Prop
  | .device x =>
      (s.done ++ [x]).map toChunk <+: cs ∧
        (x.eop = true → x.length = BitVec.ofNat 32 x.data.length)
  | _ => True

/-- The application keeps up with a device that sends these chunks. -/
def keepsUpWith (c : WzConsts) (cs : List (Chunk Byte)) (s : Acq) (a : AcqAct) : Prop :=
  keepsUp c s a ∧ sends cs s a

instance (cs : List (Chunk Byte)) (s : Acq) (a : AcqAct) : Decidable (sends cs s a) :=
  match a with
  | .device _ => inferInstanceAs (Decidable (_ ∧ (_ → _)))
  | .confirm _ _ _ | .restore _ | .scanBegin | .scanIter | .getbuf => isTrue trivial

instance (c : WzConsts) (cs : List (Chunk Byte)) (s : Acq) (a : AcqAct) :
    Decidable (keepsUpWith c cs s a) :=
  inferInstanceAs (Decidable (_ ∧ _))

/-- Buffer `i` is at the physical address `base i`, where the bus addresses from `dma i` on
lead to, and no two buffers overlap. -/
structure BuffersAt (c : WzConsts) (bus : DmaAddr → Nat) (dma : Nat → DmaAddr) (base : Nat → Nat) :
    Prop where
  bus : ∀ i k, i < c.nofbufs → k < c.buflen → bus (dma i + BitVec.ofNat 64 k) = base i + k
  apart : ∀ i j, i < c.nofbufs → j < c.nofbufs → i ≠ j →
    base i + c.buflen ≤ base j ∨ base j + c.buflen ≤ base i

/-- The completions from position `r` on have their data in the buffers. -/
def Stored (c : WzConsts) (base : Nat → Nat) (r : Nat) (s : Acq) : Prop :=
  ∀ k x, r ≤ k → s.done[k]? = some x → ∀ j b, x.data[j]? = some b →
    s.mem (base (k % c.nofbufs) + j) = b

/-- The bytes of a completion, in a buffer that is one stretch of memory. -/
theorem storeBytes_eq {bus : DmaAddr → Nat} {addr : DmaAddr} {base : Nat} {data : List Byte}
    {mem : Nat → Byte} (h : ∀ k, k < data.length → bus (addr + BitVec.ofNat 64 k) = base + k)
    {j : Nat} {b : Byte} (hj : data[j]? = some b) : storeBytes bus addr data mem (base + j) = b := by
  induction data generalizing addr base mem j with
  | nil => simp at hj
  | cons a data ih =>
      have hnext : ∀ k, k < data.length → bus (addr + 1 + BitVec.ofNat 64 k) = base + 1 + k := by
        intro k hk
        rw [Acq.addr_succ, h (k + 1) (by simp; omega)]
        omega
      cases j with
      | succ j =>
          rw [List.getElem?_cons_succ] at hj
          rw [storeBytes, show base + (j + 1) = base + 1 + j by omega]
          exact ih hnext hj
      | zero =>
          -- the later bytes go to other places
          rw [List.getElem?_cons_zero, Option.some.injEq] at hj
          subst hj
          have hhere : bus addr = base := by simpa using h 0 (by simp)
          by_contra hne
          rw [storeBytes, Nat.add_zero, hhere] at hne
          obtain ⟨k, hk, hp⟩ := @Acq.storeBytes_ne bus (addr + 1) data
            (Function.update mem base a) base (by rwa [Function.update_self])
          rw [hnext k hk] at hp
          omega

namespace Acq

/-- Only the device writes to the buffers. -/
theorem step_mem {c : WzConsts} {bus : DmaAddr → Nat} {s s' : Acq} {a : AcqAct}
    (ha : ∀ x, a ≠ .device x) (h : s.step c bus a = some s') : s'.mem = s.mem := by
  cases a with
  | device x => exact absurd rfl (ha x)
  | confirm thread first last =>
      obtain ⟨-, -, -, rfl⟩ := confirm_cases h
      rfl
  | restore thread =>
      obtain ⟨call, w, -, -, rfl⟩ := restore_cases h
      rfl
  | scanBegin =>
      simp only [step] at h
      split at h
      · exact Option.some.inj h ▸ rfl
      · cases h
  | scanIter => exact (scanIter_frame h).2.2.2.1
  | getbuf =>
      simp only [step] at h
      split at h
      · cases h
      · exact Option.some.inj h ▸ rfl

end Acq

/-- What holds of an acquisition that keeps up with its device. -/
structure Placed (c : WzConsts) (cs : List (Chunk Byte)) (dma : Nat → DmaAddr) (base : Nat → Nat)
    (s : Acq) (t : Tape Completion) : Prop where
  refines : Refines c s t
  room : t.items.length < t.released + c.nofbufs
  dst : ∀ i, i < c.nofbufs → (s.descCopy i).dst = dma i
  seen : s.done.map toChunk <+: cs
  lengths : ∀ x ∈ s.done, x.eop = true → x.length = BitVec.ofNat 32 x.data.length
  stored : Stored c base t.released s

namespace Placed

variable {c : RingConsts} {bus : DmaAddr → Nat} {dma : Nat → DmaAddr} {base : Nat → Nat}
  {cs : List (Chunk Byte)} {s s' : Acq} {t : Tape Completion}

/-- The chunks that were received fit into their buffers. -/
theorem data_le (h : Placed c.toWzConsts cs dma base s t)
    (hfit : ∀ ch ∈ cs, ch.data.length ≤ c.buflen) {x : Completion} (hx : x ∈ s.done) :
    x.data.length ≤ c.buflen :=
  hfit (toChunk x) (h.seen.subset (List.mem_map_of_mem hx))

/-- A completion fills the buffer of its descriptor and no other. -/
theorem stored_complete (h : Placed c.toWzConsts cs dma base s t)
    (hbuf : BuffersAt c.toWzConsts bus dma base) (hfit : ∀ ch ∈ cs, ch.data.length ≤ c.buflen)
    (hacc : (s.desc s.pos).Accepted) {x : Completion} (hlen : x.data.length ≤ c.buflen) {r : Nat}
    (hr : t.released ≤ r) : Stored c.toWzConsts base r (s.complete c.toWzConsts bus x) := by
  have hsafe := h.refines.safe
  have hroom := h.room
  have hdst : (s.desc s.pos).dst = dma s.pos := by
    rw [hsafe.free _ hsafe.pos_lt ((hsafe.accepted_iff hsafe.pos_lt).mp hacc)]
    exact h.dst _ hsafe.pos_lt
  have hrel : t.released ≤ t.items.length :=
    Nat.le_trans h.refines.released_le h.refines.inv.first_le
  have hpos := h.refines.pos
  rw [h.refines.items] at hroom hrel hpos
  intro k y hk hy j b hb
  simp only [Acq.complete, hdst] at hy ⊢
  by_cases hkn : k = s.done.length
  · subst hkn
    rw [List.getElem?_concat_length, Option.some.injEq] at hy
    subst hy
    rw [← hpos]
    exact storeBytes_eq (fun k hk => hbuf.bus _ k hsafe.pos_lt (by omega)) hb
  · have hklt : k < s.done.length := by
      have := (List.getElem?_eq_some_iff.mp hy).1
      rw [List.length_append, List.length_singleton] at this
      omega
    rw [List.getElem?_append_left hklt] at hy
    have hslot : k % c.nofbufs ≠ s.pos := by
      rw [hpos]
      exact @mod_ne_of_window _ t.released _ _ (by omega) (by omega) hrel hroom (by omega)
    have hold := h.stored k y (by omega) hy j b hb
    have hj : j < y.data.length := (List.getElem?_eq_some_iff.mp hb).1
    have hjlen := h.data_le hfit (List.mem_of_getElem? hy)
    rw [← hold]
    by_contra hne
    -- the byte would be in both buffers
    obtain ⟨k', hk', hp⟩ := Acq.storeBytes_ne hne
    rw [hbuf.bus _ k' hsafe.pos_lt (by omega)] at hp
    have := hbuf.apart _ _ (Nat.mod_lt k c.nofbufs_pos) hsafe.pos_lt hslot
    omega

theorem step (h : Placed c.toWzConsts cs dma base s t)
    (hbuf : BuffersAt c.toWzConsts bus dma base) (hfit : ∀ ch ∈ cs, ch.data.length ≤ c.buflen)
    {a : AcqAct} (hok : keepsUpWith c.toWzConsts cs s a)
    (hs : s.step c.toWzConsts bus a = some s') :
    ∃ t', Placed c.toWzConsts cs dma base s' t' := by
  obtain ⟨t', ht', hroom, hrel⟩ := h.refines.step_keepsUp h.room hok.1 hs
  have hdst : ∀ i, i < c.nofbufs → (s'.descCopy i).dst = dma i := by
    rw [Acq.step_descCopy hs]
    exact h.dst
  by_cases ha : ∃ x, a = .device x
  · obtain ⟨x, rfl⟩ := ha
    obtain ⟨-, hseen, hlength⟩ := hok
    have hlen : x.data.length ≤ c.buflen := hfit (toChunk x) (hseen.subset (by simp))
    obtain ⟨-, ⟨hacc, rfl⟩ | ⟨hacc, -⟩⟩ := Acq.device_cases hs
    · refine ⟨t', ht', hroom, hdst, hseen, ?_, h.stored_complete hbuf hfit hacc hlen hrel⟩
      intro y hy
      rcases List.mem_append.mp hy with hy | hy
      · exact h.lengths y hy
      · rw [List.mem_singleton.mp hy]
        exact hlength
    · exact absurd (h.refines.accepted_iff.mpr h.room) hacc
  · have hdone := Refines.done_eq (fun x hx => ha ⟨x, hx⟩) hs
    have hmem := Acq.step_mem (fun x hx => ha ⟨x, hx⟩) hs
    refine ⟨t', ht', hroom, hdst, ?_, ?_, ?_⟩
    · rw [hdone]
      exact h.seen
    · rw [hdone]
      exact h.lengths
    · intro k x hk hx
      rw [hdone] at hx
      rw [hmem]
      exact h.stored k x (Nat.le_trans hrel hk) hx

theorem started {d d' : Driver} (hst : Driver.Started c.toWzConsts d d') (hfifo : d.ext.kfifo = [])
    (mem : Nat → Byte) :
    Placed c.toWzConsts cs d'.ext.bufDmaT base (Acq.ofDriver d' mem) Tape.start := by
  refine ⟨.started hst hfifo mem, ?_, fun i hi => ?_, List.nil_prefix, ?_, ?_⟩
  · have := c.nofbufs_pos
    simp [Tape.start]
    omega
  · rw [(Acq.ofDriver_started hst mem hi).2]
    exact startDesc_dst ..
  · intro x hx
    cases hx
  · intro k x _ hx
    simp [Acq.ofDriver] at hx

/-- The positions of a block that is not confirmed are not given back. -/
theorem released_le (h : Placed c.toWzConsts cs dma base s t) {m : Nat} (hm : s.confirmed ≤ m)
    {g : Span Completion} (hg : t.put[m]? = some g) : t.released ≤ g.first := by
  have hlt := (List.getElem?_eq_some_iff.mp hg).1
  have hmono := endOf_mono isEop (t.items.take t.first) hm
    (by rw [← h.refines.inv.put_eq]; omega)
  rw [← h.refines.inv.put_eq] at hmono
  have hconf : t.released ≤ endOf t.put s.confirmed := by
    cases hcall : s.confirms 0 with
    | none => exact Nat.le_of_eq (h.refines.confirming.idle hcall)
    | some call =>
        obtain ⟨-, -, g', -, -, hle, -, hend, -⟩ := h.refines.busy hcall
        omega
  rw [(h.refines.inv.group hg).1]
  omega

/-- Block `m` and what it says about packet `m`. -/
theorem block (h : Placed c.toWzConsts cs dma base s t) {pkts : List (List Byte)}
    (hcs : Chunks.Sends c.buflen pkts cs) {m : Nat} {db : WzXdmaDataBlockDesc}
    (hdb : s.got[m]? = some db) :
    ∃ g pkt, t.put[m]? = some g ∧ db = toBlock c.toWzConsts g ∧ pkts[m]? = some pkt ∧
      pkt.length = c.buflen * (g.last - g.first) + g.item.data.length ∧
      ∀ k b, pkt[k]? = some b → k / c.buflen ≤ g.last - g.first ∧
        ∃ x, s.done[g.first + k / c.buflen]? = some x ∧ x.data[k % c.buflen]? = some b := by
  rw [h.refines.got, List.getElem?_map] at hdb
  obtain ⟨g, hg, rfl⟩ := Option.map_eq_some_iff.mp hdb
  have hgput : t.put[m]? = some g := by
    have hlt := (List.getElem?_eq_some_iff.mp hg).1
    rw [List.length_take] at hlt
    rwa [List.getElem?_take_of_lt (by omega)] at hg
  have hspan : (spans isEop s.done)[m]? = some g := by
    obtain ⟨zs, hzs⟩ := h.refines.inv.put_prefix
    rw [← h.refines.items, ← hzs,
      List.getElem?_append_left (List.getElem?_eq_some_iff.mp hgput).1, hgput]
  have hchunk : (spans Chunk.last (s.done.map toChunk))[m]? =
      some ⟨g.first, g.last, toChunk g.item⟩ := by
    rw [spans, spansFrom_map, List.getElem?_map]
    exact congrArg (Option.map _) hspan
  obtain ⟨pkt, hpkt, hlen, hbytes⟩ := hcs.record c.buflen_pos h.seen hchunk
  refine ⟨g, pkt, hgput, rfl, hpkt, hlen, fun k b hb => ?_⟩
  obtain ⟨hle, ch, hch, hdata⟩ := hbytes k b hb
  rw [List.getElem?_map] at hch
  obtain ⟨x, hx, rfl⟩ := Option.map_eq_some_iff.mp hch
  exact ⟨hle, x, hx, hdata⟩

end Placed

/-! ## What the application computes -/

/-- The application's `last_desc - first_desc`, taken modulo the number of buffers. -/
theorem sub_mod_nofbufs (c : RingConsts) {f l : Nat} (hfl : f ≤ l) (hl : l < f + c.nofbufs) :
    (BitVec.ofNat 32 (l % c.nofbufs) - BitVec.ofNat 32 (f % c.nofbufs)).toNat % c.nofbufs =
      l - f := by
  have hslot : ∀ k, (BitVec.ofNat 32 (k % c.nofbufs)).toNat < c.nofbufs := fun k => by
    rw [Refines.toNat_ofNat_mod]
    exact Nat.mod_lt _ c.nofbufs_pos
  rw [sub_mod_eq_dist c.nofbufs_dvd (hslot f) (hslot l), Refines.toNat_ofNat_mod,
    Refines.toNat_ofNat_mod, dist_mod hfl hl]

/-- An offset in the mapping, counted from the start of buffer `f` and wrapped, is in the
buffer of position `f + k / buflen`. -/
theorem offset_eq (c : RingConsts) (f k : Nat) :
    (f % c.nofbufs * c.buflen + k) % (c.nofbufs * c.buflen) =
      (f + k / c.buflen) % c.nofbufs * c.buflen + k % c.buflen := by
  have hb := c.buflen_pos
  have hdiv : (f % c.nofbufs * c.buflen + k) / c.buflen = f % c.nofbufs + k / c.buflen := by
    rw [Nat.add_comm, Nat.add_mul_div_right _ _ hb, Nat.add_comm]
  have hmod : (f % c.nofbufs * c.buflen + k) % c.buflen = k % c.buflen := by
    rw [Nat.add_comm, Nat.add_mul_mod_self_right]
  have h1 := Nat.div_add_mod ((f % c.nofbufs * c.buflen + k) % (c.nofbufs * c.buflen)) c.buflen
  rw [Nat.mul_comm c.nofbufs, Nat.mod_mul_right_div_self, Nat.mod_mul_right_mod, hdiv, hmod,
    Nat.mod_add_mod] at h1
  rw [Nat.mul_comm c.nofbufs, ← h1, Nat.mul_comm c.buflen]

/-- The byte that a page fault brings to an offset inside buffer `i`. -/
theorem fault_byte {c : RingConsts} {d : Driver} {i off p touch : Nat} {block : PageBlock}
    (hi : i < c.nofbufs) (hoff : off < c.buflen) (hp : d.ext.bufPage i = some p)
    (hblock : d.kern.pages p = some block)
    (htouch : touch / pageSize = (i * c.buflen + off) / pageSize) :
    ∃ frame, Driver.swzMmapFault c.toWzConsts d touch = .inserted p frame ∧
      frame * pageSize + (i * c.buflen + off) % pageSize = block.pfn * pageSize + off := by
  rw [Driver.swzMmapFault_page c.pageSize_dvd_buflen d htouch,
    Driver.swzMmapFault_of_lt hi hoff hp hblock]
  refine ⟨_, rfl, ?_⟩
  obtain ⟨q, hq⟩ := c.pageSize_dvd_buflen
  have hmod : (i * c.buflen + off) % pageSize = off % pageSize := by
    rw [hq, Nat.mul_left_comm, Nat.mul_add_mod]
  rw [hmod, Nat.add_mul, Nat.add_assoc, Nat.div_add_mod']

/-- The first frame of buffer `i`. -/
def Driver.bufPfn (d : Driver) (i : Nat) : Option Nat :=
  ((d.ext.bufPage i).bind d.kern.pages).map PageBlock.pfn

/-- What the kernel promises about the buffers of a driver: `dma_map_page` returned the bus
address of all of a buffer, and `alloc_pages` gave each buffer memory of its own. -/
structure PagesMapped (c : WzConsts) (bus : DmaAddr → Nat) (mapped : Nat → DmaAddr) (d : Driver) :
    Prop where
  maps : ∀ i pfn, i < c.nofbufs → d.bufPfn i = some pfn → ∀ k, k < c.buflen →
    bus (mapped i + BitVec.ofNat 64 k) = pfn * pageSize + k
  apart : ∀ i j pfn pfn', i < c.nofbufs → j < c.nofbufs → i ≠ j → d.bufPfn i = some pfn →
    d.bufPfn j = some pfn' →
    pfn * pageSize + c.buflen ≤ pfn' * pageSize ∨ pfn' * pageSize + c.buflen ≤ pfn * pageSize

/-- The buffers are allocated and no `START` has come since, so the ring gets the mapped
addresses and the pages behind them are known. -/
theorem first_start {c : RingConsts} {s₁ s₂ s₀ : Sys} (hs₁ : s₁.Reachable c.toWzConsts)
    (hnone : ∀ i, s₁.drv.ext.desc i = none) {aenv : AllocEnv}
    (halloc : Sys.step c.toWzConsts s₁ (.allocBuffers aenv) = some s₂)
    (hrc : (s₁.drv.ioctlDoWzAllocBuffers c.toWzConsts aenv).2 = 0)
    (hs₀ : Machine.Reach (Sys.step c.toWzConsts) (fun _ a => a.isStart = false) s₂ s₀)
    {env : StartEnv} {d : Driver}
    (hstart : s₀.drv.ioctlDoWzStart c.toWzConsts env = .ok (d, 0)) :
    Driver.Started c.toWzConsts s₀.drv d ∧ s₀.drv.ext.kfifo = [] ∧
      ∀ i, i < c.nofbufs → d.ext.bufDmaT i = s₀.mapped i ∧
        ∃ p block, d.ext.bufPage i = some p ∧ d.kern.pages p = some block := by
  have hreach : s₀.Reachable c.toWzConsts :=
    Machine.Reach.trans (.next hs₁ trivial halloc) (hs₀.mono fun _ _ _ => trivial)
  have hun : Driver.Unstarted c.toWzConsts s₀.drv := by
    refine hs₀.invariant (P := fun s => Driver.Unstarted c.toWzConsts s.drv) ?_ ?_
    · obtain ⟨d', rc, hd', rfl⟩ := Sys.step_eq_some halloc
      have hcall : s₁.drv.ioctlDoWzAllocBuffers c.toWzConsts aenv = (d', rc) := Option.some.inj hd'
      rw [hcall] at hrc
      exact .allocated hnone (.inl hrc) hcall
    · exact fun _ _ _ _ hP ha hstep => hP.step ha (Sys.step_effect hstep)
  have hst := Driver.start_ok c.nofbufs_pos hreach.pointerInv.live.descOld hstart
  refine ⟨hst, hun.kfifo, fun i hi => ?_⟩
  obtain ⟨hdma, p, block, hp, hblock⟩ := hun.pages hst.ready i hi
  have hmapped := ((hreach.mappedInv hst.ready).2 i hi).2
  refine ⟨?_, p, block, by rw [hst.frame.bufPage, hp], by rw [hst.frame.pages, hblock]⟩
  rw [hst.dma i hi, hun.desc i]
  exact hmapped.resolve_right hdma

theorem Driver.bufPfn_eq {d : Driver} {i p : Nat} {block : PageBlock} (hp : d.ext.bufPage i = some p)
    (hblock : d.kern.pages p = some block) : d.bufPfn i = some block.pfn := by
  simp [Driver.bufPfn, hp, hblock]

/-- Where the device writes is where the frames of the buffers are. -/
theorem PagesMapped.buffersAt {c : WzConsts} {bus : DmaAddr → Nat} {mapped : Nat → DmaAddr} {d : Driver}
    (hpages : PagesMapped c bus mapped d)
    (hbufs : ∀ i, i < c.nofbufs → d.ext.bufDmaT i = mapped i ∧
      ∃ p block, d.ext.bufPage i = some p ∧ d.kern.pages p = some block) :
    BuffersAt c bus d.ext.bufDmaT fun i => (d.bufPfn i).getD 0 * pageSize := by
  have hpfn : ∀ i, i < c.nofbufs → ∃ pfn, d.bufPfn i = some pfn := by
    intro i hi
    obtain ⟨-, p, block, hp, hblock⟩ := hbufs i hi
    exact ⟨_, Driver.bufPfn_eq hp hblock⟩
  constructor
  · intro i k hi hk
    obtain ⟨pfn, he⟩ := hpfn i hi
    rw [(hbufs i hi).1, he]
    exact hpages.maps i pfn hi he k hk
  · intro i j hi hj hij
    obtain ⟨pfn, he⟩ := hpfn i hi
    obtain ⟨pfn', he'⟩ := hpfn j hj
    rw [he, he']
    exact hpages.apart i j pfn pfn' hi hj hij he he'

/-- The application finds packet `m` from the three numbers of block `m`, until it confirms
the block: its length, and in the mapping each of its bytes, whichever access has brought
the page in. -/
theorem data_placement (c : RingConsts) (s₁ s₂ s₀ : Sys) (hs₁ : s₁.Reachable c.toWzConsts)
    (hnone : ∀ i, s₁.drv.ext.desc i = none) (aenv : AllocEnv)
    (halloc : Sys.step c.toWzConsts s₁ (.allocBuffers aenv) = some s₂)
    (hrc : (s₁.drv.ioctlDoWzAllocBuffers c.toWzConsts aenv).2 = 0)
    (hs₀ : Machine.Reach (Sys.step c.toWzConsts) (fun _ a => a.isStart = false) s₂ s₀)
    (env : StartEnv) (d : Driver)
    (hstart : s₀.drv.ioctlDoWzStart c.toWzConsts env = .ok (d, 0)) (bus : DmaAddr → Nat)
    (hpages : PagesMapped c.toWzConsts bus s₀.mapped d) (pkts : List (List Byte))
    (cs : List (Chunk Byte)) (hcs : Chunks.Sends c.buflen pkts cs) (mem : Nat → Byte) (s : Acq)
    (hs : Machine.Reach (Acq.step c.toWzConsts bus) (keepsUpWith c.toWzConsts cs)
      (Acq.ofDriver d mem) s)
    (m : Nat) (db : WzXdmaDataBlockDesc) (hdb : s.got[m]? = some db) (hm : s.confirmed ≤ m) :
    ∃ pkt, pkts[m]? = some pkt ∧
      pkt.length = c.buflen * ((db.lastDesc - db.firstDesc).toNat % c.nofbufs) +
        db.lastLen.toNat ∧
      ∀ k b, pkt[k]? = some b → ∀ touch,
        touch / pageSize =
          (db.firstDesc.toNat * c.buflen + k) % (c.nofbufs * c.buflen) / pageSize →
        ∃ p frame, d.swzMmapFault c.toWzConsts touch = .inserted p frame ∧
          s.mem (frame * pageSize +
            (db.firstDesc.toNat * c.buflen + k) % (c.nofbufs * c.buflen) % pageSize) = b := by
  obtain ⟨hst, hfifo, hbufs⟩ := first_start hs₁ hnone halloc hrc hs₀ hstart
  have hbuf := hpages.buffersAt hbufs
  have hfit : ∀ ch ∈ cs, ch.data.length ≤ c.buflen := fun ch hch => hcs.data_le hch
  obtain ⟨t, h⟩ := hs.invariant
    (P := fun s => ∃ t, Placed c.toWzConsts cs d.ext.bufDmaT
      (fun i => (d.bufPfn i).getD 0 * pageSize) s t)
    ⟨_, .started hst hfifo mem⟩ (fun _ _ _ _ ⟨_, hP⟩ hok hstep => hP.step hbuf hfit hok hstep)
  obtain ⟨g, pkt, hg, rfl, hpkt, hlen, hbytes⟩ := h.block hcs hdb
  obtain ⟨-, hfl, hlast, hitem, hmark, -⟩ := h.refines.inv.group hg
  have hrel := h.released_le hm hg
  have hroom := h.room
  have hfirst := h.refines.inv.first_le
  have hspan : g.last < g.first + c.nofbufs := by omega
  rw [h.refines.items] at hitem
  have hlastlen : g.item.length.toNat = g.item.data.length := by
    have hin := List.mem_of_getElem? hitem
    have hle := h.data_le hfit hin
    have hlt := c.buflen_lt
    rw [h.lengths _ hin hmark, BitVec.toNat_ofNat, Nat.mod_eq_of_lt (by omega)]
  refine ⟨pkt, hpkt, ?_, ?_⟩
  · simp only [toBlock]
    rw [sub_mod_nofbufs c hfl hspan, hlastlen, hlen]
  · intro k b hb touch htouch
    simp only [toBlock, Refines.toNat_ofNat_mod, offset_eq] at htouch ⊢
    obtain ⟨-, x, hx, hdata⟩ := hbytes k b hb
    have hslot : (g.first + k / c.buflen) % c.nofbufs < c.nofbufs := Nat.mod_lt _ c.nofbufs_pos
    obtain ⟨-, p, block, hp, hblock⟩ := hbufs _ hslot
    obtain ⟨frame, hfault, haddr⟩ :=
      fault_byte hslot (Nat.mod_lt k c.buflen_pos) hp hblock htouch
    refine ⟨p, frame, hfault, ?_⟩
    rw [haddr]
    have hmem := h.stored _ x (Nat.le_trans hrel (Nat.le_add_right ..)) hx _ b hdata
    rwa [Driver.bufPfn_eq hp hblock] at hmem

theorem allocGranted_byte {i k : Nat} (hi : i < 2) (hk : k < 4096) :
    (allocGranted.maps i + BitVec.ofNat 64 k).toNat = 1024 * (i + 1) * pageSize + k := by
  have hpage : pageSize = 4096 := by decide
  simp only [allocGranted]
  rw [hpage, BitVec.toNat_add, BitVec.toNat_ofNat, BitVec.toNat_ofNat, ← Nat.add_mod]
  exact Nat.mod_eq_of_lt (by omega)

/-- The second of two packets, in the second buffer of a ring of two. -/
theorem data_placement_second :
    ∃ (d : Driver) (s : Acq),
      Machine.Reach (Acq.step twoBuffers.toWzConsts BitVec.toNat)
        (keepsUpWith twoBuffers.toWzConsts [⟨true, [1, 2, 3]⟩, ⟨true, [4, 5]⟩])
        (Acq.ofDriver d fun _ => 0) s ∧
      s.got[1]? = some ⟨1, 1, 2⟩ ∧
      ∃ p frame, d.swzMmapFault twoBuffers.toWzConsts 4096 = .inserted p frame ∧
        s.mem (frame * pageSize + 1) = 5 := by
  obtain ⟨s₂, hs₂⟩ : ∃ s₂, Sys.step twoBuffers.toWzConsts .created (.allocBuffers allocGranted) =
      some s₂ := ⟨_, rfl⟩
  have hmapped : s₂.mapped = allocGranted.maps := by
    obtain rfl := Option.some.inj hs₂
    rfl
  have hrun : ((Sys.step twoBuffers.toWzConsts .created (.allocBuffers allocGranted)).map fun s =>
      (s.drv.ioctlDoWzStart twoBuffers.toWzConsts startGranted).toOption.any fun r =>
        decide (r.2 = 0 ∧ r.1.bufPfn 0 = some 1024 ∧ r.1.bufPfn 1 = some 2048) &&
          ((Machine.execOk (Acq.step twoBuffers.toWzConsts BitVec.toNat)
            (keepsUpWith twoBuffers.toWzConsts [⟨true, [1, 2, 3]⟩, ⟨true, [4, 5]⟩])
            (Acq.ofDriver r.1 fun _ => 0)
            [.device ⟨true, 3, [1, 2, 3]⟩, .scanBegin, .scanIter, .getbuf, .confirm 0 0 0,
              .restore 0, .restore 0, .restore 0, .restore 0, .restore 0, .restore 0, .restore 0,
              .restore 0, .device ⟨true, 2, [4, 5]⟩, .scanIter, .getbuf]).map fun s =>
              decide (s.got[1]? = some ⟨1, 1, 2⟩ ∧ s.confirmed = 1)) == some true) =
      some true := by decide +kernel
  rw [hs₂, Option.map_some, Option.some.injEq, Option.any_eq_true] at hrun
  obtain ⟨⟨d, rc⟩, hd, hrun⟩ := hrun
  rw [toOption_eq_some] at hd
  simp only [Bool.and_eq_true, decide_eq_true_eq, beq_iff_eq] at hrun
  obtain ⟨⟨rfl, h0, h1⟩, hexec⟩ := hrun
  obtain ⟨s, hs, hp⟩ := Machine.exists_reach_of_execOk _ _ _ _ _ hexec
  obtain ⟨hgot, hconf⟩ := of_decide_eq_true hp
  have hpfn : ∀ i pfn, i < 2 → d.bufPfn i = some pfn → pfn = 1024 * (i + 1) := by
    intro i pfn hi he
    have : i = 0 ∨ i = 1 := by omega
    rcases this with rfl | rfl
    · exact Option.some.inj (he.symm.trans h0)
    · exact Option.some.inj (he.symm.trans h1)
  have hpages : PagesMapped twoBuffers.toWzConsts BitVec.toNat s₂.mapped d := by
    constructor
    · intro i pfn hi he k hk
      rw [hpfn i pfn hi he, hmapped]
      exact allocGranted_byte hi hk
    · intro i j pfn pfn' hi hj hij he he'
      have hpage : pageSize = 4096 := by decide
      have hlen : twoBuffers.buflen = 4096 := rfl
      rw [hpfn i pfn hi he, hpfn j pfn' hj he', hpage, hlen]
      omega
  obtain ⟨pkt, hpkt, -, hbytes⟩ := data_placement twoBuffers .created s₂ s₂ .start (fun _ => rfl)
    allocGranted hs₂ (by decide +kernel) .start startGranted d hd BitVec.toNat hpages
    [[1, 2, 3], [4, 5]] _ (.cons (.last (by decide)) (.cons (.last (by decide)) .nil)) (fun _ => 0)
    s hs 1 _ hgot (by omega)
  obtain rfl : [4, 5] = pkt := by simpa using hpkt
  obtain ⟨p, frame, hfault, hbyte⟩ := hbytes 1 5 rfl 4096 (by decide)
  have hoff : ((1 : Word).toNat * twoBuffers.buflen + 1) %
      (twoBuffers.nofbufs * twoBuffers.buflen) % pageSize = 1 := by decide
  rw [hoff] at hbyte
  exact ⟨d, s, hs, hgot, p, frame, hfault, hbyte⟩

end WzXdma
