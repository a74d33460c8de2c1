import WzXdma.Accounting
import WzXdma.Lib.Fields
import WzXdma.PolledQueue
import WzXdma.Views
import WzXdma.Waiting

/-!
# What comes of a wait

A request goes on behind a transfer that is completed when the wait for it is over.  It also goes on
when the transfer is still submitted and the wait has ended without an error, as it can in polled mode
with other transfers in front.

Without `poll_mode` the state of the transfer is what the others have made of it.  In polled mode the
thread services the engine itself, and the count and the status that it reads decide.
-/

namespace WzXdma

open Lib Lib.Runs

/-! ## The new transfer -/

/-- The number of descriptors of a user buffer. -/
def bufferDescNum (dma : Nat → DmaAddr) (start cnt : Nat) : Nat :=
  match sgmPages (sgCreateMapper cnt) start cnt true with
  | .error _ => 0
  | .ok (_, sgl) => (createDescs ⟨false, false, false, true⟩ (pciMapSg dma sgl) 0 []).2

/-- Neither addresses nor directions decide where a block ends. -/
theorem transferBuildLoop_last_congr {mode mode' : BuildMode} (hmode : mode.userspace = true)
    (hmode' : mode'.userspace = true) (segs : List (Seg DmaAddr)) (j : Nat) (contAddr : DmaAddr)
    (contLen : Nat) (epAddr epAddr' : DmaAddr) (descs descs' : List XdmaDesc) :
    (transferBuildLoop mode segs j contAddr contLen epAddr descs).2 =
      (transferBuildLoop mode' segs j contAddr contLen epAddr' descs').2 := by
  induction segs generalizing j contAddr contLen epAddr epAddr' descs descs' with
  | nil => rfl
  | cons entry rest ih =>
      cases rest with
      | nil => rfl
      | cons next rest =>
          rw [transferBuildLoop, transferBuildLoop]
          dsimp only
          simp only [hmode, hmode', Bool.true_eq_false, and_false, or_false]
          by_cases hcut : next.start ≠ entry.start + BitVec.ofNat 64 entry.len ∨
              xdmaDescMaxBytes - pageSize < (contLen + entry.len) % 2 ^ 32
          · rw [if_pos hcut, if_pos hcut]
            exact ih ..
          · rw [if_neg hcut, if_neg hcut]
            exact ih ..

/-- A buffer whose pages were obtained lies in the address space. -/
theorem space_of_sgmPages {maxPages start count : Nat} {got : Bool} {rc : Int} {sgl : List Scatterlist}
    (hcount : count < 2 ^ 64) (h : sgmPages maxPages start count got = .ok (rc, sgl)) (hrc : 0 < rc) :
    start + count < 2 ^ 64 := by
  unfold sgmPages at h
  dsimp only at h
  split at h
  · cases h
    exact absurd hrc (by decide)
  · rename_i hwrap
    by_contra hspace
    have hmod : (start + count) % 2 ^ 64 < start := by
      rcases Nat.lt_or_ge start (2 ^ 64) with hstart | hstart
      · rw [Nat.mod_eq_sub_mod (by omega), Nat.mod_eq_of_lt (by omega)]
        omega
      · exact Nat.lt_of_lt_of_le (Nat.mod_lt _ (by decide)) hstart
    exact hwrap hmod

theorem space_of_transferCreate {env : CreateEnv} {mode : BuildMode} {start cnt : Nat}
    {epAddr : DmaAddr} {k k' : Kernel} {t : Nat} (hcnt : cnt < 2 ^ 64)
    (h : k.transferCreate env start cnt epAddr mode = .ok (k', some t)) : start + cnt < 2 ^ 64 := by
  unfold Kernel.transferCreate at h
  split at h
  · cases h
  · split at h
    · cases h
    · dsimp only at h
      split at h
      · cases h
      · rename_i rc sgl hsgl
        split at h
        · cases h
        · rename_i hneg
          split at h
          · cases h
          · rename_i hzero
            have hpages : sgmPages (sgCreateMapper cnt) start cnt env.pages = .ok (rc, sgl) := by
              cases hu : mode.userspace <;> simpa [hu, sgmGetUserPages, sgmKernelPages] using hsgl
            exact space_of_sgmPages hcnt hpages (by omega)

/-! ## The start of the engine -/

namespace Driver

variable {d : Driver} {x : Nat} {rest : List Nat}

theorem engineStart_dead (hrun : d.engine.running = false) (hlist : d.engine.transferList = x :: rest)
    (hx : d.kern.transfers x = none) : d.engineStart = .error .useAfterFree := by
  unfold engineStart
  rw [if_neg (Bool.eq_false_iff.mp hrun), hlist]
  simp only [hx]

theorem engineStart_live (hrun : d.engine.running = false) (hlist : d.engine.transferList = x :: rest)
    {transfer : XdmaTransfer} (hx : d.kern.transfers x = some transfer) :
    ∃ d', d.engineStart = .ok d' ∧ d'.kern = d.kern := by
  unfold engineStart
  rw [if_neg (Bool.eq_false_iff.mp hrun), hlist]
  simp only [hx]
  exact ⟨_, rfl, rfl⟩

/-- Behind its tests `transfer_queue` puts the transfer into the list and starts an idle engine. -/
theorem transferQueue_submits {d' : Driver} {transfer : XdmaTransfer}
    (hx : d.kern.transfers x = some transfer) (hnum : transfer.descNum ≠ 0)
    (hshut : d.engine.shutdown &&& engineShutdownRequest = 0)
    (hd' : { d with
      kern := { d.kern with
        transfers := Function.update d.kern.transfers x (some { transfer with state := .submitted }) }
      engine := { d.engine with transferList := d.engine.transferList ++ [x] } } = d') :
    d.transferQueue x = if d.engine.running then .ok (d', 0)
      else d'.engineStart.map fun d'' => (d'', 0) := by
  unfold transferQueue
  rw [hx]
  dsimp only
  rw [if_neg hnum, if_neg (not_not_intro hshut)]
  refine if_congr Iff.rfl ?_ ?_
  · rw [hd']
  · rw [hd']
    cases d'.engineStart with
    | ok d'' => rfl
    | error e => rfl

end Driver

/-- What is known of a transfer that was just created. -/
structure NewTransfer (k k' : Kernel) (t : Nat) (transfer : XdmaTransfer) (num : Nat) : Prop where
  transfers : k'.transfers = Function.update k.transfers t (some transfer)
  fresh : k.next ≤ t
  state : transfer.state = .new
  cyclic : transfer.cyclic = false
  descNum : transfer.descNum = num
  pos : 0 < num
  small : num < 2 ^ 24

namespace NewTransfer

variable {k k' : Kernel} {t num : Nat} {transfer : XdmaTransfer}

theorem found (h : NewTransfer k k' t transfer num) : k'.transfers t = some transfer := by
  rw [h.transfers, Function.update_self]

theorem others (h : NewTransfer k k' t transfer num) {x : Nat} (hx : x ≠ t) :
    k'.transfers x = k.transfers x := by
  rw [h.transfers, Function.update_of_ne hx]

end NewTransfer

theorem transferCreate_new {env : CreateEnv} {mode : BuildMode} (hmode : mode.userspace = true)
    {start cnt : Nat} {epAddr : DmaAddr} {k k' : Kernel} {t : Nat} (hpos : 0 < cnt)
    (hcnt : cnt ≤ xdmaTransferMaxBytes)
    (h : k.transferCreate env start cnt epAddr mode = .ok (k', some t)) :
    ∃ transfer, NewTransfer k k' t transfer (bufferDescNum env.dma start cnt) := by
  have hgranted := granted_of_transferCreate h
  have hmax : xdmaTransferMaxBytes = 2048 * 4096 := rfl
  have hspace := space_of_transferCreate (by omega) h
  obtain ⟨mem, hmem⟩ := Option.isSome_iff_exists.mp hgranted.coherent
  obtain ⟨nrPages, sgl, hsgl, hnr, hlen, -⟩ := @sgmPages_describes env.dma start cnt hpos hspace
  have hfew := (length_of_sgmPages hsgl (by omega)).2
  have hneg : ¬(nrPages : Int) < 0 := by omega
  have hzero : ¬(nrPages : Int) = 0 := by omega
  have hcnt' : ¬cnt = 0 := by omega
  have hnum : bufferDescNum env.dma start cnt =
      (createDescs ⟨false, false, false, true⟩ (pciMapSg env.dma sgl) 0 []).2 := by
    rw [bufferDescNum, hsgl]
  have hcongr (descs : List XdmaDesc) : (createDescs mode (pciMapSg env.dma sgl) epAddr descs).2 =
      bufferDescNum env.dma start cnt := by
    rw [hnum]
    exact congrArg (· + 1) (transferBuildLoop_last_congr hmode rfl ..)
  have hsmall : bufferDescNum env.dma start cnt < 2 ^ 24 := by
    have hle := createDescs_num_le ⟨false, false, false, true⟩ (pciMapSg env.dma sgl) 0 []
    have hmapper : sgCreateMapper cnt ≤ 2050 := by
      have hdiv : cnt / 4096 ≤ 2048 := by omega
      exact Nat.succ_le_succ (Nat.succ_le_succ hdiv)
    have hmap : (pciMapSg env.dma sgl).length = sgl.length := List.length_map ..
    omega
  simp only [Kernel.transferCreate, hgranted.transfer, hgranted.mapper, hgranted.pages, hcnt',
    createPages_eq mode hsgl, hneg, hzero, hmem, Kernel.xdmaDescAlloc, Option.map_some,
    Function.update_self, Option.getD_some, Kernel.kzallocTransfer, if_true, if_false,
    reduceCtorEq, or_false, Except.ok.injEq, Prod.mk.injEq, Option.some.injEq] at h
  obtain ⟨rfl, rfl⟩ := h
  refine ⟨_, rfl, Nat.le_succ _, rfl, rfl, hcongr _, ?_, hsmall⟩
  rw [hnum]
  exact Nat.succ_pos _

/-! ## When the request goes on -/

namespace Polled

/-- Every queued transfer was allocated, if only to be freed since. -/
def Issued (p : Polled) : Prop := ∀ x ∈ p.engine.transferList, x < p.kern.next

/-- The transfer as `transfer_data` finds it after a wait that returned `rc`. -/
def GoesOn (p : Polled) (t : Nat) (rc : Int) : Prop :=
  ∃ transfer, p.kern.transfers t = some transfer ∧
    (transfer.state = .completed ∨ transfer.state = .submitted ∧ rc = 0)

/-- Nobody waits for the engine to shut down, and it runs or can be started. -/
def Ready (p : Polled) : Prop :=
  p.engine.shutdown &&& engineShutdownRequest = 0 ∧
    (p.engine.running = false → ∀ x ∈ p.engine.transferList.head?, (p.kern.transfers x).isSome = true)

theorem not_goesOn {p q : Polled} {k : Kernel} {t num : Nat} {transfer : XdmaTransfer}
    (h : NewTransfer p.kern k t transfer num) (ht : q.kern.transfers t = some transfer) (rc : Int) :
    ¬q.GoesOn t rc := by
  rintro ⟨transfer', ht', hstate⟩
  obtain rfl := Option.some.inj (ht.symm.trans ht')
  rw [h.state] at hstate
  rcases hstate with hstate | hstate
  · cases hstate
  · cases hstate.1

end Polled

/-- The transfer is queued and the wait for it lets the request go on. -/
def Waits.Passes (w : Waits) (p : Polled) (t : Nat) : Prop :=
  ∃ q rc q' rc', w.transferQueue p t = (q, .ok rc) ∧ w.transferMonitor q t = (q', .ok rc') ∧
    q'.GoesOn t rc'

namespace Polled

variable {p : Polled} {k : Kernel} {t num : Nat} {transfer : XdmaTransfer}

theorem Issued.not_mem (hissued : p.Issued) (h : NewTransfer p.kern k t transfer num) :
    t ∉ p.engine.transferList :=
  fun hmem => Nat.not_lt.mpr h.fresh (hissued t hmem)

/-! ### Without `poll_mode` -/

theorem transferQueueIrq_refused (h : NewTransfer p.kern k t transfer num)
    (hshut : p.engine.shutdown &&& engineShutdownRequest ≠ 0) :
    (p.setKern k).transferQueueIrq t = (p.setKern k, .ok (-1)) := by
  have hnum : transfer.descNum ≠ 0 := Nat.ne_of_gt (h.descNum.symm ▸ h.pos)
  have hqueue : (p.setKern k).drv.transferQueue t = .ok ((p.setKern k).drv, -1) := by
    unfold Driver.transferQueue
    rw [show (p.setKern k).drv.kern.transfers t = some transfer from h.found]
    dsimp only
    rw [if_neg hnum]
    exact if_pos hshut
  unfold transferQueueIrq
  rw [hqueue]

/-- The head of the list with the new transfer behind it. -/
theorem head_found (h : NewTransfer p.kern k t transfer num) (hissued : p.Issued)
    {k' : Kernel} {submitted : XdmaTransfer} (hk' : k'.transfers t = some submitted)
    (hothers : ∀ x, x ≠ t → k'.transfers x = k.transfers x) :
    ∃ x rest, p.engine.transferList ++ [t] = x :: rest ∧
      ((k'.transfers x).isSome = true ↔
        ∀ x ∈ p.engine.transferList.head?, (p.kern.transfers x).isSome = true) := by
  cases hlist : p.engine.transferList with
  | nil => exact ⟨t, [], rfl, by rw [hk']; exact iff_of_true rfl nofun⟩
  | cons x rest =>
      have hne : x ≠ t := fun e => hissued.not_mem h (by rw [hlist, e]; exact List.mem_cons_self)
      refine ⟨x, rest ++ [t], rfl, ?_⟩
      rw [hothers x hne, h.others hne]
      exact ⟨fun hx y hy => Option.mem_some.mp hy ▸ hx, fun hx => hx x rfl⟩

/-- On an engine that is ready the new transfer is submitted, otherwise the start of the engine ends
in a fault. -/
theorem transferQueueIrq_idle (h : NewTransfer p.kern k t transfer num) (hissued : p.Issued)
    (hshut : p.engine.shutdown &&& engineShutdownRequest = 0) :
    p.Ready ∧ (∃ q, (p.setKern k).transferQueueIrq t = (q, .ok 0) ∧
        q.kern.transfers t = some { transfer with state := .submitted }) ∨
      ¬p.Ready ∧ ∃ e, (p.setKern k).transferQueueIrq t = (p.setKern k, .error e) := by
  have hnum : transfer.descNum ≠ 0 := Nat.ne_of_gt (h.descNum.symm ▸ h.pos)
  let d : Driver :=
    { (p.setKern k).drv with
      kern := { k with
        transfers := Function.update k.transfers t (some { transfer with state := .submitted }) }
      engine := { p.engine with transferList := p.engine.transferList ++ [t] } }
  have hqueue : (p.setKern k).drv.transferQueue t = if p.engine.running then .ok (d, 0)
      else d.engineStart.map fun d' => (d', 0) :=
    Driver.transferQueue_submits h.found hnum hshut rfl
  unfold transferQueueIrq
  rw [hqueue]
  cases hrun : p.engine.running with
  | true =>
      exact .inl ⟨⟨hshut, fun hstopped => absurd hrun (by rw [hstopped]; decide)⟩, _, rfl,
        Function.update_self ..⟩
  | false =>
      obtain ⟨x, rest, hhead, hlive⟩ := @head_found p k t num transfer h hissued d.kern _
        (Function.update_self ..) (fun x hx => Function.update_of_ne hx ..)
      have hrun' : d.engine.running = false := hrun
      have hhead' : d.engine.transferList = x :: rest := hhead
      rw [if_neg Bool.false_ne_true]
      cases hx : d.kern.transfers x with
      | none =>
          rw [Driver.engineStart_dead hrun' hhead' hx]
          refine .inr ⟨fun hready => ?_, _, rfl⟩
          have hsome := hlive.mpr (hready.2 hrun)
          rw [hx] at hsome
          cases hsome
      | some y =>
          obtain ⟨d', hstart, hkern⟩ := Driver.engineStart_live hrun' hhead' hx
          rw [hstart]
          refine .inl ⟨⟨hshut, fun _ => hlive.mp (by rw [hx]; rfl)⟩, _, rfl, ?_⟩
          show d'.kern.transfers t = _
          rw [hkern]
          exact Function.update_self ..

theorem passes_irq (h : NewTransfer p.kern k t transfer num) (hissued : p.Issued) (woken : Woken) :
    (Waits.irq woken).Passes (p.setKern k) t ↔ p.Ready ∧ woken.state = .completed := by
  unfold Waits.Passes
  by_cases hshut : p.engine.shutdown &&& engineShutdownRequest = 0
  · rcases transferQueueIrq_idle h hissued hshut with ⟨hready, q, hqueue, hq⟩ | ⟨hready, e, hqueue⟩
    · have hmonitor : q.transferMonitorIrq t woken =
          (q.wake t { transfer with state := .submitted } woken,
            .ok (if woken.state ≠ .submitted then 0 else -erestartsys)) := by
        unfold transferMonitorIrq
        rw [hq]
        exact if_neg (not_not_intro rfl)
      have hwoken : (q.wake t { transfer with state := .submitted } woken).kern.transfers t =
          some { transfer with state := woken.state } := Function.update_self ..
      constructor
      · rintro ⟨q₁, rc, q₂, rc', hq₁, hq₂, transfer', ht, hstate⟩
        obtain ⟨rfl, -⟩ := Prod.mk.inj (hqueue.symm.trans hq₁)
        obtain ⟨rfl, hrc⟩ := Prod.mk.inj (hmonitor.symm.trans hq₂)
        rw [hwoken, Option.some.injEq] at ht
        subst ht
        refine ⟨hready, hstate.resolve_right fun hsub => ?_⟩
        rw [if_neg (not_not_intro hsub.1), Except.ok.injEq] at hrc
        rw [hsub.2] at hrc
        exact absurd hrc (by decide)
      · rintro ⟨-, hstate⟩
        exact ⟨q, 0, _, _, hqueue, hmonitor, _, hwoken, .inl hstate⟩
    · refine iff_of_false ?_ fun hand => hready hand.1
      rintro ⟨q₁, rc, q₂, rc', hq₁, -⟩
      exact nomatch (Prod.mk.inj (hqueue.symm.trans hq₁)).2
  · -- the transfer stays a new one
    refine iff_of_false ?_ fun hand => hshut hand.1.1
    rintro ⟨q₁, rc, q₂, rc', hq₁, hq₂, hgo⟩
    obtain ⟨rfl, -⟩ := Prod.mk.inj ((transferQueueIrq_refused h hshut).symm.trans hq₁)
    have hmonitor : (p.setKern k).transferMonitorIrq t woken = (p.setKern k, .ok 0) := by
      unfold transferMonitorIrq
      rw [show (p.setKern k).kern.transfers t = some transfer from h.found]
      refine if_pos fun hsub => ?_
      rw [h.state] at hsub
      cases hsub
    obtain ⟨rfl, -⟩ := Prod.mk.inj (hmonitor.symm.trans hq₂)
    exact @not_goesOn p (p.setKern k) k t num transfer h h.found rc' hgo

/-! ### In polled mode -/

/-- A number of descriptors as the writeback shows it. -/
theorem word_of_descNum {n : Nat} (hpos : 0 < n) (hsmall : n < 2 ^ 24) :
    (BitVec.ofNat 32 n).toNat = n ∧ BitVec.ofNat 32 n &&& wbCountMask = BitVec.ofNat 32 n ∧
      BitVec.ofNat 32 n &&& wbErrMask = 0 ∧ BitVec.ofNat 32 n ≠ 0 := by
  have hnat : (BitVec.ofNat 32 n).toNat = n := by
    rw [BitVec.toNat_ofNat, Nat.mod_eq_of_lt (by omega)]
  have hmask : BitVec.ofNat 32 n &&& wbCountMask = BitVec.ofNat 32 n := by
    apply BitVec.eq_of_toNat_eq
    have hand : (BitVec.ofNat 32 n &&& wbCountMask).toNat = (BitVec.ofNat 32 n).toNat % 2 ^ 24 :=
      Fields.and_mask_toNat (BitVec.ofNat 32 n) (show 24 ≤ 32 by decide)
    rw [hand, hnat, Nat.mod_eq_of_lt hsmall]
  refine ⟨hnat, hmask, ?_, fun hzero => ?_⟩
  · rw [← hmask, BitVec.and_assoc]
    exact BitVec.and_zero
  · rw [hzero] at hnat
    exact absurd hnat (Nat.ne_of_lt hpos)

/-- The count that the thread services the engine with, once the engine runs. -/
def pollCount (p : Polled) (wb : Word) (hw : ServiceHw) : Nat :=
  (serviceCount wb hw - BitVec.ofNat 32 (if p.engine.running then p.engine.descDequeued else 0)).toNat

/-- What is read lets a request go on behind a transfer of `num` descriptors: either the count ends
with this transfer and no error is shown, or it ends in front of it and the writeback shows none. -/
def PollsThrough (p : Polled) (num : Nat) (reads : List Word) (hw : ServiceHw) : Prop :=
  let wb := engineServiceWbMonitor (BitVec.ofNat 32 num) reads
  let queued := p.kern.descSum p.engine.transferList
  p.serviceStatus wb hw &&& errFlags = 0 ∧ p.pollCount wb hw = queued + num ∨
    p.engine.transferList ≠ [] ∧ p.pollCount wb hw ≤ queued ∧ wb &&& wbErrMask = 0

/-- The state with the new transfer behind the others. -/
structure Queued (p : Polled) (t : Nat) (transfer : XdmaTransfer) (q : Polled) : Prop where
  list : q.engine.transferList = p.engine.transferList ++ [t]
  found : q.kern.transfers t = some { transfer with state := .submitted }
  others : ∀ x, x ≠ t → q.kern.transfers x = p.kern.transfers x
  running : q.engine.running = true
  shutdown : q.engine.shutdown &&& engineShutdownRequest = 0
  descDequeued : q.engine.descDequeued = if p.engine.running then p.engine.descDequeued else 0
  status : q.engine.status = p.engine.status

theorem transferQueue_refused (h : NewTransfer p.kern k t transfer num)
    (hshut : p.engine.shutdown &&& engineShutdownRequest ≠ 0) :
    (p.setKern k).transferQueue t = (p.setKern k, .ok (-1)) := by
  have hnum : transfer.descNum ≠ 0 := Nat.ne_of_gt (h.descNum.symm ▸ h.pos)
  unfold transferQueue
  rw [show (p.setKern k).kern.transfers t = some transfer from h.found]
  dsimp only
  rw [if_neg hnum]
  exact if_pos hshut

theorem transferQueue_queued (h : NewTransfer p.kern k t transfer num) (hissued : p.Issued)
    (hplain : p.Plain) (hshut : p.engine.shutdown &&& engineShutdownRequest = 0) :
    ∃ q, (p.setKern k).transferQueue t = (q, .ok 0) ∧ Queued p t transfer q := by
  have hnum : transfer.descNum ≠ 0 := Nat.ne_of_gt (h.descNum.symm ▸ h.pos)
  have hsubmitted := Kernel.setState_self h.found .submitted
  let q₀ := ((p.setKern k).setKern (k.setState t .submitted)).setEngine
    { p.engine with transferList := p.engine.transferList ++ [t] }
  have hothers : ∀ x, x ≠ t → q₀.kern.transfers x = p.kern.transfers x :=
    fun x hx => (Kernel.setState_of_ne hx .submitted).trans (h.others hx)
  have hqueue : (p.setKern k).transferQueue t =
      if p.engine.running then (q₀, .ok 0) else q₀.engineStart := by
    unfold transferQueue
    rw [show (p.setKern k).kern.transfers t = some transfer from h.found]
    dsimp only
    rw [if_neg hnum]
    exact if_neg (not_not_intro hshut)
  rw [hqueue]
  cases hrun : p.engine.running with
  | true =>
      exact ⟨q₀, rfl, rfl, hsubmitted, hothers, hrun, hshut, by rw [hrun]; rfl, rfl⟩
  | false =>
      obtain ⟨x, rest, hhead, hlive⟩ := @head_found p k t num transfer h hissued q₀.kern _ hsubmitted
        fun x hx => Kernel.setState_of_ne hx .submitted
      have hfirst : ∀ x ∈ p.engine.transferList.head?, (p.kern.transfers x).isSome = true := by
        intro y hy
        obtain ⟨transfer', hy', -⟩ := hplain.live y (List.mem_of_mem_head? hy)
        rw [hy']
        rfl
      obtain ⟨first, hx⟩ := Option.isSome_iff_exists.mp (hlive.mpr hfirst)
      obtain ⟨q, hstart, hq⟩ := engineStart_stopped (p := q₀) hrun hhead hx
      rw [if_neg Bool.false_ne_true]
      refine ⟨q, hstart, hq.transferList, ?_, fun x hx => ?_, hq.running, ?_, ?_, hq.status⟩
      · rw [hq.kern]
        exact hsubmitted
      · rw [hq.kern]
        exact hothers x hx
      · rw [hq.shutdown]
        decide
      · rw [hq.descDequeued, hrun]
        rfl

/-! A transfer that is not queued is left alone by a service. -/

theorem transferList_others {x : Nat} (list : List Nat) (p : Polled) (n : Nat) (hx : x ∉ list) :
    (engineServiceTransferList list p n).1.kern.transfers x = p.kern.transfers x ∧
      ∀ y ∈ (engineServiceTransferList list p n).1.engine.transferList,
        y ∈ p.engine.transferList ∨ y ∈ list := by
  induction list generalizing p n with
  | nil => exact ⟨rfl, fun _ hy => .inl hy⟩
  | cons t rest ih =>
      have hne : x ≠ t := fun e => hx (e ▸ List.mem_cons_self)
      rw [engineServiceTransferList]
      split
      · exact ⟨rfl, fun _ hy => .inl hy⟩
      · split
        · obtain ⟨hkern, hlist⟩ := ih _ _ fun hmem => hx (List.mem_cons_of_mem t hmem)
          refine ⟨hkern.trans (Kernel.setState_of_ne hne .completed), fun y hy => .inr ?_⟩
          exact List.mem_cons_of_mem t ((hlist y hy).elim id id)
        · exact ⟨rfl, fun _ hy => .inl hy⟩

theorem finalTransfer_others {x : Nat} (p : Polled) (n : Nat) (hx : x ∉ p.engine.transferList) :
    (p.engineServiceFinalTransfer n).1.kern.transfers x = p.kern.transfers x := by
  unfold engineServiceFinalTransfer
  split
  · rfl
  · rename_i t rest hlist
    have hne : x ≠ t := fun e => hx (by rw [hlist, e]; exact List.mem_cons_self)
    split
    · rfl
    · split
      · exact Kernel.setState_of_ne hne .failed
      · exact Kernel.setState_of_ne hne _

theorem dequeue_others {x : Nat} (p : Polled) (n : Nat) (hx : x ∉ p.engine.transferList) :
    (p.serviceDequeue n).1.kern.transfers x = p.kern.transfers x := by
  unfold serviceDequeue
  split
  · rfl
  · rename_i t rest hlist
    obtain ⟨hkern, hsub⟩ := transferList_others (t :: rest) p n (hlist ▸ hx)
    split
    · rename_i q e hq
      rw [hq] at hkern
      exact hkern
    · rename_i q m hq
      rw [hq] at hkern hsub
      refine (finalTransfer_others q m fun hmem => ?_).trans hkern
      exact hx ((hsub x hmem).elim id fun hmem' => hlist ▸ hmem')

theorem service_others {x : Nat} (p : Polled) (wb : Word) (hw : ServiceHw)
    (hx : x ∉ p.engine.transferList) :
    (p.engineService wb hw).1.kern.transfers x = p.kern.transfers x := by
  cases hrun : p.engine.running with
  | false => rw [(engineService_stopped hrun wb hw).2.1]
  | true =>
      obtain ⟨hlist, hkern, -⟩ := serviceStop_same p wb hw
      have hdeq := dequeue_others (p.serviceStop wb hw)
        ((p.serviceStop wb hw).serviceCompleted wb hw) (hlist ▸ hx)
      rw [hkern] at hdeq
      rcases engineService_cases hrun wb hw with ⟨e, -, heq⟩ | ⟨rc, -, heq⟩
      · rw [heq]
        exact hdeq
      · rw [heq, (resume_same _).2.1]
        exact hdeq

/-! The service of the queue with the new transfer at its end. -/

/-- Where a count ends in a queue: behind it, or in one of its transfers. -/
theorem count_ends (k : Kernel) (list : List Nat) (n : Nat) :
    (list = [] ∨ k.descSum list < n) ∨ ∃ done x rest, list = done ++ x :: rest ∧
      (done = [] ∨ k.descSum done < n) ∧ n ≤ k.descSum done + k.descNumOf x := by
  induction list using List.reverseRecOn with
  | nil => exact .inl (.inl rfl)
  | append_singleton list x ih =>
      rcases ih with hbelow | ⟨done, y, rest, rfl, hbelow, hle⟩
      · rcases Nat.lt_or_ge (k.descSum list + k.descNumOf x) n with hlt | hge
        · refine .inl (.inr ?_)
          rwa [Kernel.descSum_append, Kernel.descSum, Kernel.descSum, Nat.add_zero]
        · exact .inr ⟨list, x, [], rfl, hbelow, hge⟩
      · exact .inr ⟨done, y, rest ++ [x], List.append_assoc .., hbelow, hle⟩

theorem serviceDequeue_at {r : Polled} (hplain : r.Plain) {done rest : List Nat} {x n : Nat}
    (hlist : r.engine.transferList = done ++ x :: rest) (hbelow : done = [] ∨ r.kern.descSum done < n)
    (hle : n ≤ r.kern.descSum done + r.kern.descNumOf x) :
    r.serviceDequeue n = (r.taken done (x :: rest)).engineServiceFinalTransfer
      (n - r.kern.descSum done) := by
  have hmem : x ∈ r.engine.transferList := hlist ▸ List.mem_append_right done List.mem_cons_self
  obtain ⟨transfer, hx, -, -⟩ := hplain.live x hmem
  have hnodup := hplain.nodup
  rw [hlist, List.nodup_append] at hnodup
  have hnew : x ∉ done := fun hmem => hnodup.2.2 x hmem x List.mem_cons_self rfl
  have hkept : (r.taken done (x :: rest)).kern.transfers x = some transfer :=
    (Kernel.setStates_of_not_mem hnew .completed).trans hx
  rw [Kernel.descNumOf_of_some hx] at hle
  refine serviceDequeue_of_loop (List.ne_nil_of_mem hmem) ?_
  rw [hlist]
  rcases hbelow with rfl | hbelow
  · have hr : r.taken [] (x :: rest) = r := by
      rw [List.nil_append] at hlist
      rw [← hlist]
      rfl
    rw [hr, List.nil_append, transferList_stays hx (by rw [Kernel.descSum] at hle; omega)]
    rfl
  · have hlive : ∀ y ∈ done, ∃ transfer, r.kern.transfers y = some transfer ∧
        transfer.cyclic = false := by
      intro y hy
      obtain ⟨transfer', hy', hcyclic, -⟩ := hplain.live y (hlist ▸ List.mem_append_left _ hy)
      exact ⟨transfer', hy', hcyclic⟩
    rw [transferList_taken hlist hlive hbelow, transferList_stays hkept (by omega)]

/-- A count beyond the whole queue runs into a `BUG_ON`. -/
theorem serviceDequeue_beyond {r : Polled} (hplain : r.Plain) (hne : r.engine.transferList ≠ []) {n : Nat}
    (hn : r.kern.descSum r.engine.transferList < n) : ∃ d, r.serviceDequeue n = (d, .error .bugOn) := by
  have hlive : ∀ y ∈ r.engine.transferList, ∃ transfer, r.kern.transfers y = some transfer ∧
      transfer.cyclic = false := fun y hy => (hplain.live y hy).imp fun _ h => ⟨h.1, h.2.1⟩
  have hloop := transferList_taken (List.append_nil r.engine.transferList).symm hlive hn
  rw [List.append_nil, engineServiceTransferList] at hloop
  exact ⟨_, (serviceDequeue_of_loop hne hloop).trans rfl⟩

/-- The engine is started again, unless nothing is left. -/
theorem resume_live {r : Polled} (hshut : r.engine.shutdown &&& engineShutdownRequest = 0)
    (hhead : ∀ x ∈ r.engine.transferList.head?, (r.kern.transfers x).isSome = true) :
    ∃ q, r.engineServiceResume = (q, .ok 0) ∧ q.kern = r.kern := by
  unfold engineServiceResume
  cases hrun : r.engine.running with
  | true => exact ⟨r, rfl, rfl⟩
  | false =>
      rw [if_neg Bool.false_ne_true, if_neg (not_not_intro hshut)]
      cases hlist : r.engine.transferList with
      | nil => exact ⟨r, rfl, rfl⟩
      | cons x rest =>
          obtain ⟨first, hx⟩ := Option.isSome_iff_exists.mp (hhead x (by rw [hlist]; rfl))
          obtain ⟨q, hstart, hq⟩ := engineStart_stopped hrun hlist hx
          exact ⟨q, hstart, hq.kern⟩

theorem serviceStop_shutdown (p : Polled) (wb : Word) (hw : ServiceHw) :
    (p.serviceStop wb hw).engine.shutdown = p.engine.shutdown ∧
      (p.serviceStop wb hw).engine.descDequeued = p.engine.descDequeued := by
  unfold serviceStop
  dsimp only
  split <;> exact ⟨rfl, rfl⟩

/-- A service whose dequeuing ends in a state from which the engine can be started again. -/
theorem service_of_dequeue {q d : Polled} (hrun : q.engine.running = true) {wb : Word} {hw : ServiceHw}
    {m : Int} (hdeq : (q.serviceStop wb hw).serviceDequeue
      ((q.serviceStop wb hw).serviceCompleted wb hw) = (d, .ok m))
    (hshut : d.engine.shutdown &&& engineShutdownRequest = 0)
    (hhead : ∀ x ∈ d.engine.transferList.head?, (d.kern.transfers x).isSome = true) :
    ∃ q', q.engineService wb hw = (q', .ok (if wb &&& wbErrMask ≠ 0 then -1 else 0)) ∧
      q'.kern = d.kern := by
  obtain ⟨q', hres, hkern⟩ := @resume_live { d with wb := 0 } hshut hhead
  refine ⟨q', ?_, hkern⟩
  unfold engineService
  rw [if_neg (by rw [hrun]; decide)]
  simp only [hdeq, hres]

theorem service_of_crash {q d : Polled} (hrun : q.engine.running = true) {wb : Word} {hw : ServiceHw}
    {e : Crash} (hdeq : (q.serviceStop wb hw).serviceDequeue
      ((q.serviceStop wb hw).serviceCompleted wb hw) = (d, .error e)) :
    q.engineService wb hw = (d, .error e) := by
  unfold engineService
  rw [if_neg (by rw [hrun]; decide)]
  simp only [hdeq]

theorem goesOn_of_found {q : Polled} (ht : q.kern.transfers t = some transfer) (rc : Int) :
    q.GoesOn t rc ↔ transfer.state = .completed ∨ transfer.state = .submitted ∧ rc = 0 := by
  constructor
  · rintro ⟨transfer', ht', hstate⟩
    rw [ht, Option.some.injEq] at ht'
    rwa [ht']
  · exact fun hstate => ⟨transfer, ht, hstate⟩

theorem goesOn_of_ok {r : Polled × Except Crash Int} {q : Polled} {rc : Int} (h : r = (q, .ok rc)) :
    (∃ q' rc', r = (q', .ok rc') ∧ q'.GoesOn t rc') ↔ q.GoesOn t rc := by
  constructor
  · rintro ⟨q', rc', hr, hgo⟩
    obtain ⟨rfl, hrc⟩ := Prod.mk.inj (h.symm.trans hr)
    rwa [Except.ok.inj hrc]
  · exact fun hgo => ⟨q, rc, h, hgo⟩

/-- The transfer at the front of a live queue is done with, and the rest is as before. -/
theorem finalTransfer_front {u : Polled} {x : Nat} {rest : List Nat}
    (hlist : u.engine.transferList = x :: rest)
    (hlive : ∀ y ∈ x :: rest, (u.kern.transfers y).isSome = true) (n : Nat) :
    ∃ d, u.engineServiceFinalTransfer n = (d, .ok 0) ∧ d.engine.shutdown = u.engine.shutdown ∧
      (∀ y ∈ d.engine.transferList.head?, (d.kern.transfers y).isSome = true) ∧
      ∀ y, y ≠ x → d.kern.transfers y = u.kern.transfers y := by
  obtain ⟨transfer, hx⟩ := Option.isSome_iff_exists.mp (hlive x List.mem_cons_self)
  have hset (state : TransferState) : ∀ y ∈ x :: rest,
      ((u.kern.setState x state).transfers y).isSome = true := by
    intro y hy
    by_cases hyx : y = x
    · rw [hyx, Kernel.setState_self hx]
      rfl
    · rw [Kernel.setState_of_ne hyx]
      exact hlive y hy
  by_cases hstatus : u.engine.status &&& errFlags = 0
  · refine ⟨_, finalTransfer_of_status hlist hx hstatus n, rfl, fun y hy => ?_,
      fun y hy => Kernel.setState_of_ne hy _⟩
    exact hset _ y (List.mem_cons_of_mem x (List.mem_of_mem_head? hy))
  · refine ⟨_, finalTransfer_of_error hlist hx hstatus n, rfl, fun y hy => ?_,
      fun y hy => Kernel.setState_of_ne hy _⟩
    have hhead : y ∈ u.engine.transferList.head? := hy
    rw [hlist] at hhead
    exact hset _ y (Option.mem_some.mp hhead ▸ List.mem_cons_self)

namespace Queued

variable {q : Polled}

theorem plain (hq : Queued p t transfer q) (h : NewTransfer p.kern k t transfer num)
    (hissued : p.Issued) (hplain : p.Plain) : q.Plain := by
  have hnew := hissued.not_mem h
  refine ⟨?_, fun x hx => ?_⟩
  · rw [hq.list]
    exact List.nodup_append.mpr ⟨hplain.nodup, List.nodup_singleton t,
      fun a ha b hb hab => hnew (List.mem_singleton.mp hb ▸ hab ▸ ha)⟩
  · rw [hq.list] at hx
    rcases List.mem_append.mp hx with hx | hx
    · rw [hq.others x fun e => hnew (e ▸ hx)]
      exact hplain.live x hx
    · rw [List.mem_singleton.mp hx]
      exact ⟨_, hq.found, h.cyclic, h.descNum.symm ▸ h.pos⟩

theorem descSum (hq : Queued p t transfer q) (h : NewTransfer p.kern k t transfer num)
    (hissued : p.Issued) : q.kern.descSum p.engine.transferList = p.kern.descSum p.engine.transferList :=
  Kernel.descSum_congr fun x hx => by
    unfold Kernel.descNumOf
    rw [hq.others x fun e => hissued.not_mem h (e ▸ hx)]

theorem descNumOf (hq : Queued p t transfer q) (h : NewTransfer p.kern k t transfer num) :
    q.kern.descNumOf t = num := (Kernel.descNumOf_of_some hq.found).trans h.descNum

end Queued

/-- What the dequeuing makes of the last transfer of a live queue when `n` descriptors are completed. -/
inductive LastOutcome (r : Polled) (front : List Nat) (t : Nat) (transfer : XdmaTransfer) (n : Nat) :
    Polled × Except Crash Int → Prop
  /-- the count goes beyond the queue -/
  | beyond {d : Polled} {e : Crash} (hn : r.kern.descSum front + transfer.descNum < n) :
      LastOutcome r front t transfer n (d, .error e)
  /-- the count ends in another transfer -/
  | behind {d : Polled} {m : Int} (hne : front ≠ []) (hn : n ≤ r.kern.descSum front)
      (hshut : d.engine.shutdown = r.engine.shutdown)
      (hhead : ∀ y ∈ d.engine.transferList.head?, (d.kern.transfers y).isSome = true)
      (hstate : d.kern.transfers t = some transfer) : LastOutcome r front t transfer n (d, .ok m)
  /-- the count ends in this one -/
  | reached {d : Polled} {m : Int} (hbelow : front = [] ∨ r.kern.descSum front < n)
      (hn : n ≤ r.kern.descSum front + transfer.descNum)
      (hshut : d.engine.shutdown = r.engine.shutdown)
      (hhead : ∀ y ∈ d.engine.transferList.head?, (d.kern.transfers y).isSome = true)
      (hstate : d.kern.transfers t = some { transfer with state :=
        if r.engine.status &&& errFlags = 0 ∧ n = r.kern.descSum front + transfer.descNum then .completed
        else .failed }) : LastOutcome r front t transfer n (d, .ok m)

theorem dequeue_last {r : Polled} (hplain : r.Plain) {front : List Nat}
    (hlist : r.engine.transferList = front ++ [t]) (ht : r.kern.transfers t = some transfer) (n : Nat) :
    LastOutcome r front t transfer n (r.serviceDequeue n) := by
  have hnum := Kernel.descNumOf_of_some ht
  have hnodup := hplain.nodup
  rw [hlist, List.nodup_append] at hnodup
  have hnew : t ∉ front := fun hmem => hnodup.2.2 t hmem t List.mem_cons_self rfl
  have hpos : 1 ≤ transfer.descNum := by
    obtain ⟨transfer', ht', -, hpos⟩ := hplain.live t (hlist ▸ List.mem_append_right front List.mem_cons_self)
    rw [ht, Option.some.injEq] at ht'
    rwa [ht']
  rcases count_ends r.kern front n with hbelow | ⟨done, x, rest, rfl, hbelow, hle⟩
  · rcases Nat.lt_or_ge (r.kern.descSum front + transfer.descNum) n with hlt | hge
    · have hsum : r.kern.descSum r.engine.transferList < n := by
        rw [hlist, Kernel.descSum_append, Kernel.descSum, Kernel.descSum, hnum, Nat.add_zero]
        exact hlt
      obtain ⟨d, hd⟩ := serviceDequeue_beyond hplain (by
        rw [hlist]
        exact List.append_ne_nil_of_right_ne_nil front (List.cons_ne_nil t [])) hsum
      rw [hd]
      exact .beyond hlt
    · -- all of the front is taken off, and the count ends in the last transfer
      rw [serviceDequeue_at hplain hlist hbelow (by rw [hnum]; exact hge)]
      have hkept : (r.taken front [t]).kern.transfers t = some transfer :=
        (Kernel.setStates_of_not_mem hnew .completed).trans ht
      by_cases hstatus : r.engine.status &&& errFlags = 0
      · rw [finalTransfer_of_status rfl hkept hstatus]
        refine .reached hbelow hge rfl (fun y hy => absurd hy (Option.not_mem_none y))
          ((Kernel.setState_self hkept _).trans ?_)
        by_cases hend : n = r.kern.descSum front + transfer.descNum
        · rw [if_neg (show ¬n - r.kern.descSum front < transfer.descNum by omega),
            if_pos ⟨hstatus, hend⟩]
        · rw [if_pos (show n - r.kern.descSum front < transfer.descNum by omega),
            if_neg fun hand => hend hand.2]
      · rw [finalTransfer_of_error rfl hkept hstatus]
        refine .reached hbelow hge rfl (fun y hy => ?_) ((Kernel.setState_self hkept _).trans ?_)
        · have hy' : y = t := (Option.mem_some.mp hy).symm
          rw [hy']
          show (((r.taken front [t]).kern.setState t .failed).transfers t).isSome = true
          rw [Kernel.setState_self hkept]
          rfl
        · rw [if_neg fun hand => hstatus hand.1]
  · have hlist' : r.engine.transferList = done ++ x :: (rest ++ [t]) := by
      rw [hlist, List.append_assoc]
      rfl
    rw [serviceDequeue_at hplain hlist' hbelow hle]
    have htdone : t ∉ done := fun hmem => hnew (List.mem_append_left _ hmem)
    have htx : t ≠ x := fun e => hnew (e ▸ List.mem_append_right done List.mem_cons_self)
    have hnodup' := hplain.nodup
    rw [hlist', List.nodup_append] at hnodup'
    have hlive : ∀ y ∈ x :: (rest ++ [t]),
        ((r.taken done (x :: (rest ++ [t]))).kern.transfers y).isSome = true := by
      intro y hy
      have hydone : y ∉ done := fun hmem => hnodup'.2.2 y hmem y hy rfl
      obtain ⟨transfer', hy', -⟩ := hplain.live y (hlist' ▸ List.mem_append_right done hy)
      have hkept : (r.taken done (x :: (rest ++ [t]))).kern.transfers y = some transfer' :=
        (Kernel.setStates_of_not_mem hydone .completed).trans hy'
      rw [hkept]
      rfl
    obtain ⟨d, hd, hshut, hhead, hothers⟩ := finalTransfer_front rfl hlive (n - r.kern.descSum done)
    rw [hd]
    refine .behind (List.append_ne_nil_of_right_ne_nil done (List.cons_ne_nil x rest)) ?_ hshut hhead ?_
    · rw [Kernel.descSum_append, Kernel.descSum]
      omega
    · exact (hothers t htx).trans ((Kernel.setStates_of_not_mem htdone .completed).trans ht)

/-- A service of the queue with the new transfer. -/
theorem service_passes {q : Polled} (hq : Queued p t transfer q)
    (h : NewTransfer p.kern k t transfer num) (hissued : p.Issued) (hplain : p.Plain) (wb : Word)
    (hw : ServiceHw) :
    (∃ q' rc, q.engineService wb hw = (q', .ok rc) ∧ q'.GoesOn t rc) ↔
      p.serviceStatus wb hw &&& errFlags = 0 ∧
          p.pollCount wb hw = p.kern.descSum p.engine.transferList + num ∨
        p.engine.transferList ≠ [] ∧ p.pollCount wb hw ≤ p.kern.descSum p.engine.transferList ∧
          wb &&& wbErrMask = 0 := by
  obtain ⟨hlist, hkern, -, hstatus⟩ := serviceStop_same q wb hw
  obtain ⟨hshut, hdequeued⟩ := serviceStop_shutdown q wb hw
  have hstatus' : (q.serviceStop wb hw).engine.status = p.serviceStatus wb hw := by
    rw [hstatus, serviceStatus, serviceStatus, hq.status]
  have hcount : (q.serviceStop wb hw).serviceCompleted wb hw = p.pollCount wb hw := by
    rw [serviceCompleted, pollCount, hdequeued, hq.descDequeued]
  have hsum : (q.serviceStop wb hw).kern.descSum p.engine.transferList =
      p.kern.descSum p.engine.transferList := by
    rw [hkern]
    exact hq.descSum h hissued
  have hplain' : (q.serviceStop wb hw).Plain := by
    refine ⟨hlist ▸ (hq.plain h hissued hplain).nodup, fun x hx => ?_⟩
    rw [hkern]
    exact (hq.plain h hissued hplain).live x (hlist ▸ hx)
  have hshut' : (q.serviceStop wb hw).engine.shutdown &&& engineShutdownRequest = 0 :=
    hshut ▸ hq.shutdown
  have hlast := dequeue_last hplain' (hlist.trans hq.list) ((congrArg (·.transfers t) hkern).trans hq.found)
    ((q.serviceStop wb hw).serviceCompleted wb hw)
  generalize hdeq : (q.serviceStop wb hw).serviceDequeue
    ((q.serviceStop wb hw).serviceCompleted wb hw) = r at hlast
  rw [hcount] at hlast
  rw [← h.descNum]
  cases hlast with
  | beyond hn =>
      rw [hsum] at hn
      have hn' : p.kern.descSum p.engine.transferList + transfer.descNum < p.pollCount wb hw := hn
      rw [service_of_crash hq.running hdeq]
      refine iff_of_false (fun ⟨q', rc, hr, _⟩ => nomatch (Prod.mk.inj hr).2) ?_
      rintro (⟨-, hend⟩ | ⟨-, hle, -⟩) <;> omega
  | behind hne hn hdshut hhead hstate =>
      rw [hsum] at hn
      obtain ⟨q', hservice, hq'⟩ := service_of_dequeue hq.running hdeq (hdshut ▸ hshut') hhead
      have hpos : 0 < transfer.descNum := h.descNum.symm ▸ h.pos
      rw [goesOn_of_ok hservice, goesOn_of_found (by rw [hq']; exact hstate)]
      constructor
      · rintro (hcontra | ⟨-, hrc⟩)
        · cases hcontra
        · refine .inr ⟨hne, hn, ?_⟩
          by_contra herr
          rw [if_pos herr] at hrc
          exact absurd hrc (by decide)
      · rintro (⟨-, hend⟩ | ⟨-, -, herr⟩)
        · omega
        · exact .inr ⟨rfl, if_neg (not_not_intro herr)⟩
  | reached hbelow hn hdshut hhead hstate =>
      rw [hsum] at hbelow hn hstate
      obtain ⟨q', hservice, hq'⟩ := service_of_dequeue hq.running hdeq (hdshut ▸ hshut') hhead
      rw [goesOn_of_ok hservice, goesOn_of_found (by rw [hq']; exact hstate)]
      rw [hstatus']
      constructor
      · intro hgo
        refine .inl ?_
        by_contra hnot
        have hnot' : ¬(p.serviceStatus wb hw &&& errFlags = 0 ∧ p.pollCount wb hw =
            p.kern.descSum p.engine.transferList + transfer.descNum) := hnot
        simp only [if_neg hnot', reduceCtorEq, false_and, or_false] at hgo
      · rintro (hend | ⟨hne, hle, -⟩)
        · exact .inl (if_pos hend)
        · rcases hbelow with hnil | hlt
          · exact absurd hnil hne
          · omega

/-- In polled mode, with live transfers in front of it. -/
theorem passes_polled (h : NewTransfer p.kern k t transfer num) (hissued : p.Issued) (hplain : p.Plain)
    (reads : List Word) (hw : ServiceHw) :
    (Waits.polled reads hw).Passes (p.setKern k) t ↔
      p.engine.shutdown &&& engineShutdownRequest = 0 ∧ p.PollsThrough num reads hw := by
  unfold Waits.Passes
  by_cases hshut : p.engine.shutdown &&& engineShutdownRequest = 0
  · obtain ⟨q, hqueue, hq⟩ := transferQueue_queued h hissued hplain hshut
    obtain ⟨-, hmask, -, -⟩ := word_of_descNum h.pos h.small
    have hmonitor : q.transferMonitor t reads hw = q.engineService
        (engineServiceWbMonitor (BitVec.ofNat 32 num) reads) hw := by
      unfold transferMonitor engineServicePoll
      rw [hq.found]
      dsimp only
      rw [h.descNum, if_neg (not_not_intro hmask)]
    have hpass := service_passes hq h hissued hplain
      (engineServiceWbMonitor (BitVec.ofNat 32 num) reads) hw
    constructor
    · rintro ⟨q₁, rc, q₂, rc', hq₁, hq₂, hgo⟩
      obtain ⟨rfl, -⟩ := Prod.mk.inj (hqueue.symm.trans hq₁)
      exact ⟨hshut, hpass.mp ⟨q₂, rc', hmonitor.symm.trans hq₂, hgo⟩⟩
    · rintro ⟨-, hthrough⟩
      obtain ⟨q', rc, hservice, hgo⟩ := hpass.mpr hthrough
      exact ⟨q, 0, q', rc, hqueue, hmonitor.trans hservice, hgo⟩
  · -- the transfer stays a new one
    refine iff_of_false ?_ fun hand => hshut hand.1
    rintro ⟨q₁, rc, q₂, rc', hq₁, hq₂, hgo⟩
    obtain ⟨rfl, -⟩ := Prod.mk.inj ((transferQueue_refused h hshut).symm.trans hq₁)
    have hfound : (p.setKern k).kern.transfers t = some transfer := h.found
    have hkept : q₂.kern.transfers t = some transfer := by
      have hsame : ((p.setKern k).transferMonitor t reads hw).1.kern.transfers t =
          (p.setKern k).kern.transfers t := by
        unfold transferMonitor engineServicePoll
        rw [hfound]
        dsimp only
        split
        · exact hfound
        · exact (service_others (p.setKern k) _ hw (hissued.not_mem h)).trans hfound
      rw [← hfound, ← hsame]
      exact congrArg (fun r => r.1.kern.transfers t) hq₂.symm
    exact not_goesOn h hkept rc' hgo

/-- A transfer of three descriptors on an idle engine: the poll sees all of them, or two of them. -/
example : (Polled.created false false true).PollsThrough 3 [0, 3] ⟨0, 0⟩ ∧
    ¬(Polled.created false false true).PollsThrough 3 [0, 2] ⟨0, 0⟩ := by
  unfold PollsThrough
  decide

end Polled

end WzXdma
