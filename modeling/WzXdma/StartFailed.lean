import WzXdma.Rollback

/-!
# What a failed `START` leaves behind

`START` leaves at once when a descriptor cannot be allocated.  When there is no memory for the
transfer, it first frees the descriptors of the whole ring.  The descriptors of a ring that was
not finished stay, and the next `START` takes them for those of a ring that was: it frees them
with the address of the buffer and forgets that address.
-/

namespace WzXdma

open Lib Lib.Loop

/-- An allocation of `START` fails. -/
def StartEnv.Fails (env : StartEnv) (c : WzConsts) : Prop :=
  (∃ k, k < c.nofbufs ∧ env.coherent k = none) ∨ env.transfer = false

/-- None of them does. -/
def StartEnv.Grants (env : StartEnv) (c : WzConsts) : Prop :=
  (∀ k, k < c.nofbufs → env.coherent k ≠ none) ∧ env.transfer = true

namespace Driver

variable {c : WzConsts} {env : StartEnv} {d t : Driver} {i : Nat}

/-- `ALLOC_BUFFERS` has returned 0. -/
structure BuffersReady (d : Driver) : Prop where
  ready : d.ext.bufReady = true
  copy : ∃ v, d.ext.descCopy = some v ∧ d.kern.copies v ≠ none

/-- `transfer_queue` finds the transfer that it would start first. -/
def QueueAlive (d : Driver) : Prop :=
  d.engine.running = false → ∀ x, d.engine.transferList.head? = some x → d.kern.transfers x ≠ none

/-- `transfer_queue` starts the engine, and the transfer at the head is neither `x` nor allocated. -/
def HeadLost (d : Driver) (x : Nat) : Prop :=
  d.engine.shutdown &&& engineShutdownRequest = 0 ∧ d.engine.running = false ∧
    ∃ y, d.engine.transferList.head? = some y ∧ y ≠ x ∧ d.kern.transfers y = none

/-! ## A ring under construction

On an engine without descriptors nothing is cleaned, and every write hits the ring. -/

/-- Only the new descriptors, the arrays that refer to them and the copies differ from `d`. -/
structure NewRing (c : WzConsts) (d t : Driver) : Prop where
  engine : t.engine = d.engine
  transfers : t.kern.transfers = d.kern.transfers
  faults : t.kern.faults = d.kern.faults
  coherent : ∀ y, (y < d.kern.next ∨ d.kern.next + c.nofbufs ≤ y) →
    t.kern.coherent y = d.kern.coherent y
  copy : ∃ v, t.ext.descCopy = some v ∧ t.kern.copies v ≠ none
  bufDmaT : t.ext.bufDmaT = d.ext.bufDmaT
  desc : ∀ j, c.nofbufs ≤ j → t.ext.desc j = d.ext.desc j

theorem startBuild_granted (hnone : t.ext.desc i = none) {mem : Kernel.CoherentMem}
    (hmem : env.coherent i = some mem) (hprev : 0 < i → ∃ y block, t.ext.desc (i - 1) = some y ∧
      t.kern.coherent y = some block ∧ 0 < block.descs.length ∧ y < t.kern.next) :
    ∃ t' coh, startBuild env i t = .ok t' ∧
      t' = { t with
        kern := { t.kern with next := t.kern.next + 1, coherent := coh }
        ext := { t.ext with
          desc := Function.update t.ext.desc i (some t.kern.next)
          descDma := Function.update t.ext.descDma i mem.bus } } ∧
      ∀ y, y ≠ t.kern.next → (0 < i → t.ext.desc (i - 1) ≠ some y) → coh y = t.kern.coherent y := by
  have hclean : startClean i t = t := by simp [startClean, hnone]
  unfold startBuild
  simp only [hclean, Kernel.xdmaDescAlloc, hmem, Option.map_some]
  by_cases hi : 0 < i
  · obtain ⟨y, block, hy, hblock, hlen, hlt⟩ := hprev hi
    have hyn : y ≠ t.kern.next := by omega
    rw [if_pos hi]
    simp only [Function.update_of_ne (show i - 1 ≠ i by omega), hy, Kernel.modifyDesc,
      Function.update_of_ne hyn, hblock, if_pos hlen, liftKern]
    refine ⟨_, _, rfl, rfl, fun z hz hzy => ?_⟩
    have hne : z ≠ y := fun e => hzy hi (by rw [e])
    rw [Function.update_of_ne hne, Function.update_of_ne hz]
  · rw [if_neg hi]
    exact ⟨_, _, rfl, rfl, fun z hz _ => Function.update_of_ne hz ..⟩

/-- The loop that allocates and links the descriptors. -/
theorem buildLoop_granted {n : Nat} (hn : n ≤ c.nofbufs) (hnone : ∀ j, d.ext.desc j = none)
    (hcopy : ∃ v, d.ext.descCopy = some v ∧ d.kern.copies v ≠ none)
    (hgranted : ∀ k, k < n → env.coherent k ≠ none) :
    ∃ t, forUpTo (startBuild env) n d = .ok t ∧ BuildInv d n t ∧ NewRing c d t := by
  refine forUpTo_total (fun n t => BuildInv d n t ∧ NewRing c d t)
    ⟨buildInv_zero d, rfl, rfl, rfl, fun _ _ => rfl, hcopy, rfl, fun _ _ => rfl⟩ ?_
  rintro i t hi ⟨hI, hN⟩
  obtain ⟨mem, hmem⟩ := Option.ne_none_iff_exists'.mp (hgranted i hi)
  have hnext := hI.next
  have hold : DescOld d := fun j x hx => absurd (hnone j ▸ hx) (Option.some_ne_none x).symm
  have hfree : t.ext.desc i = none := by rw [hI.old i (Nat.le_refl i), hnone i]
  obtain ⟨t', coh, ht', rfl, hcoh⟩ := startBuild_granted hfree hmem fun hpos => by
    obtain ⟨y, hy, -⟩ := hI.ring (i - 1) (by omega)
    exact ⟨_, _, hI.new (i - 1) (by omega), hy, Nat.one_pos, by omega⟩
  refine ⟨_, ht', hI.step hold ht', hN.engine, hN.transfers, hN.faults, fun y hy => ?_, hN.copy,
    hN.bufDmaT, fun j hj => ?_⟩
  · rw [← hN.coherent y hy]
    refine hcoh y (by omega) fun hpos e => ?_
    rw [hI.new (i - 1) (by omega), Option.some.injEq] at e
    omega
  · rw [← hN.desc j hj]
    exact Function.update_of_ne (by omega) ..

/-- The last descriptor is linked to the first. -/
theorem close_granted (hpos : 0 < c.nofbufs) (hI : BuildInv d c.nofbufs t) (hN : NewRing c d t) :
    ∃ k, t.kern.modifyDesc (t.ext.desc (c.nofbufs - 1)) 0 (xdmaDescLink · (some (t.ext.descDma 0))) =
        .ok k ∧ NewRing c d { t with kern := k } := by
  obtain ⟨y, hy, -⟩ := hI.ring (c.nofbufs - 1) (by omega)
  have hlen : 0 < [y].length := Nat.one_pos
  simp only [hI.new (c.nofbufs - 1) (by omega), Kernel.modifyDesc, hy, if_pos hlen]
  refine ⟨_, rfl, hN.engine, hN.transfers, hN.faults, fun z hz => ?_, hN.copy, hN.bufDmaT, hN.desc⟩
  rw [← hN.coherent z hz]
  exact Function.update_of_ne (by omega) ..

theorem startFill_granted {x : Nat} {bus : DmaAddr} {y : XdmaDesc} (hx : t.ext.desc i = some x)
    (hblock : t.kern.coherent x = some ⟨bus, [y]⟩)
    (hcopy : ∃ v, t.ext.descCopy = some v ∧ t.kern.copies v ≠ none) :
    ∃ t', startFill c i t = .ok t' := by
  obtain ⟨v, hv, hlive⟩ := hcopy
  obtain ⟨arr, harr⟩ := Option.ne_none_iff_exists'.mp hlive
  simp [startFill, Kernel.modifyDesc, Kernel.derefDesc, Kernel.storeCopy, liftKern, hx, hblock, hv, harr]

/-- The loop that fills the descriptors and copies them. -/
theorem fillLoop_granted {b : Driver} (hdesc : ∀ j, j < c.nofbufs →
      b.ext.desc j = some (d.kern.next + j)) (hF : FillInv c d.kern.next b 0 b)
    (hN : NewRing c d b) :
    ∃ t, forUpTo (startFill c) c.nofbufs b = .ok t ∧ FillInv c d.kern.next b c.nofbufs t ∧
      NewRing c d t := by
  refine forUpTo_total (fun n t => FillInv c d.kern.next b n t ∧ NewRing c d t) ⟨hF, hN⟩ ?_
  rintro i t hi ⟨hF, hN⟩
  obtain ⟨y, hy, -⟩ := hF.todo i (Nat.le_refl i) hi
  have hx : t.ext.desc i = some (d.kern.next + i) := by
    rw [hF.ext]
    exact hdesc i hi
  obtain ⟨t', ht'⟩ := startFill_granted (c := c) hx hy hN.copy
  refine ⟨t', ht', hF.step hdesc hi ht', ?_⟩
  obtain ⟨x, bus, z, rest, v, arr, hx', -, hv, -, rfl⟩ := startFill_ok ht'
  obtain rfl : x = d.kern.next + i := Option.some.inj (hx'.symm.trans hx)
  refine ⟨hN.engine, hN.transfers, hN.faults, fun w hw => ?_, ⟨v, hv, ?_⟩, hN.bufDmaT, hN.desc⟩
  · rw [← hN.coherent w hw]
    exact Function.update_of_ne (by omega) ..
  · simp

/-- The start of `START`. -/
def reset (d : Driver) : Driver :=
  { d with ext := { d.ext with blockFirstDesc := 0, blockScannedDesc := 0 } }

/-- With memory for all descriptors `START` gets as far as the transfer. -/
theorem startRing_granted (hpos : 0 < c.nofbufs) (hready : d.BuffersReady)
    (hnone : ∀ j, d.ext.desc j = none) (hgranted : ∀ k, k < c.nofbufs → env.coherent k ≠ none) :
    ∃ t, startRing c env d = .ok t ∧ RingBuilt c env d t ∧ NewRing c d t := by
  have hold : DescOld d := fun j x hx => absurd (hnone j ▸ hx) (Option.some_ne_none x).symm
  obtain ⟨t, ht, hI, hN⟩ := buildLoop_granted (d := d.reset) (Nat.le_refl c.nofbufs) hnone hready.copy
    hgranted
  obtain ⟨k, hk, hNk⟩ := close_granted hpos hI hN
  obtain ⟨t', ht', -, hN'⟩ := fillLoop_granted (d := d.reset) (b := { t with kern := k }) hI.new
    (hI.close hpos hk).1 hNk
  have hring : startRing c env d = .ok t' := by
    have hloop : forUpTo (startBuild env) c.nofbufs
        { d with ext := { d.ext with blockFirstDesc := 0, blockScannedDesc := 0 } } = .ok t := ht
    unfold startRing
    rw [if_pos hready.ready]
    dsimp only
    rw [hloop]
    simp only [hk, liftKern, ht']
  exact ⟨t', hring, startRing_built hpos hold hring, { hN' with }⟩

/-- The engine is started with the transfer at the head, which is not there. -/
theorem transferQueue_lost {x : Nat} {transfer : XdmaTransfer} (hx : d.kern.transfers x = some transfer)
    (hnum : transfer.descNum ≠ 0) (hlost : d.HeadLost x) :
    d.transferQueue x = .error .useAfterFree := by
  obtain ⟨hshutdown, hrun, y, hhead, hne, hy⟩ := hlost
  obtain ⟨rest, hlist⟩ := List.head?_eq_some_iff.mp hhead
  unfold transferQueue
  simp only [hx, if_neg hnum, hshutdown, ne_eq, not_true_eq_false, if_false, hrun, engineStart, hlist,
    List.cons_append, Function.update_of_ne hne, hy, Bool.false_eq_true]

/-- A transfer with descriptors is accepted, or ignored during a shutdown. -/
theorem transferQueue_found {x : Nat} {transfer : XdmaTransfer} (hx : d.kern.transfers x = some transfer)
    (hnum : transfer.descNum ≠ 0) (hfound : ¬d.HeadLost x) :
    ∃ d' rc, d.transferQueue x = .ok (d', rc) := by
  unfold transferQueue
  simp only [hx, if_neg hnum]
  by_cases hshutdown : d.engine.shutdown &&& engineShutdownRequest ≠ 0
  · rw [if_pos hshutdown]
    exact ⟨_, _, rfl⟩
  · rw [if_neg hshutdown]
    cases hrun : d.engine.running with
    | true => exact ⟨_, _, rfl⟩
    | false =>
        cases hlist : d.engine.transferList with
        | nil =>
            simp only [engineStart, List.nil_append, Function.update_self, Bool.false_eq_true,
              if_false]
            exact ⟨_, _, rfl⟩
        | cons y rest =>
            have hy : Function.update d.kern.transfers x (some { transfer with state := .submitted }) y ≠
                none := by
              by_cases hyx : y = x
              · rw [hyx, Function.update_self]
                exact Option.some_ne_none _
              · rw [Function.update_of_ne hyx]
                exact fun hlost =>
                  hfound ⟨not_not.mp hshutdown, hrun, y, by rw [hlist]; rfl, hyx, hlost⟩
            obtain ⟨first, hfirst⟩ := Option.ne_none_iff_exists'.mp hy
            simp only [engineStart, List.cons_append, hfirst, Bool.false_eq_true, if_false]
            exact ⟨_, _, rfl⟩

theorem transferQueue_alive {x : Nat} {transfer : XdmaTransfer} (hx : d.kern.transfers x = some transfer)
    (hnum : transfer.descNum ≠ 0) (hqueue : d.QueueAlive) : ∃ d' rc, d.transferQueue x = .ok (d', rc) :=
  transferQueue_found hx hnum fun ⟨_, hrun, y, hhead, _, hlost⟩ => hqueue hrun y hhead hlost

/-- `START` when all allocations are granted. -/
theorem start_granted (hpos : 0 < c.nofbufs) (hready : d.BuffersReady)
    (hnone : ∀ j, d.ext.desc j = none) (hqueue : d.QueueAlive) (hgranted : env.Grants c) :
    ∃ d', ioctlDoWzStart c env d = .ok (d', 0) := by
  obtain ⟨t, ht, -, hN⟩ := startRing_granted hpos hready hnone hgranted.1
  obtain ⟨d', rc, hd'⟩ : ∃ d' rc, transferQueue
      { t with
        kern := { t.kern with
          next := t.kern.next + 1
          transfers := Function.update t.kern.transfers t.kern.next (some (startTransfer c t)) }
        ext := { t.ext with transfer := some t.kern.next } } t.kern.next = .ok (d', rc) := by
    refine transferQueue_alive (Function.update_self ..) (show c.nofbufs ≠ 0 by omega) ?_
    intro hrun x hx
    show Function.update t.kern.transfers t.kern.next _ x ≠ none
    by_cases hxn : x = t.kern.next
    · rw [hxn, Function.update_self]
      exact Option.some_ne_none _
    · rw [Function.update_of_ne hxn, hN.transfers]
      exact hqueue (hN.engine ▸ hrun) x (hN.engine ▸ hx)
  refine ⟨d', ?_⟩
  simp only [ioctlDoWzStart, startBody_eq, startPrepare, ht, Kernel.kzallocTransfer, hgranted.2,
    if_true, hd']

/-! ## The two kinds of failure -/

/-- The ring is left as it is when descriptor `k` cannot be allocated. -/
theorem start_refused_desc (hready : d.BuffersReady) (hnone : ∀ j, d.ext.desc j = none) {k : Nat}
    (hk : k < c.nofbufs) (hgranted : ∀ j, j < k → env.coherent j ≠ none)
    (hrefused : env.coherent k = none) :
    ∃ d', ioctlDoWzStart c env d = .ok (d', -enomem) ∧ BuildInv d.reset k d' ∧
      (k = 0 → d' = d.reset) := by
  obtain ⟨t, ht, hI, -⟩ := buildLoop_granted (d := d.reset) (Nat.le_of_lt hk) hnone hready.copy hgranted
  have hdesc : t.ext.desc k = none := (hI.old k (Nat.le_refl k)).trans (hnone k)
  have hleft : startBuild env k t = .error (.ret t (-enomem)) := by
    simp [startBuild, startClean, hdesc, Kernel.xdmaDescAlloc, hrefused]
  have hloop : forUpTo (startBuild env) c.nofbufs
      { d with ext := { d.ext with blockFirstDesc := 0, blockScannedDesc := 0 } } =
        .error (.ret t (-enomem)) := forUpTo_left hk ht hleft
  refine ⟨t, ?_, hI, ?_⟩
  · unfold ioctlDoWzStart startBody
    rw [if_pos hready.ready]
    dsimp only
    rw [hloop]
  · rintro rfl
    exact (Except.ok.inj ht).symm

/-- The release loop on a finished ring `u`: the first `n` descriptors are gone. -/
structure Undone (d u : Driver) (n : Nat) (t : Driver) : Prop where
  desc : ∀ j, t.ext.desc j = if j < n then none else u.ext.desc j
  dma : ∀ j, n ≤ j → t.ext.descDma j = u.ext.descDma j
  coherent : ∀ y, t.kern.coherent y =
    if d.kern.next ≤ y ∧ y < d.kern.next + n then none else u.kern.coherent y
  engine : t.engine = u.engine
  transfers : t.kern.transfers = u.kern.transfers
  faults : t.kern.faults = u.kern.faults
  copies : t.kern.copies = u.kern.copies
  descCopy : t.ext.descCopy = u.ext.descCopy
  bufDmaT : t.ext.bufDmaT = u.ext.bufDmaT

theorem undo_ring {u : Driver} (hbuilt : RingBuilt c env d u) :
    Undone d u c.nofbufs (upTo startUndo c.nofbufs { u with ext := { u.ext with transfer := none } }) := by
  refine upTo_invariant (Undone d u) ⟨fun j => by simp, fun _ _ => rfl, fun y => ?_, rfl, rfl, rfl, rfl,
    rfl, rfl⟩ ?_
  · rw [if_neg (by omega)]
  · intro n t hn h
    have hdesc : t.ext.desc n = some (d.kern.next + n) := by
      rw [h.desc, if_neg (Nat.lt_irrefl n)]
      exact hbuilt.desc n hn
    have hblock : t.kern.coherent (d.kern.next + n) = some ⟨t.ext.descDma n, [startDesc c u.ext n]⟩ := by
      rw [h.coherent, if_neg (by omega), h.dma n (Nat.le_refl n)]
      exact hbuilt.ring n hn
    have he : startUndo n t =
        { t with
          kern := { t.kern with coherent := Function.update t.kern.coherent (d.kern.next + n) none }
          ext := { t.ext with
            desc := Function.update t.ext.desc n none
            descDma := Function.update t.ext.descDma n 0 } } := by
      simp [startUndo, hdesc, Kernel.xdmaDescFree, hblock]
    rw [he]
    refine ⟨fun j => ?_, fun j hj => ?_, fun y => ?_, h.engine, h.transfers, h.faults, h.copies, h.descCopy,
      h.bufDmaT⟩
    · show Function.update t.ext.desc n none j = _
      by_cases hjn : j = n
      · rw [hjn, Function.update_self, if_pos (Nat.lt_succ_self n)]
      · rw [Function.update_of_ne hjn, h.desc j]
        have hlt : j < n ↔ j < n + 1 := by omega
        simp only [hlt]
    · show Function.update t.ext.descDma n 0 j = _
      rw [Function.update_of_ne (by omega)]
      exact h.dma j (by omega)
    · show Function.update t.kern.coherent (d.kern.next + n) none y = _
      by_cases hyn : y = d.kern.next + n
      · rw [hyn, Function.update_self, if_pos (by omega)]
      · rw [Function.update_of_ne hyn, h.coherent y]
        have hlt : (d.kern.next ≤ y ∧ y < d.kern.next + n) ↔
            d.kern.next ≤ y ∧ y < d.kern.next + (n + 1) := by omega
        simp only [hlt]

/-- The ring is freed when there is no memory for the transfer. -/
theorem start_refused_transfer (hpos : 0 < c.nofbufs) (hready : d.BuffersReady)
    (hnone : ∀ j, d.ext.desc j = none) (hgranted : ∀ k, k < c.nofbufs → env.coherent k ≠ none)
    (hrefused : env.transfer = false) :
    ∃ u d', ioctlDoWzStart c env d = .ok (d', -enomem) ∧ RingBuilt c env d u ∧ NewRing c d u ∧
      Undone d u c.nofbufs d' := by
  obtain ⟨u, hu, hbuilt, hN⟩ := startRing_granted hpos hready hnone hgranted
  refine ⟨u, _, ?_, hbuilt, hN, undo_ring hbuilt⟩
  simp only [ioctlDoWzStart, startBody_eq, startPrepare, hu, Kernel.kzallocTransfer, hrefused,
    Bool.false_eq_true, if_false]

/-! ## As if it had not been tried -/

/-- What a failed `START` should leave. -/
structure AsNotTried (c : WzConsts) (d d' : Driver) : Prop where
  /-- every descriptor that was allocated is free again -/
  freed : d'.kern.coherent = d.kern.coherent
  /-- with the bus address that it was allocated with -/
  bus : d'.kern.faults = d.kern.faults
  desc : ∀ i, d'.ext.desc i = none
  bufDmaT : d'.ext.bufDmaT = d.ext.bufDmaT
  bufPage : d'.ext.bufPage = d.ext.bufPage
  queue : d'.engine = d.engine ∧ d'.kern.transfers = d.kern.transfers
  again : d.QueueAlive → ∀ env : StartEnv, env.Grants c →
    ∃ d'', d'.ioctlDoWzStart c env = .ok (d'', 0) ∧
      ∀ i, i < c.nofbufs → ∃ desc, d''.ringDesc i = some desc ∧ desc.dst = d.ext.bufDmaT i

/-- A later `START` succeeds with the same buffers. -/
theorem start_again {d' : Driver} (hpos : 0 < c.nofbufs) (hready : d'.BuffersReady)
    (hdesc : ∀ i, d'.ext.desc i = none) (hdma : d'.ext.bufDmaT = d.ext.bufDmaT)
    (hengine : d'.engine = d.engine) (htransfers : d'.kern.transfers = d.kern.transfers)
    (hqueue : d.QueueAlive) (hgranted : env.Grants c) :
    ∃ d'', d'.ioctlDoWzStart c env = .ok (d'', 0) ∧
      ∀ i, i < c.nofbufs → ∃ desc, d''.ringDesc i = some desc ∧ desc.dst = d.ext.bufDmaT i := by
  have hqueue' : d'.QueueAlive := by
    unfold QueueAlive
    rw [hengine, htransfers]
    exact hqueue
  obtain ⟨d'', hd''⟩ := start_granted hpos hready hdesc hqueue' hgranted
  have hstarted := start_ok hpos
    (fun j x hx => absurd (hdesc j ▸ hx) (Option.some_ne_none x).symm) hd''
  refine ⟨d'', hd'', fun i hi => ⟨_, hstarted.ringDesc_eq hi, ?_⟩⟩
  rw [startDesc_dst, hstarted.dma i hi, hdesc i, ← hdma]
  rfl

theorem asNotTried_reset (hpos : 0 < c.nofbufs) (hready : d.BuffersReady)
    (hnone : ∀ j, d.ext.desc j = none) : AsNotTried c d d.reset where
  freed := rfl
  bus := rfl
  desc := hnone
  bufDmaT := rfl
  bufPage := rfl
  queue := ⟨rfl, rfl⟩
  again := fun hqueue _ hgranted => by
    have hready' : d.reset.BuffersReady := ⟨hready.ready, hready.copy⟩
    exact start_again hpos hready' hnone rfl rfl rfl hqueue hgranted

theorem asNotTried_undone {u d' : Driver} (hpos : 0 < c.nofbufs) (hunused : d.kern.Unused)
    (hready : d.BuffersReady) (hnone : ∀ j, d.ext.desc j = none)
    (hstart : ioctlDoWzStart c env d = .ok (d', -enomem)) (hN : NewRing c d u)
    (hundone : Undone d u c.nofbufs d') : AsNotTried c d d' := by
  obtain ⟨hframe, -, -⟩ := start_frame hstart
  have hdesc : ∀ i, d'.ext.desc i = none := by
    intro i
    rw [hundone.desc]
    split
    · rfl
    · rw [hN.desc i (by omega)]
      exact hnone i
  have hdma : d'.ext.bufDmaT = d.ext.bufDmaT := hundone.bufDmaT.trans hN.bufDmaT
  have hengine : d'.engine = d.engine := hundone.engine.trans hN.engine
  have htransfers : d'.kern.transfers = d.kern.transfers := hundone.transfers.trans hN.transfers
  have hready' : d'.BuffersReady := by
    refine ⟨hframe.bufReady.trans hready.ready, ?_⟩
    rw [hundone.descCopy, hundone.copies]
    exact hN.copy
  refine ⟨?_, hundone.faults.trans hN.faults, hdesc, hdma, hframe.bufPage, ⟨hengine, htransfers⟩,
    fun hqueue _ hgranted => start_again hpos hready' hdesc hdma hengine htransfers hqueue hgranted⟩
  funext y
  rw [hundone.coherent]
  split
  · rename_i hy
    exact (hunused.coherent y hy.1).symm
  · exact hN.coherent y (by omega)

end Driver

/-- A failed `START` leaves the engine as if it had not been tried exactly when what was refused is
the first descriptor or the transfer. -/
theorem start_failure_clean_iff (c : WzConsts) (hpos : 1 ≤ c.nofbufs) (env : StartEnv) (d : Driver)
    (hunused : d.kern.Unused) (hready : d.BuffersReady) (hnone : ∀ i, d.ext.desc i = none)
    (hfails : env.Fails c) :
    ∃ d', d.ioctlDoWzStart c env = .ok (d', -enomem) ∧
      (Driver.AsNotTried c d d' ↔
        env.coherent 0 = none ∨ ∀ k, k < c.nofbufs → env.coherent k ≠ none) := by
  by_cases hall : ∀ k, k < c.nofbufs → env.coherent k ≠ none
  · have hrefused : env.transfer = false := by
      rcases hfails with ⟨k, hk, hno⟩ | hno
      · exact absurd hno (hall k hk)
      · exact hno
    obtain ⟨u, d', hstart, -, hN, hundone⟩ :=
      Driver.start_refused_transfer hpos hready hnone hall hrefused
    exact ⟨d', hstart, fun _ => .inr hall, fun _ =>
      Driver.asNotTried_undone hpos hunused hready hnone hstart hN hundone⟩
  · -- the first descriptor that is refused
    have hex : ∃ k, k < c.nofbufs ∧ env.coherent k = none := by simpa using hall
    obtain ⟨hk, hrefused⟩ := Nat.find_spec hex
    have hmin : ∀ j, j < Nat.find hex → env.coherent j ≠ none :=
      fun j hj hno => Nat.find_min hex hj ⟨by omega, hno⟩
    obtain ⟨d', hstart, hI, hzero⟩ := Driver.start_refused_desc hready hnone hk hmin hrefused
    refine ⟨d', hstart, fun h => ?_, fun h => ?_⟩
    · by_cases hfirst : Nat.find hex = 0
      · exact .inl (hfirst ▸ hrefused)
      · have hleft := hI.new 0 (by omega)
        rw [h.desc 0] at hleft
        cases hleft
    · rcases h with hno | hno
      · have hfirst : Nat.find hex = 0 := by
          by_contra hne
          exact hmin 0 (by omega) hno
        rw [hzero hfirst]
        exact Driver.asNotTried_reset hpos hready hnone
      · exact absurd hno hall

/-- The ring is complete and there is no memory for the transfer. -/
theorem start_failure_clean_iff_transfer :
    ∃ (env : StartEnv) (d d' : Driver), env.Fails twoBuffers.toWzConsts ∧
      d.ioctlDoWzStart twoBuffers.toWzConsts env = .ok (d', -enomem) ∧
      Driver.AsNotTried twoBuffers.toWzConsts d d' := by
  let env : StartEnv := { startGranted with transfer := false }
  let d := (Driver.created.ioctlDoWzAllocBuffers twoBuffers.toWzConsts allocGranted).1
  have hunused : d.kern.Unused := by
    refine ⟨fun x hx => ?_, fun _ _ => rfl, fun x hx => ?_⟩ <;>
      obtain ⟨n, rfl⟩ := Nat.exists_eq_add_of_le' (show 3 ≤ x from hx) <;> rfl
  obtain ⟨d', hstart, hiff⟩ := start_failure_clean_iff twoBuffers.toWzConsts (by decide) env d hunused
    ⟨rfl, _, rfl, by decide⟩ (fun _ => rfl) (.inr rfl)
  exact ⟨env, d, d', .inr rfl, hstart, hiff.mpr (.inr fun k _ => Option.some_ne_none _)⟩

/-- There is no memory for the second descriptor. -/
def startSecondRefused : StartEnv :=
  { startGranted with coherent := fun i => if i = 1 then none else startGranted.coherent i }

/-- The second descriptor cannot be allocated: the first one stays, and the next `START` frees it
with the address of the buffer and programs address 0. -/
theorem start_failure_keeps_first :
    ∃ (s : Sys) (d d' : Driver), s.Reachable wzConsts.toWzConsts ∧
      s.drv.ext.bufReady = true ∧ (∀ i, i < wzConsts.nofbufs → s.drv.ext.desc i = none) ∧
      s.drv.ioctlDoWzStart wzConsts.toWzConsts startSecondRefused = .ok (d, -enomem) ∧
      d.ext.desc 0 ≠ none ∧ ¬Driver.AsNotTried wzConsts.toWzConsts s.drv d ∧
      d.ioctlDoWzStart wzConsts.toWzConsts startGranted = .ok (d', 0) ∧
      d'.kern.faults ≠ [] ∧ (d'.ringDesc 0).map XdmaDesc.dst = some 0 := by
  obtain ⟨s, hs, hp⟩ := Machine.exists_reach_of_execOk (Sys.step wzConsts.toWzConsts)
    (fun _ _ => True) .created [.allocBuffers allocGranted]
    (fun s => decide (s.drv.ext.bufReady = true ∧ ∀ i, i < wzConsts.nofbufs → s.drv.ext.desc i = none) &&
      (s.drv.ioctlDoWzStart wzConsts.toWzConsts startSecondRefused).toOption.any fun r : Driver × Int =>
        decide (r.2 = -enomem ∧ r.1.ext.desc 0 ≠ none) &&
          (r.1.ioctlDoWzStart wzConsts.toWzConsts startGranted).toOption.any fun r' : Driver × Int =>
            decide (r'.2 = 0 ∧ r'.1.kern.faults ≠ [] ∧
              (r'.1.ringDesc 0).map XdmaDesc.dst = some 0))
    (by decide +kernel)
  simp only [Bool.and_eq_true, Option.any_eq_true, toOption_eq_some, decide_eq_true_eq] at hp
  obtain ⟨⟨hready, hnone⟩, ⟨d, rc⟩, hstart, ⟨hrc, hdesc⟩, ⟨d', rc'⟩, hagain, hrc', hfaults, hdst⟩ := hp
  refine ⟨s, d, d', hs, hready, hnone, ?_, hdesc, fun h => hdesc (h.desc 0), ?_, hfaults, hdst⟩
  · rw [hstart, ← hrc]
  · rw [hagain, ← hrc']

end WzXdma
