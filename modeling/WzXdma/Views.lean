import WzXdma.Effects
import WzXdma.Lib.Chain
import WzXdma.Transfer

/-!
# The array and the chain of a transfer

A transfer has its descriptors twice: as an array at `desc_virt`, and as a chain that starts at
`desc_bus` and goes on with the next pointers.  The device follows the chain.
`engine_cyclic_stop` and `copy_desc_data` go by the array.

`transfer_create` and `xdma_performance_submit` build the chain in one array.
`ioctl_do_wz_start` allocates each descriptor by itself and keeps the first one in
`desc_virt`.
-/

namespace WzXdma

open Lib Lib.Loop Lib.Runs

/-! ## Places of descriptors -/

namespace Kernel

/-- The descriptor at a place, which is an array and an index in it. -/
def descOf (k : Kernel) (place : Nat × Nat) : Option XdmaDesc :=
  (k.coherent place.1).bind fun block => block.descs[place.2]?

def nextOf (k : Kernel) (place : Nat × Nat) : Option DmaAddr := (k.descOf place).map XdmaDesc.next

/-- The device finds the descriptor of this place at the address. -/
def FoundAt (k : Kernel) (bus : DmaAddr) (place : Nat × Nat) : Prop :=
  ∃ block, k.coherent place.1 = some block ∧ place.2 < block.descs.length ∧
    bus = block.bus + BitVec.ofNat 64 (32 * place.2)

/-- Coherent memory of separate allocations does not overlap. -/
def Apart (k : Kernel) : Prop :=
  ∀ bus place place', k.FoundAt bus place → k.FoundAt bus place' → place = place'

/-- Following the next pointers from `bus` visits these places. -/
def Follows (k : Kernel) (bus : DmaAddr) (places : List (Nat × Nat)) : Prop :=
  Chain.Walk k.FoundAt k.nextOf bus places

end Kernel

/-- `desc_virt + i` for `i = 0, ..., desc_num - 1` -/
def XdmaTransfer.places (transfer : XdmaTransfer) : List (Nat × Nat) :=
  (List.range' 0 transfer.descNum).map (transfer.descVirt, ·)

/-! ## `copy_desc_data` -/

/-- The user's buffer: where the next descriptor goes, and what was copied. -/
structure CopyState where
  bufOffset : Nat
  copied : List XdmaDesc
  rc : Int

/-- One iteration.  `copyFails` is the outcome of `copy_to_user`. -/
def copyDescStep (k : Kernel) (transfer : XdmaTransfer) (bufSize : Nat) (copyFails : Nat → Bool)
    (i : Nat) (s : CopyState) : Except Crash CopyState :=
  if s.bufOffset + 32 ≤ bufSize then
    match k.derefDesc (some transfer.descVirt) i with
    | .error e => .error e
    | .ok desc =>
        if copyFails i then .ok { s with bufOffset := bufSize, rc := -einval }
        else .ok { s with bufOffset := s.bufOffset + 32, copied := s.copied ++ [desc] }
  else .ok { s with rc := -enomem }

/-- `copy_desc_data` -/
def copyDescData (k : Kernel) (transfer : XdmaTransfer) (bufOffset bufSize : Nat)
    (copyFails : Nat → Bool) : Except Crash CopyState :=
  forUpTo (copyDescStep k transfer bufSize copyFails) transfer.descNum ⟨bufOffset, [], 0⟩

/-! ## What is passed to `transfer_queue` -/

namespace Driver

/-- `xdma_performance_submit` up to the call of `transfer_queue` -/
def perfPrepare (env : PerfEnv) (sizeInDesc : Nat) (d : Driver) : Except Crash (Kernel × Nat) :=
  if maxConsistentSize < sizeInDesc then .error .bugOn
  else
    let numDescInALoop :=
      if maxConsistentSize < sizeInDesc * 128 then maxConsistentSize / sizeInDesc else 128
    if env.transfer = false then .error .bugOn
    else if numDescInALoop < 1 then .error .bugOn
    else
      match d.kern.xdmaDescAlloc numDescInALoop env.coherent with
      | none => .error .bugOn
      | some (k, x, bus) =>
          let ring := fun block : DescBlock =>
            { block with
              descs := ((perfDescs block.descs env.bufferBus sizeInDesc d.engine.dirToDev).modify 0
                (xdmaDescControl · 0)).modify (numDescInALoop - 1) (xdmaDescLink · (some bus)) }
          let k := { k with coherent := Function.update k.coherent x ((k.coherent x).map ring) }
          let (k, t) := k.kzallocTransfer true
            { descVirt := x, descBus := bus, descAdjacent := 0, descNum := numDescInALoop,
              dirToDev := d.engine.dirToDev, sglNents := 0, cyclic := true, state := .new,
              wz := false }
          match t with
          | none => .error .bugOn
          | some t => .ok (k, t)

theorem xdmaPerformanceSubmit_eq (env : PerfEnv) (sizeInDesc : Nat) (d : Driver) :
    xdmaPerformanceSubmit env sizeInDesc d =
      match d.perfPrepare env sizeInDesc with
      | .error e => .error e
      | .ok (k, t) =>
          match ({ d with kern := k } : Driver).transferQueue t with
          | .error e => .error e
          | .ok (d, _) => .ok d := by
  unfold xdmaPerformanceSubmit perfPrepare
  split
  · rfl
  · dsimp only
    generalize (if maxConsistentSize < sizeInDesc * 128 then maxConsistentSize / sizeInDesc else 128) = n
    split
    · rfl
    · split
      · rfl
      · cases d.kern.xdmaDescAlloc n env.coherent <;> rfl

/-- `START` up to the allocation of the transfer -/
def startRing (c : WzConsts) (env : StartEnv) (d : Driver) : Except Exit Driver :=
  if d.ext.bufReady then
    let d := { d with ext := { d.ext with blockFirstDesc := 0, blockScannedDesc := 0 } }
    match forUpTo (startBuild env) c.nofbufs d with
    | .error e => .error e
    | .ok d =>
        match d.liftKern (d.kern.modifyDesc (d.ext.desc (c.nofbufs - 1)) 0
            (xdmaDescLink · (some (d.ext.descDma 0)))) with
        | .error e => .error e
        | .ok d => forUpTo (startFill c) c.nofbufs d
  else .error (.ret d (-einval))

/-- `START` up to the call of `transfer_queue` -/
def startPrepare (c : WzConsts) (env : StartEnv) (d : Driver) : Except Exit (Driver × Nat) :=
  match startRing c env d with
  | .error e => .error e
  | .ok d =>
      let (k, t) := d.kern.kzallocTransfer env.transfer (startTransfer c d)
      let d := { d with kern := k, ext := { d.ext with transfer := t } }
      match t with
      | none => .error (.ret (upTo startUndo c.nofbufs d) (-enomem))
      | some t => .ok (d, t)

theorem startBody_eq (c : WzConsts) (env : StartEnv) (d : Driver) :
    startBody c env d =
      match startPrepare c env d with
      | .error e => .error e
      | .ok (d, t) =>
          match d.transferQueue t with
          | .error e => .error (.crash e)
          | .ok (d, _) => .ok d := by
  unfold startBody startPrepare startRing
  split
  · dsimp only
    cases forUpTo (startBuild env) c.nofbufs _ with
    | error e => rfl
    | ok d₁ =>
        dsimp only
        cases d₁.liftKern _ with
        | error e => rfl
        | ok d₂ =>
            dsimp only
            cases forUpTo (startFill c) c.nofbufs d₂ with
            | error e => rfl
            | ok d₃ =>
                dsimp only [startQueue]
                cases env.transfer <;> rfl
  · rfl

end Driver

inductive Submitter
  | transferData | performance | wzStart
  deriving DecidableEq, Repr

/-- The memory and the transfer with which a submitter calls `transfer_queue`. -/
inductive Passes (c : WzConsts) : Submitter → Kernel → Nat → Prop
  | transferData {k k' : Kernel} {env : CreateEnv} {start cnt : Nat} {epAddr : DmaAddr}
      {mode : BuildMode} {t : Nat} :
      k.transferCreate env start cnt epAddr mode = .ok (k', some t) → Passes c .transferData k' t
  | performance {d : Driver} {env : PerfEnv} {sizeInDesc : Nat} {k : Kernel} {t : Nat} :
      d.perfPrepare env sizeInDesc = .ok (k, t) → Passes c .performance k t
  | wzStart {d d' : Driver} {env : StartEnv} {t : Nat} :
      d.startPrepare c env = .ok (d', t) → Passes c .wzStart d'.kern t

/-! ## The two views -/

/-- The chain visits the array in order, so that the routines that go by the array reach what the
device follows. -/
structure ViewsCoincide (k : Kernel) (t : Nat) (transfer : XdmaTransfer) : Prop where
  chain : ∀ places, places.length = transfer.descNum →
    (k.Follows transfer.descBus places ↔ places = transfer.places)
  /-- the stop flag goes to the descriptor that links back to the first one, and nowhere else -/
  stop : transfer.cyclic = true → ∀ d : Driver, d.kern = k →
    d.engine.transferList.head? = some t → ∀ places, places.length = transfer.descNum →
    k.Follows transfer.descBus places → ∃ last block d',
      places.getLast? = some last ∧ k.nextOf last = some transfer.descBus ∧
      k.coherent last.1 = some block ∧ d.engineCyclicStop = .ok d' ∧
      d'.kern = { k with
        coherent := Function.update k.coherent last.1
          (some { block with
            descs := block.descs.modify last.2
              (xdmaDescControl · (xdmaDescCompleted ||| xdmaDescStopped)) }) }
  copy : ∀ places, places.length = transfer.descNum → k.Follows transfer.descBus places →
    ∀ bufOffset bufSize copyFails, ∃ s, copyDescData k transfer bufOffset bufSize copyFails = .ok s ∧
      s.copied.Sublist (places.filterMap k.descOf) ∧
      (bufOffset + 32 * transfer.descNum ≤ bufSize → (∀ i, copyFails i = false) →
        s.copied = places.filterMap k.descOf ∧ s.rc = 0)

/-- Descriptor `i` of the array points to descriptor `i + 1`, and the last one of a cyclic transfer
to the first. -/
structure Linked (transfer : XdmaTransfer) (block : DescBlock) : Prop where
  bus : block.bus = transfer.descBus
  pos : 0 < transfer.descNum
  room : transfer.descNum ≤ block.descs.length
  next : ∀ i, i + 1 < transfer.descNum →
    block.descs[i]?.map XdmaDesc.next = some (block.bus + BitVec.ofNat 64 (32 * (i + 1)))
  back : transfer.cyclic = true →
    block.descs[transfer.descNum - 1]?.map XdmaDesc.next = some block.bus

namespace Linked

variable {k : Kernel} {t : Nat} {transfer : XdmaTransfer} {block : DescBlock}

theorem lt_length (h : Linked transfer block) {i : Nat} (hi : i < transfer.descNum) :
    i < block.descs.length := Nat.lt_of_lt_of_le hi h.room

theorem follows (h : Linked transfer block) (hblock : k.coherent transfer.descVirt = some block) :
    k.Follows transfer.descBus transfer.places := by
  have hwalk := @Chain.walk_of_links _ _ k.FoundAt k.nextOf
    (fun i => block.bus + BitVec.ofNat 64 (32 * i)) (transfer.descVirt, ·) 0 transfer.descNum
    (fun i _ hi => ⟨block, hblock, h.lt_length (by omega), rfl⟩)
    (fun i _ hi => by
      have hnext := h.next i (by omega)
      simpa [Kernel.nextOf, Kernel.descOf, hblock] using hnext)
  have hzero : block.bus + BitVec.ofNat 64 (32 * 0) = transfer.descBus := by simp [h.bus]
  rw [hzero] at hwalk
  exact hwalk

/-- Nothing else is visited. -/
theorem follows_iff (h : Linked transfer block) (hblock : k.coherent transfer.descVirt = some block)
    (hapart : k.Apart) {places : List (Nat × Nat)} (hlen : places.length = transfer.descNum) :
    k.Follows transfer.descBus places ↔ places = transfer.places := by
  have hplaces : transfer.places.length = transfer.descNum := by simp [XdmaTransfer.places]
  refine ⟨fun hfollows => ?_, fun heq => heq ▸ h.follows hblock⟩
  exact Chain.Walk.unique hapart hfollows (h.follows hblock) (hlen.trans hplaces.symm)

theorem getLast?_places (h : Linked transfer block) :
    transfer.places.getLast? = some (transfer.descVirt, transfer.descNum - 1) := by
  obtain ⟨n, hn⟩ := Nat.exists_eq_succ_of_ne_zero (Nat.ne_of_gt h.pos)
  unfold XdmaTransfer.places
  rw [hn, Nat.succ_eq_add_one, List.range'_concat, List.map_append, List.map_singleton,
    List.getLast?_concat]
  simp

/-- Reading the array place by place. -/
theorem filterMap_places (hblock : k.coherent transfer.descVirt = some block) :
    transfer.places.filterMap k.descOf = block.descs.take transfer.descNum := by
  unfold XdmaTransfer.places
  induction transfer.descNum with
  | zero => rfl
  | succ n ih =>
      have hplace : k.descOf (transfer.descVirt, 0 + 1 * n) = block.descs[n]? := by
        simp [Kernel.descOf, hblock]
      rw [List.range'_concat, List.map_append, List.filterMap_append, ih, List.take_add_one,
        List.map_singleton, List.filterMap_cons, hplace]
      cases block.descs[n]? <;> rfl

theorem stop (h : Linked transfer block) (hblock : k.coherent transfer.descVirt = some block)
    (ht : k.transfers t = some transfer) (hcyclic : transfer.cyclic = true) {d : Driver}
    (hk : d.kern = k) (hhead : d.engine.transferList.head? = some t) :
    k.nextOf (transfer.descVirt, transfer.descNum - 1) = some transfer.descBus ∧
      ∃ d', d.engineCyclicStop = .ok d' ∧
        d'.kern = { k with
          coherent := Function.update k.coherent transfer.descVirt
            (some { block with
              descs := block.descs.modify (transfer.descNum - 1)
                (xdmaDescControl · (xdmaDescCompleted ||| xdmaDescStopped)) }) } := by
  constructor
  · have hback := h.back hcyclic
    rw [h.bus] at hback
    simpa [Kernel.nextOf, Kernel.descOf, hblock] using hback
  · obtain ⟨rest, hlist⟩ := List.head?_eq_some_iff.mp hhead
    have hlast : transfer.descNum - 1 < block.descs.length :=
      h.lt_length (Nat.sub_lt h.pos Nat.one_pos)
    unfold Driver.engineCyclicStop
    rw [hlist]
    dsimp only
    rw [hk, ht]
    dsimp only
    rw [if_pos hcyclic]
    simp only [Kernel.modifyDesc, hblock, if_pos hlast]
    exact ⟨_, rfl, rfl⟩

/-- After `n` iterations no more than the first `n` descriptors were copied, and all of them
if the buffer is large enough and no copy fails. -/
theorem copy_loop (hblock : k.coherent transfer.descVirt = some block) (bufOffset bufSize : Nat)
    (copyFails : Nat → Bool) {n : Nat} (hn : n ≤ block.descs.length) :
    ∃ s, forUpTo (copyDescStep k transfer bufSize copyFails) n ⟨bufOffset, [], 0⟩ = .ok s ∧
      s.copied.Sublist (block.descs.take n) ∧
      (bufOffset + 32 * n ≤ bufSize → (∀ i, copyFails i = false) →
        s.copied = block.descs.take n ∧ s.rc = 0 ∧ s.bufOffset = bufOffset + 32 * n) := by
  induction n with
  | zero => exact ⟨_, rfl, by simp, fun _ _ => ⟨rfl, rfl, rfl⟩⟩
  | succ n ih =>
      obtain ⟨s, hs, hsub, hall⟩ := ih (by omega)
      have hderef : k.derefDesc (some transfer.descVirt) n = .ok block.descs[n] := by
        simp [Kernel.derefDesc, hblock, List.getElem?_eq_getElem (Nat.lt_of_succ_le hn)]
      have htake : block.descs.take (n + 1) = block.descs.take n ++ [block.descs[n]] :=
        (List.take_concat_get' block.descs n (Nat.lt_of_succ_le hn)).symm
      rw [forUpTo_succ, hs, htake]
      dsimp only [copyDescStep]
      rw [hderef]
      dsimp only
      split
      · split
        · rename_i hfails
          refine ⟨_, rfl, hsub.trans (List.sublist_append_left _ _), fun _ hok => ?_⟩
          rw [hok n] at hfails
          cases hfails
        · refine ⟨_, rfl, hsub.append (List.Sublist.refl _), fun hroom hok => ?_⟩
          obtain ⟨hcopied, hrc, hoff⟩ := hall (by omega) hok
          refine ⟨?_, hrc, ?_⟩
          · rw [hcopied]
          · show s.bufOffset + 32 = _
            omega
      · rename_i hfull
        refine ⟨_, rfl, hsub.trans (List.sublist_append_left _ _), fun hroom hok => ?_⟩
        obtain ⟨-, -, hoff⟩ := hall (by omega) hok
        omega

theorem copy (h : Linked transfer block) (hblock : k.coherent transfer.descVirt = some block)
    (bufOffset bufSize : Nat) (copyFails : Nat → Bool) :
    ∃ s, copyDescData k transfer bufOffset bufSize copyFails = .ok s ∧
      s.copied.Sublist (block.descs.take transfer.descNum) ∧
      (bufOffset + 32 * transfer.descNum ≤ bufSize → (∀ i, copyFails i = false) →
        s.copied = block.descs.take transfer.descNum ∧ s.rc = 0) := by
  obtain ⟨s, hs, hsub, hall⟩ := copy_loop hblock bufOffset bufSize copyFails h.room
  exact ⟨s, hs, hsub, fun hroom hok => ⟨(hall hroom hok).1, (hall hroom hok).2.1⟩⟩

theorem viewsCoincide (h : Linked transfer block)
    (hblock : k.coherent transfer.descVirt = some block) (ht : k.transfers t = some transfer)
    (hapart : k.Apart) : ViewsCoincide k t transfer := by
  refine ⟨fun places hlen => h.follows_iff hblock hapart hlen, ?_, ?_⟩
  · intro hcyclic d hk hhead places hlen hfollows
    obtain rfl := (h.follows_iff hblock hapart hlen).mp hfollows
    obtain ⟨hnext, d', hd', hkern⟩ := h.stop hblock ht hcyclic hk hhead
    exact ⟨_, block, d', h.getLast?_places, hnext, hblock, hd', hkern⟩
  · intro places hlen hfollows
    obtain rfl := (h.follows_iff hblock hapart hlen).mp hfollows
    rw [filterMap_places hblock]
    exact h.copy hblock

end Linked

/-! ## What the builders leave of the links -/

theorem next_xdmaDescSet (d : XdmaDesc) (rcBusAddr epAddr : DmaAddr) (len : Word) (dirToDev : Bool) :
    (xdmaDescSet d rcBusAddr epAddr len dirToDev).next = d.next := by
  cases dirToDev <;> rfl

theorem next_xdmaDescLink (d : XdmaDesc) (bus : DmaAddr) : (xdmaDescLink d (some bus)).next = bus :=
  addrOf_pciDma bus

/-- Every descriptor but the last points to the one behind it. -/
theorem xdmaDescFill_next (junk : Nat → XdmaDesc) (todo i adj : Nat) (bus : DmaAddr) {j : Nat}
    (hj : j < todo) :
    (xdmaDescFill junk todo i adj bus)[j]?.map XdmaDesc.next =
      some (bus + BitVec.ofNat 64 (32 * (j + 1))) := by
  induction todo generalizing i adj bus j with
  | zero => omega
  | succ todo ih =>
      rw [xdmaDescFill]
      cases j with
      | zero =>
          rw [List.getElem?_cons_zero, Option.map_some]
          exact congrArg some (addrOf_pciDma _)
      | succ j =>
          rw [List.getElem?_cons_succ, ih (i + 1) (adj - 1) (bus + 32) (by omega), Option.some.injEq,
            BitVec.add_assoc]
          congr 1
          rw [show 32 * (j + 1 + 1) = 32 + 32 * (j + 1) by omega, BitVec.ofNat_add]
          rfl

theorem xdmaDescAllocContent_next {number : Nat} (bus : DmaAddr) (junk : Nat → XdmaDesc) {j : Nat}
    (hj : j + 1 < number) :
    (xdmaDescAllocContent number bus junk)[j]?.map XdmaDesc.next =
      some (bus + BitVec.ofNat 64 (32 * (j + 1))) :=
  xdmaDescFill_next junk (number - 1) 0 (number - 1) bus (by omega)

/-- A write that leaves some part of a descriptor alone. -/
theorem map_modify_keeps {β : Type} {part : XdmaDesc → β} {f : XdmaDesc → XdmaDesc}
    (hf : ∀ d, part (f d) = part d) (descs : List XdmaDesc) (j i : Nat) :
    (descs.modify j f)[i]?.map part = descs[i]?.map part := by
  rw [List.getElem?_modify]
  cases descs[i]? with
  | none => rfl
  | some d =>
      show some (part (if j = i then f d else d)) = some (part d)
      split
      · rw [hf]
      · rfl

/-- The loop writes addresses and lengths only. -/
theorem transferBuildLoop_keeps {β : Type} {part : XdmaDesc → β}
    (hpart : ∀ d rcBusAddr epAddr len dirToDev,
      part (xdmaDescSet d rcBusAddr epAddr len dirToDev) = part d) (mode : BuildMode)
    (segs : List (Seg DmaAddr)) (j : Nat) (contAddr : DmaAddr) (contLen : Nat) (epAddr : DmaAddr)
    (descs : List XdmaDesc) (i : Nat) :
    (transferBuildLoop mode segs j contAddr contLen epAddr descs).1[i]?.map part =
      descs[i]?.map part := by
  have hset : ∀ j contAddr epAddr contLen descs,
      (setDesc mode j contAddr epAddr contLen descs)[i]?.map part = descs[i]?.map part :=
    fun j contAddr epAddr contLen descs => map_modify_keeps (fun d => hpart d ..) descs j i
  induction segs generalizing j contAddr contLen epAddr descs with
  | nil => rfl
  | cons entry rest ih =>
      cases rest with
      | nil => exact hset ..
      | cons next rest =>
          rw [transferBuildLoop]
          dsimp only
          split
          · exact (ih ..).trans (hset ..)
          · exact ih ..

/-- There is at most one block for each entry. -/
theorem transferBuildLoop_last_le (mode : BuildMode) (segs : List (Seg DmaAddr)) (j : Nat)
    (contAddr : DmaAddr) (contLen : Nat) (epAddr : DmaAddr) (descs : List XdmaDesc) :
    (transferBuildLoop mode segs j contAddr contLen epAddr descs).2 ≤ j + (segs.length - 1) := by
  induction segs generalizing j contAddr contLen epAddr descs with
  | nil => exact Nat.le_refl j
  | cons entry rest ih =>
      cases rest with
      | nil => exact Nat.le_refl j
      | cons next rest =>
          have hlen : (entry :: next :: rest).length - 1 = (next :: rest).length - 1 + 1 := rfl
          rw [transferBuildLoop, hlen]
          dsimp only
          split
          · refine (ih ..).trans ?_
            omega
          · refine (ih ..).trans ?_
            omega

/-- Only the last descriptor in use gets another link. -/
theorem createDescs_next (mode : BuildMode) (sgl : List (Seg DmaAddr)) (epAddr : DmaAddr)
    (descs : List XdmaDesc) {i : Nat} (hi : i + 1 < (createDescs mode sgl epAddr descs).2) :
    (createDescs mode sgl epAddr descs).1[i]?.map XdmaDesc.next = descs[i]?.map XdmaDesc.next := by
  have hbuild : (transferBuild mode sgl epAddr descs).1[i]?.map XdmaDesc.next =
      descs[i]?.map XdmaDesc.next := transferBuildLoop_keeps next_xdmaDescSet ..
  have hlast : (transferBuild mode sgl epAddr descs).2 ≠ i := by
    have hnum : (createDescs mode sgl epAddr descs).2 = (transferBuild mode sgl epAddr descs).2 + 1 := rfl
    omega
  rw [← hbuild]
  unfold createDescs
  generalize transferBuild mode sgl epAddr descs = built at hlast
  dsimp only
  rw [List.getElem?_mapIdx, List.getElem?_modify_ne _ _ hlast]
  cases built.1[i]? with
  | none => rfl
  | some d =>
      rw [Option.map_some, Option.map_some, Option.map_some]
      split <;> rfl

theorem createDescs_length (mode : BuildMode) (sgl : List (Seg DmaAddr)) (epAddr : DmaAddr)
    (descs : List XdmaDesc) : (createDescs mode sgl epAddr descs).1.length = descs.length := by
  unfold createDescs
  dsimp only
  rw [List.length_mapIdx, List.length_modify]
  exact (transferBuildLoop_below ..).1

theorem createDescs_num_le (mode : BuildMode) (sgl : List (Seg DmaAddr)) (epAddr : DmaAddr)
    (descs : List XdmaDesc) : (createDescs mode sgl epAddr descs).2 ≤ sgl.length - 1 + 1 := by
  have hle := transferBuildLoop_last_le mode sgl 0 ((sgl.head?.map Seg.start).getD 0) 0 epAddr descs
  rw [Nat.zero_add] at hle
  exact Nat.succ_le_succ hle

theorem createDescs_linked (mode : BuildMode) (sgl : List (Seg DmaAddr)) (epAddr : DmaAddr)
    (junk : Nat → XdmaDesc) {transfer : XdmaTransfer}
    (hnum : transfer.descNum = (createDescs mode sgl epAddr
      (xdmaDescAllocContent sgl.length transfer.descBus junk)).2)
    (hcyclic : transfer.cyclic = false) :
    Linked transfer ⟨transfer.descBus, (createDescs mode sgl epAddr
      (xdmaDescAllocContent sgl.length transfer.descBus junk)).1⟩ := by
  have hle := createDescs_num_le mode sgl epAddr
    (xdmaDescAllocContent sgl.length transfer.descBus junk)
  refine ⟨rfl, ?_, ?_, fun i hi => ?_, fun hcontra => ?_⟩
  · rw [hnum]
    exact Nat.succ_pos _
  · show transfer.descNum ≤ List.length _
    rw [createDescs_length, xdmaDescAllocContent, length_xdmaDescFill, hnum]
    exact hle
  · rw [hnum] at hi
    show Option.map XdmaDesc.next (createDescs mode sgl epAddr _).1[i]? = _
    rw [createDescs_next mode sgl epAddr _ hi]
    exact xdmaDescAllocContent_next transfer.descBus junk (by omega)
  · rw [hcyclic] at hcontra
    cases hcontra

/-- What `transfer_create` leaves when it returns a transfer. -/
structure Created (env : CreateEnv) (mode : BuildMode) (epAddr : DmaAddr) (sgl : List (Seg DmaAddr))
    (mem : Kernel.CoherentMem) (k : Kernel) (t : Nat) (transfer : XdmaTransfer) : Prop where
  entries : sgl ≠ []
  coherent : env.coherent = some mem
  found : k.transfers t = some transfer
  descs : k.coherent transfer.descVirt = some ⟨transfer.descBus, (createDescs mode sgl epAddr
    (xdmaDescAllocContent sgl.length transfer.descBus mem.junk)).1⟩
  bus : transfer.descBus = mem.bus
  num : transfer.descNum = (createDescs mode sgl epAddr
    (xdmaDescAllocContent sgl.length transfer.descBus mem.junk)).2
  adjacent : transfer.descAdjacent = transfer.descNum
  cyclic : transfer.cyclic = false

theorem transferCreate_created {k k' : Kernel} {env : CreateEnv} {start cnt : Nat} {epAddr : DmaAddr}
    {mode : BuildMode} {t : Nat} (h : k.transferCreate env start cnt epAddr mode = .ok (k', some t)) :
    ∃ sgl mem transfer, Created env mode epAddr sgl mem k' t transfer ∧
      sgl.length ≤ sgCreateMapper cnt := by
  unfold Kernel.transferCreate at h
  split at h
  · cases h
  · split at h
    · cases h
    · dsimp only at h
      split at h
      · cases h
      · rename_i rc sgl hsgl
        split at h
        · cases h
        · rename_i hneg
          split at h
          · cases h
          · rename_i hzero
            split at h
            · cases h
            · rename_i k₁ x bus hdesc
              have hpages : sgmPages (sgCreateMapper cnt) start cnt env.pages = .ok (rc, sgl) := by
                cases hu : mode.userspace <;> simpa [hu, sgmGetUserPages, sgmKernelPages] using hsgl
              obtain ⟨hlen, hfew⟩ := length_of_sgmPages hpages (by omega)
              have hmap : (pciMapSg env.dma sgl).length = sgl.length := List.length_map ..
              have hne : pciMapSg env.dma sgl ≠ [] := List.ne_nil_of_length_pos (by omega)
              obtain ⟨mem, hmem, hk₁⟩ := Option.map_eq_some_iff.mp hdesc
              simp only [Prod.mk.injEq] at hk₁
              obtain ⟨rfl, rfl, rfl⟩ := hk₁
              simp only [Kernel.kzallocTransfer, if_true, Except.ok.injEq, Prod.mk.injEq,
                Option.some.injEq, Function.update_self, Option.map_some, Option.getD_some,
                Function.update_idem] at h
              obtain ⟨rfl, rfl⟩ := h
              exact ⟨pciMapSg env.dma sgl, mem, _, ⟨hne, hmem, Function.update_self ..,
                Function.update_self .., rfl, rfl, rfl, rfl⟩, hmap.symm ▸ hfew⟩

theorem linked_of_transferCreate {k k' : Kernel} {env : CreateEnv} {start cnt : Nat}
    {epAddr : DmaAddr} {mode : BuildMode} {t : Nat}
    (h : k.transferCreate env start cnt epAddr mode = .ok (k', some t)) :
    ∃ transfer block, k'.transfers t = some transfer ∧
      k'.coherent transfer.descVirt = some block ∧ Linked transfer block := by
  obtain ⟨sgl, mem, transfer, hcreated, -⟩ := transferCreate_created h
  exact ⟨transfer, _, hcreated.found, hcreated.descs,
    createDescs_linked mode sgl epAddr mem.junk hcreated.num hcreated.cyclic⟩

/-- The measurement ring is linked, and closed at its last descriptor. -/
theorem perf_linked (junk : Nat → XdmaDesc) (bufferBus : DmaAddr) (sizeInDesc : Nat)
    {transfer : XdmaTransfer} (hpos : 0 < transfer.descNum) :
    Linked transfer ⟨transfer.descBus,
      ((Driver.perfDescs (xdmaDescAllocContent transfer.descNum transfer.descBus junk) bufferBus
        sizeInDesc transfer.dirToDev).modify 0 (xdmaDescControl · 0)).modify (transfer.descNum - 1)
          (xdmaDescLink · (some transfer.descBus))⟩ := by
  have hlen : (Driver.perfDescs (xdmaDescAllocContent transfer.descNum transfer.descBus junk) bufferBus
      sizeInDesc transfer.dirToDev).length = transfer.descNum := by
    rw [Driver.perfDescs, List.length_mapIdx, length_xdmaDescAllocContent hpos]
  refine ⟨rfl, hpos, ?_, fun i hi => ?_, fun _ => ?_⟩
  · show transfer.descNum ≤ List.length _
    rw [List.length_modify, List.length_modify, hlen]
  · have hne : transfer.descNum - 1 ≠ i := by omega
    show Option.map XdmaDesc.next (List.modify _ _ _)[i]? = _
    rw [List.getElem?_modify_ne _ _ hne, map_modify_keeps (f := (xdmaDescControl · 0)) (fun _ => rfl),
      Driver.perfDescs, List.getElem?_mapIdx, Option.map_map]
    rw [← xdmaDescAllocContent_next transfer.descBus junk hi]
    refine Option.map_congr fun d _ => ?_
    exact next_xdmaDescSet d ..
  · have hlast : transfer.descNum - 1 < ((Driver.perfDescs (xdmaDescAllocContent transfer.descNum
        transfer.descBus junk) bufferBus sizeInDesc transfer.dirToDev).modify 0
          (xdmaDescControl · 0)).length := by
      rw [List.length_modify, hlen]
      omega
    show Option.map XdmaDesc.next (List.modify _ _ _)[transfer.descNum - 1]? = _
    rw [List.getElem?_modify_eq, List.getElem?_eq_getElem hlast]
    exact congrArg some (next_xdmaDescLink ..)

theorem linked_of_perfPrepare {d : Driver} {env : PerfEnv} {sizeInDesc : Nat} {k : Kernel} {t : Nat}
    (h : d.perfPrepare env sizeInDesc = .ok (k, t)) :
    ∃ transfer block, k.transfers t = some transfer ∧
      k.coherent transfer.descVirt = some block ∧ Linked transfer block := by
  unfold Driver.perfPrepare at h
  split at h
  · cases h
  · dsimp only at h
    generalize (if maxConsistentSize < sizeInDesc * 128 then maxConsistentSize / sizeInDesc
      else 128) = n at h
    split at h
    · cases h
    · split at h
      · cases h
      · rename_i hn
        split at h
        · cases h
        · rename_i k₁ x bus hdesc
          obtain ⟨mem, -, hk₁⟩ := Option.map_eq_some_iff.mp hdesc
          simp only [Prod.mk.injEq] at hk₁
          obtain ⟨rfl, rfl, rfl⟩ := hk₁
          simp only [Kernel.kzallocTransfer, if_true, Except.ok.injEq, Prod.mk.injEq,
            Function.update_self, Option.map_some, Function.update_idem] at h
          obtain ⟨rfl, rfl⟩ := h
          refine ⟨_, _, Function.update_self .., Function.update_self .., ?_⟩
          exact @perf_linked mem.junk env.bufferBus sizeInDesc
            { descVirt := d.kern.next, descBus := mem.bus, descAdjacent := 0, descNum := n,
              dirToDev := d.engine.dirToDev, sglNents := 0, cyclic := true, state := .new,
              wz := false } (show 0 < n by omega)

/-! ## The ring of `START`

Each of its descriptors is an array of one. -/

/-- Address and number of descriptors of an array. -/
def Kernel.shapeOf (k : Kernel) (x : Nat) : Option (DmaAddr × Nat) :=
  (k.coherent x).map fun block => (block.bus, block.descs.length)

/-- If the object is an array of descriptors, it has one. -/
def Kernel.Single (k : Kernel) (x : Nat) : Prop := ∀ shape, k.shapeOf x = some shape → shape.2 = 1

namespace Driver

variable {c : WzConsts} {env : StartEnv} {d d' : Driver} {i : Nat}

/-- What an iteration of the first loop does to the arrays. -/
theorem startBuild_shape (h : startBuild env i d = .ok d') :
    ∃ mem, env.coherent i = some mem ∧ d'.kern.next = d.kern.next + 1 ∧
      d'.ext.desc = Function.update d.ext.desc i (some d.kern.next) ∧
      ∀ y, d'.kern.shapeOf y = if y = d.kern.next then some (mem.bus, 1)
        else if d.ext.desc i = some y then none else d.kern.shapeOf y := by
  obtain ⟨coh, fs, hclean, hcoh⟩ := startClean_eq i d
  obtain ⟨mem, hmem, hsteps⟩ := startBuild_steps h
  have hbuilt : ∀ y, (built (startClean i d) i mem).kern.shapeOf y =
      if y = d.kern.next then some (mem.bus, 1)
      else if d.ext.desc i = some y then none else d.kern.shapeOf y := by
    intro y
    rw [hclean]
    by_cases hy : y = d.kern.next
    · rw [if_pos hy]
      subst hy
      simp [Kernel.shapeOf, built, xdmaDescAllocContent, xdmaDescFill]
    · rw [if_neg hy]
      simp only [Kernel.shapeOf, built, Function.update_of_ne hy, hcoh]
      split <;> rfl
  rcases hsteps with rfl | ⟨x, k, hk, rfl⟩
  · refine ⟨mem, hmem, ?_, ?_, hbuilt⟩
    · rw [hclean]
      rfl
    · rw [hclean]
      exact Function.update_idem ..
  · have hsame := Kernel.modifyDesc_sameObjects hk
    refine ⟨mem, hmem, ?_, ?_, fun y => (hsame.coherent y).trans (hbuilt y)⟩
    · show k.next = _
      rw [hsame.next, hclean]
      rfl
    · rw [hclean]
      exact Function.update_idem ..

theorem startFill_shape (h : startFill c i d = .ok d') :
    d'.kern.next = d.kern.next ∧ d'.ext = d.ext ∧ ∀ y, d'.kern.shapeOf y = d.kern.shapeOf y := by
  obtain ⟨x, bus, z, rest, v, arr, -, hblock, -, -, rfl⟩ := startFill_ok h
  refine ⟨rfl, rfl, fun y => ?_⟩
  unfold Kernel.shapeOf
  by_cases hyx : y = x
  · subst hyx
    simp [hblock]
  · simp [Function.update_of_ne hyx]

/-- What the loops keep: the first descriptor is an array of one, and there are no other arrays
than the old ones and one for each entry. -/
structure RingShape (env : StartEnv) (d : Driver) (i : Nat) (t : Driver) : Prop where
  next : t.kern.next = d.kern.next + i
  first : 0 < i → t.ext.desc 0 = some d.kern.next ∧ t.kern.Single d.kern.next
  arrays : ∀ y shape, t.kern.shapeOf y = some shape → d.kern.shapeOf y = some shape ∨
    ∃ j mem, j < i ∧ y = d.kern.next + j ∧ env.coherent j = some mem ∧ shape = (mem.bus, 1)

theorem RingShape.build {t t' : Driver} (h : RingShape env d i t) (hb : startBuild env i t = .ok t') :
    RingShape env d (i + 1) t' := by
  obtain ⟨mem, hmem, hnext, hdesc, hshape⟩ := startBuild_shape hb
  refine ⟨by rw [hnext, h.next]; omega, fun _ => ?_, fun y shape hy => ?_⟩
  · by_cases hi : 0 < i
    · obtain ⟨hx, hsingle⟩ := h.first hi
      have hne : (0 : Nat) ≠ i := by omega
      refine ⟨by rw [hdesc, Function.update_of_ne hne, hx], fun shape hs => ?_⟩
      rw [hshape] at hs
      split at hs
      · cases hs
        rfl
      · split at hs
        · cases hs
        · exact hsingle shape hs
    · obtain rfl : i = 0 := by omega
      have hzero : t.kern.next = d.kern.next := h.next
      refine ⟨by rw [hdesc, Function.update_self, hzero], fun shape hs => ?_⟩
      rw [hshape, if_pos hzero.symm] at hs
      cases hs
      rfl
  · rw [hshape] at hy
    split at hy
    · rename_i hyn
      cases hy
      exact .inr ⟨i, mem, Nat.lt_succ_self i, hyn.trans h.next, hmem, rfl⟩
    · split at hy
      · cases hy
      · rcases h.arrays y shape hy with hold | ⟨j, mem', hj, hrest⟩
        · exact .inl hold
        · exact .inr ⟨j, mem', Nat.lt_succ_of_lt hj, hrest⟩

theorem RingShape.of_same {t t' : Driver} (h : RingShape env d i t) (hnext : t'.kern.next = t.kern.next)
    (hext : t'.ext = t.ext) (hshape : ∀ y, t'.kern.shapeOf y = t.kern.shapeOf y) :
    RingShape env d i t' := by
  refine ⟨hnext.trans h.next, fun hi => ?_, fun y shape hy => h.arrays y shape (hshape y ▸ hy)⟩
  obtain ⟨hx, hsingle⟩ := h.first hi
  exact ⟨by rw [hext, hx], fun shape hs => hsingle shape (hshape d.kern.next ▸ hs)⟩

theorem startRing_shape (h : startRing c env d = .ok d') : RingShape env d c.nofbufs d' := by
  unfold startRing at h
  split at h
  · dsimp only at h
    split at h
    · cases h
    · rename_i d₁ hbuild
      have hstart : RingShape env d 0
          { d with ext := { d.ext with blockFirstDesc := 0, blockScannedDesc := 0 } } :=
        ⟨rfl, fun hcontra => absurd hcontra (Nat.lt_irrefl 0), fun _ _ hy => .inl hy⟩
      have hbuilt : RingShape env d c.nofbufs d₁ := forUpTo_ok (RingShape env d) hstart
        (fun i t t' _ hI hb => hI.build hb) hbuild
      split at h
      · cases h
      · rename_i d₂ hlink
        unfold liftKern at hlink
        split at hlink
        · rename_i k hk
          cases hlink
          have hsame := Kernel.modifyDesc_sameObjects hk
          have hlinked : RingShape env d c.nofbufs { d₁ with kern := k } :=
            hbuilt.of_same hsame.next rfl hsame.coherent
          refine forUpTo_ok (fun _ => RingShape env d c.nofbufs) hlinked (fun i t t' _ hI hf => ?_) h
          obtain ⟨hnext', hext, hshape'⟩ := startFill_shape hf
          exact hI.of_same hnext' hext hshape'
        · cases hlink
  · cases h

/-- The transfer of `START` counts all the descriptors, and its array has one. -/
theorem startPrepare_shape (hpos : 0 < c.nofbufs) {t : Nat} (h : d.startPrepare c env = .ok (d', t)) :
    (∃ transfer, d'.kern.transfers t = some transfer ∧ transfer.descNum = c.nofbufs ∧
      d'.kern.Single transfer.descVirt) ∧
    ∀ y shape, d'.kern.shapeOf y = some shape → d.kern.shapeOf y = some shape ∨
      ∃ j mem, j < c.nofbufs ∧ y = d.kern.next + j ∧ env.coherent j = some mem ∧ shape = (mem.bus, 1) := by
  unfold startPrepare at h
  split at h
  · cases h
  · rename_i d₁ hring
    have hshape := startRing_shape hring
    obtain ⟨hx, hsingle⟩ := hshape.first hpos
    cases henv : env.transfer with
    | false => simp [Kernel.kzallocTransfer, henv] at h
    | true =>
        simp only [Kernel.kzallocTransfer, henv, if_true, Except.ok.injEq, Prod.mk.injEq] at h
        obtain ⟨rfl, rfl⟩ := h
        refine ⟨⟨_, Function.update_self .., rfl, ?_⟩, hshape.arrays⟩
        show d₁.kern.Single ((d₁.ext.desc 0).getD 0)
        rw [hx]
        exact hsingle

end Driver

/-! ## Every submitter -/

/-- The addresses in an array of descriptors. -/
def DescBlock.links (block : DescBlock) : DmaAddr × List DmaAddr :=
  (block.bus, block.descs.map XdmaDesc.next)

/-- As long as the transfer lives, its state changes, the device writes results over the
descriptors and the driver restores them, but their addresses and links stay. -/
structure KeepsTransfer (t : Nat) (k k' : Kernel) : Prop where
  transfer : ∀ transfer, k.transfers t = some transfer →
    ∃ state, k'.transfers t = some { transfer with state := state }
  links : ∀ transfer, k.transfers t = some transfer →
    (k'.coherent transfer.descVirt).map DescBlock.links =
      (k.coherent transfer.descVirt).map DescBlock.links

theorem KeepsTransfer.refl (t : Nat) (k : Kernel) : KeepsTransfer t k k :=
  ⟨fun transfer ht => ⟨transfer.state, ht⟩, fun _ _ => rfl⟩

theorem Linked.of_links {transfer : XdmaTransfer} {block block' : DescBlock}
    (h : Linked transfer block) (hlinks : block'.links = block.links) (state : TransferState) :
    Linked { transfer with state := state } block' := by
  obtain ⟨hbus, hnexts⟩ := Prod.mk.inj hlinks
  have hlen : block'.descs.length = block.descs.length := by
    simpa using congrArg List.length hnexts
  have hnext : ∀ i : Nat, block'.descs[i]?.map XdmaDesc.next = block.descs[i]?.map XdmaDesc.next := by
    intro i
    rw [← List.getElem?_map, ← List.getElem?_map, hnexts]
  refine ⟨hbus.trans h.bus, h.pos, hlen ▸ h.room, fun i hi => ?_, fun hcyclic => ?_⟩
  · rw [hnext, hbus]
    exact h.next i hi
  · rw [hnext, hbus]
    exact h.back hcyclic

theorem KeepsTransfer.viewsCoincide {t : Nat} {k k' : Kernel} (h : KeepsTransfer t k k')
    (hlinked : ∃ transfer block, k.transfers t = some transfer ∧
      k.coherent transfer.descVirt = some block ∧ Linked transfer block) (hapart : k'.Apart) :
    ∃ transfer, k'.transfers t = some transfer ∧ ViewsCoincide k' t transfer := by
  obtain ⟨transfer, block, ht, hblock, hlinked⟩ := hlinked
  obtain ⟨state, ht'⟩ := h.transfer transfer ht
  have hlinks := h.links transfer ht
  rw [hblock, Option.map_some] at hlinks
  obtain ⟨block', hblock', hsame⟩ := Option.map_eq_some_iff.mp hlinks
  exact ⟨_, ht', (hlinked.of_links hsame state).viewsCoincide hblock' ht' hapart⟩

theorem KeepsTransfer.single {t : Nat} {k k' : Kernel} (h : KeepsTransfer t k k')
    {transfer : XdmaTransfer} (ht : k.transfers t = some transfer)
    (hsingle : k.Single transfer.descVirt) : k'.Single transfer.descVirt := by
  have hshape : ∀ k : Kernel, k.shapeOf transfer.descVirt =
      ((k.coherent transfer.descVirt).map DescBlock.links).map fun links => (links.1, links.2.length) := by
    intro k
    simp [Kernel.shapeOf, DescBlock.links, Function.comp_def]
  intro shape hs
  rw [hshape, h.links transfer ht, ← hshape] at hs
  exact hsingle shape hs

/-- An array of one descriptor is not a chain of several. -/
theorem not_viewsCoincide_of_single {k : Kernel} {t : Nat} {transfer : XdmaTransfer}
    (hnum : 1 < transfer.descNum) (hsingle : k.Single transfer.descVirt) :
    ¬ViewsCoincide k t transfer := by
  intro hviews
  have hlen : transfer.places.length = transfer.descNum := by simp [XdmaTransfer.places]
  have hfollows := (hviews.chain transfer.places hlen).mpr rfl
  have hmem : (transfer.descVirt, 1) ∈ transfer.places := by
    simp only [XdmaTransfer.places, List.mem_map, List.mem_range'_1, Prod.mk.injEq, true_and]
    exact ⟨1, by omega, rfl⟩
  obtain ⟨_, block, hblock, hlt, -⟩ := Chain.Walk.found_of_mem hfollows hmem
  have hone : block.descs.length = 1 := hsingle (block.bus, block.descs.length) (by
    simp only at hblock
    simp [Kernel.shapeOf, hblock])
  dsimp only at hlt
  omega

/-- For every transfer that is passed to `transfer_queue`, from then on as long as it lives: its
array and its chain coincide if and only if it does not come from `START`. -/
theorem views_coincide_iff (c : RingConsts) {who : Submitter} {k k' : Kernel} {t : Nat}
    (h : Passes c.toWzConsts who k t) (hkeeps : KeepsTransfer t k k') (hapart : k'.Apart) :
    ∃ transfer, k'.transfers t = some transfer ∧
      (ViewsCoincide k' t transfer ↔ who ≠ .wzStart) := by
  cases h with
  | transferData hcreate =>
      obtain ⟨transfer, ht', hviews⟩ := hkeeps.viewsCoincide (linked_of_transferCreate hcreate) hapart
      exact ⟨transfer, ht', iff_of_true hviews (by decide)⟩
  | performance hprepare =>
      obtain ⟨transfer, ht', hviews⟩ := hkeeps.viewsCoincide (linked_of_perfPrepare hprepare) hapart
      exact ⟨transfer, ht', iff_of_true hviews (by decide)⟩
  | wzStart hprepare =>
      obtain ⟨⟨transfer, ht, hnum, hsingle⟩, -⟩ :=
        Driver.startPrepare_shape c.nofbufs_pos hprepare
      obtain ⟨state, ht'⟩ := hkeeps.transfer transfer ht
      have htwo : 1 < transfer.descNum := by
        rw [hnum]
        exact c.two_le_nofbufs
      have hsingle' : k'.Single transfer.descVirt := hkeeps.single ht hsingle
      exact ⟨_, ht', iff_of_false (not_viewsCoincide_of_single htwo hsingle') (fun hne => hne rfl)⟩

/-- The places of one array have addresses of their own. -/
theorem Kernel.apart_of_one_block {k : Kernel} {x : Nat} {block : DescBlock}
    (hblock : k.coherent x = some block) (hone : ∀ y, y ≠ x → k.coherent y = none)
    (hlen : 32 * block.descs.length < 2 ^ 64) : k.Apart := by
  have hfound : ∀ bus place, k.FoundAt bus place → place.1 = x ∧ place.2 < block.descs.length ∧
      bus = block.bus + BitVec.ofNat 64 (32 * place.2) := by
    rintro bus ⟨y, i⟩ ⟨block', hblock', hi, hbus⟩
    by_cases hy : y = x
    · subst hy
      rw [hblock, Option.some.injEq] at hblock'
      subst hblock'
      exact ⟨rfl, hi, hbus⟩
    · rw [hone y hy] at hblock'
      cases hblock'
  intro bus place place' h h'
  obtain ⟨hx, hi, hbus⟩ := hfound bus place h
  obtain ⟨hx', hi', hbus'⟩ := hfound bus place' h'
  have hoff : BitVec.ofNat 64 (32 * place.2) = BitVec.ofNat 64 (32 * place'.2) :=
    BitVec.add_right_inj _ |>.mp (hbus.symm.trans hbus')
  have hnat := congrArg BitVec.toNat hoff
  rw [BitVec.toNat_ofNat, BitVec.toNat_ofNat, Nat.mod_eq_of_lt (by omega),
    Nat.mod_eq_of_lt (by omega)] at hnat
  exact Prod.ext (hx.trans hx'.symm) (by omega)

/-- A measurement ring of two descriptors. -/
theorem views_coincide_two_descriptors :
    ∃ k t transfer, Driver.created.perfPrepare perfGranted 0x200000 = .ok (k, t) ∧ k.Apart ∧
      k.transfers t = some transfer ∧ transfer.descNum = 2 ∧ transfer.cyclic = true ∧
      ViewsCoincide k t transfer := by
  have hprepare : ∃ k t, Driver.created.perfPrepare perfGranted 0x200000 = .ok (k, t) ∧
      (k.coherent 0).map (·.descs.length) = some 2 ∧ (∀ y, y ≠ 0 → k.coherent y = none) ∧
      (k.transfers t).map (fun transfer => (transfer.descNum, transfer.cyclic)) = some (2, true) :=
    ⟨_, _, rfl, rfl,
      fun y hy => (Function.update_of_ne hy _ _).trans (Function.update_of_ne hy _ _), rfl⟩
  obtain ⟨k, t, hkt, hlen, hone, hmap⟩ := hprepare
  obtain ⟨block, hblock, hlen⟩ := Option.map_eq_some_iff.mp hlen
  obtain ⟨transfer, ht, hfields⟩ := Option.map_eq_some_iff.mp hmap
  obtain ⟨hnum, hcyclic⟩ := Prod.mk.inj hfields
  have hapart : k.Apart := Kernel.apart_of_one_block hblock hone (by rw [hlen]; decide)
  obtain ⟨transfer', ht', hiff⟩ := views_coincide_iff wzConsts (.performance hkt) (.refl t k) hapart
  rw [ht, Option.some.injEq] at ht'
  subst ht'
  exact ⟨k, t, transfer, hkt, hapart, ht, hnum, hcyclic, hiff.mpr (by decide)⟩

/-- Separate answers give separate arrays. -/
theorem Driver.apart_of_startPrepare {c : WzConsts} {env : StartEnv} {d d' : Driver} {t : Nat}
    (hpos : 0 < c.nofbufs) (h : d.startPrepare c env = .ok (d', t))
    (hempty : ∀ y, d.kern.coherent y = none)
    (henv : ∀ i j mem mem', i < c.nofbufs → j < c.nofbufs → env.coherent i = some mem →
      env.coherent j = some mem' → mem.bus = mem'.bus → i = j) : d'.kern.Apart := by
  have hfound : ∀ bus place, d'.kern.FoundAt bus place → ∃ j mem, j < c.nofbufs ∧
      place = (d.kern.next + j, 0) ∧ env.coherent j = some mem ∧ bus = mem.bus := by
    rintro bus ⟨y, i⟩ ⟨block, hblock, hi, hbus⟩
    have hshape : d'.kern.shapeOf y = some (block.bus, block.descs.length) := by
      simp only at hblock
      simp [Kernel.shapeOf, hblock]
    rcases (Driver.startPrepare_shape hpos h).2 y _ hshape with hold | ⟨j, mem, hj, hy, hmem, hs⟩
    · simp [Kernel.shapeOf, hempty] at hold
    · obtain ⟨hbus', hlen⟩ := Prod.mk.inj hs
      obtain rfl : i = 0 := by
        dsimp only at hi
        omega
      exact ⟨j, mem, hj, by rw [hy], hmem, by simpa [hbus'] using hbus⟩
  intro bus place place' hplace hplace'
  obtain ⟨j, mem, hj, rfl, hmem, hbus⟩ := hfound bus place hplace
  obtain ⟨j', mem', hj', rfl, hmem', hbus'⟩ := hfound bus place' hplace'
  rw [henv j j' mem mem' hj hj' hmem hmem' (hbus.symm.trans hbus')]

/-- Every descriptor in a page of its own. -/
def startPages : StartEnv :=
  { startGranted with coherent := fun i => some ⟨BitVec.ofNat 64 (pageSize * (i + 1)), fun _ => .zero⟩ }

theorem startPages_injective {i j : Nat} {mem mem' : Kernel.CoherentMem} (hi : i < 2 ^ 32)
    (hj : j < 2 ^ 32) (hmem : startPages.coherent i = some mem)
    (hmem' : startPages.coherent j = some mem') (hbus : mem.bus = mem'.bus) : i = j := by
  have hpage : pageSize = 4096 := rfl
  have hof : ∀ i mem, startPages.coherent i = some mem →
      mem.bus = BitVec.ofNat 64 (pageSize * (i + 1)) := by
    intro i mem h
    rw [← Option.some.inj h]
  rw [hof i mem hmem, hof j mem' hmem', hpage] at hbus
  have hnat := congrArg BitVec.toNat hbus
  rw [BitVec.toNat_ofNat, BitVec.toNat_ofNat, Nat.mod_eq_of_lt (by omega),
    Nat.mod_eq_of_lt (by omega)] at hnat
  omega

/-- `ALLOC_BUFFERS` allocates no descriptors. -/
theorem Driver.allocBuffers_coherent {c : WzConsts} {env : AllocEnv} {d d' : Driver}
    (h : d.ioctlDoWzAllocBuffers c env = (d', 0)) : d'.kern.coherent = d.kern.coherent := by
  obtain ⟨t, junk, ht, he⟩ | ⟨u, t, -, -, he⟩ := Driver.ioctlDoWzAllocBuffers_cases c env d
  · rw [h, Prod.mk.injEq] at he
    obtain ⟨n, _, _, _, _, _, -, rfl⟩ := Driver.allocLoop_buffersOnly ht
    rw [he.1]
  · rw [h, Prod.mk.injEq] at he
    exact absurd he.2 (by decide)

/-- With the values of the repository: the array of the transfer has one descriptor and the ring
128, and the stop flag is written 127 descriptors behind the array. -/
theorem start_views_differ :
    ∃ d d' t transfer, Driver.created.ioctlDoWzAllocBuffers wzConsts.toWzConsts allocGranted = (d, 0) ∧
      d.startPrepare wzConsts.toWzConsts startPages = .ok (d', t) ∧ d'.kern.Apart ∧
      d'.kern.transfers t = some transfer ∧ ¬ViewsCoincide d'.kern t transfer ∧
      ∃ d₁ d₂, d'.transferQueue t = .ok (d₁, 0) ∧ d₁.engineCyclicStop = .ok d₂ ∧
        d₂.kern.faults = [.strayWrite transfer.descVirt 127] := by
  have halloc : (Driver.created.ioctlDoWzAllocBuffers wzConsts.toWzConsts allocGranted).2 = 0 := by
    decide +kernel
  have hrun : (((Driver.created.ioctlDoWzAllocBuffers wzConsts.toWzConsts
      allocGranted).1.startPrepare wzConsts.toWzConsts startPages).toOption.any fun r =>
        (r.1.transferQueue r.2).toOption.any fun q => q.1.engineCyclicStop.toOption.any fun d₂ =>
          decide (q.2 = 0 ∧ some d₂.kern.faults = (r.1.kern.transfers r.2).map fun transfer =>
            [.strayWrite transfer.descVirt 127])) = true := by
    decide +kernel
  generalize hd : Driver.created.ioctlDoWzAllocBuffers wzConsts.toWzConsts allocGranted = r
    at halloc hrun
  obtain ⟨d, rc⟩ := r
  obtain rfl : rc = 0 := halloc
  simp only [Option.any_eq_true, toOption_eq_some, decide_eq_true_eq] at hrun
  obtain ⟨⟨d', t⟩, hprepare, ⟨d₁, rc⟩, hqueue, d₂, hstop, rfl, hfaults⟩ := hrun
  have hcoherent := Driver.allocBuffers_coherent hd
  have hapart : d'.kern.Apart := by
    refine Driver.apart_of_startPrepare wzConsts.nofbufs_pos hprepare (fun y => ?_) ?_
    · show d.kern.coherent y = none
      rw [hcoherent]
      rfl
    · intro i j mem mem' hi hj hmem hmem' hbus
      exact startPages_injective (Nat.lt_of_lt_of_le hi wzConsts.nofbufs_le)
        (Nat.lt_of_lt_of_le hj wzConsts.nofbufs_le) hmem hmem' hbus
  obtain ⟨⟨transfer, ht, hnum, hsingle⟩, -⟩ :=
    Driver.startPrepare_shape wzConsts.nofbufs_pos hprepare
  rw [ht, Option.map_some, Option.some.injEq] at hfaults
  exact ⟨d, d', t, transfer, rfl, hprepare, hapart, ht,
    not_viewsCoincide_of_single (by rw [hnum]; decide) hsingle, d₁, d₂, hqueue, hstop, hfaults⟩

end WzXdma
