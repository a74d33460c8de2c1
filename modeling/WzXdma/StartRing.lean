import WzXdma.Views

/-!
# The ring that START passes on

`ioctl_do_wz_start` writes each descriptor in four passes over parts of its words: allocation, link,
set and control.  What they amount to when the routine reaches `transfer_queue` is stated here
in the terms of the device: the fields of every descriptor, and the way through the ring from
the address that is programmed as the first one.
-/

namespace WzXdma

open Lib Lib.Loop

/-- The fields of ring descriptor `i`. -/
structure RingField (c : WzConsts) (ext : WzExt) (i : Nat) (x : XdmaDesc) : Prop where
  /-- the magic, no adjacent descriptors, COMPLETED only -/
  control : x.control = 0xAD4B0002
  bytes : x.bytes = BitVec.ofNat 32 c.buflen
  /-- its own address, so that the writeback lands on it -/
  src : x.src = ext.descDma i
  dst : x.dst = ext.bufDmaT i
  next : x.next = ext.descDma ((i + 1) % c.nofbufs)

theorem startDesc_field (c : WzConsts) (ext : WzExt) (i : Nat) :
    RingField c ext i (startDesc c ext i) where
  control := by
    show descMagic ||| xdmaDescCompleted = 0xAD4B0002
    decide
  bytes := rfl
  src := addrOf_pciDma _
  dst := startDesc_dst c ext i
  next := startDesc_next c ext i

namespace Driver

variable {c : WzConsts} {env : StartEnv} {d d' t : Driver} {i : Nat}

/-- The addresses that the allocations of the first loop answered. -/
theorem buildLoop_descDma (h : forUpTo (startBuild env) i d = .ok t) :
    ∀ j, j < i → ∃ mem, env.coherent j = some mem ∧ t.ext.descDma j = mem.bus := by
  refine forUpTo_ok (fun i t => ∀ j, j < i → ∃ mem, env.coherent j = some mem ∧
    t.ext.descDma j = mem.bus) (fun j hj => absurd hj (Nat.not_lt_zero j)) ?_ h
  intro i t t' _ hI hb j hj
  obtain ⟨coh, fs, hclean, -⟩ := startClean_eq i t
  obtain ⟨mem, hmem, hsteps⟩ := startBuild_steps hb
  have hdma : t'.ext.descDma = Function.update t.ext.descDma i mem.bus := by
    rcases hsteps with rfl | ⟨x, k, -, rfl⟩
    · rw [hclean]
      rfl
    · rw [hclean]
      rfl
  rw [hdma]
  by_cases hji : j = i
  · rw [hji, Function.update_self]
    exact ⟨mem, hmem, rfl⟩
  · rw [Function.update_of_ne hji]
    exact hI j (by omega)

/-- The ring at the call of `transfer_queue`. -/
structure RingBuilt (c : WzConsts) (env : StartEnv) (d d' : Driver) : Prop where
  desc : ∀ j, j < c.nofbufs → d'.ext.desc j = some (d.kern.next + j)
  ring : ∀ j, j < c.nofbufs →
    d'.kern.coherent (d.kern.next + j) = some ⟨d'.ext.descDma j, [startDesc c d'.ext j]⟩
  copy : ∀ j, j < c.nofbufs → d'.copyDesc j = some (startDesc c d'.ext j)
  granted : ∀ j, j < c.nofbufs → ∃ mem, env.coherent j = some mem ∧ d'.ext.descDma j = mem.bus
  dma : ∀ j, j < c.nofbufs → d'.ext.bufDmaT j =
    if (d.ext.desc j).isSome then 0 else d.ext.bufDmaT j

theorem startRing_built (hpos : 0 < c.nofbufs) (hold : DescOld d) (h : startRing c env d = .ok d') :
    RingBuilt c env d d' := by
  unfold startRing at h
  split at h
  · dsimp only at h
    split at h
    · cases h
    · rename_i t hbuild
      cases hclose : t.kern.modifyDesc (t.ext.desc (c.nofbufs - 1)) 0
          (xdmaDescLink · (some (t.ext.descDma 0))) with
      | error e => simp [hclose, liftKern] at h
      | ok k =>
          simp only [hclose, liftKern] at h
          obtain ⟨hI, hF, -⟩ := filled_of_loops hpos (by exact hold) hbuild hclose h
          have hext : d'.ext = t.ext := hF.ext
          refine ⟨?_, ?_, ?_, ?_, ?_⟩
          · rw [hext]
            exact hI.new
          · rw [hext]
            exact hF.done
          · rw [hext]
            exact hF.copy
          · rw [hext]
            exact buildLoop_descDma hbuild
          · intro j hj
            have hdma := hI.dma j
            simp only [hj, true_and] at hdma
            rw [hext]
            exact hdma
  · cases h

/-- The transfer is allocated after the ring. -/
theorem startPrepare_built (hpos : 0 < c.nofbufs) (hold : DescOld d) {x : Nat}
    (h : d.startPrepare c env = .ok (d', x)) :
    RingBuilt c env d d' ∧ ∃ transfer, d'.kern.transfers x = some transfer ∧
      transfer.descBus = d'.ext.descDma 0 := by
  unfold startPrepare at h
  split at h
  · cases h
  · rename_i t hring
    have hbuilt := startRing_built hpos hold hring
    cases henv : env.transfer with
    | false => simp [Kernel.kzallocTransfer, henv] at h
    | true =>
        simp only [Kernel.kzallocTransfer, henv, if_true, Except.ok.injEq, Prod.mk.injEq] at h
        obtain ⟨rfl, rfl⟩ := h
        exact ⟨⟨hbuilt.desc, hbuilt.ring, hbuilt.copy, hbuilt.granted, hbuilt.dma⟩, _,
          Function.update_self .., rfl⟩

/-- The places of the ring's descriptors in the order of their index. -/
def ringPlaces (c : WzConsts) (d : Driver) : List (Nat × Nat) :=
  (List.range' 0 c.nofbufs).map fun i => ((d.ext.desc i).getD 0, 0)

variable (h : RingBuilt c env d d')
include h

theorem RingBuilt.foundAt (hi : i < c.nofbufs) :
    d'.kern.FoundAt (d'.ext.descDma i) ((d'.ext.desc i).getD 0, 0) := by
  rw [h.desc i hi]
  refine ⟨_, h.ring i hi, Nat.one_pos, ?_⟩
  show d'.ext.descDma i = d'.ext.descDma i + 0#64
  rw [BitVec.add_zero]

theorem RingBuilt.nextOf (hi : i < c.nofbufs) :
    d'.kern.nextOf ((d'.ext.desc i).getD 0, 0) = some (d'.ext.descDma ((i + 1) % c.nofbufs)) := by
  rw [h.desc i hi]
  simp [Kernel.nextOf, Kernel.descOf, h.ring i hi, startDesc_next]

/-- Following the next pointers goes over the ring in order. -/
theorem RingBuilt.follows : d'.kern.Follows (d'.ext.descDma 0) (d'.ringPlaces c) := by
  refine Chain.walk_of_links 0 c.nofbufs (fun i _ hi => h.foundAt (by omega)) fun i _ hi => ?_
  rw [h.nextOf (by omega), Nat.mod_eq_of_lt (by omega)]

end Driver

/-- The queued transfer programs its own address when nothing else is queued. -/
theorem transferQueue_first {d d' : Driver} {x : Nat} {transfer : XdmaTransfer}
    (hx : d.kern.transfers x = some transfer) (hrun : d.engine.running = false)
    (hlist : d.engine.transferList = []) (h : d.transferQueue x = .ok (d', 0)) :
    XdmaDesc.addrOf d'.engine.regs.firstDescHi d'.engine.regs.firstDescLo = transfer.descBus := by
  unfold Driver.transferQueue at h
  simp only [hx] at h
  split at h
  · cases h
  · split at h
    · simp only [Except.ok.injEq, Prod.mk.injEq] at h
      exact absurd h.2 (by decide)
    · simp only [hrun, hlist, Bool.false_eq_true, if_false, Driver.engineStart, List.nil_append,
        Function.update_self, Except.ok.injEq, Prod.mk.injEq, and_true] at h
      rw [← h]
      exact addrOf_pciDma _

/-- Whenever `START` reaches `transfer_queue` on an engine without descriptors, every descriptor and
its copy hold what the device needs, and the ring is closed. -/
theorem start_builds_cyclic_ring (c : WzConsts) (hpos : 1 ≤ c.nofbufs) (env : StartEnv)
    (d d' : Driver) (x : Nat) (hnone : ∀ i, d.ext.desc i = none)
    (h : d.startPrepare c env = .ok (d', x)) :
    (∀ i, i < c.nofbufs → ∃ desc mem, d'.ringDesc i = some desc ∧ d'.copyDesc i = some desc ∧
      RingField c d'.ext i desc ∧ env.coherent i = some mem ∧ d'.ext.descDma i = mem.bus ∧
      d'.ext.bufDmaT i = d.ext.bufDmaT i) ∧
    ∃ transfer last, d'.kern.transfers x = some transfer ∧
      transfer.descBus = d'.ext.descDma 0 ∧
      d'.kern.Follows transfer.descBus (d'.ringPlaces c) ∧
      (d'.ringPlaces c).getLast? = some last ∧ d'.kern.nextOf last = some transfer.descBus ∧
      ∀ d'', d'.engine.running = false → d'.engine.transferList = [] →
        d'.transferQueue x = .ok (d'', 0) →
        XdmaDesc.addrOf d''.engine.regs.firstDescHi d''.engine.regs.firstDescLo = transfer.descBus := by
  have hold : d.DescOld := fun i y hy => by
    rw [hnone i] at hy
    cases hy
  obtain ⟨hbuilt, transfer, htransfer, hbus⟩ := Driver.startPrepare_built hpos hold h
  refine ⟨fun i hi => ?_, transfer, ((d'.ext.desc (c.nofbufs - 1)).getD 0, 0), htransfer, hbus, ?_⟩
  · obtain ⟨mem, hmem, hdma⟩ := hbuilt.granted i hi
    refine ⟨startDesc c d'.ext i, mem, ?_, hbuilt.copy i hi, startDesc_field c d'.ext i, hmem, hdma, ?_⟩
    · simp [Driver.ringDesc, Kernel.derefDesc, hbuilt.desc i hi, hbuilt.ring i hi, Except.toOption]
    · rw [hbuilt.dma i hi, hnone i]
      rfl
  · rw [hbus]
    refine ⟨hbuilt.follows, ?_, ?_, fun d'' hrun hlist hq => ?_⟩
    · obtain ⟨n, hn⟩ := Nat.exists_eq_succ_of_ne_zero (Nat.ne_of_gt hpos)
      rw [Driver.ringPlaces, hn, List.range'_1_concat]
      simp
    · rw [hbuilt.nextOf (by omega), Nat.sub_add_cancel hpos, Nat.mod_self]
    · rw [← hbus]
      exact transferQueue_first htransfer hrun hlist hq

/-- A ring of three descriptors above 4 GiB. -/
theorem start_builds_cyclic_ring_three :
    ∃ (env : StartEnv) (d d' : Driver) (x : Nat), d.startPrepare ⟨3, 4096⟩ env = .ok (d', x) ∧
      (∀ i, i < 3 → ∃ desc, d'.ringDesc i = some desc ∧ RingField ⟨3, 4096⟩ d'.ext i desc) ∧
      d'.ringPlaces ⟨3, 4096⟩ = [(4, 0), (5, 0), (6, 0)] ∧ d'.ext.descDma 2 = 0x500000040 := by
  let env : StartEnv := ⟨fun i => some ⟨0x500000000 + BitVec.ofNat 64 (32 * i), fun _ => .zero⟩, true⟩
  let d := (Driver.created.ioctlDoWzAllocBuffers ⟨3, 4096⟩ allocGranted).1
  have hrun : (d.startPrepare ⟨3, 4096⟩ env).toOption.any fun r =>
      decide (r.1.ringPlaces ⟨3, 4096⟩ = [(4, 0), (5, 0), (6, 0)] ∧ r.1.ext.descDma 2 = 0x500000040) := by
    decide +kernel
  simp only [Option.any_eq_true, toOption_eq_some, decide_eq_true_eq] at hrun
  obtain ⟨⟨d', x⟩, hprepare, hplaces, hdma⟩ := hrun
  refine ⟨env, d, d', x, hprepare, fun i hi => ?_, hplaces, hdma⟩
  obtain ⟨desc, -, hdesc, -, hfield, -⟩ :=
    (start_builds_cyclic_ring ⟨3, 4096⟩ (by decide) env d d' x (fun _ => rfl) hprepare).1 i hi
  exact ⟨desc, hdesc, hfield⟩

end WzXdma
