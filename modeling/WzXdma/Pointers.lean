import WzXdma.Effects
import WzXdma.Lib.Slots

/-!
# Pointers never dangle

The entries of `ext->desc` that are not NULL refer to live descriptors, no two of
them to the same one, and `ext->desc_copy` refers to a live array, in every state
the machine can reach.  What the interrupt scan and `CONFIRM` can still hit is
NULL.  Whether they do is decided by the calls that came before and the codes they
returned, which `Calls` keeps: the ring is there between a `START` and a `STOP` that
return 0, unless a `START` in between runs out of memory.
-/

namespace WzXdma

open Lib.Loop Lib.Slots

/-- An array of descriptors that is allocated. -/
def LiveDesc (k : Kernel) (x : Nat) : Prop :=
  x < k.next ∧ ∃ block, k.coherent x = some block ∧ 0 < block.descs.length

/-- The pointers of the extension are NULL or good. -/
structure PointersLive (d : Driver) : Prop where
  desc : Holds d.ext.desc (LiveDesc d.kern)
  copy : ∀ v, d.ext.descCopy = some v → v < d.kern.next ∧ (d.kern.copies v).isSome = true

namespace PointersLive

variable {c : WzConsts} {d d' : Driver}

theorem descOld (h : PointersLive d) : Driver.DescOld d := fun i x hx => (h.desc.alive i x hx).1

theorem created : PointersLive .created :=
  ⟨Holds.empty, fun _ h => (by cases h)⟩

/-- Routines that leave the pointers and the live objects alone. -/
theorem of_same (h : PointersLive d) (hdesc : d'.ext.desc = d.ext.desc)
    (hcopy : d'.ext.descCopy = d.ext.descCopy) (hnext : d.kern.next ≤ d'.kern.next)
    (hlive : ∀ x, LiveDesc d.kern x → LiveDesc d'.kern x)
    (hcopies : ∀ v, v < d.kern.next → (d.kern.copies v).isSome = true →
      (d'.kern.copies v).isSome = true) : PointersLive d' := by
  refine ⟨?_, ?_⟩
  · rw [hdesc]
    exact h.desc.mono fun _ x _ hx => hlive x hx
  · intro v hv
    rw [hcopy] at hv
    obtain ⟨hlt, hsome⟩ := h.copy v hv
    exact ⟨Nat.lt_of_lt_of_le hlt hnext, hcopies v hlt hsome⟩

theorem liveDesc_sameObjects {k k' : Kernel} (h : Kernel.SameObjects k k') {x : Nat}
    (hx : LiveDesc k x) : LiveDesc k' x := by
  obtain ⟨hlt, block, hb, hlen⟩ := hx
  refine ⟨h.next ▸ hlt, ?_⟩
  have hco := h.coherent x
  rw [hb] at hco
  obtain ⟨block', hb', heq⟩ := Option.map_eq_some_iff.mp hco
  simp only [Prod.mk.injEq] at heq
  exact ⟨block', hb', by omega⟩

theorem of_sameObjects (h : PointersLive d) {k : Kernel} (hk : Kernel.SameObjects d.kern k)
    (hkern : d'.kern = k) (hdesc : d'.ext.desc = d.ext.desc)
    (hcopy : d'.ext.descCopy = d.ext.descCopy) : PointersLive d' := by
  subst hkern
  refine h.of_same hdesc hcopy (Nat.le_of_eq hk.next.symm) (fun x => liveDesc_sameObjects hk) ?_
  intro v _ hv
  rw [hk.copies]
  exact hv

theorem of_buffersOnly (h : PointersLive d) (hb : Driver.BuffersOnly d d') : PointersLive d' := by
  obtain ⟨n, pages, mapAt, fs, bufPage, bufDmaT, hn, rfl⟩ := hb
  exact h.of_same rfl rfl hn (fun x hx => ⟨Nat.lt_of_lt_of_le hx.1 hn, hx.2⟩) fun v _ hv => hv

theorem releaseCopy (h : PointersLive d) : PointersLive d.releaseCopy := by
  obtain ⟨-, he⟩ | ⟨v, fs, hv, he⟩ := d.releaseCopy_cases
  · rw [he]
    exact h
  · rw [he]
    exact ⟨h.desc, fun w hw => by cases hw⟩

/-- A new array of copies takes the place of the old pointer. -/
theorem newCopy (h : PointersLive d) {junk : Nat → XdmaDesc}
    (hkern : d'.kern = { d.kern with
      next := d.kern.next + 1
      copies := Function.update d.kern.copies d.kern.next (some junk) })
    (hdesc : d'.ext.desc = d.ext.desc) (hcopy : d'.ext.descCopy = some d.kern.next) :
    PointersLive d' := by
  refine ⟨?_, ?_⟩
  · rw [hdesc, hkern]
    exact h.desc.mono fun _ x _ hx => ⟨Nat.lt_succ_of_lt hx.1, hx.2⟩
  · intro v hv
    rw [hcopy, Option.some.injEq] at hv
    subst hv
    rw [hkern]
    exact ⟨Nat.lt_succ_self _, by simp⟩

theorem allocBuffers (h : PointersLive d) (env : AllocEnv) :
    PointersLive (Driver.ioctlDoWzAllocBuffers c env d).1 := by
  obtain ⟨t, junk, ht, he⟩ | ⟨u, t, hu, rfl, he⟩ := Driver.ioctlDoWzAllocBuffers_cases c env d
  · rw [he]
    exact newCopy (h.of_buffersOnly (Driver.allocLoop_buffersOnly ht)) rfl rfl rfl
  · have hu' : PointersLive u := by
      cases hu with
      | buffer hi ht hu =>
          exact h.of_buffersOnly
            ((Driver.allocLoop_buffersOnly ht).trans (Driver.allocBuffer_error hu).1)
      | copy ht =>
          have := h.of_buffersOnly (Driver.allocLoop_buffersOnly ht)
          exact ⟨this.desc, fun v hv => by cases hv⟩
      | kfifo _ ht => exact newCopy (h.of_buffersOnly (Driver.allocLoop_buffersOnly ht)) rfl rfl rfl
    have := (hu'.of_buffersOnly (Driver.releaseAll_buffersOnly c.nofbufs u)).releaseCopy
    rw [he]
    exact ⟨this.desc, this.copy⟩

theorem freeBuffers (h : PointersLive d) : PointersLive (Driver.ioctlDoWzFreeBuffers c d).1 := by
  unfold Driver.ioctlDoWzFreeBuffers
  refine releaseCopy ?_
  have : PointersLive (if d.ext.bufReady then upTo Driver.releaseBuffer c.nofbufs d else d) := by
    split
    · exact h.of_buffersOnly (Driver.releaseAll_buffersOnly c.nofbufs d)
    · exact h
  exact ⟨this.desc, this.copy⟩

/-- Giving back the object of one entry leaves the others alone. -/
theorem clearDesc (h : PointersLive d) (i : Nat) {coh : Nat → Option DescBlock}
    (hcoh : ∀ y, coh y = if d.ext.desc i = some y then none else d.kern.coherent y)
    (hdesc : d'.ext.desc = Function.update d.ext.desc i none) (hc : d'.kern.coherent = coh)
    (hnext : d'.kern.next = d.kern.next) (hcopies : d'.kern.copies = d.kern.copies)
    (hcopy : d'.ext.descCopy = d.ext.descCopy) : PointersLive d' := by
  refine ⟨?_, ?_⟩
  · rw [hdesc]
    refine h.desc.clear i fun x hx hne => ?_
    unfold LiveDesc
    rw [hnext, hc, hcoh x, if_neg hne]
    exact hx
  · rw [hcopy, hnext, hcopies]
    exact h.copy

/-- A new descriptor goes into an entry. -/
theorem built (h : PointersLive d) (i : Nat) (mem : Kernel.CoherentMem) :
    PointersLive (Driver.built d i mem) := by
  have hother : ∀ x, x < d.kern.next → x ≠ d.kern.next := fun x hx => Nat.ne_of_lt hx
  refine ⟨h.desc.fill i (fun j hj => ?_) ⟨Nat.lt_succ_self _, ?_⟩ fun j x _ hx => ?_, fun v hv => ?_⟩
  · exact hother _ (h.desc.alive j _ hj).1 rfl
  · exact ⟨_, Function.update_self .., Nat.zero_lt_one⟩
  · refine ⟨Nat.lt_succ_of_lt hx.1, ?_⟩
    simp only [Driver.built, Function.update_of_ne (hother x hx.1)]
    exact hx.2
  · exact ⟨Nat.lt_succ_of_lt (h.copy v hv).1, (h.copy v hv).2⟩

theorem start (h : PointersLive d) {env : StartEnv} {rc : Int}
    (hs : Driver.ioctlDoWzStart c env d = .ok (d', rc)) : PointersLive d' := by
  have hclean : ∀ i t, PointersLive t → PointersLive (Driver.startClean i t) := by
    intro i t ht
    obtain ⟨coh, fs, he, hcoh⟩ := Driver.startClean_eq i t
    rw [he]
    exact ht.clearDesc i hcoh rfl rfl rfl rfl rfl
  refine Driver.ioctlDoWzStart_invariant PointersLive ?_ ?_ ?_ ?_ ?_ ?_ ?_ ?_ hs h
  · exact fun t ht => ⟨ht.desc, ht.copy⟩
  · exact fun i t _ ht => hclean i t ht
  · intro i t t' _ ht hb
    obtain ⟨mem, -, rfl | ⟨x, k, hk, rfl⟩⟩ := Driver.startBuild_steps hb
    · exact (hclean i t ht).built i mem
    · exact ((hclean i t ht).built i mem).of_sameObjects (Kernel.modifyDesc_sameObjects hk)
        rfl rfl rfl
  · intro t k x ht hk
    exact ht.of_sameObjects (Kernel.modifyDesc_sameObjects hk) rfl rfl rfl
  · intro i t t' _ ht hf
    obtain ⟨x, bus, y, rest, v, arr, -, hblock, -, -, rfl⟩ := Driver.startFill_ok hf
    refine ht.of_same rfl rfl (Nat.le_refl _) (fun z hz => ⟨hz.1, ?_⟩) fun w _ hw => ?_
    · by_cases hzx : z = x
      · subst hzx
        exact ⟨_, Function.update_self .., by simp⟩
      · simp only [Function.update_of_ne hzx]
        exact hz.2
    · by_cases hwv : w = v
      · subst hwv
        simp
      · simp only [Function.update_of_ne hwv]
        exact hw
  · intro t t' ht hq
    obtain ⟨tr, e, rfl, -⟩ := Driver.startQueue_ok hq
    exact ht.of_same rfl rfl (Nat.le_succ _) (fun x hx => ⟨Nat.lt_succ_of_lt hx.1, hx.2⟩)
      fun v _ hv => hv
  · exact fun t ht => ⟨ht.desc, ht.copy⟩
  · intro i t _ ht
    obtain ⟨coh, fs, he, hcoh⟩ := Driver.startUndo_eq i t
    rw [he]
    exact ht.clearDesc i hcoh rfl rfl rfl rfl rfl

theorem stopFinish (h : PointersLive d) : PointersLive (Driver.ioctlDoWzStopFinish c d).1 := by
  unfold Driver.ioctlDoWzStopFinish
  split
  · exact h
  have htransfer : PointersLive d.stopTransfer := by
    obtain ⟨-, he⟩ | ⟨t, fs, -, he⟩ := d.stopTransfer_cases
    · rw [he]
      exact h
    · rw [he]
      exact ⟨h.desc, h.copy⟩
  refine upTo_invariant (fun _ => PointersLive) htransfer fun i t _ ht => ?_
  obtain ⟨-, he⟩ | ⟨x, fs, hx, -, he⟩ := Driver.stopFree_cases i t
  · rw [he]
    exact ht
  · rw [he]
    refine ht.clearDesc i (fun y => ?_) rfl rfl rfl rfl rfl
    simp only [Function.update_apply, hx, Option.some.injEq, eq_comm]

end PointersLive

/-- The pointers are good and the scan begins inside the ring. -/
structure PointerInv (c : WzConsts) (d : Driver) : Prop where
  live : PointersLive d
  scanned : d.ext.blockScannedDesc < c.nofbufs

theorem PointerInv.step {c : RingConsts} {d d' : Driver} {a : Act}
    (h : PointerInv c.toWzConsts d) (he : Driver.Effect c.toWzConsts d a d') :
    PointerInv c.toWzConsts d' := by
  obtain ⟨hlive, hscan⟩ := h
  cases he with
  | allocBuffers env =>
      refine ⟨hlive.allocBuffers env, ?_⟩
      rw [Driver.allocBuffers_scanned]
      exact hscan
  | freeBuffers =>
      refine ⟨hlive.freeBuffers, ?_⟩
      rw [Driver.freeBuffers_scanned]
      exact hscan
  | start hd =>
      refine ⟨hlive.start hd, ?_⟩
      refine Driver.ioctlDoWzStart_invariant
        (fun t => t.ext.blockScannedDesc < c.nofbufs) ?_ ?_ ?_ ?_ ?_ ?_ ?_ ?_ hd hscan
      · exact fun _ _ => c.nofbufs_pos
      · intro i t _ ht
        obtain ⟨coh, fs, he, -⟩ := Driver.startClean_eq i t
        rw [he]
        exact ht
      · intro i t t' _ ht hb
        obtain ⟨mem, coh, fs, -, rfl, -⟩ := Driver.startBuild_ok hb
        exact ht
      · exact fun _ _ _ ht _ => ht
      · intro i t t' _ ht hf
        obtain ⟨x, bus, y, rest, v, arr, -, -, -, -, rfl⟩ := Driver.startFill_ok hf
        exact ht
      · intro t t' ht hq
        obtain ⟨tr, e, rfl, -⟩ := Driver.startQueue_ok hq
        exact ht
      · exact fun _ ht => ht
      · exact fun _ _ _ ht => ht
  | stopFinish hrun =>
      refine ⟨hlive.stopFinish, ?_⟩
      obtain ⟨t, desc, dma, he, -⟩ := Driver.stopFinish_ext c.toWzConsts d
      rw [he]
      exact hscan
  | getbuf copyFails q hq => exact ⟨⟨hlive.desc, hlive.copy⟩, hscan⟩
  | contents ha hk hrun hlist => exact ⟨hlive.of_sameObjects hk rfl rfl rfl, hscan⟩
  | perfStart he =>
      refine ⟨hlive.of_same (by rw [he.ext]) (by rw [he.ext]) he.next (fun x hx => ?_)
        fun v hv => ?_, by rw [he.ext]; exact hscan⟩
      · exact ⟨Nat.lt_of_lt_of_le hx.1 he.next, by rw [he.coherent x hx.1]; exact hx.2⟩
      · rw [he.copies]
        exact id
  | service hd =>
      obtain ⟨b, e, rfl, ⟨t, ht, rfl⟩, -⟩ := Driver.service_ok hd
      have hlt : t.ext.blockScannedDesc < c.nofbufs :=
        Driver.scanLoop_scanned_lt hscan (by exact hscan) ht
      exact ⟨⟨hlive.desc, hlive.copy⟩, hlt⟩
  | user ha => exact ⟨hlive, hscan⟩

/-- In every state the machine can reach, pointers are NULL or good. -/
theorem Sys.Reachable.pointerInv {c : RingConsts} {s : Sys} (h : s.Reachable c.toWzConsts) :
    PointerInv c.toWzConsts s.drv :=
  Lib.Machine.Reach.invariant (P := fun s => PointerInv c.toWzConsts s.drv)
    ⟨.created, c.nofbufs_pos⟩ (fun _ _ _ _ hP _ hs => hP.step (Sys.step_effect hs)) h

/-! ## What the scan and CONFIRM touch -/

namespace Driver

/-- The copies and every descriptor of the range are there. -/
def ConfirmReady (c : WzConsts) (first last : Nat) (d : Driver) : Prop :=
  d.ext.descCopy ≠ none ∧
    ∀ i, Lib.Cyclic.Covers c.nofbufs first last i → d.ext.desc i ≠ none

variable {c : RingConsts} {d : Driver}

theorem derefDesc_of_live (h : PointersLive d) {i : Nat} (hi : d.ext.desc i ≠ none) :
    ∃ x, d.kern.derefDesc (d.ext.desc i) 0 = .ok x := by
  obtain ⟨y, hy⟩ := Option.ne_none_iff_exists'.mp hi
  obtain ⟨-, block, hb, hlen⟩ := h.desc.alive i y hy
  refine ⟨block.descs[0], ?_⟩
  simp [Kernel.derefDesc, hy, hb, List.getElem?_eq_getElem hlen]

/-- On a complete ring the scan follows good pointers only. -/
theorem scanLoop_pointers (h : PointersLive d)
    (hall : ∀ i, i < c.nofbufs → d.ext.desc i ≠ none) {fuel check : Nat}
    (hcheck : check < c.nofbufs) {e : Crash} (he : scanLoop c.toWzConsts fuel check d = .error e) :
    e.badPointer = false := by
  induction fuel generalizing check d with
  | zero =>
      simp only [scanLoop, Except.error.injEq] at he
      rw [← he]
      rfl
  | succ fuel ih =>
      obtain ⟨x, hx⟩ := derefDesc_of_live h (hall check hcheck)
      simp only [scanLoop, hx] at he
      split at he
      · rw [Except.error.injEq] at he
        rw [← he]
        rfl
      · split at he
        · cases he
        · rename_i b next hb
          exact ih (d := { d with ext := { d.ext with toBlockScan := b } }) ⟨h.desc, h.copy⟩ hall
            (apply_next_lt (congrArg Prod.snd hb)) he

theorem serviceShutdown_error {e : Crash} (h : d.serviceShutdown = .error e) : e = .bugOn := by
  unfold serviceShutdown wzEngineTransferDequeue at h
  split at h
  · split at h
    · rename_i e' he'
      rw [Except.error.injEq] at h
      subst h
      split at he'
      · cases he'
      · split at he'
        · cases he'
        · exact (Except.error.inj he').symm
    · cases h
  · cases h

/-- On a complete ring the service routine follows good pointers only. -/
theorem service_pointers (h : PointerInv c.toWzConsts d)
    (hall : ∀ i, i < c.nofbufs → d.ext.desc i ≠ none) {fuel : Nat} {status : Word} {e : Crash}
    (he : wzEngineServiceCyclicInterrupt c.toWzConsts fuel status d = .error e) :
    e.badPointer = false := by
  unfold wzEngineServiceCyclicInterrupt at he
  dsimp only at he
  split at he
  · rename_i e' hl
    rw [Except.error.injEq] at he
    subst he
    exact scanLoop_pointers
      (d := { d with engine := { d.engine with status := status } }) ⟨h.live.desc, h.live.copy⟩
      hall h.scanned hl
  · rw [serviceShutdown_error he]
    rfl

/-- A scan that begins at an entry that is NULL reads through it. -/
theorem service_null (hnull : d.ext.desc d.ext.blockScannedDesc = none) (fuel : Nat)
    (status : Word) :
    wzEngineServiceCyclicInterrupt c.toWzConsts (fuel + 1) status d = .error .nullDeref := by
  simp [wzEngineServiceCyclicInterrupt, scanLoop, Kernel.derefDesc, hnull]

/-- Restoring a descriptor works exactly when its pointer and the copies are there. -/
theorem confirmDesc_cases (h : PointersLive d) {i : Nat} (hi : i < c.nofbufs) :
    if d.ext.descCopy ≠ none ∧ d.ext.desc i ≠ none then
      ∃ d', confirmDesc c.toWzConsts i d = .ok d'
    else confirmDesc c.toWzConsts i d = .error .nullDeref := by
  have hlt : ¬c.nofbufs ≤ i := by omega
  cases hv : d.ext.descCopy with
  | none => simp [confirmDesc, hlt, hv]
  | some v =>
      obtain ⟨-, hcopies⟩ := h.copy v hv
      obtain ⟨arr, harr⟩ := Option.isSome_iff_exists.mp hcopies
      cases hx : d.ext.desc i with
      | none => simp [confirmDesc, hlt, hv, harr, hx]
      | some x =>
          obtain ⟨-, block, hb, hlen⟩ := h.desc.alive i x hx
          simp [confirmDesc, hlt, hv, harr, hx, hb, Kernel.modifyDesc, hlen]

/-- The restore loop works exactly when the copies and the whole range are there. -/
theorem confirmLoop_cases {last : Nat} (hlast : last < c.nofbufs) {fuel i : Nat}
    (h : PointersLive d) (hi : i < c.nofbufs) (hfuel : Lib.Cyclic.dist c.nofbufs i last < fuel) :
    (ConfirmReady c.toWzConsts i last d ∧ ∃ d', confirmLoop c.toWzConsts last fuel i d = .ok d') ∨
      (¬ConfirmReady c.toWzConsts i last d ∧
        confirmLoop c.toWzConsts last fuel i d = .error .nullDeref) := by
  induction fuel generalizing i d with
  | zero => omega
  | succ fuel ih =>
      have hstep := confirmDesc_cases h hi
      by_cases hgood : d.ext.descCopy ≠ none ∧ d.ext.desc i ≠ none
      · rw [if_pos hgood] at hstep
        obtain ⟨d1, hd1⟩ := hstep
        obtain ⟨k, hk, rfl⟩ := confirmDesc_ok hd1
        by_cases hil : i = last
        · subst hil
          refine .inl ⟨⟨hgood.1, fun j hj => ?_⟩, _, by simp [confirmLoop, hd1]; rfl⟩
          rw [(Lib.Cyclic.covers_self_iff hi).mp hj]
          exact hgood.2
        · have hnext := nextDesc_lt c.nofbufs_pos i
          have hdist := Lib.Cyclic.dist_next hi hlast hil
          have hiff : ConfirmReady c.toWzConsts i last d ↔
              ConfirmReady c.toWzConsts (nextDesc c.nofbufs i) last { d with kern := k } := by
            unfold ConfirmReady
            simp only [Lib.Cyclic.covers_next_iff hi hlast hil, nextDesc_eq]
            constructor
            · exact fun hr => ⟨hr.1, fun j hj => hr.2 j (.inr hj)⟩
            · rintro ⟨h1, h2⟩
              refine ⟨h1, fun j hj => ?_⟩
              rcases hj with rfl | hj
              · exact hgood.2
              · exact h2 j hj
          have hlive : PointersLive { d with kern := k } := h.of_sameObjects hk rfl rfl rfl
          have hrest := ih (i := nextDesc c.nofbufs i) hlive
            hnext (by rw [nextDesc_eq]; omega)
          rw [hiff]
          simpa only [confirmLoop, hd1, if_neg hil] using hrest
      · rw [if_neg hgood] at hstep
        refine .inr ⟨fun hr => hgood ⟨hr.1, hr.2 i (Lib.Cyclic.covers_first hi)⟩, ?_⟩
        simp [confirmLoop, hstep]

end Driver

/-! ## What the calls leave -/

/-- What `START` and `STOP` have left of the ring. -/
inductive RingLeft
  | absent
  | whole
  /-- the last `START` ran out of memory -/
  | broken
  deriving DecidableEq, Repr

/-- What the calls so far and the codes they returned say. -/
structure Calls where
  ring : RingLeft
  /-- the last `ALLOC_BUFFERS` returned 0, and there was no `FREE_BUFFERS` since -/
  copies : Bool
  deriving DecidableEq, Repr

/-- A `START` that finds no buffers returns `-EINVAL` and changes nothing. -/
def Calls.after (calls : Calls) (rc : Int) : Act → Calls
  | .allocBuffers _ => { calls with copies := decide (rc = 0) }
  | .freeBuffers => { calls with copies := false }
  | .start _ =>
      if rc = 0 then { calls with ring := .whole }
      else if rc = -einval then calls
      else { calls with ring := .broken }
  | .stopFinish => if rc = 0 then { calls with ring := .absent } else calls
  | _ => calls

/-- The system together with its calls. -/
structure Called extends Sys where
  calls : Calls

/-- The actions that the history is about. -/
def Act.movesRing : Act → Bool
  | .allocBuffers _ | .freeBuffers | .start _ | .stopFinish => true
  | _ => false

theorem Calls.after_other {calls : Calls} {rc : Int} {a : Act} (ha : a.movesRing = false) :
    calls.after rc a = calls := by
  cases a with
  | allocBuffers env => cases ha
  | freeBuffers => cases ha
  | start env => cases ha
  | stopFinish => cases ha
  | _ => rfl

/-- The numbers of a `CONFIRM` are those of buffers, and a scan makes an iteration. -/
def Act.InRange (c : WzConsts) : Act → Prop
  | .confirm (some arg) => arg.firstDesc.toNat < c.nofbufs ∧ arg.lastDesc.toNat < c.nofbufs
  | .service fuel _ => 0 < fuel
  | _ => True

/-- The interrupt comes, and `CONFIRM` is called, only while the calls so far leave a ring,
and the copies for `CONFIRM`. -/
def callsInTurn (t : Called) : Act → Prop
  | .service _ _ => t.calls.ring = .whole
  | .confirm (some _) => t.calls.ring = .whole ∧ t.calls.copies = true
  | _ => True

instance (t : Called) (a : Act) : Decidable (callsInTurn t a) :=
  match a with
  | .service _ _ => inferInstanceAs (Decidable (_ = _))
  | .confirm (some _) => inferInstanceAs (Decidable (_ ∧ _))
  | .confirm none | .allocBuffers _ | .freeBuffers | .start _ | .stopRequest | .stopFinish
  | .getbuf _ | .perfStart _ _ | .perfStop _ | .writeback _ _ _ _ | .mmap _ | .fault _ _
  | .munmap _ => isTrue trivial

/-- The scan or `CONFIRM` follows a pointer that does not refer to an allocated object. -/
def Driver.FollowsBad (c : WzConsts) (d : Driver) : Act → Prop
  | .service fuel status =>
      ∃ e, d.wzEngineServiceCyclicInterrupt c fuel status = .error e ∧ e.badPointer = true
  | .confirm arg => ∃ e, d.ioctlDoWzConfirm c arg = .error e ∧ e.badPointer = true
  | _ => False

namespace Called

def created : Called := ⟨.created, .absent, false⟩

def step (c : WzConsts) (t : Called) (a : Act) : Option Called :=
  (t.toSys.drvStep c a).bind fun (_, rc) =>
    (t.toSys.step c a).map fun s => ⟨s, t.calls.after rc a⟩

/-- The history says what the tables hold. -/
structure Inv (c : WzConsts) (t : Called) : Prop where
  pointers : PointerInv c t.drv
  whole : t.calls.ring = .whole → ∀ i, i < c.nofbufs → t.drv.ext.desc i ≠ none
  absent : t.calls.ring = .absent → ∀ i, i < c.nofbufs → t.drv.ext.desc i = none
  copies : t.drv.ext.descCopy.isSome = t.calls.copies

end Called

namespace Driver

variable {c : WzConsts} {d d' : Driver}

theorem BuffersOnly.desc (h : BuffersOnly d d') :
    d'.ext.desc = d.ext.desc ∧ d'.ext.descCopy = d.ext.descCopy := by
  obtain ⟨_, _, _, _, _, _, -, rfl⟩ := h
  exact ⟨rfl, rfl⟩

theorem releaseCopy_desc (d : Driver) :
    d.releaseCopy.ext.desc = d.ext.desc ∧ d.releaseCopy.ext.descCopy = none := by
  obtain ⟨hnone, he⟩ | ⟨v, fs, -, he⟩ := d.releaseCopy_cases
  · rw [he]
    exact ⟨rfl, hnone⟩
  · rw [he]
    exact ⟨rfl, rfl⟩

/-- `ALLOC_BUFFERS` leaves the ring alone, and there are copies exactly when it returns 0. -/
theorem allocBuffers_desc (c : WzConsts) (env : AllocEnv) (d : Driver) :
    (ioctlDoWzAllocBuffers c env d).1.ext.desc = d.ext.desc ∧
      (ioctlDoWzAllocBuffers c env d).1.ext.descCopy.isSome =
        decide ((ioctlDoWzAllocBuffers c env d).2 = 0) := by
  obtain ⟨t, junk, ht, he⟩ | ⟨u, t, hu, rfl, he⟩ := ioctlDoWzAllocBuffers_cases c env d
  · rw [he]
    exact ⟨(allocLoop_buffersOnly ht).desc.1, rfl⟩
  · have hu' : u.ext.desc = d.ext.desc := by
      cases hu with
      | buffer hi ht hu =>
          exact ((allocLoop_buffersOnly ht).trans (allocBuffer_error hu).1).desc.1
      | copy ht => exact (allocLoop_buffersOnly ht).desc.1
      | kfifo _ ht => exact (allocLoop_buffersOnly ht).desc.1
    obtain ⟨hdesc, hcopy⟩ := releaseCopy_desc (upTo releaseBuffer c.nofbufs u)
    rw [he]
    refine ⟨(hdesc.trans (releaseAll_buffersOnly c.nofbufs u).desc.1).trans hu', ?_⟩
    rw [hcopy]
    rfl

theorem freeBuffers_desc (c : WzConsts) (d : Driver) :
    (ioctlDoWzFreeBuffers c d).1.ext.desc = d.ext.desc ∧
      (ioctlDoWzFreeBuffers c d).1.ext.descCopy = none := by
  unfold ioctlDoWzFreeBuffers
  refine ⟨(releaseCopy_desc _).1.trans ?_, (releaseCopy_desc _).2⟩
  dsimp only
  split
  · exact (releaseAll_buffersOnly c.nofbufs d).desc.1
  · rfl

/-- The engine stands, so `STOP` returns 0 and frees every descriptor. -/
theorem stopFinish_desc (hrun : d.engine.running = false) :
    (∀ i, i < c.nofbufs → (ioctlDoWzStopFinish c d).1.ext.desc i = none) ∧
      (ioctlDoWzStopFinish c d).1.ext.descCopy = d.ext.descCopy ∧
      (ioctlDoWzStopFinish c d).2 = 0 := by
  obtain ⟨t, desc, dma, he, -⟩ := stopFinish_ext c d
  refine ⟨?_, by rw [he], ?_⟩
  · unfold ioctlDoWzStopFinish
    rw [hrun, if_neg Bool.false_ne_true]
    refine upTo_invariant (fun n (u : Driver) => ∀ i, i < n → u.ext.desc i = none)
      (fun i hi => absurd hi (Nat.not_lt_zero i)) fun n u _ hu i hi => ?_
    obtain ⟨hnone, hsame⟩ | ⟨x, fs, -, -, hfree⟩ := stopFree_cases n u
    · rw [hsame]
      by_cases hin : i = n
      · rw [hin, hnone]
      · exact hu i (by omega)
    · rw [hfree]
      by_cases hin : i = n
      · rw [hin]
        exact Function.update_self ..
      · exact (Function.update_of_ne hin _ _).trans (hu i (by omega))
  · unfold ioctlDoWzStopFinish
    rw [hrun, if_neg Bool.false_ne_true]

/-- The other actions leave the ring and the copies alone. -/
theorem Effect.desc {a : Act} (he : Effect c d a d') (ha : a.movesRing = false) :
    d'.ext.desc = d.ext.desc ∧ d'.ext.descCopy = d.ext.descCopy := by
  cases he with
  | allocBuffers env => cases ha
  | freeBuffers => cases ha
  | start hd => cases ha
  | stopFinish hrun => cases ha
  | getbuf copyFails q hq => exact ⟨rfl, rfl⟩
  | contents _ hk hrun hlist => exact ⟨rfl, rfl⟩
  | perfStart he =>
      rw [he.ext]
      exact ⟨rfl, rfl⟩
  | service hd =>
      obtain ⟨b, e, rfl, -⟩ := service_ok hd
      exact ⟨rfl, rfl⟩
  | user ha => exact ⟨rfl, rfl⟩

end Driver

namespace Called

variable {c : RingConsts} {t t' : Called}

theorem Inv.created : Called.created.Inv c.toWzConsts :=
  ⟨⟨.created, c.nofbufs_pos⟩, fun h => (by cases h), fun _ _ _ => rfl, rfl⟩

/-- A call that leaves the ring as it is. -/
theorem Inv.of_desc (h : t.Inv c.toWzConsts) {s : Sys} {calls : Calls}
    (hp : PointerInv c.toWzConsts s.drv) (hring : calls.ring = t.calls.ring)
    (hdesc : s.drv.ext.desc = t.drv.ext.desc) (hcopies : s.drv.ext.descCopy.isSome = calls.copies) :
    Inv c.toWzConsts ⟨s, calls⟩ := by
  refine ⟨hp, fun hw => ?_, fun hw => ?_, hcopies⟩
  · rw [hdesc]
    exact h.whole (hring.symm.trans hw)
  · rw [hdesc]
    exact h.absent (hring.symm.trans hw)

/-- `START` leaves the ring that its code stands for. -/
theorem Inv.start (h : t.Inv c.toWzConsts) {env : StartEnv} {s : Sys} {rc : Int}
    (hd : t.drv.ioctlDoWzStart c.toWzConsts env = .ok (s.drv, rc))
    (hp : PointerInv c.toWzConsts s.drv) :
    Inv c.toWzConsts ⟨s, t.calls.after rc (.start env)⟩ := by
  have hcopy := (Driver.start_frame hd).1.descCopy
  have hcopies : s.drv.ext.descCopy.isSome = t.calls.copies := by
    rw [hcopy]
    exact h.copies
  obtain ⟨-, hsame, rfl⟩ | ⟨-, -, -, -, -, -, rfl⟩ | ⟨-, -, -, -, -, -, -, ⟨-, rfl⟩ | ⟨-, rfl⟩⟩ :=
    Driver.ioctlDoWzStart_ends hd
  · rw [Calls.after, if_neg (by decide), if_pos rfl]
    exact h.of_desc hp rfl (by rw [hsame]) hcopies
  · rw [Calls.after, if_neg (by decide), if_neg (by decide)]
    exact ⟨hp, fun hw => (by cases hw), fun hw => (by cases hw), hcopies⟩
  · have hst := Driver.start_ok c.nofbufs_pos h.pointers.live.descOld hd
    refine ⟨hp, fun _ i hi => ?_, fun hw => (by cases hw), hcopies⟩
    rw [hst.desc i hi]
    exact Option.some_ne_none _
  · rw [Calls.after, if_neg (by decide), if_neg (by decide)]
    exact ⟨hp, fun hw => (by cases hw), fun hw => (by cases hw), hcopies⟩

theorem Inv.step (h : t.Inv c.toWzConsts) {a : Act} (hs : t.step c.toWzConsts a = some t') :
    t'.Inv c.toWzConsts := by
  obtain ⟨⟨d, rc⟩, hd, hs⟩ := Option.bind_eq_some_iff.mp hs
  obtain ⟨s, hsys, rfl⟩ := Option.map_eq_some_iff.mp hs
  have hp : PointerInv c.toWzConsts s.drv := h.pointers.step (Sys.step_effect hsys)
  obtain ⟨d', rc', hd', rfl⟩ := Sys.step_eq_some hsys
  obtain ⟨rfl, rfl⟩ := Prod.mk.inj (Option.some.inj (hd.symm.trans hd'))
  by_cases ha : a.movesRing = false
  · obtain ⟨hdesc, hcopy⟩ := (Sys.drvStep_effect hd).desc ha
    rw [Calls.after_other ha]
    exact h.of_desc hp rfl hdesc ((congrArg Option.isSome hcopy).trans h.copies)
  cases a with
  | start env => exact h.start (toOption_eq_some.mp hd) hp
  | allocBuffers env =>
      obtain ⟨hdesc, hcopy⟩ := Driver.allocBuffers_desc c.toWzConsts env t.drv
      have he : t.drv.ioctlDoWzAllocBuffers c.toWzConsts env = (d, rc) := Option.some.inj hd
      rw [he] at hdesc hcopy
      exact h.of_desc hp rfl hdesc hcopy
  | freeBuffers =>
      obtain ⟨hdesc, hcopy⟩ := Driver.freeBuffers_desc c.toWzConsts t.drv
      have he : t.drv.ioctlDoWzFreeBuffers c.toWzConsts = (d, rc) := Option.some.inj hd
      rw [he] at hdesc hcopy
      exact h.of_desc hp rfl hdesc (congrArg Option.isSome hcopy)
  | stopFinish =>
      simp only [Sys.drvStep] at hd
      split at hd
      · rename_i hidle
        obtain ⟨hdesc, hcopy, hrc⟩ := Driver.stopFinish_desc (c := c.toWzConsts) hidle.2
        have he : t.drv.ioctlDoWzStopFinish c.toWzConsts = (d, rc) := Option.some.inj hd
        rw [he] at hdesc hcopy hrc
        rw [Calls.after, if_pos hrc]
        exact ⟨hp, fun hw => (by cases hw), fun _ => hdesc,
          (congrArg Option.isSome hcopy).trans h.copies⟩
      · cases hd
  | _ => exact absurd rfl ha

theorem Inv.service (h : t.Inv c.toWzConsts) {fuel : Nat} (hfuel : 0 < fuel) (status : Word) :
    (t.calls.ring = .whole → ¬t.drv.FollowsBad c.toWzConsts (.service fuel status)) ∧
      (t.calls.ring = .absent → t.drv.FollowsBad c.toWzConsts (.service fuel status)) := by
  refine ⟨fun hw => ?_, fun hw => ?_⟩
  · rintro ⟨e, he, hbad⟩
    rw [Driver.service_pointers h.pointers (h.whole hw) he] at hbad
    cases hbad
  · have hnull := h.absent hw _ h.pointers.scanned
    obtain ⟨n, rfl⟩ := Nat.exists_eq_succ_of_ne_zero (Nat.ne_of_gt hfuel)
    exact ⟨_, Driver.service_null hnull n status, rfl⟩

theorem Inv.confirm (h : t.Inv c.toWzConsts) {arg : Driver.WzXdmaDataBlockConfirm}
    (hrange : (Act.confirm (some arg)).InRange c.toWzConsts) :
    t.drv.FollowsBad c.toWzConsts (.confirm (some arg)) ↔
      ¬t.drv.ConfirmReady c.toWzConsts arg.firstDesc.toNat arg.lastDesc.toNat := by
  obtain ⟨hready, d', hd'⟩ | ⟨hready, herr⟩ := Driver.confirmLoop_cases hrange.2 h.pointers.live
    hrange.1 (Lib.Cyclic.dist_lt hrange.1 hrange.2)
  · refine ⟨fun ⟨e, he, _⟩ => ?_, fun hno => absurd hready hno⟩
    simp [Driver.ioctlDoWzConfirm, hd'] at he
  · exact ⟨fun _ => hready, fun _ => ⟨.nullDeref, by simp [Driver.ioctlDoWzConfirm, herr], rfl⟩⟩

end Called

/-- As long as the interrupt comes and `CONFIRM` is called in turn, neither follows a pointer
that does not refer to an allocated object.  Out of turn both do, unless the last `START` ran
out of memory. -/
theorem scan_and_confirm_pointers (c : RingConsts) (t : Called)
    (ht : Lib.Machine.Reach (Called.step c.toWzConsts) callsInTurn .created t) (a : Act)
    (ha : a.InRange c.toWzConsts) :
    (callsInTurn t a → ¬t.drv.FollowsBad c.toWzConsts a) ∧
      (t.calls.ring ≠ .broken → ¬callsInTurn t a → t.drv.FollowsBad c.toWzConsts a) := by
  have h : t.Inv c.toWzConsts :=
    ht.invariant .created fun _ _ _ _ hP _ hstep => Called.Inv.step hP hstep
  cases a with
  | service fuel status =>
      obtain ⟨hwhole, habsent⟩ := h.service ha status
      refine ⟨hwhole, fun hbroken hturn => habsent ?_⟩
      cases hr : t.calls.ring with
      | absent => rfl
      | whole => exact absurd hr hturn
      | broken => exact absurd hr hbroken
  | confirm arg =>
      cases arg with
      | none => exact ⟨fun _ ⟨e, he, _⟩ => (by cases he), fun _ hturn => absurd trivial hturn⟩
      | some arg =>
          rw [h.confirm ha]
          refine ⟨fun ⟨hw, hcopies⟩ => not_not.mpr ⟨?_, fun i hi => h.whole hw i hi.1⟩,
            fun hbroken hturn hready => hturn ?_⟩
          · rw [← Option.isSome_iff_ne_none, h.copies]
            exact hcopies
          · refine ⟨?_, h.copies.symm.trans (Option.isSome_iff_ne_none.mpr hready.1)⟩
            cases hr : t.calls.ring with
            | absent =>
                exact absurd (h.absent hr _ ha.1) (hready.2 _ (Lib.Cyclic.covers_first ha.1))
            | whole => rfl
            | broken => exact absurd hr hbroken
  | _ => exact ⟨fun _ hf => hf, fun _ hturn => absurd trivial hturn⟩

/-- A block is scanned, fetched and confirmed while a measurement runs on the same engine, and
then the interrupt may come and the other descriptor be confirmed.  After `STOP` both would
follow NULL. -/
theorem scan_and_confirm_pointers_stopped :
    ∃ t t' : Called,
      Lib.Machine.Reach (Called.step twoBuffers.toWzConsts) callsInTurn .created t ∧
      t.drv.ext.blockScannedDesc = 1 ∧
      (∀ status, ¬t.drv.FollowsBad twoBuffers.toWzConsts (.service 2 status)) ∧
      ¬t.drv.FollowsBad twoBuffers.toWzConsts (.confirm (some ⟨1, 0⟩)) ∧
      Lib.Machine.Reach (Called.step twoBuffers.toWzConsts) callsInTurn t t' ∧
      (∀ status, t'.drv.FollowsBad twoBuffers.toWzConsts (.service 2 status)) ∧
      t'.drv.FollowsBad twoBuffers.toWzConsts (.confirm (some ⟨1, 0⟩)) := by
  obtain ⟨t, ht, hp⟩ := Lib.Machine.exists_reach_of_execOk
    (Called.step twoBuffers.toWzConsts) callsInTurn .created
    [.allocBuffers allocGranted, .start startGranted, .perfStart perfGranted perfRequest,
      .writeback 3 0 true 7, .service 2 xdmaStatBusy, .getbuf false, .confirm (some ⟨0, 0⟩)]
    (fun t => decide (t.drv.ext.blockScannedDesc = 1 ∧ t.calls = ⟨.whole, true⟩) &&
      ((Lib.Machine.execOk (Called.step twoBuffers.toWzConsts) callsInTurn t
        [.stopRequest, .service 2 0, .stopFinish]).map
          fun t' => decide (t'.calls = ⟨.absent, true⟩)) == some true)
    (by decide +kernel)
  obtain ⟨hnow, hlater⟩ := Bool.and_eq_true_iff.mp hp
  obtain ⟨hscanned, hcalls⟩ := of_decide_eq_true hnow
  obtain ⟨t', ht', hp'⟩ := Option.map_eq_some_iff.mp (beq_iff_eq.mp hlater)
  have hcalls' : t'.calls = ⟨.absent, true⟩ := of_decide_eq_true hp'
  have hreach := ht.trans (.of_execOk ht')
  have hring : t.calls.ring = .whole := by rw [hcalls]
  have hring' : t'.calls.ring = .absent := by rw [hcalls']
  have hout : t'.calls.ring ≠ .whole := by
    rw [hring']
    decide
  have hbroken : t'.calls.ring ≠ .broken := by
    rw [hring']
    decide
  have hscan : ∀ status, (Act.service 2 status).InRange twoBuffers.toWzConsts :=
    fun _ => Nat.succ_pos 1
  have hconfirm : (Act.confirm (some ⟨1, 0⟩)).InRange twoBuffers.toWzConsts :=
    ⟨by decide, by decide⟩
  refine ⟨t, t', ht, hscanned, fun status => ?_, ?_, .of_execOk ht', fun status => ?_, ?_⟩
  · exact (scan_and_confirm_pointers twoBuffers t ht _ (hscan status)).1 hring
  · exact (scan_and_confirm_pointers twoBuffers t ht _ hconfirm).1 ⟨hring, by rw [hcalls]⟩
  · exact (scan_and_confirm_pointers twoBuffers t' hreach _ (hscan status)).2 hbroken hout
  · exact (scan_and_confirm_pointers twoBuffers t' hreach _ hconfirm).2 hbroken
      fun hturn => hout hturn.1

/-- The interrupt of a measurement that was started on an engine without a ring. -/
theorem scan_null_after_perfStart :
    ∃ (s : Sys) (e : Crash), s.Reachable wzConsts.toWzConsts ∧
      s.drv.wzEngineServiceCyclicInterrupt wzConsts.toWzConsts 1 0 = .error e ∧
        e.badPointer = true := by
  obtain ⟨s, hs, hext⟩ : ∃ s, Sys.step wzConsts.toWzConsts .created
      (.perfStart perfGranted perfRequest) = some s ∧ s.drv.ext = .zero := ⟨_, rfl, rfl⟩
  refine ⟨s, .nullDeref, .next .start trivial hs, ?_, rfl⟩
  exact Driver.service_null (c := wzConsts) (by rw [hext]; rfl) 0 0

end WzXdma
