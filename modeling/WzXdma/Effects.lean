import WzXdma.Ring
import WzXdma.System

/-!
# What each routine can change

One lemma for each routine of the machine, in the form "the result is the old
state with these parts replaced".  The invariants are proved from these lemmas and
do not look into the routines.

`SameObjects` is the relation behind the routines that only write into descriptors:
the tables of the kernel name the same objects as before.
-/

namespace WzXdma

open Lib.Loop

/-- Faults that say something was released wrongly. -/
def Fault.isRelease : Fault → Bool
  | .strayWrite _ _ => false
  | _ => true

namespace Kernel

/-- Only the contents of descriptors may differ. -/
structure SameObjects (k k' : Kernel) : Prop where
  next : k'.next = k.next
  pages : k'.pages = k.pages
  mapAt : k'.mapAt = k.mapAt
  transfers : k'.transfers = k.transfers
  copies : k'.copies = k.copies
  coherent : ∀ x, (k'.coherent x).map (fun b => (b.bus, b.descs.length)) =
    (k.coherent x).map fun b => (b.bus, b.descs.length)
  faults : k'.faults.filter Fault.isRelease = k.faults.filter Fault.isRelease

variable {k k' k'' : Kernel}

theorem SameObjects.refl (k : Kernel) : SameObjects k k :=
  ⟨rfl, rfl, rfl, rfl, rfl, fun _ => rfl, rfl⟩

theorem SameObjects.trans (h : SameObjects k k') (h' : SameObjects k' k'') : SameObjects k k'' :=
  ⟨h'.next.trans h.next, h'.pages.trans h.pages, h'.mapAt.trans h.mapAt,
    h'.transfers.trans h.transfers, h'.copies.trans h.copies,
    fun x => (h'.coherent x).trans (h.coherent x), h'.faults.trans h.faults⟩

/-- Rewriting the contents of one array of descriptors. -/
theorem sameObjects_update {x : Nat} {block : DescBlock} (hx : k.coherent x = some block)
    {descs : List XdmaDesc} (hlen : descs.length = block.descs.length) :
    SameObjects k
      { k with coherent := Function.update k.coherent x (some { block with descs := descs }) } := by
  refine ⟨rfl, rfl, rfl, rfl, rfl, fun y => ?_, rfl⟩
  by_cases hy : y = x
  · subst hy
    simp [hx, hlen]
  · simp [Function.update_of_ne hy]

theorem modifyDesc_sameObjects {x : Option Nat} {index : Nat} {f : XdmaDesc → XdmaDesc}
    (h : k.modifyDesc x index f = .ok k') : SameObjects k k' := by
  obtain ⟨y, -, ⟨block, hblock, -, rfl⟩ | ⟨-, rfl⟩⟩ := modifyDesc_ok h
  · exact sameObjects_update hblock (List.length_modify ..)
  · exact ⟨rfl, rfl, rfl, rfl, rfl, fun _ => rfl, by simp [Fault.isRelease]⟩

/-- The bus address of a descriptor that is there is still the same. -/
theorem SameObjects.bus_eq (h : SameObjects k k') (x : Nat) :
    (k'.coherent x).map DescBlock.bus = (k.coherent x).map DescBlock.bus := by
  have := congrArg (Option.map Prod.fst) (h.coherent x)
  simpa [Option.map_map, Function.comp_def] using this

end Kernel

namespace Driver

variable {c : WzConsts} {d d' : Driver}

/-! ## Buffers -/

/-- Only the page blocks, their mappings and the two arrays of the buffers may
differ. -/
def BuffersOnly (d d' : Driver) : Prop :=
  ∃ n pages mapAt fs bufPage bufDmaT, d.kern.next ≤ n ∧
    d' = { d with
      kern := { d.kern with next := n, pages := pages, mapAt := mapAt, faults := fs }
      ext := { d.ext with bufPage := bufPage, bufDmaT := bufDmaT } }

theorem BuffersOnly.refl (d : Driver) : BuffersOnly d d :=
  ⟨_, _, _, _, _, _, Nat.le_refl _, rfl⟩

theorem BuffersOnly.trans {d'' : Driver} (h : BuffersOnly d d') (h' : BuffersOnly d' d'') :
    BuffersOnly d d'' := by
  obtain ⟨n, _, _, _, _, _, hn, rfl⟩ := h
  obtain ⟨n', _, _, _, _, _, hn', rfl⟩ := h'
  exact ⟨_, _, _, _, _, _, Nat.le_trans hn hn', rfl⟩

/-- How an iteration of the allocation loop ends. -/
theorem allocBuffer_cases (env : AllocEnv) (i : Nat) (d : Driver) :
    (env.pages i = none ∧
      allocBuffer env i d =
        .error ({ d with ext := { d.ext with bufPage := Function.update d.ext.bufPage i none } },
          -enomem)) ∨
    ∃ pfn, env.pages i = some pfn ∧
      ((env.maps i = 0 ∨ d.kern.mapAt (env.maps i) ≠ none) ∧
        allocBuffer env i d =
          .error ({ d with
            kern := { d.kern with
              next := d.kern.next + 1
              pages := Function.update d.kern.pages d.kern.next (some ⟨pfn, none⟩) }
            ext := { d.ext with
              bufPage := Function.update d.ext.bufPage i (some d.kern.next)
              bufDmaT := Function.update d.ext.bufDmaT i 0 } }, -enomem) ∨
      (env.maps i ≠ 0 ∧ d.kern.mapAt (env.maps i) = none) ∧
        allocBuffer env i d =
          .ok { d with
            kern := { d.kern with
              next := d.kern.next + 1
              pages := Function.update d.kern.pages d.kern.next (some ⟨pfn, some (env.maps i)⟩)
              mapAt := Function.update d.kern.mapAt (env.maps i) (some d.kern.next) }
            ext := { d.ext with
              bufPage := Function.update d.ext.bufPage i (some d.kern.next)
              bufDmaT := Function.update d.ext.bufDmaT i (env.maps i) } }) := by
  unfold allocBuffer Kernel.allocPages
  cases hp : env.pages i with
  | none => exact .inl ⟨rfl, rfl⟩
  | some pfn =>
      right
      refine ⟨pfn, rfl, ?_⟩
      cases hm : d.kern.mapAt (env.maps i) with
      | some q =>
          left
          refine ⟨.inr (by simp), ?_⟩
          simp [Kernel.dmaMapPage, hm]
      | none =>
          by_cases h0 : env.maps i = 0
          · left
            refine ⟨.inl h0, ?_⟩
            simp only [Kernel.dmaMapPage, Function.update_self, hm, if_pos h0, if_true]
          · right
            refine ⟨⟨h0, rfl⟩, ?_⟩
            simp only [Kernel.dmaMapPage, Function.update_self, hm, if_neg h0, Function.update_idem]

theorem allocBuffer_ok {env : AllocEnv} {i : Nat} (h : allocBuffer env i d = .ok d') :
    BuffersOnly d d' := by
  obtain ⟨-, he⟩ | ⟨pfn, -, ⟨-, he⟩ | ⟨-, he⟩⟩ := allocBuffer_cases env i d
  · simp [he] at h
  · simp [he] at h
  · rw [he, Except.ok.injEq] at h
    subst h
    exact ⟨_, _, _, _, _, _, Nat.le_succ _, rfl⟩

theorem allocBuffer_error {env : AllocEnv} {i : Nat} {rc : Int}
    (h : allocBuffer env i d = .error (d', rc)) : BuffersOnly d d' ∧ rc = -enomem := by
  obtain ⟨-, he⟩ | ⟨pfn, -, ⟨-, he⟩ | ⟨-, he⟩⟩ := allocBuffer_cases env i d
  · simp only [he, Except.error.injEq, Prod.mk.injEq] at h
    obtain ⟨rfl, rfl⟩ := h
    exact ⟨⟨_, _, _, _, _, _, Nat.le_refl _, rfl⟩, rfl⟩
  · simp only [he, Except.error.injEq, Prod.mk.injEq] at h
    obtain ⟨rfl, rfl⟩ := h
    exact ⟨⟨_, _, _, _, _, _, Nat.le_succ _, rfl⟩, rfl⟩
  · simp [he] at h

theorem dmaUnmapPage_eq (k : Kernel) (a : DmaAddr) :
    ∃ pages fs, k.dmaUnmapPage a =
      { k with pages := pages, mapAt := Function.update k.mapAt a none, faults := fs } := by
  unfold Kernel.dmaUnmapPage
  cases ha : k.mapAt a with
  | none =>
      refine ⟨k.pages, k.faults ++ [.unmap a], ?_⟩
      have : Function.update k.mapAt a none = k.mapAt := by rw [← ha, Function.update_eq_self]
      simp only [Kernel.fault, this]
  | some p => exact ⟨_, k.faults, rfl⟩

theorem releaseBuffer_buffersOnly (i : Nat) (d : Driver) : BuffersOnly d (releaseBuffer i d) := by
  have hunmap : BuffersOnly d
      (if d.ext.bufDmaT i = 0 then d
       else { d with
         kern := d.kern.dmaUnmapPage (d.ext.bufDmaT i)
         ext := { d.ext with bufDmaT := Function.update d.ext.bufDmaT i 0 } }) := by
    by_cases h0 : d.ext.bufDmaT i = 0
    · rw [if_pos h0]
      exact .refl d
    · rw [if_neg h0]
      obtain ⟨pages, fs, hk⟩ := dmaUnmapPage_eq d.kern (d.ext.bufDmaT i)
      exact ⟨d.kern.next, pages, _, fs, d.ext.bufPage, _, Nat.le_refl _, by rw [hk]⟩
  refine hunmap.trans ?_
  unfold releaseBuffer
  generalize (if d.ext.bufDmaT i = 0 then d
       else { d with
         kern := d.kern.dmaUnmapPage (d.ext.bufDmaT i)
         ext := { d.ext with bufDmaT := Function.update d.ext.bufDmaT i 0 } }) = t
  cases hp : t.ext.bufPage i with
  | none =>
      simp only [hp]
      exact .refl t
  | some p =>
      simp only [hp]
      obtain ⟨fs, hk⟩ := t.kern.freePages_eq p
      exact ⟨t.kern.next, _, t.kern.mapAt, fs, _, t.ext.bufDmaT, Nat.le_refl _, by rw [hk]⟩

theorem releaseAll_buffersOnly (n : Nat) (d : Driver) : BuffersOnly d (upTo releaseBuffer n d) :=
  upTo_invariant (fun _ t => BuffersOnly d t) (.refl d)
    fun i t _ h => h.trans (releaseBuffer_buffersOnly i t)

/-- The state in which a failed `ALLOC_BUFFERS` goes to `err1`. -/
inductive AllocFailed (c : WzConsts) (env : AllocEnv) (d : Driver) : Driver → Prop
  | buffer {i : Nat} {t u : Driver} {rc : Int} (hi : i < c.nofbufs)
      (ht : forUpTo (allocBuffer env) i d = .ok t) (hu : allocBuffer env i t = .error (u, rc)) :
      AllocFailed c env d u
  | copy {t : Driver} (ht : forUpTo (allocBuffer env) c.nofbufs d = .ok t) :
      AllocFailed c env d { t with ext := { t.ext with descCopy := none } }
  | kfifo {t : Driver} (junk : Nat → XdmaDesc)
      (ht : forUpTo (allocBuffer env) c.nofbufs d = .ok t) :
      AllocFailed c env d
        { t with
          kern := { t.kern with
            next := t.kern.next + 1
            copies := Function.update t.kern.copies t.kern.next (some junk) }
          ext := { t.ext with descCopy := some t.kern.next, kfifo := [], kfifoSize := 0 } }

/-- How `ALLOC_BUFFERS` can end. -/
theorem ioctlDoWzAllocBuffers_cases (c : WzConsts) (env : AllocEnv) (d : Driver) :
    (∃ t junk, forUpTo (allocBuffer env) c.nofbufs d = .ok t ∧
      ioctlDoWzAllocBuffers c env d =
        ({ t with
          kern := { t.kern with
            next := t.kern.next + 1
            copies := Function.update t.kern.copies t.kern.next (some junk) }
          ext := { t.ext with
            descCopy := some t.kern.next, kfifo := [], kfifoSize := c.nofbufs, bufReady := true } },
          0)) ∨
    ∃ u t, AllocFailed c env d u ∧ t = (upTo releaseBuffer c.nofbufs u).releaseCopy ∧
      ioctlDoWzAllocBuffers c env d = ({ t with ext := { t.ext with bufReady := false } }, -enomem) := by
  unfold ioctlDoWzAllocBuffers allocTry
  cases hl : forUpTo (allocBuffer env) c.nofbufs d with
  | error e =>
      obtain ⟨u, rc⟩ := e
      obtain ⟨i, t, hi, ht, hu⟩ := forUpTo_error
        (fun i t => forUpTo (allocBuffer env) i d = .ok t) rfl
        (fun i t t' _ hI hb => by rw [forUpTo_succ, hI]; exact hb) hl
      refine .inr ⟨u, _, .buffer hi ht hu, rfl, ?_⟩
      rw [(allocBuffer_error hu).2]
  | ok t =>
      cases hc : env.copy with
      | none => exact .inr ⟨_, _, .copy hl, rfl, rfl⟩
      | some junk =>
          cases hf : env.kfifo with
          | false => exact .inr ⟨_, _, .kfifo junk hl, rfl, rfl⟩
          | true => exact .inl ⟨t, junk, rfl, rfl⟩

theorem allocLoop_buffersOnly {env : AllocEnv} {n : Nat}
    (h : forUpTo (allocBuffer env) n d = .ok d') : BuffersOnly d d' :=
  forUpTo_ok (fun _ t => BuffersOnly d t) (.refl d)
    (fun _ _ _ _ hI hb => hI.trans (allocBuffer_ok hb)) h

/-! ## Engine and descriptors -/

theorem engineCyclicStop_ok (h : d.engineCyclicStop = .ok d') :
    ∃ k e, Kernel.SameObjects d.kern k ∧ e.running = d.engine.running ∧
      e.transferList = d.engine.transferList ∧ e.xdmaPerf = d.engine.xdmaPerf ∧
      d' = { d with kern := k, engine := e } := by
  unfold engineCyclicStop at h
  cases hl : d.engine.transferList with
  | nil =>
      simp only [hl, Except.ok.injEq] at h
      exact ⟨d.kern, d.engine, .refl _, rfl, hl, rfl, h.symm⟩
  | cons t ts =>
      simp only [hl] at h
      cases ht : d.kern.transfers t with
      | none => simp [ht] at h
      | some tr =>
          simp only [ht] at h
          by_cases hc : tr.cyclic = true
          · rw [if_pos hc] at h
            cases hm : d.kern.modifyDesc (some tr.descVirt) (tr.descNum - 1)
                (xdmaDescControl · (xdmaDescCompleted ||| xdmaDescStopped)) with
            | error e => simp [hm] at h
            | ok k =>
                simp only [hm, Except.ok.injEq] at h
                exact ⟨k, d.engine.xdmaEngineStop, Kernel.modifyDesc_sameObjects hm, rfl, hl, rfl, h.symm⟩
          · rw [if_neg hc, Except.ok.injEq] at h
            exact ⟨d.kern, d.engine.xdmaEngineStop, .refl _, rfl, hl, rfl, h.symm⟩

/-- Freeing the descriptors in `STOP`. -/
theorem stopFree_cases (i : Nat) (d : Driver) :
    (d.ext.desc i = none ∧ stopFree i d = d) ∨
    ∃ x fs, d.ext.desc i = some x ∧
      d.kern.xdmaDescFree x (d.ext.descDma i) =
        { d.kern with coherent := Function.update d.kern.coherent x none, faults := fs } ∧
      stopFree i d =
        { d with
          kern := { d.kern with
            coherent := Function.update d.kern.coherent x none, faults := fs }
          ext := { d.ext with
            desc := Function.update d.ext.desc i none
            bufDmaT := Function.update d.ext.bufDmaT i 0 } } := by
  unfold stopFree
  cases hi : d.ext.desc i with
  | none => exact .inl ⟨rfl, rfl⟩
  | some x =>
      obtain ⟨fs, hk⟩ := d.kern.xdmaDescFree_eq x (d.ext.descDma i)
      exact .inr ⟨x, fs, rfl, hk, by simp only [hk]⟩

/-- Giving the descriptors back when `START` has no memory for its transfer. -/
theorem startUndo_eq (i : Nat) (d : Driver) :
    ∃ coh fs,
      startUndo i d =
        { d with
          kern := { d.kern with coherent := coh, faults := fs }
          ext := { d.ext with
            desc := Function.update d.ext.desc i none
            descDma := Function.update d.ext.descDma i 0 } } ∧
      ∀ y, coh y = if d.ext.desc i = some y then none else d.kern.coherent y := by
  unfold startUndo
  cases hi : d.ext.desc i with
  | none => exact ⟨d.kern.coherent, d.kern.faults, rfl, fun y => by simp⟩
  | some x =>
      obtain ⟨fs, hk⟩ := d.kern.xdmaDescFree_eq x (d.ext.descDma i)
      refine ⟨Function.update d.kern.coherent x none, fs, by simp only [hk], fun y => ?_⟩
      simp only [Function.update_apply, Option.some.injEq, eq_comm]

/-- However `START` ends, it does not touch the buffers, and it does not stop the engine. -/
theorem start_frame {env : StartEnv} {rc : Int} (h : ioctlDoWzStart c env d = .ok (d', rc)) :
    StartFrame d d' ∧ d.kern.next ≤ d'.kern.next ∧
      (d'.engine.running = false → d.engine.running = false) := by
  refine ioctlDoWzStart_invariant
    (fun t => StartFrame d t ∧ d.kern.next ≤ t.kern.next ∧
      (t.engine.running = false → d.engine.running = false)) ?_ ?_ ?_ ?_ ?_ ?_ ?_ ?_ h
    ⟨.refl d, Nat.le_refl _, id⟩
  · exact fun t ⟨hf, hn, hrun⟩ => ⟨hf.trans ⟨rfl, rfl, rfl, rfl, rfl, rfl, rfl⟩, hn, hrun⟩
  · rintro i t - ⟨hf, hn, hrun⟩
    obtain ⟨coh, fs, he, -⟩ := startClean_eq i t
    rw [he]
    exact ⟨hf.trans ⟨rfl, rfl, rfl, rfl, rfl, rfl, rfl⟩, hn, hrun⟩
  · rintro i t t' - ⟨hf, hn, hrun⟩ hb
    obtain ⟨mem, coh, fs, -, rfl, -⟩ := startBuild_ok hb
    exact ⟨hf.trans ⟨rfl, rfl, rfl, rfl, rfl, rfl, rfl⟩, Nat.le_succ_of_le hn, hrun⟩
  · rintro t k x ⟨hf, hn, hrun⟩ hk
    have hsame := Kernel.modifyDesc_sameObjects hk
    exact ⟨hf.trans ⟨hsame.pages, hsame.mapAt, rfl, rfl, rfl, rfl, rfl⟩,
      hn.trans (Nat.le_of_eq hsame.next.symm), hrun⟩
  · rintro i t t' - ⟨hf, hn, hrun⟩ hfill
    obtain ⟨x, bus, y, rest, v, arr, -, -, -, -, rfl⟩ := startFill_ok hfill
    exact ⟨hf.trans ⟨rfl, rfl, rfl, rfl, rfl, rfl, rfl⟩, hn, hrun⟩
  · rintro t t' ⟨hf, hn, hrun⟩ hq
    obtain ⟨tr, e, rfl, -, -, he⟩ := startQueue_ok hq
    refine ⟨hf.trans ⟨rfl, rfl, rfl, rfl, rfl, rfl, rfl⟩, Nat.le_succ_of_le hn, fun hfalse => ?_⟩
    rcases he with rfl | ⟨hrunning, -, -⟩
    · exact hrun hfalse
    · exact absurd (hrunning.symm.trans hfalse) (by decide)
  · exact fun t ⟨hf, hn, hrun⟩ => ⟨hf.trans ⟨rfl, rfl, rfl, rfl, rfl, rfl, rfl⟩, hn, hrun⟩
  · rintro i t - ⟨hf, hn, hrun⟩
    obtain ⟨coh, fs, he, -⟩ := startUndo_eq i t
    rw [he]
    exact ⟨hf.trans ⟨rfl, rfl, rfl, rfl, rfl, rfl, rfl⟩, hn, hrun⟩

theorem stopTransfer_cases (d : Driver) :
    (d.ext.transfer = none ∧ d.stopTransfer = d) ∨
    ∃ t fs, d.ext.transfer = some t ∧
      d.stopTransfer =
        { d with
          kern := { d.kern with transfers := Function.update d.kern.transfers t none, faults := fs }
          ext := { d.ext with transfer := none } } := by
  unfold stopTransfer
  cases ht : d.ext.transfer with
  | none => exact .inl ⟨rfl, rfl⟩
  | some t =>
      obtain ⟨fs, hk⟩ := d.kern.kfreeTransfer_eq t
      exact .inr ⟨t, fs, rfl, by simp only [hk]⟩

theorem releaseCopy_cases (d : Driver) :
    (d.ext.descCopy = none ∧ d.releaseCopy = d) ∨
    ∃ v fs, d.ext.descCopy = some v ∧
      d.releaseCopy =
        { d with
          kern := { d.kern with copies := Function.update d.kern.copies v none, faults := fs }
          ext := { d.ext with descCopy := none } } := by
  unfold releaseCopy
  cases hv : d.ext.descCopy with
  | none => exact .inl ⟨rfl, rfl⟩
  | some v =>
      obtain ⟨fs, hk⟩ := d.kern.vfreeCopy_eq v
      exact .inr ⟨v, fs, rfl, by simp only [hk]⟩

/-- Restoring one descriptor needs its pointer and the copies to be good. -/
theorem confirmDesc_ok {i : Nat} (h : confirmDesc c i d = .ok d') :
    ∃ k, Kernel.SameObjects d.kern k ∧ d' = { d with kern := k } := by
  unfold confirmDesc at h
  split at h
  · cases h
  split at h
  · cases h
  split at h
  · cases h
  split at h
  · cases h
  split at h
  · cases h
  split at h
  · cases h
  · rename_i hm
    rw [Except.ok.injEq] at h
    exact ⟨_, Kernel.modifyDesc_sameObjects hm, h.symm⟩

theorem confirmLoop_ok {last fuel i : Nat} (h : confirmLoop c last fuel i d = .ok d') :
    ∃ k, Kernel.SameObjects d.kern k ∧ d' = { d with kern := k } := by
  induction fuel generalizing i d with
  | zero => simp [confirmLoop] at h
  | succ fuel ih =>
      unfold confirmLoop at h
      cases hd : confirmDesc c i d with
      | error e => simp [hd] at h
      | ok t =>
          obtain ⟨k, hk, rfl⟩ := confirmDesc_ok hd
          simp only [hd] at h
          by_cases hi : i = last
          · rw [if_pos hi, Except.ok.injEq] at h
            exact ⟨k, hk, h.symm⟩
          · rw [if_neg hi] at h
            obtain ⟨k', hk', rfl⟩ := ih h
            exact ⟨k', hk.trans hk', rfl⟩

theorem ioctlDoWzConfirm_ok {arg : Option WzXdmaDataBlockConfirm} {rc : Int}
    (h : ioctlDoWzConfirm c arg d = .ok (d', rc)) :
    ∃ k, Kernel.SameObjects d.kern k ∧ d' = { d with kern := k } := by
  unfold ioctlDoWzConfirm at h
  cases arg with
  | none =>
      simp only [Except.ok.injEq, Prod.mk.injEq] at h
      exact ⟨d.kern, .refl _, h.1.symm⟩
  | some db =>
      cases hl : confirmLoop c db.lastDesc.toNat c.nofbufs db.firstDesc.toNat d with
      | error e => simp [hl] at h
      | ok t =>
          simp only [hl, Except.ok.injEq, Prod.mk.injEq] at h
          obtain ⟨k, hk, rfl⟩ := confirmLoop_ok hl
          exact ⟨k, hk, h.1.symm⟩

theorem ioctlDoWzGetbuf_eq (copyFails : Bool) (d : Driver) :
    ∃ q, (q = d.ext.kfifo ∨ q = d.ext.kfifo.tail) ∧
      (ioctlDoWzGetbuf copyFails d).1 = { d with ext := { d.ext with kfifo := q } } := by
  unfold ioctlDoWzGetbuf
  split
  · split <;> exact ⟨d.ext.kfifo.tail, .inr rfl, rfl⟩
  · exact ⟨d.ext.kfifo, .inl rfl, rfl⟩

/-! ## The service routine -/

theorem scanLoop_ok {fuel check : Nat} (h : scanLoop c fuel check d = .ok d') :
    ∃ b, d' = { d with ext := { d.ext with toBlockScan := b } } := by
  induction fuel generalizing check d with
  | zero => simp [scanLoop] at h
  | succ fuel ih =>
      unfold scanLoop at h
      split at h
      · cases h
      · dsimp only at h
        split at h
        · cases h
        · split at h
          · rw [Except.ok.injEq] at h
            exact ⟨_, h.symm⟩
          · obtain ⟨b, rfl⟩ := ih h
            exact ⟨b, rfl⟩

/-- The scan goes on inside the ring. -/
theorem apply_next_lt {c : RingConsts} {check next : Nat} {b : BlockScan} {m : ScanMove}
    (h : (b.apply c.nofbufs check m).2 = some next) : next < c.nofbufs := by
  have hnext := nextDesc_lt c.nofbufs_pos check
  cases m with
  | finished => cases h
  | reported db => exact Option.some.inj h ▸ hnext
  | postponed => cases h
  | passed => exact Option.some.inj h ▸ hnext

theorem apply_scanned_lt {c : RingConsts} {check : Nat} (hcheck : check < c.nofbufs) {b : BlockScan}
    (hb : b.blockScannedDesc < c.nofbufs) (m : ScanMove) :
    (b.apply c.nofbufs check m).1.blockScannedDesc < c.nofbufs := by
  cases m with
  | finished => exact hcheck
  | reported db => exact apply_next_lt (b := b) (m := .reported db) rfl
  | postponed => exact hb
  | passed => exact hb

theorem scanLoop_scanned_lt {c : RingConsts} {fuel check : Nat} (hcheck : check < c.nofbufs)
    (hd : d.ext.blockScannedDesc < c.nofbufs) (h : scanLoop c.toWzConsts fuel check d = .ok d') :
    d'.ext.blockScannedDesc < c.nofbufs := by
  induction fuel generalizing check d with
  | zero => simp [scanLoop] at h
  | succ fuel ih =>
      unfold scanLoop at h
      split at h
      · cases h
      rename_i x hx
      dsimp only at h
      split at h
      · cases h
      have hlt := apply_scanned_lt hcheck hd
        (scanMove d.ext.kfifoSize x.toResult check d.ext.toBlockScan)
      split at h
      · rename_i b hb
        rw [hb] at hlt
        rw [Except.ok.injEq] at h
        exact h ▸ hlt
      · rename_i b next hb
        rw [hb] at hlt
        exact ih (apply_next_lt (congrArg Prod.snd hb)) hlt h

/-- The service routine changes the cursors and the FIFO.  An engine that is running
and idle loses the head of its queue, which has to be the driver's transfer, and is
shut down. -/
theorem service_ok {fuel : Nat} {status : Word}
    (h : wzEngineServiceCyclicInterrupt c fuel status d = .ok d') :
    ∃ b e, d' = { d with engine := e, ext := { d.ext with toBlockScan := b } } ∧
      (∃ t, scanLoop c fuel d.ext.blockScannedDesc
        { d with engine := { d.engine with status := status } } = .ok t ∧
        t.ext.toBlockScan = b) ∧
      e.xdmaPerf = d.engine.xdmaPerf ∧
      ((e.running = d.engine.running ∧ e.transferList = d.engine.transferList) ∨
        (d.engine.running = true ∧ e.running = false ∧
          (d.engine.transferList = [] ∨ d.engine.transferList.head? = d.ext.transfer) ∧
          e.transferList = d.engine.transferList.tail)) := by
  unfold wzEngineServiceCyclicInterrupt at h
  dsimp only at h
  split at h
  · cases h
  · rename_i t ht
    obtain ⟨b, rfl⟩ := scanLoop_ok ht
    unfold serviceShutdown at h
    split at h
    · rename_i hrun
      by_cases hl : d.engine.transferList = []
      · simp only [hl, if_true, Except.ok.injEq] at h
        refine ⟨b, _, h.symm, ⟨_, ht, rfl⟩, rfl, .inr ⟨hrun.1, rfl, .inl hl, ?_⟩⟩
        simp [XdmaEngine.engineServiceShutdown, XdmaEngine.xdmaEngineStop, hl]
      · simp only [hl, if_false, wzEngineTransferDequeue] at h
        by_cases hhead : d.engine.transferList.head? = d.ext.transfer
        · simp only [hhead, if_true, Except.ok.injEq] at h
          exact ⟨b, _, h.symm, ⟨_, ht, rfl⟩, rfl, .inr ⟨hrun.1, rfl, .inr hhead, rfl⟩⟩
        · simp [hhead] at h
    · rw [Except.ok.injEq] at h
      exact ⟨b, _, h.symm, ⟨_, ht, rfl⟩, rfl, .inl ⟨rfl, rfl⟩⟩

/-! ## The performance measurement -/

/-- `PERF_START` makes new objects at most, and the only transfer it queues is one of
the measurement. -/
structure PerfEffect (d d' : Driver) : Prop where
  ext : d'.ext = d.ext
  next : d.kern.next ≤ d'.kern.next
  pages : d'.kern.pages = d.kern.pages
  mapAt : d'.kern.mapAt = d.kern.mapAt
  copies : d'.kern.copies = d.kern.copies
  coherent : ∀ x, x < d.kern.next → d'.kern.coherent x = d.kern.coherent x
  transfers : ∀ t, t < d.kern.next → d'.kern.transfers t = d.kern.transfers t
  engine : (d'.engine.running = d.engine.running ∧ d'.engine.transferList = d.engine.transferList) ∨
    ∃ t tr, d'.engine.running = true ∧ d'.engine.transferList = d.engine.transferList ++ [t] ∧
      d.kern.next ≤ t ∧ t < d'.kern.next ∧ d'.kern.transfers t = some tr ∧ tr.wz = false

theorem xdmaPerformanceSubmit_ok {env : PerfEnv} {size : Nat}
    (h : xdmaPerformanceSubmit env size d = .ok d') : PerfEffect d d' := by
  unfold xdmaPerformanceSubmit at h
  split at h
  · cases h
  dsimp only at h
  generalize (if maxConsistentSize < size * 128 then maxConsistentSize / size else 128) = n at h
  split at h
  · cases h
  split at h
  · cases h
  split at h
  · cases h
  rename_i k x bus halloc
  simp only [Kernel.xdmaDescAlloc, Option.map_eq_some_iff, Prod.mk.injEq] at halloc
  obtain ⟨mem, -, rfl, rfl, rfl⟩ := halloc
  simp only [Kernel.kzallocTransfer, if_true] at h
  split at h
  · cases h
  rename_i d1 rc hq
  rw [Except.ok.injEq] at h
  subst h
  have hne : ∀ t, t < d.kern.next → t ≠ d.kern.next + 1 := fun t ht => by omega
  have hne' : ∀ x, x < d.kern.next → x ≠ d.kern.next := fun x hx => by omega
  obtain ⟨tr, htr, rfl | ⟨e, he, hlist, -, rfl⟩⟩ := transferQueue_ok hq
  · refine ⟨rfl, ?_, rfl, rfl, rfl, fun x hx => ?_, fun t ht => ?_, .inl ⟨rfl, rfl⟩⟩
    · simp only
      omega
    · simp [Function.update_of_ne (hne' x hx)]
    · simp [Function.update_of_ne (hne t ht)]
  · refine ⟨rfl, ?_, rfl, rfl, rfl, fun x hx => ?_, fun t ht => ?_, .inr ⟨d.kern.next + 1, _, he, hlist,
      Nat.le_succ _, Nat.lt_succ_self _, Function.update_self .., ?_⟩⟩
    · simp only
      omega
    · simp [Function.update_of_ne (hne' x hx)]
    · simp [Function.update_of_ne (hne t ht)]
    · simp only [Function.update_self, Option.some.injEq] at htr
      rw [← htr]

theorem PerfEffect.of_engine {e : XdmaEngine} (hrun : e.running = d.engine.running)
    (hlist : e.transferList = d.engine.transferList) : PerfEffect d { d with engine := e } :=
  ⟨rfl, Nat.le_refl _, rfl, rfl, rfl, fun _ _ => rfl, fun _ _ => rfl, .inl ⟨hrun, hlist⟩⟩

theorem ioctlDoPerfStart_ok {env : PerfEnv} {request : PerfIoctl} {rc : Int}
    (h : ioctlDoPerfStart env request d = .ok (d', rc)) : PerfEffect d d' := by
  unfold ioctlDoPerfStart at h
  split at h
  · simp only [Except.ok.injEq, Prod.mk.injEq] at h
    exact h.1 ▸ .of_engine rfl rfl
  split at h
  · simp only [Except.ok.injEq, Prod.mk.injEq] at h
    exact h.1 ▸ .of_engine rfl rfl
  dsimp only at h
  split at h
  · simp only [Except.ok.injEq, Prod.mk.injEq] at h
    exact h.1 ▸ .of_engine rfl rfl
  split at h
  · cases h
  rename_i hs
  simp only [Except.ok.injEq, Prod.mk.injEq] at h
  obtain ⟨rfl, -⟩ := h
  obtain ⟨h1, h2, h3, h4, h5, h6, h7, h8⟩ := xdmaPerformanceSubmit_ok hs
  exact ⟨h1, h2, h3, h4, h5, h6, h7, h8⟩

theorem ioctlDoPerfStop_ok {copyFails : Bool} {rc : Int}
    (h : ioctlDoPerfStop copyFails d = .ok (d', rc)) :
    ∃ k e, Kernel.SameObjects d.kern k ∧ e.running = d.engine.running ∧
      e.transferList = d.engine.transferList ∧ d' = { d with kern := k, engine := e } := by
  unfold ioctlDoPerfStop at h
  split at h
  · simp only [Except.ok.injEq, Prod.mk.injEq] at h
    exact ⟨d.kern, d.engine, .refl _, rfl, rfl, h.1.symm⟩
  split at h
  · cases h
  rename_i t ht
  obtain ⟨k, e, hk, hrun, hlist, -, rfl⟩ := engineCyclicStop_ok ht
  split at h
  · simp only [Except.ok.injEq, Prod.mk.injEq] at h
    exact ⟨k, e, hk, hrun, hlist, h.1.symm⟩
  · simp only [Except.ok.injEq, Prod.mk.injEq] at h
    exact ⟨k, { e with xdmaPerf := none }, hk, hrun, hlist, h.1.symm⟩

/-! ## The cursors -/

theorem BuffersOnly.scanned (h : BuffersOnly d d') :
    d'.ext.blockScannedDesc = d.ext.blockScannedDesc := by
  obtain ⟨_, _, _, _, _, _, -, rfl⟩ := h
  rfl

theorem releaseCopy_scanned (d : Driver) :
    d.releaseCopy.ext.blockScannedDesc = d.ext.blockScannedDesc := by
  obtain ⟨-, he⟩ | ⟨v, fs, -, he⟩ := d.releaseCopy_cases <;> rw [he]

theorem allocBuffers_scanned (c : WzConsts) (env : AllocEnv) (d : Driver) :
    (ioctlDoWzAllocBuffers c env d).1.ext.blockScannedDesc = d.ext.blockScannedDesc := by
  obtain ⟨t, junk, ht, he⟩ | ⟨u, t, hu, rfl, he⟩ := ioctlDoWzAllocBuffers_cases c env d
  · rw [he]
    exact (allocLoop_buffersOnly ht).scanned
  · have hu' : u.ext.blockScannedDesc = d.ext.blockScannedDesc := by
      cases hu with
      | buffer hi ht hu =>
          exact ((allocLoop_buffersOnly ht).trans (allocBuffer_error hu).1).scanned
      | copy ht => exact (allocLoop_buffersOnly ht).scanned
      | kfifo _ ht => exact (allocLoop_buffersOnly ht).scanned
    rw [he]
    show (upTo releaseBuffer c.nofbufs u).releaseCopy.ext.blockScannedDesc = _
    rw [releaseCopy_scanned, (releaseAll_buffersOnly c.nofbufs u).scanned, hu']

theorem freeBuffers_scanned (c : WzConsts) (d : Driver) :
    (ioctlDoWzFreeBuffers c d).1.ext.blockScannedDesc = d.ext.blockScannedDesc := by
  unfold ioctlDoWzFreeBuffers
  rw [releaseCopy_scanned]
  dsimp only
  split
  · exact (releaseAll_buffersOnly c.nofbufs d).scanned
  · rfl

theorem stopTransfer_ext (d : Driver) :
    ∃ t, d.stopTransfer.ext = { d.ext with transfer := t } := by
  obtain ⟨-, he⟩ | ⟨t, fs, -, he⟩ := d.stopTransfer_cases <;> rw [he] <;> exact ⟨_, rfl⟩

/-- `STOP` clears entries of `desc` and of `buf_dma_t`, and the transfer. -/
theorem stopFinish_ext (c : WzConsts) (d : Driver) :
    ∃ t desc dma, (ioctlDoWzStopFinish c d).1.ext =
        { d.ext with transfer := t, desc := desc, bufDmaT := dma } ∧
      ∀ i, dma i = d.ext.bufDmaT i ∨ dma i = 0 := by
  unfold ioctlDoWzStopFinish
  split
  · exact ⟨_, _, _, rfl, fun i => .inl rfl⟩
  refine upTo_invariant
    (fun _ (u : Driver) => ∃ t desc dma, u.ext =
        { d.ext with transfer := t, desc := desc, bufDmaT := dma } ∧
      ∀ i, dma i = d.ext.bufDmaT i ∨ dma i = 0) ?_ ?_
  · obtain ⟨t, ht⟩ := d.stopTransfer_ext
    exact ⟨t, _, _, ht, fun i => .inl rfl⟩
  · rintro j u - ⟨t, desc, dma, hu, hdma⟩
    obtain ⟨-, he⟩ | ⟨x, fs, -, -, he⟩ := stopFree_cases j u
    · rw [he]
      exact ⟨t, desc, dma, hu, hdma⟩
    · rw [he]
      refine ⟨t, Function.update desc j none, Function.update dma j 0, by simp only [hu], fun i => ?_⟩
      by_cases hij : i = j
      · subst hij
        simp
      · simpa only [Function.update_of_ne hij] using hdma i

theorem stopFinish_engine (c : WzConsts) (d : Driver) :
    (ioctlDoWzStopFinish c d).1.engine = d.engine := by
  unfold ioctlDoWzStopFinish
  split
  · rfl
  refine upTo_invariant (fun _ (u : Driver) => u.engine = d.engine) ?_ ?_
  · obtain ⟨-, he⟩ | ⟨t, fs, -, he⟩ := d.stopTransfer_cases <;> rw [he]
  · intro j u _ hu
    obtain ⟨-, he⟩ | ⟨x, fs, -, -, he⟩ := stopFree_cases j u <;> rw [he] <;> exact hu

/-! ## All steps at once -/

end Driver

/-- The actions that only write into descriptors. -/
def Act.writesDesc : Act → Bool
  | .stopRequest | .confirm _ | .perfStop _ | .writeback _ _ _ _ => true
  | _ => false

/-- The actions on the user mappings. -/
def Act.isUser : Act → Bool
  | .mmap _ | .fault _ _ | .munmap _ => true
  | _ => false

namespace Driver

/-- What an action can do to the driver. -/
inductive Effect (c : WzConsts) (d : Driver) : Act → Driver → Prop
  | allocBuffers (env : AllocEnv) :
      Effect c d (.allocBuffers env) (ioctlDoWzAllocBuffers c env d).1
  | freeBuffers : Effect c d .freeBuffers (ioctlDoWzFreeBuffers c d).1
  | start {env : StartEnv} {d' : Driver} {rc : Int} (h : ioctlDoWzStart c env d = .ok (d', rc)) :
      Effect c d (.start env) d'
  | stopFinish (h : d.engine.running = false) :
      Effect c d .stopFinish (ioctlDoWzStopFinish c d).1
  | getbuf (copyFails : Bool) (q : List WzXdmaDataBlockDesc)
      (hq : q = d.ext.kfifo ∨ q = d.ext.kfifo.tail) :
      Effect c d (.getbuf copyFails) { d with ext := { d.ext with kfifo := q } }
  | contents {a : Act} {k : Kernel} {e : XdmaEngine} (ha : a.writesDesc = true) (hk : Kernel.SameObjects d.kern k)
      (hrun : e.running = d.engine.running) (hlist : e.transferList = d.engine.transferList) :
      Effect c d a { d with kern := k, engine := e }
  | perfStart {env : PerfEnv} {request : PerfIoctl} {d' : Driver} (h : PerfEffect d d') :
      Effect c d (.perfStart env request) d'
  | service {fuel : Nat} {status : Word} {d' : Driver}
      (h : wzEngineServiceCyclicInterrupt c fuel status d = .ok d') :
      Effect c d (.service fuel status) d'
  | user {a : Act} (ha : a.isUser = true) : Effect c d a d

end Driver

theorem toOption_eq_some {ε α : Type} {x : Except ε α} {a : α} : x.toOption = some a ↔ x = .ok a := by
  cases x <;> simp [Except.toOption]

/-- The error a computation ends with. -/
def errorOf {ε α : Type} : Except ε α → Option ε
  | .ok _ => none
  | .error e => some e

theorem errorOf_eq_some {ε α : Type} {x : Except ε α} {e : ε} : errorOf x = some e ↔ x = .error e := by
  cases x <;> simp [errorOf]

theorem Sys.drvStep_effect {c : WzConsts} {s : Sys} {a : Act} {d : Driver} {rc : Int}
    (h : Sys.drvStep c s a = some (d, rc)) : Driver.Effect c s.drv a d := by
  cases a with
  | allocBuffers env =>
      have hd : (Driver.ioctlDoWzAllocBuffers c env s.drv).1 = d := congrArg Prod.fst (Option.some.inj h)
      exact hd ▸ .allocBuffers env
  | freeBuffers =>
      have hd : (Driver.ioctlDoWzFreeBuffers c s.drv).1 = d := congrArg Prod.fst (Option.some.inj h)
      exact hd ▸ .freeBuffers
  | start env => exact .start (toOption_eq_some.mp h)
  | stopRequest =>
      obtain ⟨d', hd, he⟩ := Option.map_eq_some_iff.mp h
      obtain ⟨k, e, hk, hrun, hlist, -, rfl⟩ := Driver.engineCyclicStop_ok (toOption_eq_some.mp hd)
      exact (Prod.mk.inj he).1 ▸ .contents rfl hk hrun hlist
  | stopFinish =>
      simp only [Sys.drvStep] at h
      split at h
      · rename_i hc
        have hd : (Driver.ioctlDoWzStopFinish c s.drv).1 = d := congrArg Prod.fst (Option.some.inj h)
        exact hd ▸ .stopFinish hc.2
      · cases h
  | getbuf copyFails =>
      simp only [Sys.drvStep] at h
      split at h
      · obtain ⟨q, hq, he⟩ := Driver.ioctlDoWzGetbuf_eq copyFails s.drv
        have hd : (Driver.ioctlDoWzGetbuf copyFails s.drv).1 = d :=
          congrArg Prod.fst (Option.some.inj h)
        rw [← hd, he]
        exact .getbuf copyFails q hq
      · cases h
  | confirm arg =>
      obtain ⟨k, hk, rfl⟩ := Driver.ioctlDoWzConfirm_ok (toOption_eq_some.mp h)
      exact .contents rfl hk rfl rfl
  | perfStart env request => exact .perfStart (Driver.ioctlDoPerfStart_ok (toOption_eq_some.mp h))
  | perfStop copyFails =>
      obtain ⟨k, e, hk, hrun, hlist, rfl⟩ := Driver.ioctlDoPerfStop_ok (toOption_eq_some.mp h)
      exact .contents rfl hk hrun hlist
  | service fuel status =>
      obtain ⟨d', hd, he⟩ := Option.map_eq_some_iff.mp h
      exact (Prod.mk.inj he).1 ▸ .service (toOption_eq_some.mp hd)
  | writeback x index eop length =>
      obtain ⟨d', hd, he⟩ := Option.map_eq_some_iff.mp h
      obtain ⟨block, hblock, rfl⟩ := Option.map_eq_some_iff.mp hd
      exact (Prod.mk.inj he).1 ▸
        .contents rfl (Kernel.sameObjects_update hblock (List.length_modify ..)) rfl rfl
  | mmap vma =>
      simp only [Sys.drvStep] at h
      split at h
      · exact (Prod.mk.inj (Option.some.inj h)).1 ▸ .user rfl
      · cases h
  | fault vma offset =>
      simp only [Sys.drvStep] at h
      split at h
      · exact (Prod.mk.inj (Option.some.inj h)).1 ▸ .user rfl
      · cases h
  | munmap vma => exact (Prod.mk.inj (Option.some.inj h)).1 ▸ .user rfl

/-- A step is an action of the driver and the bookkeeping around it. -/
theorem Sys.step_eq_some {c : WzConsts} {s s' : Sys} {a : Act} (h : Sys.step c s a = some s') :
    ∃ d rc, Sys.drvStep c s a = some (d, rc) ∧
      s' = { drv := d, stopping := s.stoppingAfter a, vmas := s.vmasAfter c a,
             mapped := s.mappedAfter rc a, programmed := s.programmedAfter d rc a } := by
  obtain ⟨⟨d, rc⟩, hd, rfl⟩ := Option.map_eq_some_iff.mp h
  exact ⟨d, rc, hd, rfl⟩

theorem Sys.step_effect {c : WzConsts} {s s' : Sys} {a : Act} (h : Sys.step c s a = some s') :
    Driver.Effect c s.drv a s'.drv := by
  obtain ⟨d, rc, hd, rfl⟩ := Sys.step_eq_some h
  exact Sys.drvStep_effect hd

end WzXdma
