import WzXdma.Programmed
import WzXdma.Queue

/-!
# Buffers in use

The device writes into the buffers that `START` has programmed, and user processes have frames
of them in their mappings.  `FREE_BUFFERS`, and an `ALLOC_BUFFERS` that fails, release the buffers
without a look at either.  The mappings look at `buf_ready` once, when they are created.

The buffers are held as long as nothing is released while the engine runs or a mapping exists,
and no fault hits the entry behind the array.
-/

namespace WzXdma

open Lib Lib.Loop

/-! ## Page blocks -/

namespace Kernel

/-- The allocator has not handed out what is still to come. -/
def PagesFresh (k : Kernel) : Prop := ∀ p, k.next ≤ p → k.pages p = none

/-- The page block is allocated and mapped for the device. -/
def Mapped (k : Kernel) (p : Nat) : Prop := ∃ block, k.pages p = some block ∧ block.mappedAt.isSome = true

/-- Blocks that were there are there as they were. -/
def PagesGrow (k k' : Kernel) : Prop := ∀ p block, k.pages p = some block → k'.pages p = some block

theorem Mapped.grow {k k' : Kernel} {p : Nat} (h : k.Mapped p) (hgrow : k.PagesGrow k') : k'.Mapped p := by
  obtain ⟨block, hblock, hmapped⟩ := h
  exact ⟨block, hgrow p block hblock, hmapped⟩

theorem PagesFresh.dmaUnmapPage {k : Kernel} (h : k.PagesFresh) (addr : DmaAddr) :
    (k.dmaUnmapPage addr).PagesFresh := by
  unfold Kernel.dmaUnmapPage
  split
  · exact h
  · rename_i page _
    intro p hp
    have hnone : k.pages p = none := h p hp
    by_cases hpage : p = page
    · subst hpage
      simp [hnone]
    · simp [Function.update_of_ne hpage, hnone]

theorem PagesFresh.freePages {k : Kernel} (h : k.PagesFresh) (page : Nat) :
    (k.freePages page).PagesFresh := by
  obtain ⟨fs, he⟩ := k.freePages_eq page
  rw [he]
  intro p hp
  by_cases hpage : p = page
  · rw [hpage]
    exact Function.update_self ..
  · exact (Function.update_of_ne hpage ..).trans (h p hp)

end Kernel

namespace Driver

variable {c : WzConsts} {d d' : Driver}

/-- The actions that are not about buffers leave them alone. -/
structure SameBuffers (d d' : Driver) : Prop where
  next : d.kern.next ≤ d'.kern.next
  pages : d'.kern.pages = d.kern.pages
  bufPage : d'.ext.bufPage = d.ext.bufPage
  bufReady : d'.ext.bufReady = d.ext.bufReady

theorem SameBuffers.refl (d : Driver) : SameBuffers d d := ⟨Nat.le_refl _, rfl, rfl, rfl⟩

theorem SameBuffers.trans {d'' : Driver} (h : SameBuffers d d') (h' : SameBuffers d' d'') :
    SameBuffers d d'' :=
  ⟨h.next.trans h'.next, h'.pages.trans h.pages, h'.bufPage.trans h.bufPage,
    h'.bufReady.trans h.bufReady⟩

theorem start_sameBuffers {env : StartEnv} {rc : Int} (h : ioctlDoWzStart c env d = .ok (d', rc)) :
    SameBuffers d d' := by
  obtain ⟨hframe, hnext, -⟩ := start_frame h
  exact ⟨hnext, hframe.pages, hframe.bufPage, hframe.bufReady⟩

theorem stopFinish_sameBuffers (c : WzConsts) (d : Driver) :
    SameBuffers d (ioctlDoWzStopFinish c d).1 := by
  unfold ioctlDoWzStopFinish
  split
  · exact .refl d
  · refine upTo_invariant (fun _ => SameBuffers d) ?_ ?_
    · obtain ⟨-, he⟩ | ⟨t, fs, -, he⟩ := d.stopTransfer_cases
      · rw [he]
        exact .refl d
      · rw [he]
        exact ⟨Nat.le_refl _, rfl, rfl, rfl⟩
    · intro j u _ hu
      obtain ⟨-, he⟩ | ⟨x, fs, -, -, he⟩ := stopFree_cases j u
      · rw [he]
        exact hu
      · rw [he]
        exact hu.trans ⟨Nat.le_refl _, rfl, rfl, rfl⟩

theorem Effect.sameBuffers {a : Act} (h : Effect c d a d') (halloc : ∀ env, a ≠ .allocBuffers env)
    (hfree : a ≠ .freeBuffers) : SameBuffers d d' := by
  cases h with
  | allocBuffers env => exact absurd rfl (halloc env)
  | freeBuffers => exact absurd rfl hfree
  | start h => exact start_sameBuffers h
  | stopFinish h => exact stopFinish_sameBuffers c d
  | getbuf copyFails q hq => exact ⟨Nat.le_refl _, rfl, rfl, rfl⟩
  | contents ha hk hrun hlist => exact ⟨Nat.le_of_eq hk.next.symm, hk.pages, rfl, rfl⟩
  | perfStart h =>
      obtain ⟨hext, hnext, hpages, -⟩ := h
      exact ⟨hnext, hpages, by rw [hext], by rw [hext]⟩
  | service h =>
      obtain ⟨b, e, rfl, -⟩ := service_ok h
      exact ⟨Nat.le_refl _, rfl, rfl, rfl⟩
  | user ha => exact .refl d

/-- A `START` that returns an error leaves the engine alone. -/
theorem start_running {env : StartEnv} {rc : Int} (h : ioctlDoWzStart c env d = .ok (d', rc)) :
    rc = 0 ∧ d.ext.bufReady = true ∨
      rc ≠ 0 ∧ d'.engine.running = d.engine.running := by
  have hreset : QueueFrame d
      { d with ext := { d.ext with blockFirstDesc := 0, blockScannedDesc := 0 } } :=
    ⟨⟨rfl, rfl⟩, rfl, rfl, Nat.le_refl _⟩
  obtain ⟨-, rfl, rfl⟩ | ⟨-, t, i, ht, -, rfl, rfl⟩ | ⟨hready, t, k, t', ht, -, hf, hend⟩ :=
    ioctlDoWzStart_ends h
  · exact .inr ⟨by decide, rfl⟩
  · have hframe := (hreset.trans (startBuild_queueFrame ht).1).trans (startClean_queueFrame i t)
    exact .inr ⟨by decide, hframe.engine.1⟩
  · obtain ⟨-, rfl⟩ | ⟨rfl, rfl⟩ := hend
    · exact .inl ⟨rfl, hready⟩
    · refine .inr ⟨by decide, ?_⟩
      have hframe : t'.engine.running = d.engine.running :=
        (startFill_queueFrame hf).engine.1.trans (hreset.trans (startBuild_queueFrame ht).1).engine.1
      refine upTo_invariant (fun _ (u : Driver) => u.engine.running = d.engine.running) hframe ?_
      intro i u _ hu
      obtain ⟨coh, fs, he, -⟩ := startUndo_eq i u
      rw [he]
      exact hu

/-- Only the two starts make the engine run. -/
theorem Effect.running {a : Act} (h : Effect c d a d') (hstart : ∀ env, a ≠ .start env)
    (hperf : ∀ env request, a ≠ .perfStart env request) (hrun : d'.engine.running = true) :
    d.engine.running = true := by
  cases h with
  | allocBuffers env => exact (allocBuffers_queueFrame c env d).engine.1 ▸ hrun
  | freeBuffers => exact (freeBuffers_queueFrame c d).engine.1 ▸ hrun
  | @start env d' rc h => exact absurd rfl (hstart env)
  | stopFinish h => exact stopFinish_engine c d ▸ hrun
  | getbuf copyFails q hq => exact hrun
  | contents ha hk hrun' hlist => exact hrun' ▸ hrun
  | @perfStart env request d' h => exact absurd rfl (hperf env request)
  | service h =>
      obtain ⟨b, e, rfl, -, -, ⟨he, -⟩ | ⟨-, he, -⟩⟩ := service_ok h
      · exact he ▸ hrun
      · exact absurd (he.symm.trans hrun) (by decide)
  | user ha => exact hrun

/-! ## Allocation and release -/

theorem allocBuffer_fresh {env : AllocEnv} {i : Nat} (hfresh : d.kern.PagesFresh) :
    (∀ t, allocBuffer env i d = .ok t → t.kern.PagesFresh ∧ d.kern.PagesGrow t.kern ∧
        (∃ p, t.ext.bufPage = Function.update d.ext.bufPage i (some p) ∧ t.kern.Mapped p)) ∧
      ∀ t rc, allocBuffer env i d = .error (t, rc) → t.kern.PagesFresh := by
  have hnew : ∀ block : PageBlock, ∀ p, d.kern.next + 1 ≤ p →
      Function.update d.kern.pages d.kern.next (some block) p = none := by
    intro block p hp
    rw [Function.update_of_ne (by omega)]
    exact hfresh p (by omega)
  obtain ⟨-, he⟩ | ⟨pfn, -, ⟨-, he⟩ | ⟨-, he⟩⟩ := allocBuffer_cases env i d
  · rw [he]
    refine ⟨fun t ht => (nomatch ht), fun t rc ht => ?_⟩
    cases ht
    exact hfresh
  · rw [he]
    refine ⟨fun t ht => (nomatch ht), fun t rc ht => ?_⟩
    cases ht
    exact hnew _
  · rw [he]
    refine ⟨fun t ht => ?_, fun t rc ht => (nomatch ht)⟩
    cases ht
    refine ⟨hnew _, fun p block hp => ?_, d.kern.next, rfl, _, Function.update_self .., rfl⟩
    have hne : p ≠ d.kern.next := by
      rintro rfl
      rw [hfresh d.kern.next (Nat.le_refl _)] at hp
      cases hp
    exact (Function.update_of_ne hne ..).trans hp

/-- The allocation loop keeps the blocks that are there, and leaves a mapped block in each entry. -/
theorem allocLoop_mapped {env : AllocEnv} {n : Nat} {t : Driver} (hfresh : d.kern.PagesFresh)
    (h : forUpTo (allocBuffer env) n d = .ok t) :
    t.kern.PagesFresh ∧ d.kern.PagesGrow t.kern ∧
      ∀ i, i < n → ∃ p, t.ext.bufPage i = some p ∧ t.kern.Mapped p := by
  refine forUpTo_ok (fun n (t : Driver) => t.kern.PagesFresh ∧ d.kern.PagesGrow t.kern ∧
      ∀ i, i < n → ∃ p, t.ext.bufPage i = some p ∧ t.kern.Mapped p)
    ⟨hfresh, fun _ _ hp => hp, fun i hi => absurd hi (Nat.not_lt_zero i)⟩ ?_ h
  rintro n t t' - ⟨hfresh', hgrow, hpages⟩ hb
  obtain ⟨hfresh'', hgrow', p, hpage, hmapped⟩ := (allocBuffer_fresh hfresh').1 t' hb
  refine ⟨hfresh'', fun q block hq => hgrow' q block (hgrow q block hq), fun i hi => ?_⟩
  by_cases hin : i = n
  · rw [hin, hpage, Function.update_self]
    exact ⟨p, rfl, hmapped⟩
  · obtain ⟨q, hq, hmapped'⟩ := hpages i (by omega)
    rw [hpage, Function.update_of_ne hin]
    exact ⟨q, hq, hmapped'.grow hgrow'⟩

theorem releaseBuffer_fresh (i : Nat) (hfresh : d.kern.PagesFresh) :
    (releaseBuffer i d).kern.PagesFresh := by
  have hunmap : (if d.ext.bufDmaT i = 0 then d
      else { d with
        kern := d.kern.dmaUnmapPage (d.ext.bufDmaT i)
        ext := { d.ext with bufDmaT := Function.update d.ext.bufDmaT i 0 } }).kern.PagesFresh := by
    split
    · exact hfresh
    · exact hfresh.dmaUnmapPage _
  unfold releaseBuffer
  dsimp only
  split
  · exact hunmap
  · exact hunmap.freePages _

theorem releaseAll_fresh (n : Nat) (hfresh : d.kern.PagesFresh) :
    (upTo releaseBuffer n d).kern.PagesFresh :=
  upTo_invariant (fun _ (t : Driver) => t.kern.PagesFresh) hfresh
    (fun i _ _ ht => releaseBuffer_fresh i ht)

theorem releaseCopy_fresh (hfresh : d.kern.PagesFresh) : d.releaseCopy.kern.PagesFresh := by
  obtain ⟨-, he⟩ | ⟨v, fs, -, he⟩ := d.releaseCopy_cases <;> rw [he] <;> exact hfresh

theorem freeBuffers_fresh (hfresh : d.kern.PagesFresh) :
    (ioctlDoWzFreeBuffers c d).1.kern.PagesFresh := by
  unfold ioctlDoWzFreeBuffers
  dsimp only
  refine releaseCopy_fresh ?_
  show (if _ then _ else _ : Driver).kern.PagesFresh
  split
  · exact releaseAll_fresh c.nofbufs hfresh
  · exact hfresh

/-- How `ALLOC_BUFFERS` ends: every entry has a new mapped block and no block is gone, or the
buffers are not ready. -/
theorem allocBuffers_ends (c : WzConsts) (env : AllocEnv) (hfresh : d.kern.PagesFresh) :
    (ioctlDoWzAllocBuffers c env d).1.kern.PagesFresh ∧
      ((ioctlDoWzAllocBuffers c env d).2 = 0 ∧
          d.kern.PagesGrow (ioctlDoWzAllocBuffers c env d).1.kern ∧
          (∀ i, i < c.nofbufs → ∃ p, (ioctlDoWzAllocBuffers c env d).1.ext.bufPage i = some p ∧
            (ioctlDoWzAllocBuffers c env d).1.kern.Mapped p) ∧
          (ioctlDoWzAllocBuffers c env d).1.ext.bufReady = true ∨
        (ioctlDoWzAllocBuffers c env d).2 ≠ 0 ∧
          (ioctlDoWzAllocBuffers c env d).1.ext.bufReady = false) := by
  obtain ⟨t, junk, ht, he⟩ | ⟨u, t, hu, rfl, he⟩ := ioctlDoWzAllocBuffers_cases c env d
  · obtain ⟨hfresh', hgrow, hpages⟩ := allocLoop_mapped hfresh ht
    rw [he]
    exact ⟨fun p hp => hfresh' p (Nat.le_of_succ_le hp), .inl ⟨rfl, hgrow, hpages, rfl⟩⟩
  · have hu' : u.kern.PagesFresh := by
      cases hu with
      | buffer hi ht hu => exact (allocBuffer_fresh (allocLoop_mapped hfresh ht).1).2 _ _ hu
      | copy ht => exact (allocLoop_mapped hfresh ht).1
      | kfifo _ ht => exact fun p hp => (allocLoop_mapped hfresh ht).1 p (Nat.le_of_succ_le hp)
    rw [he]
    exact ⟨releaseCopy_fresh (releaseAll_fresh c.nofbufs hu'), .inr ⟨show (-enomem : Int) ≠ 0 by decide, rfl⟩⟩

end Driver

/-! ## Every interleaving -/

open Driver

/-- The pages that the running ring was programmed with are allocated and mapped, and every frame in
a user mapping belongs to an allocated page block. -/
structure BuffersHeld (c : WzConsts) (s : Sys) : Prop where
  running : s.drv.engine.running = true → ∀ i, i < c.nofbufs →
    ∃ p, s.programmed i = some p ∧ s.drv.kern.Mapped p
  frames : ∀ vma frames, s.vmas vma = some frames → ∀ f ∈ frames,
    ∃ p block, f.owner = some p ∧ s.drv.kern.pages p = some block

/-- The engine stands, and there is no user mapping. -/
def Sys.Idle (s : Sys) : Prop := s.drv.engine.running = false ∧ ∀ vma, s.vmas vma = none

/-- Buffers are released while nobody can use them, and no fault hits the entry behind the array.
The measurement is left out. -/
def releasesIdle (c : WzConsts) (s : Sys) : Act → Prop
  | .freeBuffers => s.Idle
  | .allocBuffers env => (ioctlDoWzAllocBuffers c env s.drv).2 ≠ 0 → s.Idle
  | .fault _ offset => offset / c.buflen ≠ c.nofbufs
  | .perfStart _ _ => False
  | _ => True

structure HeldInv (c : WzConsts) (s : Sys) : Prop where
  fresh : s.drv.kern.PagesFresh
  ready : s.drv.ext.bufReady = true → ∀ i, i < c.nofbufs →
    ∃ p, s.drv.ext.bufPage i = some p ∧ s.drv.kern.Mapped p
  mapping : ∀ vma frames, s.vmas vma = some frames → s.drv.ext.bufReady = true
  held : BuffersHeld c s

namespace HeldInv

variable {c : WzConsts} {s s' : Sys}

/-- Steps that leave the buffers and the mappings alone and start nothing. -/
theorem of_same (h : HeldInv c s) (hsame : SameBuffers s.drv s'.drv)
    (hrun : s'.drv.engine.running = true → s.drv.engine.running = true) (hvmas : s'.vmas = s.vmas)
    (hprogrammed : s'.programmed = s.programmed) : HeldInv c s' := by
  have hmapped : ∀ p, s.drv.kern.Mapped p → s'.drv.kern.Mapped p :=
    fun p hp => hp.grow fun q block hq => hsame.pages ▸ hq
  refine ⟨fun p hp => ?_, fun hready i hi => ?_, ?_, fun hrunning i hi => ?_, ?_⟩
  · rw [hsame.pages]
    exact h.fresh p (hsame.next.trans hp)
  · rw [hsame.bufPage]
    obtain ⟨p, hp, hm⟩ := h.ready (hsame.bufReady ▸ hready) i hi
    exact ⟨p, hp, hmapped p hm⟩
  · rw [hvmas, hsame.bufReady]
    exact h.mapping
  · rw [hprogrammed]
    obtain ⟨p, hp, hm⟩ := h.held.running (hrun hrunning) i hi
    exact ⟨p, hp, hmapped p hm⟩
  · rw [hvmas, hsame.pages]
    exact h.held.frames

/-- Steps after which the buffers are not ready: nobody could use them. -/
theorem of_idle (hidle : s.Idle) (hfresh : s'.drv.kern.PagesFresh)
    (hready : s'.drv.ext.bufReady = false) (hrun : s'.drv.engine.running = s.drv.engine.running)
    (hvmas : s'.vmas = s.vmas) : HeldInv c s' := by
  refine ⟨hfresh, fun hcontra => ?_, fun vma frames hvma => ?_, fun hcontra => ?_, fun vma frames hvma => ?_⟩
  · exact absurd (hready.symm.trans hcontra) (by decide)
  · rw [hvmas, hidle.2 vma] at hvma
    cases hvma
  · exact absurd ((hrun.trans hidle.1).symm.trans hcontra) (by decide)
  · rw [hvmas, hidle.2 vma] at hvma
    cases hvma

theorem alloc (h : HeldInv c s) {env : AllocEnv} (hok : releasesIdle c s (.allocBuffers env))
    (hdrv : s'.drv = (ioctlDoWzAllocBuffers c env s.drv).1) (hvmas : s'.vmas = s.vmas)
    (hprogrammed : s'.programmed = s.programmed) : HeldInv c s' := by
  have hrun := (allocBuffers_queueFrame c env s.drv).engine.1
  obtain ⟨hfresh, ⟨-, hgrow, hpages, hready⟩ | ⟨hrc, hready⟩⟩ := allocBuffers_ends c env h.fresh
  · rw [← hdrv] at hfresh hgrow hpages hready hrun
    refine ⟨hfresh, fun _ => hpages, fun _ _ _ => hready, fun hrunning i hi => ?_, ?_⟩
    · rw [hprogrammed]
      obtain ⟨p, hp, hm⟩ := h.held.running (hrun ▸ hrunning) i hi
      exact ⟨p, hp, hm.grow hgrow⟩
    · rw [hvmas]
      intro vma frames hvma f hf
      obtain ⟨p, block, hp, hblock⟩ := h.held.frames vma frames hvma f hf
      exact ⟨p, block, hp, hgrow p block hblock⟩
  · rw [← hdrv] at hfresh hready hrun
    exact of_idle (hok hrc) hfresh hready hrun hvmas

/-- A fault on an entry of the array finds an allocated block. -/
theorem fault_owned (h : HeldInv c s) {vma offset : Nat} {frames : List Frame}
    (hvma : s.vmas vma = some frames) (hoffset : offset / c.buflen ≠ c.nofbufs) :
    ∀ f ∈ Sys.insertFrame frames (swzMmapFault c s.drv offset),
      ∃ p block, f.owner = some p ∧ s.drv.kern.pages p = some block := by
  have hready := h.mapping vma frames hvma
  rcases Nat.lt_or_gt_of_ne hoffset with hlt | hgt
  · obtain ⟨p, hp, block, hblock, -⟩ := h.ready hready _ hlt
    have hfault : ∃ frame, swzMmapFault c s.drv offset = .inserted p frame := by
      have hle : ¬c.nofbufs < offset / c.buflen := by omega
      simp only [swzMmapFault, if_neg hle, if_pos hlt, hp, Option.bind_some, hblock, Option.map_some]
      exact ⟨_, rfl⟩
    obtain ⟨frame, hfault⟩ := hfault
    rw [hfault]
    intro f hf
    rcases List.mem_cons.mp hf with rfl | hf
    · exact ⟨p, block, rfl, hblock⟩
    · exact h.held.frames vma frames hvma f hf
  · have hfault : swzMmapFault c s.drv offset = .efault := if_pos hgt
    rw [hfault]
    exact h.held.frames vma frames hvma

/-- An entry of an updated table is the new one or an old one. -/
theorem update_eq_some {A : Type} {table : Nat → Option A} {x y : Nat} {new : Option A} {a : A}
    (h : Function.update table x new y = some a) : y = x ∧ new = some a ∨ table y = some a := by
  by_cases hyx : y = x
  · subst hyx
    rw [Function.update_self] at h
    exact .inl ⟨rfl, h⟩
  · rw [Function.update_of_ne hyx] at h
    exact .inr h

/-- Steps of the applications: only the mappings change. -/
theorem user (h : HeldInv c s) (hdrv : s'.drv = s.drv) (hprogrammed : s'.programmed = s.programmed)
    (hmapping : ∀ vma frames, s'.vmas vma = some frames → s.drv.ext.bufReady = true)
    (hframes : ∀ vma frames, s'.vmas vma = some frames → ∀ f ∈ frames,
      ∃ p block, f.owner = some p ∧ s.drv.kern.pages p = some block) : HeldInv c s' := by
  refine ⟨hdrv ▸ h.fresh, ?_, ?_, ?_, ?_⟩
  · rw [hdrv]
    exact h.ready
  · rw [hdrv]
    exact hmapping
  · rw [hdrv, hprogrammed]
    exact h.held.running
  · rw [hdrv]
    exact hframes

theorem step (h : HeldInv c s) {a : Act} (hok : releasesIdle c s a) (hs : Sys.step c s a = some s') :
    HeldInv c s' := by
  have heffect := Sys.step_effect hs
  obtain ⟨d, rc, hd, rfl⟩ := Sys.step_eq_some hs
  cases a with
  | allocBuffers env => exact h.alloc hok (congrArg Prod.fst (Option.some.inj hd)).symm rfl rfl
  | freeBuffers =>
      have hdrv : d = (ioctlDoWzFreeBuffers c s.drv).1 := (congrArg Prod.fst (Option.some.inj hd)).symm
      subst hdrv
      exact of_idle hok (freeBuffers_fresh h.fresh) (freeBuffers_bufReady c s.drv)
        (freeBuffers_queueFrame c s.drv).engine.1 rfl
  | start env =>
      have hstart := toOption_eq_some.mp hd
      have hsame := start_sameBuffers hstart
      rcases start_running hstart with ⟨rfl, hready⟩ | ⟨hrc, hrun⟩
      · have hinv : HeldInv c { s with drv := { d with engine := s.drv.engine } } :=
          h.of_same ⟨hsame.next, hsame.pages, hsame.bufPage, hsame.bufReady⟩ id rfl rfl
        refine ⟨hinv.fresh, hinv.ready, hinv.mapping, fun _ => ?_, hinv.held.frames⟩
        exact hinv.ready (hsame.bufReady.trans hready)
      · refine h.of_same hsame (fun hrunning => hrun ▸ hrunning) rfl ?_
        exact if_neg hrc
  | perfStart env request => exact absurd hok id
  | mmap vma =>
      simp only [Sys.drvStep] at hd
      split at hd
      · rename_i hmap
        cases hd
        have hready : s.drv.ext.bufReady = true := by
          by_contra hnot
          have hrc := hmap.2
          rw [charSgdmaWzMmap, if_neg hnot] at hrc
          exact absurd hrc (by decide)
        refine h.user rfl rfl (fun _ _ _ => hready) fun x frames hx f hf => ?_
        rcases update_eq_some hx with ⟨-, hnew⟩ | hold
        · cases hnew
          cases hf
        · exact h.held.frames x frames hold f hf
      · cases hd
  | fault vma offset =>
      simp only [Sys.drvStep] at hd
      split at hd
      · cases hd
        refine h.user rfl rfl (fun x frames hx => ?_) fun x frames hx => ?_
        · rcases update_eq_some hx with ⟨-, hnew⟩ | hold
          · obtain ⟨old, hold, -⟩ := Option.map_eq_some_iff.mp hnew
            exact h.mapping vma old hold
          · exact h.mapping x frames hold
        · rcases update_eq_some hx with ⟨-, hnew⟩ | hold
          · obtain ⟨old, hold, rfl⟩ := Option.map_eq_some_iff.mp hnew
            exact h.fault_owned hold hok
          · exact h.held.frames x frames hold
      · cases hd
  | munmap vma =>
      cases hd
      refine h.user rfl rfl (fun x frames hx => ?_) fun x frames hx => ?_
      · rcases update_eq_some hx with ⟨-, hnew⟩ | hold
        · cases hnew
        · exact h.mapping x frames hold
      · rcases update_eq_some hx with ⟨-, hnew⟩ | hold
        · cases hnew
        · exact h.held.frames x frames hold
  | _ =>
      exact h.of_same (heffect.sameBuffers (by simp) (by simp)) (heffect.running (by simp) (by simp))
        rfl rfl

end HeldInv

theorem heldInv_created (c : WzConsts) : HeldInv c .created :=
  ⟨fun _ _ => rfl, fun h => (nomatch h), fun _ _ h => (nomatch h), fun h => (nomatch h),
    fun _ _ h => (nomatch h)⟩

/-- In every run the buffers are held, as long as they are released only while the engine stands and
no user mapping exists, and no fault hits the entry behind the array. -/
theorem buffers_held_while_used (c : RingConsts) (s : Sys)
    (hs : Machine.Reach (Sys.step c.toWzConsts) (releasesIdle c.toWzConsts) .created s) :
    BuffersHeld c.toWzConsts s := by
  have hinv : HeldInv c.toWzConsts s := hs.invariant (P := HeldInv c.toWzConsts)
    (heldInv_created c.toWzConsts) (fun _ _ _ _ hP hok hstep => hP.step hok hstep)
  exact hinv.held

/-- Nothing is released at all. -/
def releasesNothing (c : WzConsts) (s : Sys) : Act → Prop
  | .freeBuffers => False
  | .allocBuffers env => (ioctlDoWzAllocBuffers c env s.drv).2 = 0
  | .fault _ offset => offset / c.buflen ≠ c.nofbufs
  | .perfStart _ _ => False
  | _ => True

instance (c : WzConsts) (s : Sys) (a : Act) : Decidable (releasesNothing c s a) :=
  match a with
  | .freeBuffers | .perfStart _ _ => .isFalse id
  | .allocBuffers env => inferInstanceAs (Decidable ((ioctlDoWzAllocBuffers c env s.drv).2 = 0))
  | .fault _ offset => inferInstanceAs (Decidable (offset / c.buflen ≠ c.nofbufs))
  | .start _ | .stopRequest | .stopFinish | .getbuf _ | .confirm _ | .perfStop _ | .service _ _
  | .writeback _ _ _ _ | .mmap _ | .munmap _ => .isTrue trivial

theorem releasesIdle_of_releasesNothing (c : WzConsts) (s : Sys) (a : Act)
    (h : releasesNothing c s a) : releasesIdle c s a := by
  cases a with
  | allocBuffers env => exact fun hrc => absurd h hrc
  | freeBuffers => exact absurd h id
  | fault vma offset => exact h
  | perfStart env request => exact h
  | _ => trivial

/-- The ring runs, and both buffers are in a mapping. -/
theorem buffers_held_while_running :
    ∃ s, Machine.Reach (Sys.step twoBuffers.toWzConsts) (releasesIdle twoBuffers.toWzConsts)
        .created s ∧ s.drv.engine.running = true ∧
      s.vmas 0 = some [⟨some 1, 2048⟩, ⟨some 0, 1024⟩] ∧ BuffersHeld twoBuffers.toWzConsts s := by
  obtain ⟨s, hs, hp⟩ := Machine.exists_reach_of_execOk (Sys.step twoBuffers.toWzConsts)
    (releasesNothing twoBuffers.toWzConsts) .created
    [.allocBuffers allocGranted, .mmap 0, .fault 0 0, .start startGranted, .fault 0 4096]
    (fun s => decide (s.drv.engine.running = true ∧
      s.vmas 0 = some [⟨some 1, 2048⟩, ⟨some 0, 1024⟩])) (by decide +kernel)
  have hs' := hs.mono (releasesIdle_of_releasesNothing twoBuffers.toWzConsts)
  obtain ⟨hrun, hvma⟩ := of_decide_eq_true hp
  exact ⟨s, hs', hrun, hvma, buffers_held_while_used twoBuffers s hs'⟩

/-- `FREE_BUFFERS` while the ring runs and a frame is mapped, with the values of the repository. -/
theorem buffers_freed_while_used :
    ∃ s : Sys, s.Reachable wzConsts.toWzConsts ∧ s.drv.engine.running = true ∧
      s.programmed 0 = some 0 ∧ s.vmas 0 = some [⟨some 0, 1024⟩] ∧ s.drv.kern.pages 0 = none ∧
      ¬BuffersHeld wzConsts.toWzConsts s := by
  obtain ⟨s, hs, hp⟩ := Machine.exists_reach_of_execOk (Sys.step wzConsts.toWzConsts)
    (fun _ _ => True) .created
    [.allocBuffers allocGranted, .mmap 0, .fault 0 0, .start startGranted, .freeBuffers]
    (fun s => decide (s.drv.engine.running = true ∧ s.programmed 0 = some 0 ∧
      s.vmas 0 = some [⟨some 0, 1024⟩] ∧ s.drv.kern.pages 0 = none)) (by decide +kernel)
  obtain ⟨hrun, hprogrammed, hvma, hpage⟩ := of_decide_eq_true hp
  refine ⟨s, hs, hrun, hprogrammed, hvma, hpage, fun hheld => ?_⟩
  obtain ⟨p, hp, block, hblock, -⟩ := hheld.running hrun 0 (by decide)
  rw [hprogrammed, Option.some.injEq] at hp
  subst hp
  rw [hpage] at hblock
  cases hblock

end WzXdma
