import WzXdma.Ioctl.Start

/-!
# The ring a successful START leaves

`ioctl_do_wz_start` goes over the ring twice, and the second pass relies on what
the first one left in the descriptors.  The two loop invariants below lead to
`start_ok`: when the routine returns 0, descriptor `i` and its copy both are
`startDesc`, which points to the address that `buf_dma_t[i]` holds by then, and
that address is 0 if a descriptor had to be cleaned.
-/

namespace WzXdma

open Lib.Loop

/-- Ring descriptor `i` as START programs it. -/
def startDesc (c : WzConsts) (ext : WzExt) (i : Nat) : XdmaDesc where
  control := descMagic ||| xdmaDescCompleted
  bytes := BitVec.ofNat 32 c.buflen
  srcAddrLo := pciDmaL (ext.descDma i)
  srcAddrHi := pciDmaH (ext.descDma i)
  dstAddrLo := pciDmaL (ext.bufDmaT i)
  dstAddrHi := pciDmaH (ext.bufDmaT i)
  nextLo := pciDmaL (ext.descDma ((i + 1) % c.nofbufs))
  nextHi := pciDmaH (ext.descDma ((i + 1) % c.nofbufs))

theorem startDesc_accepted (c : WzConsts) (ext : WzExt) (i : Nat) :
    (startDesc c ext i).Accepted := by
  show (descMagic ||| xdmaDescCompleted) >>> 16 = 0xAD4B
  decide

theorem startDesc_dst (c : WzConsts) (ext : WzExt) (i : Nat) :
    (startDesc c ext i).dst = ext.bufDmaT i := addrOf_pciDma _

theorem startDesc_next (c : WzConsts) (ext : WzExt) (i : Nat) :
    (startDesc c ext i).next = ext.descDma ((i + 1) % c.nofbufs) := addrOf_pciDma _

namespace Driver

variable {c : WzConsts} {env : StartEnv} {d d' t t' : Driver} {i : Nat}

/-- The descriptor that `ext->desc[i]` points to. -/
def ringDesc (d : Driver) (i : Nat) : Option XdmaDesc :=
  (d.kern.derefDesc (d.ext.desc i) 0).toOption

/-- `ext->desc_copy[i]` -/
def copyDesc (d : Driver) (i : Nat) : Option XdmaDesc :=
  (d.ext.descCopy.bind d.kern.copies).map (· i)

/-- The pointers in `ext->desc` are not newer than the allocator. -/
def DescOld (d : Driver) : Prop := ∀ i x, d.ext.desc i = some x → x < d.kern.next

/-! ## One iteration of the first loop -/

/-- Cleaning touches entry `i` only, and forgets the address of its buffer when
there was a descriptor. -/
theorem startClean_eq (i : Nat) (d : Driver) :
    ∃ coh fs,
      startClean i d =
        { d with
          kern := { d.kern with coherent := coh, faults := fs }
          ext := { d.ext with
            desc := Function.update d.ext.desc i none
            bufDmaT := Function.update d.ext.bufDmaT i
              (if (d.ext.desc i).isSome then 0 else d.ext.bufDmaT i) } } ∧
      (∀ y, coh y = if d.ext.desc i = some y then none else d.kern.coherent y) := by
  unfold startClean
  cases hi : d.ext.desc i with
  | none =>
      refine ⟨d.kern.coherent, d.kern.faults, ?_, fun y => by simp⟩
      have hdesc : Function.update d.ext.desc i none = d.ext.desc := by
        rw [← hi, Function.update_eq_self]
      simp only [Option.isSome_none, Bool.false_eq_true, if_false, Function.update_eq_self, hdesc]
  | some x =>
      obtain ⟨fs, hfs⟩ := d.kern.xdmaDescFree_eq x (d.ext.bufDmaT i)
      refine ⟨Function.update d.kern.coherent x none, fs, ?_, fun y => ?_⟩
      · simp only [hfs, Option.isSome_some, if_true]
      · simp only [Function.update_apply, Option.some.injEq, eq_comm]

/-- The state of an iteration of the first loop once the descriptor is allocated. -/
def built (d : Driver) (i : Nat) (mem : Kernel.CoherentMem) : Driver :=
  { d with
    kern := { d.kern with
      next := d.kern.next + 1
      coherent := Function.update d.kern.coherent d.kern.next
        (some ⟨mem.bus, xdmaDescAllocContent 1 mem.bus mem.junk⟩) }
    ext := { d.ext with
      desc := Function.update d.ext.desc i (some d.kern.next)
      descDma := Function.update d.ext.descDma i mem.bus } }

/-- An iteration of the first loop cleans the entry, allocates, and links. -/
theorem startBuild_steps (h : startBuild env i d = .ok d') :
    ∃ mem, env.coherent i = some mem ∧
      (d' = built (startClean i d) i mem ∨ ∃ x k,
        (built (startClean i d) i mem).kern.modifyDesc x 0 (xdmaDescLink · (some mem.bus)) = .ok k ∧
          d' = { built (startClean i d) i mem with kern := k }) := by
  unfold startBuild at h
  simp only [Kernel.xdmaDescAlloc] at h
  cases hmem : env.coherent i with
  | none => simp [hmem] at h
  | some mem =>
      refine ⟨mem, rfl, ?_⟩
      simp only [hmem, Option.map_some] at h
      by_cases hi : 0 < i
      · rw [if_pos hi] at h
        unfold liftKern at h
        split at h
        · rename_i k hk
          rw [Except.ok.injEq] at h
          exact .inr ⟨_, k, hk, h.symm⟩
        · cases h
      · rw [if_neg hi, Except.ok.injEq] at h
        exact .inl h.symm

/-- What one iteration of the first loop does to the tables: object `next` is the
new descriptor, and the previous one is linked to it. -/
theorem startBuild_ok (h : startBuild env i d = .ok d') :
    ∃ mem coh fs,
      env.coherent i = some mem ∧
      d' =
        { d with
          kern := { d.kern with next := d.kern.next + 1, coherent := coh, faults := fs }
          ext := { d.ext with
            desc := Function.update d.ext.desc i (some d.kern.next)
            descDma := Function.update d.ext.descDma i mem.bus
            bufDmaT := Function.update d.ext.bufDmaT i
              (if (d.ext.desc i).isSome then 0 else d.ext.bufDmaT i) } } ∧
      ((0 < i → d.ext.desc (i - 1) ≠ some d.kern.next) →
        coh d.kern.next = some ⟨mem.bus, xdmaDescAllocContent 1 mem.bus mem.junk⟩) ∧
      (0 < i → ∀ y bus x, d.ext.desc (i - 1) = some y → y ≠ d.kern.next →
        d.ext.desc i ≠ some y → d.kern.coherent y = some ⟨bus, [x]⟩ →
        coh y = some ⟨bus, [xdmaDescLink x (some mem.bus)]⟩) ∧
      ∀ y, y ≠ d.kern.next → d.ext.desc i ≠ some y → (0 < i → d.ext.desc (i - 1) ≠ some y) →
        coh y = d.kern.coherent y := by
  obtain ⟨coh, fs, hclean, hcoh⟩ := startClean_eq i d
  unfold startBuild at h
  simp only [hclean, Kernel.xdmaDescAlloc] at h
  cases hmem : env.coherent i with
  | none => simp [hmem] at h
  | some mem =>
      simp only [hmem, Option.map_some] at h
      by_cases hi : 0 < i
      · -- the link writes to the object before, which `modifyDesc_ok` describes
        have hne : i - 1 ≠ i := by omega
        rw [if_pos hi] at h
        simp only [Function.update_of_ne hne] at h
        cases hm : Kernel.modifyDesc
            { d.kern with
              next := d.kern.next + 1
              coherent := Function.update coh d.kern.next
                (some ⟨mem.bus, xdmaDescAllocContent 1 mem.bus mem.junk⟩)
              faults := fs } (d.ext.desc (i - 1)) 0 (xdmaDescLink · (some mem.bus)) with
        | error e => simp [hm, liftKern] at h
        | ok k =>
            simp only [hm, liftKern, Except.ok.injEq, Function.update_idem] at h
            obtain ⟨y, hy, ⟨block, hblock, hlen, rfl⟩ | ⟨hstray, rfl⟩⟩ := Kernel.modifyDesc_ok hm
            · refine ⟨mem, _, _, rfl, h.symm, ?_, ?_, ?_⟩
              · intro hne
                have hyn : d.kern.next ≠ y := fun e => hne hi (e ▸ hy)
                simp [Function.update_of_ne hyn]
              · intro _ y' bus x hy' hyn hyi hx
                obtain rfl : y = y' := Option.some.inj (hy.symm.trans hy')
                simp only [Function.update_of_ne hyn, hcoh y, if_neg hyi, hx] at hblock
                obtain rfl := Option.some.inj hblock
                simp
              · intro y' hyn hyi hyp
                have : y' ≠ y := fun e => hyp hi (e ▸ hy)
                simp [Function.update_of_ne this, Function.update_of_ne hyn, hcoh, hyi]
            · refine ⟨mem, _, _, rfl, h.symm, ?_, ?_, ?_⟩
              · intro _
                simp
              · intro _ y' bus x hy' hyn hyi hx
                -- the object was there, so the write was not a stray one
                obtain rfl : y = y' := Option.some.inj (hy.symm.trans hy')
                have := hstray ⟨bus, [x]⟩ (by simp only [Function.update_of_ne hyn, hcoh y, if_neg hyi, hx])
                simp at this
              · intro y' hyn hyi _
                simp [Function.update_of_ne hyn, hcoh, hyi]
      · rw [if_neg hi] at h
        simp only [Except.ok.injEq, Function.update_idem] at h
        refine ⟨mem, _, _, rfl, h.symm, fun _ => by simp, fun h0 => absurd h0 hi, ?_⟩
        intro y hyn hyi _
        simp [Function.update_of_ne hyn, hcoh, hyi]

/-! ## The loop invariants -/

/-- What START never touches. -/
structure StartFrame (d t : Driver) : Prop where
  pages : t.kern.pages = d.kern.pages
  mapAt : t.kern.mapAt = d.kern.mapAt
  bufPage : t.ext.bufPage = d.ext.bufPage
  descCopy : t.ext.descCopy = d.ext.descCopy
  bufReady : t.ext.bufReady = d.ext.bufReady
  kfifo : t.ext.kfifo = d.ext.kfifo
  kfifoSize : t.ext.kfifoSize = d.ext.kfifoSize

theorem StartFrame.refl (d : Driver) : StartFrame d d := ⟨rfl, rfl, rfl, rfl, rfl, rfl, rfl⟩

theorem StartFrame.trans {u : Driver} (h : StartFrame d t) (h' : StartFrame t u) : StartFrame d u where
  pages := h'.pages.trans h.pages
  mapAt := h'.mapAt.trans h.mapAt
  bufPage := h'.bufPage.trans h.bufPage
  descCopy := h'.descCopy.trans h.descCopy
  bufReady := h'.bufReady.trans h.bufReady
  kfifo := h'.kfifo.trans h.kfifo
  kfifoSize := h'.kfifoSize.trans h.kfifoSize

/-- The first `i` descriptors are new, numbered from `d.kern.next` on, and linked
up to the last one; the other entries are those of `d`. -/
structure BuildInv (d : Driver) (i : Nat) (t : Driver) : Prop where
  frame : StartFrame d t
  first : t.ext.blockFirstDesc = d.ext.blockFirstDesc
  scanned : t.ext.blockScannedDesc = d.ext.blockScannedDesc
  copies : t.kern.copies = d.kern.copies
  next : t.kern.next = d.kern.next + i
  new : ∀ j, j < i → t.ext.desc j = some (d.kern.next + j)
  old : ∀ j, i ≤ j → t.ext.desc j = d.ext.desc j
  dma : ∀ j, t.ext.bufDmaT j =
    if j < i ∧ (d.ext.desc j).isSome then 0 else d.ext.bufDmaT j
  ring : ∀ j, j < i → ∃ y,
    t.kern.coherent (d.kern.next + j) = some ⟨t.ext.descDma j, [y]⟩ ∧ y.control = descMagic ∧
      (j + 1 < i → y.nextLo = pciDmaL (t.ext.descDma (j + 1)) ∧
        y.nextHi = pciDmaH (t.ext.descDma (j + 1)))

theorem buildInv_zero (d : Driver) : BuildInv d 0 d where
  frame := .refl d
  first := rfl
  scanned := rfl
  copies := rfl
  next := rfl
  new := fun j hj => absurd hj (Nat.not_lt_zero j)
  old := fun _ _ => rfl
  dma := fun j => by simp
  ring := fun j hj => absurd hj (Nat.not_lt_zero j)

/-- An entry still to come does not name one of the new objects. -/
theorem BuildInv.old_ne (hold : DescOld d) (hI : BuildInv d i t) (j : Nat) :
    t.ext.desc i ≠ some (d.kern.next + j) := by
  intro e
  have := hold i _ ((hI.old i (Nat.le_refl i)).symm.trans e)
  omega

/-- The ring up to the new descriptor, to which the descriptor before it is now linked. -/
theorem BuildInv.ring_step (hold : DescOld d) (hI : BuildInv d i t)
    (h : startBuild env i t = .ok t') :
    ∀ j, j < i + 1 → ∃ y,
      t'.kern.coherent (d.kern.next + j) = some ⟨t'.ext.descDma j, [y]⟩ ∧ y.control = descMagic ∧
        (j + 1 < i + 1 → y.nextLo = pciDmaL (t'.ext.descDma (j + 1)) ∧
          y.nextHi = pciDmaH (t'.ext.descDma (j + 1))) := by
  obtain ⟨mem, coh, fs, -, rfl, hnew, hlink, hframe⟩ := startBuild_ok h
  have hnext := hI.next
  have hprev : 0 < i → t.ext.desc (i - 1) = some (d.kern.next + (i - 1)) :=
    fun hi => hI.new (i - 1) (by omega)
  intro j hj
  by_cases hji : j = i
  · subst hji
    refine ⟨{ mem.junk 0 with nextLo := 0, nextHi := 0, bytes := 0, control := descMagic }, ?_,
      rfl, fun hlt => absurd hlt (by omega)⟩
    have := hnew fun hi e => by
      rw [hprev hi, hnext] at e
      have := Option.some.inj e
      omega
    simp only [hnext] at this
    simp only [Function.update_self]
    exact this
  · have hjlt : j < i := by omega
    obtain ⟨y, hy, hcontrol, hnexts⟩ := hI.ring j hjlt
    have hjn : d.kern.next + j ≠ t.kern.next := by omega
    by_cases hlast : j + 1 = i
    · -- this iteration links the descriptor before the new one
      subst hlast
      refine ⟨xdmaDescLink y (some mem.bus), ?_, ?_, fun _ => ?_⟩
      · simp only [Function.update_of_ne hji]
        exact hlink (Nat.succ_pos j) _ _ y (hprev (Nat.succ_pos j)) hjn (hI.old_ne hold j) hy
      · simp only [xdmaDescLink, hcontrol]
        decide
      · simp [xdmaDescLink]
    · have hj1 : j + 1 ≠ i := hlast
      refine ⟨y, ?_, hcontrol, fun _ => ?_⟩
      · simp only [Function.update_of_ne hji]
        refine (hframe _ hjn (hI.old_ne hold j) fun hi e => ?_).trans hy
        rw [hprev hi] at e
        have := Option.some.inj e
        omega
      · simp only [Function.update_of_ne hj1]
        exact hnexts (by omega)

theorem BuildInv.step (hold : DescOld d) (hI : BuildInv d i t) (h : startBuild env i t = .ok t') :
    BuildInv d (i + 1) t' := by
  have hring := hI.ring_step hold h
  obtain ⟨mem, coh, fs, -, rfl, -, -, -⟩ := startBuild_ok h
  have hnext := hI.next
  constructor
  · exact ⟨hI.frame.1, hI.frame.2, hI.frame.3, hI.frame.4, hI.frame.5, hI.frame.6, hI.frame.7⟩
  · exact hI.first
  · exact hI.scanned
  · exact hI.copies
  · simp only [hnext]
    omega
  · intro j hj
    by_cases hji : j = i
    · subst hji
      simp [hnext]
    · simp only [Function.update_of_ne hji]
      exact hI.new j (by omega)
  · intro j hj
    have hji : j ≠ i := by omega
    simp only [Function.update_of_ne hji]
    exact hI.old j (by omega)
  · intro j
    by_cases hji : j = i
    · subst hji
      have hdma := hI.dma j
      simp only [Nat.lt_irrefl, false_and, if_false] at hdma
      simp [hI.old j (Nat.le_refl j), hdma]
    · have : j < i + 1 ↔ j < i := by omega
      simp only [Function.update_of_ne hji, this]
      exact hI.dma j
  · exact hring

/-- What one iteration of the second loop does: it fills a descriptor that is
there and stores it in the copies, which are there as well. -/
theorem startFill_ok (h : startFill c i t = .ok t') :
    ∃ x bus y rest v arr,
      t.ext.desc i = some x ∧ t.kern.coherent x = some ⟨bus, y :: rest⟩ ∧
      t.ext.descCopy = some v ∧ t.kern.copies v = some arr ∧
      t' =
        { t with
          kern := { t.kern with
            coherent := Function.update t.kern.coherent x (some ⟨bus, fillDesc c t.ext i y :: rest⟩)
            copies := Function.update t.kern.copies v
              (some (Function.update arr i (fillDesc c t.ext i y))) } } := by
  unfold startFill at h
  cases hm : t.kern.modifyDesc (t.ext.desc i) 0 (fillDesc c t.ext i) with
  | error e => simp [hm] at h
  | ok k =>
      simp only [hm] at h
      obtain ⟨x, hx, ⟨⟨bus, descs⟩, hblock, hlen, rfl⟩ | ⟨hstray, rfl⟩⟩ := Kernel.modifyDesc_ok hm
      · cases descs with
        | nil => simp at hlen
        | cons y rest =>
            simp only [hx, Kernel.derefDesc, Function.update_self, List.modify_zero_cons,
              List.getElem?_cons_zero, Kernel.storeCopy] at h
            cases hv : t.ext.descCopy with
            | none => simp [hv, liftKern] at h
            | some v =>
                cases harr : t.kern.copies v with
                | none => simp [hv, harr, liftKern] at h
                | some arr =>
                    simp only [hv, harr, liftKern, Except.ok.injEq] at h
                    exact ⟨x, bus, y, rest, v, arr, hx, hblock, rfl, harr, h.symm⟩
      · -- after a stray write there is nothing to copy from
        simp only [hx, Kernel.derefDesc, Kernel.fault_coherent] at h
        cases hb : t.kern.coherent x with
        | none => simp [hb] at h
        | some block =>
            have := List.length_eq_zero_iff.mp (Nat.le_zero.mp (hstray block hb))
            simp [hb, this] at h

/-- The first `i` descriptors and their copies are final, the others are linked. -/
structure FillInv (c : WzConsts) (base : Nat) (d : Driver) (i : Nat) (t : Driver) : Prop where
  ext : t.ext = d.ext
  engine : t.engine = d.engine
  pages : t.kern.pages = d.kern.pages
  mapAt : t.kern.mapAt = d.kern.mapAt
  done : ∀ j, j < i → t.kern.coherent (base + j) = some ⟨d.ext.descDma j, [startDesc c d.ext j]⟩
  copy : ∀ j, j < i → t.copyDesc j = some (startDesc c d.ext j)
  todo : ∀ j, i ≤ j → j < c.nofbufs → ∃ y,
    t.kern.coherent (base + j) = some ⟨d.ext.descDma j, [y]⟩ ∧ y.control = descMagic ∧
      y.nextLo = pciDmaL (d.ext.descDma ((j + 1) % c.nofbufs)) ∧
      y.nextHi = pciDmaH (d.ext.descDma ((j + 1) % c.nofbufs))

/-- Filling a linked descriptor makes it final. -/
theorem fillDesc_eq {ext : WzExt} {y : XdmaDesc} (hcontrol : y.control = descMagic)
    (hlo : y.nextLo = pciDmaL (ext.descDma ((i + 1) % c.nofbufs)))
    (hhi : y.nextHi = pciDmaH (ext.descDma ((i + 1) % c.nofbufs))) :
    fillDesc c ext i y = startDesc c ext i := by
  have : (descMagic &&& ~~~lsByteMask) ||| xdmaDescCompleted = descMagic ||| xdmaDescCompleted := by
    decide
  simp [fillDesc, startDesc, xdmaDescControl, xdmaDescSet, hcontrol, hlo, hhi, this]

theorem FillInv.step {base : Nat} (hdesc : ∀ j, j < c.nofbufs → d.ext.desc j = some (base + j))
    (hi : i < c.nofbufs) (hI : FillInv c base d i t) (h : startFill c i t = .ok t') :
    FillInv c base d (i + 1) t' := by
  obtain ⟨x, bus, y, rest, v, arr, hx, hblock, hv, harr, rfl⟩ := startFill_ok h
  obtain ⟨y', hy', hcontrol, hlo, hhi⟩ := hI.todo i (Nat.le_refl i) hi
  obtain rfl : x = base + i := by
    rw [hI.ext, hdesc i hi] at hx
    exact (Option.some.inj hx).symm
  rw [hblock] at hy'
  simp only [Option.some.injEq, DescBlock.mk.injEq, List.cons.injEq] at hy'
  obtain ⟨rfl, rfl, rfl⟩ := hy'
  have hfill : fillDesc c t.ext i y = startDesc c d.ext i := by
    rw [hI.ext]
    exact fillDesc_eq hcontrol hlo hhi
  constructor
  · exact hI.ext
  · exact hI.engine
  · exact hI.pages
  · exact hI.mapAt
  · intro j hj
    by_cases hji : j = i
    · subst hji
      simp [hfill]
    · have : base + j ≠ base + i := by omega
      simp only [Function.update_of_ne this]
      exact hI.done j (by omega)
  · intro j hj
    by_cases hji : j = i
    · subst hji
      simp [copyDesc, hv, hfill]
    · have hprev := hI.copy j (by omega)
      simp only [copyDesc, hv, Option.bind_some, harr, Option.map_some] at hprev
      simp only [copyDesc, hv, Option.bind_some, Function.update_self, Option.map_some,
        Function.update_of_ne hji]
      exact hprev
  · intro j hj hjn
    have : base + j ≠ base + i := by omega
    simp only [Function.update_of_ne this]
    exact hI.todo j (by omega) hjn

/-! ## The end of START -/

/-- Queueing a transfer marks it as submitted and leaves the engine running, unless
a shutdown was requested. -/
theorem transferQueue_ok {x : Nat} {rc : Int} (h : d.transferQueue x = .ok (d', rc)) :
    ∃ tr, d.kern.transfers x = some tr ∧
      (d' = d ∨ ∃ e : XdmaEngine,
        e.running = true ∧ e.transferList = d.engine.transferList ++ [x] ∧
        e.xdmaPerf = d.engine.xdmaPerf ∧
        d' = { d with
          kern := { d.kern with
            transfers := Function.update d.kern.transfers x (some { tr with state := .submitted }) }
          engine := e }) := by
  unfold transferQueue at h
  cases hx : d.kern.transfers x with
  | none => simp [hx] at h
  | some tr =>
      refine ⟨tr, rfl, ?_⟩
      simp only [hx] at h
      by_cases hnum : tr.descNum = 0
      · simp [hnum] at h
      rw [if_neg hnum] at h
      by_cases hshut : d.engine.shutdown &&& engineShutdownRequest ≠ 0
      · rw [if_pos hshut] at h
        simp only [Except.ok.injEq, Prod.mk.injEq] at h
        exact .inl h.1.symm
      rw [if_neg hshut] at h
      right
      by_cases hrun : d.engine.running = true
      · simp only [hrun, if_true, Except.ok.injEq, Prod.mk.injEq] at h
        obtain ⟨rfl, -⟩ := h
        refine ⟨_, ?_, ?_, ?_, rfl⟩ <;> rfl
      · simp only [hrun, if_false, engineStart, Bool.false_eq_true] at h
        cases hlist : d.engine.transferList ++ [x] with
        | nil => simp at hlist
        | cons y ys =>
            simp only [hlist] at h
            cases hy : Function.update d.kern.transfers x (some { tr with state := .submitted }) y with
            | none => simp [hy] at h
            | some try' =>
                simp only [hy, Except.ok.injEq, Prod.mk.injEq] at h
                obtain ⟨rfl, -⟩ := h
                refine ⟨_, ?_, ?_, ?_, rfl⟩ <;> rfl

/-- The transfer of a successful START is a new object, and the engine runs with it
at the end of its queue unless a shutdown was requested. -/
theorem startQueue_ok (h : startQueue c env d = .ok d') :
    ∃ tr : Nat → Option XdmaTransfer, ∃ e,
      d' =
        { d with
          kern := { d.kern with next := d.kern.next + 1, transfers := tr }
          engine := e
          ext := { d.ext with transfer := some d.kern.next } } ∧
      (∀ y, y ≠ d.kern.next → tr y = d.kern.transfers y) ∧
      (∃ x, tr d.kern.next = some x ∧ x.wz = true) ∧
      (e = d.engine ∨
        e.running = true ∧ e.transferList = d.engine.transferList ++ [d.kern.next] ∧
          e.xdmaPerf = d.engine.xdmaPerf) := by
  unfold startQueue Kernel.kzallocTransfer at h
  cases henv : env.transfer with
  | false => simp [henv] at h
  | true =>
      simp only [henv, if_true] at h
      cases hq : transferQueue
          { d with
            kern := { d.kern with
              next := d.kern.next + 1
              transfers := Function.update d.kern.transfers d.kern.next (some (startTransfer c d)) }
            ext := { d.ext with transfer := some d.kern.next } } d.kern.next with
      | error e => simp [hq] at h
      | ok r =>
          obtain ⟨d1, rc⟩ := r
          simp only [hq, Except.ok.injEq] at h
          obtain ⟨tr, htr, rfl | ⟨e, he, hlist, hperf, rfl⟩⟩ := transferQueue_ok hq
          · refine ⟨_, _, h.symm, fun y hy => ?_, ⟨startTransfer c d, ?_, rfl⟩, .inl rfl⟩
            · simp [Function.update_of_ne hy]
            · simp
          · simp only [Function.update_self, Option.some.injEq] at htr
            refine ⟨_, e, h.symm, fun y hy => ?_, ⟨_, Function.update_self _ _ _, ?_⟩,
              .inr ⟨he, hlist, hperf⟩⟩
            · simp [Function.update_of_ne hy]
            · rw [← htr]
              rfl

/-! ## The exits of START -/

theorem liftKern_ret {k : Except Crash Kernel} {rc : Int} : d.liftKern k ≠ .error (.ret t rc) := by
  cases k <;> simp [liftKern]

/-- The first loop is left when a descriptor cannot be allocated. -/
theorem startBuild_ret {rc : Int} (h : startBuild env i d = .error (.ret t rc)) :
    t = startClean i d ∧ rc = -enomem := by
  unfold startBuild at h
  cases hmem : env.coherent i with
  | none =>
      simp only [Kernel.xdmaDescAlloc, hmem, Option.map_none, Except.error.injEq,
        Exit.ret.injEq] at h
      exact ⟨h.1.symm, h.2.symm⟩
  | some mem =>
      simp only [Kernel.xdmaDescAlloc, hmem, Option.map_some] at h
      by_cases hi : 0 < i
      · rw [if_pos hi] at h
        exact absurd h liftKern_ret
      · simp [hi] at h

theorem startFill_ret {rc : Int} : startFill c i d ≠ .error (.ret t rc) := by
  intro h
  unfold startFill at h
  cases hm : d.kern.modifyDesc (d.ext.desc i) 0 (fillDesc c d.ext i) with
  | error e => simp [hm] at h
  | ok k =>
      cases hd : k.derefDesc (d.ext.desc i) 0 with
      | error e => simp [hm, hd] at h
      | ok x =>
          simp only [hm, hd] at h
          exact absurd h liftKern_ret

/-- The last exit gives the descriptors back. -/
theorem startQueue_ret {rc : Int} (h : startQueue c env d = .error (.ret t rc)) :
    t = upTo startUndo c.nofbufs { d with ext := { d.ext with transfer := none } } ∧
      rc = -enomem := by
  unfold startQueue Kernel.kzallocTransfer at h
  cases henv : env.transfer with
  | false =>
      simp only [henv, Bool.false_eq_true, if_false, Except.error.injEq, Exit.ret.injEq] at h
      exact ⟨h.1.symm, h.2.symm⟩
  | true =>
      simp only [henv, if_true] at h
      split at h <;> simp at h

/-- How `START` can end: refused, out of descriptors, out of memory for the
transfer, or with the transfer queued. -/
theorem ioctlDoWzStart_ends {rc : Int} (h : ioctlDoWzStart c env d = .ok (d', rc)) :
    (d.ext.bufReady = false ∧ d' = d ∧ rc = -einval) ∨
    (d.ext.bufReady = true ∧ ∃ t i,
      forUpTo (startBuild env) i
          { d with ext := { d.ext with blockFirstDesc := 0, blockScannedDesc := 0 } } = .ok t ∧
        i < c.nofbufs ∧ d' = startClean i t ∧ rc = -enomem) ∨
    d.ext.bufReady = true ∧ ∃ t k t',
      forUpTo (startBuild env) c.nofbufs
          { d with ext := { d.ext with blockFirstDesc := 0, blockScannedDesc := 0 } } = .ok t ∧
      t.kern.modifyDesc (t.ext.desc (c.nofbufs - 1)) 0 (xdmaDescLink · (some (t.ext.descDma 0))) =
        .ok k ∧
      forUpTo (startFill c) c.nofbufs { t with kern := k } = .ok t' ∧
      ((startQueue c env t' = .ok d' ∧ rc = 0) ∨
        (d' = upTo startUndo c.nofbufs { t' with ext := { t'.ext with transfer := none } } ∧
          rc = -enomem)) := by
  unfold ioctlDoWzStart startBody at h
  cases hr : d.ext.bufReady with
  | false =>
      simp only [hr, Bool.false_eq_true, if_false, Except.ok.injEq, Prod.mk.injEq] at h
      exact .inl ⟨rfl, h.1.symm, h.2.symm⟩
  | true =>
      right
      rw [if_pos hr] at h
      dsimp only at h
      cases hb : forUpTo (startBuild env) c.nofbufs
          { d with ext := { d.ext with blockFirstDesc := 0, blockScannedDesc := 0 } } with
      | error e =>
          simp only [hb] at h
          cases e with
          | crash e => simp at h
          | ret t rc' =>
              simp only [Except.ok.injEq, Prod.mk.injEq] at h
              obtain ⟨rfl, rfl⟩ := h
              obtain ⟨i, t', hi, hpre, hret⟩ := forUpTo_error
                (fun i t => forUpTo (startBuild env) i
                  { d with ext := { d.ext with blockFirstDesc := 0, blockScannedDesc := 0 } } = .ok t)
                rfl (fun i t t' _ hI hbody => by rw [forUpTo_succ, hI]; exact hbody) hb
              obtain ⟨rfl, rfl⟩ := startBuild_ret hret
              exact .inl ⟨rfl, t', i, hpre, hi, rfl, rfl⟩
      | ok t =>
          right
          simp only [hb] at h
          cases hm : t.kern.modifyDesc (t.ext.desc (c.nofbufs - 1)) 0
              (xdmaDescLink · (some (t.ext.descDma 0))) with
          | error e => simp [hm, liftKern] at h
          | ok k =>
              simp only [hm, liftKern] at h
              cases hf : forUpTo (startFill c) c.nofbufs { t with kern := k } with
              | error e =>
                  simp only [hf] at h
                  cases e with
                  | crash e => simp at h
                  | ret t1 rc' =>
                      obtain ⟨i, t2, -, -, hret⟩ := forUpTo_error (fun _ _ => True) trivial
                        (fun _ _ _ _ _ _ => trivial) hf
                      exact absurd hret startFill_ret
              | ok t' =>
                  simp only [hf] at h
                  refine ⟨rfl, t, k, t', rfl, hm, hf, ?_⟩
                  cases hq : startQueue c env t' with
                  | ok t1 =>
                      simp only [hq, Except.ok.injEq, Prod.mk.injEq] at h
                      exact .inl ⟨by rw [h.1], h.2.symm⟩
                  | error e =>
                      cases e with
                      | crash e => simp [hq] at h
                      | ret t1 rc' =>
                          simp only [hq, Except.ok.injEq, Prod.mk.injEq] at h
                          obtain ⟨rfl, rfl⟩ := h
                          exact .inr (startQueue_ret hq)

/-- An invariant of the parts of `START` is an invariant of `START`, whichever way it
ends. -/
theorem ioctlDoWzStart_invariant (P : Driver → Prop)
    (hreset : ∀ t, P t →
      P { t with ext := { t.ext with blockFirstDesc := 0, blockScannedDesc := 0 } })
    (hclean : ∀ i t, i < c.nofbufs → P t → P (startClean i t))
    (hbuild : ∀ i t t', i < c.nofbufs → P t → startBuild env i t = .ok t' → P t')
    (hlink : ∀ t k x, P t → t.kern.modifyDesc x 0 (xdmaDescLink · (some (t.ext.descDma 0))) = .ok k →
      P { t with kern := k })
    (hfill : ∀ i t t', i < c.nofbufs → P t → startFill c i t = .ok t' → P t')
    (hqueue : ∀ t t', P t → startQueue c env t = .ok t' → P t')
    (hdrop : ∀ t, P t → P { t with ext := { t.ext with transfer := none } })
    (hundo : ∀ i t, i < c.nofbufs → P t → P (startUndo i t))
    {rc : Int} (h : ioctlDoWzStart c env d = .ok (d', rc)) (hP : P d) : P d' := by
  have hloop : ∀ n t, n ≤ c.nofbufs → forUpTo (startBuild env) n
      { d with ext := { d.ext with blockFirstDesc := 0, blockScannedDesc := 0 } } = .ok t → P t :=
    fun n t hn => forUpTo_ok (fun _ => P) (hreset d hP)
      fun i t t' hi hI hb => hbuild i t t' (by omega) hI hb
  obtain ⟨-, rfl, -⟩ | ⟨-, t, i, ht, hi, rfl, -⟩ | ⟨-, t, k, t', ht, hk, hf, hend⟩ :=
    ioctlDoWzStart_ends h
  · exact hP
  · exact hclean i t hi (hloop i t (Nat.le_of_lt hi) ht)
  · have hfilled : P t' := forUpTo_ok (fun _ => P)
      (hlink t k _ (hloop c.nofbufs t (Nat.le_refl _) ht) hk)
      (fun i t t' hi hI hb => hfill i t t' hi hI hb) hf
    obtain ⟨hq, -⟩ | ⟨rfl, -⟩ := hend
    · exact hqueue t' d' hfilled hq
    · exact upTo_invariant (fun _ => P) (hdrop t' hfilled) hundo

/-! ## The ring after START -/

/-- What holds when `START` returns 0. -/
structure Started (c : WzConsts) (d d' : Driver) : Prop where
  ready : d.ext.bufReady = true
  frame : StartFrame d d'
  first : d'.ext.blockFirstDesc = 0
  scanned : d'.ext.blockScannedDesc = 0
  desc : ∀ j, j < c.nofbufs → d'.ext.desc j = some (d.kern.next + j)
  ring : ∀ j, j < c.nofbufs →
    d'.kern.coherent (d.kern.next + j) = some ⟨d'.ext.descDma j, [startDesc c d'.ext j]⟩
  copy : ∀ j, j < c.nofbufs → d'.copyDesc j = some (startDesc c d'.ext j)
  dma : ∀ j, j < c.nofbufs → d'.ext.bufDmaT j =
    if (d.ext.desc j).isSome then 0 else d.ext.bufDmaT j

theorem Started.ringDesc_eq (h : Started c d d') {j : Nat} (hj : j < c.nofbufs) :
    d'.ringDesc j = some (startDesc c d'.ext j) := by
  simp [ringDesc, Kernel.derefDesc, h.desc j hj, h.ring j hj, Except.toOption]

/-- Closing the ring completes the links. -/
theorem BuildInv.close (hpos : 0 < c.nofbufs) (hI : BuildInv d c.nofbufs t) {k : Kernel}
    (h : t.kern.modifyDesc (t.ext.desc (c.nofbufs - 1)) 0
      (xdmaDescLink · (some (t.ext.descDma 0))) = .ok k) :
    FillInv c d.kern.next { t with kern := k } 0 { t with kern := k } ∧
      k.pages = t.kern.pages ∧ k.mapAt = t.kern.mapAt := by
  have hlast : c.nofbufs - 1 < c.nofbufs := by omega
  obtain ⟨y, hy, hcontrol, -⟩ := hI.ring _ hlast
  obtain ⟨x, hx, ⟨block, hblock, -, rfl⟩ | ⟨hstray, -⟩⟩ := Kernel.modifyDesc_ok h
  · rw [hI.new _ hlast, Option.some.injEq] at hx
    subst hx
    rw [hy, Option.some.injEq] at hblock
    subst hblock
    refine ⟨⟨rfl, rfl, rfl, rfl, fun j hj => absurd hj (Nat.not_lt_zero j),
      fun j hj => absurd hj (Nat.not_lt_zero j), ?_⟩, rfl, rfl⟩
    intro j _ hj
    by_cases hjl : j = c.nofbufs - 1
    · subst hjl
      have hmod : (c.nofbufs - 1 + 1) % c.nofbufs = 0 := by
        rw [Nat.sub_add_cancel hpos, Nat.mod_self]
      refine ⟨xdmaDescLink y (some (t.ext.descDma 0)), by simp, ?_, ?_, ?_⟩
      · simp only [xdmaDescLink, hcontrol]
        decide
      · simp [xdmaDescLink, hmod]
      · simp [xdmaDescLink, hmod]
    · obtain ⟨z, hz, hzc, hzn⟩ := hI.ring j hj
      have hne : d.kern.next + j ≠ d.kern.next + (c.nofbufs - 1) := by omega
      have hmod : (j + 1) % c.nofbufs = j + 1 := Nat.mod_eq_of_lt (by omega)
      obtain ⟨h1, h2⟩ := hzn (by omega)
      refine ⟨z, ?_, hzc, ?_, ?_⟩
      · simp only [Function.update_of_ne hne]
        exact hz
      · simpa only [hmod] using h1
      · simpa only [hmod] using h2
  · rw [hI.new _ hlast, Option.some.injEq] at hx
    have := hstray _ (hx ▸ hy)
    simp at this

/-- The ring after the two loops of `START`. -/
theorem filled_of_loops (hpos : 0 < c.nofbufs) (hold : DescOld d) {k : Kernel}
    (hbuild : forUpTo (startBuild env) c.nofbufs d = .ok t)
    (hclose : t.kern.modifyDesc (t.ext.desc (c.nofbufs - 1)) 0
      (xdmaDescLink · (some (t.ext.descDma 0))) = .ok k)
    (hfill : forUpTo (startFill c) c.nofbufs { t with kern := k } = .ok t') :
    BuildInv d c.nofbufs t ∧ FillInv c d.kern.next { t with kern := k } c.nofbufs t' ∧
      k.pages = t.kern.pages ∧ k.mapAt = t.kern.mapAt := by
  have hI : BuildInv d c.nofbufs t := forUpTo_ok (BuildInv d) (buildInv_zero d)
    (fun i t t' _ hI hb => BuildInv.step hold hI hb) hbuild
  obtain ⟨hF0, hpages, hmap⟩ := hI.close hpos hclose
  have hF := forUpTo_ok (FillInv c d.kern.next { t with kern := k }) hF0
    (fun i t t' hi hF hb => FillInv.step hI.new hi hF hb) hfill
  exact ⟨hI, hF, hpages, hmap⟩

/-- When `START` returns 0, the ring and its copy are programmed. -/
theorem start_ok (hpos : 0 < c.nofbufs) (hold : DescOld d)
    (h : ioctlDoWzStart c env d = .ok (d', 0)) : Started c d d' := by
  obtain ⟨-, -, hrc⟩ | ⟨-, -, -, -, -, -, hrc⟩ | ⟨hr, t, k, t', hbuild, hclose, hfill, hend⟩ :=
    ioctlDoWzStart_ends h
  · exact absurd hrc (by decide)
  · exact absurd hrc (by decide)
  obtain ⟨hI, hF, hpages, hmap⟩ := filled_of_loops hpos (by exact hold) hbuild hclose hfill
  have hnew : ∀ j, j < c.nofbufs → t.ext.desc j = some (d.kern.next + j) := hI.new
  obtain ⟨hq, -⟩ | ⟨-, hrc⟩ := hend
  · obtain ⟨tr, e, rfl, -⟩ := startQueue_ok hq
    have hext : t'.ext = t.ext := hF.ext
    have hsame : ∀ j, startDesc c { t'.ext with transfer := some t'.kern.next } j =
        startDesc c t.ext j := fun j => by rw [hext]; rfl
    constructor
    · exact hr
    · constructor
      · exact (hF.pages.trans hpages).trans hI.frame.pages
      · exact (hF.mapAt.trans hmap).trans hI.frame.mapAt
      · simpa only [hext] using hI.frame.bufPage
      · simpa only [hext] using hI.frame.descCopy
      · simpa only [hext] using hI.frame.bufReady
      · simpa only [hext] using hI.frame.kfifo
      · simpa only [hext] using hI.frame.kfifoSize
    · simpa only [hext] using hI.first
    · simpa only [hext] using hI.scanned
    · simpa only [hext] using hnew
    · intro j hj
      rw [hsame j]
      simpa only [hext] using hF.done j hj
    · intro j hj
      rw [hsame j]
      exact hF.copy j hj
    · intro j hj
      have := hI.dma j
      simp only [hj, true_and] at this
      simpa only [hext] using this
  · exact absurd hrc (by decide)

end Driver
end WzXdma
