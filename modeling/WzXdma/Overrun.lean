import WzXdma.Acquisition
import WzXdma.Programmed

/-!
# Overrun protection

The writeback of a completed descriptor lands on the descriptor itself and destroys
the magic in its control word, so the device stops when it comes round to a
descriptor that has not been restored.  `CONFIRM` restores a descriptor word by word
while the device runs, with the control word last.

`RingSafe` is the invariant: a descriptor is the programmed one or has no magic, and
in the second case it belongs to at most one `CONFIRM` in progress.
-/

namespace WzXdma

open Lib.Cyclic

/-- `CONFIRM` is called on completed descriptors that nobody has confirmed and nobody is
confirming. -/
def confirmsCompleted (c : WzConsts) (s : Acq) : AcqAct → Prop
  | .confirm _ first last =>
      ∀ i, Covers c.nofbufs first last i → s.unconfirmed i = true ∧
        ∀ thread call, s.confirms thread = some call → ¬Covers c.nofbufs call.cur call.last i
  | _ => True

/-- A call of `CONFIRM` has its range to itself and has written the words it says. -/
structure CallOk (c : WzConsts) (s : Acq) (call : ConfirmCall) : Prop where
  cur_lt : call.cur < c.nofbufs
  last_lt : call.last < c.nofbufs
  word_lt : call.word < restoreOrder.length
  pending : ∀ i, Covers c.nofbufs call.cur call.last i → s.unconfirmed i = true
  bytes : 0 < call.word → (s.desc call.cur).bytes = (s.descCopy call.cur).bytes

structure RingSafe (c : WzConsts) (s : Acq) : Prop where
  pos_lt : s.pos < c.nofbufs
  copy : ∀ i, i < c.nofbufs → (s.descCopy i).Accepted
  links : ∀ i, i < c.nofbufs → (s.desc i).SameLinks (s.descCopy i)
  free : ∀ i, i < c.nofbufs → s.unconfirmed i = false → s.desc i = s.descCopy i
  taken : ∀ i, i < c.nofbufs → s.unconfirmed i = true → ¬(s.desc i).Accepted
  calls : ∀ thread call, s.confirms thread = some call → CallOk c s call
  disjoint : ∀ t₁ t₂ call₁ call₂, t₁ ≠ t₂ → s.confirms t₁ = some call₁ →
    s.confirms t₂ = some call₂ → ∀ i, Covers c.nofbufs call₁.cur call₁.last i →
      ¬Covers c.nofbufs call₂.cur call₂.last i

/-! ## One restored word -/

/-- The control word is the last of the eight. -/
theorem restoreOrder_control_iff {k : Nat} {w : DescWord} (h : restoreOrder[k]? = some w) :
    w = .control ↔ k + 1 = restoreOrder.length := by
  rcases k with _ | _ | _ | _ | _ | _ | _ | _ | k <;> simp [restoreOrder] at h ⊢ <;>
    first | exact h.symm | (rw [← h]; decide)

theorem restoreOrder_bytes_iff {k : Nat} {w : DescWord} (h : restoreOrder[k]? = some w) :
    w = .bytes ↔ k = 0 := by
  rcases k with _ | _ | _ | _ | _ | _ | _ | _ | k <;> simp [restoreOrder] at h ⊢ <;>
    first | exact h.symm | (rw [← h]; decide)

theorem XdmaDesc.copyWord_control {d e : XdmaDesc} {w : DescWord} (hw : w ≠ .control) :
    (d.copyWord e w).control = d.control := by
  cases w <;> first | rfl | exact absurd rfl hw

theorem XdmaDesc.copyWord_bytes {d e : XdmaDesc} {w : DescWord}
    (h : w = .bytes ∨ d.bytes = e.bytes) : (d.copyWord e w).bytes = e.bytes := by
  cases w with
  | bytes => rfl
  | _ => exact h.resolve_left (by decide)

/-- Restoring the control word completes a descriptor whose length is restored. -/
theorem XdmaDesc.copyWord_last {d e : XdmaDesc} (hl : d.SameLinks e) (hb : d.bytes = e.bytes) :
    d.copyWord e .control = e :=
  eq_of_sameLinks (sameLinks_copyWord hl .control) rfl hb

theorem ConfirmCall.next_word {c : WzConsts} {call : ConfirmCall}
    (h : call.word + 1 < restoreOrder.length) :
    call.next c = some { call with word := call.word + 1 } := if_pos h

theorem ConfirmCall.next_desc {c : WzConsts} {call : ConfirmCall}
    (h : call.word + 1 = restoreOrder.length) :
    call.next c =
      if call.cur = call.last then none else some ⟨nextDesc c.nofbufs call.cur, call.last, 0⟩ :=
  if_neg (by omega)

namespace RingSafe

variable {c : RingConsts} {bus : DmaAddr → Nat} {s s' : Acq}

/-- The device accepts exactly the descriptors that are not waiting for a confirmation. -/
theorem accepted_iff (h : RingSafe c.toWzConsts s) {i : Nat} (hi : i < c.nofbufs) :
    (s.desc i).Accepted ↔ s.unconfirmed i = false := by
  constructor
  · intro ha
    by_contra hu
    exact h.taken i hi (by simpa using hu) ha
  · intro hu
    rw [h.free i hi hu]
    exact h.copy i hi

theorem complete (h : RingSafe c.toWzConsts s) (hacc : (s.desc s.pos).Accepted) (x : Completion) :
    RingSafe c.toWzConsts (s.complete c.toWzConsts bus x) := by
  have hfree : s.unconfirmed s.pos = false := (h.accepted_iff h.pos_lt).mp hacc
  -- a descriptor that is being confirmed is not the one the device fetched
  have hother : ∀ thread call, s.confirms thread = some call → call.cur ≠ s.pos := by
    intro thread call hcall heq
    have hok := h.calls thread call hcall
    have := hok.pending call.cur (covers_first hok.cur_lt)
    rw [heq, hfree] at this
    cases this
  constructor
  · exact Nat.mod_lt _ c.nofbufs_pos
  · exact h.copy
  · intro i hi
    by_cases hip : i = s.pos
    · subst hip
      simp only [Acq.complete, Function.update_self]
      exact XdmaDesc.sameLinks_writeback (h.links _ hi) x.eop x.length
    · simp only [Acq.complete, Function.update_of_ne hip]
      exact h.links i hi
  · intro i hi hu
    by_cases hip : i = s.pos
    · subst hip
      simp [Acq.complete] at hu
    · simp only [Acq.complete, Function.update_of_ne hip] at hu ⊢
      exact h.free i hi hu
  · intro i hi hu
    by_cases hip : i = s.pos
    · subst hip
      simp only [Acq.complete, Function.update_self]
      exact writeback_not_accepted _ _ _
    · simp only [Acq.complete, Function.update_of_ne hip] at hu ⊢
      exact h.taken i hi hu
  · intro thread call hcall
    have hok := h.calls thread call hcall
    refine ⟨hok.cur_lt, hok.last_lt, hok.word_lt, fun i hi => ?_, fun hw => ?_⟩
    · by_cases hip : i = s.pos
      · subst hip
        exact Function.update_self ..
      · simp only [Acq.complete, Function.update_of_ne hip]
        exact hok.pending i hi
    · simp only [Acq.complete, Function.update_of_ne (hother thread call hcall)]
      exact hok.bytes hw
  · exact h.disjoint

/-- What the next call still has to restore, the call has to restore as well. -/
theorem covers_of_next {call call' : ConfirmCall} (hcur : call.cur < c.nofbufs)
    (hlast : call.last < c.nofbufs) (hnext : call.next c.toWzConsts = some call') {i : Nat}
    (hi : Covers c.nofbufs call'.cur call'.last i) : Covers c.nofbufs call.cur call.last i := by
  unfold ConfirmCall.next at hnext
  split at hnext
  · rw [← Option.some.inj hnext] at hi
    exact hi
  · split at hnext
    · cases hnext
    · rename_i hne
      rw [← Option.some.inj hnext, nextDesc_eq] at hi
      exact (covers_next_iff hcur hlast hne).mpr (.inr hi)

theorem links_restored (h : RingSafe c.toWzConsts s) (j : Nat) (w : DescWord) {i : Nat}
    (hi : i < c.nofbufs) :
    (Function.update s.desc j ((s.desc j).copyWord (s.descCopy j) w) i).SameLinks (s.descCopy i) := by
  by_cases hij : i = j
  · subst hij
    rw [Function.update_self]
    exact XdmaDesc.sameLinks_copyWord (h.links i hi) w
  · rw [Function.update_of_ne hij]
    exact h.links i hi

/-- Ranges that shrink stay disjoint. -/
theorem disjoint_next (h : RingSafe c.toWzConsts s) {thread : Nat} {call : ConfirmCall}
    (hcall : s.confirms thread = some call) {t₁ t₂ : Nat} {call₁ call₂ : ConfirmCall}
    (hne : t₁ ≠ t₂)
    (h₁ : Function.update s.confirms thread (call.next c.toWzConsts) t₁ = some call₁)
    (h₂ : Function.update s.confirms thread (call.next c.toWzConsts) t₂ = some call₂) {i : Nat}
    (hi₁ : Covers c.nofbufs call₁.cur call₁.last i) : ¬Covers c.nofbufs call₂.cur call₂.last i := by
  have hok := h.calls thread call hcall
  -- every call of the new state covers part of what it covered before
  have hold : ∀ t call', Function.update s.confirms thread (call.next c.toWzConsts) t = some call' →
      ∃ call'', s.confirms t = some call'' ∧ ∀ i, Covers c.nofbufs call'.cur call'.last i →
        Covers c.nofbufs call''.cur call''.last i := by
    intro t call' ht
    by_cases htt : t = thread
    · subst htt
      rw [Function.update_self] at ht
      exact ⟨call, hcall, fun i => covers_of_next hok.cur_lt hok.last_lt ht⟩
    · rw [Function.update_of_ne htt] at ht
      exact ⟨call', ht, fun i hi => hi⟩
  obtain ⟨call₁', hc₁, hsub₁⟩ := hold t₁ call₁ h₁
  obtain ⟨call₂', hc₂, hsub₂⟩ := hold t₂ call₂ h₂
  exact fun hi₂ => h.disjoint t₁ t₂ call₁' call₂' hne hc₁ hc₂ i (hsub₁ i hi₁) (hsub₂ i hi₂)

/-- The calls of the other threads are elsewhere. -/
theorem other_call (h : RingSafe c.toWzConsts s) {thread : Nat} {call : ConfirmCall}
    (hcall : s.confirms thread = some call) {t : Nat} {call' : ConfirmCall} (ht : t ≠ thread)
    (hcall' : s.confirms t = some call') :
    ¬Covers c.nofbufs call'.cur call'.last call.cur ∧ call'.cur ≠ call.cur := by
  have hfar := h.disjoint thread t call call' (Ne.symm ht) hcall hcall' call.cur
    (covers_first (h.calls thread call hcall).cur_lt)
  exact ⟨hfar, fun e => hfar (e ▸ covers_first (h.calls t call' hcall').cur_lt)⟩

/-- A word before the last one leaves the descriptor without its magic. -/
theorem restore_word (h : RingSafe c.toWzConsts s) {thread : Nat} {call : ConfirmCall}
    {w : DescWord} (hcall : s.confirms thread = some call)
    (hw : restoreOrder[call.word]? = some w) (hctrl : w ≠ .control) :
    RingSafe c.toWzConsts
      { s with
        desc := Function.update s.desc call.cur
          ((s.desc call.cur).copyWord (s.descCopy call.cur) w)
        confirms := Function.update s.confirms thread (call.next c.toWzConsts) } := by
  have hok := h.calls thread call hcall
  have hpend : s.unconfirmed call.cur = true := hok.pending _ (covers_first hok.cur_lt)
  have hword : call.word + 1 < restoreOrder.length := by
    have := mt (restoreOrder_control_iff hw).mpr hctrl
    have := hok.word_lt
    omega
  refine ⟨h.pos_lt, h.copy, fun i hi => h.links_restored call.cur w hi, fun i hi hu => ?_,
    fun i hi hu => ?_, fun t call' hcall' => ?_,
    fun _ _ _ _ hne h₁ h₂ _ => h.disjoint_next hcall hne h₁ h₂⟩
  · have hic : i ≠ call.cur := by
      rintro rfl
      rw [hpend] at hu
      cases hu
    simp only [Function.update_of_ne hic]
    exact h.free i hi hu
  · by_cases hic : i = call.cur
    · subst hic
      simp only [Function.update_self, XdmaDesc.Accepted, XdmaDesc.copyWord_control hctrl]
      exact h.taken _ hi hu
    · simp only [Function.update_of_ne hic]
      exact h.taken i hi hu
  · by_cases ht : t = thread
    · subst ht
      simp only [Function.update_self, ConfirmCall.next_word hword, Option.some.injEq] at hcall'
      subst hcall'
      refine ⟨hok.cur_lt, hok.last_lt, hword, hok.pending, fun _ => ?_⟩
      simp only [Function.update_self]
      refine XdmaDesc.copyWord_bytes ?_
      rcases Nat.eq_zero_or_pos call.word with h0 | h0
      · exact .inl ((restoreOrder_bytes_iff hw).mpr h0)
      · exact .inr (hok.bytes h0)
    · simp only [Function.update_of_ne ht] at hcall'
      have hok' := h.calls t call' hcall'
      refine ⟨hok'.cur_lt, hok'.last_lt, hok'.word_lt, hok'.pending, fun h0 => ?_⟩
      simp only [Function.update_of_ne (h.other_call hcall ht hcall').2]
      exact hok'.bytes h0

/-- The control word makes the descriptor the programmed one, and frees it for the
device. -/
theorem restore_control (h : RingSafe c.toWzConsts s) {thread : Nat} {call : ConfirmCall}
    (hcall : s.confirms thread = some call) (hw : restoreOrder[call.word]? = some .control) :
    RingSafe c.toWzConsts
      { s with
        desc := Function.update s.desc call.cur
          ((s.desc call.cur).copyWord (s.descCopy call.cur) .control)
        confirms := Function.update s.confirms thread (call.next c.toWzConsts)
        unconfirmed := Function.update s.unconfirmed call.cur false } := by
  have hok := h.calls thread call hcall
  have hlast := (restoreOrder_control_iff hw).mp rfl
  have hdone : (s.desc call.cur).copyWord (s.descCopy call.cur) .control = s.descCopy call.cur := by
    refine XdmaDesc.copyWord_last (h.links _ hok.cur_lt) (hok.bytes ?_)
    have : restoreOrder.length = 8 := rfl
    omega
  refine ⟨h.pos_lt, h.copy, fun i hi => h.links_restored call.cur .control hi, fun i hi hu => ?_,
    fun i hi hu => ?_, fun t call' hcall' => ?_,
    fun _ _ _ _ hne h₁ h₂ _ => h.disjoint_next hcall hne h₁ h₂⟩
  · by_cases hic : i = call.cur
    · subst hic
      simp only [Function.update_self]
      exact hdone
    · simp only [Function.update_of_ne hic] at hu ⊢
      exact h.free i hi hu
  · by_cases hic : i = call.cur
    · subst hic
      simp at hu
    · simp only [Function.update_of_ne hic] at hu ⊢
      exact h.taken i hi hu
  · by_cases ht : t = thread
    · subst ht
      simp only [Function.update_self, ConfirmCall.next_desc hlast] at hcall'
      split at hcall'
      · cases hcall'
      · rename_i hne
        rw [Option.some.injEq] at hcall'
        subst hcall'
        refine ⟨?_, hok.last_lt, by simp [restoreOrder], fun i hi => ?_,
          fun h0 => absurd h0 (Nat.lt_irrefl 0)⟩
        · rw [nextDesc_eq]
          exact Nat.mod_lt _ c.nofbufs_pos
        · rw [nextDesc_eq] at hi
          have hic : i ≠ call.cur := by
            rintro rfl
            exact not_covers_next hok.cur_lt hok.last_lt hne hi
          simp only [Function.update_of_ne hic]
          exact hok.pending i ((covers_next_iff hok.cur_lt hok.last_lt hne).mpr (.inr hi))
    · simp only [Function.update_of_ne ht] at hcall'
      have hok' := h.calls t call' hcall'
      obtain ⟨hfar, hcur⟩ := h.other_call hcall ht hcall'
      refine ⟨hok'.cur_lt, hok'.last_lt, hok'.word_lt, fun i hi => ?_, fun h0 => ?_⟩
      · have hic : i ≠ call.cur := by
          rintro rfl
          exact hfar hi
        simp only [Function.update_of_ne hic]
        exact hok'.pending i hi
      · simp only [Function.update_of_ne hcur]
        exact hok'.bytes h0

theorem confirm (h : RingSafe c.toWzConsts s) {thread first last : Nat}
    (hok : confirmsCompleted c.toWzConsts s (.confirm thread first last))
    (hs : s.confirm c.toWzConsts thread first last = some s') : RingSafe c.toWzConsts s' := by
  obtain ⟨hidle, hfirst, hlast, rfl⟩ := Acq.confirm_cases hs
  refine ⟨h.pos_lt, h.copy, h.links, h.free, h.taken, fun t call hcall => ?_, ?_⟩
  · by_cases ht : t = thread
    · subst ht
      simp only [Function.update_self, Option.some.injEq] at hcall
      subst hcall
      exact ⟨hfirst, hlast, by simp [restoreOrder], fun i hi => (hok i hi).1,
        fun h0 => absurd h0 (Nat.lt_irrefl 0)⟩
    · simp only [Function.update_of_ne ht] at hcall
      have hold := h.calls t call hcall
      exact ⟨hold.cur_lt, hold.last_lt, hold.word_lt, hold.pending, hold.bytes⟩
  · intro t₁ t₂ call₁ call₂ hne h₁ h₂ i hi₁ hi₂
    by_cases ht₁ : t₁ = thread
    · have ht₂ : t₂ ≠ thread := fun e => hne (ht₁.trans e.symm)
      subst ht₁
      simp only [Function.update_self, Option.some.injEq] at h₁
      simp only [Function.update_of_ne ht₂] at h₂
      subst h₁
      exact (hok i hi₁).2 t₂ call₂ h₂ hi₂
    · simp only [Function.update_of_ne ht₁] at h₁
      by_cases ht₂ : t₂ = thread
      · subst ht₂
        simp only [Function.update_self, Option.some.injEq] at h₂
        subst h₂
        exact (hok i hi₂).2 t₁ call₁ h₁ hi₁
      · simp only [Function.update_of_ne ht₂] at h₂
        exact h.disjoint t₁ t₂ call₁ call₂ hne h₁ h₂ i hi₁ hi₂

/-- Steps that leave the ring, the calls and the device's position alone. -/
theorem of_same (h : RingSafe c.toWzConsts s) (hdesc : s'.desc = s.desc)
    (hcopy : s'.descCopy = s.descCopy) (hpos : s'.pos = s.pos)
    (hconf : s'.confirms = s.confirms) (hun : s'.unconfirmed = s.unconfirmed) :
    RingSafe c.toWzConsts s' := by
  refine ⟨hpos ▸ h.pos_lt, hcopy ▸ h.copy, ?_, ?_, ?_, ?_, hconf ▸ h.disjoint⟩
  · rw [hdesc, hcopy]
    exact h.links
  · rw [hdesc, hcopy, hun]
    exact h.free
  · rw [hdesc, hun]
    exact h.taken
  · intro t call hcall
    rw [hconf] at hcall
    have hok := h.calls t call hcall
    refine ⟨hok.cur_lt, hok.last_lt, hok.word_lt, ?_, ?_⟩
    · rw [hun]
      exact hok.pending
    · rw [hdesc, hcopy]
      exact hok.bytes

theorem step (h : RingSafe c.toWzConsts s) {a : AcqAct} (hok : confirmsCompleted c.toWzConsts s a)
    (hs : s.step c.toWzConsts bus a = some s') : RingSafe c.toWzConsts s' := by
  cases a with
  | device x =>
      obtain ⟨-, ⟨hacc, rfl⟩ | ⟨-, rfl⟩⟩ := Acq.device_cases hs
      · exact h.complete hacc x
      · exact h.of_same rfl rfl rfl rfl rfl
  | confirm thread first last => exact h.confirm hok hs
  | restore thread =>
      obtain ⟨call, w, hcall, hw, rfl⟩ := Acq.restore_cases hs
      by_cases hctrl : w = .control
      · subst hctrl
        simpa only [if_true] using h.restore_control hcall hw
      · simpa only [if_neg hctrl] using h.restore_word hcall hw hctrl
  | scanBegin =>
      simp only [Acq.step] at hs
      split at hs
      · exact h.of_same (by rw [← Option.some.inj hs]) (by rw [← Option.some.inj hs])
          (by rw [← Option.some.inj hs]) (by rw [← Option.some.inj hs]) (by rw [← Option.some.inj hs])
      · cases hs
  | scanIter =>
      obtain ⟨h1, h2, h3, -, h5, h6, -⟩ := Acq.scanIter_frame hs
      exact h.of_same h1 h2 h3 h5 h6
  | getbuf =>
      simp only [Acq.step] at hs
      split at hs
      · cases hs
      · exact h.of_same (by rw [← Option.some.inj hs]) (by rw [← Option.some.inj hs])
          (by rw [← Option.some.inj hs]) (by rw [← Option.some.inj hs]) (by rw [← Option.some.inj hs])

theorem started {d d' : Driver} (h : Driver.Started c.toWzConsts d d') (mem : Nat → Byte) :
    RingSafe c.toWzConsts (Acq.ofDriver d' mem) := by
  refine ⟨c.nofbufs_pos, fun i hi => ?_, fun i hi => ?_, fun i hi _ => ?_, fun i _ hu => ?_,
    fun _ _ hcall => ?_, fun _ _ _ _ _ hcall => ?_⟩
  · rw [(Acq.ofDriver_started h mem hi).2]
    exact startDesc_accepted ..
  · rw [(Acq.ofDriver_started h mem hi).1, (Acq.ofDriver_started h mem hi).2]
    exact XdmaDesc.sameLinks_refl _
  · rw [(Acq.ofDriver_started h mem hi).1, (Acq.ofDriver_started h mem hi).2]
  · cases hu
  · cases hcall
  · cases hcall

end RingSafe

/-- Whatever the order of the steps, a descriptor that the device accepts is the one
`START` programmed, in all its words, and nobody waits for its confirmation; the
device stops at all others.  What it writes goes to the buffer of that descriptor. -/
theorem overrun_protection (c : RingConsts) (s₀ : Sys) (hs₀ : s₀.Reachable c.toWzConsts)
    (env : StartEnv) (d : Driver)
    (hstart : s₀.drv.ioctlDoWzStart c.toWzConsts env = .ok (d, 0)) (mem : Nat → Byte)
    (bus : DmaAddr → Nat) (s : Acq)
    (hs : Lib.Machine.Reach (Acq.step c.toWzConsts bus) (confirmsCompleted c.toWzConsts)
      (Acq.ofDriver d mem) s) :
    ((s.desc s.pos).Accepted ↔ s.unconfirmed s.pos = false) ∧
    ((s.desc s.pos).Accepted →
      s.desc s.pos = s.descCopy s.pos ∧
        s.descCopy s.pos = startDesc c.toWzConsts d.ext s.pos ∧
        (s.desc s.pos).dst = d.ext.bufDmaT s.pos ∧
        (s.desc s.pos).next = d.ext.descDma ((s.pos + 1) % c.nofbufs)) ∧
    ∀ x s', s.step c.toWzConsts bus (.device x) = some s' → ∀ p, s'.mem p ≠ s.mem p →
      s.unconfirmed s.pos = false ∧
        ∃ k, k < x.data.length ∧ p = bus (d.ext.bufDmaT s.pos + BitVec.ofNat 64 k) := by
  have hst := Driver.start_ok c.nofbufs_pos hs₀.pointerInv.live.descOld hstart
  have hsafe : RingSafe c.toWzConsts s :=
    hs.invariant (RingSafe.started hst mem) fun _ _ _ _ hP hok hstep => hP.step hok hstep
  have hcopies : s.descCopy = (Acq.ofDriver d mem).descCopy :=
    hs.invariant (P := fun t => t.descCopy = (Acq.ofDriver d mem).descCopy) rfl
      fun _ _ _ _ hP _ hstep => (Acq.step_descCopy hstep).trans hP
  have hiff := hsafe.accepted_iff hsafe.pos_lt
  have hprog : s.descCopy s.pos = startDesc c.toWzConsts d.ext s.pos := by
    rw [hcopies]
    exact (Acq.ofDriver_started hst mem hsafe.pos_lt).2
  have hdesc : (s.desc s.pos).Accepted → s.desc s.pos = startDesc c.toWzConsts d.ext s.pos :=
    fun ha => (hsafe.free _ hsafe.pos_lt (hiff.mp ha)).trans hprog
  refine ⟨hiff, fun ha => ⟨hsafe.free _ hsafe.pos_lt (hiff.mp ha), hprog, ?_, ?_⟩, ?_⟩
  · rw [hdesc ha]
    exact startDesc_dst ..
  · rw [hdesc ha]
    exact startDesc_next ..
  · intro x s' hstep p hp
    obtain ⟨-, ⟨ha, rfl⟩ | ⟨-, rfl⟩⟩ := Acq.device_cases hstep
    · obtain ⟨k, hk, hpk⟩ := Acq.storeBytes_ne hp
      refine ⟨hiff.mp ha, k, hk, ?_⟩
      rw [hpk, hdesc ha, startDesc_dst]
    · exact absurd rfl hp

/-- `confirmsCompleted` for the threads below `k`, which can be evaluated. -/
def confirmsCompletedBy (c : WzConsts) (k : Nat) (s : Acq) : AcqAct → Prop
  | .confirm thread first last =>
      thread < k ∧ ∀ i, i < c.nofbufs → Covers c.nofbufs first last i → s.unconfirmed i = true ∧
        ∀ t, t < k → ∀ call ∈ s.confirms t, ¬Covers c.nofbufs call.cur call.last i
  | _ => True

instance (c : WzConsts) (k : Nat) (s : Acq) (a : AcqAct) :
    Decidable (confirmsCompletedBy c k s a) :=
  match a with
  | .confirm thread first last =>
      inferInstanceAs (Decidable (thread < k ∧ ∀ i, i < c.nofbufs → Covers c.nofbufs first last i →
        s.unconfirmed i = true ∧
          ∀ t, t < k → ∀ call ∈ s.confirms t, ¬Covers c.nofbufs call.cur call.last i))
  | .device _ | .restore _ | .scanBegin | .scanIter | .getbuf => isTrue trivial

/-- The other threads stay outside `CONFIRM`. -/
theorem Acq.step_confirms_none {c : WzConsts} {bus : DmaAddr → Nat} {k : Nat} {s s' : Acq}
    {a : AcqAct} (hidle : ∀ t, k ≤ t → s.confirms t = none) (hok : confirmsCompletedBy c k s a)
    (hs : s.step c bus a = some s') : ∀ t, k ≤ t → s'.confirms t = none := by
  intro t ht
  cases a with
  | device x =>
      obtain ⟨-, ⟨-, rfl⟩ | ⟨-, rfl⟩⟩ := Acq.device_cases hs <;> exact hidle t ht
  | confirm thread first last =>
      obtain ⟨-, -, -, rfl⟩ := Acq.confirm_cases hs
      have hne : t ≠ thread := by
        have := hok.1
        omega
      exact (Function.update_of_ne hne _ _).trans (hidle t ht)
  | restore thread =>
      obtain ⟨call, w, hcall, -, rfl⟩ := Acq.restore_cases hs
      have hne : t ≠ thread := by
        rintro rfl
        rw [hidle t ht] at hcall
        cases hcall
      exact (Function.update_of_ne hne _ _).trans (hidle t ht)
  | scanBegin =>
      simp only [Acq.step] at hs
      split at hs
      · exact Option.some.inj hs ▸ hidle t ht
      · cases hs
  | scanIter =>
      rw [(Acq.scanIter_frame hs).2.2.2.2.1]
      exact hidle t ht
  | getbuf =>
      simp only [Acq.step] at hs
      split at hs
      · cases hs
      · exact Option.some.inj hs ▸ hidle t ht

theorem confirmsCompleted_of_by {c : WzConsts} {k : Nat} {s : Acq} {a : AcqAct}
    (hidle : ∀ t, k ≤ t → s.confirms t = none) (hok : confirmsCompletedBy c k s a) :
    confirmsCompleted c s a := by
  cases a with
  | confirm thread first last =>
      intro i hi
      obtain ⟨hun, hfree⟩ := hok.2 i hi.1 hi
      refine ⟨hun, fun t call hcall => ?_⟩
      have ht : t < k := by
        by_contra hge
        rw [hidle t (by omega)] at hcall
        cases hcall
      exact hfree t ht call hcall
  | _ => trivial

/-- The runs that `confirmsCompletedBy` admits after `START` are admitted by
`confirmsCompleted`. -/
theorem reach_confirmsCompleted {c : WzConsts} {bus : DmaAddr → Nat} {k : Nat} {s s' : Acq}
    (hidle : ∀ t, k ≤ t → s.confirms t = none)
    (hs : Lib.Machine.Reach (Acq.step c bus) (confirmsCompletedBy c k) s s') :
    Lib.Machine.Reach (Acq.step c bus) (confirmsCompleted c) s s' :=
  hs.widen hidle (fun _ _ _ hP hok hstep => Acq.step_confirms_none hP hok hstep)
    fun _ _ hP hok => confirmsCompleted_of_by hP hok

/-- Both descriptors are completed and both blocks fetched, and two threads confirm them.  With
three words of descriptor 0 restored the device does not accept it, with all eight it does. -/
theorem overrun_protection_restored :
    ∃ (s₀ : Sys) (d : Driver) (s s' : Acq), s₀.Reachable twoBuffers.toWzConsts ∧
      s₀.drv.ioctlDoWzStart twoBuffers.toWzConsts startGranted = .ok (d, 0) ∧
      s.got = [⟨0, 0, 7⟩, ⟨1, 1, 9⟩] ∧ s.pos = 0 ∧
      s.confirms 0 = some ⟨0, 0, 3⟩ ∧ s.confirms 1 = some ⟨1, 1, 1⟩ ∧ ¬(s.desc 0).Accepted ∧
      Lib.Machine.Reach (Acq.step twoBuffers.toWzConsts BitVec.toNat)
        (confirmsCompleted twoBuffers.toWzConsts) s s' ∧
      s'.pos = 0 ∧ s'.confirms 1 = some ⟨1, 1, 1⟩ ∧ (s'.desc 0).Accepted ∧
      s'.desc 0 = startDesc twoBuffers.toWzConsts d.ext 0 ∧ (s'.desc 0).dst = d.ext.bufDmaT 0 := by
  obtain ⟨s₀, d, s, hs₀, -, hd, hs, hp⟩ := exists_acq_of_exec twoBuffers.toWzConsts
    [.allocBuffers allocGranted] startGranted (fun _ => 0) BitVec.toNat
    (confirmsCompletedBy twoBuffers.toWzConsts 2)
    [.device ⟨true, 7, []⟩, .device ⟨true, 9, []⟩, .scanBegin, .scanIter, .scanIter, .getbuf,
      .getbuf, .confirm 0 0 0, .restore 0, .confirm 1 1 1, .restore 0, .restore 1, .restore 0]
    (fun s => decide (s.got = [⟨0, 0, 7⟩, ⟨1, 1, 9⟩] ∧ s.pos = 0 ∧
        s.confirms 0 = some ⟨0, 0, 3⟩ ∧ s.confirms 1 = some ⟨1, 1, 1⟩ ∧ s.unconfirmed 0 = true) &&
      ((Lib.Machine.execOk (Acq.step twoBuffers.toWzConsts BitVec.toNat)
        (confirmsCompletedBy twoBuffers.toWzConsts 2) s (List.replicate 5 (.restore 0))).map
          fun s' => decide (s'.pos = 0 ∧ s'.confirms 1 = some ⟨1, 1, 1⟩ ∧ s'.unconfirmed 0 = false))
        == some true)
    (by decide +kernel)
  obtain ⟨hnow, hlater⟩ := Bool.and_eq_true_iff.mp hp
  obtain ⟨hgot, hpos, hzero, hone, hun⟩ := of_decide_eq_true hnow
  obtain ⟨s', hs', hp'⟩ := Option.map_eq_some_iff.mp (beq_iff_eq.mp hlater)
  obtain ⟨hpos', hone', hun'⟩ := of_decide_eq_true hp'
  have hidle : ∀ t, 2 ≤ t → s.confirms t = none :=
    hs.invariant (P := fun s => ∀ t, 2 ≤ t → s.confirms t = none) (fun _ _ => rfl)
      fun _ _ _ _ hP hok hstep => Acq.step_confirms_none hP hok hstep
  have hreach := reach_confirmsCompleted (fun _ _ => rfl) hs
  have hreach' := reach_confirmsCompleted hidle (.of_execOk hs')
  obtain ⟨hiff, -, -⟩ := overrun_protection twoBuffers s₀ hs₀ startGranted d hd (fun _ => 0)
    BitVec.toNat s hreach
  obtain ⟨hiff', hprog, -⟩ := overrun_protection twoBuffers s₀ hs₀ startGranted d hd (fun _ => 0)
    BitVec.toNat s' (hreach.trans hreach')
  rw [hpos] at hiff
  rw [hpos'] at hiff' hprog
  have hacc : (s'.desc 0).Accepted := hiff'.mpr hun'
  have hold : ¬(s.desc 0).Accepted := fun ha => by
    rw [hiff.mp ha] at hun
    cases hun
  refine ⟨s₀, d, s, s', hs₀, hd, hgot, hpos, hzero, hone, hold, hreach', hpos', hone', hacc,
    (hprog hacc).1.trans (hprog hacc).2.1, (hprog hacc).2.2.1⟩

end WzXdma
