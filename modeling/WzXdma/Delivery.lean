import WzXdma.FullRing
import WzXdma.Interrupts

/-!
# Nothing is left behind

The acquisition and the interrupts together.  The device marks a completion in the status
register of its engine, `xdma_isr` queues the work of the engine, and the work takes the mark back
and scans the ring.  A scan may miss what is completed while it runs, and `xdma_isr` may come at any
time.

When the driver is at rest, every packet that is complete has been reported.  The driver
comes to rest by itself: it needs neither the device nor the application for it.
-/

namespace WzXdma
namespace Delivery

open Lib Lib.BottomHalf Interrupts

structure State where
  acq : Acq
  irq : Interrupts.State

/-- The steps of the application in the driver. -/
def isApp : AcqAct → Bool
  | .getbuf => true
  | .confirm _ _ _ => true
  | .restore _ => true
  | _ => false

inductive Act
  | device (x : Completion)
  | app (a : AcqAct)
  | irq (a : Interrupts.Act)
  /-- one iteration of the scan loop -/
  | scan
  deriving DecidableEq, Repr

/-- One step, where the acquisition runs on the engine at `p`.  The look of its work is the start of
a scan, and the work enables the interrupt when the scan has ended. -/
def step (c : WzConsts) (bus : DmaAddr → Nat) (engine : Place → Option Word) (p : Place)
    (s : State) : Act → Option State
  | .device x => (s.acq.step c bus (.device x)).bind fun acq =>
      (Interrupts.step engine s.irq (.engine p .event)).map fun irq => ⟨acq, irq⟩
  | .app a =>
      if isApp a then (s.acq.step c bus a).map fun acq => { s with acq := acq } else none
  | .irq a =>
      if a = .enable p ∧ s.acq.scan ≠ none then none
      else if a = .engine p .look then
        (s.acq.step c bus .scanBegin).bind fun acq =>
          (Interrupts.step engine s.irq a).map fun irq => ⟨acq, irq⟩
      else (Interrupts.step engine s.irq a).map fun irq => { s with irq := irq }
  | .scan => (s.acq.step c bus .scanIter).map fun acq => { s with acq := acq }

/-- The application confirms in order, and fewer than `N` descriptors are completed and not
confirmed. -/
def keepsUp (c : WzConsts) (s : State) : Act → Prop
  | .device x => leavesRoom c s.acq (.device x)
  | .app a => confirmsInOrder s.acq a
  | _ => True

instance (c : WzConsts) (s : State) (a : Act) : Decidable (keepsUp c s a) :=
  match a with
  | .device x => inferInstanceAs (Decidable (leavesRoom c s.acq (.device x)))
  | .app a => inferInstanceAs (Decidable (confirmsInOrder s.acq a))
  | .irq _ => isTrue trivial
  | .scan => isTrue trivial

/-- Neither the device nor the application moves, and the only interrupt is the one that the engine
requests. -/
def driverOnly (engine : Place → Option Word) (p : Place) (s : State) : Act → Prop
  | .device _ => False
  | .app _ => False
  | .irq (.engine _ .event) => False
  | .irq (.fire chIrq) =>
      engine p = some chIrq ∧ s.irq.Enabled chIrq ∧ (s.irq.half p).raised = true
  | .irq _ => True
  | .scan => True

/-- Neither the handler nor the work of the engine is going on or about to begin, and the engine
requests no interrupt. -/
structure AtRest (p : Place) (bitmask : Word) (s : State) : Prop where
  handler : s.irq.isr = none
  work : ¬(s.irq.half p).Coming
  request : ¬(s.irq.Enabled bitmask ∧ (s.irq.half p).raised = true)

/-! ## What a step does -/

section Steps

variable {c : RingConsts} {bus : DmaAddr → Nat} {engine : Place → Option Word} {p : Place}
  {s s' : State} {a : Act}

theorem step_cases (h : step c.toWzConsts bus engine p s a = some s') :
    (∃ x, a = .device x ∧ s.acq.step c.toWzConsts bus (.device x) = some s'.acq ∧
        Interrupts.step engine s.irq (.engine p .event) = some s'.irq) ∨
      (∃ b, a = .app b ∧ isApp b = true ∧ s.acq.step c.toWzConsts bus b = some s'.acq ∧
        s'.irq = s.irq) ∨
      (a = .irq (.engine p .look) ∧ s.acq.step c.toWzConsts bus .scanBegin = some s'.acq ∧
        Interrupts.step engine s.irq (.engine p .look) = some s'.irq) ∨
      (∃ b, a = .irq b ∧ b ≠ .engine p .look ∧ (b = .enable p → s.acq.scan = none) ∧
        Interrupts.step engine s.irq b = some s'.irq ∧ s'.acq = s.acq) ∨
      (a = .scan ∧ s.acq.step c.toWzConsts bus .scanIter = some s'.acq ∧ s'.irq = s.irq) := by
  cases a with
  | device x =>
      obtain ⟨acq, hacq, h⟩ := Option.bind_eq_some_iff.mp h
      obtain ⟨irq, hirq, rfl⟩ := Option.map_eq_some_iff.mp h
      exact .inl ⟨x, rfl, hacq, hirq⟩
  | app b =>
      rw [step] at h
      split at h
      · obtain ⟨acq, hacq, rfl⟩ := Option.map_eq_some_iff.mp h
        exact .inr (.inl ⟨b, rfl, by assumption, hacq, rfl⟩)
      · cases h
  | irq b =>
      rw [step] at h
      split at h
      · cases h
      · rename_i henable
        split at h
        · rename_i hlook
          subst hlook
          obtain ⟨acq, hacq, h⟩ := Option.bind_eq_some_iff.mp h
          obtain ⟨irq, hirq, rfl⟩ := Option.map_eq_some_iff.mp h
          exact .inr (.inr (.inl ⟨rfl, hacq, hirq⟩))
        · rename_i hlook
          obtain ⟨irq, hirq, rfl⟩ := Option.map_eq_some_iff.mp h
          refine .inr (.inr (.inr (.inl ⟨b, rfl, hlook, fun hb => ?_, hirq, rfl⟩)))
          by_contra hscan
          exact henable ⟨hb, hscan⟩
  | scan =>
      obtain ⟨acq, hacq, rfl⟩ := Option.map_eq_some_iff.mp h
      exact .inr (.inr (.inr (.inr ⟨rfl, hacq, rfl⟩)))

/-- The half of an engine after a step of the interrupts. -/
theorem step_half {i i' : Interrupts.State} {b : Interrupts.Act}
    (h : Interrupts.step engine i b = some i') :
    i'.half p = i.half p ∨ i'.half p = (i.half p).schedule ∨
      (b = .enable p ∧ i'.half p = (i.half p).leave) ∨
      ∃ e, b = .engine p e ∧ (i.half p).step e = some (i'.half p) := by
  cases b with
  | engine q e =>
      rw [Interrupts.step] at h
      split at h
      · obtain ⟨half, he, rfl⟩ := Option.map_eq_some_iff.mp h
        by_cases hpq : p = q
        · subst hpq
          refine .inr (.inr (.inr ⟨e, rfl, ?_⟩))
          show _ = some (Function.update i.half p half p)
          rw [Function.update_self]
          exact he
        · exact .inl (Function.update_of_ne hpq _ _)
      · cases h
  | fire chIrq =>
      rw [Interrupts.step] at h
      split at h
      · exact .inl (Option.some.inj h ▸ rfl)
      · cases h
  | disable =>
      rw [Interrupts.step] at h
      split at h
      · exact .inl (Option.some.inj h ▸ rfl)
      · cases h
  | users userIrq =>
      rw [Interrupts.step] at h
      split at h
      · exact .inl (Option.some.inj h ▸ rfl)
      · cases h
  | schedule =>
      rw [Interrupts.step] at h
      split at h
      · exact .inl (Option.some.inj h ▸ rfl)
      · rename_i q rest hisr
        dsimp only at h
        obtain rfl := Option.some.inj h
        split
        · by_cases hpq : p = q
          · subst hpq
            exact .inr (.inl (Function.update_self _ _ _))
          · exact .inl (Function.update_of_ne hpq _ _)
        · exact .inl rfl
      · cases h
  | enable q =>
      rw [Interrupts.step] at h
      split at h
      · split at h
        · obtain rfl := Option.some.inj h
          by_cases hpq : p = q
          · subst hpq
            exact .inr (.inr (.inl ⟨rfl, Function.update_self _ _ _⟩))
          · exact .inl (Function.update_of_ne hpq _ _)
        · cases h
      · cases h

/-- The application leaves the scan alone. -/
theorem app_frame {q q' : Acq} {b : AcqAct} (hb : isApp b = true)
    (h : q.step c.toWzConsts bus b = some q') :
    q'.scan = q.scan ∧ q'.blockScannedDesc = q.blockScannedDesc ∧ q'.pos = q.pos := by
  cases b with
  | device x => cases hb
  | confirm thread first last =>
      obtain ⟨-, -, -, rfl⟩ := Acq.confirm_cases h
      exact ⟨rfl, rfl, rfl⟩
  | restore thread =>
      obtain ⟨call, w, -, -, rfl⟩ := Acq.restore_cases h
      exact ⟨rfl, rfl, rfl⟩
  | scanBegin => cases hb
  | scanIter => cases hb
  | getbuf =>
      simp only [Acq.step] at h
      split at h
      · cases h
      · exact Option.some.inj h ▸ ⟨rfl, rfl, rfl⟩

theorem scanBegin_cases {q q' : Acq} (h : q.step c.toWzConsts bus .scanBegin = some q') :
    q.scan = none ∧ q' = { q with scan := some q.blockScannedDesc } := by
  simp only [Acq.step] at h
  split at h
  · exact ⟨by assumption, (Option.some.inj h).symm⟩
  · cases h

/-- A scan that ends has come to the position of the device. -/
theorem scanIter_end {q q' : Acq} {t : Tape Completion} (ht : Refines c.toWzConsts q t)
    (hlt : t.items.length < t.released + c.nofbufs) (hsize : q.kfifoSize = c.nofbufs)
    (h : q.scanIter c.toWzConsts = some q') (hend : q'.scan = none) :
    q'.blockScannedDesc = q'.pos := by
  cases hcheck : t.check with
  | none =>
      have hscan : q.scan = none := by rw [ht.scan, hcheck]; rfl
      rw [Acq.scanIter, hscan] at h
      cases h
  | some k =>
      rcases Nat.eq_or_lt_of_le (ht.inv.check_clear k hcheck).2.1 with rfl | hk
      · have hq' := ht.scanIter_finish hcheck hlt h
        rw [hq'.scanned, hq'.pos]
      · -- a look at a completed descriptor is not the last one
        have hx := List.getElem?_eq_getElem hk
        cases hm : (t.items[k]).eop with
        | false =>
            have hscan := (ht.scanIter_pass hcheck hx hm h).scan
            rw [hend] at hscan
            cases hscan
        | true =>
            have hroom := ht.room hcheck hk
            rw [← hsize] at hroom
            have hscan := (ht.scanIter_report hcheck hx hm hroom h).scan
            rw [hend] at hscan
            cases hscan

/-- When the scan has come to the device, the stream between the assembly cursor and the device has
no end of a packet. -/
theorem reported_of_seen {q : Acq} {t : Tape Completion} (ht : Refines c.toWzConsts q t)
    (hlt : t.items.length < t.released + c.nofbufs) (hseen : q.blockScannedDesc = q.pos) :
    q.got ++ q.kfifo = blocks c.toWzConsts q.done := by
  rw [ht.scanned, ht.pos] at hseen
  have hclear := ht.inv.scanned_clear
  have hreleased := ht.released_le
  have hall : t.scanned = t.items.length := by
    by_contra hne
    have hle := hclear.2.1
    have hfirst := hclear.1
    have hwindow : t.released ≤ t.scanned := by omega
    exact Cyclic.mod_ne_of_window hwindow (by omega) (by omega) hlt hne hseen
  rw [hall] at hclear
  rw [ht.got_append_kfifo, ht.put, ht.inv.put_all hclear, blocks, ht.items]

end Steps

/-! ## What all steps keep -/

/-- A scan belongs to the work of the engine, and when nothing has happened after the last look
began, the scan has ended where the device is. -/
structure Sound (c : WzConsts) (engine : Place → Option Word) (p : Place) (s : State) : Prop where
  refines : ∃ t, Refines c s.acq t ∧ t.items.length < t.released + c.nofbufs
  size : s.acq.kfifoSize = c.nofbufs
  safe : Safe engine s.irq
  scanning : s.acq.scan ≠ none → (s.irq.half p).work = some .looked
  seen : (s.irq.half p).unseen = false → s.acq.scan = none →
    s.acq.blockScannedDesc = s.acq.pos

section Invariant

variable {c : RingConsts} {bus : DmaAddr → Nat} {engine : Place → Option Word} {p : Place}
  {bitmask : Word} {s s' : State}

theorem Sound.acq_step (h : Sound c.toWzConsts engine p s) {a : AcqAct}
    (hok : WzXdma.keepsUp c.toWzConsts s.acq a)
    (hs : s.acq.step c.toWzConsts bus a = some s'.acq) :
    (∃ t, Refines c.toWzConsts s'.acq t ∧ t.items.length < t.released + c.nofbufs) ∧
      s'.acq.kfifoSize = c.nofbufs := by
  obtain ⟨t, ht, hlt⟩ := h.refines
  obtain ⟨t', ht', hlt', -⟩ := ht.step_keepsUp hlt hok hs
  exact ⟨⟨t', ht', hlt'⟩, (Acq.step_kfifoSize hs).trans h.size⟩

/-- The device completes a descriptor. -/
theorem Sound.device (h : Sound c.toWzConsts engine p s) {x : Completion}
    (hok : leavesRoom c.toWzConsts s.acq (.device x))
    (hacq : s.acq.step c.toWzConsts bus (.device x) = some s'.acq)
    (hirq : Interrupts.step engine s.irq (.engine p .event) = some s'.irq) :
    Sound c.toWzConsts engine p s' := by
  have hwork : (s'.irq.half p).work = (s.irq.half p).work ∧ (s'.irq.half p).unseen = true := by
    rw [Interrupts.step] at hirq
    split at hirq
    · obtain ⟨half, he, hs'⟩ := Option.map_eq_some_iff.mp hirq
      obtain rfl := Option.some.inj he
      rw [← hs']
      show (Function.update s.irq.half p _ p).work = _ ∧ (Function.update s.irq.half p _ p).unseen = _
      rw [Function.update_self]
      exact ⟨rfl, rfl⟩
    · cases hirq
  obtain ⟨href, hsize⟩ := h.acq_step (a := .device x) ⟨trivial, hok⟩ hacq
  refine ⟨href, hsize, h.safe.step hirq, fun hscan => ?_, fun hunseen => ?_⟩
  · rw [hwork.1]
    refine h.scanning ?_
    obtain ⟨-, ⟨-, hs'⟩ | ⟨-, hs'⟩⟩ := Acq.device_cases hacq
    · rw [hs'] at hscan
      exact hscan
    · rw [hs'] at hscan
      exact hscan
  · rw [hwork.2] at hunseen
    cases hunseen

/-- The application takes, confirms or restores. -/
theorem Sound.app (h : Sound c.toWzConsts engine p s) {b : AcqAct}
    (hok : confirmsInOrder s.acq b) (hb : isApp b = true)
    (hacq : s.acq.step c.toWzConsts bus b = some s'.acq) (hirq : s'.irq = s.irq) :
    Sound c.toWzConsts engine p s' := by
  have hroom : leavesRoom c.toWzConsts s.acq b := by
    cases b with
    | device x => cases hb
    | confirm thread first last => trivial
    | restore thread => trivial
    | scanBegin => trivial
    | scanIter => trivial
    | getbuf => trivial
  obtain ⟨hscan, hscanned, hpos⟩ := app_frame hb hacq
  obtain ⟨href, hsize⟩ := h.acq_step ⟨hok, hroom⟩ hacq
  refine ⟨href, hsize, ?_, ?_, ?_⟩
  · rw [hirq]
    exact h.safe
  · rw [hirq, hscan]
    exact h.scanning
  · rw [hirq, hscan, hscanned, hpos]
    exact h.seen

/-- The work begins its scan. -/
theorem Sound.look (h : Sound c.toWzConsts engine p s)
    (hacq : s.acq.step c.toWzConsts bus .scanBegin = some s'.acq)
    (hirq : Interrupts.step engine s.irq (.engine p .look) = some s'.irq) :
    Sound c.toWzConsts engine p s' := by
  have hwork : (s'.irq.half p).work = some .looked := by
    rw [Interrupts.step] at hirq
    split at hirq
    · obtain ⟨half, he, hs'⟩ := Option.map_eq_some_iff.mp hirq
      rw [Half.step] at he
      split at he
      · obtain rfl := Option.some.inj he
        rw [← hs']
        show (Function.update s.irq.half p _ p).work = _
        rw [Function.update_self]
      · cases he
    · cases hirq
  obtain ⟨href, hsize⟩ := h.acq_step (a := .scanBegin) ⟨trivial, trivial⟩ hacq
  refine ⟨href, hsize, h.safe.step hirq, fun _ => hwork, fun _ hscan => ?_⟩
  obtain ⟨-, hs'⟩ := scanBegin_cases hacq
  rw [hs'] at hscan
  cases hscan

/-- The handler, the work before and after its scan, and the other engines. -/
theorem Sound.irq (h : Sound c.toWzConsts engine p s) {b : Interrupts.Act}
    (hlook : b ≠ .engine p .look) (hidle : b = .enable p → s.acq.scan = none)
    (hirq : Interrupts.step engine s.irq b = some s'.irq) (hacq : s'.acq = s.acq) :
    Sound c.toWzConsts engine p s' := by
  refine ⟨hacq ▸ h.refines, hacq ▸ h.size, h.safe.step hirq, fun hscan => ?_, fun hunseen => ?_⟩
  · rw [hacq] at hscan
    have hwork := h.scanning hscan
    obtain hsame | hsame | ⟨henable, -⟩ | ⟨e, -, he⟩ := step_half (p := p) hirq
    · rw [hsame, hwork]
    · rw [hsame]
      exact hwork
    · exact absurd (hidle henable) hscan
    · exact (Half.step_looked hwork he).2
  · rw [hacq]
    refine h.seen ?_
    obtain hsame | hsame | ⟨-, hsame⟩ | ⟨e, rfl, he⟩ := step_half (p := p) hirq
    · rw [← hsame, hunseen]
    · rw [hsame] at hunseen
      exact hunseen
    · rw [hsame] at hunseen
      exact hunseen
    · exact Half.step_unseen (fun hel => hlook (by rw [hel])) he hunseen

/-- One iteration of the scan. -/
theorem Sound.scan (h : Sound c.toWzConsts engine p s)
    (hacq : s.acq.step c.toWzConsts bus .scanIter = some s'.acq) (hirq : s'.irq = s.irq) :
    Sound c.toWzConsts engine p s' := by
  obtain ⟨href, hsize⟩ := h.acq_step (a := .scanIter) ⟨trivial, trivial⟩ hacq
  refine ⟨href, hsize, hirq ▸ h.safe, fun _ => ?_, fun _ hend => ?_⟩
  · rw [hirq]
    refine h.scanning fun hscan => ?_
    rw [Acq.step, Acq.scanIter, hscan] at hacq
    cases hacq
  · obtain ⟨t, ht, hlt⟩ := h.refines
    exact scanIter_end ht hlt h.size hacq hend

theorem Sound.step (h : Sound c.toWzConsts engine p s) {a : Act}
    (hok : keepsUp c.toWzConsts s a) (hs : step c.toWzConsts bus engine p s a = some s') :
    Sound c.toWzConsts engine p s' := by
  obtain ⟨x, rfl, hacq, hirq⟩ | ⟨b, rfl, hb, hacq, hirq⟩ | ⟨rfl, hacq, hirq⟩ |
    ⟨b, rfl, hlook, hidle, hirq, hacq⟩ | ⟨rfl, hacq, hirq⟩ := step_cases hs
  · exact h.device hok hacq hirq
  · exact h.app hok hb hacq hirq
  · exact h.look hacq hirq
  · exact h.irq hlook hidle hirq hacq
  · exact h.scan hacq hirq

/-- Right after `START`, whatever interrupts there have been before. -/
theorem Sound.started {s₀ : Sys} (hs₀ : s₀.Reachable c.toWzConsts) {d : Driver}
    (hst : Driver.Started c.toWzConsts s₀.drv d) (hfifo : s₀.drv.ext.kfifo = [])
    {irq : Interrupts.State} (hirq : Safe engine irq) (mem : Nat → Byte) :
    Sound c.toWzConsts engine p ⟨.ofDriver d mem, irq⟩ := by
  have hrefines := Refines.started hst hfifo mem
  refine ⟨⟨_, hrefines, ?_⟩, hst.frame.kfifoSize.trans (hs₀.mappedInv hst.ready).1, hirq,
    fun hscan => absurd rfl hscan, fun _ _ => ?_⟩
  · show 0 < 0 + c.nofbufs
    rw [Nat.zero_add]
    exact c.nofbufs_pos
  · exact hrefines.scanned.trans hrefines.pos.symm

theorem Sound.all_reported (h : Sound c.toWzConsts engine p s) (hscan : s.acq.scan = none)
    (hunseen : (s.irq.half p).unseen = false) :
    s.acq.got ++ s.acq.kfifo = blocks c.toWzConsts s.acq.done := by
  obtain ⟨t, ht, hlt⟩ := h.refines
  exact reported_of_seen ht hlt (h.seen hunseen hscan)

/-- At rest there is neither a scan nor something unseen. -/
theorem Sound.rest (h : Sound c.toWzConsts engine p s) (hp : engine p = some bitmask)
    (hrest : AtRest p bitmask s) :
    s.acq.scan = none ∧ (s.irq.half p).unseen = false := by
  have hwork : (s.irq.half p).work = none := by
    by_contra hne
    exact hrest.work (.inr hne)
  refine ⟨?_, ?_⟩
  · by_contra hscan
    have hlooked := h.scanning hscan
    rw [hwork] at hlooked
    cases hlooked
  · by_contra hunseen
    rw [Bool.not_eq_false] at hunseen
    obtain hraised | hcleared := h.safe.kept p hunseen
    · refine hrest.request ⟨?_, hraised⟩
      obtain henabled | hcoming | ⟨y, -, hy | ⟨rest, hy, -⟩⟩ := h.safe.enabled p bitmask hp
      · exact henabled
      · exact absurd hcoming hrest.work
      · rw [hrest.handler] at hy
        cases hy
      · rw [hrest.handler] at hy
        cases hy
    · rw [hwork] at hcleared
      cases hcleared

end Invariant

/-! ## The driver goes on by itself -/

/-- The steps of `xdma_isr` after its entry. -/
def isHandler : Interrupts.Act → Bool
  | .disable => true
  | .users _ => true
  | .schedule => true
  | _ => false

section Progress

variable {c : RingConsts} {bus : DmaAddr → Nat} {engine : Place → Option Word} {p : Place}
  {bitmask : Word} {s s' : State} {i i' : Interrupts.State} {half : Half}

theorem keepsUp_of_driverOnly {a : Act} (h : driverOnly engine p s a) :
    keepsUp c.toWzConsts s a := by
  cases a with
  | device x => cases h
  | app b => cases h
  | irq b => trivial
  | scan => trivial

theorem Sound.driver (h : Sound c.toWzConsts engine p s)
    (hs : Machine.Reach (Delivery.step c.toWzConsts bus engine p) (driverOnly engine p) s s') :
    Sound c.toWzConsts engine p s' :=
  hs.invariant h fun _ _ _ _ hP hok hstep => hP.step (keepsUp_of_driverOnly hok) hstep

/-- Without the device and the application nothing is completed and nothing is taken. -/
theorem driver_frame
    (hs : Machine.Reach (step c.toWzConsts bus engine p) (driverOnly engine p) s s') :
    s'.acq.done = s.acq.done ∧ s'.acq.got = s.acq.got := by
  refine hs.invariant (P := fun u => u.acq.done = s.acq.done ∧ u.acq.got = s.acq.got) ⟨rfl, rfl⟩ ?_
  rintro u a u' - ⟨hdone, hgot⟩ hok hstep
  obtain ⟨x, rfl, -, -⟩ | ⟨b, rfl, -, -, -⟩ | ⟨rfl, hacq, -⟩ | ⟨b, rfl, -, -, -, hacq⟩ |
    ⟨rfl, hacq, -⟩ := step_cases hstep
  · cases hok
  · cases hok
  · obtain ⟨-, hu'⟩ := scanBegin_cases hacq
    rw [hu']
    exact ⟨hdone, hgot⟩
  · rw [hacq]
    exact ⟨hdone, hgot⟩
  · obtain ⟨-, -, -, -, -, -, hdone', hgot', -⟩ := Acq.scanIter_frame hacq
    exact ⟨hdone'.trans hdone, hgot'.trans hgot⟩

variable (bus) in
/-- A scan that nothing disturbs ends. -/
theorem scan_ends {q : Acq} {t : Tape Completion} (ht : Refines c.toWzConsts q t)
    (hlt : t.items.length < t.released + c.nofbufs) (hsize : q.kfifoSize = c.nofbufs) :
    ∃ q', Machine.Reach (Acq.step c.toWzConsts bus) (fun _ b => b = .scanIter) q q' ∧
      q'.scan = none ∧ (q.scan ≠ none → q'.blockScannedDesc = q'.pos) := by
  cases hcheck : t.check with
  | none =>
      have hscan : q.scan = none := by rw [ht.scan, hcheck]; rfl
      exact ⟨q, .start, hscan, fun hne => absurd hscan hne⟩
  | some k =>
      -- by induction on the positions that are left
      generalize hlen : t.items.length - k = len
      induction len generalizing q t k with
      | zero =>
          obtain rfl : k = t.items.length := by
            have := (ht.inv.check_clear k hcheck).2.1
            omega
          have hscan : q.scan = some (t.items.length % c.nofbufs) := by rw [ht.scan, hcheck]; rfl
          obtain ⟨q', hq'⟩ : ∃ q', q.scanIter c.toWzConsts = some q' := by
            simp only [Acq.scanIter, hscan]
            exact ⟨_, rfl⟩
          have hend := (ht.scanIter_finish hcheck hlt hq').scan
          exact ⟨q', .next .start rfl hq', hend, fun _ => scanIter_end ht hlt hsize hq' hend⟩
      | succ len ih =>
          have hk : k < t.items.length := by omega
          have hx := List.getElem?_eq_getElem hk
          have hscan : q.scan = some (k % c.nofbufs) := by rw [ht.scan, hcheck]; rfl
          obtain ⟨q', hq'⟩ : ∃ q', q.scanIter c.toWzConsts = some q' := by
            simp only [Acq.scanIter, hscan]
            exact ⟨_, rfl⟩
          have hnext : ∃ t', Refines c.toWzConsts q' t' ∧ t'.items = t.items ∧
              t'.released = t.released ∧ t'.check = some (k + 1) := by
            cases hm : (t.items[k]).eop with
            | false => exact ⟨_, ht.scanIter_pass hcheck hx hm hq', rfl, rfl, rfl⟩
            | true =>
                have hroom := ht.room hcheck hk
                exact ⟨_, ht.scanIter_report hcheck hx hm (by omega) hq', rfl, rfl, rfl⟩
          obtain ⟨t', ht', hitems, hreleased, hcheck'⟩ := hnext
          obtain ⟨q'', hq'', hend, hseen⟩ := ih ht' (by rw [hitems, hreleased]; exact hlt)
            ((@Acq.step_kfifoSize _ bus _ _ .scanIter hq').trans hsize) (k + 1) hcheck'
            (by rw [hitems]; omega)
          refine ⟨q'', Machine.Reach.trans (.next .start rfl hq') hq'', hend, fun _ => hseen ?_⟩
          rw [ht'.scan, hcheck']
          exact Option.some_ne_none _

variable (engine) in
/-- The loops of the handler end. -/
theorem iterating_ends {chIrq : Word} {rest : List Place}
    (hisr : i.isr = some (.iterating chIrq rest)) :
    ∃ i', Machine.Reach (Interrupts.step engine) (fun _ b => isHandler b = true) i i' ∧
      i'.isr = none ∧ i'.channelIntEnable = i.channelIntEnable := by
  induction rest generalizing i with
  | nil =>
      have hstep : Interrupts.step engine i .schedule =
          some { i with isr := none, irqCount := i.irqCount + 1 } := by
        rw [Interrupts.step, hisr]
      exact ⟨_, .next .start (a := .schedule) rfl hstep, rfl, rfl⟩
  | cons q rest ih =>
      obtain ⟨i₁, hi₁, hisr₁, hen₁⟩ : ∃ i₁, Interrupts.step engine i .schedule = some i₁ ∧
          i₁.isr = some (.iterating chIrq rest) ∧
          i₁.channelIntEnable = i.channelIntEnable := by
        rw [Interrupts.step, hisr]
        refine ⟨_, rfl, ?_, ?_⟩
        · split
          · rfl
          · rfl
        · split
          · rfl
          · rfl
      obtain ⟨i', hi', hend, hen⟩ := ih hisr₁
      exact ⟨i', Machine.Reach.trans (.next .start (a := .schedule) rfl hi₁) hi', hend,
        hen.trans hen₁⟩

variable (engine) in
theorem disabled_ends {chIrq : Word} (hisr : i.isr = some (.disabled chIrq)) :
    ∃ i', Machine.Reach (Interrupts.step engine) (fun _ b => isHandler b = true) i i' ∧
      i'.isr = none ∧ i'.channelIntEnable = i.channelIntEnable := by
  have hstep : Interrupts.step engine i (.users 0) = some { i with
      userIrq := fun bit => if (0 : Word) &&& (1 <<< bit.val) ≠ 0 then
        Events.userIrqService (i.userIrq bit) else i.userIrq bit
      isr := some (.iterating chIrq places) } := by
    rw [Interrupts.step, hisr]
  obtain ⟨i', hi', hend, hen⟩ := iterating_ends engine (i := { i with
    userIrq := fun bit => if (0 : Word) &&& (1 <<< bit.val) ≠ 0 then
      Events.userIrqService (i.userIrq bit) else i.userIrq bit
    isr := some (.iterating chIrq places) }) rfl
  exact ⟨i', Machine.Reach.trans (.next .start (a := .users 0) rfl hstep) hi', hend, hen⟩

variable (engine) in
/-- The handler returns. -/
theorem handler_ends (i : Interrupts.State) :
    ∃ i', Machine.Reach (Interrupts.step engine) (fun _ b => isHandler b = true) i i' ∧
      i'.isr = none := by
  cases hisr : i.isr with
  | none => exact ⟨i, .start, hisr⟩
  | some isr =>
      cases isr with
      | fired chIrq =>
          have hstep : Interrupts.step engine i .disable = some { i with
              channelIntEnable := i.channelIntEnable &&& ~~~chIrq
              isr := some (.disabled chIrq) } := by
            rw [Interrupts.step, hisr]
          obtain ⟨i', hi', hend, -⟩ := disabled_ends engine (i := { i with
            channelIntEnable := i.channelIntEnable &&& ~~~chIrq
            isr := some (.disabled chIrq) }) rfl
          exact ⟨i', Machine.Reach.trans (.next .start (a := .disable) rfl hstep) hi', hend⟩
      | disabled chIrq =>
          obtain ⟨i', hi', hend, -⟩ := disabled_ends engine hisr
          exact ⟨i', hi', hend⟩
      | iterating chIrq rest =>
          obtain ⟨i', hi', hend, -⟩ := iterating_ends engine hisr
          exact ⟨i', hi', hend⟩

/-- The handler queues the work and leaves the rest of it alone. -/
theorem handler_frame
    (h : Machine.Reach (Interrupts.step engine) (fun _ b => isHandler b = true) i i') :
    (i'.half p).work = (i.half p).work ∧ (i'.half p).raised = (i.half p).raised := by
  refine h.invariant (P := fun u => (u.half p).work = (i.half p).work ∧
    (u.half p).raised = (i.half p).raised) ⟨rfl, rfl⟩ ?_
  rintro u b u' - ⟨hwork, hraised⟩ hb hstep
  obtain hsame | hsame | ⟨rfl, -⟩ | ⟨e, rfl, -⟩ := step_half (p := p) hstep
  · rw [hsame]
    exact ⟨hwork, hraised⟩
  · rw [hsame]
    exact ⟨hwork, hraised⟩
  · cases hb
  · cases hb

variable (bus) in
/-- The handler runs next to an acquisition that does nothing. -/
theorem handler_reach
    (h : Machine.Reach (Interrupts.step engine) (fun _ b => isHandler b = true) i i') (q : Acq) :
    Machine.Reach (step c.toWzConsts bus engine p) (driverOnly engine p) ⟨q, i⟩ ⟨q, i'⟩ := by
  refine h.map (fun i => (⟨q, i⟩ : State)) fun u b u' hb hstep => .inr ⟨.irq b, ?_, ?_⟩
  · cases b with
    | engine q e => cases hb
    | fire chIrq => cases hb
    | disable => trivial
    | users userIrq => trivial
    | schedule => trivial
    | enable q => cases hb
  · have henable : b ≠ .enable p := fun he => by rw [he] at hb; cases hb
    have hlook : b ≠ .engine p .look := fun he => by rw [he] at hb; cases hb
    rw [step, if_neg fun he => henable he.1, if_neg hlook]
    exact Option.map_eq_some_iff.mpr ⟨u', hstep, rfl⟩

variable (bus) in
/-- A step of the work other than its look. -/
theorem step_engine (hp : (engine p).isSome) {e : BottomHalf.Act} (he : e ≠ .look) {half : Half}
    (h : (s.irq.half p).step e = some half) :
    step c.toWzConsts bus engine p s (.irq (.engine p e)) =
      some { s with irq := { s.irq with half := Function.update s.irq.half p half } } := by
  have hlook : Interrupts.Act.engine p e ≠ .engine p .look := fun hel => by
    rw [Interrupts.Act.engine.injEq] at hel
    exact he hel.2
  have hirq : Interrupts.step engine s.irq (.engine p e) =
      some { s.irq with half := Function.update s.irq.half p half } := by
    rw [Interrupts.step, if_pos hp, h, Option.map_some]
  rw [step, if_neg fun hen => Interrupts.Act.noConfusion hen.1, if_neg hlook, hirq, Option.map_some]

variable (bus) in
/-- The work looks, which begins a scan. -/
theorem step_look (hp : (engine p).isSome) (h : (s.irq.half p).step .look = some half)
    (hscan : s.acq.scan = none) :
    step c.toWzConsts bus engine p s (.irq (.engine p .look)) =
      some ⟨{ s.acq with scan := some s.acq.blockScannedDesc },
        { s.irq with half := Function.update s.irq.half p half }⟩ := by
  have hirq : Interrupts.step engine s.irq (.engine p .look) =
      some { s.irq with half := Function.update s.irq.half p half } := by
    rw [Interrupts.step, if_pos hp, h, Option.map_some]
  rw [step, if_neg fun hen => Interrupts.Act.noConfusion hen.1, if_pos rfl, Acq.step, if_pos hscan,
    Option.bind_some, hirq, Option.map_some]

/-- The driver gets from one state to another, and the handler is out of the way in both. -/
def Settles (c : WzConsts) (bus : DmaAddr → Nat) (engine : Place → Option Word) (p : Place)
    (s : State) (half : Half) : Prop :=
  ∃ s', Machine.Reach (step c bus engine p) (driverOnly engine p) s s' ∧ s'.irq.isr = none ∧
    s'.irq.half p = half

theorem Settles.next (h : Settles c.toWzConsts bus engine p s' half) {a : Act}
    (hok : driverOnly engine p s a) (hs : step c.toWzConsts bus engine p s a = some s') :
    Settles c.toWzConsts bus engine p s half := by
  obtain ⟨s'', hr, hisr, hhalf⟩ := h
  exact ⟨s'', Machine.Reach.trans (.next .start hok hs) hr, hisr, hhalf⟩

variable (bus)

/-- The scan ends, and the work enables the interrupt and returns. -/
theorem Sound.looked (h : Sound c.toWzConsts engine p s) (hp : engine p = some bitmask)
    (hisr : s.irq.isr = none) (hw : (s.irq.half p).work = some .looked) :
    Settles c.toWzConsts bus engine p s (s.irq.half p).leave := by
  obtain ⟨t, ht, hlt⟩ := h.refines
  obtain ⟨q, hq, hend, -⟩ := scan_ends bus ht hlt h.size
  have hscans : Machine.Reach (Delivery.step c.toWzConsts bus engine p) (driverOnly engine p) s
      ⟨q, s.irq⟩ :=
    hq.map (fun q => (⟨q, s.irq⟩ : State)) fun u b u' hb hstep => .inr ⟨.scan, trivial, by
      subst hb
      exact Option.map_eq_some_iff.mpr ⟨u', hstep, rfl⟩⟩
  have henable : Delivery.step c.toWzConsts bus engine p ⟨q, s.irq⟩ (.irq (.enable p)) =
      some ⟨q, { s.irq with
        channelIntEnable := s.irq.channelIntEnable ||| bitmask
        half := Function.update s.irq.half p (s.irq.half p).leave }⟩ := by
    have hirq : Interrupts.step engine s.irq (.enable p) = some { s.irq with
        channelIntEnable := s.irq.channelIntEnable ||| bitmask
        half := Function.update s.irq.half p (s.irq.half p).leave } := by
      rw [Interrupts.step, hp]
      exact if_pos hw
    rw [Delivery.step, if_neg fun hen => hen.2 hend, if_neg fun hen => Interrupts.Act.noConfusion hen,
      hirq, Option.map_some]
  exact ⟨_, .next hscans (a := .irq (.enable p)) trivial henable, hisr, Function.update_self _ _ _⟩

/-- The work has taken the mark back. -/
theorem Sound.cleared (h : Sound c.toWzConsts engine p s) (hp : engine p = some bitmask)
    (hisr : s.irq.isr = none) (hw : (s.irq.half p).work = some .cleared) :
    Settles c.toWzConsts bus engine p s { s.irq.half p with unseen := false, work := none } := by
  have hscan : s.acq.scan = none := by
    by_contra hne
    rw [h.scanning hne] at hw
    cases hw
  have hhalf : (s.irq.half p).step .look =
      some { s.irq.half p with unseen := false, work := some .looked } := if_pos hw
  have hlook := step_look (c := c) bus (Option.isSome_of_mem hp) hhalf hscan
  have hs := h.step (a := .irq (.engine p .look)) trivial hlook
  refine Settles.next ?_ (a := .irq (.engine p .look)) trivial hlook
  have hself := Function.update_self p
    { s.irq.half p with unseen := false, work := some .looked } s.irq.half
  have hend := hs.looked bus hp hisr (congrArg Half.work hself)
  rw [show Half.leave _ = { s.irq.half p with unseen := false, work := none } from
    congrArg Half.leave hself] at hend
  exact hend

/-- The work has begun. -/
theorem Sound.entered (h : Sound c.toWzConsts engine p s) (hp : engine p = some bitmask)
    (hisr : s.irq.isr = none) (hw : (s.irq.half p).work = some .entered) :
    Settles c.toWzConsts bus engine p s
      { s.irq.half p with raised := false, unseen := false, work := none } := by
  have hhalf : (s.irq.half p).step .clear =
      some { s.irq.half p with raised := false, work := some .cleared } := if_pos hw
  have hclear := step_engine (c := c) bus (Option.isSome_of_mem hp)
    BottomHalf.Act.noConfusion hhalf
  have hs := h.step (a := .irq (.engine p .clear)) trivial hclear
  refine Settles.next ?_ (a := .irq (.engine p .clear)) trivial hclear
  have hself := Function.update_self p
    { s.irq.half p with raised := false, work := some .cleared } s.irq.half
  have hend := hs.cleared bus hp hisr (congrArg Half.work hself)
  rw [show ({ Function.update s.irq.half p _ p with unseen := false, work := none } : Half) =
      { s.irq.half p with raised := false, unseen := false, work := none } from
    congrArg (fun g : Half => { g with unseen := false, work := none }) hself] at hend
  exact hend

/-- The work runs from its beginning to its end. -/
theorem Sound.queued (h : Sound c.toWzConsts engine p s) (hp : engine p = some bitmask)
    (hisr : s.irq.isr = none) (hw : (s.irq.half p).work = none)
    (hq : (s.irq.half p).queued = true) : Settles c.toWzConsts bus engine p s .start := by
  have hhalf : (s.irq.half p).step .enter =
      some { s.irq.half p with queued := false, work := some .entered } := if_pos ⟨hq, hw⟩
  have henter := step_engine (c := c) bus (Option.isSome_of_mem hp)
    BottomHalf.Act.noConfusion hhalf
  have hs := h.step (a := .irq (.engine p .enter)) trivial henter
  refine Settles.next ?_ (a := .irq (.engine p .enter)) trivial henter
  have hself := Function.update_self p
    { s.irq.half p with queued := false, work := some .entered } s.irq.half
  have hend := hs.entered bus hp hisr (congrArg Half.work hself)
  rw [show ({ Function.update s.irq.half p _ p with
        raised := false, unseen := false, work := none } : Half) = Half.start from
    congrArg (fun g : Half => { g with raised := false, unseen := false, work := none }) hself]
    at hend
  exact hend

/-- Wherever the work is, it comes to its end and keeps its place in the queue. -/
theorem Sound.work_ends (h : Sound c.toWzConsts engine p s) (hp : engine p = some bitmask)
    (hisr : s.irq.isr = none) :
    ∃ half, half.work = none ∧ half.queued = (s.irq.half p).queued ∧
      Settles c.toWzConsts bus engine p s half := by
  cases hw : (s.irq.half p).work with
  | none => exact ⟨_, hw, rfl, s, .start, hisr, rfl⟩
  | some stage =>
      cases stage with
      | entered =>
          exact ⟨{ s.irq.half p with raised := false, unseen := false, work := none }, rfl, rfl,
            h.entered bus hp hisr hw⟩
      | cleared =>
          exact ⟨{ s.irq.half p with unseen := false, work := none }, rfl, rfl,
            h.cleared bus hp hisr hw⟩
      | looked => exact ⟨(s.irq.half p).leave, rfl, rfl, h.looked bus hp hisr hw⟩

/-- Afterwards it runs once more if it is queued. -/
theorem Sound.idles (h : Sound c.toWzConsts engine p s) (hp : engine p = some bitmask)
    (hisr : s.irq.isr = none) :
    ∃ half : Half, ¬half.Coming ∧ Settles c.toWzConsts bus engine p s half := by
  obtain ⟨half, hwork, -, s₁, hs₁, hisr₁, hhalf⟩ := h.work_ends bus hp hisr
  cases hqueued : half.queued with
  | false =>
      refine ⟨half, ?_, s₁, hs₁, hisr₁, hhalf⟩
      rintro (hq | hw)
      · rw [hqueued] at hq
        cases hq
      · exact hw hwork
  | true =>
      obtain ⟨s₂, hs₂, hisr₂, hstart⟩ := (h.driver hs₁).queued bus hp hisr₁
        (by rw [hhalf, hwork]) (by rw [hhalf, hqueued])
      refine ⟨.start, ?_, s₂, Machine.Reach.trans hs₁ hs₂, hisr₂, hstart⟩
      rintro (hq | hw)
      · cases hq
      · exact hw rfl

/-- What is disabled is not enabled. -/
theorem and_not_and (x b : Word) : x &&& ~~~b &&& b = 0 := by
  apply BitVec.eq_of_getLsbD_eq
  intro k hk
  rw [BitVec.getLsbD_and, BitVec.getLsbD_and, BitVec.getLsbD_not, BitVec.ofNat_eq_ofNat,
    BitVec.getLsbD_zero]
  cases b.getLsbD k with
  | false => rw [Bool.and_false]
  | true => rw [Bool.not_true, Bool.and_false, Bool.and_false, Bool.false_and]

/-- The handler answers a request of the engine by queueing its work. -/
theorem Sound.requested (h : Sound c.toWzConsts engine p s) (hp : engine p = some bitmask)
    (hbit : bitmask ≠ 0) (hisr : s.irq.isr = none) (henabled : s.irq.Enabled bitmask)
    (hraised : (s.irq.half p).raised = true) :
    ∃ s', Machine.Reach (Delivery.step c.toWzConsts bus engine p) (driverOnly engine p) s s' ∧
      s'.irq.isr = none ∧ (s'.irq.half p).work = (s.irq.half p).work ∧
      (s'.irq.half p).Coming := by
  have hfire : Delivery.step c.toWzConsts bus engine p s (.irq (.fire bitmask)) =
      some { s with irq := { s.irq with isr := some (.fired bitmask) } } := by
    rw [Delivery.step, if_neg fun hen => Interrupts.Act.noConfusion hen.1,
      if_neg fun hen => Interrupts.Act.noConfusion hen, Interrupts.step, if_pos hisr,
      Option.map_some]
  have hdisable : Interrupts.step engine { s.irq with isr := some (.fired bitmask) }
      Interrupts.Act.disable =
      some { s.irq with
        channelIntEnable := s.irq.channelIntEnable &&& ~~~bitmask
        isr := some (.disabled bitmask) } := rfl
  obtain ⟨i', hi', hend, hen⟩ := disabled_ends engine (i := { s.irq with
    channelIntEnable := s.irq.channelIntEnable &&& ~~~bitmask
    isr := some (.disabled bitmask) }) rfl
  have hhandler : Machine.Reach (Interrupts.step engine) (fun _ b => isHandler b = true)
      { s.irq with isr := some (.fired bitmask) } i' :=
    Machine.Reach.trans (.next .start (a := .disable) rfl hdisable) hi'
  have hreach := Machine.Reach.trans
    (.next .start (a := .irq (.fire bitmask)) ⟨hp, henabled, hraised⟩ hfire)
    (handler_reach (c := c) (p := p) bus hhandler s.acq)
  have hsafe := (h.driver hreach).safe
  refine ⟨_, hreach, hend, (handler_frame hhandler).1, ?_⟩
  obtain hyes | hcoming | ⟨y, -, hy | ⟨rest, hy, -⟩⟩ := hsafe.enabled p bitmask hp
  · have hzero : i'.channelIntEnable &&& bitmask = 0 := by rw [hen, and_not_and]
    exact absurd (hyes.symm.trans hzero) hbit
  · exact hcoming
  · rw [hend] at hy
    cases hy
  · rw [hend] at hy
    cases hy

/-- The driver comes to rest by itself. -/
theorem Sound.settles (h : Sound c.toWzConsts engine p s) (hp : engine p = some bitmask)
    (hbit : bitmask ≠ 0) :
    ∃ s', Machine.Reach (Delivery.step c.toWzConsts bus engine p) (driverOnly engine p) s s' ∧
      AtRest p bitmask s' := by
  obtain ⟨i₁, hi₁, hisr₁⟩ := handler_ends engine s.irq
  have hr₁ := handler_reach (c := c) (p := p) bus hi₁ s.acq
  obtain ⟨half, hidle, s₂, hr₂, hisr₂, hhalf⟩ := (h.driver hr₁).idles bus hp hisr₁
  have hr₂ := Machine.Reach.trans hr₁ hr₂
  rw [← hhalf] at hidle
  by_cases hrequest : s₂.irq.Enabled bitmask ∧ (s₂.irq.half p).raised = true
  · obtain ⟨s₃, hr₃, hisr₃, hwork, hcoming⟩ := (h.driver hr₂).requested bus hp hbit hisr₂
      hrequest.1 hrequest.2
    have hr₃ := Machine.Reach.trans hr₂ hr₃
    have hnone : (s₃.irq.half p).work = none := by
      rw [hwork]
      by_contra hne
      exact hidle (.inr hne)
    obtain ⟨s₄, hr₄, hisr₄, hstart⟩ := (h.driver hr₃).queued bus hp hisr₃ hnone
      (hcoming.resolve_right fun hne => hne hnone)
    refine ⟨s₄, Machine.Reach.trans hr₃ hr₄, hisr₄, ?_, ?_⟩
    · rw [hstart]
      rintro (hq | hw)
      · cases hq
      · exact hw rfl
    · rw [hstart]
      exact fun hboth => Bool.noConfusion hboth.2
  · exact ⟨s₂, hr₂, hisr₂, hidle, hrequest⟩

end Progress

theorem probed_ne_zero {found : Place → Bool} {p : Place} {bitmask : Word}
    (hp : probed found p = some bitmask) : bitmask ≠ 0 := by
  obtain ⟨k, -, hk, rfl⟩ := numbered_lookup hp
  have hall : ∀ k : Fin 8, irqBitmask k.val ≠ 0 := by decide
  exact hall ⟨k, hk⟩

/-- The acquisition of a device with these engines, begun after any interrupts. -/
theorem sound_reach {c : RingConsts} {s₀ : Sys} (hs₀ : s₀.Reachable c.toWzConsts)
    (hfifo : s₀.drv.ext.kfifo = []) {env : StartEnv} {d : Driver}
    (hstart : s₀.drv.ioctlDoWzStart c.toWzConsts env = .ok (d, 0)) {mem : Nat → Byte}
    {bus : DmaAddr → Nat} {engine : Place → Option Word} {irq₀ : Interrupts.State}
    (hirq : Machine.Reach (Interrupts.step engine) (fun _ _ => True) Interrupts.start irq₀)
    {p : Place} {s : State}
    (hs : Machine.Reach (step c.toWzConsts bus engine p) (keepsUp c.toWzConsts)
      ⟨.ofDriver d mem, irq₀⟩ s) : Sound c.toWzConsts engine p s := by
  have hst := Driver.start_ok c.nofbufs_pos hs₀.pointerInv.live.descOld hstart
  have hsafe : Safe engine irq₀ :=
    hirq.invariant (start_safe engine) fun _ _ _ _ hP _ hstep => hP.step hstep
  exact hs.invariant (.started hs₀ hst hfifo hsafe mem) fun _ _ _ _ hP hok hstep =>
    hP.step hok hstep

/-- Nothing is left behind: whenever the driver is at rest, the blocks that the application has
taken and those in the FIFO are all packets that the device has completed, in their order. -/
theorem rest_all_reported (c : RingConsts) (s₀ : Sys) (hs₀ : s₀.Reachable c.toWzConsts)
    (hfifo : s₀.drv.ext.kfifo = []) (env : StartEnv) (d : Driver)
    (hstart : s₀.drv.ioctlDoWzStart c.toWzConsts env = .ok (d, 0)) (mem : Nat → Byte)
    (bus : DmaAddr → Nat) (found : Place → Bool) (p : Place) (bitmask : Word)
    (hp : probed found p = some bitmask) (irq₀ : Interrupts.State)
    (hirq : Machine.Reach (Interrupts.step (probed found)) (fun _ _ => True) Interrupts.start irq₀)
    (s : State)
    (hs : Machine.Reach (step c.toWzConsts bus (probed found) p) (keepsUp c.toWzConsts)
      ⟨.ofDriver d mem, irq₀⟩ s) (hrest : AtRest p bitmask s) :
    s.acq.got ++ s.acq.kfifo = blocks c.toWzConsts s.acq.done := by
  have h := sound_reach hs₀ hfifo hstart hirq hs
  obtain ⟨hscan, hunseen⟩ := h.rest hp hrest
  exact h.all_reported hscan hunseen

/-- The second packet is completed when the scan has ended and the work has not returned.  Its
interrupt comes as soon as the work enables it. -/
theorem rest_all_reported_race :
    ∃ (d : Driver) (s : State),
      Machine.Reach
        (step twoBuffers.toWzConsts BitVec.toNat (probed fun q => q = (0, true)) (0, true))
        (keepsUp twoBuffers.toWzConsts) ⟨.ofDriver d fun _ => 0, Interrupts.start⟩ s ∧
      s.irq.irqCount = 2 ∧ s.acq.done = [⟨true, 7, []⟩, ⟨true, 9, []⟩] ∧
      s.acq.got ++ s.acq.kfifo = blocks twoBuffers.toWzConsts s.acq.done := by
  obtain ⟨s₀, d, hs₀, hd, hrun⟩ := exists_start_of_exec twoBuffers.toWzConsts
    [.allocBuffers allocGranted] startGranted
    (fun s₀ d => s₀.drv.ext.kfifo.isEmpty && ((Machine.execOk
      (step twoBuffers.toWzConsts BitVec.toNat (probed fun q => q = (0, true)) (0, true))
      (keepsUp twoBuffers.toWzConsts) ⟨.ofDriver d fun _ => 0, Interrupts.start⟩
      ([.device ⟨true, 7, []⟩, .irq (.fire 1), .irq .disable, .irq (.users 0)] ++
        List.replicate 9 (.irq .schedule) ++
        [.irq (.engine (0, true) .enter), .irq (.engine (0, true) .clear),
          .irq (.engine (0, true) .look), .scan, .app .getbuf, .app (.confirm 0 0 0)] ++
        List.replicate 8 (.app (.restore 0)) ++
        [.scan, .device ⟨true, 9, []⟩, .irq (.enable (0, true)), .irq (.fire 1), .irq .disable,
          .irq (.users 0)] ++
        List.replicate 9 (.irq .schedule) ++
        [.irq (.engine (0, true) .enter), .irq (.engine (0, true) .clear),
          .irq (.engine (0, true) .look), .scan, .scan, .irq (.enable (0, true))])).map fun s =>
        decide (s.irq.isr = none ∧ s.irq.half (0, true) = .start ∧ s.irq.irqCount = 2 ∧
          s.acq.done = [⟨true, 7, []⟩, ⟨true, 9, []⟩])) == some true)
    (by decide +kernel)
  simp only [Bool.and_eq_true, List.isEmpty_iff, beq_iff_eq] at hrun
  obtain ⟨s, hs, hp⟩ := Machine.exists_reach_of_execOk _ _ _ _ _ hrun.2
  obtain ⟨hisr, hhalf, hcount, hdone⟩ := of_decide_eq_true hp
  have hrest : AtRest (0, true) 1 s := by
    refine ⟨hisr, ?_, ?_⟩
    · rw [hhalf]
      rintro (hq | hw)
      · cases hq
      · exact hw rfl
    · rw [hhalf]
      exact fun hboth => Bool.noConfusion hboth.2
  exact ⟨d, s, hs, hcount, hdone, rest_all_reported twoBuffers s₀ hs₀ hrun.1 startGranted d hd
    (fun _ => 0) BitVec.toNat (fun q => q = (0, true)) (0, true) 1 (by decide +kernel)
    Interrupts.start .start s hs hrest⟩

/-- Without the device and the application the driver comes to rest from every state, and then all
packets that were completed are reported. -/
theorem driver_comes_to_rest (c : RingConsts) (s₀ : Sys) (hs₀ : s₀.Reachable c.toWzConsts)
    (hfifo : s₀.drv.ext.kfifo = []) (env : StartEnv) (d : Driver)
    (hstart : s₀.drv.ioctlDoWzStart c.toWzConsts env = .ok (d, 0)) (mem : Nat → Byte)
    (bus : DmaAddr → Nat) (found : Place → Bool) (p : Place) (bitmask : Word)
    (hp : probed found p = some bitmask) (irq₀ : Interrupts.State)
    (hirq : Machine.Reach (Interrupts.step (probed found)) (fun _ _ => True) Interrupts.start irq₀)
    (s : State)
    (hs : Machine.Reach (step c.toWzConsts bus (probed found) p) (keepsUp c.toWzConsts)
      ⟨.ofDriver d mem, irq₀⟩ s) :
    ∃ s', Machine.Reach (step c.toWzConsts bus (probed found) p) (driverOnly (probed found) p) s s' ∧
      AtRest p bitmask s' ∧ s'.acq.got = s.acq.got ∧
      s.acq.got ++ s'.acq.kfifo = blocks c.toWzConsts s.acq.done := by
  have h := sound_reach hs₀ hfifo hstart hirq hs
  obtain ⟨s', hr, hrest⟩ := h.settles bus hp (probed_ne_zero hp)
  have h' := h.driver hr
  obtain ⟨hdone, hgot⟩ := driver_frame hr
  obtain ⟨hscan, hunseen⟩ := h'.rest hp hrest
  have hall := h'.all_reported hscan hunseen
  rw [hdone, hgot] at hall
  exact ⟨s', hr, hrest, hgot, hall⟩

/-- The device has completed a packet and nobody has looked at it. -/
theorem driver_comes_to_rest_unseen :
    ∃ (d : Driver) (s s' : State),
      Machine.Reach
        (step twoBuffers.toWzConsts BitVec.toNat (probed fun q => q = (0, true)) (0, true))
        (keepsUp twoBuffers.toWzConsts) ⟨.ofDriver d fun _ => 0, Interrupts.start⟩ s ∧
      s.acq.kfifo = [] ∧ s.acq.done = [⟨true, 7, []⟩] ∧
      Machine.Reach
        (step twoBuffers.toWzConsts BitVec.toNat (probed fun q => q = (0, true)) (0, true))
        (driverOnly (probed fun q => q = (0, true)) (0, true)) s s' ∧
      s.acq.got ++ s'.acq.kfifo = blocks twoBuffers.toWzConsts s.acq.done := by
  obtain ⟨s₀, d, hs₀, hd, hrun⟩ := exists_start_of_exec twoBuffers.toWzConsts
    [.allocBuffers allocGranted] startGranted
    (fun s₀ d => s₀.drv.ext.kfifo.isEmpty && ((Machine.execOk
      (step twoBuffers.toWzConsts BitVec.toNat (probed fun q => q = (0, true)) (0, true))
      (keepsUp twoBuffers.toWzConsts) ⟨.ofDriver d fun _ => 0, Interrupts.start⟩
      [.device ⟨true, 7, []⟩]).map fun s =>
        decide (s.acq.kfifo = [] ∧ s.acq.done = [⟨true, 7, []⟩])) == some true)
    (by decide +kernel)
  simp only [Bool.and_eq_true, List.isEmpty_iff, beq_iff_eq] at hrun
  obtain ⟨s, hs, hp⟩ := Machine.exists_reach_of_execOk _ _ _ _ _ hrun.2
  obtain ⟨hkfifo, hdone⟩ := of_decide_eq_true hp
  obtain ⟨s', hr, -, -, hall⟩ := driver_comes_to_rest twoBuffers s₀ hs₀ hrun.1 startGranted d hd
    (fun _ => 0) BitVec.toNat (fun q => q = (0, true)) (0, true) 1 (by decide +kernel)
    Interrupts.start .start s hs
  exact ⟨d, s, s', hs, hkfifo, hdone, hr, hall⟩

end Delivery
end WzXdma
