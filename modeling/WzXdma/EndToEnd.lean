import WzXdma.TesterDrain

/-!
# From the source to the tester

The device, the interrupts, the work of the engine and the tester together.  When the device pauses,
everything that it has completed can get to the tester without it: the driver comes to rest, and the
tester goes through the packets in the FIFO one after the other until it waits for the next one.
-/

namespace WzXdma

open Lib Lib.Cyclic

namespace EndToEnd

open Interrupts Tester

/-! ## All parts together -/

structure State where
  run : TestRun
  irq : Interrupts.State

/-- The driver's side: the acquisition and the interrupts. -/
def State.driver (s : State) : Delivery.State := ⟨s.run.acq, s.irq⟩

/-- The calls of the tester are left to the tester. -/
def isCall : Delivery.Act → Bool
  | .app a => Tester.isCall a
  | _ => false

inductive Act
  | driver (a : Delivery.Act)
  | tester
  deriving DecidableEq, Repr

def step (c : WzConsts) (bus : DmaAddr → Nat) (d : Driver) (engine : Place → Option Word) (p : Place)
    (s : State) : Act → Option State
  | .driver a =>
      if isCall a then none
      else (Delivery.step c bus engine p s.driver a).map fun t =>
        ⟨{ s.run with acq := t.acq }, t.irq⟩
  | .tester => (appStep c bus d s.run).map fun run => { s with run := run }

/-- The device sends these chunks, and fewer than `N` of its descriptors are completed and not
confirmed. -/
def deviceWaits (c : WzConsts) (cs : List (Chunk Byte)) (s : State) : Act → Prop
  | .driver (.device x) =>
      leavesRoom c s.run.acq (.device x) ∧ sends cs s.run.acq (.device x)
  | _ => True

instance (c : WzConsts) (cs : List (Chunk Byte)) (s : State) (a : Act) :
    Decidable (deviceWaits c cs s a) :=
  match a with
  | .driver (.device x) =>
      inferInstanceAs (Decidable (leavesRoom c s.run.acq (.device x) ∧ sends cs s.run.acq (.device x)))
  | .driver (.app _) => isTrue trivial
  | .driver (.irq _) => isTrue trivial
  | .driver .scan => isTrue trivial
  | .tester => isTrue trivial

/-- The device completes nothing. -/
def devicePauses (engine : Place → Option Word) (p : Place) (s : State) : Act → Prop
  | .driver (.app a) => a = .restore 0
  | .driver a => Delivery.driverOnly engine p s.driver a
  | .tester => True

section Steps

variable {c : RingConsts} {bus : DmaAddr → Nat} {cs : List (Chunk Byte)} {ws : List (BitVec 49)}
  {d : Driver} {engine : Place → Option Word} {p : Place} {s s' : State}

/-- Both the driver and the tester are where they should be. -/
structure Sound (c : RingConsts) (cs : List (Chunk Byte)) (ws : List (BitVec 49)) (d : Driver)
    (engine : Place → Option Word) (p : Place) (s : State) : Prop where
  driver : Delivery.Sound c.toWzConsts engine p s.driver
  tester : Following c cs ws d s.run

theorem keepsUp_of_deviceWaits {a : Delivery.Act} (ha : isCall a = false)
    (h : deviceWaits c.toWzConsts cs s (.driver a)) : Delivery.keepsUp c.toWzConsts s.driver a := by
  cases a with
  | device x => exact h.1
  | app b =>
      cases b with
      | confirm thread first last => cases ha
      | device x => trivial
      | restore thread => trivial
      | scanBegin => trivial
      | scanIter => trivial
      | getbuf => trivial
  | irq b => trivial
  | scan => trivial

/-- A step of the device or of the driver. -/
theorem Sound.driver_step (h : Sound c cs ws d engine p s)
    (hbuf : BuffersAt c.toWzConsts bus d.ext.bufDmaT (bufBase d))
    (hfit : ∀ ch ∈ cs, ch.data.length ≤ c.buflen) {a : Delivery.Act} (ha : isCall a = false)
    (hok : deviceWaits c.toWzConsts cs s (.driver a)) {t : Delivery.State}
    (ht : Delivery.step c.toWzConsts bus engine p s.driver a = some t) :
    Sound c cs ws d engine p ⟨{ s.run with acq := t.acq }, t.irq⟩ := by
  refine ⟨h.driver.step (keepsUp_of_deviceWaits ha hok) ht, ?_⟩
  obtain ⟨x, rfl, hacq, -⟩ | ⟨b, rfl, hb, hacq, -⟩ | ⟨rfl, hacq, -⟩ | ⟨b, rfl, -, -, -, hacq⟩ |
    ⟨rfl, hacq, -⟩ := Delivery.step_cases ht
  · exact h.tester.world hbuf hfit rfl hok hacq
  · refine h.tester.world hbuf hfit ha ?_ hacq
    cases b with
    | device x => cases hb
    | confirm thread first last => cases ha
    | restore thread => exact ⟨trivial, trivial⟩
    | scanBegin => exact ⟨trivial, trivial⟩
    | scanIter => exact ⟨trivial, trivial⟩
    | getbuf => exact ⟨trivial, trivial⟩
  · exact h.tester.world hbuf hfit (a := .scanBegin) rfl ⟨trivial, trivial⟩ hacq
  · rw [hacq]
    exact h.tester
  · exact h.tester.world hbuf hfit (a := .scanIter) rfl ⟨trivial, trivial⟩ hacq

/-- A step of the tester. -/
theorem Sound.tester_step (h : Sound c cs ws d engine p s)
    (hbuf : BuffersAt c.toWzConsts bus d.ext.bufDmaT (bufBase d))
    (hpages : HasPages c.toWzConsts d) (hcs : Chunks.Sends c.buflen (sentBytes ws) cs)
    {run : TestRun} (hs : appStep c.toWzConsts bus d s.run = some run) :
    Sound c cs ws d engine p { s with run := run } := by
  have hrun : Following c cs ws d run := h.tester.step hbuf hpages hcs (a := .app) trivial hs
  refine ⟨?_, hrun⟩
  obtain ⟨bdesc, q, -, hq, -, -, -, rfl⟩ | ⟨bdesc, -, rfl⟩ | ⟨v, -, rfl⟩ |
    ⟨bdesc, q, hphase, hq, rfl⟩ | ⟨-, -, rfl⟩ := appStep_cases hs
  · exact @Delivery.Sound.app _ bus _ _ _ ⟨q, s.irq⟩ h.driver .getbuf trivial rfl hq rfl
  · exact h.driver
  · exact h.driver
  · have hat := h.tester.phase
    rw [hphase] at hat
    obtain ⟨⟨-, hdb, -⟩, -⟩ := hat
    have horder : confirmsInOrder s.run.acq
        (.confirm 0 bdesc.firstDesc.toNat bdesc.lastDesc.toNat) := ⟨rfl, bdesc, hdb, rfl, rfl⟩
    exact @Delivery.Sound.app _ bus _ _ _ ⟨q, s.irq⟩ h.driver _ horder rfl hq rfl
  · exact h.driver

theorem Sound.step (h : Sound c cs ws d engine p s)
    (hbuf : BuffersAt c.toWzConsts bus d.ext.bufDmaT (bufBase d))
    (hpages : HasPages c.toWzConsts d) (hcs : Chunks.Sends c.buflen (sentBytes ws) cs) {a : Act}
    (hok : deviceWaits c.toWzConsts cs s a)
    (hs : EndToEnd.step c.toWzConsts bus d engine p s a = some s') :
    Sound c cs ws d engine p s' := by
  cases a with
  | driver a =>
      rw [EndToEnd.step] at hs
      split at hs
      · cases hs
      · rename_i ha
        obtain ⟨t, ht, rfl⟩ := Option.map_eq_some_iff.mp hs
        exact h.driver_step hbuf (fun ch hch => hcs.data_le hch) (by simpa using ha) hok ht
  | tester =>
      obtain ⟨run, hrun, rfl⟩ := Option.map_eq_some_iff.mp hs
      exact h.tester_step hbuf hpages hcs hrun

/-- The device completes a descriptor when its ring lets it. -/
theorem device_step (hp : (engine p).isSome) {x : Completion} {q : Acq}
    (hq : s.run.acq.step c.toWzConsts bus (.device x) = some q) :
    ∃ irq, EndToEnd.step c.toWzConsts bus d engine p s (.driver (.device x)) =
        some ⟨{ s.run with acq := q }, irq⟩ ∧ (irq.half p).raised = true := by
  have hhalf : (s.irq.half p).step .event =
      some { s.irq.half p with raised := true, unseen := true } := rfl
  have hirq : Interrupts.step engine s.irq (.engine p .event) = some { s.irq with
      half := Function.update s.irq.half p { s.irq.half p with raised := true, unseen := true } } := by
    rw [Interrupts.step, if_pos hp, hhalf, Option.map_some]
  have hdelivery : Delivery.step c.toWzConsts bus engine p s.driver (.device x) = some ⟨q, _⟩ :=
    Option.bind_eq_some_iff.mpr ⟨q, hq, Option.map_eq_some_iff.mpr ⟨_, hirq, rfl⟩⟩
  refine ⟨_, Option.map_eq_some_iff.mpr ⟨_, hdelivery, rfl⟩, ?_⟩
  show (Function.update s.irq.half p _ p).raised = true
  rw [Function.update_self]

/-! ## The device pauses -/

/-- The driver comes to rest while the tester does nothing. -/
theorem driver_reach {t : Delivery.State}
    (h : Machine.Reach (Delivery.step c.toWzConsts bus engine p) (Delivery.driverOnly engine p) s.driver
      t) :
    Machine.Reach (step c.toWzConsts bus d engine p) (devicePauses engine p) s
      ⟨{ s.run with acq := t.acq }, t.irq⟩ := by
  refine h.map (fun t => (⟨{ s.run with acq := t.acq }, t.irq⟩ : State)) fun u a u' hok hstep =>
    .inr ⟨Act.driver a, ?_, ?_⟩
  · cases a with
    | device x => cases hok
    | app b => cases hok
    | irq b => exact hok
    | scan => trivial
  · have ha : isCall a = false := by
      cases a with
      | device x => rfl
      | app b => cases hok
      | irq b => rfl
      | scan => rfl
    rw [step, ha, if_neg Bool.false_ne_true]
    exact Option.map_eq_some_iff.mpr ⟨u', hstep, rfl⟩

/-- The tester goes on while the driver is at rest. -/
theorem tester_reach {run : TestRun} (irq : Interrupts.State)
    (h : Machine.Reach (Tester.step c.toWzConsts bus d) testerOnly s.run run) :
    Machine.Reach (step c.toWzConsts bus d engine p) (devicePauses engine p) ⟨s.run, irq⟩
      ⟨run, irq⟩ := by
  refine h.map (fun run => (⟨run, irq⟩ : State)) fun u a u' hok hstep => .inr ?_
  cases a with
  | app =>
      refine ⟨Act.tester, trivial, ?_⟩
      exact Option.map_eq_some_iff.mpr ⟨u', hstep, rfl⟩
  | world a =>
      cases a with
      | restore thread =>
          obtain rfl : thread = 0 := hok
          rw [Tester.step, if_neg (by decide)] at hstep
          obtain ⟨q, hq, rfl⟩ := Option.map_eq_some_iff.mp hstep
          refine ⟨Act.driver (.app (.restore 0)), rfl, ?_⟩
          have hdelivery : Delivery.step c.toWzConsts bus engine p ⟨u.acq, irq⟩ (.app (.restore 0)) =
              some ⟨q, irq⟩ := by
            rw [Delivery.step, if_pos (by decide), hq, Option.map_some]
          rw [step, if_neg (by decide)]
          exact Option.map_eq_some_iff.mpr ⟨_, hdelivery, rfl⟩
      | device x => cases hok
      | confirm thread first last => cases hok
      | scanBegin => cases hok
      | scanIter => cases hok
      | getbuf => cases hok

theorem deviceWaits_of_devicePauses {a : Act} (h : devicePauses engine p s a) :
    deviceWaits c.toWzConsts cs s a := by
  cases a with
  | driver a =>
      cases a with
      | device x => cases h
      | app b => trivial
      | irq b => trivial
      | scan => trivial
  | tester => trivial

theorem Sound.reach (h : Sound c cs ws d engine p s)
    (hbuf : BuffersAt c.toWzConsts bus d.ext.bufDmaT (bufBase d))
    (hpages : HasPages c.toWzConsts d) (hcs : Chunks.Sends c.buflen (sentBytes ws) cs)
    (hs : Machine.Reach (EndToEnd.step c.toWzConsts bus d engine p) (devicePauses engine p) s s') :
    Sound c cs ws d engine p s' :=
  hs.invariant h fun _ _ _ _ hP hok hstep =>
    hP.step hbuf hpages hcs (deviceWaits_of_devicePauses hok) hstep

/-- What is completed gets to the tester. -/
theorem Sound.drains (h : Sound c cs ws d engine p s)
    (hbuf : BuffersAt c.toWzConsts bus d.ext.bufDmaT (bufBase d))
    (hpages : HasPages c.toWzConsts d) (hcs : Chunks.Sends c.buflen (sentBytes ws) cs)
    {bitmask : Word} (hp : engine p = some bitmask) (hbit : bitmask ≠ 0) :
    ∃ s', Machine.Reach (EndToEnd.step c.toWzConsts bus d engine p) (devicePauses engine p) s s' ∧
      Delivery.AtRest p bitmask s'.driver ∧ s'.run.app.phase = .getbuf ∧ s'.run.acq.kfifo = [] ∧
      s'.run.acq.done = s.run.acq.done ∧
      s'.run.acq.got = blocks c.toWzConsts s.run.acq.done ∧ Sound c cs ws d engine p s' := by
  obtain ⟨t, ht, hrest⟩ := h.driver.settles bus hp hbit
  have hr := driver_reach (d := d) ht
  obtain ⟨run, hrun, hphase, hfifo⟩ := (h.reach hbuf hpages hcs hr).tester.drains hbuf hpages hcs
  have hr' := Machine.Reach.trans hr (tester_reach t.irq hrun)
  have h' := h.reach hbuf hpages hcs hr'
  have hdone : run.acq.done = s.run.acq.done :=
    (tester_frame hrun).1.trans (Delivery.driver_frame ht).1
  have hrest' : Delivery.AtRest p bitmask (State.driver ⟨run, t.irq⟩) :=
    ⟨hrest.handler, hrest.work, hrest.request⟩
  obtain ⟨hscan, hunseen⟩ := h'.driver.rest hp hrest'
  have hall : run.acq.got ++ run.acq.kfifo = blocks c.toWzConsts run.acq.done :=
    h'.driver.all_reported hscan hunseen
  rw [hfifo, List.append_nil, hdone] at hall
  exact ⟨⟨run, t.irq⟩, hr', hrest', hphase, hfifo, hdone, hall, h'⟩

end Steps

/-- Right after `START` -/
def started (d : Driver) (mem : Nat → Byte) (irq : Interrupts.State) : State :=
  ⟨Tester.started d mem, irq⟩

end EndToEnd

end WzXdma
