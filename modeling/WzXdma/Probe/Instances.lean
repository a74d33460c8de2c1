import WzXdma.Lib.Machine
import WzXdma.Probe.Unwind

/-!
# Instance numbers over the life of the module

`dev_present` says which instance numbers are in use.  `create_sg_char` takes the first free one, and
`remove` gives it back.  `xdma_init` clears the table as well, after `pci_register_driver` has already
probed the devices that were there.
-/

namespace WzXdma
namespace Probe

open Lib.Loop Lib.Machine

/-! ## The choice of a number -/

/-- The number of the board was free before and is in use now. -/
def New (g : Globals) (s : State) : Prop :=
  g.devPresent s.lro.instanceNo ≠ 1 ∧ s.glob.devPresent s.lro.instanceNo = 1 ∧
    s.lro.instanceNo < maxXdmaDevices

/-- No number is given back by a probe. -/
def Grows (g : Globals) (s : State) : Prop := ∀ j, g.devPresent j = 1 → s.glob.devPresent j = 1

section Numbers

variable {board : Board} {ans : Answers} {g : Globals} {s t : State} {x : CharDev} {rc : Int}

theorem New.of_place (h : New g s) (hplace : place t = place s) : New g t := by
  have hglob : t.glob = s.glob := congrArg (fun i => i.1) hplace
  have hinst : t.lro.instanceNo = s.lro.instanceNo := congrArg (fun i => i.2.2) hplace
  unfold New
  rw [hglob, hinst]
  exact h

theorem Grows.of_place (h : Grows g s) (hplace : place t = place s) : Grows g t := by
  have hglob : t.glob = s.glob := congrArg (fun i => i.1) hplace
  unfold Grows
  rw [hglob]
  exact h

theorem genDevMajor_devPresent (dynMajor : Nat) (s : State) :
    (genDevMajor dynMajor s).2.glob.devPresent = s.glob.devPresent := by
  unfold genDevMajor
  split
  · split <;> rfl
  · rfl

/-- What a character device needs to know about the numbers: the board with a major number has an
instance number. -/
structure Numbered (g : Globals) (s : State) : Prop where
  grows : Grows g s
  chosen : s.lro.major ≠ 0 → New g s

theorem newInstance_new {dynMajor : Nat} (h : Numbered g s) (hs : newInstance dynMajor s = some t) :
    Grows g t ∧ New g t := by
  unfold newInstance at hs
  split at hs
  · have hfree := freeInstance_spec s.glob.devPresent (maxXdmaDevices + 1) 0 (Nat.zero_le _)
      (by omega)
    revert hs hfree
    generalize freeInstance s.glob.devPresent (maxXdmaDevices + 1) 0 = i
    intro hs hfree
    dsimp only at hs
    split at hs
    · cases hs
    obtain rfl := Option.some.inj hs
    have hlt : i < maxXdmaDevices := by omega
    have hpresent := genDevMajor_devPresent dynMajor (s.takeSlot i)
    unfold Grows New
    dsimp only
    rw [hpresent]
    unfold State.takeSlot
    refine ⟨fun j hj => ?_, fun hused => hfree.2 hlt (h.grows i hused), by simp, hlt⟩
    by_cases hji : j = i
    · simp [hji]
    · simpa [hji] using h.grows j hj
  · next hmajor =>
      obtain rfl := Option.some.inj hs
      exact ⟨h.grows, h.chosen hmajor⟩

/-- What `create_sg_char` does to the numbers. -/
structure NumberedBy (g : Globals) (s : State) (r : State × Bool) : Prop where
  numbered : Numbered g r.1
  kept : New g s → New g r.1
  made : r.2 = true → New g r.1

theorem NumberedBy.of_same (h : Numbered g s) (hplace : place t = place s) :
    NumberedBy g s (t, false) := by
  have hmajor : t.lro.major = s.lro.major := congrArg (fun i => i.2.1) hplace
  exact ⟨⟨h.grows.of_place hplace, fun hne => (h.chosen (hmajor ▸ hne)).of_place hplace⟩,
    fun hnew => hnew.of_place hplace, fun hno => (nomatch hno)⟩

theorem NumberedBy.of_new {u : State} (made : Bool) (hgrows : Grows g u) (hnew : New g u)
    (hplace : place t = place u) : NumberedBy g s (t, made) :=
  ⟨⟨hgrows.of_place hplace, fun _ => hnew.of_place hplace⟩, fun _ => hnew.of_place hplace,
    fun _ => hnew.of_place hplace⟩

theorem createSgChar_numbers (a : CharAnswers) (x : CharDev) (h : Numbered g s) :
    NumberedBy g s (createSgChar a x s) := by
  unfold createSgChar
  split
  · exact .of_same h rfl
  have hacquired : Numbered g (s.acquire (.charMem x)) := ⟨h.grows, h.chosen⟩
  cases hnew : newInstance a.dynMajor (s.acquire (.charMem x)) with
  | none =>
      simp only [hnew]
      exact .of_same h rfl
  | some t =>
      simp only [hnew]
      obtain ⟨hgrows, hchosen⟩ := newInstance_new hacquired hnew
      have hreg : place (if t.glob.major ≠ 0 then t.take (.region (genDevMinor x) 1) else t) =
          place t := by
        split <;> rfl
      split
      · exact .of_new false hgrows hchosen rfl
      split
      · exact .of_new false hgrows hchosen rfl
      split
      · exact .of_new false hgrows hchosen hreg
      split
      · exact .of_new false hgrows hchosen hreg
      · exact .of_new true hgrows hchosen hreg

/-- The invariant of `create_interfaces`.  Behind the control device the board has a number. -/
structure NumberedTo (g : Globals) (rest : List CharDev) (s : State) : Prop where
  numbered : Numbered g s
  chosen : .ctrl ∉ rest → New g s

theorem NumberedTo.ok {rest : List CharDev} (h : NumberedTo g (x :: rest) s)
    (hok : createInterface ans x s = .ok t) : NumberedTo g rest t := by
  have hr := createSgChar_numbers (ans.char x) x h.numbered
  unfold createInterface at hok
  by_cases hx : x = .ctrl
  · subst hx
    simp only [wanted, if_true, checked, true_and] at hok
    split at hok
    · cases hok
    next hmade =>
    obtain rfl := Except.ok.inj hok
    have hnew := hr.made (by simpa using hmade)
    exact ⟨⟨hr.numbered.grows, hr.numbered.chosen⟩, fun _ => hnew⟩
  have hbehind : .ctrl ∉ rest → New g s := fun hno => h.chosen (by simp [Ne.symm hx, hno])
  split at hok
  · dsimp only at hok
    split at hok
    · cases hok
    · obtain rfl := Except.ok.inj hok
      exact ⟨⟨hr.numbered.grows, hr.numbered.chosen⟩, fun hno => hr.kept (hbehind hno)⟩
  · obtain rfl := Except.ok.inj hok
    exact ⟨h.numbered, hbehind⟩

theorem NumberedTo.error {rest : List CharDev} (h : NumberedTo g (x :: rest) s)
    (herr : createInterface ans x s = .error t) : Grows g t := by
  have hr := createSgChar_numbers (ans.char x) x h.numbered
  unfold createInterface at herr
  split at herr
  · dsimp only at herr
    split at herr
    · obtain rfl := Except.error.inj herr
      exact hr.numbered.grows
    · cases herr
  · cases herr

theorem place_destroyInterfaces (s : State) : place (destroyInterfaces s) = place s := by
  refine each_frame place (fun x t => ?_) _ s
  split <;> rfl

/-- `create_interfaces` gives a board without a number a new one. -/
theorem createInterfaces_numbers (ans : Answers) (hmajor : s.lro.major = 0) :
    (∀ t, createInterfaces ans s = .ok t → Grows s.glob t ∧ New s.glob t) ∧
      ∀ t rc, createInterfaces ans s = .error (t, rc) → Grows s.glob t := by
  have hstart : NumberedTo s.glob createOrder s :=
    ⟨⟨fun _ hj => hj, fun hno => absurd hmajor hno⟩, fun hno => absurd (by decide) hno⟩
  unfold createInterfaces
  cases hloop : forEach (createInterface ans) createOrder s with
  | ok u =>
      have hinv := forEach_ok (NumberedTo s.glob) hstart (fun x rest t t' hI hx => hI.ok hx) hloop
      refine ⟨fun t ht => ?_, fun t rc ht => (nomatch ht)⟩
      obtain rfl := Except.ok.inj ht
      exact ⟨hinv.numbered.grows, hinv.chosen List.not_mem_nil⟩
  | error u =>
      obtain ⟨x, rest, v, -, hI, hx⟩ := forEach_error (NumberedTo s.glob) hstart
        (fun x rest t t' hI hx => hI.ok hx) hloop
      refine ⟨fun t ht => (nomatch ht), fun t rc ht => ?_⟩
      obtain rfl := (congrArg Prod.fst (Except.error.inj ht)).symm
      exact (hI.error hx).of_place (place_destroyInterfaces u)

/-- A successful end has a new number, and a failing one has given none back. -/
def Numbers (g : Globals) (r : Except (State × Int) State) : Prop :=
  (∀ t, r = .ok t → Grows g t ∧ New g t) ∧ ∀ t rc, r = .error (t, rc) → Grows g t

theorem probeSteps_numbers (board : Board) (ans : Answers) (hmajor : s.lro.major = 0) :
    Numbers s.glob (probeSteps board ans s) := by
  refine probeSteps_ids (Q := Numbers s.glob) (fun t rc hids => ?_) fun s₆ h₆ => ?_
  · refine ⟨fun t' ht => (nomatch ht), fun t' rc' ht => ?_⟩
    obtain rfl := congrArg Prod.fst (Except.error.inj ht)
    exact Grows.of_place (s := s) (fun _ hj => hj) (congrArg Prod.fst hids)
  have hglob : s₆.glob = s.glob := congrArg (fun i => i.1.1) h₆
  have hmajor₆ : s₆.lro.major = 0 := (congrArg (fun i => i.1.2.1) h₆).trans hmajor
  obtain ⟨hok, herr⟩ := createInterfaces_numbers ans hmajor₆
  rw [hglob] at hok herr
  cases hr : createInterfaces ans s₆ with
  | error e =>
      refine ⟨fun t ht => (nomatch ht), fun t rc ht => ?_⟩
      obtain rfl := congrArg Prod.fst (Except.error.inj ht)
      exact (herr e.1 e.2 hr).of_place (congrArg Prod.fst (ids_errInterfaces e.1))
  | ok u =>
      obtain ⟨hgrows, hnew⟩ := hok u hr
      show Numbers s.glob (orGoto errInterfaces (deviceCreateFile ans u))
      unfold deviceCreateFile
      split
      · refine ⟨fun t ht => (nomatch ht), fun t rc ht => ?_⟩
        obtain rfl := congrArg Prod.fst (Except.error.inj ht)
        exact hgrows.of_place (congrArg Prod.fst (ids_errInterfaces u))
      · refine ⟨fun t ht => ?_, fun t rc ht => (nomatch ht)⟩
        obtain rfl := Except.ok.inj ht
        exact ⟨hgrows, hnew⟩

/-- What `probe` does to the numbers of the module. -/
theorem probe_numbers (board : Board) (ans : Answers) (g : Globals) :
    (∀ j, g.devPresent j = 1 → (probe board ans g).glob.devPresent j = 1) ∧
      ∀ lro, (probe board ans g).lro = some lro →
        g.devPresent lro.instanceNo ≠ 1 ∧
          (probe board ans g).glob.devPresent lro.instanceNo = 1 ∧
          lro.instanceNo < maxXdmaDevices := by
  unfold probe
  dsimp only
  split
  · exact ⟨fun _ hj => hj, fun lro hno => (nomatch hno)⟩
  split
  · exact ⟨fun _ hj => hj, fun lro hno => (nomatch hno)⟩
  have hsteps := probeSteps_numbers board ans
    (s := (State.acquire ⟨g, {}, fun _ => .free, fun _ => .free⟩ .lro).acquire .enable) rfl
  cases hr : probeSteps board ans ((State.acquire ⟨g, {}, fun _ => .free, fun _ => .free⟩ .lro).acquire .enable) with
  | ok t =>
      obtain ⟨hgrows, hnew⟩ := hsteps.1 t hr
      refine ⟨hgrows, fun lro hlro => ?_⟩
      obtain rfl := Option.some.inj hlro
      exact hnew
  | error e => exact ⟨hsteps.2 e.1 e.2 hr, fun lro hno => (nomatch hno)⟩

end Numbers

/-! ## The life of the module -/

/-- The data of a device that the driver is bound to. -/
structure Bound where
  lro : XdmaDev
  book : Lib.Holdings.Book Res
  numbers : Lib.Holdings.Book Number

/-- The module and the devices, each with the number of its `pci_dev`.  A device whose probe returned
0 without data is not among them, since `remove` does nothing for it. -/
structure Module where
  initialised : Bool
  glob : Globals
  live : List (Nat × Bound)

/-- `registered` is the return of `pci_register_driver` in `xdma_init`. -/
inductive Event
  | probe (pdev : Nat) (board : Board) (ans : Answers)
  | registered
  | remove (pdev : Nat)

def Event.isRegistered : Event → Bool
  | .registered => true
  | _ => false

/-- The loop at the end of `xdma_init`. -/
def clearDevPresent (glob : Globals) : Globals :=
  { glob with
    devPresent := upTo (fun i present => Function.update present i 0) maxXdmaDevices glob.devPresent }

namespace Module

/-- The module right after it was loaded. -/
def loaded (major : Nat) (pollMode : Bool) : Module := ⟨false, ⟨fun _ => 0, major, pollMode⟩, []⟩

/-- Devices that are there already are probed before `registered`.  Hot-plug and removal come later. -/
def step (m : Module) : Event → Option Module
  | .probe pdev board ans =>
      if pdev ∈ m.live.map Prod.fst then none
      else
        let r := Probe.probe board ans m.glob
        some { m with
          glob := r.glob
          live := r.lro.elim m.live fun lro => (pdev, ⟨lro, r.book, r.numbers⟩) :: m.live }
  | .registered =>
      if m.initialised then none
      else some { m with initialised := true, glob := clearDevPresent m.glob }
  | .remove pdev =>
      if m.initialised then
        (m.live.lookup pdev).map fun b =>
          { m with
            glob := (Probe.remove ⟨m.glob, b.lro, b.book, b.numbers⟩).glob
            live := m.live.filter fun d => d.1 ≠ pdev }
      else none

/-- Live devices have different instance numbers, and these are marked as used. -/
def Distinct (m : Module) : Prop :=
  (∀ d ∈ m.live, ∀ e ∈ m.live, d.1 ≠ e.1 → d.2.lro.instanceNo ≠ e.2.lro.instanceNo) ∧
    ∀ d ∈ m.live, m.glob.devPresent d.2.lro.instanceNo = 1

/-- No device is bound when `pci_register_driver` returns. -/
def RegistersNone (m : Module) (e : Event) : Prop := e.isRegistered = true → m.live.isEmpty = true

/-- What holds in every state of a run. -/
structure Inv (m : Module) : Prop where
  distinct : Distinct m
  inside : ∀ d ∈ m.live, d.2.lro.instanceNo < maxXdmaDevices

variable {m m' : Module} {e : Event}

theorem clearDevPresent_lt (glob : Globals) {j : Nat} (hj : j < maxXdmaDevices) :
    (clearDevPresent glob).devPresent j = 0 := by
  have hbody : ∀ i (present : Nat → Nat), i < maxXdmaDevices → (∀ k, k < i → present k = 0) →
      ∀ k, k < i + 1 → Function.update present i 0 k = 0 := by
    intro i present _ hbelow k hk
    by_cases hki : k = i
    · simp [hki]
    · rw [Function.update_of_ne hki]
      exact hbelow k (by omega)
  exact upTo_invariant (fun i (present : Nat → Nat) => ∀ k, k < i → present k = 0)
    (fun k hk => absurd hk (Nat.not_lt_zero k)) hbody j hj

theorem remove_devPresent (s : State) :
    (Probe.remove s).glob.devPresent =
      Function.update s.glob.devPresent s.lro.instanceNo 0 := by
  have hplace : place (unmapBars (irqTeardown (removeEngines (destroyInterfaces s)))) = place s := by
    have hids := (ids_unmapBars (irqTeardown (removeEngines (destroyInterfaces s)))).trans
      ((ids_irqTeardown _).trans (ids_removeEngines _))
    exact (congrArg Prod.fst hids).trans (place_destroyInterfaces s)
  unfold Probe.remove
  revert hplace
  generalize unmapBars (irqTeardown (removeEngines (destroyInterfaces s))) = t
  intro hplace
  have hglob : t.glob = s.glob := congrArg (fun i => i.1) hplace
  have hinst : t.lro.instanceNo = s.lro.instanceNo := congrArg (fun i => i.2.2) hplace
  simp only [State.release_glob, State.release_lro, apply_ite State.glob, apply_ite State.lro,
    ite_self, hglob, hinst]

theorem Inv.probe {pdev : Nat} {board : Board} {ans : Answers} (h : Inv m)
    (hs : m.step (.probe pdev board ans) = some m') : Inv m' := by
  obtain ⟨hgrows, hnew⟩ := probe_numbers board ans m.glob
  simp only [step] at hs
  split at hs
  · cases hs
  next hkey =>
  obtain rfl := Option.some.inj hs
  cases hlro : (Probe.probe board ans m.glob).lro with
  | none => exact ⟨⟨h.distinct.1, fun d hd => hgrows _ (h.distinct.2 d hd)⟩, h.inside⟩
  | some lro =>
      obtain ⟨hfree, hused, hlt⟩ := hnew lro hlro
      -- a number that is in use by a live device was not free
      have hother : ∀ d ∈ m.live, d.2.lro.instanceNo ≠ lro.instanceNo :=
        fun d hd heq => hfree (heq ▸ h.distinct.2 d hd)
      simp only [Option.elim_some]
      refine ⟨⟨?_, ?_⟩, List.forall_mem_cons.2 ⟨hlt, h.inside⟩⟩
      · refine List.forall_mem_cons.2 ⟨?_, fun d hd => ?_⟩
        · exact List.forall_mem_cons.2
            ⟨fun hne => absurd rfl hne, fun e he _ => (hother e he).symm⟩
        · exact List.forall_mem_cons.2 ⟨fun _ => hother d hd, h.distinct.1 d hd⟩
      · exact List.forall_mem_cons.2 ⟨hused, fun d hd => hgrows _ (h.distinct.2 d hd)⟩

theorem Inv.remove {pdev : Nat} (h : Inv m) (hs : m.step (.remove pdev) = some m') : Inv m' := by
  simp only [step] at hs
  split at hs
  · obtain ⟨b, hb, rfl⟩ := Option.map_eq_some_iff.1 hs
    obtain ⟨l₁, l₂, hlive, -⟩ := List.lookup_eq_some_iff.1 hb
    have hmem : (pdev, b) ∈ m.live := by simp [hlive]
    have hleft : ∀ d ∈ m.live.filter (fun d => d.1 ≠ pdev), d ∈ m.live ∧ d.1 ≠ pdev := by
      intro d hd
      simpa using List.mem_filter.1 hd
    refine ⟨⟨fun d hd e he => h.distinct.1 d (hleft d hd).1 e (hleft e he).1, fun d hd => ?_⟩,
      fun d hd => h.inside d (hleft d hd).1⟩
    obtain ⟨hd', hne⟩ := hleft d hd
    rw [remove_devPresent, Function.update_of_ne (h.distinct.1 d hd' _ hmem hne)]
    exact h.distinct.2 d hd'
  · cases hs

theorem Inv.registered (hs : m.step .registered = some m') (hnone : m.live.isEmpty = true) :
    Inv m' := by
  simp only [step] at hs
  split at hs
  · cases hs
  · obtain rfl := Option.some.inj hs
    have hlive : m.live = [] := List.isEmpty_iff.1 hnone
    simp only [hlive]
    exact ⟨⟨fun d hd => absurd hd List.not_mem_nil, fun d hd => absurd hd List.not_mem_nil⟩,
      fun d hd => absurd hd List.not_mem_nil⟩

theorem inv_of_reach {major : Nat} {pollMode : Bool}
    (h : Reach step RegistersNone (loaded major pollMode) m) : Inv m := by
  refine h.invariant ⟨⟨fun d hd => absurd hd List.not_mem_nil,
    fun d hd => absurd hd List.not_mem_nil⟩, fun d hd => absurd hd List.not_mem_nil⟩ ?_
  intro m e m' _ hinv hok hs
  cases e with
  | probe pdev board ans => exact hinv.probe hs
  | registered => exact .registered hs (hok rfl)
  | remove pdev => exact hinv.remove hs

/-- Clearing the table forgets every device that is bound. -/
theorem distinct_registered_iff (hinv : Inv m) (hs : m.step .registered = some m') :
    Distinct m' ↔ m.live = [] := by
  constructor
  · intro hdistinct
    simp only [step] at hs
    split at hs
    · cases hs
    obtain rfl := Option.some.inj hs
    refine List.eq_nil_iff_forall_not_mem.2 fun d hd => ?_
    have hused : (clearDevPresent m.glob).devPresent d.2.lro.instanceNo = 1 := hdistinct.2 d hd
    rw [clearDevPresent_lt m.glob (hinv.inside d hd)] at hused
    cases hused
  · exact fun hnone => (Inv.registered hs (List.isEmpty_iff.2 hnone)).distinct

end Module

/-- Live devices have distinct instance numbers as long as `xdma_init` finds no device to probe.  When
it does, clearing the table breaks this at once. -/
theorem instances_distinct (major : Nat) (pollMode : Bool) :
    (∀ m, Reach Module.step Module.RegistersNone (Module.loaded major pollMode) m →
      m.initialised = true → m.Distinct) ∧
    ∀ m m', Reach Module.step Module.RegistersNone (Module.loaded major pollMode) m →
      m.step .registered = some m' → (m'.Distinct ↔ m.live = []) :=
  ⟨fun _ h _ => (Module.inv_of_reach h).distinct,
    fun _ _ h hs => Module.distinct_registered_iff (Module.inv_of_reach h) hs⟩

namespace Module

instance (m : Module) (e : Event) : Decidable (RegistersNone m e) :=
  inferInstanceAs (Decidable (_ → _))

/-- The numbers of the live devices. -/
def numbers (m : Module) : List (Nat × Nat) := m.live.map fun d => (d.1, d.2.lro.instanceNo)

end Module

/-- Three boards are plugged in, and the second one is replaced. -/
theorem instances_distinct_hotplug :
    ∃ m, (Reach Module.step Module.RegistersNone (Module.loaded 0 false) m ∧
      (m.initialised && m.numbers = [(3, 1), (2, 2), (0, 0)]) = true) ∧ m.Distinct := by
  obtain ⟨m, hreach, hm⟩ := exists_reach_of_execOk Module.step Module.RegistersNone
    (Module.loaded 0 false)
    [.registered, .probe 0 (boardExample false) {}, .probe 1 (boardExample false) {},
      .probe 2 (boardExample true) {}, .remove 1, .probe 3 (boardExample true) {}]
    (fun m => m.initialised && m.numbers = [(3, 1), (2, 2), (0, 0)]) (by decide +kernel)
  exact ⟨m, ⟨hreach, hm⟩, (instances_distinct 0 false).1 m hreach (Bool.and_eq_true_iff.1 hm).1⟩

/-- One board is there when the module is loaded, and another one is plugged in later.  Both have
instance 0. -/
theorem instances_collide_after_init :
    ∃ m, Reach Module.step (fun _ _ => True) (Module.loaded 0 false) m ∧ m.initialised = true ∧
      m.numbers = [(1, 0), (0, 0)] ∧ ¬m.Distinct := by
  obtain ⟨m, hreach, hm⟩ := exists_reach_of_execOk Module.step (fun _ _ => True)
    (Module.loaded 0 false)
    [.probe 0 (boardExample false) {}, .registered, .probe 1 (boardExample false) {}]
    (fun m => m.initialised && m.numbers = [(1, 0), (0, 0)]) (by decide +kernel)
  obtain ⟨hinit, hnumbers⟩ := Bool.and_eq_true_iff.1 hm
  have hlist : m.numbers = [(1, 0), (0, 0)] := of_decide_eq_true hnumbers
  refine ⟨m, hreach, hinit, hlist, fun hdistinct => ?_⟩
  obtain ⟨d, hd, hd'⟩ := List.mem_map.1 (hlist ▸ (by simp : (1, 0) ∈ [(1, 0), (0, 0)]))
  obtain ⟨e, he, he'⟩ := List.mem_map.1 (hlist ▸ (by simp : (0, 0) ∈ [(1, 0), (0, 0)]))
  simp only [Prod.mk.injEq] at hd' he'
  exact hdistinct.1 d hd e he (by omega) (by omega)

end Probe
end WzXdma
