import WzXdma.Probe.Interfaces

/-!
# Probe and its unwinding

`probe` runs the steps of the modules before this one, and leaves through a ladder of labels when
one of them fails.  What is held then is read off the book of the state the ladder ends in.

The ladder disables MSI but not MSI-X, `probe_engines` keeps its engines when a channel from the card
to the host fails, and a failing attribute file leaves the character devices.  Nothing gives back the
entry of `dev_present`, and of the numbers that `alloc_chrdev_region` has reserved nothing either,
since each device unregisters its own number only.  A device whose regions are in use is left enabled
on purpose.
-/

namespace WzXdma
namespace Probe

open Lib.Loop Lib.Holdings

/-! ## The labels -/

def errEnable (s : State) : State := s.release .lro

def errScanMsi (s : State) : State :=
  errEnable (if s.lro.regionsInUse then s else s.release .enable)

def errRegions (s : State) : State := errScanMsi (if s.lro.msiEnabled then s.release .msi else s)

def errMap (s : State) : State := errRegions (if s.lro.gotRegions then s.release .regions else s)

/-- `err_mask`, which is also `err_interrupts` -/
def errMask (s : State) : State := errMap (unmapBars s)

def errEngines (s : State) : State := errMask (irqTeardown s)

/-- `err_interfaces`, which is also `err_sgdma_cdev` -/
def errInterfaces (s : State) : State := errEngines (removeEngines s)

/-- `if (rc) goto label` -/
def orGoto (label : State → State) : Except (State × Int) State → Except (State × Int) State
  | .ok s => .ok s
  | .error (s, rc) => .error (label s, rc)

/-- `device_create_file` -/
def deviceCreateFile (ans : Answers) (s : State) : Except (State × Int) State :=
  if ans.createFileRc ≠ 0 then .error (s, ans.createFileRc) else .ok s

/-- `probe` behind `pci_enable_device`. -/
def probeSteps (board : Board) (ans : Answers) (s : State) : Except (State × Int) State := do
  let s ← orGoto errScanMsi (probeScanForMsi board ans s)
  let s ← orGoto errRegions (requestRegions ans s)
  let s ← orGoto errMap (mapBars board ans s)
  let s ← orGoto errMask (setDmaMask ans s)
  let s ← orGoto errMask (irqSetup board ans s)
  let s ← orGoto errEngines (probeEngines board ans s)
  let s ← orGoto errInterfaces (createInterfaces ans s)
  orGoto errInterfaces (deviceCreateFile ans s)

/-- What a call of `probe` leaves.  `lro` is the data of the device that the driver is bound to. -/
structure Probed where
  rc : Int
  glob : Globals
  lro : Option XdmaDev
  book : Book Res
  numbers : Book Number

/-- `probe`.  It returns 0 when `alloc_dev_instance` fails. -/
def probe (board : Board) (ans : Answers) (glob : Globals) : Probed :=
  let s : State := ⟨glob, {}, fun _ => .free, fun _ => .free⟩
  if ans.alloc = false then ⟨0, glob, none, s.book, s.numbers⟩
  else
    let s := s.acquire .lro
    if ans.enableRc ≠ 0 then ⟨ans.enableRc, glob, none, (errEnable s).book, s.numbers⟩
    else
      match probeSteps board ans (s.acquire .enable) with
      | .ok s => ⟨0, s.glob, some s.lro, s.book, s.numbers⟩
      | .error (s, rc) => ⟨rc, s.glob, none, s.book, s.numbers⟩

/-- `remove` -/
def remove (s : State) : State :=
  let s := unmapBars (irqTeardown (removeEngines (destroyInterfaces s)))
  let s := if s.lro.gotRegions then s.release .regions else s
  let s := if s.lro.msixEnabled then s.release .msix
    else if s.lro.msiEnabled then s.release .msi else s
  let s := if s.lro.regionsInUse then s else s.release .enable
  let s := { s with
    glob := { s.glob with devPresent := Function.update s.glob.devPresent s.lro.instanceNo 0 }
    numbers := Lib.Holdings.release s.numbers (.slot s.lro.instanceNo) }
  s.release .lro

/-! ## What the labels give back -/

section Labels

variable {board : Board} {ans : Answers} {up : Up} {s : State} {own : Res → Prop}

theorem errScanMsi_holds (h : Holds s.book own) (hlro : own .lro) (henable : own .enable) :
    Holds (errScanMsi s).book fun r =>
      own r ∧ r ≠ .lro ∧ (r = .enable → s.lro.regionsInUse = true) := by
  unfold errScanMsi errEnable
  by_cases hinuse : s.lro.regionsInUse = true
  · rw [if_pos hinuse]
    exact h.release hlro fun r => by simp [hinuse]
  · rw [if_neg hinuse]
    have hoff := h.release (o := fun r => own r ∧ r ≠ .enable) henable fun r => Iff.rfl
    refine hoff.release (r := .lro) ⟨hlro, by simp⟩ fun r => ?_
    simp only [hinuse]
    tauto

theorem errRegions_holds (h : Holds s.book own) (hlro : own .lro) (henable : own .enable)
    (hmsi : s.lro.msiEnabled = true ↔ own .msi) :
    Holds (errRegions s).book fun r =>
      own r ∧ r ≠ .lro ∧ r ≠ .msi ∧ (r = .enable → s.lro.regionsInUse = true) := by
  unfold errRegions
  by_cases hset : s.lro.msiEnabled = true
  · rw [if_pos hset]
    have hoff := h.release (o := fun r => own r ∧ r ≠ .msi) (hmsi.1 hset) fun r => Iff.rfl
    refine (errScanMsi_holds (s := s.release .msi) hoff ⟨hlro, by simp⟩ ⟨henable, by simp⟩).congr
      fun r => ?_
    simp only [State.release_lro]
    tauto
  · rw [if_neg hset]
    refine (errScanMsi_holds h hlro henable).congr fun r => ?_
    have hne : own r → r ≠ .msi := fun hr heq => hset (hmsi.2 (heq ▸ hr))
    tauto

theorem errMap_holds (h : Holds s.book own) (hlro : own .lro) (henable : own .enable)
    (hmsi : s.lro.msiEnabled = true ↔ own .msi) (hreg : s.lro.gotRegions = true ↔ own .regions) :
    Holds (errMap s).book fun r => own r ∧ r ≠ .lro ∧ r ≠ .msi ∧ r ≠ .regions ∧
      (r = .enable → s.lro.regionsInUse = true) := by
  unfold errMap
  by_cases hset : s.lro.gotRegions = true
  · rw [if_pos hset]
    have hoff := h.release (o := fun r => own r ∧ r ≠ .regions) (hreg.1 hset) fun r => Iff.rfl
    refine (errRegions_holds (s := s.release .regions) hoff ⟨hlro, by simp⟩ ⟨henable, by simp⟩
      (by simp [hmsi])).congr fun r => ?_
    simp only [State.release_lro]
    tauto
  · rw [if_neg hset]
    refine (errRegions_holds h hlro henable hmsi).congr fun r => ?_
    have hne : own r → r ≠ .regions := fun hr heq => hset (hreg.2 (heq ▸ hr))
    tauto

/-- What a failing probe may leave. -/
structure Left where
  inUse : Bool := false
  engines : Bool := false
  chars : Bool := false

def Left.may (board : Board) (left : Left) : Res → Prop
  | .enable => left.inUse = true
  | .msix => board.msixCapable = true
  | .engine _ _ => left.engines = true
  | .engineIrq _ _ => left.engines = true
  | .writeback _ _ => left.engines = true
  | .charMem _ => left.chars = true
  | .cdev _ => left.chars = true
  | _ => False

/-- The device stays enabled exactly when its regions are in use. -/
def Ends (board : Board) (left : Left) (book : Book Res) : Prop :=
  ∃ own, Holds book own ∧ (∀ r, own r → left.may board r) ∧ (left.inUse = true → own .enable)

theorem errScanMsi_ends (h : Holds s.book fun r => r = .lro ∨ r = .enable)
    (hinuse : s.lro.regionsInUse = false) : Ends board {} (errScanMsi s).book := by
  refine ⟨_, errScanMsi_holds h (.inl rfl) (.inr rfl), fun r hr => ?_, fun hno => (nomatch hno)⟩
  obtain ⟨rfl | rfl, hlro, hen⟩ := hr
  · exact absurd rfl hlro
  · exact absurd (hen rfl) (by simp [hinuse])

/-- The region request has failed. -/
theorem errRegions_ends (hs : Kept board ans {} s) {t : State}
    (hholds : Holds t.book (Owned ans {} s.lro))
    (hlro : t.lro = { s.lro with regionsInUse := true }) :
    Ends board { inUse := true } (errRegions t).book := by
  have hmsi : t.lro.msiEnabled = true ↔ Owned ans {} s.lro .msi := by
    rw [hlro]
    exact Iff.rfl
  refine ⟨_, errRegions_holds hholds trivial trivial hmsi, fun r hr => ?_, fun _ =>
    ⟨trivial, by simp, by simp, fun _ => by rw [hlro]⟩⟩
  have hbars := hs.noBars rfl
  have hregions := hs.noRegions rfl
  have hmsix := hs.msix
  cases r <;> simp_all [Owned, Left.may]

theorem errMap_ends (h : Kept board ans up s) (hup : up.irqs = false) (hbars : up.bars = false) :
    Ends board { engines := up.engines, chars := up.chars } (errMap s).book := by
  refine ⟨_, errMap_holds h.holds trivial trivial Iff.rfl Iff.rfl, fun r hr => ?_,
    fun hno => (nomatch hno)⟩
  have hno := h.noBars hbars
  have hinuse := h.inUse
  have hmsix := h.msix
  cases r <;> simp_all [Owned, Left.may]

theorem errMask_ends (h : Kept board ans up s) (hup : up.irqs = false) :
    Ends board { engines := up.engines, chars := up.chars } (errMask s).book := by
  obtain ⟨hholds, hlro, -⟩ := unmapBars_holds h.holds
  refine ⟨_, errMap_holds hholds trivial trivial Iff.rfl Iff.rfl, fun r hr => ?_,
    fun hno => (nomatch hno)⟩
  rw [hlro] at hr
  have hinuse := h.inUse
  have hmsix := h.msix
  cases r <;> simp_all [Owned, Left.may]

theorem errEngines_ends (up : Up) (h : Kept board ans { up with irqs := true } s) :
    Ends board { engines := up.engines, chars := up.chars } (errEngines s).book := by
  have hends := errMask_ends (irqTeardown_kept h) rfl
  exact hends

theorem errInterfaces_ends (up : Up) (hok : EnginesOk s)
    (h : Kept board ans { up with irqs := true, engines := true } s) :
    Ends board { chars := up.chars } (errInterfaces s).book :=
  errEngines_ends { up with engines := false } (removeEngines_kept { up with irqs := true } h hok)

end Labels

/-! ## A failing probe -/

/-- The interrupt mode that the board offers is refused. -/
def MsiRefused (board : Board) (ans : Answers) : Prop :=
  if board.msixCapable then ans.msixRc < 0 else board.msiCapable = true ∧ ans.msiRc < 0

/-- The cases in which the unwinding misses something: MSI-X, the engines when the creation of one
from the card to the host fails, and the character devices when the attribute file fails. -/
def Missed (board : Board) (ans : Answers) (pollMode : Bool) : Res → Prop
  | .msix => board.msixCapable = true
  | .engine _ _ => ∃ channel, EngineFails board ans pollMode channel true
  | .engineIrq _ _ => ∃ channel, EngineFails board ans pollMode channel true
  | .writeback _ _ => ∃ channel, EngineFails board ans pollMode channel true
  | .charMem _ => ans.createFileRc ≠ 0
  | .cdev _ => ans.createFileRc ≠ 0
  | _ => False

section Fails

variable {board : Board} {ans : Answers} {s t : State} {rc : Int}

/-- How a failing probe ends. -/
def FailsWith (board : Board) (ans : Answers) (pollMode : Bool) (book : Book Res) : Prop :=
  ∃ left : Left, Ends board left book ∧
    (left.inUse = true ↔ ¬MsiRefused board ans ∧ ans.regionsRc ≠ 0) ∧
    (left.engines = true → ∃ channel, EngineFails board ans pollMode channel true) ∧
    (left.chars = true → ans.createFileRc ≠ 0)

theorem orGoto_error {label : State → State} {r : Except (State × Int) State}
    (h : orGoto label r = .error (t, rc)) : ∃ s, r = .error (s, rc) ∧ t = label s := by
  cases r with
  | ok s => cases h
  | error e =>
      obtain ⟨s, rc'⟩ := e
      simp only [orGoto, Except.error.injEq, Prod.mk.injEq] at h
      exact ⟨s, by rw [h.2], h.1.symm⟩

theorem orGoto_ok {label : State → State} {r : Except (State × Int) State}
    (h : orGoto label r = .ok t) : r = .ok t := by
  cases r with
  | ok s => exact h
  | error e => cases h

/-- A sequence of steps fails in the first one or behind it. -/
theorem bind_error {ε α β : Type} {x : Except ε α} {f : α → Except ε β} {e : ε}
    (h : x >>= f = .error e) : x = .error e ∨ ∃ a, x = .ok a ∧ f a = .error e := by
  cases x with
  | error e' =>
      have hsame : (Except.error e' : Except ε β) = .error e := h
      exact .inl (congrArg Except.error (Except.error.inj hsame))
  | ok a => exact .inr ⟨a, rfl, h⟩

theorem probeScanForMsi_refused_iff :
    (∃ e, probeScanForMsi board ans s = .error e) ↔ MsiRefused board ans := by
  unfold probeScanForMsi MsiRefused
  by_cases hmsix : board.msixCapable = true
  · by_cases hrc : ans.msixRc < 0
    · simp [hmsix, hrc]
    · simp [hmsix, hrc]
  · by_cases hmsi : board.msiCapable = true
    · by_cases hrc : ans.msiRc < 0
      · simp [hmsix, hmsi, hrc]
      · simp [hmsix, hmsi, hrc]
    · simp [hmsix, hmsi]

theorem setDmaMask_ok (h : setDmaMask ans s = .ok t) : t = s := by
  unfold setDmaMask at h
  split at h
  · exact (Except.ok.inj h).symm
  · split at h
    · exact (Except.ok.inj h).symm
    · cases h

theorem setDmaMask_error (h : setDmaMask ans s = .error (t, rc)) : t = s := by
  unfold setDmaMask at h
  split at h
  · cases h
  · split at h
    · cases h
    · exact (congrArg Prod.fst (Except.error.inj h)).symm

theorem deviceCreateFile_error (h : deviceCreateFile ans s = .error (t, rc)) :
    t = s ∧ ans.createFileRc ≠ 0 := by
  unfold deviceCreateFile at h
  split at h
  · next hrc => exact ⟨(congrArg Prod.fst (Except.error.inj h)).symm, hrc⟩
  · cases h

/-- A step behind the region request. -/
theorem FailsWith.of_ends {pollMode : Bool} {book : Book Res} (hregions : ans.regionsRc = 0)
    (engines chars : Bool) (hends : Ends board { engines := engines, chars := chars } book)
    (hengines : engines = true → ∃ channel, EngineFails board ans pollMode channel true)
    (hchars : chars = true → ans.createFileRc ≠ 0) : FailsWith board ans pollMode book :=
  ⟨{ engines := engines, chars := chars }, hends, by simp [hregions], hengines, hchars⟩

/-- Every step that fails goes to the label that gives back what the steps before it have acquired,
with the exceptions of `FailsWith`. -/
theorem probeSteps_error (hs : Enabled s) (h₀ : probeSteps board ans s = .error (t, rc)) :
    FailsWith board ans s.glob.pollMode t.book := by
  unfold probeSteps at h₀
  rcases bind_error h₀ with hstep | ⟨s₁, hok, h₁⟩
  · obtain ⟨e, herr, rfl⟩ := orGoto_error hstep
    have href := probeScanForMsi_refused_iff.1 ⟨_, herr⟩
    obtain ⟨hholds, hinuse, -⟩ := probeScanForMsi_error hs herr
    exact ⟨{}, errScanMsi_ends hholds hinuse, by simp [href], fun hno => (nomatch hno),
      fun hno => (nomatch hno)⟩
  have hscan := orGoto_ok hok
  have hnot : ¬MsiRefused board ans := fun href => by
    obtain ⟨e, he⟩ := (probeScanForMsi_refused_iff (s := s)).2 href
    rw [hscan] at he
    cases he
  have hids₁ := (ids_of_ok hscan).trans (idsOf_probeScanForMsi board ans s)
  have hkept₁ := probeScanForMsi_ok hs hscan
  rcases bind_error h₁ with hstep | ⟨s₂, hok, h₂⟩
  · obtain ⟨e, herr, rfl⟩ := orGoto_error hstep
    obtain ⟨hholds, hlro, hrc, -⟩ := requestRegions_error hkept₁ herr
    exact ⟨{ inUse := true }, errRegions_ends hkept₁ hholds hlro, by simp [hnot, hrc],
      fun hno => (nomatch hno), fun hno => (nomatch hno)⟩
  have hreq := orGoto_ok hok
  have hregions : ans.regionsRc = 0 := by
    by_contra hne
    simp [requestRegions, hne] at hreq
  have hids₂ := ((ids_of_ok hreq).trans (idsOf_requestRegions ans s₁)).trans hids₁
  have hkept₂ := requestRegions_ok hkept₁ hreq
  rcases bind_error h₂ with hstep | ⟨s₃, hok, h₃⟩
  · obtain ⟨e, herr, rfl⟩ := orGoto_error hstep
    obtain ⟨hkept, -⟩ := mapBars_error hkept₂ rfl herr
    exact .of_ends hregions false false (errMap_ends hkept rfl rfl) (fun hno => (nomatch hno))
      fun hno => (nomatch hno)
  have hmap := orGoto_ok hok
  have hids₃ := ((ids_of_ok hmap).trans (idsOf_mapBars board ans s₂)).trans hids₂
  have hkept₃ := mapBars_ok hkept₂ rfl hmap
  rcases bind_error h₃ with hstep | ⟨s₄, hok, h₄⟩
  · obtain ⟨e, herr, rfl⟩ := orGoto_error hstep
    obtain rfl := setDmaMask_error herr
    exact .of_ends hregions false false (errMask_ends hkept₃ rfl) (fun hno => (nomatch hno))
      fun hno => (nomatch hno)
  obtain rfl := setDmaMask_ok (orGoto_ok hok)
  rcases bind_error h₄ with hstep | ⟨s₅, hok, h₅⟩
  · obtain ⟨e, herr, rfl⟩ := orGoto_error hstep
    obtain ⟨hkept, -⟩ := irqSetup_error hkept₃ rfl herr
    exact .of_ends hregions false false (errMask_ends hkept rfl) (fun hno => (nomatch hno))
      fun hno => (nomatch hno)
  have hirq := orGoto_ok hok
  have hids₅ := ((ids_of_ok hirq).trans (idsOf_irqSetup board ans s₄)).trans hids₃
  have hpoll : s₅.glob.pollMode = s.glob.pollMode := congrArg (fun i => i.1.1.pollMode) hids₅
  have hkept₅ := irqSetup_ok hkept₃ rfl hirq
  rcases bind_error h₅ with hstep | ⟨s₆, hok, h₆⟩
  · obtain ⟨e, herr, rfl⟩ := orGoto_error hstep
    obtain ⟨-, left, hkept, hleft⟩ := probeEngines_error hkept₅ rfl rfl rfl herr
    have hends := errEngines_ends
      { regions := true, bars := true, engines := left, enginesBegun := true } hkept
    exact .of_ends hregions left false hends (hpoll ▸ hleft) fun hno => (nomatch hno)
  obtain ⟨hkept₆, hok₆, -⟩ := probeEngines_ok hkept₅ rfl rfl rfl (orGoto_ok hok)
  rcases bind_error h₆ with hstep | ⟨s₇, hok, h₇⟩
  · obtain ⟨e, herr, rfl⟩ := orGoto_error hstep
    obtain ⟨hkept, hok', -⟩ := createInterfaces_error hkept₆ hok₆ rfl rfl herr
    have hends := errInterfaces_ends
      { regions := true, bars := true, enginesBegun := true, charsBegun := true } hok' hkept
    exact .of_ends hregions false false hends (fun hno => (nomatch hno)) fun hno => (nomatch hno)
  obtain ⟨hkept₇, hok₇⟩ := createInterfaces_ok hkept₆ hok₆ rfl rfl (orGoto_ok hok)
  obtain ⟨e, herr, rfl⟩ := orGoto_error h₇
  obtain ⟨rfl, hrc⟩ := deviceCreateFile_error herr
  have hends := errInterfaces_ends
    { regions := true, bars := true, chars := true, enginesBegun := true, charsBegun := true }
    hok₇ hkept₇
  exact .of_ends hregions false true hends (fun hno => (nomatch hno)) fun _ => hrc

theorem enabled_start (glob : Globals) :
    Enabled ((State.acquire ⟨glob, {}, fun _ => .free, fun _ => .free⟩ .lro).acquire .enable) := by
  refine ⟨rfl, ?_⟩
  have hfree : Holds (fun _ : Res => Phase.free) fun _ => False := fun r => ⟨False.elim, fun _ => rfl⟩
  have hlro := hfree.acquire (o := fun r => r = .lro) (r := .lro) id fun r => by simp
  exact hlro.acquire (r := .enable) (by simp) fun r => Iff.rfl

theorem probe_failsWith {glob : Globals} (halloc : ans.alloc = true) (henable : ans.enableRc = 0)
    (hfail : (probe board ans glob).rc ≠ 0) :
    FailsWith board ans glob.pollMode (probe board ans glob).book := by
  unfold probe at hfail ⊢
  simp only [halloc, henable, Bool.true_eq_false, if_false, ne_eq, not_true] at hfail ⊢
  cases hsteps : probeSteps board ans
      ((State.acquire ⟨glob, {}, fun _ => .free, fun _ => .free⟩ .lro).acquire .enable) with
  | ok t =>
      rw [hsteps] at hfail
      exact absurd rfl hfail
  | error e => exact probeSteps_error (enabled_start glob) hsteps

end Fails

/-! ## The numbers behind a failing probe -/

/-- The cases in which the unwinding misses a number: an entry of `dev_present`, what
`alloc_chrdev_region` has reserved, the number of a device that fails behind its registration, and
all numbers when the attribute file fails. -/
def MissedNumber (ans : Answers) : Number → Prop
  | .slot _ => True
  | .region base count =>
      count = xdmaMinorCount ∨ ans.createFileRc ≠ 0 ∨ ∃ x, base = genDevMinor x ∧ FailsBehind ans x

section Numbers

variable {board : Board} {ans : Answers} {s : State}

theorem ids_ite {p : Prop} [Decidable p] {t u : State} (ht : ids t = ids s) (hu : ids u = ids s) :
    ids (if p then t else u) = ids s := by
  split
  · exact ht
  · exact hu

theorem ids_errScanMsi (s : State) : ids (errScanMsi s) = ids s := ids_ite rfl rfl

theorem ids_errRegions (s : State) : ids (errRegions s) = ids s :=
  (ids_errScanMsi _).trans (ids_ite rfl rfl)

theorem ids_errMap (s : State) : ids (errMap s) = ids s :=
  (ids_errRegions _).trans (ids_ite rfl rfl)

theorem ids_errMask (s : State) : ids (errMask s) = ids s :=
  (ids_errMap (unmapBars s)).trans (ids_unmapBars s)

theorem ids_errEngines (s : State) : ids (errEngines s) = ids s :=
  (ids_errMask (irqTeardown s)).trans (ids_irqTeardown s)

theorem ids_errInterfaces (s : State) : ids (errInterfaces s) = ids s :=
  (ids_errEngines (removeEngines s)).trans (ids_removeEngines s)

theorem idsOf_orGoto {label : State → State} (hlabel : ∀ s, ids (label s) = ids s)
    (r : Except (State × Int) State) : idsOf (orGoto label r) = idsOf r := by
  cases r with
  | ok s => rfl
  | error e => exact hlabel e.1

/-- A step that does not touch the numbers, and what comes behind it. -/
theorem idsOf_bind {Q : Except (State × Int) State → Prop} {r : Except (State × Int) State}
    {f : State → Except (State × Int) State} (herr : ∀ t rc, ids t = ids s → Q (.error (t, rc)))
    (hr : idsOf r = ids s) (hf : ∀ u, ids u = ids s → Q (f u)) : Q (r >>= f) := by
  cases r with
  | ok u => exact hf u hr
  | error e => exact herr e.1 e.2 hr

/-- The steps before `create_interfaces` do not touch the numbers. -/
theorem probeSteps_ids {Q : Except (State × Int) State → Prop}
    (herr : ∀ t rc, ids t = ids s → Q (.error (t, rc)))
    (hrest : ∀ u, ids u = ids s → Q (orGoto errInterfaces (createInterfaces ans u) >>= fun v =>
      orGoto errInterfaces (deviceCreateFile ans v))) : Q (probeSteps board ans s) := by
  unfold probeSteps
  refine idsOf_bind herr ((idsOf_orGoto ids_errScanMsi _).trans (idsOf_probeScanForMsi board ans s))
    fun s₁ h₁ => ?_
  refine idsOf_bind herr
    ((idsOf_orGoto ids_errRegions _).trans ((idsOf_requestRegions ans s₁).trans h₁)) fun s₂ h₂ => ?_
  refine idsOf_bind herr
    ((idsOf_orGoto ids_errMap _).trans ((idsOf_mapBars board ans s₂).trans h₂)) fun s₃ h₃ => ?_
  refine idsOf_bind herr
    ((idsOf_orGoto ids_errMask _).trans ((idsOf_setDmaMask ans s₃).trans h₃)) fun s₄ h₄ => ?_
  refine idsOf_bind herr
    ((idsOf_orGoto ids_errMask _).trans ((idsOf_irqSetup board ans s₄).trans h₄)) fun s₅ h₅ => ?_
  refine idsOf_bind herr
    ((idsOf_orGoto ids_errEngines _).trans ((idsOf_probeEngines board ans s₅).trans h₅))
    fun s₆ h₆ => ?_
  exact hrest s₆ h₆

theorem probeSteps_within (hfree : Within s.numbers fun _ => False) {t : State} {rc : Int}
    (h : probeSteps board ans s = .error (t, rc)) : Within t.numbers (MissedNumber ans) := by
  suffices hall : ∀ t rc, probeSteps board ans s = .error (t, rc) →
      Within t.numbers (MissedNumber ans) from hall t rc h
  refine probeSteps_ids (Q := fun r => ∀ t rc, r = .error (t, rc) →
    Within t.numbers (MissedNumber ans)) (fun t rc hids t' rc' ht => ?_) fun u hids t rc ht => ?_
  · obtain rfl := congrArg Prod.fst (Except.error.inj ht)
    have hnumbers : t.numbers = s.numbers := congrArg Prod.snd hids
    rw [hnumbers]
    exact hfree.mono fun _ => False.elim
  have hnone : Within u.numbers fun _ => False := by
    have hnumbers : u.numbers = s.numbers := congrArg Prod.snd hids
    rw [hnumbers]
    exact hfree
  have hlabel : ∀ v, (errInterfaces v).numbers = v.numbers := fun v =>
    congrArg Prod.snd (ids_errInterfaces v)
  obtain ⟨hok, herr⟩ := @createInterfaces_within ans _ hnone
  rcases bind_error ht with hstep | ⟨v, hv, hfile⟩
  · obtain ⟨e, he, rfl⟩ := orGoto_error hstep
    obtain ⟨w, hw⟩ := herr e rc he
    rw [hlabel]
    refine hw.mono fun n hn => ?_
    cases n with
    | slot i => trivial
    | region base count =>
        obtain hcount | ⟨x, hbase, -, ⟨-, hmem⟩ | hfails⟩ := hn
        · exact .inl hcount
        · exact absurd hmem List.not_mem_nil
        · exact .inr (.inr ⟨x, hbase, hfails⟩)
  · obtain ⟨e, he, rfl⟩ := orGoto_error hfile
    obtain ⟨rfl, hrc⟩ := deviceCreateFile_error he
    rw [hlabel]
    refine (hok e (orGoto_ok hv)).mono fun n _ => ?_
    cases n with
    | slot i => trivial
    | region base count => exact .inr (.inl hrc)

theorem probe_within {glob : Globals} (halloc : ans.alloc = true) (henable : ans.enableRc = 0)
    (hfail : (probe board ans glob).rc ≠ 0) :
    Within (probe board ans glob).numbers (MissedNumber ans) := by
  have hfree : Within (fun _ : Number => Phase.free) fun _ => False := fun n => by simp
  unfold probe at hfail ⊢
  simp only [halloc, henable, Bool.true_eq_false, if_false, ne_eq, not_true] at hfail ⊢
  cases hsteps : probeSteps board ans
      ((State.acquire ⟨glob, {}, fun _ => .free, fun _ => .free⟩ .lro).acquire .enable) with
  | ok t =>
      rw [hsteps] at hfail
      exact absurd rfl hfail
  | error e => exact probeSteps_within hfree hsteps

end Numbers

/-- Apart from what the unwinding misses, a failing probe gives back everything it has acquired, once
and nothing twice, except that a device whose regions are in use stays enabled. -/
theorem probe_gives_back (board : Board) (ans : Answers) (glob : Globals)
    (halloc : ans.alloc = true) (henable : ans.enableRc = 0)
    (hfail : (probe board ans glob).rc ≠ 0) :
    (∀ r, (probe board ans glob).book r ≠ .misused ∧
      (¬Missed board ans glob.pollMode r →
        ((probe board ans glob).book r = .held ↔
          r = .enable ∧ ¬MsiRefused board ans ∧ ans.regionsRc ≠ 0))) ∧
    ∀ n, (probe board ans glob).numbers n ≠ .misused ∧
      (¬MissedNumber ans n → (probe board ans glob).numbers n = .free) := by
  have hnumbers := probe_within halloc henable hfail
  refine ⟨fun r => ?_, fun n => ⟨(hnumbers n).1, fun hmissed => hnumbers.free hmissed⟩⟩
  obtain ⟨left, ⟨own, hholds, hmay, hstays⟩, hinuse, hengines, hchars⟩ :=
    probe_failsWith halloc henable hfail
  refine ⟨hholds.not_misused r, fun hmissed => ?_⟩
  rw [hholds.held_iff]
  constructor
  · intro hown
    have hleft := hmay r hown
    cases r <;> simp only [Left.may, Missed] at hleft hmissed
    case enable => exact ⟨rfl, hinuse.1 hleft⟩
    case msix => exact absurd hleft hmissed
    case engine => exact absurd (hengines hleft) hmissed
    case engineIrq => exact absurd (hengines hleft) hmissed
    case writeback => exact absurd (hengines hleft) hmissed
    case charMem => exact absurd (hchars hleft) hmissed
    case cdev => exact absurd (hchars hleft) hmissed
  · rintro ⟨rfl, hbusy⟩
    exact hstays (hinuse.2 hbusy)

/-- A board with one BAR and one engine in each direction. -/
def boardExample (msixCapable : Bool) : Board where
  msixCapable := msixCapable
  msiCapable := true
  barLen := fun i => if i = 0 then 0x10000 else 0
  reg := fun _ offset =>
    if offset = 0x2000 then 0x1fc20006
    else if offset = 0x3000 then 0x1fc30006
    else if offset = 0 then 0x1fc00006
    else if offset = 0x1000 then 0x1fc18006
    else 0
  irq := 16

/-- The module before the first device. -/
def globExample : Globals := ⟨fun _ => 0, 0, false⟩

/-- There is no memory for the device of the second engine. -/
def secondRefused : Answers := { char := fun x => { alloc := x ≠ .sgdma 0 true } }

/-- The device of the second engine cannot be created.  The engines are destroyed, and so are the
devices made before it, with their numbers. -/
theorem probe_gives_back_engine :
    let r := probe (boardExample false) secondRefused { globExample with major := 240 }
    r.rc = -1 ∧ r.glob.major = 239 ∧ r.book (.engine 0 true) = .free ∧
      r.book (.cdev .ctrl) = .free ∧ r.numbers (.region (genDevMinor .ctrl) 1) = .free ∧
      r.numbers (.region (genDevMinor (.sgdma 0 false)) 1) = .free := by
  have hrc : (probe (boardExample false) secondRefused { globExample with major := 240 }).rc = -1 := by
    decide +kernel
  have hmajor : (probe (boardExample false) secondRefused
      { globExample with major := 240 }).glob.major = 239 := by
    decide +kernel
  obtain ⟨hbook, hnumbers⟩ := probe_gives_back (boardExample false) secondRefused
    { globExample with major := 240 } rfl rfl (by rw [hrc]; decide)
  have hdevices : ∀ x, ¬FailsBehind secondRefused x := fun x => by
    simp [FailsBehind, secondRefused]
  have hengine : ¬Missed (boardExample false) secondRefused false (.engine 0 true) := by
    simp [Missed, EngineFails, EngineRefused, secondRefused, boardExample]
  have hcdev : ¬Missed (boardExample false) secondRefused false (.cdev .ctrl) := fun hno => hno rfl
  have hsingle : ∀ x, ¬MissedNumber secondRefused (.region (genDevMinor x) 1) := by
    rintro x (hcount | hfile | ⟨y, -, hy⟩)
    · exact absurd hcount (by decide)
    · exact hfile rfl
    · exact hdevices y hy
  generalize probe (boardExample false) secondRefused { globExample with major := 240 } = r
    at hrc hmajor hbook hnumbers ⊢
  have hfree : ∀ q, ¬Missed (boardExample false) secondRefused false q → r.book q = .free := by
    intro q hmissed
    obtain ⟨hsound, hback⟩ := hbook q
    cases hq : r.book q with
    | free => rfl
    | held => exact absurd rfl ((hback hmissed).mp hq).2.2
    | misused => exact absurd hq hsound
  exact ⟨hrc, hmajor, hfree _ hengine, hfree _ hcdev, (hnumbers _).2 (hsingle _),
    (hnumbers _).2 (hsingle _)⟩

/-- The regions are in use: the device is not disabled. -/
theorem probe_leaves_busy_device_enabled :
    let r := probe (boardExample false) { regionsRc := -16 } globExample
    r.rc = -16 ∧ r.book .enable = .held ∧ r.book .lro = .free := by
  decide +kernel

-- What the unwinding misses: MSI-X, an engine to the card, the control device, and the numbers of
-- the board.
example :
    (probe (boardExample true) { mask64 := false, mask32 := false } globExample).book .msix = .held ∧
    (probe (boardExample false) { engine := fun _ dir => { alloc := !dir } } globExample).book
      (.engine 0 false) = .held ∧
    (probe (boardExample false) { createFileRc := -12 } globExample).book (.cdev .ctrl) = .held ∧
    (probe (boardExample false) { char := fun x => { alloc := x ≠ .sgdma 0 true } }
      globExample).numbers (.slot 0) = .held ∧
    (probe (boardExample false) { char := fun x => { alloc := x ≠ .sgdma 0 true } }
      globExample).numbers (.region 0 255) = .held := by
  decide +kernel

end Probe
end WzXdma
