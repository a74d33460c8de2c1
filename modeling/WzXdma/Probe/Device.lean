import Mathlib.Data.List.Nodup
import WzXdma.Consts
import WzXdma.Lib.Loop
import WzXdma.Lib.Holdings

/-!
# What a probe acquires

The first steps of `probe`: message signalled interrupts, the regions, the BARs, the DMA mask and the
interrupts.  The kernel's answers are the parameter `Answers`, the board with its registers is
`Board`.  Each step that acquires or gives back something of the device notes it in the book of
the state, so that the way a failing step is unwound can be followed.

Register writes and messages are left out here, since no step of `probe` depends on them.
-/

namespace WzXdma
namespace Probe

open Lib.Loop Lib.Holdings

/-- `XDMA_BAR_NUM` -/
abbrev Bar := Fin 6

/-- `XDMA_CHANNEL_NUM_MAX` -/
abbrev Channel := Fin 4

/-- `MAX_USER_IRQ` -/
abbrev UserIrq := Fin 16

/-- `MAX_XDMA_DEVICES` -/
def maxXdmaDevices : Nat := 64

/-- `XDMA_BAR_SIZE` -/
def xdmaBarSize : Nat := 0x8000

/-- The character devices of one board.  The second index of the arrays is `dir_from_dev`. -/
inductive CharDev
  | user
  | ctrl
  | events (i : UserIrq)
  | sgdma (channel : Channel) (dirFromDev : Bool)
  | bypass (channel : Channel) (dirFromDev : Bool)
  | bypassBase
  deriving DecidableEq

/-- Everything that a probe acquires for a device. -/
inductive Res
  | lro
  | enable
  | msi
  | msix
  | regions
  | bar (i : Bar)
  | irq
  | userIrq (i : UserIrq)
  | engine (channel : Channel) (dirFromDev : Bool)
  | engineIrq (channel : Channel) (dirFromDev : Bool)
  | writeback (channel : Channel) (dirFromDev : Bool)
  | charMem (x : CharDev)
  | cdev (x : CharDev)
  deriving DecidableEq

/-- What a board takes of the numbers that it shares with others. -/
inductive Number
  /-- `dev_present[i]` -/
  | slot (i : Nat)
  /-- The `count` device numbers from the minor number `base` on, under the major number of the
  board. -/
  | region (base count : Nat)
  deriving DecidableEq

/-- `struct xdma_engine`, as far as its creation and its end need it.  `writeback` says whether
`poll_mode_addr_virt` is set. -/
structure Engine where
  msixIrqLine : Nat := 0
  writeback : Bool := false
  deriving DecidableEq

/-- `struct xdma_dev`, as `alloc_dev_instance` leaves it.  A pointer is modelled by whether it is
set, and the index `-1` of a BAR by `none`. -/
structure XdmaDev where
  major : Nat := 0
  instanceNo : Nat := 0
  charDev : CharDev → Bool := fun _ => false
  bar : Bar → Bool := fun _ => false
  userBarIdx : Option Bar := none
  configBarIdx : Option Bar := none
  bypassBarIdx : Option Bar := none
  regionsInUse : Bool := false
  gotRegions : Bool := false
  irqLine : Int := -1
  msiEnabled : Bool := false
  msixEnabled : Bool := false
  /-- `entry[i].vector` -/
  vector : Nat → Nat := fun _ => 0
  enginesNum : Nat := 0
  engine : Channel → Bool → Option Engine := fun _ _ => none

/-- The variables of the module. -/
structure Globals where
  devPresent : Nat → Nat
  major : Nat
  pollMode : Bool

structure State where
  glob : Globals
  lro : XdmaDev
  book : Book Res
  numbers : Book Number

/-- The board: its capabilities, the lengths of its BARs and its registers. -/
structure Board where
  msixCapable : Bool
  msiCapable : Bool
  barLen : Bar → Nat
  reg : Bar → Nat → Word
  irq : Nat

structure EngineAnswers where
  alloc : Bool := true
  irqRc : Int := 0
  writeback : Bool := true

structure CharAnswers where
  alloc : Bool := true
  /-- `MAJOR` of what `alloc_chrdev_region` has put into `cdevno`, 0 when it has failed. -/
  dynMajor : Nat := 240
  kobjectRc : Int := 0
  registerRc : Int := 0
  addRc : Int := 0
  /-- Whether `device_create` returns something else than `NULL`. -/
  device : Bool := true

/-- The answers of the kernel to one call of `probe`.  Every call it makes has its own answer.
`pci_enable_msix` may answer with a positive number of vectors.  Then nothing is enabled, the
vectors stay 0, and interrupt 0 is not given to a driver. -/
structure Answers where
  alloc : Bool := true
  enableRc : Int := 0
  msixRc : Int := 0
  vector : Nat → Nat := fun i => i + 24
  msiRc : Int := 0
  regionsRc : Int := 0
  iomap : Bar → Bool := fun _ => true
  mask64 : Bool := true
  mask32 : Bool := true
  irqRc : Int := 0
  userIrqRc : UserIrq → Int := fun _ => 0
  engine : Channel → Bool → EngineAnswers := fun _ _ => {}
  char : CharDev → CharAnswers := fun _ => {}
  createFileRc : Int := 0
  vector_ne : ∀ i, vector i ≠ 0 := by exact fun i => Nat.succ_ne_zero (i + 23)
  msiRc_le : msiRc ≤ 0 := by decide
  userIrq_zero : 0 < msixRc → userIrqRc 0 ≠ 0 := by decide

namespace State

def acquire (s : State) (r : Res) : State := { s with book := Lib.Holdings.acquire s.book r }

def release (s : State) (r : Res) : State := { s with book := Lib.Holdings.release s.book r }

@[simp] theorem acquire_lro (s : State) (r : Res) : (s.acquire r).lro = s.lro := rfl

@[simp] theorem acquire_glob (s : State) (r : Res) : (s.acquire r).glob = s.glob := rfl

@[simp] theorem release_lro (s : State) (r : Res) : (s.release r).lro = s.lro := rfl

@[simp] theorem release_glob (s : State) (r : Res) : (s.release r).glob = s.glob := rfl

end State

/-! ## Message signalled interrupts and regions -/

/-- `probe_scan_for_msi` -/
def probeScanForMsi (board : Board) (ans : Answers) (s : State) : Except (State × Int) State :=
  if board.msixCapable then
    let s := if ans.msixRc = 0 then
        { s.acquire .msix with lro := { s.lro with vector := ans.vector } } else s
    let s := { s with lro := { s.lro with msixEnabled := true } }
    if ans.msixRc < 0 then .error (s, ans.msixRc) else .ok s
  else if board.msiCapable then
    let s := if ans.msiRc = 0 then s.acquire .msi else s
    let s := { s with lro := { s.lro with msiEnabled := true } }
    if ans.msiRc < 0 then .error (s, ans.msiRc) else .ok s
  else .ok s

/-- `request_regions`.  "assume device is in use so do not disable it later" -/
def requestRegions (ans : Answers) (s : State) : Except (State × Int) State :=
  if ans.regionsRc ≠ 0 then
    .error ({ s with lro := { s.lro with regionsInUse := true } }, ans.regionsRc)
  else .ok { s.acquire .regions with lro := { s.lro with gotRegions := true } }

/-! ## BARs -/

def State.setBar (s : State) (i : Bar) (mapped : Bool) : State :=
  { s with lro := { s.lro with bar := Function.update s.lro.bar i mapped } }

/-- `unmap_bars` -/
def unmapBars (s : State) : State :=
  each (fun i s => if s.lro.bar i then (s.release (.bar i)).setBar i false else s)
    (List.finRange 6) s

/-- `map_single_bar`, which returns the mapped length. -/
def mapSingleBar (board : Board) (ans : Answers) (i : Bar) (s : State) : State × Int :=
  if board.barLen i = 0 then (s.setBar i false, 0)
  else if ans.iomap i then
    ((s.acquire (.bar i)).setBar i true, (min (board.barLen i) (2 ^ 31 - 1) : Nat))
  else (s.setBar i false, -1)

/-- `is_config_bar`: "Compare only XDMA ID's not Version number" -/
def isConfigBar (board : Board) (i : Bar) : Bool :=
  board.reg i 0x2000 &&& 0xffff0000 == 0x1fc20000 && board.reg i 0x3000 &&& 0xffff0000 == 0x1fc30000

/-- `identify_bars` -/
def identifyBars (barIdList : List Bar) (configBarPos : Nat) (lro : XdmaDev) : XdmaDev :=
  match barIdList with
  | [first, second] =>
      if configBarPos = 0 then { lro with bypassBarIdx := some second }
      else if configBarPos = 1 then { lro with userBarIdx := some first } else lro
  | [first, _, third] =>
      if configBarPos = 1 then { lro with userBarIdx := some first, bypassBarIdx := some third }
      else lro
  | _ => lro

/-- The variables of the loop of `map_bars`. -/
structure BarScan where
  s : State
  barIdList : List Bar := []
  configBarPos : Nat := 0

/-- One iteration of `map_bars`. -/
def mapBar (board : Board) (ans : Answers) (i : Bar) (v : BarScan) : Except State BarScan :=
  let (s, barLen) := mapSingleBar board ans i v.s
  if barLen = 0 then .ok { v with s := s }
  else if barLen < 0 then .error s
  else if xdmaBarSize ≤ barLen ∧ s.lro.configBarIdx = none ∧ isConfigBar board i then
    .ok ⟨{ s with lro := { s.lro with configBarIdx := some i } }, v.barIdList ++ [i],
      v.barIdList.length⟩
  else .ok ⟨s, v.barIdList ++ [i], v.configBarPos⟩

/-- `map_bars` -/
def mapBars (board : Board) (ans : Answers) (s : State) : Except (State × Int) State :=
  match forEach (mapBar board ans) (List.finRange 6) { s := s } with
  | .error s => .error (unmapBars s, -1)
  | .ok v =>
      if v.s.lro.configBarIdx = none then .error (unmapBars v.s, -1)
      else .ok { v.s with lro := identifyBars v.barIdList v.configBarPos v.s.lro }

/-! ## DMA mask and interrupts -/

/-- `set_dma_mask` -/
def setDmaMask (ans : Answers) (s : State) : Except (State × Int) State :=
  if ans.mask64 then .ok s else if ans.mask32 then .ok s else .error (s, -1)

/-- `msix_irq_setup`: "If any errors occur, free IRQs that were successfully requested" -/
def msixIrqSetup (ans : Answers) (s : State) : Except (State × Int) State :=
  forEach (fun i s => if ans.userIrqRc i = 0 then .ok (s.acquire (.userIrq i)) else
    .error (each (fun j s => s.release (.userIrq j))
      ((List.finRange 16).filter (· < i)).reverse s, ans.userIrqRc i)) (List.finRange 16) s

/-- `irq_setup` -/
def irqSetup (board : Board) (ans : Answers) (s : State) : Except (State × Int) State :=
  if s.lro.msixEnabled then msixIrqSetup ans s
  else
    let s := { s with lro := { s.lro with irqLine := board.irq } }
    if ans.irqRc = 0 then .ok (s.acquire .irq) else .error (s, ans.irqRc)

/-- `irq_teardown` -/
def irqTeardown (s : State) : State :=
  if s.lro.msixEnabled then each (fun i s => s.release (.userIrq i)) (List.finRange 16) s
  else if s.lro.irqLine ≠ -1 then s.release .irq else s

/-! ## What is held -/

/-- How far the probe has come: the groups of resources that it has set up.  The pointers to
engines and character devices stay in the device when these are gone, so that their
first setting has a mark of its own. -/
structure Up where
  regions : Bool := false
  bars : Bool := false
  irqs : Bool := false
  engines : Bool := false
  chars : Bool := false
  enginesBegun : Bool := false
  charsBegun : Bool := false

/-- What the probe holds, read off the fields of the device. -/
def Owned (ans : Answers) (up : Up) (lro : XdmaDev) : Res → Prop
  | .lro => True
  | .enable => True
  | .msi => lro.msiEnabled = true
  | .msix => lro.msixEnabled = true ∧ ans.msixRc = 0
  | .regions => lro.gotRegions = true
  | .bar i => lro.bar i = true
  | .irq => up.irqs = true ∧ lro.msixEnabled = false
  | .userIrq _ => up.irqs = true ∧ lro.msixEnabled = true
  | .engine channel dir => up.engines = true ∧ lro.engine channel dir ≠ none
  | .engineIrq channel dir =>
      up.engines = true ∧ lro.engine channel dir ≠ none ∧ lro.msixEnabled = true
  | .writeback channel dir =>
      up.engines = true ∧ (lro.engine channel dir).any Engine.writeback = true
  | .charMem x => up.chars = true ∧ lro.charDev x = true
  | .cdev x => up.chars = true ∧ lro.charDev x = true

/-- The book agrees with the fields of the device, and what was not set up yet is blank. -/
structure Kept (board : Board) (ans : Answers) (up : Up) (s : State) : Prop where
  holds : Holds s.book (Owned ans up s.lro)
  msix : s.lro.msixEnabled = board.msixCapable
  inUse : s.lro.regionsInUse = false
  vector : ans.msixRc = 0 → board.msixCapable = true → ∀ i, s.lro.vector i ≠ 0
  noRegions : up.regions = false → s.lro.gotRegions = false
  noBars : up.bars = false → ∀ i, s.lro.bar i = false
  noEngines : up.enginesBegun = false → ∀ channel dir, s.lro.engine channel dir = none
  noChars : up.charsBegun = false → ∀ x, s.lro.charDev x = false
  line : up.irqs = true → s.lro.msixEnabled = false → s.lro.irqLine ≠ -1
  scanned : board.msixCapable = true → 0 ≤ ans.msixRc
  enabled : up.irqs = true → board.msixCapable = true → ans.msixRc = 0

/-- The state right after `pci_enable_device`. -/
structure Enabled (s : State) : Prop where
  lro : s.lro = {}
  holds : Holds s.book fun r => r = .lro ∨ r = .enable

section Steps

variable {board : Board} {ans : Answers} {up : Up} {s s' : State} {rc : Int}

theorem Enabled.kept_of_legacy (hs : Enabled s) (ans : Answers)
    (hcap : board.msixCapable = false) :
    Kept board ans {} s where
  holds := hs.holds.congr fun r => by rw [hs.lro]; cases r <;> simp [Owned]
  msix := by rw [hs.lro, hcap]
  inUse := by rw [hs.lro]
  vector := fun _ h => by rw [hcap] at h; cases h
  noRegions := fun _ => by rw [hs.lro]
  noBars := fun _ _ => by rw [hs.lro]
  noEngines := fun _ _ _ => by rw [hs.lro]
  noChars := fun _ _ => by rw [hs.lro]
  line := fun h => (nomatch h)
  scanned := fun h => by rw [hcap] at h; cases h
  enabled := fun h => (nomatch h)

theorem probeScanForMsi_ok (hs : Enabled s) (h : probeScanForMsi board ans s = .ok s') :
    Kept board ans {} s' := by
  unfold probeScanForMsi at h
  by_cases hmsix : board.msixCapable = true
  · simp only [hmsix, if_true] at h
    split at h
    · cases h
    next hneg =>
    obtain rfl := (Except.ok.inj h).symm
    by_cases hrc : ans.msixRc = 0
    · simp only [hrc, if_true]
      refine ⟨?_, hmsix.symm, ?_, fun _ _ => ans.vector_ne, fun _ => ?_, fun _ _ => ?_,
        fun _ _ _ => ?_, fun _ _ => ?_, fun h => (nomatch h), fun _ => by omega, fun h => (nomatch h)⟩
      · refine hs.holds.acquire (r := .msix) (by simp) fun r => ?_
        rw [hs.lro]
        cases r <;> simp [Owned, hrc]
      all_goals simp [hs.lro]
    · simp only [hrc, if_false]
      refine ⟨?_, hmsix.symm, ?_, fun h => absurd h hrc, fun _ => ?_, fun _ _ => ?_,
        fun _ _ _ => ?_, fun _ _ => ?_, fun h => (nomatch h), fun _ => by omega, fun h => (nomatch h)⟩
      · refine hs.holds.congr fun r => ?_
        rw [hs.lro]
        cases r <;> simp [Owned, hrc]
      all_goals simp [hs.lro]
  rw [Bool.not_eq_true] at hmsix
  simp only [hmsix, if_false, Bool.false_eq_true] at h
  by_cases hmsi : board.msiCapable = true
  · simp only [hmsi, if_true] at h
    split at h
    · cases h
    obtain rfl := (Except.ok.inj h).symm
    have hrc : ans.msiRc = 0 := by
      have := ans.msiRc_le
      omega
    simp only [hrc, if_true]
    have hkept := hs.kept_of_legacy ans hmsix
    refine ⟨?_, hkept.msix, hkept.inUse, hkept.vector, hkept.noRegions, hkept.noBars,
      hkept.noEngines, hkept.noChars, hkept.line, hkept.scanned, hkept.enabled⟩
    refine hs.holds.acquire (r := .msi) (by simp) fun r => ?_
    cases r <;> simp [Owned, hs.lro]
  · simp only [hmsi, if_false, Bool.false_eq_true] at h
    obtain rfl := Except.ok.inj h
    exact hs.kept_of_legacy ans hmsix

/-- A refused interrupt mode is not held. -/
theorem probeScanForMsi_error (hs : Enabled s)
    (h : probeScanForMsi board ans s = .error (s', rc)) :
    (Holds s'.book fun r => r = .lro ∨ r = .enable) ∧ s'.lro.regionsInUse = false ∧ rc < 0 := by
  unfold probeScanForMsi at h
  by_cases hmsix : board.msixCapable = true
  · simp only [hmsix, if_true] at h
    split at h
    · next hneg =>
        have hrc : ans.msixRc ≠ 0 := by omega
        simp only [hrc, if_false, Except.error.injEq, Prod.mk.injEq] at h
        obtain ⟨rfl, rfl⟩ := h
        exact ⟨hs.holds, by simp [hs.lro], hneg⟩
    · cases h
  rw [Bool.not_eq_true] at hmsix
  simp only [hmsix, if_false, Bool.false_eq_true] at h
  by_cases hmsi : board.msiCapable = true
  · simp only [hmsi, if_true] at h
    split at h
    · next hneg =>
        have hrc : ans.msiRc ≠ 0 := by omega
        simp only [hrc, if_false, Except.error.injEq, Prod.mk.injEq] at h
        obtain ⟨rfl, rfl⟩ := h
        exact ⟨hs.holds, by simp [hs.lro], hneg⟩
    · cases h
  · simp [hmsi] at h

theorem requestRegions_ok (hs : Kept board ans {} s) (h : requestRegions ans s = .ok s') :
    Kept board ans { regions := true } s' := by
  unfold requestRegions at h
  split at h
  · cases h
  obtain rfl := Except.ok.inj h
  have hno := hs.noRegions rfl
  refine ⟨?_, hs.msix, hs.inUse, hs.vector, fun h => (nomatch h), hs.noBars, hs.noEngines, hs.noChars,
    hs.line, hs.scanned, hs.enabled⟩
  refine hs.holds.acquire (r := .regions) (by simp [Owned, hno]) fun r => ?_
  cases r <;> simp [Owned]

/-- The device counts as used by somebody else. -/
theorem requestRegions_error (hs : Kept board ans {} s)
    (h : requestRegions ans s = .error (s', rc)) :
    Holds s'.book (Owned ans {} s.lro) ∧ s'.lro = { s.lro with regionsInUse := true } ∧
      ans.regionsRc ≠ 0 ∧ rc = ans.regionsRc := by
  unfold requestRegions at h
  split at h
  · next hrc =>
      simp only [Except.error.injEq, Prod.mk.injEq] at h
      obtain ⟨rfl, rfl⟩ := h
      exact ⟨hs.holds, rfl, hrc, rfl⟩
  · cases h

end Steps

/-! ## BARs are mapped and unmapped -/

/-- The fields that the ownership of a resource depends on. -/
def XdmaDev.view (lro : XdmaDev) : XdmaDev :=
  { lro with
    major := 0
    instanceNo := 0
    userBarIdx := none
    configBarIdx := none
    bypassBarIdx := none
    enginesNum := 0 }

section Bars

variable {board : Board} {ans : Answers} {up : Up} {s s' : State} {rc : Int}

theorem owned_view (ans : Answers) (up : Up) (lro : XdmaDev) (r : Res) :
    Owned ans up lro.view r ↔ Owned ans up lro r := by
  cases r <;> exact Iff.rfl

/-- Other fields may change. -/
theorem Kept.of_view (h : Kept board ans up s) (hbook : s'.book = s.book)
    (hview : s'.lro.view = s.lro.view) : Kept board ans up s' := by
  refine ⟨?_, (congrArg XdmaDev.msixEnabled hview).trans h.msix,
    (congrArg XdmaDev.regionsInUse hview).trans h.inUse, ?_,
    fun hup => (congrArg XdmaDev.gotRegions hview).trans (h.noRegions hup),
    fun hup i => (congrFun (congrArg XdmaDev.bar hview) i).trans (h.noBars hup i),
    fun hup c d => (congrFun (congrFun (congrArg XdmaDev.engine hview) c) d).trans
      (h.noEngines hup c d),
    fun hup x => (congrFun (congrArg XdmaDev.charDev hview) x).trans (h.noChars hup x), ?_,
    h.scanned, h.enabled⟩
  · rw [hbook]
    refine h.holds.congr fun r => ?_
    rw [← owned_view, hview, owned_view]
  · intro hrc hcap i
    have hvector := congrFun (congrArg XdmaDev.vector hview) i
    exact fun hzero => h.vector hrc hcap i (hvector.symm.trans hzero)
  · intro hup hmsix
    have hline := congrArg XdmaDev.irqLine hview
    have hmsix' := (congrArg XdmaDev.msixEnabled hview).symm.trans hmsix
    exact fun hno => h.line hup hmsix' (hline.symm.trans hno)

/-- One BAR of `unmap_bars`. -/
theorem unmapBar_holds {i : Bar} (h : Holds s.book (Owned ans up s.lro)) (hbar : s.lro.bar i = true) :
    Holds ((s.release (.bar i)).setBar i false).book
      (Owned ans up ((s.release (.bar i)).setBar i false).lro) := by
  have hown : Owned ans up s.lro (.bar i) := hbar
  refine h.release hown fun r => ?_
  cases r with
  | bar j =>
      by_cases hj : j = i
      · simp [Owned, State.setBar, hj]
      · simp [Owned, State.setBar, hj]
  | _ => simp [Owned, State.setBar]

/-- `unmap_bars` gives back every BAR that is mapped. -/
theorem unmapBars_holds (h : Holds s.book (Owned ans up s.lro)) :
    Holds (unmapBars s).book (Owned ans up (unmapBars s).lro) ∧
      (unmapBars s).lro = { s.lro with bar := fun _ => false } ∧ (unmapBars s).glob = s.glob := by
  have hinv := each_invariant (l := List.finRange 6) (s := s)
    (b := fun i s => if s.lro.bar i then (s.release (.bar i)).setBar i false else s)
    (fun rest t => Holds t.book (Owned ans up t.lro) ∧ t.lro = { s.lro with bar := t.lro.bar } ∧
      t.glob = s.glob ∧ ∀ i, i ∉ rest → t.lro.bar i = false)
    ⟨h, rfl, rfl, fun i hi => absurd (List.mem_finRange i) hi⟩ ?_
  · obtain ⟨hholds, hlro, hglob, hbars⟩ := hinv
    refine ⟨hholds, ?_, hglob⟩
    have hbar : (unmapBars s).lro.bar = fun _ => false := funext fun i => hbars i (List.not_mem_nil)
    rw [← hbar]
    exact hlro
  · rintro i rest t ⟨hholds, hlro, hglob, hbars⟩
    dsimp only
    by_cases hbar : t.lro.bar i = true
    · rw [if_pos hbar]
      refine ⟨unmapBar_holds hholds hbar, ?_, hglob, fun j hj => ?_⟩
      · simp only [State.setBar, State.release_lro]
        rw [hlro]
      · by_cases hji : j = i
        · simp [State.setBar, hji]
        · simp only [State.setBar, State.release_lro, Function.update_of_ne hji]
          exact hbars j (by simp [hji, hj])
    · rw [if_neg hbar]
      refine ⟨hholds, hlro, hglob, fun j hj => ?_⟩
      by_cases hji : j = i
      · simpa [hji] using hbar
      · exact hbars j (by simp [hji, hj])

theorem unmapBars_kept (h : Kept board ans { up with bars := true } s) :
    Kept board ans up (unmapBars s) := by
  obtain ⟨hholds, hlro, -⟩ := unmapBars_holds h.holds
  refine ⟨hholds.congr fun r => by cases r <;> exact Iff.rfl, ?_, ?_, ?_, ?_, ?_, ?_, ?_, ?_,
    h.scanned, h.enabled⟩
  all_goals rw [hlro]
  · exact h.msix
  · exact h.inUse
  · exact h.vector
  · exact h.noRegions
  · exact fun _ _ => rfl
  · exact h.noEngines
  · exact h.noChars
  · exact h.line

/-- Some BARs are mapped. -/
theorem Kept.barsUp (h : Kept board ans up s) : Kept board ans { up with bars := true } s :=
  ⟨h.holds.congr fun r => by cases r <;> exact Iff.rfl, h.msix, h.inUse, h.vector, h.noRegions,
    fun hup => (nomatch hup), h.noEngines, h.noChars, h.line, h.scanned, h.enabled⟩

theorem setBar_false {i : Bar} (hbar : s.lro.bar i = false) : s.setBar i false = s := by
  have hsame : Function.update s.lro.bar i false = s.lro.bar := by
    rw [← hbar]
    exact Function.update_eq_self i s.lro.bar
  unfold State.setBar
  rw [hsame]

theorem mapSingleBar_kept {i : Bar} (h : Kept board ans up s) (hup : up.bars = true)
    (hbar : s.lro.bar i = false) :
    Kept board ans up (mapSingleBar board ans i s).1 ∧
      ∀ j, j ≠ i → (mapSingleBar board ans i s).1.lro.bar j = s.lro.bar j := by
  unfold mapSingleBar
  split
  · rw [setBar_false hbar]
    exact ⟨h, fun _ _ => rfl⟩
  split
  · refine ⟨⟨?_, h.msix, h.inUse, h.vector, h.noRegions, fun hno => ?_, h.noEngines, h.noChars,
      h.line, h.scanned, h.enabled⟩, fun j hj => Function.update_of_ne hj _ _⟩
    · have hown : ¬Owned ans up s.lro (.bar i) := by simp [Owned, hbar]
      refine h.holds.acquire hown fun r => ?_
      cases r with
      | bar j =>
          by_cases hj : j = i
          · simp [Owned, State.setBar, hj]
          · simp [Owned, State.setBar, hj]
      | _ => simp [Owned, State.setBar]
    · rw [hup] at hno
      cases hno
  · rw [setBar_false hbar]
    exact ⟨h, fun _ _ => rfl⟩

/-- What an iteration of `map_bars` leaves. -/
theorem mapBar_cases (board : Board) (ans : Answers) (i : Bar) (v : BarScan) :
    mapBar board ans i v = .error (mapSingleBar board ans i v.s).1 ∨
      ∃ v', mapBar board ans i v = .ok v' ∧
        v'.s.book = (mapSingleBar board ans i v.s).1.book ∧
        v'.s.lro.view = (mapSingleBar board ans i v.s).1.lro.view := by
  unfold mapBar
  dsimp only
  split
  · exact .inr ⟨_, rfl, rfl, rfl⟩
  split
  · exact .inl rfl
  split
  · exact .inr ⟨_, rfl, rfl, rfl⟩
  · exact .inr ⟨_, rfl, rfl, rfl⟩

/-- The invariant of the loop: the BARs that are still to come are not mapped. -/
def BarsFrom (board : Board) (ans : Answers) (up : Up) (rest : List Bar) (v : BarScan) : Prop :=
  Kept board ans up v.s ∧ rest.Nodup ∧ ∀ i ∈ rest, v.s.lro.bar i = false

theorem BarsFrom.step {i : Bar} {rest : List Bar} {v v' : BarScan} (hup : up.bars = true)
    (h : BarsFrom board ans up (i :: rest) v) (hi : mapBar board ans i v = .ok v') :
    BarsFrom board ans up rest v' := by
  obtain ⟨hkept, hnodup, hbars⟩ := h
  have hsingle := mapSingleBar_kept hkept hup (hbars i List.mem_cons_self)
  rcases mapBar_cases board ans i v with herr | ⟨v₁, hok, hbook, hview⟩
  · rw [hi] at herr
    cases herr
  obtain rfl := Except.ok.inj (hi.symm.trans hok)
  refine ⟨hsingle.1.of_view hbook hview, (List.nodup_cons.1 hnodup).2, fun j hj => ?_⟩
  have hne : j ≠ i := fun heq => (List.nodup_cons.1 hnodup).1 (heq ▸ hj)
  have hbar : v'.s.lro.bar j = (mapSingleBar board ans i v.s).1.lro.bar j :=
    congrFun (congrArg XdmaDev.bar hview) j
  rw [hbar, hsingle.2 j hne]
  exact hbars j (List.mem_cons_of_mem i hj)

theorem BarsFrom.error {i : Bar} {rest : List Bar} {v : BarScan} (hup : up.bars = true)
    (h : BarsFrom board ans up (i :: rest) v) (hi : mapBar board ans i v = .error s) :
    Kept board ans up s := by
  obtain ⟨hkept, -, hbars⟩ := h
  have hsingle := mapSingleBar_kept hkept hup (hbars i List.mem_cons_self)
  rcases mapBar_cases board ans i v with herr | ⟨v₁, hok, -⟩
  · rw [hi] at herr
    rw [Except.error.inj herr]
    exact hsingle.1
  · rw [hi] at hok
    cases hok

/-- Before the first BAR. -/
theorem Kept.barsFrom (h : Kept board ans up s) (hup : up.bars = false) :
    BarsFrom board ans { up with bars := true } (List.finRange 6) { s := s } :=
  ⟨h.barsUp, List.nodup_finRange 6, fun i _ => h.noBars hup i⟩

theorem identifyBars_view (barIdList : List Bar) (configBarPos : Nat) (lro : XdmaDev) :
    (identifyBars barIdList configBarPos lro).view = lro.view := by
  unfold identifyBars
  split
  · split
    · rfl
    · split <;> rfl
  · split <;> rfl
  · rfl

theorem mapBars_ok (h : Kept board ans up s) (hup : up.bars = false)
    (hok : mapBars board ans s = .ok s') : Kept board ans { up with bars := true } s' := by
  unfold mapBars at hok
  cases hloop : forEach (mapBar board ans) (List.finRange 6) { s := s } with
  | error t => simp [hloop] at hok
  | ok v =>
      simp only [hloop] at hok
      have hkept := (forEach_ok (BarsFrom board ans { up with bars := true }) (h.barsFrom hup)
        (fun i rest t t' hI hi => hI.step rfl hi) hloop).1
      split at hok
      · cases hok
      · obtain rfl := Except.ok.inj hok
        exact hkept.of_view rfl (identifyBars_view ..)

/-- `map_bars` unwinds itself. -/
theorem mapBars_error (h : Kept board ans up s) (hup : up.bars = false)
    (herr : mapBars board ans s = .error (s', rc)) : Kept board ans up s' ∧ rc = -1 := by
  unfold mapBars at herr
  cases hloop : forEach (mapBar board ans) (List.finRange 6) { s := s } with
  | error t =>
      simp only [hloop, Except.error.injEq, Prod.mk.injEq] at herr
      obtain ⟨i, rest, v, -, hI, hi⟩ := forEach_error (BarsFrom board ans { up with bars := true })
        (h.barsFrom hup) (fun i rest t t' hI hi => hI.step rfl hi) hloop
      obtain ⟨rfl, rfl⟩ := herr
      exact ⟨unmapBars_kept (hI.error rfl hi), rfl⟩
  | ok v =>
      simp only [hloop] at herr
      have hkept := (forEach_ok (BarsFrom board ans { up with bars := true }) (h.barsFrom hup)
        (fun i rest t t' hI hi => hI.step rfl hi) hloop).1
      split at herr
      · simp only [Except.error.injEq, Prod.mk.injEq] at herr
        obtain ⟨rfl, rfl⟩ := herr
        exact ⟨unmapBars_kept hkept, rfl⟩
      · cases herr

end Bars

/-! ## Interrupts -/

section Irqs

variable {board : Board} {ans : Answers} {up : Up} {s s' : State} {rc : Int} {ι : Type}

/-- Giving back a list of resources one by one. -/
theorem releaseEach_holds {f : ι → Res} (hf : Function.Injective f) {own : Res → Prop} {l : List ι}
    (hnodup : l.Nodup) (h : Holds s.book own) (hown : ∀ x ∈ l, own (f x)) :
    Holds (each (fun x s => s.release (f x)) l s).book (fun r => own r ∧ ∀ x ∈ l, r ≠ f x) ∧
      (each (fun x s => s.release (f x)) l s).lro = s.lro ∧
      (each (fun x s => s.release (f x)) l s).glob = s.glob := by
  induction l generalizing s own with
  | nil => exact ⟨h.congr fun r => by simp, rfl, rfl⟩
  | cons x rest ih =>
      obtain ⟨hx, hrest⟩ := List.nodup_cons.1 hnodup
      have hstep := h.release (o := fun r => own r ∧ r ≠ f x) (hown x List.mem_cons_self)
        fun r => Iff.rfl
      obtain ⟨hholds, hlro, hglob⟩ := ih (s := s.release (f x)) hrest hstep fun y hy =>
        ⟨hown y (List.mem_cons_of_mem x hy), fun heq => hx (hf heq ▸ hy)⟩
      refine ⟨hholds.congr fun r => ?_, hlro, hglob⟩
      simp only [List.forall_mem_cons, and_assoc]

theorem userIrq_injective : Function.Injective Res.userIrq := fun _ _ h => Res.userIrq.inj h

/-- The invariant of the loop of `msix_irq_setup`: the vectors before the ones that are left are
requested. -/
structure IrqsFrom (ans : Answers) (up : Up) (s : State) (rest : List UserIrq) (t : State) : Prop where
  lro : t.lro = s.lro
  glob : t.glob = s.glob
  sorted : rest.Pairwise (· < ·)
  below : ∀ j, j ∉ rest → ∀ i ∈ rest, j < i
  holds : Holds t.book fun r => Owned ans up s.lro r ∨ ∃ i, r = .userIrq i ∧ i ∉ rest
  given : ∀ j, j ∉ rest → ans.userIrqRc j = 0

theorem IrqsFrom.step {i : UserIrq} {rest : List UserIrq} {t : State} (hup : up.irqs = false)
    (h : IrqsFrom ans up s (i :: rest) t) (hrc : ans.userIrqRc i = 0) :
    IrqsFrom ans up s rest (t.acquire (.userIrq i)) := by
  obtain ⟨hi, hrest⟩ := List.pairwise_cons.1 h.sorted
  have hnot : i ∉ rest := fun hmem => absurd (hi i hmem) (by simp)
  refine ⟨h.lro, h.glob, hrest, fun j hj k hk => ?_, ?_, fun j hj => ?_⟩
  · by_cases hji : j = i
    · exact hji ▸ hi k hk
    · exact h.below j (by simp [hji, hj]) k (List.mem_cons_of_mem i hk)
  · refine h.holds.acquire (r := .userIrq i) (by simp [Owned, hup]) fun r => ?_
    cases r with
    | userIrq j =>
        by_cases hji : j = i
        · simp [hji, hnot]
        · simp [Owned, hup, hji]
    | _ => simp [Owned]
  · by_cases hji : j = i
    · exact hji ▸ hrc
    · exact h.given j (by simp [hji, hj])

/-- When a vector is refused, the ones before it are given back. -/
theorem IrqsFrom.unwind {i : UserIrq} {rest : List UserIrq} {t : State} (hup : up.irqs = false)
    (h : IrqsFrom ans up s (i :: rest) t) :
    let t' := each (fun j s => s.release (.userIrq j)) ((List.finRange 16).filter (· < i)).reverse t
    Holds t'.book (Owned ans up s.lro) ∧ t'.lro = s.lro ∧ t'.glob = s.glob := by
  obtain ⟨hi, -⟩ := List.pairwise_cons.1 h.sorted
  have hmem : ∀ j, j ∈ ((List.finRange 16).filter (· < i)).reverse ↔ j ∉ i :: rest := by
    intro j
    simp only [List.mem_reverse, List.mem_filter, List.mem_finRange, true_and, decide_eq_true_eq]
    constructor
    · rintro hlt hin
      rcases List.mem_cons.1 hin with rfl | hin
      · exact Nat.lt_irrefl j.val hlt
      · exact Nat.lt_asymm hlt (hi j hin)
    · exact fun hout => h.below j hout i List.mem_cons_self
  have hnodup : ((List.finRange 16).filter (· < i)).reverse.Nodup :=
    List.nodup_reverse.2 ((List.nodup_finRange 16).filter _)
  obtain ⟨hholds, hlro, hglob⟩ := releaseEach_holds userIrq_injective hnodup h.holds
    fun j hj => .inr ⟨j, rfl, (hmem j).1 hj⟩
  refine ⟨hholds.congr fun r => ?_, hlro.trans h.lro, hglob.trans h.glob⟩
  cases r with
  | userIrq j =>
      simp only [Owned, hup, Bool.false_eq_true, false_and, false_or, hmem, Res.userIrq.injEq,
        exists_eq_left', false_iff, not_and]
      exact fun hout hno => hno j hout rfl
  | _ => simp

theorem Kept.irqsFrom (h : Kept board ans up s) : IrqsFrom ans up s (List.finRange 16) s where
  lro := rfl
  glob := rfl
  sorted := List.pairwise_lt_finRange 16
  below := fun j hj => absurd (List.mem_finRange j) hj
  holds := h.holds.congr fun r => by simp
  given := fun j hj => absurd (List.mem_finRange j) hj

theorem msixIrqSetup_ok (h : Kept board ans up s) (hup : up.irqs = false)
    (hok : msixIrqSetup ans s = .ok s') :
    Holds s'.book (fun r => Owned ans up s.lro r ∨ ∃ i, r = .userIrq i) ∧ s'.lro = s.lro ∧
      s'.glob = s.glob ∧ ∀ i, ans.userIrqRc i = 0 := by
  have hinv := forEach_ok (IrqsFrom ans up s) h.irqsFrom (fun i rest t t' hI hi => ?_) hok
  · exact ⟨hinv.holds.congr fun r => by simp, hinv.lro, hinv.glob,
      fun i => hinv.given i List.not_mem_nil⟩
  · split at hi
    · next hrc =>
        obtain rfl := Except.ok.inj hi
        exact hI.step hup hrc
    · cases hi

theorem msixIrqSetup_error (h : Kept board ans up s) (hup : up.irqs = false)
    (herr : msixIrqSetup ans s = .error (s', rc)) :
    Holds s'.book (Owned ans up s.lro) ∧ s'.lro = s.lro ∧ s'.glob = s.glob ∧ rc ≠ 0 := by
  obtain ⟨i, rest, t, -, hI, hi⟩ := forEach_error (IrqsFrom ans up s) h.irqsFrom
    (fun i rest t t' hI hi => by
      split at hi
      · next hrc =>
          obtain rfl := Except.ok.inj hi
          exact hI.step hup hrc
      · cases hi) herr
  split at hi
  · cases hi
  · next hrc =>
      simp only [Except.error.injEq, Prod.mk.injEq] at hi
      obtain ⟨rfl, rfl⟩ := hi
      obtain ⟨hholds, hlro, hglob⟩ := hI.unwind hup
      exact ⟨hholds, hlro, hglob, hrc⟩

/-- The same device with or without its interrupts. -/
theorem Kept.withIrqs (h : Kept board ans up s) (b : Bool) (hlro : s'.lro = s.lro)
    (hholds : Holds s'.book (Owned ans { up with irqs := b } s.lro))
    (hline : b = true → s.lro.msixEnabled = false → s.lro.irqLine ≠ -1)
    (henabled : b = true → board.msixCapable = true → ans.msixRc = 0) :
    Kept board ans { up with irqs := b } s' := by
  refine ⟨?_, ?_, ?_, ?_, ?_, ?_, ?_, ?_, ?_, h.scanned, henabled⟩
  all_goals rw [hlro]
  exacts [hholds, h.msix, h.inUse, h.vector, h.noRegions, h.noBars, h.noEngines, h.noChars, hline]

theorem irqSetup_ok (h : Kept board ans up s) (hup : up.irqs = false)
    (hok : irqSetup board ans s = .ok s') : Kept board ans { up with irqs := true } s' := by
  unfold irqSetup at hok
  by_cases hmsix : s.lro.msixEnabled = true
  · rw [if_pos hmsix] at hok
    obtain ⟨hholds, hlro, -, hirqs⟩ := msixIrqSetup_ok h hup hok
    refine h.withIrqs true hlro (hholds.congr fun r => ?_) (fun _ hno => ?_) fun _ hcap => ?_
    · cases r <;> simp [Owned, hmsix, hup]
    · rw [hmsix] at hno
      cases hno
    · by_contra hne
      have hpos := h.scanned hcap
      exact ans.userIrq_zero (by omega) (hirqs 0)
  · rw [if_neg hmsix] at hok
    dsimp only at hok
    split at hok
    · obtain rfl := Except.ok.inj hok
      refine ⟨?_, h.msix, h.inUse, h.vector, h.noRegions, h.noBars, h.noEngines, h.noChars,
        fun _ _ => ?_, h.scanned, fun _ hcap => ?_⟩
      · have hown : ¬Owned ans up s.lro .irq := by simp [Owned, hup]
        refine h.holds.acquire hown fun r => ?_
        cases r <;> simp [Owned, hup, hmsix]
      · simp only [State.acquire_lro]
        omega
      · rw [h.msix, hcap] at hmsix
        exact absurd rfl hmsix
    · cases hok

/-- `irq_setup` leaves no interrupt behind when it fails. -/
theorem irqSetup_error (h : Kept board ans up s) (hup : up.irqs = false)
    (herr : irqSetup board ans s = .error (s', rc)) : Kept board ans up s' ∧ rc ≠ 0 := by
  unfold irqSetup at herr
  by_cases hmsix : s.lro.msixEnabled = true
  · rw [if_pos hmsix] at herr
    obtain ⟨hholds, hlro, -, hrc⟩ := msixIrqSetup_error h hup herr
    exact ⟨h.withIrqs up.irqs hlro hholds h.line h.enabled, hrc⟩
  · rw [if_neg hmsix] at herr
    dsimp only at herr
    split at herr
    · cases herr
    · next hrc =>
        simp only [Except.error.injEq, Prod.mk.injEq] at herr
        obtain ⟨rfl, rfl⟩ := herr
        refine ⟨⟨h.holds.congr fun r => by cases r <;> exact Iff.rfl, h.msix, h.inUse, h.vector,
          h.noRegions, h.noBars, h.noEngines, h.noChars, fun hno => ?_, h.scanned, h.enabled⟩, hrc⟩
        rw [hup] at hno
        cases hno

/-- `irq_teardown` gives back what `irq_setup` has requested, and nothing else. -/
theorem irqTeardown_kept (h : Kept board ans { up with irqs := true } s) :
    Kept board ans { up with irqs := false } (irqTeardown s) := by
  unfold irqTeardown
  by_cases hmsix : s.lro.msixEnabled = true
  · rw [if_pos hmsix]
    obtain ⟨hholds, hlro, -⟩ := releaseEach_holds userIrq_injective (List.nodup_finRange 16) h.holds
      fun i _ => show Owned ans { up with irqs := true } s.lro (.userIrq i) from ⟨rfl, hmsix⟩
    refine h.withIrqs false hlro (hholds.congr fun r => ?_) (fun hno => (nomatch hno))
      fun hno => (nomatch hno)
    cases r <;> simp [Owned, hmsix]
  · rw [if_neg hmsix]
    rw [Bool.not_eq_true] at hmsix
    rw [if_pos (h.line rfl hmsix)]
    have hown : Owned ans { up with irqs := true } s.lro .irq := ⟨rfl, hmsix⟩
    refine h.withIrqs false rfl (h.holds.release hown fun r => ?_) (fun hno => (nomatch hno))
      fun hno => (nomatch hno)
    cases r <;> simp [Owned, hmsix]

end Irqs

/-! ## The numbers of a board

The variables of the module and the numbers of the board are changed by `create_sg_char` only, and
what is held of them by `destroy_sg_char` as well. -/

section Ids

variable (board : Board) (ans : Answers) (s : State)

def place (s : State) : Globals × Nat × Nat := (s.glob, s.lro.major, s.lro.instanceNo)

def ids (s : State) : (Globals × Nat × Nat) × Book Number := (place s, s.numbers)

/-- The numbers that a step leaves, also when it fails. -/
def idsOf (r : Except (State × Int) State) : (Globals × Nat × Nat) × Book Number :=
  observe ids (fun e : State × Int => ids e.1) r

theorem ids_of_ok {r : Except (State × Int) State} {t : State} (h : r = .ok t) : ids t = idsOf r := by
  rw [h]
  rfl

theorem idsOf_probeScanForMsi : idsOf (probeScanForMsi board ans s) = ids s := by
  unfold probeScanForMsi
  dsimp only
  split
  · split <;> split <;> rfl
  split
  · split <;> split <;> rfl
  · rfl

theorem idsOf_requestRegions : idsOf (requestRegions ans s) = ids s := by
  unfold requestRegions
  split <;> rfl

theorem ids_unmapBars : ids (unmapBars s) = ids s := by
  refine each_frame ids (fun i t => ?_) _ s
  split <;> rfl

theorem ids_mapSingleBar (i : Bar) : ids (mapSingleBar board ans i s).1 = ids s := by
  unfold mapSingleBar
  split
  · rfl
  · split <;> rfl

theorem observe_mapBar (i : Bar) (v : BarScan) :
    observe (fun v => ids v.s) ids (mapBar board ans i v) = ids v.s := by
  have hsingle := ids_mapSingleBar board ans v.s i
  unfold mapBar
  dsimp only
  split
  · exact hsingle
  split
  · exact hsingle
  split <;> exact hsingle

theorem ids_identifyBars (barIdList : List Bar) (configBarPos : Nat) :
    ids { s with lro := identifyBars barIdList configBarPos s.lro } = ids s := by
  unfold identifyBars
  split
  · split
    · rfl
    · split <;> rfl
  · split <;> rfl
  · rfl

theorem idsOf_mapBars : idsOf (mapBars board ans s) = ids s := by
  have hloop := forEach_frame (fun v : BarScan => ids v.s) ids
    (fun i v => observe_mapBar board ans i v) (List.finRange 6) { s := s }
  unfold mapBars
  cases hr : forEach (mapBar board ans) (List.finRange 6) { s := s } with
  | error t =>
      rw [hr] at hloop
      exact (ids_unmapBars t).trans hloop
  | ok v =>
      rw [hr] at hloop
      dsimp only
      split
      · exact (ids_unmapBars v.s).trans hloop
      · exact (ids_identifyBars v.s _ _).trans hloop

theorem idsOf_setDmaMask : idsOf (setDmaMask ans s) = ids s := by
  unfold setDmaMask
  split
  · rfl
  · split <;> rfl

theorem idsOf_irqSetup : idsOf (irqSetup board ans s) = ids s := by
  unfold irqSetup
  split
  · unfold msixIrqSetup
    refine forEach_frame ids (fun e : State × Int => ids e.1) (fun i t => ?_) _ s
    split
    · rfl
    · exact each_frame (b := fun j s => s.release (.userIrq j)) ids (fun _ _ => rfl) _ t
  · dsimp only
    split <;> rfl

theorem ids_irqTeardown : ids (irqTeardown s) = ids s := by
  have hloop := each_frame (b := fun i s => s.release (.userIrq i)) ids (fun _ _ => rfl)
    (List.finRange 16) s
  unfold irqTeardown
  by_cases hmsix : s.lro.msixEnabled = true
  · rw [if_pos hmsix]
    exact hloop
  · rw [if_neg hmsix]
    split <;> rfl

end Ids

end Probe
end WzXdma
