import WzXdma.Probe.Device

/-!
# Engines of a device

`probe_engines` looks at the identifier of every channel, first from the host to the card and then
the other way, and creates an engine for each one it finds.  A failing `engine_create` gives back what
it has itself acquired.  The engines before it are destroyed when a channel of the first loop fails, and
they are left when a channel of the second loop does.
-/

namespace WzXdma
namespace Probe

open Lib.Loop Lib.Holdings

/-- `engine_msix_setup` -/
def engineMsixSetup (ans : Answers) (channel : Channel) (dir : Bool) (e : Engine) (s : State) :
    Except (State × Int) (State × Engine) :=
  let vector := s.lro.vector (s.lro.enginesNum + 16)
  if (ans.engine channel dir).irqRc ≠ 0 then .error (s, (ans.engine channel dir).irqRc)
  else .ok (s.acquire (.engineIrq channel dir), { e with msixIrqLine := vector })

/-- `engine_msix_teardown` -/
def engineMsixTeardown (channel : Channel) (dir : Bool) (e : Engine) (s : State) : State :=
  if e.msixIrqLine ≠ 0 then s.release (.engineIrq channel dir) else s

/-- `engine_writeback_setup` -/
def engineWritebackSetup (ans : Answers) (channel : Channel) (dir : Bool) (e : Engine) (s : State) :
    Except State (State × Engine) :=
  if (ans.engine channel dir).writeback then
    .ok (s.acquire (.writeback channel dir), { e with writeback := true })
  else .error s

/-- `engine_writeback_teardown` -/
def engineWritebackTeardown (channel : Channel) (dir : Bool) (e : Engine) (s : State) : State :=
  if e.writeback then s.release (.writeback channel dir) else s

/-- `engine_create` behind the interrupt of the engine. -/
def engineConfigure (ans : Answers) (channel : Channel) (dir : Bool) (e : Engine) (s : State) :
    State × Option Engine :=
  let s := { s with lro := { s.lro with enginesNum := s.lro.enginesNum + 1 } }
  if s.glob.pollMode then
    match engineWritebackSetup ans channel dir e s with
    | .ok (s, e) => (s, some e)
    -- `fail_wb`
    | .error s => ((engineMsixTeardown channel dir e s).release (.engine channel dir), none)
  else (s, some e)

/-- `engine_create`, where `dir` is `!dir_to_dev`. -/
def engineCreate (ans : Answers) (channel : Channel) (dir : Bool) (s : State) :
    State × Option Engine :=
  if (ans.engine channel dir).alloc = false then (s, none)
  else
    let s := s.acquire (.engine channel dir)
    if s.lro.msixEnabled then
      match engineMsixSetup ans channel dir {} s with
      | .ok (s, e) => engineConfigure ans channel dir e s
      -- `fail_msix`
      | .error (s, _) => (s.release (.engine channel dir), none)
    else engineConfigure ans channel dir {} s

/-- `engine_destroy` -/
def engineDestroy (channel : Channel) (dir : Bool) (e : Engine) (s : State) : State :=
  let s := engineMsixTeardown channel dir e s
  let s := if s.glob.pollMode then engineWritebackTeardown channel dir e s else s
  let s := s.release (.engine channel dir)
  { s with lro := { s.lro with enginesNum := s.lro.enginesNum - 1 } }

/-- The channels in the order of `remove_engines`. -/
def engineOrder : List (Channel × Bool) :=
  (List.finRange 4).flatMap fun channel => [(channel, false), (channel, true)]

/-- `remove_engines` -/
def removeEngines (s : State) : State :=
  each (fun p s => (s.lro.engine p.1 p.2).elim s fun e => engineDestroy p.1 p.2 e s) engineOrder s

def State.setEngine (s : State) (channel : Channel) (dir : Bool) (e : Option Engine) : State :=
  { s with lro := { s.lro with
    engine := fun c d => if c = channel ∧ d = dir then e else s.lro.engine c d } }

/-- The identifier register of a channel shows its engine: `get_engine_id` and
`get_engine_channel_id`. -/
def engineAt (board : Board) (i : Bar) (channel : Channel) (dir : Bool) : Bool :=
  let value := board.reg i ((if dir then 0x1000 else 0) + channel.val * 0x100)
  (value &&& 0xffff0000) >>> 16 == (if dir then 0x1fc1 else 0x1fc0) &&
    (value &&& 0x00000f00) >>> 8 == BitVec.ofNat 32 channel.val

/-- `probe_for_engine` -/
def probeForEngine (board : Board) (ans : Answers) (channel : Channel) (dir : Bool) (s : State) :
    Except (State × Int) State :=
  if s.lro.configBarIdx.any (fun i => engineAt board i channel dir) then
    let r := engineCreate ans channel dir s
    let s := r.1.setEngine channel dir r.2
    if r.2 = none then .error (s, -1) else .ok s
  else .ok s

/-- `probe_engines` -/
def probeEngines (board : Board) (ans : Answers) (s : State) : Except (State × Int) State :=
  match forEach (fun channel s => probeForEngine board ans channel false s) (List.finRange 4) s with
  | .error (s, rc) => .error (removeEngines s, rc)
  | .ok s => forEach (fun channel s => probeForEngine board ans channel true s) (List.finRange 4) s

/-! ## Creation -/

/-- What an engine notes about itself is what it holds. -/
def EnginesOk (s : State) : Prop :=
  ∀ channel dir e, s.lro.engine channel dir = some e →
    (e.msixIrqLine ≠ 0 ↔ s.lro.msixEnabled = true) ∧ (e.writeback = true → s.glob.pollMode = true)

/-- The kernel refuses something that the creation of this engine needs. -/
def EngineRefused (board : Board) (ans : Answers) (pollMode : Bool) (channel : Channel)
    (dir : Bool) : Prop :=
  (ans.engine channel dir).alloc = false ∨
    (board.msixCapable = true ∧ (ans.engine channel dir).irqRc ≠ 0) ∨
    (pollMode = true ∧ (ans.engine channel dir).writeback = false)

section Create

variable {board : Board} {ans : Answers} {up : Up} {s s' t : State} {e : Engine}
  {channel : Channel} {dir : Bool}

/-- An engine under construction that holds its structure and its interrupt. -/
structure Building (ans : Answers) (up : Up) (channel : Channel) (dir : Bool) (s : State)
    (e : Engine) (t : State) : Prop where
  lro : t.lro = s.lro
  glob : t.glob = s.glob
  irq : e.msixIrqLine ≠ 0 ↔ s.lro.msixEnabled = true
  writeback : e.writeback = false
  holds : Holds t.book fun r => Owned ans up s.lro r ∨ r = .engine channel dir ∨
    (r = .engineIrq channel dir ∧ s.lro.msixEnabled = true)

/-- The engine of another channel is not touched. -/
theorem setEngine_engine (s : State) (channel : Channel) (dir : Bool) (e : Option Engine)
    (c : Channel) (d : Bool) :
    (s.setEngine channel dir e).lro.engine c d =
      if c = channel ∧ d = dir then e else s.lro.engine c d := rfl

theorem setEngine_none (hnone : s.lro.engine channel dir = none) :
    s.setEngine channel dir none = s := by
  have hsame : (fun c d => if c = channel ∧ d = dir then none else s.lro.engine c d) =
      s.lro.engine := by
    funext c d
    by_cases hcd : c = channel ∧ d = dir
    · rw [if_pos hcd, hcd.1, hcd.2, hnone]
    · rw [if_neg hcd]
  unfold State.setEngine
  rw [hsame]

/-- What an engine that is set holds. -/
theorem owned_setEngine (hup : up.engines = true) (hnone : s.lro.engine channel dir = none)
    (r : Res) :
    Owned ans up (s.setEngine channel dir (some e)).lro r ↔
      Owned ans up s.lro r ∨ r = .engine channel dir ∨
        (r = .engineIrq channel dir ∧ s.lro.msixEnabled = true) ∨
        (r = .writeback channel dir ∧ e.writeback = true) := by
  have hsame : ∀ c d, (s.setEngine channel dir (some e)).lro.engine c d =
      if c = channel ∧ d = dir then some e else s.lro.engine c d := fun _ _ => rfl
  cases r with
  | engine c d =>
      simp only [Owned, hup, hsame, true_and]
      by_cases hcd : c = channel ∧ d = dir
      · simp [hcd]
      · simp [hcd]
  | engineIrq c d =>
      simp only [Owned, hup, hsame, true_and]
      by_cases hcd : c = channel ∧ d = dir
      · simp [hcd, State.setEngine, hnone]
      · simp [hcd, State.setEngine]
  | writeback c d =>
      simp only [Owned, hup, hsame, true_and]
      by_cases hcd : c = channel ∧ d = dir
      · simp [hcd, hnone]
      · simp [hcd]
  | _ => simp [Owned, State.setEngine]

theorem Building.start (h : Kept board ans up s) (hup : up.engines = true)
    (hnone : s.lro.engine channel dir = none) (hmsix : s.lro.msixEnabled = false) :
    Building ans up channel dir s {} (s.acquire (.engine channel dir)) := by
  refine ⟨rfl, rfl, by simp [hmsix], rfl, ?_⟩
  refine h.holds.acquire (r := .engine channel dir) (by simp [Owned, hup, hnone]) fun r => ?_
  simp [hmsix]

/-- Behind `engine_msix_setup`. -/
theorem Building.start_msix (h : Kept board ans up s) (hup : up.engines = true)
    (hirqs : up.irqs = true) (hnone : s.lro.engine channel dir = none)
    (hmsix : s.lro.msixEnabled = true) :
    Building ans up channel dir s { msixIrqLine := s.lro.vector (s.lro.enginesNum + 16) }
      ((s.acquire (.engine channel dir)).acquire (.engineIrq channel dir)) := by
  have hcap : board.msixCapable = true := h.msix.symm.trans hmsix
  have hvector := h.vector (h.enabled hirqs hcap) hcap (s.lro.enginesNum + 16)
  refine ⟨rfl, rfl, by simp [hmsix, hvector], rfl, ?_⟩
  have hstruct := h.holds.acquire (r := .engine channel dir)
    (o := fun r => Owned ans up s.lro r ∨ r = .engine channel dir)
    (by simp [Owned, hup, hnone]) fun r => Iff.rfl
  refine hstruct.acquire (r := .engineIrq channel dir) (by simp [Owned, hup, hnone]) fun r => ?_
  simp [hmsix, or_assoc]

@[simp] theorem engineMsixTeardown_lro (channel : Channel) (dir : Bool) (e : Engine) (s : State) :
    (engineMsixTeardown channel dir e s).lro = s.lro := by
  unfold engineMsixTeardown
  split <;> rfl

@[simp] theorem engineMsixTeardown_glob (channel : Channel) (dir : Bool) (e : Engine) (s : State) :
    (engineMsixTeardown channel dir e s).glob = s.glob := by
  unfold engineMsixTeardown
  split <;> rfl

/-- A failing configuration gives back the interrupt and the structure. -/
theorem Building.unwind (h : Building ans up channel dir s e t) (hup : up.engines = true)
    (hnone : s.lro.engine channel dir = none) (hbook : s'.book = t.book) :
    Holds ((engineMsixTeardown channel dir e s').release (.engine channel dir)).book
      (Owned ans up s.lro) := by
  have hholds := h.holds
  rw [← hbook] at hholds
  have hno : ¬Owned ans up s.lro (.engine channel dir) := by simp [Owned, hup, hnone]
  have hnoIrq : ¬Owned ans up s.lro (.engineIrq channel dir) := by simp [Owned, hup, hnone]
  unfold engineMsixTeardown
  by_cases hmsix : s.lro.msixEnabled = true
  · rw [if_pos (h.irq.2 hmsix)]
    have hirq := hholds.release (r := .engineIrq channel dir)
      (o := fun r => Owned ans up s.lro r ∨ r = .engine channel dir) (by simp [hmsix]) fun r => ?_
    · refine hirq.release (r := .engine channel dir) (by simp) fun r => ?_
      by_cases hr : r = .engine channel dir
      · simp [hr, hno]
      · simp [hr]
    · by_cases hr : r = .engineIrq channel dir
      · simp [hr, hnoIrq]
      · simp [hr]
  · rw [if_neg fun hline => hmsix (h.irq.1 hline)]
    refine hholds.release (r := .engine channel dir) (by simp) fun r => ?_
    by_cases hr : r = .engine channel dir
    · simp [hr, hno]
    · simp [hr, hmsix]

/-- Only the number of engines may differ from the device. -/
theorem Kept.of_lro {n : Nat} (h : Kept board ans up s)
    (hlro : t.lro = { s.lro with enginesNum := n }) (hholds : Holds t.book (Owned ans up s.lro)) :
    Kept board ans up t := by
  refine ⟨hholds.congr fun r => ?_, ?_, ?_, ?_, ?_, ?_, ?_, ?_, ?_, h.scanned, h.enabled⟩
  all_goals rw [hlro]
  · cases r <;> exact Iff.rfl
  exacts [h.msix, h.inUse, h.vector, h.noRegions, h.noBars, h.noEngines, h.noChars, h.line]

/-- The device with a new engine. -/
theorem Kept.setEngine {n : Nat} (h : Kept board ans up s) (hup : up.engines = true)
    (hbegun : up.enginesBegun = true) (hnone : s.lro.engine channel dir = none)
    (hlro : t.lro = { s.lro with enginesNum := n })
    (hholds : Holds t.book fun r => Owned ans up s.lro r ∨ r = .engine channel dir ∨
      (r = .engineIrq channel dir ∧ s.lro.msixEnabled = true) ∨
      (r = .writeback channel dir ∧ e.writeback = true)) :
    Kept board ans up (t.setEngine channel dir (some e)) := by
  have hengine : (t.setEngine channel dir (some e)).lro =
      { (s.setEngine channel dir (some e)).lro with enginesNum := n } := by
    unfold State.setEngine
    rw [hlro]
  refine ⟨hholds.congr fun r => ?_, ?_, ?_, ?_, ?_, ?_, ?_, ?_, ?_, h.scanned, h.enabled⟩
  all_goals rw [hengine]
  · rw [← owned_setEngine hup hnone]
    cases r <;> exact Iff.rfl
  · exact h.msix
  · exact h.inUse
  · exact h.vector
  · exact h.noRegions
  · exact h.noBars
  · intro hno
    rw [hbegun] at hno
    cases hno
  · exact h.noChars
  · exact h.line

theorem EnginesOk.setEngine {n : Nat} (h : EnginesOk s)
    (hlro : t.lro = { s.lro with enginesNum := n }) (hglob : t.glob = s.glob)
    (hirq : e.msixIrqLine ≠ 0 ↔ s.lro.msixEnabled = true)
    (hwb : e.writeback = true → s.glob.pollMode = true) :
    EnginesOk (t.setEngine channel dir (some e)) := by
  intro c d e' he
  have hmsix : (t.setEngine channel dir (some e)).lro.msixEnabled = s.lro.msixEnabled := by
    show t.lro.msixEnabled = _
    rw [hlro]
  have hpoll : (t.setEngine channel dir (some e)).glob = s.glob := hglob
  rw [hmsix, hpoll]
  rw [setEngine_engine, hlro] at he
  by_cases hcd : c = channel ∧ d = dir
  · rw [if_pos hcd] at he
    obtain rfl := Option.some.inj he
    exact ⟨hirq, hwb⟩
  · rw [if_neg hcd] at he
    exact h c d e' he

/-- What one creation leaves: the engine with everything it needs, or nothing. -/
structure Created (board : Board) (ans : Answers) (up : Up) (channel : Channel) (dir : Bool)
    (s : State) (r : State × Option Engine) : Prop where
  kept : Kept board ans up (r.1.setEngine channel dir r.2)
  ok : EnginesOk s → EnginesOk (r.1.setEngine channel dir r.2)
  glob : r.1.glob = s.glob
  refused : r.2 = none → EngineRefused board ans s.glob.pollMode channel dir
  others : ∀ c d, ¬(c = channel ∧ d = dir) → r.1.lro.engine c d = s.lro.engine c d

/-- A creation that failed and has given back everything. -/
theorem Created.of_none {n : Nat} (h : Kept board ans up s)
    (hnone : s.lro.engine channel dir = none) (hlro : t.lro = { s.lro with enginesNum := n })
    (hglob : t.glob = s.glob) (hholds : Holds t.book (Owned ans up s.lro))
    (href : EngineRefused board ans s.glob.pollMode channel dir) :
    Created board ans up channel dir s (t, none) := by
  have hsame : t.setEngine channel dir none = t := setEngine_none (by rw [hlro]; exact hnone)
  refine ⟨?_, ?_, hglob, fun _ => href, fun c d _ => by rw [hlro]⟩
  · rw [hsame]
    exact h.of_lro hlro hholds
  · rw [hsame]
    intro hok c d e he
    rw [hlro] at he
    rw [hlro, hglob]
    exact hok c d e he

theorem engineConfigure_created (h : Kept board ans up s) (hup : up.engines = true)
    (hbegun : up.enginesBegun = true) (hnone : s.lro.engine channel dir = none)
    (hb : Building ans up channel dir s e t) :
    Created board ans up channel dir s (engineConfigure ans channel dir e t) := by
  have hlro := hb.lro
  unfold engineConfigure
  by_cases hpoll : s.glob.pollMode = true
  · have hpoll' : t.glob.pollMode = true := hb.glob ▸ hpoll
    simp only [hpoll', if_true]
    by_cases hwb : (ans.engine channel dir).writeback = true
    · simp only [engineWritebackSetup, hwb, if_true]
      have hholds := hb.holds.acquire (r := .writeback channel dir)
        (o := fun r => Owned ans up s.lro r ∨ r = .engine channel dir ∨
          (r = .engineIrq channel dir ∧ s.lro.msixEnabled = true) ∨
          (r = .writeback channel dir ∧ true = true))
        (by simp [Owned, hnone]) fun r => by simp [or_assoc]
      refine ⟨h.setEngine (n := t.lro.enginesNum + 1) hup hbegun hnone ?_ hholds, fun hok =>
        hok.setEngine (n := t.lro.enginesNum + 1) ?_ hb.glob hb.irq fun _ => hpoll, hb.glob,
        fun hno => absurd hno (Option.some_ne_none _), fun c d _ => ?_⟩
      all_goals simp [hlro]
    · simp only [engineWritebackSetup, hwb, if_false, Bool.false_eq_true]
      rw [Bool.not_eq_true] at hwb
      refine Created.of_none (n := t.lro.enginesNum + 1) h hnone ?_ ?_ (hb.unwind hup hnone rfl)
        (.inr (.inr ⟨hpoll, hwb⟩))
      · simp [hlro]
      · simp [hb.glob]
  · have hpoll' : ¬t.glob.pollMode = true := hb.glob ▸ hpoll
    simp only [hpoll', if_false, Bool.false_eq_true]
    have hholds : Holds t.book fun r => Owned ans up s.lro r ∨ r = .engine channel dir ∨
        (r = .engineIrq channel dir ∧ s.lro.msixEnabled = true) ∨
        (r = .writeback channel dir ∧ e.writeback = true) :=
      hb.holds.congr fun r => by simp [hb.writeback]
    refine ⟨h.setEngine (n := t.lro.enginesNum + 1) hup hbegun hnone ?_ hholds, fun hok =>
      hok.setEngine (n := t.lro.enginesNum + 1) ?_ hb.glob hb.irq fun hwb => ?_, hb.glob,
      fun hno => absurd hno (Option.some_ne_none _), fun c d _ => ?_⟩
    · simp [hlro]
    · simp [hlro]
    · rw [hb.writeback] at hwb
      cases hwb
    · simp [hlro]

/-- `engine_create` -/
theorem engineCreate_created (h : Kept board ans up s) (hup : up.engines = true)
    (hbegun : up.enginesBegun = true) (hirqs : up.irqs = true)
    (hnone : s.lro.engine channel dir = none) :
    Created board ans up channel dir s (engineCreate ans channel dir s) := by
  unfold engineCreate
  by_cases halloc : (ans.engine channel dir).alloc = false
  · rw [if_pos halloc]
    exact Created.of_none (n := s.lro.enginesNum) h hnone rfl rfl h.holds (.inl halloc)
  rw [if_neg halloc]
  by_cases hmsix : s.lro.msixEnabled = true
  · simp only [State.acquire_lro, hmsix, if_true]
    unfold engineMsixSetup
    by_cases hrc : (ans.engine channel dir).irqRc ≠ 0
    · simp only [hrc, if_true, ne_eq, not_false_eq_true]
      refine Created.of_none (n := s.lro.enginesNum) h hnone rfl rfl ?_
        (.inr (.inl ⟨h.msix.symm.trans hmsix, hrc⟩))
      have hno : ¬Owned ans up s.lro (.engine channel dir) := by simp [Owned, hup, hnone]
      have hstruct := h.holds.acquire (r := .engine channel dir)
        (o := fun r => Owned ans up s.lro r ∨ r = .engine channel dir) hno fun r => Iff.rfl
      refine hstruct.release (r := .engine channel dir) (.inr rfl) fun r => ?_
      by_cases hr : r = .engine channel dir
      · simp [hr, hno]
      · simp [hr]
    · simp only [hrc, if_false]
      exact engineConfigure_created h hup hbegun hnone
        (Building.start_msix h hup hirqs hnone hmsix)
  · simp only [State.acquire_lro, hmsix, if_false, Bool.false_eq_true]
    rw [Bool.not_eq_true] at hmsix
    exact engineConfigure_created h hup hbegun hnone (Building.start h hup hnone hmsix)

end Create

/-! ## Destruction -/

/-- The engine that a resource belongs to. -/
def Res.engineOf : Res → Option (Channel × Bool)
  | .engine channel dir => some (channel, dir)
  | .engineIrq channel dir => some (channel, dir)
  | .writeback channel dir => some (channel, dir)
  | _ => none

section Destroy

variable {board : Board} {ans : Answers} {up : Up} {s t : State} {e : Engine} {own : Res → Prop}
  {channel : Channel} {dir : Bool}

theorem engineMsixTeardown_holds (channel : Channel) (dir : Bool) (h : Holds t.book own)
    (hirq : e.msixIrqLine ≠ 0 ↔ own (.engineIrq channel dir)) :
    Holds (engineMsixTeardown channel dir e t).book fun r => own r ∧ r ≠ .engineIrq channel dir := by
  unfold engineMsixTeardown
  by_cases hline : e.msixIrqLine ≠ 0
  · rw [if_pos hline]
    exact h.release (hirq.1 hline) fun r => Iff.rfl
  · rw [if_neg hline]
    refine h.congr fun r => ?_
    constructor
    · exact fun hr => hr.1
    · exact fun hr => ⟨hr, fun heq => hline (hirq.2 (heq ▸ hr))⟩

theorem engineWritebackTeardown_holds (channel : Channel) (dir : Bool) (h : Holds t.book own)
    (hwb : e.writeback = true ↔ own (.writeback channel dir)) :
    Holds (engineWritebackTeardown channel dir e t).book
      fun r => own r ∧ r ≠ .writeback channel dir := by
  unfold engineWritebackTeardown
  by_cases hset : e.writeback = true
  · rw [if_pos hset]
    exact h.release (hwb.1 hset) fun r => Iff.rfl
  · rw [if_neg hset]
    refine h.congr fun r => ?_
    constructor
    · exact fun hr => hr.1
    · exact fun hr => ⟨hr, fun heq => hset (hwb.2 (heq ▸ hr))⟩

/-- `engine_destroy` gives back what belongs to the engine. -/
theorem engineDestroy_holds (channel : Channel) (dir : Bool) (h : Holds t.book own)
    (hown : own (.engine channel dir))
    (hirq : e.msixIrqLine ≠ 0 ↔ own (.engineIrq channel dir))
    (hwb : e.writeback = true ↔ own (.writeback channel dir))
    (hpoll : e.writeback = true → t.glob.pollMode = true) :
    Holds (engineDestroy channel dir e t).book
      fun r => own r ∧ r.engineOf ≠ some (channel, dir) := by
  have hteardown := engineMsixTeardown_holds channel dir h hirq
  have hmem : Holds (if (engineMsixTeardown channel dir e t).glob.pollMode = true then
      engineWritebackTeardown channel dir e (engineMsixTeardown channel dir e t)
      else engineMsixTeardown channel dir e t).book
      fun r => (own r ∧ r ≠ .engineIrq channel dir) ∧ r ≠ .writeback channel dir := by
    rw [engineMsixTeardown_glob]
    by_cases hp : t.glob.pollMode = true
    · rw [if_pos hp]
      exact engineWritebackTeardown_holds channel dir hteardown (by simp [hwb])
    · rw [if_neg hp]
      refine hteardown.congr fun r => ?_
      constructor
      · exact fun hr => hr.1
      · exact fun hr => ⟨hr, fun heq => hp (hpoll (hwb.2 (heq ▸ hr.1)))⟩
  refine hmem.release (r := .engine channel dir) ⟨⟨hown, by simp⟩, by simp⟩ fun r => ?_
  cases r <;> simp [Res.engineOf]

theorem engineDestroy_lro (channel : Channel) (dir : Bool) (e : Engine) (t : State) :
    (engineDestroy channel dir e t).lro = { t.lro with enginesNum := t.lro.enginesNum - 1 } := by
  unfold engineDestroy engineWritebackTeardown
  dsimp only
  split
  · split <;> simp
  · simp

theorem engineDestroy_glob (channel : Channel) (dir : Bool) (e : Engine) (t : State) :
    (engineDestroy channel dir e t).glob = t.glob := by
  unfold engineDestroy engineWritebackTeardown
  dsimp only
  split
  · split <;> simp
  · simp

theorem mem_engineOrder (p : Channel × Bool) : p ∈ engineOrder := by
  obtain ⟨channel, dir⟩ := p
  cases dir <;> simp [engineOrder]

theorem engineOrder_nodup : engineOrder.Nodup := by decide

/-- The invariant of `remove_engines`: the engines that are left are held. -/
structure RemovedTo (ans : Answers) (up : Up) (s : State) (rest : List (Channel × Bool)) (t : State) :
    Prop where
  lro : ∃ n, t.lro = { s.lro with enginesNum := n }
  glob : t.glob = s.glob
  nodup : rest.Nodup
  holds : Holds t.book fun r => Owned ans up s.lro r ∧ ∀ p, r.engineOf = some p → p ∈ rest

theorem RemovedTo.step (hok : EnginesOk s) (hup : up.engines = true) {p : Channel × Bool}
    {rest : List (Channel × Bool)} (h : RemovedTo ans up s (p :: rest) t) :
    RemovedTo ans up s rest
      ((t.lro.engine p.1 p.2).elim t fun e => engineDestroy p.1 p.2 e t) := by
  obtain ⟨channel, dir⟩ := p
  obtain ⟨⟨n, hlro⟩, hglob, hnodup, hholds⟩ := h
  obtain ⟨hnot, hrest⟩ := List.nodup_cons.1 hnodup
  have hengine : t.lro.engine channel dir = s.lro.engine channel dir := by rw [hlro]
  rw [hengine]
  cases he : s.lro.engine channel dir with
  | none =>
      refine ⟨⟨n, hlro⟩, hglob, hrest, hholds.congr fun r => and_congr_right fun hr => ?_⟩
      -- nothing of an engine that does not exist is held
      refine forall_congr' fun q => forall_congr' fun hq => ?_
      have hne : q ≠ (channel, dir) := by
        rintro rfl
        cases r <;> simp only [Res.engineOf, reduceCtorEq, Option.some.injEq, Prod.mk.injEq] at hq
        all_goals
          obtain ⟨rfl, rfl⟩ := hq
          simp [Owned, he] at hr
      simp [hne]
  | some e =>
      obtain ⟨hirq, hpoll⟩ := hok channel dir e he
      have hdone := engineDestroy_holds (e := e) channel dir hholds
        (by simp [Owned, hup, he, Res.engineOf]) (by simp [Owned, hup, he, Res.engineOf, hirq])
        (by simp [Owned, hup, he, Res.engineOf]) (fun hwb => hglob ▸ hpoll hwb)
      refine ⟨⟨t.lro.enginesNum - 1, ?_⟩, ?_, hrest, hdone.congr fun r => ?_⟩
      · rw [Option.elim_some, engineDestroy_lro, hlro]
      · rw [Option.elim_some, engineDestroy_glob, hglob]
      · rw [and_assoc]
        refine and_congr_right fun _ => ?_
        constructor
        · intro hr
          exact ⟨fun q hq => List.mem_cons_of_mem _ (hr q hq), fun hq => hnot (hr _ hq)⟩
        · rintro ⟨hr, hne⟩ q hq
          exact (List.mem_cons.1 (hr q hq)).resolve_left fun heq => hne (heq ▸ hq)

/-- `remove_engines` gives back all engines, each of them once. -/
theorem removeEngines_kept (up : Up) (h : Kept board ans { up with engines := true } s) (hok : EnginesOk s) :
    Kept board ans { up with engines := false } (removeEngines s) := by
  have hinv := each_invariant (RemovedTo ans { up with engines := true } s) (s := s)
    (l := engineOrder) ⟨⟨s.lro.enginesNum, rfl⟩, rfl, engineOrder_nodup,
      h.holds.congr fun r => by simp [mem_engineOrder]⟩ (fun p rest t hI => hI.step hok rfl)
  obtain ⟨⟨n, hlro⟩, -, -, hholds⟩ := hinv
  refine ⟨hholds.congr fun r => ?_, ?_, ?_, ?_, ?_, ?_, ?_, ?_, ?_, h.scanned, h.enabled⟩
  all_goals rw [removeEngines, hlro]
  · cases r <;> simp [Owned, Res.engineOf]
  exacts [h.msix, h.inUse, h.vector, h.noRegions, h.noBars, h.noEngines, h.noChars, h.line]

end Destroy

/-! ## The two loops of `probe_engines` -/

section Loops

variable {board : Board} {ans : Answers} {up : Up} {glob : Globals} {s s' : State} {rc : Int}
  {channel : Channel} {dir : Bool} {later : Bool → Prop} {rest : List Channel}

/-- The invariant of a loop over the channels of one direction.  Channels that are still to come and
the `later` direction have no engine yet. -/
structure ProbedTo (board : Board) (ans : Answers) (up : Up) (glob : Globals) (dir : Bool)
    (later : Bool → Prop) (rest : List Channel) (s : State) : Prop where
  kept : Kept board ans up s
  ok : EnginesOk s
  glob : s.glob = glob
  nodup : rest.Nodup
  noneLeft : ∀ c ∈ rest, s.lro.engine c dir = none
  noneLater : ∀ c d, later d → s.lro.engine c d = none

/-- The creation of this engine fails. -/
def EngineFails (board : Board) (ans : Answers) (pollMode : Bool) (channel : Channel) (dir : Bool) :
    Prop :=
  (∃ i, engineAt board i channel dir = true) ∧ EngineRefused board ans pollMode channel dir

theorem ProbedTo.step (hup : up.engines = true) (hbegun : up.enginesBegun = true)
    (hirqs : up.irqs = true) (hlater : ¬later dir)
    (h : ProbedTo board ans up glob dir later (channel :: rest) s)
    (hok : probeForEngine board ans channel dir s = .ok s') :
    ProbedTo board ans up glob dir later rest s' := by
  obtain ⟨hnot, hrest⟩ := List.nodup_cons.1 h.nodup
  have hnone := fun c hc => h.noneLeft c (List.mem_cons_of_mem channel hc)
  unfold probeForEngine at hok
  split at hok
  · have hc := engineCreate_created h.kept hup hbegun hirqs (h.noneLeft channel List.mem_cons_self)
    dsimp only at hok
    split at hok
    · cases hok
    obtain rfl := Except.ok.inj hok
    refine ⟨hc.kept, hc.ok h.ok, hc.glob.trans h.glob, hrest, fun c hmem => ?_, fun c d hd => ?_⟩
    · have hne : ¬(c = channel ∧ dir = dir) := fun heq => hnot (heq.1 ▸ hmem)
      rw [setEngine_engine, if_neg hne, hc.others c dir hne]
      exact hnone c hmem
    · have hne : ¬(c = channel ∧ d = dir) := fun heq => hlater (heq.2 ▸ hd)
      rw [setEngine_engine, if_neg hne, hc.others c d hne]
      exact h.noneLater c d hd
  · obtain rfl := Except.ok.inj hok
    exact ⟨h.kept, h.ok, h.glob, hrest, hnone, h.noneLater⟩

theorem ProbedTo.error (h : ProbedTo board ans up glob dir later (channel :: rest) s)
    (hup : up.engines = true) (hbegun : up.enginesBegun = true) (hirqs : up.irqs = true)
    (herr : probeForEngine board ans channel dir s = .error (s', rc)) :
    Kept board ans up s' ∧ EnginesOk s' ∧ s'.glob = glob ∧ rc = -1 ∧
      EngineFails board ans glob.pollMode channel dir := by
  unfold probeForEngine at herr
  split at herr
  · next hat =>
      have hc := engineCreate_created h.kept hup hbegun hirqs (h.noneLeft channel List.mem_cons_self)
      dsimp only at herr
      split at herr
      · next hnone =>
          simp only [Except.error.injEq, Prod.mk.injEq] at herr
          obtain ⟨rfl, rfl⟩ := herr
          obtain ⟨i, -, hi⟩ := (Option.any_eq_true _ _).1 hat
          exact ⟨hc.kept, hc.ok h.ok, hc.glob.trans h.glob, rfl, ⟨i, hi⟩,
            h.glob ▸ hc.refused hnone⟩
      · cases herr
  · cases herr

/-- Before the first channel. -/
theorem Kept.probedTo (h : Kept board ans up s) (hup : up.engines = false)
    (hbegun : up.enginesBegun = false) :
    ProbedTo board ans { up with engines := true, enginesBegun := true } s.glob false (· = true)
      (List.finRange 4) s := by
  have hnone := h.noEngines hbegun
  refine ⟨⟨h.holds.congr fun r => ?_, h.msix, h.inUse, h.vector, h.noRegions, h.noBars,
    fun hno => (nomatch hno), h.noChars, h.line, h.scanned, h.enabled⟩, fun c d e he => ?_, rfl,
    List.nodup_finRange 4, fun c _ => hnone c false, fun c d _ => hnone c d⟩
  · cases r <;> simp [Owned, hup, hnone]
  · rw [hnone] at he
    cases he

/-- Between the two loops. -/
theorem ProbedTo.turn (h : ProbedTo board ans up glob false (· = true) [] s) :
    ProbedTo board ans up glob true (fun _ => False) (List.finRange 4) s :=
  ⟨h.kept, h.ok, h.glob, List.nodup_finRange 4, fun c _ => h.noneLater c true rfl,
    fun _ _ hd => hd.elim⟩

theorem probeEngines_ok (h : Kept board ans up s) (hup : up.engines = false)
    (hbegun : up.enginesBegun = false) (hirqs : up.irqs = true)
    (hok : probeEngines board ans s = .ok s') :
    Kept board ans { up with engines := true, enginesBegun := true } s' ∧ EnginesOk s' ∧
      s'.glob = s.glob := by
  unfold probeEngines at hok
  cases hloop : forEach (fun channel s => probeForEngine board ans channel false s)
      (List.finRange 4) s with
  | error e => simp [hloop] at hok
  | ok t =>
      simp only [hloop] at hok
      have hfirst := forEach_ok (ProbedTo board ans { up with engines := true, enginesBegun := true }
        s.glob false (· = true)) (h.probedTo hup hbegun)
        (fun c rest t t' hI hc => hI.step rfl rfl hirqs (by simp) hc) hloop
      have hsecond := forEach_ok (ProbedTo board ans { up with engines := true, enginesBegun := true }
        s.glob true (fun _ => False)) hfirst.turn
        (fun c rest t t' hI hc => hI.step rfl rfl hirqs (by simp) hc) hok
      exact ⟨hsecond.kept, hsecond.ok, hsecond.glob⟩

/-- A failing channel of the first loop takes the engines with it, a failing channel of the second
loop leaves them. -/
theorem probeEngines_error (h : Kept board ans up s) (hup : up.engines = false)
    (hbegun : up.enginesBegun = false) (hirqs : up.irqs = true)
    (herr : probeEngines board ans s = .error (s', rc)) :
    rc = -1 ∧ ∃ left, Kept board ans { up with engines := left, enginesBegun := true } s' ∧
      (left = true → ∃ channel, EngineFails board ans s.glob.pollMode channel true) := by
  unfold probeEngines at herr
  cases hloop : forEach (fun channel s => probeForEngine board ans channel false s)
      (List.finRange 4) s with
  | error e =>
      simp only [hloop] at herr
      obtain ⟨c, rest, t, -, hI, hc⟩ := forEach_error (ProbedTo board ans
        { up with engines := true, enginesBegun := true } s.glob false (· = true))
        (h.probedTo hup hbegun) (fun c rest t t' hI hc => hI.step rfl rfl hirqs (by simp) hc) hloop
      obtain ⟨hkept, hok, -, hrc, -⟩ := hI.error rfl rfl hirqs hc
      simp only [Except.error.injEq, Prod.mk.injEq] at herr
      obtain ⟨rfl, rfl⟩ := herr
      exact ⟨hrc, false, removeEngines_kept { up with enginesBegun := true } hkept hok,
        fun hno => (nomatch hno)⟩
  | ok t =>
      simp only [hloop] at herr
      have hfirst := forEach_ok (ProbedTo board ans { up with engines := true, enginesBegun := true }
        s.glob false (· = true)) (h.probedTo hup hbegun)
        (fun c rest t t' hI hc => hI.step rfl rfl hirqs (by simp) hc) hloop
      obtain ⟨c, rest, t', -, hI, hc⟩ := forEach_error (ProbedTo board ans
        { up with engines := true, enginesBegun := true } s.glob true (fun _ => False)) hfirst.turn
        (fun c rest t t' hI hc => hI.step rfl rfl hirqs (by simp) hc) herr
      obtain ⟨hkept, -, -, hrc, hfails⟩ := hI.error rfl rfl hirqs hc
      exact ⟨hrc, true, hkept, fun _ => ⟨c, hfails⟩⟩

end Loops

/-! ## The numbers of the board -/

section Ids

variable (board : Board) (ans : Answers) (channel : Channel) (dir : Bool) (s : State)

theorem ids_engineMsixTeardown (e : Engine) :
    ids (engineMsixTeardown channel dir e s) = ids s := by
  unfold engineMsixTeardown
  split <;> rfl

theorem ids_engineDestroy (e : Engine) : ids (engineDestroy channel dir e s) = ids s := by
  have hmsix := ids_engineMsixTeardown channel dir s e
  unfold engineDestroy engineWritebackTeardown
  dsimp only
  split
  · split <;> exact hmsix
  · exact hmsix

theorem ids_engineConfigure (e : Engine) :
    ids (engineConfigure ans channel dir e s).1 = ids s := by
  unfold engineConfigure engineWritebackSetup
  dsimp only
  split
  · by_cases hwb : (ans.engine channel dir).writeback = true
    · simp only [hwb, if_true]
      rfl
    · simp only [hwb, if_false, Bool.false_eq_true]
      exact ids_engineMsixTeardown channel dir
        { s with lro := { s.lro with enginesNum := s.lro.enginesNum + 1 } } e
  · rfl

theorem ids_engineCreate : ids (engineCreate ans channel dir s).1 = ids s := by
  unfold engineCreate engineMsixSetup
  dsimp only
  split
  · rfl
  split
  · by_cases hrc : (ans.engine channel dir).irqRc = 0
    · simp only [hrc, ne_eq, not_true, if_false]
      exact ids_engineConfigure ans channel dir _ _
    · simp only [hrc, ne_eq, not_false_eq_true, if_true]
      rfl
  · exact ids_engineConfigure ans channel dir _ _

theorem idsOf_probeForEngine : idsOf (probeForEngine board ans channel dir s) = ids s := by
  have hcreate := ids_engineCreate ans channel dir s
  unfold probeForEngine
  split
  · dsimp only
    split <;> exact hcreate
  · rfl

theorem ids_removeEngines : ids (removeEngines s) = ids s := by
  refine each_frame ids (fun p t => ?_) _ s
  cases t.lro.engine p.1 p.2 with
  | none => rfl
  | some e => exact ids_engineDestroy p.1 p.2 t e

theorem idsOf_probeEngines : idsOf (probeEngines board ans s) = ids s := by
  have hloop := fun dir => forEach_frame ids (fun e : State × Int => ids e.1)
    (fun c t => idsOf_probeForEngine board ans c dir t) (List.finRange 4)
  unfold probeEngines
  cases hr : forEach (fun channel s => probeForEngine board ans channel false s)
      (List.finRange 4) s with
  | error e =>
      have hfirst := hloop false s
      rw [hr] at hfirst
      exact (ids_removeEngines e.1).trans hfirst
  | ok t =>
      have hfirst := hloop false s
      rw [hr] at hfirst
      exact (hloop true t).trans hfirst

end Ids

end Probe
end WzXdma
