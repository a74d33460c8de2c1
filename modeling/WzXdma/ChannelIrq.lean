import WzXdma.Interrupts

/-!
# The interrupt of an engine with MSI-X

`xdma_channel_irq` copies the mask of its engine to `interrupt_enable_mask_value` and clears the
interrupts that are set in it, and `engine_service_work` sets them again from the field.  The work
holds the lock of the engine, but the handler does not take it, so each access to the register or to
the field is a step of its own and the steps of both interleave.

When the handler is entered a second time before the work has set the mask, the mask it reads is
empty.  If it stores this before the work has loaded the field, the work sets nothing from then on,
and the engine has no interrupts any more.

A performance test, which writes the register anew, is left out.
-/

namespace WzXdma
namespace ChannelIrq

open Lib Lib.BottomHalf

/-- What `engine_create` writes to `interrupt_enable_mask` without `poll_mode`. -/
def regValue (streaming dirToDev : Bool) : Word :=
  xdmaCtrlIeDescAlignMismatch ||| xdmaCtrlIeMagicStopped ||| xdmaCtrlIeReadError |||
    xdmaCtrlIeDescError ||| xdmaCtrlIeDescStopped ||| xdmaCtrlIeDescCompleted |||
    (if streaming ∧ dirToDev = false then xdmaCtrlIeIdleStopped else 0)

/-- How far `xdma_channel_irq` has come: the register is read, its value is stored in the field, or
the interrupts are cleared too. -/
inductive Handler
  | read (value : Word)
  | stored
  | masked
  deriving DecidableEq, Repr

structure State where
  /-- the register `interrupt_enable_mask` -/
  interruptEnableMask : Word
  interruptEnableMaskValue : Word
  /-- the status register of the engine and its work -/
  half : Half
  handler : Option Handler
  /-- what the work has loaded from the field and is about to write -/
  loaded : Option Word
  /-- the handler was entered while the interrupts were masked -/
  doubled : Bool
  /-- the handler has stored an empty mask while the register was empty, and the work had not
  loaded anything else -/
  lost : Bool
  deriving DecidableEq, Repr

inductive Act
  /-- the engine completes a descriptor, or its work goes on -/
  | engine (a : BottomHalf.Act)
  /-- the handler is entered and reads the register -/
  | fire
  | store
  | mask
  | schedule
  /-- the work loads the field -/
  | load
  /-- it writes the register and returns -/
  | enable
  deriving DecidableEq, Repr

/-- After `engine_create`.  The structure of the engine is cleared when it is allocated. -/
def start (streaming dirToDev : Bool) : State where
  interruptEnableMask := regValue streaming dirToDev
  interruptEnableMaskValue := 0
  half := .start
  handler := none
  loaded := none
  doubled := false
  lost := false

/-- The work is about to write a mask that is not empty. -/
def State.restores (s : State) : Bool := s.loaded.any (· != 0)

def step (s : State) : Act → Option State
  | .engine a => (s.half.step a).map fun half => { s with half := half }
  | .fire =>
      if s.handler.isNone then some { s with
        handler := some (.read s.interruptEnableMask)
        doubled := s.doubled || s.interruptEnableMask == 0 }
      else none
  | .store =>
      match s.handler with
      | some (.read value) => some { s with
          interruptEnableMaskValue := value
          handler := some .stored
          lost := s.lost || (value == 0 && s.interruptEnableMask == 0 && !s.restores) }
      | _ => none
  | .mask =>
      -- Nobody else writes the field, so its load and the write to `w1c` are one step.
      if s.handler = some .stored then some { s with
        interruptEnableMask := s.interruptEnableMask &&& ~~~s.interruptEnableMaskValue
        handler := some .masked }
      else none
  | .schedule =>
      if s.handler = some .masked then some { s with half := s.half.schedule, handler := none }
      else none
  | .load =>
      if s.half.work = some .looked ∧ s.loaded.isNone then
        some { s with loaded := some s.interruptEnableMaskValue }
      else none
  | .enable =>
      match s.loaded with
      | some value => some { s with
          interruptEnableMask := s.interruptEnableMask ||| value
          half := s.half.leave
          loaded := none }
      | none => none

/-- The work will still load the field. -/
def State.Answered (s : State) : Prop :=
  s.handler = some .masked ∨ s.half.queued = true ∨ (s.half.work ≠ none ∧ s.loaded = none)

/-- The work will set this mask, or it can still do so. -/
def State.Restoring (conf : Word) (s : State) : Prop :=
  s.loaded = some conf ∨ (s.interruptEnableMaskValue = conf ∧ s.Answered)

/-- The interrupts of the engine are on, or they are off and will be on again. -/
def Alive (conf : Word) (s : State) : Prop :=
  s.interruptEnableMask = conf ∨ (s.interruptEnableMask = 0 ∧ s.Restoring conf)

/-- The interrupts of the engine are off, and no value that is on its way is anything but empty. -/
structure Dead (s : State) : Prop where
  mask : s.interruptEnableMask = 0
  value : s.interruptEnableMaskValue = 0
  read : ∀ value, s.handler = some (.read value) → value = 0
  loaded : ∀ value, s.loaded = some value → value = 0

/-- Every copy of the mask is the mask or empty, and whether the interrupts are alive depends on
`lost` only. -/
structure Decided (conf : Word) (s : State) : Prop where
  kept : s.half.Kept
  value : s.interruptEnableMaskValue = 0 ∨ s.interruptEnableMaskValue = conf
  read : ∀ value, s.handler = some (.read value) → value = 0 ∨ value = conf
  loaded : ∀ value, s.loaded = some value → s.half.work = some .looked ∧ (value = 0 ∨ value = conf)
  single : s.doubled = false → s.lost = false ∧ s.handler ≠ some (.read 0)
  alive : s.lost = false → Alive conf s
  dead : s.lost = true → Dead s

/-- What a step does, and what it needs. -/
inductive Moves (s : State) : Act → State → Prop
  | engine {a : BottomHalf.Act} {half : Half} (ha : s.half.step a = some half) :
      Moves s (.engine a) { s with half := half }
  | fire (hnone : s.handler = none) : Moves s .fire { s with
      handler := some (.read s.interruptEnableMask)
      doubled := s.doubled || s.interruptEnableMask == 0 }
  | store {value : Word} (hread : s.handler = some (.read value)) : Moves s .store { s with
      interruptEnableMaskValue := value
      handler := some .stored
      lost := s.lost || (value == 0 && s.interruptEnableMask == 0 && !s.restores) }
  | mask : Moves s .mask { s with
      interruptEnableMask := s.interruptEnableMask &&& ~~~s.interruptEnableMaskValue
      handler := some .masked }
  | schedule : Moves s .schedule { s with half := s.half.schedule, handler := none }
  | load (hlooked : s.half.work = some .looked) (hnone : s.loaded = none) :
      Moves s .load { s with loaded := some s.interruptEnableMaskValue }
  | enable {value : Word} (hloaded : s.loaded = some value) : Moves s .enable { s with
      interruptEnableMask := s.interruptEnableMask ||| value
      half := s.half.leave
      loaded := none }

section Steps

variable {conf : Word} {s s' : State}

theorem step_moves {a : Act} (hs : step s a = some s') : Moves s a s' := by
  cases a with
  | engine a =>
      obtain ⟨half, ha, rfl⟩ := Option.map_eq_some_iff.mp hs
      exact .engine ha
  | fire =>
      obtain ⟨hnone, he⟩ := Option.ite_none_right_eq_some.mp hs
      obtain rfl := Option.some.inj he
      exact .fire (Option.isNone_iff_eq_none.mp hnone)
  | store =>
      rw [step] at hs
      split at hs
      · rename_i value hread
        obtain rfl := Option.some.inj hs
        exact .store hread
      · cases hs
  | mask =>
      obtain ⟨-, he⟩ := Option.ite_none_right_eq_some.mp hs
      obtain rfl := Option.some.inj he
      exact .mask
  | schedule =>
      obtain ⟨-, he⟩ := Option.ite_none_right_eq_some.mp hs
      obtain rfl := Option.some.inj he
      exact .schedule
  | load =>
      obtain ⟨hload, he⟩ := Option.ite_none_right_eq_some.mp hs
      obtain rfl := Option.some.inj he
      exact .load hload.1 (Option.isNone_iff_eq_none.mp hload.2)
  | enable =>
      rw [step] at hs
      split at hs
      · rename_i value hloaded
        obtain rfl := Option.some.inj hs
        exact .enable hloaded
      · cases hs

theorem regValue_ne_zero (streaming dirToDev : Bool) : regValue streaming dirToDev ≠ 0 := by
  cases streaming <;> cases dirToDev <;> decide

theorem start_decided (streaming dirToDev : Bool) :
    Decided (regValue streaming dirToDev) (start streaming dirToDev) where
  kept := Half.start_kept
  value := .inl rfl
  read _ h := nomatch h
  loaded _ h := nomatch h
  single _ := ⟨rfl, fun h => (nomatch h)⟩
  alive _ := .inl rfl
  dead h := nomatch h

/-- The mask is set or empty. -/
theorem Decided.mask (h : Decided conf s) :
    s.interruptEnableMask = 0 ∨ s.interruptEnableMask = conf := by
  cases hlost : s.lost with
  | true => exact .inl (h.dead hlost).mask
  | false =>
      obtain hon | ⟨hoff, -⟩ := h.alive hlost
      · exact .inr hon
      · exact .inl hoff

/-- The engine and its work keep the answer. -/
theorem State.Answered.engine (h : s.Answered)
    (hloaded : ∀ value, s.loaded = some value → s.half.work = some .looked) {a : BottomHalf.Act}
    {half : Half} (ha : s.half.step a = some half) : State.Answered { s with half := half } := by
  obtain hmasked | hcoming := h
  · exact .inl hmasked
  · by_cases hnone : s.loaded = none
    · have hc : s.half.Coming := hcoming.imp_right And.left
      exact .inr ((hc.step ha).imp_right fun hw => ⟨hw, hnone⟩)
    · obtain ⟨value, hl⟩ := Option.ne_none_iff_exists'.mp hnone
      -- the work that looks is only told of events
      obtain ⟨rfl, -⟩ := Half.step_looked (hloaded value hl) ha
      obtain rfl := Option.some.inj ha
      exact .inr (.inl (hcoming.resolve_right fun hw => hnone hw.2))

theorem Decided.engine (h : Decided conf s) {a : BottomHalf.Act} {half : Half}
    (ha : s.half.step a = some half) : Decided conf { s with half := half } := by
  refine ⟨h.kept.step ha, h.value, h.read, fun value hl => ?_, h.single, fun hlost => ?_,
    fun hlost => ?_⟩
  · exact ⟨(Half.step_looked (h.loaded value hl).1 ha).2, (h.loaded value hl).2⟩
  · obtain hon | ⟨hoff, hl | ⟨hvalue, hanswered⟩⟩ := h.alive hlost
    · exact .inl hon
    · exact .inr ⟨hoff, .inl hl⟩
    · exact .inr ⟨hoff, .inr ⟨hvalue, hanswered.engine (fun v hl => (h.loaded v hl).1) ha⟩⟩
  · obtain ⟨hmask, hvalue, hread, hloaded⟩ := h.dead hlost
    exact ⟨hmask, hvalue, hread, hloaded⟩

/-- The handler reads the register. -/
theorem Decided.fire (h : Decided conf s) (hnone : s.handler = none) :
    Decided conf { s with
      handler := some (.read s.interruptEnableMask)
      doubled := s.doubled || s.interruptEnableMask == 0 } := by
  refine ⟨h.kept, h.value, fun value hr => ?_, h.loaded, fun hd => ?_, fun hlost => ?_,
    fun hlost => ?_⟩
  · obtain rfl := Handler.read.inj (Option.some.inj hr)
    exact h.mask
  · obtain ⟨hold, hne⟩ := Bool.or_eq_false_iff.mp hd
    refine ⟨(h.single hold).1, fun hr => ?_⟩
    exact beq_eq_false_iff_ne.mp hne (Handler.read.inj (Option.some.inj hr))
  · obtain hon | ⟨hoff, hl | ⟨hvalue, hmasked | hcoming⟩⟩ := h.alive hlost
    · exact .inl hon
    · exact .inr ⟨hoff, .inl hl⟩
    · rw [hnone] at hmasked
      cases hmasked
    · exact .inr ⟨hoff, .inr ⟨hvalue, .inr hcoming⟩⟩
  · obtain ⟨hmask, hvalue, -, hloaded⟩ := h.dead hlost
    refine ⟨hmask, hvalue, fun value hr => ?_, hloaded⟩
    obtain rfl := Handler.read.inj (Option.some.inj hr)
    exact hmask

/-- The work is about to write the mask, unless it has loaded an empty one. -/
theorem Decided.restores_iff (h : Decided conf s) (hconf : conf ≠ 0) :
    s.restores = true ↔ s.loaded = some conf := by
  rw [State.restores]
  cases hl : s.loaded with
  | none => exact ⟨fun hany => (nomatch hany), fun hsome => (nomatch hsome)⟩
  | some value =>
      rw [Option.any_some, bne_iff_ne]
      constructor
      · intro hne
        rw [((h.loaded value hl).2).resolve_left hne]
      · intro he
        rw [Option.some.inj he]
        exact hconf

/-- The handler stores what it has read. -/
theorem Decided.store (h : Decided conf s) (hconf : conf ≠ 0) {value : Word}
    (hread : s.handler = some (.read value)) :
    Decided conf { s with
      interruptEnableMaskValue := value
      handler := some .stored
      lost := s.lost || (value == 0 && s.interruptEnableMask == 0 && !s.restores) } := by
  refine ⟨h.kept, h.read value hread, fun v hr => ?_, h.loaded, fun hd => ?_, fun hlost => ?_,
    fun hlost => ?_⟩
  · cases hr
  · obtain ⟨hlost, hne⟩ := h.single hd
    rw [hread] at hne
    refine ⟨Bool.or_eq_false_iff.mpr ⟨hlost, ?_⟩, fun hr => (nomatch hr)⟩
    have hvalue : (value == 0) = false := beq_eq_false_iff_ne.mpr fun he => hne (by rw [he])
    rw [hvalue, Bool.false_and, Bool.false_and]
  · obtain ⟨hold, hnot⟩ := Bool.or_eq_false_iff.mp hlost
    obtain hon | ⟨hoff, hrest⟩ := h.alive hold
    · exact .inl hon
    · refine .inr ⟨hoff, ?_⟩
      obtain hzero | rfl := h.read value hread
      · -- an empty mask is stored, but the work has loaded the other one
        have hoffb : (s.interruptEnableMask == 0) = true := beq_iff_eq.mpr hoff
        have hzerob : (value == 0) = true := beq_iff_eq.mpr hzero
        rw [hzerob, hoffb, Bool.true_and, Bool.true_and, Bool.not_eq_false'] at hnot
        exact .inl ((h.restores_iff hconf).mp hnot)
      · obtain hl | ⟨-, hmasked | hcoming⟩ := hrest
        · exact .inl hl
        · rw [hread] at hmasked
          cases hmasked
        · exact .inr ⟨rfl, .inr hcoming⟩
  · obtain hold | hnow := Bool.or_eq_true_iff.mp hlost
    · obtain ⟨hmask, -, hr, hloaded⟩ := h.dead hold
      exact ⟨hmask, hr value hread, fun v hr => (nomatch hr), hloaded⟩
    · obtain ⟨hboth, hrestores⟩ := Bool.and_eq_true_iff.mp hnow
      obtain ⟨hzero, hoff⟩ := Bool.and_eq_true_iff.mp hboth
      refine ⟨beq_iff_eq.mp hoff, beq_iff_eq.mp hzero, fun v hr => (nomatch hr),
        fun v hl => ?_⟩
      refine (h.loaded v hl).2.resolve_right fun he => ?_
      rw [Bool.not_eq_true', ← Bool.not_eq_true, h.restores_iff hconf] at hrestores
      exact hrestores (hl.trans (by rw [he]))

/-- The handler clears the interrupts that it has found. -/
theorem Decided.masked (h : Decided conf s) :
    Decided conf { s with
      interruptEnableMask := s.interruptEnableMask &&& ~~~s.interruptEnableMaskValue
      handler := some .masked } := by
  refine ⟨h.kept, h.value, fun v hr => (nomatch hr), h.loaded,
    fun hd => ⟨(h.single hd).1, fun hr => (nomatch hr)⟩, fun hlost => ?_,
    fun hlost => ?_⟩
  · obtain hon | ⟨hoff, hrest⟩ := h.alive hlost
    · obtain hvalue | hvalue := h.value
      · refine .inl ?_
        show s.interruptEnableMask &&& ~~~s.interruptEnableMaskValue = conf
        rw [hvalue, hon, BitVec.ofNat_eq_ofNat, BitVec.not_zero, BitVec.and_allOnes]
      · refine .inr ⟨?_, .inr ⟨hvalue, .inl rfl⟩⟩
        show s.interruptEnableMask &&& ~~~s.interruptEnableMaskValue = 0
        rw [hon, hvalue, BitVec.and_not_self]
    · refine .inr ⟨?_, hrest.imp_right fun hrest => ⟨hrest.1, .inl rfl⟩⟩
      show s.interruptEnableMask &&& ~~~s.interruptEnableMaskValue = 0
      rw [hoff, BitVec.ofNat_eq_ofNat, BitVec.zero_and]
  · obtain ⟨hmask, hvalue, -, hloaded⟩ := h.dead hlost
    refine ⟨?_, hvalue, fun v hr => (nomatch hr), hloaded⟩
    show s.interruptEnableMask &&& ~~~s.interruptEnableMaskValue = 0
    rw [hmask, BitVec.ofNat_eq_ofNat, BitVec.zero_and]

theorem Decided.schedule (h : Decided conf s) :
    Decided conf { s with half := s.half.schedule, handler := none } := by
  refine ⟨h.kept.schedule, h.value, fun v hr => (nomatch hr), h.loaded,
    fun hd => ⟨(h.single hd).1, fun hr => (nomatch hr)⟩, fun hlost => ?_, fun hlost => ?_⟩
  · obtain hon | ⟨hoff, hrest⟩ := h.alive hlost
    · exact .inl hon
    · exact .inr ⟨hoff, hrest.imp_right fun hrest => ⟨hrest.1, .inr (.inl rfl)⟩⟩
  · obtain ⟨hmask, hvalue, -, hloaded⟩ := h.dead hlost
    exact ⟨hmask, hvalue, fun v hr => (nomatch hr), hloaded⟩

/-- The work loads the field. -/
theorem Decided.load (h : Decided conf s) (hlooked : s.half.work = some .looked)
    (hnone : s.loaded = none) :
    Decided conf { s with loaded := some s.interruptEnableMaskValue } := by
  refine ⟨h.kept, h.value, h.read, fun v hl => ?_, h.single, fun hlost => ?_, fun hlost => ?_⟩
  · obtain rfl := Option.some.inj hl
    exact ⟨hlooked, h.value⟩
  · obtain hon | ⟨hoff, hl | ⟨hvalue, -⟩⟩ := h.alive hlost
    · exact .inl hon
    · rw [hnone] at hl
      cases hl
    · exact .inr ⟨hoff, .inl (congrArg some hvalue)⟩
  · obtain ⟨hmask, hvalue, hread, -⟩ := h.dead hlost
    refine ⟨hmask, hvalue, hread, fun v hl => ?_⟩
    obtain rfl := Option.some.inj hl
    exact hvalue

/-- The work sets what it has loaded. -/
theorem Decided.enable (h : Decided conf s) (hconf : conf ≠ 0) {value : Word} (hloaded : s.loaded = some value) :
    Decided conf { s with
      interruptEnableMask := s.interruptEnableMask ||| value
      half := s.half.leave
      loaded := none } := by
  obtain ⟨hlooked, hvalue⟩ := h.loaded value hloaded
  refine ⟨h.kept.leave hlooked, h.value, h.read, fun v hl => (nomatch hl), h.single, fun hlost => ?_,
    fun hlost => ?_⟩
  · obtain hon | ⟨hoff, hrest⟩ := h.alive hlost
    · refine .inl ?_
      show s.interruptEnableMask ||| value = conf
      obtain rfl | rfl := hvalue
      · rw [hon, BitVec.ofNat_eq_ofNat, BitVec.or_zero]
      · rw [hon, BitVec.or_self]
    · obtain rfl | rfl := hvalue
      · -- nothing is set, and the answer is still to come
        refine .inr ⟨?_, ?_⟩
        · show s.interruptEnableMask ||| 0 = 0
          rw [hoff, BitVec.or_self]
        · obtain hl | ⟨hfield, hmasked | hq | ⟨-, hnone⟩⟩ := hrest
          · exact absurd (Option.some.inj (hl.symm.trans hloaded)) hconf
          · exact .inr ⟨hfield, .inl hmasked⟩
          · exact .inr ⟨hfield, .inr (.inl hq)⟩
          · rw [hloaded] at hnone
            cases hnone
      · refine .inl ?_
        show s.interruptEnableMask ||| value = value
        rw [hoff, BitVec.ofNat_eq_ofNat, BitVec.zero_or]
  · obtain ⟨hmask, hfield, hread, hempty⟩ := h.dead hlost
    refine ⟨?_, hfield, hread, fun v hl => (nomatch hl)⟩
    show s.interruptEnableMask ||| value = 0
    rw [hmask, hempty value hloaded, BitVec.or_self]

theorem Decided.step (h : Decided conf s) (hconf : conf ≠ 0) {a : Act}
    (hs : ChannelIrq.step s a = some s') : Decided conf s' := by
  cases step_moves hs with
  | engine ha => exact h.engine ha
  | fire hnone => exact h.fire hnone
  | store hread => exact h.store hconf hread
  | mask => exact h.masked
  | schedule => exact h.schedule
  | load hlooked hnone => exact h.load hlooked hnone
  | enable hloaded => exact h.enable hconf hloaded

/-- What is lost stays lost. -/
theorem step_lost {a : Act} (hs : ChannelIrq.step s a = some s') (hlost : s.lost = true) :
    s'.lost = true := by
  cases step_moves hs with
  | store hread => exact Bool.or_eq_true_iff.mpr (.inl hlost)
  | _ => exact hlost

/-- The steps of the work are steps of the machine. -/
theorem reach_engine {half : Half}
    (h : Machine.Reach Half.step (fun _ a => a ≠ .event) s.half half) :
    Machine.Reach ChannelIrq.step (fun _ _ => True) s { s with half := half } := by
  induction h with
  | start => exact .start
  | @next h₁ h₂ a _ _ hs ih =>
      have hstep : ChannelIrq.step { s with half := h₁ } (.engine a) =
          some { s with half := h₂ } := by
        show Option.map _ (h₁.step a) = _
        rw [hs, Option.map_some]
      exact .next ih trivial hstep

/-- The work that is still to come sets the mask from the field. -/
theorem enabled_again (hcoming : s.half.Coming) (hnone : s.loaded = none) :
    ∃ t, Machine.Reach ChannelIrq.step (fun _ _ => True) s t ∧
      t.interruptEnableMask = s.interruptEnableMask ||| s.interruptEnableMaskValue := by
  obtain ⟨half, hreach, hlooked⟩ := hcoming.ends
  have hload : ChannelIrq.step { s with half := half } .load =
      some { s with half := half, loaded := some s.interruptEnableMaskValue } :=
    if_pos ⟨hlooked, Option.isNone_iff_eq_none.mpr hnone⟩
  exact ⟨_, .next (.next (reach_engine hreach) trivial hload) trivial (a := .enable) rfl, rfl⟩

/-- The work writes what it has loaded. -/
theorem step_enable {value : Word} (hloaded : s.loaded = some value) :
    ChannelIrq.step s .enable = some { s with
      interruptEnableMask := s.interruptEnableMask ||| value
      half := s.half.leave
      loaded := none } := by
  rw [ChannelIrq.step, hloaded]

/-- A work that is queued sets the mask, after it has written what it may have loaded before. -/
theorem Decided.queued_returns (h : Decided conf s) (hq : s.half.queued = true)
    (hoff : s.interruptEnableMask = 0) (hvalue : s.interruptEnableMaskValue = conf) :
    ∃ t, Machine.Reach ChannelIrq.step (fun _ _ => True) s t ∧ t.interruptEnableMask = conf := by
  cases hl : s.loaded with
  | none =>
      obtain ⟨t, hreach, ht⟩ := enabled_again (.inl hq) hl
      refine ⟨t, hreach, ?_⟩
      rw [ht, hoff, hvalue, BitVec.ofNat_eq_ofNat, BitVec.zero_or]
  | some value =>
      obtain ⟨t, hreach, ht⟩ := @enabled_again { s with
        interruptEnableMask := s.interruptEnableMask ||| value
        half := s.half.leave
        loaded := none } (.inl hq) rfl
      refine ⟨t, Machine.Reach.trans (.next .start trivial (step_enable hl)) hreach, ?_⟩
      rw [ht]
      show s.interruptEnableMask ||| value ||| s.interruptEnableMaskValue = conf
      rw [hoff, hvalue, BitVec.ofNat_eq_ofNat, BitVec.zero_or]
      obtain rfl | rfl := (h.loaded value hl).2
      · rw [BitVec.ofNat_eq_ofNat, BitVec.zero_or]
      · rw [BitVec.or_self]

/-- The interrupts that are not lost can come back. -/
theorem Decided.returns (h : Decided conf s) (hlost : s.lost = false) :
    ∃ t, Machine.Reach ChannelIrq.step (fun _ _ => True) s t ∧ t.interruptEnableMask = conf := by
  obtain hon | ⟨hoff, hl | ⟨hvalue, hmasked | hq | ⟨hw, hnone⟩⟩⟩ := h.alive hlost
  · exact ⟨s, .start, hon⟩
  · refine ⟨_, .next .start trivial (step_enable hl), ?_⟩
    show s.interruptEnableMask ||| conf = conf
    rw [hoff, BitVec.ofNat_eq_ofNat, BitVec.zero_or]
  · have hschedule : ChannelIrq.step s .schedule =
        some { s with half := s.half.schedule, handler := none } := if_pos hmasked
    obtain ⟨t, hreach, ht⟩ := h.schedule.queued_returns rfl hoff hvalue
    exact ⟨t, .trans (.next .start trivial hschedule) hreach, ht⟩
  · exact h.queued_returns hq hoff hvalue
  · obtain ⟨t, hreach, ht⟩ := enabled_again (.inr hw) hnone
    refine ⟨t, hreach, ?_⟩
    rw [ht, hoff, hvalue, BitVec.ofNat_eq_ofNat, BitVec.zero_or]

end Steps

/-- What becomes of the interrupts of an engine. -/
structure Outcome (conf : Word) (s : State) : Prop where
  kept : s.half.Kept
  single : s.doubled = false → s.lost = false
  alive : s.lost = false → Alive conf s
  lost : s.lost = true ↔
    ∀ t, Machine.Reach step (fun _ _ => True) s t → t.interruptEnableMask = 0

/-- The interrupts of an engine are set again after each scan, unless the handler stores an empty
mask while the register is empty and the work has not loaded the mask to write it.  From then on
they stay off.  This needs a handler that is entered while the interrupts are masked. -/
theorem mask_restored (streaming dirToDev : Bool) (s : State)
    (hs : Machine.Reach step (fun _ _ => True) (start streaming dirToDev) s) :
    Outcome (regValue streaming dirToDev) s := by
  have hconf := regValue_ne_zero streaming dirToDev
  have hdecided : ∀ t, Machine.Reach step (fun _ _ => True) (start streaming dirToDev) t →
      Decided (regValue streaming dirToDev) t := fun t ht =>
    ht.invariant (start_decided streaming dirToDev) fun _ _ _ _ hP _ hstep => hP.step hconf hstep
  have h := hdecided s hs
  refine ⟨h.kept, fun hd => (h.single hd).1, h.alive, fun hlost t ht => ?_, fun hoff => ?_⟩
  · have hlt : t.lost = true :=
      Machine.Reach.invariant (P := fun t => t.lost = true) hlost
        (fun _ _ _ _ hP _ hstep => step_lost hstep hP) ht
    exact ((hdecided t (hs.trans ht)).dead hlt).mask
  · by_contra hne
    obtain ⟨t, ht, hconf'⟩ := h.returns (Bool.eq_false_iff.mpr hne)
    exact hconf (hconf'.symm.trans (hoff t ht))

/-- Two runs in which the handler is entered twice for two descriptors.  In the first one its work
has run, a third descriptor is completed, and no interrupt will tell of it.  In the second one the
work has loaded the mask when the handler is entered again, and writes it afterwards. -/
theorem mask_restored_twice :
    (∃ s, Machine.Reach step (fun _ _ => True) (start true false) s ∧
      Outcome (regValue true false) s ∧ s.lost = true ∧ s.half = ⟨true, false, none, true⟩) ∧
    ∃ s, Machine.Reach step (fun _ _ => True) (start true false) s ∧
      Outcome (regValue true false) s ∧ s.doubled = true ∧ s.lost = false ∧
      s.interruptEnableMask = regValue true false ∧ s.interruptEnableMaskValue = 0 := by
  refine ⟨?_, ?_⟩
  · obtain ⟨s, hs, hp⟩ := Machine.exists_reach_of_execOk step (fun _ _ => True) (start true false)
      [.engine .event, .fire, .store, .engine .event, .mask, .schedule, .fire, .store, .mask,
        .schedule, .engine .enter, .engine .clear, .engine .look, .load, .enable, .engine .event]
      (fun s => decide (s.lost = true ∧ s.half = ⟨true, false, none, true⟩)) (by decide +kernel)
    exact ⟨s, hs, mask_restored true false s hs, of_decide_eq_true hp⟩
  · obtain ⟨s, hs, hp⟩ := Machine.exists_reach_of_execOk step (fun _ _ => True) (start true false)
      [.engine .event, .fire, .store, .mask, .schedule, .engine .enter, .engine .clear,
        .engine .look, .engine .event, .load, .fire, .store, .enable]
      (fun s => decide (s.doubled = true ∧ s.lost = false ∧
        s.interruptEnableMask = regValue true false ∧ s.interruptEnableMaskValue = 0))
      (by decide +kernel)
    exact ⟨s, hs, mask_restored true false s hs, of_decide_eq_true hp⟩

end ChannelIrq
end WzXdma
