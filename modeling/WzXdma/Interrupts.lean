import WzXdma.Events
import WzXdma.Lib.BottomHalf
import WzXdma.Probe.Device

/-!
# The interrupt handlers

With legacy interrupts and with MSI there is one handler for the device, `xdma_isr`.  It disables the
requests it has read and queues the work of their engines, and `engine_service_work` enables the
interrupt of its engine again when it has scanned the ring.  With MSI-X each engine has the handler
`xdma_channel_irq`, which keeps the mask of the engine in a field until its work puts it back.

The handler runs next to the works of all engines.  What an engine requests is up to the hardware, so
the values read from the request registers are arbitrary.
-/

namespace WzXdma
namespace Interrupts

open Lib Lib.BottomHalf Probe

/-- An index of `lro->engine[channel][dir_from_dev]`. -/
abbrev Place := Channel × Bool

/-- The order in which `probe_engines` creates the engines and the loops of `xdma_isr` visit them. -/
def places : List Place :=
  (List.finRange 4).map (fun channel => (channel, false)) ++
    (List.finRange 4).map fun channel => (channel, true)

/-- `XDMA_ENG_IRQ_NUM` -/
def xdmaEngIrqNum : Nat := 1

/-- `engine->irq_bitmask` of an engine that is created when there are `enginesNum` engines. -/
def irqBitmask (enginesNum : Nat) : Word :=
  ((1 <<< xdmaEngIrqNum) - 1) <<< (enginesNum * xdmaEngIrqNum)

/-- The engines of the places where `probe_for_engine` finds one. -/
def numbered (found : Place → Bool) : List Place → Nat → List (Place × Word)
  | [], _ => []
  | p :: rest, enginesNum =>
      if found p then (p, irqBitmask enginesNum) :: numbered found rest (enginesNum + 1)
      else numbered found rest enginesNum

/-- The `irq_bitmask` of the engine at a place. -/
def probed (found : Place → Bool) (p : Place) : Option Word :=
  (numbered found places 0).lookup p

/-! ## One handler for the device -/

/-- How far `xdma_isr` has come: the channel requests are read, they are disabled, or the loops
over the engines have these places left. -/
inductive Isr
  | fired (chIrq : Word)
  | disabled (chIrq : Word)
  | iterating (chIrq : Word) (rest : List Place)
  deriving DecidableEq, Repr

structure State where
  /-- `channel_int_enable` -/
  channelIntEnable : Word
  userIrq : UserIrq → Events.XdmaIrq
  /-- the status register of an engine and its work -/
  half : Place → Half
  isr : Option Isr
  irqCount : Nat

inductive Act
  /-- an engine completes a descriptor, or its work goes on -/
  | engine (p : Place) (a : BottomHalf.Act)
  /-- `xdma_isr` is entered and reads `channel_int_request` -/
  | fire (chIrq : Word)
  | disable
  /-- `user_int_request` is read and the user interrupts are served -/
  | users (userIrq : Word)
  | schedule
  /-- the work enables the interrupt of its engine and returns -/
  | enable (p : Place)
  deriving DecidableEq, Repr

/-- After `channel_interrupts_enable(lro, ~0)` in `probe`. -/
def start : State where
  channelIntEnable := ~~~0
  userIrq := fun _ => ⟨0⟩
  half := fun _ => .start
  isr := none
  irqCount := 0

namespace State

/-- The work item of an engine is queued: `schedule_work`. -/
def scheduleWork (s : State) (p : Place) : State :=
  { s with half := Function.update s.half p (s.half p).schedule }

end State

/-- One step, on a device with these engines. -/
def step (engine : Place → Option Word) (s : State) : Act → Option State
  | .engine p a =>
      if (engine p).isSome then
        ((s.half p).step a).map fun h => { s with half := Function.update s.half p h }
      else none
  | .fire chIrq => if s.isr = none then some { s with isr := some (.fired chIrq) } else none
  | .disable =>
      match s.isr with
      | some (.fired chIrq) => some { s with
          channelIntEnable := s.channelIntEnable &&& ~~~chIrq
          isr := some (.disabled chIrq) }
      | _ => none
  | .users userIrq =>
      match s.isr with
      | some (.disabled chIrq) => some { s with
          userIrq := fun bit => if userIrq &&& (1 <<< bit.val) ≠ 0 then
            Events.userIrqService (s.userIrq bit) else s.userIrq bit
          isr := some (.iterating chIrq places) }
      | _ => none
  | .schedule =>
      match s.isr with
      | some (.iterating _ []) => some { s with isr := none, irqCount := s.irqCount + 1 }
      | some (.iterating chIrq (p :: rest)) =>
          let s := { s with isr := some (.iterating chIrq rest) }
          some (if (engine p).any fun bitmask => bitmask &&& chIrq != 0 then s.scheduleWork p
            else s)
      | _ => none
  | .enable p =>
      match engine p with
      | some bitmask =>
          if (s.half p).work = some .looked then some { s with
            channelIntEnable := s.channelIntEnable ||| bitmask
            half := Function.update s.half p (s.half p).leave }
          else none
      | none => none

/-- The interrupt of an engine can reach the processor. -/
def State.Enabled (s : State) (bitmask : Word) : Prop :=
  s.channelIntEnable &&& bitmask = bitmask

/-- The handler is about to queue the work of an engine. -/
def State.Firing (s : State) (p : Place) (bitmask : Word) : Prop :=
  ∃ chIrq, bitmask &&& chIrq ≠ 0 ∧
    (s.isr = some (.disabled chIrq) ∨ ∃ rest, s.isr = some (.iterating chIrq rest) ∧ p ∈ rest)

instance (s : State) (bitmask : Word) : Decidable (s.Enabled bitmask) :=
  inferInstanceAs (Decidable (_ = _))

/-! ## Every engine has a bit of its own -/

section Bitmasks

variable {found : Place → Bool} {ps : List Place} {n : Nat} {p q : Place} {b b' : Word}

theorem irqBitmask_and {i j : Nat} (hi : i < 8) (hj : j < 8) (h : i ≠ j) :
    irqBitmask i &&& irqBitmask j = 0 := by
  have hall : ∀ i j : Fin 8, i ≠ j → irqBitmask i.val &&& irqBitmask j.val = 0 := by decide
  exact hall ⟨i, hi⟩ ⟨j, hj⟩ fun he => h (Fin.val_eq_of_eq he)

theorem lookup_cons_ne (h : p ≠ q) (l : List (Place × Word)) :
    ((q, b) :: l).lookup p = l.lookup p := by
  rw [List.lookup_cons, beq_false_of_ne h]

theorem numbered_lookup (h : (numbered found ps n).lookup p = some b) :
    ∃ k, n ≤ k ∧ k < n + ps.length ∧ b = irqBitmask k := by
  induction ps generalizing n with
  | nil => cases h
  | cons q ps ih =>
      rw [numbered] at h
      split at h
      · by_cases hpq : p = q
        · subst hpq
          rw [List.lookup_cons_self] at h
          exact ⟨n, Nat.le_refl n, by rw [List.length_cons]; omega, (Option.some.inj h).symm⟩
        · rw [lookup_cons_ne hpq] at h
          obtain ⟨k, hle, hlt, hb⟩ := ih h
          exact ⟨k, by omega, by rw [List.length_cons]; omega, hb⟩
      · obtain ⟨k, hle, hlt, hb⟩ := ih h
        exact ⟨k, hle, by rw [List.length_cons]; omega, hb⟩

theorem numbered_apart (hp : (numbered found ps n).lookup p = some b)
    (hq : (numbered found ps n).lookup q = some b') (hpq : p ≠ q) (hn : n + ps.length ≤ 8) :
    b &&& b' = 0 := by
  induction ps generalizing n with
  | nil => cases hp
  | cons r ps ih =>
      rw [List.length_cons] at hn
      rw [numbered] at hp hq
      split at hp
      · rename_i hr
        rw [if_pos hr] at hq
        by_cases hpr : p = r
        · subst hpr
          rw [List.lookup_cons_self, Option.some.injEq] at hp
          rw [lookup_cons_ne (Ne.symm hpq)] at hq
          obtain ⟨k, hle, hlt, rfl⟩ := numbered_lookup hq
          rw [← hp]
          exact irqBitmask_and (by omega) (by omega) (by omega)
        · rw [lookup_cons_ne hpr] at hp
          by_cases hqr : q = r
          · subst hqr
            rw [List.lookup_cons_self, Option.some.injEq] at hq
            obtain ⟨k, hle, hlt, rfl⟩ := numbered_lookup hp
            rw [← hq]
            exact irqBitmask_and (by omega) (by omega) (by omega)
          · rw [lookup_cons_ne hqr] at hq
            exact ih hp hq (by omega)
      · rename_i hr
        rw [if_neg hr] at hq
        exact ih hp hq (by omega)

/-- No two engines of a device share a bit. -/
theorem probed_apart (hp : probed found p = some b) (hq : probed found q = some b')
    (hpq : p ≠ q) : b &&& b' = 0 :=
  numbered_apart hp hq hpq (by decide)

end Bitmasks

/-! ## What the steps keep -/

section Steps

variable {engine : Place → Option Word} {s s' : State} {p q : Place} {b b' x : Word}

/-- Disabling other bits. -/
theorem and_not_of_and (h : x &&& b = b) {chIrq : Word} (hb : b &&& chIrq = 0) :
    x &&& ~~~chIrq &&& b = b := by
  have hnot : ~~~chIrq &&& b = b := by
    rw [BitVec.and_comm]
    apply BitVec.eq_of_getLsbD_eq
    intro i hi
    have hz : (b &&& chIrq).getLsbD i = false := by
      rw [hb]
      exact BitVec.getLsbD_zero
    rw [BitVec.getLsbD_and] at hz
    rw [BitVec.getLsbD_and, BitVec.getLsbD_not]
    cases hbi : b.getLsbD i with
    | false => rw [Bool.false_and]
    | true =>
        rw [hbi, Bool.true_and] at hz
        rw [hz, Bool.not_false, Bool.and_true, Bool.true_and, decide_eq_true hi]
  rw [BitVec.and_assoc, hnot, h]

theorem or_and_of_and (h : x &&& b = b) (b' : Word) : (x ||| b') &&& b = b := by
  apply BitVec.eq_of_getLsbD_eq
  intro i hi
  have hi' := congrArg (·.getLsbD i) h
  simp only [BitVec.getLsbD_and] at hi'
  rw [BitVec.getLsbD_and, BitVec.getLsbD_or]
  cases hbi : b.getLsbD i with
  | false => rw [Bool.and_false]
  | true =>
      rw [hbi, Bool.and_true] at hi'
      rw [hi', Bool.true_or, Bool.true_and]

theorem or_and_self (x b : Word) : (x ||| b) &&& b = b := by
  apply BitVec.eq_of_getLsbD_eq
  intro i hi
  rw [BitVec.getLsbD_and, BitVec.getLsbD_or]
  cases b.getLsbD i with
  | false => rw [Bool.and_false]
  | true => rw [Bool.or_true, Bool.true_and]

/-- Two engines share no bit. -/
def Apart (engine : Place → Option Word) : Prop :=
  ∀ p q b b', engine p = some b → engine q = some b' → p ≠ q → b &&& b' = 0

/-- The handler or the work of the engine will go on to the place where the interrupt of the engine
is enabled again. -/
def State.Answered (s : State) (p : Place) (bitmask : Word) : Prop :=
  (s.half p).Coming ∨ s.Firing p bitmask

/-- No interrupt of an engine is lost: it is enabled or will be, and what was completed is still
marked in the status register or is about to be looked for. -/
structure Safe (engine : Place → Option Word) (s : State) : Prop where
  kept : ∀ p, (s.half p).Kept
  enabled : ∀ p b, engine p = some b → s.Enabled b ∨ s.Answered p b

theorem start_safe (engine : Place → Option Word) : Safe engine start := by
  refine ⟨fun _ => Half.start_kept, fun p b _ => .inl ?_⟩
  show ~~~0 &&& b = b
  apply BitVec.eq_of_getLsbD_eq
  intro i hi
  rw [BitVec.getLsbD_and, BitVec.getLsbD_not, decide_eq_true hi, Bool.true_and,
    BitVec.ofNat_eq_ofNat, BitVec.getLsbD_zero, Bool.not_false, Bool.true_and]

/-- Another half in the place of one. -/
theorem half_cases (s : State) (p q : Place) (h : Half) (P : Half → Prop) (hp : P h)
    (hq : P (s.half q)) : P (Function.update s.half p h q) := by
  by_cases he : q = p
  · subst he
    rw [Function.update_self]
    exact hp
  · rw [Function.update_of_ne he]
    exact hq

/-- The completion of a descriptor, and the work up to its look. -/
theorem Safe.half (h : Safe engine s) {a : BottomHalf.Act} {half : Half}
    (ha : (s.half p).step a = some half) :
    Safe engine { s with half := Function.update s.half p half } := by
  refine ⟨fun q => half_cases s p q half Half.Kept ((h.kept p).step ha) (h.kept q), ?_⟩
  intro q b hq
  obtain hen | hcoming | hfiring := h.enabled q b hq
  · exact .inl hen
  · refine .inr (.inl ?_)
    show (Function.update s.half p half q).Coming
    by_cases he : q = p
    · subst he
      rw [Function.update_self]
      exact hcoming.step ha
    · rw [Function.update_of_ne he]
      exact hcoming
  · exact .inr (.inr hfiring)

/-- The handler disables what it has read. -/
theorem Safe.disable (h : Safe engine s) {chIrq : Word} (hisr : s.isr = some (.fired chIrq)) :
    Safe engine { s with
      channelIntEnable := s.channelIntEnable &&& ~~~chIrq, isr := some (.disabled chIrq) } := by
  refine ⟨h.kept, fun q b hq => ?_⟩
  by_cases hb : b &&& chIrq = 0
  · obtain hen | hcoming | ⟨y, -, hy | ⟨rest, hy, -⟩⟩ := h.enabled q b hq
    · exact .inl (and_not_of_and hen hb)
    · exact .inr (.inl hcoming)
    · rw [hisr] at hy
      cases hy
    · rw [hisr] at hy
      cases hy
  · exact .inr (.inr ⟨chIrq, hb, .inl rfl⟩)

theorem mem_places (p : Place) : p ∈ places := by
  obtain ⟨channel, dir⟩ := p
  cases dir with
  | false => exact List.mem_append_left _ (List.mem_map_of_mem (List.mem_finRange channel))
  | true => exact List.mem_append_right _ (List.mem_map_of_mem (List.mem_finRange channel))

/-- The user interrupts are served between the two. -/
theorem Safe.users (h : Safe engine s) {chIrq : Word} (hisr : s.isr = some (.disabled chIrq))
    (userIrq : UserIrq → Events.XdmaIrq) :
    Safe engine { s with userIrq := userIrq, isr := some (.iterating chIrq places) } := by
  refine ⟨h.kept, fun q b hq => ?_⟩
  obtain hen | hcoming | ⟨y, hb, hy | ⟨rest, hy, -⟩⟩ := h.enabled q b hq
  · exact .inl hen
  · exact .inr (.inl hcoming)
  · rw [hisr, Option.some.injEq, Isr.disabled.injEq] at hy
    subst hy
    exact .inr (.inr ⟨chIrq, hb, .inr ⟨places, rfl, mem_places q⟩⟩)
  · rw [hisr] at hy
    cases hy

/-- The handler comes to the next engine. -/
theorem Safe.visit (h : Safe engine s) {chIrq : Word} {rest : List Place}
    (hisr : s.isr = some (.iterating chIrq (p :: rest)))
    (hskip : ∀ b, engine p = some b → b &&& chIrq ≠ 0 → (s.half p).Coming) :
    Safe engine { s with isr := some (.iterating chIrq rest) } := by
  refine ⟨h.kept, fun q b hq => ?_⟩
  obtain hen | hcoming | ⟨y, hb, hy | ⟨rest', hy, hmem⟩⟩ := h.enabled q b hq
  · exact .inl hen
  · exact .inr (.inl hcoming)
  · rw [hisr] at hy
    cases hy
  · rw [hisr, Option.some.injEq, Isr.iterating.injEq] at hy
    obtain ⟨rfl, rfl⟩ := hy
    obtain rfl | hrest := List.mem_cons.mp hmem
    · exact .inr (.inl (hskip b hq hb))
    · exact .inr (.inr ⟨chIrq, hb, .inr ⟨rest, rfl, hrest⟩⟩)

theorem Safe.scheduleWork (h : Safe engine s) (p : Place) : Safe engine (s.scheduleWork p) := by
  refine ⟨fun q => half_cases s p q _ Half.Kept (h.kept p).schedule (h.kept q), ?_⟩
  intro q b hq
  obtain hen | hcoming | hfiring := h.enabled q b hq
  · exact .inl hen
  · exact .inr (.inl (half_cases s p q _ Half.Coming (Half.schedule_coming _) hcoming))
  · exact .inr (.inr hfiring)

/-- The handler returns. -/
theorem Safe.leave (h : Safe engine s) {chIrq : Word} (hisr : s.isr = some (.iterating chIrq []))
    (n : Nat) : Safe engine { s with isr := none, irqCount := n } := by
  refine ⟨h.kept, fun q b hq => ?_⟩
  obtain hen | hcoming | ⟨y, -, hy | ⟨rest, hy, hmem⟩⟩ := h.enabled q b hq
  · exact .inl hen
  · exact .inr (.inl hcoming)
  · rw [hisr] at hy
    cases hy
  · rw [hisr, Option.some.injEq, Isr.iterating.injEq] at hy
    obtain ⟨-, rfl⟩ := hy
    cases hmem

/-- The work enables the interrupt of its engine. -/
theorem Safe.enable (h : Safe engine s) (hp : engine p = some b)
    (hwork : (s.half p).work = some .looked) :
    Safe engine { s with
      channelIntEnable := s.channelIntEnable ||| b
      half := Function.update s.half p (s.half p).leave } := by
  refine ⟨fun q => half_cases s p q _ Half.Kept ((h.kept p).leave hwork) (h.kept q), ?_⟩
  intro q b' hq
  by_cases he : q = p
  · subst he
    rw [hp, Option.some.injEq] at hq
    subst hq
    exact .inl (or_and_self _ b)
  obtain hen | hcoming | hfiring := h.enabled q b' hq
  · exact .inl (or_and_of_and hen b)
  · refine .inr (.inl ?_)
    show (Function.update s.half p (s.half p).leave q).Coming
    rw [Function.update_of_ne he]
    exact hcoming
  · exact .inr (.inr hfiring)

theorem Safe.step (h : Safe engine s) {a : Act} (hs : Interrupts.step engine s a = some s') :
    Safe engine s' := by
  cases a with
  | engine p a =>
      rw [Interrupts.step] at hs
      split at hs
      · obtain ⟨half, ha, rfl⟩ := Option.map_eq_some_iff.mp hs
        exact h.half ha
      · cases hs
  | fire chIrq =>
      rw [Interrupts.step] at hs
      split at hs
      · rename_i hisr
        obtain rfl := Option.some.inj hs
        refine ⟨h.kept, fun q b hq => ?_⟩
        obtain hen | hcoming | ⟨y, -, hy | ⟨rest, hy, -⟩⟩ := h.enabled q b hq
        · exact .inl hen
        · exact .inr (.inl hcoming)
        · rw [hisr] at hy
          cases hy
        · rw [hisr] at hy
          cases hy
      · cases hs
  | disable =>
      rw [Interrupts.step] at hs
      split at hs
      · rename_i hisr
        obtain rfl := Option.some.inj hs
        exact h.disable hisr
      · cases hs
  | users userIrq =>
      rw [Interrupts.step] at hs
      split at hs
      · rename_i hisr
        obtain rfl := Option.some.inj hs
        exact h.users hisr _
      · cases hs
  | schedule =>
      rw [Interrupts.step] at hs
      split at hs
      · rename_i hisr
        obtain rfl := Option.some.inj hs
        exact h.leave hisr _
      · rename_i chIrq p rest hisr
        dsimp only at hs
        obtain rfl := Option.some.inj hs
        split
        · refine (h.scheduleWork p).visit hisr fun b _ _ => ?_
          show (Function.update s.half p (s.half p).schedule p).Coming
          rw [Function.update_self]
          exact Half.schedule_coming _
        · rename_i hno
          refine h.visit hisr fun b hb hne => absurd ?_ hno
          rw [hb, Option.any_some, bne_iff_ne]
          exact hne
      · cases hs
  | enable p =>
      rw [Interrupts.step] at hs
      split at hs
      · rename_i b hp
        split at hs
        · rename_i hwork
          obtain rfl := Option.some.inj hs
          exact h.enable hp hwork
        · cases hs
      · cases hs

/-- How a step can change the enabled interrupts. -/
theorem step_channelIntEnable {a : Act} (hs : Interrupts.step engine s a = some s') :
    s'.channelIntEnable = s.channelIntEnable ∨
      (∃ chIrq, s'.channelIntEnable = s.channelIntEnable &&& ~~~chIrq) ∨
      ∃ q b, a = .enable q ∧ engine q = some b ∧ (s.half q).work = some .looked ∧
        s'.channelIntEnable = s.channelIntEnable ||| b := by
  cases a with
  | engine p a =>
      rw [Interrupts.step] at hs
      split at hs
      · obtain ⟨half, ha, rfl⟩ := Option.map_eq_some_iff.mp hs
        exact .inl rfl
      · cases hs
  | fire chIrq =>
      rw [Interrupts.step] at hs
      split at hs
      · exact .inl (Option.some.inj hs ▸ rfl)
      · cases hs
  | disable =>
      rw [Interrupts.step] at hs
      split at hs
      · obtain rfl := Option.some.inj hs
        exact .inr (.inl ⟨_, rfl⟩)
      · cases hs
  | users userIrq =>
      rw [Interrupts.step] at hs
      split at hs
      · exact .inl (Option.some.inj hs ▸ rfl)
      · cases hs
  | schedule =>
      rw [Interrupts.step] at hs
      split at hs
      · exact .inl (Option.some.inj hs ▸ rfl)
      · dsimp only at hs
        obtain rfl := Option.some.inj hs
        split
        · exact .inl rfl
        · exact .inl rfl
      · cases hs
  | enable p =>
      rw [Interrupts.step] at hs
      split at hs
      · rename_i b hp
        split at hs
        · rename_i hwork
          exact .inr (.inr ⟨p, b, rfl, hp, hwork, Option.some.inj hs ▸ rfl⟩)
        · cases hs
      · cases hs

/-- Nobody but its own work enables the interrupt of an engine again. -/
theorem enabled_again (hapart : Apart engine) {a : Act}
    (hs : Interrupts.step engine s a = some s') (hp : engine p = some b) (hno : ¬s.Enabled b)
    (hyes : s'.Enabled b) : a = .enable p ∧ (s.half p).work = some .looked := by
  unfold State.Enabled at hno hyes
  obtain hsame | ⟨chIrq, hoff⟩ | ⟨q, b', rfl, hq, hwork, hon⟩ := step_channelIntEnable hs
  · rw [hsame] at hyes
    exact absurd hyes hno
  · rw [hoff, BitVec.and_assoc, BitVec.and_comm _ b, ← BitVec.and_assoc] at hyes
    refine absurd ?_ hno
    calc s.channelIntEnable &&& b
        = s.channelIntEnable &&& (s.channelIntEnable &&& b &&& ~~~chIrq) := by rw [hyes]
      _ = s.channelIntEnable &&& b &&& ~~~chIrq := by
          rw [← BitVec.and_assoc, ← BitVec.and_assoc, BitVec.and_self]
      _ = b := hyes
  · by_cases hqp : q = p
    · subst hqp
      exact ⟨rfl, hwork⟩
    · rw [hon, BitVec.and_or_distrib_right, hapart q p b' b hq hp hqp,
        BitVec.ofNat_eq_ofNat, BitVec.or_zero] at hyes
      exact absurd hyes hno

end Steps

/-- What holds of the interrupt of an engine at any time. -/
structure NotLost (engine : Place → Option Word) (s : State) (p : Place) (bitmask : Word) :
    Prop where
  enabled : s.Enabled bitmask ∨ s.Answered p bitmask
  kept : (s.half p).Kept
  individually : ∀ a s', step engine s a = some s' → ¬s.Enabled bitmask → s'.Enabled bitmask →
    a = .enable p ∧ (s.half p).work = some .looked
  rest : s.isr = none → ¬(s.half p).Coming →
    s.Enabled bitmask ∧ ((s.half p).unseen = true → (s.half p).raised = true)

/-- With one handler for all engines no interrupt is lost, in whatever order the handler, the works
of the engines and completions come: an interrupt that is disabled will be enabled by the
work of its own engine, and a completion that no scan has been begun for is still marked. -/
theorem no_interrupt_lost (found : Place → Bool) (s : State)
    (hs : Machine.Reach (step (probed found)) (fun _ _ => True) start s) (p : Place)
    (bitmask : Word) (hp : probed found p = some bitmask) :
    NotLost (probed found) s p bitmask := by
  have h : Safe (probed found) s :=
    hs.invariant (start_safe _) fun _ _ _ _ hP _ hstep => hP.step hstep
  have hapart : Apart (probed found) := fun _ _ _ _ hp hq hne => probed_apart hp hq hne
  refine ⟨h.enabled p bitmask hp, h.kept p,
    fun a s' hstep hno hyes => enabled_again hapart hstep hp hno hyes, ?_⟩
  intro hisr hidle
  refine ⟨?_, fun hunseen => ?_⟩
  · obtain hen | hcoming | ⟨y, -, hy | ⟨rest, hy, -⟩⟩ := h.enabled p bitmask hp
    · exact hen
    · exact absurd hcoming hidle
    · rw [hisr] at hy
      cases hy
    · rw [hisr] at hy
      cases hy
  · refine (h.kept p hunseen).resolve_right fun hwork => hidle (.inr ?_)
    rw [hwork]
    exact Option.some_ne_none _

/-- Two engines request an interrupt at the same time, and the second one again while its work
scans.  Its work has run and the other one is still queued. -/
theorem no_interrupt_lost_two :
    ∃ s, Machine.Reach (step (probed fun p => p.1 = 0)) (fun _ _ => True) start s ∧
      NotLost (probed fun p => p.1 = 0) s (0, true) 2 ∧ s.channelIntEnable = ~~~1 ∧
      s.half (0, true) = ⟨true, false, none, true⟩ ∧
      s.half (0, false) = ⟨true, true, none, true⟩ := by
  obtain ⟨s, hs, hp⟩ := Machine.exists_reach_of_execOk (step (probed fun p => p.1 = 0))
    (fun _ _ => True) start
    ([.engine (0, false) .event, .engine (0, true) .event, .fire 3, .disable, .users 0] ++
      List.replicate 9 .schedule ++
      [.engine (0, true) .enter, .engine (0, true) .clear, .engine (0, true) .look,
        .engine (0, true) .event, .enable (0, true)])
    (fun s => decide (s.channelIntEnable = ~~~1 ∧ s.half (0, true) = ⟨true, false, none, true⟩ ∧
      s.half (0, false) = ⟨true, true, none, true⟩)) (by decide +kernel)
  exact ⟨s, hs, no_interrupt_lost _ s hs _ _ (by decide +kernel), of_decide_eq_true hp⟩

end Interrupts
end WzXdma
