import WzXdma.Dmover.Invariant
import WzXdma.Lib.Cyclic

/-!
# Steps of the interrupt handler and of the DataMover

A status that arrives is that of the oldest command, and the handler marks the buffers ready in this
order.  The buffer that it writes is outside the ready ones, since at most one lap is on its way.
-/

namespace WzXdma
namespace Dmover

open Lib

section Handler

variable {bufNum : Nat} {physBuf : Nat → BitVec 32} {h c : Nat} {s : State}

theorem IrqOk.arrived {completed : List Completion} {statuses : List Packet}
    {blen : Nat → BitVec 32} {irq : Irq} (ho : IrqOk bufNum h completed statuses blen irq)
    (x : Completion) (p : Packet) :
    IrqOk bufNum h (completed ++ [x]) (statuses ++ [p]) blen irq := by
  have hold {y : Completion} (hy : completed[h]? = some y) : (completed ++ [x])[h]? = some y := by
    rw [List.getElem?_append_left (List.getElem?_eq_some_iff.mp hy).1, hy]
  cases irq with
  | length => exact List.append_ne_nil_of_right_ne_nil _ (List.cons_ne_nil p [])
  | data => exact List.append_ne_nil_of_right_ne_nil _ (List.cons_ne_nil p [])
  | setLen res =>
      obtain ⟨y, hy, hres⟩ := ho
      exact ⟨y, hold hy, hres⟩
  | setReady nbuf =>
      obtain ⟨y, hy, hbuf, hlen⟩ := ho
      exact ⟨y, hold hy, hbuf, hlen⟩
  | _ => exact ho

theorem AppOk.mono {receivedBuf : Nat} {tdfd : List (BitVec 32)} {isStarted : Bool} {ioctl : Ioctl}
    (ha : AppOk bufNum physBuf h c receivedBuf tdfd isStarted ioctl) :
    AppOk bufNum physBuf (h + 1) c receivedBuf tdfd isStarted ioctl := by
  cases ioctl with
  | getRead => exact ⟨ha.1, ha.2.1, ha.2.2.1, Nat.lt_succ_of_lt ha.2.2.2⟩
  | confirmLen => exact ⟨ha.1, ha.2.1, ha.2.2.1, Nat.lt_succ_of_lt ha.2.2.2⟩
  | confirmReady => exact ⟨ha.1, ha.2.1, ha.2.2.1, Nat.lt_succ_of_lt ha.2.2.2⟩
  | _ => exact ha

/-- The handler moves on, possibly with its cursor. -/
theorem Inv.moveIrq (hi : Inv bufNum physBuf h c s) {irq : Irq} {isr : Bool} {expBuf : Nat}
    (hhand : irq.inHand = s.irq.inHand) (hok : IrqOk bufNum h s.completed s.statuses s.blen irq)
    (hexp : s.ioctl = .startExp ∨ ExpOk bufNum h expBuf irq) :
    Inv bufNum physBuf h c { s with expBuf := expBuf, isr := isr, irq := irq } :=
  { hi with
    inHand := by
      show h + irq.inHand ≤ s.completed.length
      rw [hhand]
      exact hi.inHand
    statuses := by
      show s.statuses = (s.completed.drop (h + irq.inHand)).map Completion.packet
      rw [hhand]
      exact hi.statuses
    irq := hok
    exp := hexp }

/-- The oldest status is that of transfer `h`. -/
theorem Inv.head_status (hi : Inv bufNum physBuf h c s) (hhand : s.irq.inHand = 0) {p : Packet}
    {rest : List Packet} (hstat : s.statuses = p :: rest) :
    ∃ x, s.completed[h]? = some x ∧ p = x.packet ∧
      rest = (s.completed.drop (h + 1)).map Completion.packet := by
  have hlist := hi.statuses
  rw [hhand, hstat] at hlist
  obtain ⟨x, tl, hdrop, hp, hrest⟩ := List.map_eq_cons_iff.mp hlist.symm
  refine ⟨x, ?_, hp.symm, ?_⟩
  · have hhead := congrArg List.head? hdrop
    rw [List.head?_drop] at hhead
    exact hhead
  · have htail := congrArg List.tail hdrop
    rw [List.tail_drop] at htail
    rw [← hrest]
    exact congrArg _ htail.symm

theorem Inv.irq_data (hi : Inv bufNum physBuf h c s) (hirq : s.irq = .data) :
    Inv bufNum physBuf h c (s.irqStep bufNum) := by
  have hhand : s.irq.inHand = 0 := by rw [hirq]; rfl
  have hok := hi.irq
  rw [hirq] at hok
  cases hstat : s.statuses with
  | nil => exact absurd hstat hok
  | cons p rest =>
      obtain ⟨x, hx, rfl, hrest⟩ := hi.head_status hhand hstat
      have hstep : s.irqStep bufNum = { s with statuses := rest, irq := .setLen x.status } := by
        unfold State.irqStep
        rw [hirq, hstat]
        exact if_neg x.status_okay
      rw [hstep]
      have hlt : h < s.completed.length := (List.getElem?_eq_some_iff.mp hx).1
      exact { hi with
        inHand := hlt
        statuses := hrest
        irq := ⟨x, hx, rfl⟩
        exp := hi.exp.imp_right fun hexp => by
          rw [hirq] at hexp
          exact hexp }

theorem Inv.irq_setLen (hi : Inv bufNum physBuf h c s) {res : BitVec 32}
    (hirq : s.irq = .setLen res) : Inv bufNum physBuf h c (s.irqStep bufNum) := by
  have hok := hi.irq
  rw [hirq] at hok
  obtain ⟨x, hx, rfl⟩ := hok
  have hlt : h < s.completed.length := (List.getElem?_eq_some_iff.mp hx).1
  have hnbuf : (x.status &&& 0xf).toNat = h % bufNum := x.status_tag.trans (hi.tags h x hx)
  have hexp : s.expBuf = h % bufNum := by
    have hexp := hi.expOk (by omega)
    rw [hirq] at hexp
    exact hexp
  have hstep : s.irqStep bufNum = { s with
      blen := Function.update s.blen (h % bufNum) ((x.status &&& 0x3fffff00) >>> 8)
      irq := .setReady (h % bufNum) } := by
    unfold State.irqStep
    rw [hirq]
    simp only [hnbuf, hexp, ne_eq, not_true_eq_false, if_false]
  rw [hstep]
  have hwindow := hi.submitted_le
  have hlen : (Function.update s.blen (h % bufNum) ((x.status &&& 0x3fffff00) >>> 8)
      (h % bufNum)).toNat = x.len.toNat := by
    rw [Function.update_self, x.status_len]
  exact { hi with
    inHand := hlt
    statuses := by
      have hstat := hi.statuses
      rw [hirq] at hstat
      exact hstat
    lens := fun j y hj hjh hy => by
      -- the ready transfers and `h` are within one lap from `c`
      have hne : j % bufNum ≠ h % bufNum :=
        Cyclic.mod_ne_of_window (show c ≤ j by omega) (by omega) hi.le (by omega) (by omega)
      show (Function.update s.blen (h % bufNum) _ (j % bufNum)).toNat = _
      rw [Function.update_of_ne hne]
      exact hi.lens j y hj hjh hy
    irq := ⟨x, hx, rfl, hlen⟩
    exp := .inr hexp }

theorem Inv.irq_setReady (hi : Inv bufNum physBuf h c s) {nbuf : Nat}
    (hirq : s.irq = .setReady nbuf) : Inv bufNum physBuf (h + 1) c (s.irqStep bufNum) := by
  have hok := hi.irq
  rw [hirq] at hok
  obtain ⟨x, hx, rfl, hlen⟩ := hok
  have hlt : h < s.completed.length := (List.getElem?_eq_some_iff.mp hx).1
  have hexp : s.expBuf = h % bufNum := by
    have hexp := hi.expOk (by omega)
    rw [hirq] at hexp
    exact hexp
  have hstep : s.irqStep bufNum =
      { s with bready := Function.update s.bready (h % bufNum) true, irq := .nextExp } := by
    unfold State.irqStep
    rw [hirq]
  rw [hstep]
  exact { hi with
    le := Nat.le_succ_of_le hi.le
    inHand := hlt
    statuses := by
      have hstat := hi.statuses
      rw [hirq] at hstat
      exact hstat
    ready := fun b hb => by
      have hold := hi.ready b hb
      show Function.update s.bready (h % bufNum) true b = true ↔ _
      by_cases hbh : b = h % bufNum
      · rw [hbh, Function.update_self]
        exact ⟨fun _ => ⟨h, hi.le, Nat.lt_succ_self h, rfl⟩, fun _ => rfl⟩
      · rw [Function.update_of_ne hbh, hold]
        constructor
        · rintro ⟨j, hcj, hjh, hj⟩
          exact ⟨j, hcj, Nat.lt_succ_of_lt hjh, hj⟩
        · rintro ⟨j, hcj, hjh, rfl⟩
          have hne : j ≠ h := fun heq => hbh (heq ▸ rfl)
          exact ⟨j, hcj, by omega, rfl⟩
    lens := fun j y hj hjh hy => by
      by_cases hjh' : j = h
      · subst hjh'
        obtain rfl : x = y := Option.some.inj (hx.symm.trans hy)
        exact hlen
      · exact hi.lens j y hj (by omega) hy
    app := hi.app.mono
    irq := Nat.le_add_left 1 h
    exp := .inr hexp }

theorem Inv.irqStep (hN : 0 < bufNum) (hi : Inv bufNum physBuf h c s) :
    ∃ h', Inv bufNum physBuf h' c (s.irqStep bufNum) := by
  cases hirq : s.irq with
  | idle =>
      refine ⟨h, ?_⟩
      unfold State.irqStep
      rw [hirq]
      by_cases hisr : s.isr = true
      · rw [if_pos hisr]
        exact hi.moveIrq (by rw [hirq]; rfl) trivial (hi.exp.imp_right (by rw [hirq]; exact id))
      · rw [if_neg hisr]
        exact hi
  | occupancy =>
      refine ⟨h, ?_⟩
      unfold State.irqStep
      rw [hirq]
      by_cases hempty : s.statuses = []
      · rw [if_pos hempty]
        exact hi.moveIrq (by rw [hirq]; rfl) trivial (hi.exp.imp_right (by rw [hirq]; exact id))
      · rw [if_neg hempty]
        exact hi.moveIrq (by rw [hirq]; rfl) hempty (hi.exp.imp_right (by rw [hirq]; exact id))
  | length =>
      have hok := hi.irq
      rw [hirq] at hok
      have hhand : s.irq.inHand = 0 := by rw [hirq]; rfl
      cases hstat : s.statuses with
      | nil => exact absurd hstat hok
      | cons p rest =>
          obtain ⟨x, -, rfl, -⟩ := hi.head_status hhand hstat
          refine ⟨h, ?_⟩
          have hstep : s.irqStep bufNum = { s with irq := .data } := by
            unfold State.irqStep
            rw [hirq, hstat]
            exact if_pos rfl
          rw [hstep]
          exact hi.moveIrq (by rw [hirq]; rfl) hok (hi.exp.imp_right (by rw [hirq]; exact id))
  | data => exact ⟨h, hi.irq_data hirq⟩
  | setLen res => exact ⟨h, hi.irq_setLen hirq⟩
  | setReady nbuf => exact ⟨h + 1, hi.irq_setReady hirq⟩
  | nextExp =>
      have hpos := hi.irq
      rw [hirq] at hpos
      have hpos : 1 ≤ h := hpos
      have hexp := hi.expOk (by have := hi.inHand; omega)
      rw [hirq] at hexp
      refine ⟨h, ?_⟩
      unfold State.irqStep
      rw [hirq]
      exact hi.moveIrq (by rw [hirq]; rfl) hpos (.inr (congrArg (· + 1) hexp))
  | wrapExp =>
      have hpos := hi.irq
      rw [hirq] at hpos
      have hpos : 1 ≤ h := hpos
      have hexp := hi.expOk (by have := hi.inHand; omega)
      rw [hirq] at hexp
      refine ⟨h, ?_⟩
      unfold State.irqStep
      rw [hirq]
      refine hi.moveIrq (by rw [hirq]; rfl) trivial (.inr ?_)
      have hexp : s.expBuf = (h - 1) % bufNum + 1 := hexp
      show (if s.expBuf = bufNum then 0 else s.expBuf) = h % bufNum
      rw [hexp, Cyclic.wrap_succ hN, Nat.sub_add_cancel hpos]

/-! ## The DataMover -/

theorem tags_concat {completed : List Completion} {x : Completion}
    (htags : ∀ j y, completed[j]? = some y → y.tag.toNat = j % bufNum)
    (hx : x.tag.toNat = completed.length % bufNum) :
    ∀ j y, (completed ++ [x])[j]? = some y → y.tag.toNat = j % bufNum := by
  intro j y hy
  by_cases hj : j < completed.length
  · rw [List.getElem?_append_left hj] at hy
    exact htags j y hy
  · have hlt := (List.getElem?_eq_some_iff.mp hy).1
    rw [List.length_append, List.length_singleton] at hlt
    obtain rfl : j = completed.length := by omega
    rw [List.getElem?_concat_length] at hy
    obtain rfl := Option.some.inj hy
    exact hx

theorem Inv.mover (hN : 0 < bufNum) (hN16 : bufNum ≤ 16) (hi : Inv bufNum physBuf h c s)
    {len : BitVec 22} {eop : Bool} {s' : State} (hs : s.mover len eop = some s') :
    Inv bufNum physBuf h c s' := by
  unfold State.mover at hs
  cases hcmd : s.commands with
  | nil =>
      rw [hcmd] at hs
      cases hs
  | cons w rest =>
      rw [hcmd] at hs
      obtain rfl := Option.some.inj hs
      have hw : w = command physBuf (s.completed.length % bufNum) := by
        refine hi.commands 0 w ?_
        rw [hcmd]
        rfl
      have htag : (tagOf w).toNat = s.completed.length % bufNum := by
        have := Nat.mod_lt s.completed.length hN
        rw [hw, tagOf_command physBuf (by omega)]
      have hhand := hi.inHand
      have hle := hi.le
      have hold {j : Nat} {y : Completion} (hj : j < s.completed.length)
          (hy : (s.completed ++ [⟨tagOf w, len, eop⟩])[j]? = some y) : s.completed[j]? = some y := by
        rw [List.getElem?_append_left hj] at hy
        exact hy
      exact { hi with
        inHand := by
          show h + s.irq.inHand ≤ (s.completed ++ [_]).length
          rw [List.length_append]
          omega
        submitted := by
          show (s.completed ++ [_]).length + rest.length = _
          rw [← hi.submitted, hcmd]
          simp only [List.length_append, List.length_cons, List.length_nil]
          omega
        statuses := by
          show s.statuses ++ [_] = ((s.completed ++ [_]).drop (h + s.irq.inHand)).map _
          rw [List.drop_append_of_le_length hhand, List.map_append, ← hi.statuses]
          rfl
        tags := tags_concat hi.tags htag
        commands := fun j w' hw' => by
          have hsucc := hi.commands (j + 1) w' (by rw [hcmd]; exact hw')
          rw [hsucc]
          show _ = command physBuf (((s.completed ++ [_]).length + j) % bufNum)
          rw [List.length_append, List.length_singleton]
          congr 2
          omega
        lens := fun j y hj hjh hy => hi.lens j y hj hjh (hold (by omega) hy)
        irq := hi.irq.arrived _ _
        answers := hi.answers.mono _ }

end Handler

end Dmover
end WzXdma
