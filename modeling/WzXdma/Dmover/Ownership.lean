import WzXdma.Dmover.Calls
import WzXdma.Dmover.Handler
import WzXdma.Lib.Machine

/-!
# Who owns a buffer of the DataMover

The buffers of the transfers from `c` on are all different, wherever the two cursors of the driver
stand in between two assignments.  So a buffer is ready or on its way, never both and never twice.
-/

namespace WzXdma
namespace Dmover

open Lib

section Step

variable {bufNum : Nat} {physBuf : Nat → BitVec 32} {h c : Nat} {s : State}

theorem Fresh.inv (hf : Fresh s) : Inv bufNum physBuf 0 0 s where
  confirmed := by
    rw [hf.replies, hf.ioctl]
    rfl
  le := Nat.le_refl 0
  inHand := by
    rw [hf.irq]
    exact Nat.zero_le _
  submitted := by
    rw [hf.completed, hf.commands, hf.ioctl]
    rfl
  statuses := by
    rw [hf.statuses, hf.completed, hf.irq]
    rfl
  tags := fun j x hx => by
    rw [hf.completed] at hx
    cases hx
  commands := fun j w hw => by
    rw [hf.commands] at hw
    cases hw
  ready := fun b hb => by
    rw [hf.ioctl] at hb
    exact absurd hb (Nat.not_lt_zero b)
  lens := fun j x _ hj => absurd hj (Nat.not_lt_zero j)
  app := by
    rw [hf.ioctl]
    exact hf.tdfd
  irq := by
    rw [hf.irq]
    trivial
  exp := .inl hf.ioctl
  answers := by
    rw [hf.replies]
    trivial
  quiet := hf.kernErr

/-- One step of any party. -/
theorem Inv.step (hN : 0 < bufNum) (hN16 : bufNum ≤ 16) (hi : Inv bufNum physBuf h c s) {a : Act}
    (hok : acquisition s a) {s' : State} (hs : Dmover.step bufNum physBuf s a = some s') :
    ∃ h' c', Inv bufNum physBuf h' c' s' := by
  cases a with
  | call cmd => exact ⟨h, c, hi.call hok hs⟩
  | ioctl =>
      obtain ⟨c', hi'⟩ := hi.ioctlStep hN hs
      exact ⟨h, c', hi'⟩
  | signal => exact ⟨h, c, hi.signal hs⟩
  | irq =>
      obtain rfl := Option.some.inj hs
      obtain ⟨h', hi'⟩ := hi.irqStep hN
      exact ⟨h', c, hi'⟩
  | mover len eop => exact ⟨h, c, hi.mover hN hN16 hs⟩

/-! ## What the invariant says -/

/-- The commands on their way are the transfers behind those that the handler has read. -/
theorem Inv.outstanding_eq (hN : 0 < bufNum) (hN16 : bufNum ≤ 16) (hi : Inv bufNum physBuf h c s) :
    outstanding s = Cyclic.window bufNum (h + s.irq.inHand)
      (s.completed.length - (h + s.irq.inHand) + s.commands.length) := by
  have hhand := hi.inHand
  have hstat : (s.statuses.map fun p => (p.rdfd &&& 0xf).toNat) =
      Cyclic.window bufNum (h + s.irq.inHand) (s.completed.length - (h + s.irq.inHand)) := by
    rw [hi.statuses, List.map_map, ← List.length_drop]
    refine Cyclic.map_eq_window fun j x hx => ?_
    rw [List.getElem?_drop] at hx
    exact x.status_tag.trans (hi.tags _ x hx)
  have hcmd : (s.commands.map fun w => (tagOf w).toNat) =
      Cyclic.window bufNum s.completed.length s.commands.length := by
    refine Cyclic.map_eq_window fun j w hw => ?_
    have := Nat.mod_lt (s.completed.length + j) hN
    rw [hi.commands j w hw, tagOf_command physBuf (by omega)]
  have hend : s.completed.length =
      h + s.irq.inHand + (s.completed.length - (h + s.irq.inHand)) := by omega
  rw [outstanding, hstat, hcmd, ← Cyclic.window_append, ← hend]

/-- Once something was submitted, all flags were cleared. -/
theorem Inv.clean_eq (hi : Inv bufNum physBuf h c s)
    (hpos : 0 < s.completed.length + s.commands.length) : s.ioctl.clean bufNum = bufNum := by
  rw [hi.submitted] at hpos
  cases hpc : s.ioctl with
  | startExp =>
      rw [hpc] at hpos
      cases hpos
  | startReceived =>
      rw [hpc] at hpos
      cases hpos
  | startClear i =>
      rw [hpc] at hpos
      cases hpos
  | _ => rfl

theorem Inv.unready (hN : 0 < bufNum) (hN16 : bufNum ≤ 16) (hi : Inv bufNum physBuf h c s) {b : Nat}
    (hb : b ∈ outstanding s) : s.bready b = false := by
  rw [hi.outstanding_eq hN hN16] at hb
  obtain ⟨j, hj, hj', rfl⟩ := Cyclic.mem_window.mp hb
  have hwindow := hi.submitted_le
  have hle := hi.le
  have hhand := hi.inHand
  have hclean := hi.clean_eq (by omega)
  have hlt := Nat.mod_lt j hN
  cases hready : s.bready (j % bufNum) with
  | false => rfl
  | true =>
      obtain ⟨k, hck, hkh, hk⟩ := (hi.ready (j % bufNum) (by omega)).mp hready
      exact absurd hk (Cyclic.mod_ne_of_window hck (by omega) (show c ≤ j by omega) (by omega)
        (by omega))

theorem Inv.interval (hN : 0 < bufNum) (hi : Inv bufNum physBuf h c s) (hirq : s.irq = .idle)
    (hpc : s.ioctl = .idle) : Interval bufNum s := by
  have hconf : confirmations s.replies = c := by
    have hconf := hi.confirmed
    rw [hpc] at hconf
    exact hconf
  have hhand : h ≤ s.completed.length := by
    have hhand := hi.inHand
    rw [hirq] at hhand
    exact hhand
  have hcomp : completions s = h := by
    have hstat := congrArg List.length hi.statuses
    rw [hirq, List.length_map, List.length_drop] at hstat
    have hstat : s.statuses.length = s.completed.length - (h + 0) := hstat
    unfold completions
    omega
  have happ := hi.app
  rw [hpc] at happ
  obtain ⟨-, hrec, -⟩ := happ
  have hexp : s.expBuf = h % bufNum := by
    have hexp := hi.exp.resolve_left (by simp [hpc])
    rw [hirq] at hexp
    exact hexp
  have hready := hi.ready
  rw [hpc] at hready
  have hle := hi.le
  have hwindow := hi.submitted_le
  refine ⟨?_, ?_, fun b hb => ?_, ?_, ?_⟩
  · rw [hconf, hcomp]
    exact hle
  · rw [hconf, hcomp]
    omega
  · rw [hready b hb, hconf, hcomp, hrec]
    constructor
    · rintro ⟨j, hcj, hjh, rfl⟩
      refine ⟨j - c, by omega, ?_⟩
      rw [Nat.mod_add_mod, Nat.add_sub_cancel' hcj]
    · rintro ⟨k, hk, rfl⟩
      exact ⟨c + k, by omega, by omega, (Nat.mod_add_mod c bufNum k).symm⟩
  · rw [hrec]
    exact Nat.mod_lt c hN
  · rw [hexp, hconf, hcomp, hrec, Nat.mod_add_mod, Nat.add_sub_cancel' hle]

theorem Inv.owned (hN : 0 < bufNum) (hN16 : bufNum ≤ 16) (hi : Inv bufNum physBuf h c s) :
    Owned bufNum s where
  single := by
    have hwindow := hi.submitted_le
    have hle := hi.le
    have hhand := hi.inHand
    rw [hi.outstanding_eq hN hN16]
    exact Cyclic.nodup_window (by omega)
  unready := fun _ hb => hi.unready hN hN16 hb
  interval := hi.interval hN
  answers := hi.answers

end Step

/-! ## Runs -/

/-- In every state of an acquisition each buffer has one owner, whatever the handler interrupts. -/
theorem buffers_owned {bufNum : Nat} (hpos : 1 ≤ bufNum) (hmax : bufNum ≤ 16)
    (physBuf : Nat → BitVec 32) {s₀ s : State} (hfresh : Fresh s₀)
    (hreach : Machine.Reach (step bufNum physBuf) acquisition s₀ s) : Owned bufNum s := by
  have hinv : ∃ h c, Inv bufNum physBuf h c s := by
    refine Machine.Reach.invariant (P := fun s => ∃ h c, Inv bufNum physBuf h c s)
      ⟨0, 0, hfresh.inv⟩ (fun s a s' _ hi hok hs => ?_) hreach
    obtain ⟨h, c, hi⟩ := hi
    exact hi.step hpos hmax hok hs
  obtain ⟨h, c, hi⟩ := hinv
  exact hi.owned hpos hmax

/-- `ADM_START` with all flags left over from before. -/
def restarted : State where
  blen := fun _ => 9
  bready := fun _ => true
  receivedBuf := 0
  expBuf := 0
  isStarted := false
  ier := false
  isr := false
  tdfd := []
  commands := []
  statuses := []
  kernErr := false
  ioctl := .startExp
  irq := .idle
  completed := []
  replies := []

/-- The only buffer is filled again while its confirmation is under way. -/
def refilled : List Act :=
  List.flatten [List.replicate 12 .ioctl, [.mover 5 true], List.replicate 9 .irq,
    [.call .admGet, .ioctl, .ioctl, .call .admConfirm], List.replicate 7 .ioctl, [.mover 7 false],
    List.replicate 9 .irq, [.ioctl, .ioctl, .call .admGet, .ioctl, .ioctl]]

theorem buffers_owned_refilled :
    ∃ s, Machine.Reach (step 1 fun _ => 0x1000) acquisition restarted s ∧
      decide (s.replies = [.success, .got 5, .confirmed 0, .got 7]) = true ∧ Owned 1 s := by
  obtain ⟨s, hreach, hreplies⟩ := Machine.exists_reach_of_execOk (step 1 fun _ => 0x1000) acquisition
    restarted refilled (fun s => decide (s.replies = [.success, .got 5, .confirmed 0, .got 7]))
    (by decide +kernel)
  exact ⟨s, hreach, hreplies, buffers_owned (Nat.le_refl 1) (by decide) _
    ⟨rfl, rfl, rfl, rfl, rfl, rfl, rfl, rfl⟩ hreach⟩

end Dmover
end WzXdma
