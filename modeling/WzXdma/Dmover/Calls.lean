import WzXdma.Dmover.Invariant
import WzXdma.Lib.Cyclic

/-!
# Steps of the ioctls

`ADM_START` clears the flags before it submits anything.  `ADM_CONFIRM` gives transfer `c` back when it
clears the flag, submits the buffer again after that, and moves its cursor last; in between, the
handler may already have marked the buffer ready again.
-/

namespace WzXdma
namespace Dmover

open Lib

section Calls

variable {bufNum : Nat} {physBuf : Nat → BitVec 32} {h c : Nat} {s : State}

/-- The ioctl moves on without touching the buffers. -/
theorem Inv.moveIoctl (hi : Inv bufNum physBuf h c s) {pc pc' : Ioctl} {receivedBuf : Nat}
    {tdfd : List (BitVec 32)} {isStarted ier : Bool} {replies : List Reply} (hpc : s.ioctl = pc)
    (hne : pc ≠ .startExp)
    (hconf : confirmations replies + pc'.cleared = confirmations s.replies + pc.cleared)
    (hsub : pc'.submitted bufNum c = pc.submitted bufNum c)
    (hclean : pc'.clean bufNum = pc.clean bufNum) (hblank : pc.blanked ≤ pc'.blanked)
    (happ : AppOk bufNum physBuf h c receivedBuf tdfd isStarted pc')
    (hans : InOrder s.completed 0 replies) :
    Inv bufNum physBuf h c { s with
      receivedBuf := receivedBuf, isStarted := isStarted, ier := ier, tdfd := tdfd, ioctl := pc'
      replies := replies } := by
  subst hpc
  exact { hi with
    confirmed := hconf.trans hi.confirmed
    submitted := hi.submitted.trans hsub.symm
    ready := fun b hb => hi.ready b (hclean ▸ hb)
    lens := fun j x hj => hi.lens j x (Nat.le_trans (Nat.add_le_add_left hblank c) hj)
    app := happ
    exp := .inr (hi.exp.resolve_left hne)
    answers := hans }

/-- The ioctl returns, and the reply is no confirmation. -/
theorem Inv.reply (hi : Inv bufNum physBuf h c s) {pc : Ioctl} {isStarted : Bool} {r : Reply}
    (hpc : s.ioctl = pc) (hne : pc ≠ .startExp) (hr : r.confirms = 0) (hcleared : pc.cleared = 0)
    (hsub : pc.submitted bufNum c = bufNum + c) (hclean : pc.clean bufNum = bufNum)
    (hblank : pc.blanked = 0) (happ : AppOk bufNum physBuf h c s.receivedBuf s.tdfd isStarted .idle)
    (hans : Answers s.completed c r) :
    Inv bufNum physBuf h c ({ s with isStarted := isStarted }.reply r) := by
  have hconf : confirmations s.replies = c := by
    have := hi.confirmed
    rw [hpc, hcleared] at this
    exact this
  refine hi.moveIoctl hpc hne ?_ hsub.symm hclean.symm (Nat.le_of_eq hblank) happ ?_
  · rw [confirmations_concat, hr, hcleared]
    rfl
  · refine hi.answers.concat ?_
    rw [Nat.zero_add, hconf]
    exact hans

/-- `transfer_buf` sends its command. -/
theorem Inv.submit (hi : Inv bufNum physBuf h c s) {pc pc' : Ioctl} (hpc : s.ioctl = pc)
    (hne : pc ≠ .startExp) (hcleared : pc'.cleared = pc.cleared)
    (hsub : pc'.submitted bufNum c = pc.submitted bufNum c + 1)
    (hclean : pc'.clean bufNum = pc.clean bufNum) (hblank : pc'.blanked = pc.blanked)
    (hcmd : s.tdfd = command physBuf (pc.submitted bufNum c % bufNum))
    (happ : AppOk bufNum physBuf h c s.receivedBuf [] s.isStarted pc') :
    Inv bufNum physBuf h c { s with
      commands := s.commands ++ [s.tdfd], tdfd := [], ioctl := pc' } := by
  subst hpc
  have hcount := hi.submitted
  exact { hi with
    confirmed := by
      show confirmations s.replies + pc'.cleared = c
      rw [hcleared]
      exact hi.confirmed
    submitted := by
      show s.completed.length + (s.commands ++ [s.tdfd]).length = pc'.submitted bufNum c
      rw [List.length_append, List.length_singleton]
      omega
    commands := fun j w hw => by
      have hw : (s.commands ++ [s.tdfd])[j]? = some w := hw
      by_cases hj : j < s.commands.length
      · rw [List.getElem?_append_left hj] at hw
        exact hi.commands j w hw
      · have hlt := (List.getElem?_eq_some_iff.mp hw).1
        rw [List.length_append, List.length_singleton] at hlt
        obtain rfl : j = s.commands.length := by omega
        rw [List.getElem?_concat_length] at hw
        rw [← Option.some.inj hw, hcmd, ← hcount]
    ready := fun b hb => hi.ready b (hclean ▸ hb)
    lens := fun j x hj => hi.lens j x (hblank ▸ hj)
    app := happ
    exp := .inr (hi.exp.resolve_left hne) }

/-- Nothing was submitted before the flags are cleared. -/
theorem Inv.nothing (hi : Inv bufNum physBuf h c s) (hsub : s.ioctl.submitted bufNum c = 0) :
    h = 0 ∧ c = 0 := by
  have := hi.submitted
  have := hi.inHand
  have := hi.le
  omega

theorem Inv.startExp (hi : Inv bufNum physBuf h c s) (hpc : s.ioctl = .startExp) :
    Inv bufNum physBuf h c { s with expBuf := 0, ioctl := .startReceived } := by
  have hsub : s.ioctl.submitted bufNum c = 0 := by rw [hpc]; rfl
  obtain ⟨hh, hc⟩ := hi.nothing hsub
  have happ := hi.app
  rw [hpc] at happ
  exact { hi with
    confirmed := by
      have hconf := hi.confirmed
      rw [hpc] at hconf
      exact hconf
    submitted := hi.submitted.trans hsub
    ready := fun b hb => absurd hb (Nat.not_lt_zero b)
    lens := fun j x hj hjh => by omega
    app := happ
    exp := by
      refine .inr ?_
      have hirq := hi.irq
      show ExpOk bufNum h 0 s.irq
      cases hs : s.irq with
      | nextExp =>
          rw [hs] at hirq
          have hpos : 1 ≤ h := hirq
          omega
      | wrapExp =>
          rw [hs] at hirq
          have hpos : 1 ≤ h := hirq
          omega
      | _ =>
          show 0 = h % bufNum
          rw [hh, Nat.zero_mod] }

theorem Inv.startClear (hi : Inv bufNum physBuf h c s) {i : Nat} (hpc : s.ioctl = .startClear i)
    (hlt : i < bufNum) :
    Inv bufNum physBuf h c { s with
      bready := Function.update s.bready i false, ioctl := .startClear (i + 1) } := by
  have hsub : s.ioctl.submitted bufNum c = 0 := by rw [hpc]; rfl
  obtain ⟨hh, hc⟩ := hi.nothing hsub
  have happ := hi.app
  rw [hpc] at happ
  have hready := hi.ready
  rw [hpc] at hready
  have hne : s.ioctl ≠ .startExp := by simp [hpc]
  exact { hi with
    confirmed := by
      have hconf := hi.confirmed
      rw [hpc] at hconf
      exact hconf
    submitted := hi.submitted.trans hsub
    ready := fun b hb => by
      show Function.update s.bready i false b = true ↔ _
      by_cases hbi : b = i
      · rw [hbi, Function.update_self]
        refine ⟨fun hf => (nomatch hf), ?_⟩
        rintro ⟨j, -, hj, -⟩
        omega
      · have hb : b < i + 1 := hb
        rw [Function.update_of_ne hbi]
        exact hready b (show b < i by omega)
    lens := fun j x hj hjh => by omega
    app := ⟨happ.1, happ.2.1, hlt⟩
    exp := .inr (hi.exp.resolve_left hne) }

/-- A flag that is set at the cursor is that of transfer `c`. -/
theorem Inv.lt_of_ready (hN : 0 < bufNum) (hi : Inv bufNum physBuf h c s)
    (hclean : s.ioctl.clean bufNum = bufNum) (hrec : s.receivedBuf = c % bufNum)
    (hready : s.bready s.receivedBuf = true) : c < h := by
  rw [hrec] at hready
  have hlt := Nat.mod_lt c hN
  obtain ⟨j, hcj, hjh, -⟩ := (hi.ready (c % bufNum) (by omega)).mp hready
  omega

theorem Inv.confirmLen (hi : Inv bufNum physBuf h c s) (hpc : s.ioctl = .confirmLen) :
    Inv bufNum physBuf h c { s with
      blen := Function.update s.blen s.receivedBuf 0, ioctl := .confirmReady } := by
  have happ := hi.app
  rw [hpc] at happ
  obtain ⟨htdfd, hrec, hstarted, hlt⟩ := happ
  have hne : s.ioctl ≠ .startExp := by simp [hpc]
  have hlens := hi.lens
  rw [hpc] at hlens
  have hsub := hi.submitted
  rw [hpc] at hsub
  have hwindow := hi.submitted_le
  have hhand := hi.inHand
  exact { hi with
    confirmed := by
      have hconf := hi.confirmed
      rw [hpc] at hconf
      exact hconf
    submitted := hsub
    ready := by
      have hready := hi.ready
      rw [hpc] at hready
      exact hready
    lens := fun j x hj hjh hx => by
      have hj : c + 1 ≤ j := hj
      have hdiff : j % bufNum ≠ s.receivedBuf := by
        rw [hrec]
        exact Cyclic.mod_ne_of_window (show c ≤ j by omega) (by omega) (Nat.le_refl c) (by omega)
          (by omega)
      show (Function.update s.blen s.receivedBuf 0 (j % bufNum)).toNat = _
      rw [Function.update_of_ne hdiff]
      exact hlens j x (show c + 0 ≤ j by omega) hjh hx
    app := ⟨htdfd, hrec, hstarted, hlt⟩
    irq := by
      have hirq := hi.irq
      show IrqOk bufNum h s.completed s.statuses (Function.update s.blen s.receivedBuf 0) s.irq
      cases hs : s.irq with
      | setReady nbuf =>
          rw [hs] at hirq
          obtain ⟨x, hx, rfl, hlen⟩ := hirq
          have hin := (List.getElem?_eq_some_iff.mp hx).1
          -- the length that the handler has just written is that of another buffer
          have hdiff : h % bufNum ≠ s.receivedBuf := by
            rw [hrec]
            exact Cyclic.mod_ne_of_window (show c ≤ h by omega) (by omega) (Nat.le_refl c) (by omega)
              (by omega)
          exact ⟨x, hx, rfl, by rw [Function.update_of_ne hdiff, hlen]⟩
      | _ =>
          rw [hs] at hirq
          exact hirq
    exp := .inr (hi.exp.resolve_left hne) }

/-- Transfer `c` is given back here.  The cursor follows later. -/
theorem Inv.confirmReady (hi : Inv bufNum physBuf h c s) (hpc : s.ioctl = .confirmReady) :
    Inv bufNum physBuf h (c + 1) { s with
      bready := Function.update s.bready s.receivedBuf false, ioctl := .confirmSubmit .control } := by
  have happ := hi.app
  rw [hpc] at happ
  obtain ⟨htdfd, hrec, hstarted, hlt⟩ := happ
  have hne : s.ioctl ≠ .startExp := by simp [hpc]
  have hready := hi.ready
  rw [hpc] at hready
  have hlens := hi.lens
  rw [hpc] at hlens
  have hsub := hi.submitted
  rw [hpc] at hsub
  have hwindow := hi.submitted_le
  have hhand := hi.inHand
  exact { hi with
    confirmed := by
      have hconf := hi.confirmed
      rw [hpc] at hconf
      exact congrArg (· + 1) hconf
    le := hlt
    submitted := hsub
    ready := fun b hb => by
      show Function.update s.bready s.receivedBuf false b = true ↔ _
      by_cases hbr : b = s.receivedBuf
      · rw [hbr, Function.update_self]
        refine ⟨fun hf => (nomatch hf), ?_⟩
        rintro ⟨j, hcj, hjh, hj⟩
        rw [hrec] at hj
        exact absurd hj (Cyclic.mod_ne_of_window (show c ≤ j by omega) (by omega) (Nat.le_refl c)
          (by omega) (by omega))
      · rw [Function.update_of_ne hbr, hready b hb]
        constructor
        · rintro ⟨j, hcj, hjh, rfl⟩
          have hjc : j ≠ c := fun heq => hbr (by rw [heq, hrec])
          exact ⟨j, by omega, hjh, rfl⟩
        · rintro ⟨j, hcj, hjh, rfl⟩
          exact ⟨j, by omega, hjh, rfl⟩
    lens := hlens
    app := ⟨htdfd, hrec, hstarted, Nat.le_add_left 1 c⟩
    exp := .inr (hi.exp.resolve_left hne) }

theorem transferBuf_next {i : Nat} {x y : Xfer} (htdfd : s.tdfd = x.written (command physBuf i))
    (hnext : x.next = some y) :
    s.transferBuf physBuf i x = { s with tdfd := y.written (command physBuf i) } := by
  cases x with
  | control =>
      obtain rfl := Option.some.inj hnext
      simp only [State.transferBuf, htdfd]
      rfl
  | address =>
      obtain rfl := Option.some.inj hnext
      simp only [State.transferBuf, htdfd]
      rfl
  | tag =>
      obtain rfl := Option.some.inj hnext
      simp only [State.transferBuf, htdfd]
      rfl
  | length => cases hnext

theorem Xfer.eq_length {x : Xfer} (h : x.next = none) : x = .length := by
  cases x with
  | length => rfl
  | _ => cases h

theorem Inv.startSubmit (hi : Inv bufNum physBuf h c s) {i : Nat} {x : Xfer}
    (hpc : s.ioctl = .startSubmit i x) :
    Inv bufNum physBuf h c { s.transferBuf physBuf i x with
      ioctl := x.next.elim (.startTest (i + 1)) (.startSubmit i) } := by
  have happ := hi.app
  rw [hpc] at happ
  obtain ⟨htdfd, hrec, hc, hlt⟩ := happ
  cases hnext : x.next with
  | some y =>
      rw [transferBuf_next htdfd hnext]
      exact hi.moveIoctl hpc (by simp) rfl rfl rfl (Nat.le_refl 0) ⟨rfl, hrec, hc, hlt⟩ hi.answers
  | none =>
      obtain rfl := Xfer.eq_length hnext
      refine hi.submit hpc (by simp) rfl rfl rfl rfl ?_ ⟨rfl, hrec, hc, hlt⟩
      rw [htdfd]
      show command physBuf i = command physBuf (i % bufNum)
      rw [Nat.mod_eq_of_lt hlt]

theorem Inv.confirmSubmit (hi : Inv bufNum physBuf h c s) {x : Xfer}
    (hpc : s.ioctl = .confirmSubmit x) :
    Inv bufNum physBuf h c { s.transferBuf physBuf s.receivedBuf x with
      ioctl := x.next.elim .confirmNext .confirmSubmit } := by
  have happ := hi.app
  rw [hpc] at happ
  obtain ⟨htdfd, hrec, hstarted, hpos⟩ := happ
  cases hnext : x.next with
  | some y =>
      rw [transferBuf_next htdfd hnext]
      exact hi.moveIoctl hpc (by simp) rfl rfl rfl (Nat.le_refl 0) ⟨rfl, hrec, hstarted, hpos⟩
        hi.answers
  | none =>
      obtain rfl := Xfer.eq_length hnext
      refine hi.submit hpc (by simp) rfl ?_ rfl rfl ?_ ⟨rfl, hrec, hstarted, hpos⟩
      · show bufNum + c = bufNum + (c - 1) + 1
        omega
      · rw [htdfd]
        show command physBuf s.receivedBuf = command physBuf ((bufNum + (c - 1)) % bufNum)
        rw [Nat.add_mod_left, hrec]

/-- `ADM_GET` returns transfer `c`. -/
theorem Inv.getRead (hi : Inv bufNum physBuf h c s) (hpc : s.ioctl = .getRead) :
    Inv bufNum physBuf h c
      (s.reply (.got (BitVec.ofNat 32 s.receivedBuf <<< 24 ||| s.blen s.receivedBuf))) := by
  have happ := hi.app
  rw [hpc] at happ
  obtain ⟨htdfd, hrec, hstarted, hlt⟩ := happ
  have hhand := hi.inHand
  obtain ⟨x, hx⟩ : ∃ x, s.completed[c]? = some x :=
    ⟨_, List.getElem?_eq_getElem (show c < s.completed.length by omega)⟩
  refine hi.reply hpc (by simp) rfl rfl rfl rfl rfl ⟨htdfd, hrec, hstarted⟩ ⟨x, hx, ?_⟩
  refine decodes (hrec.trans (hi.tags c x hx).symm) ?_
  rw [hrec]
  exact hi.lens c x (by rw [hpc]; exact Nat.le_refl c) hlt hx

/-- `ADM_CONFIRM` returns. -/
theorem Inv.confirmWrap (hN : 0 < bufNum) (hi : Inv bufNum physBuf h c s)
    (hpc : s.ioctl = .confirmWrap) :
    Inv bufNum physBuf h c
      ({ s with receivedBuf := if s.receivedBuf = bufNum then 0 else s.receivedBuf }.reply
        (.confirmed (s.receivedBuf - 1))) := by
  have happ := hi.app
  rw [hpc] at happ
  obtain ⟨htdfd, hrec, hstarted, hpos⟩ := happ
  have hconf := hi.confirmed
  rw [hpc] at hconf
  have hconf : confirmations s.replies + 1 = c := hconf
  have hhand := hi.inHand
  have hle := hi.le
  obtain ⟨x, hx⟩ : ∃ x, s.completed[c - 1]? = some x :=
    ⟨_, List.getElem?_eq_getElem (show c - 1 < s.completed.length by omega)⟩
  refine hi.moveIoctl hpc (by simp) ?_ rfl rfl (Nat.le_refl 0) ⟨htdfd, ?_, hstarted⟩ ?_
  · rw [confirmations_concat]
    rfl
  · rw [hrec, Cyclic.wrap_succ hN, Nat.sub_add_cancel hpos]
  · refine hi.answers.concat ⟨x, ?_, ?_⟩
    · rw [show 0 + confirmations s.replies = c - 1 by omega]
      exact hx
    · rw [hrec, hi.tags _ x hx, Nat.add_sub_cancel]

theorem Inv.ioctlStep (hN : 0 < bufNum) (hi : Inv bufNum physBuf h c s) {s' : State}
    (hs : s.ioctlStep bufNum physBuf = some s') : ∃ c', Inv bufNum physBuf h c' s' := by
  have happ := hi.app
  unfold State.ioctlStep at hs
  cases hpc : s.ioctl with
  | idle =>
      rw [hpc] at hs
      cases hs
  | startExp =>
      rw [hpc] at hs
      obtain rfl := Option.some.inj hs
      exact ⟨c, hi.startExp hpc⟩
  | startReceived =>
      rw [hpc] at hs happ
      obtain rfl := Option.some.inj hs
      exact ⟨c, hi.moveIoctl hpc (by simp) rfl rfl rfl (Nat.le_refl 0) ⟨happ, rfl, Nat.zero_le _⟩
        hi.answers⟩
  | startClear i =>
      rw [hpc] at hs happ
      obtain ⟨htdfd, hrec, hle⟩ := happ
      by_cases hlt : i < bufNum
      · simp only [hlt, if_true] at hs
        obtain rfl := Option.some.inj hs
        exact ⟨c, hi.startClear hpc hlt⟩
      · simp only [hlt, if_false] at hs
        obtain rfl := Option.some.inj hs
        obtain ⟨-, hc⟩ := hi.nothing (by rw [hpc]; rfl)
        exact ⟨c, hi.moveIoctl hpc (by simp) rfl rfl (show bufNum = i by omega) (Nat.le_refl 0)
          ⟨htdfd, hrec, hc, Nat.zero_le _⟩ hi.answers⟩
  | startTest i =>
      rw [hpc] at hs happ
      obtain ⟨htdfd, hrec, hc, hle⟩ := happ
      by_cases hlt : i < bufNum
      · simp only [hlt, if_true] at hs
        obtain rfl := Option.some.inj hs
        exact ⟨c, hi.moveIoctl hpc (by simp) rfl rfl rfl (Nat.le_refl 0) ⟨htdfd, hrec, hc, hlt⟩
          hi.answers⟩
      · simp only [hlt, if_false] at hs
        obtain rfl := Option.some.inj hs
        refine ⟨c, hi.moveIoctl hpc (by simp) rfl (show bufNum + c = i by omega) rfl (Nat.le_refl 0)
          ⟨htdfd, ?_⟩ hi.answers⟩
        rw [hrec, hc, Nat.zero_mod]
  | startSubmit i x =>
      rw [hpc] at hs
      obtain rfl := Option.some.inj hs
      exact ⟨c, hi.startSubmit hpc⟩
  | startIer =>
      rw [hpc] at hs happ
      obtain rfl := Option.some.inj hs
      exact ⟨c, hi.moveIoctl hpc (by simp) rfl rfl rfl (Nat.le_refl 0) happ hi.answers⟩
  | startFlag =>
      rw [hpc] at hs happ
      obtain rfl := Option.some.inj hs
      exact ⟨c, hi.reply hpc (by simp) rfl rfl rfl rfl rfl ⟨happ.1, happ.2, rfl⟩ trivial⟩
  | getWait =>
      rw [hpc] at hs happ
      obtain ⟨htdfd, hrec, hstarted⟩ := happ
      by_cases hready : s.bready s.receivedBuf = true
      · simp only [hready, if_true] at hs
        obtain rfl := Option.some.inj hs
        have hlt := hi.lt_of_ready hN (by rw [hpc]; rfl) hrec hready
        exact ⟨c, hi.moveIoctl hpc (by simp) rfl rfl rfl (Nat.le_refl 0)
          ⟨htdfd, hrec, hstarted, hlt⟩ hi.answers⟩
      · simp only [hready, Bool.false_eq_true, if_false] at hs
        cases hs
  | getRead =>
      rw [hpc] at hs
      obtain rfl := Option.some.inj hs
      exact ⟨c, hi.getRead hpc⟩
  | confirmTest =>
      rw [hpc] at hs happ
      obtain ⟨htdfd, hrec, hstarted⟩ := happ
      by_cases hready : s.bready s.receivedBuf = true
      · simp only [hready, if_true] at hs
        obtain rfl := Option.some.inj hs
        have hlt := hi.lt_of_ready hN (by rw [hpc]; rfl) hrec hready
        exact ⟨c, hi.moveIoctl hpc (by simp) rfl rfl rfl (Nat.le_refl 0)
          ⟨htdfd, hrec, hstarted, hlt⟩ hi.answers⟩
      · simp only [hready, Bool.false_eq_true, if_false] at hs
        obtain rfl := Option.some.inj hs
        exact ⟨c, hi.reply hpc (by simp) rfl rfl rfl rfl rfl ⟨htdfd, hrec, hstarted⟩ trivial⟩
  | confirmLen =>
      rw [hpc] at hs
      obtain rfl := Option.some.inj hs
      exact ⟨c, hi.confirmLen hpc⟩
  | confirmReady =>
      rw [hpc] at hs
      obtain rfl := Option.some.inj hs
      exact ⟨c + 1, hi.confirmReady hpc⟩
  | confirmSubmit x =>
      rw [hpc] at hs
      obtain rfl := Option.some.inj hs
      exact ⟨c, hi.confirmSubmit hpc⟩
  | confirmNext =>
      rw [hpc] at hs happ
      obtain ⟨htdfd, hrec, hstarted, hpos⟩ := happ
      obtain rfl := Option.some.inj hs
      exact ⟨c, hi.moveIoctl hpc (by simp) rfl rfl rfl (Nat.le_refl 0)
        ⟨htdfd, congrArg (· + 1) hrec, hstarted, hpos⟩ hi.answers⟩
  | confirmWrap =>
      rw [hpc] at hs
      obtain rfl := Option.some.inj hs
      exact ⟨c, hi.confirmWrap hN hpc⟩

theorem Inv.call (hi : Inv bufNum physBuf h c s) {cmd : Cmd}
    (hcmd : cmd = .admStart ∨ cmd = .admGet ∨ cmd = .admConfirm) {s' : State}
    (hs : s.call cmd = some s') : Inv bufNum physBuf h c s' := by
  unfold State.call at hs
  by_cases hpc : s.ioctl = .idle
  · have happ := hi.app
    rw [hpc] at happ
    rw [if_pos hpc] at hs
    rcases hcmd with rfl | rfl | rfl
    · simp only [happ.2.2, if_true] at hs
      obtain rfl := Option.some.inj hs
      exact hi.reply hpc (by simp) rfl rfl rfl rfl rfl happ trivial
    · obtain rfl := Option.some.inj hs
      exact hi.moveIoctl hpc (by simp) rfl rfl rfl (Nat.le_refl 0) happ hi.answers
    · obtain rfl := Option.some.inj hs
      exact hi.moveIoctl hpc (by simp) rfl rfl rfl (Nat.le_refl 0) happ hi.answers
  · rw [if_neg hpc] at hs
    cases hs

theorem Inv.signal (hi : Inv bufNum physBuf h c s) {s' : State} (hs : s.signal = some s') :
    Inv bufNum physBuf h c s' := by
  unfold State.signal at hs
  by_cases hpc : s.ioctl = .getWait
  · have happ := hi.app
    rw [hpc] at happ
    rw [if_pos hpc] at hs
    obtain rfl := Option.some.inj hs
    exact hi.reply hpc (by simp) rfl rfl rfl rfl rfl happ trivial
  · rw [if_neg hpc] at hs
    cases hs

end Calls

end Dmover
end WzXdma
