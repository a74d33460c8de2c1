import WzXdma.Dmover.Driver
import WzXdma.Lib.Fields

/-!
# The invariant of the DataMover driver

The transfers of an acquisition are numbered in the order in which they were submitted, and transfer
`j` uses buffer `j % BUF_NUM`.  Three counters divide them: `c` transfers were given back by the
application, `h` were marked ready by the handler, and the rest, at most one lap beyond `c`, is on its
way.  The two cursors of the driver follow `c` and `h`, with a delay that depends on the statement at
which the ioctl and the handler stand.
-/

namespace WzXdma
namespace Dmover

open Lib.Fields

/-! ## The words -/

namespace Completion

variable (x : Completion)

theorem status_toNat : x.status.toNat =
    x.eop.toNat * 2 ^ 31 + x.len.toNat * 2 ^ 8 + 2 ^ 7 + x.tag.toNat := by
  have happend : (BitVec.ofBool x.eop ++ 0#1 ++ x.len ++ 1#1 ++ 0#3 ++ x.tag).toNat =
      x.eop.toNat * 2 ^ 31 + x.len.toNat * 2 ^ 8 + 2 ^ 7 + x.tag.toNat := by
    simp only [append_toNat, BitVec.toNat_ofNat, BitVec.toNat_ofBool]
    omega
  exact happend

theorem status_tag : (x.status &&& 0xf).toNat = x.tag.toNat := by
  have hmask := and_mask_toNat x.status (show 4 ≤ 32 by omega)
  rw [status_toNat] at hmask
  refine hmask.trans ?_
  have := x.tag.isLt
  omega

theorem status_okay : x.status &&& (1#32 <<< 7) ≠ 0 := by
  intro h
  have hokay : x.status.getLsbD 7 = true := by
    rw [← BitVec.testBit_toNat, status_toNat, Nat.testBit_eq_decide_div_mod_eq]
    have := x.tag.isLt
    exact decide_eq_true (by omega)
  have hbit : (x.status &&& (1#32 <<< 7)).getLsbD 7 = false := by rw [h]; rfl
  rw [BitVec.getLsbD_and, hokay] at hbit
  cases hbit

theorem status_len : ((x.status &&& 0x3fffff00) >>> 8).toNat = x.len.toNat := by
  have hmask := and_mask_toNat (x.status >>> 8) (show 22 ≤ 32 by omega)
  rw [BitVec.toNat_ushiftRight, status_toNat, Nat.shiftRight_eq_div_pow] at hmask
  rw [BitVec.ushiftRight_and_distrib]
  refine hmask.trans ?_
  have := x.tag.isLt
  have := x.len.isLt
  omega

end Completion

/-- The words of `transfer_buf(i)`. -/
def command (physBuf : Nat → BitVec 32) (i : Nat) : List (BitVec 32) :=
  [controlWord, physBuf i, BitVec.ofNat 32 i]

theorem tagOf_command (physBuf : Nat → BitVec 32) {i : Nat} (hi : i < 16) :
    (tagOf (command physBuf i)).toNat = i := by
  unfold tagOf command
  simp only [List.getD_cons_succ, List.getD_cons_zero, BitVec.extractLsb'_toNat,
    BitVec.toNat_ofNat, Nat.shiftRight_zero]
  omega

/-- An answer of `ADM_GET` gives the buffer and the length of a transfer, and is not negative. -/
structure Decodes (res : BitVec 32) (x : Completion) : Prop where
  buffer : (res >>> 24).toNat = x.tag.toNat
  length : (res &&& 0xffffff).toNat = x.len.toNat
  nonneg : res.msb = false

theorem decodes {nbuf : Nat} {blen : BitVec 32} {x : Completion} (hbuf : nbuf = x.tag.toNat)
    (hlen : blen.toNat = x.len.toNat) : Decodes (BitVec.ofNat 32 nbuf <<< 24 ||| blen) x := by
  have htag := x.tag.isLt
  have hlt := x.len.isLt
  have hnum : (BitVec.ofNat 32 nbuf).toNat = x.tag.toNat := by
    rw [BitVec.toNat_ofNat]
    omega
  have hres : (BitVec.ofNat 32 nbuf <<< 24 ||| blen).toNat = x.tag.toNat * 2 ^ 24 + x.len.toNat := by
    rw [shiftLeft_or_toNat _ _ (by omega) (by omega), hnum, hlen]
  refine ⟨?_, ?_, ?_⟩
  · rw [BitVec.toNat_ushiftRight, hres, Nat.shiftRight_eq_div_pow]
    omega
  · have hmask := and_mask_toNat (BitVec.ofNat 32 nbuf <<< 24 ||| blen) (show 24 ≤ 32 by omega)
    rw [hres] at hmask
    refine hmask.trans ?_
    omega
  · rw [BitVec.msb_eq_false_iff_two_mul_lt, hres]
    omega

/-! ## What is shown -/

def Reply.confirms : Reply → Nat
  | .confirmed _ => 1
  | _ => 0

def confirmations : List Reply → Nat
  | [] => 0
  | r :: rest => r.confirms + confirmations rest

/-- The completions whose status the handler has read. -/
def completions (s : State) : Nat := s.completed.length - s.statuses.length

/-- The buffers of the commands whose status the handler has not read yet. -/
def outstanding (s : State) : List Nat :=
  (s.statuses.map fun p => (p.rdfd &&& 0xf).toNat) ++ s.commands.map fun w => (tagOf w).toNat

/-- A reply that follows `k` confirmations is about completion number `k`. -/
def Answers (completed : List Completion) (k : Nat) : Reply → Prop
  | .got res => ∃ x, completed[k]? = some x ∧ Decodes res x
  | .confirmed nbuf => ∃ x, completed[k]? = some x ∧ nbuf = x.tag.toNat
  | _ => True

def InOrder (completed : List Completion) : Nat → List Reply → Prop
  | _, [] => True
  | k, r :: rest => Answers completed k r ∧ InOrder completed (k + r.confirms) rest

/-- The ready buffers when neither an ioctl nor the handler is in progress. -/
structure Interval (bufNum : Nat) (s : State) : Prop where
  le : confirmations s.replies ≤ completions s
  fits : completions s - confirmations s.replies ≤ bufNum
  ready : ∀ b, b < bufNum → (s.bready b = true ↔
    ∃ k, k < completions s - confirmations s.replies ∧ (s.receivedBuf + k) % bufNum = b)
  received : s.receivedBuf < bufNum
  expected : s.expBuf = (s.receivedBuf + (completions s - confirmations s.replies)) % bufNum

structure Owned (bufNum : Nat) (s : State) : Prop where
  single : (outstanding s).Nodup
  unready : ∀ b ∈ outstanding s, s.bready b = false
  interval : s.irq = .idle → s.ioctl = .idle → Interval bufNum s
  answers : InOrder s.completed 0 s.replies

theorem Answers.mono {completed : List Completion} {k : Nat} {r : Reply}
    (h : Answers completed k r) (x : Completion) : Answers (completed ++ [x]) k r := by
  have hold {y : Completion} (hy : completed[k]? = some y) : (completed ++ [x])[k]? = some y := by
    rw [List.getElem?_append_left (List.getElem?_eq_some_iff.mp hy).1, hy]
  cases r with
  | got res =>
      obtain ⟨y, hy, hdec⟩ := h
      exact ⟨y, hold hy, hdec⟩
  | confirmed nbuf =>
      obtain ⟨y, hy, hbuf⟩ := h
      exact ⟨y, hold hy, hbuf⟩
  | success => trivial
  | einval => trivial
  | restartsys => trivial

theorem InOrder.mono {completed : List Completion} {replies : List Reply} {k : Nat}
    (h : InOrder completed k replies) (x : Completion) : InOrder (completed ++ [x]) k replies := by
  induction replies generalizing k with
  | nil => trivial
  | cons r rest ih => exact ⟨h.1.mono x, ih h.2⟩

theorem InOrder.concat {completed : List Completion} {replies : List Reply} {k : Nat} {r : Reply}
    (h : InOrder completed k replies) (hr : Answers completed (k + confirmations replies) r) :
    InOrder completed k (replies ++ [r]) := by
  induction replies generalizing k with
  | nil => exact ⟨hr, trivial⟩
  | cons r' rest ih =>
      refine ⟨h.1, ih h.2 ?_⟩
      rw [confirmations, ← Nat.add_assoc] at hr
      exact hr

theorem confirmations_concat (replies : List Reply) (r : Reply) :
    confirmations (replies ++ [r]) = confirmations replies + r.confirms := by
  induction replies with
  | nil => exact Nat.add_comm _ _
  | cons r' rest ih => rw [List.cons_append, confirmations, ih, confirmations, Nat.add_assoc]

/-! ## The invariant -/

/-- The transfers of which the handler holds the status. -/
def Irq.inHand : Irq → Nat
  | .setLen _ => 1
  | .setReady _ => 1
  | _ => 0

/-- The transfers that an unfinished confirmation has given back. -/
def Ioctl.cleared : Ioctl → Nat
  | .confirmSubmit _ => 1
  | .confirmNext => 1
  | .confirmWrap => 1
  | _ => 0

/-- The transfers that were submitted when `c` were given back. -/
def Ioctl.submitted (bufNum c : Nat) : Ioctl → Nat
  | .startExp => 0
  | .startReceived => 0
  | .startClear _ => 0
  | .startTest i => i
  | .startSubmit i _ => i
  | .confirmSubmit _ => bufNum + (c - 1)
  | _ => bufNum + c

/-- The buffers whose flag was cleared by the start. -/
def Ioctl.clean (bufNum : Nat) : Ioctl → Nat
  | .startExp => 0
  | .startReceived => 0
  | .startClear i => i
  | _ => bufNum

/-- The ready buffers whose length is gone. -/
def Ioctl.blanked : Ioctl → Nat
  | .confirmReady => 1
  | _ => 0

/-- The words that `transfer_buf` has written when it comes to a register. -/
def Xfer.written (words : List (BitVec 32)) : Xfer → List (BitVec 32)
  | .control => []
  | .address => words.take 1
  | .tag => words.take 2
  | .length => words

section Invariant

variable (bufNum : Nat) (physBuf : Nat → BitVec 32) (h c : Nat)

/-- The variables of the ioctls. -/
def AppOk (receivedBuf : Nat) (tdfd : List (BitVec 32)) (isStarted : Bool) : Ioctl → Prop
  | .startExp => tdfd = []
  | .startReceived => tdfd = []
  | .startClear i => tdfd = [] ∧ receivedBuf = 0 ∧ i ≤ bufNum
  | .startTest i => tdfd = [] ∧ receivedBuf = 0 ∧ c = 0 ∧ i ≤ bufNum
  | .startSubmit i x =>
      tdfd = x.written (command physBuf i) ∧ receivedBuf = 0 ∧ c = 0 ∧ i < bufNum
  | .startIer => tdfd = [] ∧ receivedBuf = c % bufNum
  | .startFlag => tdfd = [] ∧ receivedBuf = c % bufNum
  | .idle => tdfd = [] ∧ receivedBuf = c % bufNum ∧ isStarted = true
  | .getWait => tdfd = [] ∧ receivedBuf = c % bufNum ∧ isStarted = true
  | .confirmTest => tdfd = [] ∧ receivedBuf = c % bufNum ∧ isStarted = true
  | .getRead => tdfd = [] ∧ receivedBuf = c % bufNum ∧ isStarted = true ∧ c < h
  | .confirmLen => tdfd = [] ∧ receivedBuf = c % bufNum ∧ isStarted = true ∧ c < h
  | .confirmReady => tdfd = [] ∧ receivedBuf = c % bufNum ∧ isStarted = true ∧ c < h
  | .confirmSubmit x =>
      tdfd = x.written (command physBuf receivedBuf) ∧ receivedBuf = (c - 1) % bufNum ∧
        isStarted = true ∧ 1 ≤ c
  | .confirmNext => tdfd = [] ∧ receivedBuf = (c - 1) % bufNum ∧ isStarted = true ∧ 1 ≤ c
  | .confirmWrap => tdfd = [] ∧ receivedBuf = (c - 1) % bufNum + 1 ∧ isStarted = true ∧ 1 ≤ c

/-- What the handler knows. -/
def IrqOk (completed : List Completion) (statuses : List Packet) (blen : Nat → BitVec 32) : Irq → Prop
  | .idle => True
  | .occupancy => True
  | .length => statuses ≠ []
  | .data => statuses ≠ []
  | .setLen res => ∃ x, completed[h]? = some x ∧ res = x.status
  | .setReady nbuf =>
      ∃ x, completed[h]? = some x ∧ nbuf = h % bufNum ∧ (blen nbuf).toNat = x.len.toNat
  | .nextExp => 1 ≤ h
  | .wrapExp => 1 ≤ h

/-- The cursor of the handler. -/
def ExpOk (expBuf : Nat) : Irq → Prop
  | .nextExp => expBuf = (h - 1) % bufNum
  | .wrapExp => expBuf = (h - 1) % bufNum + 1
  | _ => expBuf = h % bufNum

/-- The state when `c` transfers were given back and `h` were marked ready. -/
structure Inv (s : State) : Prop where
  confirmed : confirmations s.replies + s.ioctl.cleared = c
  le : c ≤ h
  inHand : h + s.irq.inHand ≤ s.completed.length
  submitted : s.completed.length + s.commands.length = s.ioctl.submitted bufNum c
  statuses : s.statuses = (s.completed.drop (h + s.irq.inHand)).map Completion.packet
  tags : ∀ j x, s.completed[j]? = some x → x.tag.toNat = j % bufNum
  commands : ∀ j w, s.commands[j]? = some w → w = command physBuf ((s.completed.length + j) % bufNum)
  ready : ∀ b, b < s.ioctl.clean bufNum →
    (s.bready b = true ↔ ∃ j, c ≤ j ∧ j < h ∧ j % bufNum = b)
  lens : ∀ j x, c + s.ioctl.blanked ≤ j → j < h → s.completed[j]? = some x →
    (s.blen (j % bufNum)).toNat = x.len.toNat
  app : AppOk bufNum physBuf h c s.receivedBuf s.tdfd s.isStarted s.ioctl
  irq : IrqOk bufNum h s.completed s.statuses s.blen s.irq
  exp : s.ioctl = .startExp ∨ ExpOk bufNum h s.expBuf s.irq
  answers : InOrder s.completed 0 s.replies
  quiet : s.kernErr = false

end Invariant

section Step

variable {bufNum : Nat} {physBuf : Nat → BitVec 32} {h c : Nat} {s : State}

theorem Inv.submitted_le (hi : Inv bufNum physBuf h c s) :
    s.completed.length + s.commands.length ≤ bufNum + c := by
  rw [hi.submitted]
  have happ := hi.app
  cases hpc : s.ioctl with
  | startTest i =>
      rw [hpc] at happ
      exact Nat.le_trans happ.2.2.2 (Nat.le_add_right _ _)
  | startSubmit i x =>
      rw [hpc] at happ
      exact Nat.le_trans (Nat.le_of_lt happ.2.2.2) (Nat.le_add_right _ _)
  | _ => simp only [Ioctl.submitted]; omega

/-- The cursor of the handler is set as soon as there is something to receive. -/
theorem Inv.expOk (hi : Inv bufNum physBuf h c s) (hne : 0 < s.completed.length) :
    ExpOk bufNum h s.expBuf s.irq := by
  rcases hi.exp with hstart | hexp
  · have hsub := hi.submitted
    rw [hstart, Ioctl.submitted] at hsub
    omega
  · exact hexp

end Step

end Dmover
end WzXdma
