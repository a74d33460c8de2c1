import Mathlib.Logic.Function.Basic
import WzXdma.Bar
import WzXdma.Lib.Machine

/-!
# User interrupts

The devices of the user interrupts: `user_irq_service`, which is called by both interrupt
handlers, `char_events_read` and `char_events_poll`.  Any number of threads read and poll the
same device, and between any two of their steps interrupts come and other threads go on.

A read takes whatever `events_irq` holds when it has the lock, so a thread that was woken may
find that another one has been faster.  `log` keeps what happened, the newest first, and
`Recorded` says how each entry follows from those behind it.
-/

namespace WzXdma
namespace Events

open Lib

/-- `struct xdma_irq`, as far as the events go. -/
structure XdmaIrq where
  eventsIrq : Word
  deriving DecidableEq, Repr

/-- `user_irq_service` -/
def userIrqService (irq : XdmaIrq) : XdmaIrq :=
  if irq.eventsIrq = 0 then { irq with eventsIrq := 1 } else irq

/-- Where a thread is in `char_events_read`. -/
inductive Reader
  | outside
  | waiting
  /-- it has seen `events_irq != 0` -/
  | awake
  | taken (eventsUser : Word)
  deriving DecidableEq, Repr

inductive Entry
  | interrupt
  /-- a read that does not wait, with its result -/
  | refused (thread : Nat) (count pos : BitVec 64) (rc : Int)
  /-- a read whose wait was ended by a signal -/
  | signalled (thread : Nat) (rc : Int)
  | awake (thread : Nat)
  | taken (thread : Nat) (eventsUser : Word)
  /-- the end of a read: whether `copy_to_user` failed, the result, and what is in the buffer -/
  | returned (thread : Nat) (fails : Bool) (rc : Int) (copied : Option Word)
  | polled (mask : Bool)
  deriving DecidableEq, Repr

structure State where
  irq : XdmaIrq
  reader : Nat → Reader
  log : List Entry

inductive Act
  | interrupt
  | read (thread : Nat) (count pos : BitVec 64)
  | wake (thread : Nat)
  /-- `wait_event_interruptible` is ended by a signal -/
  | signal (thread : Nat)
  | take (thread : Nat)
  | copy (thread : Nat) (fails : Bool)
  | poll
  deriving DecidableEq, Repr

/-- No event yet, and nobody reads. -/
def start : State := ⟨⟨0⟩, fun _ => .outside, []⟩

/-- A thread goes on in its call. -/
def State.goOn (s : State) (thread : Nat) (r : Reader) : State :=
  { s with reader := Function.update s.reader thread r }

@[simp] theorem goOn_self (s : State) (thread : Nat) (r : Reader) :
    (s.goOn thread r).reader thread = r := by
  show Function.update s.reader thread r thread = r
  rw [Function.update_self]

theorem goOn_ne (s : State) {t thread : Nat} (h : t ≠ thread) (r : Reader) :
    (s.goOn thread r).reader t = s.reader t := by
  show Function.update s.reader thread r t = s.reader t
  rw [Function.update_of_ne h]

def State.note (s : State) (x : Entry) : State := { s with log := x :: s.log }

/-- The tests of `char_events_read` before it waits. -/
def readRefused (count pos : BitVec 64) : Bool := count != 4 || pos &&& 3 != 0

def step (s : State) : Act → Option State
  | .interrupt => some ({ s with irq := userIrqService s.irq }.note .interrupt)
  | .read thread count pos =>
      if s.reader thread = .outside then
        if readRefused count pos then some (s.note (.refused thread count pos (-eproto)))
        else some (s.goOn thread .waiting)
      else none
  | .wake thread =>
      if s.reader thread = .waiting ∧ s.irq.eventsIrq ≠ 0 then
        some ((s.goOn thread .awake).note (.awake thread))
      else none
  | .signal thread =>
      if s.reader thread = .waiting ∧ s.irq.eventsIrq = 0 then
        some ((s.goOn thread .outside).note (.signalled thread (-erestartsys)))
      else none
  | .take thread =>
      if s.reader thread = .awake then
        some (({ s with irq := { s.irq with eventsIrq := 0 } }.goOn thread
          (.taken s.irq.eventsIrq)).note (.taken thread s.irq.eventsIrq))
      else none
  | .copy thread fails =>
      match s.reader thread with
      -- "Copy to user failed but continuing"
      | .taken eventsUser => some ((s.goOn thread .outside).note
          (.returned thread fails 4 (if fails then none else some eventsUser)))
      | _ => none
  | .poll => some (s.note (.polled (s.irq.eventsIrq != 0)))

/-! ## What the log says -/

/-- An interrupt came after the last read took the events. -/
def fresh : List Entry → Bool
  | [] => false
  | .interrupt :: _ => true
  | .taken _ _ :: _ => false
  | _ :: log => fresh log

/-- Another thread took the events after this one was woken. -/
def stolen (thread : Nat) : List Entry → Bool
  | [] => false
  | .awake t :: log => if t = thread then false else stolen thread log
  | .taken t _ :: _ => t != thread
  | _ :: log => stolen thread log

/-- What a thread has taken in a read that has not returned. -/
def held (thread : Nat) : List Entry → Option Word
  | [] => none
  | .taken t v :: log => if t = thread then some v else held thread log
  | .returned t _ _ _ :: log => if t = thread then none else held thread log
  | _ :: log => held thread log

/-- A bit of `events_irq`. -/
def bit (b : Bool) : Word := if b then 1 else 0

/-- Each entry follows from those behind it.  A read takes 1 if an interrupt came since the last
time and otherwise 0, which happens only when another thread was faster, and a poll is told the
same.  A read that took something returns once: its result is 4, and the buffer has got what was
taken unless the copy failed. -/
def Recorded : List Entry → Prop
  | [] => True
  | .interrupt :: log => Recorded log
  | .refused t count pos rc :: log =>
      (count ≠ 4 ∨ pos &&& 3 ≠ 0) ∧ rc = -eproto ∧ held t log = none ∧ Recorded log
  | .signalled t rc :: log =>
      fresh log = false ∧ rc = -erestartsys ∧ held t log = none ∧ Recorded log
  | .awake t :: log => fresh log = true ∧ held t log = none ∧ Recorded log
  | .taken t v :: log =>
      v = bit (fresh log) ∧ (v = 0 → stolen t log = true) ∧ held t log = none ∧ Recorded log
  | .returned t fails rc copied :: log =>
      rc = 4 ∧ (∃ v, held t log = some v ∧ copied = if fails then none else some v) ∧ Recorded log
  | .polled mask :: log => mask = fresh log ∧ Recorded log

def interrupts : List Entry → Nat
  | [] => 0
  | .interrupt :: log => interrupts log + 1
  | _ :: log => interrupts log

/-- How many reads took an event. -/
def reports : List Entry → Nat
  | [] => 0
  | .taken _ v :: log => reports log + v.toNat
  | _ :: log => reports log

/-! ### The events of one thread -/

def heldBy (thread : Nat) (log : List Entry) : Nat := ((held thread log).map BitVec.toNat).getD 0

def takenBy (thread : Nat) : List Entry → Nat
  | [] => 0
  | .taken t v :: log => takenBy thread log + if t = thread then v.toNat else 0
  | _ :: log => takenBy thread log

/-- What its buffers have got. -/
def givenTo (thread : Nat) : List Entry → Nat
  | [] => 0
  | .returned t _ _ (some v) :: log => givenTo thread log + if t = thread then v.toNat else 0
  | _ :: log => givenTo thread log

/-- What was taken for a buffer that could not be written. -/
def lostBy (thread : Nat) : List Entry → Nat
  | [] => 0
  | .returned t true _ _ :: log =>
      lostBy thread log + if t = thread then heldBy thread log else 0
  | _ :: log => lostBy thread log

/-! ## The book of a device -/

def Reader.held : Reader → Option Word
  | .taken eventsUser => some eventsUser
  | _ => none

/-- The book of a device is kept. -/
structure Kept (s : State) : Prop where
  events : s.irq.eventsIrq = bit (fresh s.log)
  recorded : Recorded s.log
  awake : ∀ t, s.reader t = .awake → fresh s.log = true ∨ stolen t s.log = true
  held : ∀ t, held t s.log = (s.reader t).held

section Steps

variable {s s' : State} {thread : Nat}

theorem bit_eq_zero {b : Bool} : bit b = 0 ↔ b = false := by cases b <;> decide

theorem bit_bne_zero (b : Bool) : (bit b != 0) = b := by cases b <;> decide

theorem readRefused_iff {count pos : BitVec 64} :
    readRefused count pos = true ↔ count ≠ 4 ∨ pos &&& 3 ≠ 0 := by
  rw [readRefused, Bool.or_eq_true, bne_iff_ne, bne_iff_ne]

theorem start_kept : Kept start := by
  refine ⟨rfl, trivial, fun t ht => ?_, fun _ => rfl⟩
  cases ht

theorem Kept.interrupt (h : Kept s) :
    Kept ({ s with irq := userIrqService s.irq }.note .interrupt) := by
  refine ⟨?_, h.recorded, fun t _ => .inl rfl, h.held⟩
  show (userIrqService s.irq).eventsIrq = 1
  rw [userIrqService]
  split
  · rfl
  · rename_i hne
    rw [h.events] at hne ⊢
    cases hf : fresh s.log with
    | false =>
        rw [hf] at hne
        exact absurd rfl hne
    | true => rfl

/-- A thread that holds nothing goes on with nothing. -/
theorem Kept.held_goOn (h : Kept s) {r : Reader} (hbefore : (s.reader thread).held = none)
    (hafter : r.held = none) (t : Nat) :
    Events.held t s.log = ((s.goOn thread r).reader t).held := by
  by_cases he : t = thread
  · rw [he, goOn_self, hafter, h.held, hbefore]
  · rw [goOn_ne s he, h.held]

theorem Kept.refused (h : Kept s) (houtside : s.reader thread = .outside) {count pos : BitVec 64}
    (hrefused : readRefused count pos = true) :
    Kept (s.note (.refused thread count pos (-eproto))) := by
  have hheld : Events.held thread s.log = none := by
    rw [h.held, houtside]
    rfl
  exact ⟨h.events, ⟨readRefused_iff.mp hrefused, rfl, hheld, h.recorded⟩, h.awake, h.held⟩

theorem Kept.enter (h : Kept s) (houtside : s.reader thread = .outside) :
    Kept (s.goOn thread .waiting) := by
  refine ⟨h.events, h.recorded, fun t ht => ?_, h.held_goOn (by rw [houtside]; rfl) rfl⟩
  by_cases he : t = thread
  · rw [he, goOn_self] at ht
    cases ht
  · exact h.awake t ((goOn_ne s he .waiting).symm.trans ht)

theorem Kept.signal (h : Kept s) (hwaiting : s.reader thread = .waiting)
    (hevents : s.irq.eventsIrq = 0) :
    Kept ((s.goOn thread .outside).note (.signalled thread (-erestartsys))) := by
  have hnone : (s.reader thread).held = none := by
    rw [hwaiting]
    rfl
  have hfresh : fresh s.log = false := bit_eq_zero.mp (h.events.symm.trans hevents)
  refine ⟨h.events, ⟨hfresh, rfl, (h.held thread).trans hnone, h.recorded⟩, fun t ht => ?_,
    h.held_goOn hnone rfl⟩
  by_cases he : t = thread
  · subst he
    cases (goOn_self s t .outside).symm.trans ht
  · exact h.awake t ((goOn_ne s he .outside).symm.trans ht)

theorem Kept.polled (h : Kept s) : Kept (s.note (.polled (s.irq.eventsIrq != 0))) := by
  refine ⟨h.events, ⟨?_, h.recorded⟩, h.awake, h.held⟩
  rw [h.events, bit_bne_zero]

theorem Kept.wake (h : Kept s) (hwaiting : s.reader thread = .waiting)
    (hevents : s.irq.eventsIrq ≠ 0) : Kept ((s.goOn thread .awake).note (.awake thread)) := by
  have hnone : (s.reader thread).held = none := by
    rw [hwaiting]
    rfl
  have hfresh : fresh s.log = true := by
    rw [h.events, ne_eq, bit_eq_zero, Bool.not_eq_false] at hevents
    exact hevents
  exact ⟨h.events, ⟨hfresh, (h.held thread).trans hnone, h.recorded⟩, fun t _ => .inl hfresh,
    h.held_goOn hnone rfl⟩

theorem Kept.take (h : Kept s) (hawake : s.reader thread = .awake) :
    Kept (({ s with irq := { s.irq with eventsIrq := 0 } }.goOn thread
      (.taken s.irq.eventsIrq)).note (.taken thread s.irq.eventsIrq)) := by
  have hself := goOn_self { s with irq := { s.irq with eventsIrq := 0 } } thread
    (.taken s.irq.eventsIrq)
  have hnone : Events.held thread s.log = none := by
    rw [h.held, hawake]
    rfl
  refine ⟨rfl, ⟨h.events, fun hzero => ?_, hnone, h.recorded⟩, fun t ht => .inr ?_, fun t => ?_⟩
  · rw [h.events, bit_eq_zero] at hzero
    refine (h.awake thread hawake).resolve_left fun hfresh => ?_
    rw [hzero] at hfresh
    cases hfresh
  · have hne : t ≠ thread := by
      rintro rfl
      cases hself.symm.trans ht
    exact bne_iff_ne.mpr (Ne.symm hne)
  · by_cases he : t = thread
    · subst he
      exact (if_pos rfl).trans (congrArg Reader.held hself).symm
    · have hframe := goOn_ne { s with irq := { s.irq with eventsIrq := 0 } } he
        (.taken s.irq.eventsIrq)
      exact ((if_neg (Ne.symm he)).trans (h.held t)).trans (congrArg Reader.held hframe).symm

theorem Kept.copy (h : Kept s) {v : Word} (htaken : s.reader thread = .taken v) (fails : Bool) :
    Kept ((s.goOn thread .outside).note
      (.returned thread fails 4 (if fails then none else some v))) := by
  have hheld : Events.held thread s.log = some v := by
    rw [h.held, htaken]
    rfl
  refine ⟨h.events, ⟨rfl, ⟨v, hheld, rfl⟩, h.recorded⟩, fun t ht => ?_, fun t => ?_⟩
  · by_cases he : t = thread
    · subst he
      cases (goOn_self s t .outside).symm.trans ht
    · exact h.awake t ((goOn_ne s he .outside).symm.trans ht)
  · by_cases he : t = thread
    · subst he
      exact (if_pos rfl).trans (congrArg Reader.held (goOn_self s t .outside)).symm
    · exact ((if_neg (Ne.symm he)).trans (h.held t)).trans
        (congrArg Reader.held (goOn_ne s he .outside)).symm

theorem Kept.step (h : Kept s) {a : Act} (hs : Events.step s a = some s') : Kept s' := by
  cases a with
  | interrupt =>
      obtain rfl := Option.some.inj hs
      exact h.interrupt
  | read thread count pos =>
      rw [Events.step] at hs
      split at hs
      · rename_i houtside
        split at hs
        · rename_i hrefused
          obtain rfl := Option.some.inj hs
          exact h.refused houtside hrefused
        · obtain rfl := Option.some.inj hs
          exact h.enter houtside
      · cases hs
  | wake thread =>
      rw [Events.step] at hs
      split at hs
      · rename_i hc
        obtain rfl := Option.some.inj hs
        exact h.wake hc.1 hc.2
      · cases hs
  | signal thread =>
      rw [Events.step] at hs
      split at hs
      · rename_i hc
        obtain rfl := Option.some.inj hs
        exact h.signal hc.1 hc.2
      · cases hs
  | take thread =>
      rw [Events.step] at hs
      split at hs
      · rename_i hawake
        obtain rfl := Option.some.inj hs
        exact h.take hawake
      · cases hs
  | copy thread fails =>
      rw [Events.step] at hs
      split at hs
      · rename_i v htaken
        obtain rfl := Option.some.inj hs
        exact h.copy htaken fails
      · cases hs
  | poll =>
      obtain rfl := Option.some.inj hs
      exact h.polled

end Steps

/-- What is reported was raised, and what was not reported yet is still counted as one. -/
theorem Recorded.once {log : List Entry} (h : Recorded log) :
    reports log + (bit (fresh log)).toNat ≤ interrupts log := by
  induction log with
  | nil => decide
  | cons x log ih =>
      cases x with
      | interrupt =>
          have hih := ih h
          show reports log + 1 ≤ interrupts log + 1
          omega
      | refused t count pos rc => exact ih h.2.2.2
      | signalled t rc => exact ih h.2.2.2
      | awake t => exact ih h.2.2
      | taken t v =>
          obtain ⟨rfl, -, -, hrest⟩ := h
          exact ih hrest
      | returned t fails rc copied => exact ih h.2.2
      | polled mask => exact ih h.2

/-- What a thread has taken has reached its buffers, was lost with a copy that failed, or is still
in its hands. -/
theorem Recorded.delivered {log : List Entry} (h : Recorded log) (thread : Nat) :
    takenBy thread log = givenTo thread log + lostBy thread log + heldBy thread log := by
  induction log with
  | nil => rfl
  | cons x log ih =>
      cases x with
      | interrupt => exact ih h
      | refused t count pos rc => exact ih h.2.2.2
      | signalled t rc => exact ih h.2.2.2
      | awake t => exact ih h.2.2
      | taken t v =>
          obtain ⟨-, -, hnone, hrest⟩ := h
          have hih := ih hrest
          by_cases he : t = thread
          · subst he
            rw [heldBy, hnone, Option.map_none, Option.getD_none] at hih
            simp only [takenBy, givenTo, lostBy, heldBy, held, if_true, Option.map_some,
              Option.getD_some]
            omega
          · simp only [takenBy, givenTo, lostBy, heldBy, held, if_neg he]
            exact hih
      | returned t fails rc copied =>
          obtain ⟨-, ⟨v, hheld, rfl⟩, hrest⟩ := h
          have hih := ih hrest
          by_cases he : t = thread
          · subst he
            rw [heldBy, hheld, Option.map_some, Option.getD_some] at hih
            cases fails with
            | false =>
                simp only [takenBy, givenTo, lostBy, heldBy, held, if_true, Bool.false_eq_true,
                  if_false, Option.map_none, Option.getD_none]
                omega
            | true =>
                simp only [takenBy, givenTo, lostBy, heldBy, held, if_true, hheld, Option.map_some,
                  Option.map_none, Option.getD_some, Option.getD_none]
                omega
          · cases fails with
            | false =>
                simp only [takenBy, givenTo, lostBy, heldBy, held, if_neg he, Bool.false_eq_true,
                  if_false]
                exact hih
            | true =>
                simp only [takenBy, givenTo, lostBy, heldBy, held, if_neg he, if_true]
                exact hih
      | polled mask => exact ih h.2

/-- What the threads of a device are told. -/
structure Reported (s : State) : Prop where
  events : s.irq.eventsIrq = bit (fresh s.log)
  recorded : Recorded s.log
  once : reports s.log + s.irq.eventsIrq.toNat ≤ interrupts s.log
  delivered : ∀ t, takenBy t s.log = givenTo t s.log + lostBy t s.log + heldBy t s.log

/-- No interrupt is reported twice, and an event is forgotten only when a read has taken it and
its copy to the application fails, in whatever order interrupts, reads, signals and polls come. -/
theorem events_reported {s : State} (hs : Machine.Reach step (fun _ _ => True) start s) :
    Reported s := by
  have h : Kept s := hs.invariant start_kept fun _ _ _ _ hP _ hstep => hP.step hstep
  refine ⟨h.events, h.recorded, ?_, h.recorded.delivered⟩
  rw [h.events]
  exact h.recorded.once

/-- Two threads wait for the same interrupt, and both reads return 4.  One has taken the event and
the other one 0.  The event of the next interrupt is lost, and that read returns 4 as well. -/
theorem events_reported_race :
    ∃ s, Machine.Reach step (fun _ _ => True) start s ∧ Reported s ∧
      s.log = [.returned 1 true 4 none, .taken 1 1, .awake 1, .interrupt,
        .returned 2 false 4 (some 0), .taken 2 0, .returned 1 false 4 (some 1), .taken 1 1, .awake 2,
        .awake 1, .interrupt] := by
  obtain ⟨s, hs, hlog⟩ := Machine.exists_reach_of_execOk step (fun _ _ => True) start
    [.read 1 4 0, .read 2 4 0, .interrupt, .wake 1, .wake 2, .take 1, .copy 1 false, .take 2,
      .copy 2 false, .read 1 4 0, .interrupt, .wake 1, .take 1, .copy 1 true]
    (fun s => decide (s.log = [.returned 1 true 4 none, .taken 1 1, .awake 1, .interrupt,
      .returned 2 false 4 (some 0), .taken 2 0, .returned 1 false 4 (some 1), .taken 1 1, .awake 2,
      .awake 1, .interrupt])) (by decide +kernel)
  exact ⟨s, hs, events_reported hs, of_decide_eq_true hlog⟩

end Events
end WzXdma
