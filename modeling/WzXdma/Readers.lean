import WzXdma.Ioctl.Stop
import WzXdma.Lib.Machine
import Mathlib.Data.List.Nodup

/-!
# Concurrent calls of GETBUF

Nothing keeps two threads from being inside `ioctl_do_wz_getbuf` at the same time.  A call
waits until there is a block or the engine has stopped, tests `running`, removes a block
with `kfifo_get` and copies it to the application, and between any two of these steps the
other threads and the interrupt service go on.

`kfifo_get` on an empty FIFO returns 0 and stores nothing, and its result is not looked
at, so a call may go on with a block descriptor that nobody has written.

The entries of the FIFO are numbered in the order in which they are put.
-/

namespace WzXdma

open Lib

/-- Where a call is. -/
inductive ReaderPhase
  | outside
  | waiting
  | woken
  /-- it has found the engine running -/
  | tested
  /-- `kfifo_get` is done; `none` if `db_desc` was not written -/
  | holding (entry : Option (Nat × WzXdmaDataBlockDesc))
  deriving DecidableEq, Repr

/-- A call that has returned: what it took from the FIFO, and its result. -/
structure GetbufCall where
  entry : Option (Nat × WzXdmaDataBlockDesc)
  rc : Int
  deriving DecidableEq, Repr

structure Readers where
  kfifo : List WzXdmaDataBlockDesc
  kfifoSize : Nat
  running : Bool
  phase : Nat → ReaderPhase
  /-- all blocks put so far -/
  put : List WzXdmaDataBlockDesc
  /-- how many blocks were removed -/
  taken : Nat
  returned : List GetbufCall

inductive ReaderAct
  | enqueue (db : WzXdmaDataBlockDesc)
  | enter (thread : Nat)
  | wake (thread : Nat)
  /-- `wait_event_interruptible` is ended by a signal -/
  | interrupt (thread : Nat)
  | test (thread : Nat)
  | get (thread : Nat)
  | copy (thread : Nat) (fails : Bool)
  deriving DecidableEq, Repr

namespace Readers

/-- The engine runs, and no thread is inside `GETBUF`. -/
def ofDriver (d : Driver) : Readers where
  kfifo := d.ext.kfifo
  kfifoSize := d.ext.kfifoSize
  running := d.engine.running
  phase := fun _ => .outside
  put := d.ext.kfifo
  taken := 0
  returned := []

/-- The call of a thread returns. -/
def leave (s : Readers) (thread : Nat) (entry : Option (Nat × WzXdmaDataBlockDesc)) (rc : Int) :
    Readers :=
  { s with
    phase := Function.update s.phase thread .outside
    returned := s.returned ++ [⟨entry, rc⟩] }

def enter (s : Readers) (thread : Nat) : Option Readers :=
  match s.phase thread with
  | .outside => some { s with phase := Function.update s.phase thread .waiting }
  | _ => none

def wake (s : Readers) (thread : Nat) : Option Readers :=
  match s.phase thread with
  | .waiting =>
      if 1 ≤ s.kfifo.length ∨ s.running = false then
        some { s with phase := Function.update s.phase thread .woken }
      else none
  | _ => none

def interrupt (s : Readers) (thread : Nat) : Option Readers :=
  match s.phase thread with
  | .waiting => some (s.leave thread none (-erestartsys))
  | _ => none

def test (s : Readers) (thread : Nat) : Option Readers :=
  match s.phase thread with
  | .woken =>
      if s.running then some { s with phase := Function.update s.phase thread .tested }
      else some (s.leave thread none (-eio))
  | _ => none

def get (s : Readers) (thread : Nat) : Option Readers :=
  match s.phase thread with
  | .tested =>
      match s.kfifo with
      | [] => some { s with phase := Function.update s.phase thread (.holding none) }
      | db :: rest =>
          some { s with
            kfifo := rest
            taken := s.taken + 1
            phase := Function.update s.phase thread (.holding (some (s.taken, db))) }
  | _ => none

def copy (s : Readers) (thread : Nat) (fails : Bool) : Option Readers :=
  match s.phase thread with
  | .holding entry => some (s.leave thread entry (if fails then -einval else 0))
  | _ => none

def step (s : Readers) : ReaderAct → Option Readers
  | .enqueue db =>
      if s.kfifo.length < s.kfifoSize then
        some { s with kfifo := s.kfifo ++ [db], put := s.put ++ [db] }
      else none
  | .enter thread => s.enter thread
  | .wake thread => s.wake thread
  | .interrupt thread => s.interrupt thread
  | .test thread => s.test thread
  | .get thread => s.get thread
  | .copy thread fails => s.copy thread fails

/-- The steps of one call without others in between are `ioctl_do_wz_getbuf`. -/
theorem alone_eq_getbuf (s : Readers) (thread : Nat) (fails : Bool) (d : Driver)
    (hphase : s.phase thread = .woken) (hk : d.ext.kfifo = s.kfifo)
    (hrun : d.engine.running = s.running) :
    ∃ s' call, (if s.running then (s.test thread).bind fun s => (s.get thread).bind fun s =>
        s.copy thread fails else s.test thread) = some s' ∧
      s'.returned = s.returned ++ [call] ∧
      s'.kfifo = (d.ioctlDoWzGetbuf fails).1.ext.kfifo ∧ call.rc = (d.ioctlDoWzGetbuf fails).2.1 ∧
      (call.rc = 0 → call.entry.map Prod.snd = (d.ioctlDoWzGetbuf fails).2.2) := by
  unfold Driver.ioctlDoWzGetbuf
  rw [hrun, hk]
  cases hr : s.running with
  | false =>
      refine ⟨s.leave thread none (-eio), ⟨none, -eio⟩, ?_, rfl, ?_, rfl, fun h => absurd h (by decide)⟩
      · simp [test, hphase, hr]
      · simp [leave, hk]
  | true =>
      have htest : s.test thread =
          some { s with phase := Function.update s.phase thread .tested } := by
        simp [test, hphase, hr]
      cases hkfifo : s.kfifo with
      | nil =>
          let s₁ : Readers :=
            { s with
              phase := Function.update (Function.update s.phase thread .tested) thread
                (.holding none) }
          refine ⟨s₁.leave thread none (if fails then -einval else 0),
            ⟨none, if fails then -einval else 0⟩, ?_, ?_⟩
          · rw [if_pos rfl, htest]
            simp [get, copy, hkfifo, s₁]
          · cases fails <;> simp [leave, hkfifo, einval, s₁]
      | cons db rest =>
          let s₁ : Readers :=
            { s with
              kfifo := rest
              taken := s.taken + 1
              phase := Function.update (Function.update s.phase thread .tested) thread
                (.holding (some (s.taken, db))) }
          refine ⟨s₁.leave thread (some (s.taken, db)) (if fails then -einval else 0),
            ⟨some (s.taken, db), if fails then -einval else 0⟩, ?_, ?_⟩
          · rw [if_pos rfl, htest]
            simp [get, copy, hkfifo, s₁]
          · cases fails <;> simp [leave, einval, s₁]

/-! ## What a call may hand out -/

/-- The entry is one that was put and has been removed. -/
def WasTaken (s : Readers) (entry : Option (Nat × WzXdmaDataBlockDesc)) : Prop :=
  ∃ n db, entry = some (n, db) ∧ n < s.taken ∧ s.put[n]? = some db

/-- The numbers of the entries that successful calls have delivered. -/
def delivered (s : Readers) : List Nat :=
  s.returned.filterMap fun call => if call.rc = 0 then call.entry.map Prod.fst else none

/-- `GETBUF` hands out each block once.  The entries are numbered as they were put, and an
entry carries the number of blocks removed before it, so `enqueued` and `fifo` say that
the blocks are taken in order. -/
structure HandsOutOnce (s : Readers) : Prop where
  enqueued : ∀ call ∈ s.returned, call.rc = 0 → s.WasTaken call.entry
  distinct : s.delivered.Nodup
  fifo : s.put.drop s.taken = s.kfifo
  errorsKeep : ∀ call ∈ s.returned, call.rc ≠ 0 → call.entry = none

/-- What the runs keep beyond `HandsOutOnce`: the calls under way hold entries of their own. -/
structure Inv (s : Readers) : Prop extends HandsOutOnce s where
  removed : s.taken ≤ s.put.length
  held : ∀ thread entry, s.phase thread = .holding entry → s.WasTaken entry
  apart : ∀ thread thread' n db db', s.phase thread = .holding (some (n, db)) →
    s.phase thread' = .holding (some (n, db')) → thread = thread'
  fresh : ∀ thread n db, s.phase thread = .holding (some (n, db)) → n ∉ s.delivered

/-- The environment in which every block is handed out once: `kfifo_get` is called with a
block in the FIFO, and the result can be copied to the application. -/
def getsOnce (s : Readers) : ReaderAct → Prop
  | .get _ => s.kfifo ≠ []
  | .copy _ fails => fails = false
  | _ => True

instance (s : Readers) (a : ReaderAct) : Decidable (s.getsOnce a) :=
  match a with
  | .get _ => inferInstanceAs (Decidable (s.kfifo ≠ []))
  | .copy _ fails => inferInstanceAs (Decidable (fails = false))
  | .enqueue _ | .enter _ | .wake _ | .interrupt _ | .test _ => .isTrue trivial

theorem WasTaken.mono {s s' : Readers} {entry : Option (Nat × WzXdmaDataBlockDesc)}
    (h : s.WasTaken entry) (htaken : s.taken ≤ s'.taken) (hput : s.put <+: s'.put) :
    s'.WasTaken entry := by
  obtain ⟨n, db, hentry, hn, hdb⟩ := h
  obtain ⟨rest, hrest⟩ := hput
  obtain ⟨hlt, -⟩ := List.getElem?_eq_some_iff.mp hdb
  refine ⟨n, db, hentry, by omega, ?_⟩
  rw [← hrest, List.getElem?_append_left hlt]
  exact hdb

theorem inv_ofDriver (d : Driver) : (ofDriver d).Inv where
  enqueued := fun _ h => nomatch h
  distinct := List.nodup_nil
  fifo := rfl
  errorsKeep := fun _ h => nomatch h
  removed := Nat.zero_le _
  held := fun _ _ h => nomatch h
  apart := fun _ _ _ _ _ h => nomatch h
  fresh := fun _ _ _ h => nomatch h

/-! ## The steps keep the invariant -/

variable {s s' : Readers} {thread : Nat}

/-- A thread that does not hold an entry after the step is not the one that holds it. -/
theorem holding_of_update {phase : Nat → ReaderPhase} {thread' : Nat} {next : ReaderPhase}
    {entry : Option (Nat × WzXdmaDataBlockDesc)} (hnext : ∀ e, next ≠ .holding e)
    (h : Function.update phase thread next thread' = .holding entry) :
    thread' ≠ thread ∧ phase thread' = .holding entry := by
  by_cases heq : thread' = thread
  · rw [heq, Function.update_self] at h
    exact absurd h (hnext entry)
  · rw [Function.update_of_ne heq] at h
    exact ⟨heq, h⟩

theorem Inv.move (h : s.Inv) (next : ReaderPhase) (hnext : ∀ e, next ≠ .holding e) :
    Inv { s with phase := Function.update s.phase thread next } where
  toHandsOutOnce := ⟨h.enqueued, h.distinct, h.fifo, h.errorsKeep⟩
  removed := h.removed
  held := fun t entry ht => h.held t entry (holding_of_update hnext ht).2
  apart := fun t t' n db db' ht ht' =>
    h.apart t t' n db db' (holding_of_update hnext ht).2 (holding_of_update hnext ht').2
  fresh := fun t n db ht => h.fresh t n db (holding_of_update hnext ht).2

theorem delivered_leave (s : Readers) (thread : Nat)
    (entry : Option (Nat × WzXdmaDataBlockDesc)) (rc : Int) :
    (s.leave thread entry rc).delivered =
      s.delivered ++ (if rc = 0 then entry.map Prod.fst else none).toList := by
  unfold delivered leave
  rw [List.filterMap_append]
  cases h : (if rc = 0 then entry.map Prod.fst else none) <;> simp [h]

/-- A call leaves with a result that `HandsOutOnce` allows, and the number it delivers is
neither delivered already nor held by another thread. -/
theorem Inv.leave (h : s.Inv) {entry : Option (Nat × WzXdmaDataBlockDesc)} {rc : Int}
    (htaken : rc = 0 → s.WasTaken entry) (hkeep : rc ≠ 0 → entry = none)
    (hnew : ∀ n ∈ (if rc = 0 then entry.map Prod.fst else none).toList,
      n ∉ s.delivered ∧ ∀ t db, t ≠ thread → s.phase t ≠ .holding (some (n, db))) :
    (s.leave thread entry rc).Inv := by
  have hnext : ∀ e, ReaderPhase.outside ≠ .holding e := fun e => nofun
  refine ⟨⟨?_, ?_, h.fifo, ?_⟩, h.removed, ?_, ?_, ?_⟩
  · intro call hmem hzero
    rcases List.mem_append.mp hmem with hmem | hmem
    · exact h.enqueued call hmem hzero
    · rw [List.mem_singleton.mp hmem] at hzero ⊢
      exact htaken hzero
  · rw [delivered_leave]
    refine List.nodup_append.mpr ⟨h.distinct, ?_, fun a ha b hb hab => (hnew b hb).1 (hab ▸ ha)⟩
    cases (if rc = 0 then entry.map Prod.fst else none) <;> simp
  · intro call hmem hne
    rcases List.mem_append.mp hmem with hmem | hmem
    · exact h.errorsKeep call hmem hne
    · rw [List.mem_singleton.mp hmem] at hne ⊢
      exact hkeep hne
  · exact fun t entry ht => h.held t entry (holding_of_update hnext ht).2
  · exact fun t t' n db db' ht ht' =>
      h.apart t t' n db db' (holding_of_update hnext ht).2 (holding_of_update hnext ht').2
  · intro t n db ht
    obtain ⟨hne, hheld⟩ := holding_of_update hnext ht
    rw [delivered_leave, List.mem_append]
    rintro (hm | hm)
    · exact h.fresh t n db hheld hm
    · exact (hnew n hm).2 t db hne hheld

/-- A call that returns an error without having removed a block. -/
theorem Inv.leave_error (h : s.Inv) {rc : Int} (hrc : rc ≠ 0) :
    (s.leave thread none rc).Inv := by
  refine h.leave (fun hzero => absurd hzero hrc) (fun _ => rfl) ?_
  rw [if_neg hrc]
  exact fun n hn => nomatch hn

/-- A call that delivers the entry it holds. -/
theorem Inv.leave_deliver (h : s.Inv) {n : Nat} {db : WzXdmaDataBlockDesc}
    (hphase : s.phase thread = .holding (some (n, db))) :
    (s.leave thread (some (n, db)) 0).Inv := by
  refine h.leave (fun _ => h.held thread _ hphase) (fun hne => absurd rfl hne) ?_
  intro m hm
  obtain rfl : m = n := List.mem_singleton.mp hm
  exact ⟨h.fresh thread m db hphase,
    fun t db' hne ht => hne (h.apart t thread m db' db ht hphase)⟩

theorem Inv.enqueue (h : s.Inv) (db : WzXdmaDataBlockDesc) :
    Inv { s with kfifo := s.kfifo ++ [db], put := s.put ++ [db] } := by
  have hmono : ∀ entry, s.WasTaken entry →
      WasTaken { s with kfifo := s.kfifo ++ [db], put := s.put ++ [db] } entry :=
    fun _ hentry => hentry.mono le_rfl (List.prefix_append _ _)
  refine ⟨⟨fun call hmem hrc => hmono _ (h.enqueued call hmem hrc), h.distinct, ?_, h.errorsKeep⟩,
    ?_, fun t entry ht => hmono _ (h.held t entry ht), h.apart, h.fresh⟩
  · show (s.put ++ [db]).drop s.taken = s.kfifo ++ [db]
    rw [List.drop_append_of_le_length h.removed, h.fifo]
  · show s.taken ≤ (s.put ++ [db]).length
    have := h.removed
    rw [List.length_append]
    omega

/-- The numbers that are held or delivered are below the number of blocks removed. -/
theorem Inv.delivered_lt (h : s.Inv) {n : Nat} (hn : n ∈ s.delivered) : n < s.taken := by
  obtain ⟨call, hmem, hcall⟩ := List.mem_filterMap.mp hn
  by_cases hrc : call.rc = 0
  · rw [if_pos hrc] at hcall
    obtain ⟨m, db, hentry, hm, -⟩ := h.enqueued call hmem hrc
    rw [hentry] at hcall
    cases hcall
    exact hm
  · rw [if_neg hrc] at hcall
    cases hcall

theorem Inv.held_lt (h : s.Inv) {n : Nat} {db : WzXdmaDataBlockDesc}
    (hphase : s.phase thread = .holding (some (n, db))) : n < s.taken := by
  obtain ⟨m, db', hentry, hm, -⟩ := h.held thread _ hphase
  cases hentry
  exact hm

/-- `kfifo_get` with a block in the FIFO: the entry is the next one of those put. -/
theorem Inv.take (h : s.Inv) {db : WzXdmaDataBlockDesc} {rest : List WzXdmaDataBlockDesc}
    (hk : s.kfifo = db :: rest) :
    Inv { s with
      kfifo := rest
      taken := s.taken + 1
      phase := Function.update s.phase thread (.holding (some (s.taken, db))) } := by
  have hdrop : s.put.drop s.taken = db :: rest := h.fifo.trans hk
  have hdb : s.put[s.taken]? = some db := by
    rw [← List.head?_drop, hdrop, List.head?_cons]
  obtain ⟨hlt, -⟩ := List.getElem?_eq_some_iff.mp hdb
  have hmono : ∀ entry, s.WasTaken entry → ∃ n db, entry = some (n, db) ∧ n < s.taken + 1 ∧
      s.put[n]? = some db :=
    fun _ ⟨n, db, hentry, hn, hput⟩ => ⟨n, db, hentry, by omega, hput⟩
  -- the new number is `taken`, and all others are below it
  have hheld : ∀ t entry, Function.update s.phase thread (.holding (some (s.taken, db))) t =
      .holding entry → t = thread ∧ entry = some (s.taken, db) ∨ t ≠ thread ∧
        s.phase t = .holding entry := by
    intro t entry ht
    by_cases heq : t = thread
    · rw [heq, Function.update_self] at ht
      cases ht
      exact .inl ⟨heq, rfl⟩
    · rw [Function.update_of_ne heq] at ht
      exact .inr ⟨heq, ht⟩
  refine ⟨⟨fun call hmem hrc => hmono _ (h.enqueued call hmem hrc), h.distinct, ?_, h.errorsKeep⟩,
    hlt, ?_, ?_, ?_⟩
  · show s.put.drop (s.taken + 1) = rest
    rw [← List.tail_drop, hdrop, List.tail_cons]
  · intro t entry ht
    rcases hheld t entry ht with ⟨-, rfl⟩ | ⟨-, ht⟩
    · exact ⟨s.taken, db, rfl, Nat.lt_succ_self _, hdb⟩
    · exact hmono _ (h.held t entry ht)
  · intro t t' n db₁ db₂ ht ht'
    rcases hheld t _ ht with ⟨heq, hn⟩ | ⟨-, ht⟩ <;> rcases hheld t' _ ht' with ⟨heq', hn'⟩ | ⟨-, ht'⟩
    · rw [heq, heq']
    · cases hn
      exact absurd (h.held_lt ht') (lt_irrefl _)
    · cases hn'
      exact absurd (h.held_lt ht) (lt_irrefl _)
    · exact h.apart t t' n db₁ db₂ ht ht'
  · intro t n db' ht hn
    rcases hheld t _ ht with ⟨-, heq⟩ | ⟨-, ht⟩
    · cases heq
      exact absurd (h.delivered_lt hn) (lt_irrefl _)
    · exact h.fresh t n db' ht hn

theorem Inv.step (h : s.Inv) {a : ReaderAct} (hok : s.getsOnce a) (hstep : s.step a = some s') :
    s'.Inv := by
  cases a with
  | enqueue db =>
      simp only [Readers.step] at hstep
      split at hstep
      · cases hstep
        exact h.enqueue db
      · cases hstep
  | enter t =>
      simp only [Readers.step, enter] at hstep
      split at hstep
      · cases hstep
        exact h.move .waiting (fun e => nofun)
      · cases hstep
  | wake t =>
      simp only [Readers.step, wake] at hstep
      split at hstep
      · split at hstep
        · cases hstep
          exact h.move .woken (fun e => nofun)
        · cases hstep
      · cases hstep
  | interrupt t =>
      simp only [Readers.step, interrupt] at hstep
      split at hstep
      · cases hstep
        exact h.leave_error (by decide)
      · cases hstep
  | test t =>
      simp only [Readers.step, test] at hstep
      split at hstep
      · split at hstep
        · cases hstep
          exact h.move .tested (fun e => nofun)
        · cases hstep
          exact h.leave_error (by decide)
      · cases hstep
  | get t =>
      simp only [Readers.step, get] at hstep
      split at hstep
      · split at hstep
        · rename_i hk
          exact absurd hk hok
        · rename_i hk
          cases hstep
          exact h.take hk
      · cases hstep
  | copy t fails =>
      obtain rfl : fails = false := hok
      simp only [Readers.step, copy] at hstep
      split at hstep
      · rename_i entry hphase
        obtain ⟨n, db, rfl, -, -⟩ := h.held t entry hphase
        cases hstep
        exact h.leave_deliver hphase
      · cases hstep

/-! ## Every interleaving -/

/-- A call that returns 0 with nothing taken, or an error with a block taken, breaks the rule. -/
theorem not_handsOutOnce_leave {entry : Option (Nat × WzXdmaDataBlockDesc)} {rc : Int}
    (hbad : rc = 0 ↔ entry = none) : ¬(s.leave thread entry rc).HandsOutOnce := by
  intro h
  have hmem : (⟨entry, rc⟩ : GetbufCall) ∈ (s.leave thread entry rc).returned :=
    List.mem_append.mpr (.inr (List.mem_singleton.mpr rfl))
  by_cases hrc : rc = 0
  · obtain ⟨n, db, hentry, -, -⟩ := h.enqueued _ hmem hrc
    have hnone : entry = none := hbad.mp hrc
    rw [show entry = some (n, db) from hentry] at hnone
    cases hnone
  · exact hrc (hbad.mpr (h.errorsKeep _ hmem hrc))

/-- Any number of threads call `GETBUF`, and their steps come in any order, with blocks put
at any time.  The last two parts say that the two conditions of `getsOnce` are needed: a
call that finds the FIFO empty and copies its descriptor, or that takes a block and cannot
copy it, breaks the rule. -/
theorem getbuf_hands_out_once (d : Driver) (s : Readers)
    (hs : Machine.Reach Readers.step getsOnce (ofDriver d) s) :
    s.HandsOutOnce ∧
      (∀ thread s₁ s₂, s.get thread = some s₁ → s₁.copy thread false = some s₂ →
        (s₂.HandsOutOnce ↔ s.kfifo ≠ [])) ∧
      ∀ thread fails s₁, s.copy thread fails = some s₁ → (s₁.HandsOutOnce ↔ fails = false) := by
  have hinv : s.Inv := hs.invariant (P := Inv) (inv_ofDriver d)
    (fun _ _ _ _ hP hok hstep => hP.step hok hstep)
  refine ⟨hinv.toHandsOutOnce, ?_, ?_⟩
  · intro thread s₁ s₂ hget hcopy
    constructor
    · intro hhands hk
      unfold get at hget
      rw [hk] at hget
      split at hget
      · cases hget
        simp only [copy, Function.update_self, Option.some.injEq] at hcopy
        rw [← hcopy] at hhands
        exact not_handsOutOnce_leave (iff_of_true rfl rfl) hhands
      · cases hget
    · intro hk
      have hinv₁ : s₁.Inv := hinv.step (show s.getsOnce (.get thread) from hk) hget
      exact (hinv₁.step (show s₁.getsOnce (.copy thread false) from rfl) hcopy).toHandsOutOnce
  · intro thread fails s₁ hcopy
    constructor
    · intro hhands
      cases fails with
      | false => rfl
      | true =>
          unfold copy at hcopy
          split at hcopy
          · rename_i entry hphase
            obtain ⟨n, db, rfl, -, -⟩ := hinv.held thread entry hphase
            cases hcopy
            exact absurd hhands (not_handsOutOnce_leave (iff_of_false (by decide) nofun))
          · cases hcopy
    · intro hfails
      exact (hinv.step (show s.getsOnce (.copy thread fails) from hfails) hcopy).toHandsOutOnce

/-- A running engine with an empty FIFO. -/
def runningEmpty : Driver :=
  { Driver.created with
    engine := { XdmaEngine.created with running := true }
    ext := { WzExt.zero with kfifoSize := 4 } }

/-- Two threads are inside `GETBUF` at the same time, and each gets its own block. -/
theorem getbuf_hands_out_once_two :
    ∃ s : Readers, Machine.Reach Readers.step getsOnce (ofDriver runningEmpty) s ∧
      s.returned = [⟨some (1, ⟨1, 2, 9⟩), 0⟩, ⟨some (0, ⟨0, 0, 7⟩), 0⟩] ∧ s.HandsOutOnce := by
  obtain ⟨s, hs, hp⟩ := Machine.exists_reach_of_execOk Readers.step getsOnce
    (ofDriver runningEmpty)
    [.enter 0, .enter 1, .enqueue ⟨0, 0, 7⟩, .wake 0, .wake 1, .test 1, .test 0, .get 0,
      .enqueue ⟨1, 2, 9⟩, .get 1, .copy 1 false, .copy 0 false]
    (fun s => decide (s.returned = [⟨some (1, ⟨1, 2, 9⟩), 0⟩, ⟨some (0, ⟨0, 0, 7⟩), 0⟩]))
    (by decide)
  exact ⟨s, hs, of_decide_eq_true hp, (getbuf_hands_out_once runningEmpty s hs).1⟩

/-- Both threads have seen the same block when the first one takes it.  The second one
returns 0 with a descriptor that nobody has written. -/
theorem getbuf_returns_unwritten_block :
    ∃ s : Readers, Machine.Reach Readers.step (fun _ _ => True) (ofDriver runningEmpty) s ∧
      s.running = true ∧ (⟨none, 0⟩ : GetbufCall) ∈ s.returned ∧ ¬s.HandsOutOnce := by
  obtain ⟨s, hs, hp⟩ := Machine.exists_reach_of_execOk Readers.step (fun _ _ => True)
    (ofDriver runningEmpty)
    [.enter 0, .enter 1, .enqueue ⟨0, 0, 7⟩, .wake 0, .wake 1, .test 0, .test 1, .get 0,
      .get 1, .copy 1 false]
    (fun s => decide (s.running = true ∧ (⟨none, 0⟩ : GetbufCall) ∈ s.returned))
    (by decide)
  obtain ⟨hrun, hmem⟩ := of_decide_eq_true hp
  refine ⟨s, hs, hrun, hmem, fun h => ?_⟩
  obtain ⟨n, db, hentry, -, -⟩ := h.enqueued _ hmem rfl
  cases hentry

end Readers
end WzXdma
