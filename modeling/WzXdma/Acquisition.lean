import WzXdma.Pointers

/-!
# A running acquisition

The device, the interrupt scan and the application work on the ring at the same
time, and this machine lets their steps interleave: one completed descriptor, one
32-bit word written by a `CONFIRM` in progress, one iteration of the scan loop, one
block taken by `GETBUF`.  Any number of threads may be inside `CONFIRM`.

A scan iteration is `scanMove` and `BlockScan.apply`, which the service routine runs
in a loop, and a restored word is one assignment of `restoreOrder`, which
`ioctl_do_wz_confirm` performs in a row.

The memory of the buffers is addressed by physical address; `bus` is the translation
of the bus addresses that the device uses.
-/

namespace WzXdma

open Lib.Cyclic

/-- A descriptor that the device completed: what its writeback says, and the bytes
that went into the buffer. -/
structure Completion where
  eop : Bool
  length : Word
  data : List Byte
  deriving DecidableEq, Repr

/-- A `CONFIRM` in progress: the descriptor it restores, the last one of its range,
and how many words of the current one are written. -/
structure ConfirmCall where
  cur : Nat
  last : Nat
  word : Nat
  deriving DecidableEq, Repr

/-- The call after the word it is about to write. -/
def ConfirmCall.next (c : WzConsts) (call : ConfirmCall) : Option ConfirmCall :=
  if call.word + 1 < restoreOrder.length then some { call with word := call.word + 1 }
  else if call.cur = call.last then none
  else some ⟨nextDesc c.nofbufs call.cur, call.last, 0⟩

/-- The state of an acquisition.  The fields from `done` on are history. -/
structure Acq extends BlockScan where
  desc : Nat → XdmaDesc
  descCopy : Nat → XdmaDesc
  kfifoSize : Nat
  mem : Nat → Byte
  /-- the ring position of the device -/
  pos : Nat
  /-- the device met a descriptor that it did not accept -/
  stopped : Bool
  /-- `check_desc` of the scan in progress -/
  scan : Option Nat
  /-- the calls of `CONFIRM` in progress, by thread -/
  confirms : Nat → Option ConfirmCall
  done : List Completion
  put : List WzXdmaDataBlockDesc
  got : List WzXdmaDataBlockDesc
  /-- how many calls of `CONFIRM` have begun -/
  confirmed : Nat
  /-- completed, and the control word not restored yet -/
  unconfirmed : Nat → Bool
  /-- the last descriptor of a block that was reported since it was completed -/
  reported : Nat → Bool
  /-- a block was reported although its last descriptor had been reported before -/
  repeated : Bool

/-- The steps. -/
inductive AcqAct
  | device (x : Completion)
  | confirm (thread first last : Nat)
  | restore (thread : Nat)
  | scanBegin
  | scanIter
  | getbuf
  deriving DecidableEq, Repr

/-- The bytes of a completed descriptor land in memory. -/
def storeBytes (bus : DmaAddr → Nat) : DmaAddr → List Byte → (Nat → Byte) → Nat → Byte
  | _, [], mem => mem
  | addr, b :: bs, mem => storeBytes bus (addr + 1) bs (Function.update mem (bus addr) b)

namespace Acq

/-- The state right after `START`. -/
def ofDriver (d : Driver) (mem : Nat → Byte) : Acq where
  toBlockScan := d.ext.toBlockScan
  desc := fun i => (d.ringDesc i).getD .zero
  descCopy := fun i => (d.copyDesc i).getD .zero
  kfifoSize := d.ext.kfifoSize
  mem := mem
  pos := 0
  stopped := false
  scan := none
  confirms := fun _ => none
  done := []
  put := []
  got := []
  confirmed := 0
  unconfirmed := fun _ => false
  reported := fun _ => false
  repeated := false

/-- The device fills the buffer of the descriptor it accepted, overwrites the
descriptor with its writeback and moves on. -/
def complete (c : WzConsts) (bus : DmaAddr → Nat) (x : Completion) (s : Acq) : Acq :=
  { s with
    desc := Function.update s.desc s.pos ((s.desc s.pos).writeback x.eop x.length)
    mem := storeBytes bus (s.desc s.pos).dst x.data s.mem
    pos := (s.pos + 1) % c.nofbufs
    done := s.done ++ [x]
    unconfirmed := Function.update s.unconfirmed s.pos true
    reported := Function.update s.reported s.pos false }

/-- The device fetches its next descriptor. -/
def device (c : WzConsts) (bus : DmaAddr → Nat) (x : Completion) (s : Acq) : Option Acq :=
  if s.stopped then none
  else if (s.desc s.pos).Accepted then some (s.complete c bus x)
  else some { s with stopped := true }

/-- `CONFIRM` is entered with both numbers in range. -/
def confirm (c : WzConsts) (thread first last : Nat) (s : Acq) : Option Acq :=
  if s.confirms thread = none ∧ first < c.nofbufs ∧ last < c.nofbufs then
    some { s with
      confirms := Function.update s.confirms thread (some ⟨first, last, 0⟩)
      confirmed := s.confirmed + 1 }
  else none

/-- One assignment of the restore loop. -/
def restore (c : WzConsts) (thread : Nat) (s : Acq) : Option Acq :=
  match s.confirms thread with
  | none => none
  | some call =>
      match restoreOrder[call.word]? with
      | none => none
      | some w =>
          some { s with
            desc := Function.update s.desc call.cur
              ((s.desc call.cur).copyWord (s.descCopy call.cur) w)
            confirms := Function.update s.confirms thread (call.next c)
            unconfirmed :=
              if w = .control then Function.update s.unconfirmed call.cur false else s.unconfirmed }

/-- What is remembered of an iteration. -/
def record (check : Nat) (s : Acq) : ScanMove → Acq
  | .reported db =>
      { s with
        put := s.put ++ [db]
        reported := Function.update s.reported check true
        repeated := s.repeated || s.reported check }
  | _ => s

/-- One iteration of the scan loop. -/
def scanIter (c : WzConsts) (s : Acq) : Option Acq :=
  match s.scan with
  | none => none
  | some check =>
      let move := scanMove s.kfifoSize (s.desc check).toResult check s.toBlockScan
      let (b, next) := s.toBlockScan.apply c.nofbufs check move
      some { s.record check move with toBlockScan := b, scan := next }

def step (c : WzConsts) (bus : DmaAddr → Nat) (s : Acq) : AcqAct → Option Acq
  | .device x => s.device c bus x
  | .confirm thread first last => s.confirm c thread first last
  | .restore thread => s.restore c thread
  | .scanBegin => if s.scan = none then some { s with scan := some s.blockScannedDesc } else none
  | .scanIter => s.scanIter c
  | .getbuf =>
      match s.kfifo with
      | [] => none
      | db :: rest => some { s with kfifo := rest, got := s.got ++ [db] }

/-- At most `n` iterations of a scan, without other steps in between. -/
def scanRun (c : WzConsts) : Nat → Acq → Acq
  | 0, s => s
  | n + 1, s =>
      match s.scanIter c with
      | none => s
      | some s' => scanRun c n s'

/-- The scan of a service run, as far as `n` iterations take it. -/
def serviceRun (c : WzConsts) (n : Nat) (s : Acq) : Acq :=
  scanRun c n { s with scan := some s.blockScannedDesc }

/-! ## What the steps do -/

variable {c : WzConsts} {bus : DmaAddr → Nat} {s s' : Acq}

/-- An iteration of the scan touches the cursors, the FIFO and the history only. -/
theorem scanIter_frame (h : s.scanIter c = some s') :
    s'.desc = s.desc ∧ s'.descCopy = s.descCopy ∧ s'.pos = s.pos ∧ s'.mem = s.mem ∧
      s'.confirms = s.confirms ∧ s'.unconfirmed = s.unconfirmed ∧ s'.done = s.done ∧
      s'.got = s.got ∧ s'.confirmed = s.confirmed ∧ s'.kfifoSize = s.kfifoSize ∧
      s'.stopped = s.stopped := by
  unfold scanIter at h
  split at h
  · cases h
  · dsimp only at h
    rw [Option.some.injEq] at h
    subst h
    unfold record
    split <;> exact ⟨rfl, rfl, rfl, rfl, rfl, rfl, rfl, rfl, rfl, rfl, rfl⟩

/-- The device completes a descriptor or stops. -/
theorem device_cases {x : Completion} (h : s.device c bus x = some s') :
    s.stopped = false ∧
      (((s.desc s.pos).Accepted ∧ s' = s.complete c bus x) ∨
        (¬(s.desc s.pos).Accepted ∧ s' = { s with stopped := true })) := by
  unfold device at h
  split at h
  · cases h
  · rename_i hst
    refine ⟨by simpa using hst, ?_⟩
    split at h
    · exact .inl ⟨by assumption, (Option.some.inj h).symm⟩
    · exact .inr ⟨by assumption, (Option.some.inj h).symm⟩

theorem confirm_cases {thread first last : Nat} (h : s.confirm c thread first last = some s') :
    s.confirms thread = none ∧ first < c.nofbufs ∧ last < c.nofbufs ∧
      s' = { s with
        confirms := Function.update s.confirms thread (some ⟨first, last, 0⟩)
        confirmed := s.confirmed + 1 } := by
  unfold confirm at h
  split at h
  · rename_i hc
    exact ⟨hc.1, hc.2.1, hc.2.2, (Option.some.inj h).symm⟩
  · cases h

theorem restore_cases {thread : Nat} (h : s.restore c thread = some s') :
    ∃ call w, s.confirms thread = some call ∧ restoreOrder[call.word]? = some w ∧
      s' = { s with
        desc := Function.update s.desc call.cur
          ((s.desc call.cur).copyWord (s.descCopy call.cur) w)
        confirms := Function.update s.confirms thread (call.next c)
        unconfirmed :=
          if w = .control then Function.update s.unconfirmed call.cur false
          else s.unconfirmed } := by
  unfold restore at h
  split at h
  · cases h
  · rename_i call hcall
    split at h
    · cases h
    · rename_i w hw
      exact ⟨call, w, hcall, hw, (Option.some.inj h).symm⟩

theorem scanRun_succ {n : Nat} (h : s.scanIter c = some s') :
    scanRun c (n + 1) s = scanRun c n s' := by
  rw [scanRun, h]

theorem scanRun_add (m n : Nat) (s : Acq) : scanRun c (m + n) s = scanRun c n (scanRun c m s) := by
  induction m generalizing s with
  | zero => rw [Nat.zero_add, scanRun]
  | succ m ih =>
      cases hs : s.scanIter c with
      | none =>
          have hstay : ∀ k, scanRun c k s = s := fun k => by cases k <;> simp [scanRun, hs]
          rw [hstay, hstay, hstay]
      | some s' => rw [show m + 1 + n = m + n + 1 by omega, scanRun_succ hs, scanRun_succ hs, ih]

/-- The loop of the service routine is a run of iterations: from a driver whose ring and
cursors the acquisition shows, it ends exactly when they end, with the same cursors and
the same FIFO. -/
theorem scanLoop_scanRun {c : RingConsts} {d d' : Driver} {s : Acq} {fuel check : Nat}
    (hring : ∀ i, i < c.nofbufs → d.kern.derefDesc (d.ext.desc i) 0 = .ok (s.desc i))
    (hcursor : s.toBlockScan = d.ext.toBlockScan) (hsize : s.kfifoSize = d.ext.kfifoSize)
    (hscan : s.scan = some check) (hcheck : check < c.nofbufs)
    (h : Driver.scanLoop c.toWzConsts fuel check d = .ok d') :
    (scanRun c.toWzConsts fuel s).scan = none ∧
      (scanRun c.toWzConsts fuel s).toBlockScan = d'.ext.toBlockScan := by
  induction fuel generalizing check d s with
  | zero => simp [Driver.scanLoop] at h
  | succ fuel ih =>
      unfold Driver.scanLoop at h
      simp only [hring check hcheck, ← hcursor, ← hsize] at h
      split at h
      · cases h
      · cases happ : s.toBlockScan.apply c.nofbufs check
            (scanMove s.kfifoSize (s.desc check).toResult check s.toBlockScan) with
        | mk b next =>
            have hiter : s.scanIter c.toWzConsts = some
                { s.record check (scanMove s.kfifoSize (s.desc check).toResult check s.toBlockScan) with
                  toBlockScan := b, scan := next } := by
              simp only [scanIter, hscan, happ]
            rw [scanRun_succ hiter]
            simp only [happ] at h
            cases next with
            | none =>
                simp only [Except.ok.injEq] at h
                rw [← h]
                cases fuel <;> simp [scanRun, scanIter]
            | some next =>
                simp only at h
                obtain ⟨h1, h2, -, -, -, -, -, -, -, h10, -⟩ := scanIter_frame hiter
                refine ih (fun i hi => ?_) rfl ?_ rfl (Driver.apply_next_lt (congrArg Prod.snd happ)) h
                · rw [h1]
                  exact hring i hi
                · rw [h10]

/-- Nobody writes to the copies. -/
theorem step_descCopy {a : AcqAct} (h : s.step c bus a = some s') : s'.descCopy = s.descCopy := by
  cases a with
  | device x =>
      obtain ⟨-, ⟨-, rfl⟩ | ⟨-, rfl⟩⟩ := device_cases h <;> rfl
  | confirm thread first last =>
      obtain ⟨-, -, -, rfl⟩ := confirm_cases h
      rfl
  | restore thread =>
      obtain ⟨call, w, -, -, rfl⟩ := restore_cases h
      rfl
  | scanBegin =>
      simp only [step] at h
      split at h
      · exact Option.some.inj h ▸ rfl
      · cases h
  | scanIter => exact (scanIter_frame h).2.1
  | getbuf =>
      simp only [step] at h
      split at h
      · cases h
      · exact Option.some.inj h ▸ rfl

/-- The ring right after a start that returned 0. -/
theorem ofDriver_started {d d' : Driver} (h : Driver.Started c d d') (mem : Nat → Byte) {i : Nat}
    (hi : i < c.nofbufs) :
    (ofDriver d' mem).desc i = startDesc c d'.ext i ∧
      (ofDriver d' mem).descCopy i = startDesc c d'.ext i := by
  simp [ofDriver, h.ringDesc_eq hi, h.copy i hi]

theorem addr_succ (addr : DmaAddr) (k : Nat) :
    addr + 1 + BitVec.ofNat 64 k = addr + BitVec.ofNat 64 (k + 1) := by
  rw [BitVec.add_assoc, BitVec.ofNat_add, BitVec.add_comm (BitVec.ofNat 64 k)]
  rfl

/-- The bytes of a completed descriptor land where the descriptor points to. -/
theorem storeBytes_ne {addr : DmaAddr} {data : List Byte} {mem : Nat → Byte} {p : Nat}
    (h : storeBytes bus addr data mem p ≠ mem p) :
    ∃ k, k < data.length ∧ p = bus (addr + BitVec.ofNat 64 k) := by
  induction data generalizing addr mem with
  | nil => exact absurd rfl h
  | cons b bs ih =>
      by_cases hrest : storeBytes bus (addr + 1) bs (Function.update mem (bus addr) b) p =
          Function.update mem (bus addr) b p
      · refine ⟨0, by simp, ?_⟩
        simp only [storeBytes, hrest] at h
        by_contra hp
        rw [BitVec.add_zero] at hp
        exact h (Function.update_of_ne hp _ _)
      · obtain ⟨k, hk, hp⟩ := ih hrest
        refine ⟨k + 1, by simp; omega, ?_⟩
        rw [hp, addr_succ]

end Acq

/-- An acquisition that passes a test, found by evaluation. -/
theorem exists_acq_of_exec (c : WzConsts) (acts₀ : List Act) (env : StartEnv) (mem : Nat → Byte)
    (bus : DmaAddr → Nat) (ok : Acq → AcqAct → Prop) [∀ s a, Decidable (ok s a)]
    (acts : List AcqAct) (p : Acq → Bool)
    (h : ((Lib.Machine.execOk (Sys.step c) (fun _ _ => True) .created acts₀).map fun s =>
      match s.drv.ioctlDoWzStart c env with
      | .ok (d, rc) => decide (rc = 0) && (s.drv.ext.kfifo.isEmpty &&
          ((Lib.Machine.execOk (Acq.step c bus) ok (Acq.ofDriver d mem) acts).map p == some true))
      | .error _ => false) = some true) :
    ∃ (s₀ : Sys) (d : Driver) (s : Acq), s₀.Reachable c ∧ s₀.drv.ext.kfifo = [] ∧
      s₀.drv.ioctlDoWzStart c env = .ok (d, 0) ∧
      Lib.Machine.Reach (Acq.step c bus) ok (Acq.ofDriver d mem) s ∧ p s = true := by
  obtain ⟨s₀, d, hs₀, hd, hp⟩ := exists_start_of_exec _ _ _ _ h
  simp only [Bool.and_eq_true, List.isEmpty_iff, beq_iff_eq] at hp
  obtain ⟨s, hs, hps⟩ := Lib.Machine.exists_reach_of_execOk _ _ _ _ _ hp.2
  exact ⟨s₀, d, s, hs₀, hp.1, hd, hs, hps⟩

end WzXdma
