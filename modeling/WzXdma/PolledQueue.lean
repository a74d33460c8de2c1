import WzXdma.Data
import WzXdma.Lib.Machine
import Mathlib.Data.List.Nodup

/-!
# The queue of a polled engine

Calls of `transfer_data` come one after the other, and the device may show any status, count
and writeback.  A transfer that was taken off the engine is destroyed, so what matters is that
it is not on the list any more and that the engine was not started with it again.

All transfers on the list are live and submitted, and every routine keeps that, with one
exception: `engine_err_handle` marks the first transfer as failed and leaves it on the list.
-/

namespace WzXdma

open Lib

/-! ## What a service keeps -/

namespace Polled

/-- What the queue looks like between the routines. -/
structure QueueInv (p : Polled) : Prop where
  live : ∀ t ∈ p.engine.transferList,
    ∃ transfer, p.kern.transfers t = some transfer ∧ transfer.state = .submitted
  nodup : p.engine.transferList.Nodup
  fresh : ∀ t, p.kern.next ≤ t → p.kern.transfers t = none

variable {p p' : Polled}

/-- Everything else about the engine and its writeback does not matter. -/
theorem QueueInv.of_same (h : QueueInv p) (hlist : p'.engine.transferList = p.engine.transferList)
    (hkern : p'.kern = p.kern) : QueueInv p' := by
  refine ⟨?_, ?_, ?_⟩
  · rw [hlist, hkern]
    exact h.live
  · rw [hlist]
    exact h.nodup
  · rw [hkern]
    exact h.fresh

/-- The first transfer is taken off the list, whatever its state becomes. -/
theorem QueueInv.pop (h : QueueInv p) {t : Nat} {rest : List Nat}
    (hlist : p.engine.transferList = t :: rest) (hlist' : p'.engine.transferList = rest)
    {state : TransferState} (hkern : p'.kern = p.kern.setState t state) : QueueInv p' := by
  have hnodup := h.nodup
  rw [hlist, List.nodup_cons] at hnodup
  refine ⟨?_, ?_, ?_⟩
  · intro x hx
    rw [hlist'] at hx
    have hne : x ≠ t := fun e => hnodup.1 (e ▸ hx)
    rw [hkern, Kernel.setState_of_ne hne]
    exact h.live x (hlist ▸ List.mem_cons_of_mem t hx)
  · rw [hlist']
    exact hnodup.2
  · intro x hx
    rw [hkern] at hx ⊢
    exact Kernel.setState_none (h.fresh x hx) state

theorem engineStart_same (p : Polled) :
    p.engineStart.1.engine.transferList = p.engine.transferList ∧ p.engineStart.1.kern = p.kern ∧
      (p.engineStart.1.starts = p.starts ∨
        ∃ t ∈ p.engine.transferList, p.engineStart.1.started = some t) := by
  rcases p.engineStart_cases with ⟨e, herr⟩ | ⟨t, ht, q, -, hok, hstarted⟩
  · rw [herr]
    exact ⟨rfl, rfl, .inl rfl⟩
  · rw [hok]
    exact ⟨hstarted.transferList, hstarted.kern, .inr ⟨t, ht, hstarted.started⟩⟩

theorem QueueInv.engineStart (h : QueueInv p) : QueueInv p.engineStart.1 :=
  h.of_same (engineStart_same p).1 (engineStart_same p).2.1

/-- The transfers that are done are taken off one after the other. -/
theorem QueueInv.transferList (list : List Nat) (h : QueueInv p)
    (hlist : p.engine.transferList = list) (n : Nat) :
    QueueInv (engineServiceTransferList list p n).1 := by
  induction list generalizing p n with
  | nil => exact h
  | cons t rest ih =>
      rw [engineServiceTransferList]
      split
      · exact h
      · split
        · exact ih (h.pop hlist rfl rfl) rfl _
        · exact h

/-- The list is walked without a look at the engine. -/
theorem transferList_frame (list : List Nat) (p : Polled) (n : Nat) :
    (engineServiceTransferList list p n).1.engine.status = p.engine.status ∧
      (engineServiceTransferList list p n).1.starts = p.starts := by
  induction list generalizing p n with
  | nil => exact ⟨rfl, rfl⟩
  | cons t rest ih =>
      rw [engineServiceTransferList]
      split
      · exact ⟨rfl, rfl⟩
      · split
        · exact ih _ _
        · exact ⟨rfl, rfl⟩

/-- Without an error the last transfer goes, too. -/
theorem QueueInv.finalTransfer (h : QueueInv p) (hstatus : p.engine.status &&& errFlags = 0)
    (n : Nat) : QueueInv (p.engineServiceFinalTransfer n).1 := by
  unfold engineServiceFinalTransfer
  split
  · exact h
  · rename_i t rest hlist
    split
    · exact h
    · rw [if_neg (fun hne => hne hstatus)]
      exact h.pop hlist rfl rfl

/-- With an error it stays on the list, as a failed one. -/
theorem finalTransfer_failed (h : QueueInv p) (hstatus : p.engine.status &&& errFlags ≠ 0) {n : Nat}
    {rc : Int} (hok : (p.engineServiceFinalTransfer n).2 = .ok rc) :
    ∃ t ∈ (p.engineServiceFinalTransfer n).1.engine.transferList, ∃ transfer,
      (p.engineServiceFinalTransfer n).1.kern.transfers t = some transfer ∧
        transfer.state = .failed := by
  unfold engineServiceFinalTransfer at hok ⊢
  split at hok
  · cases hok
  · rename_i t rest hlist
    obtain ⟨transfer, ht, -⟩ := h.live t (hlist ▸ List.mem_cons_self)
    simp only [ht] at hok ⊢
    rw [if_pos hstatus]
    refine ⟨t, ?_, { transfer with state := .failed }, ?_, rfl⟩
    · show t ∈ p.engine.transferList
      rw [hlist]
      exact List.mem_cons_self
    · exact Kernel.setState_self ht _

theorem QueueInv.dequeue (h : QueueInv p) (hstatus : p.engine.status &&& errFlags = 0) (n : Nat) :
    QueueInv (p.serviceDequeue n).1 := by
  unfold serviceDequeue
  split
  · exact h
  · rename_i t rest hlist
    have hrest := h.transferList (t :: rest) hlist n
    have hframe := transferList_frame (t :: rest) p n
    split
    · rename_i q e hq
      rw [hq] at hrest
      exact hrest
    · rename_i q m hq
      rw [hq] at hrest hframe
      exact hrest.finalTransfer (hframe.1.symm ▸ hstatus) m

theorem dequeue_failed (h : QueueInv p) (hstatus : p.engine.status &&& errFlags ≠ 0) {n : Nat}
    {rc : Int} (hok : (p.serviceDequeue n).2 = .ok rc) :
    ∃ t ∈ (p.serviceDequeue n).1.engine.transferList, ∃ transfer,
      (p.serviceDequeue n).1.kern.transfers t = some transfer ∧ transfer.state = .failed := by
  unfold serviceDequeue at hok ⊢
  split at hok
  · cases hok
  · rename_i t rest hlist
    have hrest := h.transferList (t :: rest) hlist n
    have hframe := transferList_frame (t :: rest) p n
    split at hok
    · cases hok
    · rename_i q m hq
      rw [hq] at hrest hframe
      exact finalTransfer_failed hrest (hframe.1.symm ▸ hstatus) hok

theorem finalTransfer_starts (p : Polled) (n : Nat) :
    (p.engineServiceFinalTransfer n).1.starts = p.starts := by
  unfold engineServiceFinalTransfer
  split
  · rfl
  · split
    · rfl
    · split <;> rfl

theorem dequeue_starts (p : Polled) (n : Nat) : (p.serviceDequeue n).1.starts = p.starts := by
  unfold serviceDequeue
  split
  · rfl
  · rename_i t rest hlist
    have hframe := transferList_frame (t :: rest) p n
    split
    · rename_i q e hq
      rw [hq] at hframe
      exact hframe.2
    · rename_i q m hq
      rw [hq] at hframe
      exact (finalTransfer_starts q m).trans hframe.2

/-- The restart leaves the queue alone, and takes its transfer from there. -/
theorem resume_same (p : Polled) :
    p.engineServiceResume.1.engine.transferList = p.engine.transferList ∧
      p.engineServiceResume.1.kern = p.kern ∧
      (p.engineServiceResume.1.starts = p.starts ∨
        ∃ t ∈ p.engine.transferList, p.engineServiceResume.1.started = some t) := by
  unfold engineServiceResume
  split
  · exact ⟨rfl, rfl, .inl rfl⟩
  · split
    · exact ⟨rfl, rfl, .inl rfl⟩
    · split
      · exact ⟨rfl, rfl, .inl rfl⟩
      · exact engineStart_same p

theorem serviceStop_same (p : Polled) (wb : Word) (hw : ServiceHw) :
    (p.serviceStop wb hw).engine.transferList = p.engine.transferList ∧
      (p.serviceStop wb hw).kern = p.kern ∧ (p.serviceStop wb hw).starts = p.starts ∧
      (p.serviceStop wb hw).engine.status = p.serviceStatus wb hw := by
  unfold serviceStop
  dsimp only
  split <;> exact ⟨rfl, rfl, rfl, rfl⟩

/-- A service of a running engine: the transfers are dequeued, and unless that crashes the
writeback is cleared and the engine restarted. -/
theorem engineService_cases (hrun : p.engine.running = true) (wb : Word) (hw : ServiceHw) :
    let d := (p.serviceStop wb hw).serviceDequeue ((p.serviceStop wb hw).serviceCompleted wb hw)
    (∃ e, d.2 = .error e ∧ p.engineService wb hw = (d.1, .error e)) ∨
      ∃ rc, d.2 = .ok rc ∧
        (p.engineService wb hw).1 = ({ d.1 with wb := 0 } : Polled).engineServiceResume.1 := by
  intro d
  unfold engineService
  rw [if_neg (by rw [hrun]; decide)]
  dsimp only
  split
  · rename_i q e hq
    have hd : d = (q, .error e) := hq
    exact .inl ⟨e, by rw [hd], by rw [hd]⟩
  · rename_i q rc hq
    have hd : d = (q, .ok rc) := hq
    refine .inr ⟨rc, by rw [hd], ?_⟩
    rw [hd]
    split <;> rename_i hres <;> rw [hres]

theorem engineService_stopped (hrun : p.engine.running = false) (wb : Word) (hw : ServiceHw) :
    (p.engineService wb hw).1.engine.transferList = p.engine.transferList ∧
      (p.engineService wb hw).1.kern = p.kern ∧ (p.engineService wb hw).1.starts = p.starts := by
  unfold engineService
  rw [if_pos hrun]
  dsimp only
  split <;> exact ⟨rfl, rfl, rfl⟩

theorem QueueInv.service (h : QueueInv p) (wb : Word) (hw : ServiceHw)
    (hstatus : p.engine.running = true → p.serviceStatus wb hw &&& errFlags = 0) :
    QueueInv (p.engineService wb hw).1 := by
  cases hrun : p.engine.running with
  | false =>
      obtain ⟨hlist, hkern, -⟩ := engineService_stopped hrun wb hw
      exact h.of_same hlist hkern
  | true =>
      obtain ⟨hlist, hkern, -, hst⟩ := serviceStop_same p wb hw
      have hdeq := (h.of_same hlist hkern).dequeue (hst.symm ▸ hstatus hrun)
        ((p.serviceStop wb hw).serviceCompleted wb hw)
      rcases engineService_cases hrun wb hw with ⟨e, -, heq⟩ | ⟨rc, -, heq⟩
      · rw [heq]
        exact hdeq
      · rw [heq]
        have hclear : QueueInv { ((p.serviceStop wb hw).serviceDequeue
            ((p.serviceStop wb hw).serviceCompleted wb hw)).1 with wb := 0 } := hdeq.of_same rfl rfl
        exact hclear.of_same (resume_same _).1 (resume_same _).2.1

/-- If the service starts the engine, then with a transfer that is on the list. -/
theorem service_resumed (p : Polled) (wb : Word) (hw : ServiceHw) :
    (p.engineService wb hw).1.starts = p.starts ∨
      ∃ t ∈ (p.engineService wb hw).1.engine.transferList,
        (p.engineService wb hw).1.started = some t := by
  cases hrun : p.engine.running with
  | false => exact .inl (engineService_stopped hrun wb hw).2.2
  | true =>
      have hstarts := (dequeue_starts (p.serviceStop wb hw)
        ((p.serviceStop wb hw).serviceCompleted wb hw)).trans (serviceStop_same p wb hw).2.2.1
      rcases engineService_cases hrun wb hw with ⟨e, -, heq⟩ | ⟨rc, -, heq⟩
      · rw [heq]
        exact .inl hstarts
      · rw [heq]
        obtain ⟨hlist, -, hres⟩ := resume_same ({ ((p.serviceStop wb hw).serviceDequeue
          ((p.serviceStop wb hw).serviceCompleted wb hw)).1 with wb := 0 } : Polled)
        rw [hlist]
        rcases hres with hres | hres
        · exact .inl (hres.trans hstarts)
        · exact .inr hres

/-- A service with an error leaves a failed transfer on the list. -/
theorem service_failed (h : QueueInv p) (hrun : p.engine.running = true) {wb : Word}
    {hw : ServiceHw} (hstatus : p.serviceStatus wb hw &&& errFlags ≠ 0) {rc : Int}
    (hok : (p.engineService wb hw).2 = .ok rc) :
    ∃ t ∈ (p.engineService wb hw).1.engine.transferList, ∃ transfer,
      (p.engineService wb hw).1.kern.transfers t = some transfer ∧ transfer.state = .failed := by
  obtain ⟨hlist, hkern, -, hst⟩ := serviceStop_same p wb hw
  rcases engineService_cases hrun wb hw with ⟨e, -, heq⟩ | ⟨rc', hd, heq⟩
  · rw [heq] at hok
    cases hok
  · rw [heq, (resume_same _).1, (resume_same _).2.1]
    exact dequeue_failed (h.of_same hlist hkern) (hst.symm ▸ hstatus) hd

/-- A new transfer is queued. -/
theorem QueueInv.queue (h : QueueInv p) {k : Kernel} {t : Nat} {transfer : XdmaTransfer}
    (hold : p.kern.next ≤ t) (hnew : t < k.next)
    (hk : k.transfers = Function.update p.kern.transfers t (some transfer)) :
    QueueInv ((p.setKern k).transferQueue t).1 := by
  have hdead : t ∉ p.engine.transferList := by
    intro hmem
    obtain ⟨transfer', ht, -⟩ := h.live t hmem
    rw [h.fresh t hold] at ht
    cases ht
  have hother : ∀ x, x ≠ t → k.transfers x = p.kern.transfers x := by
    intro x hx
    rw [hk, Function.update_of_ne hx]
  have hcreated : QueueInv (p.setKern k) := by
    refine ⟨fun x hx => ?_, h.nodup, fun x hx => ?_⟩
    · have hne : x ≠ t := fun e => hdead (e ▸ hx)
      show ∃ transfer, k.transfers x = some transfer ∧ _
      rw [hother x hne]
      exact h.live x hx
    · have hx' : k.next ≤ x := hx
      show k.transfers x = none
      rw [hother x (by omega)]
      exact h.fresh x (by omega)
  have ht : (p.setKern k).kern.transfers t = some transfer := by
    show k.transfers t = some transfer
    rw [hk, Function.update_self]
  unfold transferQueue
  rw [ht]
  dsimp only
  split
  · exact hcreated
  · split
    · exact hcreated
    · have hqueued : QueueInv (((p.setKern k).setKern (k.setState t .submitted)).setEngine
          { p.engine with transferList := p.engine.transferList ++ [t] }) := by
        refine ⟨fun x hx => ?_, ?_, fun x hx => ?_⟩
        · rcases List.mem_append.mp hx with hx | hx
          · have hne : x ≠ t := fun e => hdead (e ▸ hx)
            show ∃ transfer, (k.setState t .submitted).transfers x = some transfer ∧ _
            rw [Kernel.setState_of_ne hne, hother x hne]
            exact h.live x hx
          · rw [List.mem_singleton.mp hx]
            exact ⟨_, Kernel.setState_self ht .submitted, rfl⟩
        · exact List.nodup_append.mpr ⟨h.nodup, List.nodup_singleton t,
            fun a ha b hb hab => hdead (List.mem_singleton.mp hb ▸ hab ▸ ha)⟩
        · exact Kernel.setState_none (hcreated.fresh x hx) .submitted
      split
      · exact hqueued
      · exact hqueued.engineStart

end Polled

/-! ## Calls of `transfer_data` -/

/-- Where a call is. -/
inductive DataPhase
  | idle
  /-- at the head of the loop -/
  | looping
  | queued (t : Nat)
  /-- the polling returned `rc`; `resumed` is the transfer with which the service restarted the
  engine -/
  | monitored (t : Nat) (rc : Int) (resumed : Option Nat)
  | crashed
  deriving DecidableEq, Repr

structure DataRun where
  data : DataState
  phase : DataPhase

inductive DataAct
  | call (transferAddr : Nat) (remaining : Int) (pos : DmaAddr)
  | create (env : CreateEnv)
  | monitor (env : DataEnv)
  | finish (status : Word)
  | ret

namespace DataRun

def start (p : Polled) : DataRun where
  data := { polled := p, transferAddr := 0, remaining := 0, done := 0, res := 0, pos := 0, log := [] }
  phase := .idle

def call (r : DataRun) (transferAddr : Nat) (remaining : Int) (pos : DmaAddr) : Option DataRun :=
  match r.phase with
  | .idle =>
      some ⟨{ polled := r.data.polled, transferAddr := transferAddr, remaining := remaining, done := 0,
              res := 0, pos := pos, log := [] }, .looping⟩
  | _ => none

def create (r : DataRun) (env : CreateEnv) : Option DataRun :=
  match r.phase with
  | .looping =>
      if r.data.res = 0 ∧ 0 < r.data.remaining then
        match r.data.submit env with
        | (s, .error _) => some ⟨s, .crashed⟩
        | (s, .ok none) => some ⟨s, .looping⟩
        | (s, .ok (some t)) => some ⟨s, .queued t⟩
      else none
  | _ => none

def monitor (r : DataRun) (env : DataEnv) : Option DataRun :=
  match r.phase with
  | .queued t =>
      match r.data.monitor t env with
      | (s, .error _) => some ⟨s, .crashed⟩
      | (s, .ok rc) =>
          some ⟨s, .monitored t rc
            (if s.polled.starts = r.data.polled.starts then none else s.polled.started)⟩
  | _ => none

def finish (r : DataRun) (status : Word) : Option DataRun :=
  match r.phase with
  | .monitored t rc _ =>
      match r.data.finish t rc status with
      | (s, .error _) => some ⟨s, .crashed⟩
      | (s, .ok ()) => some ⟨s, .looping⟩
  | _ => none

def ret (r : DataRun) : Option DataRun :=
  match r.phase with
  | .looping => if r.data.res = 0 ∧ 0 < r.data.remaining then none else some { r with phase := .idle }
  | _ => none

def step (r : DataRun) : DataAct → Option DataRun
  | .call transferAddr remaining pos => r.call transferAddr remaining pos
  | .create env => r.create env
  | .monitor env => r.monitor env
  | .finish status => r.finish status
  | .ret => r.ret

/-- A turn of the loop is a run of this machine. -/
theorem reach_turn {s s' : DataState} {env : DataEnv} (hgo : s.res = 0 ∧ 0 < s.remaining)
    (h : s.turn env = (s', .ok ())) :
    Machine.Reach step (fun _ _ => True) ⟨s, .looping⟩ ⟨s', .looping⟩ := by
  unfold DataState.turn at h
  split at h
  · cases h
  · rename_i s₁ hsubmit
    cases h
    refine .next .start trivial (a := .create env.create) ?_
    simp only [step, create, if_pos hgo, hsubmit]
  · rename_i s₁ t hsubmit
    have hcreate : Machine.Reach step (fun _ _ => True) ⟨s, .looping⟩ ⟨s₁, .queued t⟩ := by
      refine .next .start trivial (a := .create env.create) ?_
      simp only [step, create, if_pos hgo, hsubmit]
    split at h
    · cases h
    · rename_i s₂ rc hmonitor
      have hmon : Machine.Reach step (fun _ _ => True) ⟨s, .looping⟩ ⟨s₂, .monitored t rc
          (if s₂.polled.starts = s₁.polled.starts then none else s₂.polled.started)⟩ := by
        refine .next hcreate trivial (a := .monitor env) ?_
        simp only [step, monitor, hmonitor]
      refine .next hmon trivial (a := .finish env.status) ?_
      simp only [step, finish, h]

/-! ## No queued transfer is destroyed -/

/-- The transfers on the list are live and submitted, and a transfer that is about to be destroyed
is neither on the list nor the one the engine was restarted with. -/
structure QueueSafe (r : DataRun) : Prop where
  live : ∀ t ∈ r.data.polled.engine.transferList,
    ∃ transfer, r.data.polled.kern.transfers t = some transfer ∧ transfer.state = .submitted
  destroyed : ∀ t rc resumed transfer, r.phase = .monitored t rc resumed →
    r.data.polled.kern.transfers t = some transfer → transfer.state ≠ .submitted →
    t ∉ r.data.polled.engine.transferList ∧ resumed ≠ some t

/-- The polling for transfer `t` ends in a service of the running engine that sees an error in the
status. -/
def seesError (p : Polled) (t : Nat) (env : DataEnv) : Bool :=
  match p.kern.transfers t with
  | none => false
  | some transfer =>
      let expected := BitVec.ofNat 32 transfer.descNum
      p.engine.running && (expected &&& wbCountMask == expected) &&
        (p.serviceStatus (Polled.engineServiceWbMonitor expected env.reads) env.hw &&& errFlags != 0)

/-- No service sees an error. -/
def noErrorSeen (r : DataRun) : DataAct → Prop
  | .monitor env =>
      match r.phase with
      | .queued t => seesError r.data.polled t env = false
      | _ => True
  | _ => True

instance (r : DataRun) (a : DataAct) : Decidable (r.noErrorSeen a) :=
  match a with
  | .monitor env => by
      unfold noErrorSeen
      cases r.phase <;> exact inferInstance
  | .call _ _ _ | .create _ | .finish _ | .ret => .isTrue trivial

structure Inv (r : DataRun) : Prop where
  queue : r.data.polled.QueueInv
  resumed : ∀ t rc h, r.phase = .monitored t rc (some h) → h ∈ r.data.polled.engine.transferList

variable {r r' : DataRun}

theorem Inv.queueSafe (h : r.Inv) : r.QueueSafe := by
  refine ⟨h.queue.live, fun t rc resumed transfer hphase ht hstate => ?_⟩
  have hnot : t ∉ r.data.polled.engine.transferList := by
    intro hmem
    obtain ⟨transfer', ht', hsub⟩ := h.queue.live t hmem
    rw [ht, Option.some.injEq] at ht'
    exact hstate (ht' ▸ hsub)
  refine ⟨hnot, ?_⟩
  rintro rfl
  exact hnot (h.resumed t rc t hphase)

/-- What the polling does to the engine is a service, or nothing. -/
theorem transferMonitor_cases {p : Polled} {t : Nat} {transfer : XdmaTransfer}
    (ht : p.kern.transfers t = some transfer) (reads : List Word) (hw : ServiceHw) :
    BitVec.ofNat 32 transfer.descNum &&& wbCountMask ≠ BitVec.ofNat 32 transfer.descNum ∧
        p.transferMonitor t reads hw = (p, .ok (-1)) ∨
      BitVec.ofNat 32 transfer.descNum &&& wbCountMask = BitVec.ofNat 32 transfer.descNum ∧
        p.transferMonitor t reads hw = p.engineService
          (Polled.engineServiceWbMonitor (BitVec.ofNat 32 transfer.descNum) reads) hw := by
  unfold Polled.transferMonitor Polled.engineServicePoll
  rw [ht]
  dsimp only
  by_cases hmask : BitVec.ofNat 32 transfer.descNum &&& wbCountMask = BitVec.ofNat 32 transfer.descNum
  · exact .inr ⟨hmask, if_neg (fun hne => hne hmask)⟩
  · exact .inl ⟨hmask, if_pos hmask⟩

theorem monitor_inv {p : Polled} (h : p.QueueInv) {t : Nat} {env : DataEnv}
    (hok : seesError p t env = false) :
    (p.transferMonitor t env.reads env.hw).1.QueueInv := by
  cases ht : p.kern.transfers t with
  | none =>
      unfold Polled.transferMonitor
      rw [ht]
      exact h
  | some transfer =>
      rcases transferMonitor_cases ht env.reads env.hw with ⟨-, heq⟩ | ⟨hmask, heq⟩
      · rw [heq]
        exact h
      · rw [heq]
        refine h.service _ _ fun hrun => ?_
        simpa [seesError, ht, hrun, hmask] using hok

/-- An engine that the polling started was started with a transfer on the list. -/
theorem monitor_resumed (p : Polled) (t : Nat) (reads : List Word) (hw : ServiceHw) :
    (p.transferMonitor t reads hw).1.starts = p.starts ∨
      ∃ x ∈ (p.transferMonitor t reads hw).1.engine.transferList,
        (p.transferMonitor t reads hw).1.started = some x := by
  cases ht : p.kern.transfers t with
  | none =>
      unfold Polled.transferMonitor
      rw [ht]
      exact .inl rfl
  | some transfer =>
      rcases transferMonitor_cases ht reads hw with ⟨-, heq⟩ | ⟨-, heq⟩
      · rw [heq]
        exact .inl rfl
      · rw [heq]
        exact Polled.service_resumed p _ hw

theorem monitor_polled (s : DataState) (t : Nat) (env : DataEnv) :
    (s.monitor t env).1.polled = (s.polled.transferMonitor t env.reads env.hw).1 ∧
      (s.monitor t env).2 = (s.polled.transferMonitor t env.reads env.hw).2 := by
  unfold DataState.monitor
  split <;> rename_i hm <;> rw [hm] <;> exact ⟨rfl, rfl⟩

theorem Inv.monitor (h : r.Inv) {env : DataEnv} (hok : r.noErrorSeen (.monitor env))
    (hstep : r.monitor env = some r') : r'.Inv := by
  unfold DataRun.monitor at hstep
  split at hstep
  · rename_i t hphase
    have hsees : seesError r.data.polled t env = false := by
      unfold noErrorSeen at hok
      rw [hphase] at hok
      exact hok
    have hpolled := (monitor_polled r.data t env).1
    have hqueue := monitor_inv h.queue hsees
    have hres := monitor_resumed r.data.polled t env.reads env.hw
    rw [← hpolled] at hqueue hres
    split at hstep
    · rename_i s e hm
      cases hstep
      rw [hm] at hqueue
      exact ⟨hqueue, fun _ _ _ hphase' => nomatch hphase'⟩
    · rename_i s rc hm
      cases hstep
      rw [hm] at hqueue hres
      refine ⟨hqueue, fun t' rc' x hphase' => ?_⟩
      simp only [DataPhase.monitored.injEq] at hphase'
      obtain ⟨-, -, hx⟩ := hphase'
      split at hx
      · cases hx
      · rename_i hne
        obtain ⟨y, hmem, hy⟩ := hres.resolve_left hne
        rw [hx] at hy
        cases hy
        exact hmem
  · cases hstep

/-- What `submit` leaves in the engine. -/
theorem submit_inv {s : DataState} (h : s.polled.QueueInv) (env : CreateEnv) :
    (s.submit env).1.polled.QueueInv := by
  unfold DataState.submit
  split
  · exact h
  · rename_i k hcreate
    rcases transferCreate_transfers hcreate with ⟨-, rfl⟩ | ⟨t, _, ht, _⟩
    · exact h.of_same rfl rfl
    · cases ht
  · rename_i k t hcreate
    rcases transferCreate_transfers hcreate with ⟨ht, -⟩ | ⟨t', transfer, ht, hold, hnew, hk⟩
    · cases ht
    · cases ht
      have hqueue := h.queue hold hnew hk
      split <;> rename_i hq <;> rw [hq] at hqueue <;> exact hqueue

theorem Inv.create (h : r.Inv) {env : CreateEnv} (hstep : r.create env = some r') : r'.Inv := by
  unfold DataRun.create at hstep
  split at hstep
  · split at hstep
    · have hqueue := submit_inv h.queue env
      split at hstep <;> rename_i hs <;> rw [hs] at hqueue <;> cases hstep <;>
        exact ⟨hqueue, fun _ _ _ hphase => nomatch hphase⟩
    · cases hstep
  · cases hstep

/-- The transfer that is destroyed is not on the list. -/
theorem finish_inv {s : DataState} (h : s.polled.QueueInv) {t : Nat} (rc : Int) (status : Word) :
    (s.finish t rc status).1.polled.QueueInv := by
  unfold DataState.finish
  split
  · exact h
  · rename_i transfer ht
    split
    · rename_i hstate
      split
      · exact h
      · rename_i k hk
        obtain ⟨htransfers, hnext⟩ := transferDestroy_transfers hk
        show (s.polled.setKern k).QueueInv
        refine ⟨fun x hx => ?_, h.nodup, fun x hx => ?_⟩
        · obtain ⟨transfer', ht', hsub⟩ := h.live x hx
          have hne : x ≠ t := by
            rintro rfl
            rw [ht, Option.some.injEq] at ht'
            exact hstate (ht' ▸ hsub)
          refine ⟨transfer', ?_, hsub⟩
          show k.transfers x = some transfer'
          rw [htransfers, Function.update_of_ne hne, ht']
        · have hx' : k.next ≤ x := hx
          show k.transfers x = none
          rw [htransfers]
          by_cases hxt : x = t
          · rw [hxt, Function.update_self]
          · rw [Function.update_of_ne hxt]
            exact h.fresh x (by omega)
    · split
      · exact h.of_same rfl rfl
      · exact h.of_same rfl rfl

theorem Inv.step (h : r.Inv) {a : DataAct} (hok : r.noErrorSeen a) (hstep : r.step a = some r') :
    r'.Inv := by
  cases a with
  | call transferAddr remaining pos =>
      simp only [DataRun.step, call] at hstep
      split at hstep
      · cases hstep
        exact ⟨h.queue, fun _ _ _ hphase => nomatch hphase⟩
      · cases hstep
  | create env => exact h.create hstep
  | monitor env => exact h.monitor hok hstep
  | finish status =>
      simp only [DataRun.step, finish] at hstep
      split at hstep
      · rename_i t rc resumed hphase
        have hqueue := finish_inv h.queue (t := t) rc status
        split at hstep <;> rename_i hf <;> rw [hf] at hqueue <;> cases hstep <;>
          exact ⟨hqueue, fun _ _ _ hphase => nomatch hphase⟩
      · cases hstep
  | ret =>
      simp only [DataRun.step, ret] at hstep
      split at hstep
      · split at hstep
        · cases hstep
        · cases hstep
          exact ⟨h.queue, fun _ _ _ hphase => nomatch hphase⟩
      · cases hstep

theorem inv_start (streaming dirToDev nonIncrAddr : Bool) :
    (start (.created streaming dirToDev nonIncrAddr)).Inv :=
  ⟨⟨fun _ h => (nomatch h), List.nodup_nil, fun _ _ => rfl⟩, fun _ _ _ h => (nomatch h)⟩

/-- After a service that saw an error a failed transfer is on the list. -/
theorem not_queueSafe_of_error (h : r.Inv) {env : DataEnv} (herr : ¬r.noErrorSeen (.monitor env))
    (hstep : r.monitor env = some r') (hcrash : r'.phase ≠ .crashed) : ¬r'.QueueSafe := by
  unfold DataRun.monitor at hstep
  split at hstep
  · rename_i t hphase
    unfold noErrorSeen at herr
    rw [hphase] at herr
    have hsees : seesError r.data.polled t env = true := by simpa using herr
    obtain ⟨hpolled, hout⟩ := monitor_polled r.data t env
    split at hstep
    · cases hstep
      exact absurd rfl hcrash
    · rename_i s rc hm
      cases hstep
      rw [hm] at hpolled hout
      intro hsafe
      cases ht : r.data.polled.kern.transfers t with
      | none => simp [seesError, ht] at hsees
      | some transfer =>
          simp only [seesError, ht, Bool.and_eq_true, beq_iff_eq, bne_iff_ne] at hsees
          obtain ⟨⟨hrun, hmask⟩, hflags⟩ := hsees
          rcases transferMonitor_cases ht env.reads env.hw with ⟨hne, -⟩ | ⟨-, heq⟩
          · exact hne hmask
          · rw [heq] at hpolled hout
            obtain ⟨x, hmem, transfer', hx, hfailed⟩ :=
              Polled.service_failed h.queue hrun hflags hout.symm
            rw [← hpolled] at hmem hx
            obtain ⟨transfer'', hx', hsub⟩ := hsafe.live x hmem
            rw [hx, Option.some.injEq] at hx'
            rw [← hx', hfailed] at hsub
            cases hsub
  · cases hstep

/-- In every sequence of calls, and for all values the device can show, a transfer is off the list
when it is destroyed, as long as no service sees an error in the status.  The second part says
that this is what it takes: a service that sees one and returns leaves the queue with a failed
transfer. -/
theorem polled_destroys_only_dequeued (streaming dirToDev nonIncrAddr : Bool) (r : DataRun)
    (hr : Machine.Reach DataRun.step noErrorSeen
      (start (.created streaming dirToDev nonIncrAddr)) r) :
    r.QueueSafe ∧
      ∀ env r', r.step (.monitor env) = some r' → r'.phase ≠ .crashed →
        (r'.QueueSafe ↔ r.noErrorSeen (.monitor env)) := by
  have hinv : r.Inv := hr.invariant (P := Inv) (inv_start streaming dirToDev nonIncrAddr)
    (fun _ _ _ _ hP hok hstep => hP.step hok hstep)
  refine ⟨hinv.queueSafe, fun env r' hstep hcrash => ⟨fun hsafe => ?_, fun hok => ?_⟩⟩
  · by_contra herr
    exact not_queueSafe_of_error hinv herr hstep hcrash hsafe
  · exact (hinv.step hok hstep).queueSafe

/-- The first transfer times out half-way and fails, the second one completes. -/
theorem polled_destroys_only_dequeued_twice :
    ∃ r, Machine.Reach DataRun.step noErrorSeen (start .idle) r ∧
      r.phase = .monitored 3 0 none ∧ r.QueueSafe := by
  obtain ⟨r, hr, hp⟩ := Machine.exists_reach_of_execOk DataRun.step noErrorSeen (start .idle)
    [.call 0 4096 0, .create (dataGranted (fun _ => 0x5000) 1).create,
      .monitor (dataGranted (fun _ => 0x5000) 0), .finish 0, .ret,
      .call 0 4096 0, .create (dataGranted (fun _ => 0x5000) 1).create,
      .monitor (dataGranted (fun _ => 0x5000) 1)]
    (fun r => decide (r.phase = .monitored 3 0 none)) (by decide +kernel)
  exact ⟨r, hr, of_decide_eq_true hp, (polled_destroys_only_dequeued false false false r hr).1⟩

/-- The device stops on a descriptor with a bad magic number.  The failed transfer stays on the
list, the engine is started with it again, and it is destroyed next. -/
theorem polled_destroys_queued_transfer :
    ∃ r, Machine.Reach DataRun.step (fun _ _ => True) (start .idle) r ∧
      r.phase = .monitored 1 (-1) (some 1) ∧ r.data.polled.engine.transferList = [1] ∧
      (r.data.polled.kern.transfers 1).map XdmaTransfer.state = some .failed ∧ ¬r.QueueSafe := by
  obtain ⟨r, hr, hp⟩ := Machine.exists_reach_of_execOk DataRun.step (fun _ _ => True) (start .idle)
    [.call 0 4096 0, .create (dataGranted (fun _ => 0x5000) 1).create,
      .monitor { dataGranted (fun _ => 0x5000) 1 with
        reads := [wbErrMask], hw := ⟨xdmaStatMagicStopped, 0⟩ }]
    (fun r => decide (r.phase = .monitored 1 (-1) (some 1) ∧
      r.data.polled.engine.transferList = [1] ∧
      (r.data.polled.kern.transfers 1).map XdmaTransfer.state = some .failed)) (by decide +kernel)
  obtain ⟨hphase, hlist, hstate⟩ := of_decide_eq_true hp
  refine ⟨r, hr, hphase, hlist, hstate, fun hsafe => ?_⟩
  obtain ⟨transfer, ht, hfailed⟩ := Option.map_eq_some_iff.mp hstate
  have hne : transfer.state ≠ .submitted := by
    rw [hfailed]
    decide
  exact (hsafe.destroyed 1 (-1) (some 1) transfer hphase ht hne).2 rfl

end DataRun
end WzXdma
