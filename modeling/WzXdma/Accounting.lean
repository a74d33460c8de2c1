import Mathlib.Data.Nat.Find
import Mathlib.Order.Bounds.Defs
import WzXdma.Polled

/-!
# Accounting for completed descriptors

The device counts descriptors and the queue consists of transfers.  A service of the engine
takes off the front of the queue what the count covers: a first routine takes all transfers but
the one in which the count ends, and a second one decides about that.
-/

namespace WzXdma

/-! ## Descriptors of a queue -/

namespace Kernel

def descNumOf (k : Kernel) (t : Nat) : Nat := ((k.transfers t).map XdmaTransfer.descNum).getD 0

/-- The number of descriptors of a queue of transfers. -/
def descSum (k : Kernel) : List Nat → Nat
  | [] => 0
  | t :: rest => k.descNumOf t + k.descSum rest

variable {k k' : Kernel}

theorem descNumOf_of_some {t : Nat} {transfer : XdmaTransfer} (ht : k.transfers t = some transfer) :
    k.descNumOf t = transfer.descNum := by
  rw [descNumOf, ht]
  rfl

theorem descSum_append (k : Kernel) (list list' : List Nat) :
    k.descSum (list ++ list') = k.descSum list + k.descSum list' := by
  induction list with
  | nil => exact (Nat.zero_add _).symm
  | cons t rest ih => rw [List.cons_append, descSum, descSum, ih, Nat.add_assoc]

theorem descSum_congr {list : List Nat} (h : ∀ t ∈ list, k'.descNumOf t = k.descNumOf t) :
    k'.descSum list = k.descSum list := by
  induction list with
  | nil => rfl
  | cons t rest ih =>
      rw [descSum, descSum, h t List.mem_cons_self, ih fun x hx => h x (List.mem_cons_of_mem t hx)]

theorem setState_transfers (k : Kernel) (t : Nat) (state : TransferState) :
    (k.setState t state).transfers t = (k.transfers t).map ({ · with state := state }) :=
  Function.update_self ..

theorem descNumOf_setState (k : Kernel) (t x : Nat) (state : TransferState) :
    (k.setState t state).descNumOf x = k.descNumOf x := by
  by_cases hx : x = t
  · subst hx
    rw [descNumOf, setState_transfers, Option.map_map]
    rfl
  · rw [descNumOf, setState_of_ne hx]
    rfl

theorem descSum_setState (k : Kernel) (t : Nat) (state : TransferState) (list : List Nat) :
    (k.setState t state).descSum list = k.descSum list :=
  descSum_congr fun x _ => descNumOf_setState k t x state

/-- All these transfers get the same state. -/
def setStates (k : Kernel) (ts : List Nat) (state : TransferState) : Kernel :=
  ts.foldl (fun k t => k.setState t state) k

theorem setStates_of_not_mem {ts : List Nat} {x : Nat} (hx : x ∉ ts) (state : TransferState) :
    (k.setStates ts state).transfers x = k.transfers x := by
  induction ts generalizing k with
  | nil => rfl
  | cons t rest ih =>
      have hne : x ≠ t := fun e => hx (e ▸ List.mem_cons_self)
      have hrest : x ∉ rest := fun h => hx (List.mem_cons_of_mem t h)
      exact (ih hrest).trans (setState_of_ne hne state)

theorem setStates_of_mem {ts : List Nat} {x : Nat} (hx : x ∈ ts) (state : TransferState) :
    (k.setStates ts state).transfers x = (k.transfers x).map ({ · with state := state }) := by
  induction ts generalizing k with
  | nil => cases hx
  | cons t rest ih =>
      -- a later assignment of the same state does not matter
      have hlater : (k.setStates (t :: rest) state).transfers x =
          ((k.setState t state).setStates rest state).transfers x := rfl
      rw [hlater]
      by_cases hrest : x ∈ rest
      · rw [ih hrest]
        by_cases hxt : x = t
        · subst hxt
          rw [setState_transfers, Option.map_map]
          rfl
        · rw [setState_of_ne hxt]
      · obtain rfl : x = t := (List.mem_cons.mp hx).resolve_right hrest
        rw [setStates_of_not_mem hrest, setState_transfers]

end Kernel

namespace Polled

/-- A queue of transfers that are alive, not cyclic and not empty. -/
structure Plain (p : Polled) : Prop where
  nodup : p.engine.transferList.Nodup
  live : ∀ t ∈ p.engine.transferList, ∃ transfer, p.kern.transfers t = some transfer ∧
    transfer.cyclic = false ∧ 1 ≤ transfer.descNum

/-! ## The loop of `engine_service_transfer_list` -/

/-- The transfers `done` were taken off the queue and `rest` are left. -/
def taken (p : Polled) (done rest : List Nat) : Polled :=
  (p.setKern (p.kern.setStates done .completed)).setEngine
    { p.engine with
      transferList := rest
      descDequeued := p.engine.descDequeued + p.kern.descSum done }

/-- One turn of the loop. -/
def takeFirst (p : Polled) (t : Nat) (rest : List Nat) : Polled :=
  (p.setKern (p.kern.setState t .completed)).setEngine
    { p.engine with
      transferList := rest
      descDequeued := p.engine.descDequeued + p.kern.descNumOf t }

theorem taken_cons (p : Polled) (t : Nat) (done rest : List Nat) :
    p.taken (t :: done) rest = (p.takeFirst t (done ++ rest)).taken done rest := by
  have hsum : (p.takeFirst t (done ++ rest)).kern.descSum done = p.kern.descSum done :=
    p.kern.descSum_setState t .completed done
  unfold taken
  rw [hsum, Kernel.descSum]
  simp only [takeFirst, setEngine, setKern, engine, kern, Kernel.setStates, List.foldl_cons,
    Nat.add_assoc]

theorem transferList_turn {p : Polled} {t : Nat} {rest : List Nat} {n : Nat} {transfer : XdmaTransfer}
    (ht : p.kern.transfers t = some transfer) (hcyclic : transfer.cyclic = false)
    (hn : p.kern.descNumOf t < n) :
    engineServiceTransferList (t :: rest) p n =
      engineServiceTransferList rest (p.takeFirst t rest) (n - p.kern.descNumOf t) := by
  rw [Kernel.descNumOf_of_some ht] at hn ⊢
  rw [engineServiceTransferList]
  simp only [ht, if_pos (And.intro hcyclic hn), takeFirst, Kernel.descNumOf_of_some ht]
  rfl

/-- The loop takes the transfers off in order, as long as the count goes beyond them. -/
theorem transferList_taken {p : Polled} {done rest : List Nat}
    (hlist : p.engine.transferList = done ++ rest)
    (hlive : ∀ t ∈ done, ∃ transfer, p.kern.transfers t = some transfer ∧ transfer.cyclic = false)
    {n : Nat} (hn : p.kern.descSum done < n) :
    engineServiceTransferList (done ++ rest) p n =
      engineServiceTransferList rest (p.taken done rest) (n - p.kern.descSum done) := by
  induction done generalizing p n with
  | nil =>
      have hp : p.taken [] rest = p := by
        rw [List.nil_append] at hlist
        rw [← hlist]
        rfl
      rw [hp]
      rfl
  | cons t done ih =>
      obtain ⟨transfer, ht, hcyclic⟩ := hlive t List.mem_cons_self
      rw [Kernel.descSum] at hn
      have hsum : (p.takeFirst t (done ++ rest)).kern.descSum done = p.kern.descSum done :=
        p.kern.descSum_setState t .completed done
      have hlive' : ∀ x ∈ done, ∃ transfer, (p.takeFirst t (done ++ rest)).kern.transfers x =
          some transfer ∧ transfer.cyclic = false := by
        intro x hx
        obtain ⟨transfer', hx', hcyclic'⟩ := hlive x (List.mem_cons_of_mem t hx)
        by_cases hxt : x = t
        · subst hxt
          exact ⟨_, Kernel.setState_self hx' .completed, hcyclic'⟩
        · exact ⟨transfer', (Kernel.setState_of_ne hxt .completed).trans hx', hcyclic'⟩
      rw [List.cons_append, transferList_turn ht hcyclic (by omega),
        ih rfl hlive' (by rw [hsum]; omega), hsum, taken_cons, Kernel.descSum, Nat.sub_sub]

/-! ## Both routines -/

/-- `engine_service_final_transfer` for the transfer in which the count ends. -/
theorem finalTransfer_of_status {p : Polled} {t : Nat} {rest : List Nat} {transfer : XdmaTransfer}
    (hlist : p.engine.transferList = t :: rest) (ht : p.kern.transfers t = some transfer)
    (hstatus : p.engine.status &&& errFlags = 0) (n : Nat) :
    p.engineServiceFinalTransfer n =
      ((p.setKern (p.kern.setState t (if n < transfer.descNum then .failed else .completed))).setEngine
        { p.engine with
          transferList := rest
          descDequeued := p.engine.descDequeued + transfer.descNum }, .ok 0) := by
  unfold engineServiceFinalTransfer
  rw [hlist]
  simp only [ht, if_neg (not_not_intro hstatus)]
  rfl

/-- With an error flag it is only marked. -/
theorem finalTransfer_of_error {p : Polled} {t : Nat} {rest : List Nat} {transfer : XdmaTransfer}
    (hlist : p.engine.transferList = t :: rest) (ht : p.kern.transfers t = some transfer)
    (hstatus : p.engine.status &&& errFlags ≠ 0) (n : Nat) :
    p.engineServiceFinalTransfer n = (p.engineErrHandle t, .ok 0) := by
  unfold engineServiceFinalTransfer
  rw [hlist]
  simp only [ht]
  exact if_pos hstatus

/-- The first `j` transfers of the queue are accounted for: the last one of them is completed if the
count ends with it. -/
structure Accounted (p : Polled) (n j : Nat) (p' : Polled) : Prop where
  engine : p'.engine = { p.engine with
    transferList := p.engine.transferList.drop j
    descDequeued := p.engine.descDequeued + p.kern.descSum (p.engine.transferList.take j) }
  completed : ∀ t ∈ p.engine.transferList.take (j - 1),
    p'.kern.transfers t = (p.kern.transfers t).map ({ · with state := .completed })
  last : ∀ t, p.engine.transferList[j - 1]? = some t →
    p'.kern.transfers t = (p.kern.transfers t).map ({ · with
      state := if p.kern.descSum (p.engine.transferList.take j) = n then .completed else .failed })
  others : ∀ t, t ∉ p.engine.transferList.take j → p'.kern.transfers t = p.kern.transfers t

/-- The state after both routines. -/
theorem accounted_of_split {p : Polled} (hq : p.Plain) {done rest : List Nat} {t : Nat}
    (hlist : p.engine.transferList = done ++ t :: rest) {transfer : XdmaTransfer}
    (ht : p.kern.transfers t = some transfer) {n : Nat} (hlt : p.kern.descSum done < n)
    (hle : n ≤ p.kern.descSum done + transfer.descNum) :
    p.Accounted n (done.length + 1) (((p.taken done (t :: rest)).setKern
      ((p.taken done (t :: rest)).kern.setState t
        (if n - p.kern.descSum done < transfer.descNum then .failed else .completed))).setEngine
      { (p.taken done (t :: rest)).engine with
        transferList := rest
        descDequeued := (p.taken done (t :: rest)).engine.descDequeued + transfer.descNum }) := by
  have hsplit : done ++ t :: rest = (done ++ [t]) ++ rest := by rw [List.append_assoc]; rfl
  have hlen : done.length + 1 = (done ++ [t]).length := by rw [List.length_append]; rfl
  have htake : p.engine.transferList.take (done.length + 1) = done ++ [t] := by
    rw [hlist, hsplit, hlen, List.take_left]
  have hdrop : p.engine.transferList.drop (done.length + 1) = rest := by
    rw [hlist, hsplit, hlen, List.drop_left]
  have hsum : p.kern.descSum (done ++ [t]) = p.kern.descSum done + transfer.descNum := by
    rw [Kernel.descSum_append, Kernel.descSum, Kernel.descNumOf_of_some ht]
    rfl
  have hnodup := hq.nodup
  rw [hlist, List.nodup_append] at hnodup
  have hnew : t ∉ done := fun hmem => hnodup.2.2 t hmem t List.mem_cons_self rfl
  refine ⟨?_, fun x hx => ?_, fun x hx => ?_, fun x hx => ?_⟩
  · rw [hdrop, htake, hsum, ← Nat.add_assoc]
    rfl
  · rw [Nat.add_sub_cancel, hlist, List.take_left] at hx
    have hne : x ≠ t := fun e => hnew (e ▸ hx)
    exact (Kernel.setState_of_ne hne _).trans (Kernel.setStates_of_mem hx .completed)
  · rw [Nat.add_sub_cancel, hlist, List.getElem?_append_right (Nat.le_refl _), Nat.sub_self,
      List.getElem?_cons_zero, Option.some.injEq] at hx
    subst hx
    have hkept : (p.taken done (t :: rest)).kern.transfers t = p.kern.transfers t :=
      Kernel.setStates_of_not_mem hnew .completed
    refine (Kernel.setState_transfers ..).trans ?_
    rw [hkept, htake, hsum]
    by_cases hend : p.kern.descSum done + transfer.descNum = n
    · rw [if_pos hend, if_neg (by omega)]
    · rw [if_neg hend, if_pos (by omega)]
  · rw [htake, List.mem_append, List.mem_singleton, not_or] at hx
    exact (Kernel.setState_of_ne hx.2 _).trans (Kernel.setStates_of_not_mem hx.1 .completed)

/-- The two routines meet at the transfer in which the count ends. -/
theorem accounts_of_split {p : Polled} (hq : p.Plain) (hstatus : p.engine.status &&& errFlags = 0)
    {done rest : List Nat} {t : Nat} (hlist : p.engine.transferList = done ++ t :: rest) {n : Nat}
    (hlt : p.kern.descSum done < n) (hle : n ≤ p.kern.descSum (done ++ [t])) :
    ∃ q m p', engineServiceTransferList p.engine.transferList p n = (q, .ok m) ∧
      q.engineServiceFinalTransfer m = (p', .ok 0) ∧ p.serviceDequeue n = (p', .ok 0) ∧
      p.Accounted n (done.length + 1) p' := by
  have hmem : t ∈ p.engine.transferList := by
    rw [hlist]
    exact List.mem_append_right _ List.mem_cons_self
  obtain ⟨transfer, ht, -, -⟩ := hq.live t hmem
  have hnodup := hq.nodup
  rw [hlist, List.nodup_append] at hnodup
  have hnew : t ∉ done := fun hmem => hnodup.2.2 t hmem t List.mem_cons_self rfl
  have hkept : (p.taken done (t :: rest)).kern.transfers t = some transfer :=
    (Kernel.setStates_of_not_mem hnew .completed).trans ht
  rw [Kernel.descSum_append, Kernel.descSum, Kernel.descNumOf_of_some ht, Kernel.descSum] at hle
  have hlive : ∀ x ∈ done, ∃ transfer, p.kern.transfers x = some transfer ∧
      transfer.cyclic = false := by
    intro x hx
    obtain ⟨transfer', hx', hcyclic, -⟩ := hq.live x (hlist ▸ List.mem_append_left _ hx)
    exact ⟨transfer', hx', hcyclic⟩
  have hloop : engineServiceTransferList p.engine.transferList p n =
      (p.taken done (t :: rest), .ok (n - p.kern.descSum done)) := by
    rw [hlist, transferList_taken hlist hlive hlt, transferList_stays hkept (by omega)]
  have hfinal := finalTransfer_of_status (p := p.taken done (t :: rest)) rfl hkept hstatus
    (n - p.kern.descSum done)
  have hdequeue := serviceDequeue_of_loop (List.ne_nil_of_mem hmem) hloop
  exact ⟨_, _, _, hloop, hfinal, hdequeue.trans hfinal, accounted_of_split hq hlist ht hlt hle⟩

/-- With `n` descriptors newly completed and `j` the least number of transfers that have so many, both
routines together take exactly the first `j` transfers off the queue, one after the other. -/
theorem service_accounts {p : Polled} (hq : p.Plain) (hstatus : p.engine.status &&& errFlags = 0)
    {n : Nat} (hpos : 1 ≤ n) (hn : n ≤ p.kern.descSum p.engine.transferList) :
    ∃ j, IsLeast { j | n ≤ p.kern.descSum (p.engine.transferList.take j) } j ∧
      (∀ i, i < j → ∃ q : Polled, q.engine.transferList = p.engine.transferList.drop i ∧
        engineServiceTransferList p.engine.transferList p n = engineServiceTransferList
          (p.engine.transferList.drop i) q (n - p.kern.descSum (p.engine.transferList.take i))) ∧
      ∃ q m p', engineServiceTransferList p.engine.transferList p n = (q, .ok m) ∧
        q.engineServiceFinalTransfer m = (p', .ok 0) ∧ p.serviceDequeue n = (p', .ok 0) ∧
        p.Accounted n j p' := by
  have hex : ∃ j, n ≤ p.kern.descSum (p.engine.transferList.take j) :=
    ⟨p.engine.transferList.length, by rwa [List.take_length]⟩
  have hleast := Nat.find_spec hex
  have hbelow : ∀ i, i < Nat.find hex → p.kern.descSum (p.engine.transferList.take i) < n :=
    fun i hi => Nat.lt_of_not_le (Nat.find_min hex hi)
  refine ⟨Nat.find hex, ⟨hleast, fun i hi => Nat.find_min' hex hi⟩, fun i hi => ?_, ?_⟩
  · refine ⟨p.taken (p.engine.transferList.take i) (p.engine.transferList.drop i), rfl, ?_⟩
    have hturns := transferList_taken (List.take_append_drop i p.engine.transferList).symm
      (fun t ht => (hq.live t (List.mem_of_mem_take ht)).imp fun _ h => ⟨h.1, h.2.1⟩) (hbelow i hi)
    rwa [List.take_append_drop] at hturns
  · -- the queue around the transfer in which the count ends
    generalize Nat.find hex = j at hleast hbelow
    obtain ⟨i, rfl⟩ : ∃ i, j = i + 1 := by
      cases j with
      | zero => exact absurd hleast (Nat.not_le.mpr hpos)
      | succ i => exact ⟨i, rfl⟩
    have hi : i < p.engine.transferList.length := by
      by_contra hlen
      have hall := hbelow i (Nat.lt_succ_self i)
      rw [List.take_of_length_le (by omega)] at hall
      omega
    have hlist : p.engine.transferList =
        p.engine.transferList.take i ++ p.engine.transferList[i] :: p.engine.transferList.drop (i + 1) := by
      rw [← List.drop_eq_getElem_cons hi, List.take_append_drop]
    have hlen : (p.engine.transferList.take i).length = i := by
      rw [List.length_take]
      omega
    rw [← List.take_append_getElem hi] at hleast
    have hmeet := accounts_of_split hq hstatus hlist (hbelow i (Nat.lt_succ_self i)) hleast
    rwa [hlen] at hmeet

/-- An engine with transfers of one, two and three descriptors. -/
def threeQueued : Polled where
  drv := { Driver.created with
    kern := { Driver.created.kern with
      next := 3
      transfers := fun t =>
        if t < 3 then some ⟨0, 0, t + 1, t + 1, false, t + 1, false, .submitted, false⟩ else none }
    engine := { Driver.created.engine with running := true, transferList := [0, 1, 2] } }
  wb := 0
  started := some 0
  starts := 1

theorem threeQueued_plain : threeQueued.Plain := by
  refine ⟨by decide, fun t ht => ?_⟩
  have hlt : t < 3 := by
    have hmem : t ∈ [0, 1, 2] := ht
    simp only [List.mem_cons, List.not_mem_nil, or_false] at hmem
    omega
  exact ⟨_, if_pos hlt, rfl, Nat.succ_le_succ (Nat.zero_le t)⟩

/-- Two descriptors are completed: the second transfer has got half of its own. -/
theorem service_accounts_two :
    ∃ p', threeQueued.serviceDequeue 2 = (p', .ok 0) ∧ p'.engine.transferList = [2] ∧
      p'.engine.descDequeued = 3 ∧
      (p'.kern.transfers 0).map XdmaTransfer.state = some .completed ∧
      (p'.kern.transfers 1).map XdmaTransfer.state = some .failed ∧
      (p'.kern.transfers 2).map XdmaTransfer.state = some .submitted := by
  obtain ⟨j, ⟨hj, hleast⟩, -, -, -, p', -, -, hdequeue, hacc⟩ :=
    service_accounts threeQueued_plain (by decide) (show 1 ≤ 2 by decide) (by decide)
  obtain rfl : j = 2 := by
    have hle : j ≤ 2 := hleast (show 2 ≤ threeQueued.kern.descSum [0, 1] by decide)
    have hfew : ∀ i : Fin 2, ¬2 ≤ threeQueued.kern.descSum
        (threeQueued.engine.transferList.take i) := by decide
    by_contra hne
    exact hfew ⟨j, by omega⟩ hj
  refine ⟨p', hdequeue, by rw [hacc.engine]; rfl, by rw [hacc.engine]; rfl, ?_, ?_, ?_⟩
  · rw [hacc.completed 0 (by decide)]
    rfl
  · rw [hacc.last 1 rfl]
    rfl
  · rw [hacc.others 2 (by decide)]
    rfl

end Polled
end WzXdma
