import WzXdma.Coalesce
import WzXdma.Data

/-!
# The bytes of a polled read or write

The splitting into transfers, pages and descriptors is undone by reading the descriptors of
all transfers in order: byte `k` of the request goes between the bus address of byte `k` of the
buffer and device address `pos + k`.

The function `fun x => (dmaByte dma x, epByte base x)` of the positions of the buffer stays the
same throughout, since buffer address and device position advance together.
-/

namespace WzXdma

open Lib Lib.Runs

/-! ## The descriptors move the buffer

The entries cover the positions of the buffer with bus addresses.  Merging keeps the cover: the
entries of a descriptor are a run. -/

/-- Descriptors `j` to `last` move the segments `out`. -/
structure Holds (descs : List XdmaDesc) (dirToDev : Bool) (j last : Nat)
    (out : List (Seg (DmaAddr × DmaAddr))) : Prop where
  last : last + 1 = j + out.length
  moves : ∀ i s, out[i]? = some s → descs[j + i]?.map (·.moves dirToDev) = some s

/-- The device address at position `x` of the buffer, when it grows with the position. -/
def epByte (base : DmaAddr) (x : Nat) : DmaAddr := base + (x : DmaAddr)

theorem runsOn_epByte (base : DmaAddr) (x n : Nat) : RunsOn (epByte base) x (epByte base x) n := by
  intro k _
  unfold epByte
  rw [Nat.cast_add, add_assoc]

/-- What the descriptors of the runs move. -/
def runMoves (mode : BuildMode) : DmaAddr → List (List (Seg DmaAddr)) → List (Seg (DmaAddr × DmaAddr))
  | _, [] => []
  | epAddr, run :: rest =>
      ⟨(runStart run, epAddr), total run⟩ :: runMoves mode (mode.epAddr epAddr (total run)) rest

theorem length_runMoves (mode : BuildMode) (epAddr : DmaAddr) (runs : List (List (Seg DmaAddr))) :
    (runMoves mode epAddr runs).length = runs.length := by
  induction runs generalizing epAddr with
  | nil => rfl
  | cons run rest ih => rw [runMoves, List.length_cons, List.length_cons, ih]

theorem getElem?_runMoves (mode : BuildMode) (epAddr : DmaAddr) (runs : List (List (Seg DmaAddr)))
    (k : Nat) :
    (runMoves mode epAddr runs)[k]? = runs[k]?.map fun run =>
      ⟨(runStart run, mode.epAddr epAddr (total (runs.take k).flatten)), total run⟩ := by
  induction runs generalizing epAddr k with
  | nil => rfl
  | cons run rest ih =>
      cases k with
      | zero =>
          rw [runMoves, List.getElem?_cons_zero, List.getElem?_cons_zero, Option.map_some,
            List.take_zero, List.flatten_nil, total_nil, Coalesced.epAddr_zero]
      | succ k =>
          rw [runMoves, List.getElem?_cons_succ, List.getElem?_cons_succ, ih, List.take_succ_cons,
            List.flatten_cons]
          simp only [Coalesced.epAddr_add, total_append]

theorem Coalesced.holds {mode : BuildMode} {entries : List (Seg DmaAddr)} {epAddr : DmaAddr}
    {descs : List XdmaDesc} {j last : Nat} {runs : List (List (Seg DmaAddr))}
    (h : Coalesced mode entries epAddr descs j last runs) :
    Holds descs mode.dirToDev j last (runMoves mode epAddr runs) where
  last := by rw [h.last, length_runMoves]
  moves := by
    intro i s hi
    rw [getElem?_runMoves] at hi
    obtain ⟨run, hrun, rfl⟩ := Option.map_eq_some_iff.mp hi
    exact h.descs i run hrun

/-- With device addresses that grow, the runs cover what their entries cover. -/
theorem covers_runMoves {mode : BuildMode} (hincr : mode.nonIncrAddr = false) {f : Nat → DmaAddr}
    (base : DmaAddr) {runs : List (List (Seg DmaAddr))} (hne : ∀ run ∈ runs, run ≠ [])
    (hchain : ∀ run ∈ runs, run.IsChain GoesOn) {x : Nat} (hcovers : Covers f x runs.flatten) :
    Covers (fun y => (f y, epByte base y)) x (runMoves mode (epByte base x) runs) ∧
      total (runMoves mode (epByte base x) runs) = total runs.flatten := by
  induction runs generalizing x with
  | nil => exact ⟨trivial, rfl⟩
  | cons run rest ih =>
      obtain ⟨hrun, hrest⟩ := hcovers.of_append
      have hblock : RunsOn f x (runStart run) (total run) := by
        cases run with
        | nil => exact absurd rfl (hne [] List.mem_cons_self)
        | cons s tail => exact hrun.runsOn (hchain _ List.mem_cons_self)
      have hep : mode.epAddr (epByte base x) (total run) = epByte base (x + total run) := by
        rw [BuildMode.epAddr, hincr, Bool.and_false, if_neg Bool.false_ne_true]
        exact (runsOn_epByte base x (total run + 1) _ (Nat.lt_succ_self _)).symm
      obtain ⟨hcov, htotal⟩ := ih (fun r hr => hne r (List.mem_cons_of_mem run hr))
        (fun r hr => hchain r (List.mem_cons_of_mem run hr)) hrest
      rw [runMoves, hep]
      refine ⟨⟨hblock.prod (runsOn_epByte base x _), hcov⟩, ?_⟩
      rw [total_cons, htotal, List.flatten_cons, total_append]

theorem transferBuild_moves {mode : BuildMode} (hincr : mode.nonIncrAddr = false) {f : Nat → DmaAddr}
    {base : DmaAddr} {sgl : List (Seg DmaAddr)} {x : Nat} {descs : List XdmaDesc} (hne : sgl ≠ [])
    (hcovers : Covers f x sgl) (hshort : ∀ s ∈ sgl, s.len ≤ pageSize)
    (hroom : sgl.length ≤ descs.length) :
    ∃ out, Holds (transferBuild mode sgl (epByte base x) descs).1 mode.dirToDev 0
        (transferBuild mode sgl (epByte base x) descs).2 out ∧
      Covers (fun y => (f y, epByte base y)) x out ∧ total out = total sgl := by
  obtain ⟨runs, h⟩ := transferBuild_coalesces mode hne hshort (epByte base x) hroom
  have hmoves := covers_runMoves hincr base h.nonempty h.contiguous (h.flatten ▸ hcovers)
  rw [h.flatten] at hmoves
  exact ⟨_, h.holds, hmoves⟩

/-- Terminating the chain and the adjacent numbers do not change what is moved. -/
theorem createDescs_moves {mode : BuildMode} {sgl : List (Seg DmaAddr)} {epAddr : DmaAddr}
    {descs : List XdmaDesc} {out : List (Seg (DmaAddr × DmaAddr))}
    (h : Holds (transferBuild mode sgl epAddr descs).1 mode.dirToDev 0
      (transferBuild mode sgl epAddr descs).2 out) :
    (createDescs mode sgl epAddr descs).2 = out.length ∧
      ((createDescs mode sgl epAddr descs).1.take (createDescs mode sgl epAddr descs).2).map
        (·.moves mode.dirToDev) = out := by
  have hnum : (createDescs mode sgl epAddr descs).2 = out.length := by
    rw [← Nat.zero_add out.length]
    exact h.last
  refine ⟨hnum, List.ext_getElem? fun i => ?_⟩
  rw [hnum, List.getElem?_map]
  rcases Nat.lt_or_ge i out.length with hi | hi
  · obtain ⟨desc, hdesc, hmoves⟩ := Option.map_eq_some_iff.mp
      (h.moves i _ (List.getElem?_eq_getElem hi))
    rw [Nat.zero_add] at hdesc
    rw [List.getElem?_take_of_lt hi, List.getElem?_eq_getElem hi, ← hmoves]
    unfold createDescs
    simp only [List.getElem?_mapIdx, List.getElem?_modify, hdesc, Option.map_some, Functor.map]
    split <;> split <;>
      simp only [moves_xdmaDescAdjacent, moves_xdmaDescControl, moves_xdmaDescLink]
  · rw [List.getElem?_take_eq_none hi, List.getElem?_eq_none hi]
    rfl

/-- The descriptors of a new transfer move the bytes of the buffer to consecutive device
addresses, or from there. -/
theorem transferCreate_moves {env : CreateEnv} (henv : env.Granted) {mode : BuildMode}
    (hincr : mode.nonIncrAddr = false) {start cnt : Nat} (hcnt : 0 < cnt)
    (hspace : start + cnt < 2 ^ 64) (k : Kernel) (epAddr : DmaAddr) :
    ∃ k' t transfer, k.transferCreate env start cnt epAddr mode = .ok (k', some t) ∧
      k'.transfers t = some transfer ∧ transfer.state = .new ∧
      Covers (fun x => (dmaByte env.dma x, epByte (epAddr - (start : DmaAddr)) x)) start
        ((k'.transferDescs t).map (·.moves mode.dirToDev)) ∧
      total ((k'.transferDescs t).map (·.moves mode.dirToDev)) = cnt := by
  obtain ⟨nrPages, sgl, hsgl, hnr, hlen, hdesc⟩ := @sgmPages_describes env.dma start cnt hcnt hspace
  obtain ⟨k', t, transfer, descs, hcreate, hfound, hstate, hroom, hdescs⟩ :=
    transferCreate_of_pages henv mode hcnt hnr hlen hsgl k epAddr
  have hlen' : (pciMapSg env.dma sgl).length = nrPages := by rw [pciMapSg, List.length_map, hlen]
  have hne : pciMapSg env.dma sgl ≠ [] := List.ne_nil_of_length_pos (by omega)
  have hep : epAddr = epByte (epAddr - (start : DmaAddr)) start := (sub_add_cancel _ _).symm
  -- what the loop writes, and what the rest of the routine leaves of it
  obtain ⟨out, hholds, hcov, htotal⟩ := @transferBuild_moves mode hincr (dmaByte env.dma)
    (epAddr - (start : DmaAddr)) (pciMapSg env.dma sgl) start descs hne hdesc.covers hdesc.short_mapped
    (by rw [hroom, hlen'])
  rw [← hep] at hholds
  have hmoves := (createDescs_moves hholds).2
  rw [← hdescs] at hmoves
  refine ⟨k', t, transfer, hcreate, hfound, hstate, ?_⟩
  rw [hmoves]
  exact ⟨hcov, htotal.trans hdesc.total⟩

/-! ## The turns -/

namespace DataState

variable {s : DataState} {env : DataEnv}

/-- What the transfers queued so far move. -/
def moves (s : DataState) (dirToDev : Bool) : List (Seg (DmaAddr × DmaAddr)) :=
  (s.log.flatMap QueuedTransfer.descs).map (·.moves dirToDev)

/-- A turn in which the transfer was created, queued and completed. -/
structure Completed (s : DataState) (env : DataEnv) (k : Kernel) (t : Nat) (s' : DataState) :
    Prop where
  created : s.polled.kern.transferCreate env.create s.transferAddr s.transferLen s.pos s.mode =
    .ok (k, some t)
  log : s'.log = s.log ++ [⟨k.transferDescs t, some .completed⟩]
  res : s'.res = 0
  transferAddr : s'.transferAddr = s.transferAddr + s.transferLen
  remaining : s'.remaining = s.remaining - s.transferLen
  done : s'.done = s.done + s.transferLen
  pos : s'.pos = s.pos + BitVec.ofNat 64 s.transferLen
  config : Polled.SameConfig s.polled s'.polled

/-- How a turn can end. -/
inductive TurnEnd (s : DataState) (env : DataEnv) : DataState × Except Crash Unit → Prop
  /-- no transfer was created -/
  | refused {r : DataState × Except Crash Unit}
      (hcreate : ∀ k t, s.polled.kern.transferCreate env.create s.transferAddr s.transferLen s.pos
        s.mode ≠ .ok (k, some t))
      (hlog : r.1.log = s.log) (hpos : r.1.pos = s.pos) (hend : r.2 = .ok () → r.1.res ≠ 0) :
      TurnEnd s env r
  /-- the transfer was queued and not completed -/
  | failed {r : DataState × Except Crash Unit} (q : QueuedTransfer) (hlog : r.1.log = s.log ++ [q])
      (hstate : q.state ≠ some .completed) : TurnEnd s env r
  | completed {s' : DataState} (k : Kernel) (t : Nat) (h : s.Completed env k t s') :
      TurnEnd s env (s', .ok ())

theorem advance_of_res (h : s.res = 0) :
    s.advance.transferAddr = s.transferAddr + s.transferLen ∧
      s.advance.remaining = s.remaining - s.transferLen ∧
      s.advance.done = s.done + s.transferLen ∧
      s.advance.pos = s.pos + BitVec.ofNat 64 s.transferLen := by
  simp [advance, h]

/-- The new transfer is on the log before it is queued. -/
theorem submit_some {k : Kernel} {t : Nat}
    (hcreate : s.polled.kern.transferCreate env.create s.transferAddr s.transferLen s.pos s.mode =
      .ok (k, some t)) :
    s.submit env.create =
      ({ s with
         polled := ((s.polled.setKern k).transferQueue t).1
         log := s.log ++ [⟨k.transferDescs t, none⟩] },
       ((s.polled.setKern k).transferQueue t).2.map fun _ => some t) := by
  unfold submit
  rw [hcreate]
  dsimp only
  split <;> rename_i hqueue <;> rw [hqueue] <;> rfl

/-- The polling leaves the state of the transfer on the log. -/
theorem monitor_ok {t : Nat} {p : Polled} {rc : Int}
    (h : s.polled.transferMonitor t env.reads env.hw = (p, .ok rc)) :
    s.monitor t env =
      ({ s with
         polled := p
         log := s.log.modify (s.log.length - 1)
           ({ · with state := (p.kern.transfers t).map XdmaTransfer.state }) }, .ok rc) := by
  unfold monitor
  rw [h]

theorem monitor_error {t : Nat} {p : Polled} {e : Crash}
    (h : s.polled.transferMonitor t env.reads env.hw = (p, .error e)) :
    s.monitor t env = ({ s with polled := p }, .error e) := by
  unfold monitor
  rw [h]

/-- A completed transfer is destroyed, and the request goes on. -/
theorem finish_completed {t : Nat} {transfer : XdmaTransfer}
    (ht : s.polled.kern.transfers t = some transfer) (hstate : transfer.state = .completed)
    (rc : Int) (status : Word) :
    ∃ k, s.finish t rc status = (advance { s with polled := s.polled.setKern k }, .ok ()) := by
  refine ⟨(s.polled.kern.xdmaDescFree transfer.descVirt transfer.descBus).kfreeTransfer t, ?_⟩
  unfold finish
  simp [ht, hstate, Kernel.transferDestroy]

theorem finish_log (s : DataState) (t : Nat) (rc : Int) (status : Word) :
    (s.finish t rc status).1.log = s.log := by
  unfold finish
  split
  · rfl
  · split
    · split <;> rfl
    · split <;> rfl

theorem modify_last (log : List QueuedTransfer) (q : QueuedTransfer)
    (f : QueuedTransfer → QueuedTransfer) :
    (log ++ [q]).modify ((log ++ [q]).length - 1) f = log ++ [f q] := by
  rw [List.length_append, List.length_singleton, Nat.add_sub_cancel]
  induction log with
  | nil => rfl
  | cons x log ih =>
      show x :: (log ++ [q]).modify log.length f = x :: (log ++ [f q])
      rw [ih]

theorem turn_end (hres : s.res = 0) : TurnEnd s env (s.turn env) := by
  cases hcreate : s.polled.kern.transferCreate env.create s.transferAddr s.transferLen s.pos
      s.mode with
  | error e =>
      have hsubmit : s.submit env.create = (s, .error e) := by
        unfold submit
        rw [hcreate]
      have hturn : s.turn env = (s, .error e) := by
        unfold turn
        rw [hsubmit]
      rw [hturn]
      exact .refused (fun k t h => by rw [hcreate] at h; cases h) rfl rfl (fun h => by cases h)
  | ok created =>
      obtain ⟨k, t⟩ := created
      cases t with
      | none =>
          have hturn : s.turn env =
              ({ s with polled := s.polled.setKern k, remaining := 0, res := -eio }, .ok ()) := by
            unfold turn submit
            rw [hcreate]
          rw [hturn]
          exact .refused (fun k t h => by rw [hcreate] at h; cases h) rfl rfl
            (fun _ => (by decide : -eio ≠ 0))
      | some t =>
          have hconf := (Polled.SameConfig.setKern s.polled k).trans
            (Polled.transferQueue_config (s.polled.setKern k) t)
          unfold turn
          rw [submit_some hcreate]
          cases hqueue : ((s.polled.setKern k).transferQueue t).2 with
          | error e => exact .failed ⟨_, none⟩ rfl nofun
          | ok rc =>
              have hconf' := hconf.trans
                (Polled.transferMonitor_config ((s.polled.setKern k).transferQueue t).1 t env.reads
                  env.hw)
              cases hmon : ((s.polled.setKern k).transferQueue t).1.transferMonitor t env.reads
                  env.hw with
              | mk p r =>
                  rw [hmon] at hconf'
                  cases r with
                  | error e =>
                      dsimp only [Except.map]
                      rw [monitor_error hmon]
                      exact .failed ⟨_, none⟩ rfl nofun
                  | ok rc' =>
                      dsimp only [Except.map]
                      rw [monitor_ok hmon]
                      dsimp only
                      rw [modify_last]
                      by_cases hstate : (p.kern.transfers t).map XdmaTransfer.state =
                          some .completed
                      · obtain ⟨transfer, ht, hcompleted⟩ := Option.map_eq_some_iff.mp hstate
                        obtain ⟨k', hfinish⟩ := finish_completed
                          (s := { s with
                            polled := p
                            log := s.log ++ [⟨k.transferDescs t,
                              (p.kern.transfers t).map XdmaTransfer.state⟩] })
                          ht hcompleted rc' env.status
                        rw [hfinish]
                        obtain ⟨haddr, hrem, hdone, hpos⟩ := advance_of_res
                          (s := { s with
                            polled := p.setKern k'
                            log := s.log ++ [⟨k.transferDescs t,
                              (p.kern.transfers t).map XdmaTransfer.state⟩] }) hres
                        refine .completed k t ⟨hcreate, ?_, hres, haddr, hrem, hdone, hpos, ?_⟩
                        · rw [hstate]
                          rfl
                        · exact ⟨hconf'.dirToDev, hconf'.nonIncrAddr⟩
                      · exact .failed ⟨_, _⟩ (finish_log ..) hstate

/-! ## The loop -/

/-- A request of `count` bytes from `buf` on and for device address `ep`, of which `n` bytes
are done. -/
structure Progress (dma : Nat → DmaAddr) (dir : Bool) (buf count : Nat) (ep : DmaAddr)
    (n : Nat) (s : DataState) : Prop where
  le : n ≤ count
  res : s.res = 0
  transferAddr : s.transferAddr = buf + n
  remaining : s.remaining = count - n
  done : s.done = n
  pos : s.pos = ep + BitVec.ofNat 64 n
  dirToDev : s.polled.engine.dirToDev = dir
  incr : s.polled.engine.nonIncrAddr = false
  covers : Covers (fun x => (dmaByte dma x, epByte (ep - (buf : DmaAddr)) x)) buf (s.moves dir)
  moved : total (s.moves dir) = n

variable {dma : Nat → DmaAddr} {dir : Bool} {buf count n : Nat} {ep : DmaAddr}

theorem transferLen_bounds (h : Progress dma dir buf count ep n s) (hlt : n < count) :
    0 < s.transferLen ∧ s.transferLen ≤ count - n ∧
      (s.transferLen = xdmaTransferMaxBytes ∨ s.transferLen = count - n) := by
  have hmax : 0 < xdmaTransferMaxBytes := by decide
  unfold transferLen
  rw [h.remaining]
  split <;> omega

/-- A completed turn brings the request forward by one transfer. -/
theorem Progress.completed (h : Progress dma dir buf count ep n s) (hlt : n < count)
    (hspace : buf + count < 2 ^ 64) (hdma : env.create.dma = dma) {k : Kernel} {t : Nat}
    {s' : DataState} (hturn : s.Completed env k t s') :
    Progress dma dir buf count ep (n + s.transferLen) s' := by
  obtain ⟨hpos, hle, -⟩ := transferLen_bounds h hlt
  obtain ⟨k', t', transfer, hcreate, -, -, hcov, htot⟩ := @transferCreate_moves env.create
    (granted_of_transferCreate hturn.created) s.mode h.incr s.transferAddr s.transferLen hpos
    (by rw [h.transferAddr]; omega) s.polled.kern s.pos
  rw [hturn.created] at hcreate
  obtain ⟨rfl, rfl⟩ : k = k' ∧ t = t' := by simpa using hcreate
  -- the device address of a position is the one it was for the whole request
  have hbase : s.pos - (s.transferAddr : DmaAddr) = ep - (buf : DmaAddr) := by
    rw [h.pos, h.transferAddr, Nat.cast_add]
    exact add_sub_add_right_eq_sub ep (buf : DmaAddr) (n : DmaAddr)
  rw [hbase, hdma, h.transferAddr, show s.mode.dirToDev = dir from h.dirToDev] at hcov
  rw [show s.mode.dirToDev = dir from h.dirToDev] at htot
  have hmoves : s'.moves dir = s.moves dir ++ (k.transferDescs t).map (·.moves dir) := by
    unfold moves
    rw [hturn.log, List.flatMap_append, List.map_append]
    simp
  refine ⟨by omega, hturn.res, ?_, ?_, ?_, ?_, ?_, ?_, ?_, ?_⟩
  · rw [hturn.transferAddr, h.transferAddr, Nat.add_assoc]
  · rw [hturn.remaining, h.remaining]
    omega
  · rw [hturn.done, h.done]
    omega
  · rw [hturn.pos, h.pos, BitVec.ofNat_add, add_assoc]
  · rw [hturn.config.dirToDev, h.dirToDev]
  · rw [hturn.config.nonIncrAddr, h.incr]
  · rw [hmoves]
    refine h.covers.append ?_
    rw [h.moved]
    exact hcov
  · rw [hmoves, total_append, h.moved, htot]

/-- Later turns only add to the log. -/
theorem loop_log (envs : Nat → DataEnv) (fuel i : Nat) (s : DataState) :
    s.log <+: (s.loop envs fuel i).1.log := by
  induction fuel generalizing i s with
  | zero => exact List.prefix_rfl
  | succ fuel ih =>
      rw [loop]
      split
      · rename_i hgo
        have hturn := @turn_end s (envs i) hgo.1
        have hlog : s.log <+: (s.turn (envs i)).1.log := by
          generalize s.turn (envs i) = r at hturn
          cases hturn with
          | refused _ hlog => exact hlog ▸ List.prefix_rfl
          | failed q hlog => exact hlog ▸ List.prefix_append _ _
          | completed k t h => exact h.log ▸ List.prefix_append _ _
        split
        · rename_i s' e hr
          rw [hr] at hlog
          exact hlog
        · rename_i s' hr
          rw [hr] at hlog
          exact hlog.trans (ih (i + 1) s')
      · exact List.prefix_rfl

/-- After an error the loop is left. -/
theorem loop_of_res {envs : Nat → DataEnv} (h : s.res ≠ 0) (fuel i : Nat) :
    (s.loop envs fuel i).1 = s := by
  cases fuel with
  | zero => rfl
  | succ fuel =>
      rw [loop, if_neg fun hgo => h hgo.1]

/-- What the loop has moved, if all transfers it queued were completed. -/
structure Moved (dma : Nat → DmaAddr) (dir : Bool) (buf count : Nat) (ep : DmaAddr)
    (r : DataState × Except Crash Unit) (m : Nat) : Prop where
  covers : Covers (fun x => (dmaByte dma x, epByte (ep - (buf : DmaAddr)) x)) buf (r.1.moves dir)
  moved : total (r.1.moves dir) = m
  pos : r.1.pos = ep + BitVec.ofNat 64 m

theorem Progress.toMoved (h : Progress dma dir buf count ep n s) (out : Except Crash Unit) :
    Moved dma dir buf count ep (s, out) n :=
  ⟨h.covers, h.moved, h.pos⟩

/-- A state that differs in nothing that was moved. -/
theorem Progress.moved_of_same {s' : DataState} (h : Progress dma dir buf count ep n s)
    (hlog : s'.log = s.log) (hpos : s'.pos = s.pos) (out : Except Crash Unit) :
    Moved dma dir buf count ep (s', out) n := by
  have hmoves : s'.moves dir = s.moves dir := by
    unfold moves
    rw [hlog]
  exact ⟨hmoves ▸ h.covers, hmoves ▸ h.moved, hpos.trans h.pos⟩

theorem Progress.loop_done {envs : Nat → DataEnv} (h : Progress dma dir buf count ep n s)
    (hn : ¬n < count) (fuel i : Nat) : s.loop envs (fuel + 1) i = (s, .ok ()) := by
  rw [loop, if_neg]
  rw [h.remaining]
  omega

/-- `turns` more transfers are enough for the rest of the request.  The loop looks at its
condition once more after the last one. -/
theorem loop_completed (hspace : buf + count < 2 ^ 64) {envs : Nat → DataEnv}
    (hdma : ∀ i, (envs i).create.dma = dma) (turns i : Nat)
    (h : Progress dma dir buf count ep n s) (hturns : count ≤ n + turns * xdmaTransferMaxBytes)
    (hlog : ∀ q ∈ (s.loop envs (turns + 1) i).1.log, q.state = some .completed) :
    ∃ m, Moved dma dir buf count ep (s.loop envs (turns + 1) i) m ∧
      ((∀ i, (envs i).create.Granted) →
        m = count ∧ (s.loop envs (turns + 1) i).2 = .ok () ∧
          (s.loop envs (turns + 1) i).1.res = 0 ∧ (s.loop envs (turns + 1) i).1.done = count) := by
  induction turns generalizing i n s with
  | zero =>
      have hn : ¬n < count := by omega
      have hcount : n = count := by
        have := h.le
        omega
      rw [h.loop_done hn]
      exact ⟨n, h.toMoved _, fun _ => ⟨hcount, rfl, h.res, hcount ▸ h.done⟩⟩
  | succ turns ih =>
      by_cases hlt : n < count
      · obtain ⟨hpos, hle, hlen⟩ := transferLen_bounds h hlt
        have hgo : s.res = 0 ∧ 0 < s.remaining := ⟨h.res, by rw [h.remaining]; omega⟩
        have hturn := @turn_end s (envs i) h.res
        rw [loop, if_pos hgo] at hlog ⊢
        generalize s.turn (envs i) = r at hturn hlog
        cases hturn with
        | refused hcreate hsame hsamePos hend =>
            obtain ⟨s', out⟩ := r
            have hmoved := fun out' => h.moved_of_same hsame hsamePos out'
            have hgrant : ¬∀ i, (envs i).create.Granted := by
              intro hg
              obtain ⟨k, t, _, hok, -⟩ := @transferCreate_moves (envs i).create (hg i) s.mode h.incr
                s.transferAddr s.transferLen hpos (by rw [h.transferAddr]; omega) s.polled.kern s.pos
              exact hcreate k t hok
            cases out with
            | error e => exact ⟨n, hmoved _, fun hg => absurd hg hgrant⟩
            | ok _ =>
                refine ⟨n, ?_, fun hg => absurd hg hgrant⟩
                have hleft : s'.loop envs (turns + 1) (i + 1) =
                    (s', (s'.loop envs (turns + 1) (i + 1)).2) :=
                  Prod.ext (loop_of_res (hend rfl) _ _) rfl
                dsimp only
                rw [hleft]
                exact hmoved _
        | failed q hq hstate =>
            obtain ⟨s', out⟩ := r
            have hmem : q ∈ s'.log := by
              rw [show s'.log = s.log ++ [q] from hq]
              exact List.mem_append.mpr (.inr (List.mem_singleton.mpr rfl))
            cases out with
            | error e => exact absurd (hlog q hmem) hstate
            | ok _ =>
                exact absurd (hlog q ((loop_log envs (turns + 1) (i + 1) s').subset hmem)) hstate
        | completed k t hc =>
            rename_i s'
            have hnext := h.completed hlt hspace (hdma i) hc
            refine ih (i + 1) hnext ?_ hlog
            rw [Nat.succ_mul] at hturns
            omega
      · have hcount : n = count := by
          have := h.le
          omega
        rw [h.loop_done hlt]
        exact ⟨n, h.toMoved _, fun _ => ⟨hcount, rfl, h.res, hcount ▸ h.done⟩⟩

end DataState

/-- The loop of `transfer_data`. -/
def dataLoop (p : Polled) (buf count : Nat) (pos : DmaAddr) (env : Nat → DataEnv) :
    DataState × Except Crash Unit :=
  DataState.loop env (count / xdmaTransferMaxBytes + 2) 0
    { polled := p, transferAddr := buf, remaining := count, done := 0, res := 0, pos := pos, log := [] }

theorem transferData_eq (p : Polled) (buf count : Nat) (pos : DmaAddr) (env : Nat → DataEnv) :
    transferData p buf count pos env =
      ((dataLoop p buf count pos env).1, (dataLoop p buf count pos env).2.map fun _ =>
        if (dataLoop p buf count pos env).1.res ≠ 0 then (dataLoop p buf count pos env).1.res
        else (dataLoop p buf count pos env).1.done) := by
  have hfuel : (count : Int).toNat = count := rfl
  unfold transferData dataLoop
  rw [hfuel]
  dsimp only
  split <;> rename_i hr <;> rw [hr] <;> rfl

/-- Whatever the buffer, the length, the device position, the direction and the bus addresses
of the pages: if all transfers that were queued completed, then their descriptors, in order,
move byte `k` of the buffer to or from device address `pos + k`.  The device position is
advanced by what was moved, and if nothing was refused, that is the whole request. -/
theorem transfer_data_moves_bytes (p : Polled) (hincr : p.engine.nonIncrAddr = false)
    (dma : Nat → DmaAddr) (env : Nat → DataEnv) (hdma : ∀ i, (env i).create.dma = dma)
    (buf count : Nat) (hspace : buf + count < 2 ^ 64) (pos : DmaAddr)
    (hcompleted : ∀ q ∈ (transferData p buf count pos env).1.log, q.state = some .completed) :
    ∃ m,
      expand (((transferData p buf count pos env).1.log.flatMap QueuedTransfer.descs).map
        (·.moves p.engine.dirToDev)) =
        (List.range m).map (fun k => (dmaByte dma (buf + k), pos + BitVec.ofNat 64 k)) ∧
      (transferData p buf count pos env).1.pos = pos + BitVec.ofNat 64 m ∧
      ((∀ i, (env i).create.Granted) →
        m = count ∧ (transferData p buf count pos env).2 = .ok (count : Int)) := by
  have hstart : DataState.Progress dma p.engine.dirToDev buf count pos 0
      { polled := p, transferAddr := buf, remaining := count, done := 0, res := 0, pos := pos,
        log := [] } := by
    refine ⟨Nat.zero_le _, rfl, rfl, (Int.sub_zero _).symm, rfl, ?_, rfl, hincr, trivial, rfl⟩
    exact (add_zero pos).symm
  have hturns : count ≤ 0 + (count / xdmaTransferMaxBytes + 1) * xdmaTransferMaxBytes := by
    have hdiv := Nat.mod_add_div count xdmaTransferMaxBytes
    have hmod := Nat.mod_lt count (by decide : 0 < xdmaTransferMaxBytes)
    rw [Nat.succ_mul, Nat.mul_comm]
    omega
  rw [transferData_eq] at hcompleted ⊢
  obtain ⟨m, hmoved, hall⟩ := DataState.loop_completed hspace hdma _ 0 hstart hturns hcompleted
  refine ⟨m, ?_, hmoved.pos, fun hg => ?_⟩
  · have hexpand := hmoved.covers.expand_eq
    rw [hmoved.moved] at hexpand
    refine hexpand.trans (List.map_congr_left fun k _ => ?_)
    have hep : epByte (pos - (buf : DmaAddr)) (buf + k) = pos + BitVec.ofNat 64 k := by
      unfold epByte
      rw [Nat.cast_add, ← add_assoc, sub_add_cancel]
      rfl
    rw [hep]
  · obtain ⟨hm, hout, hres, hdone⟩ := hall hg
    refine ⟨hm, ?_⟩
    have hout' : (dataLoop p buf count pos env).2 = .ok () := hout
    have hres' : (dataLoop p buf count pos env).1.res = 0 := hres
    have hdone' : (dataLoop p buf count pos env).1.done = count := hdone
    rw [hout', hres', hdone']
    rfl

/-- The first two pages of the buffer are neighbours on the bus, the third one is not: a read
that starts in the middle of a page takes two descriptors. -/
theorem transfer_data_moves_bytes_three_pages :
    (transferData .idle 4090 5000 0x1000
      fun _ => dataGranted (fun page => if page < 2 then BitVec.ofNat 64 (page * 4096) else 0x700000)
        2).2 = .ok 5000 := by
  obtain ⟨m, -, -, hall⟩ := transfer_data_moves_bytes .idle rfl
    (fun page => if page < 2 then BitVec.ofNat 64 (page * 4096) else 0x700000)
    (fun _ => dataGranted
      (fun page => if page < 2 then BitVec.ofNat 64 (page * 4096) else 0x700000) 2)
    (fun _ => rfl) 4090 5000 (by decide) 0x1000 (by decide +kernel)
  exact (hall fun _ => ⟨rfl, rfl, rfl, rfl⟩).2

end WzXdma
