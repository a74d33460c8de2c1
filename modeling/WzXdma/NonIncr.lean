import WzXdma.Addresses
import WzXdma.Prefetch
import WzXdma.WaitOutcome

/-!
# Non-incremental addressing

With `non_incr_addr` set a request is for one address of the device, such as that of a FIFO.  Two
functions advance the address: `transfer_build` from descriptor to descriptor, which leaves it
alone in this mode, and `transfer_data` from transfer to transfer, which does not look at the mode.
It makes no difference to this how the transfers are waited for.
-/

namespace WzXdma

open Lib Lib.Runs

/-- The address on the side of the device. -/
def XdmaDesc.epAddr (d : XdmaDesc) (dirToDev : Bool) : DmaAddr := if dirToDev then d.dst else d.src

/-! ## Inside a transfer -/

theorem epAddr_xdmaDescSet (d : XdmaDesc) (contAddr epAddr : DmaAddr) (len : Word) (dirToDev : Bool) :
    (xdmaDescSet d contAddr epAddr len dirToDev).epAddr dirToDev = epAddr := by
  cases dirToDev
  · exact addrOf_pciDma epAddr
  · exact addrOf_pciDma epAddr

theorem epAddr_setDesc {mode : BuildMode} {j : Nat} {descs : List XdmaDesc} (hj : j < descs.length)
    (contAddr epAddr : DmaAddr) (contLen : Nat) :
    (setDesc mode j contAddr epAddr contLen descs)[j]?.map (·.epAddr mode.dirToDev) = some epAddr := by
  rw [setDesc, List.getElem?_modify_eq, List.getElem?_eq_getElem hj]
  exact congrArg some (epAddr_xdmaDescSet ..)

/-- All blocks get the address that the first one gets. -/
theorem transferBuildLoop_epAddr {mode : BuildMode} (hmode : (mode.userspace && mode.nonIncrAddr) = true)
    (epAddr : DmaAddr) {segs : List (Seg DmaAddr)} (hne : segs ≠ []) {j : Nat} (contAddr : DmaAddr)
    (contLen : Nat) {descs : List XdmaDesc} (hroom : j + segs.length ≤ descs.length) {i : Nat}
    (hj : j ≤ i) (hi : i ≤ (transferBuildLoop mode segs j contAddr contLen epAddr descs).2) :
    (transferBuildLoop mode segs j contAddr contLen epAddr descs).1[i]?.map (·.epAddr mode.dirToDev) =
      some epAddr := by
  induction segs generalizing j contAddr contLen descs with
  | nil => exact absurd rfl hne
  | cons entry rest ih =>
      rw [List.length_cons] at hroom
      cases rest with
      | nil =>
          obtain rfl : i = j := Nat.le_antisymm hi hj
          exact epAddr_setDesc (by omega) ..
      | cons next rest =>
          rw [transferBuildLoop] at hi ⊢
          dsimp only at hi ⊢
          rw [if_pos hmode] at hi ⊢
          split at hi
          · rw [if_pos ‹_›]
            rcases Nat.eq_or_lt_of_le hj with rfl | hlt
            · -- the block that was finished is not written again
              rw [(transferBuildLoop_below ..).2 j (Nat.lt_succ_self j)]
              exact epAddr_setDesc (by omega) ..
            · refine ih (List.cons_ne_nil next rest) next.start 0 ?_ hlt hi
              rw [length_setDesc]
              omega
          · rw [if_neg ‹_›]
            exact ih (List.cons_ne_nil next rest) contAddr _ (by omega) hj hi

/-- What follows `transfer_build` does not change an address of the device. -/
theorem createDescs_epAddr {mode : BuildMode} (hmode : (mode.userspace && mode.nonIncrAddr) = true)
    {sgl : List (Seg DmaAddr)} (hne : sgl ≠ []) (epAddr : DmaAddr) {descs : List XdmaDesc}
    (hroom : sgl.length ≤ descs.length) {d : XdmaDesc}
    (hd : d ∈ (createDescs mode sgl epAddr descs).1.take (createDescs mode sgl epAddr descs).2) :
    d.epAddr mode.dirToDev = epAddr := by
  obtain ⟨i, hget⟩ := List.mem_iff_getElem?.mp hd
  have hi : i < (createDescs mode sgl epAddr descs).2 := by
    have hlt := (List.getElem?_eq_some_iff.mp hget).1
    rw [List.length_take] at hlt
    omega
  rw [List.getElem?_take_of_lt hi, createDescs_getElem mode sgl epAddr descs hi] at hget
  obtain ⟨x, hx, rfl⟩ := Option.map_eq_some_iff.mp hget
  have hbuilt : (transferBuild mode sgl epAddr descs).1[i]?.map (·.epAddr mode.dirToDev) = some epAddr :=
    transferBuildLoop_epAddr hmode epAddr hne _ 0 (by omega) (Nat.zero_le i) (Nat.le_of_lt_succ hi)
  rw [hx, Option.map_some, Option.some.injEq] at hbuilt
  rw [← hbuilt]
  split <;> rfl

namespace Created

variable {env : CreateEnv} {mode : BuildMode} {epAddr : DmaAddr} {sgl : List (Seg DmaAddr)}
  {mem : Kernel.CoherentMem} {k : Kernel} {t : Nat} {transfer : XdmaTransfer}

theorem transferDescs (h : Created env mode epAddr sgl mem k t transfer) :
    k.transferDescs t = (createDescs mode sgl epAddr (xdmaDescAllocContent sgl.length transfer.descBus
      mem.junk)).1.take transfer.descNum := by
  rw [Kernel.transferDescs, h.found, Option.bind_some, h.descs]
  rfl

theorem transferDescs_ne_nil (h : Created env mode epAddr sgl mem k t transfer) :
    k.transferDescs t ≠ [] := by
  have hpos := h.linked.pos
  have hroom := h.linked.room
  rw [h.transferDescs]
  refine List.ne_nil_of_length_pos ?_
  rw [List.length_take]
  exact Nat.lt_min.mpr ⟨hpos, Nat.lt_of_lt_of_le hpos hroom⟩

/-- In a transfer with non-incremental addressing every descriptor has the address that was asked
for, whatever the scatterlist. -/
theorem epAddr_eq (h : Created env mode epAddr sgl mem k t transfer)
    (hmode : (mode.userspace && mode.nonIncrAddr) = true) {d : XdmaDesc}
    (hd : d ∈ k.transferDescs t) : d.epAddr mode.dirToDev = epAddr := by
  rw [h.transferDescs, h.num] at hd
  refine createDescs_epAddr hmode h.entries epAddr ?_ hd
  rw [length_xdmaDescAllocContent (List.length_pos_iff.mpr h.entries)]

end Created

/-! ## From transfer to transfer -/

namespace DataState

variable {s s' : DataState} {env : TurnEnv}

theorem submitIn_some {k : Kernel} {t : Nat}
    (hcreate : s.polled.kern.transferCreate env.create s.transferAddr s.transferLen s.pos s.mode =
      .ok (k, some t)) :
    s.submitIn env =
      ({ s with
         polled := (env.waits.transferQueue (s.polled.setKern k) t).1
         log := s.log ++ [⟨k.transferDescs t, none⟩] },
       (env.waits.transferQueue (s.polled.setKern k) t).2.map fun _ => some t) := by
  unfold submitIn
  rw [hcreate]
  dsimp only
  split <;> rename_i hqueue <;> rw [hqueue] <;> rfl

theorem monitorIn_ok {t : Nat} {p : Polled} {rc : Int}
    (h : env.waits.transferMonitor s.polled t = (p, .ok rc)) :
    s.monitorIn t env =
      ({ s with
         polled := p
         log := s.log.modify (s.log.length - 1)
           ({ · with state := (p.kern.transfers t).map XdmaTransfer.state }) }, .ok rc) := by
  unfold monitorIn
  rw [h]

theorem monitorIn_error {t : Nat} {p : Polled} {e : Crash}
    (h : env.waits.transferMonitor s.polled t = (p, .error e)) :
    s.monitorIn t env = ({ s with polled := p }, .error e) := by
  unfold monitorIn
  rw [h]

/-- A turn puts the transfer it creates on the log. -/
theorem turnIn_created {k : Kernel} {t : Nat}
    (hcreate : s.polled.kern.transferCreate env.create s.transferAddr s.transferLen s.pos s.mode =
      .ok (k, some t)) : ∃ state, (s.turnIn env).1.log = s.log ++ [⟨k.transferDescs t, state⟩] := by
  unfold turnIn
  rw [submitIn_some hcreate]
  cases (env.waits.transferQueue (s.polled.setKern k) t).2 with
  | error e => exact ⟨none, rfl⟩
  | ok rc =>
      dsimp only [Except.map]
      cases hmon : env.waits.transferMonitor (env.waits.transferQueue (s.polled.setKern k) t).1 t with
      | mk p r =>
          cases r with
          | error e =>
              rw [monitorIn_error hmon]
              exact ⟨none, rfl⟩
          | ok rc' =>
              rw [monitorIn_ok hmon]
              dsimp only
              rw [modify_last, finish_log]
              exact ⟨_, rfl⟩

/-- Otherwise the request ends. -/
theorem turnIn_refused
    (hcreate : ∀ k t, s.polled.kern.transferCreate env.create s.transferAddr s.transferLen s.pos s.mode ≠
      .ok (k, some t)) :
    (s.turnIn env).1.log = s.log ∧ ((s.turnIn env).2 = .ok () → (s.turnIn env).1.res ≠ 0) := by
  unfold turnIn submitIn
  cases hcase : s.polled.kern.transferCreate env.create s.transferAddr s.transferLen s.pos s.mode with
  | error e => exact ⟨rfl, fun h => by cases h⟩
  | ok made =>
      obtain ⟨k, t⟩ := made
      cases t with
      | none => exact ⟨rfl, fun _ => (by decide : -eio ≠ 0)⟩
      | some t => exact absurd hcase (hcreate k t)

/-- The request goes on behind this transfer. -/
structure Advanced (s s' : DataState) : Prop where
  transferAddr : s'.transferAddr = s.transferAddr + s.transferLen
  pos : s'.pos = s.pos + BitVec.ofNat 64 s.transferLen
  remaining : s'.remaining = s.remaining - s.transferLen
  config : Polled.SameConfig s.polled s'.polled

theorem advanced_advance {q : Polled} {res : Int} (hres : res = 0)
    (hconfig : Polled.SameConfig s.polled q) :
    Advanced s (advance { s with polled := q, res := res }) := by
  obtain ⟨haddr, hrem, -, hpos⟩ := advance_of_res (s := { s with polled := q, res := res }) hres
  exact ⟨haddr, hpos, hrem, hconfig⟩

theorem finish_advanced {t : Nat} {rc : Int} {status : Word}
    (h : s.finish t rc status = (s', .ok ())) (hres : s.res = 0) (hres' : s'.res = 0) :
    Advanced s s' := by
  unfold finish at h
  split at h
  · cases h
  · split at h
    · split at h
      · cases h
      · cases h
        exact advanced_advance hres' (.setKern s.polled _)
    · split at h
      · cases h
        exact absurd hres' (by decide : -erestartsys ≠ 0)
      · cases h
        exact advanced_advance hres (.refl s.polled)

/-- The outcome of the wait decides whether the request goes on. -/
theorem finish_goesOn (hres : s.res = 0) (t : Nat) (rc : Int) (status : Word) :
    (∃ s', s.finish t rc status = (s', .ok ()) ∧ s'.res = 0) ↔ s.polled.GoesOn t rc := by
  unfold finish
  cases ht : s.polled.kern.transfers t with
  | none =>
      refine iff_of_false ?_ ?_
      · rintro ⟨s', hcontra, -⟩
        cases hcontra
      · rintro ⟨transfer, hcontra, -⟩
        rw [ht] at hcontra
        cases hcontra
  | some transfer =>
      rw [Polled.goesOn_of_found ht]
      dsimp only
      by_cases hstate : transfer.state = .submitted
      · rw [if_neg (not_not_intro hstate), hstate]
        by_cases hrc : rc = 0
        · rw [if_neg (not_not_intro hrc)]
          exact iff_of_true ⟨s.advance, rfl, hres⟩ (.inr ⟨rfl, hrc⟩)
        · rw [if_pos hrc]
          refine iff_of_false ?_ ?_
          · rintro ⟨s', heq, hcontra⟩
            cases heq
            exact absurd hcontra (by decide : -erestartsys ≠ 0)
          · rintro (hcontra | ⟨-, hcontra⟩)
            · cases hcontra
            · exact hrc hcontra
      · have hdestroy : ∃ k, s.polled.kern.transferDestroy t = .ok k := by
          unfold Kernel.transferDestroy
          rw [ht]
          exact ⟨_, rfl⟩
        obtain ⟨k, hk⟩ := hdestroy
        rw [if_pos hstate, hk]
        dsimp only
        by_cases hdone : transfer.state = .completed
        · rw [if_neg (not_not_intro hdone)]
          exact iff_of_true ⟨_, rfl, hres⟩ (.inl hdone)
        · rw [if_pos hdone]
          refine iff_of_false ?_ ?_
          · rintro ⟨s', heq, hcontra⟩
            cases heq
            exact absurd hcontra (by decide : -eio ≠ 0)
          · rintro (hcontra | ⟨hcontra, -⟩)
            · exact hdone hcontra
            · exact hstate hcontra

/-- A turn with a new transfer ends without an error if and only if the transfer passes. -/
theorem turnIn_passes {k : Kernel} {t : Nat} (hres : s.res = 0)
    (hcreate : s.polled.kern.transferCreate env.create s.transferAddr s.transferLen s.pos s.mode =
      .ok (k, some t)) :
    (∃ s', s.turnIn env = (s', .ok ()) ∧ s'.res = 0) ↔ env.waits.Passes (s.polled.setKern k) t := by
  unfold turnIn Waits.Passes
  rw [submitIn_some hcreate]
  cases hqueue : env.waits.transferQueue (s.polled.setKern k) t with
  | mk q r =>
      cases r with
      | error e =>
          refine iff_of_false ?_ ?_
          · rintro ⟨s', hcontra, -⟩
            cases hcontra
          · rintro ⟨q', rc, q₂, rc', hcontra, -⟩
            cases hcontra
      | ok rc =>
          dsimp only [Except.map]
          cases hmon : env.waits.transferMonitor q t with
          | mk q' r' =>
              cases r' with
              | error e =>
                  rw [monitorIn_error hmon]
                  refine iff_of_false ?_ ?_
                  · rintro ⟨s', hcontra, -⟩
                    cases hcontra
                  · rintro ⟨q₁, rc₁, q₂, rc₂, hq₁, hq₂, -⟩
                    cases hq₁
                    rw [hmon] at hq₂
                    cases hq₂
              | ok rc' =>
                  rw [monitorIn_ok hmon]
                  dsimp only
                  generalize List.modify _ _ _ = log
                  rw [@finish_goesOn { s with polled := q', log := log } hres t rc' env.status]
                  constructor
                  · exact fun hgo => ⟨q, rc, q', rc', rfl, hmon, hgo⟩
                  · rintro ⟨q₁, rc₁, q₂, rc₂, hq₁, hq₂, hgo⟩
                    cases hq₁
                    rw [hmon] at hq₂
                    cases hq₂
                    exact hgo

theorem turnIn_advanced (h : s.turnIn env = (s', .ok ())) (hres : s.res = 0) (hres' : s'.res = 0) :
    Advanced s s' := by
  by_cases hcreate : ∃ k t, s.polled.kern.transferCreate env.create s.transferAddr s.transferLen s.pos
      s.mode = .ok (k, some t)
  · obtain ⟨k, t, hcreate⟩ := hcreate
    have hconf := (Polled.SameConfig.setKern s.polled k).trans
      (env.waits.queue_config (s.polled.setKern k) t)
    unfold turnIn at h
    rw [submitIn_some hcreate] at h
    cases hqueue : (env.waits.transferQueue (s.polled.setKern k) t).2 with
    | error e =>
        rw [hqueue] at h
        cases h
    | ok rc =>
        rw [hqueue] at h
        dsimp only [Except.map] at h
        have hmonitor := env.waits.monitor_config (env.waits.transferQueue (s.polled.setKern k) t).1 t
        cases hmon : env.waits.transferMonitor (env.waits.transferQueue (s.polled.setKern k) t).1 t with
        | mk p r =>
            rw [hmon] at hmonitor
            cases r with
            | error e =>
                rw [monitorIn_error hmon] at h
                cases h
            | ok rc' =>
                rw [monitorIn_ok hmon] at h
                have hfinish := finish_advanced h hres hres'
                exact ⟨hfinish.transferAddr, hfinish.pos, hfinish.remaining,
                  (hconf.trans hmonitor).trans hfinish.config⟩
  · have hrefused := (turnIn_refused fun k t hkt => hcreate ⟨k, t, hkt⟩).2
    rw [h] at hrefused
    exact absurd hres' (hrefused rfl)

theorem loopIn_turn {envs : Nat → TurnEnv} {fuel i : Nat} (hgo : s.res = 0 ∧ 0 < s.remaining) :
    (s.loopIn envs (fuel + 1) i).1 = (s.turnIn (envs i)).1 ∧ (s.turnIn (envs i)).2 ≠ .ok () ∨
      (s.turnIn (envs i)).2 = .ok () ∧
        s.loopIn envs (fuel + 1) i = (s.turnIn (envs i)).1.loopIn envs fuel (i + 1) := by
  rw [loopIn, if_pos hgo]
  split
  · rename_i s' e hturn
    rw [hturn]
    exact .inl ⟨rfl, fun h => by cases h⟩
  · rename_i s' hturn
    rw [hturn]
    exact .inr ⟨rfl, rfl⟩

/-- After an error the loop is left. -/
theorem loopIn_of_res {envs : Nat → TurnEnv} (h : s.res ≠ 0) (fuel i : Nat) :
    (s.loopIn envs fuel i).1 = s := by
  cases fuel with
  | zero => rfl
  | succ fuel => rw [loopIn, if_neg fun hgo => h hgo.1]

/-- Later turns only add to the log. -/
theorem loopIn_log (envs : Nat → TurnEnv) (fuel i : Nat) (s : DataState) :
    s.log <+: (s.loopIn envs fuel i).1.log := by
  induction fuel generalizing i s with
  | zero => exact List.prefix_rfl
  | succ fuel ih =>
      by_cases hgo : s.res = 0 ∧ 0 < s.remaining
      · have hlog : s.log <+: (s.turnIn (envs i)).1.log := by
          by_cases hcreate : ∃ k t, s.polled.kern.transferCreate (envs i).create s.transferAddr
              s.transferLen s.pos s.mode = .ok (k, some t)
          · obtain ⟨k, t, hcreate⟩ := hcreate
            obtain ⟨state, heq⟩ := turnIn_created hcreate
            exact heq ▸ List.prefix_append _ _
          · exact (turnIn_refused fun k t hkt => hcreate ⟨k, t, hkt⟩).1 ▸ List.prefix_rfl
        rcases @loopIn_turn s envs fuel i hgo with ⟨heq, -⟩ | ⟨-, heq⟩
        · rw [heq]
          exact hlog
        · rw [heq]
          exact hlog.trans (ih (i + 1) _)
      · rw [loopIn, if_neg hgo]

/-- All descriptors have this address of the device. -/
def OneAddress (dirToDev : Bool) (pos : DmaAddr) (log : List QueuedTransfer) : Prop :=
  ∀ q ∈ log, ∀ d ∈ q.descs, d.epAddr dirToDev = pos

/-- A turn whose transfer has the address of the request. -/
theorem turnIn_oneAddress (hnon : s.polled.engine.nonIncrAddr = true) {pos : DmaAddr}
    (hpos : s.pos = pos) (h : OneAddress s.polled.engine.dirToDev pos s.log) :
    OneAddress s.polled.engine.dirToDev pos (s.turnIn env).1.log := by
  by_cases hcreate : ∃ k t, s.polled.kern.transferCreate env.create s.transferAddr s.transferLen s.pos
      s.mode = .ok (k, some t)
  · obtain ⟨k, t, hcreate⟩ := hcreate
    obtain ⟨state, hlog⟩ := turnIn_created hcreate
    obtain ⟨sgl, mem, transfer, hmade, -⟩ := transferCreate_created hcreate
    rw [hlog]
    intro q hq d hd
    rcases List.mem_append.mp hq with hq | hq
    · exact h q hq d hd
    · rw [List.mem_singleton.mp hq] at hd
      exact (hmade.epAddr_eq hnon hd).trans hpos
  · rw [(turnIn_refused fun k t hkt => hcreate ⟨k, t, hkt⟩).1]
    exact h

/-- What the next turn creates is on the log in the end. -/
theorem loopIn_created {envs : Nat → TurnEnv} {fuel i : Nat} (hgo : s.res = 0 ∧ 0 < s.remaining)
    {k : Kernel} {t : Nat}
    (hcreate : s.polled.kern.transferCreate (envs i).create s.transferAddr s.transferLen s.pos s.mode =
      .ok (k, some t)) :
    ∃ q ∈ (s.loopIn envs (fuel + 1) i).1.log, q.descs = k.transferDescs t := by
  obtain ⟨state, hlog⟩ := turnIn_created hcreate
  have hmem : ⟨k.transferDescs t, state⟩ ∈ (s.turnIn (envs i)).1.log := by
    rw [hlog]
    exact List.mem_append.mpr (.inr (List.mem_singleton.mpr rfl))
  rcases @loopIn_turn s envs fuel i hgo with ⟨heq, -⟩ | ⟨-, heq⟩
  · rw [heq]
    exact ⟨_, hmem, rfl⟩
  · rw [heq]
    exact ⟨_, (loopIn_log envs fuel (i + 1) _).subset hmem, rfl⟩

/-- A request of which the next turn creates nothing. -/
theorem loopIn_refused {envs : Nat → TurnEnv} {fuel i : Nat} (hgo : s.res = 0 ∧ 0 < s.remaining)
    (hcreate : ∀ k t, s.polled.kern.transferCreate (envs i).create s.transferAddr s.transferLen s.pos
      s.mode ≠ .ok (k, some t)) : (s.loopIn envs (fuel + 1) i).1.log = s.log := by
  obtain ⟨hlog, hres⟩ := turnIn_refused hcreate
  rcases @loopIn_turn s envs fuel i hgo with ⟨heq, -⟩ | ⟨hok, heq⟩
  · rw [heq, hlog]
  · rw [heq, loopIn_of_res (hres hok), hlog]

/-- The first turn ends without an error, and the transfer of a second one is created. -/
def CreatesSecond (s : DataState) (envs : Nat → TurnEnv) : Prop :=
  ∃ s', s.turnIn (envs 0) = (s', .ok ()) ∧ s'.res = 0 ∧ ∃ k t, s'.polled.kern.transferCreate
    (envs 1).create s'.transferAddr s'.transferLen s'.pos s'.mode = .ok (k, some t)

theorem transferLen_of_le (hpos : 0 < s.remaining) (h : s.remaining ≤ xdmaTransferMaxBytes) :
    (s.transferLen : Int) = s.remaining := by
  unfold transferLen
  rw [if_neg (Int.not_lt.mpr h)]
  omega

theorem transferLen_of_lt (h : (xdmaTransferMaxBytes : Int) < s.remaining) :
    s.transferLen = xdmaTransferMaxBytes := if_pos h

/-- A request that gets one transfer. -/
theorem loopIn_oneAddress {envs : Nat → TurnEnv} (hres : s.res = 0) (hlog : s.log = [])
    (hnon : s.polled.engine.nonIncrAddr = true)
    (h : s.remaining ≤ xdmaTransferMaxBytes ∨ ¬s.CreatesSecond envs) (fuel : Nat) :
    OneAddress s.polled.engine.dirToDev s.pos (s.loopIn envs (fuel + 2) 0).1.log := by
  have hempty : OneAddress s.polled.engine.dirToDev s.pos s.log := by
    rw [hlog]
    exact fun _ hq => absurd hq List.not_mem_nil
  by_cases hgo : s.res = 0 ∧ 0 < s.remaining
  · have hturn := @turnIn_oneAddress s (envs 0) hnon s.pos rfl hempty
    rcases @loopIn_turn s envs (fuel + 1) 0 hgo with ⟨heq, -⟩ | ⟨hok, heq⟩
    · rw [heq]
      exact hturn
    · rw [heq]
      have hfirst : s.turnIn (envs 0) = ((s.turnIn (envs 0)).1, .ok ()) := Prod.ext rfl hok
      by_cases hres' : (s.turnIn (envs 0)).1.res = 0
      · have hadv := turnIn_advanced hfirst hres hres'
        by_cases hshort : s.remaining ≤ xdmaTransferMaxBytes
        · -- nothing is left
          have hrem := hadv.remaining
          rw [transferLen_of_le hgo.2 hshort] at hrem
          rw [loopIn, if_neg (by omega)]
          exact hturn
        · have hrem := hadv.remaining
          rw [transferLen_of_lt (by omega)] at hrem
          have hnot := h.resolve_left hshort
          rw [loopIn_refused ⟨hres', by omega⟩ fun k t hcreate =>
            hnot ⟨_, hfirst, hres', k, t, hcreate⟩]
          exact hturn
      · rw [loopIn_of_res hres']
        exact hturn
  · rw [loopIn, if_neg hgo]
    exact hempty

/-- The second transfer has another address. -/
theorem loopIn_not_oneAddress {envs : Nat → TurnEnv} (hres : s.res = 0)
    (hnon : s.polled.engine.nonIncrAddr = true) (hlong : (xdmaTransferMaxBytes : Int) < s.remaining)
    (h : s.CreatesSecond envs) (fuel : Nat) :
    ¬OneAddress s.polled.engine.dirToDev s.pos (s.loopIn envs (fuel + 2) 0).1.log := by
  obtain ⟨s', hturn, hres', k, t, hcreate⟩ := h
  have hmax : 0 < (xdmaTransferMaxBytes : Int) := by decide
  have hadv := turnIn_advanced hturn hres hres'
  have hpos := hadv.pos
  have hrem := hadv.remaining
  rw [transferLen_of_lt hlong] at hpos hrem
  have hloop : s.loopIn envs (fuel + 2) 0 = s'.loopIn envs (fuel + 1) 1 := by
    rw [loopIn, if_pos ⟨hres, by omega⟩, hturn]
  obtain ⟨q, hq, hdescs⟩ := @loopIn_created s' envs fuel 1 ⟨hres', by omega⟩ k t hcreate
  obtain ⟨sgl, mem, transfer, hmade, -⟩ := transferCreate_created hcreate
  obtain ⟨d, hd⟩ := List.exists_mem_of_ne_nil _ hmade.transferDescs_ne_nil
  have haddr : d.epAddr s'.polled.engine.dirToDev = s'.pos :=
    hmade.epAddr_eq (hadv.config.nonIncrAddr.trans hnon) hd
  intro hone
  rw [hloop] at hone
  have hsame := hone q hq d (hdescs ▸ hd)
  rw [← hadv.config.dirToDev, haddr, hpos] at hsame
  exact absurd (add_eq_left.mp hsame) (by decide)

end DataState

/-! ## When a second transfer is created -/

/-- Nothing is refused to the first two transfers of a request, and their buffers are in the address
space. -/
structure BothGranted (transferAddr : Nat) (remaining : Int) (create : Nat → CreateEnv) : Prop where
  first : (create 0).Granted
  second : (create 1).Granted
  space : (transferAddr : Int) + min remaining (2 * xdmaTransferMaxBytes : Nat) < 2 ^ 64

/-- The length of the second transfer of a long request. -/
theorem DataState.transferLen_second {s s' : DataState} (hadv : Advanced s s')
    (hlong : (xdmaTransferMaxBytes : Int) < s.remaining) :
    0 < s'.transferLen ∧ s'.transferLen ≤ xdmaTransferMaxBytes ∧
      (s'.transferAddr + s'.transferLen : Int) =
        s.transferAddr + min s.remaining (2 * xdmaTransferMaxBytes : Nat) := by
  have hmax : 0 < xdmaTransferMaxBytes := by decide
  have haddr := hadv.transferAddr
  have hrem := hadv.remaining
  rw [transferLen_of_lt hlong] at haddr hrem
  by_cases hlong' : (xdmaTransferMaxBytes : Int) < s'.remaining
  · rw [transferLen_of_lt hlong']
    omega
  · have hlen := transferLen_of_le (by omega) (Int.not_lt.mp hlong')
    omega

/-- The second transfer is created if and only if both are granted and the first one passes. -/
theorem createsSecond_iff {p : Polled} {transferAddr : Nat} {remaining : Int} {pos : DmaAddr}
    {envs : Nat → TurnEnv} (hlong : (xdmaTransferMaxBytes : Int) < remaining) {P : Prop}
    (hpass : ∀ k t transfer, NewTransfer p.kern k t transfer
      (bufferDescNum (envs 0).create.dma transferAddr xdmaTransferMaxBytes) →
        ((envs 0).waits.Passes (p.setKern k) t ↔ P)) :
    (DataState.first p transferAddr remaining pos).CreatesSecond envs ↔
      BothGranted transferAddr remaining (fun i => (envs i).create) ∧ P := by
  have hmax : 0 < xdmaTransferMaxBytes := by decide
  have hbig : xdmaTransferMaxBytes < 2 ^ 64 := by decide
  have hlen : (DataState.first p transferAddr remaining pos).transferLen = xdmaTransferMaxBytes :=
    DataState.transferLen_of_lt hlong
  constructor
  · rintro ⟨s', hturn, hres', k', t', hcreate'⟩
    have hadv := DataState.turnIn_advanced hturn rfl hres'
    obtain ⟨hpos', hle', hend⟩ := DataState.transferLen_second hadv hlong
    by_cases hcreate : ∃ k t, (DataState.first p transferAddr remaining pos).polled.kern.transferCreate
        (envs 0).create (DataState.first p transferAddr remaining pos).transferAddr
        (DataState.first p transferAddr remaining pos).transferLen pos
        (DataState.first p transferAddr remaining pos).mode = .ok (k, some t)
    · obtain ⟨k, t, hcreate⟩ := hcreate
      have hspace := space_of_transferCreate (Nat.lt_of_le_of_lt hle' hbig) hcreate'
      refine ⟨⟨granted_of_transferCreate hcreate, granted_of_transferCreate hcreate', ?_⟩, ?_⟩
      · have hend' : (s'.transferAddr + s'.transferLen : Int) =
            transferAddr + min remaining (2 * xdmaTransferMaxBytes : Nat) := hend
        omega
      · have hpasses := (DataState.turnIn_passes rfl hcreate).mp ⟨s', hturn, hres'⟩
        rw [hlen] at hcreate
        obtain ⟨transfer, hnew⟩ := transferCreate_new rfl hmax (Nat.le_refl _) hcreate
        exact (hpass k t transfer hnew).mp hpasses
    · have hrefused := (DataState.turnIn_refused fun k t hkt => hcreate ⟨k, t, hkt⟩).2
      rw [hturn] at hrefused
      exact absurd hres' (hrefused rfl)
  · rintro ⟨⟨hfirst, hsecond, hspace⟩, hP⟩
    obtain ⟨k, t, hcreate⟩ := transferCreate_granted hfirst
      (DataState.first p transferAddr remaining pos).mode hmax
      (show transferAddr + xdmaTransferMaxBytes < 2 ^ 64 by omega) p.kern pos
    obtain ⟨transfer, hnew⟩ := transferCreate_new rfl hmax (Nat.le_refl _) hcreate
    obtain ⟨s', hturn, hres'⟩ := (@DataState.turnIn_passes (DataState.first p transferAddr remaining pos)
      (envs 0) k t rfl (by rw [hlen]; exact hcreate)).mpr ((hpass k t transfer hnew).mpr hP)
    have hadv := DataState.turnIn_advanced hturn rfl hres'
    obtain ⟨hpos', hle', hend⟩ := DataState.transferLen_second hadv hlong
    have hend' : (s'.transferAddr + s'.transferLen : Int) =
        transferAddr + min remaining (2 * xdmaTransferMaxBytes : Nat) := hend
    obtain ⟨k', t', hcreate'⟩ := transferCreate_granted hsecond s'.mode hpos'
      (show s'.transferAddr + s'.transferLen < 2 ^ 64 by omega) s'.polled.kern s'.pos
    exact ⟨s', hturn, hres', k', t', hcreate'⟩

/-! ## The whole request -/

theorem transferDataIn_first (p : Polled) (transferAddr : Nat) (remaining : Int) (pos : DmaAddr)
    (env : Nat → TurnEnv) :
    (transferDataIn p transferAddr remaining pos env).1 = ((DataState.first p transferAddr remaining
      pos).loopIn env (remaining.toNat / xdmaTransferMaxBytes + 2) 0).1 := by
  unfold transferDataIn
  split <;> rename_i hloop <;> exact congrArg Prod.fst hloop.symm

theorem transferData_first (p : Polled) (transferAddr : Nat) (remaining : Int) (pos : DmaAddr)
    (env : Nat → DataEnv) :
    (transferData p transferAddr remaining pos env).1 = ((DataState.first p transferAddr remaining
      pos).loopIn (fun i => (env i).polled) (remaining.toNat / xdmaTransferMaxBytes + 2) 0).1 := by
  rw [transferData_polled, transferDataIn_first]

/-- A request behind which no second transfer is created, or which needs none. -/
theorem transferDataIn_oneAddress_iff (p : Polled) (hnon : p.engine.nonIncrAddr = true)
    (transferAddr : Nat) (remaining : Int) (pos : DmaAddr) (envs : Nat → TurnEnv) :
    DataState.OneAddress p.engine.dirToDev pos
        (transferDataIn p transferAddr remaining pos envs).1.log ↔
      remaining ≤ xdmaTransferMaxBytes ∨
        ¬(DataState.first p transferAddr remaining pos).CreatesSecond envs := by
  rw [transferDataIn_first]
  constructor
  · intro hone
    by_contra hnot
    obtain ⟨hlong, hsecond⟩ := not_or.mp hnot
    have hmore : (xdmaTransferMaxBytes : Int) < (DataState.first p transferAddr remaining pos).remaining :=
      Int.not_le.mp hlong
    exact DataState.loopIn_not_oneAddress rfl hnon hmore (not_not.mp hsecond) _ hone
  · exact fun h => @DataState.loopIn_oneAddress (DataState.first p transferAddr remaining pos) envs rfl
      rfl hnon h _

theorem oneAddress_iff_of_passes (p : Polled) (hnon : p.engine.nonIncrAddr = true)
    (transferAddr : Nat) (remaining : Int) (pos : DmaAddr) (envs : Nat → TurnEnv) {P : Prop}
    (hpass : ∀ k t transfer, NewTransfer p.kern k t transfer
      (bufferDescNum (envs 0).create.dma transferAddr xdmaTransferMaxBytes) →
        ((envs 0).waits.Passes (p.setKern k) t ↔ P)) :
    DataState.OneAddress p.engine.dirToDev pos
        (transferDataIn p transferAddr remaining pos envs).1.log ↔
      remaining ≤ xdmaTransferMaxBytes ∨
        ¬(BothGranted transferAddr remaining (fun i => (envs i).create) ∧ P) := by
  rw [transferDataIn_oneAddress_iff p hnon]
  by_cases hshort : remaining ≤ xdmaTransferMaxBytes
  · exact iff_of_true (.inl hshort) (.inl hshort)
  · rw [createsSecond_iff (Int.not_le.mp hshort) hpass]

/-- Nothing is refused, and the transfer is completed when the thread runs again. -/
def irqGranted (dma : Nat → DmaAddr) : IrqEnv where
  create := (dataGranted dma 0).create
  woken := ⟨.idle, .completed⟩
  status := 0

/-- Pages of which no two are neighbours on the bus. -/
def everySecondPage (page : Nat) : DmaAddr := BitVec.ofNat 64 (page * 8192)

end WzXdma
