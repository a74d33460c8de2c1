import WzXdma.Delivery
import WzXdma.TesterRun

/-!
# The tester finds no error

The tester prints nothing, and the bytes it counts are those of the packets that were sent.  Without
the device it goes through the packets in the FIFO one after the other, and then it waits in
`GETBUF`.
-/

namespace WzXdma

open Lib Lib.Cyclic

namespace Tester

open Hdl.RandomSource

/-- The steps of the tester and of its `CONFIRM`. -/
def testerOnly (_ : TestRun) : TestAct → Prop
  | .app => True
  | .world (.restore thread) => thread = 0
  | .world _ => False

section Draining

variable {c : RingConsts} {bus : DmaAddr → Nat} {cs : List (Chunk Byte)} {ws : List (BitVec 49)}
  {d : Driver} {s s' : TestRun}

theorem deviceWaits_of_testerOnly {a : TestAct} (h : testerOnly s a) :
    deviceWaits c.toWzConsts cs s a := by
  cases a with
  | app => trivial
  | world a =>
      cases a with
      | restore thread => exact ⟨trivial, trivial⟩
      | device x => cases h
      | confirm thread first last => cases h
      | scanBegin => cases h
      | scanIter => cases h
      | getbuf => cases h

/-- A `CONFIRM` that has begun ends. -/
theorem confirm_ends {q : Acq} {call : ConfirmCall} (hcall : q.confirms 0 = some call)
    (hcur : call.cur < c.nofbufs) (hlast : call.last < c.nofbufs)
    (hword : call.word < restoreOrder.length) :
    ∃ q', Machine.Reach (Acq.step c.toWzConsts bus) (fun _ a => a = .restore 0) q q' ∧
      q'.confirms 0 = none := by
  -- by induction on the words that are left
  generalize hlen : dist c.nofbufs call.cur call.last * restoreOrder.length +
    (restoreOrder.length - call.word) = len
  induction len generalizing q call with
  | zero => omega
  | succ len ih =>
      have hw := List.getElem?_eq_getElem hword
      obtain ⟨q', hq', hnext⟩ : ∃ q', q.restore c.toWzConsts 0 = some q' ∧
          q'.confirms 0 = call.next c.toWzConsts := by
        rw [Acq.restore, hcall]
        dsimp only
        rw [hw]
        refine ⟨_, rfl, ?_⟩
        show Function.update q.confirms 0 (call.next c.toWzConsts) 0 = _
        rw [Function.update_self]
      by_cases hmore : call.word + 1 < restoreOrder.length
      · rw [ConfirmCall.next_word hmore] at hnext
        obtain ⟨q'', hr, hend⟩ := ih hnext hcur hlast hmore (by dsimp only; omega)
        exact ⟨q'', Machine.Reach.trans (.next .start rfl hq') hr, hend⟩
      · rw [ConfirmCall.next_desc (by omega)] at hnext
        split at hnext
        · exact ⟨q', .next .start rfl hq', hnext⟩
        · rename_i hne
          have hstep := dist_next hcur hlast hne
          rw [← nextDesc_eq] at hstep
          have hnextcur := nextDesc_lt c.nofbufs_pos call.cur
          have hpos : 0 < restoreOrder.length := by decide
          obtain ⟨q'', hr, hend⟩ := ih hnext hnextcur hlast hpos (by
            dsimp only
            rw [← hstep, Nat.succ_mul] at hlen
            omega)
          exact ⟨q'', Machine.Reach.trans (.next .start rfl hq') hr, hend⟩

/-- The tester gets back to `GETBUF` without taking a block. -/
def Returns (c : WzConsts) (bus : DmaAddr → Nat) (d : Driver) (s : TestRun) : Prop :=
  ∃ s', Machine.Reach (Tester.step c bus d) testerOnly s s' ∧ s'.app.phase = .getbuf ∧
    s'.acq.kfifo = s.acq.kfifo

theorem Returns.next (h : Returns c.toWzConsts bus d s') {a : TestAct} (hok : testerOnly s a)
    (hs : Tester.step c.toWzConsts bus d s a = some s') (hfifo : s'.acq.kfifo = s.acq.kfifo) :
    Returns c.toWzConsts bus d s := by
  obtain ⟨s'', hr, hphase, hfifo'⟩ := h
  exact ⟨s'', Machine.Reach.trans (.next .start hok hs) hr, hphase, hfifo'.trans hfifo⟩

/-- The restoring of a block leaves the FIFO and the tester alone. -/
theorem restore_reach {q q' : Acq} {app : App}
    (h : Machine.Reach (Acq.step c.toWzConsts bus) (fun _ a => a = .restore 0) q q') :
    Machine.Reach (Tester.step c.toWzConsts bus d) testerOnly ⟨q, app⟩ ⟨q', app⟩ ∧
      q'.kfifo = q.kfifo := by
  refine ⟨h.map (fun q => (⟨q, app⟩ : TestRun)) fun u a u' ha hstep => ?_, ?_⟩
  · subst ha
    refine .inr ⟨.world (.restore 0), rfl, ?_⟩
    rw [Tester.step, if_neg (by decide), hstep, Option.map_some]
  · refine h.invariant (P := fun u => u.kfifo = q.kfifo) rfl fun u a u' _ hP ha hstep => ?_
    subst ha
    obtain ⟨call, w, -, -, rfl⟩ := Acq.restore_cases hstep
    exact hP

theorem Following.reach (h : Following c cs ws d s)
    (hbuf : BuffersAt c.toWzConsts bus d.ext.bufDmaT (bufBase d))
    (hpages : HasPages c.toWzConsts d) (hcs : Chunks.Sends c.buflen (sentBytes ws) cs)
    (hs : Machine.Reach (Tester.step c.toWzConsts bus d) testerOnly s s') :
    Following c cs ws d s' :=
  hs.invariant h fun _ _ _ _ hP hok hstep =>
    hP.step hbuf hpages hcs (deviceWaits_of_testerOnly hok) hstep

/-- The tester moves, unless it is in one of the calls that wait. -/
theorem Following.moves (h : Following c cs ws d s) (hpages : HasPages c.toWzConsts d)
    (hcs : Chunks.Sends c.buflen (sentBytes ws) cs)
    (hfifo : s.app.phase = .getbuf → s.acq.kfifo ≠ [])
    (hidle : s.app.phase = .confirming → s.acq.confirms 0 = none) :
    ∃ s', appStep c.toWzConsts bus d s = some s' := by
  cases hs : appStep c.toWzConsts bus d s with
  | some s' => exact ⟨s', rfl⟩
  | none =>
      obtain ⟨hphase, hnone⟩ | ⟨hphase, hbusy⟩ := h.waits hpages hcs hs
      · exact absurd hnone (hfifo hphase)
      · exact absurd (hidle hphase) hbusy

/-- In `CONFIRM` -/
theorem Following.confirming_returns (h : Following c cs ws d s) (hphase : s.app.phase = .confirming) :
    Returns c.toWzConsts bus d s := by
  obtain ⟨q, hr, hidle⟩ : ∃ q, Machine.Reach (Acq.step c.toWzConsts bus) (fun _ a => a = .restore 0)
      s.acq q ∧ q.confirms 0 = none := by
    cases hcall : s.acq.confirms 0 with
    | none => exact ⟨s.acq, .start, hcall⟩
    | some call =>
        obtain ⟨t, ht⟩ := h.placed
        have hok := ht.refines.safe.calls 0 call hcall
        exact confirm_ends hcall hok.cur_lt hok.last_lt hok.word_lt
  obtain ⟨hr, hfifo⟩ := @restore_reach _ _ d _ _ s.app hr
  have hstep : Tester.step c.toWzConsts bus d ⟨q, s.app⟩ .app =
      some ⟨q, { s.app with phase := .getbuf }⟩ := by
    rw [Tester.step, appStep, hphase]
    exact if_pos hidle
  exact ⟨_, .next hr (a := .app) trivial hstep, rfl, hfifo⟩

/-- With the block looked through -/
theorem Following.checked_returns (h : Following c cs ws d s)
    (hbuf : BuffersAt c.toWzConsts bus d.ext.bufDmaT (bufBase d))
    (hpages : HasPages c.toWzConsts d) (hcs : Chunks.Sends c.buflen (sentBytes ws) cs)
    {bdesc : WzXdmaDataBlockDesc} (hphase : s.app.phase = .checked bdesc) :
    Returns c.toWzConsts bus d s := by
  obtain ⟨s', hs⟩ := @Following.moves _ bus _ _ _ _ h hpages hcs (by rw [hphase]; intro he; cases he)
    (by rw [hphase]; intro he; cases he)
  have h' := h.step hbuf hpages hcs (a := .app) trivial hs
  obtain ⟨b, q, hp, -⟩ | ⟨b, hp, -⟩ | ⟨v, hp, -⟩ | ⟨b, q, hp, hq, rfl⟩ | ⟨hp, -⟩ := appStep_cases hs
  · rw [hphase] at hp
    cases hp
  · rw [hphase] at hp
    cases hp
  · rw [hphase] at hp
    cases hp
  · obtain ⟨-, -, -, rfl⟩ := Acq.confirm_cases hq
    exact (h'.confirming_returns rfl).next (a := .app) trivial hs rfl
  · rw [hphase] at hp
    cases hp

/-- In the loop over the payload -/
theorem Following.checking_returns (h : Following c cs ws d s)
    (hbuf : BuffersAt c.toWzConsts bus d.ext.bufDmaT (bufBase d))
    (hpages : HasPages c.toWzConsts d) (hcs : Chunks.Sends c.buflen (sentBytes ws) cs)
    {v : Checking} (hphase : s.app.phase = .checking v) : Returns c.toWzConsts bus d s := by
  -- by induction on the turns that are left
  generalize hlen : (v.dlen.toInt - v.i).toNat = len
  induction len using Nat.strongRecOn generalizing s v with
  | ind len ih =>
      have hs : Tester.step c.toWzConsts bus d s .app = some
          { s with app := readPayload c.toWzConsts (dataBuf c.toWzConsts d s.acq.mem) v s.app } := by
        rw [Tester.step, appStep, hphase]
      have h' := h.step hbuf hpages hcs (a := .app) trivial hs
      refine Returns.next ?_ (a := .app) trivial hs rfl
      by_cases hi : (v.i : Int) < v.dlen.toInt
      · have hless : (v.dlen.toInt - (v.i + 32 : Nat)).toNat < len := by omega
        refine ih _ hless h' (v := { v with
          dtaIndex := (v.dtaIndex + 32) &&& (totBufLen c.toWzConsts - 1)
          dinit := v.dinit + v.dstep
          i := v.i + 32 }) ?_ rfl
        rw [readPayload, if_pos hi]
      · refine @Following.checked_returns _ _ _ _ _ _ h' hbuf hpages hcs v.bdesc ?_
        rw [readPayload, if_neg hi]

/-- From anywhere in its loop -/
theorem Following.returns (h : Following c cs ws d s)
    (hbuf : BuffersAt c.toWzConsts bus d.ext.bufDmaT (bufBase d))
    (hpages : HasPages c.toWzConsts d) (hcs : Chunks.Sends c.buflen (sentBytes ws) cs) :
    Returns c.toWzConsts bus d s := by
  cases hphase : s.app.phase with
  | getbuf => exact ⟨s, .start, hphase, rfl⟩
  | received bdesc =>
      have hs : Tester.step c.toWzConsts bus d s .app = some
          { s with
            app := readHeader c.toWzConsts (dataBuf c.toWzConsts d s.acq.mem) bdesc s.app } := by
        rw [Tester.step, appStep, hphase]
      have h' := h.step hbuf hpages hcs (a := .app) trivial hs
      refine Returns.next ?_ (a := .app) trivial hs rfl
      cases hfirst : s.app.first with
      | true =>
          refine @Following.checked_returns _ _ _ _ _ _ h' hbuf hpages hcs bdesc ?_
          rw [readHeader, if_pos hfirst]
      | false =>
          obtain ⟨v, hv⟩ : ∃ v, (readHeader c.toWzConsts (dataBuf c.toWzConsts d s.acq.mem) bdesc
              s.app).phase = .checking v := by
            rw [readHeader, hfirst, if_neg Bool.false_ne_true]
            exact ⟨_, rfl⟩
          exact h'.checking_returns hbuf hpages hcs hv
  | checking v => exact h.checking_returns hbuf hpages hcs hphase
  | checked bdesc => exact h.checked_returns hbuf hpages hcs hphase
  | confirming => exact h.confirming_returns hphase

/-- The tester empties the FIFO. -/
theorem Following.drains (h : Following c cs ws d s)
    (hbuf : BuffersAt c.toWzConsts bus d.ext.bufDmaT (bufBase d))
    (hpages : HasPages c.toWzConsts d) (hcs : Chunks.Sends c.buflen (sentBytes ws) cs) :
    ∃ s', Machine.Reach (Tester.step c.toWzConsts bus d) testerOnly s s' ∧
      s'.app.phase = .getbuf ∧ s'.acq.kfifo = [] := by
  generalize hfifo : s.acq.kfifo = fifo
  induction fifo generalizing s with
  | nil =>
      obtain ⟨s', hr, hphase, hfifo'⟩ := h.returns hbuf hpages hcs
      exact ⟨s', hr, hphase, hfifo'.trans hfifo⟩
  | cons db rest ih =>
      obtain ⟨s₁, hr₁, hphase₁, hfifo₁⟩ := h.returns hbuf hpages hcs
      rw [hfifo] at hfifo₁
      have hs : Tester.step c.toWzConsts bus d s₁ .app = some
          ⟨{ s₁.acq with kfifo := rest, got := s₁.acq.got ++ [db] },
            { s₁.app with phase := .received db, curLen := 0 }⟩ := by
        rw [Tester.step, appStep, hphase₁]
        dsimp only
        rw [hfifo₁, Acq.step]
        dsimp only
        rw [hfifo₁, Option.map_some]
      have hok : testerOnly s₁ .app := trivial
      have hr₂ := Machine.Reach.next hr₁ hok hs
      obtain ⟨s', hr', hphase', hfifo'⟩ := ih (h.reach hbuf hpages hcs hr₂) rfl
      exact ⟨s', Machine.Reach.trans hr₂ hr', hphase', hfifo'⟩

/-- The tester completes no descriptor, and what it takes is the front of the FIFO. -/
theorem tester_frame (hs : Machine.Reach (Tester.step c.toWzConsts bus d) testerOnly s s') :
    s'.acq.done = s.acq.done ∧ s'.acq.got ++ s'.acq.kfifo = s.acq.got ++ s.acq.kfifo := by
  refine hs.invariant (P := fun u => u.acq.done = s.acq.done ∧
    u.acq.got ++ u.acq.kfifo = s.acq.got ++ s.acq.kfifo) ⟨rfl, rfl⟩ ?_
  rintro u a u' - ⟨hdone, hfifo⟩ hok hstep
  cases a with
  | world a =>
      cases a with
      | restore thread =>
          obtain rfl : thread = 0 := hok
          rw [Tester.step, if_neg (by decide)] at hstep
          obtain ⟨q, hq, rfl⟩ := Option.map_eq_some_iff.mp hstep
          obtain ⟨call, w, -, -, rfl⟩ := Acq.restore_cases hq
          exact ⟨hdone, hfifo⟩
      | device x => cases hok
      | confirm thread first last => cases hok
      | scanBegin => cases hok
      | scanIter => cases hok
      | getbuf => cases hok
  | app =>
      obtain ⟨bdesc, q, -, hq, -, -, -, rfl⟩ | ⟨bdesc, -, rfl⟩ | ⟨v, -, rfl⟩ | ⟨bdesc, q, -, hq, rfl⟩ |
        ⟨-, -, rfl⟩ := appStep_cases hstep
      · simp only [Acq.step] at hq
        split at hq
        · cases hq
        · rename_i db rest hk
          obtain rfl := Option.some.inj hq
          rw [hk] at hfifo
          refine ⟨hdone, ?_⟩
          show (u.acq.got ++ [db]) ++ rest = _
          rw [← hfifo, List.append_assoc, List.singleton_append]
      · exact ⟨hdone, hfifo⟩
      · exact ⟨hdone, hfifo⟩
      · obtain ⟨-, -, -, rfl⟩ := Acq.confirm_cases hq
        exact ⟨hdone, hfifo⟩
      · exact ⟨hdone, hfifo⟩

/-- The scan of a service run next to a tester that does nothing -/
theorem scan_reach {q q' : Acq} {app : App}
    (h : Machine.Reach (Acq.step c.toWzConsts bus) (fun _ a => a = .scanIter) q q') :
    Machine.Reach (Tester.step c.toWzConsts bus d) (deviceWaits c.toWzConsts cs) ⟨q, app⟩ ⟨q', app⟩ ∧
      q'.done = q.done := by
  refine ⟨h.map (fun q => (⟨q, app⟩ : TestRun)) fun u a u' ha hstep => ?_, ?_⟩
  · subst ha
    refine .inr ⟨.world .scanIter, ⟨trivial, trivial⟩, ?_⟩
    rw [Tester.step, if_neg (by decide), hstep, Option.map_some]
  · refine h.invariant (P := fun u => u.done = q.done) rfl fun u a u' _ hP ha hstep => ?_
    subst ha
    exact (Refines.done_eq (fun x => AcqAct.noConfusion) hstep).trans hP

theorem Following.reach_waits (h : Following c cs ws d s)
    (hbuf : BuffersAt c.toWzConsts bus d.ext.bufDmaT (bufBase d))
    (hpages : HasPages c.toWzConsts d) (hcs : Chunks.Sends c.buflen (sentBytes ws) cs)
    (hs : Machine.Reach (Tester.step c.toWzConsts bus d) (deviceWaits c.toWzConsts cs) s s') :
    Following c cs ws d s' :=
  hs.invariant h fun _ _ _ _ hP hok hstep => hP.step hbuf hpages hcs hok hstep

/-- A service run later the tester takes and confirms all that was completed. -/
theorem Following.catches_up (h : Following c cs ws d s)
    (hbuf : BuffersAt c.toWzConsts bus d.ext.bufDmaT (bufBase d))
    (hpages : HasPages c.toWzConsts d) (hcs : Chunks.Sends c.buflen (sentBytes ws) cs)
    (hscan : s.acq.scan = none) (hsize : s.acq.kfifoSize = c.nofbufs) :
    ∃ s', Machine.Reach (Tester.step c.toWzConsts bus d) (deviceWaits c.toWzConsts cs) s s' ∧
      s'.app.phase = .getbuf ∧ s'.acq.kfifo = [] ∧ s'.acq.done = s.acq.done ∧
      s'.acq.got = blocks c.toWzConsts s.acq.done ∧
      s'.acq.confirmed = (blocks c.toWzConsts s.acq.done).length := by
  have hbegin : Tester.step c.toWzConsts bus d s (.world .scanBegin) =
      some { s with acq := { s.acq with scan := some s.acq.blockScannedDesc } } := by
    rw [Tester.step, if_neg (by decide), Acq.step, if_pos hscan, Option.map_some]
  have hwaits : deviceWaits c.toWzConsts cs s (.world .scanBegin) := ⟨trivial, trivial⟩
  have hr₁ := Machine.Reach.next .start hwaits hbegin
  obtain ⟨t, ht⟩ := (h.reach_waits hbuf hpages hcs hr₁).placed
  obtain ⟨q, hq, -, hseen⟩ := Delivery.scan_ends bus ht.refines ht.room hsize
  obtain ⟨hr₂, hdone₂⟩ := @scan_reach _ _ cs d _ _ s.app hq
  have hr₂ := Machine.Reach.trans hr₁ hr₂
  have h₂ := h.reach_waits hbuf hpages hcs hr₂
  obtain ⟨t', ht'⟩ := h₂.placed
  have hall := Delivery.reported_of_seen ht'.refines ht'.room (hseen (Option.some_ne_none _))
  obtain ⟨s', hr₃, hphase, hfifo⟩ := h₂.drains hbuf hpages hcs
  obtain ⟨hdone₃, hgot⟩ := tester_frame hr₃
  rw [hfifo, List.append_nil, hall, hdone₂] at hgot
  have hr := Machine.Reach.trans hr₂ (hr₃.mono fun _ _ hok => deviceWaits_of_testerOnly hok)
  have hat := (h.reach_waits hbuf hpages hcs hr).phase
  rw [hphase] at hat
  obtain ⟨hlen, -, -⟩ := hat
  exact ⟨s', hr, hphase, hfifo, hdone₃.trans hdone₂, hgot, by rw [← hlen, hgot]⟩

end Draining

/-! ## A ring for two packets

Four buffers that each hold a packet of `axi4s_src3`, on which the device completes two packets. -/

section TwoPackets

def packetBuffers : RingConsts where
  nofbufs := 4
  buflen := 2 ^ 25
  nofbufsLog := 2
  buflenLog := 25
  nofbufs_eq := by decide
  nofbufs_log := by decide
  buflen_eq := by decide
  buflen_log := by decide

/-- Buffer `i` has its page block at frame `8192 * (i + 1)`, mapped one to one. -/
def allocPackets : AllocEnv where
  pages := fun i => some (8192 * (i + 1))
  maps := fun i => BitVec.ofNat 64 (8192 * (i + 1) * pageSize)
  copy := some fun _ => .zero
  kfifo := true

theorem pagesMapped_packets {d : Driver}
    (h : ∀ i, i < 4 → d.bufPfn i = some (8192 * (i + 1))) :
    PagesMapped packetBuffers.toWzConsts BitVec.toNat allocPackets.maps d := by
  have hpage : pageSize = 4096 := by decide
  have hlen : packetBuffers.buflen = 33554432 := rfl
  have hpfn : ∀ i pfn, i < 4 → d.bufPfn i = some pfn → pfn = 8192 * (i + 1) :=
    fun i pfn hi he => Option.some.inj (he.symm.trans (h i hi))
  constructor
  · intro i pfn hi he k hk
    have hi : i < 4 := hi
    rw [hlen] at hk
    simp only [allocPackets]
    rw [hpfn i pfn hi he, hpage, BitVec.toNat_add, BitVec.toNat_ofNat, BitVec.toNat_ofNat,
      ← Nat.add_mod]
    exact Nat.mod_eq_of_lt (by omega)
  · intro i j pfn pfn' hi hj hij he he'
    rw [hpfn i pfn hi he, hpfn j pfn' hj he', hpage, hlen]
    omega

theorem packets_started :
    ∃ (s : Sys) (d : Driver),
      Sys.step packetBuffers.toWzConsts .created (.allocBuffers allocPackets) = some s ∧
      ((Sys.created).drv.ioctlDoWzAllocBuffers packetBuffers.toWzConsts allocPackets).2 = 0 ∧
      s.drv.ioctlDoWzStart packetBuffers.toWzConsts startGranted = .ok (d, 0) ∧
      PagesMapped packetBuffers.toWzConsts BitVec.toNat s.mapped d ∧ d.ext.kfifoSize = 4 ∧
      ∀ mem, ((Acq.ofDriver d mem).desc 0).Accepted ∧ ((Acq.ofDriver d mem).desc 1).Accepted := by
  obtain ⟨s, hs⟩ : ∃ s, Sys.step packetBuffers.toWzConsts .created (.allocBuffers allocPackets) =
      some s := ⟨_, rfl⟩
  have hmapped : s.mapped = allocPackets.maps := by
    obtain rfl := Option.some.inj hs
    rfl
  have hrun : ((Sys.step packetBuffers.toWzConsts .created (.allocBuffers allocPackets)).map fun s =>
      (s.drv.ioctlDoWzStart packetBuffers.toWzConsts startGranted).toOption.any fun r =>
        ((List.range 4).all fun i => r.1.bufPfn i == some (8192 * (i + 1))) &&
          decide (r.2 = 0 ∧ r.1.ext.kfifoSize = 4 ∧ ((r.1.ringDesc 0).getD .zero).Accepted ∧
            ((r.1.ringDesc 1).getD .zero).Accepted)) = some true := by decide +kernel
  rw [hs, Option.map_some, Option.some.injEq, Option.any_eq_true] at hrun
  obtain ⟨⟨d, rc⟩, hd, hrun⟩ := hrun
  rw [toOption_eq_some] at hd
  simp only [Bool.and_eq_true, decide_eq_true_eq, List.all_eq_true, List.mem_range,
    beq_iff_eq] at hrun
  obtain ⟨hpfn, rfl, hsize, h0, h1⟩ := hrun
  have hpages := pagesMapped_packets hpfn
  rw [← hmapped] at hpages
  exact ⟨s, d, hs, by decide +kernel, hd, hpages, hsize, fun _ => ⟨h0, h1⟩⟩

/-- A packet that is alone in its buffer -/
def whole (pkt : List Byte) : Completion := ⟨true, BitVec.ofNat 32 pkt.length, pkt⟩

theorem sends_whole {n : Nat} {pkt₁ pkt₂ : List Byte} (h₁ : pkt₁.length ≤ n) (h₂ : pkt₂.length ≤ n) :
    Chunks.Sends n [pkt₁, pkt₂] [toChunk (whole pkt₁), toChunk (whole pkt₂)] :=
  .cons (.last h₁) (.cons (.last h₂) .nil)

/-- The device completes two packets one after the other. -/
theorem completes_two {d : Driver} {mem : Nat → Byte} (h0 : ((Acq.ofDriver d mem).desc 0).Accepted)
    (h1 : ((Acq.ofDriver d mem).desc 1).Accepted) (pkt₁ pkt₂ : List Byte) :
    ∃ q₁ q₂, (Acq.ofDriver d mem).step packetBuffers.toWzConsts BitVec.toNat (.device (whole pkt₁)) =
        some q₁ ∧
      q₁.step packetBuffers.toWzConsts BitVec.toNat (.device (whole pkt₂)) = some q₂ ∧
      (leavesRoom packetBuffers.toWzConsts (Acq.ofDriver d mem) (.device (whole pkt₁)) ∧
        sends [toChunk (whole pkt₁), toChunk (whole pkt₂)] (Acq.ofDriver d mem)
          (.device (whole pkt₁))) ∧
      (leavesRoom packetBuffers.toWzConsts q₁ (.device (whole pkt₂)) ∧
        sends [toChunk (whole pkt₁), toChunk (whole pkt₂)] q₁ (.device (whole pkt₂))) ∧
      q₂.done = [whole pkt₁, whole pkt₂] ∧ q₂.scan = none ∧ q₂.kfifoSize = d.ext.kfifoSize := by
  have hdevice : ∀ {q : Acq} {i : Nat} (x : Completion), q.stopped = false → q.pos = i →
      (q.desc i).Accepted → q.step packetBuffers.toWzConsts BitVec.toNat (.device x) =
        some (q.complete packetBuffers.toWzConsts BitVec.toNat x) := by
    rintro q i x hstop rfl hacc
    rw [Acq.step, Acq.device, hstop, if_neg Bool.false_ne_true, if_pos hacc]
  have hne : (1 : Nat) ≠ 0 := Nat.one_ne_zero
  refine ⟨_, _, hdevice (i := 0) _ rfl rfl h0, hdevice (i := 1) _ rfl rfl ?_,
    ⟨⟨1, by decide, hne, rfl⟩, List.prefix_append [toChunk (whole pkt₁)] [toChunk (whole pkt₂)],
      fun _ => rfl⟩, ⟨⟨2, by decide, ?_, ?_⟩, List.prefix_rfl, fun _ => rfl⟩, rfl, rfl, rfl⟩
  · show (Function.update (Acq.ofDriver d mem).desc 0
      (((Acq.ofDriver d mem).desc 0).writeback true (BitVec.ofNat 32 pkt₁.length)) 1).Accepted
    rw [Function.update_of_ne hne]
    exact h1
  · show (2 : Nat) ≠ 1
    decide
  · show Function.update (fun _ => false) 0 true 2 = false
    rw [Function.update_of_ne (by decide)]

/-- The source sends two packets to a consumer that takes everything. -/
theorem two_packets_sent {input : Nat → Inputs} {st : Nat → Hdl.RandomSource.State}
    (h : Run input st) (hready : ∀ n, (input n).tready = true)
    (hstart : ∀ n, (input n).start = true) :
    ∃ n w₁ w₂, (Records.records Beat.tlast (beats input st n)).length = 2 ∧
      (Records.records Beat.tlast (beats input st n)).map packetBytes =
        [packetBytes (paramsOf w₁).packet, packetBytes (paramsOf w₂).packet] := by
  obtain ⟨n, ws, hlen, -, hbeats⟩ := h.sends hready hstart 2
  obtain ⟨w₁, w₂, rfl⟩ := List.length_eq_two.mp hlen
  have hpackets : ∀ p ∈ [w₁, w₂].map fun w => (paramsOf w).packet,
      Records.IsRecord Beat.tlast p := by
    intro p hp
    obtain ⟨w, -, rfl⟩ := List.mem_map.mp hp
    exact (paramsOf w).isRecord
  have hrecords : Records.records Beat.tlast (beats input st n) =
      [(paramsOf w₁).packet, (paramsOf w₂).packet] := by
    rw [hbeats, ← List.append_nil (List.flatten _),
      Records.records_flatten hpackets fun y hy => absurd hy List.not_mem_nil, List.map_cons,
      List.map_singleton]
  refine ⟨n, w₁, w₂, ?_, ?_⟩
  · rw [hrecords]
    rfl
  · rw [hrecords, List.map_cons, List.map_singleton]

theorem packet_fits (w : BitVec 49) :
    (packetBytes (paramsOf w).packet).length ≤ packetBuffers.buflen := by
  have hbounds := paramsOf_len w
  have hlen : packetBuffers.buflen = 33554432 := rfl
  rw [(paramsOf w).length_packetBytes, hlen]
  omega

/-- The second packet is counted. -/
theorem countedBefore_two (pkt₁ pkt₂ : List Byte) : countedBefore [pkt₁, pkt₂] 2 = pkt₂.length :=
  Nat.zero_add _

end TwoPackets

/-- The tester reads what the source has sent: it never prints an error, its total is the number
of bytes of the packets it has confirmed after the first one, and the only calls it waits in
are `GETBUF` for a block and `CONFIRM` for its end. -/
theorem tester_finds_no_error (c : RingConsts) (s₁ s₂ s₀ : Sys) (hs₁ : s₁.Reachable c.toWzConsts)
    (hnone : ∀ i, s₁.drv.ext.desc i = none) (aenv : AllocEnv)
    (halloc : Sys.step c.toWzConsts s₁ (.allocBuffers aenv) = some s₂)
    (hrc : (s₁.drv.ioctlDoWzAllocBuffers c.toWzConsts aenv).2 = 0)
    (hs₀ : Machine.Reach (Sys.step c.toWzConsts) (fun _ a => a.isStart = false) s₂ s₀)
    (env : StartEnv) (d : Driver)
    (hstart : s₀.drv.ioctlDoWzStart c.toWzConsts env = .ok (d, 0)) (bus : DmaAddr → Nat)
    (hpages : PagesMapped c.toWzConsts bus s₀.mapped d) (input : Nat → Hdl.RandomSource.Inputs)
    (st : Nat → Hdl.RandomSource.State) (hsource : Run input st) (n : Nat)
    (cs : List (Chunk Byte))
    (hcs : Chunks.Sends c.buflen
      ((Records.records Hdl.RandomSource.Beat.tlast (beats input st n)).map packetBytes) cs)
    (mem : Nat → Byte) (s : TestRun)
    (hs : Machine.Reach (Tester.step c.toWzConsts bus d) (deviceWaits c.toWzConsts cs)
      (started d mem) s) :
    s.app.printed = [] ∧
      s.app.totLen = countedBefore
        ((Records.records Hdl.RandomSource.Beat.tlast (beats input st n)).map packetBytes)
        s.acq.confirmed ∧
      (appStep c.toWzConsts bus d s = none →
        (s.app.phase = .getbuf ∧ s.acq.kfifo = []) ∨
          (s.app.phase = .confirming ∧ s.acq.confirms 0 ≠ none)) := by
  obtain ⟨hst, hfifo, hbufs⟩ := first_start hs₁ hnone halloc hrc hs₀ hstart
  have hbuf : BuffersAt c.toWzConsts bus d.ext.bufDmaT (bufBase d) := hpages.buffersAt hbufs
  have hknown : HasPages c.toWzConsts d := fun i hi => (hbufs i hi).2
  obtain ⟨ws, hpkts⟩ := sentBytes_of_run hsource n
  rw [hpkts] at hcs ⊢
  have h : Following c cs ws d s := by
    refine hs.invariant (.started ⟨_, .started hst hfifo mem⟩) ?_
    exact fun _ _ _ _ hP hok hstep => hP.step hbuf hknown hcs hok hstep
  exact ⟨h.quiet, h.total, h.waits hknown hcs⟩

/-- The source sends two packets, which the device puts into the first two buffers.  The tester takes
both of them, looks through the second one and confirms them. -/
theorem tester_finds_no_error_packets :
    let input : Nat → Inputs := fun _ => ⟨true, true, true⟩
    let st := Clocked.stateAt next { resetState with shiftReg := BitVec.allOnes 49 } input
    ∃ (n : Nat) (cs : List (Chunk Byte)) (d : Driver) (s : TestRun),
      (Records.records Beat.tlast (beats input st n)).length = 2 ∧
      Machine.Reach (Tester.step packetBuffers.toWzConsts BitVec.toNat d)
        (deviceWaits packetBuffers.toWzConsts cs) (started d fun _ => 0) s ∧
      s.acq.done.map toChunk = cs ∧ s.acq.confirmed = 2 ∧ s.app.phase = .getbuf ∧
      0 < s.app.totLen ∧ s.app.printed = [] := by
  intro input st
  have hsource : Run input st := run_of_reset (fun _ => rfl) (BitVec.allOnes 49)
  obtain ⟨n, w₁, w₂, hlength, hsent⟩ := two_packets_sent hsource (fun _ => rfl) fun _ => rfl
  have hcs := sends_whole (packet_fits w₁) (packet_fits w₂)
  obtain ⟨s₂, d, halloc, hrc, hstart, hpages, hsize, haccepted⟩ := packets_started
  obtain ⟨q₁, q₂, hq₁, hq₂, hok₁, hok₂, hdone, hscan, hkfifo⟩ :=
    completes_two (haccepted fun _ => 0).1 (haccepted fun _ => 0).2 (packetBytes (paramsOf w₁).packet)
      (packetBytes (paramsOf w₂).packet)
  obtain ⟨cs, hchunks⟩ : ∃ cs, [toChunk (whole (packetBytes (paramsOf w₁).packet)),
    toChunk (whole (packetBytes (paramsOf w₂).packet))] = cs := ⟨_, rfl⟩
  rw [hchunks] at hcs hok₁ hok₂
  -- the device
  have hr : Machine.Reach (Tester.step packetBuffers.toWzConsts BitVec.toNat d)
      (deviceWaits packetBuffers.toWzConsts cs) (started d fun _ => 0)
      ⟨q₂, (started d fun _ => 0).app⟩ :=
    Machine.Reach.trans
      (.next .start (a := .world (.device _)) hok₁ (Option.map_eq_some_iff.mpr ⟨q₁, hq₁, rfl⟩))
      (.next .start (a := .world (.device _)) hok₂ (Option.map_eq_some_iff.mpr ⟨q₂, hq₂, rfl⟩))
  -- the scan and the tester
  obtain ⟨hst, hfifo, hbufs⟩ := first_start .start (fun _ => rfl) halloc hrc .start hstart
  have hbuf := hpages.buffersAt hbufs
  have hknown : HasPages packetBuffers.toWzConsts d := fun i hi => (hbufs i hi).2
  have h₀ : Following packetBuffers cs [w₁, w₂] d (started d fun _ => 0) :=
    .started ⟨_, .started hst hfifo fun _ => 0⟩
  obtain ⟨s, hr', hphase, -, hdone', -, hconfirmed⟩ :=
    (h₀.reach_waits hbuf hknown hcs hr).catches_up hbuf hknown hcs hscan (hkfifo.trans hsize)
  have hs := Machine.Reach.trans hr hr'
  rw [hdone] at hdone' hconfirmed
  have htwo : s.acq.confirmed = 2 := hconfirmed
  obtain ⟨hquiet, htotal, -⟩ := tester_finds_no_error packetBuffers .created s₂ s₂ .start
    (fun _ => rfl) allocPackets halloc hrc .start startGranted d hstart BitVec.toNat hpages input st
    hsource n cs (by rw [hsent]; exact hcs) (fun _ => 0) s hs
  rw [hsent, htwo, countedBefore_two, (paramsOf w₂).length_packetBytes] at htotal
  have hbounds := paramsOf_len w₂
  exact ⟨n, cs, d, s, hlength, hs, by rw [hdone']; exact hchunks, htwo, hphase, by omega, hquiet⟩

end Tester

end WzXdma
