import WzXdma.Overrun

/-!
# One acquisition after the other

`START` resets the two cursors and builds a new ring, but the FIFO belongs to
`ALLOC_BUFFERS`: what a `STOP` leaves in it is there for the next `START`.  A session is
a sequence of acquisitions on the same buffers.  Inside an acquisition the steps are
those of `Acq`, with the calls of `GETBUF` that fail to copy their block added.

`SinceStart` says that the cursors and the FIFO of an acquisition speak of descriptors
completed since its `START`.  It holds from an empty FIFO on.
-/

namespace WzXdma

open Lib Lib.Cyclic

namespace Acq

/-- The device has completed descriptor `i` since `START`.  It takes the descriptors in
the order of the ring. -/
def CompletedAt (c : WzConsts) (s : Acq) (i : Nat) : Prop :=
  ∃ k, k < s.done.length ∧ k % c.nofbufs = i

/-- All descriptors of the block were completed since `START`. -/
def Describes (c : WzConsts) (s : Acq) (db : WzXdmaDataBlockDesc) : Prop :=
  db.firstDesc.toNat < c.nofbufs ∧ db.lastDesc.toNat < c.nofbufs ∧
    ∀ i, Covers c.nofbufs db.firstDesc.toNat db.lastDesc.toNat i → s.CompletedAt c i

/-- The blocks handed out in an acquisition are its own, from descriptor 0 on. -/
structure OwnBlocks (c : WzConsts) (s : Acq) : Prop where
  own : ∀ db ∈ s.got, s.Describes c db
  first : ∀ db, s.got.head? = some db → db.firstDesc = 0

/-- The scan has come from the first descriptor of the block to `p` over completed ones. -/
def Walked (c : WzConsts) (s : Acq) (p : Nat) : Prop :=
  ∃ m, p = (s.blockFirstDesc + m) % c.nofbufs ∧
    ∀ k, k < m → s.CompletedAt c ((s.blockFirstDesc + k) % c.nofbufs)

structure SinceStart (c : WzConsts) (s : Acq) : Prop where
  pos : s.pos = s.done.length % c.nofbufs
  copy : ∀ i, i < c.nofbufs → ¬(s.descCopy i).toResult.HasWb
  wb : ∀ i, i < c.nofbufs → (s.desc i).toResult.HasWb → s.CompletedAt c i
  first : s.blockFirstDesc < c.nofbufs
  scanned : s.Walked c s.blockScannedDesc
  scan : ∀ check, s.scan = some check → s.Walked c check
  fifo : ∀ db ∈ s.kfifo, s.Describes c db
  got : s.OwnBlocks c
  /-- until a block is taken, the one to come first begins at descriptor 0 -/
  next : s.got = [] →
    (s.kfifo.head?.map (·.firstDesc)).getD (BitVec.ofNat 32 s.blockFirstDesc) = 0

variable {c : RingConsts} {s s' : Acq}

/-! ## What more completions leave true -/

theorem CompletedAt.mono {c : WzConsts} {i : Nat} (h : s.CompletedAt c i)
    (hdone : s.done <+: s'.done) : s'.CompletedAt c i := by
  obtain ⟨k, hk, hi⟩ := h
  exact ⟨k, Nat.lt_of_lt_of_le hk hdone.length_le, hi⟩

theorem Describes.mono {c : WzConsts} {db : WzXdmaDataBlockDesc} (h : s.Describes c db)
    (hdone : s.done <+: s'.done) : s'.Describes c db :=
  ⟨h.1, h.2.1, fun i hi => (h.2.2 i hi).mono hdone⟩

theorem Walked.mono {c : WzConsts} {p : Nat} (h : s.Walked c p) (hdone : s.done <+: s'.done)
    (hfirst : s'.blockFirstDesc = s.blockFirstDesc) : s'.Walked c p := by
  obtain ⟨m, hp, hm⟩ := h
  refine ⟨m, by rw [hfirst]; exact hp, fun k hk => ?_⟩
  rw [hfirst]
  exact (hm k hk).mono hdone

theorem Walked.start {c : WzConsts} (h : s.blockFirstDesc < c.nofbufs) :
    s.Walked c s.blockFirstDesc :=
  ⟨0, by rw [Nat.add_zero, Nat.mod_eq_of_lt h], fun k hk => absurd hk (Nat.not_lt_zero k)⟩

/-- One more completed descriptor. -/
theorem Walked.next {p : Nat} (h : s.Walked c.toWzConsts p)
    (hp : s.CompletedAt c.toWzConsts p) :
    s.Walked c.toWzConsts (nextDesc c.nofbufs p) := by
  obtain ⟨m, rfl, hm⟩ := h
  refine ⟨m + 1, by rw [nextDesc_mod, Nat.add_assoc], fun k hk => ?_⟩
  by_cases hkm : k = m
  · rw [hkm]
    exact hp
  · exact hm k (by omega)

/-- The walk, with its last descriptor completed, meets only completed ones. -/
theorem Walked.covers {c : WzConsts} {p i : Nat} (h : s.Walked c p) (hp : s.CompletedAt c p)
    (hfirst : s.blockFirstDesc < c.nofbufs) (hi : Covers c.nofbufs s.blockFirstDesc p i) :
    s.CompletedAt c i := by
  obtain ⟨m, rfl, hm⟩ := h
  have hlt : m % c.nofbufs < c.nofbufs := Nat.mod_lt _ (by omega)
  have hle : m % c.nofbufs ≤ m := Nat.mod_le _ _
  have hp' : (s.blockFirstDesc + m) % c.nofbufs =
      (s.blockFirstDesc + m % c.nofbufs) % c.nofbufs := (Nat.add_mod_mod ..).symm
  rw [hp', ← Nat.mod_eq_of_lt hfirst, Nat.mod_add_mod] at hi
  obtain ⟨k, hk, hk', rfl⟩ := covers_mod (Nat.le_add_right ..) (by omega) hi
  obtain ⟨j, rfl⟩ := Nat.exists_eq_add_of_le hk
  by_cases hj : j = m
  · rw [hj]
    exact hp
  · exact hm j (by omega)

/-! ## The steps -/

namespace SinceStart

/-- Steps that complete at most one more descriptor and leave the cursors and the FIFO
alone. -/
theorem of_same (h : SinceStart c.toWzConsts s) (hpos : s'.pos = s'.done.length % c.nofbufs)
    (hcopy : s'.descCopy = s.descCopy)
    (hwb : ∀ i, i < c.nofbufs → (s'.desc i).toResult.HasWb → s'.CompletedAt c.toWzConsts i)
    (hdone : s.done <+: s'.done) (hcursor : s'.toBlockScan = s.toBlockScan)
    (hscan : s'.scan = s.scan) (hgot : s'.got = s.got) : SinceStart c.toWzConsts s' := by
  have hfirst : s'.blockFirstDesc = s.blockFirstDesc := by rw [hcursor]
  have hscanned : s'.blockScannedDesc = s.blockScannedDesc := by rw [hcursor]
  have hkfifo : s'.kfifo = s.kfifo := by rw [hcursor]
  constructor
  · exact hpos
  · rw [hcopy]
    exact h.copy
  · exact hwb
  · rw [hfirst]
    exact h.first
  · rw [hscanned]
    exact h.scanned.mono hdone hfirst
  · intro check hcheck
    rw [hscan] at hcheck
    exact (h.scan check hcheck).mono hdone hfirst
  · rw [hkfifo]
    exact fun db hdb => (h.fifo db hdb).mono hdone
  · refine ⟨?_, ?_⟩ <;> rw [hgot]
    · exact fun db hdb => (h.got.own db hdb).mono hdone
    · exact h.got.first
  · rw [hgot, hkfifo, hfirst]
    exact h.next

theorem device {bus : DmaAddr → Nat} {x : Completion} (h : SinceStart c.toWzConsts s)
    (hs : s.device c.toWzConsts bus x = some s') : SinceStart c.toWzConsts s' := by
  obtain ⟨-, ⟨-, rfl⟩ | ⟨-, rfl⟩⟩ := device_cases hs
  · have hdone : s.done <+: s.done ++ [x] := List.prefix_append _ _
    refine h.of_same ?_ rfl (fun i hi hwb => ?_) hdone rfl rfl rfl
    · show (s.pos + 1) % c.nofbufs = (s.done ++ [x]).length % c.nofbufs
      rw [h.pos, List.length_append, List.length_singleton, Nat.mod_add_mod]
    · by_cases hip : i = s.pos
      · refine ⟨s.done.length, ?_, ?_⟩
        · show s.done.length < (s.done ++ [x]).length
          rw [List.length_append, List.length_singleton]
          omega
        · rw [hip, h.pos]
      · have hdesc : (s.complete c.toWzConsts bus x).desc i = s.desc i :=
          Function.update_of_ne hip _ _
        rw [hdesc] at hwb
        exact (h.wb i hi hwb).mono hdone
  · exact h.of_same h.pos rfl h.wb (List.prefix_refl _) rfl rfl rfl

theorem restore {thread : Nat} (h : SinceStart c.toWzConsts s)
    (hs : s.restore c.toWzConsts thread = some s') : SinceStart c.toWzConsts s' := by
  obtain ⟨call, w, -, -, rfl⟩ := restore_cases hs
  refine h.of_same h.pos rfl (fun i hi hwb => ?_) (List.prefix_refl _) rfl rfl rfl
  by_cases hic : i = call.cur
  · subst hic
    simp only [Function.update_self] at hwb
    by_cases hw : w = .control
    · subst hw
      exact absurd hwb (h.copy _ hi)
    · have hctrl : ((s.desc call.cur).copyWord (s.descCopy call.cur) w).control =
          (s.desc call.cur).control := XdmaDesc.copyWord_control hw
      refine h.wb _ hi ?_
      simpa only [XdmaResult.HasWb, XdmaDesc.toResult, hctrl] using hwb
  · simp only [Function.update_of_ne hic] at hwb
    exact h.wb i hi hwb

/-- The block that ends at a completed descriptor. -/
theorem describes {p : Nat} (h : SinceStart c.toWzConsts s) (hp : s.Walked c.toWzConsts p)
    (hdone : s.CompletedAt c.toWzConsts p) (len : Word) :
    s.Describes c.toWzConsts ⟨BitVec.ofNat 32 s.blockFirstDesc, BitVec.ofNat 32 p, len⟩ := by
  have hle := c.nofbufs_le
  have hp' : p < c.nofbufs := by
    obtain ⟨m, rfl, -⟩ := hp
    exact Nat.mod_lt _ c.nofbufs_pos
  have hfirst : (BitVec.ofNat 32 s.blockFirstDesc).toNat = s.blockFirstDesc := by
    rw [BitVec.toNat_ofNat]
    exact Nat.mod_eq_of_lt (Nat.lt_of_lt_of_le h.first hle)
  have hlast : (BitVec.ofNat 32 p).toNat = p := by
    rw [BitVec.toNat_ofNat]
    exact Nat.mod_eq_of_lt (Nat.lt_of_lt_of_le hp' hle)
  refine ⟨?_, ?_, fun i hi => ?_⟩
  · rw [hfirst]
    exact h.first
  · rw [hlast]
    exact hp'
  · rw [hfirst, hlast] at hi
    exact hp.covers hdone h.first hi

theorem scanIter (h : SinceStart c.toWzConsts s) (hs : s.scanIter c.toWzConsts = some s') :
    SinceStart c.toWzConsts s' := by
  unfold Acq.scanIter at hs
  split at hs
  · cases hs
  rename_i check hcheck
  have hwalk := h.scan check hcheck
  have hlt : check < c.nofbufs := by
    obtain ⟨m, rfl, -⟩ := hwalk
    exact Nat.mod_lt _ c.nofbufs_pos
  have hnext := nextDesc_lt c.nofbufs_pos check
  dsimp only at hs
  rw [Option.some.injEq] at hs
  subst hs
  unfold scanMove
  by_cases hwb : (s.desc check).toResult.HasWb
  · have hdone := h.wb check hlt hwb
    rw [if_pos hwb]
    by_cases heop : (s.desc check).toResult.eop = true
    · rw [if_pos heop]
      by_cases hroom : s.kfifo.length < s.kfifoSize
      · -- the block is reported and the next one begins behind it
        rw [if_pos hroom]
        have hdesc := h.describes hwalk hdone (s.desc check).toResult.length
        refine ⟨h.pos, h.copy, h.wb, hnext, .start hnext, ?_, ?_, ⟨h.got.own, h.got.first⟩, ?_⟩
        · intro p hp
          obtain rfl := Option.some.inj hp
          exact .start hnext
        · intro db hdb
          rcases List.mem_append.mp hdb with hold | hnew
          · exact h.fifo db hold
          · rw [List.mem_singleton.mp hnew]
            exact hdesc
        · intro hgot
          have hn := h.next hgot
          show ((s.kfifo ++ [_]).head?.map WzXdmaDataBlockDesc.firstDesc).getD _ = 0
          cases hk : s.kfifo with
          | nil =>
              rw [hk] at hn
              exact hn
          | cons db rest =>
              rw [hk] at hn
              exact hn
      · rw [if_neg hroom]
        exact ⟨h.pos, h.copy, h.wb, h.first, h.scanned, fun _ hp => (by cases hp), h.fifo,
          ⟨h.got.own, h.got.first⟩, h.next⟩
    · rw [if_neg heop]
      refine ⟨h.pos, h.copy, h.wb, h.first, h.scanned, fun p hp => ?_, h.fifo,
        ⟨h.got.own, h.got.first⟩, h.next⟩
      obtain rfl := Option.some.inj hp
      exact hwalk.next hdone
  · rw [if_neg hwb]
    exact ⟨h.pos, h.copy, h.wb, h.first, hwalk, fun _ hp => (by cases hp), h.fifo,
      ⟨h.got.own, h.got.first⟩, h.next⟩

/-- The oldest block is handed out. -/
theorem getbuf {db : WzXdmaDataBlockDesc} {rest : List WzXdmaDataBlockDesc}
    (h : SinceStart c.toWzConsts s) (hk : s.kfifo = db :: rest) :
    SinceStart c.toWzConsts { s with kfifo := rest, got := s.got ++ [db] } := by
  have hdb := h.fifo db (hk ▸ List.mem_cons_self ..)
  refine ⟨h.pos, h.copy, h.wb, h.first, h.scanned, h.scan,
    fun db' hdb' => h.fifo db' (hk ▸ List.mem_cons_of_mem _ hdb'), ⟨?_, ?_⟩, fun hgot => ?_⟩
  · intro db' hdb'
    rcases List.mem_append.mp hdb' with hold | hnew
    · exact h.got.own db' hold
    · rw [List.mem_singleton.mp hnew]
      exact hdb
  · intro db' hhead
    cases hgot : s.got with
    | nil =>
        have hn := h.next hgot
        rw [hk] at hn
        rw [hgot] at hhead
        rw [← Option.some.inj hhead]
        exact hn
    | cons db₀ more =>
        refine h.got.first db' ?_
        rw [hgot] at hhead ⊢
        exact hhead
  · exact absurd hgot (by simp)

/-- A block taken by a call that could not copy it is gone. -/
theorem lost {db : WzXdmaDataBlockDesc} {rest : List WzXdmaDataBlockDesc}
    (h : SinceStart c.toWzConsts s) (hk : s.kfifo = db :: rest) (hgot : s.got ≠ []) :
    SinceStart c.toWzConsts { s with kfifo := rest } :=
  ⟨h.pos, h.copy, h.wb, h.first, h.scanned, h.scan,
    fun db' hdb' => h.fifo db' (hk ▸ List.mem_cons_of_mem _ hdb'), ⟨h.got.own, h.got.first⟩,
    fun hnil => absurd hnil hgot⟩

theorem step {bus : DmaAddr → Nat} {a : AcqAct} (h : SinceStart c.toWzConsts s)
    (hs : s.step c.toWzConsts bus a = some s') : SinceStart c.toWzConsts s' := by
  cases a with
  | device x => exact h.device hs
  | confirm thread first last =>
      obtain ⟨-, -, -, rfl⟩ := confirm_cases hs
      exact h.of_same h.pos rfl h.wb (List.prefix_refl _) rfl rfl rfl
  | restore thread => exact h.restore hs
  | scanBegin =>
      simp only [Acq.step] at hs
      split at hs
      · obtain rfl := Option.some.inj hs
        refine ⟨h.pos, h.copy, h.wb, h.first, h.scanned, fun p hp => ?_, h.fifo,
          ⟨h.got.own, h.got.first⟩, h.next⟩
        obtain rfl := Option.some.inj hp
        exact h.scanned
      · cases hs
  | scanIter => exact h.scanIter hs
  | getbuf =>
      simp only [Acq.step] at hs
      split at hs
      · cases hs
      · rename_i db rest hk
        obtain rfl := Option.some.inj hs
        exact h.getbuf hk

/-- Right after a `START` that finds the FIFO empty. -/
theorem started {d d' : Driver} (hst : Driver.Started c.toWzConsts d d') (hfifo : d.ext.kfifo = [])
    (mem : Nat → Byte) : SinceStart c.toWzConsts (Acq.ofDriver d' mem) := by
  have hnone : ∀ i, i < c.nofbufs → ¬(startDesc c.toWzConsts d'.ext i).toResult.HasWb :=
    fun i _ => not_hasWb_of_accepted (startDesc_accepted c.toWzConsts d'.ext i)
  have hk : (Acq.ofDriver d' mem).kfifo = [] := hst.frame.kfifo.trans hfifo
  have hzero : (Acq.ofDriver d' mem).blockFirstDesc = 0 := hst.first
  have hfirst : (Acq.ofDriver d' mem).blockFirstDesc < c.nofbufs := by
    rw [hzero]
    exact c.nofbufs_pos
  have hscanned : (Acq.ofDriver d' mem).blockScannedDesc = (Acq.ofDriver d' mem).blockFirstDesc :=
    hst.scanned.trans hst.first.symm
  refine ⟨(Nat.zero_mod _).symm, fun i hi => ?_, fun i hi hwb => ?_, hfirst, ?_,
    fun _ hp => (by cases hp), fun db hdb => ?_, ⟨fun _ hdb => (by cases hdb), fun _ hdb => (by cases hdb)⟩,
    fun _ => ?_⟩
  · rw [(Acq.ofDriver_started hst mem hi).2]
    exact hnone i hi
  · rw [(Acq.ofDriver_started hst mem hi).1] at hwb
    exact absurd hwb (hnone i hi)
  · rw [hscanned]
    exact .start hfirst
  · rw [hk] at hdb
    cases hdb
  · rw [hk, hzero]
    rfl

end SinceStart

end Acq
/-! ## Sessions -/

/-- The driver outside of acquisitions, and the acquisition in progress. -/
structure Session where
  drv : Driver
  mem : Nat → Byte
  acq : Option Acq

inductive SessionAct
  | start (env : StartEnv)
  | acq (a : AcqAct)
  /-- a `GETBUF` whose `copy_to_user` fails -/
  | getbufLost
  | stop

namespace Session

/-- The driver when `STOP` has seen the engine stopped: the service run that found it idle
has taken the transfer off the queue. -/
def stopped (s : Session) (a : Acq) : Driver :=
  { s.drv with
    ext := { s.drv.ext with toBlockScan := a.toBlockScan }
    engine := { s.drv.engine with
      transferList := s.drv.engine.transferList.tail }.engineServiceShutdown }

def step (c : WzConsts) (bus : DmaAddr → Nat) (s : Session) : SessionAct → Option Session
  | .start env =>
      match s.acq with
      | some _ => none
      | none =>
          match s.drv.ioctlDoWzStart c env with
          | .error _ => none
          | .ok (d, rc) =>
              some { s with
                drv := d
                acq := if rc = 0 then some (Acq.ofDriver d s.mem) else none }
  | .acq a =>
      match s.acq with
      | none => none
      | some t => (t.step c bus a).map fun t' => { s with acq := some t' }
  | .getbufLost =>
      match s.acq with
      | none => none
      | some t =>
          match t.kfifo with
          | [] => none
          | _ :: rest => some { s with acq := some { t with kfifo := rest } }
  | .stop =>
      match s.acq with
      | none => none
      | some t =>
          some { drv := ((s.stopped t).ioctlDoWzStopFinish c).1, mem := t.mem, acq := none }

/-- The blocks handed out in the acquisition in progress. -/
def got (s : Session) : List WzXdmaDataBlockDesc :=
  (s.acq.map Acq.got).getD []

/-- `START` finds the FIFO empty, and the first block taken is copied. -/
def startsEmpty (s : Session) : SessionAct → Prop
  | .start _ => s.drv.ext.kfifo = []
  | .getbufLost => s.got ≠ []
  | .acq _ => True
  | .stop => True

instance (s : Session) (a : SessionAct) : Decidable (s.startsEmpty a) :=
  match a with
  | .start _ => inferInstanceAs (Decidable (s.drv.ext.kfifo = []))
  | .getbufLost => inferInstanceAs (Decidable (s.got ≠ []))
  | .acq _ => .isTrue trivial
  | .stop => .isTrue trivial

/-- What a session keeps. -/
structure Inv (c : WzConsts) (s : Session) : Prop where
  live : PointersLive s.drv
  acq : ∀ t, s.acq = some t → t.SinceStart c

theorem Inv.step {c : RingConsts} {bus : DmaAddr → Nat} {s s' : Session} {a : SessionAct}
    (h : Inv c.toWzConsts s) (hok : s.startsEmpty a)
    (hs : s.step c.toWzConsts bus a = some s') : Inv c.toWzConsts s' := by
  cases a with
  | start env =>
      simp only [Session.step] at hs
      split at hs
      · cases hs
      split at hs
      · cases hs
      · rename_i d rc hd
        obtain rfl := Option.some.inj hs
        refine ⟨h.live.start hd, fun t ht => ?_⟩
        by_cases hrc : rc = 0
        · subst hrc
          rw [if_pos rfl] at ht
          obtain rfl := Option.some.inj ht
          exact .started (Driver.start_ok c.nofbufs_pos h.live.descOld hd) hok s.mem
        · rw [if_neg hrc] at ht
          cases ht
  | acq a =>
      simp only [Session.step] at hs
      split at hs
      · cases hs
      · rename_i t ht
        obtain ⟨t', ht', rfl⟩ := Option.map_eq_some_iff.mp hs
        refine ⟨h.live, fun u hu => ?_⟩
        obtain rfl := Option.some.inj hu
        exact (h.acq t ht).step ht'
  | getbufLost =>
      simp only [Session.step] at hs
      split at hs
      · cases hs
      · rename_i t ht
        split at hs
        · cases hs
        · rename_i db rest hk
          obtain rfl := Option.some.inj hs
          refine ⟨h.live, fun u hu => ?_⟩
          obtain rfl := Option.some.inj hu
          refine (h.acq t ht).lost hk ?_
          simpa [startsEmpty, got, ht] using hok
  | stop =>
      simp only [Session.step] at hs
      split at hs
      · cases hs
      · rename_i t ht
        obtain rfl := Option.some.inj hs
        refine ⟨?_, fun u hu => (by cases hu)⟩
        exact PointersLive.stopFinish ⟨h.live.desc, h.live.copy⟩

end Session

/-- In every session whose calls of `START` find the FIFO empty, and whose first block of an
acquisition does not get lost on the way to the application, the blocks handed out since a
`START` are of descriptors completed since, and the first one begins at descriptor 0.  After a
`START` that finds a block in the FIFO the next `GETBUF` hands out a stale one. -/
theorem no_stale_blocks (c : RingConsts) (s₀ : Sys) (hs₀ : s₀.Reachable c.toWzConsts)
    (bus : DmaAddr → Nat) (mem : Nat → Byte) (s : Session)
    (hs : Machine.Reach (Session.step c.toWzConsts bus) Session.startsEmpty ⟨s₀.drv, mem, none⟩ s) :
    (∀ t, s.acq = some t → t.OwnBlocks c.toWzConsts) ∧
      ∀ env s' t, s.step c.toWzConsts bus (.start env) = some s' → s'.acq = some t →
        ((∀ t', t.step c.toWzConsts bus .getbuf = some t' → t'.OwnBlocks c.toWzConsts) ↔
          s.drv.ext.kfifo = []) := by
  have hinv := hs.invariant (P := Session.Inv c.toWzConsts)
    ⟨hs₀.pointerInv.live, fun t ht => (by cases ht)⟩ (fun _ _ _ _ hP hok hstep => hP.step hok hstep)
  refine ⟨fun t ht => (hinv.acq t ht).got, fun env s' t hstart ht => ?_⟩
  simp only [Session.step] at hstart
  split at hstart
  · cases hstart
  split at hstart
  · cases hstart
  rename_i d rc hd
  obtain rfl := Option.some.inj hstart
  by_cases hrc : rc = 0
  · subst hrc
    simp only [if_true, Option.some.injEq] at ht
    subst ht
    have hst := Driver.start_ok c.nofbufs_pos hinv.live.descOld hd
    have hkfifo : (Acq.ofDriver d s.mem).kfifo = s.drv.ext.kfifo := hst.frame.kfifo
    cases hk : s.drv.ext.kfifo with
    | nil =>
        refine ⟨fun _ => rfl, fun _ t' hget => ?_⟩
        rw [hk] at hkfifo
        simp only [Acq.step, hkfifo] at hget
        cases hget
    | cons db rest =>
        refine ⟨fun hown => ?_, fun hnil => (by cases hnil)⟩
        rw [hk] at hkfifo
        have hget : (Acq.ofDriver d s.mem).step c.toWzConsts bus .getbuf =
            some { Acq.ofDriver d s.mem with kfifo := rest, got := [db] } := by
          simp only [Acq.step, hkfifo]
          rfl
        obtain ⟨hfirst, -, hall⟩ := (hown _ hget).own db (List.mem_singleton_self db)
        -- nothing is completed yet
        obtain ⟨k, hk0, -⟩ := hall _ (covers_first hfirst)
        exact absurd hk0 (Nat.not_lt_zero k)
  · simp only [if_neg hrc] at ht
    cases ht

/-- The second of two acquisitions. -/
theorem no_stale_blocks_second :
    ∃ (s₀ : Sys) (s : Session) (t : Acq), s₀.Reachable twoBuffers.toWzConsts ∧
      Machine.Reach (Session.step twoBuffers.toWzConsts BitVec.toNat) Session.startsEmpty
        ⟨s₀.drv, fun _ => 0, none⟩ s ∧
      s.acq = some t ∧ t.got = [⟨0, 0, 9⟩] ∧ t.OwnBlocks twoBuffers.toWzConsts := by
  obtain ⟨s₀, hs₀, hp⟩ := Machine.exists_reach_of_execOk (Sys.step twoBuffers.toWzConsts)
    (fun _ _ => True) .created [.allocBuffers allocGranted]
    (fun s₀ => (Machine.execOk (Session.step twoBuffers.toWzConsts BitVec.toNat)
      Session.startsEmpty ⟨s₀.drv, fun _ => 0, none⟩
      [.start startGranted, .acq (.device ⟨true, 7, []⟩), .acq .scanBegin, .acq .scanIter,
        .acq .getbuf, .stop, .start startGranted, .acq (.device ⟨true, 9, []⟩), .acq .scanBegin,
        .acq .scanIter, .acq .getbuf]).map (fun s => s.acq.isSome && s.got == [⟨0, 0, 9⟩]) ==
      some true)
    (by decide +kernel)
  obtain ⟨s, hs, hq⟩ := Machine.exists_reach_of_execOk _ _ _ _ _ (beq_iff_eq.mp hp)
  simp only [Bool.and_eq_true, beq_iff_eq, Option.isSome_iff_exists] at hq
  obtain ⟨⟨t, ht⟩, hgot⟩ := hq
  refine ⟨s₀, s, t, hs₀, hs, ht, ?_,
    (no_stale_blocks twoBuffers s₀ hs₀ BitVec.toNat (fun _ => 0) s hs).1 t ht⟩
  simpa [Session.got, ht] using hgot

/-- A block that was never fetched is handed out by the next acquisition, before the device
has completed anything. -/
theorem stale_block_after_restart :
    ∃ (s₀ : Sys) (s : Session) (t : Acq), s₀.Reachable wzConsts.toWzConsts ∧
      Machine.Reach (Session.step wzConsts.toWzConsts BitVec.toNat) (fun _ _ => True)
        ⟨s₀.drv, fun _ => 0, none⟩ s ∧
      s.acq = some t ∧ t.done = [] ∧ t.got = [⟨0, 0, 7⟩] ∧ ¬t.OwnBlocks wzConsts.toWzConsts := by
  obtain ⟨s₀, hs₀, hp⟩ := Machine.exists_reach_of_execOk (Sys.step wzConsts.toWzConsts)
    (fun _ _ => True) .created [.allocBuffers allocGranted]
    (fun s₀ => (Machine.execOk (Session.step wzConsts.toWzConsts BitVec.toNat)
      (fun _ _ => True) ⟨s₀.drv, fun _ => 0, none⟩
      [.start startGranted, .acq (.device ⟨true, 7, []⟩), .acq .scanBegin, .acq .scanIter, .stop,
        .start startGranted, .acq .getbuf]).map (fun s =>
          s.acq.any fun t => t.done == [] && t.got == [⟨0, 0, 7⟩]) == some true)
    (by decide +kernel)
  obtain ⟨s, hs, hq⟩ := Machine.exists_reach_of_execOk _ _ _ _ _ (beq_iff_eq.mp hp)
  rw [Option.any_eq_true] at hq
  obtain ⟨t, ht, hq⟩ := hq
  simp only [Bool.and_eq_true, beq_iff_eq] at hq
  obtain ⟨hdone, hgot⟩ := hq
  refine ⟨s₀, s, t, hs₀, hs, ht, hdone, hgot, fun hown => ?_⟩
  obtain ⟨hfirst, -, hall⟩ := hown.own ⟨0, 0, 7⟩ (by rw [hgot]; exact List.mem_singleton_self _)
  obtain ⟨k, hk, -⟩ := hall _ (covers_first hfirst)
  rw [hdone] at hk
  exact absurd hk (Nat.not_lt_zero k)

end WzXdma
