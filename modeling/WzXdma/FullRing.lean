import WzXdma.Assembly
import WzXdma.Programmed

/-!
# Scanning a full ring

The scan stops at a descriptor without writeback.  When every descriptor of the ring
waits for its confirmation there is no such descriptor, and the scan comes round to
descriptors that it has reported before.  Only a full FIFO can end it then.

`ScanSafe` is the condition under which nothing is reported twice: either no
descriptor ends a packet, so that the scan goes round without ever reporting, or
every descriptor does and the application holds none of the blocks, so that they all
are in the FIFO, or get there first, and fill it.
-/

namespace WzXdma

open Lib Lib.Cyclic Lib.Spans

/-- Every descriptor holds a writeback that is not confirmed. -/
def RingFull (c : WzConsts) (s : Acq) : Prop := ∀ i, i < c.nofbufs → s.unconfirmed i = true

instance (c : WzConsts) (s : Acq) : Decidable (RingFull c s) :=
  inferInstanceAs (Decidable (∀ i, i < c.nofbufs → s.unconfirmed i = true))

/-- No descriptor ends a packet, or all do and the application holds no block. -/
def ScanSafe (c : WzConsts) (s : Acq) : Prop :=
  (∀ i, i < c.nofbufs → (s.desc i).toResult.eop = false) ∨
    (∀ i, i < c.nofbufs → (s.desc i).toResult.eop = true) ∧ s.got.length = s.confirmed ∧
      s.confirms 0 = none

instance (c : WzConsts) (s : Acq) : Decidable (ScanSafe c s) :=
  inferInstanceAs (Decidable (_ ∨ _ ∧ _ ∧ _))

/-- The application confirms in order, and a full ring is scanned only if that is safe. -/
def scansSafely (c : WzConsts) (s : Acq) (a : AcqAct) : Prop :=
  confirmsInOrder s a ∧ (a = .scanIter → RingFull c s → ScanSafe c s)

instance (c : WzConsts) (s : Acq) (a : AcqAct) : Decidable (scansSafely c s a) :=
  inferInstanceAs (Decidable (_ ∧ (_ → _ → _)))

namespace Refines

variable {c : RingConsts} {bus : DmaAddr → Nat} {s s' : Acq} {t : Tape Completion}

theorem ringFull_iff (h : Refines c.toWzConsts s t) :
    RingFull c.toWzConsts s ↔ t.items.length = t.released + c.nofbufs := by
  have hn := c.nofbufs_pos
  have hbound := h.bound
  constructor
  · intro hfull
    by_contra hne
    have hlast : t.released + c.nofbufs - 1 < t.items.length :=
      (h.marks (t.released + c.nofbufs - 1) (by omega) (by omega)).mp
        (hfull _ (Nat.mod_lt _ hn))
    omega
  · intro hlen i hi
    obtain ⟨k, hk, hk', rfl⟩ := exists_window t.released hi
    exact (h.marks k hk hk').mpr (by omega)

/-- The writeback in a slot of a full ring is that of the position it shows. -/
theorem eop_of_full (h : Refines c.toWzConsts s t) {k : Nat} {x : Completion}
    (hk : t.released ≤ k) (hx : t.items[k]? = some x) :
    (s.desc (k % c.nofbufs)).toResult.eop = x.eop := (h.filled k x hk hx).2.1

theorem kfifo_length (h : Refines c.toWzConsts s t) :
    s.kfifo.length = t.put.length - t.taken := by
  rw [h.kfifo, List.length_map, List.length_drop]

/-- Before the scan comes round there is room in the FIFO. -/
theorem room (h : Refines c.toWzConsts s t) {k : Nat} (hcheck : t.check = some k)
    (hk : k < t.items.length) : s.kfifo.length < c.nofbufs := by
  have hclear := h.inv.check_clear k hcheck
  have hbound := h.bound
  have := h.inv.untaken_le
  have := h.inv.released_le
  rw [h.kfifo_length]
  have := hclear.1
  omega

/-- When the scan comes round, the FIFO is full exactly when every descriptor is a block
that the application has not fetched. -/
theorem fifo_full_iff (h : Refines c.toWzConsts s t) (hwrap : Wrapped c.toWzConsts t) :
    c.nofbufs ≤ s.kfifo.length ↔
      (∀ i, i < c.nofbufs → (s.desc i).toResult.eop = true) ∧ s.got.length = s.confirmed ∧
        s.confirms 0 = none := by
  obtain ⟨hcheck, hfull⟩ := hwrap
  have hclear := h.inv.check_clear _ hcheck
  have huntaken := h.inv.untaken_le
  have hrel := h.inv.released_le
  have hfirst := h.inv.first_le
  have htaken := h.inv.taken_le
  have hconf := h.confirming.le
  have hgot : s.got.length = t.taken := by
    rw [h.got, List.length_map, List.length_take]
    omega
  rw [h.kfifo_length, hgot]
  constructor
  · intro hmany
    have hend : endOf t.put t.taken = t.released := by omega
    refine ⟨fun i hi => ?_, ?_, ?_⟩
    · obtain ⟨k, hk, hk', rfl⟩ := exists_window t.released hi
      have hx := List.getElem?_eq_getElem (l := t.items) (i := k) (by omega)
      rw [h.eop_of_full hk hx]
      exact h.inv.marked_of_untaken (by omega) (by omega) (by omega) hx
    · -- a fetched block that is not confirmed would take a position
      have hadd := endOf_add_le isEop (t.items.take t.first) s.confirmed (t.taken - s.confirmed)
        (by rw [← h.inv.put_eq]; omega)
      rw [← h.inv.put_eq, Nat.add_sub_cancel' hconf] at hadd
      cases hcall : s.confirms 0 with
      | none =>
          have := h.confirming.idle hcall
          omega
      | some call =>
          obtain ⟨-, -, g, -, -, hle, -, hgend, -⟩ := h.busy hcall
          omega
    · cases hcall : s.confirms 0 with
      | none => rfl
      | some call =>
          have hadd := endOf_mono isEop (t.items.take t.first) hconf
            (by rw [← h.inv.put_eq]; exact htaken)
          rw [← h.inv.put_eq] at hadd
          obtain ⟨-, -, g, -, -, hle, -, hgend, -⟩ := h.busy hcall
          omega
  · rintro ⟨hall, hheld, hidle⟩
    have hend := h.confirming.idle hidle
    rw [← hheld] at hend
    have hmark : ∀ k x, t.released ≤ k → t.items[k]? = some x → isEop x = true := by
      intro k x hk hx
      rw [isEop, ← h.eop_of_full hk hx]
      exact hall _ (Nat.mod_lt _ c.nofbufs_pos)
    have hfirst' : t.first = t.items.length := by
      by_contra hne
      have hlt : t.first < t.items.length := by omega
      have hx := List.getElem?_eq_getElem hlt
      have := hclear.2.2 t.first (Nat.le_refl _) hlt _ hx
      rw [hmark _ _ h.released_le hx] at this
      cases this
    have := h.inv.le_untaken fun k x hk _ hx => hmark k x (by omega) hx
    omega

/-- In a ring without ends of packets no block waits for anything. -/
theorem block_lt_released (h : Refines c.toWzConsts s t)
    (hnone : ∀ i, i < c.nofbufs → (s.desc i).toResult.eop = false) {m : Nat} {g : Span Completion}
    (hg : t.put[m]? = some g) : g.last < t.released := by
  by_contra hge
  obtain ⟨-, -, -, hitem, hmark, -⟩ := h.inv.group hg
  have heop := h.eop_of_full (Nat.le_of_not_lt hge) hitem
  rw [hnone _ (Nat.mod_lt _ c.nofbufs_pos)] at heop
  rw [isEop, ← heop] at hmark
  cases hmark

/-- A full ring shows a writeback in every slot. -/
theorem hasWb_of_full (h : Refines c.toWzConsts s t)
    (hfull : t.items.length = t.released + c.nofbufs) {i : Nat} (hi : i < c.nofbufs) :
    (s.desc i).toResult.HasWb := by
  obtain ⟨k, hk, hk', rfl⟩ := exists_window t.released hi
  exact (h.filled k _ hk (List.getElem?_eq_getElem (by omega))).1

end Refines

/-- The scan goes round a full ring in which no descriptor ends a packet.  Apart from
the scan, the state is one that refines a tape. -/
def Spinning (c : WzConsts) (s : Acq) : Prop :=
  ∃ t, Refines c { s with scan := none } t ∧ t.items.length = t.released + c.nofbufs ∧
    (∀ i, i < c.nofbufs → (s.desc i).toResult.eop = false) ∧ ∃ i, i < c.nofbufs ∧ s.scan = some i

/-- Nothing else can happen while the scan goes round. -/
theorem Spinning.step {c : RingConsts} {bus : DmaAddr → Nat} {s s' : Acq} {a : AcqAct}
    (h : Spinning c.toWzConsts s) (hok : confirmsInOrder s a)
    (hs : s.step c.toWzConsts bus a = some s') : Spinning c.toWzConsts s' := by
  obtain ⟨t, ht, hfull, hnone, i, hi, hscan⟩ := h
  cases a with
  | device x =>
      obtain ⟨-, ⟨hacc, -⟩ | ⟨-, rfl⟩⟩ := Acq.device_cases hs
      · exact absurd (ht.accepted_iff.mp hacc) (by omega)
      · exact ⟨t, ht.of_same ht.inv rfl rfl rfl rfl rfl rfl rfl rfl rfl rfl rfl rfl rfl rfl rfl rfl
          rfl rfl ht.scanned ht.scan, hfull, hnone, i, hi, hscan⟩
  | confirm thread first last =>
      obtain ⟨rfl, db, hdb, -, -⟩ := hok
      obtain ⟨g, hg, -, -⟩ := ht.next_block hdb
      have hidle : t.released = endOf t.put s.confirmed :=
        ht.confirming.idle (Acq.confirm_cases hs).1
      have hfirst : g.first = endOf t.put s.confirmed := (ht.inv.group hg).1
      have hle := (ht.inv.group hg).2.1
      have := ht.block_lt_released hnone hg
      omega
  | restore thread =>
      obtain ⟨call, w, hcall, -⟩ := Acq.restore_cases hs
      obtain ⟨-, -, g, hg, -, hle, -⟩ := ht.busy hcall
      have := ht.block_lt_released hnone hg
      omega
  | scanBegin => simp [Acq.step, hscan] at hs
  | scanIter =>
      have hwb := ht.hasWb_of_full hfull hi
      simp only [Acq.step, Acq.scanIter, hscan, scanMove, if_pos hwb, hnone i hi, Bool.false_eq_true,
        if_false, Acq.record, BlockScan.apply, Option.some.injEq] at hs
      subst hs
      refine ⟨t, ht, hfull, hnone, nextDesc c.nofbufs i, ?_, rfl⟩
      rw [nextDesc_eq]
      exact Nat.mod_lt _ c.nofbufs_pos
  | getbuf =>
      simp only [Acq.step] at hs
      split at hs
      · cases hs
      · rename_i db rest hk
        have hlen := ht.kfifo_length
        simp only [hk, List.length_cons] at hlen
        have hg : t.put[t.taken]? = some t.put[t.taken] := List.getElem?_eq_getElem (by omega)
        obtain ⟨hfirst, hle, -⟩ := ht.inv.group hg
        have := ht.inv.released_le
        have := ht.block_lt_released hnone hg
        omega

/-- What holds of an acquisition that scans safely. -/
def Exact (c : WzConsts) (s : Acq) : Prop := (∃ t, Refines c s t) ∨ Spinning c s

theorem Exact.fresh {c : WzConsts} {s : Acq} (h : Exact c s) : s.repeated = false := by
  obtain ⟨t, ht⟩ | ⟨t, ht, -⟩ := h
  · exact ht.fresh
  · exact ht.fresh

/-- An iteration on a ring that is full and has come round is safe when `ScanSafe` says
so: it goes on, or finds the FIFO full. -/
theorem Refines.scanIter_wrapped {c : RingConsts} {s s' : Acq} {t : Tape Completion}
    (h : Refines c.toWzConsts s t) (hsize : s.kfifoSize = c.nofbufs)
    (hwrap : Refines.Wrapped c.toWzConsts t) (hsafe : ScanSafe c.toWzConsts s)
    (hs : s.scanIter c.toWzConsts = some s') : Exact c.toWzConsts s' := by
  have hn := c.nofbufs_pos
  obtain ⟨hcheck, hfull⟩ := hwrap
  have hi : t.items.length % c.nofbufs < c.nofbufs := Nat.mod_lt _ hn
  have hscan : s.scan = some (t.items.length % c.nofbufs) := by rw [h.scan, hcheck]; rfl
  have hwb := h.hasWb_of_full hfull hi
  have hinv := Tape.Step.inv (.stall hcheck) h.inv
  rcases hsafe with hnone | hall
  · right
    simp only [Acq.scanIter, hscan, scanMove, if_pos hwb, hnone _ hi, Bool.false_eq_true, if_false,
      Acq.record, BlockScan.apply, Option.some.injEq] at hs
    subst hs
    refine ⟨_, h.of_same hinv rfl rfl rfl rfl rfl rfl rfl rfl rfl rfl rfl rfl rfl rfl rfl rfl rfl
      rfl h.scanned rfl, hfull, hnone, _, ?_, rfl⟩
    rw [nextDesc_eq]
    exact Nat.mod_lt _ hn
  · left
    have hroom : ¬s.kfifo.length < s.kfifoSize := by
      have := (h.fifo_full_iff ⟨hcheck, hfull⟩).mpr hall
      omega
    simp only [Acq.scanIter, hscan, scanMove, if_pos hwb, hall.1 _ hi, if_true, if_neg hroom,
      Acq.record, BlockScan.apply, Option.some.injEq] at hs
    subst hs
    exact ⟨_, h.of_same hinv rfl rfl rfl rfl rfl rfl rfl rfl rfl rfl rfl rfl rfl rfl rfl rfl rfl
      rfl h.scanned rfl⟩

theorem Exact.step {c : RingConsts} {bus : DmaAddr → Nat} {s s' : Acq} {a : AcqAct}
    (h : Exact c.toWzConsts s) (hsize : s.kfifoSize = c.nofbufs)
    (hok : scansSafely c.toWzConsts s a) (hs : s.step c.toWzConsts bus a = some s') :
    Exact c.toWzConsts s' := by
  obtain ⟨t, ht⟩ | hspin := h
  · by_cases hwrap : a = .scanIter ∧ Refines.Wrapped c.toWzConsts t
    · obtain ⟨rfl, hwrap⟩ := hwrap
      have hfull := ht.ringFull_iff.mpr hwrap.2
      exact ht.scanIter_wrapped hsize hwrap (hok.2 rfl hfull) hs
    · obtain ⟨t', ht', -⟩ := ht.step hok.1 (fun ha hw => hwrap ⟨ha, hw⟩) hs
      exact .inl ⟨t', ht'⟩
  · exact .inr (hspin.step hok.1 hs)

/-! ## The scan of one service run -/

namespace Acq

variable {c : RingConsts} {s s' : Acq}

/-- What the scan leaves alone of the things that the condition speaks about. -/
structure ScanFrame (s s' : Acq) : Prop where
  desc : s'.desc = s.desc
  got : s'.got = s.got
  confirmed : s'.confirmed = s.confirmed
  confirms : s'.confirms = s.confirms
  kfifoSize : s'.kfifoSize = s.kfifoSize

theorem scanRun_scanFrame (c : WzConsts) (n : Nat) (s : Acq) : ScanFrame s (scanRun c n s) := by
  induction n generalizing s with
  | zero => exact ⟨rfl, rfl, rfl, rfl, rfl⟩
  | succ n ih =>
      cases hs : s.scanIter c with
      | none => simpa only [scanRun, hs] using (⟨rfl, rfl, rfl, rfl, rfl⟩ : ScanFrame s s)
      | some s' =>
          rw [scanRun_succ hs]
          obtain ⟨hdesc, -, -, -, hcalls, -, -, hgot, hcount, hsize, -⟩ := scanIter_frame hs
          have := ih s'
          exact ⟨this.desc.trans hdesc, this.got.trans hgot, this.confirmed.trans hcount,
            this.confirms.trans hcalls, this.kfifoSize.trans hsize⟩

theorem ScanFrame.scanSafe_iff {c : WzConsts} (h : ScanFrame s s') :
    ScanSafe c s' ↔ ScanSafe c s := by
  rw [ScanSafe, ScanSafe, h.desc, h.got, h.confirmed, h.confirms]

/-- A scan that goes round with room in the FIFO reports again what it has reported
before, as soon as it meets the end of a packet. -/
theorem exists_repeated {i j : Nat} (hi : i < c.nofbufs) (hj : j < c.nofbufs)
    (hscan : s.scan = some i) (hwb : ∀ i, i < c.nofbufs → (s.desc i).toResult.HasWb)
    (hrep : ∀ i, i < c.nofbufs → (s.desc i).toResult.eop = true → s.reported i = true)
    (hroom : s.kfifo.length < s.kfifoSize) (heop : (s.desc j).toResult.eop = true) :
    ∃ n, (scanRun c.toWzConsts n s).repeated = true := by
  -- by induction on the way that is left to the end of a packet
  generalize hlen : Cyclic.dist c.nofbufs i j = len
  induction len generalizing s i with
  | zero =>
      have hij : i = j := by
        unfold Cyclic.dist at hlen
        split at hlen <;> omega
      subst hij
      refine ⟨1, ?_⟩
      simp [scanRun, scanIter, hscan, scanMove, hwb i hi, heop, hroom, record, hrep i hi heop,
        BlockScan.apply]
  | succ len ih =>
      cases hm : (s.desc i).toResult.eop with
      | true =>
          refine ⟨1, ?_⟩
          simp [scanRun, scanIter, hscan, scanMove, hwb i hi, hm, hroom, record, hrep i hi hm,
            BlockScan.apply]
      | false =>
          have hne : i ≠ j := by
            rintro rfl
            rw [hm] at heop
            cases heop
          have hiter : s.scanIter c.toWzConsts =
              some { s with scan := some (nextDesc c.nofbufs i) } := by
            simp [scanIter, hscan, scanMove, hwb i hi, hm, record, BlockScan.apply]
          have hstep := dist_next hi hj hne
          rw [← nextDesc_eq] at hstep
          have hnext := nextDesc_lt c.nofbufs_pos i
          obtain ⟨n, hn⟩ := ih (s := { s with scan := some (nextDesc c.nofbufs i) }) hnext rfl hwb
            hrep hroom heop (by omega)
          exact ⟨n + 1, by rw [scanRun_succ hiter, hn]⟩

end Acq

/-- A scan of a full ring comes round. -/
theorem Refines.exists_wrapped {c : RingConsts} {s : Acq} {t : Tape Completion}
    (h : Refines c.toWzConsts s t) (hsize : s.kfifoSize = c.nofbufs)
    (hfull : t.items.length = t.released + c.nofbufs) {k : Nat} (hcheck : t.check = some k) :
    ∃ n t', Refines c.toWzConsts (Acq.scanRun c.toWzConsts n s) t' ∧
      Refines.Wrapped c.toWzConsts t' := by
  -- by induction on the positions that are left
  generalize hlen : t.items.length - k = len
  induction len generalizing s t k with
  | zero =>
      have hk : k = t.items.length := by
        have := (h.inv.check_clear k hcheck).2.1
        omega
      exact ⟨0, t, h, hk ▸ hcheck, hfull⟩
  | succ len ih =>
      have hk : k < t.items.length := by omega
      have hx := List.getElem?_eq_getElem hk
      have hscan : s.scan = some (k % c.nofbufs) := by rw [h.scan, hcheck]; rfl
      obtain ⟨s', hs'⟩ : ∃ s', s.scanIter c.toWzConsts = some s' := by
        simp only [Acq.scanIter, hscan]
        exact ⟨_, rfl⟩
      have hsize' : s'.kfifoSize = c.nofbufs := (Acq.scanIter_frame hs').2.2.2.2.2.2.2.2.2.1.trans hsize
      have hnext : ∃ t', Refines c.toWzConsts s' t' ∧ t'.items = t.items ∧
          t'.released = t.released ∧ t'.check = some (k + 1) := by
        cases hm : (t.items[k]).eop with
        | false => exact ⟨_, h.scanIter_pass hcheck hx hm hs', rfl, rfl, rfl⟩
        | true =>
            have hroom := h.room hcheck hk
            exact ⟨_, h.scanIter_report hcheck hx hm (by omega) hs', rfl, rfl, rfl⟩
      obtain ⟨t', ht', hitems, hrel, hcheck'⟩ := hnext
      obtain ⟨n, t'', ht'', hwrap⟩ := ih ht' hsize' (by rw [hitems, hrel, hfull]) hcheck'
        (by rw [hitems]; omega)
      exact ⟨n + 1, t'', by rwa [Acq.scanRun_succ hs'], hwrap⟩

/-- When the scan has come round, every end of a packet in the ring is reported. -/
theorem Refines.reported_of_wrapped {c : RingConsts} {s : Acq} {t : Tape Completion}
    (h : Refines c.toWzConsts s t) (hwrap : Refines.Wrapped c.toWzConsts t) {i : Nat}
    (hi : i < c.nofbufs) (heop : (s.desc i).toResult.eop = true) : s.reported i = true := by
  obtain ⟨hcheck, hfull⟩ := hwrap
  obtain ⟨k, hk, hk', rfl⟩ := exists_window t.released hi
  have hlt : k < t.items.length := by omega
  have hx := List.getElem?_eq_getElem hlt
  rw [h.eop_of_full hk hx] at heop
  refine (h.reported k _ hk hx).mpr ⟨?_, heop⟩
  by_contra hge
  have := (h.inv.check_clear _ hcheck).2.2 k (by omega) hlt _ hx
  rw [isEop, heop] at this
  cases this

/-- The scan of a service run on a full ring reports a block again, unless the condition
holds. -/
theorem Refines.exists_repeated {c : RingConsts} {s : Acq} {t : Tape Completion}
    (h : Refines c.toWzConsts s t) (hsize : s.kfifoSize = c.nofbufs)
    (hfull : t.items.length = t.released + c.nofbufs) {k : Nat} (hcheck : t.check = some k)
    (hnot : ¬ScanSafe c.toWzConsts s) :
    ∃ n, (Acq.scanRun c.toWzConsts n s).repeated = true := by
  obtain ⟨m, t', ht', hwrap⟩ := h.exists_wrapped hsize hfull hcheck
  have hframe := Acq.scanRun_scanFrame c.toWzConsts m s
  rw [← hframe.scanSafe_iff, ScanSafe, not_or] at hnot
  obtain ⟨hsome, hnotfull⟩ := hnot
  simp only [not_forall, Bool.not_eq_false] at hsome
  obtain ⟨j, hj, heop⟩ := hsome
  have hroom := mt (ht'.fifo_full_iff hwrap).mp hnotfull
  have hscan : (Acq.scanRun c.toWzConsts m s).scan = some (t'.items.length % c.nofbufs) := by
    rw [ht'.scan, hwrap.1]
    rfl
  obtain ⟨n, hn⟩ := Acq.exists_repeated (Nat.mod_lt _ c.nofbufs_pos) hj hscan
    (fun i hi => ht'.hasWb_of_full hwrap.2 hi)
    (fun i hi he => ht'.reported_of_wrapped hwrap hi he)
    (by rw [hframe.kfifoSize, hsize]; omega) heop
  exact ⟨m + n, by rw [Acq.scanRun_add, hn]⟩

theorem Exact.scanRun {c : RingConsts} {s : Acq} (h : Exact c.toWzConsts s)
    (hsize : s.kfifoSize = c.nofbufs) (hsafe : ScanSafe c.toWzConsts s) (n : Nat) :
    Exact c.toWzConsts (Acq.scanRun c.toWzConsts n s) := by
  induction n generalizing s with
  | zero => exact h
  | succ n ih =>
      cases hs : s.scanIter c.toWzConsts with
      | none => simpa only [Acq.scanRun, hs] using h
      | some s' =>
          have hone : Acq.scanRun c.toWzConsts 1 s = s' := Acq.scanRun_succ hs
          have hframe := Acq.scanRun_scanFrame c.toWzConsts 1 s
          rw [hone] at hframe
          rw [Acq.scanRun_succ hs]
          exact ih (@Exact.step c BitVec.toNat s s' .scanIter h hsize ⟨trivial, fun _ _ => hsafe⟩ hs)
            (hframe.kfifoSize.trans hsize) (hframe.scanSafe_iff.mpr hsafe)

/-- A service run on a full ring reports every packet once exactly under the condition. -/
theorem Exact.serviceRun_iff {c : RingConsts} {s : Acq} (h : Exact c.toWzConsts s)
    (hsize : s.kfifoSize = c.nofbufs) (hidle : s.scan = none)
    (hfull : RingFull c.toWzConsts s) :
    (∀ n, (Acq.serviceRun c.toWzConsts n s).repeated = false) ↔ ScanSafe c.toWzConsts s := by
  obtain ⟨t, ht⟩ | ⟨t, -, -, -, i, -, hscan⟩ := h
  · have hcheck : t.check = none := by
      have := ht.scan
      rw [hidle] at this
      simpa using this.symm
    have hlen := ht.ringFull_iff.mp hfull
    have hbegin : Refines c.toWzConsts { s with scan := some s.blockScannedDesc }
        { t with check := some t.scanned } :=
      ht.of_same (Tape.Step.inv (.begin hcheck) ht.inv) rfl rfl rfl rfl rfl rfl rfl rfl rfl rfl rfl
        rfl rfl rfl rfl rfl rfl rfl ht.scanned (by simp [ht.scanned])
    constructor
    · intro hfresh
      by_contra hnot
      obtain ⟨n, hn⟩ := hbegin.exists_repeated hsize hlen rfl hnot
      have := hfresh n
      rw [Acq.serviceRun, hn] at this
      cases this
    · intro hsafe n
      exact (Exact.scanRun (.inl ⟨_, hbegin⟩) hsize hsafe n).fresh
  · rw [hidle] at hscan
    cases hscan

theorem Acq.step_kfifoSize {c : WzConsts} {bus : DmaAddr → Nat} {s s' : Acq} {a : AcqAct}
    (h : s.step c bus a = some s') : s'.kfifoSize = s.kfifoSize := by
  cases a with
  | device x =>
      obtain ⟨-, ⟨-, rfl⟩ | ⟨-, rfl⟩⟩ := device_cases h <;> rfl
  | confirm thread first last =>
      obtain ⟨-, -, -, rfl⟩ := confirm_cases h
      rfl
  | restore thread =>
      obtain ⟨call, w, -, -, rfl⟩ := restore_cases h
      rfl
  | scanBegin =>
      simp only [Acq.step] at h
      split at h
      · exact Option.some.inj h ▸ rfl
      · cases h
  | scanIter => exact (scanIter_frame h).2.2.2.2.2.2.2.2.2.1
  | getbuf =>
      simp only [Acq.step] at h
      split at h
      · cases h
      · exact Option.some.inj h ▸ rfl

/-- The FIFO keeps the size that `ALLOC_BUFFERS` gave it. -/
theorem Acq.kfifoSize_of_reach {c : RingConsts} {s₀ : Sys} (hs₀ : s₀.Reachable c.toWzConsts)
    {d : Driver} (hst : Driver.Started c.toWzConsts s₀.drv d) {mem : Nat → Byte} {bus : DmaAddr → Nat}
    {ok : Acq → AcqAct → Prop} {s : Acq}
    (hs : Machine.Reach (Acq.step c.toWzConsts bus) ok (Acq.ofDriver d mem) s) :
    s.kfifoSize = c.nofbufs :=
  hs.invariant (P := fun s => s.kfifoSize = c.nofbufs)
    (hst.frame.kfifoSize.trans (hs₀.mappedInv hst.ready).1)
    fun _ _ _ _ hsize _ hstep => (Acq.step_kfifoSize hstep).trans hsize

/-- While the application keeps up, the FIFO takes every block that the scan finds: each block in
it has a descriptor of its own, and so has the one that is found. -/
theorem fifo_never_postpones (c : RingConsts) (s₀ : Sys) (hs₀ : s₀.Reachable c.toWzConsts)
    (hfifo : s₀.drv.ext.kfifo = []) (env : StartEnv) (d : Driver)
    (hstart : s₀.drv.ioctlDoWzStart c.toWzConsts env = .ok (d, 0)) (mem : Nat → Byte)
    (bus : DmaAddr → Nat) (s : Acq)
    (hs : Machine.Reach (Acq.step c.toWzConsts bus) (keepsUp c.toWzConsts) (Acq.ofDriver d mem) s)
    (check : Nat) (hscan : s.scan = some check) :
    scanMove s.kfifoSize (s.desc check).toResult check s.toBlockScan ≠ .postponed := by
  have hst := Driver.start_ok c.nofbufs_pos hs₀.pointerInv.live.descOld hstart
  have hsize := Acq.kfifoSize_of_reach hs₀ hst hs
  obtain ⟨t, ht, hlt⟩ := Refines.reach hst hfifo hs
  obtain ⟨k, hk, rfl⟩ := Option.map_eq_some_iff.mp (ht.scan.symm.trans hscan)
  unfold scanMove
  rcases Nat.lt_or_eq_of_le (ht.inv.check_clear k hk).2.1 with hlen | rfl
  · have hroom : s.kfifo.length < s.kfifoSize := by
      rw [hsize]
      exact ht.room hk hlen
    rw [if_pos hroom]
    split
    · split <;> exact ScanMove.noConfusion
    · exact ScanMove.noConfusion
  · -- behind the last completion there is no writeback
    rw [if_neg (ht.not_hasWb hlt)]
    exact ScanMove.noConfusion

/-- One of two descriptors is completed, and the scan looks at it. -/
theorem fifo_never_postpones_first :
    ∃ (d : Driver) (s : Acq),
      Machine.Reach (Acq.step twoBuffers.toWzConsts BitVec.toNat) (keepsUp twoBuffers.toWzConsts)
        (Acq.ofDriver d fun _ => 0) s ∧
      s.scan = some 0 ∧ (s.desc 0).toResult.eop = true ∧
      scanMove s.kfifoSize (s.desc 0).toResult 0 s.toBlockScan ≠ .postponed := by
  obtain ⟨s₀, d, s, hs₀, hfifo, hd, hs, hp⟩ := exists_acq_of_exec
    twoBuffers.toWzConsts [.allocBuffers allocGranted] startGranted
    (fun _ => 0) BitVec.toNat (keepsUp twoBuffers.toWzConsts)
    ([.device ⟨true, 7, []⟩, .scanBegin])
    (fun s => decide (s.scan = some 0 ∧ (s.desc 0).toResult.eop = true))
    (by decide +kernel)
  obtain ⟨hscan, heop⟩ := of_decide_eq_true hp
  exact ⟨d, s, hs, hscan, heop, fifo_never_postpones twoBuffers s₀ hs₀ hfifo startGranted d hd
    (fun _ => 0) BitVec.toNat s hs 0 hscan⟩

end WzXdma
