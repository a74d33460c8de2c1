import WzXdma.Lib.Tape
import WzXdma.Overrun

/-!
# Block assembly

The tape of `Lib.Tape` is what the acquisition is for: completions arrive one after
the other, scans cut them into packets, the application takes the packets in order
and gives their descriptors back.  On the tape nothing wraps and nothing is
overwritten.  `Refines` relates an acquisition to a tape: the ring shows the last
`N` positions of it, those before `released` are free again, and the cursors of the
driver are positions of the tape modulo `N`.

The relation is kept by every step of an application that confirms its blocks in
the order in which it fetched them, as long as the scan does not run into a full
ring.
-/

namespace WzXdma

open Lib Lib.Cyclic Lib.Spans

/-- The mark of the stream of completions. -/
def isEop (x : Completion) : Bool := x.eop

/-- A packet as the driver reports it. -/
def toBlock (c : WzConsts) (g : Span Completion) : WzXdmaDataBlockDesc where
  firstDesc := BitVec.ofNat 32 (g.first % c.nofbufs)
  lastDesc := BitVec.ofNat 32 (g.last % c.nofbufs)
  lastLen := g.item.length

/-- The blocks of a stream of completions, in order. -/
def blocks (c : WzConsts) (done : List Completion) : List WzXdmaDataBlockDesc :=
  (spans isEop done).map (toBlock c)

/-- The application has one thread that confirms, and it confirms the blocks it has
fetched, each of them once and in this order. -/
def confirmsInOrder (s : Acq) : AcqAct → Prop
  | .confirm thread first last =>
      thread = 0 ∧ ∃ db, s.got[s.confirmed]? = some db ∧ first = db.firstDesc.toNat ∧
        last = db.lastDesc.toNat
  | _ => True

/-- After the completion some descriptor is still free: fewer than `N` are completed
and not yet confirmed. -/
def leavesRoom (c : WzConsts) (s : Acq) : AcqAct → Prop
  | .device _ => ∃ i, i < c.nofbufs ∧ i ≠ s.pos ∧ s.unconfirmed i = false
  | _ => True

/-- The runs in which the application keeps up. -/
def keepsUp (c : WzConsts) (s : Acq) (a : AcqAct) : Prop := confirmsInOrder s a ∧ leavesRoom c s a

instance (s : Acq) (a : AcqAct) : Decidable (confirmsInOrder s a) :=
  match a with
  | .confirm thread first last =>
      decidable_of_iff (thread = 0 ∧ (s.got[s.confirmed]?).any fun db =>
          decide (first = db.firstDesc.toNat ∧ last = db.lastDesc.toNat)) <| by
        cases hg : s.got[s.confirmed]? <;> simp [confirmsInOrder, hg]
  | .device _ | .restore _ | .scanBegin | .scanIter | .getbuf => isTrue trivial

instance (c : WzConsts) (s : Acq) (a : AcqAct) : Decidable (leavesRoom c s a) :=
  match a with
  | .device _ =>
      inferInstanceAs (Decidable (∃ i, i < c.nofbufs ∧ i ≠ s.pos ∧ s.unconfirmed i = false))
  | .confirm _ _ _ | .restore _ | .scanBegin | .scanIter | .getbuf => isTrue trivial

instance (c : WzConsts) (s : Acq) (a : AcqAct) : Decidable (keepsUp c s a) :=
  inferInstanceAs (Decidable (_ ∧ _))

/-- The state of the confirmations: nothing is going on and `released` is where the
confirmed blocks end, or one block is being restored up to `released`. -/
structure Confirming (c : WzConsts) (s : Acq) (t : Tape Completion) : Prop where
  others : ∀ thread, thread ≠ 0 → s.confirms thread = none
  le : s.confirmed ≤ t.taken
  idle : s.confirms 0 = none → t.released = endOf t.put s.confirmed
  busy : ∀ call, s.confirms 0 = some call → call.cur = t.released % c.nofbufs ∧
    ∃ g, 0 < s.confirmed ∧ t.put[s.confirmed - 1]? = some g ∧ t.released ≤ g.last ∧
      call.last = g.last % c.nofbufs

/-- The acquisition shows what the tape says. -/
structure Refines (c : WzConsts) (s : Acq) (t : Tape Completion) : Prop where
  safe : RingSafe c s
  inv : Tape.Inv isEop t
  items : t.items = s.done
  pos : s.pos = t.items.length % c.nofbufs
  first : s.blockFirstDesc = t.first % c.nofbufs
  scanned : s.blockScannedDesc = t.scanned % c.nofbufs
  scan : s.scan = t.check.map (· % c.nofbufs)
  put : s.put = t.put.map (toBlock c)
  got : s.got = (t.put.take t.taken).map (toBlock c)
  kfifo : s.kfifo = (t.put.drop t.taken).map (toBlock c)
  bound : t.items.length ≤ t.released + c.nofbufs
  marks : ∀ k, t.released ≤ k → k < t.released + c.nofbufs →
    (s.unconfirmed (k % c.nofbufs) = true ↔ k < t.items.length)
  filled : ∀ k x, t.released ≤ k → t.items[k]? = some x →
    (s.desc (k % c.nofbufs)).toResult.HasWb ∧ (s.desc (k % c.nofbufs)).toResult.eop = x.eop ∧
      (endOf t.put s.confirmed ≤ k → (s.desc (k % c.nofbufs)).bytes = x.length)
  reported : ∀ k x, t.released ≤ k → t.items[k]? = some x →
    (s.reported (k % c.nofbufs) = true ↔ k < t.first ∧ x.eop = true)
  fresh : s.repeated = false
  confirming : Confirming c s t

namespace Refines

variable {c : RingConsts} {bus : DmaAddr → Nat} {s s' : Acq} {t t' : Tape Completion}

theorem lt_of_getElem {k : Nat} {x : Completion} (hx : t.items[k]? = some x) : k < t.items.length :=
  (List.getElem?_eq_some_iff.mp hx).1

/-- Two positions that the ring shows at the same time are in different slots. -/
theorem slot_ne (h : Refines c.toWzConsts s t) {j k : Nat} {x : Completion} (hj : t.released ≤ j)
    (hx : t.items[j]? = some x) (hk : t.released ≤ k) (hk' : k < t.released + c.nofbufs)
    (hne : j ≠ k) : j % c.nofbufs ≠ k % c.nofbufs := by
  have := lt_of_getElem hx
  have := h.bound
  exact mod_ne_of_window hj (by omega) hk hk' hne

/-- What is confirmed has been taken, and what is taken was reported. -/
theorem released_le (h : Refines c.toWzConsts s t) : t.released ≤ t.first :=
  Nat.le_trans h.inv.released_le h.inv.taken_end_le

theorem confirmed_end_le (h : Refines c.toWzConsts s t) : endOf t.put s.confirmed ≤ t.first := by
  have hle := h.confirming.le
  have htaken := h.inv.taken_le
  have hmono := endOf_mono isEop (t.items.take t.first) hle
    (by rw [← h.inv.put_eq]; exact htaken)
  rw [← h.inv.put_eq] at hmono
  exact Nat.le_trans hmono h.inv.taken_end_le

/-! ## The device -/

/-- The device meets a descriptor that it does not accept only when the ring is full. -/
theorem accepted_iff (h : Refines c.toWzConsts s t) :
    (s.desc s.pos).Accepted ↔ t.items.length < t.released + c.nofbufs := by
  have hn := c.nofbufs_pos
  rw [h.safe.accepted_iff h.safe.pos_lt, h.pos]
  have hrel : t.released ≤ t.items.length := Nat.le_trans h.released_le h.inv.first_le
  constructor
  · intro hu
    by_contra hfull
    have hb := h.bound
    -- the slot of the next position is that of the oldest one
    have hslot : t.items.length % c.nofbufs = t.released % c.nofbufs := by
      have : t.items.length = t.released + c.nofbufs := by omega
      rw [this, Nat.add_mod_right]
    rw [hslot] at hu
    have := (h.marks t.released (Nat.le_refl _) (by omega)).mpr (by omega)
    rw [hu] at this
    cases this
  · intro hlt
    have := (h.marks t.items.length hrel hlt).not.mpr (Nat.lt_irrefl _)
    simpa using this

theorem complete (h : Refines c.toWzConsts s t) (hacc : (s.desc s.pos).Accepted) (x : Completion) :
    Refines c.toWzConsts (s.complete c.toWzConsts bus x) { t with items := t.items ++ [x] } := by
  have hlt := h.accepted_iff.mp hacc
  have hrel : t.released ≤ t.items.length := Nat.le_trans h.released_le h.inv.first_le
  -- the old positions keep their slots
  have hother : ∀ k, t.released ≤ k → k < t.released + c.nofbufs → k ≠ t.items.length →
      k % c.nofbufs ≠ s.pos := by
    intro k hk hk' hne
    rw [h.pos]
    exact mod_ne_of_window hk hk' hrel hlt hne
  have hold : ∀ k y, (t.items ++ [x])[k]? = some y → k ≠ t.items.length → t.items[k]? = some y := by
    intro k y hy hne
    have hk : k < t.items.length := by
      have := (List.getElem?_eq_some_iff.mp hy).1
      simp at this
      omega
    rwa [List.getElem?_append_left hk] at hy
  constructor
  · exact h.safe.complete hacc x
  · exact Tape.Step.inv (.complete x) h.inv
  · simp [Acq.complete, h.items]
  · simp only [Acq.complete, h.pos, List.length_append, List.length_singleton]
    exact Lib.Cyclic.succ_mod _ _
  · exact h.first
  · exact h.scanned
  · exact h.scan
  · exact h.put
  · exact h.got
  · exact h.kfifo
  · simp
    omega
  · intro k hk hk'
    by_cases hkn : k = t.items.length
    · subst hkn
      simp [Acq.complete, h.pos]
    · have hslot := hother k hk hk' hkn
      simp only [Acq.complete, Function.update_of_ne hslot, List.length_append,
        List.length_singleton]
      rw [h.marks k hk hk']
      omega
  · intro k y hk hy
    by_cases hkn : k = t.items.length
    · subst hkn
      have hyx : x = y := by simpa using hy
      subst hyx
      simp only [Acq.complete, h.pos, Function.update_self]
      exact ⟨writeback_hasWb .., writeback_eop .., fun _ => rfl⟩
    · have hy' := hold k y hy hkn
      have hslot := hother k hk (by have := lt_of_getElem hy'; omega) hkn
      simp only [Acq.complete, Function.update_of_ne hslot]
      exact h.filled k y hk hy'
  · intro k y hk hy
    by_cases hkn : k = t.items.length
    · subst hkn
      have hfirst := h.inv.first_le
      simp only [Acq.complete, h.pos, Function.update_self]
      constructor
      · intro hf
        cases hf
      · intro hk'
        omega
    · have hy' := hold k y hy hkn
      have hslot := hother k hk (by have := lt_of_getElem hy'; omega) hkn
      simp only [Acq.complete, Function.update_of_ne hslot]
      exact h.reported k y hk hy'
  · exact h.fresh
  · exact ⟨h.confirming.others, h.confirming.le, h.confirming.idle, h.confirming.busy⟩

/-! ## The scan -/

/-- A step that touches neither the ring nor the packets. -/
theorem of_same (h : Refines c.toWzConsts s t) (hinv : Tape.Inv isEop t')
    (hitems : t'.items = t.items) (hreleased : t'.released = t.released)
    (hfirst' : t'.first = t.first) (hput' : t'.put = t.put) (htaken : t'.taken = t.taken)
    (hdesc : s'.desc = s.desc) (hcopy : s'.descCopy = s.descCopy) (hpos : s'.pos = s.pos)
    (hconf : s'.confirms = s.confirms) (hun : s'.unconfirmed = s.unconfirmed)
    (hdone : s'.done = s.done) (hput : s'.put = s.put) (hgot : s'.got = s.got)
    (hkfifo : s'.kfifo = s.kfifo) (hfirst : s'.blockFirstDesc = s.blockFirstDesc)
    (hrep : s'.reported = s.reported) (hfresh : s'.repeated = s.repeated)
    (hcount : s'.confirmed = s.confirmed)
    (hscanned : s'.blockScannedDesc = t'.scanned % c.nofbufs)
    (hscan : s'.scan = t'.check.map (· % c.nofbufs)) : Refines c.toWzConsts s' t' := by
  constructor
  · exact h.safe.of_same hdesc hcopy hpos hconf hun
  · exact hinv
  · rw [hitems, hdone, h.items]
  · rw [hpos, hitems, h.pos]
  · rw [hfirst, hfirst', h.first]
  · exact hscanned
  · exact hscan
  · rw [hput, hput', h.put]
  · rw [hgot, hput', htaken, h.got]
  · rw [hkfifo, hput', htaken, h.kfifo]
  · rw [hitems, hreleased]
    exact h.bound
  · rw [hitems, hreleased, hun]
    exact h.marks
  · rw [hitems, hreleased, hdesc, hput', hcount]
    exact h.filled
  · rw [hitems, hreleased, hrep, hfirst']
    exact h.reported
  · rw [hfresh, h.fresh]
  · refine ⟨?_, ?_, ?_, ?_⟩
    · rw [hconf]
      exact h.confirming.others
    · rw [hcount, htaken]
      exact h.confirming.le
    · rw [hconf, hreleased, hput', hcount]
      exact h.confirming.idle
    · rw [hconf, hreleased, hput', hcount]
      exact h.confirming.busy

/-- The writeback that the scan finds at a completed position. -/
theorem result (h : Refines c.toWzConsts s t) {k : Nat} {x : Completion} (hk : t.first ≤ k)
    (hx : t.items[k]? = some x) :
    (s.desc (k % c.nofbufs)).toResult.HasWb ∧ (s.desc (k % c.nofbufs)).toResult.eop = x.eop ∧
      (s.desc (k % c.nofbufs)).toResult.length = x.length := by
  obtain ⟨hwb, heop, hlen⟩ := h.filled k x (Nat.le_trans h.released_le hk) hx
  exact ⟨hwb, heop, hlen (Nat.le_trans h.confirmed_end_le hk)⟩

/-- Behind the last completion the scan finds no writeback, unless the ring is full. -/
theorem not_hasWb (h : Refines c.toWzConsts s t) (hlt : t.items.length < t.released + c.nofbufs) :
    ¬(s.desc (t.items.length % c.nofbufs)).toResult.HasWb := by
  rw [← h.pos]
  exact not_hasWb_of_accepted (h.accepted_iff.mpr hlt)

theorem scanIter_pass (h : Refines c.toWzConsts s t) {k : Nat} {x : Completion}
    (hcheck : t.check = some k) (hx : t.items[k]? = some x) (hm : x.eop = false)
    (hs : s.scanIter c.toWzConsts = some s') :
    Refines c.toWzConsts s' { t with check := some (k + 1) } := by
  obtain ⟨hwb, heop, -⟩ := h.result (h.inv.check_clear k hcheck).1 hx
  have hscan : s.scan = some (k % c.nofbufs) := by rw [h.scan, hcheck]; rfl
  have hinv := Tape.Step.inv (.pass hcheck hx hm) h.inv
  simp only [Acq.scanIter, hscan, scanMove, if_pos hwb, heop, hm, Bool.false_eq_true, if_false,
    Acq.record, BlockScan.apply, Option.some.injEq] at hs
  subst hs
  exact h.of_same hinv rfl rfl rfl rfl rfl rfl rfl rfl rfl rfl rfl rfl rfl rfl rfl rfl rfl rfl
    h.scanned (by simp [nextDesc_mod])

theorem scanIter_stall (h : Refines c.toWzConsts s t) {k : Nat} {x : Completion}
    (hcheck : t.check = some k) (hx : t.items[k]? = some x) (hm : x.eop = true)
    (hfull : ¬s.kfifo.length < s.kfifoSize) (hs : s.scanIter c.toWzConsts = some s') :
    Refines c.toWzConsts s' { t with check := none } := by
  obtain ⟨hwb, heop, -⟩ := h.result (h.inv.check_clear k hcheck).1 hx
  have hscan : s.scan = some (k % c.nofbufs) := by rw [h.scan, hcheck]; rfl
  have hinv := Tape.Step.inv (.stall hcheck) h.inv
  simp only [Acq.scanIter, hscan, scanMove, if_pos hwb, heop, hm, if_true, if_neg hfull,
    Acq.record, BlockScan.apply, Option.some.injEq] at hs
  subst hs
  exact h.of_same hinv rfl rfl rfl rfl rfl rfl rfl rfl rfl rfl rfl rfl rfl rfl rfl rfl rfl rfl
    h.scanned rfl

theorem scanIter_finish (h : Refines c.toWzConsts s t) (hcheck : t.check = some t.items.length)
    (hlt : t.items.length < t.released + c.nofbufs) (hs : s.scanIter c.toWzConsts = some s') :
    Refines c.toWzConsts s' { t with scanned := t.items.length, check := none } := by
  have hwb := h.not_hasWb hlt
  have hscan : s.scan = some (t.items.length % c.nofbufs) := by rw [h.scan, hcheck]; rfl
  have hinv := Tape.Step.inv (.finish hcheck) h.inv
  simp only [Acq.scanIter, hscan, scanMove, if_neg hwb, Acq.record, BlockScan.apply,
    Option.some.injEq] at hs
  subst hs
  exact h.of_same hinv rfl rfl rfl rfl rfl rfl rfl rfl rfl rfl rfl rfl rfl rfl rfl rfl rfl rfl rfl rfl

theorem scanIter_report (h : Refines c.toWzConsts s t) {k : Nat} {x : Completion}
    (hcheck : t.check = some k) (hx : t.items[k]? = some x) (hm : x.eop = true)
    (hroom : s.kfifo.length < s.kfifoSize) (hs : s.scanIter c.toWzConsts = some s') :
    Refines c.toWzConsts s'
      { t with put := t.put ++ [⟨t.first, k, x⟩], first := k + 1, scanned := k + 1,
               check := some (k + 1) } := by
  have hclear := h.inv.check_clear k hcheck
  have hk : t.released ≤ k := Nat.le_trans h.released_le hclear.1
  obtain ⟨hwb, heop, hlen⟩ := h.result hclear.1 hx
  have hscan : s.scan = some (k % c.nofbufs) := by rw [h.scan, hcheck]; rfl
  have hinv := Tape.Step.inv (.report hcheck hx hm) h.inv
  have htaken := h.inv.taken_le
  have hconf := Nat.le_trans h.confirming.le htaken
  have hnew : s.reported (k % c.nofbufs) = false := by
    have hge := hclear.1
    have := (h.reported k x hk hx).not.mpr (by omega)
    simpa using this
  simp only [Acq.scanIter, hscan, scanMove, if_pos hwb, heop, hm, if_true, if_pos hroom,
    Acq.record, BlockScan.apply, Option.some.injEq] at hs
  subst hs
  constructor
  · exact h.safe.of_same rfl rfl rfl rfl rfl
  · exact hinv
  · exact h.items
  · exact h.pos
  · exact nextDesc_mod c k
  · exact nextDesc_mod c k
  · simp [nextDesc_mod]
  · simp [h.put, toBlock, h.first, hlen]
  · simp only [List.take_append_of_le_length htaken]
    exact h.got
  · simp [List.drop_append_of_le_length htaken, h.kfifo, toBlock, h.first, hlen]
  · exact h.bound
  · exact h.marks
  · simp only [endOf_append hconf]
    exact h.filled
  · intro j y hj hy
    by_cases hjk : j = k
    · subst hjk
      obtain rfl := Option.some.inj (hx.symm.trans hy)
      simp [hm]
    · have hslot : j % c.nofbufs ≠ k % c.nofbufs :=
        h.slot_ne hj hy hk (by have := lt_of_getElem hx; have := h.bound; omega) hjk
      simp only [Function.update_of_ne hslot]
      rw [h.reported j y hj hy]
      constructor
      · rintro ⟨hlt, heop⟩
        exact ⟨by have := hclear.1; omega, heop⟩
      · rintro ⟨hlt, heop⟩
        refine ⟨?_, heop⟩
        -- between the cursor and the new end there is no other end of a packet
        by_contra hge
        have := hclear.2.2 j (by omega) (by omega) y hy
        rw [isEop, heop] at this
        cases this
  · simp [h.fresh, hnew]
  · refine ⟨h.confirming.others, h.confirming.le, fun hidle => ?_, fun call hcall => ?_⟩
    · simp only [endOf_append hconf]
      exact h.confirming.idle hidle
    · obtain ⟨hcur, g, hpos, hg, hle, hlast⟩ := h.confirming.busy call hcall
      refine ⟨hcur, g, hpos, ?_, hle, hlast⟩
      have : s.confirmed - 1 < t.put.length := (List.getElem?_eq_some_iff.mp hg).1
      simp only [List.getElem?_append_left this]
      exact hg

/-! ## The application -/

theorem getbuf (h : Refines c.toWzConsts s t) {db : WzXdmaDataBlockDesc}
    {rest : List WzXdmaDataBlockDesc} (hk : s.kfifo = db :: rest) :
    Refines c.toWzConsts { s with kfifo := rest, got := s.got ++ [db] }
      { t with taken := t.taken + 1 } := by
  have hfifo := h.kfifo
  rw [hk] at hfifo
  have hlt : t.taken < t.put.length := by
    by_contra hge
    rw [List.drop_eq_nil_of_le (by omega)] at hfifo
    cases hfifo
  rw [List.drop_eq_getElem_cons hlt, List.map_cons, List.cons.injEq] at hfifo
  have hconf := h.confirming.le
  constructor
  · exact h.safe.of_same rfl rfl rfl rfl rfl
  · exact Tape.Step.inv (.take hlt) h.inv
  · exact h.items
  · exact h.pos
  · exact h.first
  · exact h.scanned
  · exact h.scan
  · exact h.put
  · simp only [h.got, hfifo.1, List.take_add_one, List.getElem?_eq_getElem hlt, Option.toList_some,
      List.map_append, List.map_cons, List.map_nil]
  · exact hfifo.2
  · exact h.bound
  · exact h.marks
  · exact h.filled
  · exact h.reported
  · exact h.fresh
  · exact ⟨h.confirming.others, Nat.le_succ_of_le hconf, h.confirming.idle, h.confirming.busy⟩

/-- The numbers of a block are positions in the ring. -/
theorem toNat_ofNat_mod (c : RingConsts) (k : Nat) :
    (BitVec.ofNat 32 (k % c.nofbufs)).toNat = k % c.nofbufs := by
  have := Nat.mod_lt k c.nofbufs_pos
  have := c.nofbufs_le
  rw [BitVec.toNat_ofNat, Nat.mod_eq_of_lt (by omega)]

/-- The next block to confirm, as the application got it. -/
theorem next_block (h : Refines c.toWzConsts s t) {db : WzXdmaDataBlockDesc}
    (hdb : s.got[s.confirmed]? = some db) :
    ∃ g, t.put[s.confirmed]? = some g ∧ db = toBlock c.toWzConsts g ∧ s.confirmed < t.taken := by
  rw [h.got, List.getElem?_map] at hdb
  obtain ⟨g, hg, rfl⟩ := Option.map_eq_some_iff.mp hdb
  have hlt := (List.getElem?_eq_some_iff.mp hg).1
  rw [List.length_take] at hlt
  rw [List.getElem?_take_of_lt (by omega)] at hg
  exact ⟨g, hg, rfl, by omega⟩

theorem confirm (h : Refines c.toWzConsts s t) {thread first last : Nat}
    (hok : confirmsInOrder s (.confirm thread first last))
    (hs : s.confirm c.toWzConsts thread first last = some s') : Refines c.toWzConsts s' t := by
  obtain ⟨rfl, db, hdb, rfl, rfl⟩ := hok
  obtain ⟨g, hg, rfl, hlt⟩ := h.next_block hdb
  have hsafe := hs
  obtain ⟨hidle, -, -, rfl⟩ := Acq.confirm_cases hs
  obtain ⟨hfirst, hle, hlast, -⟩ := h.inv.group hg
  have hend : endOf t.put (s.confirmed + 1) = g.last + 1 := endOf_succ hg
  have hrel : t.released = g.first := (h.confirming.idle hidle).trans hfirst.symm
  have hitems := h.inv.first_le
  have hbound := h.bound
  simp only [toBlock, toNat_ofNat_mod] at hsafe ⊢
  constructor
  · refine h.safe.confirm (fun i hi => ⟨?_, fun thread call hcall => ?_⟩) hsafe
    · obtain ⟨k, hk, hk', rfl⟩ := covers_mod hle (by omega) hi
      exact (h.marks k (by omega) (by omega)).mpr (by omega)
    · by_cases ht : thread = 0
      · rw [ht, hidle] at hcall
        cases hcall
      · rw [h.confirming.others thread ht] at hcall
        cases hcall
  · exact h.inv
  · exact h.items
  · exact h.pos
  · exact h.first
  · exact h.scanned
  · exact h.scan
  · exact h.put
  · exact h.got
  · exact h.kfifo
  · exact h.bound
  · exact h.marks
  · intro k x hk hx
    obtain ⟨h1, h2, h3⟩ := h.filled k x hk hx
    refine ⟨h1, h2, fun hge => h3 ?_⟩
    rw [hend] at hge
    omega
  · exact h.reported
  · exact h.fresh
  · refine ⟨fun thread ht => ?_, hlt, fun hnone => ?_, fun call hcall => ?_⟩
    · simp only [Function.update_of_ne ht]
      exact h.confirming.others thread ht
    · simp at hnone
    · simp only [Function.update_self, Option.some.injEq] at hcall
      subst hcall
      exact ⟨by rw [hrel], g, Nat.succ_pos _, by simpa using hg, by omega, rfl⟩

/-- Where the `CONFIRM` in progress is: at the oldest position that is not released,
inside the block it was called for. -/
theorem busy (h : Refines c.toWzConsts s t) {thread : Nat} {call : ConfirmCall}
    (hcall : s.confirms thread = some call) :
    thread = 0 ∧ call.cur = t.released % c.nofbufs ∧
      ∃ g, t.put[s.confirmed - 1]? = some g ∧ 0 < s.confirmed ∧ t.released ≤ g.last ∧
        call.last = g.last % c.nofbufs ∧ endOf t.put s.confirmed = g.last + 1 ∧
        g.last < t.released + c.nofbufs := by
  have ht : thread = 0 := by
    by_contra hne
    rw [h.confirming.others thread hne] at hcall
    cases hcall
  subst ht
  obtain ⟨hcur, g, hpos, hg, hle, hlast⟩ := h.confirming.busy call hcall
  have hend : endOf t.put s.confirmed = g.last + 1 := by
    have := endOf_succ hg
    rwa [Nat.sub_add_cancel hpos] at this
  have hgl := (h.inv.group hg).2.2.1
  have hfirst := h.inv.first_le
  have hbound := h.bound
  exact ⟨rfl, hcur, g, hg, hpos, hle, hlast, hend, by omega⟩

/-- A word before the last one. -/
theorem restore_word (h : Refines c.toWzConsts s t) {thread : Nat} {call : ConfirmCall}
    {w : DescWord} (hcall : s.confirms thread = some call)
    (hw : restoreOrder[call.word]? = some w) (hctrl : w ≠ .control) :
    Refines c.toWzConsts
      { s with
        desc := Function.update s.desc call.cur
          ((s.desc call.cur).copyWord (s.descCopy call.cur) w)
        confirms := Function.update s.confirms thread (call.next c.toWzConsts) } t := by
  obtain ⟨rfl, hcur, g, hg, hpos, hle, hlast, hend, hgl⟩ := h.busy hcall
  have hn := c.nofbufs_pos
  constructor
  · exact h.safe.restore_word hcall hw hctrl
  · exact h.inv
  · exact h.items
  · exact h.pos
  · exact h.first
  · exact h.scanned
  · exact h.scan
  · exact h.put
  · exact h.got
  · exact h.kfifo
  · exact h.bound
  · exact h.marks
  · intro k x hk hx
    obtain ⟨h1, h2, h3⟩ := h.filled k x hk hx
    by_cases hkr : k = t.released
    · subst hkr
      simp only [hcur, Function.update_self]
      refine ⟨?_, ?_, fun hge => absurd hge (by omega)⟩
      · simpa only [XdmaResult.HasWb, XdmaDesc.toResult, XdmaDesc.copyWord_control hctrl] using h1
      · simpa only [XdmaResult.eop, XdmaDesc.toResult, XdmaDesc.copyWord_control hctrl] using h2
    · have hslot : k % c.nofbufs ≠ call.cur := by
        rw [hcur]
        exact h.slot_ne hk hx (Nat.le_refl _) (by omega) hkr
      simp only [Function.update_of_ne hslot]
      exact ⟨h1, h2, h3⟩
  · exact h.reported
  · exact h.fresh
  · have hword : call.word + 1 < restoreOrder.length := by
      have := mt (restoreOrder_control_iff hw).mpr hctrl
      have := (h.safe.calls 0 call hcall).word_lt
      omega
    refine ⟨fun thread ht => ?_, h.confirming.le, fun hnone => ?_, fun call' hcall' => ?_⟩
    · simp only [Function.update_of_ne ht]
      exact h.confirming.others thread ht
    · simp [ConfirmCall.next_word hword] at hnone
    · simp only [Function.update_self, ConfirmCall.next_word hword, Option.some.injEq] at hcall'
      subst hcall'
      exact ⟨hcur, g, hpos, hg, hle, hlast⟩

/-- The slot that is freed is the one of the position a lap later. -/
theorem marks_restored (h : Refines c.toWzConsts s t) {cur : Nat} (hcur : cur = t.released % c.nofbufs)
    {k : Nat} (hk : t.released + 1 ≤ k) (hk' : k < t.released + 1 + c.nofbufs) :
    Function.update s.unconfirmed cur false (k % c.nofbufs) = true ↔ k < t.items.length := by
  have hn := c.nofbufs_pos
  have hbound := h.bound
  by_cases hlap : k = t.released + c.nofbufs
  · have hslot : k % c.nofbufs = cur := by rw [hlap, Nat.add_mod_right, hcur]
    rw [hslot, Function.update_self]
    constructor
    · intro hf
      cases hf
    · intro hlt
      omega
  · have hne : k % c.nofbufs ≠ cur := by
      rw [hcur]
      exact @mod_ne_of_window _ t.released _ _ (by omega) (by omega) (Nat.le_refl _) (by omega)
        (by omega)
    rw [Function.update_of_ne hne]
    exact h.marks k (by omega) (by omega)

/-- The call goes on to the next descriptor, or ends at the end of its block. -/
theorem confirming_restored (h : Refines c.toWzConsts s t) {call : ConfirmCall}
    (hcall : s.confirms 0 = some call) (hw : restoreOrder[call.word]? = some .control)
    (desc : Nat → XdmaDesc) (unconfirmed : Nat → Bool) :
    Confirming c.toWzConsts
      { s with
        desc := desc
        confirms := Function.update s.confirms 0 (call.next c.toWzConsts)
        unconfirmed := unconfirmed }
      { t with released := t.released + 1 } := by
  obtain ⟨-, hcur, g, hg, hpos, hle, hlast, hend, hgl⟩ := h.busy hcall
  have hdone := (restoreOrder_control_iff hw).mp rfl
  have hmeet : call.cur = call.last ↔ t.released = g.last := by
    rw [hcur, hlast]
    exact ⟨fun e => eq_of_mod_eq e hle hgl, fun e => by rw [e]⟩
  refine ⟨fun thread ht => ?_, h.confirming.le, fun hnone => ?_, fun call' hcall' => ?_⟩
  · simp only [Function.update_of_ne ht]
    exact h.confirming.others thread ht
  · simp only [Function.update_self, ConfirmCall.next_desc hdone] at hnone
    split at hnone
    · rename_i heq
      rw [hend, hmeet.mp heq]
    · cases hnone
  · simp only [Function.update_self, ConfirmCall.next_desc hdone] at hcall'
    split at hcall'
    · cases hcall'
    · rename_i hne
      rw [Option.some.injEq] at hcall'
      subst hcall'
      have hbefore := mt hmeet.mpr hne
      refine ⟨?_, g, hpos, hg, ?_, hlast⟩
      · simp only [hcur]
        exact nextDesc_mod c t.released
      · simp only
        omega

/-- The control word gives the descriptor back to the device. -/
theorem restore_control (h : Refines c.toWzConsts s t) {thread : Nat} {call : ConfirmCall}
    (hcall : s.confirms thread = some call) (hw : restoreOrder[call.word]? = some .control) :
    Refines c.toWzConsts
      { s with
        desc := Function.update s.desc call.cur
          ((s.desc call.cur).copyWord (s.descCopy call.cur) .control)
        confirms := Function.update s.confirms thread (call.next c.toWzConsts)
        unconfirmed := Function.update s.unconfirmed call.cur false }
      { t with released := t.released + 1 } := by
  obtain ⟨rfl, hcur, g, hg, hpos, hle, hlast, hend, hgl⟩ := h.busy hcall
  have hbound := h.bound
  have hconf := h.confirming.le
  have htaken := h.inv.taken_le
  have hmono := endOf_mono isEop (t.items.take t.first) hconf
    (by rw [← h.inv.put_eq]; exact htaken)
  rw [← h.inv.put_eq, hend] at hmono
  have hslot : ∀ k x, t.released + 1 ≤ k → t.items[k]? = some x → k % c.nofbufs ≠ call.cur := by
    intro k x hk hx
    rw [hcur]
    exact h.slot_ne (by omega) hx (Nat.le_refl _) (by omega) (by omega)
  constructor
  · exact h.safe.restore_control hcall hw
  · exact Tape.Step.inv (.release (by omega)) h.inv
  · exact h.items
  · exact h.pos
  · exact h.first
  · exact h.scanned
  · exact h.scan
  · exact h.put
  · exact h.got
  · exact h.kfifo
  · simp only
    omega
  · exact fun k hk hk' => h.marks_restored hcur hk hk'
  · intro k x hk hx
    simp only [Function.update_of_ne (hslot k x hk hx)]
    exact h.filled k x (by simp only at hk; omega) hx
  · intro k x hk hx
    exact h.reported k x (by simp only at hk; omega) hx
  · exact h.fresh
  · exact h.confirming_restored hcall hw _ _

/-! ## All steps -/

/-- The scan is about to look at a slot that a full ring shows a second time. -/
def Wrapped (c : WzConsts) (t : Tape Completion) : Prop :=
  t.check = some t.items.length ∧ t.items.length = t.released + c.nofbufs

/-- An iteration that does not wrap is a move of the tape. -/
theorem scanIter (h : Refines c.toWzConsts s t) (hwrap : ¬Wrapped c.toWzConsts t)
    (hs : s.scanIter c.toWzConsts = some s') :
    ∃ t', Refines c.toWzConsts s' t' ∧ t'.released = t.released := by
  cases hcheck : t.check with
  | none =>
      have hscan : s.scan = none := by rw [h.scan, hcheck]; rfl
      simp [Acq.scanIter, hscan] at hs
  | some k =>
      have hclear := h.inv.check_clear k hcheck
      rcases Nat.eq_or_lt_of_le hclear.2.1 with hk | hk
      · subst hk
        have hbound := h.bound
        have hlt : t.items.length < t.released + c.nofbufs := by
          have : ¬t.items.length = t.released + c.nofbufs := fun e => hwrap ⟨hcheck, e⟩
          omega
        exact ⟨_, h.scanIter_finish hcheck hlt hs, rfl⟩
      · have hx := List.getElem?_eq_getElem hk
        cases hm : (t.items[k]).eop with
        | false => exact ⟨_, h.scanIter_pass hcheck hx hm hs, rfl⟩
        | true =>
            by_cases hroom : s.kfifo.length < s.kfifoSize
            · exact ⟨_, h.scanIter_report hcheck hx hm hroom hs, rfl⟩
            · exact ⟨_, h.scanIter_stall hcheck hx hm hroom hs, rfl⟩

/-- The acquisition refines the tape, for an application that confirms in order and as
long as the scan does not wrap. -/
theorem step (h : Refines c.toWzConsts s t) {a : AcqAct} (hok : confirmsInOrder s a)
    (hwrap : a = .scanIter → ¬Wrapped c.toWzConsts t)
    (hs : s.step c.toWzConsts bus a = some s') :
    ∃ t', Refines c.toWzConsts s' t' ∧ t.released ≤ t'.released := by
  cases a with
  | device x =>
      obtain ⟨-, ⟨hacc, rfl⟩ | ⟨-, rfl⟩⟩ := Acq.device_cases hs
      · exact ⟨_, h.complete hacc x, Nat.le_refl _⟩
      · exact ⟨t, h.of_same h.inv rfl rfl rfl rfl rfl rfl rfl rfl rfl rfl rfl rfl rfl rfl rfl rfl
          rfl rfl h.scanned h.scan, Nat.le_refl _⟩
  | confirm thread first last => exact ⟨t, h.confirm hok hs, Nat.le_refl _⟩
  | restore thread =>
      obtain ⟨call, w, hcall, hw, rfl⟩ := Acq.restore_cases hs
      by_cases hctrl : w = .control
      · subst hctrl
        exact ⟨_, by simpa only [if_true] using h.restore_control hcall hw, Nat.le_succ _⟩
      · exact ⟨t, by simpa only [if_neg hctrl] using h.restore_word hcall hw hctrl, Nat.le_refl _⟩
  | scanBegin =>
      simp only [Acq.step] at hs
      split at hs
      · rename_i hscan
        obtain rfl := Option.some.inj hs
        have hcheck : t.check = none := by
          have := h.scan
          rw [hscan] at this
          simpa using this.symm
        exact ⟨_, h.of_same (Tape.Step.inv (.begin hcheck) h.inv) rfl rfl rfl rfl rfl rfl rfl rfl
          rfl rfl rfl rfl rfl rfl rfl rfl rfl rfl h.scanned (by simp [h.scanned]), Nat.le_refl _⟩
      · cases hs
  | scanIter =>
      obtain ⟨t', ht', hrel⟩ := h.scanIter (hwrap rfl) hs
      exact ⟨t', ht', Nat.le_of_eq hrel.symm⟩
  | getbuf =>
      simp only [Acq.step] at hs
      split at hs
      · cases hs
      · rename_i db rest hk
        obtain rfl := Option.some.inj hs
        exact ⟨_, h.getbuf hk, Nat.le_refl _⟩

/-- The empty tape stands for the state right after `START`. -/
theorem started {d d' : Driver} (hst : Driver.Started c.toWzConsts d d')
    (hfifo : d.ext.kfifo = []) (mem : Nat → Byte) :
    Refines c.toWzConsts (Acq.ofDriver d' mem) Tape.start := by
  have hn := c.nofbufs_pos
  constructor
  · exact .started hst mem
  · exact Tape.start_inv
  · rfl
  · exact (Nat.zero_mod _).symm
  · exact hst.first.trans (Nat.zero_mod _).symm
  · exact hst.scanned.trans (Nat.zero_mod _).symm
  · rfl
  · rfl
  · rfl
  · exact hst.frame.kfifo.trans hfifo
  · exact Nat.zero_le _
  · intro k _ _
    simp [Acq.ofDriver, Tape.start]
  · intro k x _ hx
    simp [Tape.start] at hx
  · intro k x _ hx
    simp [Tape.start] at hx
  · rfl
  · exact ⟨fun _ _ => rfl, Nat.le_refl _, fun _ => rfl, fun _ hcall => by cases hcall⟩

/-- Only the device completes descriptors. -/
theorem done_eq {a : AcqAct} (ha : ∀ x, a ≠ .device x) (hs : s.step c.toWzConsts bus a = some s') :
    s'.done = s.done := by
  cases a with
  | device x => exact absurd rfl (ha x)
  | confirm thread first last =>
      obtain ⟨-, -, -, rfl⟩ := Acq.confirm_cases hs
      rfl
  | restore thread =>
      obtain ⟨call, w, -, -, rfl⟩ := Acq.restore_cases hs
      rfl
  | scanBegin =>
      simp only [Acq.step] at hs
      split at hs
      · exact Option.some.inj hs ▸ rfl
      · cases hs
  | scanIter => exact (Acq.scanIter_frame hs).2.2.2.2.2.2.1
  | getbuf =>
      simp only [Acq.step] at hs
      split at hs
      · cases hs
      · exact Option.some.inj hs ▸ rfl

/-- While the application keeps up, the ring never gets full. -/
theorem step_keepsUp (h : Refines c.toWzConsts s t)
    (hlt : t.items.length < t.released + c.nofbufs) {a : AcqAct} (hok : keepsUp c.toWzConsts s a)
    (hs : s.step c.toWzConsts bus a = some s') :
    ∃ t', Refines c.toWzConsts s' t' ∧ t'.items.length < t'.released + c.nofbufs ∧
      t.released ≤ t'.released := by
  have hwrap : a = .scanIter → ¬Wrapped c.toWzConsts t := fun _ hw => by
    have := hw.2
    omega
  by_cases ha : ∃ x, a = .device x
  · obtain ⟨x, rfl⟩ := ha
    obtain ⟨-, ⟨hacc, rfl⟩ | ⟨hacc, -⟩⟩ := Acq.device_cases hs
    · refine ⟨_, h.complete hacc x, ?_, Nat.le_refl _⟩
      -- the free descriptor is behind the one that was completed
      obtain ⟨-, i, hi, hne, hfree⟩ := hok
      obtain ⟨k, hk, hk', rfl⟩ := exists_window t.released hi
      have hge : ¬k < t.items.length := fun hlt' => by
        rw [(h.marks k hk hk').mpr hlt'] at hfree
        cases hfree
      have hkn : k ≠ t.items.length := fun e => hne (by rw [e, h.pos])
      simp
      omega
    · exact absurd (h.accepted_iff.mpr hlt) hacc
  · obtain ⟨t', ht', hrel⟩ := h.step hok.1 hwrap hs
    have hdone := done_eq (fun x hx => ha ⟨x, hx⟩) hs
    refine ⟨t', ht', ?_, hrel⟩
    rw [ht'.items, hdone, ← h.items]
    omega

theorem reach {d d' : Driver} (hst : Driver.Started c.toWzConsts d d') (hfifo : d.ext.kfifo = [])
    {mem : Nat → Byte}
    (hs : Machine.Reach (Acq.step c.toWzConsts bus) (keepsUp c.toWzConsts) (Acq.ofDriver d' mem) s) :
    ∃ t, Refines c.toWzConsts s t ∧ t.items.length < t.released + c.nofbufs := by
  refine hs.invariant (P := fun s => ∃ t, Refines c.toWzConsts s t ∧
    t.items.length < t.released + c.nofbufs) ⟨_, started hst hfifo mem, ?_⟩ ?_
  · have := c.nofbufs_pos
    simp [Tape.start]
    omega
  · rintro u a u' - ⟨t, ht, hlt⟩ hok hstep
    obtain ⟨t', ht', hlt', -⟩ := ht.step_keepsUp hlt hok hstep
    exact ⟨t', ht', hlt'⟩

/-- The reported blocks are a prefix of the blocks of the stream. -/
theorem put_prefix (h : Refines c.toWzConsts s t) : s.put <+: blocks c.toWzConsts s.done := by
  rw [h.put, ← h.items]
  exact h.inv.put_prefix.map _

theorem got_append_kfifo (h : Refines c.toWzConsts s t) : s.got ++ s.kfifo = s.put := by
  rw [h.got, h.kfifo, h.put, ← List.map_append, List.take_append_drop]

end Refines

/-- While the application keeps up, the blocks put into the FIFO are at every moment the
first packets of the stream, in order, and when the scan meets a descriptor without
writeback they are all packets that are complete. -/
theorem block_assembly (c : RingConsts) (s₀ : Sys) (hs₀ : s₀.Reachable c.toWzConsts)
    (hfifo : s₀.drv.ext.kfifo = []) (env : StartEnv) (d : Driver)
    (hstart : s₀.drv.ioctlDoWzStart c.toWzConsts env = .ok (d, 0)) (mem : Nat → Byte)
    (bus : DmaAddr → Nat) (s : Acq)
    (hs : Machine.Reach (Acq.step c.toWzConsts bus) (keepsUp c.toWzConsts) (Acq.ofDriver d mem) s) :
    s.put <+: blocks c.toWzConsts s.done ∧ s.got ++ s.kfifo = s.put ∧ s.repeated = false ∧
    ∀ check s', s.scan = some check → ¬(s.desc check).toResult.HasWb →
      s.step c.toWzConsts bus .scanIter = some s' →
        s'.scan = none ∧ s'.put = blocks c.toWzConsts s'.done := by
  have hst := Driver.start_ok c.nofbufs_pos hs₀.pointerInv.live.descOld hstart
  obtain ⟨t, ht, hlt⟩ := Refines.reach hst hfifo hs
  refine ⟨ht.put_prefix, ht.got_append_kfifo, ht.fresh, ?_⟩
  intro check s' hscan hwb hstep
  have hcheck : t.check.map (· % c.nofbufs) = some check := ht.scan.symm.trans hscan
  obtain ⟨k, hk, rfl⟩ := Option.map_eq_some_iff.mp hcheck
  have hclear := ht.inv.check_clear k hk
  -- a completed position has its writeback, so the scan is at the end of the stream
  have hend : k = t.items.length := by
    by_contra hne
    have hkl : k < t.items.length := by
      have := hclear.2.1
      omega
    exact hwb (ht.result hclear.1 (List.getElem?_eq_getElem hkl)).1
  subst hend
  have ht' := ht.scanIter_finish hk hlt hstep
  refine ⟨ht'.scan, ?_⟩
  rw [ht'.put, blocks, ← ht'.items]
  exact congrArg _ (ht.inv.put_all hclear)

/-- Two packets, one of them fetched and confirmed, and the scan at the end of them. -/
theorem block_assembly_two_packets :
    ∃ (d : Driver) (s s' : Acq),
      Machine.Reach (Acq.step twoBuffers.toWzConsts BitVec.toNat) (keepsUp twoBuffers.toWzConsts)
        (Acq.ofDriver d fun _ => 0) s ∧
      s.step twoBuffers.toWzConsts BitVec.toNat .scanIter = some s' ∧
      s'.put = [⟨0, 0, 7⟩, ⟨1, 1, 9⟩] ∧ s'.put = blocks twoBuffers.toWzConsts s'.done := by
  obtain ⟨s₀, d, s, hs₀, hfifo, hd, hs, hp⟩ := exists_acq_of_exec
    twoBuffers.toWzConsts [.allocBuffers allocGranted] startGranted
    (fun _ => 0) BitVec.toNat (keepsUp twoBuffers.toWzConsts)
    ([.device ⟨true, 7, []⟩, .scanBegin, .scanIter, .getbuf, .confirm 0 0 0,
      .restore 0, .restore 0, .restore 0, .restore 0, .restore 0, .restore 0, .restore 0, .restore 0,
      .device ⟨true, 9, []⟩, .scanIter])
    (fun s => decide (s.scan = some 0 ∧ ¬(s.desc 0).toResult.HasWb ∧
      (s.scanIter twoBuffers.toWzConsts).map Acq.put = some [⟨0, 0, 7⟩, ⟨1, 1, 9⟩]))
    (by decide +kernel)
  obtain ⟨hscan, hwb, hput⟩ := of_decide_eq_true hp
  obtain ⟨s', hs', hput'⟩ := Option.map_eq_some_iff.mp hput
  have h := block_assembly twoBuffers s₀ hs₀ hfifo startGranted d hd (fun _ => 0) BitVec.toNat s hs
  exact ⟨d, s, s', hs, hs', hput', (h.2.2.2 0 s' hscan hwb hs').2⟩

end WzXdma
