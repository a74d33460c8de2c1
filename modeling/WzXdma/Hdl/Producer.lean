import Mathlib.Data.Nat.Init
import WzXdma.Lib.Clocked
import WzXdma.Lib.Periodic

/-!
# The data producer

The state machine of `data_producer_64` and the stream it offers to its FIFO.  The
counter `user_clk_cnt_r` drives nothing and is left out.  `chn_grp_count` has no reset
value in the source, so a run starts with an arbitrary one.

A packet has `COUNT_WORD_MAX + 1` words, sent in groups of sixteen.  `Counted` relates
the state and the two counters to the number of words transferred so far.
-/

namespace WzXdma
namespace Hdl
namespace Producer

open Lib.Clocked Lib.Periodic

/-- The values of `state`. -/
inductive Phase
  | idle
  | header
  | waitSample
  | data
  | last
  deriving DecidableEq, Repr

structure Inputs where
  userRstn : Bool
  newSample : Bool
  dmaEna : Bool
  fifoProgEmpty : Bool
  c2hDataTready : Bool
  deriving DecidableEq, Repr

structure State where
  state : Phase
  chnGrpCount : BitVec 4
  wordCount : BitVec 28
  deriving DecidableEq, Repr

def countWordMax : BitVec 28 := 0x0003FFF

/-- One edge of `data_clk`. -/
def next (s : State) (i : Inputs) : State :=
  if i.userRstn = false then { s with state := .idle, wordCount := 0 }
  else
    match s.state with
    | .idle =>
        { state := if i.dmaEna && i.fifoProgEmpty then .waitSample else .idle
          chnGrpCount := 0
          wordCount := 0 }
    | .header =>
        { s with wordCount := if i.c2hDataTready then s.wordCount + 1 else s.wordCount }
    | .waitSample =>
        { s with state := if i.newSample then .data else .waitSample, chnGrpCount := 0 }
    | .data =>
        if i.c2hDataTready then
          if s.wordCount = countWordMax then { s with state := .idle }
          else if s.chnGrpCount = 0xF then
            { s with state := .waitSample, wordCount := s.wordCount + 1 }
          else { s with chnGrpCount := s.chnGrpCount + 1, wordCount := s.wordCount + 1 }
        else s
    | .last => { s with state := .idle }

def c2hDataTvalid (s : State) : Bool :=
  match s.state with
  | .data => true
  | _ => false

def c2hDataTlast (s : State) : Bool :=
  if s.wordCount = countWordMax then true else false

def c2hDataTdata (s : State) : BitVec 64 :=
  0x0000A0000#36 ++ s.wordCount

/-- One transfer of the stream. -/
structure Beat where
  tdata : BitVec 64
  tlast : Bool
  deriving DecidableEq, Repr

/-- The transfer at the end of a cycle. -/
def beat (s : State) (i : Inputs) : Option Beat :=
  if c2hDataTvalid s && i.c2hDataTready then some ⟨c2hDataTdata s, c2hDataTlast s⟩ else none

/-! ## Packets -/

/-- The number of words of a packet. -/
def packetLen : Nat := countWordMax.toNat + 1

/-- Word `k` of a packet. -/
def packetBeat (k : Nat) : Beat :=
  ⟨0x0000A0000#36 ++ BitVec.ofNat 28 k, decide (k = countWordMax.toNat)⟩

/-- Whole packets, the last one possibly still under way. -/
def Packets (beats : List Beat) : Prop :=
  Periods packetLen packetBeat beats

theorem packetLen_eq : packetLen = 16384 := rfl

/-- The state and the counters after `c` transfers. -/
def Counted (c : Nat) (s : State) : Prop :=
  match s.state with
  | .idle => c % packetLen = 0
  | .waitSample => s.wordCount.toNat = c % packetLen ∧ c % 16 = 0
  | .data => s.wordCount.toNat = c % packetLen ∧ s.chnGrpCount.toNat = c % 16
  | .header => False
  | .last => False

section Edge

variable {s : State} {i : Inputs} {c : Nat}

theorem tvalid_iff : c2hDataTvalid s = true ↔ s.state = .data := by
  cases hs : s.state <;> simp [c2hDataTvalid, hs]

theorem beat_eq_some_iff {b : Beat} :
    beat s i = some b ↔ s.state = .data ∧ i.c2hDataTready = true ∧
      b = ⟨c2hDataTdata s, c2hDataTlast s⟩ := by
  unfold beat
  by_cases h : c2hDataTvalid s = true ∧ i.c2hDataTready = true
  · rw [if_pos (by rw [h.1, h.2]; rfl), Option.some.injEq]
    exact ⟨fun hb => ⟨tvalid_iff.mp h.1, h.2, hb.symm⟩, fun hb => hb.2.2.symm⟩
  · rw [if_neg (by simpa using h)]
    exact ⟨fun hb => (nomatch hb), fun hb => absurd ⟨tvalid_iff.mpr hb.1, hb.2.1⟩ h⟩

/-- A transfer is the next word of the packet. -/
theorem Counted.beat (h : Counted c s) {b : Beat} (hb : beat s i = some b) :
    b = packetBeat (c % packetLen) := by
  obtain ⟨hs, -, rfl⟩ := beat_eq_some_iff.mp hb
  rw [Counted, hs] at h
  obtain ⟨hw, -⟩ : s.wordCount.toNat = c % packetLen ∧ s.chnGrpCount.toNat = c % 16 := h
  have hword : s.wordCount = BitVec.ofNat 28 (c % packetLen) := by
    rw [← hw, BitVec.ofNat_toNat, BitVec.setWidth_eq]
  have hlast : c2hDataTlast s = decide (c % packetLen = countWordMax.toNat) := by
    unfold c2hDataTlast
    by_cases hmax : s.wordCount = countWordMax
    · rw [if_pos hmax, ← hw, hmax, decide_eq_true rfl]
    · rw [if_neg hmax, decide_eq_false]
      intro heq
      exact hmax (BitVec.eq_of_toNat_eq (hw.trans heq))
  rw [packetBeat, hlast, c2hDataTdata, ← hword]

/-- The edge of a cycle with a transfer. -/
theorem Counted.next_beat (h : Counted c s) (hr : i.userRstn = true) {b : Beat}
    (hb : Producer.beat s i = some b) : Counted (c + 1) (next s i) := by
  obtain ⟨hs, hready, -⟩ := beat_eq_some_iff.mp hb
  rw [Counted, hs] at h
  obtain ⟨hw, hg⟩ : s.wordCount.toNat = c % packetLen ∧ s.chnGrpCount.toNat = c % 16 := h
  rw [packetLen_eq] at hw
  have hnext : next s i =
      if s.wordCount = countWordMax then { s with state := .idle }
      else if s.chnGrpCount = 0xF then
        { s with state := .waitSample, wordCount := s.wordCount + 1 }
      else { s with chnGrpCount := s.chnGrpCount + 1, wordCount := s.wordCount + 1 } := by
    simp only [next, hr, hs, hready, Bool.true_eq_false, if_false, if_true]
  rw [hnext]
  by_cases hmax : s.wordCount = countWordMax
  · rw [if_pos hmax]
    show (c + 1) % packetLen = 0
    have : s.wordCount.toNat = 16383 := by rw [hmax]; rfl
    rw [packetLen_eq]
    omega
  · have hlt : s.wordCount.toNat ≠ 16383 := fun heq => hmax (BitVec.eq_of_toNat_eq heq)
    have hword : (s.wordCount + 1).toNat = (c + 1) % 16384 := by
      rw [BitVec.toNat_add, show (1 : BitVec 28).toNat = 1 from rfl, Nat.mod_eq_of_lt (by omega)]
      omega
    rw [if_neg hmax]
    by_cases hgrp : s.chnGrpCount = 0xF
    · rw [if_pos hgrp]
      show (s.wordCount + 1).toNat = (c + 1) % packetLen ∧ (c + 1) % 16 = 0
      have : s.chnGrpCount.toNat = 15 := by rw [hgrp]; rfl
      rw [packetLen_eq]
      exact ⟨hword, by omega⟩
    · have hne : s.chnGrpCount.toNat ≠ 15 := fun heq => hgrp (BitVec.eq_of_toNat_eq heq)
      rw [if_neg hgrp]
      show Counted (c + 1) ⟨s.state, s.chnGrpCount + 1, s.wordCount + 1⟩
      rw [hs]
      show (s.wordCount + 1).toNat = (c + 1) % packetLen ∧
        (s.chnGrpCount + 1).toNat = (c + 1) % 16
      refine ⟨by rw [packetLen_eq, hword], ?_⟩
      rw [BitVec.toNat_add, show (1 : BitVec 4).toNat = 1 from rfl]
      omega

/-- The edge of a cycle without one. -/
theorem Counted.next_idle (h : Counted c s) (hr : i.userRstn = true)
    (hb : Producer.beat s i = none) : Counted c (next s i) := by
  cases hs : s.state with
  | idle =>
      rw [Counted, hs] at h
      have h0 : c % packetLen = 0 := h
      have hnext : next s i =
          ⟨if i.dmaEna && i.fifoProgEmpty then .waitSample else .idle, 0, 0⟩ := by
        simp only [next, hr, hs, Bool.true_eq_false, if_false]
      rw [hnext]
      cases i.dmaEna && i.fifoProgEmpty with
      | false => exact h0
      | true =>
          show (0 : BitVec 28).toNat = c % packetLen ∧ c % 16 = 0
          rw [packetLen_eq] at h0 ⊢
          rw [show (0 : BitVec 28).toNat = 0 from rfl]
          omega
  | header =>
      rw [Counted, hs] at h
      exact h.elim
  | waitSample =>
      rw [Counted, hs] at h
      obtain ⟨hw, hg⟩ : s.wordCount.toNat = c % packetLen ∧ c % 16 = 0 := h
      have hnext : next s i =
          { s with state := if i.newSample then .data else .waitSample, chnGrpCount := 0 } := by
        simp only [next, hr, hs, Bool.true_eq_false, if_false]
      rw [hnext]
      cases i.newSample with
      | false => exact ⟨hw, hg⟩
      | true => exact ⟨hw, hg.symm⟩
  | data =>
      have hready : i.c2hDataTready = false := by
        by_contra hready
        rw [beat_eq_some_iff.mpr ⟨hs, by simpa using hready, rfl⟩] at hb
        cases hb
      have hnext : next s i = s := by
        simp only [next, hr, hs, hready, Bool.true_eq_false, if_false, Bool.false_eq_true]
      rw [hnext]
      exact h
  | last =>
      rw [Counted, hs] at h
      exact h.elim

/-- A stalled transfer stays as it is. -/
theorem next_stalled (hr : i.userRstn = true) (hv : c2hDataTvalid s = true)
    (hready : i.c2hDataTready = false) : next s i = s := by
  simp only [next, hr, tvalid_iff.mp hv, hready, Bool.true_eq_false, if_false, Bool.false_eq_true]

end Edge

/-! ## Runs -/

/-- The states after a reset, with no further reset. -/
structure Run (input : Nat → Inputs) (st : Nat → State) : Prop where
  reset : ∃ s i, i.userRstn = false ∧ st 0 = next s i
  edge : ∀ n, st (n + 1) = next (st n) (input n)
  noReset : ∀ n, (input n).userRstn = true

/-- The transfers of the first `n` cycles. -/
def beats (input : Nat → Inputs) (st : Nat → State) (n : Nat) : List Beat :=
  events (fun k => beat (st k) (input k)) n

section Runs

variable {input : Nat → Inputs} {st : Nat → State}

theorem beats_succ_some {n : Nat} {b : Beat} (hb : beat (st n) (input n) = some b) :
    beats input st (n + 1) = beats input st n ++ [b] :=
  events_succ_some hb

theorem beats_succ_none {n : Nat} (hb : beat (st n) (input n) = none) :
    beats input st (n + 1) = beats input st n :=
  events_succ_none hb

/-- Every cycle is where the number of transfers puts it, and the transfers are the words
of packets in turn. -/
theorem counted (h : Run input st) (n : Nat) :
    Counted (beats input st n).length (st n) ∧
      beats input st n = periodic packetLen packetBeat 0 (beats input st n).length := by
  induction n with
  | zero =>
      obtain ⟨s, i, hi, h0⟩ := h.reset
      refine ⟨?_, rfl⟩
      have hs : st 0 = ⟨.idle, s.chnGrpCount, 0⟩ := by
        rw [h0, next, if_pos hi]
      rw [hs]
      show 0 % packetLen = 0
      exact Nat.zero_mod _
  | succ n ih =>
      obtain ⟨hc, hbeats⟩ := ih
      rw [h.edge]
      cases hb : beat (st n) (input n) with
      | none =>
          rw [beats_succ_none hb]
          exact ⟨hc.next_idle (h.noReset n) hb, hbeats⟩
      | some b =>
          rw [beats_succ_some hb, List.length_append, List.length_singleton]
          refine ⟨hc.next_beat (h.noReset n) hb, ?_⟩
          rw [periodic_succ, ← hbeats, Nat.zero_add, hc.beat hb]

/-- The group under way was opened by a sample, seen after the last word of the group
before. -/
theorem sampled (h : Run input st) (n : Nat) (hs : (st n).state = .data) :
    ∃ m, m < n ∧ (st m).state = .waitSample ∧ (input m).newSample = true ∧
      (beats input st m).length = (beats input st n).length / 16 * 16 := by
  induction n with
  | zero =>
      obtain ⟨s, i, hi, h0⟩ := h.reset
      rw [h0, next, if_pos hi] at hs
      cases hs
  | succ n ih =>
      obtain ⟨hc, -⟩ := counted h n
      have hr := h.noReset n
      cases hb : beat (st n) (input n) with
      | some b =>
          obtain ⟨hdata, hready, -⟩ := beat_eq_some_iff.mp hb
          obtain ⟨m, hm, hwait, hnew, hlen⟩ := ih hdata
          -- the transfer does not close the group, for then the machine would wait
          have hc' := hc.next_beat hr hb
          rw [← h.edge, Counted, hs] at hc'
          rw [Counted, hdata] at hc
          obtain ⟨-, hg⟩ := hc
          obtain ⟨-, hg'⟩ := hc'
          have hne : (beats input st n).length % 16 ≠ 15 := by
            intro h15
            have hF : (st n).chnGrpCount = 0xF := BitVec.eq_of_toNat_eq (hg.trans h15)
            rw [h.edge, next, if_neg (by rw [hr]; decide)] at hs
            simp only [hdata, hready, hF, if_true] at hs
            split at hs <;> cases hs
          refine ⟨m, by omega, hwait, hnew, ?_⟩
          rw [beats_succ_some hb, List.length_append, List.length_singleton, hlen]
          omega
      | none =>
          rw [beats_succ_none hb]
          rw [h.edge] at hs
          cases hst : (st n).state with
          | data =>
              obtain ⟨m, hm, hrest⟩ := ih hst
              exact ⟨m, by omega, hrest⟩
          | waitSample =>
              have hnew : (input n).newSample = true := by
                by_contra hnew
                rw [next, if_neg (by rw [hr]; decide)] at hs
                simp only [hst, hnew, Bool.false_eq_true, if_false] at hs
                cases hs
              rw [Counted, hst] at hc
              exact ⟨n, Nat.lt_succ_self n, hst, hnew, by have := hc.2; omega⟩
          | idle =>
              rw [next, if_neg (by rw [hr]; decide)] at hs
              simp only [hst] at hs
              split at hs <;> cases hs
          | header =>
              rw [Counted, hst] at hc
              exact hc.elim
          | last =>
              rw [Counted, hst] at hc
              exact hc.elim

end Runs

/-- The stream of a run is framed. -/
structure Framed (input : Nat → Inputs) (st : Nat → State) : Prop where
  packets : ∀ n, Packets (beats input st n)
  /-- A group of sixteen words goes out after a sample that was seen while waiting, with
  all words of the groups before already transferred. -/
  sample : ∀ n, beat (st n) (input n) ≠ none → ∃ m, m < n ∧ (st m).state = .waitSample ∧
    (input m).newSample = true ∧
    (beats input st m).length = (beats input st n).length / 16 * 16
  stable : ∀ n, c2hDataTvalid (st n) = true → (input n).c2hDataTready = false →
    c2hDataTvalid (st (n + 1)) = true ∧ c2hDataTdata (st (n + 1)) = c2hDataTdata (st n) ∧
      c2hDataTlast (st (n + 1)) = c2hDataTlast (st n)

/-- Under every pattern of stalls, samples and enables. -/
theorem producer_frames_packets (input : Nat → Inputs) (st : Nat → State) (h : Run input st) :
    Framed input st := by
  refine ⟨fun n => ?_, fun n hb => ?_, fun n hv hready => ?_⟩
  · rw [(counted h n).2]
    exact periods_periodic (by rw [packetLen_eq]; omega) packetBeat _
  · obtain ⟨b, hb⟩ := Option.ne_none_iff_exists'.mp hb
    exact sampled h n (beat_eq_some_iff.mp hb).1
  · rw [h.edge, next_stalled (h.noReset n) hv hready]
    exact ⟨hv, rfl, rfl⟩

/-- With all inputs high, the first word goes out in cycle 2. -/
theorem producer_frames_packets_busy :
    ∃ (input : Nat → Inputs) (st : Nat → State), Run input st ∧
      beat (st 2) (input 2) = some (packetBeat 0) ∧ Framed input st := by
  have hrun : Run (fun _ => ⟨true, true, true, true, true⟩)
      (stateAt next (next ⟨.data, 5, 3⟩ ⟨false, true, true, true, true⟩)
        fun _ => ⟨true, true, true, true, true⟩) :=
    ⟨⟨_, _, rfl, rfl⟩, fun _ => rfl, fun _ => rfl⟩
  exact ⟨_, _, hrun, by decide +kernel, producer_frames_packets _ _ hrun⟩

end Producer
end Hdl
end WzXdma
