import Mathlib.Logic.Basic

/-!
# Pacing of the stream sources

The two processes that the pseudorandom sources share: the shift register that the parameters of a
packet are taken from, and the process that asks for a packet after a delay.  A request stays until it
is acknowledged, and a request that comes while one is waiting is merged with it.
-/

namespace WzXdma
namespace Hdl
namespace Pacing

/-- Process `p2`. -/
def shift (resetn : Bool) (shiftReg : BitVec 49) : BitVec 49 :=
  if resetn = false then 1
  else shiftReg.extractLsb' 0 48 ++ BitVec.ofBool (shiftReg.getLsbD 48 ^^ shiftReg.getLsbD 39)

structure Pace where
  delCnt : Nat
  startPkt : Bool
  deriving DecidableEq, Repr

/-- Process `p0`. -/
def pace (pktDel : Nat) (resetn start ackPkt : Bool) (p : Pace) : Pace :=
  if resetn = false ∨ start = false then ⟨0, false⟩
  else if p.delCnt < pktDel then ⟨p.delCnt + 1, if ackPkt then false else p.startPkt⟩
  else ⟨0, true⟩

/-- The edge asks for a packet. -/
def requests (pktDel : Nat) (resetn start : Bool) (p : Pace) : Bool :=
  resetn && start && !decide (p.delCnt < pktDel)

/-- A request is there because the edge has made it, or it was there and is not acknowledged. -/
theorem pace_startPkt {pktDel : Nat} {resetn start ackPkt : Bool} {p : Pace}
    (h : (pace pktDel resetn start ackPkt p).startPkt = true) :
    requests pktDel resetn start p = true ∨ p.startPkt = true ∧ ackPkt = false := by
  unfold pace at h
  split at h
  · cases h
  next hrun =>
  split at h
  · next hdel =>
      cases hack : ackPkt with
      | true => simp [hack] at h
      | false => exact .inr ⟨by simpa [hack] using h, rfl⟩
  · next hdel =>
      refine .inl ?_
      simp only [not_or, Bool.not_eq_false] at hrun
      simp [requests, hrun.1, hrun.2, hdel]

end Pacing
end Hdl
end WzXdma
