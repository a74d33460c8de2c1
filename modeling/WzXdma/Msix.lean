import Mathlib.Data.List.Count
import WzXdma.Interrupts
import WzXdma.Probe.Unwind

/-!
# Interrupt vectors

With MSI-X each interrupt request of the device has a table entry of its own.  `write_msix_vectors`
tells the device which entry belongs to which request, `msix_irq_setup` and `engine_msix_setup` request
the interrupts of these entries, and `engine_create` numbers the engines for both: the entry, and the
bit in the request register that `xdma_isr` goes by.

`serial` is the number of the engine at a place, and everything about an engine is derived from it.
-/

namespace WzXdma
namespace Msix

open Lib Lib.Loop Probe Interrupts

/-! ## The registers -/

/-- The last registers of `struct interrupt_regs`. -/
structure VectorRegs where
  userMsiVector : Nat → Word
  channelMsiVector : Nat → Word

/-- `build_vector_reg` -/
def buildVectorReg (a b c d : Word) : Word :=
  (a &&& 0x1f) <<< 0 ||| (b &&& 0x1f) <<< 8 ||| (c &&& 0x1f) <<< 16 ||| (d &&& 0x1f) <<< 24

/-- `write_msix_vectors` -/
def writeMsixVectors (regs : VectorRegs) : VectorRegs where
  userMsiVector :=
    Function.update (Function.update (Function.update (Function.update regs.userMsiVector
      0 (buildVectorReg 0 1 2 3))
      1 (buildVectorReg 4 5 6 7))
      2 (buildVectorReg 8 9 10 11))
      3 (buildVectorReg 12 13 14 15)
  channelMsiVector :=
    Function.update (Function.update regs.channelMsiVector
      0 (buildVectorReg 16 17 18 19))
      1 (buildVectorReg 20 21 22 23)

/-- How the device reads its registers: each request has five bits of a byte. -/
def entryOf (vectorRegs : Nat → Word) (request : Nat) : Nat :=
  ((vectorRegs (request / 4) >>> (8 * (request % 4))) &&& 0x1f).toNat

/-! ## The handlers -/

/-- A handler with its argument, as it is passed to `request_irq`. -/
inductive Handler
  | xdmaUserIrq (i : UserIrq)
  | xdmaChannelIrq (p : Place)
  deriving DecidableEq, Repr

/-- The handlers of an interrupt: those that `msix_irq_setup` has requested, and those of
`engine_msix_setup`. -/
def handlers (lro : XdmaDev) (irq : Nat) : List Handler :=
  ((List.finRange 16).filter fun i => lro.vector i.val == irq).map .xdmaUserIrq ++
    (places.filter fun p => (lro.engine p.1 p.2).any (·.msixIrqLine == irq)).map .xdmaChannelIrq

/-- The handlers that a request of the device calls. -/
def called (lro : XdmaDev) (vectorRegs : Nat → Word) (request : Nat) : List Handler :=
  handlers lro (lro.vector (entryOf vectorRegs request))

/-- The requests of a register, `count` at most, call this handler. -/
def calls (lro : XdmaDev) (vectorRegs : Nat → Word) (count : Nat) (requests : Word) (h : Handler) :
    Bool :=
  (List.range count).any fun k => requests.getLsbD k && (called lro vectorRegs k).contains h

/-- The places where `probe_for_engine` finds an engine. -/
def foundOn (board : Board) (lro : XdmaDev) (p : Place) : Bool :=
  lro.configBarIdx.any fun i => engineAt board i p.1 p.2

/-! ## Entries -/

section Entries

theorem buildVectorReg_byte (q : Nat) (hq : q < 6) (j : Nat) (hj : j < 4) :
    ((buildVectorReg (BitVec.ofNat 32 (4 * q)) (BitVec.ofNat 32 (4 * q + 1))
      (BitVec.ofNat 32 (4 * q + 2)) (BitVec.ofNat 32 (4 * q + 3)) >>> (8 * j)) &&& 0x1f).toNat =
        4 * q + j := by
  have hall : ∀ q : Fin 6, ∀ j : Fin 4,
      ((buildVectorReg (BitVec.ofNat 32 (4 * q.val)) (BitVec.ofNat 32 (4 * q.val + 1))
        (BitVec.ofNat 32 (4 * q.val + 2)) (BitVec.ofNat 32 (4 * q.val + 3)) >>> (8 * j.val)) &&&
          0x1f).toNat = 4 * q.val + j.val := by decide
  exact hall ⟨q, hq⟩ ⟨j, hj⟩

variable (regs : VectorRegs)

theorem userMsiVector_eq {q : Nat} (hq : q < 4) :
    (writeMsixVectors regs).userMsiVector q =
      buildVectorReg (BitVec.ofNat 32 (4 * q)) (BitVec.ofNat 32 (4 * q + 1))
        (BitVec.ofNat 32 (4 * q + 2)) (BitVec.ofNat 32 (4 * q + 3)) := by
  have hcases : q = 0 ∨ q = 1 ∨ q = 2 ∨ q = 3 := by omega
  rcases hcases with rfl | rfl | rfl | rfl
  · rfl
  · rfl
  · rfl
  · rfl

theorem channelMsiVector_eq {q : Nat} (hq : q < 2) :
    (writeMsixVectors regs).channelMsiVector q =
      buildVectorReg (BitVec.ofNat 32 (4 * (q + 4))) (BitVec.ofNat 32 (4 * (q + 4) + 1))
        (BitVec.ofNat 32 (4 * (q + 4) + 2)) (BitVec.ofNat 32 (4 * (q + 4) + 3)) := by
  have hcases : q = 0 ∨ q = 1 := by omega
  rcases hcases with rfl | rfl
  · rfl
  · rfl

/-- User request `i` has entry `i`. -/
theorem entryOf_user {i : Nat} (hi : i < 16) :
    entryOf (writeMsixVectors regs).userMsiVector i = i := by
  unfold entryOf
  rw [userMsiVector_eq regs (by omega), buildVectorReg_byte _ (by omega) _ (by omega)]
  omega

/-- The engines have the entries behind those of the users. -/
theorem entryOf_channel {k : Nat} (hk : k < 8) :
    entryOf (writeMsixVectors regs).channelMsiVector k = k + 16 := by
  unfold entryOf
  rw [channelMsiVector_eq regs (by omega), buildVectorReg_byte _ (by omega) _ (by omega)]
  omega

end Entries

/-! ## The number of an engine -/

section Serial

variable {found : Place → Bool} {done : List Place} {p q : Place} {k : Nat}

/-- The number of the engine at a place, when the places of `done` have been looked at. -/
def serial (found : Place → Bool) (done : List Place) (p : Place) : Option Nat :=
  (done.filter found).zipIdx.lookup p

theorem numbered_eq (found : Place → Bool) (done : List Place) (n : Nat) :
    numbered found done n =
      ((done.filter found).zipIdx n).map fun x => (x.1, irqBitmask x.2) := by
  induction done generalizing n with
  | nil => rfl
  | cons p done ih =>
      rw [numbered, List.filter_cons]
      split
      · rw [List.zipIdx_cons, List.map_cons, ih]
      · exact ih n

theorem lookup_map_snd {α β γ : Type} [BEq α] (f : β → γ) (l : List (α × β)) (a : α) :
    (l.map fun x => (x.1, f x.2)).lookup a = (l.lookup a).map f := by
  induction l with
  | nil => rfl
  | cons x l ih =>
      rw [List.map_cons, List.lookup_cons, List.lookup_cons, ih]
      cases a == x.1 with
      | false => rfl
      | true => rfl

theorem probed_eq (found : Place → Bool) (p : Place) :
    probed found p = (serial found places p).map irqBitmask := by
  unfold probed serial
  rw [numbered_eq, lookup_map_snd]

theorem lookup_mem {α β : Type} [BEq α] [LawfulBEq α] {l : List (α × β)} {a : α} {b : β}
    (h : l.lookup a = some b) : (a, b) ∈ l := by
  obtain ⟨l₁, l₂, rfl, -⟩ := List.lookup_eq_some_iff.mp h
  exact List.mem_append_right _ List.mem_cons_self

/-- The number is the place among the engines found. -/
theorem getElem?_of_serial (h : serial found done p = some k) :
    (done.filter found)[k]? = some p := by
  have hmem := lookup_mem h
  exact List.mem_zipIdx_iff_getElem?.mp hmem

/-- Two engines have different numbers. -/
theorem serial_injective (hp : serial found done p = some k) (hq : serial found done q = some k) :
    p = q := by
  have hp' := getElem?_of_serial hp
  rw [getElem?_of_serial hq] at hp'
  exact (Option.some.inj hp').symm

theorem serial_lt (h : serial found places p = some k) : k < 8 := by
  obtain ⟨hlt, -⟩ := List.getElem?_eq_some_iff.mp (getElem?_of_serial h)
  have hle := List.length_filter_le found places
  have hlen : places.length = 8 := rfl
  omega

/-- Looking at one more place. -/
theorem serial_append (found : Place → Bool) (done : List Place) (p q : Place) :
    serial found (done ++ [p]) q =
      (serial found done q).or
        (if found p = true ∧ q = p then some (done.filter found).length else none) := by
  unfold serial
  rw [List.filter_append, List.zipIdx_append, List.lookup_append, Nat.zero_add, List.filter_cons]
  congr 1
  split
  · rename_i hp
    rw [List.filter_nil, List.zipIdx_cons, List.zipIdx_nil, List.lookup_cons, List.lookup_nil]
    by_cases hq : q = p
    · rw [beq_iff_eq.mpr hq, if_pos ⟨hp, hq⟩]
    · rw [beq_false_of_ne hq, if_neg fun h => hq h.2]
  · rename_i hp
    rw [List.filter_nil, List.zipIdx_nil, List.lookup_nil, if_neg fun h => hp h.1]

theorem serial_eq_none (h : p ∉ done) : serial found done p = none := by
  cases hk : serial found done p with
  | none => rfl
  | some k =>
      have hmem := List.mem_of_getElem? (getElem?_of_serial hk)
      exact absurd (List.mem_filter.mp hmem).1 h

end Serial

/-! ## `probe_engines` -/

section Probing

variable {board : Board} {ans : Answers} {found : Place → Bool} {vector : Nat → Nat}
  {done : List Place} {s t : Probe.State} {e e' : Engine} {channel : Channel} {dir : Bool}

/-- What a successful creation does to the device. -/
theorem engineConfigure_some (h : engineConfigure ans channel dir e s = (t, some e')) :
    t.lro = { s.lro with enginesNum := s.lro.enginesNum + 1 } ∧ e'.msixIrqLine = e.msixIrqLine := by
  unfold engineConfigure engineWritebackSetup at h
  dsimp only at h
  split at h
  · by_cases hwb : (ans.engine channel dir).writeback = true
    · rw [if_pos hwb] at h
      simp only [Prod.mk.injEq, Option.some.injEq] at h
      obtain ⟨rfl, rfl⟩ := h
      exact ⟨rfl, rfl⟩
    · rw [if_neg hwb] at h
      simp only [Prod.mk.injEq] at h
      cases h.2
  · simp only [Prod.mk.injEq, Option.some.injEq] at h
    obtain ⟨rfl, rfl⟩ := h
    exact ⟨rfl, rfl⟩

theorem engineCreate_some (h : engineCreate ans channel dir s = (t, some e))
    (hmsix : s.lro.msixEnabled = true) :
    t.lro = { s.lro with enginesNum := s.lro.enginesNum + 1 } ∧
      e.msixIrqLine = s.lro.vector (s.lro.enginesNum + 16) := by
  unfold engineCreate engineMsixSetup at h
  dsimp only at h
  split at h
  · simp only [Prod.mk.injEq] at h
    cases h.2
  · rw [Probe.State.acquire_lro, if_pos hmsix] at h
    by_cases hrc : (ans.engine channel dir).irqRc ≠ 0
    · rw [if_pos hrc] at h
      simp only [Prod.mk.injEq] at h
      cases h.2
    · rw [if_neg hrc] at h
      exact engineConfigure_some h

/-- The engines of the places of `done`. -/
structure Numbered (found : Place → Bool) (vector : Nat → Nat) (idx : Option Bar)
    (done : List Place) (s : Probe.State) : Prop where
  num : s.lro.enginesNum = (done.filter found).length
  line : ∀ p : Place, (s.lro.engine p.1 p.2).map Engine.msixIrqLine =
    (serial found done p).map fun k => vector (k + 16)
  vector : s.lro.vector = vector
  msix : s.lro.msixEnabled = true
  idx : s.lro.configBarIdx = idx

theorem Numbered.step {idx : Option Bar} (h : Numbered found vector idx done s)
    (hfound : found = fun p => idx.any fun i => engineAt board i p.1 p.2)
    (hnew : (channel, dir) ∉ done) (hok : probeForEngine board ans channel dir s = .ok t) :
    Numbered found vector idx (done ++ [(channel, dir)]) t := by
  have hthis : found (channel, dir) = s.lro.configBarIdx.any fun i => engineAt board i channel dir := by
    rw [hfound, h.idx]
  unfold probeForEngine at hok
  rw [← hthis] at hok
  split at hok
  · rename_i hyes
    cases hcreate : engineCreate ans channel dir s with
    | mk s' r =>
        rw [hcreate] at hok
        cases r with
        | none => cases hok
        | some e =>
            dsimp only at hok
            rw [if_neg (Option.some_ne_none e)] at hok
            obtain rfl := Except.ok.inj hok
            obtain ⟨hlro, hline⟩ := engineCreate_some hcreate h.msix
            refine ⟨?_, fun p => ?_, ?_, ?_, ?_⟩
            · show s'.lro.enginesNum = _
              rw [hlro, List.filter_append, List.length_append, ← h.num, List.filter_cons,
                if_pos hyes]
              rfl
            · rw [setEngine_engine, serial_append]
              by_cases hp : p = (channel, dir)
              · subst hp
                rw [if_pos ⟨rfl, rfl⟩, serial_eq_none hnew, if_pos ⟨hyes, rfl⟩, ← h.num,
                  Option.map_some, hline, h.vector]
                rfl
              · have hne : ¬(p.1 = channel ∧ p.2 = dir) := fun he => hp (Prod.ext he.1 he.2)
                rw [if_neg hne, if_neg fun he => hp he.2, Option.or_none, hlro]
                exact h.line p
            · show s'.lro.vector = _
              rw [hlro]
              exact h.vector
            · show s'.lro.msixEnabled = _
              rw [hlro]
              exact h.msix
            · show s'.lro.configBarIdx = _
              rw [hlro]
              exact h.idx
  · rename_i hno
    obtain rfl := Except.ok.inj hok
    refine ⟨?_, fun p => ?_, h.vector, h.msix, h.idx⟩
    · rw [List.filter_append, List.length_append, List.filter_cons, if_neg hno]
      exact h.num
    · rw [serial_append, if_neg fun he => hno he.1, Option.or_none]
      exact h.line p

/-- One of the two loops. -/
theorem Numbered.loop {idx : Option Bar} (h : Numbered found vector idx done s)
    (hfound : found = fun p => idx.any fun i => engineAt board i p.1 p.2)
    (hnew : ∀ channel, (channel, dir) ∉ done)
    (hok : forEach (fun channel s => probeForEngine board ans channel dir s) (List.finRange 4) s =
      .ok t) :
    Numbered found vector idx (done ++ (List.finRange 4).map (·, dir)) t := by
  have hloop := forEach_ok
    (fun rest s => ∃ pre, List.finRange 4 = pre ++ rest ∧
      Numbered found vector idx (done ++ pre.map (·, dir)) s)
    ⟨[], rfl, by rwa [List.map_nil, List.append_nil]⟩ (fun channel rest s s' hI hstep => ?_) hok
  · obtain ⟨pre, hpre, hnum⟩ := hloop
    rw [List.append_nil] at hpre
    rw [hpre]
    exact hnum
  · obtain ⟨pre, hpre, hnum⟩ := hI
    refine ⟨pre ++ [channel], by rw [hpre, List.append_assoc]; rfl, ?_⟩
    rw [List.map_append, List.map_singleton, ← List.append_assoc]
    refine hnum.step hfound (fun hmem => ?_) hstep
    rcases List.mem_append.mp hmem with hold | hthis
    · exact hnew channel hold
    · obtain ⟨c, hc, heq⟩ := List.mem_map.mp hthis
      obtain rfl := congrArg Prod.fst heq
      have hnodup := List.nodup_finRange 4
      rw [hpre] at hnodup
      exact (List.nodup_append.mp hnodup).2.2 _ hc _ List.mem_cons_self rfl

theorem Numbered.probeEngines {idx : Option Bar} (h : Numbered found vector idx [] s)
    (hfound : found = fun p => idx.any fun i => engineAt board i p.1 p.2)
    (hok : Probe.probeEngines board ans s = .ok t) : Numbered found vector idx places t := by
  unfold Probe.probeEngines at hok
  split at hok
  · cases hok
  · rename_i hfirst
    have hfrom := h.loop hfound (fun _ => List.not_mem_nil) hfirst
    refine hfrom.loop hfound (fun channel hmem => ?_) hok
    rw [List.nil_append] at hmem
    obtain ⟨c, -, hc⟩ := List.mem_map.mp hmem
    exact Bool.false_ne_true (congrArg Prod.snd hc)

end Probing

/-! ## The other steps of `probe` -/

section Steps

variable {board : Board} {ans : Answers} {s t : Probe.State}

/-- What the numbers and lines of the engines depend on. -/
def part (lro : XdmaDev) :
    Nat × (Channel → Bool → Option Engine) × (Nat → Nat) × Bool × Option Bar :=
  (lro.enginesNum, lro.engine, lro.vector, lro.msixEnabled, lro.configBarIdx)

theorem Numbered.of_part {found : Place → Bool} {vector : Nat → Nat} {idx : Option Bar}
    {done : List Place} (h : Numbered found vector idx done s) (hpart : part t.lro = part s.lro) :
    Numbered found vector idx done t := by
  simp only [part, Prod.mk.injEq] at hpart
  obtain ⟨hnum, hengine, hvector, hmsix, hidx⟩ := hpart
  refine ⟨hnum.trans h.num, fun p => ?_, hvector.trans h.vector, hmsix.trans h.msix,
    hidx.trans h.idx⟩
  rw [hengine]
  exact h.line p

theorem requestRegions_part (h : requestRegions ans s = .ok t) : part t.lro = part s.lro := by
  unfold requestRegions at h
  split at h
  · cases h
  · obtain rfl := Except.ok.inj h
    rfl

theorem mapSingleBar_part (i : Bar) : part (mapSingleBar board ans i s).1.lro = part s.lro := by
  unfold mapSingleBar
  split
  · rfl
  · split
    · rfl
    · rfl

/-- Of these fields `map_bars` sets only the number of the BAR. -/
theorem mapBars_numbers (h : mapBars board ans s = .ok t) :
    t.lro.enginesNum = s.lro.enginesNum ∧ t.lro.vector = s.lro.vector := by
  unfold mapBars at h
  split at h
  · cases h
  · rename_i v hloop
    have hI := forEach_ok (fun _ (v : BarScan) => v.s.lro.enginesNum = s.lro.enginesNum ∧
      v.s.lro.vector = s.lro.vector) ⟨rfl, rfl⟩ (fun i rest v v' hv hstep => ?_) hloop
    · split at h
      · cases h
      · obtain rfl := Except.ok.inj h
        unfold identifyBars
        split
        · split
          · exact hI
          · split
            · exact hI
            · exact hI
        · split
          · exact hI
          · exact hI
        · exact hI
    · have hsingle := @mapSingleBar_part board ans v.s i
      simp only [part, Prod.mk.injEq] at hsingle
      have hnew : (mapSingleBar board ans i v.s).1.lro.enginesNum = s.lro.enginesNum ∧
          (mapSingleBar board ans i v.s).1.lro.vector = s.lro.vector :=
        ⟨hsingle.1.trans hv.1, hsingle.2.2.1.trans hv.2⟩
      unfold mapBar at hstep
      dsimp only at hstep
      split at hstep
      · obtain rfl := Except.ok.inj hstep
        exact hnew
      split at hstep
      · cases hstep
      split at hstep
      · obtain rfl := Except.ok.inj hstep
        exact hnew
      · obtain rfl := Except.ok.inj hstep
        exact hnew

theorem irqSetup_part (h : irqSetup board ans s = .ok t) : part t.lro = part s.lro := by
  unfold irqSetup at h
  split at h
  · refine forEach_ok (fun _ t => part t.lro = part s.lro) rfl (fun i rest t t' ht hstep => ?_) h
    split at hstep
    · obtain rfl := Except.ok.inj hstep
      exact ht
    · cases hstep
  · dsimp only at h
    split at h
    · obtain rfl := Except.ok.inj h
      rfl
    · cases h

theorem newInstance_part {dynMajor : Nat} (h : newInstance dynMajor s = some t) :
    part t.lro = part s.lro := by
  unfold newInstance at h
  split at h
  · dsimp only at h
    split at h
    · cases h
    · obtain rfl := Option.some.inj h
      have hlro := genDevMajor_lro dynMajor
        (s.takeSlot (freeInstance s.glob.devPresent (maxXdmaDevices + 1) 0))
      have hpart := congrArg part hlro
      exact hpart
  · obtain rfl := Option.some.inj h
    rfl

theorem createSgChar_part (a : CharAnswers) (x : CharDev) (s : Probe.State) :
    part (createSgChar a x s).1.lro = part s.lro := by
  unfold createSgChar
  split
  · rfl
  cases hnew : newInstance a.dynMajor (s.acquire (.charMem x)) with
  | none =>
      simp only [hnew]
      rfl
  | some t =>
      have hpart := newInstance_part hnew
      have hreg : part (if t.glob.major ≠ 0 then t.take (.region (genDevMinor x) 1) else t).lro =
          part s.lro := by
        split <;> exact hpart
      simp only [hnew]
      split
      · exact hpart
      split
      · exact hpart
      split
      · exact hreg
      split
      · exact hreg
      · exact hreg

theorem createInterfaces_part (h : createInterfaces ans s = .ok t) : part t.lro = part s.lro := by
  unfold createInterfaces at h
  split at h
  · cases h
  · rename_i hloop
    obtain rfl := Except.ok.inj h
    refine forEach_ok (fun _ t => part t.lro = part s.lro) rfl (fun x rest t t' ht hstep => ?_) hloop
    have hmade := (createSgChar_part (ans.char x) x t).trans ht
    unfold createInterface at hstep
    split at hstep
    · dsimp only at hstep
      split at hstep
      · cases hstep
      · obtain rfl := Except.ok.inj hstep
        exact hmade
    · obtain rfl := Except.ok.inj hstep
      exact ht

theorem bind_ok {ε α β : Type} {x : Except ε α} {f : α → Except ε β} {b : β}
    (h : (x >>= f) = .ok b) : ∃ a, x = .ok a ∧ f a = .ok b := by
  cases x with
  | error e => cases h
  | ok a => exact ⟨a, rfl, h⟩

/-- A successful probe numbers the engines that it finds, and each has the line of its number. -/
theorem probeSteps_numbered (hs : Enabled s) (hcap : board.msixCapable = true)
    (h : probeSteps board ans s = .ok t) :
    Numbered (foundOn board t.lro) ans.vector t.lro.configBarIdx places t := by
  obtain ⟨s₁, hscan, h₁⟩ := bind_ok h
  obtain ⟨s₂, hregions, h₂⟩ := bind_ok h₁
  obtain ⟨s₃, hmap, h₃⟩ := bind_ok h₂
  obtain ⟨s₄, hmask, h₄⟩ := bind_ok h₃
  obtain ⟨s₅, hirq, h₅⟩ := bind_ok h₄
  obtain ⟨s₆, hengines, h₆⟩ := bind_ok h₅
  obtain ⟨s₇, hchars, hlast⟩ := bind_ok h₆
  have hscan := orGoto_ok hscan
  have hregions := orGoto_ok hregions
  have hmap := orGoto_ok hmap
  obtain rfl := setDmaMask_ok (orGoto_ok hmask)
  have hirq := orGoto_ok hirq
  have hkept₁ := probeScanForMsi_ok hs hscan
  have hkept₃ := mapBars_ok (requestRegions_ok hkept₁ hregions) rfl hmap
  have hkept₅ := irqSetup_ok hkept₃ rfl hirq
  have hrc : ans.msixRc = 0 := hkept₅.enabled rfl hcap
  have hstart : s₁.lro.enginesNum = 0 ∧ s₁.lro.vector = ans.vector := by
    unfold probeScanForMsi at hscan
    rw [if_pos hcap, if_pos hrc] at hscan
    dsimp only at hscan
    split at hscan
    · cases hscan
    · obtain rfl := Except.ok.inj hscan
      exact ⟨by show s.lro.enginesNum = 0; rw [hs.lro], rfl⟩
  have hpart₂ := requestRegions_part hregions
  have hpart₅ := irqSetup_part hirq
  simp only [part, Prod.mk.injEq] at hpart₂ hpart₅
  have hnumbers := mapBars_numbers hmap
  have hempty : Numbered (foundOn board s₅.lro) ans.vector s₅.lro.configBarIdx [] s₅ := by
    refine ⟨?_, fun p => ?_, ?_, ?_, rfl⟩
    · rw [hpart₅.1, hnumbers.1, hpart₂.1, hstart.1]
      rfl
    · rw [hkept₅.noEngines rfl p.1 p.2]
      rfl
    · rw [hpart₅.2.2.1, hnumbers.2, hpart₂.2.2.1, hstart.2]
    · rw [hkept₅.msix, hcap]
  have hnum := hempty.probeEngines rfl (orGoto_ok hengines)
  have hdone := hnum.of_part (createInterfaces_part (orGoto_ok hchars))
  have hsame : t = s₇ := by
    have hfile := orGoto_ok hlast
    unfold deviceCreateFile at hfile
    split at hfile
    · cases hfile
    · exact (Except.ok.inj hfile).symm
  subst hsame
  have hidx := hdone.idx
  unfold foundOn at hdone ⊢
  rw [hidx]
  exact hdone

end Steps

/-! ## Requests and bits -/

theorem irqBitmask_eq_twoPow {k : Nat} (hk : k < 8) : irqBitmask k = BitVec.twoPow 32 k := by
  have hall : ∀ k : Fin 8, irqBitmask k.val = BitVec.twoPow 32 k.val := by decide
  exact hall ⟨k, hk⟩

theorem irqBitmask_and_ne_zero {k : Nat} (hk : k < 8) (x : Word) :
    (irqBitmask k &&& x != 0) = x.getLsbD k := by
  rw [irqBitmask_eq_twoPow hk, BitVec.twoPow_and]
  cases x.getLsbD k with
  | false => rfl
  | true =>
      rw [if_pos rfl, ← irqBitmask_eq_twoPow hk]
      have hall : ∀ k : Fin 8, (irqBitmask k.val != 0) = true := by decide
      exact hall ⟨k, hk⟩

theorem and_bit_ne_zero (x : Word) (i : UserIrq) :
    x &&& (1 <<< i.val) ≠ 0 ↔ x.getLsbD i.val = true := by
  have hbit : ∀ i : UserIrq, (1 <<< i.val : Word) = BitVec.twoPow 32 i.val := by decide
  have hne : ∀ i : UserIrq, BitVec.twoPow 32 i.val ≠ 0 := by decide
  rw [hbit, BitVec.and_twoPow]
  cases x.getLsbD i.val with
  | false => exact ⟨fun h => absurd rfl h, fun h => Bool.noConfusion h⟩
  | true => exact ⟨fun _ => rfl, fun _ => hne i⟩

/-! ## `xdma_isr` without a break -/

/-- What `xdma_isr` does once it has read the channel requests. -/
def isrActs (userIrq : Word) : List Interrupts.Act :=
  .disable :: .users userIrq :: List.replicate 9 .schedule

section Isr

variable {engine : Place → Option Word} {s : Interrupts.State} {chIrq : Word}

/-- The engine is there and its interrupt has fired. -/
def fired (engine : Place → Option Word) (chIrq : Word) (p : Place) : Bool :=
  (engine p).any fun bitmask => bitmask &&& chIrq != 0

/-- The loops over the engines. -/
theorem schedule_run (rest : List Place) (s : Interrupts.State)
    (hisr : s.isr = some (.iterating chIrq rest)) :
    ∃ s', Machine.execOk (Interrupts.step engine) (fun _ _ => True) s
        (List.replicate (rest.length + 1) .schedule) = some s' ∧
      s'.userIrq = s.userIrq ∧
      ∀ p, s'.half p =
        if rest.contains p && fired engine chIrq p then (s.half p).schedule else s.half p := by
  induction rest generalizing s with
  | nil =>
      have hstep : Interrupts.step engine s .schedule =
          some { s with isr := none, irqCount := s.irqCount + 1 } := by
        rw [Interrupts.step, hisr]
      refine ⟨{ s with isr := none, irqCount := s.irqCount + 1 }, ?_, rfl, fun p => ?_⟩
      · show Machine.execOk _ _ s [Interrupts.Act.schedule] = _
        rw [Machine.execOk, if_pos (by decide), hstep]
        rfl
      · rw [List.contains_nil, Bool.false_and, if_neg Bool.false_ne_true]
  | cons q rest ih =>
      have hvisit : ∃ t, Interrupts.step engine s .schedule = some t ∧
          t.isr = some (.iterating chIrq rest) ∧ t.userIrq = s.userIrq ∧
          t.half = if fired engine chIrq q then Function.update s.half q (s.half q).schedule
            else s.half := by
        refine ⟨_, by rw [Interrupts.step, hisr], ?_, ?_, ?_⟩
        · split
          · rfl
          · rfl
        · split
          · rfl
          · rfl
        · show _ = if (engine q).any (fun bitmask => bitmask &&& chIrq != 0) = true then _ else _
          split
          · rfl
          · rfl
      obtain ⟨t, hstep, ht, huser, hhalf⟩ := hvisit
      obtain ⟨s', hrun, huser', hhalf'⟩ := ih t ht
      refine ⟨s', ?_, huser'.trans huser, fun p => ?_⟩
      · rw [List.length_cons, List.replicate_succ, Machine.execOk, if_pos (by decide), hstep]
        exact hrun
      · rw [hhalf' p, hhalf, List.contains_cons]
        by_cases hp : p = q
        · subst hp
          rw [beq_self_eq_true, Bool.true_or, Bool.true_and]
          by_cases hf : fired engine chIrq p = true
          · rw [if_pos hf, if_pos hf, Function.update_self]
            split
            · rfl
            · rfl
          · rw [if_neg hf, if_neg hf, if_neg fun h => hf (Bool.and_eq_true_iff.mp h).2]
        · have hsame : (if fired engine chIrq q = true then
              Function.update s.half q (s.half q).schedule else s.half) p = s.half p := by
            split
            · exact Function.update_of_ne hp ..
            · rfl
          rw [hsame, beq_eq_false_iff_ne.mpr hp, Bool.false_or]

/-- The handler queues the works of the engines that fired, and serves the user interrupts. -/
theorem isr_run (hisr : s.isr = some (.fired chIrq)) (userIrq : Word) :
    ∃ s', Machine.execOk (Interrupts.step engine) (fun _ _ => True) s (isrActs userIrq) = some s' ∧
      (∀ p, s'.half p = if fired engine chIrq p then (s.half p).schedule else s.half p) ∧
      ∀ i, s'.userIrq i =
        if userIrq.getLsbD i.val then Events.userIrqService (s.userIrq i) else s.userIrq i := by
  obtain ⟨s', hrun, huser, hhalf⟩ := @schedule_run engine chIrq places
    { s with
      channelIntEnable := s.channelIntEnable &&& ~~~chIrq
      userIrq := fun bit => if userIrq &&& (1 <<< bit.val) ≠ 0 then
        Events.userIrqService (s.userIrq bit) else s.userIrq bit
      isr := some (.iterating chIrq places) } rfl
  refine ⟨s', ?_, fun p => ?_, fun i => ?_⟩
  · have hdisable : Interrupts.step engine s .disable = some { s with
        channelIntEnable := s.channelIntEnable &&& ~~~chIrq
        isr := some (.disabled chIrq) } := by
      rw [Interrupts.step, hisr]
    rw [isrActs, Machine.execOk, if_pos (by decide), hdisable, Option.bind_some, Machine.execOk,
      if_pos (by decide), Interrupts.step, Option.bind_some]
    exact hrun
  · rw [hhalf p, List.contains_iff_mem.mpr (mem_places p), Bool.true_and]
  · rw [huser]
    dsimp only
    by_cases hbit : userIrq.getLsbD i.val = true
    · rw [if_pos ((and_bit_ne_zero userIrq i).mpr hbit), if_pos hbit]
    · rw [if_neg fun h => hbit ((and_bit_ne_zero userIrq i).mp h), if_neg hbit]

end Isr

/-! ## Every request has its handler -/

/-- The interrupts of a device go where they belong. -/
structure Routed (found : Place → Bool) (lro : XdmaDev) (regs : VectorRegs) : Prop where
  user : ∀ i : UserIrq, called lro regs.userMsiVector i = [.xdmaUserIrq i]
  channel : ∀ p, found p = true → ∃ k, k < 8 ∧ probed found p = some (irqBitmask k) ∧
    called lro regs.channelMsiVector k = [.xdmaChannelIrq p]
  nobody : ∀ k, k < 8 → (∀ p, probed found p ≠ some (irqBitmask k)) →
    called lro regs.channelMsiVector k = []
  /-- the handlers of MSI-X are called for the engines whose work `xdma_isr` queues, and for the user
  interrupts that it serves -/
  agrees : ∀ (s : Interrupts.State) (chIrq userIrq : Word), s.isr = some (.fired chIrq) →
    ∃ s', Machine.execOk (Interrupts.step (probed found)) (fun _ _ => True) s
        (isrActs userIrq) = some s' ∧
      (∀ p, s'.half p = if calls lro regs.channelMsiVector 8 chIrq (.xdmaChannelIrq p) then
        (s.half p).schedule else s.half p) ∧
      ∀ i, s'.userIrq i = if calls lro regs.userMsiVector 16 userIrq (.xdmaUserIrq i) then
        Events.userIrqService (s.userIrq i) else s.userIrq i

section Routes

variable {found : Place → Bool} {vector : Nat → Nat} {idx : Option Bar} {s : Probe.State}
  {p : Place} {k : Nat}

/-- In a list without repetitions one member is filtered out of it. -/
theorem filter_eq_singleton {α : Type} [BEq α] [LawfulBEq α] {l : List α} {f : α → Bool} {a : α}
    (hnodup : l.Nodup) (ha : a ∈ l) (hf : ∀ x, x ∈ l → (f x = true ↔ x = a)) : l.filter f = [a] := by
  have hsame : l.filter f = l.filter (· == a) := by
    refine List.filter_congr fun x hx => ?_
    rw [Bool.eq_iff_iff, hf x hx, beq_iff_eq]
  rw [hsame, List.filter_beq, List.count_eq_one_of_mem hnodup ha]
  rfl

theorem places_nodup : places.Nodup := by decide

theorem Numbered.line_iff (h : Numbered found vector idx places s) (p : Place) (irq : Nat) :
    (s.lro.engine p.1 p.2).any (·.msixIrqLine == irq) = true ↔
      ∃ k, serial found places p = some k ∧ irq = vector (k + 16) := by
  have hline := h.line p
  cases he : s.lro.engine p.1 p.2 with
  | none =>
      rw [he, Option.map_none] at hline
      refine ⟨fun hno => Bool.noConfusion hno, fun ⟨k, hk, _⟩ => ?_⟩
      rw [hk] at hline
      cases hline
  | some e =>
      rw [he, Option.map_some] at hline
      obtain ⟨k, hk, heq⟩ := Option.map_eq_some_iff.mp hline.symm
      rw [Option.any_some, beq_iff_eq]
      constructor
      · intro hirq
        exact ⟨k, hk, by rw [heq, hirq]⟩
      · rintro ⟨k', hk', hirq⟩
        rw [hk, Option.some.injEq] at hk'
        rw [hirq, ← hk', heq]

theorem Numbered.handlers_user (h : Numbered found vector idx places s)
    (hvector : ∀ i j, vector i = vector j → i = j) (i : UserIrq) :
    handlers s.lro (vector i.val) = [.xdmaUserIrq i] := by
  have husers : ((List.finRange 16).filter fun j => s.lro.vector j.val == vector i.val) = [i] := by
    refine filter_eq_singleton (List.nodup_finRange 16) (List.mem_finRange i) fun j _ => ?_
    rw [beq_iff_eq, h.vector]
    exact ⟨fun he => Fin.ext (hvector _ _ he), fun he => he ▸ rfl⟩
  have hengines : (places.filter fun p =>
      (s.lro.engine p.1 p.2).any (·.msixIrqLine == vector i.val)) = [] := by
    rw [List.filter_eq_nil_iff]
    intro p _ hp
    obtain ⟨k, -, hk⟩ := (h.line_iff p _).mp hp
    have hlt := i.isLt
    have := hvector _ _ hk
    omega
  unfold handlers
  rw [husers, hengines]
  rfl

/-- The handlers of an engine entry are those of the engine with its number. -/
theorem Numbered.handlers_channel (h : Numbered found vector idx places s)
    (hvector : ∀ i j, vector i = vector j → i = j) (k : Nat) :
    handlers s.lro (vector (k + 16)) =
      (places.filter fun p => serial found places p == some k).map .xdmaChannelIrq := by
  have husers : ((List.finRange 16).filter fun j => s.lro.vector j.val == vector (k + 16)) = [] := by
    rw [List.filter_eq_nil_iff]
    intro j _ hj
    rw [beq_iff_eq, h.vector] at hj
    have hlt := j.isLt
    have := hvector _ _ hj
    omega
  unfold handlers
  rw [husers, List.map_nil, List.nil_append]
  congr 1
  refine List.filter_congr fun p _ => ?_
  rw [Bool.eq_iff_iff, h.line_iff, beq_iff_eq]
  constructor
  · rintro ⟨k', hk', heq⟩
    have := hvector _ _ heq
    rw [hk', Option.some.injEq]
    omega
  · intro hk
    exact ⟨k, hk, rfl⟩

theorem serial_of_found (hp : found p = true) : ∃ k, serial found places p = some k := by
  cases hk : serial found places p with
  | some k => exact ⟨k, rfl⟩
  | none =>
      have hmem : p ∈ places.filter found := List.mem_filter.mpr ⟨mem_places p, hp⟩
      obtain ⟨k, hk'⟩ := List.mem_iff_getElem?.mp hmem
      have hin : (p, k) ∈ (places.filter found).zipIdx := List.mem_zipIdx_iff_getElem?.mpr hk'
      have hno := List.lookup_eq_none_iff.mp hk _ hin
      exact absurd rfl (bne_iff_ne.mp hno)

theorem Numbered.called_user (h : Numbered found vector idx places s)
    (hvector : ∀ i j, vector i = vector j → i = j) (regs : VectorRegs) (i : UserIrq) :
    called s.lro (writeMsixVectors regs).userMsiVector i = [.xdmaUserIrq i] := by
  unfold called
  rw [entryOf_user regs i.isLt, h.vector]
  exact h.handlers_user hvector i

theorem Numbered.called_channel (h : Numbered found vector idx places s)
    (hvector : ∀ i j, vector i = vector j → i = j) (regs : VectorRegs) (hk : k < 8) :
    called s.lro (writeMsixVectors regs).channelMsiVector k =
      (places.filter fun p => serial found places p == some k).map .xdmaChannelIrq := by
  unfold called
  rw [entryOf_channel regs hk, h.vector]
  exact h.handlers_channel hvector k

theorem Numbered.calls_channel (h : Numbered found vector idx places s)
    (hvector : ∀ i j, vector i = vector j → i = j) (regs : VectorRegs) (chIrq : Word) (p : Place) :
    calls s.lro (writeMsixVectors regs).channelMsiVector 8 chIrq (.xdmaChannelIrq p) =
      fired (probed found) chIrq p := by
  unfold fired
  rw [Bool.eq_iff_iff, probed_eq]
  unfold calls
  rw [List.any_eq_true]
  constructor
  · rintro ⟨k, hk, hcall⟩
    rw [Bool.and_eq_true, h.called_channel hvector regs (List.mem_range.mp hk),
      List.contains_iff_mem] at hcall
    obtain ⟨q, hq, heq⟩ := List.mem_map.mp hcall.2
    obtain rfl := Handler.xdmaChannelIrq.inj heq
    have hserial := beq_iff_eq.mp (List.mem_filter.mp hq).2
    rw [hserial, Option.map_some, Option.any_some,
      irqBitmask_and_ne_zero (List.mem_range.mp hk)]
    exact hcall.1
  · intro hfired
    cases hserial : serial found places p with
    | none =>
        rw [hserial] at hfired
        cases hfired
    | some k =>
        have hk := serial_lt hserial
        rw [hserial, Option.map_some, Option.any_some, irqBitmask_and_ne_zero hk] at hfired
        refine ⟨k, List.mem_range.mpr hk, ?_⟩
        rw [Bool.and_eq_true, h.called_channel hvector regs hk, List.contains_iff_mem]
        exact ⟨hfired, List.mem_map_of_mem
          (List.mem_filter.mpr ⟨mem_places p, beq_iff_eq.mpr hserial⟩)⟩

theorem Numbered.calls_user (h : Numbered found vector idx places s)
    (hvector : ∀ i j, vector i = vector j → i = j) (regs : VectorRegs) (userIrq : Word)
    (i : UserIrq) :
    calls s.lro (writeMsixVectors regs).userMsiVector 16 userIrq (.xdmaUserIrq i) =
      userIrq.getLsbD i.val := by
  rw [Bool.eq_iff_iff]
  unfold calls
  rw [List.any_eq_true]
  constructor
  · rintro ⟨k, hk, hcall⟩
    have huser := h.called_user hvector regs ⟨k, List.mem_range.mp hk⟩
    rw [Bool.and_eq_true, huser, List.contains_iff_mem, List.mem_singleton,
      Handler.xdmaUserIrq.injEq] at hcall
    rw [hcall.2]
    exact hcall.1
  · intro hbit
    refine ⟨i.val, List.mem_range.mpr i.isLt, ?_⟩
    rw [Bool.and_eq_true, h.called_user hvector regs i, List.contains_iff_mem]
    exact ⟨hbit, List.mem_singleton_self _⟩

theorem Numbered.routed (h : Numbered found vector idx places s)
    (hvector : ∀ i j, vector i = vector j → i = j) (regs : VectorRegs) :
    Routed found s.lro (writeMsixVectors regs) where
  user := h.called_user hvector regs
  channel := by
    intro p hp
    obtain ⟨k, hk⟩ := serial_of_found hp
    refine ⟨k, serial_lt hk, by rw [probed_eq, hk, Option.map_some], ?_⟩
    rw [h.called_channel hvector regs (serial_lt hk)]
    have hone : (places.filter fun q => serial found places q == some k) = [p] := by
      refine filter_eq_singleton places_nodup (mem_places p) fun q _ => ?_
      rw [beq_iff_eq]
      exact ⟨fun hq => serial_injective hq hk, fun hq => hq ▸ hk⟩
    rw [hone]
    rfl
  nobody := by
    intro k hk hno
    rw [h.called_channel hvector regs hk, List.map_eq_nil_iff, List.filter_eq_nil_iff]
    intro p _ hp
    rw [beq_iff_eq] at hp
    exact hno p (by rw [probed_eq, hp, Option.map_some])
  agrees := by
    intro st chIrq userIrq hisr
    obtain ⟨s', hrun, hhalf, huser⟩ := @isr_run (probed found) st chIrq hisr userIrq
    refine ⟨s', hrun, fun p => ?_, fun i => ?_⟩
    · rw [hhalf p, h.calls_channel hvector]
    · rw [huser i, h.calls_user hvector]

end Routes

/-- With MSI-X every request calls the handler of its own user interrupt or engine and no other
one, whatever engines the board has, and `xdma_isr` would serve the same ones.  The kernel gives no
two entries the same interrupt. -/
theorem msix_routes_requests (board : Board) (ans : Answers) (glob : Globals) (lro : XdmaDev)
    (hprobe : (probe board ans glob).lro = some lro) (hcap : board.msixCapable = true)
    (hvector : ∀ i j, ans.vector i = ans.vector j → i = j) (regs : VectorRegs) :
    Routed (foundOn board lro) lro (writeMsixVectors regs) := by
  unfold probe at hprobe
  dsimp only at hprobe
  split at hprobe
  · cases hprobe
  split at hprobe
  · cases hprobe
  split at hprobe
  · rename_i t hsteps
    obtain rfl := Option.some.inj hprobe
    exact (probeSteps_numbered (enabled_start glob) hcap hsteps).routed hvector regs
  · cases hprobe

/-- A board with an engine in each direction. -/
theorem msix_routes_requests_pair :
    ∃ lro, (probe (boardExample true) {} globExample).lro = some lro ∧
      Routed (foundOn (boardExample true) lro) lro
        (writeMsixVectors ⟨fun _ => 0, fun _ => 0⟩) ∧
      called lro (writeMsixVectors ⟨fun _ => 0, fun _ => 0⟩).channelMsiVector 1 =
        [.xdmaChannelIrq (0, true)] := by
  have hbound : ((probe (boardExample true) {} globExample).lro.any fun lro =>
      called lro (writeMsixVectors ⟨fun _ => 0, fun _ => 0⟩).channelMsiVector 1 ==
        [.xdmaChannelIrq (0, true)]) = true := by decide +kernel
  obtain ⟨lro, hlro, hcalled⟩ := (Option.any_eq_true _ _).mp hbound
  refine ⟨lro, hlro, ?_, beq_iff_eq.mp hcalled⟩
  exact msix_routes_requests (boardExample true) {} globExample lro hlro rfl
    (fun i j h => Nat.add_right_cancel h) _

end Msix
end WzXdma
