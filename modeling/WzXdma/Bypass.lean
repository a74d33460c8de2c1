import WzXdma.Probe.Device
import WzXdma.Views

/-!
# Descriptor bypass

With a bypass BAR the descriptors of a queue can be read by the user, and written to the device
without its fetching them.  `char_bypass_read` copies the descriptors of all queued transfers behind
one another, with `copy_desc_data` for each transfer, and returns the error of the last one.
-/

namespace WzXdma

open Lib Lib.Loop

/-! ## Reading and writing -/

/-- `ENODEV` -/
def enodev : Int := 19

/-- One turn of `list_for_each`.  `copyFails t i` is the outcome of `copy_to_user` for descriptor `i`. -/
def bypassReadStep (k : Kernel) (count : Nat) (copyFails : Nat → Nat → Bool) (t : Nat)
    (s : CopyState) : Except Crash CopyState :=
  match k.transfers t with
  | none => .error .useAfterFree
  | some transfer =>
      match copyDescData k transfer s.bufOffset count (copyFails t) with
      | .error e => .error e
      | .ok r => .ok { r with copied := s.copied ++ r.copied }

/-- `char_bypass_read`, with what it copies to the user -/
def charBypassRead (bypassBarIdx : Option Probe.Bar) (d : Driver) (bufNull : Bool) (count : Nat)
    (copyFails : Nat → Nat → Bool) : Except Crash (List XdmaDesc × Int) :=
  if count &&& 3 ≠ 0 then .ok ([], -einval)
  else if bufNull then .ok ([], -einval)
  else if bypassBarIdx.isNone then .ok ([], -enodev)
  else
    match forEach (bypassReadStep d.kern count copyFails) d.engine.transferList ⟨0, [], 0⟩ with
    | .error e => .error e
    | .ok s => .ok (s.copied, if s.rc < 0 then s.rc else s.bufOffset)

/-- The loop of `char_bypass_write` from word `i` on, with the words it writes.  `user` is the buffer
as `copy_from_user` gives it, and `rc` is of type `int`. -/
def bypassWriteLoop (user : Nat → Option Word) : Nat → Nat → Int → List Word × Int
  | 0, _, rc => ([], rc)
  | n + 1, i, _ =>
      match user i with
      | none => ([], -einval)
      | some descData =>
          let r := bypassWriteLoop user n (i + 1) (BitVec.ofNat 32 (4 * (i + 1))).toInt
          (descData :: r.1, r.2)

/-- `char_bypass_write`, with the words it writes to the register of the engine, which are all
written to one address -/
def charBypassWrite (bypassBarIdx : Option Probe.Bar) (bufNull : Bool) (count : Nat)
    (user : Nat → Option Word) : List Word × Int :=
  if count &&& 3 ≠ 0 then ([], -einval)
  else if bufNull then ([], -einval)
  else if bypassBarIdx.isNone then ([], -enodev)
  else bypassWriteLoop user (count / 4) 0 0

/-- A descriptor in memory. -/
def XdmaDesc.words (d : XdmaDesc) : List Word :=
  [d.control, d.bytes, d.srcAddrLo, d.srcAddrHi, d.dstAddrLo, d.dstAddrHi, d.nextLo, d.nextHi]

/-! ## One transfer -/

/-- Not all descriptors were copied, and no more will be. -/
structure Stuck (bufOffset bufSize : Nat) (descs : List XdmaDesc) (s : CopyState) : Prop where
  rc : s.rc < 0
  full : bufSize < s.bufOffset + 32
  copied : s.copied <+: descs
  short : s.copied.length < descs.length
  nothing : bufSize < bufOffset + 32 → s.copied = []

section Transfer

variable {k : Kernel} {transfer : XdmaTransfer} {block : DescBlock} {bufOffset bufSize n : Nat}
  {copyFails : Nat → Bool}

/-- After `n` iterations the first `n` descriptors were copied, or the loop is stuck. -/
theorem copyDescs_ends (hblock : k.coherent transfer.descVirt = some block)
    (hoff : bufOffset ≤ bufSize) (hn : n ≤ block.descs.length) :
    ∃ s, forUpTo (copyDescStep k transfer bufSize copyFails) n ⟨bufOffset, [], 0⟩ = .ok s ∧
      s.bufOffset ≤ bufSize ∧
      (((bufOffset + 32 * n ≤ bufSize ∧ ∀ i < n, copyFails i = false) ∧
          s = ⟨bufOffset + 32 * n, block.descs.take n, 0⟩) ∨
        (¬(bufOffset + 32 * n ≤ bufSize ∧ ∀ i < n, copyFails i = false) ∧
          Stuck bufOffset bufSize (block.descs.take n) s)) := by
  induction n with
  | zero => exact ⟨_, rfl, hoff, .inl ⟨⟨hoff, fun i hi => absurd hi (Nat.not_lt_zero i)⟩, by simp⟩⟩
  | succ n ih =>
      obtain ⟨s, hs, hle, hcase⟩ := ih (by omega)
      have hlt : n < block.descs.length := hn
      have hderef : k.derefDesc (some transfer.descVirt) n = .ok block.descs[n] := by
        simp [Kernel.derefDesc, hblock, List.getElem?_eq_getElem hlt]
      have htake : block.descs.take (n + 1) = block.descs.take n ++ [block.descs[n]] :=
        (List.take_concat_get' block.descs n hlt).symm
      have hlen : (block.descs.take n).length = n := List.length_take_of_le (Nat.le_of_lt hlt)
      rw [forUpTo_succ, hs, htake]
      dsimp only [copyDescStep]
      rw [hderef]
      dsimp only
      rcases hcase with ⟨⟨hroom, hok⟩, rfl⟩ | ⟨hno, hstuck⟩
      · by_cases hfit : bufOffset + 32 * n + 32 ≤ bufSize
        · rw [if_pos hfit]
          cases hfail : copyFails n with
          | true =>
              refine ⟨_, rfl, Nat.le_refl bufSize, .inr ⟨fun h => ?_, ?_⟩⟩
              · have := h.2 n (Nat.lt_succ_self n)
                rw [hfail] at this
                cases this
              · refine ⟨(by decide : -einval < 0), Nat.lt_add_of_pos_right (by decide),
                  List.prefix_append .., ?_, ?_⟩
                · rw [List.length_append]
                  exact Nat.lt_add_of_pos_right Nat.one_pos
                · intro hfull
                  have hzero : n = 0 := by omega
                  subst hzero
                  rfl
          | false =>
              refine ⟨_, rfl, hfit, .inl ⟨⟨hfit, fun i hi => ?_⟩, rfl⟩⟩
              rcases Nat.lt_or_eq_of_le (Nat.le_of_lt_succ hi) with hi | rfl
              · exact hok i hi
              · exact hfail
        · rw [if_neg hfit]
          refine ⟨_, rfl, hle, .inr ⟨fun h => hfit h.1, ?_⟩⟩
          refine ⟨(by decide : -enomem < 0), Nat.lt_of_not_le hfit, List.prefix_append .., ?_, ?_⟩
          · rw [List.length_append]
            exact Nat.lt_add_of_pos_right Nat.one_pos
          · intro hfull
            have hzero : n = 0 := by omega
            subst hzero
            rfl
      · rw [if_neg (Nat.not_le_of_lt hstuck.full)]
        refine ⟨_, rfl, hle, .inr ⟨fun h => hno ⟨by omega, fun i hi => h.2 i (by omega)⟩, ?_⟩⟩
        refine ⟨(by decide : -enomem < 0), hstuck.full, hstuck.copied.trans (List.prefix_append ..), ?_,
          hstuck.nothing⟩
        rw [List.length_append]
        exact Nat.lt_add_right _ hstuck.short

end Transfer

/-! ## The queue -/

section Queue

variable {k : Kernel} {count : Nat} (copyFails : Nat → Nat → Bool) {list : List Nat} {t : Nat}

/-- The transfer and its descriptors are there. -/
def DescsFound (k : Kernel) (t : Nat) : Prop :=
  ∃ transfer block, k.transfers t = some transfer ∧ k.coherent transfer.descVirt = some block ∧
    0 < transfer.descNum ∧ transfer.descNum ≤ block.descs.length

/-- The descriptors of all queued transfers. -/
def queuedDescs (k : Kernel) (list : List Nat) : List XdmaDesc :=
  (list.map k.transferDescs).flatten

/-- Nothing keeps the descriptors from being copied. -/
def CopyFits (k : Kernel) (count : Nat) (copyFails : Nat → Nat → Bool) (bufOffset : Nat)
    (list : List Nat) : Prop :=
  bufOffset + 32 * (queuedDescs k list).length ≤ count ∧
    ∀ t ∈ list, ∀ i < (k.transferDescs t).length, copyFails t i = false

theorem queuedDescs_cons (k : Kernel) (t : Nat) (rest : List Nat) :
    queuedDescs k (t :: rest) = k.transferDescs t ++ queuedDescs k rest := rfl

/-- One transfer, behind what was copied before. -/
theorem bypassReadStep_ends (h : DescsFound k t) {s : CopyState} (hoff : s.bufOffset ≤ count) :
    0 < (k.transferDescs t).length ∧
    ∃ r, bypassReadStep k count copyFails t s = .ok { r with copied := s.copied ++ r.copied } ∧
      r.bufOffset ≤ count ∧
      (((s.bufOffset + 32 * (k.transferDescs t).length ≤ count ∧
            ∀ i < (k.transferDescs t).length, copyFails t i = false) ∧
          r = ⟨s.bufOffset + 32 * (k.transferDescs t).length, k.transferDescs t, 0⟩) ∨
        (¬(s.bufOffset + 32 * (k.transferDescs t).length ≤ count ∧
            ∀ i < (k.transferDescs t).length, copyFails t i = false) ∧
          Stuck s.bufOffset count (k.transferDescs t) r)) := by
  obtain ⟨transfer, block, ht, hblock, hpos, hroom⟩ := h
  have hdescs : k.transferDescs t = block.descs.take transfer.descNum := by
    simp only [Kernel.transferDescs, ht, hblock, Option.bind_some, Option.map_some, Option.getD_some]
  have hlen : (k.transferDescs t).length = transfer.descNum := by
    rw [hdescs, List.length_take_of_le hroom]
  obtain ⟨r, hr, hle, hcase⟩ := @copyDescs_ends k transfer block s.bufOffset count transfer.descNum
    (copyFails t) hblock hoff hroom
  refine ⟨hlen.symm ▸ hpos, r, ?_, hle, ?_⟩
  · unfold bypassReadStep
    rw [ht]
    dsimp only [copyDescData]
    rw [hr]
  · rw [hlen, hdescs]
    exact hcase

/-- From a stuck transfer on nothing is copied any more, and the error stays one. -/
theorem bypassRead_stuck (h : ∀ t ∈ list, DescsFound k t) {s : CopyState} (hoff : s.bufOffset ≤ count)
    (hrc : s.rc < 0) (hfull : count < s.bufOffset + 32) :
    ∃ s', forEach (bypassReadStep k count copyFails) list s = .ok s' ∧ s'.rc < 0 ∧
      s'.copied = s.copied := by
  induction list generalizing s with
  | nil => exact ⟨s, rfl, hrc, rfl⟩
  | cons t rest ih =>
      obtain ⟨hpos, r, hstep, hle, hcase⟩ := bypassReadStep_ends copyFails
        (h t List.mem_cons_self) hoff
      obtain ⟨-, hstuck⟩ := hcase.resolve_left fun hfit => by have := hfit.1.1; omega
      have hnothing := hstuck.nothing hfull
      obtain ⟨s', hrun, hrc', hcopied⟩ := ih (s := { r with copied := s.copied ++ r.copied })
        (fun t ht => h t (List.mem_cons_of_mem _ ht)) hle hstuck.rc hstuck.full
      refine ⟨s', ?_, hrc', ?_⟩
      · rw [forEach, hstep]
        exact hrun
      · rw [hcopied]
        show s.copied ++ r.copied = s.copied
        rw [hnothing, List.append_nil]

/-- The whole queue: everything is copied if nothing keeps it from that, and otherwise the result
is an error. -/
theorem bypassRead_ends (h : ∀ t ∈ list, DescsFound k t) {s : CopyState} (hoff : s.bufOffset ≤ count)
    (hrc : s.rc = 0) :
    ∃ s', forEach (bypassReadStep k count copyFails) list s = .ok s' ∧
      ((CopyFits k count copyFails s.bufOffset list ∧
          s' = ⟨s.bufOffset + 32 * (queuedDescs k list).length, s.copied ++ queuedDescs k list, 0⟩) ∨
        (¬CopyFits k count copyFails s.bufOffset list ∧ s'.rc < 0 ∧
          ∃ new, s'.copied = s.copied ++ new ∧ new <+: queuedDescs k list ∧
            new.length < (queuedDescs k list).length)) := by
  induction list generalizing s with
  | nil =>
      refine ⟨s, rfl, .inl ⟨⟨hoff, fun t ht => absurd ht List.not_mem_nil⟩, ?_⟩⟩
      rw [← hrc]
      show s = ⟨s.bufOffset, s.copied ++ [], s.rc⟩
      rw [List.append_nil]
  | cons t rest ih =>
      have hrest := fun t ht => h t (List.mem_cons_of_mem _ ht)
      obtain ⟨hpos, r, hstep, hle, hcase⟩ := bypassReadStep_ends copyFails
        (h t List.mem_cons_self) hoff
      have hlen : (queuedDescs k (t :: rest)).length =
          (k.transferDescs t).length + (queuedDescs k rest).length := by
        rw [queuedDescs_cons, List.length_append]
      rcases hcase with ⟨hfit, rfl⟩ | ⟨hno, hstuck⟩
      · obtain ⟨s', hrun, hends⟩ := ih (s := ⟨s.bufOffset + 32 * (k.transferDescs t).length,
          s.copied ++ k.transferDescs t, 0⟩) hrest hle rfl
        refine ⟨s', by rw [forEach, hstep]; exact hrun, ?_⟩
        have hiff : CopyFits k count copyFails s.bufOffset (t :: rest) ↔
            CopyFits k count copyFails (s.bufOffset + 32 * (k.transferDescs t).length) rest := by
          unfold CopyFits
          rw [hlen, Nat.mul_add, ← Nat.add_assoc]
          constructor
          · exact fun hall => ⟨hall.1, fun t ht => hall.2 t (List.mem_cons_of_mem _ ht)⟩
          · refine fun hall => ⟨hall.1, fun t' ht' => ?_⟩
            rcases List.mem_cons.mp ht' with rfl | ht'
            · exact hfit.2
            · exact hall.2 t' ht'
        rw [hiff]
        rcases hends with ⟨hfits, rfl⟩ | ⟨hnot, hneg, new, hcopied, hfront, hshort⟩
        · refine .inl ⟨hfits, ?_⟩
          rw [hlen, queuedDescs_cons, Nat.mul_add, ← Nat.add_assoc, ← List.append_assoc]
        · refine .inr ⟨hnot, hneg, k.transferDescs t ++ new, ?_, ?_, ?_⟩
          · rw [hcopied, List.append_assoc]
          · rw [queuedDescs_cons]
            exact (List.prefix_append_right_inj _).mpr hfront
          · rw [hlen, List.length_append]
            exact Nat.add_lt_add_left hshort _
      · obtain ⟨s', hrun, hneg, hcopied⟩ := bypassRead_stuck copyFails hrest
          (s := { r with copied := s.copied ++ r.copied }) hle hstuck.rc hstuck.full
        refine ⟨s', by rw [forEach, hstep]; exact hrun, .inr ⟨fun hall => hno ⟨?_, ?_⟩, hneg, r.copied,
          hcopied, ?_, ?_⟩⟩
        · have := hall.1
          omega
        · exact hall.2 t List.mem_cons_self
        · rw [queuedDescs_cons]
          exact hstuck.copied.trans (List.prefix_append ..)
        · rw [hlen]
          exact Nat.lt_add_right _ hstuck.short

end Queue

/-! ## Words -/

theorem toInt_ofNat_of_lt {n : Nat} (h : n < 2 ^ 31) : (BitVec.ofNat 32 n).toInt = n := by
  have hnat : (BitVec.ofNat 32 n).toNat = n := by
    rw [BitVec.toNat_ofNat, Nat.mod_eq_of_lt (by omega)]
  rw [BitVec.toInt_eq_toNat_of_lt (by omega), hnat]

/-- A buffer that can be read is written word by word. -/
theorem bypassWriteLoop_words (words : List Word) (user : Nat → Option Word) (i : Nat) (rc : Int)
    (huser : ∀ j, j < words.length → user (i + j) = words[j]?) (hrc : rc = ((4 * i : Nat) : Int))
    (hsmall : 4 * (i + words.length) < 2 ^ 31) :
    bypassWriteLoop user words.length i rc = (words, ((4 * (i + words.length) : Nat) : Int)) := by
  induction words generalizing i rc with
  | nil =>
      rw [hrc]
      rfl
  | cons w rest ih =>
      rw [List.length_cons] at hsmall huser ⊢
      have hw : user i = some w := huser 0 (Nat.succ_pos _)
      have hrest := ih (i + 1) (BitVec.ofNat 32 (4 * (i + 1))).toInt
        (fun j hj => by
          have hj' := huser (j + 1) (Nat.succ_lt_succ hj)
          rw [show i + (j + 1) = i + 1 + j by omega, List.getElem?_cons_succ] at hj'
          exact hj')
        (toInt_ofNat_of_lt (by omega)) (by omega)
      rw [bypassWriteLoop, hw]
      dsimp only
      rw [hrest, show i + 1 + rest.length = i + (rest.length + 1) by omega]

theorem length_words (descs : List XdmaDesc) :
    (descs.map XdmaDesc.words).flatten.length = 8 * descs.length := by
  induction descs with
  | nil => rfl
  | cons d rest ih =>
      rw [List.map_cons, List.flatten_cons, List.length_append, ih, List.length_cons]
      have hone : d.words.length = 8 := rfl
      omega

theorem and_three_eq_mod (n : Nat) : n &&& 3 = n % 4 := Nat.and_two_pow_sub_one_eq_mod n 2

/-! ## There and back -/

/-- A transfer that is passed to `transfer_queue`, but not by `START`, is there with its descriptors
as long as it lives. -/
theorem descsFound_of_passes {c : WzConsts} {who : Submitter} {k k' : Kernel} {t : Nat}
    (h : Passes c who k t) (hkeeps : KeepsTransfer t k k') (hwho : who ≠ .wzStart) :
    DescsFound k' t := by
  have hlinked : ∃ transfer block, k.transfers t = some transfer ∧
      k.coherent transfer.descVirt = some block ∧ Linked transfer block := by
    cases h with
    | transferData hcreate => exact linked_of_transferCreate hcreate
    | performance hprepare => exact linked_of_perfPrepare hprepare
    | wzStart _ => exact absurd rfl hwho
  obtain ⟨transfer, block, ht, hblock, hlinked⟩ := hlinked
  obtain ⟨state, ht'⟩ := hkeeps.transfer transfer ht
  have hlinks := hkeeps.links transfer ht
  rw [hblock, Option.map_some] at hlinks
  obtain ⟨block', hblock', hsame⟩ := Option.map_eq_some_iff.mp hlinks
  have hlinked' := hlinked.of_links hsame state
  exact ⟨_, block', ht', hblock', hlinked'.pos, hlinked'.room⟩

/-- For every queue without a transfer of `START`, every length of the buffer and every failure of
the copies: the read returns a number if and only if nothing keeps the descriptors from being
copied, and then the user has all of them in the order of the queue, although the errors of the
transfers overwrite one another.  Written back, they go to the device word by word. -/
theorem bypass_there_and_back (c : WzConsts) (d : Driver)
    (hqueue : ∀ t ∈ d.engine.transferList, ∃ who k, Passes c who k t ∧ KeepsTransfer t k d.kern ∧
      who ≠ .wzStart)
    (bar : Probe.Bar) (count : Nat) (hcount : count % 4 = 0) (copyFails : Nat → Nat → Bool) :
    ∃ copied rc, charBypassRead (some bar) d false count copyFails = .ok (copied, rc) ∧
      copied <+: queuedDescs d.kern d.engine.transferList ∧
      (0 ≤ rc ↔ CopyFits d.kern count copyFails 0 d.engine.transferList) ∧
      (0 ≤ rc ↔ copied = queuedDescs d.kern d.engine.transferList) ∧
      (0 ≤ rc → rc = 32 * ((queuedDescs d.kern d.engine.transferList).length : Int)) ∧
      ∀ (n : Nat) (user : Nat → Option Word), rc = n → n < 2 ^ 31 →
        (∀ j, 4 * j < n → user j = (copied.map XdmaDesc.words).flatten[j]?) →
        charBypassWrite (some bar) false n user =
          (((queuedDescs d.kern d.engine.transferList).map XdmaDesc.words).flatten, rc) := by
  have hdescs : ∀ t ∈ d.engine.transferList, DescsFound d.kern t := fun t ht => by
    obtain ⟨who, k, hpasses, hkeeps, hwho⟩ := hqueue t ht
    exact descsFound_of_passes hpasses hkeeps hwho
  obtain ⟨s, hrun, hends⟩ := bypassRead_ends copyFails hdescs (s := ⟨0, [], 0⟩)
    (Nat.zero_le count) rfl
  have hread : charBypassRead (some bar) d false count copyFails =
      .ok (s.copied, if s.rc < 0 then s.rc else s.bufOffset) := by
    unfold charBypassRead
    rw [if_neg (by rw [and_three_eq_mod, hcount]; decide), if_neg Bool.false_ne_true,
      Option.isNone_some, if_neg Bool.false_ne_true, hrun]
  refine ⟨_, _, hread, ?_⟩
  rcases hends with ⟨hfits, rfl⟩ | ⟨hnot, hneg, new, hcopied, hfront, hshort⟩
  · have hnum : ((0 + 32 * (queuedDescs d.kern d.engine.transferList).length : Nat) : Int) ≥ 0 :=
      Int.natCast_nonneg _
    dsimp only
    rw [if_neg (by decide), List.nil_append]
    refine ⟨List.prefix_refl _, iff_of_true hnum hfits, iff_of_true hnum rfl, fun _ => by omega, ?_⟩
    intro n user hn hsmall huser
    have hn' : n = 32 * (queuedDescs d.kern d.engine.transferList).length := by omega
    have hlen := length_words (queuedDescs d.kern d.engine.transferList)
    have hturns : n / 4 =
        ((queuedDescs d.kern d.engine.transferList).map XdmaDesc.words).flatten.length := by omega
    have hloop := bypassWriteLoop_words
      ((queuedDescs d.kern d.engine.transferList).map XdmaDesc.words).flatten user 0 0
      (fun j hj => by rw [Nat.zero_add]; exact huser j (by omega)) rfl (by omega)
    unfold charBypassWrite
    rw [if_neg (by rw [and_three_eq_mod]; omega), if_neg Bool.false_ne_true, Option.isNone_some,
      if_neg Bool.false_ne_true, hturns, hloop, hlen]
    congr 2
    omega
  · rw [if_pos hneg]
    rw [hcopied, List.nil_append]
    have hless : ¬0 ≤ s.rc := Int.not_le.mpr hneg
    refine ⟨hfront, iff_of_false hless hnot, iff_of_false hless fun heq => ?_,
      fun hrc => absurd hrc hless, fun n _ hn => ?_⟩
    · rw [heq] at hshort
      exact absurd hshort (Nat.lt_irrefl _)
    · exact absurd (hn ▸ Int.natCast_nonneg n) hless

/-- A queue with the two descriptors of a measurement, and a buffer that has room for them. -/
theorem bypass_there_and_back_measurement : ∃ d : Driver, d.engine.transferList ≠ [] ∧
    ∃ copied, charBypassRead (some 1) d false 64 (fun _ _ => false) = .ok (copied, 64) ∧
      copied.length = 2 := by
  have hprepare : ∃ k t, Driver.created.perfPrepare perfGranted 0x200000 = .ok (k, t) ∧
      (k.transferDescs t).length = 2 := ⟨_, _, rfl, rfl⟩
  obtain ⟨k, t, hkt, hlen⟩ := hprepare
  refine ⟨{ Driver.created with
    kern := k, engine := { Driver.created.engine with transferList := [t] } },
    List.cons_ne_nil t [], ?_⟩
  have htwo : (queuedDescs k [t]).length = 2 := by
    rw [queuedDescs_cons, List.length_append, hlen]
    rfl
  obtain ⟨copied, rc, hread, -, hfits, hall, hnum, -⟩ := bypass_there_and_back wzConsts.toWzConsts
    { Driver.created with kern := k, engine := { Driver.created.engine with transferList := [t] } }
    (fun t' ht' => by
      obtain rfl := List.mem_singleton.mp ht'
      exact ⟨_, k, .performance hkt, .refl t' k, by decide⟩)
    1 64 rfl fun _ _ => false
  have hrc : 0 ≤ rc := hfits.mpr ⟨by dsimp only; omega, fun _ _ _ _ => rfl⟩
  have hcopied := hall.mp hrc
  have hnum' := hnum hrc
  dsimp only at hcopied hnum'
  rw [htwo] at hnum'
  subst hnum'
  exact ⟨copied, hread, hcopied ▸ htwo⟩

end WzXdma
