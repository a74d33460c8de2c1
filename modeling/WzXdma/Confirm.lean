import Mathlib.Data.List.Nodup
import WzXdma.ScanEnd

/-!
# The restore loop of CONFIRM

`ioctl_do_wz_confirm` goes from `first_desc` to `last_desc` with a masked increment and leaves when
the index equals `last_desc`.  For two numbers of descriptors it restores the stretch of the ring
between them.  Numbers that are no descriptors are reported in the log, and the loop runs with
them.
-/

namespace WzXdma

open Lib

/-- The number of descriptors of a block, as the application computes its length. -/
def blockDescs (c : WzConsts) (first last : Word) : Nat := (last - first).toNat % c.nofbufs + 1

/-- The descriptors of a block in order. -/
def blockRange (c : WzConsts) (first last : Word) : List Nat :=
  (List.range (blockDescs c first last)).map fun j => (first.toNat + j) % c.nofbufs

namespace Driver

/-- The descriptors that the restore loop visits, at most `fuel` of them. -/
def confirmVisits (c : WzConsts) (last : Nat) : Nat → Nat → List Nat
  | 0, _ => []
  | fuel + 1, i =>
      i :: if i = last then [] else confirmVisits c last fuel (nextDesc c.nofbufs i)

/-- The copies of the descriptors. -/
def CopyHolds (c : WzConsts) (d : Driver) (copy : Nat → XdmaDesc) : Prop :=
  ∀ i, i < c.nofbufs → d.copyDesc i = some (copy i)

/-- The descriptors of the ring are different objects. -/
def RingApart (c : WzConsts) (d : Driver) : Prop :=
  ∀ i j x, i < c.nofbufs → j < c.nofbufs → d.ext.desc i = some x → d.ext.desc j = some x → i = j

variable {c : WzConsts} {d d' : Driver} {ring copy : Nat → XdmaDesc} {k i last fuel : Nat}

/-! ## One descriptor -/

/-- The eight assignments make the descriptor equal to its copy. -/
theorem restoreOrder_foldl (y copy : XdmaDesc) :
    restoreOrder.foldl (fun y w => y.copyWord copy w) y = copy := rfl

/-- What the loop leaves alone when it restores the descriptors in `visited`. -/
structure ConfirmFrame (visited : List Nat) (d d' : Driver) : Prop where
  ext : d'.ext = d.ext
  engine : d'.engine = d.engine
  copies : d'.kern.copies = d.kern.copies
  others : ∀ x, (∀ i ∈ visited, d.ext.desc i ≠ some x) → d'.kern.coherent x = d.kern.coherent x

theorem ConfirmFrame.trans {visited visited' : List Nat} {d'' : Driver}
    (h : ConfirmFrame visited d d') (h' : ConfirmFrame visited' d' d'') :
    ConfirmFrame (visited ++ visited') d d'' where
  ext := h'.ext.trans h.ext
  engine := h'.engine.trans h.engine
  copies := h'.copies.trans h.copies
  others := fun x hx => by
    have hfirst := h.others x fun i hi => hx i (List.mem_append_left _ hi)
    have hsecond := h'.others x fun i hi => h.ext ▸ hx i (List.mem_append_right _ hi)
    exact hsecond.trans hfirst

theorem ConfirmFrame.copyHolds {visited : List Nat} (h : ConfirmFrame visited d d')
    (hcopy : CopyHolds c d copy) : CopyHolds c d' copy := by
  intro j hj
  rw [← hcopy j hj, copyDesc, copyDesc, h.ext, h.copies]

theorem ConfirmFrame.ringApart {visited : List Nat} (h : ConfirmFrame visited d d')
    (hapart : RingApart c d) : RingApart c d' := by
  unfold RingApart
  rw [h.ext]
  exact hapart

/-- Restoring one descriptor of a ring. -/
theorem confirmDesc_restores (hi : i < c.nofbufs) (hring : RingHolds c d ring)
    (hcopy : CopyHolds c d copy) (hapart : RingApart c d) :
    ∃ d', confirmDesc c i d = .ok d' ∧ ConfirmFrame [i] d d' ∧
      RingHolds c d' (Function.update ring i (copy i)) := by
  have hderef := derefDesc_of_ringDesc (hring i hi)
  obtain ⟨v, arr, hv, harr, hcopyi⟩ : ∃ v arr, d.ext.descCopy = some v ∧
      d.kern.copies v = some arr ∧ arr i = copy i := by
    have h := hcopy i hi
    simpa [copyDesc, Option.bind_eq_some_iff] using h
  obtain ⟨x, block, hx, hblock, hlen⟩ : ∃ x block, d.ext.desc i = some x ∧
      d.kern.coherent x = some block ∧ 0 < block.descs.length := by
    unfold Kernel.derefDesc at hderef
    cases hx : d.ext.desc i with
    | none => simp [hx] at hderef
    | some x =>
        cases hblock : d.kern.coherent x with
        | none => simp [hx, hblock] at hderef
        | some block =>
            refine ⟨x, block, rfl, hblock, ?_⟩
            by_contra hnil
            have hdescs : block.descs = [] := List.length_eq_zero_iff.mp (by omega)
            simp [hx, hblock, hdescs] at hderef
  let restored : Kernel :=
    { d.kern with
      coherent := Function.update d.kern.coherent x
        (some { block with descs := block.descs.modify 0 fun _ => copy i }) }
  refine ⟨{ d with kern := restored }, ?_, ⟨rfl, rfl, rfl, fun y hy => ?_⟩, fun j hj => ?_⟩
  · simp [confirmDesc, Nat.not_le.mpr hi, hv, harr, hx, hblock, Kernel.modifyDesc, hlen,
      restoreOrder_foldl, hcopyi, restored]
  · have hne : y ≠ x := fun h => hy i (List.mem_singleton_self i) (h ▸ hx)
    exact Function.update_of_ne hne ..
  · by_cases hji : j = i
    · subst hji
      obtain ⟨y, rest, hrest⟩ : ∃ y rest, block.descs = y :: rest :=
        List.exists_cons_of_length_pos hlen
      simp [ringDesc, Kernel.derefDesc, hx, restored, hrest, Except.toOption]
    · have hne : d.ext.desc j ≠ some x := fun h => hji (hapart j i x hj hi h hx)
      rw [Function.update_of_ne hji, ← hring j hj]
      unfold ringDesc Kernel.derefDesc
      cases hy : d.ext.desc j with
      | none => simp
      | some y =>
          have hyx : y ≠ x := fun h => hne (h ▸ hy)
          simp [restored, Function.update_of_ne hyx]

/-! ## The loop -/

/-- The loop visits a stretch of the ring in order. -/
theorem confirmVisits_eq (hN : c.nofbufs = 2 ^ k) (hlast : last < c.nofbufs) (hi : i < c.nofbufs)
    (hfuel : Cyclic.dist c.nofbufs i last < fuel) :
    confirmVisits c last fuel i =
      (List.range (Cyclic.dist c.nofbufs i last + 1)).map fun j => (i + j) % c.nofbufs := by
  induction fuel generalizing i with
  | zero => omega
  | succ fuel ih =>
      have hfirst : (i + 0) % c.nofbufs = i := Nat.mod_eq_of_lt hi
      rw [List.range_succ_eq_map, List.map_cons, hfirst, confirmVisits]
      congr 1
      by_cases hil : i = last
      · rw [if_pos hil, hil, show Cyclic.dist c.nofbufs last last = 0 by simp [Cyclic.dist]]
        rfl
      · have hstep := Cyclic.dist_next hi hlast hil
        have hnext : nextDesc c.nofbufs i = (i + 1) % c.nofbufs := Cyclic.succ_and_mask hN i
        rw [if_neg hil, ih (nextDesc_lt (by omega) i) (by rw [hnext]; omega), hnext, hstep,
          List.map_map]
        refine List.map_congr_left fun j _ => ?_
        show ((i + 1) % c.nofbufs + j) % c.nofbufs = (i + (j + 1)) % c.nofbufs
        rw [Nat.mod_add_mod, Nat.add_right_comm, Nat.add_assoc]

/-- The loop restores what it visits and nothing else. -/
theorem confirmLoop_restores (hpos : 0 < c.nofbufs) (hi : i < c.nofbufs)
    (hring : RingHolds c d ring) (hcopy : CopyHolds c d copy) (hapart : RingApart c d)
    (hend : last ∈ confirmVisits c last fuel i) :
    ∃ d', confirmLoop c last fuel i d = .ok d' ∧
      (confirmVisits c last fuel i).foldlM (fun d i => confirmDesc c i d) d = .ok d' ∧
      ConfirmFrame (confirmVisits c last fuel i) d d' ∧
      RingHolds c d' fun j => if j ∈ confirmVisits c last fuel i then copy j else ring j := by
  induction fuel generalizing i d ring with
  | zero => cases hend
  | succ fuel ih =>
      obtain ⟨d₁, hd₁, hframe, hring₁⟩ := confirmDesc_restores hi hring hcopy hapart
      by_cases hil : i = last
      · subst hil
        refine ⟨d₁, ?_, ?_, ?_, fun j hj => ?_⟩
        · simp [confirmLoop, hd₁]
        · simp only [confirmVisits, if_true, List.foldlM_cons, hd₁]
          rfl
        · simpa [confirmVisits] using hframe
        · rw [hring₁ j hj]
          by_cases hji : j = i
          · simp [confirmVisits, hji]
          · simp [confirmVisits, hji]
      · have hrest : last ∈ confirmVisits c last fuel (nextDesc c.nofbufs i) := by
          simpa [confirmVisits, hil, Ne.symm hil] using hend
        obtain ⟨d', hd', hfold, hframe', hring'⟩ :=
          ih (nextDesc_lt hpos i) hring₁ (hframe.copyHolds hcopy) (hframe.ringApart hapart) hrest
        refine ⟨d', ?_, ?_, ?_, fun j hj => ?_⟩
        · simp [confirmLoop, hd₁, hil, hd']
        · simp only [confirmVisits, if_neg hil, List.foldlM_cons, hd₁]
          exact hfold
        · simpa [confirmVisits, hil] using hframe.trans hframe'
        · rw [hring' j hj]
          by_cases hji : j = i
          · simp [confirmVisits, hil, hji]
          · simp [confirmVisits, hil, hji]

/-- A loop that ends has met its last descriptor. -/
theorem last_mem_of_confirmLoop (h : confirmLoop c last fuel i d = .ok d') :
    last ∈ confirmVisits c last fuel i := by
  induction fuel generalizing i d with
  | zero => simp [confirmLoop] at h
  | succ fuel ih =>
      by_cases hil : i = last
      · simp [confirmVisits, hil]
      · cases hd : confirmDesc c i d with
        | error e => simp [confirmLoop, hd] at h
        | ok d₁ =>
            have hrest : confirmLoop c last fuel (nextDesc c.nofbufs i) d₁ = .ok d' := by
              simpa [confirmLoop, hd, hil] using h
            simp [confirmVisits, hil, ih hrest]

theorem last_not_mem_of_le (hN : c.nofbufs = 2 ^ k) (hlast : last < c.nofbufs) (hi : i < c.nofbufs)
    (hfuel : fuel ≤ Cyclic.dist c.nofbufs i last) : last ∉ confirmVisits c last fuel i := by
  induction fuel generalizing i with
  | zero => simp [confirmVisits]
  | succ fuel ih =>
      have hil : i ≠ last := by
        rintro rfl
        simp [Cyclic.dist] at hfuel
      have hstep := Cyclic.dist_next hi hlast hil
      have hnext : nextDesc c.nofbufs i = (i + 1) % c.nofbufs := Cyclic.succ_and_mask hN i
      have hrest := ih (nextDesc_lt (by omega) i) (by rw [hnext]; omega)
      simp [confirmVisits, hil, Ne.symm hil, hrest]

end Driver

/-! ## A block of the ring -/

theorem last_mem_blockRange {c : WzConsts} {k : Nat} (hN : c.nofbufs = 2 ^ k) (hk : k ≤ 32)
    {first last : Word} (hfirst : first.toNat < c.nofbufs) (hlast : last.toNat < c.nofbufs) :
    last.toNat ∈ blockRange c first last := by
  refine List.mem_map.mpr ⟨Cyclic.dist c.nofbufs first.toNat last.toNat, List.mem_range.mpr ?_, ?_⟩
  · rw [blockDescs, Cyclic.sub_mod_eq_dist (hN ▸ Nat.pow_dvd_pow 2 hk) hfirst hlast]
    exact Nat.lt_succ_self _
  · unfold Cyclic.dist
    split
    · rw [Nat.add_sub_cancel' (by omega), Nat.mod_eq_of_lt hlast]
    · have : first.toNat + (last.toNat + c.nofbufs - first.toNat) = last.toNat + c.nofbufs := by
        omega
      rw [this, Nat.add_mod_right, Nat.mod_eq_of_lt hlast]

theorem blockRange_nodup {c : WzConsts} {k : Nat} (hN : c.nofbufs = 2 ^ k) (first last : Word) :
    (blockRange c first last).Nodup := by
  have hpos : 0 < c.nofbufs := hN ▸ Nat.two_pow_pos k
  have hcount : blockDescs c first last ≤ c.nofbufs := Nat.mod_lt _ hpos
  refine List.Nodup.map_on (fun a ha b hb hab => ?_) List.nodup_range
  rw [List.mem_range] at ha hb
  by_contra hne
  exact Cyclic.mod_ne_of_window (show first.toNat ≤ first.toNat + a by omega) (by omega)
    (by omega) (by omega) (show first.toNat + a ≠ first.toNat + b by omega) hab

/-- For every two descriptors of a ring, `CONFIRM` visits the block between them in order, leaves
after as many iterations as it has descriptors, and restores these descriptors only. -/
theorem confirm_restores_range (c : WzConsts) (k : Nat) (hN : c.nofbufs = 2 ^ k) (hk : k ≤ 32)
    (first last : Word) (hfirst : first.toNat < c.nofbufs) (hlast : last.toNat < c.nofbufs)
    (d : Driver) (ring copy : Nat → XdmaDesc) (hring : d.RingHolds c ring)
    (hcopy : d.CopyHolds c copy) (hapart : d.RingApart c) :
    ∃ d', d.ioctlDoWzConfirm c (some ⟨first, last⟩) = .ok (d', 0) ∧
      Driver.confirmVisits c last.toNat c.nofbufs first.toNat = blockRange c first last ∧
      (blockRange c first last).Nodup ∧
      (blockRange c first last).foldlM (fun d i => Driver.confirmDesc c i d) d = .ok d' ∧
      (∀ fuel, (∃ d'', Driver.confirmLoop c last.toNat fuel first.toNat d = .ok d'') ↔
        blockDescs c first last ≤ fuel) ∧
      d'.RingHolds c (fun i => if i ∈ blockRange c first last then copy i else ring i) ∧
      Driver.ConfirmFrame (blockRange c first last) d d' := by
  have hpos : 0 < c.nofbufs := by omega
  have hdist := Cyclic.sub_mod_eq_dist (hN ▸ Nat.pow_dvd_pow 2 hk) hfirst hlast
  have hcount : blockDescs c first last = Cyclic.dist c.nofbufs first.toNat last.toNat + 1 := by
    rw [blockDescs, hdist]
  have hvisits : ∀ fuel, blockDescs c first last ≤ fuel →
      Driver.confirmVisits c last.toNat fuel first.toNat = blockRange c first last := by
    intro fuel hfuel
    rw [Driver.confirmVisits_eq hN hlast hfirst (by omega), blockRange, hcount]
  have hmem := last_mem_blockRange hN hk hfirst hlast
  have hrun : ∀ fuel, blockDescs c first last ≤ fuel → ∃ d',
      Driver.confirmLoop c last.toNat fuel first.toNat d = .ok d' ∧
      (blockRange c first last).foldlM (fun d i => Driver.confirmDesc c i d) d = .ok d' ∧
      Driver.ConfirmFrame (blockRange c first last) d d' ∧
      d'.RingHolds c (fun i => if i ∈ blockRange c first last then copy i else ring i) := by
    intro fuel hfuel
    rw [← hvisits fuel hfuel] at hmem ⊢
    exact Driver.confirmLoop_restores hpos hfirst hring hcopy hapart hmem
  have hle : blockDescs c first last ≤ c.nofbufs := Nat.mod_lt _ hpos
  obtain ⟨d', hd', hfold, hframe, hring'⟩ := hrun c.nofbufs hle
  refine ⟨d', by simp [Driver.ioctlDoWzConfirm, hd'], hvisits _ hle, blockRange_nodup hN first last,
    hfold, fun fuel => ⟨?_, ?_⟩, hring', hframe⟩
  · rintro ⟨d'', hd''⟩
    by_contra hshort
    exact Driver.last_not_mem_of_le hN hlast hfirst (by omega) (Driver.last_mem_of_confirmLoop hd'')
  · intro hfuel
    obtain ⟨d'', hd'', -⟩ := hrun fuel hfuel
    exact ⟨d'', hd''⟩

/-- A block that wraps past the end of a ring of four descriptors, in a ring of arbitrary words. -/
theorem confirm_restores_wrapped :
    ∃ d d' : Driver, d.RingHolds ⟨4, 4096⟩ (fun _ => .zero) ∧
      d.ioctlDoWzConfirm ⟨4, 4096⟩ (some ⟨3, 1⟩) = .ok (d', 0) ∧
      blockRange ⟨4, 4096⟩ 3 1 = [3, 0, 1] ∧ d'.ringDesc 2 = some .zero ∧
      d'.ringDesc 0 = some ⟨1, 2, 3, 4, 5, 6, 7, 8⟩ := by
  let d : Driver :=
    { Driver.created with
      kern := { Kernel.fresh with
        coherent := fun _ => some ⟨0, [.zero]⟩
        copies := fun _ => some fun _ => ⟨1, 2, 3, 4, 5, 6, 7, 8⟩ }
      ext := { WzExt.zero with desc := some, descCopy := some 0 } }
  have hring : d.RingHolds ⟨4, 4096⟩ (fun _ => .zero) := fun i _ => rfl
  have hcopy : d.CopyHolds ⟨4, 4096⟩ (fun _ => ⟨1, 2, 3, 4, 5, 6, 7, 8⟩) := fun i _ => rfl
  have hapart : d.RingApart ⟨4, 4096⟩ := fun i j x _ _ hi hj =>
    (Option.some.inj hi).trans (Option.some.inj hj).symm
  have hrange : blockRange ⟨4, 4096⟩ 3 1 = [3, 0, 1] := by decide
  obtain ⟨d', hd', -, -, -, -, hring', -⟩ := confirm_restores_range ⟨4, 4096⟩ 2 rfl (by decide) 3 1
    (by decide) (by decide) d _ _ hring hcopy hapart
  rw [hrange] at hring'
  exact ⟨d, d', hring, hd', hrange, hring' 2 (by decide), hring' 0 (by decide)⟩

/-! ## Numbers that are no descriptors -/

/-- `CONFIRM` reports an error, leaves the ring alone and reads no entry that is not there. -/
def RejectsCleanly (c : WzConsts) (d : Driver) (first last : Word) : Prop :=
  ∃ d' rc, d.ioctlDoWzConfirm c (some ⟨first, last⟩) = .ok (d', rc) ∧ rc < 0 ∧
    d'.kern.coherent = d.kern.coherent

namespace Driver

variable {c : WzConsts} {d : Driver} {i last : Nat}

/-- A loop that looks for a number behind the ring does not end. -/
theorem confirmLoop_never (hlast : c.nofbufs ≤ last) (hi : i < c.nofbufs) (fuel : Nat)
    (d' : Driver) : confirmLoop c last fuel i d ≠ .ok d' := by
  induction fuel generalizing i d with
  | zero => simp [confirmLoop]
  | succ fuel ih =>
      have hil : i ≠ last := by omega
      cases hd : confirmDesc c i d with
      | error e => simp [confirmLoop, hd]
      | ok d₁ =>
          simp only [confirmLoop, hd, if_neg hil]
          exact ih (nextDesc_lt (by omega) i)

/-- An entry behind the array is read. -/
theorem confirmLoop_outside (hi : c.nofbufs ≤ i) (fuel : Nat) :
    confirmLoop c last (fuel + 1) i d = .error .outOfBounds := by
  simp [confirmLoop, confirmDesc, hi]

/-- On a ring that is there such a loop goes round. -/
theorem confirmLoop_spins {ring copy : Nat → XdmaDesc} (hlast : c.nofbufs ≤ last)
    (hi : i < c.nofbufs) (hring : RingHolds c d ring) (hcopy : CopyHolds c d copy)
    (hapart : RingApart c d) (fuel : Nat) : confirmLoop c last fuel i d = .error .spin := by
  induction fuel generalizing i d ring with
  | zero => rfl
  | succ fuel ih =>
      have hil : i ≠ last := by omega
      obtain ⟨d₁, hd₁, hframe, hring₁⟩ := confirmDesc_restores hi hring hcopy hapart
      simp only [confirmLoop, hd₁, if_neg hil]
      exact ih (nextDesc_lt (by omega) i) hring₁ (hframe.copyHolds hcopy) (hframe.ringApart hapart)

end Driver

/-- A number that is no descriptor is never rejected: a first one is used as an index behind the
array, and with a last one the loop never ends. -/
theorem confirm_never_rejects (c : WzConsts) (hpos : 0 < c.nofbufs) (d : Driver) (first last : Word)
    (hbad : c.nofbufs ≤ first.toNat ∨ c.nofbufs ≤ last.toNat) :
    ¬RejectsCleanly c d first last ∧
      (c.nofbufs ≤ first.toNat →
        d.ioctlDoWzConfirm c (some ⟨first, last⟩) = .error .outOfBounds) ∧
      (first.toNat < c.nofbufs → ∀ fuel d',
        Driver.confirmLoop c last.toNat fuel first.toNat d ≠ .ok d') := by
  have houtside : c.nofbufs ≤ first.toNat →
      d.ioctlDoWzConfirm c (some ⟨first, last⟩) = .error .outOfBounds := by
    intro hfirst
    obtain ⟨n, hn⟩ := Nat.exists_eq_succ_of_ne_zero (Nat.ne_of_gt hpos)
    unfold Driver.ioctlDoWzConfirm
    dsimp only
    rw [hn, Driver.confirmLoop_outside (hn ▸ hfirst)]
  have hnever : first.toNat < c.nofbufs → ∀ fuel d',
      Driver.confirmLoop c last.toNat fuel first.toNat d ≠ .ok d' := by
    intro hfirst
    have hlast : c.nofbufs ≤ last.toNat := hbad.resolve_left (by omega)
    exact Driver.confirmLoop_never hlast hfirst
  refine ⟨?_, houtside, hnever⟩
  rintro ⟨d', rc, hd', -, -⟩
  by_cases hfirst : first.toNat < c.nofbufs
  · unfold Driver.ioctlDoWzConfirm at hd'
    dsimp only at hd'
    split at hd'
    · cases hd'
    · rename_i d₁ hd₁
      exact hnever hfirst _ _ hd₁
  · rw [houtside (by omega)] at hd'
    cases hd'

/-- The ring that `START` leaves, as the restore loop finds it. -/
theorem Driver.Started.ring_there {c : WzConsts} {d d' : Driver} (h : d.Started c d') :
    d'.RingHolds c (startDesc c d'.ext) ∧ d'.CopyHolds c (startDesc c d'.ext) ∧ d'.RingApart c := by
  refine ⟨fun i hi => h.ringDesc_eq hi, h.copy, fun i j x hi hj hx hx' => ?_⟩
  rw [h.desc i hi, Option.some.injEq] at hx
  rw [h.desc j hj, Option.some.injEq] at hx'
  omega

theorem exists_started :
    ∃ (s : Sys) (d : Driver), s.Reachable wzConsts.toWzConsts ∧
      s.drv.ioctlDoWzStart wzConsts.toWzConsts startGranted = .ok (d, 0) := by
  obtain ⟨s, d, hs, hstart, -⟩ := exists_start_of_exec wzConsts.toWzConsts
    [.allocBuffers allocGranted] startGranted (fun _ _ => true) (by decide +kernel)
  exact ⟨s, d, hs, hstart⟩

/-- Descriptor 128 of 128 is confirmed after a start. -/
theorem confirm_never_rejects_started :
    ∃ (s : Sys) (d : Driver), s.Reachable wzConsts.toWzConsts ∧
      s.drv.ioctlDoWzStart wzConsts.toWzConsts startGranted = .ok (d, 0) ∧
      ¬RejectsCleanly wzConsts.toWzConsts d 0 128 ∧ ¬RejectsCleanly wzConsts.toWzConsts d 128 0 := by
  obtain ⟨s, d, hs, hstart⟩ := exists_started
  exact ⟨s, d, hs, hstart,
    (confirm_never_rejects wzConsts.toWzConsts (by decide) d 0 128 (.inr (by decide))).1,
    (confirm_never_rejects wzConsts.toWzConsts (by decide) d 128 0 (.inl (by decide))).1⟩

/-- There the loop goes round for ever, and with 128 as the first number it reads behind the
array. -/
theorem confirm_spins_behind_ring :
    ∃ (s : Sys) (d : Driver), s.Reachable wzConsts.toWzConsts ∧
      s.drv.ioctlDoWzStart wzConsts.toWzConsts startGranted = .ok (d, 0) ∧
      (∀ fuel, Driver.confirmLoop wzConsts.toWzConsts (128 : Word).toNat fuel (0 : Word).toNat d =
        .error .spin) ∧
      ¬RejectsCleanly wzConsts.toWzConsts d 0 128 ∧
      d.ioctlDoWzConfirm wzConsts.toWzConsts (some ⟨128, 0⟩) = .error .outOfBounds := by
  obtain ⟨s, d, hs, hstart⟩ := exists_started
  have hstarted := Driver.start_ok wzConsts.nofbufs_pos hs.pointerInv.live.descOld hstart
  obtain ⟨hring, hcopy, hapart⟩ := hstarted.ring_there
  have hspin : ∀ fuel, Driver.confirmLoop wzConsts.toWzConsts (128 : Word).toNat fuel
      (0 : Word).toNat d = .error .spin :=
    Driver.confirmLoop_spins (by decide) (by decide) hring hcopy hapart
  refine ⟨s, d, hs, hstart, hspin, ?_, rfl⟩
  rintro ⟨d', rc, hd', -, -⟩
  unfold Driver.ioctlDoWzConfirm at hd'
  dsimp only at hd'
  rw [hspin] at hd'
  cases hd'

end WzXdma
