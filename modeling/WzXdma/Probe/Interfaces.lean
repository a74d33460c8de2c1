import WzXdma.Probe.Engines

/-!
# Character devices of a device

`create_sg_char` makes one character device, and with the first one of a board also chooses the
instance number of the board.  `create_interfaces` makes all of them and destroys them again when one of
those it looks at is missing.

The device numbers are given back by base and length.  A number that was registered alone is given
back by `destroy_sg_char`, which asks for one, and not by `create_sg_char`, which asks for all.  What
`alloc_chrdev_region` has reserved is given back by neither, but for the user device.
-/

namespace WzXdma
namespace Probe

open Lib.Loop Lib.Holdings

/-! ## One character device -/

/-- The loop that looks for an instance that is not in use.  It reads `dev_present[i]` before it
compares `i`, which does not change where it stops. -/
def freeInstance (devPresent : Nat → Nat) : Nat → Nat → Nat
  | 0, i => i
  | fuel + 1, i =>
      if devPresent i = 1 ∧ i < maxXdmaDevices then freeInstance devPresent fuel (i + 1) else i

/-- `XDMA_MINOR_BASE` -/
def xdmaMinorBase : Nat := 0

/-- `XDMA_MINOR_COUNT` -/
def xdmaMinorCount : Nat := 255

def State.take (s : State) (n : Number) : State :=
  { s with numbers := Lib.Holdings.acquire s.numbers n }

/-- `dev_present[i] = 1` -/
def State.takeSlot (s : State) (i : Nat) : State :=
  { s with
    glob := { s.glob with devPresent := Function.update s.glob.devPresent i 1 }
    numbers := Lib.Holdings.acquire s.numbers (.slot i) }

/-- `unregister_chrdev_region`, which does nothing when there is no region with this base and this
length. -/
def State.unregister (s : State) (base count : Nat) : State :=
  { s with numbers := releaseHeld s.numbers (.region base count) }

/-- `gen_dev_major`, with `alloc_chrdev_region`, which has failed when it gives major number 0. -/
def genDevMajor (dynMajor : Nat) (s : State) : Nat × State :=
  if s.glob.major = 0 then
    (dynMajor, if dynMajor = 0 then s else s.take (.region xdmaMinorBase xdmaMinorCount))
  else (s.glob.major, { s with glob := { s.glob with major := s.glob.major - 1 } })

/-- `gen_dev_minor` -/
def genDevMinor : CharDev → Nat
  | .user => 0
  | .ctrl => 1
  | .events i => 10 + i
  | .sgdma channel dirFromDev => 32 + dirFromDev.toNat * 4 + channel
  | .bypass channel dirFromDev => 64 + dirFromDev.toNat * 4 + channel
  | .bypassBase => 100

/-- "new instance?"  Without a free instance there is no device. -/
def newInstance (dynMajor : Nat) (s : State) : Option State :=
  if s.lro.major = 0 then
    let i := freeInstance s.glob.devPresent (maxXdmaDevices + 1) 0
    if i = maxXdmaDevices then none
    else
      let r := genDevMajor dynMajor (s.takeSlot i)
      some { r.2 with lro := { r.2.lro with instanceNo := i, major := r.1 } }
  else some s

/-- `create_sg_char`, with whether it returns a character device. -/
def createSgChar (ans : CharAnswers) (x : CharDev) (s : State) : State × Bool :=
  if ans.alloc = false then (s, false)
  else
    let s := s.acquire (.charMem x)
    match newInstance ans.dynMajor s with
    | none => (s.release (.charMem x), false)
    | some s =>
        let minor := genDevMinor x
        if ans.kobjectRc ≠ 0 then (s.release (.charMem x), false)
        else if s.glob.major ≠ 0 ∧ ans.registerRc < 0 then (s.release (.charMem x), false)
        else
          -- `register_chrdev_region`
          let s := if s.glob.major ≠ 0 then s.take (.region minor 1) else s
          -- `fail_add`
          if ans.addRc < 0 then ((s.unregister minor xdmaMinorCount).release (.charMem x), false)
          else
            let s := s.acquire (.cdev x)
            -- `fail_device`
            if ans.device = false then
              (((s.release (.cdev x)).unregister minor xdmaMinorCount).release (.charMem x), false)
            else (s, true)

/-- `destroy_sg_char` -/
def destroySgChar (x : CharDev) (s : State) : State :=
  ((s.release (.cdev x)).unregister (genDevMinor x) 1).release (.charMem x)

def State.setChar (s : State) (x : CharDev) (set : Bool) : State :=
  { s with lro := { s.lro with charDev := Function.update s.lro.charDev x set } }

/-! ## All of them -/

/-- The character devices in the order of `destroy_interfaces`. -/
def destroyOrder : List CharDev :=
  ((List.finRange 4).flatMap fun channel => [CharDev.sgdma channel false,
    CharDev.sgdma channel true, CharDev.bypass channel false, CharDev.bypass channel true]) ++
    [CharDev.bypassBase] ++ (List.finRange 16).map CharDev.events ++ [CharDev.ctrl, CharDev.user]

/-- `destroy_interfaces` -/
def destroyInterfaces (s : State) : State :=
  each (fun x s => if s.lro.charDev x then destroySgChar x s else s) destroyOrder s

/-- The character devices in the order of `create_interfaces`. -/
def createOrder : List CharDev :=
  [CharDev.user, CharDev.ctrl] ++ (List.finRange 16).map CharDev.events ++
    (List.finRange 4).map (CharDev.sgdma · false) ++ (List.finRange 4).map (CharDev.sgdma · true) ++
    (List.finRange 4).map (CharDev.bypass · false) ++
    (List.finRange 4).map (CharDev.bypass · true) ++ [CharDev.bypassBase]

/-- The BAR or the engine of the character device is there. -/
def wanted (lro : XdmaDev) : CharDev → Bool
  | .user => lro.userBarIdx.isSome
  | .ctrl => true
  | .events _ => true
  | .sgdma channel dir => (lro.engine channel dir).isSome
  | .bypass channel dir => (lro.engine channel dir).isSome && lro.bypassBarIdx.isSome
  | .bypassBase => lro.bypassBarIdx.isSome

/-- For the events the test is made on the array instead of its entry, and for the last device none
is made. -/
def checked : CharDev → Bool
  | .events _ => false
  | .bypassBase => false
  | _ => true

/-- One step of `create_interfaces`. -/
def createInterface (ans : Answers) (x : CharDev) (s : State) : Except State State :=
  if wanted s.lro x then
    let r := createSgChar (ans.char x) x s
    let s := r.1.setChar x r.2
    if checked x ∧ r.2 = false then .error s else .ok s
  else .ok s

/-- `create_interfaces` -/
def createInterfaces (ans : Answers) (s : State) : Except (State × Int) State :=
  match forEach (createInterface ans) createOrder s with
  | .error s => .error (destroyInterfaces s, -1)
  | .ok s => .ok s

/-! ## Creation -/

section Create

variable {board : Board} {ans : Answers} {a : CharAnswers} {up : Up} {s s' t : State} {x : CharDev}

/-- Everything but the numbers of the board is the same. -/
structure SameButIds (s t : State) : Prop where
  view : t.lro.view = s.lro.view
  book : t.book = s.book
  pollMode : t.glob.pollMode = s.glob.pollMode

theorem genDevMajor_lro (dynMajor : Nat) (s : State) : (genDevMajor dynMajor s).2.lro = s.lro := by
  unfold genDevMajor
  split
  · split <;> rfl
  · rfl

theorem genDevMajor_same (dynMajor : Nat) (s : State) : SameButIds s (genDevMajor dynMajor s).2 := by
  unfold genDevMajor
  split
  · split <;> exact ⟨rfl, rfl, rfl⟩
  · exact ⟨rfl, rfl, rfl⟩

theorem newInstance_same {dynMajor : Nat} (h : newInstance dynMajor s = some t) : SameButIds s t := by
  unfold newInstance at h
  split at h
  · dsimp only at h
    split at h
    · cases h
    · obtain rfl := Option.some.inj h
      have hsame := genDevMajor_same dynMajor
        (s.takeSlot (freeInstance s.glob.devPresent (maxXdmaDevices + 1) 0))
      exact ⟨hsame.view, hsame.book, hsame.pollMode⟩
  · obtain rfl := Option.some.inj h
    exact ⟨rfl, rfl, rfl⟩

/-- A character device was made, or everything of it was given back. -/
structure MadeChar (x : CharDev) (s : State) (r : State × Bool) : Prop where
  view : r.1.lro.view = s.lro.view
  pollMode : r.1.glob.pollMode = s.glob.pollMode
  book : ∀ own, Holds s.book own → ¬own (.charMem x) → ¬own (.cdev x) →
    Holds r.1.book fun q => own q ∨ (r.2 = true ∧ (q = .charMem x ∨ q = .cdev x))

/-- The structure was allocated and freed again. -/
theorem MadeChar.of_freed (h : SameButIds (s.acquire (.charMem x)) t) :
    MadeChar x s (t.release (.charMem x), false) := by
  refine ⟨h.view, h.pollMode, fun own hs hmem _ => ?_⟩
  have hstruct := hs.acquire (o := fun q => own q ∨ q = .charMem x) hmem fun q => Iff.rfl
  have hbook : Holds t.book fun q => own q ∨ q = .charMem x := h.book ▸ hstruct
  refine hbook.release (r := .charMem x) (.inr rfl) fun q => ?_
  by_cases hq : q = .charMem x
  · simp [hq, hmem]
  · simp [hq]

theorem MadeChar.of_added (h : SameButIds (s.acquire (.charMem x)) t) :
    MadeChar x s (t.acquire (.cdev x), true) := by
  refine ⟨h.view, h.pollMode, fun own hs hmem hcdev => ?_⟩
  have hstruct := hs.acquire (o := fun q => own q ∨ q = .charMem x) hmem fun q => Iff.rfl
  have hbook : Holds t.book fun q => own q ∨ q = .charMem x := h.book ▸ hstruct
  refine hbook.acquire (r := .cdev x) (by simp [hcdev]) fun q => ?_
  simp [or_assoc]

/-- `fail_device` undoes both steps. -/
theorem MadeChar.of_deleted (h : SameButIds (s.acquire (.charMem x)) t) (base count : Nat) :
    MadeChar x s (((((t.acquire (.cdev x)).release (.cdev x)).unregister base count).release
      (.charMem x)), false) := by
  refine ⟨h.view, h.pollMode, fun own hs hmem hcdev => ?_⟩
  have hboth := (MadeChar.of_added h).book own hs hmem hcdev
  have hdel := hboth.release (r := .cdev x) (o := fun q => own q ∨ q = .charMem x)
    (by simp) fun q => ?_
  · refine hdel.release (r := .charMem x) (.inr rfl) fun q => ?_
    by_cases hq : q = .charMem x
    · simp [hq, hmem]
    · simp [hq]
  · by_cases hq : q = .cdev x
    · simp [hq, hcdev]
    · simp [hq]

/-- The device numbers are not in the book of the device. -/
theorem SameButIds.registered (h : SameButIds s t) (n : Number) :
    SameButIds s (if t.glob.major ≠ 0 then t.take n else t) := by
  split <;> exact ⟨h.view, h.book, h.pollMode⟩

theorem createSgChar_made (a : CharAnswers) (x : CharDev) (s : State) :
    MadeChar x s (createSgChar a x s) := by
  unfold createSgChar
  split
  · exact ⟨rfl, rfl, fun own hs _ _ => hs.congr fun q => by simp⟩
  cases hnew : newInstance a.dynMajor (s.acquire (.charMem x)) with
  | none =>
      simp only [hnew]
      exact MadeChar.of_freed ⟨rfl, rfl, rfl⟩
  | some t =>
      simp only [hnew]
      have hsame := newInstance_same hnew
      split
      · exact MadeChar.of_freed hsame
      split
      · exact MadeChar.of_freed hsame
      have hreg := hsame.registered (.region (genDevMinor x) 1)
      split
      · exact MadeChar.of_freed (t := State.unregister _ _ _) ⟨hreg.view, hreg.book, hreg.pollMode⟩
      split
      · exact MadeChar.of_deleted hreg _ _
      · exact MadeChar.of_added hreg

/-- What a character device that is set holds. -/
theorem owned_setChar (hup : up.chars = true) (hno : s.lro.charDev x = false) (set : Bool) (q : Res) :
    Owned ans up (s.setChar x set).lro q ↔
      Owned ans up s.lro q ∨ (set = true ∧ (q = .charMem x ∨ q = .cdev x)) := by
  cases q with
  | charMem y =>
      by_cases hy : y = x
      · simp [Owned, State.setChar, hup, hy, hno]
      · simp [Owned, State.setChar, hup, hy]
  | cdev y =>
      by_cases hy : y = x
      · simp [Owned, State.setChar, hup, hy, hno]
      · simp [Owned, State.setChar, hup, hy]
  | _ => simp [Owned, State.setChar]

theorem Kept.setChar {r : State × Bool} (h : Kept board ans up s) (hup : up.chars = true)
    (hbegun : up.charsBegun = true) (hno : s.lro.charDev x = false) (hr : MadeChar x s r) :
    Kept board ans up (r.1.setChar x r.2) := by
  have hmem : ¬Owned ans up s.lro (.charMem x) := by simp [Owned, hno]
  have hcdev : ¬Owned ans up s.lro (.cdev x) := by simp [Owned, hno]
  have hset : Kept board ans up { s.setChar x r.2 with book := r.1.book } := by
    refine ⟨?_, h.msix, h.inUse, h.vector, h.noRegions, h.noBars, h.noEngines, fun hb => ?_,
      h.line, h.scanned, h.enabled⟩
    · exact (hr.book _ h.holds hmem hcdev).congr fun q => owned_setChar hup hno r.2 q
    · rw [hbegun] at hb
      cases hb
  refine hset.of_view rfl ?_
  have hview := hr.view
  have hchar : r.1.lro.charDev = s.lro.charDev :=
    funext fun y => congrFun (congrArg XdmaDev.charDev hview) y
  show { r.1.lro.view with charDev := Function.update r.1.lro.charDev x r.2 } =
    { s.lro.view with charDev := Function.update s.lro.charDev x r.2 }
  rw [hview, hchar]

/-- The invariant of `create_interfaces`: the devices that are still to come are not set. -/
structure MadeTo (board : Board) (ans : Answers) (up : Up) (rest : List CharDev) (s : State) : Prop where
  kept : Kept board ans up s
  ok : EnginesOk s
  nodup : rest.Nodup
  noneLeft : ∀ y ∈ rest, s.lro.charDev y = false

theorem EnginesOk.of_view (h : EnginesOk s) (hengine : t.lro.engine = s.lro.engine)
    (hmsix : t.lro.msixEnabled = s.lro.msixEnabled)
    (hpoll : t.glob.pollMode = s.glob.pollMode) : EnginesOk t := by
  unfold EnginesOk
  rw [hengine, hmsix, hpoll]
  exact h

/-- A device is made, or not noticed to be missing, or the loop is left. -/
theorem MadeTo.step {rest : List CharDev} (h : MadeTo board ans up (x :: rest) s)
    (hup : up.chars = true) (hbegun : up.charsBegun = true) :
    MadeTo board ans up rest s ∧
      MadeTo board ans up rest ((createSgChar (ans.char x) x s).1.setChar x
        (createSgChar (ans.char x) x s).2) := by
  obtain ⟨hnot, hrest⟩ := List.nodup_cons.1 h.nodup
  have hr := createSgChar_made (ans.char x) x s
  refine ⟨⟨h.kept, h.ok, hrest, fun y hy => h.noneLeft y (List.mem_cons_of_mem x hy)⟩,
    h.kept.setChar hup hbegun (h.noneLeft x List.mem_cons_self) hr, ?_, hrest, fun y hy => ?_⟩
  · have hengine := congrArg XdmaDev.engine hr.view
    have hmsix := congrArg XdmaDev.msixEnabled hr.view
    exact h.ok.of_view hengine hmsix hr.pollMode
  · have hne : y ≠ x := fun heq => hnot (heq ▸ hy)
    have hsame : (createSgChar (ans.char x) x s).1.lro.charDev y = s.lro.charDev y :=
      congrFun (congrArg XdmaDev.charDev hr.view) y
    rw [State.setChar]
    dsimp only
    rw [Function.update_of_ne hne, hsame]
    exact h.noneLeft y (List.mem_cons_of_mem x hy)

theorem createInterface_ok {rest : List CharDev} (h : MadeTo board ans up (x :: rest) s)
    (hup : up.chars = true) (hbegun : up.charsBegun = true)
    (hok : createInterface ans x s = .ok s') : MadeTo board ans up rest s' := by
  obtain ⟨hskip, hmade⟩ := h.step hup hbegun
  unfold createInterface at hok
  split at hok
  · dsimp only at hok
    split at hok
    · cases hok
    · exact Except.ok.inj hok ▸ hmade
  · exact Except.ok.inj hok ▸ hskip

theorem createInterface_error {rest : List CharDev} (h : MadeTo board ans up (x :: rest) s)
    (hup : up.chars = true) (hbegun : up.charsBegun = true)
    (herr : createInterface ans x s = .error s') : MadeTo board ans up rest s' := by
  obtain ⟨-, hmade⟩ := h.step hup hbegun
  unfold createInterface at herr
  split at herr
  · dsimp only at herr
    split at herr
    · exact Except.error.inj herr ▸ hmade
    · cases herr
  · cases herr

end Create

/-! ## Destruction -/

/-- The character device that a resource belongs to. -/
def Res.charOf : Res → Option CharDev
  | .charMem x => some x
  | .cdev x => some x
  | _ => none

section Destroy

variable {board : Board} {ans : Answers} {up : Up} {s s' t : State} {x : CharDev}
  {own : Res → Prop} {rc : Int}

theorem destroySgChar_holds (h : Holds t.book own) (hmem : own (.charMem x)) (hcdev : own (.cdev x)) :
    Holds (destroySgChar x t).book fun r => own r ∧ r.charOf ≠ some x := by
  have hdel := h.release (o := fun r => own r ∧ r ≠ .cdev x) hcdev fun r => Iff.rfl
  refine hdel.release (r := .charMem x) ⟨hmem, by simp⟩ fun r => ?_
  cases r <;> simp [Res.charOf, and_comm]

theorem mem_destroyOrder (x : CharDev) : x ∈ destroyOrder := by
  cases x with
  | sgdma channel dir => cases dir <;> simp [destroyOrder]
  | bypass channel dir => cases dir <;> simp [destroyOrder]
  | _ => simp [destroyOrder]

theorem destroyOrder_nodup : destroyOrder.Nodup := by decide

theorem createOrder_nodup : createOrder.Nodup := by decide

/-- The invariant of `destroy_interfaces`. -/
structure DestroyedTo (ans : Answers) (up : Up) (s : State) (rest : List CharDev) (t : State) :
    Prop where
  lro : t.lro = s.lro
  glob : t.glob = s.glob
  nodup : rest.Nodup
  holds : Holds t.book fun r => Owned ans up s.lro r ∧ ∀ y, r.charOf = some y → y ∈ rest

theorem DestroyedTo.step {rest : List CharDev} (hup : up.chars = true)
    (h : DestroyedTo ans up s (x :: rest) t) :
    DestroyedTo ans up s rest (if t.lro.charDev x then destroySgChar x t else t) := by
  obtain ⟨hlro, hglob, hnodup, hholds⟩ := h
  obtain ⟨hnot, hrest⟩ := List.nodup_cons.1 hnodup
  by_cases hset : s.lro.charDev x = true
  · rw [if_pos (hlro ▸ hset)]
    refine ⟨hlro, hglob, hrest, (destroySgChar_holds hholds (x := x) (by simp [Owned, hup, hset, Res.charOf])
      (by simp [Owned, hup, hset, Res.charOf])).congr fun r => ?_⟩
    rw [and_assoc]
    refine and_congr_right fun _ => ?_
    constructor
    · intro hr
      exact ⟨fun y hy => List.mem_cons_of_mem _ (hr y hy), fun hx => hnot (hr x hx)⟩
    · rintro ⟨hr, hne⟩ y hy
      exact (List.mem_cons.1 (hr y hy)).resolve_left fun heq => hne (heq ▸ hy)
  · rw [if_neg (hlro ▸ hset)]
    refine ⟨hlro, hglob, hrest, hholds.congr fun r => and_congr_right fun hr => ?_⟩
    refine forall_congr' fun y => forall_congr' fun hy => ?_
    have hne : y ≠ x := by
      rintro rfl
      cases r <;> simp only [Res.charOf, reduceCtorEq, Option.some.injEq] at hy
      all_goals
        subst hy
        exact hset hr.2
    simp [hne]

/-- `destroy_interfaces` gives back every character device that is set. -/
theorem destroyInterfaces_kept (up : Up) (h : Kept board ans { up with chars := true } s) :
    Kept board ans { up with chars := false } (destroyInterfaces s) ∧
      (destroyInterfaces s).lro = s.lro ∧ (destroyInterfaces s).glob = s.glob := by
  have hinv := each_invariant (DestroyedTo ans { up with chars := true } s) (s := s)
    (l := destroyOrder) ⟨rfl, rfl, destroyOrder_nodup,
      h.holds.congr fun r => by simp [mem_destroyOrder]⟩ (fun x rest t hI => hI.step rfl)
  obtain ⟨hlro, hglob, -, hholds⟩ := hinv
  refine ⟨⟨hholds.congr fun r => ?_, ?_, ?_, ?_, ?_, ?_, ?_, ?_, ?_, h.scanned, h.enabled⟩, hlro,
    hglob⟩
  all_goals rw [destroyInterfaces, hlro]
  · cases r <;> simp [Owned, Res.charOf]
  exacts [h.msix, h.inUse, h.vector, h.noRegions, h.noBars, h.noEngines, h.noChars, h.line]

/-- Before the first device. -/
theorem Kept.madeTo (h : Kept board ans up s) (hok : EnginesOk s) (hup : up.chars = false)
    (hbegun : up.charsBegun = false) :
    MadeTo board ans { up with chars := true, charsBegun := true } createOrder s := by
  have hno := h.noChars hbegun
  refine ⟨⟨h.holds.congr fun r => ?_, h.msix, h.inUse, h.vector, h.noRegions, h.noBars, h.noEngines,
    fun hb => (nomatch hb), h.line, h.scanned, h.enabled⟩, hok, createOrder_nodup, fun y _ => hno y⟩
  cases r <;> simp [Owned, hup, hno]

theorem createInterfaces_ok (h : Kept board ans up s) (hok : EnginesOk s) (hup : up.chars = false)
    (hbegun : up.charsBegun = false) (hs : createInterfaces ans s = .ok s') :
    Kept board ans { up with chars := true, charsBegun := true } s' ∧ EnginesOk s' := by
  unfold createInterfaces at hs
  cases hloop : forEach (createInterface ans) createOrder s with
  | error t => simp [hloop] at hs
  | ok t =>
      simp only [hloop] at hs
      obtain rfl := Except.ok.inj hs
      have hinv := forEach_ok (MadeTo board ans { up with chars := true, charsBegun := true })
        (h.madeTo hok hup hbegun) (fun x rest t t' hI hx => createInterface_ok hI rfl rfl hx) hloop
      exact ⟨hinv.kept, hinv.ok⟩

/-- `create_interfaces` unwinds itself. -/
theorem createInterfaces_error (h : Kept board ans up s) (hok : EnginesOk s)
    (hup : up.chars = false) (hbegun : up.charsBegun = false)
    (herr : createInterfaces ans s = .error (s', rc)) :
    Kept board ans { up with charsBegun := true, chars := false } s' ∧ EnginesOk s' ∧ rc = -1 := by
  unfold createInterfaces at herr
  cases hloop : forEach (createInterface ans) createOrder s with
  | ok t => simp [hloop] at herr
  | error t =>
      simp only [hloop, Except.error.injEq, Prod.mk.injEq] at herr
      obtain ⟨rfl, rfl⟩ := herr
      obtain ⟨x, rest, t₁, -, hI, hx⟩ := forEach_error
        (MadeTo board ans { up with chars := true, charsBegun := true }) (h.madeTo hok hup hbegun)
        (fun x rest t t' hI hx => createInterface_ok hI rfl rfl hx) hloop
      have hmade := createInterface_error hI rfl rfl hx
      obtain ⟨hkept, hlro, hglob⟩ := destroyInterfaces_kept { up with charsBegun := true }
        hmade.kept
      refine ⟨hkept, hmade.ok.of_view ?_ ?_ ?_, rfl⟩
      all_goals first | rw [hlro] | rw [hglob]

end Destroy

/-! ## The numbers of a board -/

theorem freeInstance_spec (devPresent : Nat → Nat) (fuel i : Nat) (hi : i ≤ maxXdmaDevices)
    (hfuel : maxXdmaDevices < i + fuel) :
    freeInstance devPresent fuel i ≤ maxXdmaDevices ∧
      (freeInstance devPresent fuel i < maxXdmaDevices →
        devPresent (freeInstance devPresent fuel i) ≠ 1) := by
  induction fuel generalizing i with
  | zero => omega
  | succ fuel ih =>
      rw [freeInstance]
      split
      · next hused => exact ih (i + 1) hused.2 (by omega)
      · next hfree => exact ⟨hi, fun hlt hused => hfree ⟨hused, hlt⟩⟩

/-- The device fails with a number that is registered. -/
def FailsBehind (ans : Answers) (x : CharDev) : Prop :=
  (ans.char x).addRc < 0 ∨ (ans.char x).device = false

/-- The numbers that may be held while the devices in `rest` are still to come. -/
def Taken (ans : Answers) (rest : List CharDev) (s : State) : Number → Prop
  | .slot i => s.glob.devPresent i = 1
  | .region base count =>
      base = xdmaMinorBase ∧ count = xdmaMinorCount ∧ s.lro.major ≠ 0 ∨
        count = 1 ∧ ∃ x, x ∉ rest ∧ base = genDevMinor x ∧
          (s.lro.charDev x = true ∨ FailsBehind ans x)

section Numbers

variable {ans : Answers} {s t : State} {x : CharDev} {rest : List CharDev} {n : Number}

/-- No two devices have the same number. -/
theorem genDevMinor_injective : Function.Injective genDevMinor := by
  have hall : ∀ x ∈ destroyOrder, ∀ y ∈ destroyOrder, genDevMinor x = genDevMinor y → x = y := by
    decide +kernel
  exact fun x y h => hall x (mem_destroyOrder x) y (mem_destroyOrder y) h

/-- A board without a major number holds the numbers of single devices only. -/
theorem Taken.of_major (h : Taken ans rest s n) (hmajor : s.lro.major = 0) {i : Nat}
    (hglob : t.glob.devPresent = Function.update s.glob.devPresent i 1)
    (hchar : t.lro.charDev = s.lro.charDev) : Taken ans rest t n := by
  cases n with
  | slot j =>
      show t.glob.devPresent j = 1
      rw [hglob]
      by_cases hj : j = i
      · rw [hj]
        exact Function.update_self ..
      · exact (Function.update_of_ne hj _ _).trans h
  | region base count =>
      obtain ⟨-, -, hne⟩ | ⟨hcount, y, hy, hbase, hset⟩ := h
      · exact absurd hmajor hne
      · exact .inr ⟨hcount, y, hy, hbase, hchar ▸ hset⟩

theorem newInstance_within {dynMajor : Nat} (h : Within s.numbers (Taken ans rest s))
    (hs : newInstance dynMajor s = some t) :
    Within t.numbers (Taken ans rest t) ∧ t.lro.charDev = s.lro.charDev := by
  unfold newInstance at hs
  split at hs
  · next hmajor =>
    have hfree := freeInstance_spec s.glob.devPresent (maxXdmaDevices + 1) 0 (Nat.zero_le _)
      (by omega)
    revert hs hfree
    generalize freeInstance s.glob.devPresent (maxXdmaDevices + 1) 0 = i
    intro hs hfree
    dsimp only at hs
    split at hs
    · cases hs
    obtain rfl := Option.some.inj hs
    have hslot : ¬Taken ans rest s (.slot i) := hfree.2 (by omega)
    have hbook := h.acquire hslot
    unfold genDevMajor
    split
    · split
      · refine ⟨hbook.mono fun n hn => ?_, rfl⟩
        obtain hn | rfl := hn
        · exact hn.of_major hmajor rfl rfl
        · exact Function.update_self ..
      · next hdyn =>
        have hregion : ¬(Taken ans rest s (.region xdmaMinorBase xdmaMinorCount) ∨
            Number.region xdmaMinorBase xdmaMinorCount = .slot i) := by
          rintro ((⟨-, -, hne⟩ | ⟨hcount, -⟩) | heq)
          · exact hne hmajor
          · exact absurd hcount (by decide)
          · cases heq
        refine ⟨(hbook.acquire hregion).mono fun n hn => ?_, rfl⟩
        obtain (hn | rfl) | rfl := hn
        · exact hn.of_major hmajor rfl rfl
        · exact Function.update_self ..
        · exact .inl ⟨rfl, rfl, hdyn⟩
    · refine ⟨hbook.mono fun n hn => ?_, rfl⟩
      obtain hn | rfl := hn
      · exact hn.of_major hmajor rfl rfl
      · exact Function.update_self ..
  · obtain rfl := Option.some.inj hs
    exact ⟨h, rfl⟩

theorem Taken.congr (h : Taken ans rest s n) (hglob : t.glob = s.glob) (hlro : t.lro = s.lro) :
    Taken ans rest t n := by
  cases n with
  | slot i =>
      show t.glob.devPresent i = 1
      rw [hglob]
      exact h
  | region base count =>
      unfold Taken
      rw [hlro]
      exact h

/-- A device less is still to come. -/
theorem Taken.setChar (h : Taken ans (x :: rest) s n) (set : Bool) :
    Taken ans rest (s.setChar x set) n := by
  cases n with
  | slot i => exact h
  | region base count =>
      obtain hall | ⟨hcount, y, hy, hbase, hset⟩ := h
      · exact .inl hall
      · have hne : y ≠ x := fun heq => hy (heq ▸ List.mem_cons_self)
        refine .inr ⟨hcount, y, fun hin => hy (List.mem_cons_of_mem x hin), hbase, ?_⟩
        show Function.update s.lro.charDev x set y = true ∨ _
        rw [Function.update_of_ne hne]
        exact hset

theorem Taken.skip (h : Taken ans (x :: rest) s n) : Taken ans rest s n := by
  cases n with
  | slot i => exact h
  | region base count =>
      obtain hall | ⟨hcount, y, hy, hrest⟩ := h
      · exact .inl hall
      · exact .inr ⟨hcount, y, fun hin => hy (List.mem_cons_of_mem x hin), hrest⟩

theorem Taken.all (h : Taken ans rest s n) : Taken ans [] s n := by
  cases n with
  | slot i => exact h
  | region base count =>
      obtain hall | ⟨hcount, y, -, hrest⟩ := h
      · exact .inl hall
      · exact .inr ⟨hcount, y, List.not_mem_nil, hrest⟩

/-- The number of the device itself. -/
theorem taken_own (hx : x ∉ rest) {set : Bool} (hset : set = true ∨ FailsBehind ans x) :
    Taken ans rest (s.setChar x set) (.region (genDevMinor x) 1) := by
  refine .inr ⟨rfl, x, hx, rfl, hset.imp_left fun h => ?_⟩
  exact (Function.update_self ..).trans h

/-- The number of a device is free before it comes. -/
theorem not_taken_own : ¬Taken ans (x :: rest) s (.region (genDevMinor x) 1) := by
  rintro (⟨-, hcount, -⟩ | ⟨-, y, hy, hminor, -⟩)
  · exact absurd hcount (by decide)
  · exact hy (genDevMinor_injective hminor ▸ List.mem_cons_self)

/-- What `create_sg_char` leaves of the numbers. -/
theorem createSgChar_within (hx : x ∉ rest) (h : Within s.numbers (Taken ans (x :: rest) s)) :
    Within (createSgChar (ans.char x) x s).1.numbers
      (Taken ans rest ((createSgChar (ans.char x) x s).1.setChar x
        (createSgChar (ans.char x) x s).2)) := by
  unfold createSgChar
  split
  · exact h.mono fun n hn => hn.setChar false
  have hacquired : Within (s.acquire (.charMem x)).numbers
      (Taken ans (x :: rest) (s.acquire (.charMem x))) := h.mono fun n hn => hn.congr rfl rfl
  cases hnew : newInstance (ans.char x).dynMajor (s.acquire (.charMem x)) with
  | none =>
      simp only [hnew]
      exact h.mono fun n hn => (hn.setChar false).congr rfl rfl
  | some t =>
      obtain ⟨hwithin, -⟩ := newInstance_within hacquired hnew
      have hskip : Within t.numbers (Taken ans rest (t.setChar x false)) :=
        hwithin.mono fun n hn => hn.setChar false
      have hreg : ∀ set, (set = true ∨ FailsBehind ans x) →
          Within (if t.glob.major ≠ 0 then t.take (.region (genDevMinor x) 1) else t).numbers
            (Taken ans rest (State.setChar (if t.glob.major ≠ 0 then
              t.take (.region (genDevMinor x) 1) else t) x set)) := by
        intro set hset
        split
        · refine (hwithin.acquire not_taken_own).mono fun n hn => ?_
          obtain hn | rfl := hn
          · exact (hn.setChar set).congr rfl rfl
          · exact taken_own hx hset
        · exact hwithin.mono fun n hn => hn.setChar set
      simp only [hnew]
      split
      · exact hskip.mono fun n hn => hn.congr rfl rfl
      split
      · exact hskip.mono fun n hn => hn.congr rfl rfl
      split
      · next hadd =>
          exact ((hreg false (.inr (.inl hadd))).releaseHeld _).mono fun n hn => hn.1.congr rfl rfl
      split
      · next hdev =>
          exact ((hreg false (.inr (.inr hdev))).releaseHeld _).mono fun n hn => hn.1.congr rfl rfl
      · exact (hreg true (.inl rfl)).mono fun n hn => hn.congr rfl rfl

/-- The invariant of `create_interfaces`. -/
structure NumbersTo (ans : Answers) (rest : List CharDev) (s : State) : Prop where
  nodup : rest.Nodup
  within : Within s.numbers (Taken ans rest s)

theorem createInterface_numbers (h : NumbersTo ans (x :: rest) s) :
    (∀ t, createInterface ans x s = .ok t → NumbersTo ans rest t) ∧
      ∀ t, createInterface ans x s = .error t → NumbersTo ans rest t := by
  obtain ⟨hx, hrest⟩ := List.nodup_cons.1 h.nodup
  have hmade : NumbersTo ans rest ((createSgChar (ans.char x) x s).1.setChar x
      (createSgChar (ans.char x) x s).2) := ⟨hrest, createSgChar_within hx h.within⟩
  unfold createInterface
  split
  · dsimp only
    split
    · exact ⟨fun t ht => (by cases ht), fun t ht => Except.error.inj ht ▸ hmade⟩
    · exact ⟨fun t ht => Except.ok.inj ht ▸ hmade, fun t ht => (by cases ht)⟩
  · exact ⟨fun t ht => Except.ok.inj ht ▸ ⟨hrest, h.within.mono fun n hn => hn.skip⟩,
      fun t ht => (by cases ht)⟩

/-- The invariant of `destroy_interfaces`: what is left of the single numbers belongs to a device that
is still to come, or to one that failed. -/
def Remaining (ans : Answers) (rest : List CharDev) (s : State) : Number → Prop
  | .slot _ => True
  | .region base count =>
      count = xdmaMinorCount ∨ ∃ x, base = genDevMinor x ∧ count = 1 ∧
        (s.lro.charDev x = true ∧ x ∈ rest ∨ FailsBehind ans x)

theorem destroyInterfaces_numbers (h : Within s.numbers (Taken ans [] s)) :
    Within (destroyInterfaces s).numbers (Remaining ans [] s) := by
  refine (each_invariant (l := destroyOrder) (s := s)
    (b := fun x s => if s.lro.charDev x then destroySgChar x s else s)
    (fun rest t => t.lro = s.lro ∧ Within t.numbers (Remaining ans rest s))
    ⟨rfl, h.mono fun n hn => ?_⟩ ?_).2
  · cases n with
    | slot i => trivial
    | region base count =>
        obtain ⟨-, hcount, -⟩ | ⟨hcount, x, -, hbase, hset⟩ := hn
        · exact .inl hcount
        · exact .inr ⟨x, hbase, hcount, hset.imp_left fun hset => ⟨hset, mem_destroyOrder x⟩⟩
  · rintro x rest t ⟨hlro, hwithin⟩
    by_cases hset : t.lro.charDev x = true
    · rw [if_pos hset]
      refine ⟨hlro, (hwithin.releaseHeld (.region (genDevMinor x) 1)).mono fun n hn => ?_⟩
      cases n with
      | slot i => trivial
      | region base count =>
          obtain ⟨hcount | ⟨y, hbase, hcount, hy⟩, hne⟩ := hn
          · exact .inl hcount
          · refine .inr ⟨y, hbase, hcount, hy.imp_left fun ⟨hset, hmem⟩ => ⟨hset, ?_⟩⟩
            refine (List.mem_cons.1 hmem).resolve_left fun heq => hne ?_
            rw [hbase, hcount, heq]
    · rw [if_neg hset]
      refine ⟨hlro, hwithin.mono fun n hn => ?_⟩
      cases n with
      | slot i => trivial
      | region base count =>
          obtain hcount | ⟨y, hbase, hcount, hy⟩ := hn
          · exact .inl hcount
          · refine .inr ⟨y, hbase, hcount, hy.imp_left fun ⟨hset', hmem⟩ => ⟨hset', ?_⟩⟩
            refine (List.mem_cons.1 hmem).resolve_left fun heq => hset ?_
            rw [hlro, ← heq]
            exact hset'

/-- The numbers a board holds behind `create_interfaces`, when it had none before. -/
theorem createInterfaces_within (hfree : Within s.numbers fun _ => False) :
    (∀ t, createInterfaces ans s = .ok t → Within t.numbers (Taken ans [] t)) ∧
      ∀ t rc, createInterfaces ans s = .error (t, rc) →
        ∃ u, Within t.numbers (Remaining ans [] u) := by
  have hstart : NumbersTo ans createOrder s := ⟨createOrder_nodup, hfree.mono fun _ => False.elim⟩
  unfold createInterfaces
  cases hloop : forEach (createInterface ans) createOrder s with
  | ok u =>
      have hinv := forEach_ok (NumbersTo ans) hstart
        (fun x rest t t' hI hx => (createInterface_numbers hI).1 t' hx) hloop
      exact ⟨fun t ht => Except.ok.inj ht ▸ hinv.within, fun t rc ht => (by cases ht)⟩
  | error u =>
      obtain ⟨x, rest, v, -, hI, hx⟩ := forEach_error (NumbersTo ans) hstart
        (fun x rest t t' hI hx => (createInterface_numbers hI).1 t' hx) hloop
      have hinv := (createInterface_numbers hI).2 u hx
      refine ⟨fun t ht => (by cases ht), fun t rc ht => ?_⟩
      obtain rfl := congrArg Prod.fst (Except.error.inj ht)
      exact ⟨u, destroyInterfaces_numbers (hinv.within.mono fun n hn => hn.all)⟩

end Numbers

end Probe
end WzXdma
