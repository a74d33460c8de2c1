import WzXdma.Desc
import Mathlib.Logic.Function.Basic

/-!
# What the driver asks of the kernel

The allocators the driver calls, each with a table of the objects it has handed
out and not got back.  Objects are named by identifiers that are never used again,
so that a pointer to an object that was given back can be told from a pointer to
one that took its place.  What an allocation answers is a choice of the
environment, passed in by the caller.

Releasing something that is not held, or in the wrong order, is not an error the
kernel reports.  The tables record it as a `Fault`, and the routine goes on.
-/

namespace WzXdma

/-- What a release must not do, and a write outside of any object. -/
inductive Fault
  | freePages (page : Nat)
  | freedWhileMapped (page : Nat)
  | unmap (addr : DmaAddr)
  | descFree (desc : Nat) (bus : DmaAddr)
  | kfree (transfer : Nat)
  | vfree (copy : Nat)
  | strayWrite (desc index : Nat)
  deriving DecidableEq, Repr

/-- How a routine can end without returning. -/
inductive Crash
  | nullDeref
  | useAfterFree
  | outOfBounds
  | noFifo
  | bugOn
  | spin
  deriving DecidableEq, Repr

/-- A pointer that does not refer to an allocated object was followed. -/
def Crash.badPointer : Crash → Bool
  | .nullDeref => true
  | .useAfterFree => true
  | .outOfBounds => true
  | _ => false

/-- A page block from `alloc_pages`, and the address it is mapped at. -/
structure PageBlock where
  pfn : Nat
  mappedAt : Option DmaAddr
  deriving DecidableEq, Repr

/-- An array of descriptors from `dma_alloc_coherent`. -/
structure DescBlock where
  bus : DmaAddr
  descs : List XdmaDesc
  deriving DecidableEq, Repr

/-- `enum transfer_state` -/
inductive TransferState
  | new | submitted | completed | failed
  deriving DecidableEq, Repr

/-- `struct xdma_transfer`, the fields the cyclic transfers use.  `wz` tells the
transfer of `ioctl_do_wz_start` from that of `xdma_performance_submit`; it is not
a field of the source. -/
structure XdmaTransfer where
  descVirt : Nat
  descBus : DmaAddr
  descAdjacent : Nat
  descNum : Nat
  dirToDev : Bool
  sglNents : Nat
  cyclic : Bool
  state : TransferState
  wz : Bool
  deriving DecidableEq, Repr

structure Kernel where
  next : Nat
  pages : Nat → Option PageBlock
  mapAt : DmaAddr → Option Nat
  coherent : Nat → Option DescBlock
  transfers : Nat → Option XdmaTransfer
  copies : Nat → Option (Nat → XdmaDesc)
  faults : List Fault

namespace Kernel

/-- Nothing has been handed out. -/
def fresh : Kernel where
  next := 0
  pages := fun _ => none
  mapAt := fun _ => none
  coherent := fun _ => none
  transfers := fun _ => none
  copies := fun _ => none
  faults := []

def fault (k : Kernel) (f : Fault) : Kernel := { k with faults := k.faults ++ [f] }

/-! ## Page blocks and their mappings -/

/-- `alloc_pages`; the answer is the frame number of the first page. -/
def allocPages (k : Kernel) (answer : Option Nat) : Kernel × Option Nat :=
  match answer with
  | none => (k, none)
  | some pfn =>
      ({ k with next := k.next + 1
                pages := Function.update k.pages k.next (some ⟨pfn, none⟩) }, some k.next)

/-- `dma_map_page`.  An address that is in use is not given out again: the
mapping then fails, as it does when the answer is 0. -/
def dmaMapPage (k : Kernel) (page : Nat) (answer : DmaAddr) : Kernel × DmaAddr :=
  match k.pages page, k.mapAt answer with
  | some block, none =>
      if answer = 0 then (k, 0)
      else
        ({ k with pages := Function.update k.pages page (some { block with mappedAt := some answer })
                  mapAt := Function.update k.mapAt answer (some page) }, answer)
  | _, _ => (k, 0)

/-- `dma_unmap_page` -/
def dmaUnmapPage (k : Kernel) (addr : DmaAddr) : Kernel :=
  match k.mapAt addr with
  | none => k.fault (.unmap addr)
  | some page =>
      { k with
        mapAt := Function.update k.mapAt addr none
        pages := Function.update k.pages page
          ((k.pages page).map fun block => { block with mappedAt := none }) }

/-- `__free_pages` -/
def freePages (k : Kernel) (page : Nat) : Kernel :=
  match k.pages page with
  | none => k.fault (.freePages page)
  | some block =>
      let k' := { k with pages := Function.update k.pages page none }
      match block.mappedAt with
      | none => k'
      | some _ => k'.fault (.freedWhileMapped page)

/-! ## Descriptors -/

/-- What `dma_alloc_coherent` answers: the bus address, and what the memory holds. -/
structure CoherentMem where
  bus : DmaAddr
  junk : Nat → XdmaDesc

/-- `xdma_desc_alloc` for `number` descriptors -/
def xdmaDescAlloc (k : Kernel) (number : Nat) (answer : Option CoherentMem) :
    Option (Kernel × Nat × DmaAddr) :=
  answer.map fun mem =>
    ({ k with
       next := k.next + 1
       coherent := Function.update k.coherent k.next
         (some ⟨mem.bus, xdmaDescAllocContent number mem.bus mem.junk⟩) }, k.next, mem.bus)

/-- `xdma_desc_free`: the memory is given back with its bus address. -/
def xdmaDescFree (k : Kernel) (desc : Nat) (bus : DmaAddr) : Kernel :=
  match k.coherent desc with
  | none => k.fault (.descFree desc bus)
  | some block =>
      let k' := { k with coherent := Function.update k.coherent desc none }
      if block.bus = bus then k' else k'.fault (.descFree desc bus)

/-- Reading the descriptor at `desc_virt + index`. -/
def derefDesc (k : Kernel) (desc : Option Nat) (index : Nat) : Except Crash XdmaDesc :=
  match desc with
  | none => .error .nullDeref
  | some d =>
      match k.coherent d with
      | none => .error .useAfterFree
      | some block =>
          match block.descs[index]? with
          | none => .error .outOfBounds
          | some x => .ok x

/-- An assignment through `desc_virt + index`.  Through a dangling pointer or past
the end of the array it hits memory that belongs to nobody here. -/
def modifyDesc (k : Kernel) (desc : Option Nat) (index : Nat) (f : XdmaDesc → XdmaDesc) :
    Except Crash Kernel :=
  match desc with
  | none => .error .nullDeref
  | some d =>
      match k.coherent d with
      | none => .ok (k.fault (.strayWrite d index))
      | some block =>
          if index < block.descs.length then
            .ok { k with
                  coherent := Function.update k.coherent d
                    (some { block with descs := block.descs.modify index f }) }
          else .ok (k.fault (.strayWrite d index))

/-! ## Transfers and the copies of the descriptors -/

/-- `kzalloc(sizeof(struct xdma_transfer))`; the fields are set by the caller. -/
def kzallocTransfer (k : Kernel) (answer : Bool) (t : XdmaTransfer) : Kernel × Option Nat :=
  if answer then
    ({ k with next := k.next + 1, transfers := Function.update k.transfers k.next (some t) },
      some k.next)
  else (k, none)

/-- `kfree` of a transfer -/
def kfreeTransfer (k : Kernel) (t : Nat) : Kernel :=
  match k.transfers t with
  | none => k.fault (.kfree t)
  | some _ => { k with transfers := Function.update k.transfers t none }

/-- `vmalloc` of the copies of the descriptors -/
def vmallocCopy (k : Kernel) (answer : Option (Nat → XdmaDesc)) : Kernel × Option Nat :=
  match answer with
  | none => (k, none)
  | some junk =>
      ({ k with next := k.next + 1, copies := Function.update k.copies k.next (some junk) },
        some k.next)

/-- `vfree` of the copies -/
def vfreeCopy (k : Kernel) (v : Nat) : Kernel :=
  match k.copies v with
  | none => k.fault (.vfree v)
  | some _ => { k with copies := Function.update k.copies v none }

/-- The assignment `desc_copy[i] = d`. -/
def storeCopy (k : Kernel) (copy : Option Nat) (i : Nat) (d : XdmaDesc) : Except Crash Kernel :=
  match copy with
  | none => .error .nullDeref
  | some v =>
      match k.copies v with
      | none => .error .useAfterFree
      | some arr => .ok { k with copies := Function.update k.copies v (some (Function.update arr i d)) }

/-! ## What a call leaves alone

A release empties the entry of its object whether or not it was held, and the
fault only goes to the log. -/

section Effects

variable (k : Kernel)

@[simp] theorem fault_next (f : Fault) : (k.fault f).next = k.next := rfl
@[simp] theorem fault_pages (f : Fault) : (k.fault f).pages = k.pages := rfl
@[simp] theorem fault_mapAt (f : Fault) : (k.fault f).mapAt = k.mapAt := rfl
@[simp] theorem fault_coherent (f : Fault) : (k.fault f).coherent = k.coherent := rfl
@[simp] theorem fault_transfers (f : Fault) : (k.fault f).transfers = k.transfers := rfl
@[simp] theorem fault_copies (f : Fault) : (k.fault f).copies = k.copies := rfl
@[simp] theorem fault_faults (f : Fault) : (k.fault f).faults = k.faults ++ [f] := rfl

theorem xdmaDescFree_eq (x : Nat) (bus : DmaAddr) :
    ∃ fs, k.xdmaDescFree x bus =
      { k with coherent := Function.update k.coherent x none, faults := fs } := by
  unfold xdmaDescFree
  cases hx : k.coherent x with
  | none =>
      refine ⟨k.faults ++ [.descFree x bus], ?_⟩
      have : Function.update k.coherent x none = k.coherent := by rw [← hx, Function.update_eq_self]
      simp only [fault, this]
  | some block =>
      by_cases hb : block.bus = bus
      · exact ⟨k.faults, by simp only [if_pos hb]⟩
      · exact ⟨k.faults ++ [.descFree x bus], by simp only [if_neg hb]; rfl⟩

theorem freePages_eq (p : Nat) :
    ∃ fs, k.freePages p = { k with pages := Function.update k.pages p none, faults := fs } := by
  unfold freePages
  cases hp : k.pages p with
  | none =>
      refine ⟨k.faults ++ [.freePages p], ?_⟩
      have : Function.update k.pages p none = k.pages := by rw [← hp, Function.update_eq_self]
      simp only [fault, this]
  | some block =>
      cases hm : block.mappedAt with
      | none => exact ⟨k.faults, by simp only [hm]⟩
      | some a => exact ⟨k.faults ++ [.freedWhileMapped p], by simp only [hm]; rfl⟩

theorem kfreeTransfer_eq (t : Nat) :
    ∃ fs, k.kfreeTransfer t =
      { k with transfers := Function.update k.transfers t none, faults := fs } := by
  unfold kfreeTransfer
  cases ht : k.transfers t with
  | none =>
      refine ⟨k.faults ++ [.kfree t], ?_⟩
      have : Function.update k.transfers t none = k.transfers := by
        rw [← ht, Function.update_eq_self]
      simp only [fault, this]
  | some _ => exact ⟨k.faults, rfl⟩

theorem vfreeCopy_eq (v : Nat) :
    ∃ fs, k.vfreeCopy v = { k with copies := Function.update k.copies v none, faults := fs } := by
  unfold vfreeCopy
  cases hv : k.copies v with
  | none =>
      refine ⟨k.faults ++ [.vfree v], ?_⟩
      have : Function.update k.copies v none = k.copies := by rw [← hv, Function.update_eq_self]
      simp only [fault, this]
  | some _ => exact ⟨k.faults, rfl⟩

/-- A write through a descriptor pointer changes the contents of one array. -/
theorem modifyDesc_ok {x : Option Nat} {index : Nat} {f : XdmaDesc → XdmaDesc} {k k' : Kernel}
    (h : k.modifyDesc x index f = .ok k') :
    ∃ y, x = some y ∧
      ((∃ block, k.coherent y = some block ∧ index < block.descs.length ∧
          k' = { k with
                 coherent := Function.update k.coherent y
                   (some { block with descs := block.descs.modify index f }) }) ∨
        (∀ block, k.coherent y = some block → block.descs.length ≤ index) ∧
          k' = k.fault (.strayWrite y index)) := by
  cases x with
  | none => simp [modifyDesc] at h
  | some y =>
      refine ⟨y, rfl, ?_⟩
      unfold modifyDesc at h
      cases hy : k.coherent y with
      | none =>
          simp only [hy, Except.ok.injEq] at h
          exact .inr ⟨fun block hb => (by cases hb), h.symm⟩
      | some block =>
          simp only [hy] at h
          by_cases hi : index < block.descs.length
          · rw [if_pos hi, Except.ok.injEq] at h
            exact .inl ⟨block, rfl, hi, h.symm⟩
          · rw [if_neg hi, Except.ok.injEq] at h
            refine .inr ⟨fun block' hb => ?_, h.symm⟩
            rw [← Option.some.inj hb]
            omega

end Effects

end Kernel
end WzXdma
