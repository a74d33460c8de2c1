import WzXdma.Sgm

/-!
# Building a transfer

`transfer_create` turns a buffer into a chain of descriptors: it makes the scatterlist of the
buffer, maps it, allocates one descriptor for each entry and lets `transfer_build` fill as
many of them as are left after neighbouring entries are merged.

The 32-bit counters of the source are reduced where they are added to.
-/

namespace WzXdma

open Lib Lib.Runs

/-- `XDMA_DESC_MAX_BYTES` -/
def xdmaDescMaxBytes : Nat := 2 ^ 18 - 1

/-- `XDMA_TRANSFER_MAX_BYTES` -/
def xdmaTransferMaxBytes : Nat := 2048 * 4096

def xdmaDescEop : Word := 0x10

/-- `xdma_desc_adjacent` -/
def xdmaDescAdjacent (desc : XdmaDesc) (nextAdjacent : Nat) : XdmaDesc :=
  let control := desc.control &&& 0x0000f0ff
  let maxAdj4k := ((0x1000 - (desc.nextLo &&& 0xFFF).toNat) / 32 + 2 ^ 32 - 1) % 2 ^ 32
  let extraAdj := if 0 < nextAdjacent then min (min (nextAdjacent - 1) maxExtraAdj) maxAdj4k else 0
  { desc with control := control ||| descMagic ||| (BitVec.ofNat 32 extraAdj <<< 8) }

/-- The arguments of `transfer_build` that do not change in its loop. -/
structure BuildMode where
  dirToDev : Bool
  nonIncrAddr : Bool
  forceNewDesc : Bool
  userspace : Bool
  deriving DecidableEq, Repr

/-- `xdma_desc_set(transfer->desc_virt + j, ...)` -/
def setDesc (mode : BuildMode) (j : Nat) (contAddr epAddr : DmaAddr) (contLen : Nat)
    (descs : List XdmaDesc) : List XdmaDesc :=
  descs.modify j (xdmaDescSet · contAddr epAddr (BitVec.ofNat 32 contLen) mode.dirToDev)

/-- The loop of `transfer_build` from an entry on, with the block that is being collected and
the descriptor `j` it goes to.  It returns the index of the last descriptor. -/
def transferBuildLoop (mode : BuildMode) :
    List (Seg DmaAddr) → Nat → DmaAddr → Nat → DmaAddr → List XdmaDesc → List XdmaDesc × Nat
  | [], j, _, _, _, descs => (descs, j)
  | [entry], j, contAddr, contLen, epAddr, descs =>
      -- the last entry goes to the last block
      let contLen := (contLen + entry.len) % 2 ^ 32
      (setDesc mode j contAddr epAddr contLen descs, j)
  | entry :: next :: rest, j, contAddr, contLen, epAddr, descs =>
      let contLen := (contLen + entry.len) % 2 ^ 32
      if next.start ≠ entry.start + BitVec.ofNat 64 entry.len ∨
          xdmaDescMaxBytes - pageSize < contLen ∨ (mode.forceNewDesc = true ∧ mode.userspace = false)
      then
        -- for non-incremental addressing the device address stays
        let epAddr' := if mode.userspace && mode.nonIncrAddr then epAddr
          else epAddr + BitVec.ofNat 64 contLen
        transferBuildLoop mode (next :: rest) (j + 1) next.start 0 epAddr'
          (setDesc mode j contAddr epAddr contLen descs)
      else transferBuildLoop mode (next :: rest) j contAddr contLen epAddr descs

/-- `transfer_build` -/
def transferBuild (mode : BuildMode) (sgl : List (Seg DmaAddr)) (epAddr : DmaAddr)
    (descs : List XdmaDesc) : List XdmaDesc × Nat :=
  transferBuildLoop mode sgl 0 ((sgl.head?.map Seg.start).getD 0) 0 epAddr descs

/-- What `transfer_create` does to the descriptors it allocated, and how many it uses.  Without
`XDMA_PERFORMANCE_TEST` the last descriptor is terminated in the same way for user and kernel
buffers. -/
def createDescs (mode : BuildMode) (sgl : List (Seg DmaAddr)) (epAddr : DmaAddr)
    (descs : List XdmaDesc) : List XdmaDesc × Nat :=
  let (descs, last) := transferBuild mode sgl epAddr descs
  let descs := descs.modify last fun x =>
    xdmaDescControl (xdmaDescLink x none) (xdmaDescStopped ||| xdmaDescEop ||| xdmaDescCompleted)
  let descNum := last + 1
  (descs.mapIdx fun i x => if i < descNum then xdmaDescAdjacent x (descNum - i - 1) else x, descNum)

/-- What the calls that `transfer_create` makes answer. -/
structure CreateEnv where
  /-- `kzalloc` of the transfer -/
  transfer : Bool
  /-- `sg_create_mapper` -/
  mapper : Bool
  /-- all pages of the buffer were obtained -/
  pages : Bool
  /-- the bus addresses of the pages -/
  dma : Nat → DmaAddr
  /-- `dma_alloc_coherent` of the descriptors -/
  coherent : Option Kernel.CoherentMem

namespace Kernel

/-- `transfer_create` -/
def transferCreate (k : Kernel) (env : CreateEnv) (start cnt : Nat) (epAddr : DmaAddr)
    (mode : BuildMode) : Except Crash (Kernel × Option Nat) :=
  if env.transfer = false then .ok (k, none)
  else if env.mapper = false ∨ cnt = 0 then .error .bugOn
  else
    let maxPages := sgCreateMapper cnt
    match if mode.userspace then sgmGetUserPages maxPages start cnt env.pages
        else sgmKernelPages maxPages start cnt env.pages with
    | .error e => .error e
    | .ok (rc, sgl) =>
        if rc < 0 then .error .bugOn
        else if rc = 0 then .error .bugOn
        else
          let sgl := pciMapSg env.dma sgl
          match k.xdmaDescAlloc sgl.length env.coherent with
          | none => .error .nullDeref
          | some (k, x, bus) =>
              let built := fun block : DescBlock => createDescs mode sgl epAddr block.descs
              let descNum := ((k.coherent x).map fun block => (built block).2).getD 0
              let k : Kernel := { k with
                coherent := Function.update k.coherent x
                  ((k.coherent x).map fun block => { block with descs := (built block).1 }) }
              .ok (k.kzallocTransfer true
                { descVirt := x, descBus := bus, descAdjacent := descNum, descNum := descNum,
                  dirToDev := mode.dirToDev, sglNents := sgl.length, cyclic := false,
                  state := .new, wz := false })

/-- `transfer_destroy`, as far as the descriptors and the transfer itself go. -/
def transferDestroy (k : Kernel) (t : Nat) : Except Crash Kernel :=
  match k.transfers t with
  | none => .error .useAfterFree
  | some transfer => .ok ((k.xdmaDescFree transfer.descVirt transfer.descBus).kfreeTransfer t)

end Kernel

/-! ## What a descriptor moves -/

/-- The bytes a descriptor moves, as pairs of a host address and a device address. -/
def XdmaDesc.moves (d : XdmaDesc) (dirToDev : Bool) : Seg (DmaAddr × DmaAddr) :=
  ⟨if dirToDev then (d.src, d.dst) else (d.dst, d.src), d.bytes.toNat⟩

theorem moves_xdmaDescSet (d : XdmaDesc) (contAddr epAddr : DmaAddr) {len : Nat}
    (hlen : len < 2 ^ 32) (dirToDev : Bool) :
    (xdmaDescSet d contAddr epAddr (BitVec.ofNat 32 len) dirToDev).moves dirToDev =
      ⟨(contAddr, epAddr), len⟩ := by
  have hbytes : (BitVec.ofNat 32 len).toNat = len := by
    rw [BitVec.toNat_ofNat, Nat.mod_eq_of_lt hlen]
  cases dirToDev <;>
    simp [xdmaDescSet, XdmaDesc.moves, XdmaDesc.src, XdmaDesc.dst, addrOf_pciDma, hbytes]

/-- The chain and the control word are no part of it. -/
theorem moves_xdmaDescLink (d : XdmaDesc) (second : Option DmaAddr) (dirToDev : Bool) :
    (xdmaDescLink d second).moves dirToDev = d.moves dirToDev := by
  cases second <;> rfl

theorem moves_xdmaDescControl (d : XdmaDesc) (field : Word) (dirToDev : Bool) :
    (xdmaDescControl d field).moves dirToDev = d.moves dirToDev := rfl

theorem moves_xdmaDescAdjacent (d : XdmaDesc) (n : Nat) (dirToDev : Bool) :
    (xdmaDescAdjacent d n).moves dirToDev = d.moves dirToDev := rfl

/-! ## What the loop writes -/

theorem length_setDesc (mode : BuildMode) (j : Nat) (contAddr epAddr : DmaAddr) (contLen : Nat)
    (descs : List XdmaDesc) : (setDesc mode j contAddr epAddr contLen descs).length = descs.length :=
  List.length_modify ..

theorem setDesc_getElem_of_ne {mode : BuildMode} {j i : Nat} (hij : i ≠ j) (contAddr epAddr : DmaAddr)
    (contLen : Nat) (descs : List XdmaDesc) :
    (setDesc mode j contAddr epAddr contLen descs)[i]? = descs[i]? := by
  rw [setDesc, List.getElem?_modify_ne _ _ (Ne.symm hij)]

theorem setDesc_moves {mode : BuildMode} {j : Nat} {descs : List XdmaDesc} (hj : j < descs.length)
    (contAddr epAddr : DmaAddr) {contLen : Nat} (hlen : contLen < 2 ^ 32) :
    (setDesc mode j contAddr epAddr contLen descs)[j]?.map (·.moves mode.dirToDev) =
      some ⟨(contAddr, epAddr), contLen⟩ := by
  rw [setDesc, List.getElem?_modify_eq, List.getElem?_eq_getElem hj]
  simp only [Option.map_some, Functor.map]
  rw [moves_xdmaDescSet _ _ _ hlen]

/-- The loop does not touch the descriptors before `j`, nor the number of them. -/
theorem transferBuildLoop_below (mode : BuildMode) (segs : List (Seg DmaAddr)) (j : Nat)
    (contAddr : DmaAddr) (contLen : Nat) (epAddr : DmaAddr) (descs : List XdmaDesc) :
    (transferBuildLoop mode segs j contAddr contLen epAddr descs).1.length = descs.length ∧
      ∀ i, i < j →
        (transferBuildLoop mode segs j contAddr contLen epAddr descs).1[i]? = descs[i]? := by
  induction segs generalizing j contAddr contLen epAddr descs with
  | nil => exact ⟨rfl, fun _ _ => rfl⟩
  | cons entry rest ih =>
      cases rest with
      | nil =>
          exact ⟨length_setDesc .., fun i hi => setDesc_getElem_of_ne (Nat.ne_of_lt hi) ..⟩
      | cons next rest =>
          rw [transferBuildLoop]
          dsimp only
          split
          · obtain ⟨hlen, hbelow⟩ := ih (j + 1) next.start 0 _
              (setDesc mode j contAddr epAddr ((contLen + entry.len) % 2 ^ 32) descs)
            refine ⟨hlen.trans (length_setDesc ..), fun i hi => ?_⟩
            rw [hbelow i (Nat.lt_succ_of_lt hi), setDesc_getElem_of_ne (Nat.ne_of_lt hi)]
          · exact ih j contAddr _ epAddr descs

/-- The descriptors of a transfer, as `desc_virt` and `desc_num` give them. -/
def Kernel.transferDescs (k : Kernel) (t : Nat) : List XdmaDesc :=
  ((k.transfers t).bind fun transfer =>
    (k.coherent transfer.descVirt).map fun block => block.descs.take transfer.descNum).getD []

theorem length_xdmaDescFill (junk : Nat → XdmaDesc) (todo i adj : Nat) (bus : DmaAddr) :
    (xdmaDescFill junk todo i adj bus).length = todo + 1 := by
  induction todo generalizing i adj bus with
  | zero => rfl
  | succ todo ih => rw [xdmaDescFill, List.length_cons, ih]

theorem length_xdmaDescAllocContent {number : Nat} (h : 0 < number) (bus : DmaAddr)
    (junk : Nat → XdmaDesc) : (xdmaDescAllocContent number bus junk).length = number := by
  rw [xdmaDescAllocContent, length_xdmaDescFill]
  omega

/-- Nothing that `transfer_create` asks for is refused. -/
structure CreateEnv.Granted (env : CreateEnv) : Prop where
  transfer : env.transfer = true
  mapper : env.mapper = true
  pages : env.pages = true
  coherent : env.coherent.isSome = true

/-- Both ways to obtain the pages make the same table. -/
theorem createPages_eq (mode : BuildMode) {start cnt : Nat} {got : Bool} {rc : Int}
    {sgl : List Scatterlist} (h : sgmPages (sgCreateMapper cnt) start cnt got = .ok (rc, sgl)) :
    (if mode.userspace = true then sgmGetUserPages (sgCreateMapper cnt) start cnt got
      else sgmKernelPages (sgCreateMapper cnt) start cnt got) = .ok (rc, sgl) := by
  split <;> exact h

/-- When nothing is refused there is a transfer, with the descriptors that are made of its table. -/
theorem transferCreate_of_pages {env : CreateEnv} (henv : env.Granted) (mode : BuildMode)
    {start cnt nrPages : Nat} {sgl : List Scatterlist} (hcnt : 0 < cnt) (hnr : 0 < nrPages)
    (hlen : sgl.length = nrPages)
    (hsgl : sgmPages (sgCreateMapper cnt) start cnt true = .ok ((nrPages : Int), sgl)) (k : Kernel)
    (epAddr : DmaAddr) :
    ∃ k' t transfer descs, k.transferCreate env start cnt epAddr mode = .ok (k', some t) ∧
      k'.transfers t = some transfer ∧ transfer.state = .new ∧ descs.length = nrPages ∧
      k'.transferDescs t = (createDescs mode (pciMapSg env.dma sgl) epAddr descs).1.take
        (createDescs mode (pciMapSg env.dma sgl) epAddr descs).2 := by
  obtain ⟨mem, hmem⟩ := Option.isSome_iff_exists.mp henv.coherent
  have hlen' : (pciMapSg env.dma sgl).length = nrPages := by rw [pciMapSg, List.length_map, hlen]
  have hneg : ¬(nrPages : Int) < 0 := by omega
  have hzero : ¬(nrPages : Int) = 0 := by omega
  have hcnt' : ¬cnt = 0 := by omega
  simp only [Kernel.transferCreate, henv.transfer, henv.mapper, henv.pages, hcnt',
    createPages_eq mode hsgl, hneg, hzero, hmem, Kernel.xdmaDescAlloc, Option.map_some,
    Function.update_self, Option.getD_some, Kernel.kzallocTransfer, hlen', if_true, if_false,
    reduceCtorEq, or_false]
  refine ⟨_, _, _, xdmaDescAllocContent nrPages mem.bus mem.junk, rfl, Function.update_self .., rfl,
    length_xdmaDescAllocContent hnr .., ?_⟩
  simp only [Kernel.transferDescs, Function.update_self, Option.map_some, Option.bind_some,
    Option.getD_some]

/-- In every mode there is a transfer if nothing is refused. -/
theorem transferCreate_granted {env : CreateEnv} (henv : env.Granted) (mode : BuildMode)
    {start cnt : Nat} (hcnt : 0 < cnt) (hspace : start + cnt < 2 ^ 64) (k : Kernel) (epAddr : DmaAddr) :
    ∃ k' t, k.transferCreate env start cnt epAddr mode = .ok (k', some t) := by
  obtain ⟨nrPages, sgl, hsgl, hnr, hlen, -⟩ := @sgmPages_describes env.dma start cnt hcnt hspace
  obtain ⟨k', t, -, -, hcreate, -⟩ := transferCreate_of_pages henv mode hcnt hnr hlen hsgl k epAddr
  exact ⟨k', t, hcreate⟩

/-- Whatever is refused, there is no transfer. -/
theorem granted_of_transferCreate {env : CreateEnv} {mode : BuildMode} {start cnt : Nat}
    {epAddr : DmaAddr} {k k' : Kernel} {t : Nat}
    (h : k.transferCreate env start cnt epAddr mode = .ok (k', some t)) : env.Granted := by
  unfold Kernel.transferCreate at h
  split at h
  · cases h
  · rename_i htransfer
    split at h
    · cases h
    · rename_i hmapper
      dsimp only at h
      split at h
      · cases h
      · rename_i rc sgl hsgl
        split at h
        · cases h
        · rename_i hneg
          split at h
          · cases h
          · rename_i hzero
            split at h
            · cases h
            · rename_i k₁ x bus hdesc
              refine ⟨by simpa using htransfer, by simpa using fun hm => hmapper (.inl hm), ?_, ?_⟩
              · have hpages : sgmPages (sgCreateMapper cnt) start cnt env.pages = .ok (rc, sgl) := by
                  cases hu : mode.userspace <;> simpa [hu, sgmGetUserPages, sgmKernelPages] using hsgl
                exact got_of_sgmPages hpages (by omega)
              · cases hc : env.coherent with
                | none => simp [Kernel.xdmaDescAlloc, hc] at hdesc
                | some mem => rfl

/-- The new transfer has an identifier of its own, and the others stay as they are. -/
theorem transferCreate_transfers {env : CreateEnv} {mode : BuildMode} {start cnt : Nat}
    {epAddr : DmaAddr} {k k' : Kernel} {made : Option Nat}
    (h : k.transferCreate env start cnt epAddr mode = .ok (k', made)) :
    made = none ∧ k' = k ∨
      ∃ t transfer, made = some t ∧ k.next ≤ t ∧ t < k'.next ∧
        k'.transfers = Function.update k.transfers t (some transfer) := by
  unfold Kernel.transferCreate at h
  split at h
  · cases h
    exact .inl ⟨rfl, rfl⟩
  · split at h
    · cases h
    · dsimp only at h
      split at h
      · cases h
      · split at h
        · cases h
        · split at h
          · cases h
          · split at h
            · cases h
            · rename_i k₁ x bus hdesc
              obtain ⟨mem, -, hk₁⟩ := Option.map_eq_some_iff.mp hdesc
              simp only [Kernel.kzallocTransfer, if_true, Except.ok.injEq, Prod.mk.injEq] at h
              obtain ⟨rfl, rfl⟩ := h
              have hnext : k₁.next = k.next + 1 := (congrArg (·.1.next) hk₁).symm
              have htransfers : k₁.transfers = k.transfers := (congrArg (·.1.transfers) hk₁).symm
              exact .inr ⟨k₁.next, _, rfl, by omega, Nat.lt_succ_self _,
                congrArg (Function.update · k₁.next _) htransfers⟩

theorem transferDestroy_transfers {k k' : Kernel} {t : Nat} (h : k.transferDestroy t = .ok k') :
    k'.transfers = Function.update k.transfers t none ∧ k'.next = k.next := by
  unfold Kernel.transferDestroy at h
  split at h
  · cases h
  · cases h
    obtain ⟨fs, hfree⟩ := k.xdmaDescFree_eq _ _
    obtain ⟨fs', hkfree⟩ := Kernel.kfreeTransfer_eq (k.xdmaDescFree _ _) t
    rw [hkfree, hfree]
    exact ⟨rfl, rfl⟩

end WzXdma
