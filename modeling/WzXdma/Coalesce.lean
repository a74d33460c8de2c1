import WzXdma.Transfer

/-!
# How `transfer_build` merges entries

The loop decides at each entry whether the next one goes on in the same block, from the address of
that one and from the length collected so far.  What comes out is a division of the entries into
runs, one for each descriptor.
-/

namespace WzXdma

open Lib Lib.Runs

/-- The next entry goes on where this one ends. -/
def GoesOn (entry next : Seg DmaAddr) : Prop := next.start = entry.start + BitVec.ofNat 64 entry.len

/-- Where a run starts. -/
def runStart (run : List (Seg DmaAddr)) : DmaAddr := (run.head?.map Seg.start).getD 0

/-- The device address of a block that has `before` bytes of the transfer in front of it. -/
def BuildMode.epAddr (mode : BuildMode) (epAddr : DmaAddr) (before : Nat) : DmaAddr :=
  if mode.userspace && mode.nonIncrAddr then epAddr else epAddr + BitVec.ofNat 64 before

/-- Why `run` ends before `next`: the addresses do not go on, there is no room for a whole page,
or every entry has its own descriptor. -/
def Breaks (mode : BuildMode) (run next : List (Seg DmaAddr)) : Prop :=
  (∀ a ∈ run.getLast?, ∀ b ∈ next.head?, ¬GoesOn a b) ∨ xdmaDescMaxBytes - pageSize < total run ∨
    (mode.forceNewDesc = true ∧ mode.userspace = false)

/-- Descriptors `j` to `last` are those of the runs, and the runs are `entries`. -/
structure Coalesced (mode : BuildMode) (entries : List (Seg DmaAddr)) (epAddr : DmaAddr)
    (descs : List XdmaDesc) (j last : Nat) (runs : List (List (Seg DmaAddr))) : Prop where
  flatten : runs.flatten = entries
  last : last + 1 = j + runs.length
  nonempty : ∀ run ∈ runs, run ≠ []
  contiguous : ∀ run ∈ runs, run.IsChain GoesOn
  limit : ∀ run ∈ runs, total run ≤ xdmaDescMaxBytes
  descs : ∀ k run, runs[k]? = some run → descs[j + k]?.map (·.moves mode.dirToDev) =
    some ⟨(runStart run, mode.epAddr epAddr (total (runs.take k).flatten)), total run⟩
  breaks : runs.IsChain (Breaks mode)
  forced : mode.forceNewDesc = true → mode.userspace = false → ∀ run ∈ runs, run.length = 1

namespace Coalesced

variable {mode : BuildMode} {entries : List (Seg DmaAddr)} {epAddr : DmaAddr} {descs : List XdmaDesc}
  {j last : Nat} {runs : List (List (Seg DmaAddr))}

theorem epAddr_zero (mode : BuildMode) (epAddr : DmaAddr) : mode.epAddr epAddr 0 = epAddr := by
  unfold BuildMode.epAddr
  split
  · rfl
  · exact BitVec.add_zero epAddr

theorem epAddr_add (mode : BuildMode) (epAddr : DmaAddr) (m n : Nat) :
    mode.epAddr (mode.epAddr epAddr m) n = mode.epAddr epAddr (m + n) := by
  unfold BuildMode.epAddr
  split
  · rfl
  · rw [BitVec.add_assoc, BitVec.ofNat_add]

/-- The first run starts with the first entry. -/
theorem head_of_flatten (hne : ∀ run ∈ runs, run ≠ []) {entry : Seg DmaAddr}
    {rest : List (Seg DmaAddr)} (hflat : runs.flatten = entry :: rest) :
    ∃ run tail, runs = run :: tail ∧ run.head? = some entry := by
  cases runs with
  | nil => cases hflat
  | cons run tail =>
      cases run with
      | nil => exact absurd rfl (hne [] List.mem_cons_self)
      | cons x xs =>
          rw [List.flatten_cons, List.cons_append, List.cons.injEq] at hflat
          exact ⟨x :: xs, tail, rfl, by rw [hflat.1]; rfl⟩

/-- The block that is finished, in front of the runs that follow. -/
theorem cons {acc : List (Seg DmaAddr)} {entry next : Seg DmaAddr} {rest : List (Seg DmaAddr)}
    (h : Coalesced mode (next :: rest) (mode.epAddr epAddr (total (acc ++ [entry]))) descs (j + 1) last
      runs)
    (hchain : (acc ++ [entry]).IsChain GoesOn) (hlimit : total (acc ++ [entry]) ≤ xdmaDescMaxBytes)
    (hdesc : descs[j]?.map (·.moves mode.dirToDev) =
      some ⟨(runStart (acc ++ [entry]), epAddr), total (acc ++ [entry])⟩)
    (hbreak : ¬GoesOn entry next ∨ xdmaDescMaxBytes - pageSize < total (acc ++ [entry]) ∨
      (mode.forceNewDesc = true ∧ mode.userspace = false))
    (hforced : mode.forceNewDesc = true → mode.userspace = false → acc = []) :
    Coalesced mode (acc ++ entry :: next :: rest) epAddr descs j last ((acc ++ [entry]) :: runs) where
  flatten := by
    rw [List.flatten_cons, h.flatten]
    simp
  last := by
    rw [h.last, List.length_cons]
    omega
  nonempty := List.forall_mem_cons.mpr ⟨by simp, h.nonempty⟩
  contiguous := List.forall_mem_cons.mpr ⟨hchain, h.contiguous⟩
  limit := List.forall_mem_cons.mpr ⟨hlimit, h.limit⟩
  descs := by
    intro k run hk
    cases k with
    | zero =>
        obtain rfl : acc ++ [entry] = run := Option.some.inj hk
        rw [List.take_zero, List.flatten_nil, total_nil, epAddr_zero]
        exact hdesc
    | succ k =>
        rw [show j + (k + 1) = j + 1 + k by omega, h.descs k run hk, epAddr_add, List.take_succ_cons,
          List.flatten_cons, total_append (acc ++ [entry])]
  breaks := by
    obtain ⟨run, tail, rfl, hhead⟩ := head_of_flatten h.nonempty h.flatten
    refine List.isChain_cons_cons.mpr ⟨?_, h.breaks⟩
    rcases hbreak with hgap | hrest
    · refine .inl fun a ha b hb => ?_
      rw [hhead, Option.mem_def, Option.some.injEq] at hb
      rw [List.getLast?_concat, Option.mem_def, Option.some.injEq] at ha
      rw [← ha, ← hb]
      exact hgap
    · exact .inr hrest
  forced := by
    intro hforce hkernel
    refine List.forall_mem_cons.mpr ⟨?_, h.forced hforce hkernel⟩
    rw [hforced hforce hkernel]
    rfl

/-- The last block. -/
theorem single {acc : List (Seg DmaAddr)} {entry : Seg DmaAddr}
    (hchain : (acc ++ [entry]).IsChain GoesOn) (hlimit : total (acc ++ [entry]) ≤ xdmaDescMaxBytes)
    (hdesc : descs[j]?.map (·.moves mode.dirToDev) =
      some ⟨(runStart (acc ++ [entry]), epAddr), total (acc ++ [entry])⟩)
    (hforced : mode.forceNewDesc = true → mode.userspace = false → acc = []) :
    Coalesced mode (acc ++ [entry]) epAddr descs j j [acc ++ [entry]] where
  flatten := by simp
  last := rfl
  nonempty := List.forall_mem_singleton.mpr (by simp)
  contiguous := List.forall_mem_singleton.mpr hchain
  limit := List.forall_mem_singleton.mpr hlimit
  descs := by
    intro k run hk
    cases k with
    | zero =>
        obtain rfl : acc ++ [entry] = run := Option.some.inj hk
        rw [List.take_zero, List.flatten_nil, total_nil, epAddr_zero]
        exact hdesc
    | succ k => cases hk
  breaks := List.isChain_singleton _
  forced := by
    intro hforce hkernel
    rw [hforced hforce hkernel]
    exact List.forall_mem_singleton.mpr rfl

/-- Each run takes at least one entry. -/
theorem length_le (h : Coalesced mode entries epAddr descs j last runs) :
    runs.length ≤ entries.length := by
  rw [← h.flatten]
  have hne := h.nonempty
  clear h
  induction runs with
  | nil => exact Nat.zero_le _
  | cons run tail ih =>
      obtain ⟨hrun, htail⟩ := List.forall_mem_cons.mp hne
      have hpos : 0 < run.length := List.length_pos_iff.mpr hrun
      have hle := ih htail
      rw [List.flatten_cons, List.length_append, List.length_cons]
      omega

end Coalesced

/-- The descriptor that a block gets when it ends with `entry`; the length has not wrapped. -/
theorem setDesc_block (mode : BuildMode) (epAddr : DmaAddr) (entry : Seg DmaAddr)
    {acc : List (Seg DmaAddr)} {j contLen : Nat} {contAddr : DmaAddr} {descs : List XdmaDesc}
    (hlen : contLen = total acc)
    (haddr : contAddr = runStart (acc ++ [entry])) (hmax : contLen ≤ xdmaDescMaxBytes - pageSize)
    (hshort : entry.len ≤ pageSize) (hj : j < descs.length) :
    (contLen + entry.len) % 2 ^ 32 = total (acc ++ [entry]) ∧
      total (acc ++ [entry]) ≤ xdmaDescMaxBytes ∧
      (setDesc mode j contAddr epAddr (total (acc ++ [entry])) descs)[j]?.map (·.moves mode.dirToDev) =
        some ⟨(runStart (acc ++ [entry]), epAddr), total (acc ++ [entry])⟩ := by
  have htotal : total (acc ++ [entry]) = contLen + entry.len := by
    rw [total_append, hlen]
    rfl
  have hpage : pageSize ≤ xdmaDescMaxBytes := by decide
  have hword : xdmaDescMaxBytes < 2 ^ 32 := by decide
  refine ⟨?_, by omega, ?_⟩
  · rw [htotal, Nat.mod_eq_of_lt (by omega)]
  · rw [setDesc_moves hj _ _ (by omega), haddr]

/-- The loop, with the block `acc` that is being collected. -/
theorem transferBuildLoop_coalesces {mode : BuildMode} (entry : Seg DmaAddr) (rest : List (Seg DmaAddr))
    {acc : List (Seg DmaAddr)} {j contLen : Nat} {contAddr epAddr : DmaAddr} {descs : List XdmaDesc}
    (hlen : contLen = total acc) (haddr : contAddr = runStart (acc ++ [entry]))
    (hchain : (acc ++ [entry]).IsChain GoesOn) (hmax : contLen ≤ xdmaDescMaxBytes - pageSize)
    (hshort : ∀ s ∈ entry :: rest, s.len ≤ pageSize)
    (hforced : mode.forceNewDesc = true → mode.userspace = false → acc = [])
    (hroom : j + (rest.length + 1) ≤ descs.length) :
    ∃ runs, Coalesced mode (acc ++ entry :: rest) epAddr
      (transferBuildLoop mode (entry :: rest) j contAddr contLen epAddr descs).1 j
      (transferBuildLoop mode (entry :: rest) j contAddr contLen epAddr descs).2 runs := by
  -- by induction on the entries that follow; a break starts a new block, otherwise it grows
  induction rest generalizing entry acc j contLen contAddr epAddr descs with
  | nil =>
      obtain ⟨hblock, hlimit, hdesc⟩ := setDesc_block mode epAddr entry hlen haddr hmax
        (hshort entry List.mem_cons_self) (show j < descs.length by omega)
      rw [transferBuildLoop, hblock]
      exact ⟨_, .single hchain hlimit hdesc hforced⟩
  | cons next rest ih =>
      have hj : j < descs.length := by
        rw [List.length_cons] at hroom
        omega
      obtain ⟨hblock, hlimit, hdesc⟩ := setDesc_block mode epAddr entry hlen haddr hmax
        (hshort entry List.mem_cons_self) hj
      have hshort' : ∀ s ∈ next :: rest, s.len ≤ pageSize :=
        fun s hs => hshort s (List.mem_cons_of_mem entry hs)
      rw [transferBuildLoop, hblock]
      dsimp only
      split
      · rename_i hbreak
        obtain ⟨-, hbelow⟩ := transferBuildLoop_below mode (next :: rest) (j + 1) next.start 0
          (mode.epAddr epAddr (total (acc ++ [entry])))
          (setDesc mode j contAddr epAddr (total (acc ++ [entry])) descs)
        obtain ⟨runs, hruns⟩ := @ih next [] (j + 1) 0 next.start
          (mode.epAddr epAddr (total (acc ++ [entry])))
          (setDesc mode j contAddr epAddr (total (acc ++ [entry])) descs) rfl rfl
          (List.isChain_singleton next) (Nat.zero_le _) hshort' (fun _ _ => rfl)
          (by rw [length_setDesc]; simp only [List.length_cons] at hroom ⊢; omega)
        exact ⟨_, hruns.cons hchain hlimit (by rw [hbelow j (Nat.lt_succ_self j)]; exact hdesc)
          hbreak hforced⟩
      · rename_i hsame
        push Not at hsame
        obtain ⟨hgoes, hmax', hforce⟩ := hsame
        obtain ⟨runs, hruns⟩ := @ih next (acc ++ [entry]) j (total (acc ++ [entry])) contAddr epAddr
          descs rfl
          (by rw [haddr]; cases acc <;> rfl)
          (by
            rw [List.append_assoc]
            exact List.isChain_append_cons_cons.mpr ⟨hchain, hgoes, List.isChain_singleton next⟩)
          hmax' hshort' (fun hf hu => absurd hu (hforce hf))
          (by simp only [List.length_cons] at hroom ⊢; omega)
        rw [List.append_assoc] at hruns
        exact ⟨runs, hruns⟩

/-- `transfer_build` on any list of entries that fit into a page. -/
theorem transferBuild_coalesces (mode : BuildMode) {sgl : List (Seg DmaAddr)} (hne : sgl ≠ [])
    (hshort : ∀ s ∈ sgl, s.len ≤ pageSize) (epAddr : DmaAddr) {descs : List XdmaDesc}
    (hroom : sgl.length ≤ descs.length) :
    ∃ runs, Coalesced mode sgl epAddr (transferBuild mode sgl epAddr descs).1 0
      (transferBuild mode sgl epAddr descs).2 runs := by
  cases sgl with
  | nil => exact absurd rfl hne
  | cons entry rest =>
      rw [List.length_cons] at hroom
      exact @transferBuildLoop_coalesces mode entry rest [] 0 0 entry.start epAddr descs rfl rfl
        (List.isChain_singleton entry) (Nat.zero_le _) hshort (fun _ _ => rfl) (by omega)

/-- However the entries lie, `transfer_build` stays within the descriptors it has, one for each
entry, and describes a run of the entries by each descriptor it uses. -/
theorem transfer_build_runs (mode : BuildMode) (sgl : List (Seg DmaAddr)) (hne : 1 ≤ sgl.length)
    (hlen : ∀ s ∈ sgl, 1 ≤ s.len ∧ s.len ≤ pageSize) (epAddr : DmaAddr) (descs : List XdmaDesc)
    (hdescs : descs.length = sgl.length) :
    ∃ runs : List (List (Seg DmaAddr)),
      runs.length = (transferBuild mode sgl epAddr descs).2 + 1 ∧ runs.length ≤ sgl.length ∧
      runs.flatten = sgl ∧
      (∀ run ∈ runs, run ≠ [] ∧ run.IsChain GoesOn ∧ total run ≤ xdmaDescMaxBytes) ∧
      (∀ k run, runs[k]? = some run →
        (transferBuild mode sgl epAddr descs).1[k]?.map (XdmaDesc.moves · mode.dirToDev) =
          some ⟨(runStart run, mode.epAddr epAddr (total (runs.take k).flatten)), total run⟩) ∧
      runs.IsChain (Breaks mode) ∧
      (mode.forceNewDesc = true → mode.userspace = false → ∀ run ∈ runs, run.length = 1) := by
  obtain ⟨runs, h⟩ := transferBuild_coalesces mode (List.ne_nil_of_length_pos hne)
    (fun s hs => (hlen s hs).2) epAddr (Nat.le_of_eq hdescs.symm)
  refine ⟨runs, by have := h.last; omega, h.length_le, h.flatten,
    fun run hrun => ⟨h.nonempty run hrun, h.contiguous run hrun, h.limit run hrun⟩,
    fun k run hk => ?_, h.breaks, h.forced⟩
  have hdesc := h.descs k run hk
  rwa [Nat.zero_add] at hdesc

/-- Two entries that go on and one that does not, for a user buffer. -/
theorem transfer_build_runs_three :
    ∃ runs : List (List (Seg DmaAddr)), runs.flatten =
        [⟨0x1000, 4096⟩, ⟨0x2000, 4096⟩, ⟨0x8000, 100⟩] ∧ runs.length ≤ 3 ∧
      runs.IsChain (Breaks ⟨true, false, false, true⟩) := by
  obtain ⟨runs, -, hle, hflat, -, -, hbreaks, -⟩ := transfer_build_runs ⟨true, false, false, true⟩
    [⟨0x1000, 4096⟩, ⟨0x2000, 4096⟩, ⟨0x8000, 100⟩] (by decide) (by decide) 0
    (List.replicate 3 ⟨0, 0, 0, 0, 0, 0, 0, 0⟩) rfl
  exact ⟨runs, hflat, hle, hbreaks⟩

end WzXdma
