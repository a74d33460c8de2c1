import WzXdma.Engine

/-!
# Mapping the buffers into user space

`char_sgdma_wz_mmap` looks at `buf_ready` once, when the mapping is created.  The
frames go into it one by one, when the application touches them, through
`swz_mmap_fault`.
-/

namespace WzXdma
namespace Driver

/-- How a page fault on the mapping is answered. -/
inductive MmapFault
  | efault
  /-- a frame of the page block that the entry refers to -/
  | inserted (page frame : Nat)
  /-- a frame computed from an entry that refers to no page block -/
  | insertedStray
  deriving DecidableEq, Repr

/-- `swz_mmap_fault` at `offset` from the start of the mapping.  The number that is
one too high passes the test, and the field after the array is taken for a page. -/
def swzMmapFault (c : WzConsts) (d : Driver) (offset : Nat) : MmapFault :=
  let bufNum := offset / c.buflen
  if c.nofbufs < bufNum then .efault
  else
    let offset := offset - bufNum * c.buflen
    let buffer := if bufNum < c.nofbufs then d.ext.bufPage bufNum else none
    match buffer.bind fun p => (d.kern.pages p).map fun block => (p, block.pfn) with
    | none => .insertedStray
    | some (p, pfn) => .inserted p (pfn + offset >>> pageShift)

/-- `char_sgdma_wz_mmap` -/
def charSgdmaWzMmap (d : Driver) : Int := if d.ext.bufReady then 0 else -einval

/-- Inside the mapping of an allocated buffer a fault inserts the right frame of it. -/
theorem swzMmapFault_of_lt {c : WzConsts} {d : Driver} {i off p : Nat} {block : PageBlock}
    (hi : i < c.nofbufs) (hoff : off < c.buflen) (hp : d.ext.bufPage i = some p)
    (hblock : d.kern.pages p = some block) :
    swzMmapFault c d (i * c.buflen + off) = .inserted p (block.pfn + off / pageSize) := by
  have hnum : (i * c.buflen + off) / c.buflen = i := by
    rw [Nat.mul_comm, Nat.mul_add_div (by omega), Nat.div_eq_of_lt hoff, Nat.add_zero]
  have hsub : i * c.buflen + off - i * c.buflen = off := by omega
  have hle : ¬c.nofbufs < i := by omega
  simp [swzMmapFault, hnum, hsub, hle, hi, hp, hblock, Nat.shiftRight_eq_div_pow, pageSize]

/-- It does not matter which byte of a page is touched first. -/
theorem swzMmapFault_page {c : WzConsts} (hdvd : pageSize ∣ c.buflen) (d : Driver)
    {offset offset' : Nat} (h : offset / pageSize = offset' / pageSize) :
    swzMmapFault c d offset = swzMmapFault c d offset' := by
  obtain ⟨q, hq⟩ := hdvd
  have hnum : offset / c.buflen = offset' / c.buflen := by
    rw [hq, ← Nat.div_div_eq_div_mul, ← Nat.div_div_eq_div_mul, h]
  have hpage : ∀ x, (x - x / c.buflen * c.buflen) >>> pageShift = x / pageSize % q := by
    intro x
    have hmod : x - x / c.buflen * c.buflen = x % c.buflen := by
      have := Nat.div_add_mod x c.buflen
      rw [Nat.mul_comm] at this
      omega
    rw [hmod, hq, Nat.shiftRight_eq_div_pow]
    exact Nat.mod_mul_right_div_self ..
  have hin : (offset - offset' / c.buflen * c.buflen) >>> pageShift =
      (offset' - offset' / c.buflen * c.buflen) >>> pageShift := by
    rw [← hnum, hpage, hnum, hpage, h]
  unfold swzMmapFault
  simp only [hnum, hin]

end Driver
end WzXdma
