import Mathlib.Logic.Function.Basic

/-!
# Resources that are acquired and given back

A book records for each resource whether it is held.  A resource that is acquired while it is
held, or released while it is not, is misused, and stays so.  `Holds b own` says that exactly the
resources in `own` are held and that nothing was misused, which is what a routine and its
unwinding are specified with.  `Within b own` says that at most these are held, for what is given
back by name, whether it is there or not.
-/

namespace Lib
namespace Holdings

inductive Phase
  | free
  | held
  | misused
  deriving DecidableEq, Repr

def Phase.acquire : Phase → Phase
  | .free => .held
  | _ => .misused

def Phase.release : Phase → Phase
  | .held => .free
  | _ => .misused

variable {ρ : Type}

abbrev Book (ρ : Type) := ρ → Phase

section Moves

variable [DecidableEq ρ]

def acquire (b : Book ρ) (r : ρ) : Book ρ := Function.update b r (b r).acquire

def release (b : Book ρ) (r : ρ) : Book ρ := Function.update b r (b r).release

/-- What is not held is not given back. -/
def releaseHeld (b : Book ρ) (r : ρ) : Book ρ := if b r = .held then release b r else b

end Moves

/-- Exactly these resources are held. -/
def Holds (b : Book ρ) (own : ρ → Prop) : Prop :=
  ∀ r, (own r → b r = .held) ∧ (¬own r → b r = .free)

variable {b : Book ρ} {own o : ρ → Prop} {r : ρ}

theorem Holds.congr (h : Holds b own) (hown : ∀ x, o x ↔ own x) : Holds b o :=
  fun x => ⟨fun hx => (h x).1 ((hown x).1 hx), fun hx => (h x).2 fun h' => hx ((hown x).2 h')⟩

theorem Holds.held_iff (h : Holds b own) (r : ρ) : b r = .held ↔ own r := by
  constructor
  · intro hr
    by_contra hno
    rw [(h r).2 hno] at hr
    cases hr
  · exact (h r).1

theorem Holds.not_misused (h : Holds b own) (r : ρ) : b r ≠ .misused := by
  by_cases hown : own r
  · simp [(h r).1 hown]
  · simp [(h r).2 hown]

variable [DecidableEq ρ]

theorem Holds.acquire (h : Holds b own) (hr : ¬own r) (hown : ∀ x, o x ↔ own x ∨ x = r) :
    Holds (acquire b r) o := by
  intro x
  by_cases hx : x = r
  · subst hx
    have hfree := (h x).2 hr
    simp [Holdings.acquire, hfree, Phase.acquire, hown]
  · simp only [Holdings.acquire, Function.update_of_ne hx, hown, hx, or_false]
    exact h x

theorem Holds.release (h : Holds b own) (hr : own r) (hown : ∀ x, o x ↔ own x ∧ x ≠ r) :
    Holds (release b r) o := by
  intro x
  by_cases hx : x = r
  · subst hx
    have hheld := (h x).1 hr
    simp [Holdings.release, hheld, Phase.release, hown]
  · simp only [Holdings.release, Function.update_of_ne hx, hown, ne_eq, hx, not_false_eq_true,
      and_true]
    exact h x

/-! ## At most -/

/-- At most these resources are held, and nothing was misused. -/
def Within (b : Book ρ) (own : ρ → Prop) : Prop := ∀ x, b x ≠ .misused ∧ (b x = .held → own x)

omit [DecidableEq ρ] in
theorem Within.mono (h : Within b own) (hown : ∀ x, own x → o x) : Within b o :=
  fun x => ⟨(h x).1, fun hx => hown x ((h x).2 hx)⟩

omit [DecidableEq ρ] in
theorem Within.free (h : Within b own) (hr : ¬own r) : b r = .free := by
  cases hb : b r with
  | free => rfl
  | held => exact absurd ((h r).2 hb) hr
  | misused => exact absurd hb (h r).1

theorem Within.acquire (h : Within b own) (hr : ¬own r) :
    Within (Holdings.acquire b r) fun x => own x ∨ x = r := by
  intro x
  by_cases hx : x = r
  · subst hx
    simp [Holdings.acquire, h.free hr, Phase.acquire]
  · simp only [Holdings.acquire, Function.update_of_ne hx]
    exact ⟨(h x).1, fun hheld => .inl ((h x).2 hheld)⟩

theorem Within.releaseHeld (h : Within b own) (r : ρ) :
    Within (Holdings.releaseHeld b r) fun x => own x ∧ x ≠ r := by
  intro x
  unfold Holdings.releaseHeld
  by_cases hr : b r = .held
  · rw [if_pos hr]
    by_cases hx : x = r
    · subst hx
      simp [Holdings.release, hr, Phase.release]
    · simp only [Holdings.release, Function.update_of_ne hx]
      exact ⟨(h x).1, fun hheld => ⟨(h x).2 hheld, hx⟩⟩
  · rw [if_neg hr]
    refine ⟨(h x).1, fun hheld => ⟨(h x).2 hheld, ?_⟩⟩
    rintro rfl
    exact hr hheld

end Holdings
end Lib
