import Mathlib.Logic.Basic

/-!
# Counted loops of imperative routines

`forUpTo body n s` runs `body 0`, ..., `body (n - 1)` on the state in this order.
The body may leave the routine, which ends the loop: the exit carries whatever
the routine returns.  `upTo` is the loop whose body never leaves.

Both recurse on the number of iterations, so that an invariant `I i`, which holds
before iteration `i`, is carried through by induction.

`forEach body l s` and `each body l s` run over the members of a list instead.  Their
invariants are about the members that are left.
-/

namespace Lib
namespace Loop

variable {σ ε : Type}

def forUpTo (body : Nat → σ → Except ε σ) : Nat → σ → Except ε σ
  | 0, s => .ok s
  | n + 1, s =>
      match forUpTo body n s with
      | .ok s' => body n s'
      | .error e => .error e

def upTo (body : Nat → σ → σ) : Nat → σ → σ
  | 0, s => s
  | n + 1, s => body n (upTo body n s)

theorem forUpTo_succ (body : Nat → σ → Except ε σ) (n : Nat) (s : σ) :
    forUpTo body (n + 1) s =
      match forUpTo body n s with
      | .ok s' => body n s'
      | .error e => .error e := rfl

/-- A loop that ends normally carries its invariant from the first iteration to
the end. -/
theorem forUpTo_ok {body : Nat → σ → Except ε σ} (I : Nat → σ → Prop) {n : Nat} {s s' : σ}
    (hstart : I 0 s)
    (hbody : ∀ i t t', i < n → I i t → body i t = .ok t' → I (i + 1) t')
    (h : forUpTo body n s = .ok s') : I n s' := by
  induction n generalizing s' with
  | zero =>
      simp only [forUpTo, Except.ok.injEq] at h
      exact h ▸ hstart
  | succ n ih =>
      rw [forUpTo_succ] at h
      cases hn : forUpTo body n s with
      | error e => simp [hn] at h
      | ok t =>
          simp only [hn] at h
          exact hbody n t s' (Nat.lt_succ_self n)
            (ih (fun i t t' hi => hbody i t t' (Nat.lt_succ_of_lt hi)) hn) h

/-- A loop that is left was left by one of its iterations, before which the
invariant held. -/
theorem forUpTo_error {body : Nat → σ → Except ε σ} (I : Nat → σ → Prop) {n : Nat} {s : σ} {e : ε}
    (hstart : I 0 s)
    (hbody : ∀ i t t', i < n → I i t → body i t = .ok t' → I (i + 1) t')
    (h : forUpTo body n s = .error e) :
    ∃ i t, i < n ∧ I i t ∧ body i t = .error e := by
  induction n with
  | zero => simp [forUpTo] at h
  | succ n ih =>
      have hbody' : ∀ i t t', i < n → I i t → body i t = .ok t' → I (i + 1) t' :=
        fun i t t' hi => hbody i t t' (Nat.lt_succ_of_lt hi)
      rw [forUpTo_succ] at h
      cases hn : forUpTo body n s with
      | error e' =>
          simp only [hn, Except.error.injEq] at h
          obtain ⟨i, t, hi, hI, hb⟩ := ih hbody' (h ▸ hn)
          exact ⟨i, t, Nat.lt_succ_of_lt hi, hI, hb⟩
      | ok t =>
          simp only [hn] at h
          exact ⟨n, t, Nat.lt_succ_self n, forUpTo_ok I hstart hbody' hn, h⟩

/-- A loop none of whose iterations leaves it ends normally. -/
theorem forUpTo_total {body : Nat → σ → Except ε σ} (I : Nat → σ → Prop) {n : Nat} {s : σ}
    (hstart : I 0 s) (hbody : ∀ i t, i < n → I i t → ∃ t', body i t = .ok t' ∧ I (i + 1) t') :
    ∃ s', forUpTo body n s = .ok s' ∧ I n s' := by
  induction n with
  | zero => exact ⟨s, rfl, hstart⟩
  | succ n ih =>
      obtain ⟨t, ht, hI⟩ := ih fun i t hi => hbody i t (Nat.lt_succ_of_lt hi)
      obtain ⟨t', ht', hI'⟩ := hbody n t (Nat.lt_succ_self n) hI
      exact ⟨t', by simp only [forUpTo_succ, ht, ht'], hI'⟩

/-- The iteration that leaves the loop is the last one. -/
theorem forUpTo_left {body : Nat → σ → Except ε σ} {k n : Nat} (hk : k < n) {s t : σ} {e : ε}
    (hpre : forUpTo body k s = .ok t) (hleft : body k t = .error e) :
    forUpTo body n s = .error e := by
  induction n with
  | zero => exact absurd hk (Nat.not_lt_zero k)
  | succ n ih =>
      rw [forUpTo_succ]
      by_cases hkn : k = n
      · simp only [← hkn, hpre, hleft]
      · rw [ih (Nat.lt_of_le_of_ne (Nat.le_of_lt_succ hk) hkn)]

theorem upTo_invariant {body : Nat → σ → σ} (I : Nat → σ → Prop) {n : Nat} {s : σ}
    (hstart : I 0 s) (hbody : ∀ i t, i < n → I i t → I (i + 1) (body i t)) :
    I n (upTo body n s) := by
  induction n with
  | zero => exact hstart
  | succ n ih =>
      exact hbody n _ (Nat.lt_succ_self n) (ih fun i t hi => hbody i t (Nat.lt_succ_of_lt hi))

section Each

variable {ι : Type}

def forEach (body : ι → σ → Except ε σ) : List ι → σ → Except ε σ
  | [], s => .ok s
  | x :: rest, s =>
      match body x s with
      | .ok s' => forEach body rest s'
      | .error e => .error e

def each (body : ι → σ → σ) : List ι → σ → σ
  | [], s => s
  | x :: rest, s => each body rest (body x s)

theorem forEach_ok {body : ι → σ → Except ε σ} (I : List ι → σ → Prop) {l : List ι} {s s' : σ}
    (hstart : I l s) (hbody : ∀ x rest t t', I (x :: rest) t → body x t = .ok t' → I rest t')
    (h : forEach body l s = .ok s') : I [] s' := by
  induction l generalizing s with
  | nil =>
      simp only [forEach, Except.ok.injEq] at h
      exact h ▸ hstart
  | cons x rest ih =>
      rw [forEach] at h
      cases hx : body x s with
      | error e => simp [hx] at h
      | ok t =>
          simp only [hx] at h
          exact ih (hbody x rest s t hstart hx) h

theorem forEach_error {body : ι → σ → Except ε σ} (I : List ι → σ → Prop) {l : List ι} {s : σ}
    {e : ε} (hstart : I l s)
    (hbody : ∀ x rest t t', I (x :: rest) t → body x t = .ok t' → I rest t')
    (h : forEach body l s = .error e) :
    ∃ x rest t, x ∈ l ∧ I (x :: rest) t ∧ body x t = .error e := by
  induction l generalizing s with
  | nil => simp [forEach] at h
  | cons x rest ih =>
      rw [forEach] at h
      cases hx : body x s with
      | error e' =>
          simp only [hx, Except.error.injEq] at h
          exact ⟨x, rest, s, List.mem_cons_self, hstart, h ▸ hx⟩
      | ok t =>
          simp only [hx] at h
          obtain ⟨y, rest', t', hy, hI, he⟩ := ih (hbody x rest s t hstart hx) h
          exact ⟨y, rest', t', List.mem_cons_of_mem x hy, hI, he⟩

theorem each_invariant {b : ι → σ → σ} (I : List ι → σ → Prop) {l : List ι} {s : σ}
    (hstart : I l s) (hbody : ∀ x rest t, I (x :: rest) t → I rest (b x t)) :
    I [] (each b l s) := by
  induction l generalizing s with
  | nil => exact hstart
  | cons x rest ih => exact ih (hbody x rest s hstart)

/-- What no iteration changes. -/
theorem each_frame {β : Type} {b : ι → σ → σ} (f : σ → β) (hbody : ∀ x t, f (b x t) = f t)
    (l : List ι) (s : σ) : f (each b l s) = f s := by
  induction l generalizing s with
  | nil => rfl
  | cons x rest ih => exact (ih (b x s)).trans (hbody x s)

/-- Look at the state with `f`, and at what the routine was left with by `g`. -/
def observe {β : Type} (f : σ → β) (g : ε → β) : Except ε σ → β
  | .ok s => f s
  | .error e => g e

/-- What no iteration changes, also when one of them leaves the loop. -/
theorem forEach_frame {β : Type} {body : ι → σ → Except ε σ} (f : σ → β) (g : ε → β)
    (hbody : ∀ x t, observe f g (body x t) = f t) (l : List ι) (s : σ) :
    observe f g (forEach body l s) = f s := by
  induction l generalizing s with
  | nil => rfl
  | cons x rest ih =>
      have hx := hbody x s
      rw [forEach]
      cases hb : body x s with
      | error e =>
          rw [hb] at hx
          exact hx
      | ok t =>
          rw [hb] at hx
          exact (ih t).trans hx

end Each

end Loop
end Lib
