import Mathlib.Data.List.Basic

/-!
# Following a chain of cells

Cells of type `β` are found at addresses of type `α`, and a cell may hold the address of the
next one.  `Walk found next a cells` says that following the addresses from `a` visits `cells` in
this order.  The address in the last cell is not looked at.

The two results are what an array view needs: cells that are linked in the order of an index are
visited in that order, and nothing else is visited when no two cells are found at one address.
-/

namespace Lib
namespace Chain

variable {α β : Type}

def Walk (found : α → β → Prop) (next : β → Option α) : α → List β → Prop
  | _, [] => True
  | a, [b] => found a b
  | a, b :: c :: rest => found a b ∧ ∃ a', next b = some a' ∧ Walk found next a' (c :: rest)

variable {found : α → β → Prop} {next : β → Option α}

/-- The cell at every index of a list that is walked is found somewhere. -/
theorem Walk.found_of_mem {a : α} {cells : List β} (h : Walk found next a cells) {b : β}
    (hb : b ∈ cells) : ∃ a', found a' b := by
  induction cells generalizing a with
  | nil => cases hb
  | cons c rest ih =>
      cases rest with
      | nil =>
          rw [List.mem_singleton] at hb
          exact ⟨a, hb ▸ h⟩
      | cons c' rest =>
          obtain ⟨hc, a', -, hrest⟩ := h
          rcases List.mem_cons.mp hb with rfl | hb
          · exact ⟨a, hc⟩
          · exact ih hrest hb

/-- When no two cells are found at one address, there is one walk of each length. -/
theorem Walk.unique (hfound : ∀ a b b', found a b → found a b' → b = b') {a : α} {cells cells' : List β}
    (h : Walk found next a cells) (h' : Walk found next a cells')
    (hlen : cells.length = cells'.length) : cells = cells' := by
  induction cells generalizing a cells' with
  | nil => exact (List.length_eq_zero_iff.mp hlen.symm).symm
  | cons b rest ih =>
      cases cells' with
      | nil => cases hlen
      | cons b' rest' =>
          have hlen' : rest.length = rest'.length := Nat.succ.inj hlen
          cases rest with
          | nil =>
              obtain rfl : rest' = [] := List.length_eq_zero_iff.mp hlen'.symm
              rw [hfound a b b' h h']
          | cons c rest =>
              cases rest' with
              | nil => cases hlen'
              | cons c' rest' =>
                  obtain ⟨hb, a₁, ha₁, hrest⟩ := h
                  obtain ⟨hb', a₂, ha₂, hrest'⟩ := h'
                  obtain rfl := hfound a b b' hb hb'
                  rw [ha₁, Option.some.injEq] at ha₂
                  subst ha₂
                  rw [ih hrest hrest' hlen']

/-- Cells linked in the order of their index are visited in that order. -/
theorem walk_of_links {addr : Nat → α} {cell : Nat → β} (k n : Nat)
    (hfound : ∀ i, k ≤ i → i < k + n → found (addr i) (cell i))
    (hnext : ∀ i, k ≤ i → i + 1 < k + n → next (cell i) = some (addr (i + 1))) :
    Walk found next (addr k) ((List.range' k n).map cell) := by
  induction n generalizing k with
  | zero => trivial
  | succ n ih =>
      have hfirst := hfound k (Nat.le_refl k) (by omega)
      have hrest := ih (k + 1) (fun i hi hi' => hfound i (by omega) (by omega))
        (fun i hi hi' => hnext i (by omega) (by omega))
      cases n with
      | zero => exact hfirst
      | succ n => exact ⟨hfirst, addr (k + 1), hnext k (Nat.le_refl k) (by omega), hrest⟩

end Chain
end Lib
