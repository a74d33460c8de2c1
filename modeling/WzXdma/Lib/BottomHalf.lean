import WzXdma.Lib.Machine

/-!
# Deferred work

An interrupt source has a mark that events set.  Its handler only queues a work item, and the
work does the rest: it takes the mark back and then looks at what has happened.

`Half` is one source with its work item, and `unseen` remembers that something has happened since
the last look began.  The mark is taken back before the look, so an event is never forgotten:
`Half.Kept`.
-/

namespace Lib
namespace BottomHalf

/-- How far the work function has come. -/
inductive Stage
  | entered
  | cleared
  | looked
  deriving DecidableEq, Repr

structure Half where
  /-- the mark of the source -/
  raised : Bool
  /-- the work item waits to be run -/
  queued : Bool
  work : Option Stage
  /-- something happened after the last look began -/
  unseen : Bool
  deriving DecidableEq, Repr

/-- An event, and the steps of the work up to its look. -/
inductive Act
  | event
  | enter
  | clear
  | look
  deriving DecidableEq, Repr

namespace Half

/-- Nothing has happened yet. -/
def start : Half := ⟨false, false, none, false⟩

/-- A work item is not run twice at the same time. -/
def step (h : Half) : Act → Option Half
  | .event => some { h with raised := true, unseen := true }
  | .enter =>
      if h.queued = true ∧ h.work = none then
        some { h with queued := false, work := some .entered }
      else none
  | .clear =>
      if h.work = some .entered then some { h with raised := false, work := some .cleared }
      else none
  | .look =>
      if h.work = some .cleared then some { h with unseen := false, work := some .looked }
      else none

/-- An item that is queued already stays queued. -/
def schedule (h : Half) : Half := { h with queued := true }

/-- The work returns. -/
def leave (h : Half) : Half := { h with work := none }

/-- What was not looked for has set the mark, or the look follows. -/
def Kept (h : Half) : Prop := h.unseen = true → h.raised = true ∨ h.work = some .cleared

/-- The work will still return. -/
def Coming (h : Half) : Prop := h.queued = true ∨ h.work ≠ none

variable {h h' : Half}

theorem start_kept : start.Kept := fun hu => Bool.noConfusion hu

theorem Kept.schedule (hk : h.Kept) : h.schedule.Kept := hk

theorem Kept.leave (hk : h.Kept) (hw : h.work = some .looked) : h.leave.Kept := by
  intro hu
  refine .inl ((hk hu).resolve_right fun hc => ?_)
  rw [hw] at hc
  cases hc

theorem Kept.step (hk : h.Kept) {a : Act} (hs : h.step a = some h') : h'.Kept := by
  cases a with
  | event =>
      obtain rfl := Option.some.inj hs
      exact fun _ => .inl rfl
  | enter =>
      rw [Half.step] at hs
      split at hs
      · rename_i hready
        obtain rfl := Option.some.inj hs
        intro hu
        refine .inl ((hk hu).resolve_right fun hc => ?_)
        rw [hready.2] at hc
        cases hc
      · cases hs
  | clear =>
      rw [Half.step] at hs
      split at hs
      · obtain rfl := Option.some.inj hs
        exact fun _ => .inr rfl
      · cases hs
  | look =>
      rw [Half.step] at hs
      split at hs
      · obtain rfl := Option.some.inj hs
        exact fun hu => Bool.noConfusion hu
      · cases hs

/-- A work that looks is only told of events. -/
theorem step_looked (hw : h.work = some .looked) {a : Act} (hs : h.step a = some h') :
    a = .event ∧ h'.work = some .looked := by
  cases a with
  | event =>
      obtain rfl := Option.some.inj hs
      exact ⟨rfl, hw⟩
  | enter =>
      rw [Half.step, if_neg (fun hready => by rw [hw] at hready; cases hready.2)] at hs
      cases hs
  | clear =>
      rw [Half.step, if_neg (fun hentered => by rw [hw] at hentered; cases hentered)] at hs
      cases hs
  | look =>
      rw [Half.step, if_neg (fun hcleared => by rw [hw] at hcleared; cases hcleared)] at hs
      cases hs

/-- Only the look forgets. -/
theorem step_unseen {a : Act} (ha : a ≠ .look) (hs : h.step a = some h')
    (hu : h'.unseen = false) : h.unseen = false := by
  cases a with
  | event =>
      obtain rfl := Option.some.inj hs
      cases hu
  | enter =>
      rw [Half.step] at hs
      split at hs
      · obtain rfl := Option.some.inj hs
        exact hu
      · cases hs
  | clear =>
      rw [Half.step] at hs
      split at hs
      · obtain rfl := Option.some.inj hs
        exact hu
      · cases hs
  | look => exact absurd rfl ha

theorem schedule_coming (h : Half) : h.schedule.Coming := .inl rfl

theorem Coming.step (hc : h.Coming) {a : Act} (hs : h.step a = some h') : h'.Coming := by
  cases a with
  | event =>
      obtain rfl := Option.some.inj hs
      exact hc
  | enter =>
      rw [Half.step] at hs
      split at hs
      · obtain rfl := Option.some.inj hs
        exact .inr (Option.some_ne_none _)
      · cases hs
  | clear =>
      rw [Half.step] at hs
      split at hs
      · obtain rfl := Option.some.inj hs
        exact .inr (Option.some_ne_none _)
      · cases hs
  | look =>
      rw [Half.step] at hs
      split at hs
      · obtain rfl := Option.some.inj hs
        exact .inr (Option.some_ne_none _)
      · cases hs

theorem look_reached (hw : h.work = some .entered ∨ h.work = some .cleared) :
    ∃ h', Machine.Reach Half.step (fun _ a => a ≠ .event) h h' ∧ h'.work = some .looked := by
  obtain hw | hw := hw
  · have hclear : h.step .clear = some { h with raised := false, work := some .cleared } :=
      if_pos hw
    exact ⟨_, .next (.next .start (a := .clear) (by decide) hclear) (a := .look) (by decide) rfl,
      rfl⟩
  · exact ⟨_, .next .start (a := .look) (by decide) (if_pos hw), rfl⟩

/-- Without further events the work comes to its end. -/
theorem Coming.ends (hc : h.Coming) :
    ∃ h', Machine.Reach Half.step (fun _ a => a ≠ .event) h h' ∧ h'.work = some .looked := by
  cases hw : h.work with
  | none =>
      have hq : h.queued = true := hc.resolve_right fun hne => hne hw
      have henter : h.step .enter = some { h with queued := false, work := some .entered } :=
        if_pos ⟨hq, hw⟩
      obtain ⟨h', hr, hl⟩ :=
        @look_reached { h with queued := false, work := some .entered } (.inl rfl)
      exact ⟨h', Machine.Reach.trans (.next .start (a := .enter) (by decide) henter) hr, hl⟩
  | some stage =>
      cases stage with
      | entered => exact look_reached (.inl hw)
      | cleared => exact look_reached (.inr hw)
      | looked => exact ⟨h, .start, hw⟩

end Half

end BottomHalf
end Lib
