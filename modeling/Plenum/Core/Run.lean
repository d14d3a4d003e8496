/-
Runs of a system whose step is a partial function of an event, under a side condition on each step.

- `Reach step ok w₀ w`: `w` is reached from `w₀` by enabled steps, each of which meets `ok`.
- `Reach.inv`: an invariant that holds at the start and is preserved by every step that meets `ok` holds at every
  reachable state; `Reach.inv₂` carries one already known invariant along.
- `runAll`: the same run computed over a list of events, for concrete traces (`reach_of_runAll`).
- `forall_split_cons`: a side condition on every event of a list, given the events before it, taken one event at a time.
-/
import Mathlib.Tactic

namespace Plenum.Core

variable {W E : Type}

/-- the states reached from `w₀` by steps that meet `ok` -/
inductive Reach (step : W → E → Option W) (ok : W → E → W → Prop) (w₀ : W) : W → Prop
  | refl : Reach step ok w₀ w₀
  | step {w w' : W} {e : E} (hw : Reach step ok w₀ w) (hs : step w e = some w') (hok : ok w e w') :
      Reach step ok w₀ w'

namespace Reach

variable {step : W → E → Option W} {ok : W → E → W → Prop} {w₀ w : W}

/-- an inductive invariant holds at every reachable state -/
theorem inv {I : W → Prop} (h0 : I w₀) (hstep : ∀ w e w', I w → step w e = some w' → ok w e w' → I w')
    (hr : Reach step ok w₀ w) : I w := by
  induction hr with
  | refl => exact h0
  | step _ hs hok ih => exact hstep _ _ _ ih hs hok

/-- an invariant that is inductive relative to another one -/
theorem inv₂ {I J : W → Prop} (hI : ∀ w, Reach step ok w₀ w → I w) (h0 : J w₀)
    (hstep : ∀ w e w', I w → I w' → J w → step w e = some w' → ok w e w' → J w') (hr : Reach step ok w₀ w) : J w := by
  induction hr with
  | refl => exact h0
  | step hw hs hok ih => exact hstep _ _ _ (hI _ hw) (hI _ (hw.step hs hok)) ih hs hok

/-- fewer side conditions allow more runs -/
theorem mono {ok' : W → E → W → Prop} (h : ∀ w e w', ok w e w' → ok' w e w') (hr : Reach step ok w₀ w) :
    Reach step ok' w₀ w := by
  induction hr with
  | refl => exact refl
  | step _ hs hok ih => exact ih.step hs (h _ _ _ hok)

theorem trans {w' : W} (h1 : Reach step ok w₀ w) (h2 : Reach step ok w w') : Reach step ok w₀ w' := by
  induction h2 with
  | refl => exact h1
  | step _ hs hok ih => exact ih.step hs hok

end Reach

/-- run a list of events; `none` if a step is not enabled or does not meet `ok` -/
def runAll (step : W → E → Option W) (ok : W → E → W → Prop) [∀ w e w', Decidable (ok w e w')] :
    W → List E → Option W
  | w, [] => some w
  | w, e :: es =>
    match step w e with
    | none => none
    | some w' => if ok w e w' then runAll step ok w' es else none

theorem reach_of_runAll {step : W → E → Option W} {ok : W → E → W → Prop} [∀ w e w', Decidable (ok w e w')]
    {w w' : W} {es : List E} (h : runAll step ok w es = some w') : Reach step ok w w' := by
  induction es generalizing w with
  | nil => cases h; exact Reach.refl
  | cons e es ih =>
    rw [runAll] at h
    split at h
    · cases h
    · rename_i w1 hw1
      split_ifs at h with hok
      exact (Reach.refl.step hw1 hok).trans (ih h)

theorem reach_get {step : W → E → Option W} {ok : W → E → W → Prop} [∀ w e w', Decidable (ok w e w')] {w : W}
    (es : List E) (h : (runAll step ok w es).isSome) : Reach step ok w ((runAll step ok w es).get h) :=
  reach_of_runAll (Option.some_get h).symm

/-- a statement about every element of a list and those before it, for the first one and the others -/
theorem forall_split_cons {α : Type} {P : List α → α → Prop} {a : α} {l : List α} :
    (∀ xs x ys, a :: l = xs ++ x :: ys → P xs x) ↔ P [] a ∧ ∀ xs x ys, l = xs ++ x :: ys → P (a :: xs) x := by
  constructor
  · intro h
    refine ⟨h [] a l rfl, ?_⟩
    rintro xs x ys rfl
    exact h (a :: xs) x ys rfl
  · rintro ⟨hhead, htail⟩ xs x ys hsplit
    cases xs with
    | nil =>
      cases hsplit
      exact hhead
    | cons a' xs =>
      cases hsplit
      exact htail xs x ys rfl

end Plenum.Core
