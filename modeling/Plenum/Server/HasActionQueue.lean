/-
The action queue of an object: actions to run now, actions to run later, and the actions that repeat.

`A` is the type of the actions; running one is left to the owner of the queue. Times are counted in clock ticks.
-/
import Mathlib.Tactic

namespace Plenum

structure ActionQueue (A : Type) where
  actionQueue : List (A × ℕ)
  aqStash : List (ℕ × (A × ℕ))
  aqNextCheck : Option ℕ
  aid : ℕ
  repeatingActions : List A
deriving DecidableEq

namespace ActionQueue

variable {A : Type} [DecidableEq A]

/-- an empty queue; `aqNextCheck = none` is the source's infinity -/
def empty : ActionQueue A := ⟨[], [], none, 0, []⟩

def schedule (q : ActionQueue A) (now : ℕ) (action : A) (ticks : ℕ) : ActionQueue A :=
  let aid := q.aid + 1
  if 0 < ticks then
    let nxt := now + ticks
    { q with aid := aid, aqStash := q.aqStash ++ [(nxt, (action, aid))],
             aqNextCheck := match q.aqNextCheck with
               | none => some nxt
               | some c => some (min nxt c) }
  else { q with aid := aid, actionQueue := q.actionQueue ++ [(action, aid)] }

/-- the stashed actions whose time has come go to the front of the queue, one by one -/
def moveDue (q : ActionQueue A) (now : ℕ) : ActionQueue A :=
  if q.aqStash = [] then q
  else
    match q.aqNextCheck with
    | none => q
    | some c =>
      if c < now then
        { q with
          actionQueue := q.aqStash.foldl (fun l d => if d.1 < now then d.2 :: l else l) q.actionQueue,
          aqStash := q.aqStash.filter (fun d => ¬ d.1 < now),
          aqNextCheck := (q.aqStash.map Prod.fst).min? }
      else q

/-- `startRepeating`: schedule the action unless it repeats already -/
def startRepeating (q : ActionQueue A) (now : ℕ) (action : A) (ticks : ℕ) : ActionQueue A :=
  if action ∈ q.repeatingActions then q
  else { q with repeatingActions := q.repeatingActions ++ [action] }.schedule now action ticks

/-- `stopRepeating` (strict): `none` if the action does not repeat -/
def stopRepeating (q : ActionQueue A) (action : A) : Option (ActionQueue A) :=
  if action ∈ q.repeatingActions then some { q with repeatingActions := q.repeatingActions.filter (· ≠ action) }
  else none

end ActionQueue

end Plenum
