/-
The elections of the pool: the electing nodes, and the messages between them.

- Every message that a correct node has sent can arrive at any other node at any time, as often as you like, or never. A
  byzantine node sends what it wants. Whatever else happens to a node happens at any time as well: actions, timers,
  suspicions, new counts of nodes, random draws.
- `ElectionWorld.inv_of_steps`: what every step of a node keeps holds of the correct nodes in every run.
- `blamesByzantine`: only the three phase messages of a byzantine primary are found wrong.
-/
import Mathlib.Tactic
import Plenum.Core.Run
import Plenum.Server.ElectingNode

namespace Plenum

open Plenum.Core

/-- the nodes of a pool, at most `f` of them byzantine; the ticks of a second -/
structure ElectionPool where
  names : Finset NodeName
  f : ℕ
  card : names.card = 3 * f + 1
  f_pos : 1 ≤ f
  byzantine : Finset NodeName
  byzantine_card : (names ∩ byzantine).card ≤ f
  cfg : NodeName → ViewChangeConfig
  name_eq : ∀ i ∈ names, (cfg i).name = i
  f_eq : ∀ i ∈ names, (cfg i).f = f
  second : ℕ

/-- the correct nodes -/
def ElectionPool.correct (P : ElectionPool) : Finset NodeName := P.names \ P.byzantine

/-- the state of each node -/
abbrev ElectionWorld := NodeName → ElectingNode

namespace ElectionWorld

variable (P : ElectionPool) (w : ElectionWorld)

/-- a message of another node can arrive if that node has sent it, or is byzantine -/
def canArrive (i : NodeName) : ElectingEvent → Bool
  | .receive m j => decide (j ∈ P.names ∧ j ≠ i ∧ (j ∈ P.byzantine ∨ m ∈ (w j).elector.sent.map Prod.fst))
  | .vote (.instanceChange m j) _ => decide (j ∈ P.names ∧ j ≠ i ∧ (j ∈ P.byzantine ∨ m ∈ (w j).viewChanger.outBox))
  | _ => true

/-- one event at one correct node -/
def step (e : NodeName × ElectingEvent) : Option ElectionWorld :=
  if e.1 ∈ P.correct ∧ w.canArrive P e.1 e.2 then
    ((w e.1).step P.second (P.cfg e.1) e.2).map fun n => Function.update w e.1 n
  else none

/-- whether the node knows a byzantine primary of an instance -/
def hasByzantinePrimary (i : NodeName) : Bool :=
  (w i).elector.replicas.any fun r => r.primaryName.any fun p => decide (getNodeName p ∈ P.byzantine)

/-- a suspicion is raised by a message of a byzantine primary, also if it has waited for the election of that one -/
def blamesByzantine (e : NodeName × ElectingEvent) : Bool :=
  match e.2 with
  | .vote (.suspicion _) _ => w.hasByzantinePrimary P e.1
  | .handleNext pended _ =>
    pended.suspicions.isEmpty ||
      match (w e.1).servicing with
      | (.primary m, sender) :: _ =>
        ((w e.1).elector.settledBy m sender).any fun candidate => decide (getNodeName candidate.1 ∈ P.byzantine)
      | _ => false
  | _ => true

variable {P w}

/-- **The induction rule of the pool.** Each step is a step of one correct node. -/
theorem inv_of_steps {I : ElectingNode → Prop} {ok : ElectionWorld → NodeName × ElectingEvent → ElectionWorld → Prop}
    {w₀ : ElectionWorld} (hr : Reach (step P) ok w₀ w) (h0 : ∀ i ∈ P.correct, I (w₀ i))
    (hstep : ∀ w i e w' n, ok w (i, e) w' → I (w i) → (w i).step P.second (P.cfg i) e = some n → I n) :
    ∀ i ∈ P.correct, I (w i) := by
  refine Reach.inv (I := fun w => ∀ i ∈ P.correct, I (w i)) h0 ?_ hr
  rintro w ⟨i, e⟩ w' hinv hs hok j hj
  unfold step at hs
  split_ifs at hs with henabled
  obtain ⟨n, hn, rfl⟩ := Option.map_eq_some_iff.1 hs
  by_cases hji : j = i
  · subst hji
    rw [Function.update_self]
    exact hstep w j e _ n hok (hinv j hj) hn
  · rw [Function.update_of_ne hji]
    exact hinv j hj

end ElectionWorld

end Plenum
