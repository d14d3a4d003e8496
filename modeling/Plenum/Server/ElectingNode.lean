/-
A node that elects: its elector, its votes for instance changes, and what each of the two starts in the other.

- The declaration that settles an instance has the three phase messages dispatched that have waited for its primary. The
  node reports the suspicions that they raise (`reportSuspicions`), and its own vote for an instance change may complete a
  quorum: then the view has changed when the elector goes on.
- `handleNext`: the elector handles the messages that it has filtered, one by one. They are of the view in which it began
  to service them, also if one of them changes the view; if one of them raises, the others are lost.
- `vote`: any input of the view changer. The elector follows the views that this starts.
- `ElectingNode.step`: nothing else happens while the elector services its messages.

Three phase messages are not modelled here: what those that have waited come to is given with the message that has them
dispatched (`Pended`).
-/
import Mathlib.Tactic
import Plenum.Server.ElectorSteps
import Plenum.Server.ViewChange

namespace Plenum

open Plenum.Core Plenum.Core.Exec
open PrimaryElector (StartedView Dispatched)

/-- what happens to an elector by itself: no message, and no view change -/
def PrimaryElector.ElectorEvent.isOwn : PrimaryElector.ElectorEvent → Bool
  | .message _ _ => false
  | .viewChanged _ => false
  | _ => true

/-- `node.all_instances_have_primary` -/
def PrimaryElector.allInstancesHavePrimary (s : PrimaryElector) : Bool := s.replicas.all fun r => r.primaryName.isSome

/-- the three phase messages that have waited for a primary: the codes of the suspicions that they raise, and whether one
of them raises another exception at last -/
structure Pended where
  suspicions : List (ℕ × Surroundings)
  raises : Bool

/-- no message has waited -/
def Pended.none : Pended := ⟨[], false⟩

/-! ## The views that start -/

def Surroundings.raisesAt (sur : Surroundings) (viewNo : ℕ) : Bool :=
  match sur.viewChanged viewNo with
  | .ok _ => false
  | .error _ => true

namespace ViewChanger

/-- the views that the node has moved to between two states -/
def startedViews (sur : Surroundings) (s s' : ViewChanger) : List StartedView :=
  (s'.viewMoves.drop s.viewMoves.length).map fun m => ⟨m.newView, sur.raisesAt m.newView⟩

/-- the messages that have waited, one suspicion after the other -/
def reportSuspicions (cfg : ViewChangeConfig) (raises : Bool) :
    List (ℕ × Surroundings) → ViewChanger → ViewChanger × Dispatched
  | [], s => (s, ⟨[], raises⟩)
  | (code, sur) :: rest, s =>
    let (outcome, after) := exec (reportSuspiciousNode cfg sur code) s
    match outcome with
    | .error _ => (after, ⟨startedViews sur s after, true⟩)
    | .ok _ =>
      let (last, d) := reportSuspicions cfg raises rest after
      (last, ⟨startedViews sur s after ++ d.views, d.raises⟩)

end ViewChanger

/-! ## The node -/

structure ElectingNode where
  elector : PrimaryElector
  viewChanger : ViewChanger
  /-- the messages that the elector is servicing -/
  servicing : List (ElectionMsg × NodeName)

inductive ElectingEvent where
  /-- `sendToElector` -/
  | receive (m : ElectionMsg) (sender : NodeName)
  | serviceQueues (limit : Option ℕ)
  | handleNext (pended : Pended) (sur : Surroundings)
  | own (e : PrimaryElector.ElectorEvent)
  | vote (x : ViewChangeInput) (sur : Surroundings)

namespace ElectingNode

-- the ticks of a second
variable (second : ℕ) (cfg : ViewChangeConfig) (n : ElectingNode)

/-- what the view changer reads of the elector and its replicas -/
def surroundings (sur : Surroundings) : Surroundings :=
  { sur with isParticipating := n.elector.isParticipating, masterPrimary := n.elector.masterPrimary,
             allInstancesHavePrimary := n.elector.allInstancesHavePrimary }

def receive (m : ElectionMsg) (sender : NodeName) : ElectingNode :=
  { n with elector := { n.elector with inBox := n.elector.inBox ++ [(m, sender)] } }

/-- the messages beyond the limit are gone; `None` and 0 are no limit -/
def serviceQueues (limit : Option ℕ) : ElectingNode :=
  let msgs := n.elector.filterMsgs n.elector.inBox
  { n with elector := { n.elector with inBox := [] },
           servicing := if limit.getD 0 = 0 then msgs else msgs.take (limit.getD 0) }

/-- what the messages come to that have waited for the primary that a declaration settles -/
def dispatched (pended : Pended) : ViewChanger × Dispatched :=
  n.viewChanger.reportSuspicions cfg pended.raises pended.suspicions

/-- a declaration that settles an instance, and `primary_found`. An exception leaves the other messages unhandled. -/
def settle (m : Primary) (sender : NodeName) (rest : List (ElectionMsg × NodeName)) (pended : Pended)
    (sur : Surroundings) : ElectingNode :=
  let (viewChanger, d) := n.dispatched cfg pended
  let n : ElectingNode := ⟨n.elector.processPrimary m sender d, viewChanger, rest⟩
  if d.raises then { n with servicing := [] }
  else { n with viewChanger := n.viewChanger.input cfg (n.surroundings sur) .primaryFound }

/-- a message of an instance that the node does not have raises as well -/
def handleNext (pended : Pended) (sur : Surroundings) : ElectingNode :=
  match n.servicing with
  | [] => n
  | (m, sender) :: rest =>
    if n.elector.replicas.length ≤ m.instId then { n with servicing := [] }
    else
      match m with
      | .primary m =>
        if (n.elector.settledBy m sender).isSome then n.settle cfg m sender rest pended sur
        else { n with elector := n.elector.processPrimary m sender .quiet, servicing := rest }
      | m => { n with elector := n.elector.inBoxRouter second m sender .quiet, servicing := rest }

/-- the elector follows the view changer -/
def vote (x : ViewChangeInput) (sur : Surroundings) : ElectingNode :=
  let viewChanger := n.viewChanger.input cfg (n.surroundings sur) x
  { n with elector := (ViewChanger.startedViews sur n.viewChanger viewChanger).foldl PrimaryElector.startView n.elector,
           viewChanger := viewChanger }

/-- `none` if it cannot happen now -/
def step : ElectingEvent → Option ElectingNode
  | .receive m sender => some (n.receive m sender)
  | .handleNext pended sur => if n.servicing = [] then none else some (n.handleNext second cfg pended sur)
  | .serviceQueues limit => if n.servicing = [] then some (n.serviceQueues limit) else none
  | .own e => if n.servicing = [] ∧ e.isOwn then some { n with elector := n.elector.handle second e } else none
  | .vote x sur => if n.servicing = [] then some (n.vote cfg x sur) else none

end ElectingNode

end Plenum
