/-
How many PROPAGATEs a request needs to be forwarded.

- `addPropagateAndTry`: a PROPAGATE is recorded, and the node tries to forward the request; `afterPropagates` is a
  sequence of these.
- `propagators`: the nodes whose latest PROPAGATE for the key has the content.
- `Pending`: while no content has more than f + 1 propagators, the store holds the latest PROPAGATEs and nothing else
  has happened to the request.
- `forwards_with_weakQuorum_iff`: so the node forwards with the weak quorum in those sequences only in which no request
  ever gets one.
-/
import Mathlib.Tactic
import Plenum.Scenarios.FourNodes
import Plenum.Server.Node

namespace Plenum

open Plenum.Core Plenum.Core.Exec

variable {ω σ τ : Type} [DecidableEq ω]

/-! ## Model -/

namespace RunningNode

/-- `requests.addPropagate(request, sender)`, then `tryForwarding(request)` -/
def addPropagateAndTry (request : Request ω) (sender : NodeName) : NodeM ω σ τ Unit := do
  modify fun s => s.setRequests (s.node.requests.addPropagate request sender)
  tryForwarding request

/-- the node after a sequence of PROPAGATEs -/
def afterPropagates (s : RunningNode ω σ τ) (calls : List (Request ω × NodeName)) : RunningNode ω σ τ :=
  calls.foldl (fun s c => (exec (addPropagateAndTry c.1 c.2) s).2) s

theorem afterPropagates_concat (s : RunningNode ω σ τ) (calls : List (Request ω × NodeName))
    (c : Request ω × NodeName) :
    s.afterPropagates (calls ++ [c]) = (exec (addPropagateAndTry c.1 c.2) (s.afterPropagates calls)).2 := by
  rw [afterPropagates, afterPropagates, List.foldl_append]
  rfl

end RunningNode

/-! ## Who has propagated what -/

/-- the latest PROPAGATE of a node for a key -/
def latestPropagate (calls : List (Request ω × NodeName)) (key : ReqKey) (sender : NodeName) : Option (Request ω) :=
  ((calls.filter fun c => c.1.key = key ∧ c.2 = sender).getLast?).map Prod.fst

/-- the nodes that have propagated the content, and nothing else since -/
def propagators (calls : List (Request ω × NodeName)) (content : Request ω) : Finset NodeName :=
  (calls.map Prod.snd).toFinset.filter fun n => latestPropagate calls content.key n = some content

omit [DecidableEq ω] in
theorem latestPropagate_concat (calls : List (Request ω × NodeName)) (c : Request ω × NodeName) (key : ReqKey)
    (sender : NodeName) : latestPropagate (calls ++ [c]) key sender =
      if c.1.key = key ∧ c.2 = sender then some c.1 else latestPropagate calls key sender := by
  unfold latestPropagate
  rw [List.filter_append]
  split_ifs with h
  · rw [List.filter_cons_of_pos (by simpa using h), List.filter_nil, List.getLast?_concat]
    rfl
  · rw [List.filter_cons_of_neg (by simpa using h), List.filter_nil, List.append_nil]

omit [DecidableEq ω] in
theorem mem_senders_of_latestPropagate {calls : List (Request ω × NodeName)} {key : ReqKey} {sender : NodeName}
    {r : Request ω} (h : latestPropagate calls key sender = some r) : sender ∈ calls.map Prod.snd := by
  obtain ⟨c, hc, -⟩ := Option.map_eq_some_iff.1 h
  obtain ⟨hmem, hp⟩ := List.mem_filter.1 (List.mem_of_getLast? hc)
  have hsender : c.2 = sender := (of_decide_eq_true hp).2
  exact List.mem_map.2 ⟨c, hmem, hsender⟩

theorem mem_propagators {calls : List (Request ω × NodeName)} {content : Request ω} {n : NodeName} :
    n ∈ propagators calls content ↔ latestPropagate calls content.key n = some content := by
  unfold propagators
  rw [Finset.mem_filter, List.mem_toFinset]
  exact and_iff_right_of_imp mem_senders_of_latestPropagate

/-- one more PROPAGATE adds at most one propagator -/
theorem card_propagators_concat_le (calls : List (Request ω × NodeName)) (c : Request ω × NodeName)
    (content : Request ω) : (propagators (calls ++ [c]) content).card ≤ (propagators calls content).card + 1 := by
  refine (Finset.card_le_card fun n hn => ?_).trans (Finset.card_insert_le c.2 _)
  rw [mem_propagators, latestPropagate_concat] at hn
  rw [Finset.mem_insert, mem_propagators]
  split_ifs at hn with h
  · exact Or.inl h.2.symm
  · exact Or.inr hn

theorem card_propagators_le_length (calls : List (Request ω × NodeName)) (content : Request ω) :
    (propagators calls content).card ≤ calls.length := by
  refine (Finset.card_filter_le _ _).trans ((List.toFinset_card_le _).trans ?_)
  rw [List.length_map]

/-! ## Requests that are not forwarded yet -/

namespace Requests

omit [DecidableEq ω] in
theorem get?_addPropagate (rs : Requests ω) (req : Request ω) (sender : NodeName) (k : ReqKey) :
    (rs.addPropagate req sender).get? k =
      if k = req.key then
        some { (rs.get? k).getD (ReqState.new req) with
          propagates := ((rs.get? k).getD (ReqState.new req)).propagates.set sender req }
      else rs.get? k := by
  unfold addPropagate
  rw [get?_update, get?_add, get?_add, if_pos rfl]
  by_cases hk : k = req.key
  · subst hk
    rw [if_pos rfl, if_pos rfl]
    rfl
  · rw [if_neg hk, if_neg hk, if_neg hk]

/-- a request that may not be forwarded has no majority among its PROPAGATEs -/
theorem canForward_of_finalise_eq {rs : Requests ω} {req : Request ω} {st : ReqState ω} {requiredVotes : ℕ}
    (hst : rs.get? req.key = some st) (hforwarded : st.forwarded = false) (hfinalised : st.finalised = none)
    (hvotes : checkIfMoreThanFSameItems st.propagates.values requiredVotes = none) :
    rs.canForward req requiredVotes = (false, rs.set req.key st) := by
  have hfin : st.finalise requiredVotes = st := by
    obtain ⟨request, forwarded, forwardedTo, propagates, finalised⟩ := st
    cases hfinalised
    unfold ReqState.finalise
    dsimp only at hvotes ⊢
    rw [hvotes]
  unfold canForward
  rw [hst]
  dsimp only
  rw [hforwarded, hfin, hfinalised]
  rfl

end Requests

namespace RunningNode

theorem exec_tryForwarding (request : Request ω) (s : RunningNode ω σ τ) :
    exec (tryForwarding request) s =
      exec (if (s.node.requests.canForward request (s.node.f + 1)).1 then forward request else pure ())
        (s.setRequests (s.node.requests.canForward request (s.node.f + 1)).2) := by
  unfold tryForwarding
  rw [exec_bind, exec_get]
  rfl

theorem exec_addPropagateAndTry (request : Request ω) (sender : NodeName) (s : RunningNode ω σ τ) :
    exec (addPropagateAndTry request sender) s =
      exec (tryForwarding request) (s.setRequests (s.node.requests.addPropagate request sender)) := by
  unfold addPropagateAndTry
  rw [exec_bind, exec_modify]

/-- a request has got PROPAGATEs, and nothing more -/
structure Pending (s : RunningNode ω σ τ) (calls : List (Request ω × NodeName)) (key : ReqKey) : Prop where
  stored : ∀ st, s.node.requests.get? key = some st →
    (∀ n, st.propagates.get? n = latestPropagate calls key n) ∧ st.finalised = none ∧ st.forwarded = false
  absent : s.node.requests.get? key = none → ∀ n, latestPropagate calls key n = none
  notForwarded : key ∉ s.forwarded

omit [DecidableEq ω] in
theorem Pending.finalised? {s : RunningNode ω σ τ} {calls : List (Request ω × NodeName)} {key : ReqKey}
    (h : s.Pending calls key) : s.node.requests.finalised? key = none := by
  unfold Requests.finalised?
  cases hst : s.node.requests.get? key with
  | none => rfl
  | some st => exact (h.stored st hst).2.1

/-- counting the stored PROPAGATEs counts the propagators -/
theorem count_values_eq {d : Dict NodeName (Request ω)} {calls : List (Request ω × NodeName)} {content : Request ω}
    (h : ∀ n, d.get? n = latestPropagate calls content.key n) :
    d.values.count content = (propagators calls content).card := by
  rw [List.count, Dict.countP_values]
  congr 1
  ext n
  rw [Finset.mem_filter, List.mem_toFinset, mem_propagators, ← h]
  constructor
  · rintro ⟨-, hany⟩
    obtain ⟨r, hr, heq⟩ := (Option.any_eq_true _ _).1 hany
    rw [hr, LawfulBEq.eq_of_beq heq]
  · intro hget
    refine ⟨Dict.mem_fst.2 ⟨content, Dict.get?_eq_some.1 hget⟩, ?_⟩
    rw [hget]
    simp

/-- **A PROPAGATE that gives no content more than f + 1 propagators changes nothing else.** -/
theorem Pending.step {s : RunningNode ω σ τ} {calls : List (Request ω × NodeName)} {key : ReqKey}
    {c : Request ω × NodeName} (h : ∀ k, s.Pending calls k)
    (hcard : ∀ content, (propagators (calls ++ [c]) content).card ≤ s.node.f + 1) :
    ((exec (addPropagateAndTry c.1 c.2) s).2).Pending (calls ++ [c]) key := by
  obtain ⟨req, sender⟩ := c
  dsimp only at hcard ⊢
  -- the entry of the request
  have hget : ∃ st, (s.node.requests.addPropagate req sender).get? req.key = some st ∧
      (∀ n, st.propagates.get? n = latestPropagate (calls ++ [(req, sender)]) req.key n) ∧ st.finalised = none ∧
      st.forwarded = false := by
    rw [Requests.get?_addPropagate, if_pos rfl]
    refine ⟨_, rfl, fun n => ?_, ?_⟩
    · rw [Dict.get?_set, latestPropagate_concat]
      by_cases hn : n = sender
      · rw [if_pos hn, if_pos ⟨rfl, hn.symm⟩]
      · rw [if_neg hn, if_neg fun he => hn he.2.symm]
        cases hst : s.node.requests.get? req.key with
        | none => exact ((h req.key).absent hst n).symm
        | some st => exact ((h req.key).stored st hst).1 n
    · cases hst : s.node.requests.get? req.key with
      | none => exact ⟨rfl, rfl⟩
      | some st => exact ((h req.key).stored st hst).2
  obtain ⟨st, hst, hlatest, hfinalised, hforwarded⟩ := hget
  have hvotes : checkIfMoreThanFSameItems st.propagates.values (s.node.f + 1) = none := by
    by_contra hne
    obtain ⟨content, hcontent⟩ := Option.ne_none_iff_exists'.1 hne
    obtain ⟨hmem, hlt⟩ := checkIfMoreThanFSameItems_eq_some hcontent
    have hkey : content.key = req.key := by
      obtain ⟨e, he, rfl⟩ := List.mem_map.1 hmem
      have hl := (hlatest e.1).symm.trans (Dict.get?_eq_some.2 he)
      obtain ⟨c, hc, hc'⟩ := Option.map_eq_some_iff.1 hl
      rw [← hc']
      exact (of_decide_eq_true (List.mem_filter.1 (List.mem_of_getLast? hc)).2).1
    rw [count_values_eq (by rwa [hkey])] at hlt
    exact absurd (hcard content) (not_le.2 hlt)
  have hcan := Requests.canForward_of_finalise_eq hst hforwarded hfinalised hvotes
  have hexec : (exec (addPropagateAndTry req sender) s).2 =
      s.setRequests ((s.node.requests.addPropagate req sender).set req.key st) := by
    rw [exec_addPropagateAndTry, exec_tryForwarding]
    change (exec (if ((s.node.requests.addPropagate req sender).canForward req (s.node.f + 1)).1 then _ else _)
      (s.setRequests ((s.node.requests.addPropagate req sender).canForward req (s.node.f + 1)).2)).2 = _
    rw [hcan]
    rfl
  rw [hexec]
  by_cases hk : key = req.key
  · subst hk
    refine ⟨fun st' hst' => ?_, fun hnone => ?_, (h req.key).notForwarded⟩
    · have he : st = st' := Option.some.inj ((Dict.get?_set_self _ _ _).symm.trans hst')
      rw [← he]
      exact ⟨hlatest, hfinalised, hforwarded⟩
    · cases (Dict.get?_set_self _ _ _).symm.trans hnone
  · have hsame : ((s.node.requests.addPropagate req sender).set req.key st).get? key = s.node.requests.get? key := by
      rw [Dict.get?_set_ne _ _ hk, Requests.get?_addPropagate, if_neg hk]
    have hlat : ∀ n, latestPropagate (calls ++ [(req, sender)]) key n = latestPropagate calls key n := fun n => by
      rw [latestPropagate_concat, if_neg fun he => hk he.1.symm]
    refine ⟨fun st' hst' => ?_, fun hnone n => ?_, (h key).notForwarded⟩
    · obtain ⟨h1, h2⟩ := (h key).stored st' (hsame ▸ hst')
      exact ⟨fun n => (h1 n).trans (hlat n).symm, h2⟩
    · rw [hlat]
      exact (h key).absent (hsame ▸ hnone) n

/-- a call leaves the number of failures to tolerate -/
theorem f_addPropagateAndTry (request : Request ω) (sender : NodeName) (s : RunningNode ω σ τ) :
    (exec (addPropagateAndTry request sender) s).2.node.f = s.node.f := by
  rw [exec_addPropagateAndTry, exec_tryForwarding]
  split_ifs <;> rfl

theorem f_afterPropagates (s : RunningNode ω σ τ) (calls : List (Request ω × NodeName)) :
    (s.afterPropagates calls).node.f = s.node.f := by
  induction calls using List.reverseRecOn with
  | nil => rfl
  | append_singleton calls c ih => rw [afterPropagates_concat, f_addPropagateAndTry, ih]

/-- a node that has got no PROPAGATE yet -/
structure Fresh (s : RunningNode ω σ τ) : Prop where
  requests : s.node.requests = Dict.empty
  forwarded : s.forwarded = []

/-- nothing is forwarded as long as no content has more than f + 1 propagators -/
theorem Fresh.pending {s : RunningNode ω σ τ} (hs : s.Fresh) {calls : List (Request ω × NodeName)}
    (hcard : ∀ p, p <+: calls → ∀ content, (propagators p content).card ≤ s.node.f + 1) (key : ReqKey) :
    (s.afterPropagates calls).Pending calls key := by
  induction calls using List.reverseRecOn generalizing key with
  | nil =>
    refine ⟨fun st hst => ?_, fun _ _ => rfl, ?_⟩
    · have hnone : s.node.requests.get? key = none := by rw [hs.requests]; rfl
      cases hnone.symm.trans hst
    · change key ∉ s.forwarded
      rw [hs.forwarded]
      exact List.not_mem_nil
  | append_singleton calls c ih =>
    rw [afterPropagates_concat]
    refine Pending.step (fun k => ih (fun p hp => hcard p (hp.trans (List.prefix_append _ _))) k) fun content => ?_
    rw [f_afterPropagates]
    exact hcard _ List.prefix_rfl content

/-! ## The weak quorum -/

/-- a content gets the weak quorum at the end of the calls, and no content for the key has had it before -/
structure ReachesQuorum (f : ℕ) (calls : List (Request ω × NodeName)) (content : Request ω) : Prop where
  now : f + 1 ≤ (propagators calls content).card
  before : ∀ p, p <+: calls → p ≠ calls → ∀ c, c.key = content.key → (propagators p c).card ≤ f

/-- at any time: a request without a weak quorum so far is neither finalised nor forwarded, and one that has got it is
finalised with the content that got it first, and has been forwarded to every replica once -/
def ForwardsWithWeakQuorum (s : RunningNode ω σ τ) (calls : List (Request ω × NodeName)) : Prop :=
  ∀ p, p <+: calls →
    (∀ key, (∀ p', p' <+: p → ∀ c, c.key = key → (propagators p' c).card ≤ s.node.f) →
      (s.afterPropagates p).node.requests.finalised? key = none ∧ key ∉ (s.afterPropagates p).forwarded) ∧
    ∀ p' content, p' <+: p → ReachesQuorum s.node.f p' content →
      (s.afterPropagates p).node.requests.finalised? content.key = some content ∧
        (s.afterPropagates p).forwarded.count content.key = 1 ∧
        ∀ q ∈ (s.afterPropagates p).msgsToReplicas, q.count (.reqKey content.key) = 1

end RunningNode

open RunningNode in
/-- **A request is forwarded with the weak quorum only if none ever gets it.** `tryForwarding` asks for more than f + 1
equal PROPAGATEs: at the moment when a content has f + 1 propagators, nothing is finalised. -/
theorem forwards_with_weakQuorum_iff {s : RunningNode ω σ τ} (hs : s.Fresh) (calls : List (Request ω × NodeName)) :
    s.ForwardsWithWeakQuorum calls ↔ ∀ p, p <+: calls → ∀ content, (propagators p content).card ≤ s.node.f := by
  constructor
  · intro h
    by_contra hne
    simp only [not_forall, not_le] at hne
    obtain ⟨p0, hp0, content0, hlt0⟩ := hne
    -- the shortest prefix with a weak quorum
    have hex : ∃ n, ∃ p, p <+: calls ∧ p.length = n ∧ ∃ content, s.node.f < (propagators p content).card :=
      ⟨_, p0, hp0, rfl, content0, hlt0⟩
    classical
    obtain ⟨p, hp, hlen, content, hlt⟩ := Nat.find_spec hex
    have hbefore : ∀ p', p' <+: p → p' ≠ p → ∀ c, (propagators p' c).card ≤ s.node.f := by
      intro p' hp' hne c
      by_contra hc
      have hshort : p'.length < p.length :=
        lt_of_le_of_ne hp'.length_le fun he => hne (hp'.eq_of_length he)
      exact Nat.find_min hex (hlen ▸ hshort) ⟨p', hp'.trans hp, rfl, c, not_le.1 hc⟩
    have hreaches : ReachesQuorum s.node.f p content := ⟨hlt, fun p' hp' hne c _ => hbefore p' hp' hne c⟩
    have hpending : (s.afterPropagates p).Pending p content.key := by
      refine hs.pending (fun p' hp' c => ?_) _
      by_cases he : p' = p
      · subst he
        rcases List.eq_nil_or_concat' p' with rfl | ⟨l, c', rfl⟩
        · exact Nat.zero_le _
        · refine (card_propagators_concat_le l c' c).trans (Nat.succ_le_succ ?_)
          exact hbefore l (List.prefix_append _ _) (by simp) c
      · exact (hbefore p' hp' he c).trans (Nat.le_succ _)
    have hfinalised := ((h p hp).2 p content List.prefix_rfl hreaches).1
    rw [hpending.finalised?] at hfinalised
    cases hfinalised
  · intro h p hp
    have hpending := fun key => hs.pending (fun p' hp' c => (h p' (hp'.trans hp) c).trans (Nat.le_succ _)) key
    refine ⟨fun key _ => ⟨(hpending key).finalised?, (hpending key).notForwarded⟩, fun p' content hp' hreaches => ?_⟩
    exact absurd (h p' (hp'.trans hp) content) (not_le.2 hreaches.now)

/-! ## Witness and counterexample -/

namespace FourNodes

/-- a node of a pool of four, with two replicas, before any PROPAGATE -/
def freshNode : RunningNode Bool ℕ ReqKey :=
  RunningNode.init ⟨env 1, id, fun _ => 0⟩ (node "Alpha" Dict.empty) [some primary, some (generateName "Gamma" 1)]

theorem freshNode_fresh : freshNode.Fresh := ⟨rfl, rfl⟩

/-- the same request from two nodes -/
def twoPropagates : List (Request Bool × NodeName) := [(request 1 "a", "Beta"), (request 1 "a", "Gamma")]

end FourNodes

open FourNodes RunningNode in
/-- two of four nodes propagate a request, and it is not finalised -/
theorem not_forwarded_with_two :
    ¬ ∀ calls : List (Request Bool × NodeName), freshNode.ForwardsWithWeakQuorum calls := by
  intro h
  have hreaches : ReachesQuorum freshNode.node.f twoPropagates (request 1 "a") := by
    refine ⟨by decide, fun p hp hne c _ => (card_propagators_le_length p c).trans ?_⟩
    have hlen : p.length < twoPropagates.length := lt_of_le_of_ne hp.length_le fun he => hne (hp.eq_of_length he)
    exact Nat.lt_succ_iff.1 hlen
  have hfinalised := ((h twoPropagates twoPropagates List.prefix_rfl).2 twoPropagates (request 1 "a") List.prefix_rfl
    hreaches).1
  exact absurd hfinalised (by decide)

open FourNodes RunningNode in
/-- with one PROPAGATE there is nothing to forward yet -/
theorem forwards_with_weakQuorum_one : freshNode.ForwardsWithWeakQuorum [(request 1 "a", "Beta")] := by
  refine (forwards_with_weakQuorum_iff freshNode_fresh [(request 1 "a", "Beta")]).2 fun p hp content => ?_
  exact (card_propagators_le_length p content).trans hp.length_le

end Plenum
