/-
Agreement in one view: a pool of `3f + 1` nodes of which at most `f` are byzantine, with the replicas of the master
instance.

- `Pool`, `PoolWorld`, `PoolWorld.step`: the correct replicas run the code; a message of a correct node is delivered to
  anyone, any number of times and at any time after it was sent; a byzantine node, possibly the primary, has anything
  delivered to anyone. Nodes change their requests and databases at will.
- `NodeInv`: the invariant of one correct node, over `InSequence` and `Votes`.
- `PreparesWithCommits`, `AlikeOnly`: the two things that the votes do not secure. A COMMIT names no digest, so a
  replica that gets a quorum of COMMITs orders the PRE-PREPARE it has, without a quorum of PREPAREs for it; and a
  PREPARE does not bind the requests, their number and the ledger of a PRE-PREPARE.
- `ordered_agree`: where both hold, correct replicas that order a batch order the same.
- `commits_overtake_prepares`: where the first one fails, two correct replicas order different batches.
-/
import Mathlib.Tactic
import Plenum.Core.Run
import Plenum.Server.Votes

namespace Plenum

open Plenum.Core
open Relation (ReflTransGen)

variable {ω σ τ : Type}

/-! ## The pool -/

/-- `3f + 1` nodes in one view, at most `f` of them byzantine -/
structure Pool (ω σ τ : Type) where
  names : Finset NodeName
  f : ℕ
  card : names.card = 3 * f + 1
  primary : NodeName
  primary_mem : primary ∈ names
  byzantine : Finset NodeName
  byzantine_card : (names ∩ byzantine).card ≤ f
  viewNo : ℕ
  nodes : NodeName → Node ω σ τ
  name_eq : ∀ i ∈ names, (nodes i).name = i
  f_eq : ∀ i ∈ names, (nodes i).f = f
  viewNo_eq : ∀ i ∈ names, (nodes i).viewNo = viewNo
  isParticipating : ∀ i ∈ names, (nodes i).isParticipating = true

/-- the correct nodes -/
def Pool.correct (P : Pool ω σ τ) : Finset NodeName := P.names \ P.byzantine

theorem Pool.mem_correct {P : Pool ω σ τ} {i : NodeName} : i ∈ P.correct ↔ i ∈ P.names ∧ i ∉ P.byzantine :=
  Finset.mem_sdiff

structure PoolWorld (ω σ τ : Type) where
  replicas : NodeName → RunningReplica ω σ τ
  /-- what was delivered to each node -/
  delivered : NodeName → List InMsg

namespace PoolWorld

/-- new replicas of the master instance -/
def init (env : Env ω σ τ) (P : Pool ω σ τ) : PoolWorld ω σ τ where
  replicas i := ⟨Replica.init env (P.nodes i) 0 true (some (generateName P.primary 0)), []⟩
  delivered _ := []

/-- a message of another node can arrive if that node has sent it, or is byzantine -/
def canArrive (P : Pool ω σ τ) (w : PoolWorld ω σ τ) (i : NodeName) : InMsg → Bool
  | .reqKey _ => true
  | .threePhase m j =>
    decide (j ∈ P.names ∧ j ≠ i ∧ (j ∈ P.byzantine ∨ .threePhase m ∈ (w.replicas j).emitted))
  | .checkpoint ck j =>
    decide (j ∈ P.names ∧ j ≠ i ∧ (j ∈ P.byzantine ∨ .checkpoint ck ∈ (w.replicas j).emitted))

def isEnabled (P : Pool ω σ τ) (w : PoolWorld ω σ τ) (i : NodeName) : ReplicaInput ω σ τ → Bool
  | .receive m => w.canArrive P i m
  | _ => true

/-- one input to one correct replica -/
def step (env : Env ω σ τ) (P : Pool ω σ τ) (w : PoolWorld ω σ τ) (e : NodeName × ReplicaInput ω σ τ) :
    Option (PoolWorld ω σ τ) :=
  if e.1 ∈ P.correct ∧ w.isEnabled P e.1 e.2 then
    some { replicas := Function.update w.replicas e.1 ((w.replicas e.1).input env e.2),
           delivered := match e.2 with
             | .receive m => Function.update w.delivered e.1 (w.delivered e.1 ++ [m])
             | _ => w.delivered }
  else none

end PoolWorld

/-! ## The invariant of one node -/

variable {env : Env ω σ τ} {P : Pool ω σ τ} {w w' : PoolWorld ω σ τ}

/-- what arrived at node `i` from node `j` -/
def CameFrom (P : Pool ω σ τ) (w : PoolWorld ω σ τ) (i : NodeName) (m : ThreePhaseMsg) (j : NodeName) : Prop :=
  j ∈ P.names ∧ j ≠ i ∧ (j ∈ P.byzantine ∨ .threePhase m ∈ (w.replicas j).emitted)

structure NodeInv (P : Pool ω σ τ) (w : PoolWorld ω σ τ) (i : NodeName) : Prop where
  inv : (w.replicas i).Inv (· ∈ w.delivered i)
  votes : Votes i (· ∈ w.delivered i) (w.replicas i).history
  instId : (w.replicas i).history.cfg.instId = 0
  primaryName : (w.replicas i).history.cfg.primaryName = some (generateName P.primary 0)
  f : (w.replicas i).history.cfg.f = P.f
  cameFrom : ∀ m j, .threePhase m j ∈ w.delivered i → CameFrom P w i m j

/-- the node of a backup is not the primary's -/
theorem NodeInv.backup_iff {i : NodeName} (h : NodeInv P w i) :
    (w.replicas i).history.cfg.primaryName ≠ some (w.replicas i).history.cfg.name ↔ i ≠ P.primary := by
  rw [h.primaryName, h.votes.name, h.instId, ne_eq, Option.some.injEq, generateName, generateName, RepName.mk.injEq]
  simp [eq_comm]

namespace NodeInv

variable {i : NodeName}

/-- a step of another node leaves the replica and what was delivered to it as they are, and only adds sent messages -/
theorem of_frame (h : NodeInv P w i) (hr : w'.replicas i = w.replicas i) (hd : w'.delivered i = w.delivered i)
    (hsent : ∀ j, (w.replicas j).emitted ⊆ (w'.replicas j).emitted) : NodeInv P w' i where
  inv := by rw [hr, hd]; exact h.inv
  votes := by rw [hr, hd]; exact h.votes
  instId := by rw [hr]; exact h.instId
  primaryName := by rw [hr]; exact h.primaryName
  f := by rw [hr]; exact h.f
  cameFrom m j hm := by
    rw [hd] at hm
    obtain ⟨h1, h2, h3⟩ := h.cameFrom m j hm
    exact ⟨h1, h2, h3.imp id fun hm => hsent j hm⟩

end NodeInv

/-- what is delivered by a step -/
theorem PoolWorld.delivered_subset {e : NodeName × ReplicaInput ω σ τ} (hs : w.step env P e = some w') (i : NodeName) :
    w.delivered i ⊆ w'.delivered i := by
  obtain ⟨n, input⟩ := e
  unfold PoolWorld.step at hs
  split_ifs at hs
  cases hs
  intro m hm
  cases input with
  | receive m' =>
    by_cases hi : i = n
    · subst hi
      dsimp only
      rw [Function.update_self]
      exact List.mem_append_left _ hm
    · dsimp only
      rw [Function.update_of_ne hi]
      exact hm
  | _ => exact hm

/-- **Every step keeps the invariant of every correct node.** -/
theorem NodeInv.step (h : ∀ i ∈ P.correct, NodeInv P w i) {e : NodeName × ReplicaInput ω σ τ}
    (hs : w.step env P e = some w') : ∀ i ∈ P.correct, NodeInv P w' i := by
  have hsub := PoolWorld.delivered_subset hs
  unfold PoolWorld.step at hs
  split_ifs at hs with hen
  obtain ⟨n, input⟩ := e
  obtain ⟨hn, hen⟩ := hen
  have hw' := (Option.some.inj hs).symm
  have hnode : w'.replicas n = (w.replicas n).input env input := by
    rw [hw']
    exact Function.update_self _ _ _
  have hother : ∀ j, j ≠ n → w'.replicas j = w.replicas j := by
    intro j hj
    rw [hw']
    exact Function.update_of_ne hj _ _
  have hinput : ∀ m, input = .receive m → m ∈ w'.delivered n := by
    rintro m rfl
    rw [hw']
    dsimp only
    rw [Function.update_self]
    exact List.mem_append_right _ (List.mem_singleton.2 rfl)
  have hdelivered : ∀ m, m ∈ w'.delivered n → m ∈ w.delivered n ∨ input = .receive m := by
    intro m hm
    rw [hw'] at hm
    cases input with
    | receive m' =>
      dsimp only at hm
      rw [Function.update_self] at hm
      rcases List.mem_append.1 hm with hm | hm
      · exact Or.inl hm
      · exact Or.inr (by rw [List.mem_singleton.1 hm])
    | _ => exact Or.inl hm
  obtain ⟨hinv, hvotes, hinst, hprimary, hf, hfrom⟩ := h n hn
  have hinv' : (w.replicas n).Inv (· ∈ w'.delivered n) :=
    ⟨⟨hinv.ok.held.mono fun _ hm => hsub n hm, hinv.ok.inOneView⟩, hinv.inSequence⟩
  have hvotes' := hvotes.deliver fun _ hm => hsub n hm
  have hemitted : ∀ j, (w.replicas j).emitted ⊆ (w'.replicas j).emitted := by
    intro j
    by_cases hj : j = n
    · subst hj
      rw [hnode]
      exact RunningReplica.emitted_subset_input env hinv'.ok input hinput
    · rw [hother j hj]
      exact List.Subset.refl _
  intro i hi
  by_cases hin : i = n
  · subst hin
    obtain ⟨hv, hcfg⟩ := RunningReplica.votes_input env hinv' hvotes' input hinput
    refine ⟨?_, ?_, ?_, ?_, ?_, fun m j hm => ?_⟩
    · rw [hnode]; exact hinv'.input input hinput
    · rw [hnode]; exact hv
    · rw [hnode, hcfg]; exact hinst
    · rw [hnode, hcfg]; exact hprimary
    · rw [hnode, hcfg]; exact hf
    · rcases hdelivered _ hm with hm | rfl
      · obtain ⟨h1, h2, h3⟩ := hfrom m j hm
        exact ⟨h1, h2, h3.imp id fun hm => hemitted j hm⟩
      · obtain ⟨h1, h2, h3⟩ := of_decide_eq_true hen
        exact ⟨h1, h2, h3.imp id fun hm => hemitted j hm⟩
  · refine (h i hi).of_frame (hother i hin) ?_ hemitted
    rw [hw']
    cases input with
    | receive m' => exact Function.update_of_ne hin _ _
    | _ => rfl

theorem NodeInv.init (env : Env ω σ τ) (P : Pool ω σ τ) : ∀ i ∈ P.correct, NodeInv P (PoolWorld.init env P) i := by
  intro i hi
  have hname := (Pool.mem_correct.1 hi).1
  exact ⟨RunningReplica.inv_init _ env (P.nodes i) (P.isParticipating i hname) 0 true _,
    RunningReplica.votes_init _ env (P.nodes i) (P.name_eq i hname) 0 true _, rfl, rfl, P.f_eq i hname,
    fun m j hm => absurd hm List.not_mem_nil⟩

/-! ## What the votes do not secure -/

instance (p : Prepare) (pp : PrePrepare) : Decidable (p.Matches pp) :=
  inferInstanceAs (Decidable (p.key = pp.key ∧ p.digest = pp.digest ∧ p.stateRootHash = pp.stateRootHash ∧
    p.txnRootHash = pp.txnRootHash))

namespace PoolWorld

/-- the PRE-PREPAREs that the replica of a node has taken in -/
def accepted (w : PoolWorld ω σ τ) (i : NodeName) : List PrePrepare := (w.replicas i).replica.accepted

/-- a PREPARE of node `j` for `pp` was delivered to node `i` -/
def prepareArrived (w : PoolWorld ω σ τ) (i : NodeName) (pp : PrePrepare) (j : NodeName) : Bool :=
  (w.delivered i).any fun m =>
    match m with
    | .threePhase (.prepare p) n => decide (n = j ∧ p.Matches pp)
    | _ => false

/-- a COMMIT of node `j` for the batch `key` was delivered to node `i` -/
def commitArrived (w : PoolWorld ω σ τ) (i : NodeName) (key : TPCKey) (j : NodeName) : Bool :=
  (w.delivered i).any fun m =>
    match m with
    | .threePhase (.commit cm) n => decide (n = j ∧ cm.key = key)
    | _ => false

/-- the backups whose PREPARE for `pp` node `i` has got, or sent itself -/
def preparers (P : Pool ω σ τ) (w : PoolWorld ω σ τ) (i : NodeName) (pp : PrePrepare) : Finset NodeName :=
  P.names.filter fun j => j ≠ P.primary ∧
    (w.prepareArrived i pp j ∨ (j = i ∧ .threePhase (.prepare (pp.prepare 0)) ∈ (w.replicas i).emitted))

/-- the nodes whose COMMIT for the batch `key` node `i` has got -/
def committers (P : Pool ω σ τ) (w : PoolWorld ω σ τ) (i : NodeName) (key : TPCKey) : Finset NodeName :=
  P.names.filter fun j => w.commitArrived i key j

/-- a backup that has got a quorum of COMMITs for a PRE-PREPARE it took in has a quorum of PREPAREs for it too -/
def PreparesWithCommits (P : Pool ω σ τ) (w : PoolWorld ω σ τ) : Prop :=
  ∀ i ∈ P.correct, i ≠ P.primary → ∀ pp ∈ w.accepted i,
    2 * P.f + 1 ≤ (w.committers P i pp.key).card → 2 * P.f ≤ (w.preparers P i pp).card

/-- PRE-PREPAREs that correct replicas took in for one batch, and that no PREPARE tells apart, have the same accepted
requests and ledger -/
def AlikeOnly (P : Pool ω σ τ) (w : PoolWorld ω σ τ) : Prop :=
  ∀ i ∈ P.correct, ∀ j ∈ P.correct, ∀ pp ∈ w.accepted i, ∀ pp' ∈ w.accepted j, pp.prepare 0 = pp'.prepare 0 →
    pp.reqIdr.take pp.discarded = pp'.reqIdr.take pp'.discarded ∧ pp.ledgerId = pp'.ledgerId

instance (P : Pool ω σ τ) (w : PoolWorld ω σ τ) : Decidable (w.PreparesWithCommits P) :=
  inferInstanceAs (Decidable (∀ i ∈ P.correct, _))

instance (P : Pool ω σ τ) (w : PoolWorld ω σ τ) : Decidable (w.AlikeOnly P) :=
  inferInstanceAs (Decidable (∀ i ∈ P.correct, _))

theorem prepareArrived_iff {i : NodeName} {pp : PrePrepare} {j : NodeName} :
    w.prepareArrived i pp j ↔ ∃ p, .threePhase (.prepare p) j ∈ w.delivered i ∧ p.Matches pp := by
  unfold prepareArrived
  rw [List.any_eq_true]
  constructor
  · rintro ⟨m, hm, hmatch⟩
    split at hmatch
    · obtain ⟨rfl, hp⟩ := of_decide_eq_true hmatch
      exact ⟨_, hm, hp⟩
    · cases hmatch
  · rintro ⟨p, hp, hmatch⟩
    exact ⟨_, hp, decide_eq_true ⟨rfl, hmatch⟩⟩

theorem commitArrived_of_mem {i : NodeName} {cm : Commit} {j : NodeName}
    (h : .threePhase (.commit cm) j ∈ w.delivered i) : w.commitArrived i cm.key j := by
  unfold commitArrived
  rw [List.any_eq_true]
  exact ⟨_, h, decide_eq_true ⟨rfl, rfl⟩⟩

end PoolWorld

/-! ## Agreement -/

namespace NodeInv

variable {i : NodeName}

/-- what a node prepared, it sent: a PREPARE known of a correct node is about a PRE-PREPARE that it took in -/
theorem prepared_of_preparedBy (h : ∀ i ∈ P.correct, NodeInv P w i) (hi : i ∈ P.correct) {pp : PrePrepare} {j : NodeName}
    (hj : j ∈ P.correct) (hprep : (w.replicas i).history.PreparedBy (· ∈ w.delivered i) pp j) :
    ∃ pp' ∈ w.accepted j, pp'.prepare 0 = pp.prepare 0 := by
  have hjInv := h j hj
  rcases hprep with ⟨hji, hown⟩ | ⟨-, p, hp, hmatch⟩
  · rw [(h i hi).votes.name] at hji
    obtain rfl : j = i := hji
    obtain ⟨-, pp', hpp', he⟩ := hjInv.votes.prepares _ hown
    rw [hjInv.instId] at he
    exact ⟨pp', hpp', he.symm⟩
  · obtain ⟨-, -, hsent⟩ := (h i hi).cameFrom _ j hp
    rcases hsent with hbyz | hsent
    · exact absurd hbyz (Pool.mem_correct.1 hj).2
    · obtain ⟨-, pp', hpp', rfl⟩ := hjInv.votes.prepares p hsent
      obtain ⟨hkey, hdigest, hstate, htxn⟩ := hmatch
      refine ⟨pp', hpp', ?_⟩
      have hview : pp'.viewNo = pp.viewNo := congrArg Prod.fst hkey
      have hno : pp'.ppSeqNo = pp.ppSeqNo := congrArg Prod.snd hkey
      have hdigest' : pp'.digest = pp.digest := hdigest
      have hstate' : pp'.stateRootHash = pp.stateRootHash := hstate
      have htxn' : pp'.txnRootHash = pp.txnRootHash := htxn
      unfold PrePrepare.prepare
      rw [hview, hno, hdigest', hstate', htxn']

/-- a node that counts as having prepared is a backup -/
theorem mem_names_of_preparedBy (h : NodeInv P w i) (hi : i ∈ P.correct) (hbackup : i ≠ P.primary) {pp : PrePrepare}
    {j : NodeName} (hprep : (w.replicas i).history.PreparedBy (· ∈ w.delivered i) pp j) : j ∈ P.names.erase P.primary := by
  rcases hprep with ⟨hji, -⟩ | ⟨hnot, p, hp, -⟩
  · rw [h.votes.name] at hji
    obtain rfl : j = i := hji
    exact Finset.mem_erase.2 ⟨hbackup, (Pool.mem_correct.1 hi).1⟩
  · refine Finset.mem_erase.2 ⟨fun hj => hnot ?_, (h.cameFrom _ j hp).1⟩
    rw [h.primaryName, h.instId, hj]

/-- **A backup that orders a batch has a quorum of PREPAREs for it**, where COMMITs do not come without PREPAREs. -/
theorem quorum_of_ordered (h : NodeInv P w i) (hi : i ∈ P.correct) (hbackup : i ≠ P.primary)
    (hsecured : w.PreparesWithCommits P) {o : Ordered} (ho : .ordered o ∈ (w.replicas i).emitted) :
    ∃ pp ∈ w.accepted i, o = pp.toOrdered 0 ∧ ∃ S ⊆ P.names.erase P.primary, 2 * P.f ≤ S.card ∧
      ∀ j ∈ S, (w.replicas i).history.PreparedBy (· ∈ w.delivered i) pp j := by
  obtain ⟨pp, hpp, hoe, S, hcard, hS⟩ := h.votes.ordered o ho
  rw [h.instId] at hoe
  rw [h.f] at hcard
  refine ⟨pp, hpp, hoe, ?_⟩
  by_cases hown : ∃ cm, .threePhase (.commit cm) ∈ (w.replicas i).history.outBox ∧ cm.key = pp.key
  · -- it has sent a COMMIT itself, and so had the quorum then
    obtain ⟨cm, hcm, hkey⟩ := hown
    obtain ⟨T, hTcard, hT⟩ := h.votes.commits cm hcm
    rw [h.f] at hTcard
    have hT' : ∀ j ∈ T, (w.replicas i).history.PreparedBy (· ∈ w.delivered i) pp j := by
      intro j hj
      have hAt := hT j hj
      rw [hkey] at hAt
      exact h.votes.preparedBy_of_preparedAt hpp hAt
    exact ⟨T, fun j hj => h.mem_names_of_preparedBy hi hbackup (hT' j hj), hTcard, hT'⟩
  · -- every COMMIT it counted was delivered
    have hsub : S ⊆ w.committers P i pp.key := by
      intro j hj
      rcases hS j hj with ⟨-, hsent⟩ | ⟨cm, hcm, hkey⟩
      · exact absurd hsent hown
      · have harrived := PoolWorld.commitArrived_of_mem hcm
        rw [hkey] at harrived
        exact Finset.mem_filter.2 ⟨(h.cameFrom _ j hcm).1, harrived⟩
    have hprep := hsecured i hi hbackup pp hpp (hcard.trans (Finset.card_le_card hsub))
    have hprepBy : ∀ j ∈ w.preparers P i pp, (w.replicas i).history.PreparedBy (· ∈ w.delivered i) pp j := by
      intro j hj
      obtain ⟨-, hne, harrived | ⟨rfl, hsent⟩⟩ := Finset.mem_filter.1 hj
      · refine Or.inr ⟨fun hp => hne ?_, PoolWorld.prepareArrived_iff.1 harrived⟩
        rw [h.primaryName, Option.some.injEq] at hp
        exact (congrArg RepName.node hp).symm
      · refine Or.inl ⟨?_, ?_⟩
        · rw [h.votes.name]
          rfl
        · rw [h.instId]
          exact hsent
    exact ⟨_, fun j hj => h.mem_names_of_preparedBy hi hbackup (hprepBy j hj), hprep, hprepBy⟩

/-- with a correct primary every replica takes in what the primary has made -/
theorem accepted_by_primary (h : ∀ i ∈ P.correct, NodeInv P w i) (hprimary : P.primary ∈ P.correct)
    (hi : i ∈ P.correct) {pp : PrePrepare} (hpp : pp ∈ w.accepted i) : pp ∈ w.accepted P.primary := by
  by_cases hbackup : i = P.primary
  · rwa [hbackup] at hpp
  · have hiInv := h i hi
    obtain ⟨j, hj, hm⟩ := hiInv.votes.received (hiInv.backup_iff.2 hbackup) pp hpp
    rw [hiInv.primaryName, Option.some.injEq] at hj
    obtain rfl : P.primary = j := congrArg RepName.node hj
    obtain ⟨-, -, hsent⟩ := hiInv.cameFrom _ _ hm
    rcases hsent with hbyz | hsent
    · exact absurd hbyz (Pool.mem_correct.1 hprimary).2
    · exact (h _ hprimary).votes.prePrepares pp hsent

end NodeInv

/-- two PRE-PREPAREs of a batch that correct replicas order are not told apart by any PREPARE -/
theorem prepare_eq_of_ordered (h : ∀ i ∈ P.correct, NodeInv P w i) (hsecured : w.PreparesWithCommits P)
    {i j : NodeName} (hi : i ∈ P.correct) (hj : j ∈ P.correct) {o o' : Ordered}
    (ho : .ordered o ∈ (w.replicas i).emitted) (ho' : .ordered o' ∈ (w.replicas j).emitted) (hkey : o.key = o'.key) :
    ∃ pp ∈ w.accepted i, ∃ pp' ∈ w.accepted j, o = pp.toOrdered 0 ∧ o' = pp'.toOrdered 0 ∧
      pp.prepare 0 = pp'.prepare 0 := by
  by_cases hprimary : P.primary ∈ P.correct
  · -- both are what the primary made of the batch
    obtain ⟨pp, hpp, hoe, -⟩ := (h i hi).votes.ordered o ho
    obtain ⟨pp', hpp', hoe', -⟩ := (h j hj).votes.ordered o' ho'
    rw [(h i hi).instId] at hoe
    rw [(h j hj).instId] at hoe'
    have hsame : pp = pp' := by
      refine (h _ hprimary).votes.unique (NodeInv.accepted_by_primary h hprimary hi hpp)
        (NodeInv.accepted_by_primary h hprimary hj hpp') ?_
      rw [hoe, hoe'] at hkey
      exact hkey
    exact ⟨pp, hpp, pp', hpp', hoe, hoe', by rw [hsame]⟩
  · -- both have a quorum of PREPAREs of backups, among which the byzantine ones are fewer than `f`
    have hbyz : P.primary ∈ P.byzantine := by
      by_contra hnot
      exact hprimary (Pool.mem_correct.2 ⟨P.primary_mem, hnot⟩)
    have hbackup : ∀ n ∈ P.correct, n ≠ P.primary := by
      rintro n hn rfl
      exact hprimary hn
    obtain ⟨pp, hpp, hoe, S, hSsub, hScard, hS⟩ := (h i hi).quorum_of_ordered hi (hbackup i hi) hsecured ho
    obtain ⟨pp', hpp', hoe', T, hTsub, hTcard, hT⟩ := (h j hj).quorum_of_ordered hj (hbackup j hj) hsecured ho'
    have hcount : (P.names.erase P.primary).card = 3 * P.f := by
      rw [Finset.card_erase_of_mem P.primary_mem, P.card]
      rfl
    have hfaulty : (P.names.erase P.primary ∩ P.byzantine).card + 1 ≤ P.f := by
      rw [Finset.erase_inter, Finset.card_erase_of_mem (Finset.mem_inter.2 ⟨P.primary_mem, hbyz⟩)]
      have hpos : 0 < (P.names ∩ P.byzantine).card := Finset.card_pos.2 ⟨_, Finset.mem_inter.2 ⟨P.primary_mem, hbyz⟩⟩
      have hle := P.byzantine_card
      omega
    obtain ⟨n, hnS, hnT, hn⟩ := exists_correct_mem_inter hSsub hTsub (Nat.le_sub_of_add_le hfaulty) (by omega)
    have hncorrect : n ∈ P.correct := Pool.mem_correct.2 ⟨(Finset.mem_erase.1 (hSsub hnS)).2, hn⟩
    obtain ⟨q, hq, hqe⟩ := NodeInv.prepared_of_preparedBy h hi hncorrect (hS n hnS)
    obtain ⟨q', hq', hqe'⟩ := NodeInv.prepared_of_preparedBy h hj hncorrect (hT n hnT)
    have hqq : q = q' := by
      refine (h n hncorrect).votes.unique hq hq' ?_
      have h1 : q.key = pp.key := congrArg Prepare.key hqe
      have h2 : q'.key = pp'.key := congrArg Prepare.key hqe'
      rw [hoe, hoe'] at hkey
      exact h1.trans (Eq.trans hkey h2.symm)
    exact ⟨pp, hpp, pp', hpp', hoe, hoe', by rw [← hqe, ← hqe', hqq]⟩

/-- **Agreement in one view.** In every run in which quorums of COMMITs come with quorums of PREPAREs, and PRE-PREPAREs
that PREPAREs do not tell apart are alike, two correct replicas that order a batch order the same requests of the same
ledger, with the same roots. -/
theorem ordered_agree (env : Env ω σ τ) (P : Pool ω σ τ) {w : PoolWorld ω σ τ}
    (hr : Reach (PoolWorld.step env P) (fun _ _ w' => w'.PreparesWithCommits P ∧ w'.AlikeOnly P)
      (PoolWorld.init env P) w)
    {i j : NodeName} (hi : i ∈ P.correct) (hj : j ∈ P.correct) {o o' : Ordered}
    (ho : .ordered o ∈ (w.replicas i).emitted) (ho' : .ordered o' ∈ (w.replicas j).emitted) (hkey : o.key = o'.key) :
    o.reqIdr = o'.reqIdr ∧ o.ledgerId = o'.ledgerId ∧ o.stateRootHash = o'.stateRootHash ∧
      o.txnRootHash = o'.txnRootHash := by
  have hinv : ∀ i ∈ P.correct, NodeInv P w i :=
    hr.inv (I := fun w => ∀ i ∈ P.correct, NodeInv P w i) (NodeInv.init env P) fun _ _ _ h hs _ => NodeInv.step h hs
  cases hr with
  | refl => exact absurd ho List.not_mem_nil
  | step _ _ hok =>
    obtain ⟨pp, hpp, pp', hpp', rfl, rfl, hprepare⟩ := prepare_eq_of_ordered hinv hok.1 hi hj ho ho' hkey
    obtain ⟨hreqs, hledger⟩ := hok.2 i hi j hj pp hpp pp' hpp' hprepare
    have hstate : (pp.prepare 0).stateRootHash = (pp'.prepare 0).stateRootHash := by rw [hprepare]
    have htxn : (pp.prepare 0).txnRootHash = (pp'.prepare 0).txnRootHash := by rw [hprepare]
    exact ⟨hreqs, hledger, hstate, htxn⟩

/-! ## Witnesses -/

namespace FourNodes

theorem alpha_mem : "Alpha" ∈ ({"Alpha", "Beta", "Gamma", "Delta"} : Finset NodeName) := by decide

/-- the four nodes, each with two finalised requests -/
def pool (byzantine : Finset NodeName)
    (h : (({"Alpha", "Beta", "Gamma", "Delta"} : Finset NodeName) ∩ byzantine).card ≤ 1) : Pool Bool ℕ ReqKey where
  names := {"Alpha", "Beta", "Gamma", "Delta"}
  f := 1
  card := by decide
  primary := "Alpha"
  primary_mem := alpha_mem
  byzantine := byzantine
  byzantine_card := h
  viewNo := 0
  nodes := twoRequests
  name_eq _ _ := rfl
  f_eq _ _ := rfl
  viewNo_eq _ _ := rfl
  isParticipating _ _ := rfl

def deliver (m : ThreePhaseMsg) (sender receiver : NodeName) : NodeName × ReplicaInput Bool ℕ ReqKey :=
  (receiver, .receive (.threePhase m sender))

def service (n : NodeName) : NodeName × ReplicaInput Bool ℕ ReqKey := (n, .serviceQueues 10 none 0 0)

def prepareOf (pp : PrePrepare) : ThreePhaseMsg := .prepare (pp.prepare 0)

def commitOf (pp : PrePrepare) : ThreePhaseMsg := .commit ⟨0, pp.viewNo, pp.ppSeqNo⟩

/-- Alpha sends the batch `ppBeta` to Beta and the batch `pp` to Gamma and Delta; Beta gets the COMMITs of Gamma and
Delta and none of their PREPAREs -/
def equivocation (ppBeta pp : PrePrepare) : List (NodeName × ReplicaInput Bool ℕ ReqKey) :=
  [deliver (.prePrepare ppBeta) "Alpha" "Beta", deliver (.prePrepare pp) "Alpha" "Gamma",
    deliver (.prePrepare pp) "Alpha" "Delta", service "Beta", service "Gamma", service "Delta",
    deliver (prepareOf pp) "Delta" "Gamma", deliver (prepareOf pp) "Gamma" "Delta", service "Gamma", service "Delta",
    deliver (commitOf pp) "Alpha" "Gamma", deliver (commitOf pp) "Delta" "Gamma", service "Gamma",
    deliver (commitOf pp) "Alpha" "Beta", deliver (commitOf pp) "Gamma" "Beta", deliver (commitOf pp) "Delta" "Beta",
    service "Beta"]

/-- Alpha is correct and makes the batch `pp`; Delta is silent -/
def silentDelta (pp : PrePrepare) : List (NodeName × ReplicaInput Bool ℕ ReqKey) :=
  [("Alpha", .receive (.reqKey ("client", 1))), service "Alpha", deliver (.prePrepare pp) "Alpha" "Beta",
    deliver (.prePrepare pp) "Alpha" "Gamma", service "Beta", service "Gamma", deliver (prepareOf pp) "Gamma" "Beta",
    deliver (prepareOf pp) "Beta" "Gamma", deliver (prepareOf pp) "Beta" "Alpha",
    deliver (prepareOf pp) "Gamma" "Alpha", service "Alpha", service "Beta", service "Gamma",
    deliver (commitOf pp) "Alpha" "Beta", deliver (commitOf pp) "Gamma" "Beta", service "Beta",
    deliver (commitOf pp) "Alpha" "Gamma", deliver (commitOf pp) "Beta" "Gamma", service "Gamma"]

end FourNodes

open FourNodes in
/-- **COMMITs that overtake PREPAREs break agreement**: with Alpha byzantine, Beta and Gamma order different requests as
the first batch. -/
theorem commits_overtake_prepares :
    ∃ w, Reach (PoolWorld.step (FourNodes.env 10) (pool {"Alpha"} (by decide))) (fun _ _ _ => True)
        (PoolWorld.init (FourNodes.env 10) (pool {"Alpha"} (by decide))) w ∧
      "Beta" ∈ (pool {"Alpha"} (by decide)).correct ∧ "Gamma" ∈ (pool {"Alpha"} (by decide)).correct ∧
      ∃ o o', .ordered o ∈ (w.replicas "Beta").emitted ∧ .ordered o' ∈ (w.replicas "Gamma").emitted ∧
        o.key = (0, 1) ∧ o'.key = (0, 1) ∧ o.reqIdr = [("client", 1)] ∧ o'.reqIdr = [("client", 2)] :=
  ⟨_, reach_get (equivocation (prePrepare 1 (request 1 "a")) (prePrepare 1 (request 2 "b"))) (by decide +kernel),
    by decide, by decide, (prePrepare 1 (request 1 "a")).toOrdered 0, (prePrepare 1 (request 2 "b")).toOrdered 0,
    by decide +kernel, by decide +kernel, rfl, rfl, rfl, rfl⟩

open FourNodes in
theorem silentDelta_runs : (runAll (PoolWorld.step (FourNodes.env 10) (pool {"Delta"} (by decide)))
    (fun _ _ w' => w'.PreparesWithCommits (pool {"Delta"} (by decide)) ∧ w'.AlikeOnly (pool {"Delta"} (by decide)))
    (PoolWorld.init (FourNodes.env 10) (pool {"Delta"} (by decide)))
    (silentDelta (prePrepare 1 (request 1 "a")))).isSome := by decide +kernel

open FourNodes in
theorem ordered_agree_silentDelta :
    ∃ w : PoolWorld Bool ℕ ReqKey, ∃ o o', .ordered o ∈ (w.replicas "Beta").emitted ∧
      .ordered o' ∈ (w.replicas "Gamma").emitted ∧ o.key = o'.key ∧ o.reqIdr = o'.reqIdr := by
  have ho : .ordered ((prePrepare 1 (request 1 "a")).toOrdered 0) ∈
      (((runAll _ _ _ _).get silentDelta_runs).replicas "Beta").emitted := by decide +kernel
  have ho' : .ordered ((prePrepare 1 (request 1 "a")).toOrdered 0) ∈
      (((runAll _ _ _ _).get silentDelta_runs).replicas "Gamma").emitted := by decide +kernel
  have hagree := ordered_agree (FourNodes.env 10) (pool {"Delta"} (by decide)) (reach_get _ silentDelta_runs) (by decide)
    (by decide) ho ho' rfl
  exact ⟨_, _, _, ho, ho', rfl, hagree.1⟩

end Plenum
