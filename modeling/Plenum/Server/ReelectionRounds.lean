/-
The rounds of a re-election, and when the nodes stay in step.

- `Completes`: a step completes the quorum of proposals, with a REELECTION of a round that is processed or sent.
- `InStep`: the node starts the next round then, its counter is the round of that REELECTION, and until the election
  starts anew the node expects and sends REELECTIONs of the round after it.
- The counter is only advanced when the node proposes: a node that has not proposed starts the next round with the old
  counter. And its own proposal does not start a round, even if it completes the quorum.
- `run_inStep_iff`: in every run each step is in step exactly if, whenever a quorum is completed, a received proposal
  completes it and the own one is among those recorded (`ProposedBefore`).
-/
import Mathlib.Tactic
import Plenum.Scenarios.FourElectors
import Plenum.Server.PrimaryQuorum

namespace Plenum

open Plenum.Core Relation

namespace PrimaryElector

variable {second : ℕ} {c : Cause} {s s' s'' : PrimaryElector} {i : ℕ}

/-! ## The quorum of proposals -/

/-- the REELECTION is recorded: it is of the expected round, and the first one of its sender -/
def Records (s : PrimaryElector) (m : Reelection) (sender : NodeName) : Prop :=
  ∃ r, s.replicas[m.instId]? = some r ∧ m.round = (s.forReelection m.instId).expectedRound m.instId r ∧
    ((s.forReelection m.instId).reElectionProposalsOf m.instId).contains (generateName sender m.instId) = false

/-- the candidates that the node proposes a re-election among, if it waits for no more nominations -/
def tie (second : ℕ) (s : PrimaryElector) (instId : ℕ) : Option (List Candidate) :=
  match s.getPrimaryCandidates instId with
  | [_] => none
  | candidates => if s.hasEnoughNominations second instId then some (candidates.map Prod.fst) else none

/-- what the node proposes if it decides on an instance now, under the name of its replica -/
def ownProposal (second : ℕ) (s : PrimaryElector) (instId : ℕ) : Option (RepName × List Candidate) :=
  match s.replicas[instId]? with
  | none => none
  | some r =>
    if (s.primaryDeclarationsOf instId).contains r.name ∨ (s.reElectionProposalsOf instId).contains r.name then none
    else if s.hasNominationQuorum instId then (s.tie second instId).map fun candidates => (r.name, candidates)
    else none

/-- **A quorum is completed** in a step, with a REELECTION of a round for an instance. -/
inductive Completes (second : ℕ) (s : PrimaryElector) : ElectorEvent → ℕ → ℕ → Prop
  | processed (m : Reelection) (sender : NodeName) (hview : m.viewNo = s.viewNo) (hrecords : s.Records m sender)
      (hsize : ((s.forReelection m.instId).reElectionProposalsOf m.instId).size + 1 = s.quorum) :
      Completes second s (.message (.reelection m) sender) m.instId m.round
  | sent (i aid : ℕ) (rest : List (ElectorAction × ℕ))
      (hqueue : s.actions.actionQueue = (.decidePrimary i, aid) :: rest)
      (hown : (s.ownProposal second i).isSome = true) (hsize : (s.reElectionProposalsOf i).size + 1 = s.quorum) :
      Completes second s .action i (s.reElectionRound i + 1)

/-- the next round after round `r` has started -/
structure NextRound (s : PrimaryElector) (instId r : ℕ) : Prop where
  round : s.reElectionRound instId = r
  declarations : s.primaryDeclarationsOf instId = Dict.empty
  proposals : s.reElectionProposalsOf instId = Dict.empty

/-- until the election of the instance starts anew, the node expects REELECTIONs of a round, and sends no others. It
gets no messages of its own. -/
def TakesPart (second : ℕ) (s : PrimaryElector) (instId r : ℕ) : Prop :=
  ∀ later : List ElectorEvent, (∀ viewNo, ElectorEvent.viewChanged viewNo ∉ later) →
    (∀ m, ElectorEvent.message m s.name ∉ later) → (s.run second later).restartsOf instId = s.restartsOf instId →
    (∀ replica, (s.run second later).replicas[instId]? = some replica →
      (s.run second later).expectedRound instId replica = r) ∧
    ∀ x ∈ (s.run second later).sent.drop s.sent.length, ∀ m, x.1 = .reelection m → m.instId = instId → m.round = r

/-- **In step.** A step that completes a quorum with a REELECTION of round `r` starts the next round, with `r` as the
counter; there the node takes part in round `r + 1`. -/
def InStep (second : ℕ) (s : PrimaryElector) (e : ElectorEvent) : Prop :=
  ∀ i r, Completes second s e i r →
    NextRound (s.handle second e) i r ∧ TakesPart second (s.handle second e) i (r + 1)

/-- **Proposed before.** A quorum is completed by a received proposal, when the own one is recorded. -/
def ProposedBefore (second : ℕ) (s : PrimaryElector) (e : ElectorEvent) : Prop :=
  ∀ i r, Completes second s e i r → ∃ m sender replica, e = .message (.reelection m) sender ∧
    s.replicas[m.instId]? = some replica ∧ (s.reElectionProposalsOf m.instId).contains replica.name = true

/-! ## The round of an election -/

/-- the round that the node expects and sends -/
def roundOf (s : PrimaryElector) (instId : ℕ) : ℕ :=
  s.reElectionRound instId + if (s.reElectionProposalsOf instId).contains (generateName s.name instId) then 0 else 1

theorem expectedRound_eq (hnamed : s.Named) {r : ElectedReplica} (hr : s.replicas[i]? = some r) :
    s.expectedRound i r = s.roundOf i := by
  rw [expectedRound, roundOf, hnamed i r hr]

/-- nothing has changed in the round of the instance, and every REELECTION that was sent is of that round -/
structure SameRound (i : ℕ) (s s' : PrimaryElector) : Prop where
  restarts : s'.restartsOf i = s.restartsOf i
  round : s'.roundOf i = s.roundOf i
  sent : ∃ new, s'.sent = s.sent ++ new ∧ ∀ x ∈ new, ∀ m, x.1 = .reelection m → m.instId = i → m.round = s.roundOf i

theorem SameRound.trans (h : SameRound i s s') (h' : SameRound i s' s'') : SameRound i s s'' := by
  obtain ⟨new, hnew, hround⟩ := h.sent
  obtain ⟨new', hnew', hround'⟩ := h'.sent
  refine ⟨h'.restarts.trans h.restarts, h'.round.trans h.round, new ++ new', by rw [hnew', hnew, List.append_assoc], ?_⟩
  intro x hx m hm hi
  rcases List.mem_append.1 hx with hx | hx
  · exact hround x hx m hm hi
  · rw [← h.round]
    exact hround' x hx m hm hi

/-- the election of the instance starts anew, or it is in the same round -/
def StartsOrSame (i : ℕ) (s s' : PrimaryElector) : Prop := s.restartsOf i < s'.restartsOf i ∨ SameRound i s s'

theorem StartsOrSame.trans (h : StartsOrSame i s s') (h' : StartsOrSame i s' s'') : StartsOrSame i s s'' := by
  rcases h with h | h
  · rcases h' with h' | h'
    · exact Or.inl (h.trans h')
    · exact Or.inl (h'.restarts ▸ h)
  · rcases h' with h' | h'
    · exact Or.inl (h.restarts ▸ h')
    · exact Or.inr (h.trans h')

theorem restartsOf_setElectionDefaults (s : PrimaryElector) (i j : ℕ) :
    (s.setElectionDefaults i).restartsOf j = s.restartsOf j + if j = i then 1 else 0 := by
  unfold restartsOf setElectionDefaults
  rw [Dict.get?_set]
  split_ifs with h
  · subst h
    rfl
  · rfl

/-- where the counter and the proposals stay, and no REELECTION is sent, the round stays -/
theorem sameRound_of_eq (hname : s'.name = s.name) (hrestarts : s'.restartsOf i = s.restartsOf i)
    (hround : s'.reElectionRound i = s.reElectionRound i)
    (hproposals : (s'.reElectionProposalsOf i).contains (generateName s.name i) =
      (s.reElectionProposalsOf i).contains (generateName s.name i))
    (new : List (ElectionMsg × ℕ)) (hsent : s'.sent = s.sent ++ new)
    (hnew : ∀ x ∈ new, ∀ m, x.1 = .reelection m → m.instId = i → m.round = s.roundOf i) : SameRound i s s' := by
  refine ⟨hrestarts, ?_, new, hsent, hnew⟩
  rw [roundOf, hname, hround, hproposals, roundOf]

theorem setElectionDefaults_startsOrSame (s : PrimaryElector) (i j : ℕ) :
    StartsOrSame i s (s.setElectionDefaults j) := by
  have hrestarts := restartsOf_setElectionDefaults s j i
  by_cases hij : i = j
  · rw [if_pos hij] at hrestarts
    exact Or.inl (by omega)
  · rw [if_neg hij] at hrestarts
    refine Or.inr (sameRound_of_eq rfl hrestarts rfl ?_ [] (List.append_nil _).symm fun _ h => (by cases h))
    rw [(setElectionDefaults_tables s j i).2.2, if_neg hij]

theorem setDefaults_startsOrSame (s : PrimaryElector) (i j : ℕ) : StartsOrSame i s (s.setDefaults j) := by
  have hrestarts := restartsOf_setElectionDefaults { s with reElectionRounds := s.reElectionRounds.set j 0 } j i
  by_cases hij : i = j
  · rw [if_pos hij] at hrestarts
    exact Or.inl (by rw [setDefaults, hrestarts]; exact Nat.lt_succ_self _)
  · rw [if_neg hij] at hrestarts
    refine Or.inr (sameRound_of_eq rfl hrestarts ?_ ?_ [] (List.append_nil _).symm fun _ h => (by cases h))
    · unfold reElectionRound setDefaults setElectionDefaults
      rw [Dict.get?_set, if_neg hij]
    · rw [(setDefaults_tables s j i).2.2, if_neg hij]

/-- the node's own proposal: the counter is advanced, and the node expects the round that it has proposed -/
theorem propose_sameRound (hnamed : s.Named) {j : ℕ} {r : ElectedReplica} (hr : s.replicas[j]? = some r)
    (hnew : (s.reElectionProposalsOf j).contains r.name = false) (candidates : List Candidate) (i : ℕ) :
    SameRound i s (((s.advanceRound j).setReElectionProposal j r.name candidates).send
      (.reelection ⟨j, s.reElectionRound j + 1, candidates, s.viewNo⟩)) := by
  have hround : (s.advanceRound j).reElectionRound i =
      if i = j then s.reElectionRound j + 1 else s.reElectionRound i := by
    unfold advanceRound reElectionRound
    rw [Dict.get?_set]
    split_ifs <;> rfl
  by_cases hij : i = j
  · subst hij
    rw [hnamed i r hr] at hnew ⊢
    have hown : s.roundOf i = s.reElectionRound i + 1 := by
      rw [roundOf, hnew]
      rfl
    refine ⟨rfl, ?_, _, rfl, ?_⟩
    · have hcontains : ((((s.advanceRound i).setReElectionProposal i (generateName s.name i) candidates).send
          (.reelection ⟨i, s.reElectionRound i + 1, candidates, s.viewNo⟩)).reElectionProposalsOf i).contains
            (generateName s.name i) = true := by
        rw [show (((s.advanceRound i).setReElectionProposal i (generateName s.name i) candidates).send
          (.reelection ⟨i, s.reElectionRound i + 1, candidates, s.viewNo⟩)).reElectionProposalsOf i =
            ((s.advanceRound i).setReElectionProposal i (generateName s.name i) candidates).reElectionProposalsOf i
          from rfl, reElectionProposalsOf_setReElectionProposal, if_pos rfl]
        exact contains_set_self _ _ _
      rw [if_pos rfl] at hround
      rw [hown]
      unfold roundOf
      rw [show (((s.advanceRound i).setReElectionProposal i (generateName s.name i) candidates).send
        (.reelection ⟨i, s.reElectionRound i + 1, candidates, s.viewNo⟩)).name = s.name from rfl, hcontains]
      exact hround
    · intro x hx m hm _
      cases List.mem_singleton.1 hx
      cases hm
      exact hown.symm
  · rw [if_neg hij] at hround
    refine sameRound_of_eq rfl rfl hround ?_ _ rfl ?_
    · rw [show (((s.advanceRound j).setReElectionProposal j r.name candidates).send
        (.reelection ⟨j, s.reElectionRound j + 1, candidates, s.viewNo⟩)).reElectionProposalsOf i =
          ((s.advanceRound j).setReElectionProposal j r.name candidates).reElectionProposalsOf i from rfl,
        reElectionProposalsOf_setReElectionProposal, if_neg hij]
      rfl
    · intro x hx m hm hi
      cases List.mem_singleton.1 hx
      cases hm
      exact absurd hi.symm hij

/-- the proposal of another node -/
theorem recordReelection_sameRound (m : Reelection) {sender : NodeName} (hsender : sender ≠ s.name) (i : ℕ) :
    SameRound i s (s.setReElectionProposal m.instId (generateName sender m.instId) m.tieAmong) := by
  refine sameRound_of_eq rfl rfl rfl ?_ [] (List.append_nil _).symm fun _ h => (by cases h)
  rw [reElectionProposalsOf_setReElectionProposal]
  split_ifs with hi
  · subst hi
    have hne : generateName s.name m.instId ≠ generateName sender m.instId :=
      fun h => hsender (congrArg RepName.node h).symm
    rw [Dict.contains, Dict.get?_set_ne _ _ hne, Dict.contains]
  · rfl

theorem Write.startsOrSame (h : Write second c s s') (hnamed : s.Named)
    (hown : ∀ before m, c ≠ .message before m s.name) (i : ℕ) : StartsOrSame i s s' := by
  -- a message of another kind is sent, or none
  have hnone : ∀ x ∈ ([] : List (ElectionMsg × ℕ)), ∀ m, x.1 = .reelection m → m.instId = i →
      m.round = s.roundOf i := fun _ h => (by cases h)
  have hother : ∀ x : ElectionMsg × ℕ, (∀ m, x.1 ≠ .reelection m) → ∀ y ∈ [x], ∀ m, y.1 = .reelection m →
      m.instId = i → m.round = s.roundOf i := by
    intro x hx y hy m hm
    cases List.mem_singleton.1 hy
    exact absurd hm (hx m)
  cases h with
  | quiet hq =>
    refine Or.inr (sameRound_of_eq hq.name ?_ (hq.rounds i) (by rw [hq.proposals]) [] ?_ hnone)
    · rw [restartsOf, hq.restarts, restartsOf]
    · rw [hq.sent, List.append_nil]
  | start j => exact setDefaults_startsOrSame s i j
  | restart m => exact setElectionDefaults_startsOrSame s i m.instId
  | choose | wait | recordNomination | recordPrimary =>
    exact Or.inr (sameRound_of_eq rfl rfl rfl rfl [] (List.append_nil _).symm hnone)
  | nominateSelf | follow | declare =>
    exact Or.inr (sameRound_of_eq rfl rfl rfl rfl _ rfl (hother _ fun _ h => (by cases h)))
  | propose _ j _ r hr hnew _ _ candidates => exact Or.inr (propose_sameRound hnamed hr hnew candidates i)
  | select _ prim sender _ _ _ r hr _ hnew hopen hquorum primary seqNo =>
    refine Or.inr ?_
    unfold afterSelection
    dsimp only
    split_ifs <;> exact sameRound_of_eq rfl rfl rfl rfl [] (List.append_nil _).symm hnone
  | recordReelection before m sender hc =>
    exact Or.inr (recordReelection_sameRound m (fun h => hown before _ (h ▸ hc)) i)
  | sendAgain m hwhy =>
    refine Or.inr (sameRound_of_eq rfl rfl rfl rfl _ rfl (hother _ fun m' hm' => ?_))
    obtain ⟨j, r, -, ⟨p, -, rfl⟩ | ⟨p, -, rfl⟩ | ⟨p, -, rfl⟩⟩ := hwhy <;> cases hm'

theorem Writes.startsOrSame (h : Writes second c s s') (hnamed : s.Named) (hown : ∀ before m, c ≠ .message before m s.name)
    (i : ℕ) : StartsOrSame i s s' := by
  induction h with
  | refl => exact Or.inr (sameRound_of_eq rfl rfl rfl rfl [] (List.append_nil _).symm fun _ h => (by cases h))
  | tail hwrites hwrite ih =>
    obtain ⟨hname, -, hknown⟩ := Writes.names hwrites
    exact ih.trans (hwrite.startsOrSame (hnamed.of_names hname hknown) (hname.symm ▸ hown) i)

theorem eq_message_of_causeOf {e : ElectorEvent} {before : PrimaryElector} {m : ElectionMsg} {sender : NodeName}
    (h : s.causeOf e = .message before m sender) : e = .message m sender ∧ before = s := by
  cases e with
  | message m' sender' =>
    cases h
    exact ⟨rfl, rfl⟩
  | action =>
    unfold causeOf at h
    dsimp only at h
    split at h <;> cases h
  | _ => cases h

theorem run_startsOrSame (hnamed : s.Named) (later : List ElectorEvent)
    (hview : ∀ viewNo, ElectorEvent.viewChanged viewNo ∉ later) (hown : ∀ m, ElectorEvent.message m s.name ∉ later)
    (i : ℕ) : StartsOrSame i s (s.run second later) := by
  induction later using List.reverseRecOn with
  | nil => exact Or.inr (sameRound_of_eq rfl rfl rfl rfl [] (List.append_nil _).symm fun _ h => (by cases h))
  | append_singleton past e ih =>
    rw [run_concat]
    have hpast := ih (fun v hv => hview v (List.mem_append_left _ hv)) fun m hm => hown m (List.mem_append_left _ hm)
    obtain ⟨hname, -, hnamed'⟩ : (s.run second past).name = s.name ∧ _ ∧ (s.run second past).Named :=
      run_names hnamed past
    have hwrites : Writes second ((s.run second past).causeOf e) (s.run second past)
        ((s.run second past).handle second e) :=
      handle_writes _ fun v hv => hview v (List.mem_append_right _ (hv ▸ List.mem_singleton_self _))
    refine hpast.trans (hwrites.startsOrSame hnamed' (fun before m hm => ?_) i)
    rw [hname] at hm
    exact hown m (List.mem_append_right _ ((eq_message_of_causeOf hm).1 ▸ List.mem_singleton_self _))

/-- the node expects and sends the round in which it is -/
theorem takesPart_roundOf (hnamed : s.Named) (i : ℕ) : TakesPart second s i (s.roundOf i) := by
  intro later hview hown hrestarts
  have hrun : StartsOrSame i s (s.run second later) := run_startsOrSame hnamed later hview hown i
  rcases hrun with hstarted | hsame
  · exact absurd hrestarts hstarted.ne'
  · obtain ⟨new, hnew, hround⟩ := hsame.sent
    refine ⟨fun replica hreplica => ?_, fun x hx => hround x ?_⟩
    · rw [expectedRound_eq (run_names hnamed later).2.2 hreplica, hsame.round]
    · rwa [hnew, List.drop_left] at hx

theorem NextRound.takesPart {r : ℕ} (hnamed : s.Named) (h : NextRound s i r) : TakesPart second s i (r + 1) := by
  have hround : s.roundOf i = r + 1 := by
    rw [roundOf, h.round, h.proposals]
    rfl
  exact hround ▸ takesPart_roundOf hnamed i

/-! ## Steps that complete a quorum -/

theorem forReelection_proposals (s : PrimaryElector) (i : ℕ) :
    (s.forReelection i).reElectionProposalsOf i = s.reElectionProposalsOf i := by
  unfold forReelection
  split_ifs with h
  · rfl
  · have hnone : s.reElectionProposals.get? i = none := by simpa [Dict.contains] using h
    rw [(setDefaults_tables s i i).2.2, if_pos rfl, reElectionProposalsOf, hnone]
    rfl

/-- a self-nomination changes neither the rounds nor the other tables -/
theorem nominateReplica_rounds (s : PrimaryElector) (j i : ℕ) :
    (s.nominateReplica j).reElectionRound i = s.reElectionRound i ∧
      (s.nominateReplica j).primaryDeclarationsOf i = s.primaryDeclarationsOf i ∧
      (s.nominateReplica j).reElectionProposalsOf i = s.reElectionProposalsOf i := by
  unfold nominateReplica
  cases s.replicas[j]? with
  | none => exact ⟨rfl, rfl, rfl⟩
  | some r =>
    dsimp only
    split_ifs <;> exact ⟨rfl, rfl, rfl⟩

/-- a re-election starts with the counter that the node has -/
theorem startReelection_rounds {r : ElectedReplica} (hne : (s.reElectionProposalsOf i).values ≠ []) :
    (s.startReelection second i r).reElectionRound i = s.reElectionRound i ∧
      (s.startReelection second i r).primaryDeclarationsOf i = Dict.empty ∧
      (s.startReelection second i r).reElectionProposalsOf i = Dict.empty := by
  obtain ⟨tieAmong, hmost⟩ := mostCommonElement_isSome hne
  obtain ⟨-, hdeclarations, hproposals⟩ := setElectionDefaults_tables s i i
  rw [if_pos rfl] at hdeclarations hproposals
  unfold startReelection
  rw [hmost]
  dsimp only
  split_ifs
  · exact ⟨rfl, hdeclarations, hproposals⟩
  · obtain ⟨hround', hdeclarations', hproposals'⟩ := nominateReplica_rounds (s.setElectionDefaults i) i i
    exact ⟨hround', hdeclarations'.trans hdeclarations, hproposals'.trans hproposals⟩
  · exact ⟨rfl, hdeclarations, hproposals⟩

/-- a received proposal that completes the quorum -/
theorem processReelection_rounds {m : Reelection} {sender : NodeName} (hrecords : s.Records m sender)
    (hsize : ((s.forReelection m.instId).reElectionProposalsOf m.instId).size + 1 = s.quorum) :
    (s.processReelection second m sender).reElectionRound m.instId =
        (s.forReelection m.instId).reElectionRound m.instId ∧
      (s.processReelection second m sender).primaryDeclarationsOf m.instId = Dict.empty ∧
      (s.processReelection second m sender).reElectionProposalsOf m.instId = Dict.empty := by
  obtain ⟨r, hr, hround, hnew⟩ := hrecords
  have hrecorded : (((s.forReelection m.instId).setReElectionProposal m.instId (generateName sender m.instId)
      m.tieAmong).reElectionProposalsOf m.instId) = ((s.forReelection m.instId).reElectionProposalsOf m.instId).set
        (generateName sender m.instId) m.tieAmong := by
    rw [reElectionProposalsOf_setReElectionProposal, if_pos rfl]
  have hquorum : ((s.forReelection m.instId).setReElectionProposal m.instId (generateName sender m.instId)
      m.tieAmong).hasReelectionQuorum m.instId = true := by
    refine decide_eq_true ?_
    have hq : ((s.forReelection m.instId).setReElectionProposal m.instId (generateName sender m.instId)
        m.tieAmong).quorum = s.quorum := congrArg getStrongQuorum (forReelection_frame s m.instId).2.1
    rw [hrecorded, size_set_of_not_contains _ hnew, hsize, hq]
  have hprocess : s.processReelection second m sender = ((s.forReelection m.instId).setReElectionProposal m.instId
      (generateName sender m.instId) m.tieAmong).startReelection second m.instId r := by
    unfold processReelection
    rw [hr]
    have htables : (if s.reElectionProposals.contains m.instId then s else s.setDefaults m.instId) =
      s.forReelection m.instId := rfl
    dsimp only
    rw [htables, if_neg (not_not.2 hround), if_neg (by rw [hnew]; decide), if_pos hquorum]
  rw [hprocess]
  exact startReelection_rounds (by rw [hrecorded]; exact values_set_ne_nil _ _ _)

theorem ownProposal_eq_some {d : RepName × List Candidate} (h : s.ownProposal second i = some d) :
    ∃ r candidates, s.replicas[i]? = some r ∧ (s.primaryDeclarationsOf i).contains r.name = false ∧
      (s.reElectionProposalsOf i).contains r.name = false ∧ s.hasNominationQuorum i = true ∧
      s.tie second i = some candidates := by
  unfold ownProposal at h
  cases hr : s.replicas[i]? with
  | none =>
    rw [hr] at h
    cases h
  | some r =>
    rw [hr] at h
    dsimp only at h
    split_ifs at h with hdone hquorum
    obtain ⟨candidates, htie, -⟩ := Option.map_eq_some_iff.1 h
    rw [not_or, Bool.not_eq_true, Bool.not_eq_true] at hdone
    exact ⟨r, candidates, rfl, hdone.1, hdone.2, hquorum, htie⟩

theorem tie_addDecisionDefaults (s : PrimaryElector) (i : ℕ) :
    (s.addDecisionDefaults i).tie second i = s.tie second i := by
  unfold tie
  rw [hasEnoughNominations_addDecisionDefaults]
  rfl

theorem decideOnCandidates_proposes (r : ElectedReplica) {candidates : List Candidate}
    (h : s.tie second i = some candidates) :
    s.decideOnCandidates second i r = s.sendReelection i r candidates := by
  unfold tie at h
  unfold decideOnCandidates
  cases hcandidates : s.getPrimaryCandidates i with
  | nil =>
    rw [hcandidates] at h
    dsimp only at h ⊢
    split_ifs at h with henough
    cases h
    rw [if_pos henough]
  | cons c rest =>
    rw [hcandidates] at h
    cases rest with
    | nil => cases h
    | cons c' rest =>
      dsimp only at h ⊢
      split_ifs at h with henough
      cases h
      rw [if_pos henough]

/-- a proposal of the node itself is recorded, and no round starts -/
theorem decidePrimary_proposals {d : RepName × List Candidate} (h : s.ownProposal second i = some d) :
    (s.decidePrimary second i).reElectionProposalsOf i ≠ Dict.empty := by
  obtain ⟨r, candidates, hr, hdeclared, hproposed, hquorum, htie⟩ := ownProposal_eq_some h
  have hdefaults := addDecisionDefaults_quiet s i
  have hdecide : s.decidePrimary second i = (s.addDecisionDefaults i).sendReelection i r candidates := by
    have hquorum' : (s.addDecisionDefaults i).hasNominationQuorum i = true := hquorum
    unfold decidePrimary
    rw [hr]
    dsimp only
    rw [hdefaults.declarations, hdefaults.proposals, hdeclared, hproposed, hquorum', if_neg Bool.false_ne_true,
      if_neg Bool.false_ne_true, if_pos rfl]
    exact decideOnCandidates_proposes r ((tie_addDecisionDefaults s i).trans htie)
  have hset : ((s.addDecisionDefaults i).sendReelection i r candidates).reElectionProposalsOf i =
      (((s.addDecisionDefaults i).advanceRound i).setReElectionProposal i r.name candidates).reElectionProposalsOf i :=
    rfl
  rw [hdecide, hset, reElectionProposalsOf_setReElectionProposal, if_pos rfl]
  intro hempty
  exact values_set_ne_nil _ _ _ (congrArg Dict.values hempty)

/-- **One step** is in step exactly if the node has proposed before. -/
theorem handle_inStep_iff (hnamed : s.Named) (e : ElectorEvent) : InStep second s e ↔ ProposedBefore second s e := by
  constructor
  · intro h i r hcompletes
    have hnext := (h i r hcompletes).1
    cases hcompletes with
    | processed m sender hview hrecords hsize =>
      obtain ⟨replica, hreplica, hround, -⟩ := id hrecords
      refine ⟨m, sender, replica, rfl, hreplica, ?_⟩
      have hcounter : (s.processReelection second m sender).reElectionRound m.instId = _ :=
        (processReelection_rounds hrecords hsize).1
      have hhandle : s.handle second (.message (.reelection m) sender) = s.processReelection second m sender :=
        if_pos hview
      have hkept := hnext.round
      rw [hhandle, hcounter] at hkept
      rw [← forReelection_proposals]
      by_contra hnot
      rw [expectedRound, if_neg hnot, hkept] at hround
      omega
    | sent _ aid rest hqueue hown =>
      obtain ⟨d, hd⟩ := Option.isSome_iff_exists.1 hown
      have hhandle : s.handle second .action = (s.withQueue rest).decidePrimary second i := by
        unfold handle
        rw [hqueue]
        rfl
      have hempty := hnext.proposals
      rw [hhandle] at hempty
      have hd' : (s.withQueue rest).ownProposal second i = some d := hd
      exact absurd hempty (decidePrimary_proposals hd')
  · intro h i r hcompletes
    obtain ⟨m, sender, replica, rfl, hreplica, hown⟩ := h i r hcompletes
    cases hcompletes with
    | processed _ _ hview hrecords hsize =>
      obtain ⟨replica', hreplica', hround, -⟩ := id hrecords
      cases hreplica.symm.trans hreplica'
      obtain ⟨hcounter, hdeclarations, hproposals⟩ :
          (s.processReelection second m sender).reElectionRound m.instId = _ ∧ _ ∧ _ :=
        processReelection_rounds hrecords hsize
      have hhandle : s.handle second (.message (.reelection m) sender) = s.processReelection second m sender :=
        if_pos hview
      rw [expectedRound, forReelection_proposals, if_pos hown] at hround
      have hnext : NextRound (s.handle second (.message (.reelection m) sender)) m.instId m.round := by
        rw [hhandle]
        exact ⟨hcounter.trans hround.symm, hdeclarations, hproposals⟩
      exact ⟨hnext, hnext.takesPart (handle_names hnamed _).2.2⟩

/-! ## Runs -/

/-- **When the rounds stay in step.** In every run of an elector, through any views, with any messages, timers and
actions in any order: each step is in step if and only if the node has proposed before each quorum is completed. -/
theorem run_inStep_iff (hnamed : s.Named) (events : List ElectorEvent) :
    (∀ past e rest, events = past ++ e :: rest → InStep second (s.run second past) e) ↔
      ∀ past e rest, events = past ++ e :: rest → ProposedBefore second (s.run second past) e := by
  constructor
  · intro h past e rest hevents
    exact (handle_inStep_iff (run_names hnamed past).2.2 e).1 (h past e rest hevents)
  · intro h past e rest hevents
    exact (handle_inStep_iff (run_names hnamed past).2.2 e).2 (h past e rest hevents)

end PrimaryElector

/-! ## A node that has not proposed -/

namespace FourElectors

open PrimaryElector

/-- the sender proposes a re-election of the master instance between Beta and Gamma -/
def proposeReelection (sender : NodeName) (round : ℕ) : ElectorEvent :=
  .message (.reelection ⟨0, round, [(generateName "Beta" 0, 0), (generateName "Gamma" 0, 0)], 0⟩) sender

/-- all the others have seen a tie -/
def othersPropose : List ElectorEvent :=
  [proposeReelection "Beta" 1, proposeReelection "Gamma" 1, proposeReelection "Delta" 1]

theorem named_of_replicas {s : PrimaryElector} {p q : Option RepName} {m n : ℕ}
    (h : s.replicas = [⟨generateName s.name 0, p, m⟩, ⟨generateName s.name 1, q, n⟩]) : s.Named := by
  intro i r hr
  rw [h] at hr
  match i, hr with
  | 0, hr =>
    cases hr
    rfl
  | 1, hr =>
    cases hr
    rfl

theorem elector_named (name : NodeName) : (elector name).Named := named_of_replicas rfl

/-- Alpha starts the second round with the counter of the first one -/
theorem othersPropose_not_inStep :
    (elector "Alpha").Named ∧
      ¬ InStep 1 ((elector "Alpha").run 1 (othersPropose.take 2)) (proposeReelection "Delta" 1) := by
  refine ⟨elector_named _, fun h => ?_⟩
  have hcompletes : Completes 1 ((elector "Alpha").run 1 (othersPropose.take 2)) (proposeReelection "Delta" 1) 0 1 :=
    .processed ⟨0, 1, [(generateName "Beta" 0, 0), (generateName "Gamma" 0, 0)], 0⟩ "Delta" (by decide +kernel)
      ⟨⟨generateName "Alpha" 0, none, 0⟩, by decide +kernel, by decide +kernel, by decide +kernel⟩ (by decide +kernel)
  exact absurd (h 0 1 hcompletes).1.round (by decide +kernel)

/-- the same three proposals -/
theorem othersPropose_inStep :
    (∀ past e rest, othersPropose = past ++ e :: rest → InStep 1 ((elector "Alpha").run 1 past) e) ↔
      ∀ past e rest, othersPropose = past ++ e :: rest → ProposedBefore 1 ((elector "Alpha").run 1 past) e :=
  run_inStep_iff (elector_named _) _

end FourElectors

end Plenum
