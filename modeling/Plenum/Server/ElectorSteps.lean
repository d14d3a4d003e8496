/-
What the handlers of the elector write, one small write at a time.

- `Write second c s s'`: one write, caused by the message or action `c`, with what the handler has checked before it. A
  write that has nothing to do with the votes, the primaries or the self-nominations is `Quiet`.
- `handle_writes`: every event but a view change is a sequence of such writes. An invariant of the election is then
  proved for each kind of write, and not for each handler.
- `processPrimary_spec`: only the declaration that settles an instance has waiting messages dispatched (`settledBy`).
-/
import Mathlib.Tactic
import Mathlib.Logic.Relation
import Plenum.Server.Election

namespace Plenum

open Plenum.Core Relation

/-! ## Pending actions -/

namespace ActionQueue

variable {A : Type} [DecidableEq A]

/-- the action is scheduled, now or for later -/
def Pending (q : ActionQueue A) (action : A) : Prop :=
  (∃ aid, (action, aid) ∈ q.actionQueue) ∨ ∃ t aid, (t, (action, aid)) ∈ q.aqStash

omit [DecidableEq A] in
theorem pending_schedule {q : ActionQueue A} {now ticks : ℕ} {a a' : A} (h : (q.schedule now a ticks).Pending a') :
    q.Pending a' ∨ a' = a := by
  unfold schedule at h
  dsimp only at h
  split_ifs at h
  · rcases h with h | ⟨t, aid, h⟩
    · exact Or.inl (Or.inl h)
    · rcases List.mem_append.1 h with h | h
      · exact Or.inl (Or.inr ⟨t, aid, h⟩)
      · cases List.mem_singleton.1 h
        exact Or.inr rfl
  · rcases h with ⟨aid, h⟩ | h
    · rcases List.mem_append.1 h with h | h
      · exact Or.inl (Or.inl ⟨aid, h⟩)
      · cases List.mem_singleton.1 h
        exact Or.inr rfl
    · exact Or.inl (Or.inr h)

omit [DecidableEq A] in
/-- what is due is moved, and nothing is added -/
theorem pending_moveDue {q : ActionQueue A} {now : ℕ} {a : A} (h : (q.moveDue now).Pending a) : q.Pending a := by
  -- the queue after the move
  have hmoved : ∀ (stash : List (ℕ × (A × ℕ))) (queue : List (A × ℕ)) (x : A × ℕ),
      x ∈ stash.foldl (fun l d => if d.1 < now then d.2 :: l else l) queue → x ∈ queue ∨ ∃ t, (t, x) ∈ stash := by
    intro stash
    induction stash with
    | nil => exact fun _ _ hx => Or.inl hx
    | cons d stash ih =>
      intro queue x hx
      rw [List.foldl_cons] at hx
      rcases ih _ x hx with hx | ⟨t, hx⟩
      · split_ifs at hx
        · rcases List.mem_cons.1 hx with rfl | hx
          · exact Or.inr ⟨d.1, List.mem_cons_self⟩
          · exact Or.inl hx
        · exact Or.inl hx
      · exact Or.inr ⟨t, List.mem_cons_of_mem _ hx⟩
  unfold moveDue at h
  split_ifs at h
  · exact h
  · cases hnext : q.aqNextCheck with
    | none =>
      rw [hnext] at h
      exact h
    | some c =>
      rw [hnext] at h
      dsimp only at h
      split_ifs at h
      · rcases h with ⟨aid, h⟩ | ⟨t, aid, h⟩
        · rcases hmoved _ _ _ h with h | ⟨t, h⟩
          · exact Or.inl ⟨aid, h⟩
          · exact Or.inr ⟨t, aid, h⟩
        · exact Or.inr ⟨t, aid, (List.mem_filter.1 h).1⟩
      · exact h

end ActionQueue

namespace PrimaryElector

/-! ## Quiet writes -/

/-- the name of the replica of an instance, and its primary -/
def known (s : PrimaryElector) (instId : ℕ) : Option (RepName × Option RepName) :=
  s.replicas[instId]?.map fun r => (r.name, r.primaryName)

/-- the node is going to nominate itself in the instance -/
def Nominates (s : PrimaryElector) (instId : ℕ) : Prop := s.actions.Pending (.nominateReplica instId)

/-- nothing changes in the votes, the rounds, the primaries and the self-nominations -/
structure Quiet (s s' : PrimaryElector) : Prop where
  name : s'.name = s.name
  f : s'.f = s.f
  viewNo : s'.viewNo = s.viewNo
  known : ∀ i, s'.known i = s.known i
  nominations : s'.nominations = s.nominations
  declarations : ∀ i, s'.primaryDeclarationsOf i = s.primaryDeclarationsOf i
  declared : ∀ i, s.primaryDeclarations.contains i = true → s'.primaryDeclarations.contains i = true
  proposals : ∀ i, s'.reElectionProposalsOf i = s.reElectionProposalsOf i
  proposed : ∀ i, s.reElectionProposals.contains i = true → s'.reElectionProposals.contains i = true
  rounds : ∀ i, s'.reElectionRound i = s.reElectionRound i
  previousMasterPrimary : s'.previousMasterPrimary = s.previousMasterPrimary
  restarts : s'.restarts = s.restarts
  sent : s'.sent = s.sent
  formerMasterPrimary : s'.formerMasterPrimary = s.formerMasterPrimary
  masterPrimaries : s'.masterPrimaries = s.masterPrimaries
  nominated : s'.replicaNominatedForItself = s.replicaNominatedForItself
  pending : ∀ i, s'.Nominates i → s.Nominates i

theorem Quiet.refl (s : PrimaryElector) : Quiet s s :=
  ⟨rfl, rfl, rfl, fun _ => rfl, rfl, fun _ => rfl, fun _ => id, fun _ => rfl, fun _ => id, fun _ => rfl, rfl, rfl, rfl,
    rfl, rfl, rfl, fun _ => id⟩

/-! ## Primaries and rounds -/

/-- the primary of an instance is set, and the flags of its election with it -/
def afterSelection (s : PrimaryElector) (instId : ℕ) (primary : RepName) (seqNo : ℕ) : PrimaryElector :=
  let s := s.setPrimary instId primary seqNo
  let s := if instId = 0 then { s with previousMasterPrimary := none } else s
  if s.replicaNominatedForItself = some instId then { s with replicaNominatedForItself := none } else s

/-- the round counter, before a re-election is proposed -/
def advanceRound (s : PrimaryElector) (i : ℕ) : PrimaryElector :=
  { s with reElectionRounds := s.reElectionRounds.set i (s.reElectionRound i + 1) }

/-! ## What a message does -/

/-- the state in which a REELECTION of an instance is judged: its tables are there -/
def forReelection (s : PrimaryElector) (instId : ℕ) : PrimaryElector :=
  if s.reElectionProposals.contains instId then s else s.setDefaults instId

/-- the state in which a message is judged: the tables that it goes into are there -/
def prepared (s : PrimaryElector) : ElectionMsg → PrimaryElector
  | .nomination m => if s.nominations.contains m.instId then s else s.setDefaults m.instId
  | .primary m => if s.primaryDeclarations.contains m.instId then s else s.setDefaults m.instId
  | .reelection m => s.forReelection m.instId

/-- how often the election of an instance has started when a message of it is judged -/
def roundFor (s : PrimaryElector) (m : ElectionMsg) : ℕ := (s.prepared m).restartsOf m.instId

/-- the vote of the sender is recorded: it is the first one, it is for no excluded candidate, and a REELECTION is of the
expected round -/
def records (s : PrimaryElector) (m : ElectionMsg) (sender : NodeName) : Bool :=
  match s.replicas[m.instId]? with
  | none => false
  | some r =>
    match m with
    | .nomination m => !s.excludes m.instId m.name &&
        !((s.prepared (.nomination m)).nominationsOf m.instId).contains (generateName sender m.instId)
    | .primary m => !s.excludes m.instId m.name &&
        !((s.prepared (.primary m)).primaryDeclarationsOf m.instId).contains (generateName sender m.instId)
    | .reelection m => decide (m.round = (s.forReelection m.instId).expectedRound m.instId r) &&
        !((s.forReelection m.instId).reElectionProposalsOf m.instId).contains (generateName sender m.instId)

/-- the REELECTION completes a quorum, and the election starts anew -/
def startsReelection (s : PrimaryElector) (m : Reelection) (sender : NodeName) : Bool :=
  s.records (.reelection m) sender &&
    decide (s.quorum ≤ ((s.forReelection m.instId).reElectionProposalsOf m.instId).size + 1)

/-- the state in which a declaration is recorded -/
def declared (s : PrimaryElector) (m : Primary) (sender : NodeName) : PrimaryElector :=
  (s.prepared (.primary m)).setPrimaryDeclaration m.instId (generateName sender m.instId) (m.name, m.ordSeqNo)

/-- the primary that the instance gets if the declaration is the one that completes a quorum -/
def settledBy (s : PrimaryElector) (m : Primary) (sender : NodeName) : Option Candidate :=
  if s.records (.primary m) sender ∧ (s.known m.instId).bind Prod.snd = none ∧
      (s.declared m sender).hasPrimaryQuorum m.instId then
    mostCommonElement ((s.declared m sender).primaryDeclarationsOf m.instId).values
  else none

/-! ## What a decision does -/

/-- the winner of the nominations, if it is clear and the node waits for no more of them -/
def clearWinner (second : ℕ) (s : PrimaryElector) (instId : ℕ) : Option Candidate :=
  match s.getPrimaryCandidates instId with
  | [(candidate, votes)] =>
    if s.hasEnoughNominations second instId ∨ s.votesNeeded ≤ votes then some candidate else none
  | _ => none

/-- what the node declares if it decides on an instance now, under the name of its replica -/
def ownDeclaration (second : ℕ) (s : PrimaryElector) (instId : ℕ) : Option (RepName × Candidate) :=
  match s.replicas[instId]? with
  | none => none
  | some r =>
    if (s.primaryDeclarationsOf instId).contains r.name ∨ (s.reElectionProposalsOf instId).contains r.name then none
    else if s.hasNominationQuorum instId then (s.clearWinner second instId).map fun candidate => (r.name, candidate)
    else none

/-! ## Writes -/

/-- what makes a handler run, in the state before -/
inductive Cause where
  | message (before : PrimaryElector) (m : ElectionMsg) (sender : NodeName)
  | action (before : PrimaryElector) (action : ElectorAction)
  | other

/-- the cause of what happens in an event -/
def causeOf (s : PrimaryElector) : ElectorEvent → Cause
  | .message m sender => .message s m sender
  | .action =>
    match s.actions.actionQueue with
    | [] => .other
    | (action, _) :: _ => .action s action
  | _ => .other

/-- the node nominates itself in an instance because its election starts anew -/
def Renominates (c : Cause) (s : PrimaryElector) (instId : ℕ) : Prop :=
  ∃ before m sender, c = .message before (.reelection m) sender ∧ m.instId = instId ∧
    before.startsReelection m sender = true ∧ before.hasPrimaryReplica = false ∧
    before.wasMasterPrimaryInPrevView = false ∧
    s.replicaNominatedForItself = before.replicaNominatedForItself ∧ s.replicas = before.replicas

/-- the node tells others of an election once more: of the primary, or else of its own votes -/
def Repeats (s : PrimaryElector) (m : ElectionMsg) : Prop :=
  ∃ i r, s.replicas[i]? = some r ∧
    ((∃ p, r.primaryName = some p ∧ m = .primary ⟨p, i, s.viewNo, r.lastOrderedPPSeqNo⟩) ∨
      (∃ c, (s.nominationsOf i).get? r.name = some c ∧ m = .nomination ⟨c.1, i, s.viewNo, c.2⟩) ∨
      ∃ c, (s.primaryDeclarationsOf i).get? r.name = some c ∧ m = .primary ⟨c.1, i, s.viewNo, c.2⟩)

/-- **One write** of a handler. The hypotheses are what has been checked. -/
inductive Write (second : ℕ) (c : Cause) (s : PrimaryElector) : PrimaryElector → Prop
  | quiet {s' : PrimaryElector} (h : Quiet s s') : Write second c s s'
  /-- the election of an instance starts -/
  | start (i : ℕ) (hwhy : s.nominations.contains i = false ∨ s.primaryDeclarations.contains i = false ∨
      s.reElectionProposals.contains i = false) : Write second c s (s.setDefaults i)
  /-- or starts anew -/
  | restart (m : Reelection) (hquorum : s.hasReelectionQuorum m.instId = true) :
      Write second c s (s.setElectionDefaults m.instId)
  /-- the node chooses an instance to nominate itself in -/
  | choose (i : ℕ) (hnone : s.replicaNominatedForItself = none) (hprimary : s.hasPrimaryReplica = false) :
      Write second c s ({ s with replicaNominatedForItself := some i }.schedule (.nominateReplica i) 0)
  /-- or is going to, after a re-election -/
  | wait (i ticks : ℕ) (hwhy : Renominates c s i) : Write second c s (s.schedule (.nominateReplica i) ticks)
  | nominateSelf (i : ℕ) (r : ElectedReplica) (hr : s.replicas[i]? = some r)
      (hnew : (s.nominationsOf i).contains r.name = false) (hstarted : s.nominations.contains i = true)
      (hwhy : s.Nominates i ∨ Renominates c s i) :
      Write second c s ((s.setNomination i r.name (r.name, r.lastOrderedPPSeqNo)).send
        (.nomination ⟨r.name, i, s.viewNo, r.lastOrderedPPSeqNo⟩))
  /-- the first nomination that the node sees -/
  | follow (before : PrimaryElector) (nom : Nomination) (sender : NodeName)
      (hc : c = .message before (.nomination nom) sender) (r : ElectedReplica)
      (hr : s.replicas[nom.instId]? = some r) (hallowed : s.excludes nom.instId nom.name = false)
      (hnew : (s.nominationsOf nom.instId).contains r.name = false)
      (hstarted : s.nominations.contains nom.instId = true) :
      Write second c s ((s.setNomination nom.instId r.name (nom.name, nom.ordSeqNo)).send (.nomination nom))
  | recordNomination (before : PrimaryElector) (nom : Nomination) (sender : NodeName)
      (hc : c = .message before (.nomination nom) sender) (hrecords : before.records (.nomination nom) sender = true)
      (hround : s.restartsOf nom.instId = before.roundFor (.nomination nom))
      (hallowed : s.excludes nom.instId nom.name = false)
      (hnew : (s.nominationsOf nom.instId).contains (generateName sender nom.instId) = false)
      (hstarted : s.nominations.contains nom.instId = true) :
      Write second c s (s.setNomination nom.instId (generateName sender nom.instId) (nom.name, nom.ordSeqNo))
  /-- a clear winner of the nominations -/
  | declare (before : PrimaryElector) (i : ℕ) (hc : c = .action before (.decidePrimary i)) (r : ElectedReplica)
      (hr : s.replicas[i]? = some r) (hnew : (s.primaryDeclarationsOf i).contains r.name = false)
      (hnot : (s.reElectionProposalsOf i).contains r.name = false) (hquorum : s.hasNominationQuorum i = true)
      (candidate : Candidate) (votes : ℕ) (hclear : s.getPrimaryCandidates i = [(candidate, votes)])
      (hnominations : s.nominations = before.nominations)
      (hown : before.ownDeclaration second i = some (r.name, candidate)) :
      Write second c s ((s.setPrimaryDeclaration i r.name candidate).send
        (.primary ⟨candidate.1, i, s.viewNo, candidate.2⟩))
  | propose (before : PrimaryElector) (i : ℕ) (hc : c = .action before (.decidePrimary i)) (r : ElectedReplica)
      (hr : s.replicas[i]? = some r) (hnew : (s.reElectionProposalsOf i).contains r.name = false)
      (hnot : (s.primaryDeclarationsOf i).contains r.name = false) (hquorum : s.hasNominationQuorum i = true)
      (candidates : List Candidate) :
      Write second c s (((s.advanceRound i).setReElectionProposal i r.name candidates).send
        (.reelection ⟨i, s.reElectionRound i + 1, candidates, s.viewNo⟩))
  /-- a declaration that does not settle the primary -/
  | recordPrimary (before : PrimaryElector) (prim : Primary) (sender : NodeName)
      (hc : c = .message before (.primary prim) sender) (hrecords : before.records (.primary prim) sender = true)
      (hround : s.restartsOf prim.instId = before.roundFor (.primary prim)) (r : ElectedReplica)
      (hr : s.replicas[prim.instId]? = some r) (hallowed : s.excludes prim.instId prim.name = false)
      (hnew : (s.primaryDeclarationsOf prim.instId).contains (generateName sender prim.instId) = false)
      (hopen : r.primaryName.isSome = true ∨ (s.setPrimaryDeclaration prim.instId (generateName sender prim.instId)
        (prim.name, prim.ordSeqNo)).hasPrimaryQuorum prim.instId = false) :
      Write second c s (s.setPrimaryDeclaration prim.instId (generateName sender prim.instId)
        (prim.name, prim.ordSeqNo))
  /-- a declaration that settles it -/
  | select (before : PrimaryElector) (prim : Primary) (sender : NodeName)
      (hc : c = .message before (.primary prim) sender) (hrecords : before.records (.primary prim) sender = true)
      (hround : s.restartsOf prim.instId = before.roundFor (.primary prim)) (r : ElectedReplica)
      (hr : s.replicas[prim.instId]? = some r) (hallowed : s.excludes prim.instId prim.name = false)
      (hnew : (s.primaryDeclarationsOf prim.instId).contains (generateName sender prim.instId) = false)
      (hopen : r.primaryName = none)
      (hquorum : (s.setPrimaryDeclaration prim.instId (generateName sender prim.instId)
        (prim.name, prim.ordSeqNo)).hasPrimaryQuorum prim.instId = true)
      (primary : RepName) (seqNo : ℕ)
      (hmost : mostCommonElement ((s.primaryDeclarationsOf prim.instId).set (generateName sender prim.instId)
        (prim.name, prim.ordSeqNo)).values = some (primary, seqNo)) :
      Write second c s ((s.setPrimaryDeclaration prim.instId (generateName sender prim.instId)
        (prim.name, prim.ordSeqNo)).afterSelection prim.instId primary seqNo)
  | recordReelection (before : PrimaryElector) (m : Reelection) (sender : NodeName)
      (hc : c = .message before (.reelection m) sender) (hrecords : before.records (.reelection m) sender = true)
      (hround : s.restartsOf m.instId = before.roundFor (.reelection m))
      (hnew : (s.reElectionProposalsOf m.instId).contains (generateName sender m.instId) = false) :
      Write second c s (s.setReElectionProposal m.instId (generateName sender m.instId) m.tieAmong)
  /-- for a node that lags behind -/
  | sendAgain (m : ElectionMsg) (hwhy : Repeats s m) : Write second c s (s.sendAgain m)

/-- the writes of an event -/
abbrev Writes (second : ℕ) (c : Cause) : PrimaryElector → PrimaryElector → Prop :=
  ReflTransGen (Write second c)

variable {second : ℕ} {c : Cause} {s : PrimaryElector}

theorem writes_of_write {s' : PrimaryElector} (h : Write second c s s') : Writes second c s s' := ReflTransGen.single h

theorem writes_of_quiet {s' : PrimaryElector} (h : Quiet s s') : Writes second c s s' := writes_of_write (.quiet h)

/-- an action that is no self-nomination -/
theorem schedule_quiet (s : PrimaryElector) {action : ElectorAction} (ticks : ℕ)
    (h : ∀ i, action ≠ .nominateReplica i) : Quiet s (s.schedule action ticks) :=
  { Quiet.refl s with
    pending := fun i hi => (ActionQueue.pending_schedule hi).resolve_right fun heq => h i heq.symm }

theorem size_set_of_not_contains {κ α : Type} [DecidableEq κ] {d : Dict κ α} {k : κ} (v : α)
    (h : d.contains k = false) : (d.set k v).size = d.size + 1 := by
  have hkeys : (d.set k v).keys.toFinset = insert k d.keys.toFinset := by
    ext x
    simp [Dict.mem_keys_set]
  have hnot : k ∉ d.keys.toFinset := by
    rw [List.mem_toFinset, ← Dict.contains_iff, h]
    decide
  rw [Dict.size_eq_card, Dict.size_eq_card, hkeys, Finset.card_insert_of_notMem hnot]

/-! ## The tables -/

theorem nominationsOf_setNomination (s : PrimaryElector) (i j : ℕ) (r : RepName) (candidate : Candidate) :
    (s.setNomination i r candidate).nominationsOf j =
      if j = i then (s.nominationsOf i).set r candidate else s.nominationsOf j := by
  unfold nominationsOf setNomination
  rw [Dict.get?_set]
  split_ifs <;> rfl

theorem primaryDeclarationsOf_setPrimaryDeclaration_eq (s : PrimaryElector) (i j : ℕ) (r : RepName) (p : Candidate) :
    (s.setPrimaryDeclaration i r p).primaryDeclarationsOf j =
      if j = i then (s.primaryDeclarationsOf i).set r p else s.primaryDeclarationsOf j := by
  unfold primaryDeclarationsOf setPrimaryDeclaration
  rw [Dict.get?_set]
  split_ifs <;> rfl

theorem reElectionProposalsOf_setReElectionProposal (s : PrimaryElector) (i j : ℕ) (r : RepName)
    (candidates : List Candidate) : (s.setReElectionProposal i r candidates).reElectionProposalsOf j =
      if j = i then (s.reElectionProposalsOf i).set r candidates else s.reElectionProposalsOf j := by
  unfold reElectionProposalsOf setReElectionProposal
  rw [Dict.get?_set]
  split_ifs <;> rfl

theorem setElectionDefaults_tables (s : PrimaryElector) (i j : ℕ) :
    (s.setElectionDefaults i).nominationsOf j = (if j = i then Dict.empty else s.nominationsOf j) ∧
      (s.setElectionDefaults i).primaryDeclarationsOf j =
        (if j = i then Dict.empty else s.primaryDeclarationsOf j) ∧
      (s.setElectionDefaults i).reElectionProposalsOf j =
        if j = i then Dict.empty else s.reElectionProposalsOf j := by
  unfold nominationsOf primaryDeclarationsOf reElectionProposalsOf setElectionDefaults
  simp only [Dict.get?_set]
  split_ifs <;> exact ⟨rfl, rfl, rfl⟩

theorem setDefaults_tables (s : PrimaryElector) (i j : ℕ) :
    (s.setDefaults i).nominationsOf j = (if j = i then Dict.empty else s.nominationsOf j) ∧
      (s.setDefaults i).primaryDeclarationsOf j = (if j = i then Dict.empty else s.primaryDeclarationsOf j) ∧
      (s.setDefaults i).reElectionProposalsOf j = if j = i then Dict.empty else s.reElectionProposalsOf j :=
  setElectionDefaults_tables _ i j

/-! ## Nominations -/

theorem setDefaults_writes {i : ℕ} (hwhy : s.nominations.contains i = false ∨
    s.primaryDeclarations.contains i = false ∨ s.reElectionProposals.contains i = false) :
    Writes second c s (s.setDefaults i) := writes_of_write (.start i hwhy)

theorem nominateRandomReplica_writes (hnone : s.replicaNominatedForItself = none)
    (hprimary : s.hasPrimaryReplica = false) : Writes second c s s.nominateRandomReplica := by
  unfold nominateRandomReplica
  split_ifs
  · cases s.chosenInstId with
    | none => exact ReflTransGen.refl
    | some chosen => exact writes_of_write (.choose chosen hnone hprimary)
  · exact ReflTransGen.refl

theorem nominateItself_writes : Writes second c s s.nominateItself := by
  unfold nominateItself
  split_ifs with hnone hprimary
  · exact ReflTransGen.refl
  · exact nominateRandomReplica_writes hnone (Bool.not_eq_true _ ▸ hprimary)
  · exact ReflTransGen.refl

theorem prepareReplicaForElection_writes (replica : ElectedReplica) :
    Writes second c s (s.prepareReplicaForElection replica) := by
  unfold prepareReplicaForElection
  split_ifs with h
  · exact ReflTransGen.refl
  · exact setDefaults_writes (Or.inl (Bool.not_eq_true _ ▸ h))

theorem startElection_writes : Writes second c s s.startElection := by
  have hprepare : ∀ (l : List ElectedReplica) (s : PrimaryElector),
      Writes second c s (l.foldl prepareReplicaForElection s) := by
    intro l
    induction l with
    | nil => exact fun _ => ReflTransGen.refl
    | cons r l ih => exact fun s => (prepareReplicaForElection_writes r).trans (ih _)
  exact (hprepare s.replicas s).trans nominateItself_writes

theorem didReplicaNominate_eq {i : ℕ} {r : ElectedReplica} (hr : s.replicas[i]? = some r) :
    s.didReplicaNominate i = (s.nominationsOf i).contains r.name := by
  unfold didReplicaNominate
  rw [hr]

theorem nominateReplica_writes {i : ℕ} (hwhy : s.Nominates i ∨ Renominates c s i) :
    Writes second c s (s.nominateReplica i) := by
  unfold nominateReplica
  cases hr : s.replicas[i]? with
  | none => exact ReflTransGen.refl
  | some r =>
    dsimp only
    rw [didReplicaNominate_eq hr]
    split_ifs with hnominated hstarted
    · exact ReflTransGen.refl
    · exact writes_of_write (.nominateSelf i r hr (Bool.not_eq_true _ ▸ hnominated) hstarted hwhy)
    · exact ReflTransGen.refl

theorem setDefaults_nominationsOf (s : PrimaryElector) (i : ℕ) : (s.setDefaults i).nominationsOf i = Dict.empty := by
  simp [setDefaults, setElectionDefaults, nominationsOf]

theorem contains_set_self {κ α : Type} [DecidableEq κ] (d : Dict κ α) (k : κ) (v : α) : (d.set k v).contains k = true :=
  Dict.contains_iff.2 (Dict.mem_keys_set.2 (Or.inl rfl))

@[simp] theorem nominationsOf_send (s : PrimaryElector) (m : ElectionMsg) (i : ℕ) :
    (s.send m).nominationsOf i = s.nominationsOf i := rfl

theorem not_contains_of_set {κ α : Type} [DecidableEq κ] {d : Dict κ α} {k k' : κ} {v : α}
    (h : (d.set k v).contains k' = false) : d.contains k' = false := by
  rw [← Bool.not_eq_true, Dict.contains_iff] at h ⊢
  exact fun hk => h (Dict.mem_keys_set.2 (Or.inr hk))

/-- who has nominated has a table of nominations -/
theorem contains_of_nominated {i : ℕ} {r : RepName} (h : (s.nominationsOf i).contains r = true) :
    s.nominations.contains i = true := by
  by_contra hnone
  have hempty : s.nominations.get? i = none := by simpa [Dict.contains] using hnone
  rw [nominationsOf, hempty] at h
  cases h

/-- a node that has not nominated follows, in the tables that are there then -/
theorem nominate_writes {before : PrimaryElector} {nom : Nomination} {sender : NodeName}
    (hc : c = .message before (.nomination nom) sender) {r : ElectedReplica} (hr : s.replicas[nom.instId]? = some r)
    (hallowed : s.excludes nom.instId nom.name = false) :
    Writes second c s (s.nominate r nom) ∧ (s.nominate r nom).nominations.contains nom.instId = true ∧
      (s.nominate r nom).excludes nom.instId nom.name = false ∧
      (s.nominate r nom).restartsOf nom.instId = s.roundFor (.nomination nom) ∧
      ∀ k, ((s.nominate r nom).nominationsOf nom.instId).contains k = false →
        ((s.prepared (.nomination nom)).nominationsOf nom.instId).contains k = false := by
  unfold roundFor prepared nominate
  rw [didReplicaNominate_eq hr]
  dsimp only
  by_cases hnominated : (s.nominationsOf nom.instId).contains r.name = true
  · have hstarted := contains_of_nominated hnominated
    rw [if_pos hnominated, if_pos hstarted]
    exact ⟨ReflTransGen.refl, hstarted, hallowed, rfl, fun _ => id⟩
  · rw [if_neg hnominated]
    by_cases hstarted : s.nominations.contains nom.instId = true
    · rw [if_pos hstarted]
      exact ⟨writes_of_write (.follow before nom sender hc r hr hallowed (Bool.not_eq_true _ ▸ hnominated) hstarted),
        contains_set_self _ _ _, hallowed, rfl, fun k hk =>
          not_contains_of_set (by rwa [nominationsOf_send, nominationsOf_setNomination, if_pos rfl] at hk)⟩
    · rw [if_neg hstarted]
      refine ⟨(setDefaults_writes (Or.inl (Bool.not_eq_true _ ▸ hstarted))).tail
        (.follow before nom sender hc r hr hallowed ?_ (contains_set_self _ _ _)), contains_set_self _ _ _, hallowed,
        rfl, fun k hk => not_contains_of_set (by rwa [nominationsOf_send, nominationsOf_setNomination, if_pos rfl] at hk)⟩
      rw [setDefaults_nominationsOf]
      rfl

theorem processNominate_writes {nom : Nomination} {sender : NodeName}
    (hc : c = .message s (.nomination nom) sender) : Writes second c s (s.processNominate nom sender) := by
  unfold processNominate
  cases hr : s.replicas[nom.instId]? with
  | none => exact ReflTransGen.refl
  | some r =>
    dsimp only
    split_ifs with hexcluded
    · exact ReflTransGen.refl
    · have hallowed : s.excludes nom.instId nom.name = false := Bool.not_eq_true _ ▸ hexcluded
      obtain ⟨hwrites, hstarted, hallowed', hround, hjudged⟩ : Writes second c s (s.nominate r nom) ∧ _ ∧ _ ∧ _ ∧ _ :=
        nominate_writes hc hr hallowed
      refine hwrites.trans ?_
      unfold recordNomination
      split_ifs with hknown
      · exact ReflTransGen.refl
      · have hnew := Bool.not_eq_true _ ▸ hknown
        have hrecords : s.records (.nomination nom) sender = true := by
          unfold records
          rw [show s.replicas[(ElectionMsg.nomination nom).instId]? = some r from hr]
          dsimp only
          rw [hallowed, hjudged _ hnew]
          rfl
        exact (writes_of_write (.recordNomination s nom sender hc hrecords hround hallowed' hnew hstarted)).tail
          (.quiet (schedule_quiet _ 0 fun _ h => (by cases h)))

/-! ## Declarations -/

/-- no view changes meanwhile -/
theorem selectPrimary_quiet {i : ℕ} {primary : RepName} {seqNo : ℕ}
    (hmost : mostCommonElement (s.primaryDeclarationsOf i).values = some (primary, seqNo)) :
    s.selectPrimary i .quiet = (s.afterSelection i primary seqNo).scheduleElection := by
  unfold selectPrimary
  rw [hmost]
  rfl

theorem mostCommonElement_isSome {α : Type} [DecidableEq α] {items : List α} (h : items ≠ []) :
    ∃ a, mostCommonElement items = some a := by
  cases hmax : maxEntry (itemCounts items).entries with
  | none =>
    obtain ⟨a, ha⟩ := List.exists_mem_of_ne_nil _ h
    have hentry := mem_itemCounts.2 ⟨ha, rfl⟩
    rw [maxEntry_eq_none.1 hmax] at hentry
    cases hentry
  | some m => exact ⟨m.1, by rw [mostCommonElement, hmax]; rfl⟩

theorem values_set_ne_nil {κ α : Type} [DecidableEq κ] (d : Dict κ α) (k : κ) (v : α) : (d.set k v).values ≠ [] :=
  List.ne_nil_of_mem (List.mem_map_of_mem (Dict.mem_set.2 (Or.inl rfl)))

theorem isPrimary_isSome (r : ElectedReplica) : r.isPrimary.isSome = r.primaryName.isSome := Option.isSome_map

/-- the tables of the instance are there; the replicas, and who is excluded, are as before -/
theorem prepared_primary (second : ℕ) (s : PrimaryElector) (prim : Primary) (sender : NodeName) :
    Writes second (.message s (.primary prim) sender) s (s.prepared (.primary prim)) ∧
      (s.prepared (.primary prim)).replicas = s.replicas ∧
      (s.prepared (.primary prim)).excludes prim.instId prim.name = s.excludes prim.instId prim.name := by
  unfold prepared
  dsimp only
  split_ifs with hdeclared
  · exact ⟨ReflTransGen.refl, rfl, rfl⟩
  · exact ⟨setDefaults_writes (Or.inr (Or.inl (Bool.eq_false_of_not_eq_true hdeclared))), rfl, rfl⟩

theorem records_primary_eq {prim : Primary} {sender : NodeName} {r : ElectedReplica}
    (hr : s.replicas[prim.instId]? = some r) :
    s.records (.primary prim) sender = (!s.excludes prim.instId prim.name &&
      !((s.prepared (.primary prim)).primaryDeclarationsOf prim.instId).contains (generateName sender prim.instId)) := by
  unfold records
  rw [show s.replicas[(ElectionMsg.primary prim).instId]? = some r from hr]

/-- a declaration that is not recorded leaves the tables empty, at most -/
theorem processPrimary_of_not_records (second : ℕ) {prim : Primary} {sender : NodeName}
    (hrecords : s.records (.primary prim) sender = false) :
    s.settledBy prim sender = none ∧ ∃ s', Writes second (.message s (.primary prim) sender) s s' ∧
      ∀ d, s.processPrimary prim sender d = s' := by
  refine ⟨?_, ?_⟩
  · unfold settledBy
    rw [hrecords, if_neg fun h => Bool.false_ne_true h.1]
  cases hr : s.replicas[prim.instId]? with
  | none =>
    refine ⟨s, ReflTransGen.refl, fun d => ?_⟩
    unfold processPrimary
    rw [hr]
  | some r =>
    by_cases hexcluded : s.excludes prim.instId prim.name = true
    · refine ⟨s, ReflTransGen.refl, fun d => ?_⟩
      unfold processPrimary
      rw [hr]
      exact if_pos hexcluded
    · rw [records_primary_eq hr, Bool.eq_false_of_not_eq_true hexcluded, Bool.not_false, Bool.true_and,
        Bool.not_eq_false'] at hrecords
      refine ⟨s.prepared (.primary prim), (prepared_primary second s prim sender).1, fun d => ?_⟩
      unfold processPrimary
      rw [hr]
      dsimp only
      rw [if_neg hexcluded]
      exact if_pos hrecords

/-- a declaration that is recorded settles the instance, or nothing more happens -/
theorem processPrimary_of_records {prim : Primary} {sender : NodeName} {r : ElectedReplica}
    (hr : s.replicas[prim.instId]? = some r) (hrecords : s.records (.primary prim) sender = true) (d : Dispatched) :
    s.processPrimary prim sender d = if r.primaryName.isSome then s.declared prim sender
      else if (s.declared prim sender).hasPrimaryQuorum prim.instId then
        (s.declared prim sender).selectPrimary prim.instId d
      else s.declared prim sender := by
  rw [records_primary_eq hr, Bool.and_eq_true, Bool.not_eq_true', Bool.not_eq_true'] at hrecords
  have hprepared : (if s.primaryDeclarations.contains prim.instId then s else s.setDefaults prim.instId) =
      s.prepared (.primary prim) := rfl
  unfold processPrimary
  rw [hr]
  dsimp only
  rw [if_neg (Bool.not_eq_true _ ▸ hrecords.1), hprepared, if_neg (Bool.not_eq_true _ ▸ hrecords.2), isPrimary_isSome]
  rfl

/-- **What a declaration writes.** The messages that have waited for a primary matter only if the declaration settles the
instance. -/
theorem processPrimary_spec (second : ℕ) (s : PrimaryElector) (prim : Primary) (sender : NodeName) :
    match s.settledBy prim sender with
    | none => ∃ s', Writes second (.message s (.primary prim) sender) s s' ∧ ∀ d, s.processPrimary prim sender d = s'
    | some (primary, seqNo) => ∃ s₁, Writes second (.message s (.primary prim) sender) s s₁ ∧
        Write second (.message s (.primary prim) sender) s₁
          ((s.declared prim sender).afterSelection prim.instId primary seqNo) ∧
        mostCommonElement ((s.declared prim sender).primaryDeclarationsOf prim.instId).values = some (primary, seqNo) ∧
        ∀ d, s.processPrimary prim sender d = (s.declared prim sender).selectPrimary prim.instId d := by
  by_cases hrecords : s.records (.primary prim) sender = true
  · cases hr : s.replicas[prim.instId]? with
    | none =>
      unfold records at hrecords
      rw [show s.replicas[(ElectionMsg.primary prim).instId]? = none from hr] at hrecords
      cases hrecords
    | some r =>
      have hprocess := fun d => processPrimary_of_records hr hrecords d
      have hjudged := hrecords
      rw [records_primary_eq hr, Bool.and_eq_true, Bool.not_eq_true', Bool.not_eq_true'] at hjudged
      obtain ⟨hwrites, hreplicas, hexcludes⟩ := prepared_primary second s prim sender
      have hr₁ := (congrArg (·[prim.instId]?) hreplicas).trans hr
      have hallowed := hexcludes.trans hjudged.1
      have hknown : (s.known prim.instId).bind Prod.snd = r.primaryName := by
        unfold known
        rw [hr]
        rfl
      -- recorded, with nothing settled
      have hrecorded : (r.primaryName.isSome = true ∨ (s.declared prim sender).hasPrimaryQuorum prim.instId = false) →
          Writes second (.message s (.primary prim) sender) s (s.declared prim sender) := fun hopen =>
        hwrites.tail (.recordPrimary s prim sender rfl hrecords rfl r hr₁ hallowed hjudged.2 hopen)
      by_cases hopen : r.primaryName = none
      · by_cases hquorum : (s.declared prim sender).hasPrimaryQuorum prim.instId = true
        · have hsettled : s.settledBy prim sender =
              mostCommonElement ((s.declared prim sender).primaryDeclarationsOf prim.instId).values :=
            if_pos ⟨hrecords, hknown.trans hopen, hquorum⟩
          have hmost : mostCommonElement ((s.declared prim sender).primaryDeclarationsOf prim.instId).values =
              mostCommonElement (((s.prepared (.primary prim)).primaryDeclarationsOf prim.instId).set
                (generateName sender prim.instId) (prim.name, prim.ordSeqNo)).values := by
            rw [declared, primaryDeclarationsOf_setPrimaryDeclaration]
          obtain ⟨⟨primary, seqNo⟩, hsome⟩ := mostCommonElement_isSome (values_set_ne_nil
            ((s.prepared (.primary prim)).primaryDeclarationsOf prim.instId) (generateName sender prim.instId)
            (prim.name, prim.ordSeqNo))
          rw [hsettled, hmost, hsome]
          refine ⟨_, hwrites, ?_, rfl, fun d => ?_⟩
          · exact .select s prim sender rfl hrecords rfl r hr₁ hallowed hjudged.2 hopen hquorum primary seqNo hsome
          · rw [hprocess, hopen, if_neg (fun h => by cases h), if_pos hquorum]
        · have hsettled : s.settledBy prim sender = none := if_neg fun h => hquorum h.2.2
          rw [hsettled]
          refine ⟨_, hrecorded (Or.inr (Bool.eq_false_of_not_eq_true hquorum)), fun d => ?_⟩
          rw [hprocess, hopen, if_neg (fun h => by cases h), if_neg hquorum]
      · have hsettled : s.settledBy prim sender = none := if_neg fun h => hopen (hknown.symm.trans h.2.1)
        rw [hsettled]
        have hsome := Option.isSome_iff_ne_none.2 hopen
        exact ⟨_, hrecorded (Or.inl hsome), fun d => by rw [hprocess, if_pos hsome]⟩
  · obtain ⟨hsettled, hwrites⟩ := processPrimary_of_not_records second (Bool.eq_false_of_not_eq_true hrecords)
    rw [hsettled]
    exact hwrites

/-- a declaration whose primary had no messages waiting for it -/
theorem processPrimary_writes {prim : Primary} {sender : NodeName} (hc : c = .message s (.primary prim) sender) :
    Writes second c s (s.processPrimary prim sender .quiet) := by
  subst hc
  have hspec := processPrimary_spec second s prim sender
  cases hsettled : s.settledBy prim sender with
  | none =>
    rw [hsettled] at hspec
    obtain ⟨s', hwrites, hprocess⟩ := hspec
    rw [hprocess]
    exact hwrites
  | some candidate =>
    rw [hsettled] at hspec
    obtain ⟨s₁, hwrites, hselect, hmost, hprocess⟩ := hspec
    rw [hprocess, selectPrimary_quiet hmost]
    exact (hwrites.tail hselect).tail (.quiet (schedule_quiet _ 0 fun _ h => (by cases h)))

/-! ## Re-elections -/

theorem startReelection_writes {before : PrimaryElector} {m : Reelection} {sender : NodeName}
    (hc : c = .message before (.reelection m) sender) (hstarts : before.startsReelection m sender = true)
    (hname : s.name = before.name) (hprevious : s.previousMasterPrimary = before.previousMasterPrimary)
    (hnominated : s.replicaNominatedForItself = before.replicaNominatedForItself)
    (hreplicas : s.replicas = before.replicas) (r : ElectedReplica) (hquorum : s.hasReelectionQuorum m.instId = true) :
    Writes second c s (s.startReelection second m.instId r) := by
  unfold startReelection
  cases mostCommonElement (s.reElectionProposalsOf m.instId).values with
  | none => exact ReflTransGen.refl
  | some tieAmong =>
    have hrestart : Writes second c s (s.setElectionDefaults m.instId) := writes_of_write (.restart m hquorum)
    have hrenominates : (s.setElectionDefaults m.instId).hasPrimaryReplica = false ∧
        (s.setElectionDefaults m.instId).wasMasterPrimaryInPrevView = false →
        Renominates c (s.setElectionDefaults m.instId) m.instId := by
      rintro ⟨hprimary, hmaster⟩
      refine ⟨before, m, sender, hc, rfl, hstarts, ?_, ?_, hnominated, hreplicas⟩
      · unfold hasPrimaryReplica at hprimary ⊢
        rwa [← hreplicas]
      · unfold wasMasterPrimaryInPrevView at hmaster ⊢
        rwa [← hprevious, ← hname]
    dsimp only
    split_ifs with hfree htie
    · exact hrestart.tail (.wait m.instId _ (hrenominates hfree))
    · exact hrestart.trans (nominateReplica_writes (Or.inr (hrenominates hfree)))
    · exact hrestart

theorem forReelection_frame (s : PrimaryElector) (i : ℕ) :
    (s.forReelection i).name = s.name ∧ (s.forReelection i).f = s.f ∧ (s.forReelection i).replicas = s.replicas ∧
      (s.forReelection i).previousMasterPrimary = s.previousMasterPrimary ∧
      (s.forReelection i).replicaNominatedForItself = s.replicaNominatedForItself := by
  unfold forReelection
  split_ifs <;> exact ⟨rfl, rfl, rfl, rfl, rfl⟩

theorem processReelection_writes {m : Reelection} {sender : NodeName}
    (hc : c = .message s (.reelection m) sender) : Writes second c s (s.processReelection second m sender) := by
  unfold processReelection
  cases hr : s.replicas[m.instId]? with
  | none => exact ReflTransGen.refl
  | some r =>
    dsimp only
    obtain ⟨s₁, hs₁⟩ : ∃ s₁, s.forReelection m.instId = s₁ := ⟨_, rfl⟩
    have hwrites : Writes second c s s₁ := by
      rw [← hs₁]
      unfold forReelection
      split_ifs with hproposed
      · exact ReflTransGen.refl
      · exact setDefaults_writes (Or.inr (Or.inr (Bool.not_eq_true _ ▸ hproposed)))
    obtain ⟨hname, hf, hreplicas, hprevious, hnominated⟩ := hs₁ ▸ forReelection_frame s m.instId
    rw [show (if s.reElectionProposals.contains m.instId then s else s.setDefaults m.instId) = s₁ from hs₁]
    refine hwrites.trans ?_
    split_ifs with hexpected hknown hquorum
    · exact ReflTransGen.refl
    · exact ReflTransGen.refl
    all_goals
      have hnew := Bool.eq_false_of_not_eq_true hknown
      have hrecords : s.records (.reelection m) sender = true := by
        unfold records
        rw [show s.replicas[(ElectionMsg.reelection m).instId]? = some r from hr]
        dsimp only
        rw [hs₁, hnew, decide_eq_true (not_not.1 hexpected)]
        rfl
      have hround : s₁.restartsOf m.instId = s.roundFor (.reelection m) := by
        rw [roundFor, prepared, hs₁]
        rfl
      have hrecord : Writes second c s₁ (s₁.setReElectionProposal m.instId (generateName sender m.instId) m.tieAmong) :=
        writes_of_write (.recordReelection s m sender hc hrecords hround hnew)
    · refine hrecord.trans (startReelection_writes (s := s₁.setReElectionProposal m.instId
        (generateName sender m.instId) m.tieAmong) hc ?_ hname hprevious hnominated hreplicas r hquorum)
      have hsize := of_decide_eq_true hquorum
      rw [reElectionProposalsOf_setReElectionProposal, if_pos rfl, size_set_of_not_contains _ hnew] at hsize
      unfold startsReelection
      rw [hrecords, hs₁, Bool.true_and]
      exact decide_eq_true (by rwa [quorum, ← hf])
    · exact hrecord

/-! ## Decisions -/

/-- a default that is added is what was read before -/
theorem getD_setDefault {α : Type} (d : Dict ℕ α) (i j : ℕ) (v : α) :
    ((if d.contains i then d else d.set i v).get? j).getD v = (d.get? j).getD v := by
  split_ifs with h
  · rfl
  · rw [Dict.get?_set]
    split_ifs with hj
    · have hnone : d.get? j = none := by
        rw [hj]
        simpa [Dict.contains] using h
      rw [hnone]
      rfl
    · rfl

theorem addDecisionDefaults_quiet (s : PrimaryElector) (i : ℕ) : Quiet s (s.addDecisionDefaults i) := by
  have hcontains : ∀ {α : Type} (d : Dict ℕ α) (v : α) (j : ℕ), d.contains j = true →
      (if d.contains i then d else d.set i v).contains j = true := by
    intro α d v j hj
    split_ifs
    · exact hj
    · exact Dict.contains_iff.2 (Dict.mem_keys_set.2 (Or.inr (Dict.contains_iff.1 hj)))
  exact { Quiet.refl s with
    declarations := fun j => getD_setDefault _ i j _
    declared := fun j => hcontains _ _ j
    proposals := fun j => getD_setDefault _ i j _
    proposed := fun j => hcontains _ _ j
    rounds := fun j => getD_setDefault _ i j _ }

theorem schedulePrimaryDecision_writes (s : PrimaryElector) (i : ℕ) :
    Writes second c s (s.schedulePrimaryDecision second i) := by
  unfold schedulePrimaryDecision
  split_ifs
  · have hscheduled : Quiet s { s with
        scheduledPrimaryDecisions := s.scheduledPrimaryDecisions.set i (some s.perfCounter) } := { Quiet.refl s with }
    exact (writes_of_quiet hscheduled).tail (.quiet (schedule_quiet _ _ fun _ h => (by cases h)))
  · exact writes_of_quiet (schedule_quiet _ _ fun _ h => (by cases h))
  · exact ReflTransGen.refl

theorem hasEnoughNominations_addDecisionDefaults (s : PrimaryElector) (i : ℕ) :
    (s.addDecisionDefaults i).hasEnoughNominations second i = s.hasEnoughNominations second i := by
  have hscheduled : (s.addDecisionDefaults i).scheduledAt i = s.scheduledAt i := getD_setDefault _ i i _
  unfold hasEnoughNominations hasPrimaryDecisionTimerExpired
  rw [hscheduled]
  rfl

theorem clearWinner_addDecisionDefaults (s : PrimaryElector) (i : ℕ) :
    (s.addDecisionDefaults i).clearWinner second i = s.clearWinner second i := by
  unfold clearWinner
  rw [hasEnoughNominations_addDecisionDefaults]
  rfl

theorem sendPrimary_writes {before : PrimaryElector} {i : ℕ} (hc : c = .action before (.decidePrimary i))
    {r : ElectedReplica} (hr : s.replicas[i]? = some r) (hnew : (s.primaryDeclarationsOf i).contains r.name = false)
    (hnot : (s.reElectionProposalsOf i).contains r.name = false) (hquorum : s.hasNominationQuorum i = true)
    (candidate : Candidate) {votes : ℕ} (hclear : s.getPrimaryCandidates i = [(candidate, votes)])
    (hnominations : s.nominations = before.nominations)
    (hown : before.ownDeclaration second i = some (r.name, candidate)) :
    Writes second c s (s.sendPrimary i r candidate.1 candidate.2) := by
  have hdeclare : Write second c s _ := .declare before i hc r hr hnew hnot hquorum candidate votes hclear hnominations
    hown
  exact (writes_of_write hdeclare).tail (.quiet { Quiet.refl _ with })

theorem sendReelection_writes {before : PrimaryElector} {i : ℕ} (hc : c = .action before (.decidePrimary i))
    {r : ElectedReplica} (hr : s.replicas[i]? = some r) (hnew : (s.reElectionProposalsOf i).contains r.name = false)
    (hnot : (s.primaryDeclarationsOf i).contains r.name = false) (hquorum : s.hasNominationQuorum i = true)
    (candidates : List Candidate) : Writes second c s (s.sendReelection i r candidates) := by
  have hadvanced : (s.advanceRound i).reElectionRound i = s.reElectionRound i + 1 := by
    unfold advanceRound reElectionRound
    rw [Dict.get?_set_self]
    rfl
  have hsend : s.sendReelection i r candidates =
      { ((s.advanceRound i).setReElectionProposal i r.name candidates).send
          (.reelection ⟨i, (s.advanceRound i).reElectionRound i, candidates, s.viewNo⟩) with
        scheduledPrimaryDecisions := s.scheduledPrimaryDecisions.set i none } := rfl
  rw [hsend, hadvanced]
  have hpropose : Write second c s _ := .propose before i hc r hr hnew hnot hquorum candidates
  exact (writes_of_write hpropose).tail (.quiet { Quiet.refl _ with })

theorem decideOnCandidates_writes {before : PrimaryElector} {i : ℕ} (hc : c = .action before (.decidePrimary i))
    {r : ElectedReplica} (hr : s.replicas[i]? = some r)
    (hdeclared : (s.primaryDeclarationsOf i).contains r.name = false)
    (hproposed : (s.reElectionProposalsOf i).contains r.name = false) (hquorum : s.hasNominationQuorum i = true)
    (hnominations : s.nominations = before.nominations)
    (hown : ∀ candidate, s.clearWinner second i = some candidate →
      before.ownDeclaration second i = some (r.name, candidate)) :
    Writes second c s (s.decideOnCandidates second i r) := by
  -- no clear winner
  have htie : ∀ candidates : List (Candidate × ℕ), Writes second c s
      (if s.hasEnoughNominations second i then s.sendReelection i r (candidates.map Prod.fst)
        else s.schedulePrimaryDecision second i) := by
    intro candidates
    split_ifs
    · exact sendReelection_writes hc hr hproposed hdeclared hquorum _
    · exact schedulePrimaryDecision_writes s i
  unfold decideOnCandidates
  unfold clearWinner at hown
  cases hcandidates : s.getPrimaryCandidates i with
  | nil => exact htie []
  | cons winner rest =>
    cases rest with
    | nil =>
      rw [hcandidates] at hown
      obtain ⟨⟨name, seqNo⟩, votes⟩ := winner
      dsimp only at hown ⊢
      split_ifs with henough hmajority
      · exact sendPrimary_writes hc hr hdeclared hproposed hquorum (name, seqNo) hcandidates hnominations
          (hown (name, seqNo) (if_pos (Or.inl henough)))
      · exact sendPrimary_writes hc hr hdeclared hproposed hquorum (name, seqNo) hcandidates hnominations
          (hown (name, seqNo) (if_pos (Or.inr hmajority)))
      · exact schedulePrimaryDecision_writes s i
    | cons c' rest => exact htie (winner :: c' :: rest)

theorem decidePrimary_writes {before : PrimaryElector} {i : ℕ} (hc : c = .action before (.decidePrimary i))
    (hnominations : s.nominations = before.nominations)
    (hown : s.ownDeclaration second i = before.ownDeclaration second i) :
    Writes second c s (s.decidePrimary second i) := by
  unfold decidePrimary
  cases hr : s.replicas[i]? with
  | none => exact ReflTransGen.refl
  | some r =>
    have hdefaults := addDecisionDefaults_quiet s i
    refine (writes_of_quiet hdefaults).trans ?_
    dsimp only
    split_ifs with hdeclared hproposed hquorum
    · exact ReflTransGen.refl
    · exact ReflTransGen.refl
    · refine decideOnCandidates_writes hc hr (Bool.eq_false_of_not_eq_true hdeclared)
        (Bool.eq_false_of_not_eq_true hproposed) hquorum hnominations fun candidate hclear => ?_
      rw [hdefaults.declarations] at hdeclared
      rw [hdefaults.proposals] at hproposed
      rw [clearWinner_addDecisionDefaults] at hclear
      have hquorum' : s.hasNominationQuorum i = true := hquorum
      rw [← hown, ownDeclaration, hr]
      dsimp only
      rw [if_neg (not_or.2 ⟨hdeclared, hproposed⟩), if_pos hquorum', hclear, Option.map_some]
    · exact ReflTransGen.refl

/-! ## Nodes that lag behind -/

theorem repeats_of_mem {m : ElectionMsg} (h : m ∈ s.getElectionMsgsForLaggedNodes) : Repeats s m := by
  obtain ⟨i, -, hi⟩ := List.mem_flatMap.1 h
  unfold getElectionMsgsForInstance at hi
  cases hr : s.replicas[i]? with
  | none =>
    rw [hr] at hi
    cases hi
  | some r =>
    refine ⟨i, r, hr, ?_⟩
    rw [hr] at hi
    dsimp only at hi
    cases hp : r.primaryName with
    | some p =>
      rw [hp] at hi
      exact Or.inl ⟨p, rfl, List.mem_singleton.1 hi⟩
    | none =>
      rw [hp] at hi
      rcases List.mem_append.1 hi with hi | hi
      · cases hget : (s.nominationsOf i).get? r.name with
        | none =>
          rw [hget] at hi
          cases hi
        | some candidate =>
          rw [hget] at hi
          exact Or.inr (Or.inl ⟨candidate, rfl, List.mem_singleton.1 hi⟩)
      · cases hget : (s.primaryDeclarationsOf i).get? r.name with
        | none =>
          rw [hget] at hi
          cases hi
        | some candidate =>
          rw [hget] at hi
          exact Or.inr (Or.inr ⟨candidate, rfl, List.mem_singleton.1 hi⟩)

theorem sendToLagged_writes (s : PrimaryElector) : Writes second c s s.sendToLagged := by
  have hsend : ∀ (l : List ElectionMsg) (s : PrimaryElector), (∀ m ∈ l, Repeats s m) →
      Writes second c s (l.foldl sendAgain s) := by
    intro l
    induction l with
    | nil => exact fun _ _ => ReflTransGen.refl
    | cons m l ih =>
      intro s h
      exact (writes_of_write (.sendAgain m (h m List.mem_cons_self))).trans
        (ih _ fun m' hm' => h m' (List.mem_cons_of_mem _ hm'))
  exact hsend _ s fun m hm => repeats_of_mem hm

/-! ## Events -/

theorem inBoxRouter_writes {m : ElectionMsg} {sender : NodeName} (hc : c = .message s m sender) :
    Writes second c s (s.inBoxRouter second m sender .quiet) := by
  cases m with
  | nomination m => exact processNominate_writes hc
  | primary m => exact processPrimary_writes hc
  | reelection m => exact processReelection_writes hc

/-- the node without the action that it runs -/
def withQueue (s : PrimaryElector) (rest : List (ElectorAction × ℕ)) : PrimaryElector :=
  { s with actions := { s.actions with actionQueue := rest } }

theorem withQueue_quiet {action : ElectorAction} {aid : ℕ} {rest : List (ElectorAction × ℕ)}
    (h : s.actions.actionQueue = (action, aid) :: rest) : Quiet s (s.withQueue rest) := by
  refine { Quiet.refl s with pending := fun i hi => ?_ }
  rcases hi with ⟨aid', hi⟩ | hi
  · exact Or.inl ⟨aid', by rw [h]; exact List.mem_cons_of_mem _ hi⟩
  · exact Or.inr hi

/-- a self-nomination writes the same before its action is taken from the queue -/
theorem nominateReplica_withQueue (s : PrimaryElector) (i : ℕ) (rest : List (ElectorAction × ℕ)) :
    (s.withQueue rest).nominateReplica i = (s.nominateReplica i).withQueue rest := by
  have hreplicas : (s.withQueue rest).replicas = s.replicas := rfl
  have hsame : (s.withQueue rest).didReplicaNominate i = s.didReplicaNominate i := rfl
  unfold nominateReplica
  rw [hreplicas, hsame]
  cases s.replicas[i]? with
  | none => rfl
  | some r =>
    dsimp only
    split_ifs <;> first | rfl | contradiction

theorem nominateReplica_actions (s : PrimaryElector) (i : ℕ) : (s.nominateReplica i).actions = s.actions := by
  unfold nominateReplica
  cases s.replicas[i]? with
  | none => rfl
  | some r =>
    dsimp only
    split_ifs <;> rfl

theorem runAction_writes {action : ElectorAction} {aid : ℕ} {rest : List (ElectorAction × ℕ)}
    (h : s.actions.actionQueue = (action, aid) :: rest) :
    Writes second (.action s action) s ((s.withQueue rest).runAction second action) := by
  have hpopped := withQueue_quiet h
  cases action with
  | startElection => exact (writes_of_quiet hpopped).trans startElection_writes
  | nominateItself => exact (writes_of_quiet hpopped).trans nominateItself_writes
  | nominateReplica i =>
    have hpending : s.Nominates i := Or.inl ⟨aid, by rw [h]; exact List.mem_cons_self⟩
    have hpopped' : Quiet (s.nominateReplica i) ((s.nominateReplica i).withQueue rest) :=
      withQueue_quiet (by rw [nominateReplica_actions, h])
    rw [runAction, nominateReplica_withQueue]
    exact (nominateReplica_writes (Or.inl hpending)).tail (.quiet hpopped')
  | decidePrimary i => exact (writes_of_quiet hpopped).trans (decidePrimary_writes rfl rfl rfl)

theorem setOrdered_known (s : PrimaryElector) (ordered : List ℕ) (i : ℕ) :
    ((s.setOrdered ordered)[i]?).map (fun r => (r.name, r.primaryName)) = s.known i := by
  unfold setOrdered known
  rw [List.getElem?_mapIdx, Option.map_map]
  rfl

/-- **What an event writes**, unless it is a view change. -/
theorem handle_writes (s : PrimaryElector) {e : ElectorEvent} (he : ∀ viewNo, e ≠ .viewChanged viewNo) :
    Writes second (s.causeOf e) s (s.handle second e) := by
  cases e with
  | message m sender =>
    unfold handle
    dsimp only
    split_ifs
    · exact inBoxRouter_writes rfl
    · exact ReflTransGen.refl
  | action =>
    unfold handle causeOf
    cases hqueue : s.actions.actionQueue with
    | nil => exact ReflTransGen.refl
    | cons a rest => exact runAction_writes hqueue
  | moveDue => exact writes_of_quiet { Quiet.refl s with pending := fun i hi => ActionQueue.pending_moveDue hi }
  | decidePrimaries => exact writes_of_quiet (schedule_quiet s 0 fun _ h => (by cases h))
  | nodesJoined => exact sendToLagged_writes s
  | viewChanged viewNo => exact absurd rfl (he viewNo)
  | update perfCounter nodeCount randomChoice randomWait isParticipating ordered =>
    exact writes_of_quiet { Quiet.refl s with known := fun i => setOrdered_known s ordered i }

/-! ## What a write does to the tables and the primaries -/

theorem known_eq_some {i : ℕ} {n : RepName} {p : Option RepName} :
    s.known i = some (n, p) ↔ ∃ r, s.replicas[i]? = some r ∧ r.name = n ∧ r.primaryName = p := by
  unfold known
  rw [Option.map_eq_some_iff]
  simp only [Prod.mk.injEq]

theorem known_setPrimary (s : PrimaryElector) (i j : ℕ) (primary : RepName) (seqNo : ℕ) :
    (s.setPrimary i primary seqNo).known j =
      if j = i then (s.known j).map fun k => (k.1, some primary) else s.known j := by
  unfold known setPrimary
  rw [List.getElem?_modify]
  by_cases h : i = j
  · subst h
    simp only [if_true, Option.map_eq_map, Option.map_map]
    rfl
  · rw [if_neg fun hji => h hji.symm]
    simp [h]

/-- the flags of an election are neither tables nor primaries -/
theorem afterSelection_eq (s : PrimaryElector) (i : ℕ) (primary : RepName) (seqNo : ℕ) :
    (∀ j, (s.afterSelection i primary seqNo).known j = (s.setPrimary i primary seqNo).known j) ∧
      (∀ j, (s.afterSelection i primary seqNo).primaryDeclarationsOf j = s.primaryDeclarationsOf j) ∧
      (s.afterSelection i primary seqNo).f = s.f := by
  unfold afterSelection
  dsimp only
  split_ifs <;> exact ⟨fun _ => rfl, fun _ => rfl, rfl⟩

/-- no write gives a replica another name -/
theorem Write.names {s' : PrimaryElector} (h : Write second c s s') :
    s'.name = s.name ∧ s'.f = s.f ∧ ∀ i, (s'.known i).map Prod.fst = (s.known i).map Prod.fst := by
  cases h with
  | quiet hq => exact ⟨hq.name, hq.f, fun i => by rw [hq.known]⟩
  | select _ prim sender _ _ _ _ _ _ _ _ _ primary seqNo =>
    obtain ⟨hknown, -, hf⟩ := afterSelection_eq (s.setPrimaryDeclaration prim.instId
      (generateName sender prim.instId) (prim.name, prim.ordSeqNo)) prim.instId primary seqNo
    refine ⟨?_, hf, fun i => ?_⟩
    · unfold afterSelection
      dsimp only
      split_ifs <;> rfl
    · rw [hknown, known_setPrimary]
      split_ifs
      · rw [Option.map_map]
        rfl
      · rfl
  | _ => exact ⟨rfl, rfl, fun _ => rfl⟩

theorem Writes.names {s' : PrimaryElector} (h : Writes second c s s') :
    s'.name = s.name ∧ s'.f = s.f ∧ ∀ i, (s'.known i).map Prod.fst = (s.known i).map Prod.fst := by
  induction h with
  | refl => exact ⟨rfl, rfl, fun _ => rfl⟩
  | tail _ hwrite ih =>
    obtain ⟨hname, hf, hknown⟩ := hwrite.names
    exact ⟨hname.trans ih.1, hf.trans ih.2.1, fun i => (hknown i).trans (ih.2.2 i)⟩

/-! ## View changes -/

/-- each replica has its name: the node, and its place -/
def Named (s : PrimaryElector) : Prop := ∀ i r, s.replicas[i]? = some r → r.name = generateName s.name i

theorem Named.of_names {s' : PrimaryElector} (hnamed : s.Named) (hname : s'.name = s.name)
    (hknown : ∀ i, (s'.known i).map Prod.fst = (s.known i).map Prod.fst) : s'.Named := by
  intro i r hr
  have hfst := hknown i
  unfold known at hfst
  rw [hr, Option.map_map, Option.map_some, Option.map_map, eq_comm, Option.map_eq_some_iff] at hfst
  obtain ⟨r', hr', hsame⟩ := hfst
  exact hsame.symm.trans (hname ▸ hnamed i r' hr')

/-- the start of a view: nothing is voted and no primary is known -/
structure NewView (s : PrimaryElector) (viewNo : ℕ) (s' : PrimaryElector) : Prop where
  name : s'.name = s.name
  f : s'.f = s.f
  viewNo : s'.viewNo = viewNo
  known : ∀ i, s'.known i = (s.known i).map fun k => (k.1, none)
  nominations : ∀ i, (s.known i).isSome = true → s'.nominationsOf i = Dict.empty
  declarations : ∀ i, (s.known i).isSome = true → s'.primaryDeclarationsOf i = Dict.empty
  proposals : ∀ i, (s.known i).isSome = true → s'.reElectionProposalsOf i = Dict.empty
  previousMasterPrimary : s'.previousMasterPrimary = s.masterPrimary
  formerMasterPrimary : s'.formerMasterPrimary = s.masterPrimary
  masterPrimaries : s'.masterPrimaries = s.masterPrimaries
  nominated : s'.replicaNominatedForItself = some 0 → s.masterPrimary ≠ some s.name
  pending : ∀ i, s'.Nominates i → s.Nominates i ∨ s'.replicaNominatedForItself = some i

/-- the tables of the instances in `l` are emptied -/
structure TablesEmptied (s : PrimaryElector) (l : List ℕ) (s' : PrimaryElector) : Prop where
  name : s'.name = s.name
  f : s'.f = s.f
  viewNo : s'.viewNo = s.viewNo
  replicas : s'.replicas = s.replicas
  previousMasterPrimary : s'.previousMasterPrimary = s.previousMasterPrimary
  formerMasterPrimary : s'.formerMasterPrimary = s.formerMasterPrimary
  masterPrimaries : s'.masterPrimaries = s.masterPrimaries
  actions : s'.actions = s.actions
  nominations : ∀ i ∈ l, s'.nominationsOf i = Dict.empty
  declarations : ∀ i ∈ l, s'.primaryDeclarationsOf i = Dict.empty
  proposals : ∀ i ∈ l, s'.reElectionProposalsOf i = Dict.empty

theorem foldl_setDefaults (l : List ElectedReplica) (s : PrimaryElector) :
    TablesEmptied s (l.map fun r => r.name.instId) (l.foldl (fun s r => s.setDefaults r.name.instId) s) := by
  induction l using List.reverseRecOn with
  | nil =>
    exact ⟨rfl, rfl, rfl, rfl, rfl, rfl, rfl, rfl, fun _ h => (by cases h), fun _ h => (by cases h),
      fun _ h => (by cases h)⟩
  | append_singleton l r ih =>
    rw [List.foldl_append, List.foldl_cons, List.foldl_nil, List.map_append]
    have htables := setDefaults_tables (l.foldl (fun s r => s.setDefaults r.name.instId) s) r.name.instId
    refine ⟨ih.name, ih.f, ih.viewNo, ih.replicas, ih.previousMasterPrimary, ih.formerMasterPrimary, ih.masterPrimaries,
      ih.actions, fun i hi => ?_, fun i hi => ?_, fun i hi => ?_⟩
    · rw [(htables i).1]
      split_ifs with h
      · rfl
      · exact ih.nominations i ((List.mem_append.1 hi).resolve_right fun hr => h (List.mem_singleton.1 hr))
    · rw [(htables i).2.1]
      split_ifs with h
      · rfl
      · exact ih.declarations i ((List.mem_append.1 hi).resolve_right fun hr => h (List.mem_singleton.1 hr))
    · rw [(htables i).2.2]
      split_ifs with h
      · rfl
      · exact ih.proposals i ((List.mem_append.1 hi).resolve_right fun hr => h (List.mem_singleton.1 hr))

/-- the old master primary does not choose the master instance -/
theorem chosenInstId_ne_zero {chosen : ℕ} (h : s.chosenInstId = some chosen)
    (hmaster : s.wasMasterPrimaryInPrevView = true) : chosen ≠ 0 := by
  intro hzero
  have hmem := List.mem_of_getElem? h
  have hallowed := (List.mem_filter.1 hmem).2
  exact of_decide_eq_true hallowed ⟨hzero, hmaster⟩

/-- the tables of every replica are emptied, and the node nominates itself nowhere yet -/
theorem TablesEmptied.newView (hnamed : s.Named) {viewNo : ℕ} {t : PrimaryElector}
    (h : TablesEmptied (s.forgetPrimaries viewNo) ((s.forgetPrimaries viewNo).replicas.map fun r => r.name.instId) t) :
    NewView s viewNo { t with replicaNominatedForItself := none } := by
  have hmem : ∀ i, (s.known i).isSome = true → i ∈ (s.forgetPrimaries viewNo).replicas.map fun r => r.name.instId := by
    intro i hi
    obtain ⟨k, hk⟩ := Option.isSome_iff_exists.1 hi
    obtain ⟨r, hr, -⟩ := Option.map_eq_some_iff.1 hk
    refine List.mem_map.2 ⟨{ r with primaryName := none }, List.mem_map_of_mem (List.mem_of_getElem? hr), ?_⟩
    rw [hnamed i r hr]
    rfl
  have hreplicas : ({ t with replicaNominatedForItself := none } : PrimaryElector).replicas =
      (s.forgetPrimaries viewNo).replicas := h.replicas
  have hactions : ({ t with replicaNominatedForItself := none } : PrimaryElector).actions = s.actions := h.actions
  exact
    { name := h.name
      f := h.f
      viewNo := h.viewNo
      known := fun i => by
        unfold PrimaryElector.known
        rw [hreplicas]
        unfold forgetPrimaries
        rw [List.getElem?_map, Option.map_map, Option.map_map]
        rfl
      nominations := fun i hi => h.nominations i (hmem i hi)
      declarations := fun i hi => h.declarations i (hmem i hi)
      proposals := fun i hi => h.proposals i (hmem i hi)
      previousMasterPrimary := h.previousMasterPrimary
      formerMasterPrimary := h.formerMasterPrimary
      masterPrimaries := h.masterPrimaries
      nominated := fun hnominated => (by cases hnominated)
      pending := fun i hi => Or.inl (by
        unfold Nominates at hi ⊢
        rwa [hactions] at hi) }

/-- the node nominates itself, but not in the master instance if it was its primary -/
theorem NewView.nominateRandomReplica {viewNo : ℕ} {t : PrimaryElector} (h : NewView s viewNo t)
    (hnone : t.replicaNominatedForItself = none) : NewView s viewNo t.nominateRandomReplica := by
  unfold PrimaryElector.nominateRandomReplica
  split_ifs
  · cases hchosen : t.chosenInstId with
    | none => exact h
    | some chosen =>
      refine { h with nominated := fun heq hmaster => ?_, pending := fun i hi => ?_ }
      · refine chosenInstId_ne_zero hchosen (decide_eq_true ?_) (Option.some.inj heq)
        rw [h.previousMasterPrimary, h.name]
        exact hmaster
      · rcases ActionQueue.pending_schedule hi with hi | hi
        · refine Or.inl ((h.pending i hi).resolve_right fun heq => ?_)
          rw [hnone] at heq
          cases heq
        · cases hi
          exact Or.inr rfl
  · exact h

/-- **A view change** starts the elections of all instances anew. -/
theorem viewChanged_newView (hnamed : s.Named) {viewNo : ℕ} (hview : s.viewNo < viewNo) :
    NewView s viewNo (s.viewChanged viewNo) := by
  unfold viewChanged
  rw [if_pos hview]
  exact ((foldl_setDefaults (s.forgetPrimaries viewNo).replicas _).newView hnamed).nominateRandomReplica rfl

/-! ## Runs -/

theorem handle_names (hnamed : s.Named) (e : ElectorEvent) :
    (s.handle second e).name = s.name ∧ (s.handle second e).f = s.f ∧ (s.handle second e).Named := by
  by_cases he : ∀ viewNo, e ≠ .viewChanged viewNo
  · have hwrites : Writes second (s.causeOf e) s (s.handle second e) := handle_writes s he
    obtain ⟨hname, hf, hknown⟩ := hwrites.names
    exact ⟨hname, hf, hnamed.of_names hname hknown⟩
  · obtain ⟨viewNo, he⟩ := not_forall.1 he
    rw [not_not.1 he]
    by_cases hview : s.viewNo < viewNo
    · have hnew := viewChanged_newView hnamed hview
      refine ⟨hnew.name, hnew.f, hnamed.of_names hnew.name fun i => ?_⟩
      rw [handle, hnew.known, Option.map_map]
      rfl
    · have hsame : s.handle second (.viewChanged viewNo) = s := if_neg hview
      rw [hsame]
      exact ⟨rfl, rfl, hnamed⟩

theorem run_concat (s : PrimaryElector) (past : List ElectorEvent) (e : ElectorEvent) :
    s.run second (past ++ [e]) = (s.run second past).handle second e := by
  unfold run
  rw [List.foldl_append]
  rfl

theorem run_names (hnamed : s.Named) (events : List ElectorEvent) :
    (s.run second events).name = s.name ∧ (s.run second events).f = s.f ∧ (s.run second events).Named := by
  induction events using List.reverseRecOn with
  | nil => exact ⟨rfl, rfl, hnamed⟩
  | append_singleton past e ih =>
    rw [run_concat]
    obtain ⟨hname, hf, hnamed'⟩ : _ ∧ _ ∧ ((s.run second past).handle second e).Named := handle_names ih.2.2 e
    exact ⟨hname.trans ih.1, hf.trans ih.2.1, hnamed'⟩

end PrimaryElector

end Plenum
