/-
A PRE-PREPARE is taken in, with the votes that wait for it.

- `QuietCheckpoint`: the checkpoint of the batch cannot become stable meanwhile, because the batch does not complete it or
  few CHECKPOINTs for it have come. If it does become stable, the batch is garbage collected.
- `Took`: what taking in votes leaves alone. Nobody but `tryPrepare` sends a PREPARE.
- `Taking.drainPrepares`, `Taking.drainCommits`: PREPAREs that wait are taken in whatever they are. COMMITs are taken in only
  if no sender has two of them, or nobody has prepared the batch; otherwise an exception leaves the rest undone.
- `completed_iff`: so the PRE-PREPARE is taken in completely if and only if no COMMIT that counts comes twice.
-/
import Mathlib.Tactic
import Plenum.Core.Ends
import Plenum.Server.ReplicaFrame
import Plenum.Server.VoteOrder

namespace Plenum

open Plenum.Core Plenum.Core.Exec

namespace Replica

variable {ω σ τ : Type}

/-! ## The checkpoint of the batch -/

section Checkpoint

variable (env : Env ω σ τ) (ppSeqNo : ℕ) (s : Replica ω σ τ)

/-- the range of the checkpoint that the batch belongs to -/
def checkpointKey : CkKey := (extendCheckpoint env ppSeqNo "" s).1

/-- the CHECKPOINTs that wait for this checkpoint -/
def waitingCheckpoints : List (NodeName × Checkpoint) :=
  ((s.stashedRecvdCheckpoints.get? (checkpointKey env ppSeqNo s)).map Dict.entries).getD []

/-- the nodes whose CHECKPOINTs have been counted for it, or wait for it -/
def checkpointSenders : Finset NodeName :=
  (extendCheckpoint env ppSeqNo "" s).2.receivedDigests.keys.toFinset ∪
    ((waitingCheckpoints env ppSeqNo s).map Prod.fst).toFinset

/-- the batch is the last one of its checkpoint -/
def CompletesCheckpoint : Prop := (extendCheckpoint env ppSeqNo "" s).2.digests.length = env.CHK_FREQ

instance : Decidable (CompletesCheckpoint env ppSeqNo s) := inferInstanceAs (Decidable (_ = _))

/-- the checkpoint of the batch is not stable and, if the batch completes it, too few CHECKPOINTs have come for it to become
so now -/
structure QuietCheckpoint : Prop where
  unstable : (extendCheckpoint env ppSeqNo "" s).2.isStable = false
  keyed : CompletesCheckpoint env ppSeqNo s →
    ∀ e ∈ waitingCheckpoints env ppSeqNo s, (e.2.seqNoStart, e.2.seqNoEnd) = checkpointKey env ppSeqNo s
  few : CompletesCheckpoint env ppSeqNo s → (checkpointSenders env ppSeqNo s).card < 2 * s.node.f

instance : Decidable (QuietCheckpoint env ppSeqNo s) :=
  decidable_of_iff (_ ∧ _ ∧ _) ⟨fun ⟨h1, h2, h3⟩ => ⟨h1, h2, h3⟩, fun ⟨h1, h2, h3⟩ => ⟨h1, h2, h3⟩⟩

variable {env ppSeqNo s} {dispatch : ThreePhaseMsg → NodeName → ReplicaM ω σ τ Unit}

/-- the digest of the batch decides nothing but the digest of the checkpoint -/
theorem extendCheckpoint_digest (digest : String) :
    (extendCheckpoint env ppSeqNo digest s).1 = checkpointKey env ppSeqNo s ∧
      (extendCheckpoint env ppSeqNo digest s).2.isStable = (extendCheckpoint env ppSeqNo "" s).2.isStable ∧
      (extendCheckpoint env ppSeqNo digest s).2.digests.length = (extendCheckpoint env ppSeqNo "" s).2.digests.length ∧
      (extendCheckpoint env ppSeqNo digest s).2.receivedDigests =
        (extendCheckpoint env ppSeqNo "" s).2.receivedDigests := by
  unfold checkpointKey extendCheckpoint
  cases s.checkpoints.entries.find? fun e => e.1.1 ≤ (ppSeqNo : ℤ) ∧ (ppSeqNo : ℤ) ≤ e.1.2 with
  | none => simp
  | some e => simp

end Checkpoint

end Replica

namespace Core.SortedDict

variable {κ β α : Type} [DecidableEq κ] [LinearOrder β] {f : κ → β}

/-- the first entry after a write is the one written, or was first before -/
theorem first?_set {d : SortedDict f α} {k : κ} {v : α} {e : κ × α} (h : (d.set k v).first? = some e) :
    e = (k, v) ∨ d.first? = some e := by
  unfold set at h
  unfold first? at h ⊢
  split_ifs at h with hk
  · dsimp only at h
    cases hd : d.entries with
    | nil => simp [Dict.replaceEntry, hd] at h
    | cons a l =>
      simp only [Dict.replaceEntry, hd, List.map_cons, List.head?_cons, Option.some.injEq] at h ⊢
      by_cases ha : a.1 = k
      · rw [if_pos ha] at h
        exact Or.inl h.symm
      · rw [if_neg ha] at h
        exact Or.inr h
  · dsimp only at h
    cases hd : d.entries with
    | nil =>
      simp only [hd, insertEntry, List.head?_cons, Option.some.injEq] at h
      exact Or.inl h.symm
    | cons a l =>
      simp only [hd, insertEntry] at h ⊢
      split_ifs at h with hlt
      · simp only [List.head?_cons, Option.some.injEq] at h
        exact Or.inl h.symm
      · exact Or.inr h

end Core.SortedDict

namespace Replica

variable {ω σ τ : Type} {env : Env ω σ τ} {dispatch : ThreePhaseMsg → NodeName → ReplicaM ω σ τ Unit}
  {s : Replica ω σ τ} {ppSeqNo : ℕ}

/-- a checkpoint that is not stable makes no batch stable -/
theorem isPpSeqNoStable_set {q : ℤ} (h : s.isPpSeqNoStable q = false) {key : CkKey} {state : CheckpointState}
    (hstate : state.isStable = false) :
    ({ s with checkpoints := s.checkpoints.set key state } : Replica ω σ τ).isPpSeqNoStable q = false := by
  unfold isPpSeqNoStable at h ⊢
  dsimp only
  cases hfirst : (s.checkpoints.set key state).first? with
  | none => rfl
  | some e =>
    rcases SortedDict.first?_set hfirst with rfl | hold
    · simp [hstate]
    · rw [hold] at h
      exact h

/-- the state with other checkpoints -/
def setCheckpoints (cks : SortedDict (κ := CkKey) Prod.fst CheckpointState) (s : Replica ω σ τ) : Replica ω σ τ :=
  { s with checkpoints := cks }

/-- the complete checkpoint of `key` while CHECKPOINTs for it are counted, all of them from `senders` -/
structure Counting (ppSeqNo : ℕ) (key : CkKey) (senders : Finset NodeName) (s s' : Replica ω σ τ) : Prop where
  same : ∃ cks, s' = s.setCheckpoints cks
  unstable : s'.isPpSeqNoStable ppSeqNo = false
  counted : ∃ state, s'.checkpoints.get? key = some state ∧ state.digest.isSome = true ∧ state.isStable = false ∧
    state.receivedDigests.keys.toFinset ⊆ senders

/-- with another number of CHECKPOINTs than needed nothing happens -/
theorem exec_checkIfCheckpointStable {key : CkKey} {state : CheckpointState} (hstate : s.checkpoints.get? key = some state)
    (hsize : state.receivedDigests.size ≠ 2 * s.node.f) :
    exec (checkIfCheckpointStable env dispatch key) s = (.ok (), s) := by
  unfold checkIfCheckpointStable
  rw [exec_bind, exec_get]
  dsimp only
  rw [hstate]
  dsimp only
  rw [if_neg hsize, exec_pure]

/-- one more CHECKPOINT is counted, and there are still too few -/
theorem Counting.processCheckpoint {key : CkKey} {senders : Finset NodeName} {s' : Replica ω σ τ}
    (h : Counting ppSeqNo key senders s s') (hfew : senders.card < 2 * s.node.f) {ck : Checkpoint} {sender : NodeName}
    (hkey : (ck.seqNoStart, ck.seqNoEnd) = key) (hsender : sender ∈ senders) :
    Ends (processCheckpoint env dispatch ck sender) s' (fun _ => Counting ppSeqNo key senders s) fun _ _ => False := by
  obtain ⟨state, hstate, hdigest, hunstable, hcounted⟩ := h.counted
  obtain ⟨digest, hdigest⟩ := Option.isSome_iff_exists.1 hdigest
  refine Ends.get_seq (Ends.cond (fun _ => Ends.ret h) fun _ => ?_)
  dsimp only
  rw [hkey, hstate]
  dsimp only
  rw [hdigest]
  dsimp only
  refine Ends.cond (fun _ => Ends.modify_seq ?_) fun _ => Ends.ret h
  let state' : CheckpointState :=
    { state with digest := some digest, receivedDigests := state.receivedDigests.set sender ck.digest }
  have hkeys : state'.receivedDigests.keys.toFinset ⊆ senders := by
    intro n hn
    rcases Dict.mem_keys_set.1 (List.mem_toFinset.1 hn) with rfl | hn
    · exact hsender
    · exact hcounted (List.mem_toFinset.2 hn)
  obtain ⟨cks, rfl⟩ := h.same
  have hnext : Counting ppSeqNo key senders s (s.setCheckpoints (cks.set key state')) := by
    refine ⟨⟨_, rfl⟩, isPpSeqNoStable_set h.unstable hunstable, state', ?_, rfl, hunstable, hkeys⟩
    exact (SortedDict.get?_set cks key key state').trans (if_pos rfl)
  have hget : (s.setCheckpoints (cks.set key state')).checkpoints.get? key = some state' :=
    (SortedDict.get?_set cks key key state').trans (if_pos rfl)
  have hsize : state'.receivedDigests.size ≠ 2 * s.node.f := by
    intro hsize
    have hcard := Finset.card_le_card hkeys
    rw [← Dict.size_eq_card, hsize] at hcard
    exact absurd hfew (not_lt.2 hcard)
  have hnothing : exec (checkIfCheckpointStable env dispatch key) (s.setCheckpoints (cks.set key state')) =
    (.ok (), s.setCheckpoints (cks.set key state')) := exec_checkIfCheckpointStable hget hsize
  exact Ends.of_exec hnothing hnext

/-- the batch is added to its checkpoint, which does not become stable -/
theorem QuietCheckpoint.addToCheckpoint (h : QuietCheckpoint env ppSeqNo s) (hunstable : s.isPpSeqNoStable ppSeqNo = false)
    (digest : String) :
    Ends (addToCheckpoint env dispatch ppSeqNo digest) s
      (fun _ s' => s'.isPpSeqNoStable ppSeqNo = false ∧ ∃ cks, ∃ msgs : List Checkpoint, s' =
        { s with checkpoints := cks, outBox := s.outBox ++ msgs.map OutMsg.checkpoint }) fun _ _ => False := by
  obtain ⟨hkey, hstable, hlength, hreceived⟩ := @extendCheckpoint_digest ω σ τ env ppSeqNo s digest
  refine Ends.get_seq ?_
  rcases hext : extendCheckpoint env ppSeqNo digest s with ⟨key, state⟩
  rw [hext] at hkey hstable hlength hreceived
  dsimp only at hkey hstable hlength hreceived ⊢
  rw [h.unstable] at hstable
  refine Ends.cond (fun hlast => Ends.modify_seq ?_) fun _ => Ends.write ?_
  · have hcompletes : CompletesCheckpoint env ppSeqNo s := hlength.symm.trans hlast
    let state' := { state with digest := some (env.checkpointHash state.digests), digests := [] }
    let msg : Checkpoint := ⟨s.instId, s.node.viewNo, key.1, key.2, env.checkpointHash state.digests⟩
    let s1 : Replica ω σ τ :=
      { s with checkpoints := s.checkpoints.set key state', outBox := s.outBox ++ [.checkpoint msg] }
    have hcounting : Counting ppSeqNo key (checkpointSenders env ppSeqNo s) s1 s1 := by
      refine ⟨⟨s1.checkpoints, rfl⟩, isPpSeqNoStable_set hunstable hstable, state', ?_, rfl, hstable, ?_⟩
      · exact (SortedDict.get?_set s.checkpoints key key state').trans (if_pos rfl)
      · change state.receivedDigests.keys.toFinset ⊆ _
        rw [hreceived]
        exact Finset.subset_union_left
    have hdone : ∀ s', Counting ppSeqNo key (checkpointSenders env ppSeqNo s) s1 s' →
        s'.isPpSeqNoStable ppSeqNo = false ∧ ∃ cks, ∃ msgs : List Checkpoint, s' =
          { s with checkpoints := cks, outBox := s.outBox ++ msgs.map OutMsg.checkpoint } := by
      rintro s' hs'
      obtain ⟨cks, rfl⟩ := hs'.same
      exact ⟨hs'.unstable, cks, [msg], rfl⟩
    refine Ends.get_seq ?_
    have hwaiting : waitingCheckpoints env ppSeqNo s = ((s.stashedRecvdCheckpoints.get? key).map Dict.entries).getD [] := by
      rw [waitingCheckpoints, hkey]
    dsimp only
    cases hstash : s.stashedRecvdCheckpoints.get? key with
    | none => exact Ends.ret (hdone s1 hcounting)
    | some cks =>
      rw [hstash, Option.map_some, Option.getD_some] at hwaiting
      refine Ends.mono (Ends.each (I := Counting ppSeqNo key (checkpointSenders env ppSeqNo s) s1) ?_ hcounting)
        (fun _ s' hs' => hdone s' hs') fun _ _ => id
      intro e he s2 hs2
      rw [← hwaiting] at he
      refine hs2.processCheckpoint (h.few hcompletes) ((h.keyed hcompletes e he).trans hkey.symm) ?_
      exact Finset.mem_union_right _ (List.mem_toFinset.2 (List.mem_map_of_mem he))
  · refine ⟨isPpSeqNoStable_set hunstable hstable, s.checkpoints.set key state, [], ?_⟩
    simp

/-! ## Taking votes in -/

/-- what taking votes in leaves alone -/
def settled (s : Replica ω σ τ) :=
  (s.name, s.instId, s.isMaster, s.primaryName, s.primaryNames, s.node.isParticipating, s.node.viewNo, s.node.f,
    s.stashingWhileCatchingUp, s.sentPrePrepares, s.prePrepares, s.stashedRecvdCheckpoints, s.batches)

/-- the votes that wait -/
def waitingVotes (s : Replica ω σ τ) := (s.preparesWaitingForPrePrepare, s.commitsWaitingForPrepare)

/-- no PREPARE is among the messages -/
def Silent (ms : List OutMsg) : Prop := ∀ p, .threePhase (.prepare p) ∉ ms

theorem Silent.append {ms ms' : List OutMsg} (h : Silent ms) (h' : Silent ms') : Silent (ms ++ ms') := by
  intro p hp
  rcases List.mem_append.1 hp with hp | hp
  · exact h p hp
  · exact h' p hp

/-- from `s` to `s'` votes have been taken in, and no PREPARE has been sent -/
structure Took (s s' : Replica ω σ τ) : Prop where
  settled : s'.settled = s.settled
  silent : ∃ ms, s'.outBox = s.outBox ++ ms ∧ Silent ms

theorem Took.quiet {s s' : Replica ω σ τ} (h : s'.settled = s.settled) (hout : s'.outBox = s.outBox) : Took s s' :=
  ⟨h, [], by rw [hout, List.append_nil], fun _ => List.not_mem_nil⟩

theorem Took.trans {s s' s'' : Replica ω σ τ} (h : Took s s') (h' : Took s' s'') : Took s s'' := by
  obtain ⟨ms, hms, hsilent⟩ := h.silent
  obtain ⟨ms', hms', hsilent'⟩ := h'.silent
  exact ⟨h'.settled.trans h.settled, ms ++ ms', by rw [hms', hms, List.append_assoc], hsilent.append hsilent'⟩

/-- whether the replica is the primary of the view, if it knows -/
def primaryStatus (s : Replica ω σ τ) (viewNo : ℕ) : Option (Option Bool) :=
  if viewNo = s.node.viewNo then some s.isPrimary
  else (s.primaryNames.get? viewNo).map fun p => some (decide (p = some s.name))

theorem exec_isPrimaryForMsg {viewNo : ℕ} {status : Option Bool} (h : s.primaryStatus viewNo = some status) :
    exec (isPrimaryForMsg viewNo) s = (.ok status, s) := by
  unfold primaryStatus at h
  unfold isPrimaryForMsg
  rw [exec_bind, exec_get]
  dsimp only
  split_ifs at h ⊢ with hview
  · cases h
    rfl
  · obtain ⟨p, hp, rfl⟩ := Option.map_eq_some_iff.1 h
    rw [hp]
    rfl

/-- a replica that takes the votes for the batch of `pp` in -/
structure Taking (env : Env ω σ τ) (pp : PrePrepare) (s : Replica ω σ τ) : Prop where
  backup : s.primaryStatus pp.viewNo = some (some false)
  held : ∃ pp', s.getPrePrepare pp.key = some pp'
  unstable : s.isPpSeqNoStable pp.ppSeqNo = false
  participates : s.shouldParticipate pp.viewNo pp.ppSeqNo = true
  quiet : s.hasOrdered pp.key = true ∨ QuietCheckpoint env pp.ppSeqNo s

variable {pp : PrePrepare}

theorem QuietCheckpoint.congr {s' : Replica ω σ τ} (h : QuietCheckpoint env ppSeqNo s)
    (hcks : s'.checkpoints = s.checkpoints) (hstash : s'.stashedRecvdCheckpoints = s.stashedRecvdCheckpoints)
    (hf : s'.node.f = s.node.f) : QuietCheckpoint env ppSeqNo s' := by
  have hext : extendCheckpoint env ppSeqNo "" s' = extendCheckpoint env ppSeqNo "" s := by
    unfold extendCheckpoint
    rw [hcks]
  obtain ⟨hunstable, hkeyed, hfew⟩ := h
  constructor
  · rw [hext]
    exact hunstable
  · unfold CompletesCheckpoint waitingCheckpoints checkpointKey at hkeyed ⊢
    rw [hext, hstash]
    exact hkeyed
  · unfold CompletesCheckpoint checkpointSenders waitingCheckpoints checkpointKey at hfew ⊢
    rw [hext, hstash, hf]
    exact hfew

theorem getPrePrepare_congr {s' : Replica ω σ τ} (h : s'.settled = s.settled) (key : TPCKey) :
    s'.getPrePrepare key = s.getPrePrepare key := by
  simp only [settled, Prod.mk.injEq] at h
  unfold getPrePrepare
  rw [h.2.2.2.2.2.2.2.2.2.1, h.2.2.2.2.2.2.2.2.2.2.1]

theorem shouldParticipate_congr {s' : Replica ω σ τ} (h : s'.settled = s.settled) (viewNo ppSeqNo : ℕ) :
    s'.shouldParticipate viewNo ppSeqNo = s.shouldParticipate viewNo ppSeqNo := by
  simp only [settled, Prod.mk.injEq] at h
  unfold shouldParticipate isStashedWhileCatchingUp
  rw [h.2.2.2.2.2.1, h.2.2.2.2.2.2.2.2.1]

theorem primaryStatus_congr {s' : Replica ω σ τ} (h : s'.settled = s.settled) (viewNo : ℕ) :
    s'.primaryStatus viewNo = s.primaryStatus viewNo := by
  simp only [settled, Prod.mk.injEq] at h
  unfold primaryStatus isPrimary
  rw [h.1, h.2.2.2.1, h.2.2.2.2.1, h.2.2.2.2.2.2.1]

/-- nothing has been ordered, and no checkpoint has changed -/
theorem Taking.congr {s' : Replica ω σ τ} (h : Taking env pp s) (hsame : s'.settled = s.settled)
    (hcks : s'.checkpoints = s.checkpoints) (hord : s'.ordered = s.ordered) : Taking env pp s' := by
  have hsettled := hsame
  simp only [settled, Prod.mk.injEq] at hsettled
  obtain ⟨pp', hheld⟩ := h.held
  refine ⟨(primaryStatus_congr hsame _).trans h.backup, ⟨pp', (getPrePrepare_congr hsame _).trans hheld⟩, ?_,
    (shouldParticipate_congr hsame _ _).trans h.participates, ?_⟩
  · have hunstable := h.unstable
    unfold isPpSeqNoStable at hunstable ⊢
    rw [hcks]
    exact hunstable
  · rcases h.quiet with hordered | hquiet
    · left
      unfold hasOrdered at hordered ⊢
      rw [hord]
      exact hordered
    · exact Or.inr (hquiet.congr hcks hsettled.2.2.2.2.2.2.2.2.2.2.2.1 hsettled.2.2.2.2.2.2.2.1)

/-- the batch has been ordered -/
theorem Taking.of_ordered {s' : Replica ω σ τ} (h : Taking env pp s) (hsame : s'.settled = s.settled)
    (hunstable : s'.isPpSeqNoStable pp.ppSeqNo = false) (hord : s'.hasOrdered pp.key = true) : Taking env pp s' := by
  obtain ⟨pp', hheld⟩ := h.held
  exact ⟨(primaryStatus_congr hsame _).trans h.backup, ⟨pp', (getPrePrepare_congr hsame _).trans hheld⟩, hunstable,
    (shouldParticipate_congr hsame _ _).trans h.participates, Or.inl hord⟩

/-- the method takes votes in: it returns, in `Q` -/
def Takes {α : Type} (env : Env ω σ τ) (pp : PrePrepare) (m : ReplicaM ω σ τ α) (s : Replica ω σ τ)
    (Q : Replica ω σ τ → Prop) : Prop :=
  Ends m s (fun _ s' => Taking env pp s' ∧ Took s s' ∧ s'.waitingVotes = s.waitingVotes ∧ Q s') fun _ _ => False

theorem Takes.ret {α : Type} {a : α} {Q : Replica ω σ τ → Prop} (h : Taking env pp s) (hQ : Q s) :
    Takes env pp (pure a : ReplicaM ω σ τ α) s Q := Ends.ret ⟨h, Took.quiet rfl rfl, rfl, hQ⟩

theorem Takes.seq {α β : Type} {m : ReplicaM ω σ τ α} {f : α → ReplicaM ω σ τ β} {Q Q' : Replica ω σ τ → Prop}
    (hm : Takes env pp m s Q) (hf : ∀ a s', Taking env pp s' → Took s s' → Q s' → Takes env pp (f a) s' Q') :
    Takes env pp (m >>= f) s Q' := by
  refine Ends.seq hm fun a s' hs' => ?_
  obtain ⟨htaking, htook, hwait, hQ⟩ := hs'
  refine Ends.mono (hf a s' htaking htook hQ) (fun b s2 hs2 => ?_) fun _ _ => id
  obtain ⟨htaking2, htook2, hwait2, hQ2⟩ := hs2
  exact ⟨htaking2, htook.trans htook2, hwait2.trans hwait, hQ2⟩

theorem Takes.mono {α : Type} {m : ReplicaM ω σ τ α} {Q Q' : Replica ω σ τ → Prop} (hm : Takes env pp m s Q)
    (hQ : ∀ s', Took s s' → Q s' → Q' s') : Takes env pp m s Q' :=
  Ends.mono hm (fun _ s' ⟨htaking, htook, hwait, h⟩ => ⟨htaking, htook, hwait, hQ s' htook h⟩) fun _ _ => id

theorem key_of_getPrePrepare {key : TPCKey} {pp : PrePrepare} (h : s.getPrePrepare key = some pp) : pp.key = key := by
  unfold getPrePrepare at h
  split_ifs at h
  · exact PrePrepareLog.key_of_get? h
  · exact PrePrepareLog.key_of_get? h

theorem exec_unstashCaughtUp {key : TPCKey} (h : s.isStashedWhileCatchingUp key = false) (pp : PrePrepare) :
    exec (unstashCaughtUp env key pp) s = (.ok (), s) := by
  unfold unstashCaughtUp
  rw [exec_bind, exec_get]
  dsimp only
  rw [h]
  rfl

theorem hasOrdered_addToOrdered (s : Replica ω σ τ) (key : TPCKey) : (s.addToOrdered key).hasOrdered key = true := by
  unfold hasOrdered addToOrdered
  by_cases h : key ∈ s.ordered <;> simp [h]

/-- the batch is ordered and added to its checkpoint -/
theorem Taking.doOrder (h : Taking env pp s) (hnew : s.hasOrdered pp.key = false) {c : Commit} (hkey : c.key = pp.key) :
    Takes env pp (doOrder env dispatch c) s fun s' => s'.prepares = s.prepares ∧ s'.commits = s.commits := by
  have hquiet : QuietCheckpoint env pp.ppSeqNo s := by
    rcases h.quiet with hordered | hquiet
    · rw [hnew] at hordered
      cases hordered
    · exact hquiet
  have hunstashed : (s.addToOrdered pp.key).isStashedWhileCatchingUp pp.key = false := by
    have hparticipates := h.participates
    unfold shouldParticipate at hparticipates
    simp only [Bool.and_eq_true, Bool.not_eq_true'] at hparticipates
    exact hparticipates.2
  obtain ⟨pp', hheld⟩ := h.held
  have hseq : pp'.ppSeqNo = pp.ppSeqNo := congrArg Prod.snd (key_of_getPrePrepare hheld)
  refine Ends.get_seq ?_
  rw [hkey, hheld]
  refine Ends.modify_seq (Ends.seq (Q := fun _ s' => s' = s.addToOrdered pp.key)
    (Ends.of_exec (exec_unstashCaughtUp hunstashed pp') rfl) ?_)
  rintro _ s1 rfl
  refine Ends.modify_seq (Ends.modify_seq ?_)
  rw [hseq]
  generalize hs1 : ((s.addToOrdered pp.key).setRequestQueue pp'.ledgerId _).appendOutBox _ = s1
  have hsettled : s1.settled = s.settled := by rw [← hs1]; rfl
  have hcks : s1.checkpoints = s.checkpoints := by rw [← hs1]; rfl
  have hout : s1.outBox = s.outBox ++ [.ordered (pp'.toOrdered s.instId)] := by rw [← hs1]; rfl
  have hwait : s1.waitingVotes = s.waitingVotes := by rw [← hs1]; rfl
  have hvotes : s1.prepares = s.prepares ∧ s1.commits = s.commits := by rw [← hs1]; exact ⟨rfl, rfl⟩
  have hordered : s1.hasOrdered pp.key = true := by rw [← hs1]; exact hasOrdered_addToOrdered s pp.key
  have hstash := hsettled
  simp only [settled, Prod.mk.injEq] at hstash
  have hquiet1 := hquiet.congr hcks hstash.2.2.2.2.2.2.2.2.2.2.2.1 hstash.2.2.2.2.2.2.2.1
  have hunstable : s1.isPpSeqNoStable pp.ppSeqNo = false := by
    have hunstable := h.unstable
    unfold isPpSeqNoStable at hunstable ⊢
    rw [hcks]
    exact hunstable
  refine Ends.mono (hquiet1.addToCheckpoint hunstable _) (fun _ s' hs' => ?_) fun _ _ => id
  obtain ⟨hunstable', cks, msgs, rfl⟩ := hs'
  refine ⟨h.of_ordered hsettled hunstable' hordered, ⟨hsettled, ?_⟩, hwait, hvotes⟩
  refine ⟨.ordered (pp'.toOrdered s.instId) :: msgs.map OutMsg.checkpoint, ?_, ?_⟩
  · rw [hout]
    exact List.append_assoc _ _ _
  · intro p hp
    simp at hp

/-- a batch is ordered, or stashed until the ones before it are ordered, or nothing happens; no vote changes -/
theorem Taking.tryOrder (h : Taking env pp s) {c : Commit} (hkey : c.key = pp.key) :
    Takes env pp (tryOrder env dispatch c) s fun s' => s'.prepares = s.prepares ∧ s'.commits = s.commits := by
  have hcan : Ends (canOrder env c) s (fun can s' => (can = true → s' = s ∧ s.hasOrdered pp.key = false) ∧
      Taking env pp s' ∧ Took s s' ∧ s'.waitingVotes = s.waitingVotes ∧ s'.prepares = s.prepares ∧
      s'.commits = s.commits) fun _ _ => False := by
    have hnothing : Taking env pp s ∧ Took s s ∧ s.waitingVotes = s.waitingVotes ∧ s.prepares = s.prepares ∧
        s.commits = s.commits := ⟨h, Took.quiet rfl rfl, rfl, rfl, rfl⟩
    refine Ends.get_seq (Ends.cond (fun _ => Ends.ret ⟨by simp, hnothing⟩) fun _ => ?_)
    refine Ends.cond (fun _ => Ends.ret ⟨by simp, hnothing⟩) fun hnew => ?_
    refine Ends.cond (fun _ => Ends.modify_seq (Ends.ret ⟨by simp, ?_⟩)) fun _ => Ends.ret ⟨fun _ => ⟨rfl, ?_⟩, hnothing⟩
    · exact ⟨h.congr rfl rfl rfl, Took.quiet rfl rfl, rfl, rfl, rfl⟩
    · rw [← hkey]
      simpa using hnew
  refine Ends.seq hcan fun can s1 hs1 => ?_
  obtain ⟨hcan, hrest⟩ := hs1
  cases can with
  | false => exact Ends.ret hrest
  | true =>
    obtain ⟨rfl, hnew⟩ := hcan rfl
    exact Ends.seq (h.doOrder hnew hkey) fun _ _ hs' => Ends.ret hs'

theorem Takes.modify_seq {β : Type} {g : Replica ω σ τ → Replica ω σ τ} {f : PUnit → ReplicaM ω σ τ β}
    {Q : Replica ω σ τ → Prop} (htook : Took s (g s)) (hwait : (g s).waitingVotes = s.waitingVotes)
    (hf : Takes env pp (f ⟨⟩) (g s) Q) : Takes env pp (modify g >>= f) s Q := by
  refine Ends.modify_seq (Ends.mono hf (fun b s' hs' => ?_) fun _ _ => id)
  obtain ⟨htaking, htook', hwait', hQ⟩ := hs'
  exact ⟨htaking, htook.trans htook', hwait'.trans hwait, hQ⟩

/-! ## COMMITs -/

theorem Taking.addToCommits (h : Taking env pp s) {c : Commit} (hkey : c.key = pp.key) (sender : RepName) :
    Takes env pp (addToCommits env dispatch c sender) s fun s' =>
      s'.prepares = s.prepares ∧ s'.commits = s.commits.addMsg pp.key sender := by
  refine Takes.modify_seq (Took.quiet rfl rfl) rfl ?_
  rw [hkey]
  have htaking : Taking env pp { s with commits := s.commits.addMsg pp.key sender } := h.congr rfl rfl rfl
  exact (htaking.tryOrder hkey).seq fun _ s' hs' _ hQ => Takes.ret hs' hQ

/-- besides the replica itself nobody votes -/
def OthersSame (pp : PrePrepare) (s s' : Replica ω σ τ) : Prop :=
  ∀ x ≠ s.name, x ∈ s'.commits.voters pp.key ↔ x ∈ s.commits.voters pp.key

theorem Taking.tryCommit (h : Taking env pp s) {p : Prepare} (hkey : p.key = pp.key) :
    Takes env pp (tryCommit env dispatch p) s fun s' => s'.prepares = s.prepares ∧ OthersSame pp s s' := by
  refine Ends.get_seq (Ends.cond (fun _ => Ends.get_seq ?_) fun _ => Takes.ret h ⟨rfl, fun _ _ => Iff.rfl⟩)
  refine Takes.modify_seq ⟨rfl, [_], rfl, by simp [Silent]⟩ rfl ?_
  have htaking : Taking env pp (s.appendOutBox [.threePhase (.commit ⟨s.instId, p.viewNo, p.ppSeqNo⟩)]) :=
    h.congr rfl rfl rfl
  refine (htaking.addToCommits (c := ⟨s.instId, p.viewNo, p.ppSeqNo⟩) hkey s.name).mono fun s' _ hs' => ?_
  refine ⟨hs'.1, fun x hx => ?_⟩
  rw [hs'.2, TrackedMsgs.mem_voters_addMsg]
  simp [hx, appendOutBox]

/-! ## PREPAREs -/

theorem Taking.addToPrepares (h : Taking env pp s) {p : Prepare} (hkey : p.key = pp.key) (sender : RepName) :
    Takes env pp (addToPrepares env dispatch p sender) s fun s' =>
      s'.prepares = s.prepares.addMsg pp.key sender ∧ OthersSame pp s s' := by
  refine Takes.modify_seq (Took.quiet rfl rfl) rfl ?_
  rw [hkey]
  have htaking : Taking env pp { s with prepares := s.prepares.addMsg pp.key sender } := h.congr rfl rfl rfl
  exact htaking.tryCommit hkey

/-- the PREPARE is not from the primary and agrees with the PRE-PREPARE -/
def acceptsPrepare (s : Replica ω σ τ) (p : Prepare) (sender : RepName) : Bool :=
  ! s.isMsgFromPrimary sender && (s.getPrePrepare p.key).any fun pp =>
    decide (p.digest = pp.digest ∧ p.stateRootHash = pp.stateRootHash ∧ p.txnRootHash = pp.txnRootHash)

theorem acceptsPrepare_congr {s' : Replica ω σ τ} (h : s'.settled = s.settled) (p : Prepare) (sender : RepName) :
    s'.acceptsPrepare p sender = s.acceptsPrepare p sender := by
  unfold acceptsPrepare isMsgFromPrimary
  rw [getPrePrepare_congr h]
  simp only [settled, Prod.mk.injEq] at h
  rw [h.2.2.2.1]

/-- a PREPARE that is not accepted, or not the first of its sender, is suspicious -/
theorem Taking.validatePrepare (h : Taking env pp s) {p : Prepare} (hkey : p.key = pp.key) (sender : RepName) :
    Ends (validatePrepare p sender) s
      (fun valid s' => s' = s ∧ valid = true ∧ s.acceptsPrepare p sender = true)
      fun e s' => s' = s ∧ (∃ node suspicion msg, e = .suspiciousNode node suspicion msg) ∧
        (s.prepares.hasVote pp.key sender = true ∨ s.acceptsPrepare p sender = false) := by
  obtain ⟨pp', hheld⟩ := h.held
  have hstatus : exec (isPrimaryForMsg p.viewNo) s = (.ok (some false), s) := by
    have hview : p.viewNo = pp.viewNo := congrArg Prod.fst hkey
    rw [hview]
    exact exec_isPrimaryForMsg h.backup
  have hsuspicious : ∀ suspicion, ∃ node suspicion' msg,
      (Exn.suspiciousNode sender suspicion (.prepare p)) = .suspiciousNode node suspicion' msg :=
    fun suspicion => ⟨_, _, _, rfl⟩
  refine Ends.seq (Q := fun status s' => status = some false ∧ s' = s) (Ends.of_exec hstatus ⟨rfl, rfl⟩) ?_
  rintro _ s1 ⟨rfl, rfl⟩
  refine Ends.get_seq (Ends.cond (fun hprimary => Ends.raise ?_) fun hprimary => ?_)
  · exact ⟨rfl, hsuspicious _, Or.inr (by simp [acceptsPrepare, hprimary])⟩
  refine Ends.cond (fun hdup => Ends.raise ?_) fun _ => ?_
  · refine ⟨rfl, hsuspicious _, Or.inl ?_⟩
    rw [← hkey]
    exact hdup.2
  rw [hkey, hheld]
  have hwrong : ¬ (p.digest = pp'.digest ∧ p.stateRootHash = pp'.stateRootHash ∧ p.txnRootHash = pp'.txnRootHash) →
      s1.acceptsPrepare p sender = false := by
    intro hne
    simp only [acceptsPrepare, hkey, hheld, Option.any_some, decide_eq_false hne, Bool.and_false]
  refine Ends.cond (fun hne => Ends.raise ⟨rfl, hsuspicious _, Or.inr (hwrong fun he => hne he.1)⟩) fun hdigest => ?_
  refine Ends.cond (fun hne => Ends.raise ⟨rfl, hsuspicious _, Or.inr (hwrong fun he => hne he.2.1)⟩) fun hroot => ?_
  refine Ends.cond (fun hne => Ends.raise ⟨rfl, hsuspicious _, Or.inr (hwrong fun he => hne he.2.2)⟩) fun htxn => ?_
  refine Ends.ret ⟨rfl, rfl, ?_⟩
  rw [not_not] at hdigest hroot htxn
  simp [acceptsPrepare, hkey, hheld, hprimary, hdigest, hroot, htxn]

/-- PREPAREs have been taken in: `accepted` tells whether one of them counts -/
structure TookPrepares (pp : PrePrepare) (accepted : Bool) (s s' : Replica ω σ τ) : Prop where
  counted : s'.prepares.contains pp.key = (s.prepares.contains pp.key || accepted)
  own : s'.prepares.hasVote pp.key s.name = s.prepares.hasVote pp.key s.name
  others : OthersSame pp s s'

theorem TookPrepares.trans {s s' s'' : Replica ω σ τ} {a b : Bool} (h : TookPrepares pp a s s')
    (h' : TookPrepares pp b s' s'') (hname : s'.name = s.name) : TookPrepares pp (a || b) s s'' := by
  constructor
  · rw [h'.counted, h.counted, Bool.or_assoc]
  · rw [← h.own, ← hname, h'.own]
  · intro x hx
    exact (h'.others x (hname ▸ hx)).trans (h.others x hx)

theorem contains_addMsg (t : TrackedMsgs) (key : TPCKey) (voter : RepName) : Dict.contains (t.addMsg key voter) key = true := by
  unfold TrackedMsgs.addMsg Dict.contains
  rw [Dict.get?_set_self]
  rfl

theorem contains_of_hasVote {t : TrackedMsgs} {key : TPCKey} {voter : RepName} (h : t.hasVote key voter = true) :
    Dict.contains t key = true := by
  unfold TrackedMsgs.hasVote TrackedMsgs.voters at h
  unfold Dict.contains
  cases hget : t.get? key with
  | none => simp [hget] at h
  | some voters => rfl

/-- a PREPARE that waited is taken in, or reported; either way the method returns -/
theorem Taking.processPrepare (h : Taking env pp s) {p : Prepare} (hkey : p.key = pp.key) {sender : RepName}
    (hsender : sender ≠ s.name) :
    Takes env pp (processPrepare env dispatch p sender) s (TookPrepares pp (s.acceptsPrepare p sender) s) := by
  have hunstable : s.isPpSeqNoStable p.ppSeqNo = false := by
    have hseq : p.ppSeqNo = pp.ppSeqNo := congrArg Prod.snd hkey
    rw [hseq]
    exact h.unstable
  refine Ends.get_seq ?_
  rw [hunstable]
  refine Ends.cond (fun hstable => by cases hstable) fun _ => ?_
  refine Ends.catching (E := fun e s' => s' = s ∧ (∃ node suspicion msg, e = .suspiciousNode node suspicion msg) ∧
    (s.prepares.hasVote pp.key sender = true ∨ s.acceptsPrepare p sender = false)) ?_ ?_
  · refine Ends.seq (h.validatePrepare hkey sender) ?_
    rintro valid s1 ⟨rfl, rfl, haccepts⟩
    refine Ends.cond (fun _ => ?_) fun hno => absurd rfl hno
    refine Ends.mono (h.addToPrepares hkey sender) (fun _ s' hs' => ?_) fun _ _ => False.elim
    obtain ⟨htaking, htook, hwait, hprepares, hothers⟩ := hs'
    refine ⟨htaking, htook, hwait, ?_, ?_, hothers⟩
    · rw [hprepares, contains_addMsg, haccepts, Bool.or_true]
    · rw [hprepares]
      unfold TrackedMsgs.hasVote
      simp [TrackedMsgs.mem_voters_addMsg, hsender.symm]
  · rintro e s1 ⟨rfl, ⟨node, suspicion, msg, rfl⟩, hwhy⟩
    refine Ends.write ⟨h.congr rfl rfl rfl, Took.quiet rfl rfl, rfl, ?_, rfl, fun _ _ => Iff.rfl⟩
    rcases hwhy with hdup | hno
    · rw [contains_of_hasVote hdup, Bool.true_or]
    · rw [hno, Bool.or_false]

/-- the PREPAREs that wait for the batch of `pp` -/
def waitingPrepares (pp : PrePrepare) (s : Replica ω σ τ) : List (Prepare × RepName) :=
  (s.preparesWaitingForPrePrepare.get? pp.key).getD []

/-- the loop takes all PREPAREs in -/
theorem Taking.drainPrepares {n : ℕ} {l : List (Prepare × RepName)} (h : Taking env pp s)
    (hl : ∀ e ∈ l, e.1.key = pp.key ∧ e.2 ≠ s.name) (hn : l.length < n)
    (hw : s.preparesWaitingForPrePrepare.get? pp.key = some l) :
    Ends (drainPrepares env dispatch pp.key n) s (fun _ s' => Taking env pp s' ∧ Took s s' ∧
      s'.commitsWaitingForPrepare = s.commitsWaitingForPrepare ∧
      TookPrepares pp (l.any fun e => s.acceptsPrepare e.1 e.2) s s') fun _ _ => False := by
  induction n generalizing s l with
  | zero => exact absurd hn (Nat.not_lt_zero _)
  | succ n ih =>
    refine Ends.get_seq ?_
    rw [hw]
    cases l with
    | nil =>
      refine Ends.ret ⟨h, Took.quiet rfl rfl, rfl, ?_, rfl, fun _ _ => Iff.rfl⟩
      simp
    | cons e rest =>
      obtain ⟨p, sender⟩ := e
      obtain ⟨hkey, hsender⟩ := hl _ List.mem_cons_self
      let s1 : Replica ω σ τ :=
        { s with preparesWaitingForPrePrepare := s.preparesWaitingForPrePrepare.set pp.key rest }
      have hs1 : Taking env pp s1 := h.congr rfl rfl rfl
      refine Ends.modify_seq (Ends.seq (hs1.processPrepare hkey hsender) ?_)
      rintro _ s2 ⟨hs2, htook, hwait, hprepares⟩
      have hname : s2.name = s.name := congrArg Prod.fst htook.settled
      have hw2 : s2.preparesWaitingForPrePrepare.get? pp.key = some rest := by
        have hsame : s2.preparesWaitingForPrePrepare = s1.preparesWaitingForPrePrepare := congrArg Prod.fst hwait
        rw [hsame]
        exact Dict.get?_set_self _ _ _
      have hrest : ∀ e ∈ rest, e.1.key = pp.key ∧ e.2 ≠ s2.name := by
        intro e he
        rw [hname]
        exact hl e (List.mem_cons_of_mem _ he)
      refine Ends.mono (ih hs2 hrest (by simpa using hn) hw2) (fun _ s3 hs3 => ?_) fun _ _ => id
      obtain ⟨htaking, htook3, hcommits, hprepares3⟩ := hs3
      have htook1 : Took s s1 := Took.quiet rfl rfl
      refine ⟨htaking, (htook1.trans htook).trans htook3, hcommits.trans (congrArg Prod.snd hwait), ?_⟩
      have hsame : ∀ e : Prepare × RepName, s2.acceptsPrepare e.1 e.2 = s.acceptsPrepare e.1 e.2 :=
        fun e => acceptsPrepare_congr (htook1.trans htook).settled e.1 e.2
      have hall := hprepares.trans hprepares3 hname
      simp only [hsame] at hall
      exact ⟨hall.counted, hall.own, hall.others⟩

theorem Taking.dequeuePrepares {fuel : ℕ} (h : Taking env pp s)
    (hl : ∀ e ∈ s.waitingPrepares pp, e.1.key = pp.key ∧ e.2 ≠ s.name) (hfuel : (s.waitingPrepares pp).length < fuel) :
    Ends (dequeuePrepares env fuel dispatch pp.key) s (fun _ s' => Taking env pp s' ∧ Took s s' ∧
      s'.commitsWaitingForPrepare = s.commitsWaitingForPrepare ∧
      s'.preparesWaitingForPrePrepare.get? pp.key = none ∧
      TookPrepares pp ((s.waitingPrepares pp).any fun e => s.acceptsPrepare e.1 e.2) s s') fun _ _ => False := by
  unfold waitingPrepares at hl hfuel ⊢
  refine Ends.get_seq ?_
  unfold Dict.contains
  cases hw : s.preparesWaitingForPrePrepare.get? pp.key with
  | none =>
    refine Ends.ret ⟨h, Took.quiet rfl rfl, rfl, hw, ?_, rfl, fun _ _ => Iff.rfl⟩
    simp
  | some l =>
    rw [hw, Option.getD_some] at hl hfuel
    refine Ends.cond (fun _ => Ends.seq (h.drainPrepares hl hfuel hw) ?_) fun hno => absurd rfl hno
    rintro _ s1 ⟨hs1, htook, hcommits, hprepares⟩
    refine Ends.write ⟨hs1.congr rfl rfl rfl, htook.trans (Took.quiet rfl rfl), hcommits, ?_, hprepares.counted,
      hprepares.own, hprepares.others⟩
    exact (Dict.get?_erase _ _ _).trans (if_pos rfl)

/-! ## COMMITs that wait -/

/-- once a PREPARE is counted, no COMMIT among `l` is the second of its sender -/
def Distinct (pp : PrePrepare) (l : List (Commit × RepName)) (s : Replica ω σ τ) : Prop :=
  s.prepares.contains pp.key = true → (l.map Prod.snd).Nodup ∧ ∀ e ∈ l, s.commits.hasVote pp.key e.2 = false

/-- a COMMIT that waited is dropped if nobody has prepared the batch; otherwise the second one of its sender raises -/
theorem Taking.processCommit (h : Taking env pp s) (hwait : s.preparesWaitingForPrePrepare.get? pp.key = none) {c : Commit}
    (hkey : c.key = pp.key) (sender : RepName) :
    Ends (processCommit env dispatch c sender) s
      (fun _ s' => Taking env pp s' ∧ Took s s' ∧ s'.waitingVotes = s.waitingVotes ∧ s'.prepares = s.prepares ∧
        (s.prepares.contains pp.key = true →
          s.commits.hasVote pp.key sender = false ∧ s'.commits = s.commits.addMsg pp.key sender))
      fun e s' => s' = s ∧ (∃ node suspicion msg, e = .suspiciousNode node suspicion msg) ∧
        s.prepares.contains pp.key = true ∧ s.commits.hasVote pp.key sender = true := by
  obtain ⟨pp', hheld⟩ := h.held
  have hunstable : s.isPpSeqNoStable c.ppSeqNo = false := by
    have hseq : c.ppSeqNo = pp.ppSeqNo := congrArg Prod.snd hkey
    rw [hseq]
    exact h.unstable
  have hnone : s.preparesWaitingForPrePrepare.contains pp.key = false := by
    unfold Dict.contains
    rw [hwait]
    rfl
  refine Ends.get_seq ?_
  rw [hunstable]
  refine Ends.cond (fun hstable => by cases hstable) fun _ => ?_
  refine Ends.seq (Q := fun valid s' => s' = s ∧ valid = s.prepares.contains pp.key ∧
    (s.prepares.contains pp.key = true → s.commits.hasVote pp.key sender = false)) (Ends.get_seq ?_) ?_
  · rw [hkey, hheld, hnone]
    refine Ends.cond (fun hno => Ends.ret ?_) fun hyes => ?_
    · simp only [Bool.not_false, Bool.and_true, Bool.not_eq_true'] at hno
      exact ⟨rfl, hno.symm, fun hcounted => by rw [hno] at hcounted; cases hcounted⟩
    · simp only [Bool.not_false, Bool.and_true, Bool.not_eq_true', Bool.not_eq_false] at hyes
      refine Ends.cond (fun hdup => Ends.raise ⟨rfl, ⟨_, _, _, rfl⟩, hyes, ?_⟩) fun hnew => Ends.ret ⟨rfl, hyes.symm, ?_⟩
      · rw [← hkey]
        exact hdup
      · rw [← hkey]
        exact fun _ => Bool.eq_false_iff.2 hnew
  · rintro valid s1 ⟨rfl, rfl, hnew⟩
    refine Ends.cond (fun hcounted => ?_) fun hno => Ends.ret ⟨h, Took.quiet rfl rfl, rfl, rfl, fun hyes => absurd hyes hno⟩
    refine Ends.mono (h.addToCommits hkey sender) (fun _ s' hs' => ?_) fun _ _ => False.elim
    obtain ⟨htaking, htook, hwait', hprepares, hcommits⟩ := hs'
    exact ⟨htaking, htook, hwait', hprepares, fun _ => ⟨hnew hcounted, hcommits⟩⟩

/-- one COMMIT less waits, and is counted -/
theorem distinct_cons {s s' : Replica ω σ τ} {c : Commit} {sender : RepName} {rest : List (Commit × RepName)}
    (hprepares : s'.prepares = s.prepares) (hcounted : s.prepares.contains pp.key = true →
      s.commits.hasVote pp.key sender = false ∧ s'.commits = s.commits.addMsg pp.key sender) :
    Distinct pp ((c, sender) :: rest) s ↔ Distinct pp rest s' := by
  unfold Distinct
  rw [hprepares]
  refine forall_congr' fun hyes => ?_
  obtain ⟨hnew, hcommits⟩ := hcounted hyes
  have hvote : ∀ x, s'.commits.hasVote pp.key x = false ↔ x ≠ sender ∧ s.commits.hasVote pp.key x = false := by
    intro x
    rw [hcommits]
    simp [TrackedMsgs.hasVote, TrackedMsgs.mem_voters_addMsg]
  simp only [List.map_cons, List.nodup_cons, List.mem_map, List.mem_cons, forall_eq_or_imp, hnew, true_and, hvote]
  constructor
  · rintro ⟨⟨hne, hnodup⟩, hall⟩
    exact ⟨hnodup, fun e he => ⟨fun hsame => hne ⟨e, he, hsame⟩, hall e he⟩⟩
  · rintro ⟨hnodup, hall⟩
    refine ⟨⟨?_, hnodup⟩, fun e he => (hall e he).2⟩
    rintro ⟨e, he, hsame⟩
    exact (hall e he).1 hsame

/-- the loop takes all COMMITs in, or raises at the second one of a sender -/
theorem Taking.drainCommits {n : ℕ} {l : List (Commit × RepName)} (h : Taking env pp s)
    (hwait : s.preparesWaitingForPrePrepare.get? pp.key = none) (hl : ∀ e ∈ l, e.1.key = pp.key) (hn : l.length < n)
    (hw : s.commitsWaitingForPrepare.get? pp.key = some l) :
    Ends (drainCommits env dispatch pp.key n) s
      (fun _ s' => Distinct pp l s ∧ Taking env pp s' ∧ Took s s' ∧
        s'.preparesWaitingForPrePrepare = s.preparesWaitingForPrePrepare ∧ s'.prepares = s.prepares)
      fun e s' => ¬ Distinct pp l s ∧ Took s s' ∧ ∃ node suspicion msg, e = .suspiciousNode node suspicion msg := by
  induction n generalizing s l with
  | zero => exact absurd hn (Nat.not_lt_zero _)
  | succ n ih =>
    refine Ends.get_seq ?_
    rw [hw]
    cases l with
    | nil =>
      refine Ends.ret ⟨fun _ => ⟨List.nodup_nil, ?_⟩, h, Took.quiet rfl rfl, rfl, rfl⟩
      simp
    | cons e rest =>
      obtain ⟨c, sender⟩ := e
      have hkey : c.key = pp.key := hl _ List.mem_cons_self
      let s1 : Replica ω σ τ := { s with commitsWaitingForPrepare := s.commitsWaitingForPrepare.set pp.key rest }
      have hs1 : Taking env pp s1 := h.congr rfl rfl rfl
      have htook1 : Took s s1 := Took.quiet rfl rfl
      refine Ends.modify_seq (Ends.seq (E := fun e s' => ¬ Distinct pp ((c, sender) :: rest) s ∧ Took s s' ∧
        ∃ node suspicion msg, e = .suspiciousNode node suspicion msg)
        (Ends.mono (hs1.processCommit hwait hkey sender) (fun _ _ => id) ?_) ?_)
      · rintro e s2 ⟨rfl, hsuspicious, hyes, hdup⟩
        refine ⟨fun hdistinct => ?_, htook1, hsuspicious⟩
        have hnew := (hdistinct hyes).2 _ List.mem_cons_self
        exact absurd (hdup.symm.trans hnew) (by decide)
      · rintro _ s2 ⟨hs2, htook, hwaiting, hprepares, hcounted⟩
        have hpw : s2.preparesWaitingForPrePrepare = s.preparesWaitingForPrePrepare := congrArg Prod.fst hwaiting
        have hw2 : s2.commitsWaitingForPrepare.get? pp.key = some rest := by
          have hsame : s2.commitsWaitingForPrepare = s1.commitsWaitingForPrepare := congrArg Prod.snd hwaiting
          rw [hsame]
          exact Dict.get?_set_self _ _ _
        have hdistinct : Distinct pp ((c, sender) :: rest) s ↔ Distinct pp rest s2 := distinct_cons hprepares hcounted
        refine Ends.mono (ih hs2 (by rw [hpw]; exact hwait) (fun e he => hl e (List.mem_cons_of_mem _ he))
          (by simpa using hn) hw2) (fun _ s3 hs3 => ?_) fun e s3 hs3 => ?_
        · obtain ⟨hd, htaking, htook3, hpw3, hprepares3⟩ := hs3
          exact ⟨hdistinct.2 hd, htaking, (htook1.trans htook).trans htook3, hpw3.trans hpw, hprepares3.trans hprepares⟩
        · obtain ⟨hd, htook3, hsuspicious⟩ := hs3
          exact ⟨fun hall => hd (hdistinct.1 hall), (htook1.trans htook).trans htook3, hsuspicious⟩

theorem Taking.dequeueCommits {fuel : ℕ} (h : Taking env pp s)
    (hwait : s.preparesWaitingForPrePrepare.get? pp.key = none) (hl : ∀ e ∈ waitingFor pp s, e.1.key = pp.key)
    (hfuel : (waitingFor pp s).length < fuel) :
    Ends (dequeueCommits env fuel dispatch pp.key) s
      (fun _ s' => Distinct pp (waitingFor pp s) s ∧ Taking env pp s' ∧ Took s s' ∧
        s'.preparesWaitingForPrePrepare.get? pp.key = none ∧ s'.commitsWaitingForPrepare.get? pp.key = none ∧
        s'.prepares = s.prepares)
      fun e s' => ¬ Distinct pp (waitingFor pp s) s ∧ Took s s' ∧
        ∃ node suspicion msg, e = .suspiciousNode node suspicion msg := by
  unfold waitingFor at hl hfuel ⊢
  refine Ends.get_seq ?_
  unfold Dict.contains
  cases hw : s.commitsWaitingForPrepare.get? pp.key with
  | none =>
    refine Ends.ret ⟨fun _ => ⟨List.nodup_nil, ?_⟩, h, Took.quiet rfl rfl, hwait, hw, rfl⟩
    simp
  | some l =>
    rw [hw, Option.getD_some] at hl hfuel
    refine Ends.cond (fun _ => Ends.seq (h.drainCommits hwait hl hfuel hw) ?_) fun hno => absurd rfl hno
    rintro _ s1 ⟨hdistinct, hs1, htook, hpw, hprepares⟩
    refine Ends.write ⟨hdistinct, hs1.congr rfl rfl rfl, htook.trans (Took.quiet rfl rfl), ?_, ?_, hprepares⟩
    · exact (congrArg (Dict.get? · pp.key) hpw).trans hwait
    · exact (Dict.get?_erase _ _ _).trans (if_pos rfl)

/-! ## The PREPARE of the replica itself -/

theorem Taking.tryPrepare (h : Taking env pp s) :
    Ends (tryPrepare env dispatch pp) s (fun _ s' => s'.settled = s.settled ∧ s'.waitingVotes = s.waitingVotes ∧
      ∃ ms, Silent ms ∧ s'.outBox = s.outBox ++
        (if s.hasPrepared pp then [] else [.threePhase (.prepare (pp.prepare s.instId))]) ++ ms) fun _ _ => False := by
  have hpart := h.participates
  refine Ends.get_seq (Ends.cond (fun hcan => Ends.get_seq ?_) fun hcannot => Ends.ret ?_)
  · have hnew : s.hasPrepared pp = false := by
      unfold canPrepare at hcan
      rw [hpart] at hcan
      simpa using hcan
    let s1 := s.appendOutBox [.threePhase (.prepare (pp.prepare s.instId))]
    have hs1 : Taking env pp s1 := h.congr rfl rfl rfl
    refine Ends.modify_seq (Ends.mono (hs1.addToPrepares (p := pp.prepare s.instId) rfl s.name) (fun _ s' hs' => ?_)
      fun _ _ => id)
    obtain ⟨-, htook, hwait, -⟩ := hs'
    obtain ⟨ms, hms, hsilent⟩ := htook.silent
    refine ⟨htook.settled, hwait, ms, hsilent, ?_⟩
    rw [hnew]
    exact hms
  · have hold : s.hasPrepared pp = true := by
      unfold canPrepare at hcannot
      rw [hpart] at hcannot
      simpa using hcannot
    refine ⟨rfl, rfl, [], fun _ => List.not_mem_nil, ?_⟩
    simp [hold]

/-! ## The whole PRE-PREPARE -/

/-- somebody's PREPARE is counted, or waits and will be -/
def somePrepareCounts (pp : PrePrepare) (s : Replica ω σ τ) : Bool :=
  s.prepares.contains pp.key || (s.waitingPrepares pp).any fun e => (s.addPrePrepare pp).acceptsPrepare e.1 e.2

/-- no COMMIT that waits is the second of its sender -/
def NoSecondCommit (pp : PrePrepare) (s : Replica ω σ τ) : Prop :=
  ((waitingFor pp s).map Prod.snd).Nodup ∧ ∀ e ∈ waitingFor pp s, s.commits.hasVote pp.key e.2 = false

instance (pp : PrePrepare) (s : Replica ω σ τ) : Decidable (NoSecondCommit pp s) :=
  inferInstanceAs (Decidable (_ ∧ ∀ e ∈ waitingFor pp s, _ = _))

/-- the replica has not prepared the batch yet, and no COMMIT that will be counted comes twice -/
def TakesAll (pp : PrePrepare) (s : Replica ω σ τ) : Prop :=
  s.hasPrepared pp = false ∧ (s.somePrepareCounts pp = true → NoSecondCommit pp s)

instance (pp : PrePrepare) (s : Replica ω σ τ) : Decidable (TakesAll pp s) :=
  inferInstanceAs (Decidable (_ = _ ∧ (_ = _ → _)))

/-- the votes that wait are of other nodes and for the batch -/
structure VotesOfOthers (pp : PrePrepare) (s : Replica ω σ τ) : Prop where
  prepares : ∀ e ∈ s.waitingPrepares pp, e.1.key = pp.key ∧ e.2 ≠ s.name
  commits : ∀ e ∈ waitingFor pp s, e.1.key = pp.key ∧ e.2 ≠ s.name

/-- the state in which the loops start -/
def withPrePrepare (pp : PrePrepare) (s : Replica ω σ τ) : Replica ω σ τ :=
  (s.addPrePrepare pp).setLastPrePrepareSeqNo pp.ppSeqNo

/-- what the method adds to the outbox, as far as PREPAREs are concerned -/
def PreparesOnce (pp : PrePrepare) (s s' : Replica ω σ τ) : Prop :=
  ∃ before after, Silent before ∧ Silent after ∧
    s'.outBox = s.outBox ++ before ++ .threePhase (.prepare (pp.prepare s.instId)) :: after

/-- the PRE-PREPARE is taken in with all votes, or not, and then nothing is prepared -/
theorem addToPrePrepares_ends {fuel : ℕ} (h : Taking env pp (withPrePrepare pp s)) (hothers : VotesOfOthers pp s)
    (hprepares : (s.waitingPrepares pp).length < fuel) (hcommits : (waitingFor pp s).length < fuel) :
    Ends (addToPrePrepares env fuel dispatch pp) s
      (fun _ s' => (TakesAll pp s → s'.settled = (withPrePrepare pp s).settled ∧
          s'.preparesWaitingForPrePrepare.get? pp.key = none ∧ s'.commitsWaitingForPrepare.get? pp.key = none ∧
          PreparesOnce pp s s') ∧
        (¬ TakesAll pp s → Took (withPrePrepare pp s) s'))
      fun e s' => ¬ TakesAll pp s ∧ Took (withPrePrepare pp s) s' ∧
        ∃ node suspicion msg, e = .suspiciousNode node suspicion msg := by
  refine Ends.modify_seq (Ends.modify_seq ?_)
  change Ends _ (withPrePrepare pp s) _ _
  refine Ends.seq (Ends.mono (h.dequeuePrepares hothers.prepares hprepares) (fun _ _ => id) fun _ _ => False.elim) ?_
  rintro _ s1 ⟨hs1, htook1, hcw1, hpw1, hprepares1⟩
  have hname : s1.name = s.name := congrArg Prod.fst htook1.settled
  have hwaiting : waitingFor pp s1 = waitingFor pp s := by
    unfold waitingFor
    rw [hcw1]
    rfl
  have hcounted : s1.prepares.contains pp.key = s.somePrepareCounts pp := hprepares1.counted
  have hvote : ∀ e ∈ waitingFor pp s, s1.commits.hasVote pp.key e.2 = s.commits.hasVote pp.key e.2 := by
    intro e he
    exact decide_eq_decide.2 (hprepares1.others e.2 (hothers.commits e he).2)
  have hdistinct : Distinct pp (waitingFor pp s1) s1 ↔ (s.somePrepareCounts pp = true → NoSecondCommit pp s) := by
    unfold Distinct NoSecondCommit
    rw [hcounted, hwaiting]
    refine forall_congr' fun _ => and_congr_right fun _ => forall₂_congr fun e he => ?_
    rw [hvote e he]
  refine Ends.seq (Ends.mono (hs1.dequeueCommits hpw1 (fun e he => (hothers.commits e (hwaiting ▸ he)).1)
    (by rwa [hwaiting])) (fun _ _ => id) ?_) ?_
  · rintro e s2 ⟨hd, htook2, hsuspicious⟩
    exact ⟨fun hall => hd (hdistinct.2 hall.2), htook1.trans htook2, hsuspicious⟩
  rintro _ s2 ⟨hd, hs2, htook2, hpw2, hcw2, hprepares2⟩
  have htook := htook1.trans htook2
  have hown : s2.hasPrepared pp = s.hasPrepared pp := by
    have hname2 : s2.name = s.name := congrArg Prod.fst htook.settled
    unfold hasPrepared
    rw [hprepares2, hname2]
    exact hprepares1.own
  refine Ends.mono hs2.tryPrepare (fun _ s3 hs3 => ?_) fun _ _ => False.elim
  obtain ⟨hsettled, hwait, ms, hsilent, hout⟩ := hs3
  obtain ⟨before, hbefore, hsilent'⟩ := htook.silent
  have hout' : s2.outBox = s.outBox ++ before := hbefore
  rw [hown, hout'] at hout
  constructor
  · rintro ⟨hnew, -⟩
    rw [hnew] at hout
    have hinst : s2.instId = s.instId := congrArg (fun x => x.2.1) htook.settled
    refine ⟨hsettled.trans htook.settled, ?_, ?_, before, ms, hsilent', hsilent, ?_⟩
    · exact (congrArg (Dict.get? · pp.key) (congrArg Prod.fst hwait)).trans hpw2
    · exact (congrArg (Dict.get? · pp.key) (congrArg Prod.snd hwait)).trans hcw2
    · rw [hout, hinst]
      simp
  · intro hnot
    have hold : s.hasPrepared pp = true := by
      by_contra hnew
      exact hnot ⟨by simpa using hnew, hdistinct.1 hd⟩
    rw [hold] at hout
    refine ⟨hsettled.trans htook.settled, before ++ ms, ?_, hsilent'.append hsilent⟩
    rw [hout]
    simp [withPrePrepare, setLastPrePrepareSeqNo, addPrePrepare]

/-- the state with other databases and more rejects -/
def RejectsOnly (s s' : Replica ω σ τ) : Prop :=
  ∃ dbs, ∃ rejects : List Reject, s' = (s.setDbs dbs).appendOutBox (rejects.map OutMsg.reject)

/-- a PRE-PREPARE that can be processed comes from the primary, and validating it changes the databases and sends rejects -/
theorem canProcessPrePrepare_ends (env : Env ω σ τ) (s : Replica ω σ τ) (pp : PrePrepare) (sender : RepName) :
    Ends (canProcessPrePrepare env pp sender) s (fun can s' => can = true → s.node.isParticipating = true →
      s.primaryStatus pp.viewNo = some (some false) ∧ RejectsOnly s s') fun _ _ => True := by
  have hstatus : Ends (isPrimaryForMsg pp.viewNo : ReplicaM ω σ τ (Option Bool)) s
      (fun status s' => s' = s ∧ s.primaryStatus pp.viewNo = some status) fun _ _ => True := by
    unfold primaryStatus
    refine Ends.get_seq (Ends.cond (fun hview => Ends.ret ⟨rfl, if_pos hview⟩) fun hview => ?_)
    cases hp : s.primaryNames.get? pp.viewNo with
    | none => exact Ends.raise trivial
    | some p => exact Ends.ret ⟨rfl, if_neg hview⟩
  refine Ends.get_seq (Ends.cond (fun _ => Ends.raise trivial) fun hfrom => Ends.seq hstatus ?_)
  rintro status s1 ⟨rfl, hstatus⟩
  refine Ends.cond (fun _ => Ends.raise trivial) fun hbackup => Ends.cond (fun _ => Ends.raise trivial) fun _ => ?_
  refine Ends.cond (fun hnot => Ends.ret fun _ hpart => ?_) fun _ => ?_
  · simp [hpart] at hnot
  refine Ends.cond (fun _ => Ends.modify_seq (Ends.ret (by simp))) fun _ => ?_
  refine Ends.cond (fun _ => Ends.modify_seq (Ends.ret (by simp))) fun _ => ?_
  have hvalidate : Keeps (RejectsOnly s1) (validatePrePrepare env pp sender) := by
    refine keeps_validation ?_ env ?_ pp sender
    · rintro _ dbs ⟨_, rejects, rfl⟩
      exact ⟨dbs, rejects, rfl⟩
    · rintro _ more ⟨dbs, rejects, rfl⟩
      refine ⟨dbs, rejects ++ more, ?_⟩
      simp [appendOutBox, setDbs]
  have hstart : RejectsOnly s1 s1 := ⟨s1.node.dbs, [], by simp [appendOutBox]⟩
  refine Ends.seq (Ends.mono (Ends.of_keeps hvalidate hstart) (fun _ _ => id) fun _ _ _ => trivial) fun _ s2 hs2 => ?_
  refine Ends.ret fun _ _ => ⟨?_, hs2⟩
  rw [hstatus]
  -- the primary is known, so the status is, and it is not that of the primary
  have hknown : status.isSome = true := by
    unfold primaryStatus at hstatus
    split_ifs at hstatus
    · rw [← Option.some.inj hstatus]
      unfold isMsgFromPrimary at hfrom
      simp only [Bool.not_eq_true', decide_eq_false_iff_not, not_not] at hfrom
      simp [isPrimary, hfrom]
    · obtain ⟨p, -, hp⟩ := Option.map_eq_some_iff.1 hstatus
      rw [← hp]
      rfl
  obtain ⟨b, rfl⟩ := Option.isSome_iff_exists.1 hknown
  cases b with
  | false => rfl
  | true => exact absurd rfl hbackup

/-- `processPrePrepare`, with its calls of `node.onBatchCreated` noted: one, on the master, after the votes have been taken
in -/
def processPrePrepareNoting (env : Env ω σ τ) (fuel : ℕ) (dispatch : ThreePhaseMsg → NodeName → ReplicaM ω σ τ Unit)
    (pp : PrePrepare) (sender : RepName) : ReplicaM ω σ τ (List (LedgerId × Option σ)) := do
  let s ← get
  let oldStateRoot := s.stateHead pp.ledgerId
  let canProcess ← canProcessPrePrepare env pp sender
  if canProcess then do
    addToPrePrepares env fuel dispatch pp
    let s ← get
    if ! s.node.isParticipating then do
      modify fun s => { s with stashingWhileCatchingUp := s.stashingWhileCatchingUp ++ [pp.key] }
      pure []
    else do
      let created := if s.isMaster then [(pp.ledgerId, s.stateHead pp.ledgerId)] else []
      modify fun s => s.trackBatches pp oldStateRoot
      pure created
  else pure []

/-- noting the calls changes nothing -/
theorem exec_processPrePrepare (env : Env ω σ τ) (fuel : ℕ)
    (dispatch : ThreePhaseMsg → NodeName → ReplicaM ω σ τ Unit) (pp : PrePrepare) (sender : RepName)
    (s : Replica ω σ τ) : exec (processPrePrepare env fuel dispatch pp sender) s =
      match exec (processPrePrepareNoting env fuel dispatch pp sender) s with
      | (.ok _, s') => (.ok (), s')
      | (.error e, s') => (.error e, s') := by
  unfold processPrePrepare processPrePrepareNoting
  rw [exec_bind, exec_get, exec_bind, exec_get]
  dsimp only
  rw [exec_bind, exec_bind]
  rcases exec (canProcessPrePrepare env pp sender) s with ⟨e | can, s1⟩
  · rfl
  · cases can with
    | false => rfl
    | true =>
      dsimp only
      rw [if_pos rfl, if_pos rfl, exec_bind, exec_bind]
      rcases exec (addToPrePrepares env fuel dispatch pp) s1 with ⟨e | u, s2⟩
      · rfl
      · dsimp only
        rw [exec_bind, exec_get, exec_bind, exec_get]
        dsimp only
        split_ifs <;> rfl

/-- the calls of `node.onBatchCreated` by `processPrePrepare` -/
def batchesCreated (env : Env ω σ τ) (fuel : ℕ) (dispatch : ThreePhaseMsg → NodeName → ReplicaM ω σ τ Unit)
    (pp : PrePrepare) (sender : RepName) (s : Replica ω σ τ) : List (LedgerId × Option σ) :=
  match (exec (processPrePrepareNoting env fuel dispatch pp sender) s).1 with
  | .ok created => created
  | .error _ => []

/-- the PRE-PREPARE has been processed completely: it is held, one PREPARE has been sent, for it, its batch is recorded, the
node has been told of the batch, and no vote for it waits any more -/
structure Completed (pp : PrePrepare) (s s' : Replica ω σ τ) (created : List (LedgerId × Option σ)) : Prop where
  held : s'.prePrepares.get? pp.key = some pp
  prepared : PreparesOnce pp s s'
  recorded : s'.batches.get? pp.ppSeqNo = some (pp.discarded, pp.ppTime, s.stateHead pp.ledgerId)
  created : s.isMaster = true → created.map Prod.fst = [pp.ledgerId]
  processed : s'.waitingPrepares pp = [] ∧ waitingFor pp s' = []

/-- a PRE-PREPARE between the water marks, of the view, is dispatched to its method -/
theorem exec_dispatch_prePrepare (env : Env ω σ τ) (fuel depth : ℕ) {s : Replica ω σ τ} {pp : PrePrepare}
    (hstable : s.isPpSeqNoStable pp.ppSeqNo = false) (hbetween : s.isPpSeqNoBetweenWaterMarks pp.ppSeqNo = true)
    (hview : (exec (canPpSeqNoBeInView pp.viewNo pp.ppSeqNo) s).1 = .ok true) (node : NodeName) :
    exec (dispatchThreePhaseMsg env fuel (depth + 1) (.prePrepare pp) node) s =
      exec (reportingSuspicions (processPrePrepare env fuel (dispatchThreePhaseMsg env fuel depth) pp
        (generateName node s.instId))) s := by
  have hinView : exec (canPpSeqNoBeInView pp.viewNo pp.ppSeqNo) s = (.ok true, s) :=
    Prod.ext hview (canPpSeqNoBeInView_state pp.viewNo pp.ppSeqNo s)
  rw [dispatchThreePhaseMsg, dispatchOnce, exec_bind, exec_get]
  dsimp only
  have hunstable : ¬ s.isPpSeqNoStable (ThreePhaseMsg.prePrepare pp).ppSeqNo = true := Bool.eq_false_iff.1 hstable
  have hbetween' : s.isPpSeqNoBetweenWaterMarks (ThreePhaseMsg.prePrepare pp).ppSeqNo = true := hbetween
  rw [if_neg hunstable, if_pos hbetween']
  have hinView' : exec (canPpSeqNoBeInView (ThreePhaseMsg.prePrepare pp).viewNo (ThreePhaseMsg.prePrepare pp).ppSeqNo) s =
    (.ok true, s) := hinView
  unfold reportingSuspicions
  rw [exec_tryCatch, exec_tryCatch, exec_bind, hinView']
  rfl

theorem getPrePrepare_withPrePrepare (pp : PrePrepare) (s : Replica ω σ τ) :
    ∃ pp', (withPrePrepare pp s).getPrePrepare pp.key = some pp' := by
  have hadded : (withPrePrepare pp s).prePrepares.get? pp.key = some pp :=
    (PrePrepareLog.get?_add s.prePrepares pp pp.key).trans (if_pos rfl)
  unfold getPrePrepare
  split_ifs with hsent
  · exact Option.isSome_iff_exists.1 hsent
  · exact ⟨pp, hadded⟩

/-- a PREPARE that was not sent before has not been sent silently -/
theorem PreparesOnce.not_silent {s s' : Replica ω σ τ} (h : PreparesOnce pp s s') {ms : List OutMsg}
    (hout : s'.outBox = s.outBox ++ ms) : ¬ Silent ms := by
  obtain ⟨before, after, -, -, hout'⟩ := h
  intro hsilent
  rw [hout', List.append_assoc, List.append_cancel_left_eq] at hout
  refine hsilent (pp.prepare s.instId) ?_
  rw [← hout]
  simp

theorem silent_rejects (rejects : List Reject) : Silent (rejects.map OutMsg.reject) := by
  intro p hp
  simp at hp

/-- **When a PRE-PREPARE is completed.** Whatever votes wait for it, a PRE-PREPARE that can be processed is processed
completely if and only if the replica has not prepared it yet and, once a PREPARE for it counts, no COMMIT that waits is the
second one of its sender. The votes are of other nodes, and the checkpoint of the batch does not become stable meanwhile. -/
theorem completed_iff (env : Env ω σ τ) (fuel depth : ℕ) (node : NodeName) (s : Replica ω σ τ) (pp : PrePrepare)
    (hstable : s.isPpSeqNoStable pp.ppSeqNo = false) (hbetween : s.isPpSeqNoBetweenWaterMarks pp.ppSeqNo = true)
    (hview : (exec (canPpSeqNoBeInView pp.viewNo pp.ppSeqNo) s).1 = .ok true)
    (hcan : (exec (canProcessPrePrepare env pp (generateName node s.instId)) s).1 = .ok true)
    (hpart : s.shouldParticipate pp.viewNo pp.ppSeqNo = true) (hothers : VotesOfOthers pp s)
    (hquiet : s.hasOrdered pp.key = true ∨ QuietCheckpoint env pp.ppSeqNo s)
    (hprepares : (s.waitingPrepares pp).length < fuel) (hcommits : (waitingFor pp s).length < fuel) :
    Completed pp s (exec (dispatchThreePhaseMsg env fuel (depth + 1) (.prePrepare pp) node) s).2
      (s.batchesCreated env fuel (dispatchThreePhaseMsg env fuel depth) pp (generateName node s.instId)) ↔
    TakesAll pp s := by
  have hparticipating : s.node.isParticipating = true := by
    unfold shouldParticipate at hpart
    rw [Bool.and_eq_true] at hpart
    exact hpart.1
  rcases hcan' : exec (canProcessPrePrepare env pp (generateName node s.instId)) s with ⟨r, s1⟩
  rw [hcan'] at hcan
  cases hcan
  obtain ⟨hstatus, dbs, rejects, rfl⟩ := (canProcessPrePrepare_ends env s pp _).ok _ _ hcan' rfl hparticipating
  let s1 := (s.setDbs dbs).appendOutBox (rejects.map OutMsg.reject)
  have htaking : Taking env pp (withPrePrepare pp s1) := by
    refine ⟨hstatus, getPrePrepare_withPrePrepare pp s1, hstable, hpart, ?_⟩
    exact hquiet.imp id fun hquiet => hquiet.congr rfl rfl rfl
  have hadd : Ends (addToPrePrepares env fuel (dispatchThreePhaseMsg env fuel depth) pp) s1 _ _ :=
    addToPrePrepares_ends htaking ⟨hothers.prepares, hothers.commits⟩ hprepares hcommits
  have htakesAll : TakesAll pp s1 ↔ TakesAll pp s := Iff.rfl
  rw [htakesAll] at hadd
  rw [exec_dispatch_prePrepare env fuel depth hstable hbetween hview]
  unfold batchesCreated reportingSuspicions
  rw [exec_tryCatch, exec_processPrePrepare]
  unfold processPrePrepareNoting
  rw [exec_bind, exec_get]
  dsimp only
  rw [exec_bind, hcan']
  dsimp only
  rw [if_pos rfl, exec_bind]
  rcases hrun : exec (addToPrePrepares env fuel (dispatchThreePhaseMsg env fuel depth) pp) s1 with ⟨e | u, s2⟩
  · -- the exception leaves the rest undone
    obtain ⟨hnot, htook, node', suspicion, msg, rfl⟩ := hadd.error e s2 hrun
    obtain ⟨ms, hout, hsilent⟩ := htook.silent
    refine ⟨fun hcompleted => absurd ((silent_rejects rejects).append hsilent) ?_, fun hall => absurd hall hnot⟩
    refine hcompleted.prepared.not_silent ?_
    exact hout.trans (List.append_assoc _ _ _)
  · obtain ⟨hyes, hno⟩ := hadd.ok u s2 hrun
    dsimp only
    rw [exec_bind, exec_get]
    dsimp only
    by_cases hall : TakesAll pp s
    · obtain ⟨hsettled, hpw, hcw, before, after, hbefore, hafter, hout⟩ := hyes hall
      have hpart2 : s2.node.isParticipating = true := by
        have hsame := shouldParticipate_congr hsettled pp.viewNo pp.ppSeqNo
        have hpart2 : s2.shouldParticipate pp.viewNo pp.ppSeqNo = true := hsame.trans hpart
        unfold shouldParticipate at hpart2
        rw [Bool.and_eq_true] at hpart2
        exact hpart2.1
      have hmaster : s2.isMaster = s.isMaster := congrArg (fun x => x.2.2.1) hsettled
      have hpps : s2.prePrepares = s.prePrepares.add pp :=
        congrArg (fun x => x.2.2.2.2.2.2.2.2.2.2.1) hsettled
      refine ⟨fun _ => hall, fun _ => ?_⟩
      rw [hpart2]
      simp only [Bool.not_true, Bool.false_eq_true, if_false]
      constructor
      · change s2.prePrepares.get? pp.key = some pp
        rw [hpps, PrePrepareLog.get?_add, if_pos rfl]
      · refine ⟨rejects.map OutMsg.reject ++ before, after, (silent_rejects rejects).append hbefore, hafter, ?_⟩
        refine hout.trans ?_
        simp [s1, appendOutBox, setDbs]
      · exact Dict.get?_set_self _ _ _
      · intro hm
        rw [hmaster, hm]
        rfl
      · constructor
        · change (s2.preparesWaitingForPrePrepare.get? pp.key).getD [] = []
          rw [hpw, Option.getD_none]
        · change (s2.commitsWaitingForPrepare.get? pp.key).getD [] = []
          rw [hcw, Option.getD_none]
    · obtain ⟨ms, hout, hsilent⟩ := (hno hall).silent
      refine ⟨fun hcompleted => absurd ((silent_rejects rejects).append hsilent) ?_, fun hyes => absurd hyes hall⟩
      refine hcompleted.prepared.not_silent ?_
      cases hpart2 : s2.node.isParticipating with
      | false => exact hout.trans (List.append_assoc _ _ _)
      | true => exact hout.trans (List.append_assoc _ _ _)

end Replica

/-! ## Witnesses -/

namespace FourNodes

open Replica

/-- Beta, for whose first batch a PREPARE of Gamma and the COMMITs of the given nodes wait -/
def waitingBeta (committers : List NodeName) : Replica Bool ℕ ReqKey :=
  Replica.deliver (env 100) 5 voterBeta
    (prepareMsgs electorate firstBatch ["Gamma"] ++ commitMsgs electorate firstBatch committers)

/-- Beta after the PRE-PREPARE has been dispatched -/
def dispatched (committers : List NodeName) : Replica Bool ℕ ReqKey :=
  (exec (dispatchThreePhaseMsg (env 100) 5 5 (.prePrepare firstBatch) "Alpha") (waitingBeta committers)).2

def created (committers : List NodeName) : List (LedgerId × Option ℕ) :=
  (waitingBeta committers).batchesCreated (env 100) 5 (dispatchThreePhaseMsg (env 100) 5 4) firstBatch primary

end FourNodes

open FourNodes in
theorem completed_iff_twoCommitters :
    Replica.Completed firstBatch (waitingBeta ["Gamma", "Delta"]) (dispatched ["Gamma", "Delta"])
      (created ["Gamma", "Delta"]) := by
  refine (Replica.completed_iff (env 100) 5 4 "Alpha" (waitingBeta ["Gamma", "Delta"]) firstBatch (by decide +kernel)
    (by decide +kernel) (by decide +kernel) (by decide +kernel) (by decide +kernel) ?_ ?_ (by decide +kernel)
    (by decide +kernel)).2 (by decide +kernel)
  · constructor
    · decide +kernel
    · decide +kernel
  · exact Or.inr (by decide +kernel)

open FourNodes in
/-- **The second COMMIT of a node stops everything.** A PREPARE and two COMMITs of Gamma wait at Beta. Then Alpha's
PRE-PREPARE, which can be processed, is held; but Beta sends no PREPARE, records no batch and tells its node nothing of
it. -/
theorem second_commit_stops :
    (exec (Replica.canProcessPrePrepare (env 100) firstBatch primary) (waitingBeta ["Gamma", "Gamma"])).1 = .ok true ∧
      (dispatched ["Gamma", "Gamma"]).prePrepares.get? firstBatch.key = some firstBatch ∧
      (dispatched ["Gamma", "Gamma"]).outBox = [] ∧ created ["Gamma", "Gamma"] = [] ∧
      ¬ Replica.Completed firstBatch (waitingBeta ["Gamma", "Gamma"]) (dispatched ["Gamma", "Gamma"])
        (created ["Gamma", "Gamma"]) := by
  refine ⟨by decide +kernel, by decide +kernel, by decide +kernel, by decide +kernel, fun hcompleted => ?_⟩
  have hnone : (dispatched ["Gamma", "Gamma"]).batches.get? firstBatch.ppSeqNo = none := by decide +kernel
  have hsome := hcompleted.recorded
  rw [hnone] at hsome
  cases hsome

end Plenum
