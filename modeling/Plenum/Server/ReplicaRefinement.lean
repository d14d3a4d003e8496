/-
The code of a replica refines the ordering protocol: every write that a method does is a `ReplicaWrite`, and so made of
steps of `OrderingStep`.

- For each method there is one lemma `…_follows`: from any state of a replica that stays in one view, the method
  follows `ReplicaWrite`.
- `serviceQueues_writes`, `processStashedOutOfOrderCommits_writes` put them together; `serviceQueues_follows` and
  `processStashedOutOfOrderCommits_writes` are what they say of a participating replica, as steps of the protocol.
-/
import Mathlib.Tactic
import Plenum.Server.ReplicaWrites

namespace Plenum.Replica

open Plenum.Core Plenum.Core.Exec
open Relation (ReflTransGen)

variable {ω σ τ : Type} {env : Env ω σ τ} {D : InMsg → Prop} {s s' : Replica ω σ τ}

/-! ## Single writes -/

/-- a step of the protocol, done by one write outside the checkpoints and the water marks -/
theorem write_step {g : Replica ω σ τ → Replica ω σ τ} (hstep : ReplicaStep D s (g s)) (hmarks : (g s).marks = s.marks)
    (hkept : Kept s.ordering (g s).ordering) :
    Follows (ReplicaWrite env D) (modify g : ReplicaM ω σ τ PUnit) s fun _ s' => s' = g s :=
  Follows.write (.quiet _ hstep hmarks hkept) rfl

/-- a write to the queues, or to what no step is about -/
theorem write_queues {g : Replica ω σ τ → Replica ω σ τ} (ho : ((g s).ordering, (g s).marks) = (s.ordering, s.marks))
    (hq : Held D s.queues → Held D (g s).queues) :
    Follows (ReplicaWrite env D) (modify g : ReplicaM ω σ τ PUnit) s fun _ s' => s' = g s := by
  obtain ⟨ho, hmarks⟩ := Prod.mk.inj ho
  exact write_step ⟨Or.inl ho, hq⟩ hmarks (ho ▸ Kept.of_eq rfl)

/-- a write to the protocol's part -/
theorem write_ordering {g : Replica ω σ τ → Replica ω σ τ} (ho : OrderingStep D s.ordering (g s).ordering)
    (hq : ((g s).queues, (g s).marks) = (s.queues, s.marks)) (hkept : Kept s.ordering (g s).ordering) :
    Follows (ReplicaWrite env D) (modify g : ReplicaM ω σ τ PUnit) s fun _ s' => s' = g s := by
  obtain ⟨hq, hmarks⟩ := Prod.mk.inj hq
  exact write_step ⟨Or.inr ho, fun h => hq ▸ h⟩ hmarks hkept

/-- a method that leaves the state reached by one write -/
theorem follows_of_exec {α : Type} {m : ReplicaM ω σ τ α} {Q : α → Replica ω σ τ → Prop} (r : Except Exn α)
    (s' : Replica ω σ τ) (he : exec m s = (r, s')) (hstep : ReplicaWrite env D s s') (hQ : ∀ a, r = .ok a → Q a s') :
    Follows (ReplicaWrite env D) m s Q := by
  unfold Follows
  rw [he]
  exact ⟨ReflTransGen.single hstep, hQ⟩

theorem reportSuspiciousNodeEx_follows (node : RepName) (suspicion : Suspicion) :
    Follows (ReplicaWrite env D) (reportSuspiciousNodeEx node suspicion : ReplicaM ω σ τ Unit) s fun _ _ => True :=
  (write_queues rfl id).mono fun _ _ _ _ => trivial

/-- catching suspicions follows what the method follows -/
theorem reportingSuspicions_follows {m : ReplicaM ω σ τ Unit}
    (hm : Follows (ReplicaWrite env D) m s fun _ _ => True) :
    Follows (ReplicaWrite env D) (reportingSuspicions m) s fun _ _ => True := by
  refine hm.catching fun e s' _ => ?_
  cases e with
  | suspiciousNode node suspicion msg => exact reportSuspiciousNodeEx_follows node suspicion
  | _ => exact Follows.raise _

/-! ## Batches -/

theorem exec_finalisedReq (key : ReqKey) (s : Replica ω σ τ) :
    (∃ e, exec (finalisedReq key) s = (.error e, s)) ∨
      ∃ r, exec (finalisedReq key) s = (.ok r, s) ∧ s.node.requests.finalised? key = some r := by
  unfold finalisedReq
  rw [exec_bind, exec_get]
  dsimp only
  cases hs : s.node.requests.get? key with
  | none => exact Or.inl ⟨_, rfl⟩
  | some st =>
    cases hf : st.finalised with
    | none => exact Or.inl ⟨_, by simp only [hf]; rfl⟩
    | some r => exact Or.inr ⟨r, by simp only [hf]; rfl, by rw [Requests.finalised?, hs]; exact hf⟩

/-- all the requests of a batch so far -/
def ReqLists.all (acc : ReqLists ω) : List (Request ω) := acc.validReqs ++ acc.inValidReqs

/-- processing a request touches the databases only, and puts the request on one of the lists -/
theorem exec_processReqDuringBatch (env : Env ω σ τ) (req : Request ω) (acc : ReqLists ω) (s : Replica ω σ τ) :
    ∃ dbs acc', exec (processReqDuringBatch env req acc) s = (.ok acc', s.setDbs dbs) ∧
      acc'.all.Perm (acc.all ++ [req]) := by
  have hvalid : (acc.validReqs ++ [req] ++ acc.inValidReqs).Perm (acc.all ++ [req]) := by
    rw [ReqLists.all, List.append_assoc, List.append_assoc]
    exact List.perm_append_comm.append_left _
  unfold processReqDuringBatch
  rw [exec_bind, exec_get]
  dsimp only
  split_ifs
  · cases s.node.dbs.doDynamicValidation env req with
    | some reason => exact ⟨s.node.dbs, _, rfl, by rw [ReqLists.all, ReqLists.all, List.append_assoc]⟩
    | none => exact ⟨_, _, rfl, hvalid⟩
  · exact ⟨s.node.dbs, _, rfl, hvalid⟩

theorem exec_fillBatch (env : Env ω σ τ) (lid : LedgerId) (n : ℕ) (acc : ReqLists ω) (s : Replica ω σ τ) :
    ∃ r popped rest dbs, s.requestQueues.get lid = popped ++ rest ∧
      exec (fillBatch env lid n acc) s =
        (r, (s.setDbs dbs).setRequestQueue lid rest) ∧
      ∀ acc', r = .ok acc' → ∃ reqs, List.Forall₂ (fun k q => s.node.requests.finalised? k = some q) popped reqs ∧
        acc'.all.Perm (acc.all ++ reqs) := by
  induction n generalizing acc s with
  | zero =>
    refine ⟨.ok acc, [], s.requestQueues.get lid, s.node.dbs, rfl, by rw [setDbs_self, setRequestQueue_self]; rfl, ?_⟩
    rintro acc' hacc
    cases hacc
    exact ⟨[], List.Forall₂.nil, by rw [List.append_nil]⟩
  | succ n ih =>
    unfold fillBatch
    rw [exec_bind, exec_get]
    dsimp only
    cases hq : s.requestQueues.get lid with
    | nil =>
      refine ⟨.ok acc, [], [], s.node.dbs, rfl, ?_, ?_⟩
      · rw [setDbs_self, ← hq, setRequestQueue_self, hq]; rfl
      rintro acc' hacc
      cases hacc
      exact ⟨[], List.Forall₂.nil, by rw [List.append_nil]⟩
    | cons key rest =>
      dsimp only
      rw [exec_bind, exec_modify]
      dsimp only
      rw [exec_bind]
      obtain ⟨e, he⟩ | ⟨req, he, hreq⟩ :=
        exec_finalisedReq key (s.setRequestQueue lid rest)
      · rw [he]
        exact ⟨.error e, [key], rest, s.node.dbs, rfl, rfl, by rintro acc' ⟨⟩⟩
      · rw [he]
        dsimp only
        obtain ⟨dbs, acc1, he1, hperm1⟩ := exec_processReqDuringBatch env req acc
          (s.setRequestQueue lid rest)
        rw [exec_bind, he1]
        dsimp only
        obtain ⟨r, popped, rest', dbs', hq', he', hr⟩ := ih acc1
          ((s.setRequestQueue lid rest).setDbs dbs)
        have hrest : rest = popped ++ rest' := (PerLedger.get_set_self _ _ _).symm.trans hq'
        refine ⟨r, key :: popped, rest', dbs', by rw [hrest]; rfl, ?_, ?_⟩
        · rw [he']
          simp only [setDbs, setRequestQueue, PerLedger.set_set]
        · rintro acc' hacc
          obtain ⟨reqs, hf, hp⟩ := hr acc' hacc
          refine ⟨req :: reqs, List.Forall₂.cons hreq hf, hp.trans ?_⟩
          have h1 := hperm1.append_right reqs
          rwa [List.append_assoc] at h1

theorem send3PCBatchFor_follows (lid : LedgerId) (hprimary : s.isPrimary = some true) :
    Follows (ReplicaWrite env D) (send3PCBatchFor env lid) s fun _ _ => True := by
  have hname : s.cfg.primaryName = some s.cfg.name := by
    obtain ⟨p, hp, hp'⟩ := Option.map_eq_some_iff.1 hprimary
    exact hp.trans (congrArg some (of_decide_eq_true hp'))
  unfold send3PCBatchFor
  refine Follows.get_seq (Follows.cond (fun _ => ?_) fun _ => Follows.ret trivial)
  obtain ⟨r, popped, rest, dbs, hq, he, hr⟩ :=
    exec_fillBatch env lid env.max3PCBatchSize ⟨[], [], []⟩ s
  cases r with
  | error e =>
    refine follows_of_exec (.error e) ((s.setDbs dbs).setRequestQueue lid rest) ?_
      (.quiet _ ⟨Or.inr (.dropKeys (c := s.ordering) _ _ _ hq), id⟩ rfl (Kept.of_eq rfl)) fun a ha => by cases ha
    unfold create3PCBatch
    rw [exec_bind, exec_bind, exec_get]
    dsimp only
    rw [exec_bind, he]
  | ok acc =>
    obtain ⟨reqs, hreqs, hperm⟩ := hr acc rfl
    have hstep := OrderingStep.sendPrePrepare (D := D) (c := s.ordering)
      (mkPrePrepare env ((s.setDbs dbs).setRequestQueue lid rest) lid (s.lastPrePrepareSeqNo + 1) acc)
      (if s.isMaster then acc.rejects else []) hname hq hreqs (hperm.map Request.key) rfl rfl rfl
    refine ⟨?_, fun _ _ => trivial⟩
    unfold create3PCBatch sendPrePrepare send
    simp only [exec_bind, exec_get, exec_modify, exec_pure, he]
    refine ReflTransGen.single (.quiet _ ⟨Or.inr ?_, id⟩ rfl
      ⟨rfl, fun _ => contains_add _, fun _ => id, fun _ => id, fun _ => id⟩)
    convert hstep using 1
    simp only [ordering, cfg, trackBatches, appendOutBox, addSentPrePrepare, setLastPrePrepareSeqNo, setRequestQueue,
      setDbs, Nat.lt_succ_self, if_true, mkPrePrepare]
    congr 2
    split_ifs <;> rfl

theorem send3PCBatch_follows (hprimary : s.isPrimary = some true) :
    Follows (ReplicaWrite env D) (send3PCBatch env) s fun _ _ => True := by
  unfold send3PCBatch
  refine Follows.seq (send3PCBatchFor_follows .pool hprimary) fun r s1 h1 _ => ?_
  have hprimary1 : s1.isPrimary = some true := by
    have hc := cfg_of_writes h1
    have hp : s1.primaryName = s.primaryName := congrArg ReplicaConfig.primaryName hc
    have hn : s1.name = s.name := congrArg ReplicaConfig.name hc
    rw [isPrimary, hp, hn]; exact hprimary
  refine Follows.seq (send3PCBatchFor_follows .domain hprimary1) fun r' s2 h2 _ => ?_
  refine Follows.cond (fun _ => ?_) fun _ => Follows.ret trivial
  exact Follows.seq (write_queues rfl id) fun _ _ _ _ => Follows.ret trivial

/-! ## What the code reads, in the protocol's terms -/

theorem holds_of_getPrePrepare {key : TPCKey} {pp : PrePrepare} (h : s.getPrePrepare key = some pp) :
    s.ordering.Holds key pp := by
  unfold getPrePrepare at h
  split_ifs at h
  · exact Or.inl h
  · exact Or.inr h

/-- the last PRE-PREPARE is held, and no other one held is after it -/
theorem lastPrePrepare_spec {pp : PrePrepare} (h : s.lastPrePrepare = some pp) :
    s.ordering.Holds pp.key pp ∧ ∀ key pp', s.ordering.Holds key pp' → key.2 ≤ pp.ppSeqNo := by
  unfold lastPrePrepare at h
  cases hs : s.sentPrePrepares.last? with
  | none =>
    have hsent : ∀ key, s.sentPrePrepares.get? key = none := PrePrepareLog.get?_of_last?_none hs
    cases hp : s.prePrepares.last? with
    | none => simp [hs, hp] at h
    | some e =>
      obtain ⟨k, pp1⟩ := e
      obtain ⟨hget, hle⟩ := PrePrepareLog.le_last? hp
      have hk : pp1.key = k := PrePrepareLog.key_of_get? hget
      simp only [hs, hp] at h
      split_ifs at h
      cases h
      refine ⟨Or.inr (hk ▸ hget), fun key pp' hh => ?_⟩
      rcases hh with hh | hh
      · exact absurd (hh.symm.trans (hsent key)) (by simp)
      · exact (hle key pp' hh).trans (le_of_eq (congrArg Prod.snd hk.symm))
  | some e =>
    obtain ⟨k, pp1⟩ := e
    obtain ⟨hget, hle⟩ := PrePrepareLog.le_last? hs
    have hk : pp1.key = k := PrePrepareLog.key_of_get? hget
    have hk2 : k.2 = pp1.ppSeqNo := congrArg Prod.snd hk.symm
    cases hp : s.prePrepares.last? with
    | none =>
      simp only [hs, hp, Option.some.injEq] at h
      subst h
      refine ⟨Or.inl (hk ▸ hget), fun key pp' hh => ?_⟩
      rcases hh with hh | hh
      · exact (hle key pp' hh).trans hk2.le
      · exact absurd (hh.symm.trans (PrePrepareLog.get?_of_last?_none hp key)) (by simp)
    | some e' =>
      obtain ⟨k', pp2⟩ := e'
      obtain ⟨hget', hle'⟩ := PrePrepareLog.le_last? hp
      have hk' : pp2.key = k' := PrePrepareLog.key_of_get? hget'
      have hk2' : k'.2 = pp2.ppSeqNo := congrArg Prod.snd hk'.symm
      simp only [hs, hp] at h
      split_ifs at h with hlt
      · cases h
        refine ⟨Or.inr (hk' ▸ hget'), fun key pp' hh => ?_⟩
        rcases hh with hh | hh
        · have := hle key pp' hh; dsimp only at this; omega
        · exact (hle' key pp' hh).trans hk2'.le
      · cases h
        refine ⟨Or.inl (hk ▸ hget), fun key pp' hh => ?_⟩
        rcases hh with hh | hh
        · exact (hle key pp' hh).trans hk2.le
        · have := hle' key pp' hh; dsimp only at this; omega

theorem lastPrePrepare_none (h : s.lastPrePrepare = none) (key : TPCKey) (pp : PrePrepare)
    (hh : s.ordering.Holds key pp) : key.2 = 0 := by
  unfold lastPrePrepare at h
  cases hs : s.sentPrePrepares.last? with
  | some e =>
    obtain ⟨k, pp1⟩ := e
    cases hp : s.prePrepares.last? <;> simp only [hs, hp] at h
    · cases h
    · split_ifs at h
  | none =>
    cases hp : s.prePrepares.last? with
    | none =>
      rcases hh with hh | hh
      · exact absurd (hh.symm.trans (PrePrepareLog.get?_of_last?_none hs key)) (by simp)
      · exact absurd (hh.symm.trans (PrePrepareLog.get?_of_last?_none hp key)) (by simp)
    | some e =>
      obtain ⟨k, pp1⟩ := e
      simp only [hs, hp] at h
      split_ifs at h with hlt
      rcases hh with hh | hh
      · exact absurd (hh.symm.trans (PrePrepareLog.get?_of_last?_none hs key)) (by simp)
      · have := (PrePrepareLog.le_last? hp).2 key pp hh
        dsimp only at this
        omega

theorem isNext_of_isNextPrePrepare {n : ℕ} (h : s.isNextPrePrepare n = true) : s.ordering.IsNext n := by
  unfold isNextPrePrepare at h
  refine ⟨_, of_decide_eq_true h, ?_⟩
  cases hl : s.lastPrePrepare with
  | none =>
    refine ⟨Set.mem_insert _ _, fun p hp => ?_⟩
    rcases Set.mem_insert_iff.1 hp with rfl | ⟨key, pp, hh, rfl⟩
    · exact le_rfl
    · rw [lastPrePrepare_none hl key pp hh]; exact Nat.zero_le _
  | some pp =>
    obtain ⟨hheld, hmax⟩ := lastPrePrepare_spec hl
    dsimp only
    split_ifs with hlt
    · refine ⟨Set.mem_insert_of_mem _ ⟨pp.key, pp, hheld, rfl⟩, fun p hp => ?_⟩
      rcases Set.mem_insert_iff.1 hp with rfl | ⟨key, pp', hh, rfl⟩
      · exact hlt.le
      · exact hmax key pp' hh
    · refine ⟨Set.mem_insert _ _, fun p hp => ?_⟩
      rcases Set.mem_insert_iff.1 hp with rfl | ⟨key, pp', hh, rfl⟩
      · exact le_rfl
      · exact (hmax key pp' hh).trans (not_lt.1 hlt)

theorem prevOrdered_of_allPrevOrdered {c : Commit} (h : s.allPrevOrdered c = true) :
    s.ordering.PrevOrdered c.key := by
  unfold allPrevOrdered at h
  split_ifs at h with hlast
  · cases hg : s.ordered.getLast? with
    | none => rw [hg] at hlast; cases hlast
    | some last =>
      rw [hg] at hlast
      exact Or.inl ⟨last, hg, of_decide_eq_true hlast⟩
  · refine Or.inr fun k pp hh hk => ?_
    rw [List.all_eq_true] at h
    have hmem : k ∈ s.sentPrePrepares.keys ++ s.prePrepares.keys ++ Dict.keys s.prepares ++ Dict.keys s.commits := by
      simp only [List.mem_append]
      rcases hh with hh | hh
      · exact Or.inl (Or.inl (Or.inl (PrePrepareLog.mem_keys.2 ⟨pp, hh⟩)))
      · exact Or.inl (Or.inl (Or.inr (PrePrepareLog.mem_keys.2 ⟨pp, hh⟩)))
    have := h k hmem
    simp only [Bool.not_eq_true', Bool.and_eq_false_iff, decide_eq_false_iff_not, not_not] at this
    rcases this with h1 | h1
    · exact absurd hk h1
    · exact h1

/-! ## Validation of the 3-phase messages -/

theorem exec_processReqs (env : Env ω σ τ) (keys : List ReqKey) (acc : ReqLists ω) (s : Replica ω σ τ) :
    ∃ r dbs, exec (processReqs env keys acc) s = (r, s.setDbs dbs) := by
  induction keys generalizing acc s with
  | nil => exact ⟨_, s.node.dbs, rfl⟩
  | cons key keys ih =>
    unfold processReqs
    rw [exec_bind]
    obtain ⟨e, he⟩ | ⟨req, he, -⟩ := exec_finalisedReq key s
    · rw [he]; exact ⟨_, s.node.dbs, rfl⟩
    · rw [he]
      dsimp only
      obtain ⟨dbs, acc', he', -⟩ := exec_processReqDuringBatch env req acc s
      rw [exec_bind, he']
      exact ih acc' (s.setDbs dbs)

/-- a rejected PRE-PREPARE changes the databases only -/
theorem rejectPrePrepare_follows (pp : PrePrepare) (sender : RepName) (root : Option σ) (n : ℕ) (sus : Suspicion)
    (Q : Unit → Replica ω σ τ → Prop) :
    Follows (ReplicaWrite env D) (rejectPrePrepare env pp sender root n sus) s Q := by
  refine Follows.seq (Q := fun _ _ => True) ?_ fun _ _ _ _ => Follows.raise _
  cases root with
  | none => exact Follows.ret trivial
  | some root => exact (write_queues rfl id).mono fun _ _ _ _ => trivial

theorem validatePrePrepare_follows (pp : PrePrepare) (sender : RepName) :
    Follows (ReplicaWrite env D) (validatePrePrepare env pp sender) s fun _ s' =>
      ∃ outBox, s'.ordering = { s.ordering with outBox := outBox } := by
  unfold validatePrePrepare
  refine Follows.get_seq ?_
  obtain ⟨r, dbs, he⟩ := exec_processReqs env pp.reqIdr ⟨[], [], []⟩ s
  refine Follows.seq (Q := fun _ s' => s' = s.setDbs dbs) ?_ fun acc s1 _ hs1 => ?_
  · exact follows_of_exec _ _ he (.quiet _ ⟨Or.inl rfl, id⟩ rfl (Kept.of_eq rfl)) fun _ _ => rfl
  · subst hs1
    refine Follows.cond (fun _ => rejectPrePrepare_follows _ _ _ _ _ _) fun _ => ?_
    refine Follows.cond (fun _ => rejectPrePrepare_follows _ _ _ _ _ _) fun _ => ?_
    refine Follows.get_seq (Follows.cond (fun _ => ?_) fun _ => Follows.ret ⟨s.outBox, rfl⟩)
    refine Follows.cond (fun _ => rejectPrePrepare_follows _ _ _ _ _ _) fun _ => ?_
    refine Follows.cond (fun _ => rejectPrePrepare_follows _ _ _ _ _ _) fun _ => ?_
    refine (write_ordering (.sendRejects acc.rejects) rfl (Kept.of_eq rfl)).mono fun _ s2 _ hs2 => ?_
    subst hs2
    exact ⟨_, rfl⟩

theorem enqueuePrePrepare_follows {pp : PrePrepare} {sender : RepName} (hD : From D s.instId (.prePrepare pp) sender)
    (nonFinReqs : List ReqKey) :
    Follows (ReplicaWrite env D) (enqueuePrePrepare pp sender nonFinReqs : ReplicaM ω σ τ Unit) s fun _ _ => True := by
  unfold enqueuePrePrepare
  by_cases hn : nonFinReqs ≠ []
  · simp only [hn, ne_eq, not_false_eq_true, if_true]
    refine (write_queues rfl fun h => { h with pendingFinReqs := fun e he => ?_ }).mono fun _ _ _ _ => trivial
    rcases List.mem_append.1 he with he | he
    · exact h.pendingFinReqs e he
    · rw [List.mem_singleton.1 he]; exact hD
  · simp only [hn, if_false]
    refine (write_queues rfl fun h => { h with pendingPrevPP := fun e he => ?_ }).mono fun _ _ _ _ => trivial
    rcases SortedDict.mem_set.1 he with rfl | ⟨he, -⟩
    · exact hD
    · exact h.pendingPrevPP e he

theorem isPrimaryForMsg_follows {viewNo : ℕ} (hview : viewNo = s.node.viewNo) :
    Follows (ReplicaWrite env D) (isPrimaryForMsg viewNo) s fun r s' => r = s.isPrimary ∧ s' = s := by
  unfold isPrimaryForMsg
  exact Follows.get_seq (Follows.cond (fun _ => Follows.ret ⟨rfl, rfl⟩) fun h => absurd hview h)

/-- a PRE-PREPARE that may be processed meets every premise of accepting it -/
theorem canProcessPrePrepare_follows {pp : PrePrepare} {sender : NodeName} (hok : Ready D s)
    (hD : D (.threePhase (.prePrepare pp) sender)) (hview : pp.viewNo = s.node.viewNo) :
    Follows (ReplicaWrite env D) (canProcessPrePrepare env pp (generateName sender s.instId)) s fun b s' => b = true →
      s'.cfg.primaryName = some (generateName sender s'.cfg.instId) ∧ s'.cfg.primaryName ≠ some s'.cfg.name ∧
        pp.viewNo = s'.cfg.viewNo ∧ s'.ordering.IsNext pp.ppSeqNo ∧
        ∀ k ∈ pp.reqIdr, s'.node.requests.isFinalised k := by
  have hfrom : From D s.instId (.prePrepare pp) (generateName sender s.instId) := ⟨sender, rfl, hD⟩
  unfold canProcessPrePrepare
  refine Follows.get_seq (Follows.cond (fun _ => Follows.raise _) fun hprim => ?_)
  refine Follows.seq (isPrimaryForMsg_follows hview) ?_
  rintro _ s1 _ ⟨rfl, hs1⟩
  rw [hs1]
  refine Follows.cond (fun _ => Follows.raise _) fun hnot => ?_
  refine Follows.cond (fun _ => Follows.raise _) fun _ => ?_
  refine Follows.cond (fun hpart => ?_) fun _ => ?_
  · rcases hok.prePrepares with h | h
    · rw [h] at hpart
      cases hpart
    · exact absurd hD (h pp sender)
  refine Follows.cond (fun _ => ?_) fun hfin => ?_
  · exact Follows.seq (enqueuePrePrepare_follows hfrom _) fun _ _ _ _ => Follows.ret (by simp)
  refine Follows.cond (fun _ => ?_) fun hnext => ?_
  · exact Follows.seq (enqueuePrePrepare_follows hfrom _) fun _ _ _ _ => Follows.ret (by simp)
  refine Follows.seq (validatePrePrepare_follows pp _) fun _ s' _ hs' => Follows.ret fun _ => ?_
  obtain ⟨outBox, hout⟩ := hs'
  have hcfg : s'.cfg = s'.ordering.cfg := rfl
  have hreq : s'.node.requests = s'.ordering.requests := rfl
  have hp : s.primaryName = some (generateName sender s.instId) := by
    simpa [isMsgFromPrimary] using hprim
  rw [hcfg, hreq, hout]
  refine ⟨hp, fun hself => hnot ?_, hview, ?_, fun k hk => ?_⟩
  · have hself' : s.primaryName = some s.name := hself
    rw [isPrimary, hself']; simp
  · exact isNext_of_isNextPrePrepare (by simpa using hnext)
  · rw [not_not, nonFinalisedReqs, List.filter_eq_nil_iff] at hfin
    have hk' : s.node.requests.isFinalised k = true := by simpa using hfin k hk
    exact hk'

/-! ## Checkpoints -/

/-- nested dispatches follow the steps too -/
def DispatchOk (env : Env ω σ τ) (D : InMsg → Prop) (dispatch : ThreePhaseMsg → NodeName → ReplicaM ω σ τ Unit) : Prop :=
  ∀ s m n, Ready D s → D (.threePhase m n) → Follows (ReplicaWrite env D) (dispatch m n) s fun _ _ => True

variable {dispatch : ThreePhaseMsg → NodeName → ReplicaM ω σ τ Unit}

theorem releaseReqs_follows (ks : List ReqKey) :
    Follows (ReplicaWrite env D) (releaseReqs ks : ReplicaM ω σ τ Unit) s fun _ _ => True := by
  induction ks generalizing s with
  | nil => exact Follows.ret trivial
  | cons k ks ih =>
    unfold releaseReqs
    refine Follows.get_seq ?_
    cases hr : s.node.requests.release k with
    | none => exact Follows.raise _
    | some requests =>
      exact Follows.seq (write_ordering (.releaseRequest (c := s.ordering) _ _ hr) rfl (Kept.of_eq rfl)) fun _ _ _ _ => ih

theorem consumeStashedMsgs_follows (hd : DispatchOk env D dispatch) (hok : Ready D s) (n : ℕ) :
    Follows (ReplicaWrite env D) (consumeStashedMsgs dispatch n) s fun _ _ => True := by
  induction n generalizing s with
  | zero => exact Follows.ret trivial
  | succ n ih =>
    unfold consumeStashedMsgs
    refine Follows.get_seq ?_
    cases hq : s.stashingWhileOutsideWaterMarks with
    | nil => exact Follows.raise _
    | cons e rest =>
      obtain ⟨m, sender⟩ := e
      have hout := hok.held.outside
      simp only [queues, hq] at hout
      refine Follows.seq (write_queues rfl fun h => { h with outside := fun e he => ?_ }) fun _ s1 h1 _ => ?_
      · exact hout e (List.mem_cons_of_mem _ he)
      · refine Follows.seq (hd s1 m sender (hok.steps h1) (hout _ List.mem_cons_self)) fun _ s2 h2 _ => ?_
        exact ih ((hok.steps h1).steps h2)

theorem markCheckPointStable_follows (hd : DispatchOk env D dispatch) (hok : Ready D s) {own : CkKey}
    {ck : CheckpointState} (hget : s.checkpoints.get? own = some ck)
    (hfull : ck.receivedDigests.size = 2 * s.node.f) :
    Follows (ReplicaWrite env D) (markCheckPointStable env dispatch ck.seqNo) s fun _ _ => True := by
  unfold markCheckPointStable
  refine Follows.get_seq ?_
  dsimp only
  cases hf : s.checkpoints.entries.find? fun e => e.1.2 = (ck.seqNo : ℤ) with
  | none => exact Follows.ret trivial
  | some e =>
    obtain ⟨key, state⟩ := e
    -- the water mark and the 3-phase data move together: one write
    have hwrite : ReplicaWrite env D s (s.makeStable env ck.seqNo key state) := .makeStable own ck key state hget hfull hf
    have hok1 := hok.steps (ReflTransGen.single hwrite)
    refine Follows.after (releaseReqs ((stabilise env key state
      ((s.checkpoints.entries.takeWhile fun e => e.1.2 ≠ (ck.seqNo : ℤ)).map Prod.fst) ck.seqNo s).gcReqKeys ck.seqNo) >>=
      fun _ => processStashedMsgsForNewWaterMarks dispatch) (s.makeStable env ck.seqNo key state) ?_ hwrite ?_
    · simp only [exec_bind, exec_modify, exec_get, gc]
      rfl
    · refine Follows.seq (releaseReqs_follows _) fun _ s1 h1 _ => ?_
      unfold processStashedMsgsForNewWaterMarks
      exact Follows.get_seq (consumeStashedMsgs_follows hd (hok1.steps h1) _)

theorem checkIfCheckpointStable_follows (hd : DispatchOk env D dispatch) (hok : Ready D s) (key : CkKey) :
    Follows (ReplicaWrite env D) (checkIfCheckpointStable env dispatch key) s fun _ _ => True := by
  unfold checkIfCheckpointStable
  refine Follows.get_seq ?_
  cases hck : s.checkpoints.get? key with
  | none => exact Follows.raise _
  | some ck => exact Follows.cond (fun hfull => markCheckPointStable_follows hd hok hck hfull) fun _ => Follows.ret trivial

theorem stashCheckpoint_follows {ck : Checkpoint} {sender : NodeName} (hD : D (.checkpoint ck sender)) :
    Follows (ReplicaWrite env D) (stashCheckpoint ck sender : ReplicaM ω σ τ Unit) s fun _ _ => True := by
  refine (write_queues rfl fun h => { h with checkpoints := fun e he x hx => ?_ }).mono fun _ _ _ _ => trivial
  rcases Dict.mem_set.1 he with rfl | ⟨he, -⟩
  · rcases Dict.mem_set.1 hx with rfl | ⟨hx, -⟩
    · exact hD
    · cases hg : s.stashedRecvdCheckpoints.get? (ck.seqNoStart, ck.seqNoEnd) with
      | none => rw [hg] at hx; cases hx
      | some d =>
        rw [hg] at hx
        exact h.checkpoints _ (Dict.get?_eq_some.1 hg) x hx
  · exact h.checkpoints e he x hx

theorem processCheckpoint_follows (hd : DispatchOk env D dispatch) (hok : Ready D s) {ck : Checkpoint} {sender : NodeName}
    (hD : D (.checkpoint ck sender)) :
    Follows (ReplicaWrite env D) (processCheckpoint env dispatch ck sender) s fun _ _ => True := by
  unfold processCheckpoint
  refine Follows.get_seq (Follows.cond (fun _ => Follows.ret trivial) fun _ => ?_)
  dsimp only
  cases hg : s.checkpoints.get? (ck.seqNoStart, ck.seqNoEnd) with
  | none => exact stashCheckpoint_follows hD
  | some state =>
    dsimp only
    obtain ⟨seqNo, digests, digest, receivedDigests, isStable⟩ := state
    cases digest with
    | none => exact stashCheckpoint_follows hD
    | some digest =>
      refine Follows.cond (fun hown => ?_) fun _ => Follows.ret trivial
      have hwrite : ReplicaWrite env D s (s.receiveDigest ck sender _) :=
        .receiveDigest ck sender _ hD hg (congrArg some hown)
      refine Follows.seq (Q := fun _ _ => True) (Follows.write hwrite trivial) fun _ s1 h1 _ => ?_
      exact checkIfCheckpointStable_follows hd (hok.steps h1) _

theorem processStashedCheckpoints_follows (hd : DispatchOk env D dispatch) (hok : Ready D s) (key : CkKey) :
    Follows (ReplicaWrite env D) (processStashedCheckpoints env dispatch key) s fun _ _ => True := by
  unfold processStashedCheckpoints
  refine Follows.get_seq ?_
  cases hg : s.stashedRecvdCheckpoints.get? key with
  | none => exact Follows.ret trivial
  | some cks =>
    refine Follows.each fun e he s' hs' => processCheckpoint_follows hd (hok.steps hs') ?_
    exact hok.held.checkpoints _ (Dict.get?_eq_some.1 hg) e he

/-- adding a batch to its checkpoint is one write; then come the stashed checkpoints -/
theorem exec_addToCheckpoint (env : Env ω σ τ) (dispatch : ThreePhaseMsg → NodeName → ReplicaM ω σ τ Unit)
    (ppSeqNo : ℕ) (digest : String) (s : Replica ω σ τ) :
    exec (addToCheckpoint env dispatch ppSeqNo digest) s =
      exec (if (extendCheckpoint env ppSeqNo digest s).2.digests.length = env.CHK_FREQ then
        processStashedCheckpoints env dispatch (extendCheckpoint env ppSeqNo digest s).1 else pure ())
        (s.recordInCheckpoint env ppSeqNo digest) := by
  unfold addToCheckpoint recordInCheckpoint
  rw [exec_bind, exec_get]
  dsimp only
  split_ifs
  · rw [exec_bind, exec_modify]
  · rw [exec_modify]
    rfl

/-! ## Ordering -/

theorem canOrder_follows (c : Commit) :
    Follows (ReplicaWrite env D) (canOrder env c) s fun b s' => b = true →
      s' = s ∧ s.commits.hasEnoughVotes c.key (2 * s.node.f + 1) = true ∧ c.key ∉ s.ordered ∧
        s.ordering.PrevOrdered c.key := by
  unfold canOrder
  refine Follows.get_seq (Follows.cond (fun _ => Follows.ret (by simp)) fun hquorum => ?_)
  refine Follows.cond (fun _ => Follows.ret (by simp)) fun hnew => ?_
  refine Follows.cond (fun _ => ?_) fun hprev => Follows.ret fun _ => ?_
  · exact Follows.seq (write_queues rfl id) fun _ _ _ _ => Follows.ret (by simp)
  · rw [Bool.not_eq_true', Bool.not_eq_false] at hquorum hprev
    exact ⟨rfl, hquorum, by simpa [hasOrdered] using hnew, prevOrdered_of_allPrevOrdered hprev⟩

/-- ordering a batch is one step of the protocol; then the batch is added to its checkpoint -/
theorem doOrder_follows (hd : DispatchOk env D dispatch) (hok : Ready D s) {c : Commit}
    (hquorum : s.commits.hasEnoughVotes c.key (2 * s.node.f + 1) = true) (hnew : c.key ∉ s.ordered)
    (hprev : s.ordering.PrevOrdered c.key) :
    Follows (ReplicaWrite env D) (doOrder env dispatch c) s fun _ _ => True := by
  unfold doOrder
  refine Follows.get_seq ?_
  cases hpp : s.getPrePrepare c.key with
  | none => exact Follows.raise _
  | some pp =>
    have hcatch := hok.stashingWhileCatchingUp
    have hun : exec (unstashCaughtUp env c.key pp) (s.addToOrdered c.key) = (.ok (), s.addToOrdered c.key) := by
      unfold unstashCaughtUp
      rw [exec_bind, exec_get]
      dsimp only
      rw [if_neg (by simp [addToOrdered, isStashedWhileCatchingUp, hcatch])]
      rfl
    have hwrite : ReplicaWrite env D s ((s.orderBatch c.key pp).recordInCheckpoint env pp.ppSeqNo pp.digest) :=
      .order c.key pp (holds_of_getPrePrepare hpp) hquorum hnew hprev
    refine Follows.after (if (extendCheckpoint env pp.ppSeqNo pp.digest (s.orderBatch c.key pp)).2.digests.length =
      env.CHK_FREQ then processStashedCheckpoints env dispatch
        (extendCheckpoint env pp.ppSeqNo pp.digest (s.orderBatch c.key pp)).1 else pure ()) _ ?_ hwrite
      (Follows.cond (fun _ => ?_) fun _ => Follows.ret trivial)
    · simp only [exec_bind, exec_modify, hun]
      exact exec_addToCheckpoint env dispatch pp.ppSeqNo pp.digest (s.orderBatch c.key pp)
    · exact processStashedCheckpoints_follows hd (hok.steps (ReflTransGen.single hwrite)) _

theorem tryOrder_follows (hd : DispatchOk env D dispatch) (hok : Ready D s) (c : Commit) :
    Follows (ReplicaWrite env D) (tryOrder env dispatch c) s fun _ _ => True := by
  unfold tryOrder
  refine Follows.seq (canOrder_follows c) fun b s1 _ hb => Follows.cond (fun hb' => ?_) fun _ => Follows.ret trivial
  obtain ⟨rfl, hquorum, hnew, hprev⟩ := hb hb'
  exact Follows.seq (doOrder_follows hd hok hquorum hnew hprev) fun _ _ _ _ => Follows.ret trivial

/-! ## Votes -/

theorem addToCommits_follows (hd : DispatchOk env D dispatch) (hok : Ready D s) {c : Commit} {sender : RepName}
    (hvote : From D s.instId (.commit c) sender ∨ (sender = s.name ∧ .threePhase (.commit c) ∈ s.outBox)) :
    Follows (ReplicaWrite env D) (addToCommits env dispatch c sender) s fun _ _ => True := by
  have hstep : OrderingStep D s.ordering { s.ordering with commits := s.commits.addMsg c.key sender } := by
    rcases hvote with ⟨n, rfl, hD⟩ | ⟨rfl, hsent⟩
    · exact .receiveCommit (c := s.ordering) _ _ hD
    · exact .ownCommit (c := s.ordering) _ hsent
  refine Follows.seq (write_ordering hstep rfl
    ⟨rfl, fun _ => id, fun _ => id, fun _ => id, fun _ => contains_addMsg_of_contains _ _⟩) fun _ s1 h1 _ => ?_
  exact Follows.seq (tryOrder_follows hd (hok.steps h1) c) fun _ _ _ _ => Follows.ret trivial

theorem tryCommit_follows (hd : DispatchOk env D dispatch) (hok : Ready D s) (p : Prepare) :
    Follows (ReplicaWrite env D) (tryCommit env dispatch p) s fun _ _ => True := by
  unfold tryCommit
  refine Follows.get_seq (Follows.cond (fun hcan => ?_) fun _ => Follows.ret trivial)
  have hquorum : s.prepares.hasEnoughVotes p.key (2 * s.node.f) = true := by
    simp only [canCommit, Bool.and_eq_true] at hcan
    exact hcan.1.2
  unfold doCommit send
  refine Follows.get_seq (Follows.seq (write_ordering
    (.sendCommit (c := s.ordering) ⟨s.instId, p.viewNo, p.ppSeqNo⟩ hquorum) rfl (Kept.of_eq rfl)) fun _ s1 h1 hs1 => ?_)
  subst hs1
  exact addToCommits_follows hd (hok.steps h1) (Or.inr ⟨rfl, List.mem_append_right _ (List.mem_singleton.2 rfl)⟩)

/-- a PREPARE may be counted: it is a replica's own, or it was received and votes for the PRE-PREPARE held -/
def PrepareVote (D : InMsg → Prop) (s : Replica ω σ τ) (p : Prepare) (sender : RepName) : Prop :=
  (sender = s.name ∧ .threePhase (.prepare p) ∈ s.outBox) ∨
    (From D s.instId (.prepare p) sender ∧ s.primaryName ≠ some sender ∧
      ∃ pp, s.ordering.Holds p.key pp ∧ p.Matches pp)

theorem addToPrepares_follows (hd : DispatchOk env D dispatch) (hok : Ready D s) {p : Prepare} {sender : RepName}
    (hvote : PrepareVote D s p sender) :
    Follows (ReplicaWrite env D) (addToPrepares env dispatch p sender) s fun _ _ => True := by
  have hstep : OrderingStep D s.ordering { s.ordering with prepares := s.prepares.addMsg p.key sender } := by
    rcases hvote with ⟨rfl, hsent⟩ | ⟨⟨n, rfl, hD⟩, hfrom, pp, hpp, hmatch⟩
    · exact .ownPrepare (c := s.ordering) _ hsent
    · exact .receivePrepare (c := s.ordering) _ _ _ hD hfrom hpp hmatch
  refine Follows.seq (write_ordering hstep rfl
    ⟨rfl, fun _ => id, fun _ => id, fun _ => contains_addMsg_of_contains _ _, fun _ => id⟩) fun _ s1 h1 _ => ?_
  exact tryCommit_follows hd (hok.steps h1) p

theorem tryPrepare_follows (hd : DispatchOk env D dispatch) (hok : Ready D s) {pp : PrePrepare} (hacc : pp ∈ s.accepted)
    (hbackup : s.primaryName ≠ some s.name) :
    Follows (ReplicaWrite env D) (tryPrepare env dispatch pp) s fun _ _ => True := by
  unfold tryPrepare
  refine Follows.get_seq (Follows.cond (fun _ => ?_) fun _ => Follows.ret trivial)
  unfold doPrepare send
  refine Follows.get_seq (Follows.seq (write_ordering (.sendPrepare (c := s.ordering) _ hacc hbackup) rfl (Kept.of_eq rfl))
    fun _ s1 h1 hs1 => ?_)
  subst hs1
  exact addToPrepares_follows hd (hok.steps h1) (Or.inl ⟨rfl, List.mem_append_right _ (List.mem_singleton.2 rfl)⟩)

/-! ## Processing the 3-phase messages -/

theorem isPrimaryForMsg_unchanged (viewNo : ℕ) :
    Follows (ReplicaWrite env D) (isPrimaryForMsg viewNo) s fun _ s' => s' = s := by
  unfold isPrimaryForMsg
  refine Follows.get_seq (Follows.cond (fun _ => Follows.ret rfl) fun _ => ?_)
  cases s.primaryNames.get? viewNo with
  | none => exact Follows.raise _
  | some p => exact Follows.ret rfl

theorem enqueuePrepare_follows {p : Prepare} {sender : RepName} (hD : From D s.instId (.prepare p) sender) :
    Follows (ReplicaWrite env D) (enqueuePrepare p sender : ReplicaM ω σ τ Unit) s fun _ _ => True := by
  refine (write_queues rfl fun h => { h with prepares := fun e he x hx => ?_ }).mono fun _ _ _ _ => trivial
  rcases Dict.mem_set.1 he with rfl | ⟨he, -⟩
  · rcases List.mem_append.1 hx with hx | hx
    · cases hg : s.preparesWaitingForPrePrepare.get? p.key with
      | none => rw [hg] at hx; cases hx
      | some l =>
        rw [hg] at hx
        exact h.prepares _ (Dict.get?_eq_some.1 hg) x hx
    · rw [List.mem_singleton.1 hx]; exact hD
  · exact h.prepares e he x hx

theorem enqueueCommit_follows {c : Commit} {sender : RepName} (hD : From D s.instId (.commit c) sender) :
    Follows (ReplicaWrite env D) (enqueueCommit c sender : ReplicaM ω σ τ Unit) s fun _ _ => True := by
  refine (write_queues rfl fun h => { h with commits := fun e he x hx => ?_ }).mono fun _ _ _ _ => trivial
  rcases Dict.mem_set.1 he with rfl | ⟨he, -⟩
  · rcases List.mem_append.1 hx with hx | hx
    · cases hg : s.commitsWaitingForPrepare.get? c.key with
      | none => rw [hg] at hx; cases hx
      | some l =>
        rw [hg] at hx
        exact h.commits _ (Dict.get?_eq_some.1 hg) x hx
    · rw [List.mem_singleton.1 hx]; exact hD
  · exact h.commits e he x hx

/-- a valid PREPARE votes for the PRE-PREPARE held, and is not the primary's -/
theorem validatePrepare_follows {p : Prepare} {sender : RepName} (hD : From D s.instId (.prepare p) sender) :
    Follows (ReplicaWrite env D) (validatePrepare p sender) s fun b s' => b = true →
      s' = s ∧ PrepareVote D s p sender := by
  unfold validatePrepare
  refine Follows.seq (isPrimaryForMsg_unchanged p.viewNo) fun status s1 _ hs1 => ?_
  rw [hs1]
  refine Follows.get_seq (Follows.cond (fun _ => Follows.raise _) fun hprim => ?_)
  refine Follows.cond (fun _ => Follows.raise _) fun _ => ?_
  cases hpp : s.getPrePrepare p.key with
  | none =>
    refine Follows.cond (fun _ => Follows.raise _) fun _ => ?_
    exact Follows.seq (enqueuePrepare_follows hD) fun _ _ _ _ => Follows.ret (by simp)
  | some pp =>
    have hheld := holds_of_getPrePrepare hpp
    refine Follows.cond (fun _ => Follows.raise _) fun hdigest => ?_
    refine Follows.cond (fun _ => Follows.raise _) fun hstate => ?_
    refine Follows.cond (fun _ => Follows.raise _) fun htxn => Follows.ret fun _ => ⟨rfl, Or.inr ⟨hD, ?_, pp, hheld, ?_⟩⟩
    · simpa [isMsgFromPrimary] using hprim
    · exact ⟨hheld.key_eq.symm, not_not.1 hdigest, not_not.1 hstate, not_not.1 htxn⟩

theorem processPrepare_follows (hd : DispatchOk env D dispatch) (hok : Ready D s) {p : Prepare} {sender : RepName}
    (hD : From D s.instId (.prepare p) sender) :
    Follows (ReplicaWrite env D) (processPrepare env dispatch p sender) s fun _ _ => True := by
  unfold processPrepare
  refine Follows.get_seq (Follows.cond (fun _ => Follows.ret trivial) fun _ => reportingSuspicions_follows ?_)
  refine Follows.seq (validatePrepare_follows hD) fun b s1 _ hb => Follows.cond (fun hb' => ?_) fun _ =>
    Follows.ret trivial
  obtain ⟨rfl, hvote⟩ := hb hb'
  exact addToPrepares_follows hd hok hvote

theorem validateCommit_follows {c : Commit} {sender : RepName} (hD : From D s.instId (.commit c) sender) :
    Follows (ReplicaWrite env D) (validateCommit c sender) s fun b s' => b = true → s' = s := by
  unfold validateCommit
  refine Follows.get_seq ?_
  cases s.getPrePrepare c.key with
  | none => exact Follows.seq (enqueueCommit_follows hD) fun _ _ _ _ => Follows.ret (by simp)
  | some pp =>
    refine Follows.cond (fun _ => Follows.ret (by simp)) fun _ => ?_
    exact Follows.cond (fun _ => Follows.raise _) fun _ => Follows.ret fun _ => rfl

theorem processCommit_follows (hd : DispatchOk env D dispatch) (hok : Ready D s) {c : Commit} {sender : RepName}
    (hD : From D s.instId (.commit c) sender) :
    Follows (ReplicaWrite env D) (processCommit env dispatch c sender) s fun _ _ => True := by
  unfold processCommit
  refine Follows.get_seq (Follows.cond (fun _ => Follows.ret trivial) fun _ => ?_)
  refine Follows.seq (validateCommit_follows hD) fun b s1 _ hb => Follows.cond (fun hb' => ?_) fun _ =>
    Follows.ret trivial
  rw [hb hb']
  exact addToCommits_follows hd hok (Or.inl hD)

theorem dequeuePrepares_follows (hd : DispatchOk env D dispatch) (hok : Ready D s) (key : TPCKey) (fuel : ℕ) :
    Follows (ReplicaWrite env D) (dequeuePrepares env fuel dispatch key) s fun _ _ => True := by
  have hdrain : ∀ n (s : Replica ω σ τ), Ready D s →
      Follows (ReplicaWrite env D) (drainPrepares env dispatch key n) s fun _ _ => True := by
    intro n
    induction n with
    | zero => exact fun _ _ => Follows.raise _
    | succ n ih =>
      intro s hok
      unfold drainPrepares
      refine Follows.get_seq ?_
      cases hg : s.preparesWaitingForPrePrepare.get? key with
      | none => exact Follows.raise _
      | some l =>
        have hheld := hok.held.prepares _ (Dict.get?_eq_some.1 hg)
        cases l with
        | nil => exact Follows.ret trivial
        | cons e rest =>
          obtain ⟨p, sender⟩ := e
          refine Follows.seq (write_queues rfl fun h => { h with prepares := fun e he x hx => ?_ }) fun _ s1 h1 _ => ?_
          · rcases Dict.mem_set.1 he with rfl | ⟨he, -⟩
            · exact hheld x (List.mem_cons_of_mem _ hx)
            · exact h.prepares e he x hx
          · have hok1 := hok.steps h1
            refine Follows.seq (processPrepare_follows hd hok1 (From.writes (hheld _ List.mem_cons_self) h1))
              fun _ s2 h2 _ => ih s2 (hok1.steps h2)
  unfold dequeuePrepares
  refine Follows.get_seq (Follows.cond (fun _ => ?_) fun _ => Follows.ret trivial)
  refine Follows.seq (hdrain fuel s hok) fun _ s1 _ _ => ?_
  refine (write_queues rfl fun h => { h with prepares := fun e he => ?_ }).mono fun _ _ _ _ => trivial
  exact h.prepares e (Dict.mem_erase.1 he).1

theorem dequeueCommits_follows (hd : DispatchOk env D dispatch) (hok : Ready D s) (key : TPCKey) (fuel : ℕ) :
    Follows (ReplicaWrite env D) (dequeueCommits env fuel dispatch key) s fun _ _ => True := by
  have hdrain : ∀ n (s : Replica ω σ τ), Ready D s →
      Follows (ReplicaWrite env D) (drainCommits env dispatch key n) s fun _ _ => True := by
    intro n
    induction n with
    | zero => exact fun _ _ => Follows.raise _
    | succ n ih =>
      intro s hok
      unfold drainCommits
      refine Follows.get_seq ?_
      cases hg : s.commitsWaitingForPrepare.get? key with
      | none => exact Follows.raise _
      | some l =>
        have hheld := hok.held.commits _ (Dict.get?_eq_some.1 hg)
        cases l with
        | nil => exact Follows.ret trivial
        | cons e rest =>
          obtain ⟨c, sender⟩ := e
          refine Follows.seq (write_queues rfl fun h => { h with commits := fun e he x hx => ?_ }) fun _ s1 h1 _ => ?_
          · rcases Dict.mem_set.1 he with rfl | ⟨he, -⟩
            · exact hheld x (List.mem_cons_of_mem _ hx)
            · exact h.commits e he x hx
          · have hok1 := hok.steps h1
            refine Follows.seq (processCommit_follows hd hok1 (From.writes (hheld _ List.mem_cons_self) h1))
              fun _ s2 h2 _ => ih s2 (hok1.steps h2)
  unfold dequeueCommits
  refine Follows.get_seq (Follows.cond (fun _ => ?_) fun _ => Follows.ret trivial)
  refine Follows.seq (hdrain fuel s hok) fun _ s1 _ _ => ?_
  refine (write_queues rfl fun h => { h with commits := fun e he => ?_ }).mono fun _ _ _ _ => trivial
  exact h.commits e (Dict.mem_erase.1 he).1

/-- what the code has checked when it takes a PRE-PREPARE in -/
structure Acceptable (D : InMsg → Prop) (c : OrderingState ω) (pp : PrePrepare) (sender : NodeName) : Prop where
  delivered : D (.threePhase (.prePrepare pp) sender)
  fromPrimary : c.cfg.primaryName = some (generateName sender c.cfg.instId)
  backup : c.cfg.primaryName ≠ some c.cfg.name
  view : pp.viewNo = c.cfg.viewNo
  next : c.IsNext pp.ppSeqNo
  finalised : ∀ k ∈ pp.reqIdr, c.requests.isFinalised k

theorem addToPrePrepares_follows (hd : DispatchOk env D dispatch) (hok : Ready D s) {pp : PrePrepare} {sender : NodeName}
    (ha : Acceptable D s.ordering pp sender) (fuel : ℕ) :
    Follows (ReplicaWrite env D) (addToPrePrepares env fuel dispatch pp) s fun _ _ => True := by
  let s1 := (s.addPrePrepare pp).setLastPrePrepareSeqNo pp.ppSeqNo
  have hstep : OrderingStep D s.ordering s1.ordering := by
    have h := OrderingStep.acceptPrePrepare (c := s.ordering) _ _ ha.delivered ha.fromPrimary ha.backup ha.view ha.next
      ha.finalised
    have hmax : s1.lastPrePrepareSeqNo = max s.lastPrePrepareSeqNo pp.ppSeqNo :=
      setLastPrePrepareSeqNo_lastPrePrepareSeqNo (s := s.addPrePrepare pp) pp.ppSeqNo
    change OrderingStep D s.ordering { s.ordering with
      prePrepares := _, accepted := _, lastPrePrepareSeqNo := s1.lastPrePrepareSeqNo }
    rw [hmax]
    exact h
  have hwrite : ReplicaWrite env D s s1 :=
    .quiet s1 ⟨Or.inr hstep, id⟩ rfl ⟨rfl, fun _ => id, fun _ => contains_add _, fun _ => id, fun _ => id⟩
  have hok1 : Ready D s1 := hok.steps (ReflTransGen.single hwrite)
  refine Follows.after (dequeuePrepares env fuel dispatch pp.key >>= fun _ =>
    dequeueCommits env fuel dispatch pp.key >>= fun _ => tryPrepare env dispatch pp) s1 ?_ hwrite ?_
  · unfold addToPrePrepares
    rw [exec_bind, exec_modify]
    dsimp only
    rw [exec_bind, exec_modify]
  refine Follows.seq (dequeuePrepares_follows hd hok1 _ _) fun _ s2 h2 _ => ?_
  have hok2 := hok1.steps h2
  refine Follows.seq (dequeueCommits_follows hd hok2 _ _) fun _ s3 h3 _ => ?_
  have hsteps : ReflTransGen (ReplicaWrite env D) s1 s3 := h2.trans h3
  have hcfg := cfg_of_writes hsteps
  refine tryPrepare_follows hd (hok1.steps hsteps) ?_ ?_
  · -- the PRE-PREPARE stays among the accepted ones, whatever the waiting votes have led to
    have hpre : s1.ordering.accepted <+: s3.ordering.accepted :=
      stable_of_steps (I := fun c : OrderingState ω => s1.ordering.accepted <+: c.accepted)
        (fun _ _ hs h => h.trans hs.accepted_prefix) (ordering_of_writes hsteps) List.prefix_rfl
    exact hpre.subset (List.mem_append_right _ (List.mem_singleton.2 rfl))
  · have hp : s3.primaryName = s.primaryName := congrArg ReplicaConfig.primaryName hcfg
    have hn : s3.name = s.name := congrArg ReplicaConfig.name hcfg
    rw [hp, hn]
    exact ha.backup

theorem processPrePrepare_follows (hd : DispatchOk env D dispatch) (hok : Ready D s) {pp : PrePrepare} {sender : NodeName}
    (hD : D (.threePhase (.prePrepare pp) sender)) (hview : pp.viewNo = s.node.viewNo) (fuel : ℕ) :
    Follows (ReplicaWrite env D) (processPrePrepare env fuel dispatch pp (generateName sender s.instId)) s
      fun _ _ => True := by
  unfold processPrePrepare
  refine Follows.get_seq (Follows.seq (canProcessPrePrepare_follows hok hD hview) fun b s1 h1 hb => ?_)
  refine Follows.cond (fun hb' => ?_) fun _ => Follows.ret trivial
  obtain ⟨hfrom, hbackup, hview1, hnext, hfin⟩ := hb hb'
  have hok1 := hok.steps h1
  refine Follows.seq (addToPrePrepares_follows hd hok1 ⟨hD, hfrom, hbackup, hview1, hnext, hfin⟩ fuel)
    fun _ s2 h2 _ => Follows.get_seq (Follows.cond (fun hpart => ?_) fun _ => ?_)
  · rcases (hok1.steps h2).prePrepares with h | h
    · rw [h] at hpart
      cases hpart
    · exact absurd hD (h pp sender)
  · exact (write_queues rfl id).mono fun _ _ _ _ => trivial

/-- while no view has ended, a message passes only if it is of the current view -/
theorem canPpSeqNoBeInView_follows (hok : Ready D s) (viewNo ppSeqNo : ℕ) :
    Follows (ReplicaWrite env D) (canPpSeqNoBeInView viewNo ppSeqNo) s fun b s' =>
      s' = s ∧ (b = true → viewNo = s.node.viewNo) := by
  unfold canPpSeqNoBeInView
  refine Follows.get_seq (Follows.cond (fun _ => Follows.raise _) fun _ => Follows.ret ⟨rfl, fun h => ?_⟩)
  have hends : s.viewEndsAt = Dict.empty := hok.viewEndsAt
  rw [hends, Dict.get?_empty] at h
  simpa using h

theorem dispatchOnce_follows (hd : DispatchOk env D dispatch) (fuel : ℕ) :
    DispatchOk env D (dispatchOnce env fuel dispatch) := by
  intro s m sender hok hD
  unfold dispatchOnce
  refine Follows.get_seq (Follows.cond (fun _ => Follows.ret trivial) fun _ => ?_)
  refine Follows.cond (fun _ => reportingSuspicions_follows ?_) fun _ => ?_
  · refine Follows.seq (canPpSeqNoBeInView_follows hok _ _) ?_
    rintro b s1 _ ⟨hs1, hview⟩
    rw [hs1]
    refine Follows.cond (fun hb => ?_) fun _ => Follows.ret trivial
    cases m with
    | prePrepare pp => exact processPrePrepare_follows hd hok hD (hview hb) fuel
    | prepare p => exact processPrepare_follows hd hok ⟨sender, rfl, hD⟩
    | commit c => exact processCommit_follows hd hok ⟨sender, rfl, hD⟩
  · refine (write_queues rfl fun h => { h with outside := fun e he => ?_ }).mono fun _ _ _ _ => trivial
    rcases List.mem_append.1 he with he | he
    · exact h.outside e he
    · rw [List.mem_singleton.1 he]; exact hD

/-- dispatching follows the steps to any nesting depth -/
theorem dispatchThreePhaseMsg_follows (fuel depth : ℕ) : DispatchOk env D (dispatchThreePhaseMsg env fuel depth) := by
  induction depth with
  | zero => exact fun _ _ _ _ _ => Follows.raise _
  | succ depth ih => exact dispatchOnce_follows ih fuel

/-! ## Servicing the queues -/

theorem inBoxRouter_threePhase_follows (hok : Ready D s) (fuel : ℕ) {m : ThreePhaseMsg} {sender : NodeName}
    (hD : D (.threePhase m sender)) :
    Follows (ReplicaWrite env D) (processThreePhaseMsg env fuel m sender) s fun _ _ => True := by
  unfold processThreePhaseMsg
  refine Follows.get_seq (Follows.cond (fun _ => ?_) fun _ => dispatchThreePhaseMsg_follows fuel fuel s m sender hok hD)
  refine (write_queues rfl fun h => { h with postElectionMsgs := fun e he => ?_ }).mono fun _ _ _ _ => trivial
  rcases List.mem_append.1 he with he | he
  · exact h.postElectionMsgs e he
  · rw [List.mem_singleton.1 he]; exact hD

/-- taking a request key from the inbox into its queue is one step -/
theorem popReqKey_follows {k : ReqKey} {rest : List InMsg} (hin : s.inBox = .reqKey k :: rest) :
    Follows (ReplicaWrite env D) (modify (fun s => { s with inBox := rest }) >>= fun _ => readyFor3PC env k) s
      fun _ _ => True := by
  have hq : ∀ h : Held D s.queues, Held D { s.queues with inBox := rest } := fun h =>
    { h with inBox := fun m hm => h.inBox m (by change m ∈ s.inBox; rw [hin]; exact List.mem_cons_of_mem _ hm) }
  obtain ⟨e, he⟩ | ⟨req, he, -⟩ := exec_finalisedReq k { s with inBox := rest }
  · refine follows_of_exec (.error e) ({ s with inBox := rest }) ?_
      (.quiet _ ⟨Or.inr (.popInBox (c := s.ordering) _ _ hin), hq⟩ rfl (Kept.of_eq rfl)) fun _ h => by cases h
    unfold readyFor3PC
    rw [exec_bind, exec_modify]
    dsimp only
    rw [exec_bind, he]
  · refine follows_of_exec (.ok ()) (({ s with inBox := rest } : Replica ω σ τ).setRequestQueue
      (env.ledgerIdForRequest req) (addKey (s.requestQueues.get (env.ledgerIdForRequest req)) k)) ?_
      (.quiet _ ⟨Or.inr (.readyFor3PC (c := s.ordering) _ _ _ hin), hq⟩ rfl (Kept.of_eq rfl)) fun _ _ => trivial
    unfold readyFor3PC
    rw [exec_bind, exec_modify]
    dsimp only
    rw [exec_bind, he]
    rfl

theorem handleInBox_follows (hok : Ready D s) (fuel n : ℕ) :
    Follows (ReplicaWrite env D) (handleInBox env fuel n) s fun _ _ => True := by
  induction n generalizing s with
  | zero => exact Follows.ret trivial
  | succ n ih =>
    unfold handleInBox
    refine Follows.get_seq ?_
    cases hin : s.inBox with
    | nil => exact Follows.ret trivial
    | cons m rest =>
      have hin' : ∀ m' ∈ m :: rest, D m' := fun m' hm' => hok.held.inBox m' (by change m' ∈ s.inBox; rwa [hin])
      have hpop : Follows (ReplicaWrite env D) (modify fun s => { s with inBox := rest } : ReplicaM ω σ τ PUnit) s
          fun _ s' => s' = { s with inBox := rest } :=
        write_step ⟨Or.inr (.popInBox (c := s.ordering) _ _ hin), fun h =>
          { h with inBox := fun m' hm' => hin' m' (List.mem_cons_of_mem _ hm') }⟩ rfl (Kept.of_eq rfl)
      have hone : Follows (ReplicaWrite env D) ((modify fun s => { s with inBox := rest }) >>= fun _ => inBoxRouter env fuel m)
          s fun _ _ => True := by
        cases m with
        | reqKey k => exact popReqKey_follows hin
        | threePhase m sender =>
          exact Follows.seq hpop fun _ s1 h1 _ =>
            inBoxRouter_threePhase_follows (hok.steps h1) fuel (hin' _ List.mem_cons_self)
        | checkpoint ck sender =>
          exact Follows.seq hpop fun _ s1 h1 _ =>
            processCheckpoint_follows (dispatchThreePhaseMsg_follows fuel fuel) (hok.steps h1)
              (hin' _ List.mem_cons_self)
      have hassoc : (do
          modify fun s => { s with inBox := rest }
          inBoxRouter env fuel m
          let r ← handleInBox env fuel n
          pure (r + 1) : ReplicaM ω σ τ ℕ) =
        ((modify fun s => { s with inBox := rest }) >>= fun _ => inBoxRouter env fuel m) >>= fun _ =>
          handleInBox env fuel n >>= fun r => pure (r + 1) := by rw [bind_assoc]
      dsimp only
      rw [hassoc]
      exact Follows.seq hone fun _ s1 h1 _ =>
        Follows.seq (ih (hok.steps h1)) fun _ _ _ _ => Follows.ret trivial

theorem handleAllSync_follows (hok : Ready D s) (fuel : ℕ) (limit : Option ℕ) :
    Follows (ReplicaWrite env D) (handleAllSync env fuel limit) s fun _ _ => True := by
  unfold handleAllSync
  exact Follows.get_seq (handleInBox_follows hok fuel _)

theorem movePrePreparesReady_step : ReplicaStep D s (movePrePreparesReady s) := by
  refine ⟨Or.inl rfl, fun h => ?_⟩
  have hpending : ∀ e ∈ s.prePreparesPendingFinReqs.map fun e => (e.1, e.2.1, s.nonFinalisedReqs e.2.2),
      From D s.instId (.prePrepare e.1) e.2.1 := by
    intro e he
    obtain ⟨e', he', rfl⟩ := List.mem_map.1 he
    exact h.pendingFinReqs e' he'
  have hfold : ∀ (l : List (PrePrepare × RepName × List ReqKey)) (d : TPCDict (PrePrepare × RepName)),
      (∀ e ∈ l, From D s.instId (.prePrepare e.1) e.2.1) →
      (∀ e ∈ d.entries, From D s.instId (.prePrepare e.2.1) e.2.2) →
      ∀ e ∈ (l.foldl (fun d e => d.set e.1.key (e.1, e.2.1)) d).entries, From D s.instId (.prePrepare e.2.1) e.2.2 := by
    intro l
    induction l with
    | nil => exact fun d _ hd => hd
    | cons a l ih =>
      refine fun d hl hd => ih _ (fun e he => hl e (List.mem_cons_of_mem a he)) fun e he => ?_
      rcases SortedDict.mem_set.1 he with rfl | ⟨he, -⟩
      · exact hl a List.mem_cons_self
      · exact hd e he
  exact { h with
    pendingFinReqs := fun e he => hpending e (List.mem_filter.1 he).1
    pendingPrevPP := hfold _ _ (fun e he => hpending e (List.mem_filter.1 (List.mem_reverse.1 he)).1) h.pendingPrevPP }

theorem drainPrePrepares_follows (hok : Ready D s) (fuel n : ℕ) :
    Follows (ReplicaWrite env D) (drainPrePrepares env fuel n) s fun _ _ => True := by
  induction n generalizing s with
  | zero => exact Follows.raise _
  | succ n ih =>
    unfold drainPrePrepares
    refine Follows.get_seq ?_
    cases hf : s.prePreparesPendingPrevPP.first? with
    | none => exact Follows.ret trivial
    | some e =>
      obtain ⟨key, pp, sender⟩ := e
      obtain ⟨n', hsender, hD⟩ := hok.held.pendingPrevPP _ (SortedDict.first?_mem hf)
      refine Follows.cond (fun _ => ?_) fun _ => Follows.ret trivial
      refine Follows.seq (write_queues rfl fun h =>
        { h with pendingPrevPP := fun e he => h.pendingPrevPP e (SortedDict.mem_erase.1 he).1 }) fun _ s1 h1 _ => ?_
      have hok1 := hok.steps h1
      refine Follows.seq (canPpSeqNoBeInView_follows hok1 _ _) ?_
      rintro b s2 _ ⟨hs2, hview⟩
      rw [hs2]
      refine Follows.cond (fun hb => ?_) fun _ => ih hok1
      have hinst : s1.instId = s.instId := congrArg ReplicaConfig.instId (cfg_of_writes h1)
      have hsender1 : sender = generateName n' s1.instId := by rw [hinst]; exact hsender
      rw [hsender1]
      refine Follows.seq (processPrePrepare_follows (dispatchThreePhaseMsg_follows fuel fuel) hok1 hD (hview hb) fuel)
        fun _ s3 h3 _ => ?_
      exact Follows.seq (ih (hok1.steps h3)) fun _ _ _ _ => Follows.ret trivial

theorem dequeuePrePrepares_follows (hok : Ready D s) (fuel : ℕ) :
    Follows (ReplicaWrite env D) (dequeuePrePrepares env fuel) s fun _ _ => True :=
  Follows.seq (write_step movePrePreparesReady_step rfl (Kept.of_eq rfl)) fun _ _ h1 _ =>
    drainPrePrepares_follows (hok.steps h1) fuel fuel

/-! ## The stashed commits -/

theorem orderStashedCommit_follows (hok : Ready D s) (fuel v p : ℕ) (lastOrdered : TPCKey) :
    Follows (ReplicaWrite env D) (orderStashedCommit env fuel v p lastOrdered) s fun _ _ => True := by
  unfold orderStashedCommit
  refine Follows.get_seq ?_
  cases (s.stashedOutOfOrderCommits.get? v).bind (Dict.get? · p) with
  | none => exact Follows.raise _
  | some c =>
    refine Follows.cond (fun _ => Follows.ret trivial) fun _ => ?_
    refine Follows.cond (fun _ => ?_) fun _ => Follows.ret trivial
    exact Follows.seq (tryOrder_follows (dispatchThreePhaseMsg_follows fuel fuel) hok c) fun _ _ _ _ =>
      Follows.ret trivial

theorem orderStashedInView_follows (hok : Ready D s) (fuel v size : ℕ) (ps : List ℕ) (lastOrdered : TPCKey) :
    Follows (ReplicaWrite env D) (orderStashedInView env fuel v size ps lastOrdered) s fun _ _ => True := by
  induction ps generalizing s lastOrdered with
  | nil => exact Follows.ret trivial
  | cons p ps ih =>
    unfold orderStashedInView
    refine Follows.seq (orderStashedCommit_follows hok fuel v p lastOrdered) fun r s1 h1 _ => ?_
    refine Follows.get_seq (Follows.cond (fun _ => Follows.raise _) fun _ => ?_)
    exact Follows.seq (ih (hok.steps h1) r.2) fun _ _ _ _ => Follows.ret trivial

theorem orderStashedInViews_follows (hok : Ready D s) (fuel size : ℕ) (vs : List ℕ) (lastOrdered : TPCKey) :
    Follows (ReplicaWrite env D) (orderStashedInViews env fuel size vs lastOrdered) s fun _ _ => True := by
  induction vs generalizing s lastOrdered with
  | nil => exact Follows.ret trivial
  | cons v vs ih =>
    unfold orderStashedInViews
    refine Follows.get_seq (Follows.cond (fun _ => Follows.raise _) fun _ => ?_)
    refine Follows.seq (orderStashedInView_follows hok fuel v _ _ lastOrdered) fun r s1 h1 _ => ?_
    refine Follows.get_seq (Follows.seq (write_queues rfl id) fun _ s2 h2 _ => ?_)
    refine Follows.cond (fun _ => Follows.raise _) fun _ => ?_
    exact Follows.seq (ih ((hok.steps h1).steps h2) r.2) fun _ _ _ _ => Follows.ret trivial

theorem processStashedOutOfOrderCommits_writes (env : Env ω σ τ) (hok : Ready D s) (fuel : ℕ) :
    Follows (ReplicaWrite env D) (processStashedOutOfOrderCommits env fuel) s fun _ _ => True := by
  unfold processStashedOutOfOrderCommits
  refine Follows.get_seq ?_
  cases s.ordered.getLast? with
  | none => exact Follows.ret trivial
  | some lastOrdered =>
    refine Follows.seq (orderStashedInViews_follows hok fuel _ _ lastOrdered) fun _ s1 _ _ => ?_
    refine Follows.seq (write_queues rfl id) fun _ s2 _ _ => Follows.get_seq ?_
    refine Follows.cond (fun _ => ?_) fun _ => Follows.ret trivial
    cases s2.actions.stopRepeating .processStashedOutOfOrderCommits with
    | none => exact Follows.raise _
    | some actions => exact (write_queues rfl id).mono fun _ _ _ _ => trivial

theorem runActions_follows (hok : Ready D s) (fuel n : ℕ) :
    Follows (ReplicaWrite env D) (runActions env fuel n) s fun _ _ => True := by
  induction n generalizing s with
  | zero => exact Follows.ret trivial
  | succ n ih =>
    unfold runActions
    refine Follows.get_seq ?_
    cases s.actions.actionQueue with
    | nil => exact Follows.ret trivial
    | cons e rest =>
      obtain ⟨a, aid⟩ := e
      refine Follows.seq (write_queues rfl id) fun _ s1 h1 _ => ?_
      have hok1 := hok.steps h1
      refine Follows.seq (Q := fun _ _ => True) ?_ fun _ s2 h2 _ => ih (hok1.steps h2)
      unfold runRepeating
      refine Follows.get_seq (Follows.cond (fun _ => ?_) fun _ => Follows.ret trivial)
      refine Follows.seq (processStashedOutOfOrderCommits_writes env hok1 fuel) fun _ _ _ _ => ?_
      exact (write_queues rfl id).mono fun _ _ _ _ => trivial

theorem serviceActions_follows (hok : Ready D s) (fuel : ℕ) :
    Follows (ReplicaWrite env D) (serviceActions env fuel) s fun _ _ => True := by
  unfold serviceActions
  refine Follows.seq (write_queues rfl id) fun _ s1 h1 _ => Follows.get_seq ?_
  exact Follows.seq (runActions_follows (hok.steps h1) fuel _) fun _ _ _ _ => Follows.ret trivial

/-- **Servicing the queues of a replica is a run of such writes**, whatever it raises and however far its loops get. -/
theorem serviceQueues_writes (env : Env ω σ τ) (hok : Ready D s) (fuel : ℕ) (limit : Option ℕ) :
    Follows (ReplicaWrite env D) (serviceQueues env fuel limit) s fun _ _ => True := by
  unfold serviceQueues
  refine Follows.get_seq (Follows.seq (Q := fun _ _ => True)
    (Follows.cond (fun _ => dequeuePrePrepares_follows hok fuel) fun _ => Follows.ret trivial) fun r s1 h1 _ => ?_)
  have hok1 := hok.steps h1
  refine Follows.seq (handleAllSync_follows hok1 fuel limit) fun r1 s2 h2 _ => Follows.get_seq ?_
  have hok2 := hok1.steps h2
  refine Follows.seq (Q := fun _ _ => True) (Follows.cond (fun hp => send3PCBatch_follows hp.1) fun _ =>
    Follows.ret trivial) fun r2 s3 h3 _ => ?_
  exact Follows.seq (serviceActions_follows (hok2.steps h3) fuel) fun _ _ _ _ => Follows.ret trivial

/-- **Servicing the queues of a replica follows the ordering protocol.** -/
theorem serviceQueues_follows (env : Env ω σ τ) (hok : Ok D s) (fuel : ℕ) (limit : Option ℕ) :
    Follows (ReplicaStep D) (serviceQueues env fuel limit) s fun _ _ => True :=
  ⟨steps_of_writes (serviceQueues_writes env hok.ready fuel limit).steps, fun _ _ => trivial⟩

theorem processStashedOutOfOrderCommits_follows (env : Env ω σ τ) (hok : Ok D s) (fuel : ℕ) :
    Follows (ReplicaStep D) (processStashedOutOfOrderCommits env fuel) s fun _ _ => True :=
  ⟨steps_of_writes (processStashedOutOfOrderCommits_writes env hok.ready fuel).steps, fun _ _ => trivial⟩

/-! ## The start -/

/-- a new replica of a participating node is in a state in which the methods are run -/
theorem ok_init (env : Env ω σ τ) (node : Node ω σ τ) (hpart : node.isParticipating = true) (instId : ℕ)
    (isMaster : Bool) (primaryName : Option RepName) : Ok D (init env node instId isMaster primaryName) where
  held := by constructor <;> intro e he <;> cases he
  inOneView := ⟨hpart, rfl, rfl⟩

end Plenum.Replica
