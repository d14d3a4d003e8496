/-
Where the votes of a replica come from.

- `PreparedBy D pp j`: the replica knows a PREPARE of node `j` for its PRE-PREPARE `pp`, its own sent one or a delivered
  one. `CommittedBy D key j`: the same for COMMITs, which say nothing but the key.
- `Votes`: the invariant. The PRE-PREPAREs taken in have the keys 1, 2, ...; a backup got them from the primary; the
  PRE-PREPAREs and PREPAREs sent are about them; every vote counted is known, every COMMIT sent had a quorum of
  PREPAREs, every batch ordered had a quorum of COMMITs.
- `Votes.step`: every step of the ordering protocol keeps it.
-/
import Mathlib.Tactic
import Plenum.Core.Quorum
import Plenum.Server.InSequence

namespace Plenum

open Plenum.Core
open Relation (ReflTransGen)

variable {ω : Type}

namespace OrderingState

/-- a PREPARE of node `j` for `pp` that the replica has sent itself or got -/
def PreparedBy (c : OrderingState ω) (D : InMsg → Prop) (pp : PrePrepare) (j : NodeName) : Prop :=
  (j = c.cfg.name.node ∧ .threePhase (.prepare (pp.prepare c.cfg.instId)) ∈ c.outBox) ∨
    (c.cfg.primaryName ≠ some (generateName j c.cfg.instId) ∧ ∃ p, D (.threePhase (.prepare p) j) ∧ p.Matches pp)

/-- a COMMIT of node `j` for the batch `key` that the replica has sent itself or got -/
def CommittedBy (c : OrderingState ω) (D : InMsg → Prop) (key : TPCKey) (j : NodeName) : Prop :=
  (j = c.cfg.name.node ∧ ∃ cm, .threePhase (.commit cm) ∈ c.outBox ∧ cm.key = key) ∨
    ∃ cm, D (.threePhase (.commit cm) j) ∧ cm.key = key

/-- at least `q` nodes meet `P` -/
def Quorum (q : ℕ) (P : NodeName → Prop) : Prop := ∃ S : Finset NodeName, q ≤ S.card ∧ ∀ j ∈ S, P j

/-- a PREPARE of node `j` for some PRE-PREPARE of the batch that was taken in -/
def PreparedAt (c : OrderingState ω) (D : InMsg → Prop) (key : TPCKey) (j : NodeName) : Prop :=
  ∃ pp ∈ c.accepted, pp.key = key ∧ c.PreparedBy D pp j

end OrderingState

open OrderingState

theorem OrderingState.Quorum.mono {q : ℕ} {P P' : NodeName → Prop} (h : Quorum q P) (hP : ∀ j, P j → P' j) :
    Quorum q P' := by
  obtain ⟨S, hcard, hS⟩ := h
  exact ⟨S, hcard, fun j hj => hP j (hS j hj)⟩

structure Votes (i : NodeName) (D : InMsg → Prop) (c : OrderingState ω) : Prop where
  name : c.cfg.name = generateName i c.cfg.instId
  accepted : c.accepted.map PrePrepare.key = (List.range' 1 c.lastPrePrepareSeqNo).map fun p => (c.cfg.viewNo, p)
  held : ∀ key pp, c.Holds key pp → pp ∈ c.accepted
  received : c.cfg.primaryName ≠ some c.cfg.name → ∀ pp ∈ c.accepted, ∃ j,
    c.cfg.primaryName = some (generateName j c.cfg.instId) ∧ D (.threePhase (.prePrepare pp) j)
  prePrepares : ∀ pp, .threePhase (.prePrepare pp) ∈ c.outBox → pp ∈ c.accepted
  prepares : ∀ p, .threePhase (.prepare p) ∈ c.outBox →
    c.cfg.primaryName ≠ some c.cfg.name ∧ ∃ pp ∈ c.accepted, p = pp.prepare c.cfg.instId
  preparedBy : ∀ key, ∀ r ∈ c.prepares.voters key, ∃ j, r = generateName j c.cfg.instId ∧ c.PreparedAt D key j
  commits : ∀ cm, .threePhase (.commit cm) ∈ c.outBox → Quorum (2 * c.cfg.f) (c.PreparedAt D cm.key)
  committedBy : ∀ key, ∀ r ∈ c.commits.voters key, ∃ j, r = generateName j c.cfg.instId ∧ c.CommittedBy D key j
  ordered : ∀ o, .ordered o ∈ c.outBox →
    ∃ pp ∈ c.accepted, o = pp.toOrdered c.cfg.instId ∧ Quorum (2 * c.cfg.f + 1) (c.CommittedBy D pp.key)

namespace Votes

variable {i : NodeName} {D D' : InMsg → Prop} {c c' : OrderingState ω}

/-- one PRE-PREPARE of a batch is taken in -/
theorem unique (h : Votes i D c) {pp pp' : PrePrepare} (hpp : pp ∈ c.accepted) (hpp' : pp' ∈ c.accepted)
    (hkey : pp.key = pp'.key) : pp = pp' := by
  have hnodup : (c.accepted.map PrePrepare.key).Nodup := by
    rw [h.accepted]
    refine (List.nodup_range').map fun p q hpq => ?_
    exact congrArg Prod.snd hpq
  exact List.inj_on_of_nodup_map hnodup hpp hpp' hkey

/-- at the batch of `pp` every PREPARE known is for `pp` -/
theorem preparedBy_of_preparedAt (h : Votes i D c) {pp : PrePrepare} (hpp : pp ∈ c.accepted) {j : NodeName}
    (hj : c.PreparedAt D pp.key j) : c.PreparedBy D pp j := by
  obtain ⟨pp', hpp', hkey, hprep⟩ := hj
  rwa [h.unique hpp' hpp hkey] at hprep

/-- the replicas that voted make a quorum of nodes -/
theorem quorum_of_voters {q : ℕ} {instId : ℕ} {S : Finset RepName} {P : NodeName → Prop} (hcard : q ≤ S.card)
    (hS : ∀ r ∈ S, ∃ j, r = generateName j instId ∧ P j) : Quorum q P := by
  refine exists_quorum_of_injOn (g := RepName.node) hcard (fun r hr r' hr' hnode => ?_) fun r hr => ?_
  · obtain ⟨j, rfl, -⟩ := hS r hr
    obtain ⟨j', rfl, -⟩ := hS r' hr'
    exact congrArg (generateName · instId) hnode
  · obtain ⟨j, rfl, hj⟩ := hS r hr
    exact hj

/-- what is known stays known when more is sent, taken in and delivered -/
theorem preparedBy_mono (hcfg : c'.cfg = c.cfg) (hout : c.outBox ⊆ c'.outBox) (hD : ∀ m, D m → D' m) {pp : PrePrepare}
    {j : NodeName} (h : c.PreparedBy D pp j) : c'.PreparedBy D' pp j := by
  unfold PreparedBy
  rw [hcfg]
  rcases h with ⟨hj, hm⟩ | ⟨hj, p, hp, hmatch⟩
  · exact Or.inl ⟨hj, hout hm⟩
  · exact Or.inr ⟨hj, p, hD _ hp, hmatch⟩

theorem preparedAt_mono (hcfg : c'.cfg = c.cfg) (hout : c.outBox ⊆ c'.outBox) (hacc : c.accepted ⊆ c'.accepted)
    (hD : ∀ m, D m → D' m) {key : TPCKey} {j : NodeName} (h : c.PreparedAt D key j) : c'.PreparedAt D' key j := by
  obtain ⟨pp, hpp, hkey, hprep⟩ := h
  exact ⟨pp, hacc hpp, hkey, preparedBy_mono hcfg hout hD hprep⟩

theorem committedBy_mono (hcfg : c'.cfg = c.cfg) (hout : c.outBox ⊆ c'.outBox) (hD : ∀ m, D m → D' m) {key : TPCKey}
    {j : NodeName} (h : c.CommittedBy D key j) : c'.CommittedBy D' key j := by
  unfold CommittedBy
  rw [hcfg]
  rcases h with ⟨hj, cm, hcm, hkey⟩ | ⟨cm, hcm, hkey⟩
  · exact Or.inl ⟨hj, cm, hout hcm, hkey⟩
  · exact Or.inr ⟨cm, hD _ hcm, hkey⟩

/-- more messages are delivered -/
theorem deliver (h : Votes i D c) (hD : ∀ m, D m → D' m) : Votes i D' c where
  name := h.name
  accepted := h.accepted
  held := h.held
  received hbackup pp hpp := by
    obtain ⟨j, hj, hm⟩ := h.received hbackup pp hpp
    exact ⟨j, hj, hD _ hm⟩
  prePrepares := h.prePrepares
  prepares := h.prepares
  preparedBy key r hr := by
    obtain ⟨j, hj, hm⟩ := h.preparedBy key r hr
    exact ⟨j, hj, preparedAt_mono rfl (fun _ => id) (fun _ => id) hD hm⟩
  commits cm hcm := (h.commits cm hcm).mono fun _ => preparedAt_mono rfl (fun _ => id) (fun _ => id) hD
  committedBy key r hr := by
    obtain ⟨j, hj, hm⟩ := h.committedBy key r hr
    exact ⟨j, hj, committedBy_mono rfl (fun _ => id) hD hm⟩
  ordered o ho := by
    obtain ⟨pp, hpp, he, hq⟩ := h.ordered o ho
    exact ⟨pp, hpp, he, hq.mono fun _ => committedBy_mono rfl (fun _ => id) hD⟩

/-- a step that takes no PRE-PREPARE in keeps the invariant if what it sends, holds and counts is justified -/
theorem of_same (h : Votes i D c) (hcfg : c'.cfg = c.cfg) (hacc : c'.accepted = c.accepted)
    (hlast : c'.lastPrePrepareSeqNo = c.lastPrePrepareSeqNo) (hheld : ∀ key pp, c'.Holds key pp → c.Holds key pp)
    (ms : List OutMsg) (hout : c'.outBox = c.outBox ++ ms)
    (hprePrepares : ∀ pp, .threePhase (.prePrepare pp) ∉ ms)
    (hprepares : ∀ p, .threePhase (.prepare p) ∈ ms →
      c.cfg.primaryName ≠ some c.cfg.name ∧ ∃ pp ∈ c.accepted, p = pp.prepare c.cfg.instId)
    (hpreparedBy : ∀ key, ∀ r ∈ c'.prepares.voters key, r ∈ c.prepares.voters key ∨
      ∃ j, r = generateName j c.cfg.instId ∧ c.PreparedAt D key j)
    (hcommits : ∀ cm, .threePhase (.commit cm) ∈ ms → Quorum (2 * c.cfg.f) (c.PreparedAt D cm.key))
    (hcommittedBy : ∀ key, ∀ r ∈ c'.commits.voters key, r ∈ c.commits.voters key ∨
      ∃ j, r = generateName j c.cfg.instId ∧ c.CommittedBy D key j)
    (hordered : ∀ o, .ordered o ∈ ms →
      ∃ pp ∈ c.accepted, o = pp.toOrdered c.cfg.instId ∧ Quorum (2 * c.cfg.f + 1) (c.CommittedBy D pp.key)) :
    Votes i D c' := by
  have hsub : c.outBox ⊆ c'.outBox := by
    rw [hout]
    exact List.subset_append_left _ _
  have hsub' : c.accepted ⊆ c'.accepted := by rw [hacc]; exact List.Subset.refl _
  have hmem : ∀ {m}, m ∈ c'.outBox → m ∈ c.outBox ∨ m ∈ ms := by
    intro m hm
    rw [hout] at hm
    exact List.mem_append.1 hm
  have hAt : ∀ key j, c.PreparedAt D key j → c'.PreparedAt D key j := fun _ _ =>
    preparedAt_mono hcfg hsub hsub' fun _ => id
  have hBy : ∀ key j, c.CommittedBy D key j → c'.CommittedBy D key j := fun _ _ =>
    committedBy_mono hcfg hsub fun _ => id
  refine ⟨?_, ?_, ?_, ?_, ?_, ?_, ?_, ?_, ?_, ?_⟩
  · rw [hcfg]; exact h.name
  · rw [hacc, hlast, hcfg]; exact h.accepted
  · rw [hacc]; exact fun key pp hh => h.held key pp (hheld key pp hh)
  · rw [hcfg, hacc]; exact h.received
  · intro pp hpp
    rw [hacc]
    rcases hmem hpp with hpp | hpp
    · exact h.prePrepares pp hpp
    · exact absurd hpp (hprePrepares pp)
  · intro p hp
    rw [hcfg, hacc]
    rcases hmem hp with hp | hp
    · exact h.prepares p hp
    · exact hprepares p hp
  · intro key r hr
    rw [hcfg]
    rcases hpreparedBy key r hr with hr | ⟨j, hj, hm⟩
    · obtain ⟨j, hj, hm⟩ := h.preparedBy key r hr
      exact ⟨j, hj, hAt key j hm⟩
    · exact ⟨j, hj, hAt key j hm⟩
  · intro cm hcm
    rw [hcfg]
    rcases hmem hcm with hcm | hcm
    · exact (h.commits cm hcm).mono (hAt cm.key)
    · exact (hcommits cm hcm).mono (hAt cm.key)
  · intro key r hr
    rw [hcfg]
    rcases hcommittedBy key r hr with hr | ⟨j, hj, hm⟩
    · obtain ⟨j, hj, hm⟩ := h.committedBy key r hr
      exact ⟨j, hj, hBy key j hm⟩
    · exact ⟨j, hj, hBy key j hm⟩
  · intro o ho
    rw [hcfg, hacc]
    have hold : ∃ pp ∈ c.accepted, o = pp.toOrdered c.cfg.instId ∧ Quorum (2 * c.cfg.f + 1) (c.CommittedBy D pp.key) := by
      rcases hmem ho with ho | ho
      · exact h.ordered o ho
      · exact hordered o ho
    obtain ⟨pp, hpp, he, hq⟩ := hold
    exact ⟨pp, hpp, he, hq.mono (hBy pp.key)⟩

/-- a PRE-PREPARE taken in next keeps the invariant -/
theorem of_added (h : Votes i D c) {pp : PrePrepare} (hcfg : c'.cfg = c.cfg) (hacc : c'.accepted = c.accepted ++ [pp])
    (hlast : c'.lastPrePrepareSeqNo = c.lastPrePrepareSeqNo + 1)
    (hkey : pp.key = (c.cfg.viewNo, c.lastPrePrepareSeqNo + 1))
    (hheld : ∀ key pp', c'.Holds key pp' → pp' = pp ∨ c.Holds key pp') (ms : List OutMsg)
    (hout : c'.outBox = c.outBox ++ ms)
    (hms : ∀ m ∈ ms, m = .threePhase (.prePrepare pp) ∨ ∃ r, m = .reject r)
    (hreceived : c.cfg.primaryName ≠ some c.cfg.name → ∃ j,
      c.cfg.primaryName = some (generateName j c.cfg.instId) ∧ D (.threePhase (.prePrepare pp) j))
    (hprepares : c'.prepares = c.prepares) (hcommits : c'.commits = c.commits) : Votes i D c' := by
  have hsub : c.outBox ⊆ c'.outBox := by
    rw [hout]
    exact List.subset_append_left _ _
  have hsub' : c.accepted ⊆ c'.accepted := by
    rw [hacc]
    exact List.subset_append_left _ _
  have hmem : ∀ {m}, m ∈ c'.outBox → m ∈ c.outBox ∨ m = .threePhase (.prePrepare pp) ∨ ∃ r, m = .reject r := by
    intro m hm
    rw [hout] at hm
    exact (List.mem_append.1 hm).imp id (hms m)
  have hAt : ∀ key j, c.PreparedAt D key j → c'.PreparedAt D key j := fun _ _ =>
    preparedAt_mono hcfg hsub hsub' fun _ => id
  have hBy : ∀ key j, c.CommittedBy D key j → c'.CommittedBy D key j := fun _ _ =>
    committedBy_mono hcfg hsub fun _ => id
  have hnew : pp ∈ c'.accepted := by
    rw [hacc]
    exact List.mem_append_right _ (List.mem_singleton.2 rfl)
  refine ⟨?_, ?_, ?_, ?_, ?_, ?_, ?_, ?_, ?_, ?_⟩
  · rw [hcfg]; exact h.name
  · rw [hacc, hlast, hcfg, List.map_append, h.accepted, List.range'_concat, List.map_append, List.map_singleton,
      List.map_singleton, hkey, Nat.one_mul, Nat.add_comm 1]
  · intro key pp' hh
    rcases hheld key pp' hh with rfl | hh
    · exact hnew
    · exact hsub' (h.held key pp' hh)
  · rw [hcfg, hacc]
    intro hbackup pp' hpp'
    rcases List.mem_append.1 hpp' with hpp' | hpp'
    · exact h.received hbackup pp' hpp'
    · rw [List.mem_singleton.1 hpp']
      exact hreceived hbackup
  · intro pp' hpp'
    rcases hmem hpp' with hpp' | hpp' | ⟨r, hr⟩
    · exact hsub' (h.prePrepares pp' hpp')
    · cases hpp'; exact hnew
    · cases hr
  · intro p hp
    rw [hcfg]
    rcases hmem hp with hp | hp | ⟨r, hr⟩
    · obtain ⟨hb, pp', hpp', he⟩ := h.prepares p hp
      exact ⟨hb, pp', hsub' hpp', he⟩
    · cases hp
    · cases hr
  · intro key r hr
    rw [hprepares] at hr
    rw [hcfg]
    obtain ⟨j, hj, hm⟩ := h.preparedBy key r hr
    exact ⟨j, hj, hAt key j hm⟩
  · intro cm hcm
    rw [hcfg]
    rcases hmem hcm with hcm | hcm | ⟨r, hr⟩
    · exact (h.commits cm hcm).mono (hAt cm.key)
    · cases hcm
    · cases hr
  · intro key r hr
    rw [hcommits] at hr
    rw [hcfg]
    obtain ⟨j, hj, hm⟩ := h.committedBy key r hr
    exact ⟨j, hj, hBy key j hm⟩
  · intro o ho
    rw [hcfg]
    rcases hmem ho with ho | ho | ⟨r, hr⟩
    · obtain ⟨pp', hpp', he, hq⟩ := h.ordered o ho
      exact ⟨pp', hsub' hpp', he, hq.mono (hBy pp'.key)⟩
    · cases ho
    · cases hr

/-- a step that neither takes PRE-PREPAREs in nor votes, and sends no vote and no batch -/
theorem of_quiet (h : Votes i D c) (hcfg : c'.cfg = c.cfg) (hacc : c'.accepted = c.accepted)
    (hlast : c'.lastPrePrepareSeqNo = c.lastPrePrepareSeqNo) (hheld : ∀ key pp, c'.Holds key pp → c.Holds key pp)
    (ms : List OutMsg) (hout : c'.outBox = c.outBox ++ ms)
    (hms : ∀ m ∈ ms, (∃ r, m = .reject r) ∨ ∃ ck, m = .checkpoint ck)
    (hprepares : ∀ key, c'.prepares.voters key ⊆ c.prepares.voters key)
    (hcommits : ∀ key, c'.commits.voters key ⊆ c.commits.voters key) : Votes i D c' := by
  have hno : ∀ m ∈ ms, ∀ m', m ≠ .threePhase m' := by
    intro m hm m' he
    rcases hms m hm with ⟨r, rfl⟩ | ⟨ck, rfl⟩ <;> cases he
  refine h.of_same hcfg hacc hlast hheld ms hout (fun pp hm => hno _ hm _ rfl) (fun p hm => absurd rfl (hno _ hm _))
    (fun key r hr => Or.inl (hprepares key hr)) (fun cm hm => absurd rfl (hno _ hm _))
    (fun key r hr => Or.inl (hcommits key hr)) fun o hm => ?_
  rcases hms _ hm with ⟨r, hr⟩ | ⟨ck, hck⟩
  · cases hr
  · cases hck

/-- **Every step keeps the invariant.** -/
theorem step (h : Votes i D c) (hseq : InSequence c) (hs : OrderingStep D c c') : Votes i D c' := by
  have hnil : ∀ m ∈ ([] : List OutMsg), (∃ r, m = .reject r) ∨ ∃ ck, m = .checkpoint ck := by
    intro m hm
    cases hm
  cases hs with
  | popInBox =>
    exact h.of_quiet rfl rfl rfl (fun _ _ => id) [] (List.append_nil _).symm hnil (fun _ _ => id) fun _ _ => id
  | readyFor3PC =>
    exact h.of_quiet rfl rfl rfl (fun _ _ => id) [] (List.append_nil _).symm hnil (fun _ _ => id) fun _ _ => id
  | dropKeys =>
    exact h.of_quiet rfl rfl rfl (fun _ _ => id) [] (List.append_nil _).symm hnil (fun _ _ => id) fun _ _ => id
  | sendPrePrepare pp rejects hprimary _ _ _ hview hno =>
    refine h.of_added rfl rfl hno (Prod.ext hview hno) (fun key pp' hh => ?_)
      (rejects.map OutMsg.reject ++ [.threePhase (.prePrepare pp)]) (List.append_assoc _ _ _) (fun m hm => ?_)
      (fun hbackup => absurd hprimary hbackup) rfl rfl
    · rcases hh with hh | hh
      · rw [PrePrepareLog.get?_add] at hh
        split_ifs at hh
        · exact Or.inl (Option.some.inj hh).symm
        · exact Or.inr (Or.inl hh)
      · exact Or.inr (Or.inr hh)
    · rcases List.mem_append.1 hm with hm | hm
      · obtain ⟨r, -, rfl⟩ := List.mem_map.1 hm
        exact Or.inr ⟨r, rfl⟩
      · exact Or.inl (List.mem_singleton.1 hm)
  | acceptPrePrepare pp sender hD hfrom _ hview hnext _ =>
    have hno := hseq.isNext hnext
    refine h.of_added rfl rfl ?_ (Prod.ext hview hno) (fun key pp' hh => ?_) [] (List.append_nil _).symm
      (fun m hm => by cases hm) (fun _ => ⟨sender, hfrom, hD⟩) rfl rfl
    · rw [hno]
      exact max_eq_right (Nat.le_succ _)
    · rcases hh with hh | hh
      · exact Or.inr (Or.inl hh)
      · rw [PrePrepareLog.get?_add] at hh
        split_ifs at hh
        · exact Or.inl (Option.some.inj hh).symm
        · exact Or.inr (Or.inr hh)
  | sendRejects rejects =>
    refine h.of_quiet rfl rfl rfl (fun _ _ => id) _ rfl (fun m hm => ?_) (fun _ _ => id) fun _ _ => id
    obtain ⟨r, -, rfl⟩ := List.mem_map.1 hm
    exact Or.inl ⟨r, rfl⟩
  | sendPrepare pp hacc hbackup =>
    refine h.of_same rfl rfl rfl (fun _ _ => id) _ rfl (fun pp' hm => ?_) (fun p hm => ?_) (fun _ _ => Or.inl)
      (fun cm hm => ?_) (fun _ _ => Or.inl) fun o hm => ?_
    · cases List.mem_singleton.1 hm
    · cases List.mem_singleton.1 hm
      exact ⟨hbackup, pp, hacc, rfl⟩
    · cases List.mem_singleton.1 hm
    · cases List.mem_singleton.1 hm
  | ownPrepare p hsent =>
    obtain ⟨-, pp, hpp, rfl⟩ := h.prepares p hsent
    refine h.of_same rfl rfl rfl (fun _ _ => id) [] (List.append_nil _).symm (fun _ hm => by cases hm)
      (fun _ hm => by cases hm) (fun key r hr => ?_) (fun _ hm => by cases hm) (fun _ _ => Or.inl) fun _ hm => by cases hm
    rcases TrackedMsgs.mem_voters_addMsg.1 hr with ⟨rfl, rfl⟩ | hr
    · refine Or.inr ⟨i, h.name, pp, hpp, rfl, Or.inl ⟨?_, hsent⟩⟩
      rw [h.name]
      rfl
    · exact Or.inl hr
  | receivePrepare p pp sender hD hfrom hholds hmatch =>
    refine h.of_same rfl rfl rfl (fun _ _ => id) [] (List.append_nil _).symm (fun _ hm => by cases hm)
      (fun _ hm => by cases hm) (fun key r hr => ?_) (fun _ hm => by cases hm) (fun _ _ => Or.inl) fun _ hm => by cases hm
    rcases TrackedMsgs.mem_voters_addMsg.1 hr with ⟨rfl, rfl⟩ | hr
    · exact Or.inr ⟨sender, rfl, pp, h.held _ _ hholds, hholds.key_eq, Or.inr ⟨hfrom, p, hD, hmatch⟩⟩
    · exact Or.inl hr
  | sendCommit cm hquorum =>
    refine h.of_same rfl rfl rfl (fun _ _ => id) _ rfl (fun pp' hm => ?_) (fun p hm => ?_) (fun _ _ => Or.inl)
      (fun cm' hm => ?_) (fun _ _ => Or.inl) fun o hm => ?_
    · cases List.mem_singleton.1 hm
    · cases List.mem_singleton.1 hm
    · cases List.mem_singleton.1 hm
      exact quorum_of_voters (TrackedMsgs.card_of_hasEnoughVotes hquorum) (h.preparedBy cm.key)
    · cases List.mem_singleton.1 hm
  | ownCommit cm hsent =>
    refine h.of_same rfl rfl rfl (fun _ _ => id) [] (List.append_nil _).symm (fun _ hm => by cases hm)
      (fun _ hm => by cases hm) (fun _ _ => Or.inl) (fun _ hm => by cases hm) (fun key r hr => ?_) fun _ hm => by cases hm
    rcases TrackedMsgs.mem_voters_addMsg.1 hr with ⟨rfl, rfl⟩ | hr
    · refine Or.inr ⟨i, h.name, Or.inl ⟨?_, cm, hsent, rfl⟩⟩
      rw [h.name]
      rfl
    · exact Or.inl hr
  | receiveCommit cm sender hD =>
    refine h.of_same rfl rfl rfl (fun _ _ => id) [] (List.append_nil _).symm (fun _ hm => by cases hm)
      (fun _ hm => by cases hm) (fun _ _ => Or.inl) (fun _ hm => by cases hm) (fun key r hr => ?_) fun _ hm => by cases hm
    rcases TrackedMsgs.mem_voters_addMsg.1 hr with ⟨rfl, rfl⟩ | hr
    · exact Or.inr ⟨sender, rfl, Or.inr ⟨cm, hD, rfl⟩⟩
    · exact Or.inl hr
  | order key pp hpp hquorum _ _ =>
    refine h.of_same rfl rfl rfl (fun _ _ => id) _ rfl (fun pp' hm => ?_) (fun p hm => ?_) (fun _ _ => Or.inl)
      (fun cm hm => ?_) (fun _ _ => Or.inl) fun o hm => ?_
    · cases List.mem_singleton.1 hm
    · cases List.mem_singleton.1 hm
    · cases List.mem_singleton.1 hm
    · cases List.mem_singleton.1 hm
      refine ⟨pp, h.held _ _ hpp, rfl, ?_⟩
      rw [hpp.key_eq]
      exact quorum_of_voters (TrackedMsgs.card_of_hasEnoughVotes hquorum) (h.committedBy key)
  | checkpoint cks msgs _ =>
    refine h.of_quiet rfl rfl rfl (fun _ _ => id) _ rfl (fun m hm => ?_) (fun _ _ => id) fun _ _ => id
    obtain ⟨ck, -, rfl⟩ := List.mem_map.1 hm
    exact Or.inr ⟨ck, rfl⟩
  | stabilise cks seqNo keys _ _ _ =>
    refine h.of_quiet rfl rfl rfl (fun key pp hh => ?_) [] (List.append_nil _).symm hnil (fun key => ?_) fun key => ?_
    · simp only [OrderingState.Holds, PrePrepareLog.get?_eraseAll] at hh
      by_cases hk : key ∈ keys
      · simp [hk] at hh
      · simp only [hk, if_false] at hh
        exact hh
    · change TrackedMsgs.voters (Dict.eraseAll c.prepares keys) key ⊆ _
      rw [TrackedMsgs.voters_eraseAll]
      split_ifs
      · exact Finset.empty_subset _
      · exact Finset.Subset.refl _
    · change TrackedMsgs.voters (Dict.eraseAll c.commits keys) key ⊆ _
      rw [TrackedMsgs.voters_eraseAll]
      split_ifs
      · exact Finset.empty_subset _
      · exact Finset.Subset.refl _
  | releaseRequest =>
    exact h.of_quiet rfl rfl rfl (fun _ _ => id) [] (List.append_nil _).symm hnil (fun _ _ => id) fun _ _ => id

/-- every run of the protocol keeps the invariant -/
theorem steps (h : Votes i D c) (hseq : InSequence c) (hs : ReflTransGen (OrderingStep D) c c') : Votes i D c' :=
  (stable_of_steps (I := fun c => InSequence c ∧ Votes i D c)
    (fun _ _ hstep h => ⟨h.1.step hstep, h.2.step h.1 hstep⟩) hs ⟨hseq, h⟩).2

end Votes

/-! ## Runs of one replica -/

variable {σ τ : Type}

theorem RunningReplica.emitted_subset_input {D : InMsg → Prop} (env : Env ω σ τ) {r : RunningReplica ω σ τ}
    (hok : Replica.Ok D r.replica) (i : ReplicaInput ω σ τ) (hD : ∀ m, i = .receive m → D m) :
    r.emitted ⊆ (r.input env i).emitted := by
  obtain ⟨-, hsteps⟩ := input_steps env hok i hD
  obtain ⟨inBox, requests, he⟩ := i.arrive_eq r.history
  rw [he] at hsteps
  have hpre : r.emitted <+: (r.input env i).history.outBox :=
    stable_of_steps (I := fun c : OrderingState ω => r.emitted <+: c.outBox)
      (fun _ _ hstep h => h.trans hstep.outBox_prefix) hsteps List.prefix_rfl
  exact hpre.subset

/-- every input to the node itself keeps its invariant, apart from where its messages came from -/
theorem RunningReplica.votes_input {D : InMsg → Prop} (env : Env ω σ τ) {r : RunningReplica ω σ τ} {n : NodeName}
    (hinv : r.Inv D) (hvotes : Votes n D r.history) (i : ReplicaInput ω σ τ) (hD : ∀ m, i = .receive m → D m) :
    Votes n D (r.input env i).history ∧ (r.input env i).history.cfg = r.history.cfg := by
  obtain ⟨-, hsteps⟩ := input_steps env hinv.ok i hD
  obtain ⟨inBox, requests, he⟩ := i.arrive_eq r.history
  have hseq' := hinv.inSequence.arrive i
  rw [he] at hsteps hseq'
  have hvotes' : Votes n D { r.history with inBox := inBox, requests := requests } :=
    hvotes.of_quiet rfl rfl rfl (fun _ _ => id) [] (List.append_nil _).symm (fun _ hm => by cases hm)
      (fun _ _ => id) fun _ _ => id
  refine ⟨hvotes'.steps hseq' hsteps, ?_⟩
  exact stable_of_steps (I := fun c : OrderingState ω => c.cfg = r.history.cfg)
    (fun _ _ hstep h => hstep.cfg_eq.trans h) hsteps rfl

theorem RunningReplica.votes_init (D : InMsg → Prop) (env : Env ω σ τ) (node : Node ω σ τ) {n : NodeName}
    (hname : node.name = n) (instId : ℕ) (isMaster : Bool) (primaryName : Option RepName) :
    Votes n D (⟨Replica.init env node instId isMaster primaryName, []⟩ : RunningReplica ω σ τ).history where
  name := congrArg (generateName · instId) hname
  accepted := rfl
  held key pp hh := by rcases hh with hh | hh <;> cases hh
  received _ pp hpp := absurd hpp List.not_mem_nil
  prePrepares pp hpp := absurd hpp List.not_mem_nil
  prepares p hp := absurd hp List.not_mem_nil
  preparedBy key r hr := absurd hr (Finset.notMem_empty r)
  commits cm hcm := absurd hcm List.not_mem_nil
  committedBy key r hr := absurd hr (Finset.notMem_empty r)
  ordered o ho := absurd ho List.not_mem_nil

end Plenum
