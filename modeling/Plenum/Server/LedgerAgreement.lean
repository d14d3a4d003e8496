/-
Ledgers agree within a view: a pool of `3f + 1` nodes of which at most `f` are byzantine, where the correct nodes propagate
requests, run all their replicas and execute batches. None of them catches up.

- `NodesPool`, `RunningPool`, `RunningPool.step`: a message of a correct node reaches anyone, any number of times and at
  any time after it was sent; a byzantine node has anything reach anyone; clients send what they like to whom they like.
- `Tracks P i c v`: what node `i` does for the master instance is what its replica does in the pool `v` of replicas.
- `RunningPool.simulated`: so every run of the nodes is, for the master instance, a run of that pool.
- `ledger_agreement`: correct nodes that executed a batch of the same number executed the same batch, and up to it their
  ledgers are the same.
- `ledger_backed`: a transaction on the ledger of a correct node was made of a request that another correct node has
  broadcast, also with a byzantine primary.
-/
import Mathlib.Tactic
import Plenum.Server.NodeLedgers
import Plenum.Server.TotalOrder

namespace Plenum

open Plenum.Core
open Relation (ReflTransGen)

variable {ω σ τ : Type}

/-! ## The pool -/

/-- a pool whose nodes have no requests yet, and the primaries of the backup instances -/
structure NodesPool (ω σ τ : Type) extends Pool ω σ τ where
  requests_eq : ∀ i ∈ names, (nodes i).requests = Dict.empty
  backupPrimaries : List RepName

structure RunningPool (ω σ τ : Type) where
  nodes : NodeName → RunningNode ω σ τ

namespace RunningPool

def init (env : NodeEnv ω σ τ) (P : NodesPool ω σ τ) : RunningPool ω σ τ where
  nodes i := RunningNode.init env (P.nodes i) (some (generateName P.primary 0) :: P.backupPrimaries.map some)

variable [DecidableEq ω]

/-- a message of another node can arrive if that node has sent it, or is byzantine -/
def canArrive (P : NodesPool ω σ τ) (w : RunningPool ω σ τ) (i : NodeName) : NodeInput ω → Bool
  | .nodeMsg m j => decide (j ∈ P.names ∧ j ≠ i ∧ (j ∈ P.byzantine ∨ m ∈ (w.nodes j).sent))
  | _ => true

/-- one input to one correct node -/
def step (env : NodeEnv ω σ τ) (P : NodesPool ω σ τ) (w : RunningPool ω σ τ) (e : NodeName × NodeInput ω) :
    Option (RunningPool ω σ τ) :=
  if e.1 ∈ P.correct ∧ w.canArrive P e.1 e.2 then
    some ⟨Function.update w.nodes e.1 ((w.nodes e.1).input env e.2)⟩
  else none

end RunningPool

/-! ## What a node does for the master instance -/

/-- what a message to other nodes says in the outbox of a replica -/
def NodeMsg.out? : NodeMsg ω → Option OutMsg
  | .propagate _ _ => none
  | .threePhase m => some (.threePhase m)
  | .checkpoint c => some (.checkpoint c)

theorem SentFor.out?_eq {m : OutMsg} {x : NodeMsg ω} (h : SentFor m x) : x.out? = some m := by cases h <;> rfl

/-- a message to other nodes is of one instance -/
theorem OutMsg.IsOf.unique {idx idx' : ℕ} {m : OutMsg} {x : NodeMsg ω} (hx : x.out? = some m) (h : m.IsOf idx)
    (h' : m.IsOf idx') : idx = idx' := by
  cases x with
  | propagate req client => cases hx
  | threePhase m =>
    cases hx
    cases m <;> exact h.symm.trans h'
  | checkpoint c =>
    cases hx
    exact h.symm.trans h'

/-- the core `c` of node `i` has the replica of the pool `v` as its master -/
structure Tracks (P : Pool ω σ τ) (i : NodeName) (c : NodeCore ω σ τ) (v : PoolWorld ω σ τ) : Prop where
  replica : c.replicas[0]? = some (v.replicas i)
  isOf : ∀ (idx : ℕ) r, c.replicas[idx]? = some r → r.IsOf idx
  msgs : ∀ ms, c.msgsToReplicas[0]? = some ms → ∀ m ∈ ms, v.canArrive P i m
  sent : ∀ x ∈ c.sent, ∀ m, x.out? = some m → m.IsOf 0 → m ∈ (v.replicas i).emitted
  processed : ∀ e ∈ c.processed, e.1.instId = 0 → .ordered e.1 ∈ (v.replicas i).emitted

namespace PoolWorld

variable {env : Env ω σ τ} {P : Pool ω σ τ} {v v' : PoolWorld ω σ τ} {i : NodeName}

/-- an input to a replica leaves the other replicas as they are, and what was emitted -/
structure Extends (i : NodeName) (v v' : PoolWorld ω σ τ) : Prop where
  others : ∀ j, j ≠ i → v'.replicas j = v.replicas j
  emitted : ∀ j, (v.replicas j).emitted ⊆ (v'.replicas j).emitted

theorem Extends.refl (i : NodeName) (v : PoolWorld ω σ τ) : Extends i v v :=
  ⟨fun _ _ => rfl, fun _ => List.Subset.refl _⟩

theorem Extends.trans {v'' : PoolWorld ω σ τ} (h : Extends i v v') (h' : Extends i v' v'') : Extends i v v'' :=
  ⟨fun j hj => (h'.others j hj).trans (h.others j hj), fun j => List.Subset.trans (h.emitted j) (h'.emitted j)⟩

theorem canArrive_mono (hsent : ∀ j, (v.replicas j).emitted ⊆ (v'.replicas j).emitted) {m : InMsg}
    (h : v.canArrive P i m) : v'.canArrive P i m := by
  cases m with
  | reqKey k => rfl
  | threePhase m j =>
    obtain ⟨h1, h2, h3⟩ := of_decide_eq_true h
    exact decide_eq_true ⟨h1, h2, h3.imp id fun hm => hsent j hm⟩
  | checkpoint ck j =>
    obtain ⟨h1, h2, h3⟩ := of_decide_eq_true h
    exact decide_eq_true ⟨h1, h2, h3.imp id fun hm => hsent j hm⟩

/-- a correct replica takes an input -/
theorem exists_step (hi : i ∈ P.correct) {x : ReplicaInput ω σ τ} (hx : v.isEnabled P i x) :
    ∃ v', v.step env P (i, x) = some v' ∧
      v'.replicas = Function.update v.replicas i ((v.replicas i).input env x) := by
  unfold PoolWorld.step
  rw [if_pos ⟨hi, hx⟩]
  exact ⟨_, rfl, rfl⟩

end PoolWorld

namespace Tracks

open PoolWorld

variable {env : Env ω σ τ} {P : Pool ω σ τ} {i : NodeName} {c c' : NodeCore ω σ τ} {v₀ v v' : PoolWorld ω σ τ}

/-- a run of the pool of replicas, in which only `i` has done something since `v₀`, that `c` tracks -/
def After (env : Env ω σ τ) (P : Pool ω σ τ) (i : NodeName) (v₀ : PoolWorld ω σ τ) (c : NodeCore ω σ τ) : Prop :=
  ∃ v, Reach (PoolWorld.step env P) (fun _ _ _ => True) v₀ v ∧ Extends i v₀ v ∧ Tracks P i c v

/-- an input to the master replica, which the pool follows; the queue of its messages may become shorter, and the
histories grow by what the replica has emitted -/
theorem After.master (hv : Reach (PoolWorld.step env P) (fun _ _ _ => True) v₀ v) (hv₀ : Extends i v₀ v)
    (h : Tracks P i c v) (hi : i ∈ P.correct) {x : ReplicaInput ω σ τ} (hx : v.isEnabled P i x)
    {r : RunningReplica ω σ τ} (hr : c.replicas[0]? = some r)
    (hreplicas : c'.replicas = c.replicas.set 0 (r.input env x))
    (hmsgs : ∀ ms', c'.msgsToReplicas[0]? = some ms' → ∃ ms, c.msgsToReplicas[0]? = some ms ∧ ∀ m ∈ ms', m ∈ ms)
    (hsent : ∀ m' ∈ c'.sent, m' ∈ c.sent ∨ ∀ m, m'.out? = some m → m ∈ r.emitted)
    (hprocessed : ∀ e ∈ c'.processed, e ∈ c.processed ∨ .ordered e.1 ∈ r.emitted) :
    After env P i v₀ c' := by
  obtain rfl : v.replicas i = r := Option.some.inj (h.replica.symm.trans hr)
  obtain ⟨hof, hemitted⟩ := (h.isOf 0 _ h.replica).input env x
  obtain ⟨v', hs, hv'⟩ : ∃ v', v.step env P (i, x) = some v' ∧
      v'.replicas = Function.update v.replicas i ((v.replicas i).input env x) := exists_step hi hx
  have hself : v'.replicas i = (v.replicas i).input env x := by rw [hv', Function.update_self]
  have hext : Extends i v v' := by
    refine ⟨fun j hj => by rw [hv', Function.update_of_ne hj], fun j => ?_⟩
    by_cases hj : j = i
    · rw [hj, hself]
      exact hemitted
    · rw [hv', Function.update_of_ne hj]
      exact List.Subset.refl _
  refine ⟨v', hv.step hs trivial, hv₀.trans hext, ⟨?_, fun idx q hq => ?_, fun ms' hms' m hm => ?_,
    fun m' hm' m hout hm => ?_, fun e he hinst => ?_⟩⟩
  · rw [hreplicas, hself, List.getElem?_set_self (List.getElem?_eq_some_iff.1 h.replica).1]
  · rw [hreplicas, List.getElem?_set] at hq
    split_ifs at hq with hidx
    · cases hq
      exact hidx ▸ hof
    · exact h.isOf idx q hq
  · obtain ⟨ms, hms, hsub⟩ := hmsgs ms' hms'
    exact canArrive_mono hext.emitted (h.msgs ms hms m (hsub m hm))
  · refine hext.emitted i ?_
    rcases hsent m' hm' with hmem | hmem
    · exact h.sent m' hmem m hout hm
    · exact hmem m hout
  · refine hext.emitted i ?_
    rcases hprocessed e he with hmem | hmem
    · exact h.processed e hmem hinst
    · exact hmem

/-- an input to another replica -/
theorem backup (h : Tracks P i c v) {idx : ℕ} (hidx : idx ≠ 0) {x : ReplicaInput ω σ τ} {r : RunningReplica ω σ τ}
    (hr : c.replicas[idx]? = some r) (hreplicas : c'.replicas = c.replicas.set idx (r.input env x))
    (hmsgs : c'.msgsToReplicas[0]? = c.msgsToReplicas[0]?)
    (hsent : ∀ m' ∈ c'.sent, m' ∈ c.sent ∨ ∀ m, m'.out? = some m → m ∈ r.emitted)
    (hprocessed : ∀ e ∈ c'.processed, e ∈ c.processed ∨ .ordered e.1 ∈ r.emitted) : Tracks P i c' v where
  replica := by rw [hreplicas, List.getElem?_set_ne hidx]; exact h.replica
  isOf j q hq := by
    rw [hreplicas, List.getElem?_set] at hq
    split_ifs at hq with hj
    · cases hq
      exact hj ▸ ((h.isOf idx r hr).input env x).1
    · exact h.isOf j q hq
  msgs ms hms := h.msgs ms (hmsgs ▸ hms)
  sent m' hm' m hout hm := by
    rcases hsent m' hm' with hmem | hmem
    · exact h.sent m' hmem m hout hm
    · -- what a backup emits is not of the master instance
      exact absurd (OutMsg.IsOf.unique hout ((h.isOf idx r hr).emitted m (hmem m hout)) hm) hidx
  processed e he hinst := by
    rcases hprocessed e he with hmem | hmem
    · exact h.processed e hmem hinst
    · exact absurd (((h.isOf idx r hr).emitted _ hmem).symm.trans hinst) hidx

/-- an input to a replica that leaves the queues and histories of the node as they are -/
theorem After.input (h : After env P i v₀ c) (hi : i ∈ P.correct) {idx : ℕ} {r : RunningReplica ω σ τ}
    (hr : c.replicas[idx]? = some r) (x : ReplicaInput ω σ τ) (hx : ∀ m, x ≠ .receive m) :
    After env P i v₀ { c with replicas := c.replicas.set idx (r.input env x) } := by
  obtain ⟨v, hv, hext, h⟩ := h
  by_cases hidx : idx = 0
  · subst hidx
    have hen : v.isEnabled P i x := by
      cases x with
      | receive m => exact absurd rfl (hx m)
      | _ => rfl
    exact After.master hv hext h hi hen hr rfl (fun ms' hms' => ⟨ms', hms', fun _ hm => hm⟩) (fun _ hm => Or.inl hm)
      fun _ he => Or.inl he
  · exact ⟨v, hv, hext, h.backup hidx hr rfl rfl (fun _ hm => Or.inl hm) fun _ he => Or.inl he⟩

theorem After.arrival (h : After env P i v₀ c) (hi : i ∈ P.correct) {D : InMsg → Prop}
    (hD : ∀ m, D m → m.instId = 0 → v₀.canArrive P i m) (hs : ArrivalStep env D c c') : After env P i v₀ c' := by
  obtain ⟨v, hv, hext, h⟩ := h
  cases hs with
  | record requests => exact ⟨v, hv, hext, h.replica, h.isOf, h.msgs, h.sent, h.processed⟩
  | sendPropagate request client =>
    refine ⟨v, hv, hext, h.replica, h.isOf, h.msgs, fun x hx m hout hm => ?_, h.processed⟩
    rcases List.mem_append.1 hx with hx | hx
    · exact h.sent x hx m hout hm
    · rw [List.mem_singleton.1 hx] at hout
      cases hout
  | forward k requests =>
    refine ⟨v, hv, hext, h.replica, h.isOf, fun ms hms m hm => ?_, h.sent, h.processed⟩
    obtain ⟨ms', hms', rfl⟩ := Option.map_eq_some_iff.1 ((List.getElem?_map).symm.trans hms)
    rcases List.mem_append.1 hm with hm | hm
    · exact h.msgs ms' hms' m hm
    · rw [List.mem_singleton.1 hm]; rfl
  | enqueue m hDm hkey =>
    refine ⟨v, hv, hext, h.replica, h.isOf, fun ms hms m' hm' => ?_, h.sent, h.processed⟩
    dsimp only at hms
    rw [List.getElem?_set] at hms
    split_ifs at hms with hinst hlt
    · cases hms
      rcases List.mem_append.1 hm' with hm' | hm'
      · rw [hinst, List.getD_eq_getElem?_getD] at hm'
        cases hq : c.msgsToReplicas[0]? with
        | none => rw [hq] at hm'; exact absurd hm' List.not_mem_nil
        | some ms => rw [hq] at hm'; exact h.msgs ms hq m' hm'
      · rw [List.mem_singleton.1 hm']
        exact canArrive_mono hext.emitted (hD m hDm hinst)
    · exact h.msgs ms hms m' hm'
  | deliver idx m rest r hq hr =>
    by_cases hidx : idx = 0
    · subst hidx
      have hen : v.isEnabled P i (.receive m) := h.msgs _ hq m List.mem_cons_self
      refine After.master hv hext h hi hen hr rfl (fun ms' hms' => ?_) (fun _ hm => Or.inl hm) fun _ he => Or.inl he
      dsimp only at hms'
      rw [List.getElem?_set_self (List.getElem?_eq_some_iff.1 hq).1] at hms'
      cases hms'
      exact ⟨_, hq, fun _ hm => List.mem_cons_of_mem m hm⟩
    · refine ⟨v, hv, hext, h.backup hidx hr rfl ?_ (fun _ hm => Or.inl hm) fun _ he => Or.inl he⟩
      exact List.getElem?_set_ne hidx

theorem After.take (h : After env P i v₀ c) (hi : i ∈ P.correct) (hs : TakeStep env c c') : After env P i v₀ c' := by
  obtain ⟨v, hv, hext, h⟩ := h
  cases hs with
  | take idx m rest r hr hout sent results hsent hresults =>
    have hm : m ∈ r.emitted := List.mem_append_right _ (by rw [hout]; exact List.mem_cons_self)
    have hsent' : ∀ m' ∈ c.sent ++ sent, m' ∈ c.sent ∨ ∀ m, m'.out? = some m → m ∈ r.emitted := by
      intro m' hm'
      refine (List.mem_append.1 hm').imp id fun hm' m'' hout' => ?_
      rw [(hsent m' hm').out?_eq] at hout'
      cases hout'
      exact hm
    have hprocessed : ∀ e ∈ c.processed ++ results, e ∈ c.processed ∨ .ordered e.1 ∈ r.emitted := by
      intro e he
      refine (List.mem_append.1 he).imp id fun he => ?_
      cases hresults e he
      exact hm
    by_cases hidx : idx = 0
    · subst hidx
      have hen : v.isEnabled P i .takeFromOutBox := rfl
      exact After.master hv hext h hi hen hr rfl (fun ms' hms' => ⟨ms', hms', fun _ hm => hm⟩) hsent' hprocessed
    · exact ⟨v, hv, hext, h.backup hidx hr rfl rfl hsent' hprocessed⟩

theorem After.service (h : After env P i v₀ c) (hi : i ∈ P.correct) (hs : ServiceStep env c c') :
    After env P i v₀ c' := by
  cases hs with
  | service idx r r' hr dbs suspicions fuel limit perfCounter time hr' =>
    have hshared := h.input hi hr (.nodeChanged c.requests dbs suspicions) fun m hm => by cases hm
    have hlt := (List.getElem?_eq_some_iff.1 hr).1
    obtain ⟨v, hv, hext, h'⟩ := hshared.input hi (List.getElem?_set_self hlt)
      (.serviceQueues fuel limit perfCounter time) fun m hm => by cases hm
    rw [← hr'] at h'
    dsimp only at h'
    rw [List.set_set] at h'
    exact ⟨v, hv, hext, h'.replica, h'.isOf, h'.msgs, h'.sent, h'.processed⟩

end Tracks

/-! ## The pool does what a pool of master replicas does -/

section Simulation

variable [DecidableEq ω] {env : NodeEnv ω σ τ} {P : NodesPool ω σ τ} {w w' : RunningPool ω σ τ} {v : PoolWorld ω σ τ}

/-- the correct nodes track the pool `v` of replicas -/
def RunningPool.Simulates (P : NodesPool ω σ τ) (w : RunningPool ω σ τ) (v : PoolWorld ω σ τ) : Prop :=
  ∀ i ∈ P.correct, Tracks P.toPool i (w.nodes i).core v

omit [DecidableEq ω] in
theorem Tracks.mono {i j : NodeName} {c : NodeCore ω σ τ} {v v' : PoolWorld ω σ τ} (h : Tracks P.toPool j c v)
    (hext : PoolWorld.Extends i v v') (hj : j ≠ i) : Tracks P.toPool j c v' where
  replica := by rw [hext.others j hj]; exact h.replica
  isOf := h.isOf
  msgs ms hms m hm := PoolWorld.canArrive_mono hext.emitted (h.msgs ms hms m hm)
  sent x hx m hout hm := hext.emitted j (h.sent x hx m hout hm)
  processed e he hinst := hext.emitted j (h.processed e he hinst)

/-- what an input brings can arrive in the pool of replicas -/
theorem RunningPool.Simulates.canArrive (h : w.Simulates P v) {i : NodeName} {x : NodeInput ω}
    (hx : w.canArrive P i x) {m : InMsg} (hm : x.brings m) (hinst : m.instId = 0) : v.canArrive P.toPool i m := by
  have hsent : ∀ {y : NodeMsg ω} {j : NodeName} {out : OutMsg}, w.canArrive P i (.nodeMsg y j) → y.out? = some out →
      out.IsOf 0 → j ∈ P.names ∧ j ≠ i ∧ (j ∈ P.byzantine ∨ out ∈ (v.replicas j).emitted) := by
    intro y j out hy hout hof
    obtain ⟨h1, h2, h3⟩ := of_decide_eq_true hy
    refine ⟨h1, h2, ?_⟩
    by_cases hbyz : j ∈ P.byzantine
    · exact Or.inl hbyz
    · exact Or.inr ((h j (Pool.mem_correct.2 ⟨h1, hbyz⟩)).sent y (h3.resolve_left hbyz) out hout hof)
  cases x with
  | nodeMsg y j =>
    cases y with
    | propagate request client => exact False.elim hm
    | threePhase y =>
      cases hm
      refine decide_eq_true (hsent hx rfl ?_)
      cases y <;> exact hinst
    | checkpoint ck =>
      cases hm
      exact decide_eq_true (hsent hx rfl hinst)
  | _ => exact False.elim hm

/-- **A step of the nodes is a run of the replicas of the master instance.** -/
theorem RunningPool.Simulates.step (h : w.Simulates P v) {e : NodeName × NodeInput ω}
    (hs : w.step env P e = some w') :
    ∃ v', Reach (PoolWorld.step env.toEnv P.toPool) (fun _ _ _ => True) v v' ∧ w'.Simulates P v' := by
  obtain ⟨i, x⟩ := e
  unfold RunningPool.step at hs
  split_ifs at hs with hen
  obtain rfl := Option.some.inj hs
  obtain ⟨hi, hx⟩ := hen
  have hD : ∀ m, x.brings m → x.brings m := fun _ => id
  have hafter : Tracks.After env.toEnv P.toPool i v ((w.nodes i).input env x).core := by
    refine RunningNode.input_keeps (D := x.brings) x hD (fun _ _ hstep h' => h'.arrival hi (fun m hm hinst => ?_) hstep)
      (fun _ _ hstep h' => h'.take hi hstep) (fun _ _ hstep h' => h'.service hi hstep)
      ⟨v, Reach.refl, PoolWorld.Extends.refl i v, h i hi⟩
    exact h.canArrive hx hm hinst
  obtain ⟨v', hv', hext, htracks⟩ := hafter
  refine ⟨v', hv', fun j hj => ?_⟩
  by_cases hij : j = i
  · subst hij
    dsimp only
    rw [Function.update_self]
    exact htracks
  · dsimp only
    rw [Function.update_of_ne hij]
    exact (h j hj).mono hext hij

omit [DecidableEq ω] in
theorem RunningPool.Simulates.init (env : NodeEnv ω σ τ) (P : NodesPool ω σ τ) :
    (RunningPool.init env P).Simulates P (PoolWorld.init env.toEnv P.toPool) := by
  intro i hi
  have hreq : { P.nodes i with requests := Dict.empty } = P.nodes i := by
    rw [← P.requests_eq i (Pool.mem_correct.1 hi).1]
  have hreplica : ∀ (idx : ℕ) r, ((RunningPool.init env P).nodes i).core.replicas[idx]? = some r →
      ∃ p, (some (generateName P.primary 0) :: P.backupPrimaries.map some)[idx]? = some p ∧
        r = ⟨Replica.init env.toEnv { P.nodes i with requests := Dict.empty } idx (decide (idx = 0)) p, []⟩ :=
    fun idx r hr => RunningNode.replicas_init env (P.nodes i) _ hr
  refine ⟨?_, fun idx r hr => ?_, fun ms hms m hm => ?_, fun x hx => absurd hx List.not_mem_nil,
    fun e he => absurd he List.not_mem_nil⟩
  · have hlt : 0 < ((RunningPool.init env P).nodes i).core.replicas.length := by
      change 0 < (List.mapIdx _ _).length
      rw [List.length_mapIdx]
      exact Nat.zero_lt_succ _
    obtain ⟨p, hp, hr⟩ := hreplica 0 _ (List.getElem?_eq_getElem hlt)
    rw [List.getElem?_eq_getElem hlt, hr]
    cases hp
    rw [hreq]
    rfl
  · obtain ⟨p, -, rfl⟩ := hreplica idx r hr
    exact ⟨rfl, fun m hm => absurd hm List.not_mem_nil⟩
  · obtain ⟨p, -, rfl⟩ := Option.map_eq_some_iff.1 ((List.getElem?_map).symm.trans hms)
    exact absurd hm List.not_mem_nil

/-- **Every run of the nodes is, for the master instance, a run of the pool of replicas.** -/
theorem RunningPool.simulated (hr : Reach (RunningPool.step env P) (fun _ _ _ => True) (RunningPool.init env P) w) :
    ∃ v, Reach (PoolWorld.step env.toEnv P.toPool) (fun _ _ _ => True) (PoolWorld.init env.toEnv P.toPool) v ∧
      w.Simulates P v := by
  refine hr.inv (I := fun w => ∃ v, Reach (PoolWorld.step env.toEnv P.toPool) (fun _ _ _ => True)
    (PoolWorld.init env.toEnv P.toPool) v ∧ w.Simulates P v) ⟨_, Reach.refl, Simulates.init env P⟩ ?_
  rintro w e w' ⟨v, hv, hsim⟩ hs -
  obtain ⟨v', hv', hsim'⟩ := hsim.step hs
  exact ⟨v', hv.trans hv', hsim'⟩

/-- the books of every node are sound -/
theorem RunningPool.sound (hr : Reach (RunningPool.step env P) (fun _ _ _ => True) (RunningPool.init env P) w)
    (i : NodeName) : (w.nodes i).books.Sound env.toEnv := by
  refine hr.inv (I := fun w => ∀ i, (w.nodes i).books.Sound env.toEnv) (fun i => init_sound env _ _) ?_ i
  intro w e w' h hs _ i
  obtain ⟨n, x⟩ := e
  unfold RunningPool.step at hs
  split_ifs at hs
  obtain rfl := Option.some.inj hs
  by_cases hin : i = n
  · subst hin
    dsimp only
    rw [Function.update_self]
    exact stable_of_steps (fun _ _ hstep h => hstep.sound h)
      (RunningNode.input_books (H := x.hearings (w.nodes i).node.name) x (List.Subset.refl _)) (h i)
  · dsimp only
    rw [Function.update_of_ne hin]
    exact h i

end Simulation

/-! ## Agreement -/

/-- batches of the same number that two correct replicas have ordered are the same -/
theorem NodeInv.ordered_eq {P : Pool ω σ τ} {v : PoolWorld ω σ τ} (h : ∀ i ∈ P.correct, NodeInv P v i)
    (hprimary : P.primary ∈ P.correct) {i j : NodeName} (hi : i ∈ P.correct) (hj : j ∈ P.correct) {o o' : Ordered}
    (ho : o ∈ v.orderedBatches i) (ho' : o' ∈ v.orderedBatches j) (hno : o.ppSeqNo = o'.ppSeqNo) : o = o' := by
  have hmade := (h _ hprimary).accepted_numbered
  have hnodup : (((v.accepted P.primary).map (PrePrepare.toOrdered · 0)).map Ordered.ppSeqNo).Nodup := by
    rw [List.map_map]
    change ((v.accepted P.primary).map fun pp => (pp.toOrdered 0).ppSeqNo).Nodup
    rw [hmade]
    exact List.nodup_range'
  exact List.inj_on_of_nodup_map hnodup ((NodeInv.ordered_prefix h hprimary hi).subset ho)
    ((NodeInv.ordered_prefix h hprimary hj).subset ho') hno

/-- **Ledgers agree within a view.** With at most `f` byzantine nodes, a correct primary, and no collisions among the roots of
ledgers: where two correct nodes have executed a batch of the master with the same number, it is the same batch, and
the first transactions on both ledgers, up to the last one of this batch, are the same, with the root that it was
ordered with. -/
theorem ledger_agreement [DecidableEq ω] (env : NodeEnv ω σ τ) (P : NodesPool ω σ τ) (hprimary : P.primary ∈ P.correct)
    (hroot : Function.Injective env.merkleRoot) {w : RunningPool ω σ τ}
    (hr : Reach (RunningPool.step env P) (fun _ _ _ => True) (RunningPool.init env P) w) {i j : NodeName}
    (hi : i ∈ P.correct) (hj : j ∈ P.correct) {o o' : Ordered} (ho : (o, some true) ∈ (w.nodes i).processed)
    (ho' : (o', some true) ∈ (w.nodes j).processed) (hmaster : o.instId = 0) (hmaster' : o'.instId = 0)
    (hno : o.ppSeqNo = o'.ppSeqNo) :
    o = o' ∧ ∃ txns, o.txnRootHash = some (env.merkleRoot txns) ∧
      txns <+: ((w.nodes i).node.dbs.ledgers.get o.ledgerId).txns ∧
        txns <+: ((w.nodes j).node.dbs.ledgers.get o.ledgerId).txns := by
  obtain ⟨v, hv, hsim⟩ := RunningPool.simulated hr
  have hinv := NodeInv.reach hv
  have hordered : o ∈ v.orderedBatches i := PoolWorld.mem_orderedBatches.2 ((hsim i hi).processed _ ho hmaster)
  have hordered' : o' ∈ v.orderedBatches j := PoolWorld.mem_orderedBatches.2 ((hsim j hj).processed _ ho' hmaster')
  obtain rfl : o = o' := NodeInv.ordered_eq hinv hprimary hi hj hordered hordered' hno
  obtain ⟨txns, hpre, htxns⟩ := (RunningPool.sound hr i).executed o ho hmaster
  obtain ⟨txns', hpre', htxns'⟩ := (RunningPool.sound hr j).executed o ho' hmaster
  -- one root, and so one list of transactions
  obtain rfl : txns = txns' := hroot (Option.some.inj (htxns.symm.trans htxns'))
  exact ⟨rfl, txns, htxns, hpre, hpre'⟩

/-! ## Byzantine nodes put nothing on a ledger alone -/

/-- a request counts for a node if this is the node itself, or a byzantine one, or one that has broadcast the request -/
def Backed (P : Pool ω σ τ) (w : RunningPool ω σ τ) (i : NodeName) (c : Request ω × NodeName) : Prop :=
  c.2 ∈ P.names ∧ (c.2 = i ∨ c.2 ∈ P.byzantine ∨ ∃ client, .propagate c.1 client ∈ (w.nodes c.2).sent)

section Backed

variable [DecidableEq ω] {env : NodeEnv ω σ τ} {P : NodesPool ω σ τ} {w w' : RunningPool ω σ τ} {i : NodeName}

/-- node `i` has its own name and `f`, and its books have their sources in requests that are backed -/
structure SourcedAt (env : NodeEnv ω σ τ) (P : NodesPool ω σ τ) (w : RunningPool ω σ τ) (i : NodeName) : Prop where
  name : (w.nodes i).node.name = i
  f : (w.nodes i).node.f = P.f
  sourced : ∃ H : Hearings ω, (w.nodes i).books.Sourced env.toEnv H (P.nodes i).dbs ∧ ∀ c ∈ H, Backed P.toPool w i c

theorem SourcedAt.of_frame (h : SourcedAt env P w i) (hnode : w'.nodes i = w.nodes i)
    (hsent : ∀ j, (w.nodes j).sent ⊆ (w'.nodes j).sent) : SourcedAt env P w' i := by
  obtain ⟨H, hH, hback⟩ := h.sourced
  refine ⟨by rw [hnode]; exact h.name, by rw [hnode]; exact h.f, H, by rw [hnode]; exact hH, fun c hc => ?_⟩
  obtain ⟨hmem, hc⟩ := hback c hc
  exact ⟨hmem, hc.imp id (Or.imp id fun ⟨client, hm⟩ => ⟨client, hsent _ hm⟩)⟩

/-- what an input lets a node hear is backed -/
theorem backed_of_hearings {x : NodeInput ω} (hi : i ∈ P.correct) (hx : w.canArrive P i x) {c : Request ω × NodeName}
    (hc : c ∈ x.hearings i) : Backed P.toPool w i c := by
  have hself : ∀ req, Backed P.toPool w i (req, i) := fun req => ⟨(Pool.mem_correct.1 hi).1, Or.inl rfl⟩
  cases x with
  | nodeMsg m frm =>
    cases m with
    | propagate req client =>
      rcases List.mem_cons.1 hc with rfl | hc
      · obtain ⟨hmem, -, hfrm⟩ := of_decide_eq_true hx
        exact ⟨hmem, Or.inr (hfrm.imp id fun hm => ⟨client, hm⟩)⟩
      · rw [List.mem_singleton.1 hc]
        exact hself req
    | _ => cases hc
  | request req client =>
    rw [List.mem_singleton.1 hc]
    exact hself req
  | _ => cases hc

theorem SourcedAt.step (h : ∀ i ∈ P.correct, SourcedAt env P w i) {e : NodeName × NodeInput ω}
    (hs : w.step env P e = some w') : ∀ i ∈ P.correct, SourcedAt env P w' i := by
  obtain ⟨n, x⟩ := e
  unfold RunningPool.step at hs
  split_ifs at hs with hen
  obtain rfl := Option.some.inj hs
  have hsent : ∀ j, (w.nodes j).sent ⊆ (Function.update w.nodes n ((w.nodes n).input env x) j).sent := by
    intro j
    by_cases hj : j = n
    · subst hj
      rw [Function.update_self]
      exact RunningNode.sent_subset_input env _ x
    · rw [Function.update_of_ne hj]
      exact List.Subset.refl _
  intro i hi
  by_cases hin : i = n
  · subst hin
    obtain ⟨H, hH, hback⟩ := (h i hi).sourced
    have hsteps : ReflTransGen (BookStep env.toEnv (H ++ x.hearings i)) (w.nodes i).books
        ((w.nodes i).input env x).books := by
      refine RunningNode.input_books x ?_
      rw [(h i hi).name]
      exact List.subset_append_right _ _
    have hmono := mono_of_steps hsteps
    refine ⟨?_, ?_, H ++ x.hearings i, ?_, fun c hc => ?_⟩
    · dsimp only
      rw [Function.update_self]
      exact hmono.name.trans (h i hi).name
    · dsimp only
      rw [Function.update_self]
      exact hmono.f.trans (h i hi).f
    · dsimp only
      rw [Function.update_self]
      exact stable_of_steps (fun _ _ hstep h => hstep.sourced h) hsteps (hH.mono (List.subset_append_left _ _))
    · have hc' : Backed P.toPool w i c :=
        (List.mem_append.1 hc).elim (hback c) fun hc => backed_of_hearings hi hen.2 hc
      exact ⟨hc'.1, hc'.2.imp id (Or.imp id fun ⟨client, hm⟩ => ⟨client, hsent _ hm⟩)⟩
  · exact (h i hi).of_frame (Function.update_of_ne hin _ _) hsent

/-- **Byzantine nodes put nothing on a ledger alone**, as long as nobody catches up. Also with a byzantine primary, a
transaction on a ledger of a correct node stood there at the start, or was made of a request that another correct node has
broadcast. -/
theorem ledger_backed (env : NodeEnv ω σ τ) (P : NodesPool ω σ τ) {w : RunningPool ω σ τ}
    (hr : Reach (RunningPool.step env P) (fun _ _ _ => True) (RunningPool.init env P) w) {i : NodeName}
    (hi : i ∈ P.correct) (lid : LedgerId) {txn : τ} (htxn : (w.nodes i).node.dbs.Contains lid txn) :
    (P.nodes i).dbs.Contains lid txn ∨ ∃ req dbs, env.ledgerIdForRequest req = lid ∧ txn = (env.apply dbs req).1 ∧
      ∃ j ∈ P.correct, j ≠ i ∧ ∃ client, .propagate req client ∈ (w.nodes j).sent := by
  have hinv : ∀ i ∈ P.correct, SourcedAt env P w i := by
    refine hr.inv (I := fun w => ∀ i ∈ P.correct, SourcedAt env P w i) (fun i hi => ?_)
      fun _ _ _ h hs _ => SourcedAt.step h hs
    have hmem := (Pool.mem_correct.1 hi).1
    exact ⟨P.name_eq i hmem, P.f_eq i hmem, [], init_sourced env (P.nodes i) _ [],
      fun c hc => absurd hc List.not_mem_nil⟩
  obtain ⟨H, hH, hback⟩ := (hinv i hi).sourced
  refine (hH.shared.txns lid txn htxn).imp id fun ⟨req, dbs, hl, ht, hcard⟩ => ⟨req, dbs, hl, ht, ?_⟩
  change (w.nodes i).node.f + 1 < _ at hcard
  rw [(hinv i hi).f] at hcard
  -- more than `f + 1` nodes, of which at most `f` are byzantine and one is the node itself
  have hlt : (insert i (P.names ∩ P.byzantine)).card < (voters H req).card :=
    ((Finset.card_insert_le _ _).trans (Nat.succ_le_succ P.byzantine_card)).trans_lt hcard
  obtain ⟨j, hj, hnot⟩ := Finset.exists_mem_notMem_of_card_lt_card hlt
  obtain ⟨hmem, hj'⟩ := hback _ (mem_voters.1 hj)
  rw [Finset.mem_insert, Finset.mem_inter, not_or] at hnot
  have hbyz : j ∉ P.byzantine := fun h => hnot.2 ⟨hmem, h⟩
  exact ⟨j, Pool.mem_correct.2 ⟨hmem, hbyz⟩, hnot.1, (hj'.resolve_left hnot.1).resolve_left hbyz⟩

end Backed

/-! ## Witnesses -/

namespace FourNodes

/-- a transaction is a letter, and the root of a ledger spells its transactions -/
def lettersEnv : NodeEnv Bool ℕ Char where
  CHK_FREQ := 10
  LOG_SIZE := 30
  max3PCBatchSize := 1
  max3PCBatchWait := 0
  second := 1
  batchHash digests := digests.headD ""
  checkpointHash digests := digests.headD ""
  merkleRoot := String.ofList
  stateRoot _ := "state"
  ledgerIdForRequest _ := .domain
  validate _ req := if req.operation then none else some "refused"
  apply dbs req := (req.digest.toList.headD 'x', (dbs.states.get .domain).headHash + 1)
  txnKey _ := ("client", 1)
  stateAt _ := 0

def lettersNode (name : NodeName) : Node Bool ℕ Char where
  name := name
  viewNo := 0
  f := 1
  isParticipating := true
  requests := Dict.empty
  dbs := ⟨⟨Ledger.empty, Ledger.empty⟩, ⟨⟨0, 0⟩, ⟨0, 0⟩⟩⟩
  suspicions := []

theorem letters_card : ({"Alpha", "Beta", "Gamma", "Delta"} : Finset NodeName).card = 3 * 1 + 1 := by decide

theorem letters_byzantine_card :
    (({"Alpha", "Beta", "Gamma", "Delta"} : Finset NodeName) ∩ {"Delta"}).card ≤ 1 := by decide

/-- Delta is byzantine; there is only the master instance -/
def lettersPool : NodesPool Bool ℕ Char where
  names := {"Alpha", "Beta", "Gamma", "Delta"}
  f := 1
  card := letters_card
  primary := "Alpha"
  primary_mem := alpha_mem
  byzantine := {"Delta"}
  byzantine_card := letters_byzantine_card
  viewNo := 0
  nodes := lettersNode
  name_eq _ _ := rfl
  f_eq _ _ := rfl
  viewNo_eq _ _ := rfl
  isParticipating _ _ := rfl
  requests_eq _ _ := rfl
  backupPrimaries := []

/-- the batch of the request "a" -/
def letterA : PrePrepare :=
  ⟨0, 0, 1, 0, [("client", 1)], 1, "a", .domain, some "state", some (String.ofList ['a'])⟩

/-- a message of each sender reaches the other two correct nodes, and all three service their queues -/
def tellOthers (ms : List (NodeName × NodeMsg Bool)) : List (NodeName × NodeInput Bool) :=
  (ms.flatMap fun e => (three.filter (· ≠ e.1)).map fun i => (i, .nodeMsg e.2 e.1)) ++
    three.flatMap fun i => serviceReplicas.map fun x => (i, x)

/-- the request of a client, from its PROPAGATEs to its execution, without Delta -/
def executeLetterA : List (NodeName × NodeInput Bool) :=
  (three.map fun i => (i, .request (request 1 "a") "client")) ++
    tellOthers (three.map fun i => (i, .propagate (request 1 "a") "client")) ++
    tellOthers [("Alpha", .threePhase (.prePrepare letterA))] ++
    tellOthers (["Beta", "Gamma"].map fun i => (i, .threePhase (prepareOf letterA))) ++
    tellOthers (three.map fun i => (i, .threePhase (commitOf letterA)))

end FourNodes

open FourNodes in
theorem executeLetterA_runs : (runAll (RunningPool.step lettersEnv lettersPool) (fun _ _ _ => True)
    (RunningPool.init lettersEnv lettersPool) executeLetterA).isSome := by decide +kernel

open FourNodes in
/-- Beta and Gamma have executed the same batch, and agree on the ledger up to it -/
theorem ledger_agreement_executeLetterA : ∃ (w : RunningPool Bool ℕ Char) (txns : List Char),
    (letterA.toOrdered 0, some true) ∈ (w.nodes "Beta").processed ∧
      (letterA.toOrdered 0).txnRootHash = some (lettersEnv.merkleRoot txns) ∧
        txns <+: ((w.nodes "Beta").node.dbs.ledgers.get .domain).txns ∧
          txns <+: ((w.nodes "Gamma").node.dbs.ledgers.get .domain).txns := by
  have hbeta : (letterA.toOrdered 0, some true) ∈ (((runAll (RunningPool.step lettersEnv lettersPool)
      (fun _ _ _ => True) (RunningPool.init lettersEnv lettersPool) executeLetterA).get executeLetterA_runs).nodes
      "Beta").processed := by decide +kernel
  obtain ⟨-, txns, hroot, hpre, hpre'⟩ := ledger_agreement lettersEnv lettersPool (by decide)
    (fun _ _ h => String.ofList_injective h) (reach_get _ executeLetterA_runs) (i := "Beta") (j := "Gamma") (by decide)
    (by decide) hbeta (by decide +kernel) rfl rfl rfl
  exact ⟨_, txns, hbeta, hroot, hpre, hpre'⟩

open FourNodes in
theorem ledger_backed_executeLetterA : ∃ (w : RunningPool Bool ℕ Char) (req : Request Bool) (dbs : Dbs ℕ Char),
    'a' = (lettersEnv.apply dbs req).1 ∧
      ∃ j ∈ lettersPool.correct, j ≠ "Beta" ∧ ∃ client, .propagate req client ∈ (w.nodes j).sent := by
  have htxn : (((runAll (RunningPool.step lettersEnv lettersPool) (fun _ _ _ => True)
      (RunningPool.init lettersEnv lettersPool) executeLetterA).get executeLetterA_runs).nodes
      "Beta").node.dbs.Contains .domain 'a' := Or.inl (by decide +kernel)
  have hnew : ¬ (lettersPool.nodes "Beta").dbs.Contains .domain 'a' := by
    rintro (h | h) <;> cases h
  obtain ⟨req, dbs, -, ht, hj⟩ := (ledger_backed lettersEnv lettersPool (reach_get _ executeLetterA_runs) (i := "Beta")
    (by decide) .domain htxn).resolve_left hnew
  exact ⟨_, req, dbs, ht, hj⟩

end Plenum
