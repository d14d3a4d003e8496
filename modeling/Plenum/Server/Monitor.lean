/-
The monitor of a node: how fast the protocol instances order, and whether the master instance is degraded.

Times are rationals. A call that raises has no result (`Except`): nothing here depends on what such a call leaves.

- `requestUnOrdered`, `requestOrdered`: what is measured. `requestOrdered` is called as `Node.processOrdered` does, with
  `byMaster` for the master instance.
- `isMasterDegraded`: the three heuristics, on throughputs, latencies and average latencies.
- `NothingMeasured`: as long as the master has ordered nothing, there is no record of it at all (`run_silent`).
- `silent_master_undetected`: so no heuristic applies, and `isMasterDegraded` returns `False`.
- `silent_master`: three requests that only the backup has ordered.
-/
import Mathlib.Tactic
import Plenum.Core.Dict
import Plenum.Core.Exec
import Plenum.Common.Types

namespace Plenum

open Plenum.Core

/-! ## Model -/

inductive MonitorError where
  | indexError
  | typeError
  | attributeError
deriving DecidableEq, Repr

/-- the protocol instances of a node, with their times of start -/
structure Instances where
  count : ℕ
  started : List ℚ
  sized : started.length = count

namespace Instances

def add (i : Instances) (now : ℚ) : Instances := ⟨i.count + 1, i.started ++ [now], by simp [i.sized]⟩

def ids (i : Instances) : List ℕ := List.range i.count

def masterId (i : Instances) : Option ℕ := if 0 < i.count then some 0 else none

def backupIds (i : Instances) : List ℕ := List.range' 1 (i.count - 1)

end Instances

structure Monitor where
  instances : Instances
  Delta : ℚ
  Lambda : ℚ
  Omega : ℚ
  /-- by instance: how many requests it ordered, and the time this took -/
  numOrderedRequests : List (ℕ × ℚ)
  requestOrderingStarted : Dict ReqKey ℚ
  masterReqLatencies : Dict ReqKey ℚ
  /-- a request whose latency was too high in the previous snapshot; `False` and `None` are `none` -/
  masterReqLatencyTooHigh : Option (ReqKey × ℚ)
  /-- by instance and client: the number of requests and their average latency -/
  clientAvgReqLatencies : List (Dict String (ℕ × ℚ))
  totalRequests : ℕ
  orderedRequestsInLast : List ℚ
  latenciesByMasterInLast : List (ℚ × ℚ)
  latenciesByBackupsInLast : Dict ℕ (List (ℚ × ℚ))
  totalViewChanges : ℕ
  lastPostedViewChange : ℕ

/-- what `isMasterDegraded` returns: a truth value, or a request with its latency -/
inductive Degraded where
  | bool (b : Bool)
  | request (r : ReqKey × ℚ)
deriving DecidableEq, Repr

def Degraded.truthy : Degraded → Bool
  | .bool b => b
  | .request _ => true

/-- the mean of measured values -/
def mean (l : List ℚ) : ℚ := l.sum / l.length

namespace Monitor

/-! ## Heuristics -/

/-- requests per time; `None` if no time was spent -/
def getThroughput (m : Monitor) (instId : ℕ) : Except MonitorError (Option ℚ) :=
  if m.instances.count ≤ instId then .ok none
  else
    match m.numOrderedRequests[instId]? with
    | none => .error .indexError
    | some (reqs, tm) => .ok (if tm = 0 then none else some (reqs / tm))

/-- the sums over the other instances, if there are any -/
def getInstanceMetrics (m : Monitor) (forAllExcept : ℕ) : Option (ℕ × ℚ) :=
  let others := (m.numOrderedRequests.zipIdx.filter fun e => e.2 ≠ forAllExcept).map Prod.fst
  if others = [] then none else some ((others.map Prod.fst).sum, (others.map Prod.snd).sum)

/-- a throughput of 0 says nothing while there are few requests -/
def unlessTooEarly (m : Monitor) (masterInstId : ℕ) (masterThrp : Option ℚ) : Except MonitorError (Option ℚ) :=
  if masterThrp = some 0 ∧ m.numOrderedRequests[masterInstId]? = some (0, 0) then
    match m.getInstanceMetrics masterInstId with
    | none => .error .typeError
    | some (totalReqs, _) => .ok (if (totalReqs : ℚ) / m.instances.count ≤ 1 then none else masterThrp)
  else .ok masterThrp

/-- the throughput of an instance and the average one of the others -/
def getThroughputs (m : Monitor) (masterInstId : ℕ) : Except MonitorError (Option ℚ × Option ℚ) := do
  let masterThrp ← m.getThroughput masterInstId
  let masterThrp ← m.unlessTooEarly masterInstId masterThrp
  .ok (masterThrp, (m.getInstanceMetrics masterInstId).bind fun r => if r.2 = 0 then none else some (r.1 / r.2))

/-- the arguments of the division are checked first -/
def ratio : Option ℚ → Option ℚ → Option ℚ
  | some masterThrp, some backupThrp => if backupThrp = 0 then none else some (masterThrp / backupThrp)
  | _, _ => none

def masterThroughputRatio (m : Monitor) : Except MonitorError (Option ℚ) := do
  let masterId ← m.instances.masterId.elim (.error .typeError) .ok
  let thrps ← m.getThroughputs masterId
  .ok (ratio thrps.1 thrps.2)

def isMasterThroughputTooLow (m : Monitor) : Except MonitorError (Option Bool) := do
  let r ← m.masterThroughputRatio
  .ok (r.map fun r => r < m.Delta)

def isMasterReqLatencyTooHigh (m : Monitor) : Option (ReqKey × ℚ) :=
  m.masterReqLatencyTooHigh.or (m.masterReqLatencies.entries.find? fun e => m.Lambda < e.2)

/-- one more average of a client -/
def addAvgLatency (avgs : Dict String (List ℚ)) (e : String × ℕ × ℚ) : Dict String (List ℚ) :=
  avgs.set e.1 ((avgs.get? e.1).getD [] ++ [e.2.2])

/-- by client: its average latencies in the given instances. Their mean is taken where it is used. The `0` that is
returned when there are no instances has no entries. -/
def getAvgLatency (m : Monitor) (instIds : List ℕ) : Except MonitorError (Dict String (List ℚ)) :=
  if m.clientAvgReqLatencies = [] then .error .attributeError
  else do
    let avgs ← instIds.mapM fun i => (m.clientAvgReqLatencies[i]?).elim (.error .indexError) .ok
    .ok ((avgs.flatMap Dict.entries).foldl addAvgLatency Dict.empty)

/-- whether a client's average is too high, up to the first client that the master has no record of -/
def anyAvgTooHigh (m : Monitor) (avgLatM : Dict String (List ℚ)) : List (String × List ℚ) → Bool
  | [] => false
  | (cid, lat) :: rest =>
    match avgLatM.get? cid with
    | none => false
    | some latM => if m.Omega < mean latM - mean lat then true else m.anyAvgTooHigh avgLatM rest

def isMasterAvgReqLatencyTooHigh (m : Monitor) : Except MonitorError Bool := do
  let masterId ← m.instances.masterId.elim (.error .typeError) .ok
  let avgLatM ← m.getAvgLatency [masterId]
  let avgLatB ← m.getAvgLatency m.instances.backupIds
  .ok (m.anyAvgTooHigh avgLatM avgLatB.entries)

/-- the last two heuristics -/
def isMasterLatencyTooHigh (m : Monitor) : Except MonitorError Degraded :=
  match m.isMasterReqLatencyTooHigh with
  | some r => .ok (.request r)
  | none => m.isMasterAvgReqLatencyTooHigh.map .bool

/-- whether the master instance is slow: the value of the disjunction -/
def isMasterDegraded (m : Monitor) : Except MonitorError Degraded :=
  if m.instances.masterId = none then .ok (.bool false)
  else do
    let tooLow ← m.isMasterThroughputTooLow
    if tooLow = some true then .ok (.bool true) else m.isMasterLatencyTooHigh

/-! ## Measuring -/

/-- no instance has ordered anything -/
def reset (m : Monitor) : Monitor :=
  { m with
    numOrderedRequests := m.instances.started.map fun _ => (0, 0)
    requestOrderingStarted := Dict.empty
    masterReqLatencies := Dict.empty
    masterReqLatencyTooHigh := none
    clientAvgReqLatencies := m.instances.started.map fun _ => Dict.empty
    totalViewChanges := m.totalViewChanges + 1 }

def addInstance (m : Monitor) (now : ℚ) : Monitor :=
  { m with
    instances := m.instances.add now
    numOrderedRequests := m.numOrderedRequests ++ [(0, 0)]
    clientAvgReqLatencies := m.clientAvgReqLatencies ++ [Dict.empty] }

def requestUnOrdered (m : Monitor) (now : ℚ) (key : ReqKey) : Monitor :=
  { m with requestOrderingStarted := m.requestOrderingStarted.set key now }

/-- the latency of one request, of the master or of a backup -/
def addLatency (m : Monitor) (now : ℚ) (instId : ℕ) (byMaster : Bool) (key : ReqKey) (duration : ℚ) : Monitor :=
  if byMaster then
    { m with
      masterReqLatencies := m.masterReqLatencies.set key duration
      orderedRequestsInLast := m.orderedRequestsInLast ++ [now]
      latenciesByMasterInLast := m.latenciesByMasterInLast ++ [(now, duration)] }
  else
    { m with
      latenciesByBackupsInLast := m.latenciesByBackupsInLast.set instId
        ((m.latenciesByBackupsInLast.get? instId).getD [] ++ [(now, duration)]) }

/-- the average of `n + 1` items from that of `n` items -/
def nextAvg (avg : ℕ × ℚ) (duration : ℚ) : ℕ × ℚ := (avg.1 + 1, (avg.1 * avg.2 + duration) / (avg.1 + 1))

def addClientLatency (m : Monitor) (instId : ℕ) (identifier : String) (duration : ℚ) : Except MonitorError Monitor :=
  match m.clientAvgReqLatencies[instId]? with
  | none => .error .indexError
  | some avgs => .ok { m with
      clientAvgReqLatencies := m.clientAvgReqLatencies.set instId
        (avgs.set identifier (nextAvg ((avgs.get? identifier).getD (0, 0)) duration)) }

/-- one request of a batch; one that was not sent for ordering since the last reset is skipped -/
def measure (now : ℚ) (instId : ℕ) (byMaster : Bool) (acc : Monitor × Dict ReqKey ℚ) (key : ReqKey) :
    Except MonitorError (Monitor × Dict ReqKey ℚ) :=
  match acc.1.requestOrderingStarted.get? key with
  | none => .ok acc
  | some startedAt => do
    let m ← (acc.1.addLatency now instId byMaster key (now - startedAt)).addClientLatency instId key.1 (now - startedAt)
    .ok (m, acc.2.set key (now - startedAt))

/-- what `metrics` computes; it may raise -/
def metrics (m : Monitor) : Except MonitorError (List (Option ℚ) × Option ℚ) := do
  let r ← m.masterThroughputRatio
  let thrps ← m.instances.ids.mapM m.getThroughput
  .ok (thrps, r)

def clearSnapshot (m : Monitor) : Monitor :=
  { m with masterReqLatencyTooHigh := m.isMasterReqLatencyTooHigh, masterReqLatencies := Dict.empty }

def postOnReqOrdered (m : Monitor) : Except MonitorError Monitor := do
  let _ ← m.metrics
  .ok { m with lastPostedViewChange := m.totalViewChanges }.clearSnapshot

/-- requests ordered by the last instance count -/
def countIfLast (m : Monitor) (reqs orderedNow : ℕ) : Except MonitorError Monitor :=
  if (m.numOrderedRequests.map Prod.fst).min? = some (reqs + orderedNow) then
    { m with totalRequests := m.totalRequests + orderedNow }.postOnReqOrdered
  else .ok m

/-- the counters of the instance -/
def addOrdered (m : Monitor) (instId : ℕ) (durations : Dict ReqKey ℚ) : Except MonitorError Monitor :=
  match m.numOrderedRequests[instId]? with
  | none => .error .indexError
  | some (reqs, tm) =>
    let ordered := (reqs + durations.size, tm + durations.values.sum)
    { m with numOrderedRequests := m.numOrderedRequests.set instId ordered }.countIfLast reqs durations.size

/-- a batch was ordered by an instance; the durations are returned -/
def requestOrdered (m : Monitor) (now : ℚ) (reqIdrs : List ReqKey) (instId : ℕ) (byMaster : Bool) :
    Except MonitorError (Monitor × Dict ReqKey ℚ) := do
  let measured ← reqIdrs.foldlM (measure now instId byMaster) (m, Dict.empty)
  let m ← measured.1.addOrdered instId measured.2
  .ok (m, measured.2)

/-! ## Histories -/

/-- a call of the monitor, with the time at which it is made -/
inductive MonitorCall where
  | requestUnOrdered (now : ℚ) (key : ReqKey)
  | requestOrdered (now : ℚ) (reqIdrs : List ReqKey) (instId : ℕ)

def call (m : Monitor) : MonitorCall → Except MonitorError Monitor
  | .requestUnOrdered now key => .ok (m.requestUnOrdered now key)
  | .requestOrdered now reqIdrs instId =>
    (m.requestOrdered now reqIdrs instId (m.instances.masterId = some instId)).map Prod.fst

def runCalls (m : Monitor) (calls : List MonitorCall) : Except MonitorError Monitor := calls.foldlM call m

/-! ## A master that has ordered nothing -/

/-- the master instance has ordered nothing since the reset -/
def MasterSilent (m : Monitor) : Prop := ∀ r ∈ m.numOrderedRequests[0]?, r.1 = 0

instance (m : Monitor) : Decidable m.MasterSilent := by
  unfold MasterSilent
  infer_instance

/-- the lists have an entry for each instance -/
structure Sized (m : Monitor) : Prop where
  ordered : m.numOrderedRequests.length = m.instances.count
  clients : m.clientAvgReqLatencies.length = m.instances.count

/-- there is no record of the master instance -/
structure NothingMeasured (m : Monitor) : Prop where
  ordered : m.numOrderedRequests[0]? = some (0, 0)
  clients : m.clientAvgReqLatencies[0]? = some Dict.empty
  latencies : m.masterReqLatencies = Dict.empty
  tooHigh : m.masterReqLatencyTooHigh = none

/-- as long as the master has ordered nothing, there is no record of it -/
structure SilenceUnrecorded (m : Monitor) : Prop where
  sized : m.Sized
  nothing : m.MasterSilent → 0 < m.instances.count → m.NothingMeasured

variable {m m' : Monitor} {now : ℚ} {instId : ℕ} {byMaster : Bool}

theorem reset_silenceUnrecorded (m : Monitor) : m.reset.SilenceUnrecorded := by
  refine ⟨⟨?_, ?_⟩, ?_⟩
  · simp [reset, m.instances.sized]
  · simp [reset, m.instances.sized]
  · intro _ hcount
    have hne : m.instances.started ≠ [] := List.ne_nil_of_length_pos (m.instances.sized ▸ hcount)
    obtain ⟨t, rest, hstarted⟩ := List.exists_cons_of_ne_nil hne
    constructor <;> simp [reset, hstarted]

/-! ## What a measurement writes -/

/-- what `m'` has in common with `m` however requests were measured -/
structure SameCounters (m m' : Monitor) : Prop where
  instances : m'.instances = m.instances
  ordered : m'.numOrderedRequests = m.numOrderedRequests
  clients : m'.clientAvgReqLatencies.length = m.clientAvgReqLatencies.length

/-- nor is the master measured -/
structure SameMaster (m m' : Monitor) : Prop extends SameCounters m m' where
  master : m'.clientAvgReqLatencies[0]? = m.clientAvgReqLatencies[0]?
  latencies : m'.masterReqLatencies = m.masterReqLatencies
  tooHigh : m'.masterReqLatencyTooHigh = m.masterReqLatencyTooHigh

theorem SameCounters.sized (h : SameCounters m m') (hs : m.Sized) : m'.Sized :=
  ⟨by rw [h.ordered, h.instances, hs.ordered], by rw [h.clients, h.instances, hs.clients]⟩

theorem SameMaster.nothingMeasured (h : SameMaster m m') (hn : m.NothingMeasured) : m'.NothingMeasured :=
  ⟨h.ordered ▸ hn.ordered, h.master ▸ hn.clients, h.latencies ▸ hn.latencies, h.tooHigh ▸ hn.tooHigh⟩

/-- a request is skipped, or its duration is added to those of the batch -/
theorem measure_cases {acc acc' : Monitor × Dict ReqKey ℚ} {key : ReqKey}
    (h : measure now instId byMaster acc key = .ok acc') :
    acc' = acc ∨ (SameCounters acc.1 acc'.1 ∧ (∃ duration, acc'.2 = acc.2.set key duration) ∧
      (instId ≠ 0 → byMaster = false → SameMaster acc.1 acc'.1)) := by
  unfold measure at h
  split at h
  · exact Or.inl (Except.ok.inj h).symm
  · rename_i startedAt _
    obtain ⟨m, hm, hacc⟩ := bind_eq_ok.1 h
    obtain rfl := Except.ok.inj hacc
    unfold addClientLatency at hm
    split at hm
    · cases hm
    · obtain rfl := Except.ok.inj hm
      refine Or.inr ⟨⟨?_, ?_, ?_⟩, ⟨_, rfl⟩, ?_⟩
      · cases byMaster <;> rfl
      · cases byMaster <;> rfl
      · cases byMaster <;> simp [addLatency]
      · rintro hne rfl
        exact ⟨⟨rfl, rfl, by simp [addLatency]⟩, by simp [addLatency, hne], rfl, rfl⟩

theorem size_set_pos {κ α : Type} [DecidableEq κ] (d : Dict κ α) (k : κ) (v : α) : 0 < (d.set k v).size := by
  apply List.length_pos_of_mem (a := (k, v))
  exact Dict.get?_eq_some.1 (Dict.get?_set_self d k v)

/-- a batch in which nothing was measured leaves no trace -/
theorem measured_cases {reqIdrs : List ReqKey} {acc : Monitor × Dict ReqKey ℚ}
    (h : reqIdrs.foldlM (measure now instId byMaster) (m, Dict.empty) = .ok acc) :
    SameCounters m acc.1 ∧ (acc = (m, Dict.empty) ∨ 0 < acc.2.size) ∧
      (instId ≠ 0 → byMaster = false → SameMaster m acc.1) := by
  refine foldlM_inv (I := fun acc => SameCounters m acc.1 ∧ (acc = (m, Dict.empty) ∨ 0 < acc.2.size) ∧
    (instId ≠ 0 → byMaster = false → SameMaster m acc.1)) ?_ ⟨⟨rfl, rfl, rfl⟩, Or.inl rfl, ?_⟩ h
  · rintro acc key acc' ⟨hcounters, hsize, hmaster⟩ hstep
    rcases measure_cases hstep with rfl | ⟨hcounters', ⟨duration, hset⟩, hmaster'⟩
    · exact ⟨hcounters, hsize, hmaster⟩
    · refine ⟨⟨hcounters'.instances.trans hcounters.instances, hcounters'.ordered.trans hcounters.ordered,
        hcounters'.clients.trans hcounters.clients⟩, Or.inr (hset ▸ size_set_pos _ _ _), ?_⟩
      intro hne hbackup
      have h1 := hmaster hne hbackup
      have h2 := hmaster' hne hbackup
      exact ⟨⟨h2.instances.trans h1.instances, h2.ordered.trans h1.ordered, h2.clients.trans h1.clients⟩,
        h2.master.trans h1.master, h2.latencies.trans h1.latencies, h2.tooHigh.trans h1.tooHigh⟩
  · exact fun _ _ => ⟨⟨rfl, rfl, rfl⟩, rfl, rfl, rfl⟩

/-- the snapshot is taken of what was measured -/
theorem countIfLast_cases {reqs orderedNow : ℕ} (h : m.countIfLast reqs orderedNow = .ok m') :
    SameCounters m m' ∧ m'.clientAvgReqLatencies = m.clientAvgReqLatencies ∧ (m.NothingMeasured → m'.NothingMeasured) := by
  unfold countIfLast at h
  split_ifs at h
  · obtain ⟨_, _, hm⟩ := bind_eq_ok.1 h
    obtain rfl := Except.ok.inj hm
    refine ⟨⟨rfl, rfl, rfl⟩, rfl, fun hn => ⟨hn.ordered, hn.clients, rfl, ?_⟩⟩
    simp only [clearSnapshot, isMasterReqLatencyTooHigh, hn.tooHigh, hn.latencies]
    rfl
  · obtain rfl := Except.ok.inj h
    exact ⟨⟨rfl, rfl, rfl⟩, rfl, id⟩

/-! ## Every history -/

theorem silenceUnrecorded_requestUnOrdered {key : ReqKey} (h : m.SilenceUnrecorded) :
    (m.requestUnOrdered now key).SilenceUnrecorded :=
  ⟨⟨h.sized.ordered, h.sized.clients⟩, fun hsilent hcount =>
    have hn := h.nothing hsilent hcount
    ⟨hn.ordered, hn.clients, hn.latencies, hn.tooHigh⟩⟩

/-- a batch of a backup -/
theorem silenceUnrecorded_addOrdered_backup {durations : Dict ReqKey ℚ} (hne : instId ≠ 0) (h : m.SilenceUnrecorded)
    (hm : m.addOrdered instId durations = .ok m') : m'.SilenceUnrecorded := by
  unfold addOrdered at hm
  split at hm
  · cases hm
  · rename_i reqs tm _
    obtain ⟨hcounters, hclients, hkeep⟩ := countIfLast_cases hm
    have hzero : m'.numOrderedRequests[0]? = m.numOrderedRequests[0]? := by
      rw [hcounters.ordered]
      exact List.getElem?_set_ne hne
    refine ⟨hcounters.sized ⟨?_, h.sized.clients⟩, fun hsilent hcount => hkeep ?_⟩
    · simp [h.sized.ordered]
    · have hn := h.nothing (fun r hr => hsilent r (hzero ▸ hr)) (hcounters.instances ▸ hcount)
      exact ⟨(List.getElem?_set_ne hne).trans hn.ordered, hn.clients, hn.latencies, hn.tooHigh⟩

/-- a batch of the master, in which requests were measured or none -/
theorem silenceUnrecorded_addOrdered_master {durations : Dict ReqKey ℚ} (hs : m.Sized)
    (h : durations = Dict.empty → m.SilenceUnrecorded) (hm : m.addOrdered 0 durations = .ok m') :
    m'.SilenceUnrecorded := by
  unfold addOrdered at hm
  split at hm
  · cases hm
  · rename_i reqs tm hentry
    obtain ⟨hcounters, hclients, hkeep⟩ := countIfLast_cases hm
    have hlen : 0 < m.numOrderedRequests.length := (List.getElem?_eq_some_iff.1 hentry).1
    have hzero : m'.numOrderedRequests[0]? = some (reqs + durations.size, tm + durations.values.sum) := by
      rw [hcounters.ordered]
      exact List.getElem?_set_self hlen
    refine ⟨hcounters.sized ⟨?_, hs.clients⟩, fun hsilent hcount => hkeep ?_⟩
    · simp [hs.ordered]
    · -- nothing was measured, since the count is 0
      have hcount0 : reqs + durations.size = 0 := hsilent _ hzero
      have hempty : durations = Dict.empty := by
        have hentries : durations.entries = [] := List.eq_nil_of_length_eq_zero (Nat.eq_zero_of_add_eq_zero_left hcount0)
        cases durations
        cases hentries
        rfl
      have hreqs : reqs = 0 := by omega
      have hn := (h hempty).nothing (fun r hr => ?_) (hcounters.instances ▸ hcount)
      · rw [hn.ordered] at hentry
        cases hentry
        refine ⟨?_, hn.clients, hn.latencies, hn.tooHigh⟩
        rw [hempty]
        exact (List.getElem?_set_self hlen).trans (by simp [Dict.size, Dict.values, Dict.empty])
      · rw [hentry] at hr
        cases hr
        exact hreqs

theorem silenceUnrecorded_requestOrdered {reqIdrs : List ReqKey} {durations : Dict ReqKey ℚ}
    (hbyMaster : instId ≠ 0 → byMaster = false) (h : m.SilenceUnrecorded)
    (hm : m.requestOrdered now reqIdrs instId byMaster = .ok (m', durations)) : m'.SilenceUnrecorded := by
  obtain ⟨⟨m1, durations1⟩, hmeasured, hrest⟩ := bind_eq_ok.1 hm
  obtain ⟨m2, hadd, heq⟩ := bind_eq_ok.1 hrest
  cases Except.ok.inj heq
  obtain ⟨hcounters, hsize, hmaster⟩ := measured_cases hmeasured
  by_cases hinst : instId = 0
  · subst hinst
    refine silenceUnrecorded_addOrdered_master (hcounters.sized h.sized) (fun hempty => ?_) hadd
    rcases hsize with hsame | hpos
    · cases hsame
      exact h
    · rw [hempty] at hpos
      exact absurd hpos (Nat.lt_irrefl 0)
  · refine silenceUnrecorded_addOrdered_backup hinst ⟨hcounters.sized h.sized, fun hsilent hcount => ?_⟩ hadd
    have hn := h.nothing (fun r hr => hsilent r (hcounters.ordered ▸ hr)) (hcounters.instances ▸ hcount)
    exact (hmaster hinst (hbyMaster hinst)).nothingMeasured hn

theorem silenceUnrecorded_call {c : MonitorCall} (h : m.SilenceUnrecorded) (hm : m.call c = .ok m') :
    m'.SilenceUnrecorded := by
  cases c with
  | requestUnOrdered now key =>
    cases Except.ok.inj hm
    exact silenceUnrecorded_requestUnOrdered h
  | requestOrdered now reqIdrs instId =>
    obtain ⟨⟨m1, durations⟩, hordered, rfl⟩ := map_eq_ok.1 hm
    refine silenceUnrecorded_requestOrdered (fun hne => ?_) h hordered
    unfold Instances.masterId
    split_ifs <;> simp [Ne.symm hne]

/-- **The run lemma.** -/
theorem run_silent {m₀ : Monitor} {calls : List MonitorCall} (h : m₀.reset.runCalls calls = .ok m) :
    m.SilenceUnrecorded :=
  foldlM_inv (fun _ _ _ => silenceUnrecorded_call) (reset_silenceUnrecorded m₀) h

/-! ## What the heuristics say of it -/

theorem masterId_of_pos (hcount : 0 < m.instances.count) :
    m.instances.masterId.elim (Except.error MonitorError.typeError) .ok = .ok 0 := by
  unfold Instances.masterId
  rw [if_pos hcount]
  rfl

/-- no time was spent, so the throughput of the master is `None`, not 0 -/
theorem getThroughputs_nothing (hcount : 0 < m.instances.count) (hn : m.NothingMeasured) :
    ∃ backupThrp, m.getThroughputs 0 = .ok (none, backupThrp) := by
  have hthrp : m.getThroughput 0 = .ok none := by
    unfold getThroughput
    rw [if_neg (Nat.not_le.2 hcount), hn.ordered]
    simp
  have hearly : m.unlessTooEarly 0 none = .ok none := if_neg (by simp)
  exact ⟨_, bind_eq_ok.2 ⟨none, hthrp, bind_eq_ok.2 ⟨none, hearly, rfl⟩⟩⟩

theorem isMasterThroughputTooLow_nothing (hcount : 0 < m.instances.count) (hn : m.NothingMeasured) :
    m.isMasterThroughputTooLow = .ok none := by
  obtain ⟨backupThrp, hthrps⟩ := getThroughputs_nothing hcount hn
  have hratio : m.masterThroughputRatio = .ok none :=
    bind_eq_ok.2 ⟨0, masterId_of_pos hcount, bind_eq_ok.2 ⟨_, hthrps, rfl⟩⟩
  exact bind_eq_ok.2 ⟨none, hratio, rfl⟩

theorem isMasterReqLatencyTooHigh_nothing (hn : m.NothingMeasured) : m.isMasterReqLatencyTooHigh = none := by
  unfold isMasterReqLatencyTooHigh
  rw [hn.tooHigh, hn.latencies]
  rfl

theorem getAvgLatency_ok (hs : m.Sized) {instIds : List ℕ} (hcount : 0 < m.instances.count)
    (h : ∀ i ∈ instIds, i < m.instances.count) : ∃ avgs, m.getAvgLatency instIds = .ok avgs := by
  have hne : m.clientAvgReqLatencies ≠ [] := List.ne_nil_of_length_pos (hs.clients ▸ hcount)
  have hall : ∃ avgs, instIds.mapM (fun i => (m.clientAvgReqLatencies[i]?).elim
      (Except.error (α := Dict String (ℕ × ℚ)) MonitorError.indexError) .ok) = .ok avgs := by
    induction instIds with
    | nil => exact ⟨[], rfl⟩
    | cons i rest ih =>
      obtain ⟨avgs, havgs⟩ := ih fun j hj => h j (List.mem_cons_of_mem _ hj)
      have hi : i < m.clientAvgReqLatencies.length := hs.clients ▸ h i List.mem_cons_self
      refine ⟨m.clientAvgReqLatencies[i] :: avgs, ?_⟩
      rw [List.mapM_cons, List.getElem?_eq_getElem hi, havgs]
      rfl
  obtain ⟨avgs, havgs⟩ := hall
  unfold getAvgLatency
  rw [if_neg hne, havgs]
  exact ⟨_, rfl⟩

/-- the comparison of averages ends at the first client -/
theorem isMasterAvgReqLatencyTooHigh_nothing (hs : m.Sized) (hcount : 0 < m.instances.count) (hn : m.NothingMeasured) :
    m.isMasterAvgReqLatencyTooHigh = .ok false := by
  have hne : m.clientAvgReqLatencies ≠ [] := List.ne_nil_of_length_pos (hs.clients ▸ hcount)
  have havgM : m.getAvgLatency [0] = .ok Dict.empty := by
    unfold getAvgLatency
    rw [if_neg hne, List.mapM_cons, hn.clients]
    rfl
  obtain ⟨avgLatB, havgB⟩ := getAvgLatency_ok hs hcount (fun i (hi : i ∈ m.instances.backupIds) => by
    have := List.mem_range'_1.1 hi
    omega)
  have hnone : m.anyAvgTooHigh Dict.empty avgLatB.entries = false := by
    cases avgLatB.entries <;> rfl
  refine bind_eq_ok.2 ⟨0, masterId_of_pos hcount, bind_eq_ok.2 ⟨_, havgM, bind_eq_ok.2 ⟨_, havgB, ?_⟩⟩⟩
  exact congrArg Except.ok hnone

/-- **A master that orders nothing is never found degraded.** Whatever the backups order, and whatever `Delta` is. -/
theorem silent_master_undetected {m₀ : Monitor} {calls : List MonitorCall} (h : m₀.reset.runCalls calls = .ok m)
    (hsilent : m.MasterSilent) : m.isMasterDegraded = .ok (.bool false) := by
  have hrun := run_silent h
  unfold isMasterDegraded
  split_ifs with hmaster
  · rfl
  · have hcount : 0 < m.instances.count := by
      by_contra hzero
      exact hmaster (if_neg hzero)
    have hn := hrun.nothing hsilent hcount
    rw [isMasterThroughputTooLow_nothing hcount hn]
    unfold isMasterLatencyTooHigh
    rw [isMasterReqLatencyTooHigh_nothing hn, isMasterAvgReqLatencyTooHigh_nothing hrun.sized hcount hn]
    rfl

/-! ## Witnesses -/

/-- the situation in which the master should be found degraded -/
def DetectionDue (m : Monitor) : Prop :=
  2 ≤ m.instances.count ∧ m.MasterSilent ∧
    (m.getInstanceMetrics 0).any (fun r => m.instances.count < r.1 ∧ 0 < r.2) = true ∧ 0 < m.Delta

instance (m : Monitor) : Decidable m.DetectionDue := by
  unfold DetectionDue
  infer_instance

namespace TwoInstances

def started : Monitor where
  instances := ⟨2, [0, 0], rfl⟩
  Delta := 1 / 10
  Lambda := 60
  Omega := 5
  numOrderedRequests := [(0, 0), (0, 0)]
  requestOrderingStarted := Dict.empty
  masterReqLatencies := Dict.empty
  masterReqLatencyTooHigh := none
  clientAvgReqLatencies := [Dict.empty, Dict.empty]
  totalRequests := 0
  orderedRequestsInLast := []
  latenciesByMasterInLast := []
  latenciesByBackupsInLast := Dict.empty
  totalViewChanges := 0
  lastPostedViewChange := 0

/-- three requests are sent for ordering, and the backup orders them within a second -/
def backupOrders : List MonitorCall :=
  [.requestUnOrdered 1 ("client", 1), .requestUnOrdered 1 ("client", 2), .requestUnOrdered 1 ("client", 3),
    .requestOrdered 2 [("client", 1), ("client", 2), ("client", 3)] 1]

def afterwards : Monitor := ((started.reset.runCalls backupOrders).toOption).getD started

end TwoInstances

open TwoInstances in
/-- **A silent master that goes unnoticed.** -/
theorem silent_master : afterwards.DetectionDue ∧ (afterwards.isMasterDegraded.map Degraded.truthy).toOption = some false := by
  decide +kernel

open TwoInstances in
theorem silent_master_undetected_twoInstances :
    afterwards.DetectionDue ∧ afterwards.isMasterDegraded = .ok (.bool false) :=
  ⟨by decide +kernel, by
    have hrun : started.reset.runCalls backupOrders = .ok afterwards := rfl
    exact silent_master_undetected hrun (by decide +kernel)⟩

end Monitor

end Plenum
