/-
The total of ordered requests, and the count of the slowest instance.

- `slowest`: the least of some counts. `Overtakes`: a count that alone is the least grows beyond another one.
- `slowest_set_of_last`, `slowest_set_of_not_last`: what happens to the least count if one of them grows.
- `Monitor.step`: a batch adds its size to the total if its instance is then the slowest one. The total falls behind the
  slowest count exactly if the instance overtakes another one, and never catches up.
- `total_slowest_iff`: so after any calls the total has grown by the count of the slowest instance if and only if no batch
  has let an instance that alone was the slowest overtake another one.
- `batch_lost`: two instances, one batch each, and nothing is counted.
-/
import Mathlib.Tactic
import Plenum.Core.Run
import Plenum.Server.Monitor

namespace Plenum

open Plenum.Core

/-! ## The least of some counts -/

section Counts

variable {l : List ℕ} {i k : ℕ}

/-- the least count; zero if there is none -/
def slowest (l : List ℕ) : ℕ := l.min?.getD 0

/-- the count of `i` alone is the least, and with `k` more it exceeds another one -/
def Overtakes (l : List ℕ) (i k : ℕ) : Prop :=
  (∀ j < l.length, j ≠ i → l.getD i 0 < l.getD j 0) ∧ ∃ j < l.length, j ≠ i ∧ l.getD j 0 < l.getD i 0 + k

instance (l : List ℕ) (i k : ℕ) : Decidable (Overtakes l i k) := inferInstanceAs (Decidable (_ ∧ _))

theorem min?_eq_slowest (h : l ≠ []) : l.min? = some (slowest l) := by
  obtain ⟨n, hn⟩ := Option.isSome_iff_exists.1 (List.isSome_min?_of_ne_nil h)
  rw [slowest, hn]
  rfl

theorem slowest_mem (h : l ≠ []) : slowest l ∈ l := List.min?_mem (min?_eq_slowest h)

theorem slowest_le {n : ℕ} (h : n ∈ l) : slowest l ≤ n :=
  (List.min?_eq_some_iff.1 (min?_eq_slowest (List.ne_nil_of_mem h))).2 n h

theorem getD_of_lt {j : ℕ} (h : j < l.length) : l.getD j 0 = l[j] := by
  rw [List.getD_eq_getElem?_getD, List.getElem?_eq_getElem h, Option.getD_some]

theorem slowest_le_getD {j : ℕ} (h : j < l.length) : slowest l ≤ l.getD j 0 := by
  rw [getD_of_lt h]
  exact slowest_le (List.getElem_mem h)

theorem exists_slowest (h : l ≠ []) : ∃ j < l.length, l.getD j 0 = slowest l := by
  obtain ⟨j, hj, hslow⟩ := List.getElem_of_mem (slowest_mem h)
  exact ⟨j, hj, by rw [getD_of_lt hj, hslow]⟩

theorem getD_set_self (h : i < l.length) (n : ℕ) : (l.set i n).getD i 0 = n := by
  rw [getD_of_lt (by rwa [List.length_set]), List.getElem_set_self]

theorem getD_set_ne {j : ℕ} (h : j ≠ i) (n : ℕ) : (l.set i n).getD j 0 = l.getD j 0 := by
  rw [List.getD_eq_getElem?_getD, List.getD_eq_getElem?_getD, List.getElem?_set_ne h.symm]

/-- what is least afterwards is the new count or another one -/
theorem slowest_set_cases (hi : i < l.length) (n : ℕ) :
    slowest (l.set i n) = n ∨ ∃ j < l.length, j ≠ i ∧ l.getD j 0 = slowest (l.set i n) := by
  have hne : l.set i n ≠ [] := List.ne_nil_of_length_pos (by rw [List.length_set]; omega)
  obtain ⟨j, hj, hslow⟩ := exists_slowest hne
  rw [List.length_set] at hj
  by_cases hji : j = i
  · left
    rw [← hslow, hji, getD_set_self hi]
  · right
    exact ⟨j, hj, hji, by rw [← hslow, getD_set_ne hji]⟩

theorem slowest_set_le {j : ℕ} (hj : j < l.length) (hji : j ≠ i) (n : ℕ) : slowest (l.set i n) ≤ l.getD j 0 := by
  rw [← getD_set_ne hji n]
  exact slowest_le_getD (by rwa [List.length_set])

/-- the count that grows is the least afterwards: it was the least before, and overtook none -/
theorem slowest_set_of_last (hi : i < l.length) (h : slowest (l.set i (l.getD i 0 + k)) = l.getD i 0 + k) :
    slowest (l.set i (l.getD i 0 + k)) = slowest l + k ∧ ¬ Overtakes l i k := by
  have hothers : ∀ j < l.length, j ≠ i → l.getD i 0 + k ≤ l.getD j 0 := fun j hj hji => h ▸ slowest_set_le hj hji _
  refine ⟨?_, ?_⟩
  · obtain ⟨j, hj, hslow⟩ := exists_slowest (List.ne_nil_of_length_pos (i.zero_le.trans_lt hi))
    have hle := slowest_le_getD hi
    rw [h]
    by_cases hji : j = i
    · rw [← hslow, hji]
    · have := hothers j hj hji
      omega
  · rintro ⟨-, j, hj, hji, hlt⟩
    have := hothers j hj hji
    omega

/-- it is not: the least count has not shrunk, and has grown exactly if another one was overtaken -/
theorem slowest_set_of_not_last (hi : i < l.length) (h : slowest (l.set i (l.getD i 0 + k)) ≠ l.getD i 0 + k) :
    slowest l ≤ slowest (l.set i (l.getD i 0 + k)) ∧
      (Overtakes l i k ↔ slowest l < slowest (l.set i (l.getD i 0 + k))) := by
  obtain ⟨j, hj, hji, hslow⟩ := (slowest_set_cases hi _).resolve_left h
  have hgrown : slowest (l.set i (l.getD i 0 + k)) < l.getD i 0 + k := by
    refine lt_of_le_of_ne ?_ h
    have hlen : i < (l.set i (l.getD i 0 + k)).length := by rwa [List.length_set]
    exact (slowest_le_getD hlen).trans_eq (getD_set_self hi _)
  refine ⟨hslow ▸ slowest_le_getD hj, fun hover => ?_, fun hlt => ⟨fun j' hj' hji' => ?_, j, hj, hji, hslow ▸ hgrown⟩⟩
  · rw [← hslow]
    exact (slowest_le_getD hi).trans_lt (hover.1 j hj hji)
  · -- the least count before was that of `i`, since those of the others are still there
    obtain ⟨j₀, hj₀, hleast⟩ := exists_slowest (List.ne_nil_of_length_pos (i.zero_le.trans_lt hi))
    have hsame : j₀ = i := by
      by_contra hne
      have := slowest_set_le hj₀ hne (l.getD i 0 + k)
      omega
    have := slowest_set_le hj' hji' (l.getD i 0 + k)
    rw [hsame] at hleast
    omega

/-- what is counted when a batch makes its instance the slowest -/
def countedIfLast (l : List ℕ) (i k : ℕ) : ℕ :=
  if (l.set i (l.getD i 0 + k)).min? = some (l.getD i 0 + k) then k else 0

/-- what is counted is at most what the least count has grown by, and less than that only if a count is overtaken -/
theorem countedIfLast_spec (hi : i < l.length) :
    countedIfLast l i k + slowest l ≤ slowest (l.set i (l.getD i 0 + k)) ∧
      (countedIfLast l i k + slowest l = slowest (l.set i (l.getD i 0 + k)) ↔ ¬ Overtakes l i k) := by
  have hne : l.set i (l.getD i 0 + k) ≠ [] := List.ne_nil_of_length_pos (by rw [List.length_set]; omega)
  unfold countedIfLast
  rw [min?_eq_slowest hne]
  split_ifs with hlast
  · obtain ⟨hgrown, hover⟩ := slowest_set_of_last hi (Option.some.inj hlast)
    rw [hgrown, Nat.add_comm k]
    exact ⟨le_rfl, iff_of_true rfl hover⟩
  · obtain ⟨hle, hover⟩ := slowest_set_of_not_last hi fun h => hlast (congrArg some h)
    rw [hover]
    omega

end Counts

namespace Monitor

variable {m m' : Monitor} {now : ℚ} {instId : ℕ} {byMaster : Bool} {reqIdrs : List ReqKey}

/-! ## Where counting starts -/

/-- a new monitor, without instances -/
def init (Delta Lambda Omega : ℚ) : Monitor where
  instances := ⟨0, [], List.length_nil⟩
  Delta := Delta
  Lambda := Lambda
  Omega := Omega
  numOrderedRequests := []
  requestOrderingStarted := Dict.empty
  masterReqLatencies := Dict.empty
  masterReqLatencyTooHigh := none
  clientAvgReqLatencies := []
  totalRequests := 0
  orderedRequestsInLast := []
  latenciesByMasterInLast := []
  latenciesByBackupsInLast := Dict.empty
  totalViewChanges := 0
  lastPostedViewChange := 0

/-- a monitor that was just created or reset, and instances added to it -/
inductive Started : Monitor → Prop
  | init (Delta Lambda Omega : ℚ) : Started (init Delta Lambda Omega)
  | reset (m : Monitor) : Started m.reset
  | addInstance {m : Monitor} (now : ℚ) (h : Started m) : Started (m.addInstance now)

/-- how many requests each instance has ordered -/
def counts (m : Monitor) : List ℕ := m.numOrderedRequests.map Prod.fst

theorem Started.counts_zero (h : Started m) : ∀ n ∈ m.counts, n = 0 := by
  induction h with
  | init Delta Lambda Omega =>
    intro n hn
    cases hn
  | reset m =>
    intro n hn
    obtain ⟨r, hr, rfl⟩ := List.mem_map.1 hn
    obtain ⟨t, -, rfl⟩ := List.mem_map.1 hr
    rfl
  | addInstance now h ih =>
    intro n hn
    rw [counts, Monitor.addInstance, List.map_append, List.mem_append] at hn
    rcases hn with hold | hnew
    · exact ih n hold
    · exact List.mem_singleton.1 hnew

theorem Started.sized (h : Started m) : m.Sized := by
  induction h with
  | init Delta Lambda Omega => exact ⟨rfl, rfl⟩
  | reset m => exact ⟨by simp [Monitor.reset, m.instances.sized], by simp [Monitor.reset, m.instances.sized]⟩
  | addInstance now h ih =>
    refine ⟨?_, ?_⟩
    · simp [Monitor.addInstance, Instances.add, ih.ordered]
    · simp [Monitor.addInstance, Instances.add, ih.clients]

theorem Started.slowest_zero (h : Started m) : slowest m.counts = 0 := by
  by_cases hne : m.counts = []
  · rw [hne]
    rfl
  · exact h.counts_zero _ (slowest_mem hne)

/-! ## What a batch adds -/

/-- how many requests of a batch were sent for ordering since the last reset; a request given twice counts once -/
def newlyOrdered (m : Monitor) (reqIdrs : List ReqKey) : ℕ :=
  (reqIdrs.filter fun key => m.requestOrderingStarted.contains key).dedup.length

/-- what measuring leaves alone -/
structure SameTotals (m m' : Monitor) : Prop extends SameCounters m m' where
  known : m'.requestOrderingStarted = m.requestOrderingStarted
  total : m'.totalRequests = m.totalRequests

theorem SameTotals.refl (m : Monitor) : SameTotals m m := ⟨⟨rfl, rfl, rfl⟩, rfl, rfl⟩

theorem SameTotals.trans {m₁ m₂ m₃ : Monitor} (h : SameTotals m₁ m₂) (h' : SameTotals m₂ m₃) : SameTotals m₁ m₃ :=
  ⟨⟨h'.instances.trans h.instances, h'.ordered.trans h.ordered, h'.clients.trans h.clients⟩, h'.known.trans h.known,
    h'.total.trans h.total⟩

theorem sameTotals_addLatency (key : ReqKey) (duration : ℚ) :
    SameTotals m (m.addLatency now instId byMaster key duration) := by
  unfold addLatency
  split_ifs
  · exact ⟨⟨rfl, rfl, rfl⟩, rfl, rfl⟩
  · exact ⟨⟨rfl, rfl, rfl⟩, rfl, rfl⟩

theorem addClientLatency_spec (hinst : instId < m.clientAvgReqLatencies.length) (identifier : String) (duration : ℚ) :
    ∃ m', m.addClientLatency instId identifier duration = .ok m' ∧ SameTotals m m' := by
  unfold addClientLatency
  rw [List.getElem?_eq_getElem hinst]
  exact ⟨_, rfl, ⟨rfl, rfl, List.length_set⟩, rfl, rfl⟩

section Measuring

variable (now : ℚ) (byMaster : Bool)

/-- measuring one request of an instance -/
theorem measure_spec {acc : Monitor × Dict ReqKey ℚ} (hinst : instId < acc.1.clientAvgReqLatencies.length) (key : ReqKey) :
    ∃ acc', measure now instId byMaster acc key = .ok acc' ∧ SameTotals acc.1 acc'.1 ∧
      acc'.2.keys.toFinset =
        acc.2.keys.toFinset ∪ if acc.1.requestOrderingStarted.contains key then {key} else ∅ := by
  unfold measure Dict.contains
  cases hkey : acc.1.requestOrderingStarted.get? key with
  | none => exact ⟨acc, rfl, SameTotals.refl _, by simp⟩
  | some startedAt =>
    have hlat : SameTotals acc.1 (acc.1.addLatency now instId byMaster key (now - startedAt)) := sameTotals_addLatency _ _
    obtain ⟨m', hm', hsame⟩ := addClientLatency_spec (hlat.clients.symm ▸ hinst) key.1 (now - startedAt)
    refine ⟨(m', acc.2.set key (now - startedAt)), bind_eq_ok.2 ⟨m', hm', rfl⟩, hlat.trans hsame, ?_⟩
    ext k
    simp [Dict.mem_keys_set]

/-- measuring a batch -/
theorem measured_spec (reqIdrs : List ReqKey) {acc : Monitor × Dict ReqKey ℚ}
    (hinst : instId < acc.1.clientAvgReqLatencies.length) :
    ∃ acc', reqIdrs.foldlM (measure now instId byMaster) acc = .ok acc' ∧ SameTotals acc.1 acc'.1 ∧
      acc'.2.keys.toFinset = acc.2.keys.toFinset ∪
        (reqIdrs.filter fun key => acc.1.requestOrderingStarted.contains key).toFinset := by
  induction reqIdrs generalizing acc with
  | nil => exact ⟨acc, rfl, SameTotals.refl _, by simp⟩
  | cons key rest ih =>
    obtain ⟨acc₁, hstep, hsame, hkeys⟩ := measure_spec now byMaster hinst key
    obtain ⟨acc', hrest, hsame', hkeys'⟩ := ih (hsame.clients.symm ▸ hinst)
    refine ⟨acc', ?_, hsame.trans hsame', ?_⟩
    · rw [List.foldlM_cons]
      exact bind_eq_ok.2 ⟨acc₁, hstep, hrest⟩
    · rw [hkeys', hkeys, hsame.known, List.filter_cons, Finset.union_assoc]
      split_ifs
      · rw [List.toFinset_cons, Finset.insert_eq]
      · rw [Finset.empty_union]

end Measuring

/-- the size of a batch is what `newlyOrdered` says -/
theorem measured_size {acc : Monitor × Dict ReqKey ℚ}
    (h : acc.2.keys.toFinset = (reqIdrs.filter fun key => m.requestOrderingStarted.contains key).toFinset) :
    acc.2.size = m.newlyOrdered reqIdrs := by
  rw [Dict.size_eq_card, h, List.card_toFinset]
  rfl

/-! ## The metrics never raise while there is an instance -/

theorem getThroughput_ok (hs : m.Sized) (instId : ℕ) : ∃ thrp, m.getThroughput instId = .ok thrp := by
  unfold getThroughput
  split_ifs with hcount
  · exact ⟨none, rfl⟩
  · rw [List.getElem?_eq_getElem (hs.ordered ▸ not_le.1 hcount)]
    exact ⟨_, rfl⟩

/-- a throughput of 0 was measured over some time, so the sums over the other instances are not looked at -/
theorem unlessTooEarly_ok {thrp : Option ℚ} (h : m.getThroughput instId = .ok thrp) :
    m.unlessTooEarly instId thrp = .ok thrp := by
  unfold unlessTooEarly
  split_ifs with hearly
  · obtain ⟨rfl, hentry⟩ := hearly
    unfold getThroughput at h
    split_ifs at h with hcount
    · cases h
    · rw [hentry] at h
      simp at h
  · rfl

theorem masterThroughputRatio_ok (hs : m.Sized) (hcount : 0 < m.instances.count) :
    ∃ r, m.masterThroughputRatio = .ok r := by
  obtain ⟨thrp, hthrp⟩ := getThroughput_ok hs 0
  exact ⟨_, bind_eq_ok.2 ⟨0, masterId_of_pos hcount,
    bind_eq_ok.2 ⟨_, bind_eq_ok.2 ⟨thrp, hthrp, bind_eq_ok.2 ⟨thrp, unlessTooEarly_ok hthrp, rfl⟩⟩, rfl⟩⟩⟩

theorem metrics_ok (hs : m.Sized) (hcount : 0 < m.instances.count) : ∃ r, m.metrics = .ok r := by
  obtain ⟨r, hr⟩ := masterThroughputRatio_ok hs hcount
  have hall : ∀ l : List ℕ, ∃ thrps, l.mapM m.getThroughput = .ok thrps := by
    intro l
    induction l with
    | nil => exact ⟨[], rfl⟩
    | cons i l ih =>
      obtain ⟨thrps, hthrps⟩ := ih
      obtain ⟨thrp, hthrp⟩ := getThroughput_ok hs i
      refine ⟨thrp :: thrps, ?_⟩
      rw [List.mapM_cons, hthrp, hthrps]
      rfl
  obtain ⟨thrps, hthrps⟩ := hall m.instances.ids
  exact ⟨_, bind_eq_ok.2 ⟨r, hr, bind_eq_ok.2 ⟨thrps, hthrps, rfl⟩⟩⟩

/-- the total grows by the batch if its instance is then among the slowest -/
theorem countIfLast_spec (hs : m.Sized) (hcount : 0 < m.instances.count) (reqs orderedNow : ℕ) :
    ∃ m', m.countIfLast reqs orderedNow = .ok m' ∧ m'.counts = m.counts ∧ m'.instances = m.instances ∧ m'.Sized ∧
      m'.totalRequests =
        m.totalRequests + if m.counts.min? = some (reqs + orderedNow) then orderedNow else 0 := by
  unfold countIfLast counts
  split_ifs with hlast
  · have hs' : { m with totalRequests := m.totalRequests + orderedNow }.Sized := ⟨hs.ordered, hs.clients⟩
    obtain ⟨r, hr⟩ := metrics_ok hs' hcount
    exact ⟨_, bind_eq_ok.2 ⟨r, hr, rfl⟩, rfl, rfl, ⟨hs.ordered, hs.clients⟩, rfl⟩
  · exact ⟨m, rfl, rfl, rfl, hs, rfl⟩

/-! ## One batch -/

variable (now byMaster reqIdrs) in
/-- the counts after a batch -/
theorem requestOrdered_spec (hs : m.Sized) (hinst : instId < m.instances.count) :
    ∃ r, m.requestOrdered now reqIdrs instId byMaster = .ok r ∧ r.1.instances = m.instances ∧ r.1.Sized ∧
      r.1.counts = m.counts.set instId (m.counts.getD instId 0 + m.newlyOrdered reqIdrs) ∧
      r.1.totalRequests = m.totalRequests + countedIfLast m.counts instId (m.newlyOrdered reqIdrs) := by
  obtain ⟨acc, hacc, hsame, hkeys⟩ :=
    measured_spec now byMaster reqIdrs (show instId < (m, Dict.empty).1.clientAvgReqLatencies.length from hs.clients ▸ hinst)
  have hsize : acc.2.size = m.newlyOrdered reqIdrs := measured_size (by simpa [Dict.keys, Dict.empty] using hkeys)
  have hlt : instId < m.numOrderedRequests.length := hs.ordered ▸ hinst
  have hentry : acc.1.numOrderedRequests[instId]? = some m.numOrderedRequests[instId] := by
    rw [hsame.ordered]
    exact List.getElem?_eq_getElem hlt
  have hcount : m.counts.getD instId 0 = m.numOrderedRequests[instId].1 := by
    rw [getD_of_lt (by rwa [counts, List.length_map])]
    exact List.getElem_map _
  obtain ⟨⟨reqs, tm⟩, hr⟩ : ∃ r, m.numOrderedRequests[instId] = r := ⟨_, rfl⟩
  rw [hr] at hentry hcount
  obtain ⟨m', hm', hcounts', hinst', hs', htotal'⟩ := countIfLast_spec
    (m := { acc.1 with
      numOrderedRequests := acc.1.numOrderedRequests.set instId (reqs + acc.2.size, tm + acc.2.values.sum) })
    ⟨by simpa using (hsame.sized hs).ordered, (hsame.sized hs).clients⟩
    (by rw [hsame.instances]; exact instId.zero_le.trans_lt hinst) reqs acc.2.size
  have hadd : acc.1.addOrdered instId acc.2 = .ok m' := by
    unfold addOrdered
    rw [hentry]
    exact hm'
  have hnew : m'.counts = m.counts.set instId (m.counts.getD instId 0 + m.newlyOrdered reqIdrs) := by
    rw [hcounts', counts, List.map_set, hsame.ordered, hcount, hsize]
    rfl
  refine ⟨(m', acc.2), bind_eq_ok.2 ⟨acc, hacc, bind_eq_ok.2 ⟨m', hadd, rfl⟩⟩, hinst'.trans hsame.instances, hs', hnew, ?_⟩
  rw [htotal', ← hcounts', hnew, hsize, countedIfLast, hcount]
  exact congrArg (· + _) hsame.total

/-! ## Every call -/

/-- the call is for an instance of the monitor -/
def MonitorCall.For (n : ℕ) : MonitorCall → Prop
  | .requestUnOrdered _ _ => True
  | .requestOrdered _ _ instId => instId < n

instance (n : ℕ) : ∀ c : MonitorCall, Decidable (c.For n)
  | .requestUnOrdered _ _ => inferInstanceAs (Decidable True)
  | .requestOrdered _ _ _ => inferInstanceAs (Decidable (_ < _))

/-- a batch with which an instance that alone is the slowest overtakes another one -/
def Overtaking (m : Monitor) : MonitorCall → Prop
  | .requestUnOrdered _ _ => False
  | .requestOrdered _ reqIdrs instId => Overtakes m.counts instId (m.newlyOrdered reqIdrs)

instance (m : Monitor) : ∀ c : MonitorCall, Decidable (m.Overtaking c)
  | .requestUnOrdered _ _ => inferInstanceAs (Decidable False)
  | .requestOrdered _ _ _ => inferInstanceAs (Decidable (Overtakes _ _ _))

/-- the total does not gain on the slowest count, and keeps up with it unless an instance overtakes -/
structure KeepsUp (m m' : Monitor) (overtaken : Prop) : Prop where
  instances : m'.instances = m.instances
  sized : m'.Sized
  bounded : m'.totalRequests + slowest m.counts ≤ m.totalRequests + slowest m'.counts
  exact_iff : m'.totalRequests + slowest m.counts = m.totalRequests + slowest m'.counts ↔ ¬ overtaken

/-- **The step.** -/
theorem call_keepsUp (hs : m.Sized) {c : MonitorCall} (hc : c.For m.instances.count) :
    ∃ m', m.call c = .ok m' ∧ KeepsUp m m' (m.Overtaking c) := by
  cases c with
  | requestUnOrdered now key =>
    exact ⟨_, rfl, rfl, ⟨hs.ordered, hs.clients⟩, le_rfl, iff_of_true rfl not_false⟩
  | requestOrdered now reqIdrs instId =>
    have hinst : instId < m.instances.count := hc
    obtain ⟨r, hr, hinstances, hsized, hcounts, htotal⟩ :=
      requestOrdered_spec now (m.instances.masterId = some instId) reqIdrs hs hinst
    have hlen : instId < m.counts.length := by rwa [counts, List.length_map, hs.ordered]
    obtain ⟨hle, heq⟩ := countedIfLast_spec (k := m.newlyOrdered reqIdrs) hlen
    rw [← hcounts] at hle heq
    refine ⟨r.1, map_eq_ok.2 ⟨r, hr, rfl⟩, hinstances, hsized, by omega, ?_⟩
    change _ ↔ ¬ Overtakes m.counts instId (m.newlyOrdered reqIdrs)
    rw [← heq, htotal]
    omega

theorem KeepsUp.trans {m₁ m₂ m₃ : Monitor} {p q : Prop} (h : KeepsUp m₁ m₂ p) (h' : KeepsUp m₂ m₃ q) :
    KeepsUp m₁ m₃ (p ∨ q) := by
  have hle := h.bounded
  have hle' := h'.bounded
  refine ⟨h'.instances.trans h.instances, h'.sized, by omega, ?_⟩
  rw [not_or, ← h.exact_iff, ← h'.exact_iff]
  omega

/-- no call lets an instance that alone is the slowest overtake another one -/
def NeverOvertaking (m : Monitor) (calls : List MonitorCall) : Prop :=
  ∀ past c rest, calls = past ++ c :: rest → ∀ s, m.runCalls past = .ok s → ¬ s.Overtaking c

theorem neverOvertaking_cons {c : MonitorCall} {calls : List MonitorCall} {s : Monitor} (h : m.call c = .ok s) :
    m.NeverOvertaking (c :: calls) ↔ ¬ m.Overtaking c ∧ s.NeverOvertaking calls := by
  have hcons : ∀ past, m.runCalls (c :: past) = s.runCalls past := by
    intro past
    rw [runCalls, List.foldlM_cons, h]
    rfl
  unfold NeverOvertaking
  rw [forall_split_cons]
  refine and_congr ⟨fun hall => hall m rfl, fun hover s' hs' => ?_⟩ ?_
  · cases Except.ok.inj hs'
    exact hover
  · simp only [hcons]

/-- **The run.** -/
theorem runCalls_keepsUp (hs : m.Sized) {calls : List MonitorCall} (hcalls : ∀ c ∈ calls, c.For m.instances.count) :
    ∃ m', m.runCalls calls = .ok m' ∧ KeepsUp m m' (¬ m.NeverOvertaking calls) := by
  induction calls generalizing m with
  | nil =>
    refine ⟨m, rfl, rfl, hs, le_rfl, iff_of_true rfl (not_not.2 ?_)⟩
    intro past c rest hsplit
    cases past <;> cases hsplit
  | cons c calls ih =>
    obtain ⟨s, hstep, hkeeps⟩ := call_keepsUp hs (hcalls c List.mem_cons_self)
    obtain ⟨m', hrun, hkeeps'⟩ := ih hkeeps.sized fun c' hc' =>
      hkeeps.instances.symm ▸ hcalls c' (List.mem_cons_of_mem _ hc')
    refine ⟨m', ?_, ?_⟩
    · rw [runCalls, List.foldlM_cons, hstep]
      exact hrun
    · rw [neverOvertaking_cons hstep, not_and_or, not_not]
      exact hkeeps.trans hkeeps'

/-- **When the total counts what the slowest instance has ordered.** For every monitor that was just created or reset,
with any instances, and every sequence of calls for them: the calls return, and the total has grown by the least count of
all instances, if and only if no batch has let an instance that alone was the slowest overtake another one. -/
theorem total_slowest_iff (hstarted : Started m) (calls : List MonitorCall)
    (hcalls : ∀ c ∈ calls, c.For m.instances.count) :
    ∃ m', m.runCalls calls = .ok m' ∧
      (m'.totalRequests = m.totalRequests + slowest m'.counts ↔ m.NeverOvertaking calls) := by
  obtain ⟨m', hrun, hkeeps⟩ := runCalls_keepsUp hstarted.sized hcalls
  refine ⟨m', hrun, ?_⟩
  have hexact := hkeeps.exact_iff
  rw [hstarted.slowest_zero, Nat.add_zero, not_not] at hexact
  exact hexact

/-! ## Witness and counterexample -/

namespace TwoInstances

/-- a new monitor of two instances -/
def created : Monitor := ((init (1 / 10) 60 5).addInstance 0).addInstance 0

theorem created_started : Started created := .addInstance 0 (.addInstance 0 (.init _ _ _))

/-- two requests are sent for ordering -/
def twoRequests : List MonitorCall := [.requestUnOrdered 1 ("client", 1), .requestUnOrdered 1 ("client", 2)]

/-- the backup orders one of them, and then the master both in one batch -/
def masterOvertakes : List MonitorCall :=
  twoRequests ++ [.requestOrdered 2 [("client", 1)] 1, .requestOrdered 3 [("client", 1), ("client", 2)] 0]

/-- the master orders both in one batch, then the backup the first one -/
def backupFollows : List MonitorCall :=
  twoRequests ++ [.requestOrdered 2 [("client", 1), ("client", 2)] 0, .requestOrdered 3 [("client", 1)] 1]

end TwoInstances

open TwoInstances in
/-- **A batch that is not counted.** Each instance has ordered a request, and the total is zero. -/
theorem batch_lost :
    (created.runCalls masterOvertakes).toOption.map (fun m => (m.totalRequests, slowest m.counts)) = some (0, 1) ∧
    ¬ ∀ m', created.runCalls masterOvertakes = .ok m' → m'.totalRequests = created.totalRequests + slowest m'.counts := by
  have hrun : (created.runCalls masterOvertakes).toOption.map (fun m => (m.totalRequests, slowest m.counts)) =
      some (0, 1) := by decide +kernel
  refine ⟨hrun, fun h => ?_⟩
  cases hresult : created.runCalls masterOvertakes with
  | error e =>
    rw [hresult] at hrun
    cases hrun
  | ok m' =>
    have htotal := h m' hresult
    rw [hresult] at hrun
    obtain ⟨hzero, hone⟩ := Prod.mk.inj (Option.some.inj hrun)
    rw [hzero, hone] at htotal
    cases htotal

open TwoInstances in
/-- the backup stays behind, and what it orders is counted -/
theorem total_slowest_iff_backupFollows :
    (∃ m', created.runCalls backupFollows = .ok m' ∧
      (m'.totalRequests = created.totalRequests + slowest m'.counts ↔ created.NeverOvertaking backupFollows)) ∧
    (created.runCalls backupFollows).toOption.map (fun m => (m.totalRequests, slowest m.counts)) = some (1, 1) :=
  ⟨total_slowest_iff created_started backupFollows (by decide), by decide +kernel⟩

end Monitor

end Plenum
