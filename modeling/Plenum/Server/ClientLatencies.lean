/-
When the average latencies of the clients make the monitor find the master degraded.

- `masterAvg`, `backupAvgs`: what is recorded of a client; `TooSlow`: its average on the master exceeds the mean of its
  averages on the backups by more than `Omega`.
- `get?_avgLatency`, `leads_avgLatency`: the merged dictionary of the backups holds the averages of each client, and its
  keys stand in the order in which the backups first recorded them.
- `isMasterAvgReqLatencyTooHigh_eq_true`: the scan finds a slow client if all clients before it are known to the master.
- `judged_over_all_iff`: so it finds out whether any client is too slow exactly if one that is comes before every client
  that only backups have recorded.
- `slow_client_hidden`: a client that is new to the master hides a slow one, and does not if it was recorded later.
-/
import Mathlib.Tactic
import Plenum.Core.Leads
import Plenum.Server.Monitor

namespace Plenum

open Plenum.Core

namespace Monitor

variable {m : Monitor}

/-! ## What is recorded of a client -/

/-- the average latency of the client on the master -/
def masterAvg (m : Monitor) (cid : String) : Option ℚ :=
  (m.clientAvgReqLatencies.head?.bind fun avgs => avgs.get? cid).map Prod.snd

/-- its average latencies on those backups that have a record of it -/
def backupAvgs (m : Monitor) (cid : String) : List ℚ :=
  m.clientAvgReqLatencies.tail.filterMap fun avgs => (avgs.get? cid).map Prod.snd

/-- the clients that the backups have recorded, in the order of the backups and of their records -/
def backupClients (m : Monitor) : List String := m.clientAvgReqLatencies.tail.flatMap Dict.keys

/-- the client is recorded on both sides, and its average on the master exceeds that on the backups by more than `Omega` -/
def TooSlow (m : Monitor) (cid : String) : Prop :=
  m.backupAvgs cid ≠ [] ∧ ∃ avg, m.masterAvg cid = some avg ∧ m.Omega < avg - mean (m.backupAvgs cid)

/-- the heuristic is true exactly if some client is too slow -/
def JudgedOverAll (m : Monitor) : Prop := m.isMasterAvgReqLatencyTooHigh = .ok true ↔ ∃ cid, m.TooSlow cid

/-- a client that is too slow comes before all that the master has no record of -/
def SlowBeforeUnknown (m : Monitor) : Prop := Leads (fun cid => (m.masterAvg cid).isSome) m.TooSlow m.backupClients

/-! ## The merged averages -/

/-- an average joins those of its client -/
def avgsOf : KeyedMerge (String × ℕ × ℚ) String (List ℚ) := ⟨fun e => some e.1, fun avgs e => avgs.getD [] ++ [e.2.2]⟩

theorem foldl_addAvgLatency (l : List (String × ℕ × ℚ)) : l.foldl addAvgLatency Dict.empty = avgsOf.replay l Dict.empty := rfl

theorem mergeAll_avgsOf (l : List (String × ℕ × ℚ)) (avgs : Option (List ℚ)) :
    avgsOf.mergeAll l avgs = if l = [] then avgs else some (avgs.getD [] ++ l.map fun e => e.2.2) := by
  induction l generalizing avgs with
  | nil => rfl
  | cons e l ih =>
    change avgsOf.mergeAll l (some (avgs.getD [] ++ [e.2.2])) = _
    rw [ih, if_neg (List.cons_ne_nil e l)]
    split_ifs with hl
    · rw [hl]
      rfl
    · simp

/-- the averages of a client among those of some instances -/
theorem recordsOf_avgs (ds : List (Dict String (ℕ × ℚ))) (cid : String) :
    (avgsOf.recordsOf cid (ds.flatMap Dict.entries)).map (fun e => e.2.2) =
      ds.filterMap fun avgs => (avgs.get? cid).map Prod.snd := by
  have hrecords : ∀ l, avgsOf.recordsOf cid l = l.filter fun e => e.1 = cid := by
    intro l
    unfold KeyedMerge.recordsOf avgsOf
    simp only [Option.some.injEq]
  induction ds with
  | nil => rfl
  | cons d ds ih =>
    rw [hrecords] at ih ⊢
    rw [List.flatMap_cons, List.filter_append, List.map_append, ih, Dict.filter_entries, List.filterMap_cons]
    cases d.get? cid <;> rfl

/-- what the merged dictionary says of a client -/
theorem get?_avgLatency (ds : List (Dict String (ℕ × ℚ))) (cid : String) :
    ((ds.flatMap Dict.entries).foldl addAvgLatency Dict.empty).get? cid =
      if (ds.filterMap fun avgs => (avgs.get? cid).map Prod.snd) = [] then none
      else some (ds.filterMap fun avgs => (avgs.get? cid).map Prod.snd) := by
  rw [foldl_addAvgLatency, KeyedMerge.get?_replay, mergeAll_avgsOf, ← recordsOf_avgs ds cid]
  simp only [List.map_eq_nil_iff]
  rfl

/-- a scan of the merged dictionary goes through the clients in the order of the instances and of their records -/
theorem leads_avgLatency {P Q : String → Prop} (ds : List (Dict String (ℕ × ℚ))) :
    Leads P Q ((ds.flatMap Dict.entries).foldl addAvgLatency Dict.empty).keys ↔ Leads P Q (ds.flatMap Dict.keys) := by
  have hkeys : (ds.flatMap Dict.entries).map Prod.fst = ds.flatMap Dict.keys := List.map_flatMap
  rw [foldl_addAvgLatency, avgsOf.leads_keys_replay (fun _ => rfl), hkeys]
  rfl

/-! ## The scan -/

/-- the scan ends at the first client that is too slow or unknown -/
theorem anyAvgTooHigh_iff (m : Monitor) (avgLatM : Dict String (List ℚ)) (l : List (String × List ℚ)) :
    m.anyAvgTooHigh avgLatM l = true ↔
      Leads (fun e => (avgLatM.get? e.1).isSome)
        (fun e => ∃ latM, avgLatM.get? e.1 = some latM ∧ m.Omega < mean latM - mean e.2) l := by
  induction l with
  | nil => simp [anyAvgTooHigh, not_leads_nil]
  | cons e l ih =>
    rw [leads_cons, anyAvgTooHigh]
    cases hM : avgLatM.get? e.1 with
    | none => simp
    | some latM =>
      dsimp only
      split_ifs with hslow
      · simp [hslow]
      · rw [ih]
        simp [hslow]

theorem getAvgLatency_eq (hne : m.clientAvgReqLatencies ≠ []) {instIds : List ℕ} {ds : List (Dict String (ℕ × ℚ))}
    (h : instIds.map (fun i => m.clientAvgReqLatencies[i]?) = ds.map some) :
    m.getAvgLatency instIds = .ok ((ds.flatMap Dict.entries).foldl addAvgLatency Dict.empty) := by
  have hall : instIds.mapM (fun i => (m.clientAvgReqLatencies[i]?).elim
      (Except.error (α := Dict String (ℕ × ℚ)) MonitorError.indexError) .ok) = .ok ds := by
    induction instIds generalizing ds with
    | nil =>
      cases ds with
      | nil => rfl
      | cons d ds => cases h
    | cons i rest ih =>
      cases ds with
      | nil => cases h
      | cons d ds =>
        rw [List.map_cons, List.map_cons, List.cons.injEq] at h
        rw [List.mapM_cons, ih h.2, h.1]
        rfl
  unfold getAvgLatency
  rw [if_neg hne, hall]
  rfl

/-- the averages of the master and those of the backups -/
theorem getAvgLatency_sides {d : Dict String (ℕ × ℚ)} {ds : List (Dict String (ℕ × ℚ))}
    (h : m.clientAvgReqLatencies = d :: ds) (hcount : m.instances.count = ds.length + 1) :
    m.getAvgLatency [0] = .ok (([d].flatMap Dict.entries).foldl addAvgLatency Dict.empty) ∧
      m.getAvgLatency m.instances.backupIds = .ok ((ds.flatMap Dict.entries).foldl addAvgLatency Dict.empty) := by
  have hne : m.clientAvgReqLatencies ≠ [] := h ▸ List.cons_ne_nil d ds
  refine ⟨getAvgLatency_eq hne (by rw [h]; rfl), getAvgLatency_eq hne ?_⟩
  rw [Instances.backupIds, hcount, h]
  apply List.ext_getElem
  · simp
  · intro i hi hi'
    simp [Nat.add_comm 1 i]

/-- **What the heuristic finds.** It is true exactly if a client that is too slow comes before all clients that the master
has no record of, in the order of the backups and of their records. -/
theorem isMasterAvgReqLatencyTooHigh_eq_true (hsized : m.clientAvgReqLatencies.length = m.instances.count)
    (hmaster : 0 < m.instances.count) : m.isMasterAvgReqLatencyTooHigh = .ok true ↔ m.SlowBeforeUnknown := by
  obtain ⟨d, ds, h⟩ := List.exists_cons_of_length_pos (hsized ▸ hmaster)
  have hcount : m.instances.count = ds.length + 1 := by rw [← hsized, h, List.length_cons]
  obtain ⟨havgM, havgB⟩ := getAvgLatency_sides h hcount
  have hid : m.instances.masterId.elim (.error MonitorError.typeError) Except.ok = .ok 0 := by
    rw [Instances.masterId, if_pos hmaster]
    rfl
  have hscan : m.isMasterAvgReqLatencyTooHigh =
      .ok (m.anyAvgTooHigh (([d].flatMap Dict.entries).foldl addAvgLatency Dict.empty)
        ((ds.flatMap Dict.entries).foldl addAvgLatency Dict.empty).entries) :=
    bind_eq_ok.2 ⟨0, hid, bind_eq_ok.2 ⟨_, havgM, bind_eq_ok.2 ⟨_, havgB, rfl⟩⟩⟩
  have hM : ∀ cid, (([d].flatMap Dict.entries).foldl addAvgLatency Dict.empty).get? cid =
      (m.masterAvg cid).map fun avg => [avg] := by
    intro cid
    rw [get?_avgLatency, masterAvg, h]
    cases hget : d.get? cid <;> simp [hget]
  rw [hscan, Except.ok.injEq, anyAvgTooHigh_iff, SlowBeforeUnknown, backupClients, h, List.tail_cons, ← leads_avgLatency,
    Dict.keys, leads_map]
  refine leads_congr (fun e _ => by rw [hM, Option.isSome_map]) fun e he => ?_
  -- the averages of an entry are those of its client, as no client has two entries
  have hB := Dict.get?_eq_some.2 he
  rw [get?_avgLatency] at hB
  split_ifs at hB with hnone
  have havgs : m.backupAvgs e.1 = e.2 := by
    rw [backupAvgs, h]
    exact Option.some.inj hB
  rw [TooSlow, havgs, hM]
  constructor
  · rintro ⟨latM, hlatM, hslow⟩
    obtain ⟨avg, havg, rfl⟩ := Option.map_eq_some_iff.1 hlatM
    refine ⟨fun hnil => hnone ?_, avg, havg, ?_⟩
    · rw [← hnil]
      exact Option.some.inj hB
    · simpa [mean] using hslow
  · rintro ⟨-, avg, havg, hslow⟩
    exact ⟨[avg], by rw [havg]; rfl, by simpa [mean] using hslow⟩

/-- **When all clients are judged.** For every contents of the records of one master and any number of backups: the
heuristic is true exactly if some client is too slow, if and only if, where some client is too slow, one that is comes
before every client that the master has no record of. -/
theorem judged_over_all_iff (m : Monitor) (hsized : m.clientAvgReqLatencies.length = m.instances.count)
    (hmaster : 0 < m.instances.count) : m.JudgedOverAll ↔ ((∃ cid, m.TooSlow cid) → m.SlowBeforeUnknown) := by
  unfold JudgedOverAll
  rw [isMasterAvgReqLatencyTooHigh_eq_true hsized hmaster]
  constructor
  · exact fun h => h.2
  · exact fun h => ⟨fun hleads => (Leads.exists hleads).imp fun _ hcid => hcid.2, h⟩

/-! ## Witness and counterexample -/

namespace TwoInstances

/-- two clients in the records of the backup, of which the master has only one -/
def withLatencies (backup : Dict String (ℕ × ℚ)) : Monitor :=
  { started with clientAvgReqLatencies := [Dict.empty.set "slow" (1, 20), backup] }

/-- the client that the master does not know comes first -/
def newClientFirst : Monitor := withLatencies ((Dict.empty.set "new" (1, 1)).set "slow" (1, 1))

/-- the same records, in the other order -/
def newClientLast : Monitor := withLatencies ((Dict.empty.set "slow" (1, 1)).set "new" (1, 1))

theorem slow_tooSlow : newClientFirst.TooSlow "slow" ∧ newClientLast.TooSlow "slow" := by
  refine ⟨⟨by decide +kernel, 20, by decide +kernel, ?_⟩, ⟨by decide +kernel, 20, by decide +kernel, ?_⟩⟩
  · decide +kernel
  · decide +kernel

end TwoInstances

open TwoInstances in
/-- **A slow client that is not found.** The scan ends at a client that is new to the master; with the same records in the
other order it finds the slow one. -/
theorem slow_client_hidden : ¬ newClientFirst.JudgedOverAll ∧
    newClientFirst.isMasterAvgReqLatencyTooHigh = .ok false ∧ newClientLast.isMasterAvgReqLatencyTooHigh = .ok true := by
  have hfirst : newClientFirst.isMasterAvgReqLatencyTooHigh = .ok false := by decide +kernel
  refine ⟨fun h => ?_, hfirst, by decide +kernel⟩
  have htrue := h.2 ⟨"slow", slow_tooSlow.1⟩
  rw [hfirst] at htrue
  cases htrue

open TwoInstances in
theorem judged_over_all_iff_newClientLast : newClientLast.JudgedOverAll ∧ newClientLast.TooSlow "slow" := by
  refine ⟨(judged_over_all_iff newClientLast (by decide) (by decide)).2 fun _ => ?_, slow_tooSlow.2⟩
  exact ⟨[], "slow", ["new"], by decide +kernel, slow_tooSlow.2, fun _ hx => absurd hx List.not_mem_nil⟩

end Monitor

end Plenum
