/-
Dictionaries that are built from a list of records, each of which merges into the value of its key. Nothing here names
the program: any records, keys and values.

- `KeyedMerge`: the key of a record (a record without one is skipped) and how it merges into the value found there.
- `replay`: a record merges into what the records before it have left (`get?_replay`: the fold of the records of the
  key).
- `replayOver base`: a record merges into the value of a dictionary that stays as it is, so that of the records of a
  key only the last one counts (`get?_replayOver`).
- `sameUnder_iff`: seen through any view of the values, a replay of some records over nothing and a replay of others with
  the same keys agree on every key if and only if for each key the fold of its records looks like its last record alone.
-/
import Mathlib.Tactic
import Plenum.Core.Dict

namespace Plenum.Core

variable {ρ κ ν : Type}

structure KeyedMerge (ρ κ ν : Type) where
  key : ρ → Option κ
  merge : Option ν → ρ → ν

namespace KeyedMerge

variable [DecidableEq κ] (u : KeyedMerge ρ κ ν)

/-- the records of a key -/
def recordsOf (k : κ) (rs : List ρ) : List ρ := rs.filter fun r => u.key r = some k

/-- write a record that finds the values of `found` into `d` -/
def write (found d : Dict κ ν) (r : ρ) : Dict κ ν :=
  match u.key r with
  | none => d
  | some k => d.set k (u.merge (found.get? k) r)

def replay (rs : List ρ) (d : Dict κ ν) : Dict κ ν := rs.foldl (fun d r => u.write d d r) d

def replayOver (base : Dict κ ν) (rs : List ρ) (d : Dict κ ν) : Dict κ ν := rs.foldl (u.write base) d

/-- the records of one key, merged one after the other -/
def mergeAll (rs : List ρ) (v : Option ν) : Option ν := rs.foldl (fun v r => some (u.merge v r)) v

theorem get?_write (found d : Dict κ ν) (r : ρ) (k : κ) :
    (u.write found d r).get? k = if u.key r = some k then some (u.merge (found.get? k) r) else d.get? k := by
  unfold write
  cases hk : u.key r with
  | none => simp
  | some k' =>
    by_cases h : k' = k
    · subst h
      simp
    · have h' : k ≠ k' := fun hh => h hh.symm
      simp [Dict.get?_set_ne d _ h', h]

theorem recordsOf_cons (k : κ) (r : ρ) (rs : List ρ) :
    u.recordsOf k (r :: rs) = if u.key r = some k then r :: u.recordsOf k rs else u.recordsOf k rs := by
  unfold recordsOf
  rw [List.filter_cons]
  simp only [decide_eq_true_eq]

/-- the value of a key after a replay is the fold of the records of the key -/
theorem get?_replay (rs : List ρ) (d : Dict κ ν) (k : κ) :
    (u.replay rs d).get? k = u.mergeAll (u.recordsOf k rs) (d.get? k) := by
  induction rs generalizing d with
  | nil => rfl
  | cons r rs ih =>
    change (u.replay rs (u.write d d r)).get? k = _
    rw [ih, get?_write, recordsOf_cons]
    split_ifs with hk
    · rfl
    · rfl

/-- over a fixed dictionary the last record of a key decides alone -/
theorem get?_replayOver (base : Dict κ ν) (rs : List ρ) (d : Dict κ ν) (k : κ) :
    (u.replayOver base rs d).get? k =
      match (u.recordsOf k rs).getLast? with
      | none => d.get? k
      | some r => some (u.merge (base.get? k) r) := by
  induction rs generalizing d with
  | nil => rfl
  | cons r rs ih =>
    change (u.replayOver base rs (u.write base d r)).get? k = _
    rw [ih, get?_write, recordsOf_cons]
    split_ifs with hk
    · cases hl : u.recordsOf k rs with
      | nil => rfl
      | cons r' rs' =>
        have hlast := List.getLast?_eq_some_getLast (List.cons_ne_nil r' rs')
        rw [List.getLast?_cons_cons, hlast]
    · rfl

theorem recordsOf_map {σ : Type} (f : σ → ρ) (k : κ) (es : List σ) :
    u.recordsOf k (es.map f) = (es.filter fun e => u.key (f e) = some k).map f := by
  unfold recordsOf
  rw [List.filter_map]
  rfl

/-- **When replaying some records over nothing gives what replaying others gives**, as far as `view` can see. The two are
made of the same entries, and have the same keys. -/
theorem sameUnder_iff {β σ : Type} (view : ν → β) {f g : σ → ρ} (hkey : ∀ e, u.key (g e) = u.key (f e)) (es : List σ) :
    (∀ k, ((u.replayOver Dict.empty (es.map f) Dict.empty).get? k).map view =
      ((u.replay (es.map g) Dict.empty).get? k).map view) ↔
    ∀ k e, (es.filter fun e => u.key (f e) = some k).getLast? = some e →
      some (view (u.merge none (f e))) =
        (u.mergeAll ((es.filter fun e => u.key (f e) = some k).map g) none).map view := by
  refine forall_congr' fun k => ?_
  have hsame : (es.filter fun e => u.key (g e) = some k) = es.filter fun e => u.key (f e) = some k :=
    List.filter_congr fun e _ => by rw [hkey]
  rw [get?_replay, get?_replayOver, recordsOf_map, recordsOf_map, hsame, List.getLast?_map]
  cases hl : (es.filter fun e => u.key (f e) = some k).getLast? with
  | none =>
    rw [List.getLast?_eq_none_iff] at hl
    simp [hl, mergeAll]
  | some e => simp

end KeyedMerge

end Plenum.Core
