/-
A cached function of a state that changes (the language's `lru_cache`). Nothing here names the program: any state, any
function of the state and a key that may raise an exception.

- `cachedCall`: a call through the cache, which keeps the answers of the latest `maxsize` keys; an exception is not kept.
- `Fresh`: every cached answer is that of the state. A call through the cache is a call of the function if and only if the
  cache is fresh (`transparent_iff_fresh`).
- `CachedStep`: a call of a key, or a change of the state that leaves the cache as it is.
- `transparent_iff`: along a run that starts with an empty cache all calls are transparent, whatever is called where, if
  and only if no change of the state changes the answer of a key that is cached.
-/
import Mathlib.Tactic

namespace Plenum.Core

variable {σ κ β ε : Type} [DecidableEq κ]

/-! ## One call -/

/-- the answer to a call, and the cache after it; the answer is computed only if the key is not cached -/
def cachedCall (maxsize : ℕ) (cache : List (κ × β)) (key : κ) (compute : Except ε β) : Except ε β × List (κ × β) :=
  match cache.find? fun e => e.1 = key with
  | some e => (.ok e.2, e :: cache.filter fun e => e.1 ≠ key)
  | none =>
    match compute with
    | .ok answer => (.ok answer, ((key, answer) :: cache).take maxsize)
    | .error e => (.error e, cache)

theorem cachedCall_hit {maxsize : ℕ} {cache : List (κ × β)} {key : κ} {e : κ × β} (compute : Except ε β)
    (h : cache.find? (fun e => e.1 = key) = some e) :
    cachedCall maxsize cache key compute = (.ok e.2, e :: cache.filter fun e => e.1 ≠ key) := by
  unfold cachedCall
  rw [h]

theorem cachedCall_miss {maxsize : ℕ} {cache : List (κ × β)} {key : κ} {answer : β}
    (h : cache.find? (fun e => e.1 = key) = none) :
    cachedCall (ε := ε) maxsize cache key (.ok answer) = (.ok answer, ((key, answer) :: cache).take maxsize) := by
  unfold cachedCall
  rw [h]

theorem cachedCall_raise {maxsize : ℕ} {cache : List (κ × β)} {key : κ} {x : ε}
    (h : cache.find? (fun e => e.1 = key) = none) :
    cachedCall maxsize cache key (.error x) = (.error x, cache) := by
  unfold cachedCall
  rw [h]

/-- an entry of the cache was there before, or is the answer to the call -/
theorem mem_cachedCall {maxsize : ℕ} {cache : List (κ × β)} {key : κ} {compute : Except ε β} {e : κ × β}
    (he : e ∈ (cachedCall maxsize cache key compute).2) : e ∈ cache ∨ (e.1 = key ∧ compute = .ok e.2) := by
  cases hfind : cache.find? fun e => e.1 = key with
  | some e' =>
    rw [cachedCall_hit _ hfind] at he
    rcases List.mem_cons.1 he with rfl | he
    · exact Or.inl (List.mem_of_find?_eq_some hfind)
    · exact Or.inl (List.mem_of_mem_filter he)
  | none =>
    cases compute with
    | ok answer =>
      rw [cachedCall_miss hfind] at he
      rcases List.mem_cons.1 (List.mem_of_mem_take he) with rfl | he
      · exact Or.inr ⟨rfl, rfl⟩
      · exact Or.inl he
    | error x =>
      rw [cachedCall_raise hfind] at he
      exact Or.inl he

/-- no key is cached twice -/
def KeysNodup (cache : List (κ × β)) : Prop := (cache.map Prod.fst).Nodup

theorem KeysNodup.call {cache : List (κ × β)} (hnodup : KeysNodup cache) (maxsize : ℕ) (key : κ)
    (compute : Except ε β) : KeysNodup (cachedCall maxsize cache key compute).2 := by
  unfold KeysNodup at *
  cases hfind : cache.find? fun e => e.1 = key with
  | some e =>
    have hkey : e.1 = key := by simpa using List.find?_some hfind
    rw [cachedCall_hit compute hfind, List.map_cons, List.nodup_cons]
    refine ⟨?_, hnodup.sublist (List.filter_sublist.map _)⟩
    simp [hkey]
  | none =>
    cases compute with
    | ok answer =>
      have hnew : ∀ e ∈ cache, e.1 ≠ key := by simpa [List.find?_eq_none] using hfind
      rw [cachedCall_miss hfind]
      refine List.Nodup.sublist ((List.take_sublist _ _).map _) ?_
      rw [List.map_cons, List.nodup_cons]
      refine ⟨fun hmem => ?_, hnodup⟩
      obtain ⟨e, he, hkey⟩ := List.mem_map.1 hmem
      exact hnew e he hkey
    | error x => rwa [cachedCall_raise hfind]

/-! ## A cache that shows the state -/

variable (eval : σ → κ → Except ε β)

/-- every cached answer is the one that the function gives in the state -/
def Fresh (s : σ) (cache : List (κ × β)) : Prop := ∀ e ∈ cache, eval s e.1 = .ok e.2

/-- a call through the cache answers as the function does -/
def Transparent (maxsize : ℕ) (s : σ) (cache : List (κ × β)) : Prop :=
  ∀ key, (cachedCall maxsize cache key (eval s key)).1 = eval s key

variable {eval}

theorem Fresh.call {maxsize : ℕ} {s : σ} {cache : List (κ × β)} (h : Fresh eval s cache) (key : κ) :
    Fresh eval s (cachedCall maxsize cache key (eval s key)).2 := by
  intro e he
  rcases mem_cachedCall he with he | ⟨rfl, hcompute⟩
  · exact h e he
  · exact hcompute

theorem transparent_iff_fresh {s : σ} {cache : List (κ × β)} (hnodup : KeysNodup cache) (maxsize : ℕ) :
    Transparent eval maxsize s cache ↔ Fresh eval s cache := by
  constructor
  · intro h e he
    have hfind : cache.find? (fun e' => e'.1 = e.1) = some e := by
      cases hf : cache.find? fun e' => e'.1 = e.1 with
      | none => exact absurd (List.find?_eq_none.1 hf e he) (by simp)
      | some e' =>
        have hkey : e'.1 = e.1 := by simpa using List.find?_some hf
        rw [List.inj_on_of_nodup_map hnodup (List.mem_of_find?_eq_some hf) he hkey]
    have hcall := h e.1
    rw [cachedCall_hit _ hfind] at hcall
    exact hcall.symm
  · intro h key
    cases hfind : cache.find? fun e => e.1 = key with
    | some e =>
      have hkey : e.1 = key := by simpa using List.find?_some hfind
      rw [cachedCall_hit _ hfind, ← hkey]
      exact (h e (List.mem_of_find?_eq_some hfind)).symm
    | none =>
      cases hcompute : eval s key with
      | ok answer => rw [cachedCall_miss hfind]
      | error x => rw [cachedCall_raise hfind]

/-! ## Runs -/

variable (eval)

/-- a state with the cache of its answers -/
structure Cached (σ κ β : Type) where
  state : σ
  cache : List (κ × β)

/-- one step: a call, or a change of the state -/
inductive CachedStep (maxsize : ℕ) (c : Cached σ κ β) : Cached σ κ β → Prop
  | call (key : κ) : CachedStep maxsize c ⟨c.state, (cachedCall maxsize c.cache key (eval c.state key)).2⟩
  | change (s : σ) : CachedStep maxsize c ⟨s, c.cache⟩

/-- a step changes the answer of no key that is cached -/
def KeepsAnswers (c c' : Cached σ κ β) : Prop := ∀ e ∈ c.cache, eval c'.state e.1 = eval c.state e.1

variable {eval}

/-- **Step lemma.** A step from a fresh cache leads to a fresh one exactly if it keeps the cached answers. -/
theorem CachedStep.fresh_iff {maxsize : ℕ} {c c' : Cached σ κ β} (h : CachedStep eval maxsize c c')
    (hfresh : Fresh eval c.state c.cache) : Fresh eval c'.state c'.cache ↔ KeepsAnswers eval c c' := by
  cases h with
  | call key => exact iff_of_true (hfresh.call key) fun _ _ => rfl
  | change s =>
    constructor
    · intro h e he
      exact (h e he).trans (hfresh e he).symm
    · intro h e he
      exact (h e he).trans (hfresh e he)

theorem CachedStep.keysNodup {maxsize : ℕ} {c c' : Cached σ κ β} (h : CachedStep eval maxsize c c')
    (hnodup : KeysNodup c.cache) : KeysNodup c'.cache := by
  cases h with
  | call key => exact hnodup.call maxsize key _
  | change s => exact hnodup

/-- **Run theorem.** Where the cache is empty at first, every call after every part of a run is transparent if and only if
every step keeps the answers that are cached. -/
theorem transparent_iff {ι : Type} {maxsize : ℕ} (run : List ι → Cached σ κ β) (hempty : (run []).cache = [])
    (hstep : ∀ before op, CachedStep eval maxsize (run before) (run (before ++ [op]))) (ops : List ι) :
    (∀ before, before <+: ops → Transparent eval maxsize (run before).state (run before).cache) ↔
      ∀ before op, before ++ [op] <+: ops → KeepsAnswers eval (run before) (run (before ++ [op])) := by
  have hnodup : ∀ before, KeysNodup (run before).cache := by
    intro before
    induction before using List.reverseRecOn with
    | nil => rw [hempty]; exact List.nodup_nil
    | append_singleton before op ih => exact (hstep before op).keysNodup ih
  constructor
  · intro h before op hpre
    have hbefore := (transparent_iff_fresh (hnodup before) maxsize).1 (h before ((List.prefix_append _ _).trans hpre))
    have hafter := (transparent_iff_fresh (hnodup (before ++ [op])) maxsize).1 (h _ hpre)
    exact ((hstep before op).fresh_iff hbefore).1 hafter
  · intro h before hpre
    refine (transparent_iff_fresh (hnodup before) maxsize).2 ?_
    -- by induction on the part of the run
    induction before using List.reverseRecOn with
    | nil => rw [hempty]; intro e he; cases he
    | append_singleton before op ih =>
      exact ((hstep before op).fresh_iff (ih ((List.prefix_append _ _).trans hpre))).2 (h before op hpre)

end Plenum.Core
