/-
Insertion-ordered dictionaries and dictionaries sorted by a key function (the language's `dict` / `OrderedDict` and
the `SortedDict` of the sorted-containers package). Nothing here names the program: any key type with decidable
equality, any values.

- `Dict κ α`: entries in insertion order, no key twice (the invariant is a field, so it cannot be broken).
- `SortedDict f α`: a `Dict` whose entries are ordered by `f` on their keys; the first and the last entry are the
  ones with the least and the greatest `f`.
-/
import Mathlib.Tactic

namespace Plenum.Core

/-! ## Insertion-ordered dictionaries -/

/-- an insertion-ordered dictionary: no key occurs twice -/
structure Dict (κ α : Type) where
  entries : List (κ × α)
  nodup : (entries.map Prod.fst).Nodup

namespace Dict

variable {κ α : Type} [DecidableEq κ]

instance [DecidableEq α] : DecidableEq (Dict κ α) := fun d e =>
  decidable_of_iff (d.entries = e.entries) ⟨fun h => by cases d; cases e; simp_all, fun h => h ▸ rfl⟩

def empty : Dict κ α := ⟨[], List.nodup_nil⟩

instance : Inhabited (Dict κ α) := ⟨empty⟩

/-- `d.get(k)` -/
def get? (d : Dict κ α) (k : κ) : Option α := (d.entries.find? (fun e => e.1 = k)).map Prod.snd

/-- `k in d` -/
def contains (d : Dict κ α) (k : κ) : Bool := (d.get? k).isSome

def keys (d : Dict κ α) : List κ := d.entries.map Prod.fst

def values (d : Dict κ α) : List α := d.entries.map Prod.snd

def size (d : Dict κ α) : ℕ := d.entries.length

/-- replace the value of a key where it stands -/
def replaceEntry (l : List (κ × α)) (k : κ) (v : α) : List (κ × α) := l.map fun e => if e.1 = k then (k, v) else e

omit [DecidableEq κ] in
theorem mem_fst {l : List (κ × α)} {k : κ} : k ∈ l.map Prod.fst ↔ ∃ v, (k, v) ∈ l := by simp

theorem replaceEntry_fst (l : List (κ × α)) (k : κ) (v : α) : (replaceEntry l k v).map Prod.fst = l.map Prod.fst := by
  unfold replaceEntry
  rw [List.map_map]
  refine List.map_congr_left fun e _ => ?_
  by_cases h : e.1 = k <;> simp [h]

/-- `d[k] = v`: in place if the key is there, else at the end -/
def set (d : Dict κ α) (k : κ) (v : α) : Dict κ α :=
  if h : k ∈ d.entries.map Prod.fst then
    ⟨replaceEntry d.entries k v, by rw [replaceEntry_fst]; exact d.nodup⟩
  else
    ⟨d.entries ++ [(k, v)], by
      rw [List.map_append, List.nodup_append]
      refine ⟨d.nodup, by simp, ?_⟩
      intro a ha b hb hab
      simp only [List.map_cons, List.map_nil, List.mem_singleton] at hb
      exact h (hb ▸ hab ▸ ha)⟩

/-- `d.pop(k, None)` -/
def erase (d : Dict κ α) (k : κ) : Dict κ α :=
  ⟨d.entries.filter (fun e => e.1 ≠ k), d.nodup.sublist (List.filter_sublist.map _)⟩

def eraseAll (d : Dict κ α) (ks : List κ) : Dict κ α := ks.foldl erase d

/-- `d.update(e)` -/
def update (d e : Dict κ α) : Dict κ α := e.entries.foldl (fun d x => d.set x.1 x.2) d

omit [DecidableEq κ] in
theorem entry_unique (d : Dict κ α) {k : κ} {v w : α} (hv : (k, v) ∈ d.entries) (hw : (k, w) ∈ d.entries) : v = w := by
  have h := List.inj_on_of_nodup_map d.nodup hv hw rfl
  exact congrArg Prod.snd h

theorem get?_eq_some {d : Dict κ α} {k : κ} {v : α} : d.get? k = some v ↔ (k, v) ∈ d.entries := by
  unfold get?
  constructor
  · intro h
    obtain ⟨e, he, rfl⟩ := Option.map_eq_some_iff.1 h
    have hk : e.1 = k := by simpa using List.find?_some he
    have hm := List.mem_of_find?_eq_some he
    rw [← hk]; exact hm
  · intro h
    cases hf : d.entries.find? (fun e => e.1 = k) with
    | none => rw [List.find?_eq_none] at hf; exact absurd (by simp) (hf _ h)
    | some e =>
      have hk : e.1 = k := by simpa using List.find?_some hf
      have hm := List.mem_of_find?_eq_some hf
      rw [Option.map_some, Option.some.injEq]
      exact entry_unique d (by rw [← hk]; exact hm) h

theorem get?_eq_none {d : Dict κ α} {k : κ} : d.get? k = none ↔ k ∉ d.keys := by
  rw [Option.eq_none_iff_forall_ne_some]
  simp only [keys, mem_fst, ne_eq, get?_eq_some, not_exists]

theorem contains_iff {d : Dict κ α} {k : κ} : d.contains k = true ↔ k ∈ d.keys := by
  unfold contains
  rw [Option.isSome_iff_ne_none, ne_eq, get?_eq_none, not_not]

theorem mem_replaceEntry {l : List (κ × α)} {k : κ} {v : α} {e : κ × α} (h : e ∈ replaceEntry l k v) :
    e = (k, v) ∨ (e ∈ l ∧ e.1 ≠ k) := by
  obtain ⟨e', he', rfl⟩ := List.mem_map.1 h
  by_cases hk : e'.1 = k
  · simp [hk]
  · simp only [hk, if_false]; exact Or.inr ⟨he', hk⟩

theorem mem_set {d : Dict κ α} {k : κ} {v : α} {e : κ × α} :
    e ∈ (d.set k v).entries ↔ e = (k, v) ∨ (e ∈ d.entries ∧ e.1 ≠ k) := by
  unfold set
  split_ifs with h
  · refine ⟨mem_replaceEntry, ?_⟩
    rintro (rfl | ⟨he, hk⟩)
    · obtain ⟨w, hw⟩ := mem_fst.1 h
      exact List.mem_map.2 ⟨(k, w), hw, by simp⟩
    · exact List.mem_map.2 ⟨e, he, by simp [hk]⟩
  · simp only [List.mem_append, List.mem_singleton]
    constructor
    · rintro (he | rfl)
      · exact Or.inr ⟨he, fun hk => h (hk ▸ List.mem_map_of_mem he)⟩
      · exact Or.inl rfl
    · rintro (rfl | ⟨he, -⟩)
      · exact Or.inr rfl
      · exact Or.inl he

theorem mem_erase {d : Dict κ α} {k : κ} {e : κ × α} : e ∈ (d.erase k).entries ↔ e ∈ d.entries ∧ e.1 ≠ k := by
  simp [erase]

theorem mem_keys_set {d : Dict κ α} {k k' : κ} {v : α} : k' ∈ (d.set k v).keys ↔ k' = k ∨ k' ∈ d.keys := by
  simp only [keys, mem_fst, mem_set, Prod.mk.injEq]
  constructor
  · rintro ⟨w, ⟨rfl, -⟩ | ⟨hw, -⟩⟩
    · exact Or.inl rfl
    · exact Or.inr ⟨w, hw⟩
  · rintro (rfl | ⟨w, hw⟩)
    · exact ⟨v, Or.inl ⟨rfl, rfl⟩⟩
    · by_cases hk : k' = k
      · exact ⟨v, Or.inl ⟨hk, rfl⟩⟩
      · exact ⟨w, Or.inr ⟨hw, hk⟩⟩

/-- the entries of a dictionary count its keys -/
theorem size_eq_card (d : Dict κ α) : d.size = d.keys.toFinset.card := by
  rw [keys, List.toFinset_card_of_nodup d.nodup, size, List.length_map]

/-- counting values counts the keys they are found under -/
theorem countP_values (d : Dict κ α) (p : α → Bool) :
    d.values.countP p = (d.keys.toFinset.filter fun k => (d.get? k).any p).card := by
  have hfilter : d.values.countP p = ((d.entries.filter fun e => p e.2).map Prod.fst).length := by
    rw [values, List.countP_map, List.length_map, List.countP_eq_length_filter]
    rfl
  have hnodup : ((d.entries.filter fun e => p e.2).map Prod.fst).Nodup :=
    d.nodup.sublist (List.filter_sublist.map _)
  rw [hfilter, ← List.toFinset_card_of_nodup hnodup]
  congr 1
  ext k
  rw [List.mem_toFinset, mem_fst, Finset.mem_filter, List.mem_toFinset]
  constructor
  · rintro ⟨v, hv⟩
    obtain ⟨hmem, hp⟩ := List.mem_filter.1 hv
    have hget := get?_eq_some.2 hmem
    refine ⟨mem_fst.2 ⟨v, hmem⟩, ?_⟩
    rw [hget]
    exact hp
  · rintro ⟨-, hany⟩
    cases hget : d.get? k with
    | none =>
      rw [hget] at hany
      cases hany
    | some v =>
      rw [hget] at hany
      exact ⟨v, List.mem_filter.2 ⟨get?_eq_some.1 hget, hany⟩⟩

@[simp] theorem get?_empty (k : κ) : (empty : Dict κ α).get? k = none := rfl

@[simp] theorem get?_set_self (d : Dict κ α) (k : κ) (v : α) : (d.set k v).get? k = some v :=
  get?_eq_some.2 (mem_set.2 (Or.inl rfl))

theorem get?_set_ne (d : Dict κ α) {k k' : κ} (v : α) (h : k' ≠ k) : (d.set k v).get? k' = d.get? k' := by
  ext w
  simp only [get?_eq_some, mem_set, Prod.mk.injEq, h, false_and, false_or, ne_eq, not_false_eq_true, and_true]

theorem get?_set (d : Dict κ α) (k k' : κ) (v : α) : (d.set k v).get? k' = if k' = k then some v else d.get? k' := by
  split_ifs with h
  · rw [h, get?_set_self]
  · exact get?_set_ne d v h

theorem get?_erase (d : Dict κ α) (k k' : κ) : (d.erase k).get? k' = if k' = k then none else d.get? k' := by
  ext w
  split_ifs with h
  · simp [get?_eq_some, mem_erase, h]
  · simp [get?_eq_some, mem_erase, h]

theorem get?_eraseAll (d : Dict κ α) (ks : List κ) (k : κ) :
    (d.eraseAll ks).get? k = if k ∈ ks then none else d.get? k := by
  induction ks generalizing d with
  | nil => simp [eraseAll]
  | cons a ks ih =>
    rw [eraseAll, List.foldl_cons]
    have := ih (d.erase a)
    rw [eraseAll] at this
    rw [this, get?_erase]
    by_cases h1 : k ∈ ks <;> by_cases h2 : k = a <;> simp [h1, h2]

theorem get?_update (d e : Dict κ α) (k : κ) : (d.update e).get? k = (e.get? k).or (d.get? k) := by
  obtain ⟨l, hl⟩ := e
  induction l generalizing d with
  | nil => rfl
  | cons x l ih =>
    rw [List.map_cons, List.nodup_cons] at hl
    change (update (d.set x.1 x.2) ⟨l, hl.2⟩).get? k = _
    rw [ih, get?_set]
    by_cases hk : k = x.1
    · have hnone : (⟨l, hl.2⟩ : Dict κ α).get? k = none := get?_eq_none.2 (hk ▸ hl.1)
      have hsome : (⟨x :: l, List.nodup_cons.2 hl⟩ : Dict κ α).get? k = some x.2 :=
        get?_eq_some.2 (by rw [hk]; exact List.mem_cons_self)
      rw [hnone, hsome, if_pos hk]
      rfl
    · have hsame : (⟨x :: l, List.nodup_cons.2 hl⟩ : Dict κ α).get? k = (⟨l, hl.2⟩ : Dict κ α).get? k := by
        have hx : x.1 ≠ k := fun h => hk h.symm
        simp [get?, hx]
      rw [hsame, if_neg hk]

theorem keys_set (d : Dict κ α) (k : κ) (v : α) : (d.set k v).keys = if k ∈ d.keys then d.keys else d.keys ++ [k] := by
  unfold keys set
  split_ifs with hmem
  · exact replaceEntry_fst _ _ _
  · exact List.map_append

/-- the entries of a dictionary under one key -/
theorem filter_entries (d : Dict κ α) (k : κ) :
    (d.entries.filter fun e => e.1 = k) = (d.get? k).toList.map fun v => (k, v) := by
  cases hget : d.get? k with
  | none =>
    rw [Option.toList_none, List.map_nil, List.filter_eq_nil_iff]
    intro e he hk
    exact get?_eq_none.1 hget (List.mem_map.2 ⟨e, he, by simpa using hk⟩)
  | some v =>
    have hmem := get?_eq_some.1 hget
    obtain ⟨xs, ys, hsplit⟩ := List.append_of_mem hmem
    have hnodup := d.nodup
    rw [hsplit, List.map_append, List.map_cons, List.nodup_middle, List.nodup_cons, List.mem_append, not_or] at hnodup
    have hother : ∀ l : List (κ × α), k ∉ l.map Prod.fst → (l.filter fun e => e.1 = k) = [] := by
      intro l hl
      rw [List.filter_eq_nil_iff]
      intro e he hk
      exact hl (List.mem_map.2 ⟨e, he, by simpa using hk⟩)
    rw [hsplit, List.filter_append, List.filter_cons_of_pos (by simp), hother xs hnodup.1.1, hother ys hnodup.1.2]
    rfl

/-- the same keys with other values -/
def mapValues {β : Type} (f : α → β) (d : Dict κ α) : Dict κ β :=
  ⟨d.entries.map fun e => (e.1, f e.2), by simpa [Function.comp_def] using d.nodup⟩

theorem get?_mapValues {β : Type} (f : α → β) (d : Dict κ α) (k : κ) : (d.mapValues f).get? k = (d.get? k).map f := by
  simp [get?, mapValues, List.find?_map, Function.comp_def]

end Dict

/-! ## Dictionaries sorted by a key function -/

/-- a dictionary whose entries are in the order of `f` on their keys -/
structure SortedDict {κ β : Type} [LinearOrder β] (f : κ → β) (α : Type) extends Dict κ α where
  sorted : entries.Pairwise (fun a b => f a.1 ≤ f b.1)

namespace SortedDict

variable {κ β α : Type} [DecidableEq κ] [LinearOrder β] {f : κ → β}

def empty : SortedDict f α := ⟨Dict.empty, List.Pairwise.nil⟩

instance : Inhabited (SortedDict f α) := ⟨empty⟩

/-- insert after every entry whose key is not greater -/
def insertEntry (f : κ → β) (e : κ × α) : List (κ × α) → List (κ × α)
  | [] => [e]
  | a :: l => if f e.1 < f a.1 then e :: a :: l else a :: insertEntry f e l

omit [DecidableEq κ] in
theorem mem_insertEntry {e x : κ × α} {l : List (κ × α)} : x ∈ insertEntry f e l ↔ x = e ∨ x ∈ l := by
  induction l with
  | nil => simp [insertEntry]
  | cons a l ih =>
    rw [insertEntry]
    split_ifs with h
    · simp
    · simp only [List.mem_cons, ih]; tauto

omit [DecidableEq κ] in
theorem insertEntry_nodup {e : κ × α} {l : List (κ × α)} (h : (l.map Prod.fst).Nodup) (he : e.1 ∉ l.map Prod.fst) :
    ((insertEntry f e l).map Prod.fst).Nodup := by
  induction l with
  | nil => simp [insertEntry]
  | cons a l ih =>
    rw [insertEntry]
    rw [List.map_cons, List.nodup_cons] at h
    rw [List.map_cons, List.mem_cons, not_or] at he
    split_ifs
    · rw [List.map_cons, List.map_cons, List.nodup_cons, List.mem_cons, not_or, List.nodup_cons]
      exact ⟨he, h⟩
    · rw [List.map_cons, List.nodup_cons]
      refine ⟨fun hm => ?_, ih h.2 he.2⟩
      obtain ⟨x, hx, hxa⟩ := List.mem_map.1 hm
      rcases mem_insertEntry.1 hx with rfl | hx
      · exact he.1 hxa
      · exact h.1 (hxa ▸ List.mem_map_of_mem hx)

omit [DecidableEq κ] in
theorem insertEntry_sorted {e : κ × α} {l : List (κ × α)} (h : l.Pairwise (fun a b => f a.1 ≤ f b.1)) :
    (insertEntry f e l).Pairwise (fun a b => f a.1 ≤ f b.1) := by
  induction l with
  | nil => simp [insertEntry]
  | cons a l ih =>
    rw [insertEntry]
    rw [List.pairwise_cons] at h
    split_ifs with hlt
    · rw [List.pairwise_cons, List.pairwise_cons]
      refine ⟨fun x hx => ?_, h⟩
      rcases List.mem_cons.1 hx with rfl | hx
      · exact hlt.le
      · exact hlt.le.trans (h.1 x hx)
    · rw [List.pairwise_cons]
      refine ⟨fun x hx => ?_, ih h.2⟩
      rcases mem_insertEntry.1 hx with rfl | hx
      · exact not_lt.1 hlt
      · exact h.1 x hx

theorem replaceEntry_sorted {l : List (κ × α)} (k : κ) (v : α) (h : l.Pairwise (fun a b => f a.1 ≤ f b.1)) :
    (Dict.replaceEntry l k v).Pairwise (fun a b => f a.1 ≤ f b.1) := by
  rw [Dict.replaceEntry, List.pairwise_map]
  refine h.imp fun {a b} hab => ?_
  by_cases ha : a.1 = k <;> by_cases hb : b.1 = k <;> simp_all

/-- `d[k] = v`, in place or at its place in the order -/
def set (d : SortedDict f α) (k : κ) (v : α) : SortedDict f α :=
  if h : k ∈ d.entries.map Prod.fst then
    ⟨⟨Dict.replaceEntry d.entries k v, by rw [Dict.replaceEntry_fst]; exact d.nodup⟩,
      replaceEntry_sorted k v d.sorted⟩
  else ⟨⟨insertEntry f (k, v) d.entries, insertEntry_nodup d.nodup h⟩, insertEntry_sorted d.sorted⟩

def erase (d : SortedDict f α) (k : κ) : SortedDict f α :=
  ⟨d.toDict.erase k, d.sorted.sublist List.filter_sublist⟩

def eraseAll (d : SortedDict f α) (ks : List κ) : SortedDict f α := ks.foldl erase d

/-- `peekitem(d, 0)` -/
def first? (d : SortedDict f α) : Option (κ × α) := d.entries.head?

/-- `peekitem(d, -1)` -/
def last? (d : SortedDict f α) : Option (κ × α) := d.entries.getLast?

theorem mem_set {d : SortedDict f α} {k : κ} {v : α} {e : κ × α} :
    e ∈ (d.set k v).entries ↔ e = (k, v) ∨ (e ∈ d.entries ∧ e.1 ≠ k) := by
  unfold set
  split_ifs with h
  · have := Dict.mem_set (d := d.toDict) (k := k) (v := v) (e := e)
    rw [Dict.set, dif_pos h] at this
    exact this
  · rw [mem_insertEntry]
    refine or_congr_right ⟨fun he => ⟨he, fun hk => h (hk ▸ List.mem_map_of_mem he)⟩, fun he => he.1⟩

omit [DecidableEq κ] in
theorem insertEntry_last {e : κ × α} {l : List (κ × α)} (h : ∀ a ∈ l, f a.1 ≤ f e.1) : insertEntry f e l = l ++ [e] := by
  induction l with
  | nil => rfl
  | cons a l ih =>
    rw [insertEntry, if_neg (h a List.mem_cons_self).not_gt, ih fun b hb => h b (List.mem_cons_of_mem _ hb)]
    rfl

/-- a key greater than all others goes to the end -/
theorem entries_set_last {d : SortedDict f α} {k : κ} {v : α} (h : ∀ e ∈ d.entries, f e.1 < f k) :
    (d.set k v).entries = d.entries ++ [(k, v)] := by
  have hk : k ∉ d.entries.map Prod.fst := by
    intro hk
    obtain ⟨e, he, rfl⟩ := List.mem_map.1 hk
    exact lt_irrefl _ (h e he)
  rw [set, dif_neg hk]
  exact insertEntry_last fun e he => (h e he).le

theorem mem_erase {d : SortedDict f α} {k : κ} {e : κ × α} : e ∈ (d.erase k).entries ↔ e ∈ d.entries ∧ e.1 ≠ k :=
  Dict.mem_erase

theorem mem_eraseAll {d : SortedDict f α} {ks : List κ} {e : κ × α} :
    e ∈ (d.eraseAll ks).entries ↔ e ∈ d.entries ∧ e.1 ∉ ks := by
  induction ks generalizing d with
  | nil => simp [eraseAll]
  | cons a ks ih =>
    have := ih (d := d.erase a)
    rw [eraseAll] at this
    rw [eraseAll, List.foldl_cons, this, mem_erase, List.mem_cons, not_or]
    tauto

theorem get?_set (d : SortedDict f α) (k k' : κ) (v : α) :
    (d.set k v).get? k' = if k' = k then some v else d.get? k' := by
  ext w
  simp only [Dict.get?_eq_some, mem_set, Prod.mk.injEq]
  split_ifs with h
  · simp [h, eq_comm]
  · simp [h, Dict.get?_eq_some]

theorem get?_eraseAll (d : SortedDict f α) (ks : List κ) (k : κ) :
    (d.eraseAll ks).get? k = if k ∈ ks then none else d.get? k := by
  ext w
  simp only [Dict.get?_eq_some, mem_eraseAll]
  split_ifs with h
  · simp [h]
  · simp [h, Dict.get?_eq_some]

theorem mem_values_set {d : SortedDict f α} {k : κ} {v w : α} (h : w ∈ (d.set k v).values) : w = v ∨ w ∈ d.values := by
  obtain ⟨e, he, rfl⟩ := List.mem_map.1 h
  rcases mem_set.1 he with rfl | ⟨he, -⟩
  · exact Or.inl rfl
  · exact Or.inr (List.mem_map_of_mem he)

theorem mem_values_eraseAll {d : SortedDict f α} {ks : List κ} {w : α} (h : w ∈ (d.eraseAll ks).values) :
    w ∈ d.values := by
  obtain ⟨e, he, rfl⟩ := List.mem_map.1 h
  exact List.mem_map_of_mem (mem_eraseAll.1 he).1

omit [DecidableEq κ] in
theorem last?_mem {d : SortedDict f α} {e : κ × α} (h : d.last? = some e) : e ∈ d.entries := List.mem_of_getLast? h

omit [DecidableEq κ] in
theorem first?_mem {d : SortedDict f α} {e : κ × α} (h : d.first? = some e) : e ∈ d.entries := List.mem_of_head? h

omit [DecidableEq κ] in
/-- the last entry has the greatest key -/
theorem le_last? {d : SortedDict f α} {e x : κ × α} (h : d.last? = some e) (hx : x ∈ d.entries) : f x.1 ≤ f e.1 := by
  have hs := d.sorted
  rw [last?] at h
  obtain ⟨l, hl⟩ := List.getLast?_eq_some_iff.1 h
  rw [hl] at hs hx
  rcases List.mem_append.1 hx with hx | hx
  · exact (List.pairwise_append.1 hs).2.2 x hx e (by simp)
  · rw [List.mem_singleton.1 hx]

omit [DecidableEq κ] in
theorem last?_eq_none {d : SortedDict f α} (h : d.last? = none) : d.entries = [] := List.getLast?_eq_none_iff.1 h

end SortedDict

end Plenum.Core
