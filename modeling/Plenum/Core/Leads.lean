/-
Scans that end at the first element that decides. Nothing here names the program.

- `Leads P Q l`: the list has an element with `Q`, and all elements before it have `P`.
- `leads_cons`, `leads_append`: how a scan from the front finds out.
- `leads_keys_replay`: in a dictionary built from a list of records the keys stand in the order in which they first occur,
  so a scan of the keys is a scan of the keys of the records.
-/
import Mathlib.Tactic
import Plenum.Core.KeyedFold

namespace Plenum.Core

variable {α β : Type} {P Q : α → Prop}

/-- an element with `Q` before which all have `P` -/
def Leads (P Q : α → Prop) (l : List α) : Prop := ∃ xs a ys, l = xs ++ a :: ys ∧ Q a ∧ ∀ x ∈ xs, P x

theorem not_leads_nil : ¬ Leads P Q [] := by
  rintro ⟨xs, a, ys, h, -⟩
  cases xs <;> cases h

theorem leads_cons {a : α} {l : List α} : Leads P Q (a :: l) ↔ Q a ∨ (P a ∧ Leads P Q l) := by
  constructor
  · rintro ⟨xs, b, ys, h, hb, hxs⟩
    cases xs with
    | nil =>
      cases h
      exact Or.inl hb
    | cons x xs =>
      cases h
      exact Or.inr ⟨hxs a List.mem_cons_self, xs, b, ys, rfl, hb, fun y hy => hxs y (List.mem_cons_of_mem _ hy)⟩
  · rintro (ha | ⟨ha, xs, b, ys, rfl, hb, hxs⟩)
    · exact ⟨[], a, l, rfl, ha, fun x hx => absurd hx List.not_mem_nil⟩
    · refine ⟨a :: xs, b, ys, rfl, hb, fun x hx => ?_⟩
      rcases List.mem_cons.1 hx with rfl | hmem
      · exact ha
      · exact hxs x hmem

theorem leads_append {l r : List α} : Leads P Q (l ++ r) ↔ Leads P Q l ∨ ((∀ x ∈ l, P x) ∧ Leads P Q r) := by
  induction l with
  | nil => simp [not_leads_nil]
  | cons a l ih =>
    rw [List.cons_append, leads_cons, leads_cons, ih, List.forall_mem_cons]
    tauto

theorem Leads.exists {l : List α} (h : Leads P Q l) : ∃ a ∈ l, Q a := by
  obtain ⟨xs, a, ys, rfl, ha, -⟩ := h
  exact ⟨a, by simp, ha⟩

/-- if all have `P`, it is enough that one has `Q` -/
theorem leads_of_mem {l : List α} {a : α} (ha : a ∈ l) (hQ : Q a) (hP : ∀ x ∈ l, P x) : Leads P Q l := by
  obtain ⟨xs, ys, rfl⟩ := List.append_of_mem ha
  exact ⟨xs, a, ys, rfl, hQ, fun x hx => hP x (List.mem_append_left _ hx)⟩

/-- an element that was there before does not matter -/
theorem leads_append_cons_of_mem {l r : List α} {a : α} (ha : a ∈ l) : Leads P Q (l ++ a :: r) ↔ Leads P Q (l ++ r) := by
  rw [leads_append, leads_append, leads_cons]
  constructor
  · rintro (hl | ⟨hP, hQ | ⟨-, hr⟩⟩)
    · exact Or.inl hl
    · exact Or.inl (leads_of_mem ha hQ hP)
    · exact Or.inr ⟨hP, hr⟩
  · rintro (hl | ⟨hP, hr⟩)
    · exact Or.inl hl
    · exact Or.inr ⟨hP, Or.inr ⟨hP a ha, hr⟩⟩

theorem leads_map {f : β → α} {l : List β} : Leads P Q (l.map f) ↔ Leads (fun b => P (f b)) (fun b => Q (f b)) l := by
  induction l with
  | nil => simp [not_leads_nil]
  | cons b l ih => rw [List.map_cons, leads_cons, leads_cons, ih]

theorem leads_congr {P' Q' : α → Prop} {l : List α} (hP : ∀ x ∈ l, (P x ↔ P' x)) (hQ : ∀ x ∈ l, (Q x ↔ Q' x)) :
    Leads P Q l ↔ Leads P' Q' l := by
  induction l with
  | nil => simp [not_leads_nil]
  | cons a l ih =>
    rw [leads_cons, leads_cons, hP a List.mem_cons_self, hQ a List.mem_cons_self,
      ih (fun x hx => hP x (List.mem_cons_of_mem _ hx)) (fun x hx => hQ x (List.mem_cons_of_mem _ hx))]

/-! ## Dictionaries built from records -/

section Records

variable {ρ κ ν : Type} [DecidableEq κ] {P Q : κ → Prop}

/-- the keys stand in the order in which they first occur -/
theorem KeyedMerge.leads_keys_replay (u : KeyedMerge ρ κ ν) {key : ρ → κ} (hkey : ∀ r, u.key r = some (key r)) (rs : List ρ)
    (d : Dict κ ν) : Leads P Q (u.replay rs d).keys ↔ Leads P Q (d.keys ++ rs.map key) := by
  induction rs generalizing d with
  | nil => rw [List.map_nil, List.append_nil, KeyedMerge.replay, List.foldl_nil]
  | cons r rs ih =>
    have hwrite : u.write d d r = d.set (key r) (u.merge (d.get? (key r)) r) := by
      unfold KeyedMerge.write
      rw [hkey]
    change Leads P Q (u.replay rs (u.write d d r)).keys ↔ _
    rw [ih, hwrite, Dict.keys_set, List.map_cons]
    split_ifs with hmem
    · exact (leads_append_cons_of_mem hmem).symm
    · rw [List.append_assoc, List.singleton_append]

end Records

end Plenum.Core
