/-
How a program ends: by returning or with an exception, and in which state. Nothing here names the program.

- `Ends m s Q E`: from `s`, the program `m` returns in `Q` or raises in `E`. With `E` false everywhere it returns.
- `Ends.seq`, `Ends.each`, …: a program that is built from smaller ones ends as they do.
- `Ends.ok`: what is known of how a program ends, at a run of it.
-/
import Mathlib.Tactic
import Plenum.Core.Exec

namespace Plenum.Core

open Exec

/-- from `s` the program returns in `Q` or raises in `E` -/
structure Ends {ε σ α : Type} (m : Exec ε σ α) (s : σ) (Q : α → σ → Prop) (E : ε → σ → Prop) : Prop where
  ok : ∀ a s', exec m s = (.ok a, s') → Q a s'
  error : ∀ e s', exec m s = (.error e, s') → E e s'

namespace Ends

variable {ε σ α β : Type} {s : σ} {Q : α → σ → Prop} {E : ε → σ → Prop}

theorem ret {a : α} (h : Q a s) : Ends (pure a : Exec ε σ α) s Q E := by
  constructor
  · intro b s' hb
    rw [exec_pure] at hb
    cases hb
    exact h
  · intro e s' he
    rw [exec_pure] at he
    cases he

theorem raise {e : ε} (h : E e s) : Ends (throw e : Exec ε σ α) s Q E := by
  constructor
  · intro b s' hb
    rw [exec_throw] at hb
    cases hb
  · intro e s' he
    rw [exec_throw] at he
    cases he
    exact h

theorem write {g : σ → σ} {Q : PUnit → σ → Prop} (h : Q ⟨⟩ (g s)) : Ends (modify g : Exec ε σ PUnit) s Q E := by
  constructor
  · intro b s' hb
    rw [exec_modify] at hb
    cases hb
    exact h
  · intro e s' he
    rw [exec_modify] at he
    cases he

/-- a program whose run is known -/
theorem of_exec {m : Exec ε σ α} {a : α} {s' : σ} (he : exec m s = (.ok a, s')) (h : Q a s') : Ends m s Q E := by
  constructor
  · intro b s2 hb
    rw [he] at hb
    cases hb
    exact h
  · intro e s2 hb
    rw [he] at hb
    cases hb

/-- the second part starts where the first one returns -/
theorem seq {m : Exec ε σ α} {f : α → Exec ε σ β} {Q' : β → σ → Prop} (hm : Ends m s Q E)
    (hf : ∀ a s', Q a s' → Ends (f a) s' Q' E) : Ends (m >>= f) s Q' E := by
  rcases he : exec m s with ⟨e | a, s'⟩
  · have hrun : exec (m >>= f) s = (.error e, s') := by rw [exec_bind, he]
    constructor
    · intro b s2 hb
      rw [hrun] at hb
      cases hb
    · intro e2 s2 he2
      rw [hrun] at he2
      cases he2
      exact hm.error e s' he
  · have hrun : exec (m >>= f) s = exec (f a) s' := by rw [exec_bind, he]
    obtain ⟨hok, herror⟩ := hf a s' (hm.ok a s' he)
    constructor
    · intro b s2 hb
      rw [hrun] at hb
      exact hok b s2 hb
    · intro e2 s2 he2
      rw [hrun] at he2
      exact herror e2 s2 he2

theorem get_seq {f : σ → Exec ε σ β} {Q' : β → σ → Prop} (h : Ends (f s) s Q' E) : Ends (get >>= f) s Q' E := by
  have hrun : exec (get >>= f) s = exec (f s) s := by rw [exec_bind, exec_get]
  constructor
  · intro b s2 hb
    rw [hrun] at hb
    exact h.ok b s2 hb
  · intro e2 s2 he2
    rw [hrun] at he2
    exact h.error e2 s2 he2

theorem modify_seq {g : σ → σ} {f : PUnit → Exec ε σ β} {Q' : β → σ → Prop} (h : Ends (f ⟨⟩) (g s) Q' E) :
    Ends (modify g >>= f) s Q' E :=
  seq (Q := fun _ s' => s' = g s) (write rfl) fun _ _ hs => hs ▸ h

theorem mono {m : Exec ε σ α} {Q' : α → σ → Prop} {E' : ε → σ → Prop} (h : Ends m s Q E)
    (hQ : ∀ a s', Q a s' → Q' a s') (hE : ∀ e s', E e s' → E' e s') : Ends m s Q' E' :=
  ⟨fun a s' he => hQ a s' (h.ok a s' he), fun e s' he => hE e s' (h.error e s' he)⟩

theorem cond {c : Prop} [Decidable c] {m n : Exec ε σ α} (hm : c → Ends m s Q E) (hn : ¬ c → Ends n s Q E) :
    Ends (if c then m else n) s Q E := by
  split_ifs with hc
  · exact hm hc
  · exact hn hc

/-- a handler starts where the exception was raised -/
theorem catching {m : Exec ε σ α} {h : ε → Exec ε σ α} {E' : ε → σ → Prop} (hm : Ends m s Q E)
    (hh : ∀ e s', E e s' → Ends (h e) s' Q E') : Ends (tryCatch m h) s Q E' := by
  rcases he : exec m s with ⟨e | a, s'⟩
  · have hrun : exec (tryCatch m h) s = exec (h e) s' := by rw [exec_tryCatch, he]
    obtain ⟨hok, herror⟩ := hh e s' (hm.error e s' he)
    constructor
    · intro b s2 hb
      rw [hrun] at hb
      exact hok b s2 hb
    · intro e2 s2 he2
      rw [hrun] at he2
      exact herror e2 s2 he2
  · have hrun : exec (tryCatch m h) s = (.ok a, s') := by rw [exec_tryCatch, he]
    constructor
    · intro b s2 hb
      rw [hrun] at hb
      cases hb
      exact hm.ok a s' he
    · intro e2 s2 he2
      rw [hrun] at he2
      cases he2

/-- a loop ends as its rounds do -/
theorem each {I : σ → Prop} {l : List α} {f : α → Exec ε σ PUnit}
    (hf : ∀ a ∈ l, ∀ s, I s → Ends (f a) s (fun _ => I) E) (hs : I s) : Ends (l.forM f) s (fun _ => I) E := by
  induction l generalizing s with
  | nil => exact ret hs
  | cons a l ih =>
    refine seq (hf a List.mem_cons_self s hs) fun _ s' hs' => ?_
    exact ih (fun a' ha' => hf a' (List.mem_cons_of_mem a ha')) hs'

/-- an invariant holds however the program ends -/
theorem of_keeps {m : Exec ε σ α} {I : σ → Prop} (h : Keeps I m) (hs : I s) : Ends m s (fun _ => I) fun _ => I := by
  have hI := h s hs
  constructor
  · intro a s' he
    rw [he] at hI
    exact hI
  · intro e s' he
    rw [he] at hI
    exact hI

/-- a program that cannot raise returns -/
theorem returns {m : Exec ε σ α} (h : Ends m s Q fun _ _ => False) : ∃ a s', exec m s = (.ok a, s') ∧ Q a s' := by
  rcases he : exec m s with ⟨e | a, s'⟩
  · exact absurd (h.error e s' he) id
  · exact ⟨a, s', rfl, h.ok a s' he⟩

end Ends

end Plenum.Core
