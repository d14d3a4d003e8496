/-
Programs over a state that may raise an exception, and a logic for what such programs do to the state step by step.

- `Exec ε σ α`: a program over the state `σ` that returns an `α` or raises an `ε`. What it wrote before it raised stays
  written (the state of an object survives the exception that leaves one of its methods).
- `Follows R m s Q`: from `s`, every run of `m` moves the state along steps of the relation `R`, also when it ends in an
  exception, and a run that returns ends in `Q`. The rules below take a program apart: a handler that is built from
  small writes follows any relation that allows each of these writes at the state where it is done.
- `Via f S`: steps that a part `f` of the state sees as steps of `S`, or does not see.
- `Keeps I m`: every run of `m` preserves the invariant `I`, however it ends.
- `Ignores g m`: a run of `m` neither reads nor writes what `g` changes.
- `foldlM_inv`: a loop that returns has kept the invariant of its body.
- `stable_of_steps`: what every step of `R` preserves, every run of a program that follows `R` preserves.
-/
import Mathlib.Tactic
import Mathlib.Logic.Relation

namespace Plenum.Core

open Relation (ReflTransGen)

/-! ## Programs -/

/-- a program over `σ` that may raise `ε` and keeps what it wrote -/
abbrev Exec (ε σ α : Type) := ExceptT ε (StateM σ) α

namespace Exec

variable {ε σ α β : Type}

/-- run a program: its outcome and the state it leaves -/
def exec (m : Exec ε σ α) (s : σ) : Except ε α × σ := m.run.run s

theorem exec_pure (a : α) (s : σ) : exec (pure a : Exec ε σ α) s = (.ok a, s) := rfl

theorem exec_throw (e : ε) (s : σ) : exec (throw e : Exec ε σ α) s = (.error e, s) := rfl

theorem exec_get (s : σ) : exec (get : Exec ε σ σ) s = (.ok s, s) := rfl

theorem exec_modify (g : σ → σ) (s : σ) : exec (modify g : Exec ε σ PUnit) s = (.ok ⟨⟩, g s) := rfl

theorem exec_bind (m : Exec ε σ α) (f : α → Exec ε σ β) (s : σ) :
    exec (m >>= f) s = match exec m s with
      | (.ok a, s') => exec (f a) s'
      | (.error e, s') => (.error e, s') := by
  change ((m s >>= fun r => (match r.1 with
    | .ok a => f a
    | .error e => pure (.error e) : StateM σ (Except ε β)) r.2 : Id (Except ε β × σ))) = _
  rcases hr : exec m s with ⟨a | a, s'⟩
  · have hm : m s = (Except.error a, s') := hr
    rw [hm]; rfl
  · have hm : m s = (Except.ok a, s') := hr
    rw [hm]; rfl

theorem exec_tryCatch (m : Exec ε σ α) (h : ε → Exec ε σ α) (s : σ) :
    exec (tryCatch m h) s = match exec m s with
      | (.ok a, s') => (.ok a, s')
      | (.error e, s') => exec (h e) s' := by
  change ((m s >>= fun r => (match r.1 with
    | .ok a => pure (.ok a)
    | .error e => h e : StateM σ (Except ε α)) r.2 : Id (Except ε α × σ))) = _
  rcases hr : exec m s with ⟨a | a, s'⟩
  · have hm : m s = (Except.error a, s') := hr
    rw [hm]; rfl
  · have hm : m s = (Except.ok a, s') := hr
    rw [hm]; rfl

end Exec

open Exec

/-! ## Following a step relation -/

/-- from `s` the program moves along `R`-steps; where it returns, it ends in `Q` -/
def Follows {ε σ α : Type} (R : σ → σ → Prop) (m : Exec ε σ α) (s : σ) (Q : α → σ → Prop) : Prop :=
  ReflTransGen R s (exec m s).2 ∧ ∀ a, (exec m s).1 = .ok a → Q a (exec m s).2

namespace Follows

variable {ε σ α β : Type} {R : σ → σ → Prop} {s : σ} {Q : α → σ → Prop}

theorem steps {m : Exec ε σ α} (h : Follows R m s Q) : ReflTransGen R s (exec m s).2 := h.1

theorem ret {a : α} (h : Q a s) : Follows R (pure a : Exec ε σ α) s Q :=
  ⟨ReflTransGen.refl, fun b hb => by rw [exec_pure] at hb; cases hb; exact h⟩

theorem raise (e : ε) : Follows R (throw e : Exec ε σ α) s Q :=
  ⟨ReflTransGen.refl, fun b hb => by rw [exec_throw] at hb; cases hb⟩

theorem read {Q : σ → σ → Prop} (h : Q s s) : Follows R (get : Exec ε σ σ) s Q :=
  ⟨ReflTransGen.refl, fun b hb => by rw [exec_get] at hb; cases hb; exact h⟩

/-- one write, allowed by `R` where it is done -/
theorem write {g : σ → σ} {Q : PUnit → σ → Prop} (hR : R s (g s)) (h : Q ⟨⟩ (g s)) :
    Follows R (modify g : Exec ε σ PUnit) s Q :=
  ⟨ReflTransGen.single hR, fun _ _ => h⟩

/-- the second part knows what the first one established, and that it was reached along `R` -/
theorem seq {m : Exec ε σ α} {f : α → Exec ε σ β} {Q' : β → σ → Prop} (hm : Follows R m s Q)
    (hf : ∀ a s', ReflTransGen R s s' → Q a s' → Follows R (f a) s' Q') : Follows R (m >>= f) s Q' := by
  obtain ⟨h1, h2⟩ := hm
  unfold Follows
  rw [exec_bind]
  rcases he : exec m s with ⟨e | a, s'⟩
  · rw [he] at h1
    exact ⟨h1, fun b hb => by cases hb⟩
  · rw [he] at h1 h2
    obtain ⟨h3, h4⟩ := hf a s' h1 (h2 a rfl)
    exact ⟨h1.trans h3, h4⟩

/-- a program that does what `m'` does from `s'`, where one step leads -/
theorem after {m : Exec ε σ α} (m' : Exec ε σ α) (s' : σ) (he : exec m s = exec m' s') (hR : R s s') (h : Follows R m' s' Q) :
    Follows R m s Q := by
  unfold Follows
  rw [he]
  exact ⟨ReflTransGen.head hR h.1, h.2⟩

theorem get_seq {f : σ → Exec ε σ β} {Q' : β → σ → Prop} (hf : Follows R (f s) s Q') :
    Follows R (get >>= f) s Q' := by
  unfold Follows
  rw [exec_bind, exec_get]
  exact hf

theorem mono {m : Exec ε σ α} {Q' : α → σ → Prop} (h : Follows R m s Q)
    (hQ : ∀ a s', ReflTransGen R s s' → Q a s' → Q' a s') : Follows R m s Q' :=
  ⟨h.1, fun a ha => hQ a _ h.1 (h.2 a ha)⟩

/-- a handler runs from wherever the exception left the state -/
theorem catching {m : Exec ε σ α} {h : ε → Exec ε σ α} (hm : Follows R m s Q)
    (hh : ∀ e s', ReflTransGen R s s' → Follows R (h e) s' Q) : Follows R (tryCatch m h) s Q := by
  obtain ⟨h1, h2⟩ := hm
  unfold Follows
  rw [exec_tryCatch]
  rcases he : exec m s with ⟨e | a, s'⟩
  · rw [he] at h1
    obtain ⟨h3, h4⟩ := hh e s' h1
    exact ⟨h1.trans h3, h4⟩
  · rw [he] at h1 h2
    exact ⟨h1, fun b hb => by cases hb; exact h2 a rfl⟩

theorem cond {c : Prop} [Decidable c] {m n : Exec ε σ α} (hm : c → Follows R m s Q) (hn : ¬c → Follows R n s Q) :
    Follows R (if c then m else n) s Q := by
  by_cases h : c
  · rw [if_pos h]; exact hm h
  · rw [if_neg h]; exact hn h

/-- a loop over a list, each round from wherever the rounds before it have led -/
theorem each {l : List α} {f : α → Exec ε σ PUnit}
    (hf : ∀ a ∈ l, ∀ s', ReflTransGen R s s' → Follows R (f a) s' fun _ _ => True) :
    Follows R (l.forM f) s fun _ _ => True := by
  induction l generalizing s with
  | nil => exact ret trivial
  | cons a l ih =>
    change Follows R (f a >>= fun _ => l.forM f) s _
    refine seq (hf a List.mem_cons_self s ReflTransGen.refl) fun _ s' hs' _ => ?_
    exact ih fun b hb s'' hs'' => hf b (List.mem_cons_of_mem a hb) s'' (hs'.trans hs'')

end Follows

/-! ## Steps of a part of the state -/

/-- a step leaves the part `f` of the state as it is, or is a step of `S` there -/
def Via {σ ρ : Type} (f : σ → ρ) (S : ρ → ρ → Prop) (s s' : σ) : Prop := f s' = f s ∨ S (f s) (f s')

namespace Via

variable {ε σ ρ : Type} {f : σ → ρ} {S : ρ → ρ → Prop} {s s' : σ}

theorem steps (h : ReflTransGen (Via f S) s s') : ReflTransGen S (f s) (f s') := by
  induction h with
  | refl => exact ReflTransGen.refl
  | tail _ hstep ih =>
    rcases hstep with he | hS
    · rw [he]; exact ih
    · exact ih.tail hS

/-- a write outside the part -/
theorem quiet {g : σ → σ} (h : f (g s) = f s) : Follows (Via f S) (modify g : Exec ε σ PUnit) s fun _ s' => s' = g s :=
  Follows.write (Or.inl h) rfl

theorem write {g : σ → σ} (h : S (f s) (f (g s))) :
    Follows (Via f S) (modify g : Exec ε σ PUnit) s fun _ s' => s' = g s :=
  Follows.write (Or.inr h) rfl

end Via

/-! ## Keeping an invariant -/

/-- a run of the program preserves `I`, whether it returns or raises -/
def Keeps {ε σ α : Type} (I : σ → Prop) (m : Exec ε σ α) : Prop := ∀ s, I s → I (exec m s).2

namespace Keeps

variable {ε σ α β : Type} {I : σ → Prop}

theorem ret (a : α) : Keeps I (pure a : Exec ε σ α) := fun _ h => h

theorem raise (e : ε) : Keeps I (throw e : Exec ε σ α) := fun _ h => h

theorem write {g : σ → σ} (h : ∀ s, I s → I (g s)) : Keeps I (modify g : Exec ε σ PUnit) := h

/-- where `I` holds after a run of `m`, it holds after what follows -/
theorem after {m : Exec ε σ α} {f : α → Exec ε σ β} {s : σ} (hm : I (exec m s).2) (hf : ∀ a, Keeps I (f a)) :
    I (exec (m >>= f) s).2 := by
  rw [exec_bind]
  rcases he : exec m s with ⟨e | a, s'⟩
  · rw [he] at hm
    exact hm
  · rw [he] at hm
    exact hf a s' hm

theorem seq {m : Exec ε σ α} {f : α → Exec ε σ β} (hm : Keeps I m) (hf : ∀ a, Keeps I (f a)) : Keeps I (m >>= f) :=
  fun s hs => after (hm s hs) hf

/-- a program that starts by reading the state may use what `I` says of it -/
theorem read {f : σ → Exec ε σ β} (hf : ∀ s, I s → I (exec (f s) s).2) : Keeps I (get >>= f) := by
  intro s hs
  rw [exec_bind, exec_get]
  exact hf s hs

theorem get_seq {f : σ → Exec ε σ β} (hf : ∀ s, Keeps I (f s)) : Keeps I (get >>= f) := read fun s hs => hf s s hs

/-- a part of a method that keeps `I`, and the rest of it that leads from `I` to `J` -/
theorem andThen {J : σ → Prop} {m : Exec ε σ α} {f : α → Exec ε σ β} {s : σ} (hm : Keeps I m) (hIJ : ∀ s, I s → J s)
    (hf : ∀ a s, I s → J (exec (f a) s).2) (hs : I s) : J (exec (m >>= f) s).2 := by
  have hm := hm s hs
  rw [exec_bind]
  rcases he : exec m s with ⟨e | a, s'⟩ <;> rw [he] at hm
  · exact hIJ s' hm
  · exact hf a s' hm

theorem cond {c : Prop} [Decidable c] {m n : Exec ε σ α} (hm : Keeps I m) (hn : Keeps I n) :
    Keeps I (if c then m else n) := by
  split_ifs
  · exact hm
  · exact hn

theorem each {l : List α} {f : α → Exec ε σ PUnit} (hf : ∀ a ∈ l, Keeps I (f a)) : Keeps I (l.forM f) := by
  induction l with
  | nil => exact ret _
  | cons a l ih => exact seq (hf a List.mem_cons_self) fun _ => ih fun b hb => hf b (List.mem_cons_of_mem a hb)

end Keeps

/-! ## Ignoring a change of the state -/

/-- after the change `g` the program does what it would have done before it, and `g` can as well be done afterwards -/
def Ignores {ε σ α : Type} (g : σ → σ) (m : Exec ε σ α) : Prop := ∀ s, exec m (g s) = ((exec m s).1, g (exec m s).2)

namespace Ignores

variable {ε σ α β : Type} {g : σ → σ}

theorem ret (a : α) : Ignores g (pure a : Exec ε σ α) := fun _ => rfl

theorem raise (e : ε) : Ignores g (throw e : Exec ε σ α) := fun _ => rfl

theorem write {h : σ → σ} (hh : ∀ s, h (g s) = g (h s)) : Ignores g (modify h : Exec ε σ PUnit) := by
  intro s
  rw [exec_modify, exec_modify, hh]

theorem seq {m : Exec ε σ α} {f : α → Exec ε σ β} (hm : Ignores g m) (hf : ∀ a, Ignores g (f a)) :
    Ignores g (m >>= f) := by
  intro s
  rw [exec_bind, exec_bind, hm s]
  rcases exec m s with ⟨e | a, s'⟩
  · rfl
  · exact hf a s'

theorem get_seq {f : σ → Exec ε σ β} (hsame : ∀ s, f (g s) = f s) (hf : ∀ s, Ignores g (f s)) :
    Ignores g (get >>= f) := by
  intro s
  rw [exec_bind, exec_bind, exec_get, exec_get]
  dsimp only
  rw [hsame]
  exact hf s s

theorem cond {c : Prop} [Decidable c] {m n : Exec ε σ α} (hm : Ignores g m) (hn : Ignores g n) :
    Ignores g (if c then m else n) := by
  split_ifs
  · exact hm
  · exact hn

end Ignores

/-- what each step preserves, a chain of steps preserves -/
theorem stable_of_steps {σ : Type} {R : σ → σ → Prop} {I : σ → Prop} (hI : ∀ s s', R s s' → I s → I s') {s s' : σ}
    (h : ReflTransGen R s s') (hs : I s) : I s' := by
  induction h with
  | refl => exact hs
  | tail _ hstep ih => exact hI _ _ hstep ih

/-! ## Results that may be missing -/

section Results

variable {ε α β : Type}

theorem ok_bind (a : α) (f : α → Except ε β) : (Except.ok a >>= f) = f a := rfl

theorem bind_eq_ok {x : Except ε α} {f : α → Except ε β} {b : β} : (x >>= f) = .ok b ↔ ∃ a, x = .ok a ∧ f a = .ok b := by
  cases x with
  | error e => exact ⟨fun h => (by cases h), fun ⟨a, h, _⟩ => (by cases h)⟩
  | ok a => exact ⟨fun h => ⟨a, rfl, h⟩, fun ⟨a', h, hf⟩ => by cases h; exact hf⟩

theorem map_eq_ok {x : Except ε α} {f : α → β} {b : β} : x.map f = .ok b ↔ ∃ a, x = .ok a ∧ f a = b := by
  cases x with
  | error e => exact ⟨fun h => (by cases h), fun ⟨a, h, _⟩ => (by cases h)⟩
  | ok a => exact ⟨fun h => ⟨a, rfl, Except.ok.inj h⟩, fun ⟨a', h, hf⟩ => by cases h; exact congrArg _ hf⟩

/-- what each round of a loop preserves, a loop that returns preserves -/
theorem foldlM_inv {f : β → α → Except ε β} {I : β → Prop} (hstep : ∀ b a b', I b → f b a = .ok b' → I b') {l : List α}
    {b b' : β} (h0 : I b) (h : l.foldlM f b = .ok b') : I b' := by
  induction l generalizing b with
  | nil => cases h; exact h0
  | cons a l ih =>
    rw [List.foldlM_cons] at h
    obtain ⟨b1, h1, h2⟩ := bind_eq_ok.1 h
    exact ih (hstep _ _ _ h0 h1) h2

end Results

end Plenum.Core
