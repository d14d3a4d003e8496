/-
The timers of the actions that repeat: a wrapper of the action, which runs it and schedules itself once more.

- `Repeater`: an action queue, the clock, and the callable that is running. Calls come from outside while the queue is
  not serviced, and from the running action while it is.
- `scheduled_moveDue`, `Timed.moveDue`: actions that become due move to the queue, they are neither lost nor run early.
- `Sound.handle`: what each event keeps if no wrapper of the action is left when the action starts to repeat, and no
  action raises while it repeats.
- `one_timer`: in a run of such events an action that repeats has one timer and runs once per period.
- `two_timers`: an action that is stopped and started again before its wrapper fires has two.
-/
import Mathlib.Tactic
import Plenum.Core.Run
import Plenum.Server.HasActionQueue

namespace Plenum

open Plenum.Core

/-! ## What is scheduled -/

namespace ActionQueue

variable {A : Type} {P : A → ℕ → Prop} {q : ActionQueue A} {now : ℕ}

/-- how many scheduled actions are of a kind, in the queue and in the stash -/
def scheduled (q : ActionQueue A) (p : A → Bool) : ℕ :=
  q.actionQueue.countP (fun e => p e.1) + q.aqStash.countP (fun d => p d.2.1)

/-- what holds of each scheduled action and of a time that is over when it runs -/
structure Timed (P : A → ℕ → Prop) (q : ActionQueue A) (now : ℕ) : Prop where
  queued : ∀ e ∈ q.actionQueue, P e.1 now
  stashed : ∀ d ∈ q.aqStash, P d.2.1 d.1

theorem schedule_repeating (q : ActionQueue A) (now : ℕ) (action : A) (ticks : ℕ) :
    (q.schedule now action ticks).repeatingActions = q.repeatingActions := by
  unfold schedule
  dsimp only
  split_ifs <;> rfl

theorem scheduled_schedule (q : ActionQueue A) (now : ℕ) (action : A) (ticks : ℕ) (p : A → Bool) :
    (q.schedule now action ticks).scheduled p = q.scheduled p + if p action then 1 else 0 := by
  unfold schedule scheduled
  dsimp only
  split_ifs with hticks hp hp
  · rw [List.countP_append, List.countP_singleton, if_pos hp, add_assoc]
  · rw [List.countP_append, List.countP_singleton, if_neg hp, add_assoc]
  · rw [List.countP_append, List.countP_singleton, if_pos hp, add_right_comm]
  · rw [List.countP_append, List.countP_singleton, if_neg hp, add_right_comm]

theorem Timed.schedule (h : Timed P q now) {action : A} {ticks : ℕ} (haction : P action (now + ticks)) :
    Timed P (q.schedule now action ticks) now := by
  unfold ActionQueue.schedule
  dsimp only
  split_ifs with hticks
  · refine ⟨h.queued, fun d hd => ?_⟩
    rcases List.mem_append.1 hd with hd | hd
    · exact h.stashed d hd
    · rw [List.mem_singleton.1 hd]
      exact haction
  · refine ⟨fun e he => ?_, h.stashed⟩
    rcases List.mem_append.1 he with he | he
    · exact h.queued e he
    · rw [List.mem_singleton.1 he]
      rwa [Nat.eq_zero_of_not_pos hticks] at haction

/-- the actions that are due go to the front, the last one first -/
theorem moveDue_queue (l : List (ℕ × (A × ℕ))) (queue : List (A × ℕ)) (now : ℕ) :
    l.foldl (fun l d => if d.1 < now then d.2 :: l else l) queue =
      ((l.filter fun d => d.1 < now).map Prod.snd).reverse ++ queue := by
  induction l generalizing queue with
  | nil => rfl
  | cons d l ih =>
    rw [List.foldl_cons, ih]
    by_cases hd : d.1 < now
    · rw [if_pos hd, List.filter_cons_of_pos (by simpa using hd), List.map_cons, List.reverse_cons, List.append_assoc]
      rfl
    · rw [if_neg hd, List.filter_cons_of_neg (by simpa using hd)]

theorem moveDue_repeating (q : ActionQueue A) (now : ℕ) : (q.moveDue now).repeatingActions = q.repeatingActions := by
  unfold moveDue
  split_ifs
  · rfl
  · split
    · rfl
    · split_ifs <;> rfl

theorem scheduled_moveDue (q : ActionQueue A) (now : ℕ) (p : A → Bool) :
    (q.moveDue now).scheduled p = q.scheduled p := by
  unfold moveDue
  split_ifs
  · rfl
  · split
    · rfl
    · split_ifs
      · unfold scheduled
        dsimp only
        rw [moveDue_queue, List.countP_append, List.countP_reverse, List.countP_map, add_right_comm, add_comm]
        congr 1
        rw [← (List.filter_append_perm (fun d => decide (d.1 < now)) q.aqStash).countP_eq, List.countP_append]
        congr 2
        exact List.filter_congr fun d _ => decide_not
      · rfl

theorem Timed.moveDue (h : Timed P q now) (hmono : ∀ a t t', t ≤ t' → P a t → P a t') : Timed P (q.moveDue now) now := by
  unfold ActionQueue.moveDue
  split_ifs
  · exact h
  · split
    · exact h
    · split_ifs
      · refine ⟨fun e he => ?_, fun d hd => h.stashed d (List.mem_of_mem_filter hd)⟩
        dsimp only at he
        rw [moveDue_queue] at he
        rcases List.mem_append.1 he with he | he
        · obtain ⟨d, hd, rfl⟩ := List.mem_map.1 (List.mem_reverse.1 he)
          have hdue : d.1 < now := by simpa using List.of_mem_filter hd
          exact hmono _ _ _ hdue.le (h.stashed d (List.mem_of_mem_filter hd))
        · exact h.queued e he
      · exact h

end ActionQueue

/-! ## The repeater -/

/-- what is scheduled: an action, or the wrapper of one that repeats -/
inductive Callable (α : Type) where
  | plain (action : α)
  | wrapper (action : α) (seconds : ℕ)
deriving DecidableEq

/-- a run of an action by its wrapper -/
structure TimerRun (α : Type) where
  action : α
  seconds : ℕ
  time : ℕ
deriving DecidableEq

/-- the queue with the clock; `ran` is a history -/
structure Repeater (α : Type) where
  q : ActionQueue (Callable α)
  clock : ℕ
  servicing : Bool
  running : Option (Callable α)
  ran : List (TimerRun α)
deriving DecidableEq

/-- the calls that anyone can make -/
inductive QueueCall (α : Type) where
  | startRepeating (action : α) (seconds : ℕ)
  | stopRepeating (action : α)
  | schedule (action : α) (seconds : ℕ)
deriving DecidableEq

/-- what happens: a call, the steps of `_serviceActions`, and the end of the running action -/
inductive QueueEvent (α : Type) where
  | call (c : QueueCall α)
  | serviceActions
  | next
  | returns
  | raises
  | tick (ticks : ℕ)
deriving DecidableEq

variable {α : Type} [DecidableEq α]

def Callable.isWrapperOf (action : α) : Callable α → Bool
  | plain _ => false
  | wrapper action' _ => action' = action

def Callable.seconds : Callable α → ℕ
  | plain _ => 0
  | wrapper _ seconds => seconds

namespace Repeater

def init (clock : ℕ) : Repeater α := ⟨ActionQueue.empty, clock, false, none, []⟩

variable (s : Repeater α)

def repeats (action : α) : Prop := Callable.plain action ∈ s.q.repeatingActions

instance (action : α) : Decidable (s.repeats action) := by
  unfold repeats
  infer_instance

/-- `_schedule` -/
def schedule (c : Callable α) (seconds : ℕ) : Repeater α := { s with q := s.q.schedule s.clock c seconds }

def startRepeating (action : α) (seconds : ℕ) : Repeater α :=
  if s.repeats action then s
  else { s with q := { s.q with repeatingActions := s.q.repeatingActions ++ [Callable.plain action] } }.schedule
    (.wrapper action seconds) seconds

/-- if it raises, that is another event -/
def stopRepeating (action : α) : Repeater α := { s with q := (s.q.stopRepeating (.plain action)).getD s.q }

def call : QueueCall α → Repeater α
  | .startRepeating action seconds => s.startRepeating action seconds
  | .stopRepeating action => s.stopRepeating action
  | .schedule action seconds => s.schedule (.plain action) seconds

/-- a callable is called; a wrapper looks first whether its action still repeats -/
def invoke : Callable α → Repeater α
  | .plain action => { s with running := some (.plain action) }
  | .wrapper action seconds =>
    if s.repeats action then
      { s with running := some (.wrapper action seconds), ran := s.ran ++ [⟨action, seconds, s.clock⟩] }
    else s

/-- the running action returns; a wrapper schedules itself -/
def finish : Callable α → Repeater α
  | .plain _ => { s with running := none }
  | .wrapper action seconds => { s with running := none }.schedule (.wrapper action seconds) seconds

/-- the loop of `_serviceActions` -/
def next : Repeater α :=
  match s.q.actionQueue with
  | [] => { s with servicing := false }
  | (c, _) :: rest => { s with q := { s.q with actionQueue := rest } }.invoke c

/-- an event that cannot happen changes nothing -/
def handle : QueueEvent α → Repeater α
  | .call c => if s.servicing ∧ s.running = none then s else s.call c
  | .serviceActions => if s.servicing then s else { s with q := s.q.moveDue s.clock, servicing := true }
  | .next => if s.servicing ∧ s.running = none then s.next else s
  | .returns => match s.running with
    | none => s
    | some c => s.finish c
  | .raises => match s.running with
    | none => s
    | some _ => { s with running := none, servicing := false }
  | .tick ticks => { s with clock := s.clock + ticks }

def run (events : List (QueueEvent α)) : Repeater α := events.foldl handle s

/-! ## One timer -/

/-- the wrappers of an action that are scheduled -/
def pending (action : α) : ℕ := s.q.scheduled (Callable.isWrapperOf action)

/-- a wrapper of the action is running -/
def inWrapper (action : α) : Bool := s.running.any (Callable.isWrapperOf action)

/-- **One timer for each action**, and a run at most once per period. -/
structure OneTimer : Prop where
  atMostOne : ∀ action, s.pending action ≤ 1
  exactlyOne : ∀ action, s.repeats action → s.inWrapper action = false → s.pending action = 1
  oncePerPeriod : s.ran.Pairwise fun r r' => r.action = r'.action → r.time + r'.seconds ≤ r'.time

/-- no wrapper is left of an action that starts to repeat, and no action raises while it repeats -/
def Keeps : QueueEvent α → Prop
  | .call (.startRepeating action _) => ¬ s.repeats action → s.pending action = 0 ∧ s.inWrapper action = false
  | .raises => ∀ action, s.inWrapper action → ¬ s.repeats action
  | _ => True

/-- when a scheduled wrapper of an action runs, its period will be over since the action ran last -/
def Rests (ran : List (TimerRun α)) (c : Callable α) (time : ℕ) : Prop :=
  ∀ r ∈ ran, c.isWrapperOf r.action → r.time + c.seconds ≤ time

/-- the wrappers of an action, scheduled or running -/
def live (action : α) : ℕ := s.pending action + (s.inWrapper action).toNat

/-- what every event keeps -/
structure Sound : Prop where
  atMostOne : ∀ action, s.live action ≤ 1
  repeating : ∀ action, s.repeats action → 1 ≤ s.live action
  rests : s.q.Timed (Rests s.ran) s.clock
  past : ∀ r ∈ s.ran, r.time ≤ s.clock
  oncePerPeriod : s.ran.Pairwise fun r r' => r.action = r'.action → r.time + r'.seconds ≤ r'.time

variable {s}

theorem Sound.oneTimer (h : s.Sound) : s.OneTimer where
  atMostOne action := (Nat.le_add_right _ _).trans (h.atMostOne action)
  exactlyOne action hrepeats hrunning := by
    have hlive : s.live action = s.pending action := by
      unfold live
      rw [hrunning, Bool.toNat_false, add_zero]
    have h1 := h.atMostOne action
    have h2 := h.repeating action hrepeats
    omega
  oncePerPeriod := h.oncePerPeriod

theorem init_sound (clock : ℕ) : (init clock : Repeater α).Sound where
  atMostOne _ := Nat.zero_le _
  repeating _ h := absurd h List.not_mem_nil
  rests := ⟨fun _ h => absurd h List.not_mem_nil, fun _ h => absurd h List.not_mem_nil⟩
  past _ h := absurd h List.not_mem_nil
  oncePerPeriod := List.Pairwise.nil

/-! ## What the events keep -/

theorem Rests.mono {ran : List (TimerRun α)} (c : Callable α) (t t' : ℕ) (hle : t ≤ t') (h : Rests ran c t) :
    Rests ran c t' := fun r hr hc => (h r hr hc).trans hle

theorem Rests.record {ran : List (TimerRun α)} {c : Callable α} {t : ℕ} (h : Rests ran c t) {r : TimerRun α}
    (hc : c.isWrapperOf r.action = false) : Rests (ran ++ [r]) c t := by
  intro r' hr' hc'
  rcases List.mem_append.1 hr' with hr' | hr'
  · exact h r' hr' hc'
  · rw [List.mem_singleton.1 hr', hc] at hc'
    cases hc'

/-- what is scheduled now comes late enough -/
theorem Sound.rests_now (h : s.Sound) (c : Callable α) {seconds : ℕ} (hc : c.seconds ≤ seconds) :
    Rests s.ran c (s.clock + seconds) :=
  fun r hr _ => Nat.add_le_add (h.past r hr) hc

theorem live_schedule (c : Callable α) (seconds : ℕ) (action : α) :
    (s.schedule c seconds).live action = s.live action + if c.isWrapperOf action then 1 else 0 := by
  unfold live pending inWrapper schedule
  dsimp only
  rw [ActionQueue.scheduled_schedule, add_right_comm]

omit [DecidableEq α] in
theorem repeats_schedule (c : Callable α) (seconds : ℕ) (action : α) :
    (s.schedule c seconds).repeats action ↔ s.repeats action := by
  unfold repeats schedule
  dsimp only
  rw [ActionQueue.schedule_repeating]

theorem Sound.schedule (h : s.Sound) (action : α) (seconds : ℕ) : (s.schedule (.plain action) seconds).Sound where
  atMostOne action' := by
    rw [live_schedule]
    exact h.atMostOne action'
  repeating action' hrepeats := by
    rw [live_schedule]
    exact h.repeating action' ((repeats_schedule _ _ _).1 hrepeats)
  rests := h.rests.schedule (h.rests_now _ (Nat.zero_le _))
  past := h.past
  oncePerPeriod := h.oncePerPeriod

/-- fewer actions repeat -/
theorem Sound.fewer (h : s.Sound) {l : List (Callable α)} (hl : ∀ c ∈ l, c ∈ s.q.repeatingActions) :
    ({ s with q := { s.q with repeatingActions := l } } : Repeater α).Sound where
  atMostOne := h.atMostOne
  repeating action hrepeats := h.repeating action (hl _ hrepeats)
  rests := ⟨h.rests.queued, h.rests.stashed⟩
  past := h.past
  oncePerPeriod := h.oncePerPeriod

theorem Sound.stopRepeating (h : s.Sound) (action : α) : (s.stopRepeating action).Sound := by
  unfold Repeater.stopRepeating ActionQueue.stopRepeating
  split_ifs
  · exact h.fewer fun c hc => List.mem_of_mem_filter hc
  · exact h

theorem Sound.startRepeating (h : s.Sound) (action : α) (seconds : ℕ)
    (hkeeps : ¬ s.repeats action → s.pending action = 0 ∧ s.inWrapper action = false) :
    (s.startRepeating action seconds).Sound := by
  unfold Repeater.startRepeating
  split_ifs with hrepeats
  · exact h
  · obtain ⟨hpending, hrunning⟩ := hkeeps hrepeats
    have hnone : s.live action = 0 := by
      unfold live
      rw [hpending, hrunning, Bool.toNat_false]
    refine ⟨fun action' => ?_, fun action' h' => ?_, ?_, h.past, h.oncePerPeriod⟩
    · rw [live_schedule]
      change s.live action' + _ ≤ 1
      by_cases heq : action = action'
      · rw [← heq, hnone]
        split_ifs <;> omega
      · rw [if_neg (by simpa [Callable.isWrapperOf] using heq)]
        exact h.atMostOne action'
    · rw [live_schedule]
      change 1 ≤ s.live action' + _
      rw [repeats_schedule] at h'
      rcases List.mem_append.1 h' with h' | h'
      · exact (h.repeating action' h').trans (Nat.le_add_right _ _)
      · cases List.mem_singleton.1 h'
        rw [if_pos (by simp [Callable.isWrapperOf])]
        exact Nat.le_add_left 1 _
    · have hq : ActionQueue.Timed (Rests s.ran)
          { s.q with repeatingActions := s.q.repeatingActions ++ [Callable.plain action] } s.clock :=
        ⟨h.rests.queued, h.rests.stashed⟩
      exact hq.schedule (h.rests_now (.wrapper action seconds) le_rfl)

theorem Sound.call (h : s.Sound) (c : QueueCall α) (hkeeps : s.Keeps (.call c)) : (s.call c).Sound := by
  cases c with
  | startRepeating action seconds => exact h.startRepeating action seconds hkeeps
  | stopRepeating action => exact h.stopRepeating action
  | schedule action seconds => exact h.schedule action seconds

theorem Sound.serviceActions (h : s.Sound) :
    ({ s with q := s.q.moveDue s.clock, servicing := true } : Repeater α).Sound where
  atMostOne action := by
    have hlive := h.atMostOne action
    unfold live pending at *
    rwa [ActionQueue.scheduled_moveDue]
  repeating action hrepeats := by
    unfold repeats at hrepeats
    dsimp only at hrepeats
    rw [ActionQueue.moveDue_repeating] at hrepeats
    have hlive := h.repeating action hrepeats
    unfold live pending at *
    rwa [ActionQueue.scheduled_moveDue]
  rests := h.rests.moveDue Rests.mono
  past := h.past
  oncePerPeriod := h.oncePerPeriod

theorem Sound.finish (h : s.Sound) {c : Callable α} (hc : s.running = some c) : (s.finish c).Sound := by
  have hrunning : ∀ action, s.inWrapper action = c.isWrapperOf action := by
    intro action
    unfold inWrapper
    rw [hc, Option.any_some]
  cases c with
  | plain action =>
    have hlive : ∀ action', (s.finish (.plain action)).live action' = s.live action' := by
      intro action'
      unfold live
      rw [hrunning]
      rfl
    refine ⟨fun action' => ?_, fun action' hrepeats => ?_, h.rests, h.past, h.oncePerPeriod⟩
    · rw [hlive]
      exact h.atMostOne action'
    · rw [hlive]
      exact h.repeating action' hrepeats
  | wrapper action seconds =>
    -- the wrapper is scheduled now instead of running
    have hlive : ∀ action', (s.finish (.wrapper action seconds)).live action' = s.live action' := by
      intro action'
      unfold Repeater.finish
      rw [live_schedule]
      unfold live
      rw [hrunning]
      cases Callable.isWrapperOf action' (.wrapper action seconds) <;> rfl
    refine ⟨fun action' => ?_, fun action' hrepeats => ?_, ?_, h.past, h.oncePerPeriod⟩
    · rw [hlive]
      exact h.atMostOne action'
    · rw [hlive]
      exact h.repeating action' ((repeats_schedule _ _ _).1 hrepeats)
    · exact h.rests.schedule (h.rests_now (.wrapper action seconds) le_rfl)

theorem Sound.raises (h : s.Sound) (hkeeps : ∀ action, s.inWrapper action → ¬ s.repeats action) :
    ({ s with running := none, servicing := false } : Repeater α).Sound where
  atMostOne action := (Nat.le_add_right _ _).trans (h.atMostOne action)
  repeating action hrepeats := by
    have hrunning : s.inWrapper action = false := Bool.eq_false_iff.2 fun hin => hkeeps action hin hrepeats
    have hlive := h.repeating action hrepeats
    unfold live at hlive
    rwa [hrunning] at hlive
  rests := h.rests
  past := h.past
  oncePerPeriod := h.oncePerPeriod

theorem Sound.tick (h : s.Sound) (ticks : ℕ) : ({ s with clock := s.clock + ticks } : Repeater α).Sound where
  atMostOne := h.atMostOne
  repeating := h.repeating
  rests := ⟨fun e he => Rests.mono _ _ _ (Nat.le_add_right _ _) (h.rests.queued e he), h.rests.stashed⟩
  past r hr := (h.past r hr).trans (Nat.le_add_right _ _)
  oncePerPeriod := h.oncePerPeriod

/-- the next callable is the only wrapper of its action: while it runs none is scheduled -/
theorem Sound.next (h : s.Sound) (hidle : s.running = none) : s.next.Sound := by
  unfold Repeater.next
  cases hqueue : s.q.actionQueue with
  | nil => exact ⟨h.atMostOne, h.repeating, h.rests, h.past, h.oncePerPeriod⟩
  | cons e rest =>
    obtain ⟨c, aid⟩ := e
    have hlive : ∀ action, s.live action =
        ({ s with q := { s.q with actionQueue := rest } } : Repeater α).pending action +
          (c.isWrapperOf action).toNat := by
      intro action
      unfold live pending inWrapper ActionQueue.scheduled
      rw [hqueue, hidle, List.countP_cons]
      dsimp only
      cases c.isWrapperOf action
      · simp
      · simp
        omega
    have hrests : Rests s.ran c s.clock := h.rests.queued (c, aid) (by rw [hqueue]; exact List.mem_cons_self)
    have hqueued : ∀ e ∈ rest, Rests s.ran e.1 s.clock := fun e he =>
      h.rests.queued e (by rw [hqueue]; exact List.mem_cons_of_mem _ he)
    dsimp only
    cases c with
    | plain action =>
      refine ⟨fun action' => ?_, fun action' hrepeats => ?_, ⟨hqueued, h.rests.stashed⟩, h.past, h.oncePerPeriod⟩
      · exact (hlive action').symm.trans_le (h.atMostOne action')
      · exact (h.repeating action' hrepeats).trans_eq (hlive action')
    | wrapper action seconds =>
      unfold invoke
      dsimp only
      have hself : (Callable.wrapper action seconds).isWrapperOf action = true := decide_eq_true rfl
      split_ifs with hrepeats
      · -- no other wrapper of the action is scheduled
        have hnone := h.atMostOne action
        rw [hlive, hself, Bool.toNat_true] at hnone
        obtain ⟨hfree, hfree'⟩ := Nat.add_eq_zero_iff.1 (Nat.le_zero.1 (Nat.le_of_succ_le_succ hnone))
        rw [List.countP_eq_zero] at hfree hfree'
        refine ⟨fun action' => ?_, fun action' hrepeats => ?_, ⟨fun e he => ?_, fun d hd => ?_⟩, ?_, ?_⟩
        · exact (hlive action').symm.trans_le (h.atMostOne action')
        · exact (h.repeating action' hrepeats).trans_eq (hlive action')
        · exact (hqueued e he).record (Bool.eq_false_iff.2 (hfree e he))
        · exact (h.rests.stashed d hd).record (Bool.eq_false_iff.2 (hfree' d hd))
        · intro r hr
          rcases List.mem_append.1 hr with hr | hr
          · exact h.past r hr
          · rw [List.mem_singleton.1 hr]
        · refine List.pairwise_append.2 ⟨h.oncePerPeriod, List.pairwise_singleton _ _, fun r hr r' hr' heq => ?_⟩
          rw [List.mem_singleton.1 hr'] at heq ⊢
          exact hrests r hr (decide_eq_true heq.symm)
      · -- the action does not repeat any more, and this was its wrapper
        refine ⟨fun action' => ?_, fun action' hrepeats' => ?_, ⟨hqueued, h.rests.stashed⟩, h.past, h.oncePerPeriod⟩
        · have hle := h.atMostOne action'
          rw [hlive] at hle
          unfold live inWrapper
          rw [show ({ s with q := { s.q with actionQueue := rest } } : Repeater α).running = none from hidle]
          exact (Nat.le_add_right _ _).trans hle
        · have hle := h.repeating action' hrepeats'
          have hother : (Callable.wrapper action seconds).isWrapperOf action' = false :=
            decide_eq_false fun heq => hrepeats (heq ▸ hrepeats')
          rw [hlive, hother] at hle
          exact hle.trans (Nat.le_add_right _ _)

theorem Sound.handle (h : s.Sound) (e : QueueEvent α) (hkeeps : s.Keeps e) : (s.handle e).Sound := by
  cases e with
  | call c =>
    unfold Repeater.handle
    dsimp only
    split_ifs
    · exact h
    · exact h.call c hkeeps
  | serviceActions =>
    unfold Repeater.handle
    dsimp only
    split_ifs
    · exact h
    · exact h.serviceActions
  | next =>
    unfold Repeater.handle
    dsimp only
    split_ifs with hnext
    · exact h.next hnext.2
    · exact h
  | returns =>
    unfold Repeater.handle
    cases hc : s.running with
    | none => exact h
    | some c => exact h.finish hc
  | raises =>
    unfold Repeater.handle
    cases s.running with
    | none => exact h
    | some c => exact h.raises hkeeps
  | tick ticks => exact h.tick ticks

theorem Sound.run (h : s.Sound) {events : List (QueueEvent α)}
    (hkeeps : ∀ xs e ys, events = xs ++ e :: ys → (s.run xs).Keeps e) : (s.run events).Sound := by
  induction events generalizing s with
  | nil => exact h
  | cons e events ih =>
    obtain ⟨hhead, htail⟩ := forall_split_cons.1 hkeeps
    exact ih (h.handle e hhead) htail

/-! ## The result -/

/-- **An action has one timer** in every run in which no wrapper of it is left when it starts to repeat, and in which
it does not raise while it repeats. -/
theorem one_timer (clock : ℕ) (events : List (QueueEvent α))
    (hkeeps : ∀ xs e ys, events = xs ++ e :: ys → ((init clock).run xs).Keeps e) :
    ((init clock).run events).OneTimer :=
  ((init_sound clock).run hkeeps).oneTimer

/-! ## Witness -/

/-- an action starts to repeat and runs -/
def retry : List (QueueEvent String) :=
  [.call (.startRepeating "retryForExpected" 5), .tick 6, .serviceActions, .next, .returns]

theorem one_timer_retry : ((init 0).run retry).OneTimer ∧ ((init 0).run retry).ran = [⟨"retryForExpected", 5, 6⟩] :=
  ⟨one_timer 0 retry (forall_split_cons.2 ⟨fun _ => ⟨rfl, rfl⟩, forall_split_cons.2 ⟨trivial,
    forall_split_cons.2 ⟨trivial, forall_split_cons.2 ⟨trivial, forall_split_cons.2 ⟨trivial, by simp⟩⟩⟩⟩⟩),
    by decide +kernel⟩

/-- a client gets its last answer, and makes another request before the wrapper fires -/
def restarted : List (QueueEvent String) :=
  [.call (.startRepeating "retryForExpected" 5), .tick 1, .call (.stopRepeating "retryForExpected"), .tick 1,
    .call (.startRepeating "retryForExpected" 5)]

/-- there are two wrappers then, and the action runs twice -/
theorem two_timers : ¬ (∀ events : List (QueueEvent String), ((init 0).run events).OneTimer) ∧
    ((init 0).run restarted).pending "retryForExpected" = 2 ∧
    ((init 0).run (restarted ++ [.tick 6, .serviceActions, .next, .returns, .next, .returns])).ran =
      [⟨"retryForExpected", 5, 8⟩, ⟨"retryForExpected", 5, 8⟩] := by
  have htwo : ((init 0).run restarted).pending "retryForExpected" = 2 := by decide +kernel
  refine ⟨fun h => ?_, htwo, by decide +kernel⟩
  have hone := (h restarted).atMostOne "retryForExpected"
  rw [htwo] at hone
  exact absurd hone (by decide)

end Repeater

end Plenum
