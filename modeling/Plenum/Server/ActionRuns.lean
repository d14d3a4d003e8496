/-
When the actions of a queue run: each one once, and in the right call of `_serviceActions`.

- `ServicedQueue`: an action queue, the clock, and whether a call of `_serviceActions` is in progress. Actions are scheduled
  from outside or by a running action, at any time; the clock only goes forward. What has been asked for, when the calls
  began and what has run in them are histories.
- `Bounded`: the next check is not later than any stashed action; so if it is not due, nothing is
  (`Bounded.moveDue_eq`).
- `callOf`: the call in which an action is to run: the first one that begins when the clock is past its due time, or, for an
  action without delay, the call in progress or else the next one.
- `Tells`: the histories, read off the events.
- `Sound.handle`: what each event keeps. Every action asked for is in the queue, in the stash, or has run, once.
- `runs_once_on_time`: so it is in every run, also of a call that does not end: it gets to whatever is in the queue
  (`runs_of_next`).
-/
import Mathlib.Tactic
import Plenum.Server.RepeatingActions

namespace Plenum

/-! ## The next check -/

namespace ActionQueue

variable {A : Type} {q : ActionQueue A} {now : ℕ}

/-- the next check is not later than any stashed action -/
def Bounded (q : ActionQueue A) : Prop := ∀ d ∈ q.aqStash, ∃ c, q.aqNextCheck = some c ∧ c ≤ d.1

/-- the actions in the queue and in the stash, with their ids -/
def entries (q : ActionQueue A) : List (A × ℕ) := q.actionQueue ++ q.aqStash.map Prod.snd

theorem bounded_empty [DecidableEq A] : (empty : ActionQueue A).Bounded := fun _ h => absurd h List.not_mem_nil

theorem Bounded.schedule (h : q.Bounded) (now : ℕ) (action : A) (ticks : ℕ) : (q.schedule now action ticks).Bounded := by
  unfold ActionQueue.schedule
  dsimp only
  split_ifs
  · intro d hd
    rcases List.mem_append.1 hd with hd | hd
    · obtain ⟨c, hc, hle⟩ := h d hd
      rw [hc]
      exact ⟨min (now + ticks) c, rfl, (min_le_right _ _).trans hle⟩
    · rw [List.mem_singleton.1 hd]
      cases q.aqNextCheck with
      | none => exact ⟨now + ticks, rfl, le_rfl⟩
      | some c => exact ⟨min (now + ticks) c, rfl, min_le_left _ _⟩
  · exact h

/-- **What a check moves**: the stashed actions that are due, whether or not it looks at them -/
theorem Bounded.moveDue_eq (h : q.Bounded) (now : ℕ) :
    (q.moveDue now).actionQueue = ((q.aqStash.filter fun d => d.1 < now).map Prod.snd).reverse ++ q.actionQueue ∧
      (q.moveDue now).aqStash = q.aqStash.filter fun d => ¬ d.1 < now := by
  have hnothing : (∀ d ∈ q.aqStash, now ≤ d.1) → q.actionQueue =
      ((q.aqStash.filter fun d => d.1 < now).map Prod.snd).reverse ++ q.actionQueue ∧
        q.aqStash = q.aqStash.filter fun d => ¬ d.1 < now := by
    intro hlate
    have hnone : (q.aqStash.filter fun d => d.1 < now) = [] := by
      rw [List.filter_eq_nil_iff]
      intro d hd
      simpa using hlate d hd
    have hall : (q.aqStash.filter fun d => ¬ d.1 < now) = q.aqStash := by
      rw [List.filter_eq_self]
      intro d hd
      simpa using hlate d hd
    rw [hnone, hall]
    exact ⟨rfl, rfl⟩
  unfold moveDue
  split_ifs with hempty
  · exact hnothing fun d hd => by simp [hempty] at hd
  · cases hcheck : q.aqNextCheck with
    | none =>
      refine hnothing fun d hd => ?_
      obtain ⟨c, hc, -⟩ := h d hd
      rw [hcheck] at hc
      cases hc
    | some c =>
      dsimp only
      split_ifs with hdue
      · exact ⟨moveDue_queue _ _ _, rfl⟩
      · refine hnothing fun d hd => ?_
        obtain ⟨c', hc', hle⟩ := h d hd
        rw [hcheck] at hc'
        cases hc'
        omega

theorem Bounded.moveDue (h : q.Bounded) (now : ℕ) : (q.moveDue now).Bounded := by
  unfold ActionQueue.moveDue
  split_ifs with hempty
  · exact h
  · cases hcheck : q.aqNextCheck with
    | none => exact h
    | some c =>
      dsimp only
      split_ifs
      · -- the next check is set to the earliest action, also if that one is moved
        intro d hd
        have hmem : d.1 ∈ q.aqStash.map Prod.fst := List.mem_map_of_mem (List.mem_of_mem_filter hd)
        cases hmin : (q.aqStash.map Prod.fst).min? with
        | none =>
          rw [List.min?_eq_none_iff.1 hmin] at hmem
          cases hmem
        | some m => exact ⟨m, rfl, (List.le_min?_iff hmin).1 le_rfl d.1 hmem⟩
      · exact h

theorem schedule_aid (q : ActionQueue A) (now : ℕ) (action : A) (ticks : ℕ) :
    (q.schedule now action ticks).aid = q.aid + 1 := by
  unfold schedule
  dsimp only
  split_ifs <;> rfl

theorem moveDue_aid (q : ActionQueue A) (now : ℕ) : (q.moveDue now).aid = q.aid := by
  unfold moveDue
  split_ifs
  · rfl
  · split
    · rfl
    · split_ifs <;> rfl

theorem mem_stash_schedule {action : A} {ticks : ℕ} {d : ℕ × (A × ℕ)} :
    d ∈ (q.schedule now action ticks).aqStash ↔
      d ∈ q.aqStash ∨ 0 < ticks ∧ d = (now + ticks, (action, q.aid + 1)) := by
  unfold schedule
  dsimp only
  split_ifs with hticks <;> simp [hticks]

theorem mem_queue_schedule {action : A} {ticks : ℕ} {e : A × ℕ} :
    e ∈ (q.schedule now action ticks).actionQueue ↔ e ∈ q.actionQueue ∨ ¬ 0 < ticks ∧ e = (action, q.aid + 1) := by
  unfold schedule
  dsimp only
  split_ifs with hticks <;> simp [hticks]

theorem entries_schedule (q : ActionQueue A) (now : ℕ) (action : A) (ticks : ℕ) :
    (q.schedule now action ticks).entries.Perm (q.entries ++ [(action, q.aid + 1)]) := by
  unfold schedule entries
  dsimp only
  split_ifs
  · rw [List.map_append, ← List.append_assoc]
    rfl
  · rw [List.append_assoc, List.append_assoc]
    exact List.Perm.append_left _ List.perm_append_comm

/-- nothing is lost or doubled by moving -/
theorem Bounded.entries_moveDue (h : q.Bounded) (now : ℕ) : (q.moveDue now).entries.Perm q.entries := by
  obtain ⟨hqueue, hstash⟩ := h.moveDue_eq now
  have hsplit : ((q.aqStash.filter fun d => d.1 < now) ++ q.aqStash.filter fun d => ¬ d.1 < now).Perm q.aqStash := by
    have hnot : (fun d : ℕ × (A × ℕ) => decide (¬ d.1 < now)) = fun d => ! decide (d.1 < now) := by
      funext d
      exact decide_not
    rw [hnot]
    exact List.filter_append_perm _ _
  have hmoved : ∀ due late stash queue : List (A × ℕ), (due ++ late).Perm stash →
      (due.reverse ++ queue ++ late).Perm (queue ++ stash) := by
    intro due late stash queue hperm
    have hfront : (due.reverse ++ queue).Perm (queue ++ due) :=
      (due.reverse_perm.append_right queue).trans List.perm_append_comm
    refine (hfront.append_right late).trans ?_
    rw [List.append_assoc]
    exact hperm.append_left queue
  unfold entries
  rw [hqueue, hstash]
  refine hmoved _ _ _ _ ?_
  rw [← List.map_append]
  exact hsplit.map Prod.snd

end ActionQueue

/-! ## The queue in service -/

/-- an action asked for: when it is due, `none` if there is no delay, and the call in progress, or else the next one -/
structure Asked (A : Type) where
  action : A
  aid : ℕ
  due : Option ℕ
  call : ℕ
deriving DecidableEq, Repr

/-- a run of an action in a call -/
structure ActionRun (A : Type) where
  action : A
  aid : ℕ
  call : ℕ
deriving DecidableEq, Repr

def Asked.entry {A : Type} (a : Asked A) : A × ℕ := (a.action, a.aid)

def ActionRun.entry {A : Type} (r : ActionRun A) : A × ℕ := (r.action, r.aid)

/-- an action queue in service. `starts`, `asked` and `ran` are histories: when the calls of `_serviceActions` began, what
was asked for, and which action ran in which call. -/
structure ServicedQueue (A : Type) where
  q : ActionQueue A
  clock : ℕ
  servicing : Bool
  starts : List ℕ
  asked : List (Asked A)
  ran : List (ActionRun A)
deriving DecidableEq

/-- `next` is a round of the loop of `_serviceActions`; what the action does follows as events -/
inductive ServiceEvent (A : Type) where
  | schedule (action : A) (seconds : ℕ)
  | serviceActions
  | next
  | tick (ticks : ℕ)
deriving DecidableEq

namespace ServicedQueue

variable {A : Type}

def init [DecidableEq A] (clock : ℕ) : ServicedQueue A := ⟨ActionQueue.empty, clock, false, [], [], []⟩

variable (s : ServicedQueue A)

/-- the number of the call in progress, or else of the next one -/
def call : ℕ := if s.servicing then s.starts.length - 1 else s.starts.length

def schedule (action : A) (seconds : ℕ) : ServicedQueue A :=
  { s with
    q := s.q.schedule s.clock action seconds,
    asked := s.asked ++ [⟨action, s.q.aid + 1, if 0 < seconds then some (s.clock + seconds) else none, s.call⟩] }

/-- the actions that are due are moved, then the loop begins -/
def serviceActions : ServicedQueue A :=
  { s with q := s.q.moveDue s.clock, servicing := true, starts := s.starts ++ [s.clock] }

/-- the first action runs; without one the call returns -/
def next : ServicedQueue A :=
  match s.q.actionQueue with
  | [] => { s with servicing := false }
  | (action, aid) :: rest =>
    { s with q := { s.q with actionQueue := rest }, ran := s.ran ++ [⟨action, aid, s.call⟩] }

/-- an event that cannot happen changes nothing -/
def handle : ServiceEvent A → ServicedQueue A
  | .schedule action seconds => s.schedule action seconds
  | .serviceActions => if s.servicing then s else s.serviceActions
  | .next => if s.servicing then s.next else s
  | .tick ticks => { s with clock := s.clock + ticks }

def run (events : List (ServiceEvent A)) : ServicedQueue A := events.foldl handle s

/-! ## On time -/

/-- the call in which an action is to run: the first one that begins when the clock is past its due time (`none` as long as
there is none), or the call in progress or else the next one -/
def callOf (starts : List ℕ) (a : Asked A) : Option ℕ :=
  match a.due with
  | some time => starts.findIdx? fun tm => time < tm
  | none => some a.call

/-- the call has returned -/
def Returned (i : ℕ) : Prop := i < s.call

/-- what every event keeps -/
structure Sound : Prop where
  bounded : s.q.Bounded
  entries : (s.q.entries ++ s.ran.map ActionRun.entry).Perm (s.asked.map Asked.entry)
  nodup : (s.asked.map Asked.aid).Nodup
  fresh : ∀ a ∈ s.asked, a.aid ≤ s.q.aid
  past : ∀ tm ∈ s.starts, tm ≤ s.clock
  stashed : ∀ d ∈ s.q.aqStash, ∃ a ∈ s.asked, a.entry = d.2 ∧ a.due = some d.1 ∧ ∀ tm ∈ s.starts, tm ≤ d.1
  queued : ∀ e ∈ s.q.actionQueue, ∃ a ∈ s.asked, a.entry = e ∧ callOf s.starts a = some s.call
  ran : ∀ r ∈ s.ran, ∃ a ∈ s.asked, a.entry = r.entry ∧ callOf s.starts a = some r.call

variable {s}

theorem init_sound [DecidableEq A] (clock : ℕ) : (init clock : ServicedQueue A).Sound where
  bounded := ActionQueue.bounded_empty
  entries := List.Perm.refl _
  nodup := List.nodup_nil
  fresh _ h := absurd h List.not_mem_nil
  past _ h := absurd h List.not_mem_nil
  stashed _ h := absurd h List.not_mem_nil
  queued _ h := absurd h List.not_mem_nil
  ran _ h := absurd h List.not_mem_nil

/-- a call that has begun stays the first one -/
theorem callOf_append {starts : List ℕ} {a : Asked A} {i : ℕ} (h : callOf starts a = some i) (tm : ℕ) :
    callOf (starts ++ [tm]) a = some i := by
  unfold callOf at *
  cases hdue : a.due with
  | none => rwa [hdue] at h
  | some time =>
    rw [hdue] at h
    dsimp only at h ⊢
    rw [List.findIdx?_append, h, Option.some_or]

theorem callOf_concat {starts : List ℕ} {a : Asked A} {time tm : ℕ} (hdue : a.due = some time)
    (hbefore : ∀ tm ∈ starts, tm ≤ time) (hlate : time < tm) : callOf (starts ++ [tm]) a = some starts.length := by
  have hnone : starts.findIdx? (fun tm => decide (time < tm)) = none := by
    rw [List.findIdx?_eq_none_iff]
    intro u hu
    simpa using hbefore u hu
  unfold callOf
  rw [hdue]
  dsimp only
  rw [List.findIdx?_append, hnone]
  simp [hlate]

/-! ## What the events keep -/

theorem Sound.schedule (h : s.Sound) (action : A) (seconds : ℕ) : (s.schedule action seconds).Sound where
  bounded := h.bounded.schedule s.clock action seconds
  entries := by
    have hperm := (ActionQueue.entries_schedule s.q s.clock action seconds).append_right (s.ran.map ActionRun.entry)
    have hnew : (s.q.entries ++ [(action, s.q.aid + 1)] ++ s.ran.map ActionRun.entry).Perm
        (s.q.entries ++ s.ran.map ActionRun.entry ++ [(action, s.q.aid + 1)]) := by
      rw [List.append_assoc, List.append_assoc]
      exact List.perm_append_comm.append_left _
    unfold ServicedQueue.schedule
    dsimp only
    rw [List.map_append]
    exact (hperm.trans hnew).trans (h.entries.append_right _)
  nodup := by
    unfold ServicedQueue.schedule
    dsimp only
    rw [List.map_append, List.nodup_append]
    refine ⟨h.nodup, List.nodup_singleton _, ?_⟩
    rintro aid haid _ hnew rfl
    obtain ⟨a, ha, rfl⟩ := List.mem_map.1 haid
    have hle := h.fresh a ha
    rw [List.map_singleton, List.mem_singleton] at hnew
    dsimp only at hnew
    omega
  fresh a ha := by
    unfold ServicedQueue.schedule
    dsimp only
    rw [ActionQueue.schedule_aid]
    rcases List.mem_append.1 ha with ha | ha
    · exact (h.fresh a ha).trans (Nat.le_succ _)
    · rw [List.mem_singleton.1 ha]
  past := h.past
  stashed d hd := by
    rcases ActionQueue.mem_stash_schedule.1 hd with hd | ⟨hseconds, rfl⟩
    · obtain ⟨a, ha, hrest⟩ := h.stashed d hd
      exact ⟨a, List.mem_append_left _ ha, hrest⟩
    · refine ⟨_, List.mem_append_right _ (List.mem_singleton_self _), rfl, if_pos hseconds, fun tm htm => ?_⟩
      exact (h.past tm htm).trans (Nat.le_add_right _ _)
  queued e he := by
    rcases ActionQueue.mem_queue_schedule.1 he with he | ⟨hseconds, rfl⟩
    · obtain ⟨a, ha, hrest⟩ := h.queued e he
      exact ⟨a, List.mem_append_left _ ha, hrest⟩
    · refine ⟨_, List.mem_append_right _ (List.mem_singleton_self _), rfl, ?_⟩
      unfold callOf
      dsimp only
      rw [if_neg hseconds]
      rfl
  ran r hr := by
    obtain ⟨a, ha, hrest⟩ := h.ran r hr
    exact ⟨a, List.mem_append_left _ ha, hrest⟩

theorem Sound.serviceActions (h : s.Sound) (hidle : s.servicing = false) : s.serviceActions.Sound := by
  obtain ⟨hqueue, hstash⟩ := h.bounded.moveDue_eq s.clock
  have hcall : s.call = s.starts.length := by
    unfold call
    rw [hidle]
    rfl
  have hcall' : s.serviceActions.call = s.starts.length := by
    unfold call ServicedQueue.serviceActions
    simp
  refine ⟨h.bounded.moveDue s.clock, ?_, h.nodup, ?_, ?_, ?_, ?_, ?_⟩
  · exact ((h.bounded.entries_moveDue s.clock).append_right _).trans h.entries
  · intro a ha
    exact (h.fresh a ha).trans_eq (ActionQueue.moveDue_aid s.q s.clock).symm
  · intro tm htm
    rcases List.mem_append.1 htm with htm | htm
    · exact h.past tm htm
    · exact (List.mem_singleton.1 htm).le
  · intro d hd
    have hd' : d ∈ (s.q.moveDue s.clock).aqStash := hd
    rw [hstash, List.mem_filter, decide_eq_true_eq] at hd'
    obtain ⟨a, ha, hentry, hdue, hbefore⟩ := h.stashed d hd'.1
    refine ⟨a, ha, hentry, hdue, fun tm htm => ?_⟩
    rcases List.mem_append.1 htm with htm | htm
    · exact hbefore tm htm
    · rw [List.mem_singleton.1 htm]
      exact Nat.not_lt.1 hd'.2
  · -- an action that is moved is past its due time now, and was not at the beginning of any call before
    intro e he
    have he' : e ∈ (s.q.moveDue s.clock).actionQueue := he
    rw [hqueue, List.mem_append, List.mem_reverse, List.mem_map] at he'
    rw [hcall']
    rcases he' with ⟨d, hd, rfl⟩ | he'
    · rw [List.mem_filter, decide_eq_true_eq] at hd
      obtain ⟨a, ha, hentry, hdue, hbefore⟩ := h.stashed d hd.1
      exact ⟨a, ha, hentry, callOf_concat hdue hbefore hd.2⟩
    · obtain ⟨a, ha, hentry, hcallOf⟩ := h.queued e he'
      exact ⟨a, ha, hentry, callOf_append (hcall ▸ hcallOf) _⟩
  · intro r hr
    obtain ⟨a, ha, hentry, hcallOf⟩ := h.ran r hr
    exact ⟨a, ha, hentry, callOf_append hcallOf _⟩

theorem Sound.next (h : s.Sound) : s.next.Sound := by
  unfold ServicedQueue.next
  cases hqueue : s.q.actionQueue with
  | nil =>
    refine ⟨h.bounded, h.entries, h.nodup, h.fresh, h.past, h.stashed, ?_, h.ran⟩
    intro e he
    have he' : e ∈ s.q.actionQueue := he
    rw [hqueue] at he'
    exact absurd he' List.not_mem_nil
  | cons e rest =>
    obtain ⟨action, aid⟩ := e
    have hmem : ∀ e ∈ rest, e ∈ s.q.actionQueue := fun e he => hqueue ▸ List.mem_cons_of_mem _ he
    have hhead : (action, aid) ∈ s.q.actionQueue := hqueue ▸ List.mem_cons_self
    refine ⟨h.bounded, ?_, h.nodup, h.fresh, h.past, h.stashed, fun e he => h.queued e (hmem e he), ?_⟩
    · have hperm := h.entries
      unfold ActionQueue.entries at hperm ⊢
      rw [hqueue] at hperm
      dsimp only
      rw [List.map_append, ← List.append_assoc]
      exact List.perm_append_comm.trans hperm
    · intro r hr
      rcases List.mem_append.1 hr with hr | hr
      · exact h.ran r hr
      · rw [List.mem_singleton.1 hr]
        exact h.queued (action, aid) hhead

theorem Sound.tick (h : s.Sound) (ticks : ℕ) : ({ s with clock := s.clock + ticks } : ServicedQueue A).Sound where
  bounded := h.bounded
  entries := h.entries
  nodup := h.nodup
  fresh := h.fresh
  past tm htm := (h.past tm htm).trans (Nat.le_add_right _ _)
  stashed := h.stashed
  queued := h.queued
  ran := h.ran

theorem Sound.handle (h : s.Sound) (e : ServiceEvent A) : (s.handle e).Sound := by
  cases e with
  | schedule action seconds => exact h.schedule action seconds
  | serviceActions =>
    unfold ServicedQueue.handle
    dsimp only
    split_ifs with hservicing
    · exact h
    · exact h.serviceActions (Bool.eq_false_iff.2 hservicing)
  | next =>
    unfold ServicedQueue.handle
    dsimp only
    split_ifs with hservicing
    · exact h.next
    · exact h
  | tick ticks => exact h.tick ticks

theorem Sound.run (h : s.Sound) (events : List (ServiceEvent A)) : (s.run events).Sound := by
  induction events generalizing s with
  | nil => exact h
  | cons e events ih => exact ih (h.handle e)

/-! ## Each action once -/

theorem Sound.eq_of_aid (h : s.Sound) {a a' : Asked A} (ha : a ∈ s.asked) (ha' : a' ∈ s.asked) (haid : a.aid = a'.aid) :
    a = a' := List.inj_on_of_nodup_map h.nodup ha ha' haid

theorem Sound.eq_of_entry (h : s.Sound) {a a' : Asked A} (ha : a ∈ s.asked) (ha' : a' ∈ s.asked)
    (hentry : a.entry = a'.entry) : a = a' := h.eq_of_aid ha ha' (congrArg Prod.snd hentry)

/-- no action runs twice -/
theorem Sound.ran_nodup (h : s.Sound) : (s.ran.map ActionRun.aid).Nodup := by
  have hasked : ((s.asked.map Asked.entry).map Prod.snd).Nodup := by
    rw [List.map_map]
    exact h.nodup
  have hall := (h.entries.map Prod.snd).nodup_iff.2 hasked
  rw [List.map_append, List.nodup_append] at hall
  have hran := hall.2.1
  rwa [List.map_map] at hran

/-- what has run ran in its call -/
theorem Sound.callOf_ran (h : s.Sound) {a : Asked A} (ha : a ∈ s.asked) {r : ActionRun A} (hr : r ∈ s.ran)
    (haid : r.aid = a.aid) : r.action = a.action ∧ callOf s.starts a = some r.call := by
  obtain ⟨a', ha', hentry, hcall⟩ := h.ran r hr
  obtain rfl : a' = a := h.eq_of_aid ha' ha ((congrArg Prod.snd hentry).trans haid)
  exact ⟨(congrArg Prod.fst hentry).symm, hcall⟩

/-- an action has run when its call has returned -/
theorem Sound.ran_of_returned (h : s.Sound) {a : Asked A} (ha : a ∈ s.asked) {i : ℕ}
    (hcall : callOf s.starts a = some i) (hreturned : s.Returned i) : ⟨a.action, a.aid, i⟩ ∈ s.ran := by
  have hmem : a.entry ∈ s.q.entries ++ s.ran.map ActionRun.entry := h.entries.mem_iff.2 (List.mem_map_of_mem ha)
  rcases List.mem_append.1 hmem with hmem | hmem
  · exfalso
    rcases List.mem_append.1 hmem with hqueued | hstashed
    · -- the actions of the queue are for the call in progress or the next one
      obtain ⟨a', ha', hentry, hnow⟩ := h.queued _ hqueued
      rw [h.eq_of_entry ha' ha hentry, hcall] at hnow
      cases hnow
      exact absurd hreturned (lt_irrefl _)
    · -- those of the stash have been due at the beginning of no call
      obtain ⟨d, hd, hd'⟩ := List.mem_map.1 hstashed
      obtain ⟨a', ha', hentry, hdue, hbefore⟩ := h.stashed d hd
      rw [h.eq_of_entry ha' ha (hentry.trans hd')] at hdue
      have hnone : s.starts.findIdx? (fun tm => decide (d.1 < tm)) = none := by
        rw [List.findIdx?_eq_none_iff]
        intro tm htm
        simpa using hbefore tm htm
      unfold callOf at hcall
      rw [hdue] at hcall
      dsimp only at hcall
      rw [hnone] at hcall
      cases hcall
  · obtain ⟨r, hr, hentry⟩ := List.mem_map.1 hmem
    obtain ⟨haction, hrun⟩ := h.callOf_ran ha hr (congrArg Prod.snd hentry)
    rw [hcall] at hrun
    obtain ⟨action, aid, call⟩ := r
    cases hentry
    cases hrun
    exact hr

/-! ## A call gets to whatever is in the queue -/

def isNext : ServiceEvent A → Bool
  | .next => true
  | _ => false

theorem ran_handle (e : ServiceEvent A) : s.ran ⊆ (s.handle e).ran := by
  cases e with
  | schedule action seconds => exact List.Subset.refl _
  | serviceActions =>
    unfold handle
    dsimp only
    split_ifs <;> exact List.Subset.refl _
  | next =>
    unfold handle next
    dsimp only
    split_ifs
    · split
      · exact List.Subset.refl _
      · exact List.subset_append_left _ _
    · exact List.Subset.refl _
  | tick ticks => exact List.Subset.refl _

theorem ran_run (events : List (ServiceEvent A)) : s.ran ⊆ (s.run events).ran := by
  induction events generalizing s with
  | nil => exact List.Subset.refl _
  | cons e events ih => exact List.Subset.trans (ran_handle e) ih

/-- an action of the queue runs in the call in progress, after those before it -/
theorem runs_of_next (events : List (ServiceEvent A)) (hservicing : s.servicing = true)
    {before after : List (A × ℕ)} {action : A} {aid : ℕ} (hqueue : s.q.actionQueue = before ++ (action, aid) :: after)
    (hrounds : before.length < events.countP isNext) : ⟨action, aid, s.call⟩ ∈ (s.run events).ran := by
  induction events generalizing s before after with
  | nil => exact absurd hrounds (Nat.not_lt_zero _)
  | cons e events ih =>
    rw [List.countP_cons] at hrounds
    cases e with
    | schedule action' seconds =>
      have hlater : ∃ more, (s.schedule action' seconds).q.actionQueue = before ++ (action, aid) :: (after ++ more) := by
        unfold schedule ActionQueue.schedule
        dsimp only
        split_ifs
        · exact ⟨[], by rw [hqueue, List.append_nil]⟩
        · exact ⟨[(action', s.q.aid + 1)], by rw [hqueue, List.append_assoc, List.cons_append]⟩
      obtain ⟨more, hmore⟩ := hlater
      exact ih (s := s.schedule action' seconds) hservicing hmore hrounds
    | serviceActions =>
      have hsame : s.handle .serviceActions = s := if_pos hservicing
      have hrun := ih hservicing hqueue hrounds
      rwa [run, List.foldl_cons, hsame]
    | next =>
      have hnext : s.handle .next = s.next := if_pos hservicing
      rw [run, List.foldl_cons, hnext]
      cases before with
      | nil =>
        -- it is its turn
        apply ran_run
        unfold next
        rw [hqueue]
        exact List.mem_append_right _ (List.mem_singleton_self _)
      | cons e' before =>
        have hstep : s.next.q.actionQueue = before ++ (action, aid) :: after ∧ s.next.servicing = true ∧
            s.next.call = s.call := by
          unfold next
          rw [hqueue]
          exact ⟨rfl, hservicing, rfl⟩
        have hrest : before.length < events.countP isNext := by
          simp only [isNext, if_true, List.length_cons] at hrounds
          omega
        rw [← hstep.2.2]
        exact ih hstep.2.1 hstep.1 hrest
    | tick ticks => exact ih (s := { s with clock := s.clock + ticks }) hservicing hqueue hrounds

/-! ## What the histories tell -/

def isSchedule : ServiceEvent A → Bool
  | .schedule _ _ => true
  | _ => false

def ticksOf : ServiceEvent A → ℕ
  | .tick ticks => ticks
  | _ => 0

/-- the clock after the events -/
def clockAfter (clock : ℕ) (events : List (ServiceEvent A)) : ℕ := clock + (events.map ticksOf).sum

/-- what an action is asked for as, when it is scheduled after the events -/
def askedAfter [DecidableEq A] (clock : ℕ) (events : List (ServiceEvent A)) (action : A) (seconds : ℕ) : Asked A :=
  ⟨action, events.countP isSchedule + 1, if 0 < seconds then some (clockAfter clock events + seconds) else none,
    ((init clock).run events).call⟩

/-- **The histories are those of the events.** What was asked for are the actions that were scheduled, numbered one by
one, each due the given time after the clock of that moment, or in the call that was then in progress or else the next
one. The calls have begun when `_serviceActions` was called and none was in progress, at the clock of that moment. -/
structure Tells [DecidableEq A] (clock : ℕ) (events : List (ServiceEvent A)) : Prop where
  asked : ∀ a, a ∈ ((init clock).run events).asked ↔ ∃ before action seconds after,
    events = before ++ .schedule action seconds :: after ∧ a = askedAfter clock before action seconds
  starts : ∀ i tm, ((init clock).run events).starts[i]? = some tm ↔ ∃ before after,
    events = before ++ .serviceActions :: after ∧ ((init clock).run before).servicing = false ∧
      i = ((init clock).run before).call ∧ tm = clockAfter clock before

theorem next_frame (s : ServicedQueue A) :
    s.next.asked = s.asked ∧ s.next.starts = s.starts ∧ s.next.q.aid = s.q.aid ∧ s.next.clock = s.clock := by
  unfold next
  split <;> exact ⟨rfl, rfl, rfl, rfl⟩

theorem counters_handle (s : ServicedQueue A) (e : ServiceEvent A) :
    (s.handle e).clock = s.clock + ticksOf e ∧ (s.handle e).q.aid = s.q.aid + [e].countP isSchedule := by
  unfold handle
  cases e with
  | schedule action seconds => exact ⟨rfl, ActionQueue.schedule_aid _ _ _ _⟩
  | serviceActions =>
    dsimp only
    split_ifs
    · exact ⟨rfl, rfl⟩
    · exact ⟨rfl, ActionQueue.moveDue_aid _ _⟩
  | next =>
    dsimp only
    split_ifs
    · exact ⟨(next_frame s).2.2.2, (next_frame s).2.2.1⟩
    · exact ⟨rfl, rfl⟩
  | tick ticks => exact ⟨rfl, rfl⟩

theorem mem_asked_handle (s : ServicedQueue A) (e : ServiceEvent A) (a : Asked A) :
    a ∈ (s.handle e).asked ↔ a ∈ s.asked ∨ ∃ action seconds, e = .schedule action seconds ∧
      a = ⟨action, s.q.aid + 1, if 0 < seconds then some (s.clock + seconds) else none, s.call⟩ := by
  unfold handle
  cases e with
  | schedule action seconds =>
    refine List.mem_append.trans (or_congr_right (List.mem_singleton.trans ?_))
    constructor
    · rintro rfl
      exact ⟨action, seconds, rfl, rfl⟩
    · rintro ⟨_, _, h, rfl⟩
      cases h
      rfl
  | serviceActions =>
    dsimp only
    split_ifs <;> simp [serviceActions]
  | next =>
    dsimp only
    split_ifs
    · simp [(next_frame s).1]
    · simp
  | tick ticks => simp

theorem starts_handle (s : ServicedQueue A) (e : ServiceEvent A) (i tm : ℕ) :
    (s.handle e).starts[i]? = some tm ↔ s.starts[i]? = some tm ∨
      (e = .serviceActions ∧ s.servicing = false ∧ i = s.call ∧ tm = s.clock) := by
  unfold handle
  cases e with
  | schedule action seconds => simp [schedule]
  | serviceActions =>
    dsimp only
    cases hservicing : s.servicing with
    | true => simp
    | false =>
      have hcall : s.call = s.starts.length := by
        unfold call
        rw [hservicing]
        rfl
      rw [hcall]
      rcases lt_trichotomy i s.starts.length with hlt | rfl | hgt
      · simp [serviceActions, List.getElem?_append_left hlt, hlt.ne]
      · simp [serviceActions, eq_comm]
      · have hnone : s.starts[i]? = none := List.getElem?_eq_none hgt.le
        have hnone' : (s.starts ++ [s.clock])[i]? = none := by
          refine List.getElem?_eq_none ?_
          rw [List.length_append]
          exact hgt
        simp [serviceActions, hnone, hnone', hgt.ne']
  | next =>
    dsimp only
    split_ifs
    · simp [(next_frame s).2.1]
    · simp
  | tick ticks => simp

theorem run_concat (s : ServicedQueue A) (events : List (ServiceEvent A)) (e : ServiceEvent A) :
    s.run (events ++ [e]) = (s.run events).handle e := by
  unfold run
  rw [List.foldl_append]
  rfl

/-- an element of a list with one more at the end is this one, or one of the list -/
theorem concat_eq_append_cons {E : Type} {l before after : List E} {e e' : E} :
    l ++ [e] = before ++ e' :: after ↔
      (l = before ∧ e = e' ∧ after = []) ∨ ∃ rest, after = rest ++ [e] ∧ l = before ++ e' :: rest := by
  constructor
  · intro h
    rcases List.eq_nil_or_concat after with rfl | ⟨rest, last, rfl⟩
    · obtain ⟨rfl, hlast⟩ := List.append_inj' h rfl
      exact Or.inl ⟨rfl, List.singleton_inj.1 hlast, rfl⟩
    · rw [List.concat_eq_append, ← List.cons_append, ← List.append_assoc] at h
      obtain ⟨rfl, hlast⟩ := List.append_inj' h rfl
      obtain rfl := List.singleton_inj.1 hlast
      exact Or.inr ⟨rest, List.concat_eq_append, rfl⟩
  · rintro (⟨rfl, rfl, rfl⟩ | ⟨rest, rfl, rfl⟩)
    · rfl
    · rw [List.append_assoc, List.cons_append]

section Histories

variable [DecidableEq A] (clock : ℕ) (events : List (ServiceEvent A))

theorem counters_run : ((init clock).run events).clock = clockAfter clock events ∧
    ((init clock).run events).q.aid = events.countP isSchedule := by
  induction events using List.reverseRecOn with
  | nil => exact ⟨rfl, rfl⟩
  | append_singleton events e ih =>
    obtain ⟨hclock, haid⟩ := counters_handle ((init clock).run events) e
    rw [run_concat, hclock, haid, ih.1, ih.2]
    constructor
    · simp [clockAfter, add_assoc]
    · rw [List.countP_append]

theorem mem_asked_run (a : Asked A) : a ∈ ((init clock).run events).asked ↔ ∃ before action seconds after,
    events = before ++ .schedule action seconds :: after ∧ a = askedAfter clock before action seconds := by
  induction events using List.reverseRecOn with
  | nil =>
    refine iff_of_false List.not_mem_nil ?_
    rintro ⟨before, action, seconds, after, h, -⟩
    simp at h
  | append_singleton events e ih =>
    obtain ⟨hclock, haid⟩ := counters_run clock events
    rw [run_concat, mem_asked_handle, ih, hclock, haid]
    constructor
    · rintro (⟨before, action, seconds, after, rfl, ha⟩ | ⟨action, seconds, rfl, ha⟩)
      · exact ⟨before, action, seconds, after ++ [e], by rw [List.append_assoc, List.cons_append], ha⟩
      · exact ⟨events, action, seconds, [], rfl, ha⟩
    · rintro ⟨before, action, seconds, after, h, ha⟩
      rcases concat_eq_append_cons.1 h with ⟨rfl, he, -⟩ | ⟨rest, -, hrest⟩
      · exact Or.inr ⟨action, seconds, he, ha⟩
      · exact Or.inl ⟨before, action, seconds, rest, hrest, ha⟩

theorem starts_run (i tm : ℕ) : ((init clock).run events).starts[i]? = some tm ↔ ∃ before after,
    events = before ++ .serviceActions :: after ∧ ((init clock).run before).servicing = false ∧
      i = ((init clock).run before).call ∧ tm = clockAfter clock before := by
  induction events using List.reverseRecOn with
  | nil =>
    refine iff_of_false (by simp [run, init]) ?_
    rintro ⟨before, after, h, -⟩
    simp at h
  | append_singleton events e ih =>
    rw [run_concat, starts_handle, ih, (counters_run clock events).1]
    constructor
    · rintro (⟨before, after, rfl, hstart⟩ | ⟨rfl, hstart⟩)
      · exact ⟨before, after ++ [e], by rw [List.append_assoc, List.cons_append], hstart⟩
      · exact ⟨events, [], rfl, hstart⟩
    · rintro ⟨before, after, h, hstart⟩
      rcases concat_eq_append_cons.1 h with ⟨rfl, he, -⟩ | ⟨rest, -, hrest⟩
      · exact Or.inr ⟨he, hstart⟩
      · exact Or.inl ⟨before, rest, hrest, hstart⟩

theorem tells : Tells clock events := ⟨mem_asked_run clock events, starts_run clock events⟩

end Histories

/-! ## The result -/

/-- **Each action runs once and on time.** In every run: the histories are those of the events; the next check is not later
than any stashed action; what has run was asked for; no action has run twice, none in another call than its own, and it has
run there when that call has returned. A call in progress runs whatever is in the queue in as many rounds as there are actions
in it, so this does not depend on whether the call ends. -/
theorem runs_once_on_time [DecidableEq A] (clock : ℕ) (events : List (ServiceEvent A)) :
    let s := (init clock).run events
    Tells clock events ∧ s.q.Bounded ∧
    (∀ r ∈ s.ran, ∃ a ∈ s.asked, a.aid = r.aid) ∧
    (∀ a ∈ s.asked, (s.ran.map ActionRun.aid).count a.aid ≤ 1 ∧
      (∀ r ∈ s.ran, r.aid = a.aid → r.action = a.action ∧ callOf s.starts a = some r.call) ∧
      (∀ i, callOf s.starts a = some i → s.Returned i → ⟨a.action, a.aid, i⟩ ∈ s.ran)) ∧
    (∀ more : List (ServiceEvent A), s.servicing = true → s.q.actionQueue.length ≤ more.countP isNext →
      ∀ e ∈ s.q.actionQueue, ⟨e.1, e.2, s.call⟩ ∈ (s.run more).ran) := by
  intro s
  have h : s.Sound := (init_sound clock).run events
  refine ⟨tells clock events, h.bounded, ?_, ?_, ?_⟩
  · intro r hr
    obtain ⟨a, ha, hentry, -⟩ := h.ran r hr
    exact ⟨a, ha, congrArg Prod.snd hentry⟩
  · intro a ha
    refine ⟨List.nodup_iff_count_le_one.1 h.ran_nodup a.aid, fun r hr haid => h.callOf_ran ha hr haid, ?_⟩
    exact fun i hcall hreturned => h.ran_of_returned ha hcall hreturned
  · intro more hservicing hrounds e he
    obtain ⟨before, after, hqueue⟩ := List.append_of_mem he
    refine runs_of_next more hservicing hqueue (Nat.lt_of_lt_of_le ?_ hrounds)
    rw [hqueue, List.length_append, List.length_cons]
    omega

/-- two actions are scheduled; the one that is due when a call begins has run in it when it has returned, the other has not -/
theorem runs_once_on_time_twoActions :
    let s := (init 0).run [.schedule "meth1" 20, .schedule "meth2" 40, .tick 23, .serviceActions, .next, .next]
    ⟨"meth1", 1, 0⟩ ∈ s.ran ∧ ∀ r ∈ s.ran, r.aid ≠ 2 := by
  obtain ⟨htells, -, -, hasked, -⟩ := runs_once_on_time 0
    [.schedule "meth1" 20, .schedule "meth2" 40, .tick 23, .serviceActions, .next, .next]
  constructor
  · have ha := (htells.asked ⟨"meth1", 1, some 20, 0⟩).2 ⟨[], "meth1", 20, _, rfl, by decide⟩
    exact (hasked _ ha).2.2 0 (by decide) (by unfold Returned; decide)
  · have ha := (htells.asked ⟨"meth2", 2, some 40, 0⟩).2 ⟨[.schedule "meth1" 20], "meth2", 40, _, rfl, by decide⟩
    intro r hr haid
    obtain ⟨-, hcall⟩ := (hasked _ ha).2.1 r hr haid
    cases (show (none : Option ℕ) = some r.call from hcall)

end ServicedQueue

end Plenum
