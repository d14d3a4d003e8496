/-
A throttler: how often an action may be performed in a window of time.

Times are exact: elements of an ordered group, such as the integers or the rationals. Differences of clock readings that
are rounded are not modelled. The delay function tells from the number of actions in the window how long to wait after the
last one.

- `inWindow`: the times of a list that lie in the closed window before a time.
- `verdict`: an abstract throttler. It decides from all the actions performed so far, and forgets none.
- `Throttler.Holds`: the log holds those actions that were in the window at some earlier time. `acquire` then decides as
  `verdict` does (`Holds.acquire`), so it does not matter when the log was trimmed.
- `delay_law`: two consecutive actions are further apart than the window, or than the delay for the number of actions in
  the window; a call that was refused does not matter for any later call.
-/
import Mathlib.Tactic

namespace Plenum.Throttling

/-! ## Windows -/

section Window

variable {T : Type} [AddCommGroup T] [LinearOrder T] [IsOrderedAddMonoid T] {windowSize u now : T}

/-- the times in the closed window before `now` -/
def inWindow (windowSize now : T) (l : List T) : List T := l.filter fun t => now - t ≤ windowSize

/-- what has left the window does not come back -/
theorem inWindow_inWindow (h : u ≤ now) (l : List T) :
    inWindow windowSize now (inWindow windowSize u l) = inWindow windowSize now l := by
  unfold inWindow
  rw [List.filter_filter]
  apply List.filter_congr
  intro t _
  rw [Bool.and_eq_left_iff_imp]
  simp only [decide_eq_true_eq]
  intro hnow
  exact (sub_le_sub_right h t).trans hnow

/-- of times in order, those that have left the window come first -/
theorem dropWhile_eq_inWindow {l : List T} (h : l.Pairwise (· ≤ ·)) :
    (l.dropWhile fun t => windowSize < now - t) = inWindow windowSize now l := by
  induction l with
  | nil => rfl
  | cons t l ih =>
    obtain ⟨hle, hrest⟩ := List.pairwise_cons.1 h
    by_cases ht : windowSize < now - t
    · have hout : ¬ now - t ≤ windowSize := not_le.2 ht
      rw [List.dropWhile_cons, if_pos (decide_eq_true ht), ih hrest, inWindow, inWindow,
        List.filter_cons_of_neg (by rwa [decide_eq_true_eq])]
    · rw [List.dropWhile_cons, if_neg (by rwa [decide_eq_true_eq]), inWindow, List.filter_eq_self.2]
      intro t' ht'
      have hlate : t ≤ t' := by
        rcases List.mem_cons.1 ht' with rfl | hmem
        · exact le_rfl
        · exact hle t' hmem
      exact decide_eq_true ((sub_le_sub_left hlate now).trans (not_lt.1 ht))

theorem inWindow_concat (hpos : 0 ≤ windowSize) (l : List T) :
    inWindow windowSize now (l ++ [now]) = inWindow windowSize now l ++ [now] := by
  unfold inWindow
  rw [List.filter_append]
  simp [hpos]

end Window

/-! ## Model -/

/-- a throttler; its window is not empty -/
structure Throttler (T : Type) [AddCommGroup T] [LinearOrder T] where
  windowSize : T
  /-- from the number of actions to the time to wait after the last one -/
  delayFunction : ℕ → T
  actionsLog : List T
  windowSize_pos : 0 < windowSize

/-- the answer to one call: its time, whether the lock is acquired, and the time to wait before the next try -/
structure Acquired (T : Type) where
  now : T
  acquired : Bool
  timeToWait : T
deriving DecidableEq, Repr

namespace Throttler

variable {T : Type} [AddCommGroup T] [LinearOrder T]

/-- it limits the rate to one action per window -/
def defaultDelayFunction (windowSize : T) (_numOfActions : ℕ) : T := windowSize

def init (windowSize : T) (hpos : 0 < windowSize) (delayFunction : Option (ℕ → T)) : Throttler T where
  windowSize := windowSize
  delayFunction := delayFunction.getD (defaultDelayFunction windowSize)
  actionsLog := []
  windowSize_pos := hpos

def trimActionsLog (th : Throttler T) (now : T) : Throttler T :=
  { th with actionsLog := th.actionsLog.dropWhile fun t => th.windowSize < now - t }

def appendAction (th : Throttler T) (now : T) : Throttler T := { th with actionsLog := th.actionsLog ++ [now] }

def acquire (th : Throttler T) (now : T) : Acquired T × Throttler T :=
  let th := th.trimActionsLog now
  match th.actionsLog.getLast? with
  | none => (⟨now, true, 0⟩, th.appendAction now)
  | some last =>
    let timeToWaitAfterPreviousTry := th.delayFunction th.actionsLog.length
    let timePassed := now - last
    if timeToWaitAfterPreviousTry < timePassed then (⟨now, true, 0⟩, th.appendAction now)
    else (⟨now, false, timeToWaitAfterPreviousTry - timePassed⟩, th)

/-- the answers to calls at the given times -/
def acquires (th : Throttler T) : List T → List (Acquired T)
  | [] => []
  | now :: times => (th.acquire now).1 :: (th.acquire now).2.acquires times

/-- the throttler after calls at the given times -/
def after (th : Throttler T) (times : List T) : Throttler T := times.foldl (fun th now => (th.acquire now).2) th

end Throttler

/-! ## The abstract throttler -/

section Verdict

variable {T : Type} [AddCommGroup T] [LinearOrder T] (windowSize : T) (delayFunction : ℕ → T)

/-- the answer to a call after the actions performed at the times `past` -/
def verdict (past : List T) (now : T) : Acquired T :=
  match (inWindow windowSize now past).getLast? with
  | none => ⟨now, true, 0⟩
  | some last =>
    let timeToWait := delayFunction (inWindow windowSize now past).length
    if timeToWait < now - last then ⟨now, true, 0⟩ else ⟨now, false, timeToWait - (now - last)⟩

/-- the actions performed at `past`, and the one of an answer if there is one -/
def perform (past : List T) (a : Acquired T) : List T := if a.acquired then past ++ [a.now] else past

/-- the answers to calls at the given times, after the actions performed at the times `past` -/
def verdicts (past : List T) : List T → List (Acquired T)
  | [] => []
  | now :: times =>
    let a := verdict windowSize delayFunction past now
    a :: verdicts (perform past a) times

end Verdict

section Performed

variable {T : Type}

/-- the times of the calls that acquired the lock -/
def performed (answers : List (Acquired T)) : List T := (answers.filter Acquired.acquired).map Acquired.now

theorem performed_append (xs ys : List (Acquired T)) : performed (xs ++ ys) = performed xs ++ performed ys := by
  simp [performed]

theorem performed_refused {xs : List (Acquired T)} (h : ∀ a ∈ xs, a.acquired = false) : performed xs = [] := by
  unfold performed
  rw [List.filter_eq_nil_iff.2 fun a ha => by simp [h a ha]]
  rfl

end Performed

section Verdicts

variable {T : Type} [AddCommGroup T] [LinearOrder T] {windowSize : T} {delayFunction : ℕ → T} {past : List T}

@[simp] theorem verdict_now (now : T) : (verdict windowSize delayFunction past now).now = now := by
  unfold verdict
  split
  · rfl
  · dsimp only
    split_ifs <;> rfl

omit [AddCommGroup T] [LinearOrder T] in
theorem perform_eq (a : Acquired T) : perform past a = past ++ performed [a] := by
  unfold perform performed
  cases h : a.acquired <;> simp [h]

/-- an answer is the verdict on the actions performed before it -/
theorem eq_verdict_of_split {times : List T} {xs ys : List (Acquired T)} {b : Acquired T}
    (h : verdicts windowSize delayFunction past times = xs ++ b :: ys) :
    b = verdict windowSize delayFunction (past ++ performed xs) b.now := by
  induction xs generalizing past times with
  | nil =>
    cases times with
    | nil => cases h
    | cons now times =>
      obtain ⟨hb, -⟩ := List.cons.inj h
      rw [← hb, verdict_now, performed]
      simp
  | cons x xs ih =>
    cases times with
    | nil => cases h
    | cons now times =>
      obtain ⟨hx, hrest⟩ := List.cons.inj h
      rw [ih hrest, verdict_now, hx, perform_eq, List.append_assoc, ← performed_append, List.singleton_append]

/-- **The law of the abstract throttler.** -/
theorem verdict_delay {last now : T} (h : (verdict windowSize delayFunction (past ++ [last]) now).acquired = true) :
    windowSize < now - last ∨ delayFunction (inWindow windowSize now (past ++ [last])).length < now - last := by
  by_cases hin : now - last ≤ windowSize
  · right
    have hlast : (inWindow windowSize now (past ++ [last])).getLast? = some last := by
      unfold inWindow
      rw [List.filter_append, List.filter_cons_of_pos (by simpa using hin)]
      simp
    rw [verdict, hlast] at h
    dsimp only at h
    split_ifs at h with hwait
    exact hwait
  · exact Or.inl (not_le.1 hin)

end Verdicts

/-! ## The throttler decides as the abstract one -/

namespace Throttler

variable {T : Type} [AddCommGroup T] [LinearOrder T]

/-- the log holds the actions of `past` that were in the window at some time not after the calls to come -/
structure Holds (th : Throttler T) (past future : List T) : Prop where
  sorted : past.Pairwise (· ≤ ·)
  log : ∃ u, (∀ t ∈ past, t ≤ u) ∧ (∀ t ∈ future, u ≤ t) ∧ th.actionsLog = inWindow th.windowSize u past

variable {th : Throttler T} {past future : List T} {now : T}

theorem holds_init (windowSize : T) (hpos : 0 < windowSize) (delayFunction : Option (ℕ → T))
    (hclock : future.Pairwise (· ≤ ·)) : (init windowSize hpos delayFunction).Holds [] future := by
  refine ⟨List.Pairwise.nil, future.headD 0, ?_, ?_, rfl⟩
  · intro t ht
    cases ht
  · intro t ht
    cases future with
    | nil => cases ht
    | cons t' future =>
      rcases List.mem_cons.1 ht with rfl | hmem
      · exact le_rfl
      · exact (List.pairwise_cons.1 hclock).1 t hmem

theorem acquire_windowSize (th : Throttler T) (now : T) : (th.acquire now).2.windowSize = th.windowSize := by
  unfold acquire
  dsimp only
  split
  · rfl
  · split_ifs <;> rfl

theorem acquire_delayFunction (th : Throttler T) (now : T) : (th.acquire now).2.delayFunction = th.delayFunction := by
  unfold acquire
  dsimp only
  split
  · rfl
  · split_ifs <;> rfl

section Ordered

variable [IsOrderedAddMonoid T]

/-- trimming leaves what is in the window now -/
theorem Holds.trimmed (h : th.Holds past (now :: future)) :
    (th.trimActionsLog now).actionsLog = inWindow th.windowSize now past := by
  obtain ⟨u, hpast, hfuture, hlog⟩ := h.log
  have hsorted : th.actionsLog.Pairwise (· ≤ ·) := hlog ▸ h.sorted.filter _
  rw [trimActionsLog, dropWhile_eq_inWindow hsorted, hlog, inWindow_inWindow (hfuture now List.mem_cons_self)]

/-- **A call is answered by the verdict.** -/
theorem Holds.acquire_eq (h : th.Holds past (now :: future)) :
    (th.acquire now).1 = verdict th.windowSize th.delayFunction past now ∧
      (th.acquire now).2.actionsLog =
        if (th.acquire now).1.acquired then inWindow th.windowSize now past ++ [now] else inWindow th.windowSize now past := by
  have htrim := h.trimmed
  unfold verdict
  cases hlast : (inWindow th.windowSize now past).getLast? with
  | none =>
    have hacq : th.acquire now = (⟨now, true, 0⟩, (th.trimActionsLog now).appendAction now) := by
      simp only [Throttler.acquire, htrim, hlast]
    rw [hacq]
    exact ⟨rfl, congrArg (· ++ [now]) htrim⟩
  | some last =>
    dsimp only
    by_cases hwait : th.delayFunction (inWindow th.windowSize now past).length < now - last
    · have hacq : th.acquire now = (⟨now, true, 0⟩, (th.trimActionsLog now).appendAction now) := by
        simp only [Throttler.acquire, htrim, hlast]
        exact if_pos hwait
      rw [hacq, if_pos hwait]
      exact ⟨rfl, congrArg (· ++ [now]) htrim⟩
    · have hacq : th.acquire now =
          (⟨now, false, th.delayFunction (inWindow th.windowSize now past).length - (now - last)⟩,
            th.trimActionsLog now) := by
        simp only [Throttler.acquire, htrim, hlast]
        exact if_neg hwait
      rw [hacq, if_neg hwait]
      exact ⟨rfl, htrim⟩

/-- the step -/
theorem Holds.acquire (h : th.Holds past (now :: future)) (hclock : (now :: future).Pairwise (· ≤ ·)) :
    (th.acquire now).2.Holds (perform past (th.acquire now).1) future := by
  obtain ⟨u, hpast, hfuture, -⟩ := h.log
  have hbefore : ∀ t ∈ past, t ≤ now := fun t ht => (hpast t ht).trans (hfuture now List.mem_cons_self)
  have hafter := (List.pairwise_cons.1 hclock).1
  obtain ⟨hanswer, hlog⟩ := h.acquire_eq
  have hnow : (th.acquire now).1.now = now := by rw [hanswer, verdict_now]
  unfold perform
  rw [hnow]
  split_ifs at hlog ⊢ with hacq
  · refine ⟨List.pairwise_append.2 ⟨h.sorted, List.pairwise_singleton _ _, ?_⟩, now, ?_, hafter, ?_⟩
    · intro t ht t' ht'
      rw [List.mem_singleton.1 ht']
      exact hbefore t ht
    · intro t ht
      rcases List.mem_append.1 ht with hold | hnew
      · exact hbefore t hold
      · exact (List.mem_singleton.1 hnew).le
    · rw [hlog, acquire_windowSize, inWindow_concat th.windowSize_pos.le]
  · exact ⟨h.sorted, now, hbefore, hafter, by rw [hlog, acquire_windowSize]⟩

/-- **The run.** The answers are the verdicts, however the log was trimmed. -/
theorem Holds.acquires_eq (h : th.Holds past future) (hclock : future.Pairwise (· ≤ ·)) :
    th.acquires future = verdicts th.windowSize th.delayFunction past future := by
  induction future generalizing th past with
  | nil => rfl
  | cons now future ih =>
    have hstep := ih (h.acquire hclock) (List.pairwise_cons.1 hclock).2
    rw [acquire_windowSize, acquire_delayFunction] at hstep
    rw [acquires, verdicts, hstep, h.acquire_eq.1]

theorem Holds.after {xs ys : List T} (h : th.Holds past (xs ++ ys)) (hclock : (xs ++ ys).Pairwise (· ≤ ·)) :
    ∃ past', (th.after xs).Holds past' ys ∧ (th.after xs).windowSize = th.windowSize ∧
      (th.after xs).delayFunction = th.delayFunction := by
  induction xs generalizing th past with
  | nil => exact ⟨past, h, rfl, rfl⟩
  | cons now xs ih =>
    obtain ⟨past', hpast', hw, hd⟩ := ih (h.acquire hclock) (List.pairwise_cons.1 hclock).2
    exact ⟨past', hpast', hw.trans (acquire_windowSize th now), hd.trans (acquire_delayFunction th now)⟩

/-- a call that is refused does not matter for those that follow -/
theorem Holds.refused (h : th.Holds past (now :: future)) (hclock : (now :: future).Pairwise (· ≤ ·))
    (hrefused : (th.acquire now).1.acquired = false) : (th.acquire now).2.acquires future = th.acquires future := by
  have hnext := h.acquire hclock
  obtain ⟨u, hpast, hfuture, hlog⟩ := h.log
  have hnow : th.Holds past future := ⟨h.sorted, u, hpast, fun t ht => hfuture t (List.mem_cons_of_mem _ ht), hlog⟩
  have hrest := (List.pairwise_cons.1 hclock).2
  rw [perform, hrefused, if_neg (by simp)] at hnext
  rw [hnext.acquires_eq hrest, hnow.acquires_eq hrest, acquire_windowSize, acquire_delayFunction]

end Ordered

end Throttler

/-! ## The delay law -/

section Law

variable {T : Type} [AddCommGroup T] [LinearOrder T]

/-- how many of the times lie in the closed window of the given length before `now` -/
def countInWindow (windowSize now : T) (l : List T) : ℕ := l.countP fun t => now - windowSize ≤ t ∧ t ≤ now

theorem length_inWindow [IsOrderedAddMonoid T] {windowSize now : T} {l : List T} (h : ∀ t ∈ l, t ≤ now) :
    (inWindow windowSize now l).length = countInWindow windowSize now l := by
  unfold inWindow countInWindow
  rw [← List.countP_eq_length_filter]
  apply List.countP_congr
  intro t ht
  simp only [decide_eq_true_eq, sub_le_comm, h t ht, and_true]

theorem Throttler.acquires_now (th : Throttler T) (times : List T) : (th.acquires times).map Acquired.now = times := by
  induction times generalizing th with
  | nil => rfl
  | cons now times ih =>
    have hnow : (th.acquire now).1.now = now := by
      unfold Throttler.acquire
      dsimp only
      split
      · rfl
      · split_ifs <;> rfl
    rw [Throttler.acquires, List.map_cons, ih, hnow]

/-- **The throttler enforces its delay law.** For every window and delay function and all calls at nondecreasing times:
if one call acquires the lock at `a.now` and the next one to acquire it does so later, at `b.now`, then they are further
apart than the window, or further apart than the delay for the number of actions in the closed window before `b.now`;
and after a call that is refused all later calls are answered as without it. -/
theorem delay_law [IsOrderedAddMonoid T] (windowSize : T) (hpos : 0 < windowSize) (delayFunction : Option (ℕ → T))
    (times : List T) (hclock : times.Pairwise (· ≤ ·)) :
    (∀ (xs refused ys : List (Acquired T)) (a b : Acquired T),
      (Throttler.init windowSize hpos delayFunction).acquires times = xs ++ a :: (refused ++ b :: ys) →
      a.acquired = true → b.acquired = true → (∀ c ∈ refused, c.acquired = false) → a.now < b.now →
      windowSize < b.now - a.now ∨
        (Throttler.init windowSize hpos delayFunction).delayFunction
          (countInWindow windowSize b.now (performed (xs ++ [a]))) < b.now - a.now) ∧
    (∀ (xs ys : List T) (now : T), times = xs ++ now :: ys →
      (((Throttler.init windowSize hpos delayFunction).after xs).acquire now).1.acquired = false →
      ((Throttler.init windowSize hpos delayFunction).after (xs ++ [now])).acquires ys =
        ((Throttler.init windowSize hpos delayFunction).after xs).acquires ys) := by
  have hinit := Throttler.holds_init windowSize hpos delayFunction hclock
  refine ⟨?_, ?_⟩
  · intro xs refused ys a b hsplit ha hb hrefused _
    have hassoc : xs ++ a :: (refused ++ b :: ys) = (xs ++ [a]) ++ (refused ++ b :: ys) := by simp
    have hnows := congrArg (List.map Acquired.now) hsplit
    rw [Throttler.acquires_now, hassoc, List.map_append] at hnows
    rw [hinit.acquires_eq hclock, hassoc, ← List.append_assoc] at hsplit
    have hverdict := eq_verdict_of_split hsplit
    have hpast : performed (xs ++ [a]) = performed xs ++ [a.now] := by
      rw [performed_append]
      simp [performed, ha]
    rw [performed_append, performed_refused hrefused, List.append_nil, List.nil_append, hpast] at hverdict
    rw [hverdict] at hb
    have hbefore : ∀ t ∈ performed (xs ++ [a]), t ≤ b.now := by
      intro t ht
      obtain ⟨c, hc, rfl⟩ := List.mem_map.1 ht
      rw [hnows, List.pairwise_append] at hclock
      exact hclock.2.2 _ (List.mem_map_of_mem (List.mem_of_mem_filter hc)) _ (List.mem_map_of_mem (by simp))
    rw [← length_inWindow hbefore, hpast]
    exact verdict_delay hb
  · intro xs ys now htimes hrefused
    subst htimes
    obtain ⟨past, hpast, -, -⟩ := hinit.after hclock
    rw [Throttler.after, Throttler.after, List.foldl_append]
    exact hpast.refused (List.pairwise_append.1 hclock).2.1 hrefused

/-! ## Witness -/

/-- a window of ten seconds, and a delay of one second for each action in it: of the calls at 0, 1, 2, 4 and 5 the second
and the fourth one are refused -/
theorem delay_law_five :
    ((10 : ℤ) < 5 - 2 ∨ ((countInWindow (10 : ℤ) 5 [0, 2] : ℕ) : ℤ) < 5 - 2) ∧
    ((Throttler.init (10 : ℤ) (by decide) (some fun k => k)).after [0, 1, 2, 4]).acquires [5, 14] =
      ((Throttler.init (10 : ℤ) (by decide) (some fun k => k)).after [0, 1, 2]).acquires [5, 14] := by
  have hlaw := delay_law (10 : ℤ) (by decide) (some fun k => k) [0, 1, 2, 4, 5, 14] (by decide)
  refine ⟨?_, hlaw.2 [0, 1, 2] [5, 14] 4 rfl (by decide)⟩
  exact hlaw.1 [⟨0, true, 0⟩, ⟨1, false, 0⟩] [⟨4, false, 0⟩] [⟨14, true, 0⟩] ⟨2, true, 0⟩ ⟨5, true, 0⟩ (by decide) rfl rfl
    (by decide) (by decide)

end Law

end Plenum.Throttling
