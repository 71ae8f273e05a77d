import KaiRPC.Lib.Run
import KaiRPC.Net.Timer

/-!
# The timer's read handler

`Timer::onTimer` (`net/timer.cc`) and what its callbacks may do while it runs.

* `onTimer` takes the due entries out of the map, puts the repeated events back and
  sets the timerfd; the callbacks it collected are run after that, in order.
* `Ticks` is a timer between two calls: `todo` are the collected callbacks that have
  not been started.  A callback may add and delete events, and may run the loop, which
  calls `onTimer` again; the inner call's callbacks then come first.
* `cancelled_never_started`: **a deleted event is not started again, in every run in
  which no event is deleted while its callback is collected and not yet started.**
* `collected_still_started`: a deleted event that was collected is started all the same.
-/

namespace KaiRPC

/-- `TimerEvent::resetArriveTime` at a clock reading. -/
def TimerEvent.resetArriveTime (event : TimerEvent) (now : Int) : TimerEvent :=
  { event with m_arrive_time := now + event.m_interval }

namespace Timer

/-- The entries the first loop of `onTimer` walks over. -/
def due (t : Timer) (now : Int) : List (Int × Nat) :=
  t.m_pending_events.takeWhile fun p => decide (p.1 ≤ now)

/-- `tmps`, and the events whose callbacks are in `tasks`. -/
def collect (t : Timer) (now : Int) : List Nat :=
  ((t.due now).filter fun p => !(t.events p.2).m_is_cancled).map Prod.snd

def eraseDue (t : Timer) (now : Int) : Timer :=
  { t with m_pending_events := t.m_pending_events.dropWhile fun p => decide (p.1 ≤ now) }

/-- A repeated event goes back into the map; `reading` and `now` are the clock readings of
the event's and of the timer's `resetArriveTime`. -/
def rearm (t : Timer) (event : Nat) (reading now : Int) : Timer :=
  if (t.events event).m_is_repeated then
    (t.setEvent event ((t.events event).resetArriveTime reading)).addTimerEvent event now
  else t

/-- The second loop and the `resetArriveTime` behind it. -/
def rearmAll (t : Timer) : List Nat → (Nat → Int) → Timer
  | [], clock => t.resetArriveTime (clock 0)
  | event :: tmps, clock =>
      (t.rearm event (clock 0) (clock 1)).rearmAll tmps fun n => clock (n + 2)

/-- `onTimer` up to its last loop: the timer and the callbacks to run. -/
def onTimer (t : Timer) (clock : Nat → Int) : Timer × List Nat :=
  let now := clock 0
  let tmps := t.collect now
  ((t.eraseDue now).rearmAll tmps fun n => clock (n + 1), tmps)

/-! ### A cancelled event stays cancelled -/

/-- No operation takes `m_is_cancled` back. -/
def KeepsCancled (t t' : Timer) : Prop :=
  ∀ event, (t.events event).m_is_cancled = true → (t'.events event).m_is_cancled = true

theorem KeepsCancled.of_events {t t' : Timer} (h : t'.events = t.events) : t.KeepsCancled t' := by
  intro event hc
  rw [h]
  exact hc

theorem KeepsCancled.trans {t t' t'' : Timer} (h : t.KeepsCancled t') (h' : t'.KeepsCancled t'') :
    t.KeepsCancled t'' := fun event hc => h' event (h event hc)

theorem setEvent_keeps (t : Timer) (event : Nat) (v : TimerEvent)
    (hv : (t.events event).m_is_cancled = true → v.m_is_cancled = true) :
    t.KeepsCancled (t.setEvent event v) := by
  intro other hc
  by_cases hne : other = event
  · subst hne
    simpa [setEvent] using hv hc
  · rw [(t.setEvent_agree hne v).1]
    exact hc

theorem rearm_keeps (t : Timer) (event : Nat) (reading now : Int) :
    t.KeepsCancled (t.rearm event reading now) := by
  rw [rearm]
  split
  · have hset := t.setEvent_keeps event ((t.events event).resetArriveTime reading) id
    exact hset.trans (.of_events (addTimerEvent_pending _ event now).2)
  · exact .of_events rfl

theorem rearmAll_keeps (tmps : List Nat) : ∀ (t : Timer) (clock : Nat → Int),
    t.KeepsCancled (t.rearmAll tmps clock) := by
  induction tmps with
  | nil =>
    intro t clock
    exact .of_events (t.resetArriveTime_pending (clock 0)).2
  | cons event tmps ih =>
    intro t clock
    exact (t.rearm_keeps event _ _).trans (ih _ _)

theorem onTimer_keeps (t : Timer) (clock : Nat → Int) : t.KeepsCancled (t.onTimer clock).1 :=
  rearmAll_keeps _ (t.eraseDue (clock 0)) _

theorem deleteTimerEvent_cancled (t : Timer) (event : Nat) :
    ((t.deleteTimerEvent event).events event).m_is_cancled = true := by
  simp [deleteTimerEvent, setCancled, setEvent]

theorem deleteTimerEvent_keeps (t : Timer) (event : Nat) :
    t.KeepsCancled (t.deleteTimerEvent event) := by
  have hset := t.setEvent_keeps event { t.events event with m_is_cancled := true } (fun _ => rfl)
  exact hset.trans (.of_events rfl)

theorem not_cancled_of_mem_collect {t : Timer} {now : Int} {event : Nat}
    (h : event ∈ t.collect now) : (t.events event).m_is_cancled = false := by
  obtain ⟨p, hp, rfl⟩ := List.mem_map.mp h
  simpa using (List.mem_filter.mp hp).2

end Timer

/-! ### Runs -/

inductive TickEvent where
  /-- `deleteTimerEvent` has returned. -/
  | deleted (event : Nat)
  | started (event : Nat)
deriving DecidableEq, Repr

inductive TickOp where
  | addTimerEvent (event : Nat) (now : Int)
  | deleteTimerEvent (event : Nat)
  | onTimer (clock : Nat → Int)
  /-- The last loop of the innermost `onTimer` starts its next callback. -/
  | startNext

structure Ticks where
  timer : Timer
  todo : List Nat := []
  log : List TickEvent := []

namespace Ticks

def step (w : Ticks) : TickOp → Option Ticks
  | .addTimerEvent event now => some { w with timer := w.timer.addTimerEvent event now }
  | .deleteTimerEvent event =>
      some { w with timer := w.timer.deleteTimerEvent event, log := w.log ++ [.deleted event] }
  | .onTimer clock =>
      let (timer, tasks) := w.timer.onTimer clock
      some { w with timer, todo := tasks ++ w.todo }
  | .startNext =>
      match w.todo with
      | [] => none
      | event :: todo => some { w with todo, log := w.log ++ [.started event] }

/-- No callback is started after its event was deleted. -/
def NeverStarted (log : List TickEvent) : Prop :=
  log.Pairwise fun a b => ∀ event, a = .deleted event → b ≠ .started event

/-- The step deletes no event whose callback is collected and not yet started. -/
def SparesCollected (w : Ticks) : TickOp → Prop
  | .deleteTimerEvent event => event ∉ w.todo
  | _ => True

instance (w : Ticks) (op : TickOp) : Decidable (w.SparesCollected op) :=
  match op with
  | .deleteTimerEvent event => inferInstanceAs (Decidable (event ∉ w.todo))
  | .addTimerEvent .. | .onTimer _ | .startNext => instDecidableTrue

structure Inv (w : Ticks) : Prop where
  cancled : ∀ event, .deleted event ∈ w.log → (w.timer.events event).m_is_cancled = true
  spared : ∀ event ∈ w.todo, .deleted event ∉ w.log
  never : NeverStarted w.log

theorem start_inv (timer : Timer) : Inv { timer } where
  cancled := by simp
  spared := by simp
  never := .nil

theorem step_inv {w w' : Ticks} {op : TickOp} (h : w.Inv)
    (hs : w.SparesCollected op ∧ w.step op = some w') : w'.Inv := by
  obtain ⟨hspare, hstep⟩ := hs
  cases op with
  | addTimerEvent event now =>
    cases hstep
    refine ⟨fun e he => ?_, h.spared, h.never⟩
    dsimp only
    rw [(w.timer.addTimerEvent_pending event now).2]
    exact h.cancled e he
  | deleteTimerEvent event =>
    cases hstep
    refine ⟨fun e he => ?_, fun e he hd => ?_, ?_⟩
    · obtain he | he := List.mem_append.mp he
      · exact w.timer.deleteTimerEvent_keeps event e (h.cancled e he)
      · cases List.mem_singleton.mp he
        exact w.timer.deleteTimerEvent_cancled event
    · obtain hd | hd := List.mem_append.mp hd
      · exact h.spared e he hd
      · cases List.mem_singleton.mp hd
        exact hspare he
    · refine List.pairwise_append.mpr ⟨h.never, List.pairwise_singleton _ _, ?_⟩
      intro a _ b hb e _
      cases List.mem_singleton.mp hb
      nofun
  | onTimer clock =>
    cases hstep
    refine ⟨fun e he => w.timer.onTimer_keeps clock e (h.cancled e he), fun e he hd => ?_, h.never⟩
    obtain he | he := List.mem_append.mp he
    · -- A deleted event is cancelled, and no cancelled event is collected.
      have hc := h.cancled e hd
      rw [Timer.not_cancled_of_mem_collect he] at hc
      cases hc
    · exact h.spared e he hd
  | startNext =>
    dsimp only [step] at hstep
    split at hstep
    · cases hstep
    · rename_i event todo htodo
      cases hstep
      refine ⟨fun e he => ?_, fun e he hd => ?_, ?_⟩
      · obtain he | he := List.mem_append.mp he
        · exact h.cancled e he
        · cases List.mem_singleton.mp he
      · obtain hd | hd := List.mem_append.mp hd
        · exact h.spared e (htodo ▸ List.mem_cons_of_mem event he) hd
        · cases List.mem_singleton.mp hd
      · refine List.pairwise_append.mpr ⟨h.never, List.pairwise_singleton _ _, ?_⟩
        intro a ha b hb e hae hbe
        cases List.mem_singleton.mp hb
        cases hbe
        subst hae
        exact h.spared event (htodo ▸ List.mem_cons_self) ha

/-- **A deleted event is never started again** in a run that deletes no event whose callback
is collected and not yet started. -/
theorem cancelled_never_started {timer : Timer} {w : Ticks} {ops : List TickOp}
    (hrun : Run (fun w op w' => SparesCollected w op ∧ step w op = some w') { timer } ops w) :
    NeverStarted w.log :=
  (hrun.invariant (I := Inv) step_inv (start_inv timer)).never

/-- An empty timer and events that all arrive at the same time. -/
def sameTime : Timer := { events := fun _ => { m_arrive_time := 10 } }

theorem cancelled_never_started_deleted_first : ∃ w : Ticks,
    NeverStarted w.log ∧ w.log = [.deleted 1, .started 0] := by
  obtain ⟨w, hw, hlog⟩ := (Option.any_eq_true _ _).mp
    (by decide +kernel : (List.foldlM (Run.guarded SparesCollected step) { timer := sameTime }
      [.addTimerEvent 0 0, .addTimerEvent 1 0, .deleteTimerEvent 1, .onTimer fun _ => 10,
        .startNext]).any
        (fun w => w.log = [.deleted 1, .started 0]) = true)
  exact ⟨w, cancelled_never_started (Run.of_guarded hw), of_decide_eq_true hlog⟩

/-- The first of two events due in one tick deletes the second, which is started after that. -/
theorem deleted_in_tick_started : ∃ w : Ticks,
    Run (fun w op w' => step w op = some w') { timer := sameTime }
      [.addTimerEvent 0 0, .addTimerEvent 1 0, .onTimer fun _ => 10, .startNext,
        .deleteTimerEvent 1, .startNext] w ∧
    ¬ NeverStarted w.log := by
  obtain ⟨w, hw, hlog⟩ := (Option.any_eq_true _ _).mp
    (by decide +kernel : (List.foldlM step { timer := sameTime }
      [.addTimerEvent 0 0, .addTimerEvent 1 0, .onTimer fun _ => 10, .startNext,
        .deleteTimerEvent 1, .startNext]).any
        (fun w => w.log = [.started 0, .deleted 1, .started 1]) = true)
  refine ⟨w, Run.of_foldlM hw, ?_⟩
  rw [of_decide_eq_true hlog]
  intro h
  exact (List.pairwise_cons.mp (List.pairwise_cons.mp h).2).1 (.started 1) (by simp) 1 rfl rfl

theorem run_startNext (todo : List Nat) : ∀ w : Ticks, ∀ rest, w.todo = todo ++ rest →
    Run (fun w op w' => step w op = some w') w (todo.map fun _ => .startNext)
      { w with todo := rest, log := w.log ++ todo.map .started } := by
  induction todo with
  | nil =>
    intro w rest h
    rw [List.map_nil, List.map_nil, List.append_nil, ← List.nil_append rest, ← h]
    exact .nil w
  | cons event todo ih =>
    intro w rest h
    have hstep : step w .startNext
        = some { w with todo := todo ++ rest, log := w.log ++ [.started event] } := by
      rw [step, h]
      rfl
    refine .cons hstep ?_
    have hrest := ih { w with todo := todo ++ rest, log := w.log ++ [.started event] } rest rfl
    rw [List.append_assoc] at hrest
    exact hrest

/-- **The condition is needed at every state**: an event deleted while its callback is
collected is started when the callbacks go on. -/
theorem collected_still_started {w : Ticks} {event : Nat} (h : event ∈ w.todo) :
    ∃ ops w', Run (fun w op w' => step w op = some w') w (.deleteTimerEvent event :: ops) w' ∧
      ¬ NeverStarted w'.log := by
  obtain ⟨before, after, htodo⟩ := List.append_of_mem h
  have hruns := run_startNext (before ++ [event])
    { w with timer := w.timer.deleteTimerEvent event, log := w.log ++ [.deleted event] } after
    (by rw [htodo, List.append_assoc]; rfl)
  refine ⟨_, _, .cons rfl hruns, fun hnever => ?_⟩
  have hsplit := (List.pairwise_append.mp hnever).2.2 (.deleted event) (by simp)
    (.started event) (by simp)
  exact hsplit event rfl rfl

end Ticks

end KaiRPC
