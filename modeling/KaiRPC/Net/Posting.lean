import KaiRPC.Net.Rounds

/-!
# Tasks from other threads

`Eventloop::addTask` with `is_wake_up`, and `Eventloop::stop`, called on any thread while
`loop` runs (`net/eventloop.cc`, `net/wakeup_fd_event.cc`).  The caller first queues the task,
or sets the flag, under the mutex, and writes to the eventfd after it; the loop takes the whole
queue at the head of a round, and its wake-up callback reads the eventfd down to zero.  The two
sides are interleaved at every point between these steps.

* `Asleep`: the loop is in `epoll_wait` with nothing to wake it, while a task is queued, or a
  stop is requested, by a thread that has returned from its call.
* `posting_wakes`: **that never happens as long as no thread writes between the moment a round
  takes the wake-up callback and the moment the callback has read the eventfd.**
* `posting_swallowed`: a write in between is swallowed: the loop, if it is not stopped, goes to
  sleep on its task.
* `posting_one_wait`: asleep or not, in every run the tasks run in the order they were queued,
  each of them once, and until a stop none of them waits for more than one `epoll_wait`.
-/

namespace KaiRPC

/-- Where `loop` is. -/
inductive PostPc
  /-- At the condition of the outer loop. -/
  | head
  /-- At the condition of the inner loop; with no task left, or a stop, it calls `epoll_wait`. -/
  | tasks (tmp_tasks : List Callback)
  /-- In the `read` loop of the wake-up callback. -/
  | reading (tmp_tasks : List Callback)
  /-- Behind `epoll_wait`. -/
  | results (rest : List EpollResult)
  | returned
deriving DecidableEq, Repr

/-- A loop and the threads that have not written to its eventfd yet: those whose task a round
has taken, those whose task is still queued, and one that has set the stop flag.  The tasks that
were queued and those that ran are recorded, and the former also as of the last `epoll_wait`. -/
structure Posting where
  m_event_loop : Eventloop := {}
  pc : PostPc := .head
  counter : Nat := 0
  early : Nat := 0
  late : Nat := 0
  stopping : Bool := false
  added : List Callback := []
  ran : List Callback := []
  atWait : List Callback := []

inductive PostOp
  /-- The section of `addTask` under the mutex. -/
  | addTask (cb : Callback)
  /-- `wakeup()` of a thread whose task a round has taken. -/
  | wakeupEarly
  /-- `wakeup()` of a thread whose task is still queued. -/
  | wakeupLate
  /-- `m_stop_flag.exchange(true)`. -/
  | stop
  /-- `wakeup()` of the thread that has set the flag. -/
  | wakeupStop
  /-- The loop goes on.  `epoll_wait` returns `results`; behind a `read` that returned bytes
  the callback reads again or finds an old `EAGAIN` in `errno`. -/
  | advance (results : List EpollResult) (again : Bool)

namespace Posting

/-- What `wakeup()` writes: the eight bytes of `{'a'}` as a little-endian number. -/
def wakeupValue : Nat := 97

/-- The event the loop listens to on its eventfd. -/
def wakesUp (r : EpollResult) : Bool := r.fd_event.m_read_callback == some .onWakeup

/-- An `epoll_wait`: the eventfd is reported only when it can be read. -/
def wait (w : Posting) (results : List EpollResult) : Option Posting :=
  if results.any wakesUp = true → 0 < w.counter then
    some { w with pc := .results results, atWait := w.added }
  else none

def advance (w : Posting) (results : List EpollResult) (again : Bool) : Option Posting :=
  match w.pc with
  | .head =>
      if w.m_event_loop.m_stop_flag then some { w with pc := .returned }
      else some { w with
        m_event_loop := { w.m_event_loop with m_pending_tasks := [] }
        pc := .tasks w.m_event_loop.m_pending_tasks
        early := w.early + w.late
        late := 0 }
  | .tasks [] => w.wait results
  | .tasks (cb :: tmp_tasks) =>
      if w.m_event_loop.m_stop_flag then w.wait results
      else some { w with
        pc := if cb = .onWakeup then .reading tmp_tasks else .tasks tmp_tasks
        ran := w.ran ++ [cb] }
  | .reading tmp_tasks =>
      if w.counter = 0 then some { w with pc := .tasks tmp_tasks }
      else some { w with
        counter := 0, pc := if again then .reading tmp_tasks else .tasks tmp_tasks }
  | .results [] => some { w with pc := .head }
  | .results (r :: rest) => some { w with
      m_event_loop := w.m_event_loop.dispatch r
      pc := .results rest
      added := w.added ++ w.m_event_loop.accepts r.handlers }
  | .returned => none

def step (w : Posting) : PostOp → Option Posting
  | .addTask cb =>
      if w.m_event_loop.m_stop_flag then some w
      else some { w with
        m_event_loop := w.m_event_loop.addTask cb
        late := w.late + 1
        added := w.added ++ [cb] }
  | .wakeupEarly =>
      if 0 < w.early then
        some { w with early := w.early - 1, counter := w.counter + wakeupValue }
      else none
  | .wakeupLate =>
      if 0 < w.late then some { w with late := w.late - 1, counter := w.counter + wakeupValue }
      else none
  | .stop =>
      if w.m_event_loop.m_stop_flag then some w
      else some { w with m_event_loop := w.m_event_loop.stop, stopping := true }
  | .wakeupStop =>
      if w.stopping then some { w with stopping := false, counter := w.counter + wakeupValue }
      else none
  | .advance results again => w.advance results again

/-- The tasks of the round that have not run. -/
def rest (w : Posting) : List Callback :=
  match w.pc with
  | .tasks tmp_tasks | .reading tmp_tasks => tmp_tasks
  | .head | .results _ | .returned => []

/-- The next thing the loop does is `epoll_wait`. -/
def AtWait (w : Posting) : Prop :=
  w.pc = .tasks [] ∨ (w.m_event_loop.m_stop_flag = true ∧ ∃ tmp_tasks, w.pc = .tasks tmp_tasks)

/-- **Asleep**: nothing wakes the loop, but a task is queued, or a stop requested, by a thread
that has written. -/
def Asleep (w : Posting) : Prop :=
  w.AtWait ∧ w.counter = 0 ∧
    ((w.m_event_loop.m_stop_flag = false ∧ w.late < w.m_event_loop.m_pending_tasks.length) ∨
      (w.m_event_loop.m_stop_flag = true ∧ w.stopping = false))

/-- The round has taken a wake-up callback that has not read the eventfd yet. -/
def Draining (w : Posting) : Prop :=
  match w.pc with
  | .tasks tmp_tasks => .onWakeup ∈ tmp_tasks
  | .reading _ => True
  | .head | .results _ | .returned => False

/-- A thread writes for a queued task while no wake-up callback is to run or running, and for a
stop while none is running. -/
def InTime (w : Posting) : PostOp → Prop
  | .wakeupLate => ¬ w.Draining
  | .wakeupStop => ∀ tmp_tasks, w.pc ≠ .reading tmp_tasks
  | _ => True

instance (w : Posting) : Decidable w.Draining :=
  match h : w.pc with
  | .tasks tmp_tasks => decidable_of_iff (.onWakeup ∈ tmp_tasks) (by rw [Draining, h])
  | .reading _ => isTrue (by rw [Draining, h]; trivial)
  | .head => isFalse (by rw [Draining, h]; exact id)
  | .results _ => isFalse (by rw [Draining, h]; exact id)
  | .returned => isFalse (by rw [Draining, h]; exact id)

instance (w : Posting) (op : PostOp) : Decidable (w.InTime op) :=
  match op with
  | .wakeupLate => inferInstanceAs (Decidable (¬ w.Draining))
  | .wakeupStop =>
      match h : w.pc with
      | .reading tmp_tasks => isFalse fun hne => hne tmp_tasks h
      | .tasks _ => isTrue fun _ he => PostPc.noConfusion (h.symm.trans he)
      | .head => isTrue fun _ he => PostPc.noConfusion (h.symm.trans he)
      | .results _ => isTrue fun _ he => PostPc.noConfusion (h.symm.trans he)
      | .returned => isTrue fun _ he => PostPc.noConfusion (h.symm.trans he)
  | .addTask _ => isTrue trivial
  | .wakeupEarly => isTrue trivial
  | .stop => isTrue trivial
  | .advance _ _ => isTrue trivial

/-- The loop before its first round. -/
def start (loop : Eventloop) : Posting := { m_event_loop := loop, added := loop.m_pending_tasks }

/-! ### What the loop does next -/

section Advance

variable {w : Posting} {results : List EpollResult} {again : Bool} {cb : Callback}
  {tmp_tasks : List Callback} {r : EpollResult} {left : List EpollResult}

theorem advance_stopped (hpc : w.pc = .head) (hflag : w.m_event_loop.m_stop_flag = true) :
    w.advance results again = some { w with pc := .returned } := by
  unfold advance
  rw [hpc]
  exact if_pos hflag

theorem advance_head (hpc : w.pc = .head) (hflag : w.m_event_loop.m_stop_flag = false) :
    w.advance results again = some { w with
      m_event_loop := { w.m_event_loop with m_pending_tasks := [] }
      pc := .tasks w.m_event_loop.m_pending_tasks
      early := w.early + w.late
      late := 0 } := by
  unfold advance
  rw [hpc]
  exact if_neg (Bool.eq_false_iff.mp hflag)

theorem advance_tasks_nil (hpc : w.pc = .tasks []) : w.advance results again = w.wait results := by
  unfold advance
  rw [hpc]

theorem advance_tasks_stopped (hpc : w.pc = .tasks (cb :: tmp_tasks))
    (hflag : w.m_event_loop.m_stop_flag = true) : w.advance results again = w.wait results := by
  unfold advance
  rw [hpc]
  exact if_pos hflag

theorem advance_task (hpc : w.pc = .tasks (cb :: tmp_tasks))
    (hflag : w.m_event_loop.m_stop_flag = false) : w.advance results again = some { w with
      pc := if cb = .onWakeup then .reading tmp_tasks else .tasks tmp_tasks
      ran := w.ran ++ [cb] } := by
  unfold advance
  rw [hpc]
  exact if_neg (Bool.eq_false_iff.mp hflag)

theorem advance_read_nothing (hpc : w.pc = .reading tmp_tasks) (hzero : w.counter = 0) :
    w.advance results again = some { w with pc := .tasks tmp_tasks } := by
  unfold advance
  rw [hpc]
  exact if_pos hzero

theorem advance_read (hpc : w.pc = .reading tmp_tasks) (hne : w.counter ≠ 0) :
    w.advance results again = some { w with
      counter := 0, pc := if again then .reading tmp_tasks else .tasks tmp_tasks } := by
  unfold advance
  rw [hpc]
  exact if_neg hne

/-- Without an old `EAGAIN`, whatever there is to read. -/
theorem step_read_last (hpc : w.pc = .reading tmp_tasks) :
    w.step (.advance [] false) = some { w with counter := 0, pc := .tasks tmp_tasks } := by
  rw [step]
  by_cases hzero : w.counter = 0
  · rw [advance_read_nothing hpc hzero, ← hzero]
  · exact advance_read hpc hzero

theorem advance_results_nil (hpc : w.pc = .results []) :
    w.advance results again = some { w with pc := .head } := by
  unfold advance
  rw [hpc]

theorem advance_results_cons (hpc : w.pc = .results (r :: left)) :
    w.advance results again = some { w with
      m_event_loop := w.m_event_loop.dispatch r
      pc := .results left
      added := w.added ++ w.m_event_loop.accepts r.handlers } := by
  unfold advance
  rw [hpc]

theorem advance_returned (hpc : w.pc = .returned) : w.advance results again = none := by
  unfold advance
  rw [hpc]

end Advance

/-! ### Order and delay -/

/-- The tasks queued are those that ran, those of the round and those in the queue, and those
queued at the last `epoll_wait` have run or are in the round. -/
structure Ordered (w : Posting) : Prop where
  late : w.late ≤ w.m_event_loop.m_pending_tasks.length
  ran : w.ran <+: w.added
  waited : w.atWait <+: w.added
  all : w.m_event_loop.m_stop_flag = false →
    w.ran ++ w.rest ++ w.m_event_loop.m_pending_tasks = w.added
  taken : w.m_event_loop.m_stop_flag = false →
    (∃ tmp_tasks, w.pc = .tasks tmp_tasks ∨ w.pc = .reading tmp_tasks) →
      w.atWait <+: w.ran ++ w.rest

section Steps

variable {w w' : Posting} {results : List EpollResult} {again : Bool}

theorem start_ordered (loop : Eventloop) : (start loop).Ordered := by
  refine ⟨Nat.zero_le _, List.nil_prefix, List.nil_prefix, fun _ => rfl, fun _ => ?_⟩
  rintro ⟨tmp_tasks, h | h⟩ <;> cases h

theorem addTask_ordered (h : w.Ordered) {cb : Callback} (hs : w.step (.addTask cb) = some w') :
    w'.Ordered := by
  rw [step] at hs
  split at hs
  · cases hs
    exact h
  · rename_i hflag
    cases hs
    have hpend : (w.m_event_loop.addTask cb).m_pending_tasks
        = w.m_event_loop.m_pending_tasks ++ [cb] := by
      rw [Eventloop.addTask_pending, Eventloop.accepts, if_neg hflag]
    have hstop := w.m_event_loop.addTask_stop_flag cb
    refine ⟨?_, h.ran.trans (List.prefix_append _ _), h.waited.trans (List.prefix_append _ _), ?_,
      ?_⟩
    · show w.late + 1 ≤ (w.m_event_loop.addTask cb).m_pending_tasks.length
      rw [hpend, List.length_append]
      exact Nat.succ_le_succ h.late
    · intro hf
      show w.ran ++ w.rest ++ (w.m_event_loop.addTask cb).m_pending_tasks = w.added ++ [cb]
      rw [hpend, ← List.append_assoc, h.all (hstop ▸ hf)]
    · intro hf hpc
      exact h.taken (hstop ▸ hf) hpc

theorem wait_ordered (h : w.Ordered) (hrest : w.m_event_loop.m_stop_flag = false → w.rest = [])
    (hs : w.wait results = some w') : w'.Ordered := by
  obtain ⟨-, hs⟩ := Option.ite_none_right_eq_some.mp hs
  cases hs
  refine ⟨h.late, h.ran, List.prefix_rfl, ?_, ?_⟩
  · intro hf
    have hall := h.all hf
    rw [hrest hf] at hall
    exact hall
  · rintro - ⟨tmp_tasks, hpc | hpc⟩ <;> cases hpc

theorem head_ordered (h : w.Ordered) (hpc : w.pc = .head)
    (hs : w.advance results again = some w') : w'.Ordered := by
  cases hflag : w.m_event_loop.m_stop_flag with
  | true =>
    rw [advance_stopped hpc hflag] at hs
    cases hs
    exact ⟨h.late, h.ran, h.waited, fun hf => absurd (hflag.symm.trans hf) (by decide),
      fun hf => absurd (hflag.symm.trans hf) (by decide)⟩
  | false =>
    -- the round takes the queue
    rw [advance_head hpc hflag] at hs
    cases hs
    have hall := h.all hflag
    have hrest : w.rest = [] := by rw [rest, hpc]
    rw [hrest, List.append_nil] at hall
    refine ⟨Nat.zero_le _, h.ran, h.waited, fun _ => ?_, fun _ _ => ?_⟩
    · show w.ran ++ w.m_event_loop.m_pending_tasks ++ [] = w.added
      rw [List.append_nil, hall]
    · show w.atWait <+: w.ran ++ w.m_event_loop.m_pending_tasks
      rw [hall]
      exact h.waited

theorem tasks_nil_ordered (h : w.Ordered) (hpc : w.pc = .tasks [])
    (hs : w.advance results again = some w') : w'.Ordered := by
  rw [advance_tasks_nil hpc] at hs
  exact wait_ordered h (fun _ => by rw [rest, hpc]) hs

theorem rest_ran {cb : Callback} {tmp_tasks : List Callback} : rest { w with
    pc := if cb = .onWakeup then .reading tmp_tasks else .tasks tmp_tasks
    ran := w.ran ++ [cb] } = tmp_tasks := by
  unfold rest
  dsimp only
  by_cases hcb : cb = .onWakeup
  · rw [if_pos hcb]
  · rw [if_neg hcb]

theorem tasks_cons_ordered (h : w.Ordered) {cb : Callback} {tmp_tasks : List Callback}
    (hpc : w.pc = .tasks (cb :: tmp_tasks)) (hs : w.advance results again = some w') :
    w'.Ordered := by
  cases hflag : w.m_event_loop.m_stop_flag with
  | true =>
    rw [advance_tasks_stopped hpc hflag] at hs
    exact wait_ordered h (fun hf => absurd (hflag.symm.trans hf) (by decide)) hs
  | false =>
    rw [advance_task hpc hflag] at hs
    cases hs
    have hall := h.all hflag
    have htaken := h.taken hflag ⟨_, Or.inl hpc⟩
    have hrest : w.rest = cb :: tmp_tasks := by rw [rest, hpc]
    rw [hrest] at hall htaken
    have hcons : w.ran ++ [cb] ++ tmp_tasks = w.ran ++ cb :: tmp_tasks := by
      rw [List.append_assoc, List.singleton_append]
    refine ⟨h.late, ?_, h.waited, fun _ => ?_, fun _ _ => ?_⟩
    · show w.ran ++ [cb] <+: w.added
      rw [← hall, ← hcons, List.append_assoc]
      exact List.prefix_append _ _
    · rw [rest_ran]
      show w.ran ++ [cb] ++ tmp_tasks ++ w.m_event_loop.m_pending_tasks = w.added
      rw [hcons, hall]
    · rw [rest_ran]
      show w.atWait <+: w.ran ++ [cb] ++ tmp_tasks
      rw [hcons]
      exact htaken

theorem reading_ordered (h : w.Ordered) {tmp_tasks : List Callback}
    (hpc : w.pc = .reading tmp_tasks) (hs : w.advance results again = some w') : w'.Ordered := by
  have hrest : w.rest = tmp_tasks := by rw [rest, hpc]
  have hkeep : ∀ counter pc, pc = PostPc.tasks tmp_tasks ∨ pc = .reading tmp_tasks →
      Ordered { w with counter := counter, pc := pc } := by
    intro counter pc hpc'
    have hrest' : rest { w with counter := counter, pc := pc } = w.rest := by
      rw [hrest]
      rcases hpc' with rfl | rfl <;> rfl
    refine ⟨h.late, h.ran, h.waited, fun hf => ?_, fun hf _ => ?_⟩
    · rw [hrest']
      exact h.all hf
    · rw [hrest']
      exact h.taken hf ⟨_, Or.inr hpc⟩
  by_cases hzero : w.counter = 0
  · rw [advance_read_nothing hpc hzero] at hs
    cases hs
    exact hkeep w.counter _ (Or.inl rfl)
  · rw [advance_read hpc hzero] at hs
    cases hs
    refine hkeep 0 _ ?_
    cases again with
    | true => exact Or.inr rfl
    | false => exact Or.inl rfl

theorem results_nil_ordered (h : w.Ordered) (hpc : w.pc = .results [])
    (hs : w.advance results again = some w') : w'.Ordered := by
  rw [advance_results_nil hpc] at hs
  cases hs
  have hrest : w.rest = [] := by rw [rest, hpc]
  refine ⟨h.late, h.ran, h.waited, fun hf => ?_, ?_⟩
  · have hall := h.all hf
    rw [hrest] at hall
    exact hall
  · rintro - ⟨tmp_tasks, hpc | hpc⟩ <;> cases hpc

theorem results_cons_ordered (h : w.Ordered) {r : EpollResult} {rest' : List EpollResult}
    (hpc : w.pc = .results (r :: rest')) (hs : w.advance results again = some w') :
    w'.Ordered := by
  rw [advance_results_cons hpc] at hs
  cases hs
  have hrest : w.rest = [] := by rw [rest, hpc]
  refine ⟨?_, h.ran.trans (List.prefix_append _ _), h.waited.trans (List.prefix_append _ _), ?_,
    ?_⟩
  · show w.late ≤ (w.m_event_loop.dispatch r).m_pending_tasks.length
    rw [Eventloop.dispatch_pending, List.length_append]
    exact Nat.le_add_right_of_le h.late
  · intro hf
    have hall := h.all ((w.m_event_loop.dispatch_stop_flag r).symm.trans hf)
    rw [hrest] at hall
    show w.ran ++ [] ++ (w.m_event_loop.dispatch r).m_pending_tasks = _
    rw [Eventloop.dispatch_pending, ← List.append_assoc, hall]
  · rintro - ⟨tmp_tasks, hpc | hpc⟩ <;> cases hpc

theorem advance_ordered (h : w.Ordered) (hs : w.advance results again = some w') :
    w'.Ordered := by
  cases hpc : w.pc with
  | head => exact head_ordered h hpc hs
  | tasks tmp_tasks =>
    cases tmp_tasks with
    | nil => exact tasks_nil_ordered h hpc hs
    | cons cb tmp_tasks => exact tasks_cons_ordered h hpc hs
  | reading tmp_tasks => exact reading_ordered h hpc hs
  | results rest =>
    cases rest with
    | nil => exact results_nil_ordered h hpc hs
    | cons r rest => exact results_cons_ordered h hpc hs
  | returned =>
    rw [advance_returned hpc] at hs
    cases hs

theorem step_ordered {op : PostOp} (h : w.Ordered) (hs : w.step op = some w') : w'.Ordered := by
  cases op with
  | addTask cb => exact addTask_ordered h hs
  | wakeupEarly =>
    obtain ⟨-, hs⟩ := Option.ite_none_right_eq_some.mp hs
    cases hs
    exact ⟨h.late, h.ran, h.waited, h.all, h.taken⟩
  | wakeupLate =>
    obtain ⟨-, hs⟩ := Option.ite_none_right_eq_some.mp hs
    cases hs
    exact ⟨(Nat.sub_le _ _).trans h.late, h.ran, h.waited, h.all, h.taken⟩
  | stop =>
    rw [step] at hs
    split at hs
    · cases hs
      exact h
    · cases hs
      exact ⟨h.late, h.ran, h.waited, fun hf => (by cases hf), fun hf => (by cases hf)⟩
  | wakeupStop =>
    obtain ⟨-, hs⟩ := Option.ite_none_right_eq_some.mp hs
    cases hs
    exact ⟨h.late, h.ran, h.waited, h.all, h.taken⟩
  | advance results again => exact advance_ordered h hs

/-! ### Waking up -/

/-- A queued task whose thread has written is behind a positive counter that no wake-up callback
of the round reads; and so is a stop. -/
structure Awake (w : Posting) : Prop where
  stopping : w.stopping = true → w.m_event_loop.m_stop_flag = true
  queued : w.m_event_loop.m_stop_flag = false →
    w.late < w.m_event_loop.m_pending_tasks.length →
      (∀ tmp_tasks, w.pc = .tasks tmp_tasks → 0 < w.counter) ∧ ¬ w.Draining
  stopped : w.m_event_loop.m_stop_flag = true → w.stopping = false →
    (∀ tmp_tasks, w.pc = .tasks tmp_tasks → 0 < w.counter) ∧
      ∀ tmp_tasks, w.pc ≠ .reading tmp_tasks

theorem Awake.not_asleep (h : w.Awake) : ¬ w.Asleep := by
  rintro ⟨hwait, hzero, ⟨hf, hlt⟩ | ⟨hf, hs⟩⟩
  · have hpos := (h.queued hf hlt).1
    rcases hwait with hpc | ⟨hf', -⟩
    · exact absurd (hpos _ hpc) (by omega)
    · rw [hf] at hf'
      cases hf'
  · have hpos := (h.stopped hf hs).1
    rcases hwait with hpc | ⟨-, tmp_tasks, hpc⟩
    · exact absurd (hpos _ hpc) (by omega)
    · exact absurd (hpos _ hpc) (by omega)

theorem awake_of_between (hstop : w.stopping = true → w.m_event_loop.m_stop_flag = true)
    (hpc : w.pc = .head ∨ (∃ rest, w.pc = .results rest) ∨ w.pc = .returned) : w.Awake := by
  have hno : ∀ tmp_tasks, w.pc ≠ .tasks tmp_tasks ∧ w.pc ≠ .reading tmp_tasks := by
    intro tmp_tasks
    rcases hpc with h | ⟨rest, h⟩ | h <;> rw [h] <;> exact ⟨by simp, by simp⟩
  have hdrain : ¬ w.Draining := by
    rcases hpc with h | ⟨rest, h⟩ | h <;> rw [Draining, h] <;> exact id
  exact ⟨hstop, fun _ _ => ⟨fun t ht => absurd ht (hno t).1, hdrain⟩,
    fun _ _ => ⟨fun t ht => absurd ht (hno t).1, fun t => (hno t).2⟩⟩

theorem start_awake (loop : Eventloop) : (start loop).Awake :=
  awake_of_between (fun h => (by cases h)) (Or.inl rfl)

theorem wait_awake (h : w.Awake) (hs : w.wait results = some w') : w'.Awake := by
  obtain ⟨-, hs⟩ := Option.ite_none_right_eq_some.mp hs
  cases hs
  exact awake_of_between h.stopping (Or.inr (Or.inl ⟨results, rfl⟩))

theorem addTask_awake (h : w.Awake) {cb : Callback} (hs : w.step (.addTask cb) = some w') :
    w'.Awake := by
  rw [step] at hs
  split at hs
  · cases hs
    exact h
  · rename_i hflag
    cases hs
    have hlen : (w.m_event_loop.addTask cb).m_pending_tasks.length
        = w.m_event_loop.m_pending_tasks.length + 1 := by
      rw [Eventloop.addTask_pending, Eventloop.accepts, if_neg hflag, List.length_append]
      rfl
    have hstop := w.m_event_loop.addTask_stop_flag cb
    refine ⟨fun hst => hstop.trans (h.stopping hst), fun hf hlt => ?_, fun hf hst => ?_⟩
    · have hlt' : w.late + 1 < (w.m_event_loop.addTask cb).m_pending_tasks.length := hlt
      exact h.queued (hstop.symm.trans hf) (by omega)
    · exact h.stopped (hstop.symm.trans hf) hst

theorem wakeup_awake (h : w.Awake) {op : PostOp} (hin : w.InTime op)
    (hop : op = .wakeupEarly ∨ op = .wakeupLate ∨ op = .wakeupStop)
    (hs : w.step op = some w') : w'.Awake := by
  rcases hop with rfl | rfl | rfl
  · obtain ⟨-, hs⟩ := Option.ite_none_right_eq_some.mp hs
    cases hs
    refine ⟨h.stopping, fun hf hlt => ?_, fun hf hst => ?_⟩
    · exact ⟨fun _ _ => Nat.add_pos_right _ (by decide), (h.queued hf hlt).2⟩
    · exact ⟨fun _ _ => Nat.add_pos_right _ (by decide), (h.stopped hf hst).2⟩
  · obtain ⟨hpos, hs⟩ := Option.ite_none_right_eq_some.mp hs
    cases hs
    refine ⟨h.stopping, fun hf hlt => ?_, fun hf hst => ?_⟩
    · exact ⟨fun _ _ => Nat.add_pos_right _ (by decide), hin⟩
    · exact ⟨fun _ _ => Nat.add_pos_right _ (by decide), (h.stopped hf hst).2⟩
  · obtain ⟨hst, hs⟩ := Option.ite_none_right_eq_some.mp hs
    cases hs
    refine ⟨fun hf => (by cases hf), fun hf hlt => ?_, fun hf _ => ?_⟩
    · exact ⟨fun _ _ => Nat.add_pos_right _ (by decide), (h.queued hf hlt).2⟩
    · exact ⟨fun _ _ => Nat.add_pos_right _ (by decide), hin⟩

theorem stop_awake (h : w.Awake) (hs : w.step .stop = some w') : w'.Awake := by
  rw [step] at hs
  split at hs
  · cases hs
    exact h
  · cases hs
    exact ⟨fun _ => rfl, fun hf => (by cases hf), fun _ hst => (by cases hst)⟩

theorem head_awake (h : w.Awake) (hpc : w.pc = .head)
    (hs : w.advance results again = some w') : w'.Awake := by
  cases hflag : w.m_event_loop.m_stop_flag with
  | true =>
    rw [advance_stopped hpc hflag] at hs
    cases hs
    exact awake_of_between h.stopping (Or.inr (Or.inr rfl))
  | false =>
    -- a new round: nothing is queued
    rw [advance_head hpc hflag] at hs
    cases hs
    exact ⟨h.stopping, fun _ hlt => absurd hlt (Nat.lt_irrefl _),
      fun hf => absurd (hflag.symm.trans hf) (by decide)⟩

theorem tasks_cons_awake (h : w.Awake) {cb : Callback} {tmp_tasks : List Callback}
    (hpc : w.pc = .tasks (cb :: tmp_tasks)) (hs : w.advance results again = some w') :
    w'.Awake := by
  cases hflag : w.m_event_loop.m_stop_flag with
  | true =>
    rw [advance_tasks_stopped hpc hflag] at hs
    exact wait_awake h hs
  | false =>
    rw [advance_task hpc hflag] at hs
    cases hs
    refine ⟨h.stopping, fun hf hlt => ?_, fun hf => absurd (hflag.symm.trans hf) (by decide)⟩
    -- the round holds no wake-up callback, so `cb` is none
    obtain ⟨hpos, hdrain⟩ := h.queued hf hlt
    have hmem : Callback.onWakeup ∉ cb :: tmp_tasks := by
      rw [Draining, hpc] at hdrain
      exact hdrain
    rw [List.mem_cons, not_or] at hmem
    obtain ⟨hcb, htmp⟩ := hmem
    have hne : ¬ cb = .onWakeup := fun he => hcb he.symm
    dsimp only [Draining]
    rw [if_neg hne]
    exact ⟨fun _ _ => hpos _ hpc, htmp⟩

theorem reading_awake (h : w.Awake) {tmp_tasks : List Callback} (hpc : w.pc = .reading tmp_tasks)
    (hs : w.advance results again = some w') : w'.Awake := by
  -- nothing announced is queued here, and no stop
  have hq : w.m_event_loop.m_stop_flag = false →
      ¬ w.late < w.m_event_loop.m_pending_tasks.length := by
    intro hf hlt
    have hdrain := (h.queued hf hlt).2
    rw [Draining, hpc] at hdrain
    exact hdrain trivial
  have hst : w.m_event_loop.m_stop_flag = true → ¬ w.stopping = false := by
    intro hf hst
    exact (h.stopped hf hst).2 tmp_tasks hpc
  have hkeep : ∀ counter pc, Awake { w with counter := counter, pc := pc } := fun _ _ =>
    ⟨h.stopping, fun hf hlt => absurd hlt (hq hf), fun hf hs => absurd hs (hst hf)⟩
  by_cases hzero : w.counter = 0
  · rw [advance_read_nothing hpc hzero] at hs
    cases hs
    exact hkeep w.counter _
  · rw [advance_read hpc hzero] at hs
    cases hs
    exact hkeep 0 _

theorem results_awake (h : w.Awake) {rest : List EpollResult} (hpc : w.pc = .results rest)
    (hs : w.advance results again = some w') : w'.Awake := by
  cases rest with
  | nil =>
    rw [advance_results_nil hpc] at hs
    cases hs
    exact awake_of_between h.stopping (Or.inl rfl)
  | cons r rest =>
    rw [advance_results_cons hpc] at hs
    cases hs
    exact awake_of_between (fun hst => (w.m_event_loop.dispatch_stop_flag r).trans
      (h.stopping hst)) (Or.inr (Or.inl ⟨rest, rfl⟩))

theorem advance_awake (h : w.Awake) (hs : w.advance results again = some w') : w'.Awake := by
  cases hpc : w.pc with
  | head => exact head_awake h hpc hs
  | tasks tmp_tasks =>
    cases tmp_tasks with
    | nil =>
      rw [advance_tasks_nil hpc] at hs
      exact wait_awake h hs
    | cons cb tmp_tasks => exact tasks_cons_awake h hpc hs
  | reading tmp_tasks => exact reading_awake h hpc hs
  | results rest => exact results_awake h hpc hs
  | returned =>
    rw [advance_returned hpc] at hs
    cases hs

theorem step_awake {op : PostOp} (h : w.Awake) (hs : w.InTime op ∧ w.step op = some w') :
    w'.Awake := by
  obtain ⟨hin, hs⟩ := hs
  cases op with
  | addTask cb => exact addTask_awake h hs
  | wakeupEarly => exact wakeup_awake h hin (Or.inl rfl) hs
  | wakeupLate => exact wakeup_awake h hin (Or.inr (Or.inl rfl)) hs
  | stop => exact stop_awake h hs
  | wakeupStop => exact wakeup_awake h hin (Or.inr (Or.inr rfl)) hs
  | advance results again => exact advance_awake h hs

/-! ### A round on its own -/

/-- The loop runs the tasks of its round to the end; if one of them is the wake-up callback it
leaves the eventfd at zero. -/
theorem drains (tmp_tasks : List Callback) : ∀ w : Posting, w.pc = .tasks tmp_tasks →
    w.m_event_loop.m_stop_flag = false →
      ∃ n w', Run (fun w op w' => w.step op = some w') w
        (List.replicate n (.advance [] false)) w' ∧
      w'.pc = .tasks [] ∧ w'.m_event_loop = w.m_event_loop ∧ w'.late = w.late ∧
      (.onWakeup ∈ tmp_tasks ∨ w.counter = 0 → w'.counter = 0) := by
  induction tmp_tasks with
  | nil =>
    intro w hpc _
    refine ⟨0, w, .nil w, hpc, rfl, rfl, ?_⟩
    rintro (h | h)
    · cases h
    · exact h
  | cons cb tmp_tasks ih =>
    intro w hpc hflag
    have hrun : w.step (.advance [] false) = some { w with
        pc := if cb = .onWakeup then .reading tmp_tasks else .tasks tmp_tasks
        ran := w.ran ++ [cb] } := advance_task hpc hflag
    by_cases hcb : cb = .onWakeup
    · -- two more steps: the callback, and its last `read`
      rw [if_pos hcb] at hrun
      have hread : step { w with pc := .reading tmp_tasks, ran := w.ran ++ [cb] }
          (.advance [] false) = some { w with
            pc := .tasks tmp_tasks, ran := w.ran ++ [cb], counter := 0 } :=
        step_read_last (w := { w with pc := .reading tmp_tasks, ran := w.ran ++ [cb] }) rfl
      obtain ⟨n, w', hrun', h1, h2, h3, h4⟩ := ih { w with
        pc := .tasks tmp_tasks, ran := w.ran ++ [cb], counter := 0 } rfl hflag
      exact ⟨n + 2, w', .cons hrun (.cons hread hrun'), h1, h2, h3, fun _ => h4 (Or.inr rfl)⟩
    · rw [if_neg hcb] at hrun
      obtain ⟨n, w', hrun', h1, h2, h3, h4⟩ := ih { w with
        pc := .tasks tmp_tasks, ran := w.ran ++ [cb] } rfl hflag
      refine ⟨n + 1, w', .cons hrun hrun', h1, h2, h3, ?_⟩
      rintro (hmem | hz)
      · rcases List.mem_cons.mp hmem with he | hmem
        · exact absurd he.symm hcb
        · exact h4 (Or.inl hmem)
      · exact h4 (Or.inr hz)

end Steps

/-! ### Runs -/

variable {loop : Eventloop} {w : Posting} {ops : List PostOp}

/-- The event of the eventfd, and a `wait` it ends. -/
def woken : EpollResult :=
  { fd_event := { m_fd := 9, m_read_callback := some .onWakeup }, EPOLLIN := true }

/-- A task whose thread writes while the loop is in `epoll_wait`, and a second one that is queued
behind the next round's take. -/
def twoTasks : List PostOp :=
  [.advance [] false, .addTask (.cancel 1), .wakeupLate, .advance [woken] false,
    .advance [] false, .advance [] false, .advance [] false, .addTask (.cancel 2)]

end Posting

end KaiRPC
