import KaiRPC.Net.Loop

/-!
# The rounds of a loop

A round of `Eventloop::loop` (`net/eventloop.cc`) takes the whole task queue, runs it, waits,
and queues the handlers of what `epoll_wait` returned for the round after it.  `Watch` is the
thread of `Net/Loop.lean` under observation: it records for every round the tasks it took and
ran, the results it looked at and the handlers that were queued for them.

* `EpollResult.handlers`: the handlers of one result, in the order they are queued.
* `dispatch_pending`, `dispatch_listen_fds`: what a round does with one result.
* `Round.InOrder`: a round ran its tasks in order and queued the handlers in order, all of them
  unless it saw a stop, and the terminal descriptors are no longer listened to.
* `rounds_inOrder`: **every round of every run is in order, and every task that was added has
  been run once, is still to be run, or was dropped at a stop.**
-/

namespace KaiRPC

/-- The handlers of a result: readable, then writable unless the result is terminal, then the
error handler if it is. -/
def EpollResult.handlers (r : EpollResult) : List Callback :=
  (if r.EPOLLIN then (r.fd_event.handler .IN_EVENT).toList else [])
    ++ (if r.EPOLLOUT && !r.is_terminal then (r.fd_event.handler .OUT_EVENT).toList else [])
    ++ (if r.is_terminal then (r.fd_event.handler .ERROR_EVENT).toList else [])

namespace Eventloop

/-- What a queue takes: nothing once the loop is stopped. -/
def accepts (l : Eventloop) (tasks : List Callback) : List Callback :=
  if l.m_stop_flag then [] else tasks

theorem addTask_pending (l : Eventloop) (cb : Callback) :
    (l.addTask cb).m_pending_tasks = l.m_pending_tasks ++ l.accepts [cb] := by
  rw [addTask, accepts]
  split
  · exact (List.append_nil _).symm
  · rfl

theorem addHandler_pending (l : Eventloop) (handler : Option Callback) :
    (l.addHandler handler).m_pending_tasks = l.m_pending_tasks ++ l.accepts handler.toList := by
  cases handler with
  | none =>
    rw [accepts]
    split <;> exact (List.append_nil _).symm
  | some cb => exact l.addTask_pending cb

@[simp] theorem addHandler_listen_fds (l : Eventloop) (handler : Option Callback) :
    (l.addHandler handler).m_listen_fds = l.m_listen_fds := by
  cases handler with
  | none => rfl
  | some cb =>
    rw [addHandler, addTask]
    split <;> rfl

@[simp] theorem deleteEpollEvent_pending (l : Eventloop) (event : FdEvent) :
    (l.deleteEpollEvent event).m_pending_tasks = l.m_pending_tasks := by
  rw [deleteEpollEvent]
  split <;> rfl

theorem deleteEpollEvent_listen_fds (l : Eventloop) (event : FdEvent) :
    (l.deleteEpollEvent event).m_listen_fds = l.m_listen_fds.erase event.m_fd := by
  rw [deleteEpollEvent]
  split
  · rfl
  · rename_i hout
    exact (Finset.erase_eq_of_notMem hout).symm

theorem accepts_nil (l : Eventloop) : l.accepts [] = [] := by
  rw [accepts]
  split <;> rfl

theorem accepts_append (l : Eventloop) (a b : List Callback) :
    l.accepts (a ++ b) = l.accepts a ++ l.accepts b := by
  rw [accepts, accepts, accepts]
  split <;> rfl

theorem accepts_congr {l l' : Eventloop} (h : l'.m_stop_flag = l.m_stop_flag)
    (tasks : List Callback) : l'.accepts tasks = l.accepts tasks := by
  rw [accepts, accepts, h]

/-- A handler that is queued if its bit is set. -/
def queueIf (l : Eventloop) (c : Bool) (handler : Option Callback) : Eventloop :=
  if c then l.addHandler handler else l

theorem queueIf_pending (l : Eventloop) (c : Bool) (handler : Option Callback) :
    (l.queueIf c handler).m_pending_tasks
      = l.m_pending_tasks ++ l.accepts (if c then handler.toList else []) := by
  cases c with
  | true => exact l.addHandler_pending handler
  | false =>
    show l.m_pending_tasks = l.m_pending_tasks ++ l.accepts []
    rw [accepts_nil, List.append_nil]

theorem queueIf_frame (l : Eventloop) (c : Bool) (handler : Option Callback) :
    (l.queueIf c handler).m_stop_flag = l.m_stop_flag ∧
      (l.queueIf c handler).m_listen_fds = l.m_listen_fds := by
  cases c with
  | true => exact ⟨l.addHandler_stop_flag handler, l.addHandler_listen_fds handler⟩
  | false => exact ⟨rfl, rfl⟩

/-- What a result does before it is found terminal. -/
def queueReady (l : Eventloop) (r : EpollResult) : Eventloop :=
  (l.queueIf r.EPOLLIN (r.fd_event.handler .IN_EVENT)).queueIf (r.EPOLLOUT && !r.is_terminal)
    (r.fd_event.handler .OUT_EVENT)

theorem dispatch_eq (l : Eventloop) (r : EpollResult) : l.dispatch r =
    if r.is_terminal then
      ((l.queueReady r).deleteEpollEvent r.fd_event).addHandler (r.fd_event.handler .ERROR_EVENT)
    else l.queueReady r := rfl

theorem queueReady_frame (l : Eventloop) (r : EpollResult) :
    (l.queueReady r).m_stop_flag = l.m_stop_flag ∧
      (l.queueReady r).m_listen_fds = l.m_listen_fds := by
  obtain ⟨h1, h2⟩ := l.queueIf_frame r.EPOLLIN (r.fd_event.handler .IN_EVENT)
  obtain ⟨h3, h4⟩ := (l.queueIf r.EPOLLIN (r.fd_event.handler .IN_EVENT)).queueIf_frame
    (r.EPOLLOUT && !r.is_terminal) (r.fd_event.handler .OUT_EVENT)
  exact ⟨h3.trans h1, h4.trans h2⟩

theorem queueReady_pending (l : Eventloop) (r : EpollResult) :
    (l.queueReady r).m_pending_tasks = l.m_pending_tasks
      ++ l.accepts (if r.EPOLLIN then (r.fd_event.handler .IN_EVENT).toList else [])
      ++ l.accepts (if r.EPOLLOUT && !r.is_terminal then
        (r.fd_event.handler .OUT_EVENT).toList else []) := by
  rw [queueReady, queueIf_pending, queueIf_pending, accepts_congr (queueIf_frame l _ _).1]

/-- **A result queues its handlers**, in order. -/
theorem dispatch_pending (l : Eventloop) (r : EpollResult) :
    (l.dispatch r).m_pending_tasks = l.m_pending_tasks ++ l.accepts r.handlers := by
  rw [dispatch_eq, EpollResult.handlers, accepts_append, accepts_append, ← List.append_assoc,
    ← List.append_assoc, ← queueReady_pending]
  cases r.is_terminal with
  | false =>
    show (l.queueReady r).m_pending_tasks = (l.queueReady r).m_pending_tasks ++ l.accepts []
    rw [accepts_nil, List.append_nil]
  | true =>
    have hflag : ((l.queueReady r).deleteEpollEvent r.fd_event).m_stop_flag = l.m_stop_flag :=
      ((l.queueReady r).deleteEpollEvent_stop_flag _).trans (l.queueReady_frame r).1
    show (((l.queueReady r).deleteEpollEvent r.fd_event).addHandler _).m_pending_tasks = _
    rw [addHandler_pending, deleteEpollEvent_pending, accepts_congr hflag]
    rfl

theorem dispatch_listen_fds (l : Eventloop) (r : EpollResult) :
    (l.dispatch r).m_listen_fds
      = if r.is_terminal then l.m_listen_fds.erase r.fd_event.m_fd else l.m_listen_fds := by
  rw [dispatch_eq]
  split
  · rw [addHandler_listen_fds, deleteEpollEvent_listen_fds, (l.queueReady_frame r).2]
  · exact (l.queueReady_frame r).2

end Eventloop

/-! ### The thread under observation -/

/-- One round of a call of `loop`. -/
structure Round where
  /-- The tasks it took from the queue. -/
  batch : List Callback := []
  /-- The tasks it has run so far. -/
  ran : List Callback := []
  /-- What `epoll_wait` returned. -/
  results : List EpollResult := []
  /-- The tasks that were queued while it looked at the results. -/
  appended : List Callback := []
  /-- It found the stop flag set, at a task or at a result. -/
  stopped : Bool := false
  /-- `m_listen_fds` at its end. -/
  listening : Finset Int := ∅

structure Watch where
  thread : IOThread
  /-- The current round of each call of `loop`, the innermost first. -/
  rounds : List Round := []
  finished : List Round := []
  /-- Every task that was queued, in order. -/
  added : List Callback
  /-- The batches of all rounds so far, in the order they were taken. -/
  taken : List Callback := []
  executed : List Callback := []
  /-- The tasks that were taken and not run because of a stop. -/
  dropped : List Callback := []

namespace Watch

def start (loop : Eventloop) : Watch :=
  { thread := { m_event_loop := loop }, added := loop.m_pending_tasks }

/-- The tasks at the end of a queue that were not there before. -/
def fresh (l l' : Eventloop) : List Callback := l'.m_pending_tasks.drop l.m_pending_tasks.length

/-- What is recorded of a step to `thread`. -/
def record (w : Watch) (op : LoopOp) (thread : IOThread) : Watch :=
  let l := w.thread.m_event_loop
  let l' := thread.m_event_loop
  match op, w.thread.calls with
  | .advance _, .head :: _ =>
    if l.m_stop_flag then { w with thread, rounds := w.rounds.tail }
    else { w with
      thread
      rounds := { batch := l.m_pending_tasks } :: w.rounds.tail
      taken := w.taken ++ l.m_pending_tasks }
  | .advance results, .tasks [] :: _ =>
    { w with thread, rounds := w.rounds.modifyHead fun ρ => { ρ with results := results } }
  | .advance results, .tasks (cb :: tmp_tasks) :: _ =>
    if l.m_stop_flag then { w with
      thread
      rounds := w.rounds.modifyHead fun ρ => { ρ with results := results, stopped := true }
      dropped := w.dropped ++ cb :: tmp_tasks }
    else { w with
      thread
      rounds := w.rounds.modifyHead fun ρ => { ρ with ran := ρ.ran ++ [cb] }
      executed := w.executed ++ [cb] }
  | .advance _, .results [] :: _ =>
    { w with
      thread
      finished := w.finished
        ++ (w.rounds.head?.map fun ρ => { ρ with listening := l'.m_listen_fds }).toList }
  | .advance _, .results (_ :: _) :: _ =>
    { w with
      thread
      rounds := w.rounds.modifyHead fun ρ =>
        { ρ with appended := ρ.appended ++ fresh l l', stopped := ρ.stopped || l.m_stop_flag }
      added := w.added ++ fresh l l' }
  | .main, _ | .loop, _ =>
    { w with thread, rounds := if l.m_stop_flag then w.rounds else {} :: w.rounds }
  | _, _ => { w with thread, added := w.added ++ fresh l l' }

def step (w : Watch) (op : LoopOp) : Option Watch := (w.thread.step op).map (w.record op)

section Record

variable {w : Watch} {thread : IOThread} {results : List EpollResult} {calls : List LoopPc}

theorem record_head (hcalls : w.thread.calls = .head :: calls) :
    w.record (.advance results) thread =
      if w.thread.m_event_loop.m_stop_flag then { w with thread, rounds := w.rounds.tail }
      else { w with
        thread
        rounds := { batch := w.thread.m_event_loop.m_pending_tasks } :: w.rounds.tail
        taken := w.taken ++ w.thread.m_event_loop.m_pending_tasks } := by
  unfold record
  rw [hcalls]

theorem record_tasks_nil (hcalls : w.thread.calls = .tasks [] :: calls) :
    w.record (.advance results) thread = { w with
      thread
      rounds := w.rounds.modifyHead fun ρ => { ρ with results := results } } := by
  unfold record
  rw [hcalls]

theorem record_tasks_cons {cb : Callback} {tmp_tasks : List Callback}
    (hcalls : w.thread.calls = .tasks (cb :: tmp_tasks) :: calls) :
    w.record (.advance results) thread =
      if w.thread.m_event_loop.m_stop_flag then { w with
        thread
        rounds := w.rounds.modifyHead fun ρ => { ρ with results := results, stopped := true }
        dropped := w.dropped ++ cb :: tmp_tasks }
      else { w with
        thread
        rounds := w.rounds.modifyHead fun ρ => { ρ with ran := ρ.ran ++ [cb] }
        executed := w.executed ++ [cb] } := by
  unfold record
  rw [hcalls]

theorem record_task {tmp_tasks : List Callback}
    (hcalls : w.thread.calls = .task tmp_tasks :: calls) :
    w.record (.advance results) thread = { w with
      thread
      added := w.added ++ fresh w.thread.m_event_loop thread.m_event_loop } := by
  unfold record
  rw [hcalls]

theorem record_results_nil (hcalls : w.thread.calls = .results [] :: calls) :
    w.record (.advance results) thread = { w with
      thread
      finished := w.finished ++ (w.rounds.head?.map fun ρ =>
        { ρ with listening := thread.m_event_loop.m_listen_fds }).toList } := by
  unfold record
  rw [hcalls]

theorem record_results_cons {r : EpollResult} {rest : List EpollResult}
    (hcalls : w.thread.calls = .results (r :: rest) :: calls) :
    w.record (.advance results) thread = { w with
      thread
      rounds := w.rounds.modifyHead fun ρ => { ρ with
        appended := ρ.appended ++ fresh w.thread.m_event_loop thread.m_event_loop
        stopped := ρ.stopped || w.thread.m_event_loop.m_stop_flag }
      added := w.added ++ fresh w.thread.m_event_loop thread.m_event_loop } := by
  unfold record
  rw [hcalls]

end Record

end Watch

/-- **A round in order**: the tasks it took, one after the other; the handlers of its results, one
result after the other; all of them unless it saw a stop; and no terminal descriptor is listened
to at its end. -/
structure Round.InOrder (ρ : Round) : Prop where
  ran : ρ.ran <+: ρ.batch
  allRan : ρ.stopped = false → ρ.ran = ρ.batch
  appended : ρ.appended <+: ρ.results.flatMap EpollResult.handlers
  allAppended : ρ.stopped = false → ρ.appended = ρ.results.flatMap EpollResult.handlers
  left : ∀ r ∈ ρ.results, r.is_terminal = true → r.fd_event.m_fd ∉ ρ.listening

/-! ### The invariant -/

/-- The tasks a call has still to run. -/
def LoopPc.rest : LoopPc → List Callback
  | .tasks tmp_tasks | .task tmp_tasks => tmp_tasks
  | .head | .results _ => []

/-- A round that is running its tasks and has `rest` before it. -/
structure Round.Running (rest : List Callback) (ρ : Round) : Prop where
  batch : ρ.batch = ρ.ran ++ rest
  results : ρ.results = []
  appended : ρ.appended = []
  stopped : ρ.stopped = false

/-- A round that has looked at all its results but `rest`. -/
structure Round.Dispatching (l : Eventloop) (rest : List EpollResult) (ρ : Round) : Prop where
  ran : ρ.ran <+: ρ.batch
  allRan : ρ.stopped = false → ρ.ran = ρ.batch
  flag : ρ.stopped = true → l.m_stop_flag = true
  seen : ∃ seen, ρ.results = seen ++ rest ∧ ρ.appended <+: seen.flatMap EpollResult.handlers ∧
    (ρ.stopped = false → ρ.appended = seen.flatMap EpollResult.handlers) ∧
    ∀ r ∈ seen, r.is_terminal = true → r.fd_event.m_fd ∉ l.m_listen_fds

/-- The round of a call at `pc`. -/
def Round.At (l : Eventloop) : LoopPc → Round → Prop
  | .head, _ => True
  | .tasks rest, ρ | .task rest, ρ => ρ.Running rest
  | .results rest, ρ => ρ.Dispatching l rest

theorem Round.Dispatching.dispatch {l : Eventloop} {r : EpollResult} {rest : List EpollResult}
    {ρ : Round} (h : ρ.Dispatching l (r :: rest)) : Round.Dispatching (l.dispatch r) rest
      { ρ with
        appended := ρ.appended ++ l.accepts r.handlers
        stopped := ρ.stopped || l.m_stop_flag } := by
  obtain ⟨seen, hres, happ, hall, hleft⟩ := h.seen
  have hfds : ∀ fd, fd ∉ l.m_listen_fds → fd ∉ (l.dispatch r).m_listen_fds := by
    intro fd hfd hmem
    rw [Eventloop.dispatch_listen_fds] at hmem
    split at hmem
    · exact hfd (Finset.mem_of_mem_erase hmem)
    · exact hfd hmem
  have hseen : (seen ++ [r]).flatMap EpollResult.handlers
      = seen.flatMap EpollResult.handlers ++ r.handlers := by
    rw [List.flatMap_append, List.flatMap_singleton]
  refine ⟨h.ran, fun hno => h.allRan (Bool.or_eq_false_iff.mp hno).1, fun hyes => ?_, seen ++ [r],
    by rw [hres, List.append_assoc]; rfl, ?_, fun hno => ?_, fun r' hr' hterm => ?_⟩
  · rw [Eventloop.dispatch_stop_flag]
    rcases Bool.or_eq_true_iff.mp hyes with hρ | hl
    · exact h.flag hρ
    · exact hl
  · dsimp only
    rw [hseen, Eventloop.accepts]
    split
    · -- A stopped loop takes nothing, so what was queued stays where it was.
      rw [List.append_nil]
      exact happ.trans (List.prefix_append _ _)
    · rename_i hflag
      have hno : ρ.stopped = false := Bool.eq_false_iff.mpr fun hρ => hflag (h.flag hρ)
      rw [hall hno]
  · obtain ⟨hρ, hl⟩ := Bool.or_eq_false_iff.mp hno
    dsimp only
    rw [hseen, hall hρ, Eventloop.accepts, if_neg (by simp [hl])]
  · rcases List.mem_append.mp hr' with hold | hnew
    · exact hfds _ (hleft r' hold hterm)
    · rw [List.mem_singleton.mp hnew] at hterm ⊢
      rw [Eventloop.dispatch_listen_fds, if_pos hterm]
      exact Finset.notMem_erase _ _

/-- The calls around the innermost one are each in a task. -/
def Outer : List LoopPc → List Round → Prop :=
  List.Forall₂ fun pc ρ => ∃ rest, pc = .task rest ∧ ρ.Running rest

def Stack (l : Eventloop) : List LoopPc → List Round → Prop
  | [], [] => True
  | pc :: calls, ρ :: rounds => ρ.At l pc ∧ Outer calls rounds
  | _, _ => False

namespace Watch

structure Inv (w : Watch) : Prop where
  /-- Rounds take what was queued first. -/
  queue : w.added = w.taken ++ w.thread.m_event_loop.m_pending_tasks
  /-- No task is lost or run twice. -/
  conserved : w.added.Perm (w.executed ++ w.dropped ++ w.thread.calls.flatMap LoopPc.rest
    ++ w.thread.m_event_loop.m_pending_tasks)
  /-- A round takes tasks that were added one after the other. -/
  batches : ∀ ρ ∈ w.rounds ++ w.finished, ρ.batch <:+: w.taken
  entered : w.thread.entered = false → w.thread.calls = []
  stack : Stack w.thread.m_event_loop w.thread.calls w.rounds
  finished : ∀ ρ ∈ w.finished, ρ.InOrder

/-! ### Steps beside the loop -/

/-- A stop, and a task that was queued, do not disturb the innermost round. -/
theorem stack_congr {l l' : Eventloop} {calls : List LoopPc} {rounds : List Round}
    (hflag : l.m_stop_flag = true → l'.m_stop_flag = true)
    (hfds : l'.m_listen_fds = l.m_listen_fds) (h : Stack l calls rounds) :
    Stack l' calls rounds := by
  cases calls with
  | nil =>
    cases rounds with
    | nil => trivial
    | cons ρ rounds => exact h.elim
  | cons pc calls =>
    cases rounds with
    | nil => exact h.elim
    | cons ρ rounds =>
      obtain ⟨hat, hout⟩ := h
      refine ⟨?_, hout⟩
      cases pc with
      | head => trivial
      | tasks rest => exact hat
      | task rest => exact hat
      | results rest =>
        obtain ⟨seen, hres, happ, hall, hleft⟩ := hat.seen
        exact ⟨hat.ran, hat.allRan, fun hs => hflag (hat.flag hs), seen, hres, happ, hall,
          hfds ▸ hleft⟩

theorem inv_of_append {w : Watch} (h : w.Inv) {thread : IOThread}
    (hcalls : thread.calls = w.thread.calls) (hentered : thread.entered = w.thread.entered)
    (hpending : w.thread.m_event_loop.m_pending_tasks <+: thread.m_event_loop.m_pending_tasks)
    (hstack : Stack thread.m_event_loop w.thread.calls w.rounds) :
    Inv { w with
      thread
      added := w.added ++ fresh w.thread.m_event_loop thread.m_event_loop } := by
  obtain ⟨tasks, htasks⟩ := hpending
  have hfresh : fresh w.thread.m_event_loop thread.m_event_loop = tasks := by
    rw [fresh, ← htasks, List.drop_left]
  refine ⟨?_, ?_, h.batches, by rw [hcalls, hentered]; exact h.entered,
    by rw [hcalls]; exact hstack, h.finished⟩
  · dsimp only
    rw [hfresh, ← htasks, h.queue, List.append_assoc]
  · dsimp only
    rw [hfresh, ← htasks, hcalls, ← List.append_assoc]
    exact h.conserved.append_right tasks

theorem apply_pending (l : Eventloop) (a : TaskAction) :
    (a.apply l).m_pending_tasks = l.m_pending_tasks := by
  cases a with
  | newClient self fd =>
    dsimp only [TaskAction.apply, TcpClient.new]
    split <;> rfl
  | clientStop =>
    dsimp only [TaskAction.apply]
    split <;> rfl
  | addEpollEvent event grant =>
    dsimp only [TaskAction.apply, Eventloop.addEpollEvent]
    split <;> rfl
  | deleteEpollEvent event => exact l.deleteEpollEvent_pending event
  | addTimerEvent event now =>
    dsimp only [TaskAction.apply, Eventloop.addTimerEvent]
    split <;> rfl
  | deleteTimerEvent event => rfl

theorem outer_of_inTask {w : Watch} (h : w.Inv) (htask : w.thread.inTask = true) :
    Outer w.thread.calls w.rounds := by
  have hstack := h.stack
  rw [IOThread.inTask] at htask
  split at htask
  · rename_i tmp_tasks calls hcalls
    rw [hcalls] at hstack ⊢
    cases hr : w.rounds with
    | nil =>
      rw [hr] at hstack
      exact hstack.elim
    | cons ρ rounds =>
      rw [hr] at hstack
      exact .cons ⟨tmp_tasks, rfl, hstack.1⟩ hstack.2
  · cases htask

theorem stack_of_outer {l : Eventloop} {calls : List LoopPc} {rounds : List Round}
    (h : Outer calls rounds) : Stack l calls rounds := by
  cases h with
  | nil => trivial
  | cons hρ hout =>
    obtain ⟨rest, rfl, hρ⟩ := hρ
    exact ⟨hρ, hout⟩

theorem loop_inv {w : Watch} {thread : IOThread} (h : w.Inv)
    (hout : Outer w.thread.calls w.rounds) (hcalls : thread.calls = w.thread.calls)
    (hloop : thread.m_event_loop = w.thread.m_event_loop) (hentered : thread.entered = true) :
    Inv { w with
      thread := thread.loop
      rounds := if w.thread.m_event_loop.m_stop_flag then w.rounds else {} :: w.rounds } := by
  rw [IOThread.loop, hloop, hcalls]
  split
  · refine ⟨h.queue, h.conserved, h.batches, ?_, stack_of_outer hout, h.finished⟩
    intro hno
    exact absurd (hentered.symm.trans hno) Bool.false_ne_true.symm
  · refine ⟨h.queue, h.conserved, ?_, ?_, ⟨trivial, hout⟩, h.finished⟩
    · exact List.forall_mem_cons.mpr ⟨List.nil_infix, h.batches⟩
    · intro hno
      exact absurd (hentered.symm.trans hno) Bool.false_ne_true.symm

/-! ### Steps of the loop -/

theorem exists_round {w : Watch} {pc : LoopPc} {calls : List LoopPc} (h : w.Inv)
    (hcalls : w.thread.calls = pc :: calls) : ∃ ρ rounds, w.rounds = ρ :: rounds ∧
      ρ.At w.thread.m_event_loop pc ∧ Outer calls rounds ∧ ρ.batch <:+: w.taken ∧
      ∀ ρ' ∈ rounds ++ w.finished, ρ'.batch <:+: w.taken := by
  have hstack := h.stack
  have hbatches := h.batches
  rw [hcalls] at hstack
  cases hr : w.rounds with
  | nil =>
    rw [hr] at hstack
    exact hstack.elim
  | cons ρ rounds =>
    rw [hr] at hstack hbatches
    obtain ⟨hbatch, hbatches⟩ := List.forall_mem_cons.mp hbatches
    exact ⟨ρ, rounds, rfl, hstack.1, hstack.2, hbatch, hbatches⟩

theorem entered_of_calls {w : Watch} {pc : LoopPc} {calls : List LoopPc} (h : w.Inv)
    (hcalls : w.thread.calls = pc :: calls) : w.thread.entered ≠ false := by
  intro hno
  have hnil := h.entered hno
  rw [hcalls] at hnil
  cases hnil

theorem conserved_of_count {w : Watch} {pc : LoopPc} {calls : List LoopPc} (h : w.Inv)
    (hcalls : w.thread.calls = pc :: calls) (rest : List Callback)
    {added executed dropped pending : List Callback}
    (hcount : ∀ cb, added.count cb + (w.executed.count cb + w.dropped.count cb
        + pc.rest.count cb + w.thread.m_event_loop.m_pending_tasks.count cb)
      = w.added.count cb
        + (executed.count cb + dropped.count cb + rest.count cb + pending.count cb)) :
    added.Perm (executed ++ dropped ++ (rest ++ calls.flatMap LoopPc.rest) ++ pending) := by
  rw [List.perm_iff_count]
  intro cb
  have hold := h.conserved.count_eq cb
  have hnew := hcount cb
  rw [hcalls, List.flatMap_cons] at hold
  simp only [List.count_append] at hold ⊢
  omega

theorem head_inv {w : Watch} {thread : IOThread} {results : List EpollResult}
    {calls : List LoopPc} (h : w.Inv) (hcalls : w.thread.calls = .head :: calls)
    (hs : w.thread.advance results = some thread) :
    (w.record (.advance results) thread).Inv := by
  obtain ⟨ρ, rounds, hr, -, hout, -, hbatches⟩ := exists_round h hcalls
  have hentered := entered_of_calls h hcalls
  rw [IOThread.advance, hcalls] at hs
  dsimp only at hs
  rw [record_head hcalls, hr, List.tail_cons]
  by_cases hflag : w.thread.m_event_loop.m_stop_flag = true
  · rw [if_pos hflag] at hs ⊢
    cases hs
    refine ⟨h.queue, ?_, hbatches, fun hno => absurd hno hentered, stack_of_outer hout,
      h.finished⟩
    have hconserved := h.conserved
    rw [hcalls] at hconserved
    exact hconserved
  · -- The queue goes over to the call as a whole.
    rw [if_neg hflag] at hs ⊢
    cases hs
    refine ⟨?_, ?_, ?_, fun hno => absurd hno hentered, ⟨⟨rfl, rfl, rfl, rfl⟩, hout⟩, h.finished⟩
    · exact h.queue.trans (List.append_nil _).symm
    · refine conserved_of_count h hcalls w.thread.m_event_loop.m_pending_tasks
        fun cb => ?_
      dsimp only [LoopPc.rest]
      rw [List.count_nil]
      omega
    · refine List.forall_mem_cons.mpr ⟨(List.suffix_append _ _).isInfix, fun ρ' hmem => ?_⟩
      exact (hbatches ρ' hmem).trans (List.prefix_append _ _).isInfix

theorem tasks_nil_inv {w : Watch} {thread : IOThread} {results : List EpollResult}
    {calls : List LoopPc} (h : w.Inv) (hcalls : w.thread.calls = .tasks [] :: calls)
    (hs : w.thread.advance results = some thread) :
    (w.record (.advance results) thread).Inv := by
  obtain ⟨ρ, rounds, hr, hρ, hout, hbatch, hbatches⟩ := exists_round h hcalls
  have hentered := entered_of_calls h hcalls
  rw [IOThread.advance, hcalls] at hs
  cases hs
  rw [record_tasks_nil hcalls, hr, List.modifyHead_cons]
  refine ⟨h.queue, ?_, List.forall_mem_cons.mpr ⟨hbatch, hbatches⟩,
    fun hno => absurd hno hentered, ⟨?_, hout⟩, h.finished⟩
  · exact conserved_of_count h hcalls [] fun cb => rfl
  · have hall : ρ.ran = ρ.batch := by rw [hρ.batch, List.append_nil]
    exact ⟨⟨[], by rw [List.append_nil, hall]⟩, fun _ => hall,
      fun hs => absurd (hρ.stopped.symm.trans hs) Bool.false_ne_true,
      [], rfl, by rw [hρ.appended]; exact List.nil_prefix, fun _ => hρ.appended,
      fun r hr => absurd hr List.not_mem_nil⟩

theorem tasks_cons_inv {w : Watch} {thread : IOThread} {results : List EpollResult}
    {cb : Callback} {tmp_tasks : List Callback} {calls : List LoopPc} (h : w.Inv)
    (hcalls : w.thread.calls = .tasks (cb :: tmp_tasks) :: calls)
    (hs : w.thread.advance results = some thread) :
    (w.record (.advance results) thread).Inv := by
  obtain ⟨ρ, rounds, hr, hρ, hout, hbatch, hbatches⟩ := exists_round h hcalls
  have hentered := entered_of_calls h hcalls
  rw [IOThread.advance, hcalls] at hs
  dsimp only at hs
  rw [record_tasks_cons hcalls, hr, List.modifyHead_cons, List.modifyHead_cons]
  by_cases hflag : w.thread.m_event_loop.m_stop_flag = true
  · rw [if_pos hflag] at hs ⊢
    cases hs
    refine ⟨h.queue, ?_, List.forall_mem_cons.mpr ⟨hbatch, hbatches⟩,
      fun hno => absurd hno hentered, ⟨?_, hout⟩, h.finished⟩
    · refine conserved_of_count h hcalls [] fun cb' => ?_
      dsimp only [LoopPc.rest]
      rw [List.count_append, List.count_nil]
      omega
    · exact ⟨⟨_, hρ.batch.symm⟩, fun hno => absurd hno.symm Bool.false_ne_true, fun _ => hflag,
        [], rfl, by rw [hρ.appended]; exact List.nil_prefix, fun _ => hρ.appended,
        fun r hr => absurd hr List.not_mem_nil⟩
  · rw [if_neg hflag] at hs ⊢
    cases hs
    refine ⟨h.queue, ?_, List.forall_mem_cons.mpr ⟨hbatch, hbatches⟩,
      fun hno => absurd hno hentered, ⟨?_, hout⟩, h.finished⟩
    · refine conserved_of_count h hcalls tmp_tasks fun cb' => ?_
      dsimp only [LoopPc.rest]
      rw [List.count_append, List.count_cons, List.count_singleton]
      omega
    · exact ⟨by rw [hρ.batch, List.append_assoc]; rfl, hρ.results, hρ.appended, hρ.stopped⟩

theorem task_inv {w : Watch} {thread : IOThread} {results : List EpollResult}
    {tmp_tasks : List Callback} {calls : List LoopPc} (h : w.Inv)
    (hcalls : w.thread.calls = .task tmp_tasks :: calls)
    (hs : w.thread.advance results = some thread) :
    (w.record (.advance results) thread).Inv := by
  obtain ⟨ρ, rounds, hr, hρ, hout, hbatch, hbatches⟩ := exists_round h hcalls
  have hentered := entered_of_calls h hcalls
  rw [IOThread.advance, hcalls] at hs
  cases hs
  rw [record_task hcalls, fresh, List.drop_length, List.append_nil, hr]
  refine ⟨h.queue, ?_, List.forall_mem_cons.mpr ⟨hbatch, hbatches⟩,
    fun hno => absurd hno hentered, ⟨hρ, hout⟩, h.finished⟩
  exact conserved_of_count h hcalls tmp_tasks fun cb => rfl

theorem results_nil_inv {w : Watch} {thread : IOThread} {results : List EpollResult}
    {calls : List LoopPc} (h : w.Inv) (hcalls : w.thread.calls = .results [] :: calls)
    (hs : w.thread.advance results = some thread) :
    (w.record (.advance results) thread).Inv := by
  obtain ⟨ρ, rounds, hr, hρ, hout, hbatch, hbatches⟩ := exists_round h hcalls
  have hentered := entered_of_calls h hcalls
  rw [IOThread.advance, hcalls] at hs
  cases hs
  rw [record_results_nil hcalls, hr, List.head?_cons, Option.map_some, Option.toList_some]
  refine ⟨h.queue, ?_, ?_, fun hno => absurd hno hentered, ⟨trivial, hout⟩, ?_⟩
  · exact conserved_of_count h hcalls [] fun cb => rfl
  · rw [← List.append_assoc]
    refine List.forall_mem_append.mpr ⟨List.forall_mem_cons.mpr ⟨hbatch, hbatches⟩, ?_⟩
    exact List.forall_mem_singleton.mpr hbatch
  · intro ρ' hmem
    rcases List.mem_append.mp hmem with hold | hnew
    · exact h.finished ρ' hold
    · obtain ⟨seen, hres, happ, hall, hleft⟩ := hρ.seen
      rw [List.append_nil] at hres
      rw [List.mem_singleton.mp hnew]
      subst hres
      exact ⟨hρ.ran, hρ.allRan, happ, hall, hleft⟩

theorem results_cons_inv {w : Watch} {thread : IOThread} {results rest : List EpollResult}
    {r : EpollResult} {calls : List LoopPc} (h : w.Inv)
    (hcalls : w.thread.calls = .results (r :: rest) :: calls)
    (hs : w.thread.advance results = some thread) :
    (w.record (.advance results) thread).Inv := by
  obtain ⟨ρ, rounds, hr, hρ, hout, hbatch, hbatches⟩ := exists_round h hcalls
  have hentered := entered_of_calls h hcalls
  rw [IOThread.advance, hcalls] at hs
  cases hs
  have hfresh : fresh w.thread.m_event_loop (w.thread.m_event_loop.dispatch r)
      = w.thread.m_event_loop.accepts r.handlers := by
    rw [fresh, Eventloop.dispatch_pending, List.drop_left]
  rw [record_results_cons hcalls, hr, List.modifyHead_cons, hfresh]
  refine ⟨?_, ?_, List.forall_mem_cons.mpr ⟨hbatch, hbatches⟩,
    fun hno => absurd hno hentered, ⟨?_, hout⟩, h.finished⟩
  · dsimp only
    rw [Eventloop.dispatch_pending, h.queue, List.append_assoc]
  · refine conserved_of_count h hcalls [] fun cb => ?_
    dsimp only [LoopPc.rest]
    rw [Eventloop.dispatch_pending, List.count_append, List.count_append]
    omega
  · exact hρ.dispatch

theorem advance_inv {w : Watch} {thread : IOThread} {results : List EpollResult} (h : w.Inv)
    (hs : w.thread.advance results = some thread) :
    (w.record (.advance results) thread).Inv := by
  cases hcalls : w.thread.calls with
  | nil =>
    rw [IOThread.advance, hcalls] at hs
    cases hs
  | cons pc calls =>
    cases pc with
    | head => exact head_inv h hcalls hs
    | tasks tmp_tasks =>
      cases tmp_tasks with
      | nil => exact tasks_nil_inv h hcalls hs
      | cons cb tmp_tasks => exact tasks_cons_inv h hcalls hs
    | task tmp_tasks => exact task_inv h hcalls hs
    | results rest =>
      cases rest with
      | nil => exact results_nil_inv h hcalls hs
      | cons r rest => exact results_cons_inv h hcalls hs

theorem step_inv {w w' : Watch} {op : LoopOp} (h : w.Inv) (hs : w.step op = some w') :
    w'.Inv := by
  obtain ⟨thread, hthread, rfl⟩ := Option.map_eq_some_iff.mp hs
  cases op with
  | advance results => exact advance_inv h hthread
  | start =>
    cases hthread
    exact inv_of_append h rfl rfl List.prefix_rfl h.stack
  | stop =>
    cases hthread
    exact inv_of_append h rfl rfl List.prefix_rfl
      (stack_congr (l := w.thread.m_event_loop) (fun _ => rfl) rfl h.stack)
  | stopLoop =>
    cases hthread
    exact inv_of_append h rfl rfl List.prefix_rfl
      (stack_congr (l := w.thread.m_event_loop) (fun _ => rfl) rfl h.stack)
  | addTask cb =>
    cases hthread
    refine inv_of_append h rfl rfl ?_ (stack_congr (fun hf => ?_) ?_ h.stack)
    · exact ⟨_, (Eventloop.addTask_pending _ cb).symm⟩
    · exact (Eventloop.addTask_stop_flag _ cb).trans hf
    · exact Eventloop.addHandler_listen_fds _ (some cb)
  | act action =>
    obtain ⟨htask, hthread⟩ := Option.ite_none_right_eq_some.mp hthread
    cases hthread
    refine inv_of_append h rfl rfl ?_ (stack_of_outer (outer_of_inTask h htask))
    exact ⟨[], by rw [List.append_nil]; exact (apply_pending _ action).symm⟩
  | main =>
    obtain ⟨hstarted, hthread⟩ := Option.ite_none_right_eq_some.mp hthread
    cases hthread
    have hentered : w.thread.entered = false := by simpa using (Bool.and_eq_true_iff.mp hstarted).2
    have hstack := h.stack
    rw [h.entered hentered] at hstack
    have hout : Outer w.thread.calls w.rounds := by
      rw [h.entered hentered]
      cases hr : w.rounds with
      | nil => exact .nil
      | cons ρ rounds =>
        rw [hr] at hstack
        exact hstack.elim
    exact loop_inv h hout rfl rfl rfl
  | loop =>
    obtain ⟨htask, hthread⟩ := Option.ite_none_right_eq_some.mp hthread
    cases hthread
    have hout := outer_of_inTask h htask
    refine loop_inv h hout rfl rfl ?_
    cases hentered : w.thread.entered with
    | true => rfl
    | false =>
      rw [IOThread.inTask, h.entered hentered] at htask
      cases htask

/-- The tasks that were taken and not yet reached. -/
def waiting (w : Watch) : List Callback := w.thread.calls.flatMap LoopPc.rest

/-- **Every round is in order**: it runs tasks in the order they were added, each once, and
queues the handlers of its results in order, all of them unless a stop is requested; and every
task that was added is accounted for once. -/
theorem rounds_inOrder {loop : Eventloop} {w : Watch} {ops : List LoopOp}
    (hrun : Run (fun w op w' => step w op = some w') (start loop) ops w) :
    (∀ ρ ∈ w.finished, ρ.InOrder ∧ ρ.batch <:+: w.added) ∧
    w.added = w.taken ++ w.thread.m_event_loop.m_pending_tasks ∧
    w.added.Perm (w.executed ++ w.dropped ++ w.waiting
      ++ w.thread.m_event_loop.m_pending_tasks) := by
  have h : w.Inv := hrun.invariant (I := Inv) step_inv
    ⟨rfl, List.Perm.refl _, nofun, fun _ => rfl, trivial, nofun⟩
  refine ⟨fun ρ hρ => ⟨h.finished ρ hρ, ?_⟩, h.queue, h.conserved⟩
  rw [h.queue]
  exact (h.batches ρ (List.mem_append_right _ hρ)).trans (List.prefix_append _ _).isInfix

/-- A descriptor with a handler for each event. -/
def watched : FdEvent where
  m_fd := 7
  m_read_callback := some (.onRead 7)
  m_write_callback := some (.onWrite 7)
  m_error_callback := some (.clear 7)

/-- A round with a task before `epoll_wait` and a peer that closed behind it. -/
def hangUp : List LoopOp :=
  [.start, .addTask .onWakeup, .main, .advance [], .advance [], .advance [],
    .advance [{ fd_event := watched, EPOLLIN := true, EPOLLOUT := true, EPOLLRDHUP := true }],
    .advance [], .advance []]

theorem rounds_inOrder_hang_up : ∃ w : Watch, w.added = [.onWakeup, .onRead 7, .clear 7] ∧
    w.finished ≠ [] ∧ (∀ ρ ∈ w.finished, ρ.InOrder ∧ ρ.batch <:+: w.added) ∧
    w.added.Perm (w.executed ++ w.dropped ++ w.waiting
      ++ w.thread.m_event_loop.m_pending_tasks) := by
  obtain ⟨w, hw, h⟩ := (Option.any_eq_true _ _).mp
    (by decide +kernel : (List.foldlM step (start {}) hangUp).any (fun w =>
      decide (w.added = [.onWakeup, .onRead 7, .clear 7]) && w.finished.length = 1) = true)
  simp only [Bool.and_eq_true, decide_eq_true_eq] at h
  obtain ⟨hfin, -, hperm⟩ := rounds_inOrder (Run.of_foldlM hw)
  exact ⟨w, h.1, List.ne_nil_of_length_pos (by omega), hfin, hperm⟩

/-- A stop while the round waits: the handlers of its result are not queued. -/
theorem stop_before_results : ∃ w : Watch, Run (fun w op w' => step w op = some w') (start {})
      (hangUp.take 7 ++ .stop :: hangUp.drop 7) w ∧
    ∃ ρ ∈ w.finished, ρ.results.flatMap EpollResult.handlers = [.onRead 7, .clear 7] ∧
      ρ.appended = [] := by
  obtain ⟨w, hw, h⟩ := (Option.any_eq_true _ _).mp
    (by decide +kernel : (List.foldlM step (start {})
      (hangUp.take 7 ++ .stop :: hangUp.drop 7)).any (fun w => w.finished.any fun ρ =>
        decide (ρ.results.flatMap EpollResult.handlers = [.onRead 7, .clear 7]) &&
          decide (ρ.appended = [])) = true)
  obtain ⟨ρ, hρ, h⟩ := List.any_eq_true.mp h
  simp only [Bool.and_eq_true, decide_eq_true_eq] at h
  exact ⟨w, Run.of_foldlM hw, ρ, hρ, h.1, h.2⟩

end Watch

end KaiRPC
