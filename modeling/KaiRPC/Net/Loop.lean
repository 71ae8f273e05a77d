import KaiRPC.Lib.Run
import KaiRPC.Tcp.Client

/-!
# The loop of an IO thread

`Eventloop::loop` (`net/eventloop.cc`) as the thread of `net/iothread.cc` runs it.  A task
may run `loop` again (`TcpClient::connect` does when the loop is not looping), so the state
holds one `LoopPc` per call that has not returned, the innermost first.

* `dispatch` is what a round does with one result of `epoll_wait`; `advance` is the next
  thing the innermost call does.
* `requested` and `lateRounds` only watch: a `stop()` of the thread, its group or the owner
  has returned, and the number of rounds begun after that.
* `stop_never_lost`: **once a stop was requested no call of `loop` begins a round, and all
  of them return, in every run in which no task constructs a `TcpClient` after the request.**
* `newClient_forgets`: a task that does so makes its loop begin a round again.
-/

namespace KaiRPC

/-- One result of `epoll_wait` on the fd event in its `data.ptr`. -/
structure EpollResult where
  fd_event : FdEvent
  EPOLLIN : Bool := false
  EPOLLOUT : Bool := false
  EPOLLERR : Bool := false
  EPOLLHUP : Bool := false
  EPOLLRDHUP : Bool := false
deriving DecidableEq, Repr

def EpollResult.is_terminal (r : EpollResult) : Bool := r.EPOLLERR || r.EPOLLHUP || r.EPOLLRDHUP

namespace Eventloop

/-- `addTask(handler)`.  The loop skips a null callback, so it is not queued here. -/
def addHandler (l : Eventloop) (handler : Option Callback) : Eventloop :=
  match handler with
  | some cb => l.addTask cb
  | none => l

def dispatch (l : Eventloop) (r : EpollResult) : Eventloop :=
  let l := if r.EPOLLIN then l.addHandler (r.fd_event.handler .IN_EVENT) else l
  let l := if r.EPOLLOUT && !r.is_terminal then l.addHandler (r.fd_event.handler .OUT_EVENT)
    else l
  if r.is_terminal then
    (l.deleteEpollEvent r.fd_event).addHandler (r.fd_event.handler .ERROR_EVENT)
  else l

@[simp] theorem addTask_stop_flag (l : Eventloop) (cb : Callback) :
    (l.addTask cb).m_stop_flag = l.m_stop_flag := by
  rw [addTask]
  split <;> rfl

@[simp] theorem addHandler_stop_flag (l : Eventloop) (handler : Option Callback) :
    (l.addHandler handler).m_stop_flag = l.m_stop_flag := by
  cases handler with
  | none => rfl
  | some cb => exact l.addTask_stop_flag cb

@[simp] theorem addEpollEvent_stop_flag (l : Eventloop) (event : FdEvent) (grant : Bool) :
    (l.addEpollEvent event grant).m_stop_flag = l.m_stop_flag := by
  rw [addEpollEvent]
  split <;> rfl

@[simp] theorem deleteEpollEvent_stop_flag (l : Eventloop) (event : FdEvent) :
    (l.deleteEpollEvent event).m_stop_flag = l.m_stop_flag := by
  rw [deleteEpollEvent]
  split <;> rfl

@[simp] theorem addTimerEvent_stop_flag (l : Eventloop) (event : Nat) (now : Int) :
    (l.addTimerEvent event now).m_stop_flag = l.m_stop_flag := by
  rw [addTimerEvent]
  split <;> rfl

@[simp] theorem dispatch_stop_flag (l : Eventloop) (r : EpollResult) :
    (l.dispatch r).m_stop_flag = l.m_stop_flag := by
  have hin : (if r.EPOLLIN then l.addHandler (r.fd_event.handler .IN_EVENT) else l).m_stop_flag
      = l.m_stop_flag := by
    split
    · exact l.addHandler_stop_flag _
    · rfl
  rw [dispatch]
  split <;> split <;> simp [hin]

end Eventloop

/-! ### What a task does to its loop -/

inductive TaskAction
  | newClient (self fd : Nat)
  /-- `TcpClient::stop`, at the end of an attempt. -/
  | clientStop
  | addEpollEvent (event : FdEvent) (grant : Bool)
  | deleteEpollEvent (event : FdEvent)
  | addTimerEvent (event : Nat) (now : Int)
  | deleteTimerEvent (event : Nat)

namespace TaskAction

def apply (l : Eventloop) : TaskAction → Eventloop
  | .newClient self fd => (TcpClient.new self fd l : TcpClient Unit Unit Unit).endpoint.m_event_loop
  | .clientStop => if l.m_is_looping then l.stop else l
  | .addEpollEvent event grant => l.addEpollEvent event grant
  | .deleteEpollEvent event => l.deleteEpollEvent event
  | .addTimerEvent event now => l.addTimerEvent event now
  | .deleteTimerEvent event => l.deleteTimerEvent event

def IsNewClient : TaskAction → Prop
  | .newClient .. => True
  | _ => False

instance (a : TaskAction) : Decidable a.IsNewClient :=
  match a with
  | .newClient .. => instDecidableTrue
  | .clientStop | .addEpollEvent .. | .deleteEpollEvent _ | .addTimerEvent .. |
    .deleteTimerEvent _ => instDecidableFalse

/-- Only the constructor of a client takes a stop back. -/
theorem apply_stop_flag {l : Eventloop} {a : TaskAction} (h : l.m_stop_flag = true)
    (ha : ¬ a.IsNewClient) : (a.apply l).m_stop_flag = true := by
  cases a with
  | newClient self fd => exact absurd trivial ha
  | clientStop =>
    dsimp only [apply]
    split
    · rfl
    · exact h
  | addEpollEvent event grant => exact (l.addEpollEvent_stop_flag event grant).trans h
  | deleteEpollEvent event => exact (l.deleteEpollEvent_stop_flag event).trans h
  | addTimerEvent event now => exact (l.addTimerEvent_stop_flag event now).trans h
  | deleteTimerEvent event => exact h

end TaskAction

/-! ### The thread -/

/-- Where a call of `loop` is. -/
inductive LoopPc
  /-- At the condition of the outer loop. -/
  | head
  /-- At the condition of the inner loop, with `tmp_tasks`. -/
  | tasks (tmp_tasks : List Callback)
  /-- In `cb()`. -/
  | task (tmp_tasks : List Callback)
  /-- Behind `epoll_wait`, with the results not yet looked at. -/
  | results (rest : List EpollResult)
deriving DecidableEq, Repr

/-- The steps a call has left once the flag is set. -/
def LoopPc.left : LoopPc → Nat
  | .head => 1
  | .results rest => rest.length + 2
  | .tasks _ => 3
  | .task _ => 4

structure IOThread where
  m_event_loop : Eventloop := {}
  m_started : Bool := false
  /-- `Main` has called `loop`. -/
  entered : Bool := false
  calls : List LoopPc := []
  requested : Bool := false
  lateRounds : Nat := 0

namespace IOThread

/-- `Eventloop::stop` by the owner of the loop. -/
def stopLoop (w : IOThread) : IOThread :=
  { w with m_event_loop := w.m_event_loop.stop, requested := true }

/-- `IOThread::stop`, and `IOThreadGroup::stop` on each of its threads. -/
def stop (w : IOThread) : IOThread := { w.stopLoop with m_started := true }

/-- The call of `Eventloop::loop`. -/
def loop (w : IOThread) : IOThread :=
  if w.m_event_loop.m_stop_flag then
    { w with m_event_loop := { w.m_event_loop with m_is_looping := false } }
  else
    { w with
      m_event_loop := { w.m_event_loop with m_is_looping := true }
      calls := .head :: w.calls }

/-- The innermost call goes on; `epoll_wait` returns `results` where it is called. -/
def advance (w : IOThread) (results : List EpollResult) : Option IOThread :=
  match w.calls with
  | [] => none
  | .head :: calls =>
      if w.m_event_loop.m_stop_flag then
        some { w with m_event_loop := { w.m_event_loop with m_is_looping := false }, calls }
      else
        some { w with
          m_event_loop := { w.m_event_loop with m_pending_tasks := [] }
          calls := .tasks w.m_event_loop.m_pending_tasks :: calls
          lateRounds := if w.requested then w.lateRounds + 1 else w.lateRounds }
  | .tasks [] :: calls => some { w with calls := .results results :: calls }
  | .tasks (_ :: tmp_tasks) :: calls =>
      if w.m_event_loop.m_stop_flag then some { w with calls := .results results :: calls }
      else some { w with calls := .task tmp_tasks :: calls }
  | .task tmp_tasks :: calls => some { w with calls := .tasks tmp_tasks :: calls }
  | .results [] :: calls => some { w with calls := .head :: calls }
  | .results (r :: rest) :: calls =>
      some { w with m_event_loop := w.m_event_loop.dispatch r, calls := .results rest :: calls }

/-- The innermost call is in a task. -/
def inTask (w : IOThread) : Bool :=
  match w.calls with
  | .task _ :: _ => true
  | _ => false

end IOThread

inductive LoopOp
  | start
  | stop
  | stopLoop
  | addTask (cb : Callback)
  /-- `Main` gets past the start semaphore. -/
  | main
  | advance (results : List EpollResult)
  | act (action : TaskAction)
  /-- A task calls `loop`. -/
  | loop

namespace IOThread

def step (w : IOThread) : LoopOp → Option IOThread
  | .start => some { w with m_started := true }
  | .stop => some w.stop
  | .stopLoop => some w.stopLoop
  | .addTask cb => some { w with m_event_loop := w.m_event_loop.addTask cb }
  | .main => if w.m_started && !w.entered then some { w with entered := true }.loop else none
  | .advance results => w.advance results
  | .act action =>
      if w.inTask then some { w with m_event_loop := action.apply w.m_event_loop } else none
  | .loop => if w.inTask then some w.loop else none

/-- No client is constructed once a stop was requested. -/
def HonoursStop (w : IOThread) : LoopOp → Prop
  | .act action => action.IsNewClient → w.requested = false
  | _ => True

instance (w : IOThread) (op : LoopOp) : Decidable (w.HonoursStop op) :=
  match op with
  | .act action => inferInstanceAs (Decidable (action.IsNewClient → w.requested = false))
  | .start | .stop | .stopLoop | .addTask _ | .main | .advance _ | .loop => instDecidableTrue

/-- A requested stop is in the flag. -/
def Inv (w : IOThread) : Prop :=
  (w.requested = true → w.m_event_loop.m_stop_flag = true) ∧ w.lateRounds = 0

theorem loop_inv {w : IOThread} (h : w.Inv) : w.loop.Inv := by
  rw [loop]
  split
  · exact h
  · exact h

theorem advance_inv {w w' : IOThread} {results : List EpollResult} (h : w.Inv)
    (hs : w.advance results = some w') : w'.Inv := by
  obtain ⟨hreq, hlate⟩ := h
  rw [advance] at hs
  split at hs
  · cases hs
  · split at hs
    · cases hs
      exact ⟨hreq, hlate⟩
    · -- A round begins: the flag is not set, so no stop was requested.
      rename_i hflag
      have hno : w.requested = false := by
        cases hr : w.requested with
        | false => rfl
        | true => exact absurd (hreq hr) hflag
      cases hs
      refine ⟨hreq, ?_⟩
      rw [if_neg (by simp [hno])]
      exact hlate
  · cases hs
    exact ⟨hreq, hlate⟩
  · split at hs <;> cases hs <;> exact ⟨hreq, hlate⟩
  · cases hs
    exact ⟨hreq, hlate⟩
  · cases hs
    exact ⟨hreq, hlate⟩
  · cases hs
    exact ⟨fun hr => (Eventloop.dispatch_stop_flag _ _).trans (hreq hr), hlate⟩

theorem step_inv {w w' : IOThread} {op : LoopOp} (h : w.Inv)
    (hs : w.HonoursStop op ∧ w.step op = some w') : w'.Inv := by
  obtain ⟨hhon, hstep⟩ := hs
  cases op with
  | start =>
    cases hstep
    exact h
  | stop =>
    cases hstep
    exact ⟨fun _ => rfl, h.2⟩
  | stopLoop =>
    cases hstep
    exact ⟨fun _ => rfl, h.2⟩
  | addTask cb =>
    cases hstep
    exact ⟨fun hr => (Eventloop.addTask_stop_flag _ cb).trans (h.1 hr), h.2⟩
  | main =>
    obtain ⟨_, hstep⟩ := Option.ite_none_right_eq_some.mp hstep
    cases hstep
    exact loop_inv h
  | advance results => exact advance_inv h hstep
  | act action =>
    obtain ⟨_, hstep⟩ := Option.ite_none_right_eq_some.mp hstep
    cases hstep
    refine ⟨fun hr => TaskAction.apply_stop_flag (h.1 hr) fun hnew => ?_, h.2⟩
    rw [hhon hnew] at hr
    cases hr
  | loop =>
    obtain ⟨_, hstep⟩ := Option.ite_none_right_eq_some.mp hstep
    cases hstep
    exact loop_inv h

/-! ### A stopped loop returns -/

/-- The steps until every call of a stopped loop has returned. -/
def left (w : IOThread) : Nat := w.calls.foldr (fun pc k => pc.left + k) 0

theorem calls_eq_nil {w : IOThread} (h : w.left = 0) : w.calls = [] := by
  cases hcalls : w.calls with
  | nil => rfl
  | cons pc calls =>
    rw [left, hcalls, List.foldr_cons] at h
    cases pc <;> simp [LoopPc.left] at h

theorem advance_stopped (w : IOThread) (h : w.m_event_loop.m_stop_flag = true)
    (hleft : w.left ≠ 0) :
    ∃ w', w.step (.advance []) = some w' ∧ w'.m_event_loop.m_stop_flag = true ∧
      w'.left < w.left := by
  cases hcalls : w.calls with
  | nil => exact absurd (by rw [left, hcalls]; rfl) hleft
  | cons pc calls =>
    have hsum : w.left = pc.left + calls.foldr (fun pc k => pc.left + k) 0 := by
      rw [left, hcalls, List.foldr_cons]
    dsimp only [step]
    rw [advance, hcalls, hsum]
    cases pc with
    | head => exact ⟨_, if_pos h, h, by simp [left, LoopPc.left]⟩
    | tasks tmp_tasks =>
      cases tmp_tasks with
      | nil => exact ⟨_, rfl, h, by simp [left, LoopPc.left]⟩
      | cons cb tmp_tasks => exact ⟨_, if_pos h, h, by simp [left, LoopPc.left]⟩
    | task tmp_tasks => exact ⟨_, rfl, h, by simp [left, LoopPc.left]⟩
    | results rest =>
      cases rest with
      | nil => exact ⟨_, rfl, h, by simp [left, LoopPc.left]⟩
      | cons r rest =>
        exact ⟨_, rfl, (Eventloop.dispatch_stop_flag _ r).trans h, by simp [left, LoopPc.left]⟩

/-- Every call of `loop` returns when the thread goes on. -/
def Returns (w : IOThread) : Prop :=
  ∃ n w', Run (fun w op w' => step w op = some w') w (List.replicate n (.advance [])) w' ∧
    w'.calls = []

theorem returns_of_stopped {w : IOThread} (h : w.m_event_loop.m_stop_flag = true) : w.Returns := by
  obtain ⟨n, w', hrun, _, hleft⟩ := Run.exists_of_measure
    (R := fun w op w' => step w op = some w') (e := .advance [])
    (I := fun w : IOThread => w.m_event_loop.m_stop_flag = true) left advance_stopped w h
  exact ⟨n, w', hrun, calls_eq_nil hleft⟩

/-- **A requested stop is not lost** in a run in which no client is constructed after the
request: no round is begun, and the calls of `loop` return. -/
theorem stop_never_lost {loop : Eventloop} {w : IOThread} {ops : List LoopOp}
    (hrun : Run (fun w op w' => HonoursStop w op ∧ step w op = some w')
      { m_event_loop := loop } ops w) :
    w.lateRounds = 0 ∧ (w.requested = true → w.m_event_loop.m_stop_flag = true ∧ w.Returns) := by
  obtain ⟨hreq, hlate⟩ := hrun.invariant (I := Inv) step_inv ⟨nofun, rfl⟩
  exact ⟨hlate, fun hr => ⟨hreq hr, returns_of_stopped (hreq hr)⟩⟩

/-- The stop arrives while the thread is in its first task. -/
def stopInTask : List LoopOp :=
  [.start, .addTask .onWakeup, .main, .advance [], .advance [], .stop]

theorem stop_never_lost_in_task : ∃ w : IOThread, w.requested = true ∧ w.lateRounds = 0 ∧
    w.m_event_loop.m_stop_flag = true ∧ w.Returns := by
  obtain ⟨w, hw, hreq⟩ := (Option.any_eq_true _ _).mp
    (by decide +kernel : (List.foldlM (Run.guarded HonoursStop step) {}
      (stopInTask ++ [.act .clientStop, .advance []])).any (fun w => w.requested) = true)
  obtain ⟨hlate, hret⟩ := stop_never_lost (Run.of_guarded hw)
  exact ⟨w, hreq, hlate, hret hreq⟩

/-- The task then constructs a client, and the loop begins a round. -/
theorem stop_lost_after_newClient : ∃ w : IOThread,
    Run (fun w op w' => step w op = some w') {}
      (stopInTask ++
        [.act (.newClient 0 7), .advance [], .advance [], .advance [], .advance []]) w ∧
    w.requested = true ∧ w.lateRounds = 1 ∧ w.m_event_loop.m_stop_flag = false := by
  obtain ⟨w, hw, h⟩ := (Option.any_eq_true _ _).mp
    (by decide +kernel : (List.foldlM step {} (stopInTask ++ [.act (.newClient 0 7), .advance [],
      .advance [], .advance [], .advance []])).any (fun w => w.requested && w.lateRounds = 1 &&
        w.m_event_loop.m_stop_flag = false) = true)
  simp only [Bool.and_eq_true, decide_eq_true_eq] at h
  exact ⟨w, Run.of_foldlM hw, h.1.1, h.1.2, h.2⟩

theorem newClient_stop_flag (self fd : Nat) (l : Eventloop) :
    ((TaskAction.newClient self fd).apply l).m_stop_flag = false := by
  dsimp only [TaskAction.apply, TcpClient.new]
  split
  · rfl
  · rename_i h
    exact Bool.eq_false_iff.mpr h

/-- A loop whose flag is not set gets to its next round, whatever tasks are left. -/
theorem begins_round (tmp_tasks : List Callback) : ∀ {w : IOThread} {calls : List LoopPc},
    w.calls = .tasks tmp_tasks :: calls → w.m_event_loop.m_stop_flag = false →
    w.requested = true → ∃ n w', Run (fun w op w' => step w op = some w') w
      (List.replicate n (.advance [])) w' ∧ w'.lateRounds = w.lateRounds + 1 := by
  induction tmp_tasks with
  | nil =>
    intro w calls hcalls hflag hreq
    have h1 : w.step (.advance []) = some { w with calls := .results [] :: calls } := by
      dsimp only [step]
      rw [advance, hcalls]
    refine ⟨3, _, .cons h1 (.cons rfl (.cons (if_neg (by simp [hflag])) (.nil _))), ?_⟩
    exact if_pos hreq
  | cons cb tmp_tasks ih =>
    intro w calls hcalls hflag hreq
    have h1 : w.step (.advance []) = some { w with calls := .task tmp_tasks :: calls } := by
      dsimp only [step]
      rw [advance, hcalls]
      exact if_neg (by simp [hflag])
    obtain ⟨n, w', hrun, hlate⟩ := ih (w := { w with calls := .tasks tmp_tasks :: calls }) rfl
      hflag hreq
    exact ⟨n + 2, w', .cons h1 (.cons rfl hrun), hlate⟩

/-- **The condition is needed at every state**: a client constructed after the request makes
the loop begin another round. -/
theorem newClient_forgets {w : IOThread} (htask : w.inTask = true) (hreq : w.requested = true)
    (self fd : Nat) : ∃ n w', Run (fun w op w' => step w op = some w') w
      (.act (.newClient self fd) :: List.replicate n (.advance [])) w' ∧
      w'.lateRounds = w.lateRounds + 1 := by
  obtain ⟨tmp_tasks, calls, hcalls⟩ : ∃ tmp_tasks calls, w.calls = .task tmp_tasks :: calls := by
    rw [inTask] at htask
    split at htask
    · exact ⟨_, _, ‹_›⟩
    · cases htask
  have hact : w.step (.act (.newClient self fd)) = some { w with
      m_event_loop := (TaskAction.newClient self fd).apply w.m_event_loop } := if_pos htask
  have hend : ({ w with m_event_loop := (TaskAction.newClient self fd).apply w.m_event_loop } :
      IOThread).step (.advance []) = some { w with
        m_event_loop := (TaskAction.newClient self fd).apply w.m_event_loop
        calls := .tasks tmp_tasks :: calls } := by
    dsimp only [step]
    rw [advance]
    dsimp only
    rw [hcalls]
  obtain ⟨n, w', hrun, hlate⟩ := begins_round tmp_tasks (w := { w with
    m_event_loop := (TaskAction.newClient self fd).apply w.m_event_loop
    calls := .tasks tmp_tasks :: calls }) rfl (newClient_stop_flag self fd _) hreq
  exact ⟨n + 1, w', .cons hact (.cons hend hrun), hlate⟩

end IOThread

end KaiRPC
