import KaiRPC.Net.Rounds
import KaiRPC.Tcp.ClientActions

/-!
# A late connect callback

The connect callback of `net/tcp/tcp_client.cc` uses `m_fd_event` of its client without looking
whether `disconnect()` has released it.  Here are all clients of one loop: their callbacks in the
queue and in the batches of the calls of `loop`, the completions that disconnect a client and
stop the loop, and the constructor of the next client, which takes the stop back.

* `ClientLoop`: the thread of `Net/Loop.lean`, the fd event of each descriptor, the clients, and
  the connect callbacks that ran on a released client (`lateUses`).
* `HoldsStop`: the condition on a step.  No client is constructed while the connect callback of a
  released client is queued, and a client whose callback is queued is released by a completion
  that does stop the loop.
* `lateUses_eq_nil`: **in a run of such steps no connect callback uses a released fd event.**
* `late_connect_uses_released`: a timeout completes the call, its closure starts another call,
  and the connect callback behind it in the batch runs.
* `newClient_lets_late_run`: the condition on the constructor is needed in every state.
-/

namespace KaiRPC

/-! ### Clients on one loop -/

namespace IOThread

/-- Every task that was queued and has not been run. -/
def queued (t : IOThread) : List Callback :=
  t.calls.flatMap LoopPc.rest ++ t.m_event_loop.m_pending_tasks

/-- The task the next step of the loop calls. -/
def running (t : IOThread) : Option Callback :=
  match t.calls with
  | .tasks (cb :: _) :: _ => if t.m_event_loop.m_stop_flag then none else some cb
  | _ => none

end IOThread

/-- A client, and whether a `shared_ptr` still owns it. -/
structure HeldClient where
  client : TcpClient Unit Unit Unit
  alive : Bool := true

/-- The client was disconnected and is still there. -/
def HeldClient.isReleased (h : HeldClient) : Bool := h.alive && !h.client.m_fd_event

structure ClientLoop where
  thread : IOThread := {}
  /-- The fd event of each descriptor. -/
  m_fd_group : Int → FdEvent := fun fd => { m_fd := fd }
  /-- The clients in the order of their construction. -/
  clients : List HeldClient := []
  /-- The clients whose connect callback used a released fd event. -/
  lateUses : List Nat := []

inductive ClientLoopOp
  | newClient (fd : Nat)
  | act (c : Nat) (action : ClientAction)
  /-- The last `shared_ptr` goes; `~TcpClient` releases what `disconnect` does. -/
  | destroy (c : Nat)
  /-- The timer, the wakeup descriptor or another connection listens on its fd event. -/
  | register (event : FdEvent) (grant : Bool)
  /-- `StartCancel`, from any thread. -/
  | cancel (attempt : Nat)
  | stopLoop
  | loop
  /-- The loop goes on: `epoll_wait` returns `results`, a connect callback ends in `r`. -/
  | advance (results : List EpollResult) (r : ConnectResult) (completes : Bool)

namespace ClientLoop

/-- A client with the fd event and the loop as they are now. -/
def load (w : ClientLoop) (h : HeldClient) : TcpClient Unit Unit Unit :=
  { h.client with endpoint := { h.client.endpoint with
      m_fd_event := w.m_fd_group h.client.endpoint.m_fd_event.m_fd
      m_event_loop := w.thread.m_event_loop } }

def store (w : ClientLoop) (c : Nat) (alive : Bool) (k : TcpClient Unit Unit Unit) : ClientLoop :=
  { w with
    thread := { w.thread with m_event_loop := k.endpoint.m_event_loop }
    m_fd_group := Function.update w.m_fd_group k.endpoint.m_fd_event.m_fd k.endpoint.m_fd_event
    clients := w.clients.set c { client := k, alive } }

/-- The constructor. -/
def newClient (w : ClientLoop) (fd : Nat) : ClientLoop :=
  let k : TcpClient Unit Unit Unit := .new w.clients.length fd w.thread.m_event_loop
  { w with
    thread := { w.thread with m_event_loop := k.endpoint.m_event_loop }
    clients := w.clients ++ [{ client := k }] }

/-- The connect callback: the weak pointer is locked, the fd event is used as it is. -/
def connectCallback (w : ClientLoop) (c : Nat) (r : ConnectResult) (completes : Bool) :
    ClientLoop :=
  match w.clients[c]? with
  | none => w
  | some h =>
      if h.alive then
        if h.client.m_fd_event then w.store c true ((w.load h).connectCallback r completes)
        else { w with lateUses := w.lateUses ++ [c] }
      else w

/-- `epoll_wait` returns pointers to the fd events. -/
def reports (w : ClientLoop) (results : List EpollResult) : List EpollResult :=
  results.map fun r => { r with fd_event := w.m_fd_group r.fd_event.m_fd }

/-- The thread is in a task or outside its loop. -/
def inUserCode (w : ClientLoop) : Bool := w.thread.calls.isEmpty || w.thread.inTask

def step (w : ClientLoop) : ClientLoopOp → Option ClientLoop
  | .newClient fd => if w.inUserCode then some (w.newClient fd) else none
  | .act c action =>
      (w.clients[c]?).bind fun h =>
        if w.inUserCode && h.alive then some (w.store c true ((w.load h).act action)) else none
  | .destroy c =>
      (w.clients[c]?).bind fun h =>
        if w.inUserCode && h.alive then some (w.store c false (w.load h).disconnect) else none
  | .register event grant =>
      if w.inUserCode && event.callbacks.all (!·.isConnect) then
        some { w with
          thread := { w.thread with
            m_event_loop := w.thread.m_event_loop.addEpollEvent event grant }
          m_fd_group := Function.update w.m_fd_group event.m_fd event }
      else none
  | .cancel attempt => some { w with thread := { w.thread with
      m_event_loop := w.thread.m_event_loop.addTask (.cancel attempt) } }
  | .stopLoop => some { w with thread := w.thread.stopLoop }
  | .loop => if w.inUserCode then some { w with thread := w.thread.loop } else none
  | .advance results r completes =>
      if r.atOnce then none
      else (w.thread.advance (w.reports results)).map fun thread =>
        match w.thread.running with
        | some (.connect c) => { w with thread }.connectCallback c r completes
        | _ => { w with thread }

/-- The callback is the connect callback of a released client. -/
def isLate (w : ClientLoop) : Callback → Bool
  | .connect c => (w.clients[c]?).any HeldClient.isReleased
  | _ => false

/-- The step takes no stop back, and makes none without effect, that keeps a connect callback
from a released client. -/
def HoldsStop (w : ClientLoop) : ClientLoopOp → Prop
  | .newClient _ => ∀ cb ∈ w.thread.queued, w.isLate cb = false
  | .act c .finish => .connect c ∈ w.thread.queued →
      w.thread.m_event_loop.m_is_looping = true ∨ w.thread.m_event_loop.m_stop_flag = true
  | .advance _ r completes =>
      match w.thread.running with
      | some (.connect c) =>
          r.isFailure = true → 1 < w.thread.queued.count (.connect c) →
            completes = true ∧ w.thread.m_event_loop.m_is_looping = true
      | _ => True
  | _ => True

instance (w : ClientLoop) (op : ClientLoopOp) : Decidable (w.HoldsStop op) :=
  match op with
  | .newClient _ =>
      inferInstanceAs (Decidable (∀ cb ∈ w.thread.queued, w.isLate cb = false))
  | .act c .finish => inferInstanceAs (Decidable (.connect c ∈ w.thread.queued →
      w.thread.m_event_loop.m_is_looping = true ∨ w.thread.m_event_loop.m_stop_flag = true))
  | .advance _ r completes =>
      match h : w.thread.running with
      | some (.connect c) =>
          decidable_of_iff (r.isFailure = true → 1 < w.thread.queued.count (.connect c) →
            completes = true ∧ w.thread.m_event_loop.m_is_looping = true)
            (by simp only [HoldsStop, h])
      | none | some (.onRead _) | some (.onWrite _) | some (.clear _) | some (.cancel _) |
        some .onTimer | some .onWakeup => .isTrue (by simp only [HoldsStop, h])
  | .act _ (.connected _) | .act _ (.connecting _) | .act _ (.listenRead _) |
    .act _ (.listenWrite _) | .act _ .clear | .destroy _ | .register .. | .cancel _ | .stopLoop |
    .loop => instDecidableTrue

end ClientLoop

/-! ### The invariant -/

theorem EpollResult.mem_callbacks_of_handlers {r : EpollResult} {cb : Callback}
    (h : cb ∈ r.handlers) : cb ∈ r.fd_event.callbacks := by
  rw [handlers] at h
  rw [FdEvent.callbacks]
  rcases List.mem_append.mp h with h | h
  · rcases List.mem_append.mp h with h | h
    · split at h
      · exact List.mem_append_left _ (List.mem_append_left _ h)
      · cases h
    · split at h
      · exact List.mem_append_left _ (List.mem_append_right _ h)
      · cases h
  · split at h
    · exact List.mem_append_right _ h
    · cases h

namespace ClientLoop

structure Inv (w : ClientLoop) : Prop where
  group : ∀ fd, (w.m_fd_group fd).m_fd = fd
  clients : ∀ (c : Nat) (h : HeldClient), w.clients[c]? = some h →
    h.client.endpoint.conn.self = c ∧ (h.client.m_fd_event = true → 0 ≤ h.client.m_fd)
  /-- A connect callback is on the fd event of its client, and the client is not released. -/
  waits : ∀ fd c, .connect c ∈ (w.m_fd_group fd).callbacks → ∃ h : HeldClient,
    w.clients[c]? = some h ∧ h.client.endpoint.m_fd_event.m_fd = fd ∧ h.client.Waits c
  /-- Every call of `loop` but the innermost is in a task. -/
  outer : ∀ pc ∈ w.thread.calls.tail, ∃ rest, pc = .task rest
  results : ∀ rest calls, w.thread.calls = .results rest :: calls →
    ∀ r ∈ rest, ∀ cb ∈ r.fd_event.callbacks, w.isLate cb = false
  /-- The connect callback of a released client is queued only on a stopped loop. -/
  queued : ∀ cb ∈ w.thread.queued, w.isLate cb = true → w.thread.m_event_loop.m_stop_flag = true
  lateUses : w.lateUses = []

theorem isLate_iff {w : ClientLoop} {cb : Callback} : w.isLate cb = true ↔
    ∃ c h, cb = .connect c ∧ w.clients[c]? = some h ∧ h.isReleased = true := by
  constructor
  · intro hl
    cases cb with
    | connect c =>
      obtain ⟨h, hc, hr⟩ := (Option.any_eq_true _ _).mp hl
      exact ⟨c, h, rfl, hc, hr⟩
    | onRead _ | onWrite _ | clear _ | cancel _ | onTimer | onWakeup => cases hl
  · rintro ⟨c, h, rfl, hc, hr⟩
    exact (Option.any_eq_true _ _).mpr ⟨h, hc, hr⟩

theorem start_inv (loop : Eventloop) : Inv { thread := { m_event_loop := loop } } where
  group _ := rfl
  clients _ _ h := by cases h
  waits _ _ h := by cases h
  outer _ h := by cases h
  results _ _ h := by cases h
  queued cb _ hl := by
    obtain ⟨c, h, -, hc, -⟩ := isLate_iff.mp hl
    cases hc
  lateUses := rfl

theorem calls_ne_results {w : ClientLoop} (h : w.inUserCode = true) (rest : List EpollResult)
    (calls : List LoopPc) : w.thread.calls ≠ .results rest :: calls := by
  intro hcalls
  rw [inUserCode, IOThread.inTask, hcalls] at h
  cases h

theorem update_group_fd {group : Int → FdEvent} (h : ∀ fd, (group fd).m_fd = fd) (event : FdEvent)
    (fd : Int) : (Function.update group event.m_fd event fd).m_fd = fd := by
  rw [Function.update_apply]
  split
  · rename_i he
    exact he.symm
  · exact h fd

section Store

variable {w : ClientLoop} {c : Nat} {h : HeldClient} {k : TcpClient Unit Unit Unit} {alive : Bool}

theorem store_clients_self (hc : w.clients[c]? = some h) :
    (w.store c alive k).clients[c]? = some { client := k, alive } :=
  List.getElem?_set_self (List.getElem?_eq_some_iff.mp hc).1

theorem store_clients_ne {c' : Nat} (hne : c ≠ c') :
    (w.store c alive k).clients[c']? = w.clients[c']? :=
  List.getElem?_set_ne hne

theorem store_waits (hi : w.Inv) (hc : w.clients[c]? = some h) (hk : (w.load h).Keeps k)
    {fd : Int} {c' : Nat} (hcb : .connect c' ∈ ((w.store c alive k).m_fd_group fd).callbacks) :
    ∃ h' : HeldClient, (w.store c alive k).clients[c']? = some h' ∧
      h'.client.endpoint.m_fd_event.m_fd = fd ∧ h'.client.Waits c' := by
  have hfd : k.endpoint.m_fd_event.m_fd = h.client.endpoint.m_fd_event.m_fd :=
    hk.fd.trans (hi.group _)
  replace hcb : .connect c' ∈ (Function.update w.m_fd_group _ _ fd).callbacks := hcb
  rw [Function.update_apply] at hcb
  split at hcb
  · rename_i he
    rcases hk.callbacks c' hcb with hw | ⟨hold, hkeep⟩
    · -- The callback came onto the event now, so it is this client's.
      have hcc : c' = c := hw.1.trans (hk.self.trans (hi.clients c h hc).1)
      subst hcc
      exact ⟨_, store_clients_self hc, he.symm, hw⟩
    · obtain ⟨h', hc', hslot, hw⟩ := hi.waits _ c' hold
      by_cases hcc : c = c'
      · subst hcc
        cases Option.some.inj (hc.symm.trans hc')
        obtain ⟨hopen', hev'⟩ := hkeep hw.2.1
        exact ⟨_, store_clients_self hc, he.symm, hw.1.trans hk.self.symm, hopen',
          hev'.trans hw.2.2⟩
      · exact ⟨h', (store_clients_ne hcc).trans hc', hslot.trans (hfd.symm.trans he.symm), hw⟩
  · rename_i he
    obtain ⟨h', hc', hslot, hw⟩ := hi.waits fd c' hcb
    have hcc : c ≠ c' := by
      rintro rfl
      cases Option.some.inj (hc.symm.trans hc')
      exact he (hslot.symm.trans hfd.symm)
    exact ⟨h', (store_clients_ne hcc).trans hc', hslot, hw⟩

/-- **A client that acts as every action does** keeps the invariant, if it is released only where
its connect callback is not queued or the loop is stopped. -/
theorem store_inv (hi : w.Inv) (hc : w.clients[c]? = some h) (halive : h.alive = true)
    (huser : w.inUserCode = true) (hk : (w.load h).Keeps k)
    (hrel : alive = true → k.m_fd_event = h.client.m_fd_event ∨
      (.connect c ∈ w.thread.queued → k.endpoint.m_event_loop.m_stop_flag = true)) :
    (w.store c alive k).Inv := by
  have hqueued : (w.store c alive k).thread.queued = w.thread.queued :=
    congrArg (w.thread.calls.flatMap LoopPc.rest ++ ·) hk.tasks
  refine ⟨fun fd => ?_, fun c' h' hc' => ?_, fun fd c' hcb => store_waits hi hc hk hcb, hi.outer,
    fun rest calls hcalls => absurd hcalls (calls_ne_results huser rest calls),
    fun cb hcb hl => ?_, hi.lateUses⟩
  · exact update_group_fd hi.group _ fd
  · by_cases hcc : c = c'
    · subst hcc
      obtain ⟨hself, hopen⟩ := hi.clients c h hc
      cases Option.some.inj ((store_clients_self hc).symm.trans hc')
      exact ⟨hk.self.trans hself, hk.opened hopen⟩
    · exact hi.clients c' h' ((store_clients_ne hcc).symm.trans hc')
  · obtain ⟨c', h', rfl, hc', hr⟩ := isLate_iff.mp hl
    rw [hqueued] at hcb
    by_cases hcc : c = c'
    · subst hcc
      cases Option.some.inj ((store_clients_self hc).symm.trans hc')
      obtain ⟨ha, hev⟩ := Bool.and_eq_true_iff.mp hr
      rcases hrel ha with hsame | hstop
      · -- The client was released before, so the loop was stopped.
        refine hk.stop_flag (hi.queued _ hcb (isLate_iff.mpr ⟨c, h, rfl, hc, ?_⟩))
        rw [HeldClient.isReleased, halive, ← hsame]
        exact hev
      · exact hstop hcb
    · exact hk.stop_flag
        (hi.queued _ hcb (isLate_iff.mpr ⟨c', h', rfl, (store_clients_ne hcc).symm.trans hc', hr⟩))

end Store

theorem inv_of_thread {w : ClientLoop} (hi : w.Inv) {thread : IOThread}
    (houter : ∀ pc ∈ thread.calls.tail, ∃ rest, pc = .task rest)
    (hresults : ∀ rest calls, thread.calls = .results rest :: calls →
      ∀ r ∈ rest, ∀ cb ∈ r.fd_event.callbacks, w.isLate cb = false)
    (hqueued : ∀ cb ∈ thread.queued, w.isLate cb = true →
      thread.m_event_loop.m_stop_flag = true) : Inv { w with thread } :=
  ⟨hi.group, hi.clients, hi.waits, houter, hresults, hqueued, hi.lateUses⟩

/-- What the loop does with its calls and its tasks in one step. -/
structure Advanced (t t' : IOThread) (results : List EpollResult) : Prop where
  stop_flag : t'.m_event_loop.m_stop_flag = t.m_event_loop.m_stop_flag
  tail : ∀ pc ∈ t'.calls.tail, pc ∈ t.calls.tail
  queued : ∀ cb ∈ t'.queued, cb ∈ t.queued ∨
    ∃ r rest calls, t.calls = .results (r :: rest) :: calls ∧ cb ∈ r.handlers
  results : ∀ rest calls, t'.calls = .results rest :: calls → .results rest ∈ t.calls.tail ∨
    rest = results ∨ ∃ r, t.calls = .results (r :: rest) :: calls

theorem advanced_of_calls {t : IOThread} {pc pc' : LoopPc} {calls : List LoopPc}
    {results : List EpollResult} (hcalls : t.calls = pc :: calls) (hrest : pc'.rest ⊆ pc.rest)
    (hres : ∀ rest, pc' = .results rest → rest = results) :
    Advanced t { t with calls := pc' :: calls } results := by
  refine ⟨rfl, ?_, fun cb h => .inl ?_, fun rest calls' h => .inr (.inl ?_)⟩
  · rw [hcalls]
    exact fun pc h => h
  · rw [IOThread.queued, List.flatMap_cons, List.append_assoc] at h
    rw [IOThread.queued, hcalls, List.flatMap_cons, List.append_assoc]
    rcases List.mem_append.mp h with hnow | hlater
    · exact List.mem_append_left _ (hrest hnow)
    · exact List.mem_append_right _ hlater
  · obtain ⟨he, -⟩ := List.cons.inj h
    exact hres rest he

theorem advance_advanced {t t' : IOThread} {results : List EpollResult}
    (hs : t.advance results = some t') : Advanced t t' results := by
  rw [IOThread.advance] at hs
  split at hs
  · cases hs
  · rename_i calls hcalls
    split at hs
    · -- The call returns, and the one around it goes on.
      cases hs
      refine ⟨rfl, ?_, fun cb h => .inl ?_, fun rest calls' h => .inl ?_⟩
      · rw [hcalls]
        exact fun pc h => List.mem_of_mem_tail h
      · rw [IOThread.queued, hcalls]
        exact h
      · replace h : calls = _ := h
        rw [hcalls, List.tail_cons, h]
        exact List.mem_cons_self
    · -- The queue becomes the batch.
      cases hs
      refine ⟨rfl, ?_, fun cb h => .inl ?_, fun rest calls' h => by cases h⟩
      · rw [hcalls]
        exact fun pc h => h
      · simp only [IOThread.queued, hcalls, List.flatMap_cons, LoopPc.rest, List.mem_append,
          List.not_mem_nil, or_false, false_or] at h ⊢
        exact h.symm
  · rename_i calls hcalls
    cases hs
    exact advanced_of_calls hcalls (List.Subset.refl _) fun rest h => by cases h; rfl
  · rename_i cb tmp_tasks calls hcalls
    split at hs
    · cases hs
      exact advanced_of_calls hcalls (List.nil_subset _) fun rest h => by cases h; rfl
    · cases hs
      exact advanced_of_calls hcalls (List.subset_cons_self cb tmp_tasks) fun rest h => by cases h
  · rename_i tmp_tasks calls hcalls
    cases hs
    exact advanced_of_calls hcalls (List.Subset.refl _) fun rest h => by cases h
  · rename_i calls hcalls
    cases hs
    exact advanced_of_calls hcalls (List.Subset.refl _) fun rest h => by cases h
  · rename_i r rest calls hcalls
    cases hs
    refine ⟨Eventloop.dispatch_stop_flag _ r, ?_, fun cb h => ?_, fun rest' calls' h => ?_⟩
    · rw [hcalls]
      exact fun pc h => h
    · rw [IOThread.queued, Eventloop.dispatch_pending, ← List.append_assoc] at h
      rcases List.mem_append.mp h with hold | hnew
      · rw [IOThread.queued, hcalls]
        exact .inl hold
      · rw [Eventloop.accepts] at hnew
        split at hnew
        · cases hnew
        · exact .inr ⟨r, rest, calls, hcalls, hnew⟩
    · cases h
      exact .inr (.inr ⟨r, hcalls⟩)

/-- The loop itself queues no connect callback of a released client. -/
theorem advance_inv {w : ClientLoop} {thread : IOThread} {results : List EpollResult}
    (hi : w.Inv) (hs : w.thread.advance (w.reports results) = some thread) :
    Inv { w with thread } := by
  have ha := advance_advanced hs
  refine inv_of_thread hi (fun pc hpc => hi.outer pc (ha.tail pc hpc)) ?_ ?_
  · intro rest calls hcalls r hr cb hcb
    rcases ha.results rest calls hcalls with htail | rfl | ⟨r', hcalls'⟩
    · obtain ⟨rest', he⟩ := hi.outer _ htail
      cases he
    · -- What `epoll_wait` returned: a callback on an fd event is of a client that has it.
      obtain ⟨r₀, -, rfl⟩ := List.mem_map.mp hr
      refine Bool.eq_false_iff.mpr fun hl => ?_
      obtain ⟨c, h, rfl, hc, hrel⟩ := isLate_iff.mp hl
      obtain ⟨h', hc', -, hw⟩ := hi.waits _ c hcb
      cases Option.some.inj (hc.symm.trans hc')
      rw [HeldClient.isReleased, hw.2.2, Bool.not_true, Bool.and_false] at hrel
      cases hrel
    · exact hi.results _ _ hcalls' r (List.mem_cons_of_mem _ hr) cb hcb
  · intro cb hcb hl
    rw [ha.stop_flag]
    rcases ha.queued cb hcb with hold | ⟨r, rest, calls, hcalls, hh⟩
    · exact hi.queued cb hold hl
    · have hno := hi.results _ _ hcalls r List.mem_cons_self cb
        (EpollResult.mem_callbacks_of_handlers hh)
      exact absurd (hno.symm.trans hl) Bool.false_ne_true

/-! ### Steps -/

theorem running_cases {t t' : IOThread} {cb : Callback} {results : List EpollResult}
    (hrun : t.running = some cb) (hs : t.advance results = some t') :
    t.m_event_loop.m_stop_flag = false ∧ t'.m_event_loop = t.m_event_loop ∧
      t'.inTask = true ∧ cb ∈ t.queued ∧ t.queued.count cb = t'.queued.count cb + 1 := by
  rw [IOThread.running] at hrun
  split at hrun
  · rename_i cb' tmp_tasks calls hcalls
    split at hrun
    · cases hrun
    · rename_i hflag
      cases hrun
      rw [IOThread.advance, hcalls] at hs
      dsimp only at hs
      rw [if_neg hflag] at hs
      cases hs
      have hq : t.queued = cb :: (tmp_tasks ++ calls.flatMap LoopPc.rest
          ++ t.m_event_loop.m_pending_tasks) := by
        rw [IOThread.queued, hcalls]
        rfl
      refine ⟨Bool.eq_false_iff.mpr hflag, rfl, rfl, ?_, ?_⟩
      · rw [hq]
        exact List.mem_cons_self
      · rw [hq, List.count_cons_self]
        rfl
  · cases hrun

/-- **The connect callback** of a batch that was not stopped finds its client's fd event. -/
theorem connectCallback_inv {w : ClientLoop} {thread : IOThread} {c : Nat} {r : ConnectResult}
    {completes : Bool} {results : List EpollResult} (hi : w.Inv)
    (hrun : w.thread.running = some (.connect c))
    (hs : w.thread.advance (w.reports results) = some thread)
    (hcond : r.isFailure = true → 1 < w.thread.queued.count (.connect c) →
      completes = true ∧ w.thread.m_event_loop.m_is_looping = true) :
    ({ w with thread }.connectCallback c r completes).Inv := by
  have hi' := advance_inv hi hs
  obtain ⟨hflag, hloop, htask, hmem, hcount⟩ := running_cases hrun hs
  rw [connectCallback]
  split
  · exact hi'
  · rename_i h hc
    by_cases halive : h.alive = true
    · rw [if_pos halive]
      have hev : h.client.m_fd_event = true := by
        cases hev : h.client.m_fd_event with
        | true => rfl
        | false =>
          have hl : w.isLate (.connect c) = true := by
            refine isLate_iff.mpr ⟨c, h, rfl, hc, ?_⟩
            rw [HeldClient.isReleased, halive, hev]
            rfl
          exact absurd (hflag.symm.trans (hi.queued _ hmem hl)) Bool.false_ne_true
      rw [if_pos hev]
      have huser : inUserCode { w with thread } = true := by
        rw [inUserCode, htask, Bool.or_true]
      refine store_inv hi' hc halive huser (TcpClient.connectCallback_keeps _ r completes)
        fun _ => ?_
      cases hr : r.isFailure with
      | false =>
        have hfd : 0 ≤ h.client.m_fd := (hi.clients c h hc).2 hev
        exact .inl (TcpClient.connectCallback_fd_event completes hr hfd)
      | true =>
        refine .inr fun hagain => ?_
        have hpos := List.count_pos_iff.mpr hagain
        replace hpos : 0 < thread.queued.count (.connect c) := hpos
        obtain ⟨rfl, hlooping⟩ := hcond hr (by omega)
        exact TcpClient.connectCallback_stop_flag _ hr
          ((congrArg Eventloop.m_is_looping hloop).trans hlooping)
    · rw [if_neg halive]
      exact hi'

theorem newClient_clients {w : ClientLoop} {c : Nat} {h : HeldClient} (hc : w.clients[c]? = some h)
    (fd : Nat) : (w.newClient fd).clients[c]? = some h :=
  (List.getElem?_append_left (List.getElem?_eq_some_iff.mp hc).1).trans hc

theorem newClient_inv {w : ClientLoop} (hi : w.Inv) (fd : Nat) (huser : w.inUserCode = true)
    (hcond : ∀ cb ∈ w.thread.queued, w.isLate cb = false) : (w.newClient fd).Inv := by
  have hcases : ∀ {c : Nat} {h : HeldClient}, (w.newClient fd).clients[c]? = some h →
      w.clients[c]? = some h ∨ c = w.clients.length ∧
        h = { client := .new w.clients.length fd w.thread.m_event_loop } := by
    intro c h hc
    replace hc : (w.clients ++ [_])[c]? = some h := hc
    rw [List.getElem?_append] at hc
    split at hc
    · exact .inl hc
    · obtain ⟨hlt, he⟩ := List.getElem?_eq_some_iff.mp hc
      rw [List.length_singleton] at hlt
      refine .inr ⟨by omega, ?_⟩
      rw [← he]
      exact List.getElem_singleton _
  have hpending : (w.newClient fd).thread.queued = w.thread.queued := by
    rw [IOThread.queued, IOThread.queued]
    exact congrArg (w.thread.calls.flatMap LoopPc.rest ++ ·)
      (Watch.apply_pending w.thread.m_event_loop (.newClient w.clients.length fd))
  refine ⟨hi.group, fun c h hc => ?_, fun fd' c hcb => ?_, hi.outer, fun rest calls hcalls =>
    absurd hcalls (calls_ne_results huser rest calls), fun cb hcb hl => ?_, hi.lateUses⟩
  · rcases hcases hc with hc | ⟨rfl, rfl⟩
    · exact hi.clients c h hc
    · exact ⟨rfl, fun _ => Int.natCast_nonneg fd⟩
  · obtain ⟨h, hc, hslot, hw⟩ := hi.waits fd' c hcb
    exact ⟨h, newClient_clients hc fd, hslot, hw⟩
  · obtain ⟨c, h, rfl, hc, hr⟩ := isLate_iff.mp hl
    rw [hpending] at hcb
    rcases hcases hc with hc | ⟨rfl, rfl⟩
    · have hno := hcond _ hcb
      exact absurd (hno.symm.trans (isLate_iff.mpr ⟨c, h, rfl, hc, hr⟩)) Bool.false_ne_true
    · cases hr

theorem act_inv {w : ClientLoop} {c : Nat} {h : HeldClient} {action : ClientAction} (hi : w.Inv)
    (hc : w.clients[c]? = some h) (halive : h.alive = true) (huser : w.inUserCode = true)
    (hcond : w.HoldsStop (.act c action)) : (w.store c true ((w.load h).act action)).Inv := by
  refine store_inv hi hc halive huser (TcpClient.act_keeps _ action) fun _ => ?_
  by_cases ha : action = .finish
  · subst ha
    exact .inr fun hq => TcpClient.finish_stop_flag _ (hcond hq)
  · exact .inl (TcpClient.act_fd_event _ action ha)

/-- The fd events of the timer, the wakeup descriptor and the other connections hold no connect
callback. -/
theorem register_inv {w : ClientLoop} (hi : w.Inv) {event : FdEvent} (grant : Bool)
    (huser : w.inUserCode = true) (hno : event.callbacks.all (!·.isConnect) = true) :
    Inv { w with
      thread := { w.thread with
        m_event_loop := w.thread.m_event_loop.addEpollEvent event grant }
      m_fd_group := Function.update w.m_fd_group event.m_fd event } := by
  refine ⟨fun fd => ?_, hi.clients, fun fd c hcb => ?_, hi.outer, fun rest calls hcalls =>
    absurd hcalls (calls_ne_results huser rest calls), fun cb hcb hl => ?_, hi.lateUses⟩
  · exact update_group_fd hi.group event fd
  · dsimp only at hcb
    rw [Function.update_apply] at hcb
    split at hcb
    · cases List.all_eq_true.mp hno _ hcb
    · exact hi.waits fd c hcb
  · have hpending := Watch.apply_pending w.thread.m_event_loop (.addEpollEvent event grant)
    refine (Eventloop.addEpollEvent_stop_flag _ _ _).trans (hi.queued cb ?_ hl)
    rw [IOThread.queued, ← hpending]
    exact hcb

theorem cancel_inv {w : ClientLoop} (hi : w.Inv) (attempt : Nat) :
    Inv { w with thread := { w.thread with
      m_event_loop := w.thread.m_event_loop.addTask (.cancel attempt) } } := by
  refine inv_of_thread hi hi.outer hi.results fun cb hcb hl => ?_
  rw [IOThread.queued] at hcb
  dsimp only at hcb ⊢
  rw [Eventloop.addTask_pending, ← List.append_assoc] at hcb
  rw [Eventloop.addTask_stop_flag]
  rcases List.mem_append.mp hcb with hold | hnew
  · exact hi.queued cb hold hl
  · rw [Eventloop.accepts] at hnew
    split at hnew
    · cases hnew
    · rw [List.mem_singleton.mp hnew] at hl
      cases hl

theorem loop_inv {w : ClientLoop} (hi : w.Inv) (huser : w.inUserCode = true) :
    Inv { w with thread := w.thread.loop } := by
  rw [IOThread.loop]
  split
  · exact inv_of_thread hi hi.outer hi.results hi.queued
  · refine inv_of_thread hi ?_ (fun rest calls h => by cases h) hi.queued
    -- The call that was the innermost is in a task.
    intro pc hpc
    replace hpc : pc ∈ w.thread.calls := hpc
    rw [inUserCode, IOThread.inTask] at huser
    split at huser
    · rename_i tmp_tasks calls hcalls
      rw [hcalls] at hpc
      rcases List.mem_cons.mp hpc with rfl | htail
      · exact ⟨tmp_tasks, rfl⟩
      · exact hi.outer pc (by rw [hcalls]; exact htail)
    · rw [Bool.or_false] at huser
      rw [List.isEmpty_iff.mp huser] at hpc
      cases hpc

theorem step_inv {w w' : ClientLoop} {op : ClientLoopOp} (hi : w.Inv)
    (hs : w.HoldsStop op ∧ w.step op = some w') : w'.Inv := by
  obtain ⟨hcond, hstep⟩ := hs
  cases op with
  | newClient fd =>
    obtain ⟨huser, hstep⟩ := Option.ite_none_right_eq_some.mp hstep
    cases hstep
    exact newClient_inv hi fd huser hcond
  | act c action =>
    obtain ⟨h, hc, hstep⟩ := Option.bind_eq_some_iff.mp hstep
    obtain ⟨hguard, hstep⟩ := Option.ite_none_right_eq_some.mp hstep
    obtain ⟨huser, halive⟩ := Bool.and_eq_true_iff.mp hguard
    cases hstep
    exact act_inv hi hc halive huser hcond
  | destroy c =>
    obtain ⟨h, hc, hstep⟩ := Option.bind_eq_some_iff.mp hstep
    obtain ⟨hguard, hstep⟩ := Option.ite_none_right_eq_some.mp hstep
    obtain ⟨huser, halive⟩ := Bool.and_eq_true_iff.mp hguard
    cases hstep
    exact store_inv hi hc halive huser (TcpClient.disconnect_keeps _) fun h => by cases h
  | register event grant =>
    obtain ⟨hguard, hstep⟩ := Option.ite_none_right_eq_some.mp hstep
    obtain ⟨huser, hno⟩ := Bool.and_eq_true_iff.mp hguard
    cases hstep
    exact register_inv hi grant huser hno
  | cancel attempt =>
    cases hstep
    exact cancel_inv hi attempt
  | stopLoop =>
    cases hstep
    exact inv_of_thread hi hi.outer hi.results fun _ _ _ => rfl
  | loop =>
    obtain ⟨huser, hstep⟩ := Option.ite_none_right_eq_some.mp hstep
    cases hstep
    exact loop_inv hi huser
  | advance results r completes =>
    obtain ⟨-, hstep⟩ := Option.ite_none_left_eq_some.mp hstep
    obtain ⟨thread, hthread, rfl⟩ := Option.map_eq_some_iff.mp hstep
    dsimp only [HoldsStop] at hcond
    split
    · rename_i c hrun
      rw [hrun] at hcond
      exact connectCallback_inv hi hrun hthread hcond
    · exact advance_inv hi hthread

/-- **A late connect callback is harmless** in a run that holds the stop: none uses a released fd
event. -/
theorem lateUses_eq_nil {loop : Eventloop} {w : ClientLoop} {ops : List ClientLoopOp}
    (hrun : Run (fun w op w' => HoldsStop w op ∧ step w op = some w')
      { thread := { m_event_loop := loop } } ops w) : w.lateUses = [] := by
  have hi : w.Inv := hrun.invariant (I := Inv) step_inv (start_inv loop)
  exact hi.lateUses

/-- A call in progress whose timeout and connect callback are in one batch, in this order. -/
def timeoutFirst : List ClientLoopOp :=
  [.register { m_fd := 3, m_read_callback := some .onTimer } true,
    .newClient 7, .act 0 (.connecting true), .loop, .advance [] .success true,
    .advance [{ fd_event := { m_fd := 3 }, EPOLLIN := true },
      { fd_event := { m_fd := 7 }, EPOLLOUT := true }] .success true,
    .advance [] .success true, .advance [] .success true, .advance [] .success true,
    .advance [] .success true, .advance [] .success true, .act 0 .finish]

/-- The completion stops the loop, and the rest of the batch is dropped. -/
theorem lateUses_eq_nil_timeout_first : ∃ w : ClientLoop,
    w.isLate (.connect 0) = true ∧ w.thread.calls = [] ∧ w.lateUses = [] := by
  obtain ⟨w, hw, h⟩ := (Option.any_eq_true _ _).mp
    (by decide +kernel : (List.foldlM (Run.guarded HoldsStop step) {}
      (timeoutFirst ++ List.replicate 4 (.advance [] .success true))).any (fun w =>
        w.isLate (.connect 0) && decide (w.thread.calls = [])) = true)
  obtain ⟨hlate, hcalls⟩ := Bool.and_eq_true_iff.mp h
  exact ⟨w, hlate, decide_eq_true_iff.mp hcalls, lateUses_eq_nil (Run.of_guarded hw)⟩

/-- The closure of the completed call starts another one, which fails at once: the constructor has
taken the stop back, and the connect callback behind it runs on the released client. -/
theorem late_connect_uses_released : ∃ w : ClientLoop,
    Run (fun w op w' => step w op = some w') {} (timeoutFirst ++ [.newClient 8,
      .act 1 (.connected (.failedAtOnce (str "Network is unreachable"))), .act 1 .finish,
      .advance [] .success true, .advance [] .success true]) w ∧
    w.isLate (.connect 0) = true ∧ w.lateUses = [0] := by
  obtain ⟨w, hw, h⟩ := (Option.any_eq_true _ _).mp
    (by decide +kernel : (List.foldlM step {} (timeoutFirst ++ [.newClient 8,
      .act 1 (.connected (.failedAtOnce (str "Network is unreachable"))), .act 1 .finish,
      .advance [] .success true, .advance [] .success true])).any (fun w =>
        w.isLate (.connect 0) && decide (w.lateUses = [0])) = true)
  obtain ⟨hlate, huses⟩ := Bool.and_eq_true_iff.mp h
  exact ⟨w, Run.of_foldlM hw, hlate, decide_eq_true_iff.mp huses⟩

/-! ### The condition is needed -/

theorem step_task {w : ClientLoop} {tmp_tasks : List Callback} {calls : List LoopPc}
    (hcalls : w.thread.calls = .task tmp_tasks :: calls) (completes : Bool) :
    w.step (.advance [] .success completes)
      = some { w with thread := { w.thread with calls := .tasks tmp_tasks :: calls } } := by
  have hrun : w.thread.running = none := by
    rw [IOThread.running, hcalls]
  dsimp only [step]
  rw [if_neg (show ¬ ConnectResult.success.atOnce = true from Bool.false_ne_true), hrun,
    IOThread.advance, hcalls]
  rfl

theorem step_late {w : ClientLoop} {c : Nat} {tmp_tasks : List Callback} {calls : List LoopPc}
    (hcalls : w.thread.calls = .tasks (.connect c :: tmp_tasks) :: calls)
    (hflag : w.thread.m_event_loop.m_stop_flag = false) (hlate : w.isLate (.connect c) = true)
    (completes : Bool) : ∃ w', w.step (.advance [] .success completes) = some w' ∧
      w'.lateUses = w.lateUses ++ [c] := by
  obtain ⟨c', h, he, hc, hr⟩ := isLate_iff.mp hlate
  cases he
  obtain ⟨halive, hev⟩ := Bool.and_eq_true_iff.mp hr
  have hno : ¬ w.thread.m_event_loop.m_stop_flag = true := by
    rw [hflag]
    exact Bool.false_ne_true
  have hrun : w.thread.running = some (.connect c) := by
    rw [IOThread.running, hcalls]
    exact if_neg hno
  have hadv : w.thread.advance (w.reports [])
      = some { w.thread with calls := .task tmp_tasks :: calls } := by
    rw [IOThread.advance, hcalls]
    exact if_neg hno
  refine ⟨{ w with
    thread := { w.thread with calls := .task tmp_tasks :: calls }
    lateUses := w.lateUses ++ [c] }, ?_, rfl⟩
  dsimp only [step]
  rw [if_neg (show ¬ ConnectResult.success.atOnce = true from Bool.false_ne_true), hrun, hadv,
    Option.map_some]
  dsimp only [connectCallback]
  rw [hc]
  dsimp only
  rw [if_pos halive, if_neg (by simpa using hev)]

/-- **A client constructed right before the connect callback of a released client** takes the stop
back, and the callback uses the released fd event, in every state. -/
theorem newClient_lets_late_run {w : ClientLoop} {c : Nat} {tmp_tasks : List Callback}
    {calls : List LoopPc} (hcalls : w.thread.calls = .task (.connect c :: tmp_tasks) :: calls)
    (hlate : w.isLate (.connect c) = true) (fd : Nat) (completes : Bool) : ∃ w',
      Run (fun w op w' => step w op = some w') w [.newClient fd, .advance [] .success completes,
        .advance [] .success completes] w' ∧ w'.lateUses = w.lateUses ++ [c] := by
  have huser : w.inUserCode = true := by
    rw [inUserCode, IOThread.inTask, hcalls]
    rfl
  have hlate' : (w.newClient fd).isLate (.connect c) = true := by
    obtain ⟨c', h, he, hc, hr⟩ := isLate_iff.mp hlate
    exact isLate_iff.mpr ⟨c', h, he, newClient_clients hc fd, hr⟩
  have htask := step_task (w := w.newClient fd) hcalls completes
  obtain ⟨w', hstep, huses⟩ := step_late (w := { w.newClient fd with
      thread := { (w.newClient fd).thread with
        calls := .tasks (.connect c :: tmp_tasks) :: calls } })
    rfl (IOThread.newClient_stop_flag w.clients.length fd w.thread.m_event_loop) hlate' completes
  exact ⟨w', .cons (if_pos huser) (.cons htask (.cons hstep (.nil _))), huses⟩

end ClientLoop

end KaiRPC
