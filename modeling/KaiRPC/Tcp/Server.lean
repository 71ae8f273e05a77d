import Mathlib.Data.Int.CardIntervalMod
import KaiRPC.Lib.Run

/-!
# The server and its sub-reactors

`net/tcp/tcp_server.cc`, `net/tcp/tcp_acceptor.cc` and `net/iothreadgroup.cc`: the main thread
accepts connections and gives them to the loops of the IO threads in turn; a loop learns of a
connection through a task that the main thread queues on it (`addEpollEvent` off the loop's
thread); the connections are cleared on their loops, swept from `m_client` by a timer of the
main loop, and cleared with the server.  The threads are interleaved at every task.

A connection is known by the number of its accept.  `slot` is the fd event group: the connection
whose callbacks the fd event of a descriptor holds.  Of a connection's callbacks only what they
do to the server is modelled: registering the descriptor again, and `clear`.  A loop takes its
queue in batches and polls between them; here it may poll between any two tasks.

* `server_balanced`: **the IO threads get the connections in turn**, so the numbers given to two of
  them never differ by more than one.
* `server_accounts`: **the open descriptors are those of the connections that are not closed, all
  of them in `m_client`; no number is in use twice; a sweep leaves nothing else there; and no
  descriptor outlives the server.**

What the loops listen to is in `Tcp.Reactors`.
-/

namespace KaiRPC

/-- A task on the queue of a loop: registering a descriptor, or a callback of a connection. -/
inductive ServerTask
  | addToEpoll (fd : Nat)
  | callback (conn : Nat)
deriving DecidableEq, Repr

/-- The loop of an IO thread. -/
structure SubLoop where
  m_stop_flag : Bool := false
  m_listen_fds : Finset Nat := ∅
  epoll : Finset Nat := ∅
  m_pending_tasks : List ServerTask := []

namespace SubLoop

def addTask (l : SubLoop) (task : ServerTask) : SubLoop :=
  if l.m_stop_flag then l else { l with m_pending_tasks := l.m_pending_tasks ++ [task] }

/-- `ADD_TO_EPOLL`: a failed `epoll_ctl` is logged. -/
def addToEpoll (l : SubLoop) (fd : Nat) (grant : Bool) : SubLoop :=
  { l with
    m_listen_fds := insert fd l.m_listen_fds
    epoll := if grant then insert fd l.epoll else l.epoll }

/-- `DELETE_TO_EPOLL`. -/
def deleteToEpoll (l : SubLoop) (fd : Nat) : SubLoop :=
  if fd ∈ l.m_listen_fds then
    { l with m_listen_fds := l.m_listen_fds.erase fd, epoll := l.epoll.erase fd }
  else l

/-- What `loop` does with one event of `epoll_wait`, under the handlers of a connection. -/
def trigger (l : SubLoop) (fd : Nat) (handler : Option Nat) (epollin epollout is_terminal : Bool) :
    SubLoop :=
  let add (l : SubLoop) := handler.elim l fun i => l.addTask (.callback i)
  let l := if epollin then add l else l
  let l := if epollout && !is_terminal then add l else l
  if is_terminal then add (l.deleteToEpoll fd) else l

/-- The kernel forgets a descriptor that is closed. -/
def forget (l : SubLoop) (fd : Nat) : SubLoop := { l with epoll := l.epoll.erase fd }

end SubLoop

/-- An accepted connection: its descriptor, its IO thread, and whether it was cleared. -/
structure Accepted where
  fd : Nat
  io_thread : Nat
  closed : Bool := false
deriving DecidableEq, Repr

structure TcpServer where
  loops : List SubLoop
  m_index : Int := 0
  m_client_counts : Nat := 0
  m_client : List Nat := []
  conns : List Accepted := []
  slot : Nat → Option Nat := fun _ => none
  opened : Finset Nat := ∅
  /-- The registrations that have run: the loop, and the connection. -/
  registered : List (Nat × Nat) := []

/-- What a callback of a connection does to the server. -/
inductive CallbackEffect
  /-- `listenRead` or `listenWrite` on the loop's thread. -/
  | listen (grant : Bool)
  | clear
deriving DecidableEq, Repr

inductive TcpServerOp
  /-- `onAccept`, with what `accept` returned. -/
  | onAccept (client_fd : Option Nat)
  /-- A loop runs the next task of its queue. -/
  | runTask (io_thread : Nat) (grant : Bool) (effects : List CallbackEffect)
  /-- `epoll_wait` reports a descriptor. -/
  | event (io_thread fd : Nat) (epollin epollout is_terminal : Bool)
  | ClearClientTimerFunc
  /-- The loop of an IO thread is stopped. -/
  | stopLoop (io_thread : Nat)
  /-- A service gives its response on another thread. -/
  | foreignReply (conn : Nat)

/-- `IOThreadGroup::getIOThread`: the thread, and `m_index` behind it. -/
def getIOThread (size : Nat) (m_index : Int) : Option (Nat × Int) :=
  if size = 0 then none
  else
    let m_index := if m_index = size ∨ m_index = -1 then 0 else m_index
    some (m_index.toNat, m_index + 1)

namespace TcpServer

/-- `TcpServer::init`, with the configured number of IO threads. -/
def init (m_io_threads : Nat) : TcpServer := { loops := List.replicate m_io_threads {} }

/-- The construction of a connection and `listenRead` on the main thread. -/
def construct (v : TcpServer) (fd io_thread : Nat) : TcpServer :=
  { v with
    loops := v.loops.modify io_thread fun l => l.addTask (.addToEpoll fd)
    m_client := v.m_client ++ [v.conns.length]
    conns := v.conns ++ [{ fd := fd, io_thread := io_thread }]
    slot := Function.update v.slot fd (some v.conns.length)
    opened := insert fd v.opened }

def onAccept (v : TcpServer) (fd : Nat) : TcpServer :=
  let v := { v with m_client_counts := v.m_client_counts + 1 }
  match getIOThread v.loops.length v.m_index with
  | none => v
  | some (io_thread, m_index) => { v with m_index := m_index }.construct fd io_thread

/-- `TcpConnection::clear` on the loop's thread. -/
def clear (v : TcpServer) (i : Nat) (c : Accepted) : TcpServer :=
  { v with
    loops := (v.loops.modify c.io_thread fun l => l.deleteToEpoll c.fd).map fun l => l.forget c.fd
    conns := v.conns.set i { c with closed := true }
    slot := Function.update v.slot c.fd none
    opened := v.opened.erase c.fd }

/-- One effect of a callback: none on a connection that is closed. -/
def effect (v : TcpServer) (i : Nat) (e : CallbackEffect) : TcpServer :=
  match v.conns[i]? with
  | none => v
  | some c =>
      if c.closed then v
      else match e with
        | .listen grant =>
            { v with loops := v.loops.modify c.io_thread fun l => l.addToEpoll c.fd grant }
        | .clear => v.clear i c

/-- A callback runs on a connection that still exists. -/
def callback (v : TcpServer) (i : Nat) (effects : List CallbackEffect) : TcpServer :=
  if i ∈ v.m_client then effects.foldl (fun v e => v.effect i e) v else v

/-- What is left of the queue of a loop. -/
def leave (v : TcpServer) (io_thread : Nat) (tasks : List ServerTask) : TcpServer :=
  { v with loops := v.loops.modify io_thread fun l => { l with m_pending_tasks := tasks } }

/-- One task of a loop. -/
def execute (v : TcpServer) (io_thread : Nat) (grant : Bool) (effects : List CallbackEffect) :
    ServerTask → TcpServer
  | .addToEpoll fd => { v with
      loops := v.loops.modify io_thread fun l => l.addToEpoll fd grant
      registered := v.registered ++ (v.slot fd).toList.map fun i => (io_thread, i) }
  | .callback i => v.callback i effects

def runTask (v : TcpServer) (io_thread : Nat) (grant : Bool) (effects : List CallbackEffect) :
    Option TcpServer :=
  v.loops[io_thread]?.bind fun l =>
    if l.m_stop_flag then none
    else match l.m_pending_tasks with
      | [] => none
      | task :: tasks => some ((v.leave io_thread tasks).execute io_thread grant effects task)

def event (v : TcpServer) (io_thread fd : Nat) (epollin epollout is_terminal : Bool) :
    Option TcpServer :=
  v.loops[io_thread]?.bind fun l =>
    if fd ∈ l.epoll then
      some { v with
        loops := v.loops.modify io_thread
          (·.trigger fd (v.slot fd) epollin epollout is_terminal) }
    else none

def step (v : TcpServer) : TcpServerOp → Option TcpServer
  | .onAccept none => some v
  | .onAccept (some fd) => if fd ∈ v.opened then none else some (v.onAccept fd)
  | .runTask io_thread grant effects => v.runTask io_thread grant effects
  | .event io_thread fd epollin epollout is_terminal =>
      v.event io_thread fd epollin epollout is_terminal
  | .ClearClientTimerFunc => some { v with
      m_client := v.m_client.filter fun i => v.conns[i]?.all fun c => !c.closed }
  | .stopLoop io_thread => some { v with
      loops := v.loops.modify io_thread fun l => { l with m_stop_flag := true } }
  | .foreignReply i => v.conns[i]?.map fun c =>
      if c.closed then v
      else { v with loops := v.loops.modify c.io_thread fun l => l.addTask (.addToEpoll c.fd) }

/-- A connection whose last reference goes away off its loop: a stopped loop takes no task. -/
def drop (v : TcpServer) (i : Nat) : TcpServer :=
  match v.conns[i]? with
  | none => v
  | some c =>
      if c.closed then v
      else { v with
        loops := v.loops.map fun l => l.forget c.fd
        conns := v.conns.set i { c with closed := true }
        slot := Function.update v.slot c.fd none
        opened := v.opened.erase c.fd }

/-- `~TcpServer`: the IO threads are stopped and joined, then the connections go. -/
def destroy (v : TcpServer) : TcpServer :=
  { v.m_client.foldl drop { v with loops := v.loops.map fun l => { l with m_stop_flag := true } }
    with m_client := [] }

/-! ### Descriptors -/

/-- The descriptors in use are those of the connections that are not closed, which are all in
`m_client`. -/
structure Accounted (v : TcpServer) : Prop where
  client : ∀ {i c}, v.conns[i]? = some c → c.closed = false → i ∈ v.m_client
  known : ∀ {i}, i ∈ v.m_client → i < v.conns.length
  slot : ∀ {fd i}, v.slot fd = some i ↔ ∃ c, v.conns[i]? = some c ∧ c.closed = false ∧ c.fd = fd
  opened : ∀ {fd}, fd ∈ v.opened ↔ ∃ i, v.slot fd = some i

section Steps

variable {v v' : TcpServer}

theorem runTask_cases {io_thread : Nat} {grant : Bool} {effects : List CallbackEffect}
    (hs : v.runTask io_thread grant effects = some v') : ∃ l task tasks,
    v.loops[io_thread]? = some l ∧ l.m_stop_flag = false ∧ l.m_pending_tasks = task :: tasks ∧
      v' = (v.leave io_thread tasks).execute io_thread grant effects task := by
  obtain ⟨l, hl, hs⟩ := Option.bind_eq_some_iff.mp hs
  split at hs
  · cases hs
  rename_i hflag
  split at hs
  · cases hs
  rename_i task tasks htasks
  exact ⟨l, task, tasks, hl, by simpa using hflag, htasks, (Option.some.inj hs).symm⟩

theorem Accounted.of_eq (h : v.Accounted) (hclient : v'.m_client = v.m_client)
    (hconns : v'.conns = v.conns) (hslot : v'.slot = v.slot) (hopened : v'.opened = v.opened) :
    v'.Accounted := by
  refine ⟨fun hi hc => ?_, fun hi => ?_, fun {fd i} => ?_, fun {fd} => ?_⟩
  · rw [hclient]
    rw [hconns] at hi
    exact h.client hi hc
  · rw [hclient] at hi
    rw [hconns]
    exact h.known hi
  · rw [hslot, hconns]
    exact h.slot
  · rw [hopened, hslot]
    exact h.opened

theorem init_accounted (m_io_threads : Nat) : (init m_io_threads).Accounted := by
  refine ⟨fun hi _ => ?_, fun hi => ?_, fun {fd i} => ?_, fun {fd} => ?_⟩
  · cases hi
  · cases hi
  · constructor
    · intro h
      cases h
    · rintro ⟨c, hc, -⟩
      cases hc
  · constructor
    · intro h
      cases h
    · rintro ⟨i, hi⟩
      cases hi

theorem construct_accounted (h : v.Accounted) {fd : Nat} (hfd : fd ∉ v.opened) (io_thread : Nat) :
    (v.construct fd io_thread).Accounted := by
  have hfree : ∀ i, v.slot fd ≠ some i := fun i hi => hfd (h.opened.mpr ⟨i, hi⟩)
  -- a connection is one of the old ones or the new one
  have hget : ∀ i c, (v.construct fd io_thread).conns[i]? = some c ↔
      v.conns[i]? = some c ∨ i = v.conns.length ∧ c = { fd := fd, io_thread := io_thread } := by
    intro i c
    show (v.conns ++ [_])[i]? = some c ↔ _
    rw [List.getElem?_append]
    split
    · rename_i hlt
      exact ⟨Or.inl, fun h => h.elim id fun h => absurd h.1 (Nat.ne_of_lt hlt)⟩
    · rename_i hge
      rw [List.getElem?_eq_none (Nat.not_lt.mp hge)]
      constructor
      · intro hc
        obtain ⟨hi, rfl⟩ := List.getElem?_eq_some_iff.mp hc
        simp only [List.length_singleton] at hi
        exact Or.inr ⟨by omega, by simp⟩
      · rintro (hc | ⟨rfl, rfl⟩)
        · cases hc
        · rw [Nat.sub_self]
          rfl
  refine ⟨fun {i c} hi hc => ?_, fun {i} hi => ?_, fun {fd' i} => ?_, fun {fd'} => ?_⟩
  · rcases (hget i c).mp hi with hi | ⟨rfl, -⟩
    · exact List.mem_append_left _ (h.client hi hc)
    · exact List.mem_append_right _ (List.mem_singleton_self _)
  · show i < (v.conns ++ [_]).length
    rw [List.length_append, List.length_singleton]
    rcases List.mem_append.mp hi with hi | hi
    · exact Nat.lt_succ_of_lt (h.known hi)
    · rw [List.mem_singleton.mp hi]
      exact Nat.lt_succ_self _
  · show Function.update v.slot fd (some v.conns.length) fd' = some i ↔ _
    simp only [hget]
    by_cases hf : fd' = fd
    · subst hf
      rw [Function.update_self]
      constructor
      · intro he
        cases he
        exact ⟨_, Or.inr ⟨rfl, rfl⟩, rfl, rfl⟩
      · rintro ⟨c, hc | ⟨rfl, -⟩, hopen, hcfd⟩
        · exact absurd (h.slot.mpr ⟨c, hc, hopen, hcfd⟩) (hfree i)
        · rfl
    · rw [Function.update_of_ne hf, h.slot]
      constructor
      · rintro ⟨c, hc, hrest⟩
        exact ⟨c, Or.inl hc, hrest⟩
      · rintro ⟨c, hc | ⟨-, rfl⟩, hopen, hcfd⟩
        · exact ⟨c, hc, hopen, hcfd⟩
        · exact absurd hcfd.symm hf
  · show fd' ∈ insert fd v.opened ↔
      ∃ i, Function.update v.slot fd (some v.conns.length) fd' = some i
    rw [Finset.mem_insert]
    by_cases hf : fd' = fd
    · subst hf
      rw [Function.update_self]
      exact iff_of_true (Or.inl rfl) ⟨_, rfl⟩
    · rw [Function.update_of_ne hf, ← h.opened]
      exact ⟨fun h => h.resolve_left hf, Or.inr⟩

theorem closed_accounted (h : v.Accounted) {i : Nat} {c : Accepted} (hi : v.conns[i]? = some c)
    (hopen : c.closed = false) (hclient : v'.m_client = v.m_client)
    (hconns : v'.conns = v.conns.set i { c with closed := true })
    (hslot : v'.slot = Function.update v.slot c.fd none)
    (hopened : v'.opened = v.opened.erase c.fd) : v'.Accounted := by
  have hlt : i < v.conns.length := (List.getElem?_eq_some_iff.mp hi).1
  have hmine : v.slot c.fd = some i := h.slot.mpr ⟨c, hi, hopen, rfl⟩
  -- the open connections are the old ones but `i`
  have hget : ∀ j d, v'.conns[j]? = some d → d.closed = false →
      v.conns[j]? = some d ∧ j ≠ i := by
    intro j d hj hd
    rw [hconns, List.getElem?_set] at hj
    split at hj
    · cases hj
      cases hd
    · rename_i hne
      exact ⟨hj, fun he => hne he.symm⟩
  have hold : ∀ j d, v.conns[j]? = some d → j ≠ i → v'.conns[j]? = some d := by
    intro j d hj hne
    rw [hconns, List.getElem?_set_ne (fun he => hne he.symm)]
    exact hj
  refine ⟨fun {j d} hj hd => ?_, fun {j} hj => ?_, fun {fd j} => ?_, fun {fd} => ?_⟩
  · rw [hclient]
    exact h.client (hget j d hj hd).1 hd
  · rw [hclient] at hj
    rw [hconns, List.length_set]
    exact h.known hj
  · rw [hslot]
    by_cases hf : fd = c.fd
    · subst hf
      rw [Function.update_self]
      refine iff_of_false (by simp) ?_
      rintro ⟨d, hj, hd, hfd⟩
      obtain ⟨hj', hne⟩ := hget j d hj hd
      have := h.slot.mpr ⟨d, hj', hd, hfd⟩
      rw [hmine] at this
      cases this
      exact hne rfl
    · rw [Function.update_of_ne hf, h.slot]
      constructor
      · rintro ⟨d, hj, hd, hfd⟩
        refine ⟨d, hold j d hj ?_, hd, hfd⟩
        rintro rfl
        rw [hi] at hj
        cases hj
        exact hf hfd.symm
      · rintro ⟨d, hj, hd, hfd⟩
        exact ⟨d, (hget j d hj hd).1, hd, hfd⟩
  · rw [hopened, hslot, Finset.mem_erase]
    by_cases hf : fd = c.fd
    · subst hf
      rw [Function.update_self]
      exact iff_of_false (fun h => h.1 rfl) (by simp)
    · rw [Function.update_of_ne hf, h.opened]
      exact ⟨fun h => h.2, fun h => ⟨hf, h⟩⟩

theorem effect_accounted (h : v.Accounted) (i : Nat) (e : CallbackEffect) :
    (v.effect i e).Accounted := by
  unfold effect
  split
  · exact h
  · rename_i c hi
    split
    · exact h
    · rename_i hopen
      cases e with
      | listen grant => exact h.of_eq rfl rfl rfl rfl
      | clear => exact closed_accounted h hi (by simpa using hopen) rfl rfl rfl rfl

theorem callback_accounted (h : v.Accounted) (i : Nat) (effects : List CallbackEffect) :
    (v.callback i effects).Accounted := by
  unfold callback
  split
  · exact List.foldlRecOn effects _ h fun _ hv e _ => effect_accounted hv i e
  · exact h

theorem onAccept_accounted (h : v.Accounted) {fd : Nat} (hfd : fd ∉ v.opened) :
    (v.onAccept fd).Accounted := by
  unfold onAccept
  dsimp only
  split
  · exact h.of_eq rfl rfl rfl rfl
  · rename_i io_thread m_index _
    exact construct_accounted
      (v := { v with m_client_counts := v.m_client_counts + 1, m_index := m_index })
      (h.of_eq rfl rfl rfl rfl) hfd io_thread

theorem execute_accounted (h : v.Accounted) (io_thread : Nat) (grant : Bool)
    (effects : List CallbackEffect) (task : ServerTask) :
    (v.execute io_thread grant effects task).Accounted := by
  cases task with
  | addToEpoll fd => exact h.of_eq rfl rfl rfl rfl
  | callback i => exact callback_accounted h i effects

theorem step_accounted {op : TcpServerOp} (h : v.Accounted) (hs : v.step op = some v') :
    v'.Accounted := by
  cases op with
  | onAccept client_fd =>
    cases client_fd with
    | none =>
      cases hs
      exact h
    | some fd =>
      obtain ⟨hfd, hs⟩ := Option.ite_none_left_eq_some.mp hs
      cases hs
      exact onAccept_accounted h hfd
  | runTask io_thread grant effects =>
    obtain ⟨l, task, tasks, -, -, -, rfl⟩ := runTask_cases hs
    have hleave : (v.leave io_thread tasks).Accounted := h.of_eq rfl rfl rfl rfl
    exact execute_accounted hleave io_thread grant effects task
  | event io_thread fd epollin epollout is_terminal =>
    obtain ⟨l, -, hs⟩ := Option.bind_eq_some_iff.mp hs
    obtain ⟨-, hs⟩ := Option.ite_none_right_eq_some.mp hs
    cases hs
    exact h.of_eq rfl rfl rfl rfl
  | ClearClientTimerFunc =>
    cases hs
    refine ⟨fun {i c} hi hc => ?_, fun hi => h.known (List.mem_of_mem_filter hi), h.slot, h.opened⟩
    refine List.mem_filter.mpr ⟨h.client hi hc, ?_⟩
    have hi' : v.conns[i]? = some c := hi
    rw [hi', Option.all_some, hc]
    rfl
  | stopLoop io_thread =>
    cases hs
    exact h.of_eq rfl rfl rfl rfl
  | foreignReply i =>
    obtain ⟨c, -, rfl⟩ := Option.map_eq_some_iff.mp hs
    split
    · exact h
    · exact h.of_eq rfl rfl rfl rfl

theorem drop_accounted (h : v.Accounted) (i : Nat) : (v.drop i).Accounted := by
  unfold drop
  split
  · exact h
  · rename_i c hi
    split
    · exact h
    · rename_i hopen
      exact closed_accounted h hi (by simpa using hopen) rfl rfl rfl rfl

theorem drop_closed (v : TcpServer) (i j : Nat) {c : Accepted} (hj : (v.drop i).conns[j]? = some c)
    (hc : c.closed = false) : v.conns[j]? = some c ∧ j ≠ i := by
  unfold drop at hj
  split at hj
  · rename_i hnone
    refine ⟨hj, ?_⟩
    rintro rfl
    rw [hnone] at hj
    cases hj
  · rename_i d hi
    split at hj
    · rename_i hclosed
      refine ⟨hj, ?_⟩
      rintro rfl
      rw [hi] at hj
      cases hj
      rw [hc] at hclosed
      cases hclosed
    · have hlt : i < v.conns.length := (List.getElem?_eq_some_iff.mp hi).1
      dsimp only at hj
      rw [List.getElem?_set] at hj
      split at hj
      · cases hj
        cases hc
      · rename_i hne
        exact ⟨hj, fun he => hne he.symm⟩

theorem foldl_drop (l : List Nat) : ∀ {v : TcpServer}, v.Accounted → (l.foldl drop v).Accounted ∧
    ∀ {j c}, (l.foldl drop v).conns[j]? = some c → c.closed = false →
      v.conns[j]? = some c ∧ j ∉ l := by
  induction l with
  | nil =>
    intro v h
    exact ⟨h, fun hj _ => ⟨hj, List.not_mem_nil⟩⟩
  | cons i l ih =>
    intro v h
    obtain ⟨h1, h2⟩ := ih (drop_accounted h i)
    refine ⟨h1, fun {j c} hj hc => ?_⟩
    obtain ⟨hj', hnot⟩ := h2 hj hc
    obtain ⟨hj'', hne⟩ := drop_closed v i j hj' hc
    refine ⟨hj'', ?_⟩
    rw [List.mem_cons, not_or]
    exact ⟨hne, hnot⟩

theorem Accounted.destroy_opened (h : v.Accounted) : v.destroy.opened = ∅ := by
  have hstop : Accounted { v with loops := v.loops.map fun l => { l with m_stop_flag := true } } :=
    h.of_eq rfl rfl rfl rfl
  obtain ⟨h1, h2⟩ := foldl_drop v.m_client hstop
  rw [Finset.eq_empty_iff_forall_notMem]
  intro fd hfd
  obtain ⟨i, hi⟩ := h1.opened.mp hfd
  obtain ⟨c, hc, hopen, -⟩ := h1.slot.mp hi
  obtain ⟨hc', hnot⟩ := h2 hc hopen
  exact hnot (h.client hc' hopen)

theorem Accounted.unique (h : v.Accounted) {i j : Nat} {c d : Accepted}
    (hi : v.conns[i]? = some c) (hc : c.closed = false) (hj : v.conns[j]? = some d)
    (hd : d.closed = false) (hfd : d.fd = c.fd) : j = i := by
  have h1 := h.slot.mpr ⟨c, hi, hc, rfl⟩
  have h2 := h.slot.mpr ⟨d, hj, hd, hfd⟩
  rw [h1] at h2
  cases h2
  rfl

/-! ### Turns -/

/-- The connections went to `n` IO threads in turn. -/
structure InTurn (n : Nat) (v : TcpServer) : Prop where
  size : v.loops.length = n
  turn : v.conns.map Accepted.io_thread = (List.range v.conns.length).map (· % n)
  index : v.m_index = if v.conns.length = 0 then (0 : Int) else ↑((v.conns.length - 1) % n + 1)

/-- **The next thread**, after `k` connections. -/
theorem getIOThread_turn {n : Nat} (hn : 0 < n) (k : Nat) :
    getIOThread n (if k = 0 then (0 : Int) else ↑((k - 1) % n + 1)) =
      some (k % n, ↑(k % n + 1)) := by
  unfold getIOThread
  rw [if_neg (Nat.ne_of_gt hn)]
  cases k with
  | zero =>
    have h0 : ¬ ((0 : Int) = n ∨ (0 : Int) = -1) := by omega
    simp only [if_true, if_neg h0, Nat.zero_mod]
    rfl
  | succ k =>
    have hlt : k % n < n := Nat.mod_lt k hn
    rw [if_neg (Nat.succ_ne_zero k), Nat.add_sub_cancel]
    have hmod : (k + 1) % n = if k % n + 1 = n then 0 else k % n + 1 := by
      rw [← Nat.mod_add_mod]
      split
      · rename_i he
        rw [he, Nat.mod_self]
      · rename_i hne
        exact Nat.mod_eq_of_lt (by omega)
    rw [hmod]
    by_cases he : k % n + 1 = n
    · have h1 : (↑(k % n + 1) : Int) = n ∨ (↑(k % n + 1) : Int) = -1 := Or.inl (by rw [he])
      simp only [if_pos h1, if_pos he]
      rfl
    · have h1 : ¬ ((↑(k % n + 1) : Int) = n ∨ (↑(k % n + 1) : Int) = -1) := by omega
      simp only [if_neg h1, if_neg he]
      rfl

theorem InTurn.of_eq {n : Nat} (h : v.InTurn n) (hloops : v'.loops.length = v.loops.length)
    (hconns : v'.conns.map Accepted.io_thread = v.conns.map Accepted.io_thread)
    (hindex : v'.m_index = v.m_index) : v'.InTurn n := by
  have hlen : v'.conns.length = v.conns.length := by
    have := congrArg List.length hconns
    rwa [List.length_map, List.length_map] at this
  refine ⟨hloops.trans h.size, ?_, ?_⟩
  · rw [hconns, hlen]
    exact h.turn
  · rw [hindex, hlen]
    exact h.index

theorem map_set_closed {conns : List Accepted} {i : Nat} {c : Accepted} (hi : conns[i]? = some c) :
    (conns.set i { c with closed := true }).map Accepted.io_thread =
      conns.map Accepted.io_thread := by
  obtain ⟨hlt, rfl⟩ := List.getElem?_eq_some_iff.mp hi
  rw [List.map_set]
  refine List.ext_getElem (by simp) fun j h1 h2 => ?_
  rw [List.getElem_set]
  split
  · rename_i hij
    subst hij
    rw [List.getElem_map]
  · rfl

theorem effect_threads (v : TcpServer) (i : Nat) (e : CallbackEffect) :
    (v.effect i e).conns.map Accepted.io_thread = v.conns.map Accepted.io_thread := by
  unfold effect
  split
  · rfl
  rename_i c hi
  split
  · rfl
  cases e with
  | listen grant => rfl
  | clear => exact map_set_closed hi

theorem effect_loops_length (v : TcpServer) (i : Nat) (e : CallbackEffect) :
    (v.effect i e).loops.length = v.loops.length ∧ (v.effect i e).m_index = v.m_index := by
  unfold effect
  split
  · exact ⟨rfl, rfl⟩
  split
  · exact ⟨rfl, rfl⟩
  cases e with
  | listen grant => exact ⟨List.length_modify _ _ _, rfl⟩
  | clear =>
    refine ⟨?_, rfl⟩
    show ((v.loops.modify _ _).map _).length = _
    rw [List.length_map, List.length_modify]

/-- **A task gives no connection to another thread.** -/
theorem execute_threads (v : TcpServer) (io_thread : Nat) (grant : Bool)
    (effects : List CallbackEffect) (task : ServerTask) :
    (v.execute io_thread grant effects task).conns.map Accepted.io_thread =
      v.conns.map Accepted.io_thread := by
  cases task with
  | addToEpoll fd => rfl
  | callback i =>
    show (v.callback i effects).conns.map _ = _
    unfold callback
    split
    · exact List.foldlRecOn (motive := fun w : TcpServer => w.conns.map Accepted.io_thread =
        v.conns.map Accepted.io_thread) effects _ rfl
        fun w hw e _ => (effect_threads w i e).trans hw
    · rfl

theorem onAccept_inTurn {n : Nat} (hn : 0 < n) (h : v.InTurn n) (fd : Nat) :
    (v.onAccept fd).InTurn n := by
  unfold onAccept
  dsimp only
  rw [h.size, h.index, getIOThread_turn hn]
  refine ⟨(List.length_modify _ _ _).trans h.size, ?_, ?_⟩
  · show (v.conns ++ [_]).map _ = (List.range (v.conns ++ [_]).length).map _
    rw [List.map_append, h.turn, List.length_append, List.length_singleton, List.range_succ,
      List.map_append]
    rfl
  · show (↑(v.conns.length % n + 1) : Int) = if (v.conns ++ [_]).length = 0 then (0 : Int)
      else ↑(((v.conns ++ [_]).length - 1) % n + 1)
    rw [List.length_append, List.length_singleton, if_neg (Nat.succ_ne_zero _),
      Nat.add_sub_cancel]

theorem execute_inTurn {n : Nat} (h : v.InTurn n) (io_thread : Nat) (grant : Bool)
    (effects : List CallbackEffect) (task : ServerTask) :
    (v.execute io_thread grant effects task).InTurn n := by
  cases task with
  | addToEpoll fd => exact h.of_eq (List.length_modify _ _ _) rfl rfl
  | callback i =>
    show (v.callback i effects).InTurn n
    unfold callback
    split
    · refine List.foldlRecOn effects _ h fun w hw e _ => ?_
      obtain ⟨hlen, hindex⟩ := effect_loops_length w i e
      exact hw.of_eq hlen (effect_threads w i e) hindex
    · exact h

theorem step_inTurn {n : Nat} (hn : 0 < n) {op : TcpServerOp} (h : v.InTurn n)
    (hs : v.step op = some v') : v'.InTurn n := by
  cases op with
  | onAccept client_fd =>
    cases client_fd with
    | none =>
      cases hs
      exact h
    | some fd =>
      obtain ⟨-, hs⟩ := Option.ite_none_left_eq_some.mp hs
      cases hs
      exact onAccept_inTurn hn h fd
  | runTask io_thread grant effects =>
    obtain ⟨l, task, tasks, -, -, -, rfl⟩ := runTask_cases hs
    have hleave : (v.leave io_thread tasks).InTurn n := h.of_eq (List.length_modify _ _ _) rfl rfl
    exact execute_inTurn hleave io_thread grant effects task
  | event io_thread fd epollin epollout is_terminal =>
    obtain ⟨l, -, hs⟩ := Option.bind_eq_some_iff.mp hs
    obtain ⟨-, hs⟩ := Option.ite_none_right_eq_some.mp hs
    cases hs
    exact h.of_eq (List.length_modify _ _ _) rfl rfl
  | ClearClientTimerFunc =>
    cases hs
    exact h.of_eq rfl rfl rfl
  | stopLoop io_thread =>
    cases hs
    exact h.of_eq (List.length_modify _ _ _) rfl rfl
  | foreignReply i =>
    obtain ⟨c, -, rfl⟩ := Option.map_eq_some_iff.mp hs
    split
    · exact h
    · exact h.of_eq (List.length_modify _ _ _) rfl rfl

theorem init_inTurn (m_io_threads : Nat) : (init m_io_threads).InTurn m_io_threads :=
  ⟨List.length_replicate, rfl, rfl⟩

theorem count_turns {n : Nat} {k : Nat} (hk : k < n) (m : Nat) :
    ((List.range m).map (· % n)).count k = Nat.count (· ≡ k [MOD n]) m := by
  induction m with
  | zero => rfl
  | succ m ih =>
    rw [List.range_succ, List.map_append, List.count_append, ih, Nat.count_succ, List.map_singleton,
      List.count_singleton]
    have hmod : (m ≡ k [MOD n]) ↔ (m % n == k) = true := by
      rw [beq_iff_eq]
      show m % n = k % n ↔ _
      rw [Nat.mod_eq_of_lt hk]
    rw [if_congr hmod rfl rfl]

end Steps

/-! ### Runs -/

/-- The connections given to an IO thread. -/
def given (v : TcpServer) (k : Nat) : Nat := (v.conns.map Accepted.io_thread).count k

section Runs

variable {v : TcpServer} {m_io_threads : Nat} {ops : List TcpServerOp}

theorem run_accounted (hrun : Run (fun v op v' => step v op = some v') (init m_io_threads) ops v) :
    v.Accounted :=
  Run.invariant (I := Accounted) (fun h hs => step_accounted h hs) hrun (init_accounted _)

/-- **The IO threads get the connections in turn**: in every run thread `k` has been given one in
`m_io_threads` of them, and one of those left over if there are more than `k`. -/
theorem server_balanced (hn : 0 < m_io_threads)
    (hrun : Run (fun v op v' => step v op = some v') (init m_io_threads) ops v) {k : Nat}
    (hk : k < m_io_threads) :
    v.given k = v.conns.length / m_io_threads +
        (if k < v.conns.length % m_io_threads then 1 else 0) ∧
      ∀ j, v.given j ≤ v.given k + 1 := by
  have h : v.InTurn m_io_threads :=
    Run.invariant (I := InTurn m_io_threads) (fun h hs => step_inTurn hn h hs) hrun
      (init_inTurn _)
  have hgiven : ∀ k, k < m_io_threads → v.given k = v.conns.length / m_io_threads +
      (if k < v.conns.length % m_io_threads then 1 else 0) := by
    intro k hk
    unfold given
    rw [h.turn, count_turns hk, Nat.count_modEq_card _ hn, Nat.mod_eq_of_lt hk]
  refine ⟨hgiven k hk, fun j => ?_⟩
  by_cases hj : j < m_io_threads
  · rw [hgiven k hk, hgiven j hj]
    split <;> split <;> omega
  · -- there is no such thread
    have hzero : v.given j = 0 := by
      unfold given
      rw [h.turn, List.count_eq_zero]
      intro hmem
      obtain ⟨i, -, hi⟩ := List.mem_map.mp hmem
      exact hj (hi ▸ Nat.mod_lt i hn)
    rw [hzero]
    exact Nat.zero_le _

/-- Three connections on two threads, the first closed by its peer. -/
def threeAccepts : List TcpServerOp :=
  [.onAccept (some 7), .onAccept (some 8), .runTask 0 true [], .event 0 7 true false true,
    .runTask 0 true [.clear], .onAccept (some 7)]

theorem server_balanced_three : ∃ v,
    Run (fun v op v' => step v op = some v') (init 2) threeAccepts v ∧ v.conns.length = 3 ∧
      v.given 0 = 2 ∧ ∀ j, v.given j ≤ v.given 1 + 1 :=
  have hrun : Run (fun v op v' => step v op = some v') (init 2) threeAccepts _ :=
    Run.of_foldlM rfl
  ⟨_, hrun, rfl, (server_balanced (by decide) hrun (by decide)).1,
    (server_balanced (by decide) hrun (by decide)).2⟩

/-- **No descriptor is lost and none is used twice**: in every run the open descriptors are those
of the connections that are not closed; each of these is in `m_client` and has its number to
itself; a sweep leaves exactly these in `m_client`; and the server, whenever it is destroyed,
leaves no descriptor open. -/
theorem server_accounts
    (hrun : Run (fun v op v' => step v op = some v') (init m_io_threads) ops v) :
    (∀ fd, fd ∈ v.opened ↔ ∃ (i : Nat) (c : Accepted), v.conns[i]? = some c ∧ c.closed = false ∧
        c.fd = fd ∧ i ∈ v.m_client) ∧
      (∀ (i j : Nat) (c d : Accepted), v.conns[i]? = some c → c.closed = false →
        v.conns[j]? = some d → d.closed = false → d.fd = c.fd → j = i) ∧
      (∀ v', v.step .ClearClientTimerFunc = some v' →
        ∀ i, i ∈ v'.m_client ↔ ∃ c : Accepted, v'.conns[i]? = some c ∧ c.closed = false) ∧
      v.destroy.opened = ∅ := by
  have h := run_accounted hrun
  refine ⟨fun fd => ?_, fun i j c d hi hc hj hd => h.unique hi hc hj hd, fun v' hs i => ?_,
    h.destroy_opened⟩
  · rw [h.opened]
    constructor
    · rintro ⟨i, hi⟩
      obtain ⟨c, hc, hopen, hfd⟩ := h.slot.mp hi
      exact ⟨i, c, hc, hopen, hfd, h.client hc hopen⟩
    · rintro ⟨i, c, hc, hopen, hfd, -⟩
      exact ⟨i, h.slot.mpr ⟨c, hc, hopen, hfd⟩⟩
  · have h' := step_accounted h hs
    refine ⟨fun hi => ?_, fun ⟨c, hc, hopen⟩ => h'.client hc hopen⟩
    cases hs
    obtain ⟨hmem, hall⟩ := List.mem_filter.mp hi
    have hc := List.getElem?_eq_getElem (h.known hmem)
    rw [hc, Option.all_some] at hall
    exact ⟨_, hc, by simpa using hall⟩

theorem server_accounts_three : ∃ v,
    Run (fun v op v' => step v op = some v') (init 2) threeAccepts v ∧ v.opened = {7, 8} ∧
      v.m_client = [0, 1, 2] ∧ v.destroy.opened = ∅ :=
  have hrun : Run (fun v op v' => step v op = some v') (init 2) threeAccepts _ :=
    Run.of_foldlM rfl
  ⟨_, hrun, by decide, rfl, (server_accounts hrun).2.2.2⟩

end Runs

end TcpServer

end KaiRPC
