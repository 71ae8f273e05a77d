import KaiRPC.Tcp.Server

/-!
# What the sub-reactors listen to

Each loop has an epoll set of its own, and a descriptor has one fd event for all of them; so a
descriptor on two loops would have the callbacks of one connection run on two threads.  A
registration that is queued on a loop is the danger: it names the descriptor, not the connection,
and by the time it runs the number may belong to another.

* `server_isolates`: **a descriptor is watched by the loop of its connection and by no other**, in
  every run in which responses are given on the loop's own thread; `foreign_reply_watches` is a
  run in which one is not.
* `server_registers`: **the loop of a connection has listened to it as soon as it has run what was
  queued on it**, whatever the other threads do, if it is not closed and the loop not stopped.
-/

namespace KaiRPC

namespace TcpServer

/-! ### Loops -/

/-- Loop `k` has an open connection on the descriptor. -/
def Serves (v : TcpServer) (k fd : Nat) : Prop :=
  ∃ (i : Nat) (c : Accepted), v.conns[i]? = some c ∧ c.closed = false ∧ c.fd = fd ∧
    c.io_thread = k

/-- What loop `k` listens to, and what is queued on it, belongs to its own connections. -/
structure LoopOf (v : TcpServer) (k : Nat) (l : SubLoop) : Prop where
  listens : ∀ fd ∈ l.m_listen_fds, v.Serves k fd
  epoll : l.epoll ⊆ l.m_listen_fds
  queued : ∀ fd, .addToEpoll fd ∈ l.m_pending_tasks →
    v.Serves k fd ∧ fd ∉ l.m_listen_fds ∧ l.m_pending_tasks.count (.addToEpoll fd) = 1
  callbacks : ∀ i, .callback i ∈ l.m_pending_tasks → ∃ c, v.conns[i]? = some c ∧
    c.io_thread = k ∧ (c.closed = false → .addToEpoll c.fd ∉ l.m_pending_tasks)

def Isolated (v : TcpServer) : Prop :=
  ∀ (k : Nat) (l : SubLoop), v.loops[k]? = some l → v.LoopOf k l

section Steps

variable {v v' : TcpServer}

theorem LoopOf.congr {k : Nat} {l : SubLoop} (h : v.LoopOf k l)
    (hconns : ∀ {i : Nat} {c}, v.conns[i]? = some c → v'.conns[i]? = some c) : v'.LoopOf k l := by
  have hs : ∀ {fd}, v.Serves k fd → v'.Serves k fd := by
    rintro fd ⟨i, c, hi, hrest⟩
    exact ⟨i, c, hconns hi, hrest⟩
  refine ⟨fun fd hfd => hs (h.listens fd hfd), h.epoll, fun fd hfd => ?_, fun i hi => ?_⟩
  · obtain ⟨h1, h2⟩ := h.queued fd hfd
    exact ⟨hs h1, h2⟩
  · obtain ⟨c, hc, hrest⟩ := h.callbacks i hi
    exact ⟨c, hconns hc, hrest⟩

theorem LoopOf.addToEpollTask {k : Nat} {l : SubLoop} (h : v.LoopOf k l) {fd : Nat}
    (hs : v.Serves k fd) (hl : fd ∉ l.m_listen_fds)
    (hq : .addToEpoll fd ∉ l.m_pending_tasks)
    (hcb : ∀ i c, .callback i ∈ l.m_pending_tasks → v.conns[i]? = some c → c.closed = false →
      c.fd ≠ fd) : v.LoopOf k (l.addTask (.addToEpoll fd)) := by
  unfold SubLoop.addTask
  split
  · exact h
  refine ⟨h.listens, h.epoll, fun fd' hfd' => ?_, fun i hi => ?_⟩
  · rcases List.mem_append.mp hfd' with hfd' | hfd'
    · obtain ⟨h1, h2, h3⟩ := h.queued fd' hfd'
      have hne : fd' ≠ fd := fun he => hq (he ▸ hfd')
      refine ⟨h1, h2, ?_⟩
      rw [List.count_append, h3, List.count_singleton,
        if_neg (by simpa using fun he => hne he.symm)]
    · rw [List.mem_singleton] at hfd'
      cases hfd'
      refine ⟨hs, hl, ?_⟩
      rw [List.count_append, List.count_eq_zero_of_not_mem hq, List.count_singleton]
      simp
  · rcases List.mem_append.mp hi with hold | hnew
    · obtain ⟨c, hc, hk, hno⟩ := h.callbacks i hold
      refine ⟨c, hc, hk, fun hopen hmem => ?_⟩
      rcases List.mem_append.mp hmem with hmem | hmem
      · exact hno hopen hmem
      · rw [List.mem_singleton] at hmem
        cases hmem
        exact hcb i c hold hc hopen rfl
    · rw [List.mem_singleton] at hnew
      cases hnew

theorem LoopOf.callbackTask {k : Nat} {l : SubLoop} (h : v.LoopOf k l) {i : Nat} {c : Accepted}
    (hi : v.conns[i]? = some c) (hk : c.io_thread = k)
    (hq : .addToEpoll c.fd ∉ l.m_pending_tasks) :
    v.LoopOf k (l.addTask (.callback i)) ∧
      .addToEpoll c.fd ∉ (l.addTask (.callback i)).m_pending_tasks := by
  unfold SubLoop.addTask
  split
  · exact ⟨h, hq⟩
  have hkeep : ∀ fd, .addToEpoll fd ∈ l.m_pending_tasks ++ [.callback i] →
      ServerTask.addToEpoll fd ∈ l.m_pending_tasks := by
    intro fd hfd
    rcases List.mem_append.mp hfd with hfd | hfd
    · exact hfd
    · rw [List.mem_singleton] at hfd
      cases hfd
  refine ⟨⟨h.listens, h.epoll, fun fd hfd => ?_, fun j hj => ?_⟩, fun hmem => hq (hkeep _ hmem)⟩
  · obtain ⟨h1, h2, h3⟩ := h.queued fd (hkeep fd hfd)
    refine ⟨h1, h2, ?_⟩
    rw [List.count_append, h3]
    rfl
  · rcases List.mem_append.mp hj with hold | hnew
    · obtain ⟨d, hd, hdk, hno⟩ := h.callbacks j hold
      exact ⟨d, hd, hdk, fun hopen hmem => hno hopen (hkeep _ hmem)⟩
    · rw [List.mem_singleton] at hnew
      cases hnew
      exact ⟨c, hi, hk, fun _ hmem => hq (hkeep _ hmem)⟩

theorem deleteToEpoll_queue (l : SubLoop) (fd : Nat) :
    (l.deleteToEpoll fd).m_pending_tasks = l.m_pending_tasks ∧
      (l.deleteToEpoll fd).m_stop_flag = l.m_stop_flag := by
  unfold SubLoop.deleteToEpoll
  split <;> exact ⟨rfl, rfl⟩

theorem LoopOf.delete {k : Nat} {l : SubLoop} (h : v.LoopOf k l) (fd : Nat) :
    v.LoopOf k (l.deleteToEpoll fd) := by
  unfold SubLoop.deleteToEpoll
  split
  · refine ⟨fun fd' hfd' => h.listens fd' (Finset.mem_of_mem_erase hfd'),
      Finset.erase_subset_erase _ h.epoll, fun fd' hfd' => ?_, h.callbacks⟩
    obtain ⟨h1, h2, h3⟩ := h.queued fd' hfd'
    exact ⟨h1, fun hmem => h2 (Finset.mem_of_mem_erase hmem), h3⟩
  · exact h

theorem LoopOf.add {k : Nat} {l : SubLoop} (h : v.LoopOf k l) {fd : Nat} (hs : v.Serves k fd)
    (hq : .addToEpoll fd ∉ l.m_pending_tasks) (grant : Bool) :
    v.LoopOf k (l.addToEpoll fd grant) := by
  refine ⟨fun fd' hfd' => ?_, ?_, fun fd' hfd' => ?_, h.callbacks⟩
  · rcases Finset.mem_insert.mp hfd' with rfl | hfd'
    · exact hs
    · exact h.listens fd' hfd'
  · show (if grant then insert fd l.epoll else l.epoll) ⊆ insert fd l.m_listen_fds
    split
    · exact Finset.insert_subset_insert _ h.epoll
    · exact h.epoll.trans (Finset.subset_insert _ _)
  · obtain ⟨h1, h2, h3⟩ := h.queued fd' hfd'
    refine ⟨h1, fun hmem => ?_, h3⟩
    rcases Finset.mem_insert.mp hmem with rfl | hmem
    · exact hq hfd'
    · exact h2 hmem

theorem LoopOf.pop {k : Nat} {l : SubLoop} (h : v.LoopOf k l) {task : ServerTask}
    {tasks : List ServerTask} (hl : l.m_pending_tasks = task :: tasks) :
    v.LoopOf k { l with m_pending_tasks := tasks } := by
  have hmem : ∀ t, t ∈ tasks → t ∈ l.m_pending_tasks := by
    intro t ht
    rw [hl]
    exact List.mem_cons_of_mem _ ht
  refine ⟨h.listens, h.epoll, fun fd hfd => ?_, fun i hi => ?_⟩
  · obtain ⟨h1, h2, h3⟩ := h.queued fd (hmem _ hfd)
    refine ⟨h1, h2, ?_⟩
    have hpos : 0 < tasks.count (.addToEpoll fd) := List.count_pos_iff.mpr hfd
    have hle : tasks.count (.addToEpoll fd) ≤ l.m_pending_tasks.count (.addToEpoll fd) := by
      rw [hl]
      exact List.count_le_count_cons
    show tasks.count (.addToEpoll fd) = 1
    omega
  · obtain ⟨c, hc, hk, hno⟩ := h.callbacks i (hmem _ hi)
    exact ⟨c, hc, hk, fun hopen hq => hno hopen (hmem _ hq)⟩

theorem LoopOf.close {k : Nat} {l : SubLoop} (h : v.LoopOf k l) {i : Nat} {c : Accepted}
    (hi : v.conns[i]? = some c)
    (hconns : v'.conns = v.conns.set i { c with closed := true })
    (hq : c.io_thread = k → c.fd ∉ l.m_listen_fds ∧ .addToEpoll c.fd ∉ l.m_pending_tasks) :
    v'.LoopOf k l := by
  have hlt : i < v.conns.length := (List.getElem?_eq_some_iff.mp hi).1
  -- a descriptor the loop serves through another connection is still served
  have hs : ∀ fd, (c.io_thread = k → c.fd ≠ fd) → v.Serves k fd → v'.Serves k fd := by
    rintro fd hne ⟨j, d, hj, hd, hfd, hk⟩
    refine ⟨j, d, ?_, hd, hfd, hk⟩
    have hij : i ≠ j := by
      rintro rfl
      rw [hi] at hj
      cases hj
      exact hne hk hfd
    rw [hconns, List.getElem?_set_ne hij]
    exact hj
  refine ⟨fun fd hfd => ?_, h.epoll, fun fd hfd => ?_, fun j hj => ?_⟩
  · refine hs fd (fun hk he => ?_) (h.listens fd hfd)
    subst he
    exact (hq hk).1 hfd
  · obtain ⟨h1, h2⟩ := h.queued fd hfd
    refine ⟨hs fd (fun hk he => ?_) h1, h2⟩
    subst he
    exact (hq hk).2 hfd
  · obtain ⟨d, hd, hdk, hno⟩ := h.callbacks j hj
    by_cases hij : i = j
    · subst hij
      rw [hi] at hd
      cases hd
      refine ⟨{ c with closed := true }, ?_, hdk, fun hcl => (by cases hcl)⟩
      rw [hconns, List.getElem?_set_self hlt]
    · refine ⟨d, ?_, hdk, hno⟩
      rw [hconns, List.getElem?_set_ne hij]
      exact hd

theorem LoopOf.forget {k : Nat} {l : SubLoop} (h : v.LoopOf k l) (fd : Nat) :
    v.LoopOf k (l.forget fd) :=
  ⟨h.listens, (Finset.erase_subset _ _).trans h.epoll, h.queued, h.callbacks⟩

theorem modify_some {loops : List SubLoop} {f : SubLoop → SubLoop} {k j : Nat} {l : SubLoop}
    (h : (loops.modify k f)[j]? = some l) :
    ∃ l', loops[j]? = some l' ∧ l = if k = j then f l' else l' := by
  rw [List.getElem?_modify] at h
  obtain ⟨l', hl', rfl⟩ := Option.map_eq_some_iff.mp h
  exact ⟨l', hl', rfl⟩

theorem Isolated.modify (h : v.Isolated) {k : Nat} {f : SubLoop → SubLoop}
    (hloops : v'.loops = v.loops.modify k f)
    (hother : ∀ {j l}, v.LoopOf j l → v'.LoopOf j l)
    (hk : ∀ l, v.loops[k]? = some l → v'.LoopOf k (f l)) : v'.Isolated := by
  intro j l hl
  rw [hloops] at hl
  obtain ⟨l', hl', rfl⟩ := modify_some hl
  by_cases hj : k = j
  · subst hj
    rw [if_pos rfl]
    exact hk l' hl'
  · rw [if_neg hj]
    exact hother (h j l' hl')

theorem clear_loops {i k : Nat} {c : Accepted} {l : SubLoop}
    (h : (v.clear i c).loops[k]? = some l) : ∃ l', v.loops[k]? = some l' ∧
      l = (if c.io_thread = k then l'.deleteToEpoll c.fd else l').forget c.fd := by
  have h : ((v.loops.modify c.io_thread fun l => l.deleteToEpoll c.fd).map
    fun l => l.forget c.fd)[k]? = some l := h
  rw [List.getElem?_map] at h
  obtain ⟨l₁, hl₁, rfl⟩ := Option.map_eq_some_iff.mp h
  obtain ⟨l₀, hl₀, rfl⟩ := modify_some hl₁
  exact ⟨l₀, hl₀, rfl⟩

theorem clear_isolated (h : v.Isolated) {i : Nat} {c : Accepted} (hi : v.conns[i]? = some c)
    (hq : ∀ l : SubLoop, v.loops[c.io_thread]? = some l →
      .addToEpoll c.fd ∉ l.m_pending_tasks) : (v.clear i c).Isolated := by
  intro k l hl
  obtain ⟨l', hl', rfl⟩ := clear_loops hl
  refine LoopOf.forget ?_ c.fd
  split
  · -- the connection's own loop no longer listens to it
    rename_i hk
    subst hk
    refine ((h c.io_thread l' hl').delete c.fd).close hi rfl fun _ => ⟨?_, ?_⟩
    · unfold SubLoop.deleteToEpoll
      split
      · exact Finset.notMem_erase _ _
      · assumption
    · have hno := hq l' hl'
      unfold SubLoop.deleteToEpoll
      split <;> exact hno
  · rename_i hk
    exact (h k l' hl').close hi rfl fun he => absurd he hk

/-- **One effect of a callback**, for whose connection nothing is queued. -/
theorem effect_isolated (h : v.Isolated) {i : Nat} (e : CallbackEffect)
    (hq : ∀ (c : Accepted) (l : SubLoop), v.conns[i]? = some c → c.closed = false →
      v.loops[c.io_thread]? = some l → .addToEpoll c.fd ∉ l.m_pending_tasks) :
    (v.effect i e).Isolated := by
  unfold effect
  split
  · exact h
  rename_i c hi
  split
  · exact h
  rename_i hclosed
  have hopen : c.closed = false := by simpa using hclosed
  cases e with
  | listen grant =>
    refine h.modify rfl (fun hl => hl.congr id) fun l hl => ?_
    have hadd := (h c.io_thread l hl).add ⟨i, c, hi, hopen, rfl, rfl⟩ (hq c l hi hopen hl) grant
    exact hadd.congr id
  | clear => exact clear_isolated h hi fun l hl => hq c l hi hopen hl

theorem effect_queues (v : TcpServer) (i : Nat) (e : CallbackEffect) :
    (∀ (k : Nat) (l : SubLoop), (v.effect i e).loops[k]? = some l →
        ∃ l' : SubLoop, v.loops[k]? = some l' ∧ l.m_pending_tasks = l'.m_pending_tasks ∧
          l.m_stop_flag = l'.m_stop_flag) ∧
      (∀ (j : Nat) (c : Accepted), (v.effect i e).conns[j]? = some c → c.closed = false →
        v.conns[j]? = some c) ∧ (v.effect i e).registered = v.registered := by
  unfold effect
  split
  · exact ⟨fun k l hl => ⟨l, hl, rfl, rfl⟩, fun j c hj _ => hj, rfl⟩
  rename_i c hi
  split
  · exact ⟨fun k l hl => ⟨l, hl, rfl, rfl⟩, fun j c hj _ => hj, rfl⟩
  have hlt : i < v.conns.length := (List.getElem?_eq_some_iff.mp hi).1
  cases e with
  | listen grant =>
    refine ⟨fun k l hl => ?_, fun j c hj _ => hj, rfl⟩
    obtain ⟨l', hl', rfl⟩ := modify_some hl
    refine ⟨l', hl', ?_⟩
    by_cases hk : c.io_thread = k
    · rw [if_pos hk]
      exact ⟨rfl, rfl⟩
    · rw [if_neg hk]
      exact ⟨rfl, rfl⟩
  | clear =>
    refine ⟨fun k l hl => ?_, fun j d hj hd => ?_, rfl⟩
    · obtain ⟨l', hl', rfl⟩ := clear_loops hl
      refine ⟨l', hl', ?_⟩
      unfold SubLoop.forget SubLoop.deleteToEpoll
      by_cases hk : c.io_thread = k
      · rw [if_pos hk]
        split <;> exact ⟨rfl, rfl⟩
      · rw [if_neg hk]
        exact ⟨rfl, rfl⟩
    · have hj : (v.conns.set i { c with closed := true })[j]? = some d := hj
      rw [List.getElem?_set] at hj
      split at hj
      · cases hj
        cases hd
      · exact hj

theorem callback_isolated (h : v.Isolated) {i : Nat} (effects : List CallbackEffect)
    (hq : ∀ (c : Accepted) (l : SubLoop), v.conns[i]? = some c → c.closed = false →
      v.loops[c.io_thread]? = some l → .addToEpoll c.fd ∉ l.m_pending_tasks) :
    (v.callback i effects).Isolated := by
  unfold callback
  split
  · clear * - h hq
    induction effects generalizing v with
    | nil => exact h
    | cons e effects ih =>
      obtain ⟨hloops, hconns, -⟩ := effect_queues v i e
      refine ih (effect_isolated h e hq) fun c l hc hopen hl => ?_
      obtain ⟨l', hl', hp, -⟩ := hloops _ l hl
      rw [hp]
      exact hq c l' (hconns i c hc hopen) hopen hl'
  · exact h

theorem conns_append {conns : List Accepted} {c d : Accepted} {i : Nat}
    (h : conns[i]? = some d) : (conns ++ [c])[i]? = some d := by
  have hlt : i < conns.length := (List.getElem?_eq_some_iff.mp h).1
  rw [List.getElem?_append_left hlt]
  exact h

theorem construct_isolated (hacc : v.Accounted) (h : v.Isolated) {fd : Nat} (hfd : fd ∉ v.opened)
    (io_thread : Nat) : (v.construct fd io_thread).Isolated := by
  have hgrow : ∀ {k l}, v.LoopOf k l → (v.construct fd io_thread).LoopOf k l :=
    fun hl => hl.congr conns_append
  -- the number is free: no loop has anything of it
  have hfree : ∀ {i : Nat} {c : Accepted}, v.conns[i]? = some c → c.closed = false → c.fd ≠ fd := by
    intro i c hi hc he
    exact hfd (hacc.opened.mpr ⟨i, hacc.slot.mpr ⟨c, hi, hc, he⟩⟩)
  have hserves : ∀ {k}, ¬ v.Serves k fd := by
    rintro k ⟨i, c, hi, hc, he, -⟩
    exact hfree hi hc he
  refine h.modify rfl hgrow fun l hl => ?_
  have hl' := h io_thread l hl
  refine (hgrow hl').addToEpollTask ⟨v.conns.length, { fd := fd, io_thread := io_thread }, ?_, rfl,
    rfl, rfl⟩ (fun hmem => hserves (hl'.listens fd hmem))
    (fun hmem => hserves (hl'.queued fd hmem).1)
    fun i c hi hc hopen => ?_
  · show (v.conns ++ [_])[v.conns.length]? = _
    rw [List.getElem?_append_right (Nat.le_refl _), Nat.sub_self]
    rfl
  · obtain ⟨d, hd, -⟩ := hl'.callbacks i hi
    have hd' : (v.construct fd io_thread).conns[i]? = some d := conns_append hd
    rw [hc] at hd'
    cases hd'
    exact hfree hd hopen

theorem onAccept_isolated (hacc : v.Accounted) (h : v.Isolated) {fd : Nat} (hfd : fd ∉ v.opened) :
    (v.onAccept fd).Isolated := by
  unfold onAccept
  dsimp only
  split
  · exact fun k l hl => (h k l hl).congr id
  · rename_i io_thread m_index _
    exact construct_isolated
      (v := { v with m_client_counts := v.m_client_counts + 1, m_index := m_index })
      (hacc.of_eq rfl rfl rfl rfl) (fun k l hl => (h k l hl).congr id) hfd io_thread

theorem runTask_isolated (h : v.Isolated) {io_thread : Nat} {grant : Bool}
    {effects : List CallbackEffect} (hs : v.runTask io_thread grant effects = some v') :
    v'.Isolated := by
  obtain ⟨l, task, tasks, hl, -, htasks, rfl⟩ := runTask_cases hs
  have hl' := h io_thread l hl
  have hleave : (v.leave io_thread tasks).Isolated := by
    refine h.modify rfl (fun hl => hl.congr id) fun l₁ hl₁ => ?_
    rw [hl] at hl₁
    cases hl₁
    exact (hl'.pop htasks).congr id
  have hat : ∀ l₁ : SubLoop, (v.leave io_thread tasks).loops[io_thread]? = some l₁ →
      l₁ = { l with m_pending_tasks := tasks } := by
    intro l₁ hl₁
    obtain ⟨l₂, hl₂, rfl⟩ := modify_some hl₁
    rw [hl] at hl₂
    cases hl₂
    exact if_pos rfl
  cases task with
  | addToEpoll fd =>
    obtain ⟨hserves, -, hcount⟩ := hl'.queued fd (by rw [htasks]; exact List.mem_cons_self)
    refine hleave.modify rfl (fun hl => hl.congr id) fun l₁ hl₁ => ?_
    have hone := hleave io_thread l₁ hl₁
    have hno : ServerTask.addToEpoll fd ∉ l₁.m_pending_tasks := by
      rw [hat l₁ hl₁]
      rw [htasks, List.count_cons_self] at hcount
      exact List.count_eq_zero.mp (Nat.succ.inj hcount)
    exact (hone.add hserves hno grant).congr id
  | callback i =>
    obtain ⟨c, hc, hk, hno⟩ := hl'.callbacks i (by rw [htasks]; exact List.mem_cons_self)
    refine callback_isolated hleave effects fun d l₁ hd hopen hl₁ => ?_
    have hd : v.conns[i]? = some d := hd
    rw [hc] at hd
    cases hd
    rw [hk] at hl₁
    rw [hat l₁ hl₁]
    intro hmem
    exact hno hopen (by rw [htasks]; exact List.mem_cons_of_mem _ hmem)

/-- **One event**: its callbacks are queued for the connection that the loop serves. -/
theorem LoopOf.trigger {k fd i : Nat} {l : SubLoop} (h : v.LoopOf k l) {c : Accepted}
    (hi : v.conns[i]? = some c) (hk : c.io_thread = k)
    (hq : .addToEpoll c.fd ∉ l.m_pending_tasks) (epollin epollout is_terminal : Bool) :
    v.LoopOf k (l.trigger fd (some i) epollin epollout is_terminal) := by
  -- each of the three callbacks is queued, or not, on the loop behind the others
  have hadd : ∀ (b : Bool) {l : SubLoop}, v.LoopOf k l → .addToEpoll c.fd ∉ l.m_pending_tasks →
      v.LoopOf k (if b then l.addTask (.callback i) else l) ∧
        .addToEpoll c.fd ∉ (if b then l.addTask (.callback i) else l).m_pending_tasks := by
    intro b l hl hno
    cases b with
    | false => exact ⟨hl, hno⟩
    | true => exact hl.callbackTask hi hk hno
  obtain ⟨h1, hq1⟩ := hadd epollin h hq
  obtain ⟨h2, hq2⟩ := hadd (epollout && !is_terminal) h1 hq1
  unfold SubLoop.trigger
  dsimp only [Option.elim_some]
  split
  · refine ((h2.delete fd).callbackTask hi hk ?_).1
    rw [(deleteToEpoll_queue _ fd).1]
    exact hq2
  · exact h2

theorem event_isolated (hacc : v.Accounted) (h : v.Isolated) {io_thread fd : Nat}
    {epollin epollout is_terminal : Bool}
    (hs : v.event io_thread fd epollin epollout is_terminal = some v') : v'.Isolated := by
  obtain ⟨l, hl, hs⟩ := Option.bind_eq_some_iff.mp hs
  obtain ⟨hfd, hs⟩ := Option.ite_none_right_eq_some.mp hs
  cases hs
  refine h.modify rfl (fun hl => hl.congr id) fun l₁ hl₁ => ?_
  rw [hl] at hl₁
  cases hl₁
  have hl' := h io_thread l hl
  have hlisten : fd ∈ l.m_listen_fds := hl'.epoll hfd
  -- the connection in the slot is the one the loop serves
  obtain ⟨i, c, hi, hopen, rfl, hk⟩ := hl'.listens fd hlisten
  rw [hacc.slot.mpr ⟨c, hi, hopen, rfl⟩]
  have hq : ServerTask.addToEpoll c.fd ∉ l.m_pending_tasks :=
    fun hmem => (hl'.queued _ hmem).2.1 hlisten
  exact (hl'.trigger hi hk hq epollin epollout is_terminal).congr id

/-- A response is given on the loop's own thread. -/
def OnLoop : TcpServerOp → Prop
  | .foreignReply _ => False
  | _ => True

instance : DecidablePred OnLoop
  | .foreignReply _ => isFalse id
  | .onAccept _ => isTrue trivial
  | .runTask _ _ _ => isTrue trivial
  | .event _ _ _ _ _ => isTrue trivial
  | .ClearClientTimerFunc => isTrue trivial
  | .stopLoop _ => isTrue trivial

theorem init_isolated (m_io_threads : Nat) : (init m_io_threads).Isolated := by
  intro k l hl
  have hl : (List.replicate m_io_threads ({} : SubLoop))[k]? = some l := hl
  obtain ⟨-, rfl⟩ := List.getElem?_eq_some_iff.mp hl
  rw [List.getElem_replicate]
  exact ⟨fun fd hfd => absurd hfd (Finset.notMem_empty fd), Finset.Subset.refl _,
    fun fd hfd => absurd hfd List.not_mem_nil, fun i hi => absurd hi List.not_mem_nil⟩

theorem step_isolated {op : TcpServerOp} (hacc : v.Accounted) (h : v.Isolated) (hop : OnLoop op)
    (hs : v.step op = some v') : v'.Isolated := by
  cases op with
  | onAccept client_fd =>
    cases client_fd with
    | none =>
      cases hs
      exact h
    | some fd =>
      obtain ⟨hfd, hs⟩ := Option.ite_none_left_eq_some.mp hs
      cases hs
      exact onAccept_isolated hacc h hfd
  | runTask io_thread grant effects => exact runTask_isolated h hs
  | event io_thread fd epollin epollout is_terminal => exact event_isolated hacc h hs
  | ClearClientTimerFunc =>
    cases hs
    exact fun k l hl => (h k l hl).congr id
  | stopLoop io_thread =>
    cases hs
    refine h.modify rfl (fun hl => hl.congr id) fun l hl => ?_
    have hl' := h io_thread l hl
    exact (LoopOf.congr ⟨hl'.listens, hl'.epoll, hl'.queued, hl'.callbacks⟩ id)
  | foreignReply i => exact hop.elim

/-! ### Registration -/

/-- The registration of connection `i` is among the first `n` tasks of its loop, or has run there;
or the connection is closed, or the loop stopped. -/
def Awaits (v : TcpServer) (i n : Nat) : Prop :=
  ∀ (c : Accepted) (l : SubLoop), v.conns[i]? = some c → c.closed = false →
    v.loops[c.io_thread]? = some l → l.m_stop_flag = false →
    .addToEpoll c.fd ∈ l.m_pending_tasks.take n ∨ (c.io_thread, i) ∈ v.registered

/-- Loop `k` has the descriptor of connection `i`, which is open, in `m_listen_fds`. -/
def Listens (v : TcpServer) (k i : Nat) : Prop :=
  ∃ (c : Accepted) (l : SubLoop), v.conns[i]? = some c ∧ c.closed = false ∧
    v.loops[k]? = some l ∧ c.fd ∈ l.m_listen_fds

/-- What a loop may do between two of its tasks. -/
def SubLoop.Grows (l l' : SubLoop) : Prop :=
  l'.m_stop_flag = false → l.m_stop_flag = false ∧ l.m_pending_tasks <+: l'.m_pending_tasks

theorem addTask_grows (l : SubLoop) (task : ServerTask) : SubLoop.Grows l (l.addTask task) := by
  intro hflag
  unfold SubLoop.addTask at hflag ⊢
  split
  · rename_i hf
    rw [if_pos hf] at hflag
    exact ⟨hflag, List.prefix_rfl⟩
  · rename_i hf
    exact ⟨by simpa using hf, List.prefix_append _ _⟩

theorem SubLoop.Grows.trans {l l₁ l' : SubLoop} (h : SubLoop.Grows l l₁)
    (h' : SubLoop.Grows l₁ l') : SubLoop.Grows l l' := by
  intro hflag
  obtain ⟨hf, hp⟩ := h' hflag
  obtain ⟨hf', hp'⟩ := h hf
  exact ⟨hf', hp'.trans hp⟩

theorem trigger_grows (l : SubLoop) (fd : Nat) (handler : Option Nat)
    (epollin epollout is_terminal : Bool) :
    SubLoop.Grows l (l.trigger fd handler epollin epollout is_terminal) := by
  have hrefl : ∀ l, SubLoop.Grows l l := fun l hflag => ⟨hflag, List.prefix_rfl⟩
  have hadd : ∀ l : SubLoop, SubLoop.Grows l (handler.elim l fun i => l.addTask (.callback i)) := by
    intro l
    cases handler with
    | none => exact hrefl l
    | some i => exact addTask_grows l _
  have hif : ∀ (b : Bool) (l : SubLoop),
      SubLoop.Grows l (if b then handler.elim l fun i => l.addTask (.callback i) else l) := by
    intro b l
    cases b with
    | false => exact hrefl l
    | true => exact hadd l
  have hdelete : ∀ l : SubLoop, SubLoop.Grows l (l.deleteToEpoll fd) := by
    intro l hflag
    rw [(deleteToEpoll_queue l fd).2] at hflag
    rw [(deleteToEpoll_queue l fd).1]
    exact ⟨hflag, List.prefix_rfl⟩
  unfold SubLoop.trigger
  dsimp only
  refine (hif epollin l).trans ((hif (epollout && !is_terminal) _).trans ?_)
  cases is_terminal with
  | false => exact hrefl _
  | true => exact (hdelete _).trans (hadd _)

theorem Awaits.keep {i n : Nat} (h : v.Awaits i n)
    (hconns : ∀ c, v'.conns[i]? = some c → c.closed = false → v.conns[i]? = some c)
    (hloops : ∀ (k : Nat) (l' : SubLoop), v'.loops[k]? = some l' →
      ∃ l : SubLoop, v.loops[k]? = some l ∧ SubLoop.Grows l l')
    (hreg : v.registered ⊆ v'.registered) : v'.Awaits i n := by
  intro c l' hi hopen hl' hflag
  obtain ⟨l, hl, hgrows⟩ := hloops _ l' hl'
  obtain ⟨hf, hp⟩ := hgrows hflag
  refine (h c l (hconns c hi hopen) hopen hl hf).imp (fun hq => ?_) fun hr => hreg hr
  exact (hp.take n).subset hq

theorem Awaits.modify {i n k : Nat} {f : SubLoop → SubLoop} (h : v.Awaits i n)
    (hloops : v'.loops = v.loops.modify k f) (hconns : v'.conns[i]? = v.conns[i]?)
    (hreg : v'.registered = v.registered) (hf : ∀ l, SubLoop.Grows l (f l)) : v'.Awaits i n := by
  refine h.keep (fun c hc _ => hconns ▸ hc) (fun j l' hl' => ?_) (hreg ▸ List.Subset.refl _)
  rw [hloops] at hl'
  obtain ⟨l, hl, rfl⟩ := modify_some hl'
  refine ⟨l, hl, ?_⟩
  split
  · exact hf l
  · exact fun hflag => ⟨hflag, List.prefix_rfl⟩

theorem callback_awaits {i n : Nat} (h : v.Awaits i n) (j : Nat) (effects : List CallbackEffect) :
    (v.callback j effects).Awaits i n := by
  unfold callback
  split
  · refine List.foldlRecOn (motive := fun w => Awaits w i n) effects _ h fun w hw e _ => ?_
    obtain ⟨hloops, hconns, hreg⟩ := effect_queues w j e
    refine hw.keep (hconns i) (fun k l' hl' => ?_) (hreg ▸ List.Subset.refl _)
    obtain ⟨l, hl, hp, hf⟩ := hloops k l' hl'
    exact ⟨l, hl, fun hflag => ⟨hf ▸ hflag, hp ▸ List.prefix_rfl⟩⟩
  · exact h

/-- The step runs a task of loop `k`. -/
def IsTask (k : Nat) : TcpServerOp → Bool
  | .runTask io_thread _ _ => io_thread == k
  | _ => false

/-- **One task**: the queue of its loop is shorter by one. -/
theorem runTask_awaits (hacc : v.Accounted) {i n : Nat} (h : v.Awaits i n) {c₀ : Accepted}
    (hc₀ : v.conns[i]? = some c₀) {io_thread : Nat} {grant : Bool} {effects : List CallbackEffect}
    (hs : v.runTask io_thread grant effects = some v') :
    v'.Awaits i (n - if io_thread = c₀.io_thread then 1 else 0) := by
  obtain ⟨l, task, tasks, hl, hrun, htasks, rfl⟩ := runTask_cases hs
  -- behind the pop: the registration was the task that runs, or is still in the queue
  have hpop : ∀ l' : SubLoop, (v.leave io_thread tasks).loops[c₀.io_thread]? = some l' →
      l'.m_stop_flag = false → c₀.closed = false →
      .addToEpoll c₀.fd ∈ l'.m_pending_tasks.take (n - if io_thread = c₀.io_thread then 1 else 0) ∨
        (c₀.io_thread, i) ∈ v.registered ∨
        io_thread = c₀.io_thread ∧ task = .addToEpoll c₀.fd := by
    intro l' hl' hflag hopen
    obtain ⟨l₀, hl₀, rfl⟩ := modify_some hl'
    by_cases hk : io_thread = c₀.io_thread
    · rw [if_pos hk] at hflag ⊢
      rw [if_pos hk]
      rcases h c₀ l hc₀ hopen (hk ▸ hl) hrun with hq | hr
      · rw [htasks] at hq
        cases n with
        | zero => cases hq
        | succ n =>
          rcases List.mem_cons.mp hq with he | hq
          · exact Or.inr (Or.inr ⟨hk, he.symm⟩)
          · exact Or.inl hq
      · exact Or.inr (Or.inl hr)
    · rw [if_neg hk] at hflag ⊢
      rw [if_neg hk]
      exact (h c₀ l₀ hc₀ hopen hl₀ hflag).imp id Or.inl
  cases task with
  | addToEpoll fd =>
    intro c l' hi hopen hl' hflag
    have hi : v.conns[i]? = some c := hi
    rw [hc₀] at hi
    cases hi
    obtain ⟨l₁, hl₁, rfl⟩ := modify_some hl'
    have hf : l₁.m_stop_flag = false := by
      split at hflag <;> exact hflag
    rcases hpop l₁ hl₁ hf hopen with hq | hr | ⟨hk, he⟩
    · have hp : (if io_thread = c₀.io_thread then l₁.addToEpoll fd grant else l₁).m_pending_tasks =
          l₁.m_pending_tasks := by
        split <;> rfl
      rw [hp]
      exact Or.inl hq
    · exact Or.inr (List.mem_append_left _ hr)
    · -- its own registration runs
      cases he
      refine Or.inr (List.mem_append_right _ ?_)
      show (c₀.io_thread, i) ∈ (v.slot c₀.fd).toList.map fun i => (io_thread, i)
      rw [hacc.slot.mpr ⟨c₀, hc₀, hopen, rfl⟩, hk]
      exact List.mem_singleton_self _
  | callback j =>
    refine callback_awaits (v := v.leave io_thread tasks) ?_ j effects
    intro c l' hi hopen hl' hflag
    have hi : v.conns[i]? = some c := hi
    rw [hc₀] at hi
    cases hi
    exact (hpop l' hl' hflag hopen).imp id fun h => h.resolve_right (by simp)

theorem construct_awaits {i n : Nat} (h : v.Awaits i n) (hlt : i < v.conns.length)
    (fd io_thread : Nat) : (v.construct fd io_thread).Awaits i n :=
  h.modify rfl (List.getElem?_append_left hlt) rfl fun l => addTask_grows l _

theorem construct_awaits_new (v : TcpServer) (fd io_thread : Nat) :
    ∃ n, (v.construct fd io_thread).Awaits v.conns.length n := by
  have hnew : (v.construct fd io_thread).conns[v.conns.length]? =
      some { fd := fd, io_thread := io_thread } := by
    show (v.conns ++ [_])[v.conns.length]? = _
    rw [List.getElem?_append_right (Nat.le_refl _), Nat.sub_self]
    rfl
  cases hl : v.loops[io_thread]? with
  | none =>
    refine ⟨0, fun c l' hi _ hl' _ => ?_⟩
    rw [hnew] at hi
    cases hi
    obtain ⟨l, hl₀, -⟩ := modify_some hl'
    rw [hl] at hl₀
    cases hl₀
  | some l =>
    refine ⟨l.m_pending_tasks.length + 1, fun c l' hi _ hl' hflag => Or.inl ?_⟩
    rw [hnew] at hi
    cases hi
    obtain ⟨l₀, hl₀, rfl⟩ := modify_some hl'
    rw [hl] at hl₀
    cases hl₀
    rw [if_pos rfl] at hflag ⊢
    obtain ⟨hf, -⟩ := addTask_grows l _ hflag
    unfold SubLoop.addTask
    rw [if_neg (by simp [hf])]
    show _ ∈ (l.m_pending_tasks ++ [_]).take _
    rw [List.take_of_length_le (by simp)]
    exact List.mem_append_right _ (List.mem_singleton_self _)

/-- **A step opens a connection, or leaves them on their threads.** -/
theorem step_threads {op : TcpServerOp} (hs : v.step op = some v') :
    v'.conns.map Accepted.io_thread = v.conns.map Accepted.io_thread ∨
      ∃ fd, op = .onAccept (some fd) ∧ v' = v.onAccept fd := by
  cases op with
  | onAccept client_fd =>
    cases client_fd with
    | none =>
      cases hs
      exact Or.inl rfl
    | some fd =>
      obtain ⟨-, hs⟩ := Option.ite_none_left_eq_some.mp hs
      exact Or.inr ⟨fd, rfl, (Option.some.inj hs).symm⟩
  | runTask io_thread grant effects =>
    obtain ⟨l, task, tasks, -, -, -, rfl⟩ := runTask_cases hs
    exact Or.inl (execute_threads _ io_thread grant effects task)
  | event io_thread fd epollin epollout is_terminal =>
    obtain ⟨l, -, hs⟩ := Option.bind_eq_some_iff.mp hs
    obtain ⟨-, hs⟩ := Option.ite_none_right_eq_some.mp hs
    cases hs
    exact Or.inl rfl
  | ClearClientTimerFunc =>
    cases hs
    exact Or.inl rfl
  | stopLoop io_thread =>
    cases hs
    exact Or.inl rfl
  | foreignReply i =>
    obtain ⟨c, -, rfl⟩ := Option.map_eq_some_iff.mp hs
    refine Or.inl ?_
    split <;> rfl

theorem step_conn {op : TcpServerOp} (hs : v.step op = some v') {i : Nat} {c : Accepted}
    (hi : v.conns[i]? = some c) : ∃ c', v'.conns[i]? = some c' ∧ c'.io_thread = c.io_thread := by
  rcases step_threads hs with he | ⟨fd, -, rfl⟩
  · have hmap := congrArg (fun l => l[i]?) he
    rw [List.getElem?_map, List.getElem?_map, hi] at hmap
    exact Option.map_eq_some_iff.mp hmap
  · refine ⟨c, ?_, rfl⟩
    unfold onAccept
    dsimp only
    split
    · exact hi
    · exact conns_append hi

theorem run_conn {ops : List TcpServerOp}
    (hrun : Run (fun v op v' => step v op = some v') v ops v') {i : Nat} :
    ∀ {c c' : Accepted}, v.conns[i]? = some c → v'.conns[i]? = some c' →
      c'.io_thread = c.io_thread := by
  induction hrun with
  | nil v =>
    intro c c' hi hi'
    rw [hi] at hi'
    cases hi'
    rfl
  | cons hs _ ih =>
    intro c c' hi hi'
    obtain ⟨c₁, hi₁, hk⟩ := step_conn hs hi
    exact (ih hi₁ hi').trans hk

theorem step_awaits {op : TcpServerOp} (hacc : v.Accounted) {i n : Nat} (h : v.Awaits i n)
    {c : Accepted} (hi : v.conns[i]? = some c) (hs : v.step op = some v') :
    v'.Awaits i (n - if IsTask c.io_thread op then 1 else 0) := by
  cases op with
  | onAccept client_fd =>
    cases client_fd with
    | none =>
      cases hs
      exact h
    | some fd =>
      obtain ⟨-, hs⟩ := Option.ite_none_left_eq_some.mp hs
      cases hs
      unfold onAccept
      dsimp only
      split
      · exact h
      · exact construct_awaits h (List.getElem?_eq_some_iff.mp hi).1 _ _
  | runTask io_thread grant effects =>
    have h' := runTask_awaits hacc h hi hs
    simp only [IsTask, beq_iff_eq]
    exact h'
  | event io_thread fd epollin epollout is_terminal =>
    obtain ⟨l, -, hs⟩ := Option.bind_eq_some_iff.mp hs
    obtain ⟨-, hs⟩ := Option.ite_none_right_eq_some.mp hs
    cases hs
    exact h.modify rfl rfl rfl fun l => trigger_grows l _ _ _ _ _
  | ClearClientTimerFunc =>
    cases hs
    exact h
  | stopLoop io_thread =>
    cases hs
    refine h.modify rfl rfl rfl fun l hflag => ?_
    cases hflag
  | foreignReply j =>
    obtain ⟨c, -, rfl⟩ := Option.map_eq_some_iff.mp hs
    split
    · exact h
    · exact h.modify rfl rfl rfl fun l => addTask_grows l _

/-- **No connection is forgotten.** -/
def Remembered (v : TcpServer) : Prop := ∀ i, ∃ n, v.Awaits i n

theorem step_remembered {op : TcpServerOp} (hacc : v.Accounted) (h : v.Remembered)
    (hs : v.step op = some v') : v'.Remembered := by
  intro i
  cases hi : v.conns[i]? with
  | some c =>
    obtain ⟨n, hn⟩ := h i
    exact ⟨_, step_awaits hacc hn hi hs⟩
  | none =>
    rcases step_threads hs with he | ⟨fd, -, rfl⟩
    · -- there is no such connection
      refine ⟨0, fun c l hc => ?_⟩
      have hmap := congrArg (fun l => l[i]?) he
      rw [List.getElem?_map, List.getElem?_map, hi, hc] at hmap
      cases hmap
    · unfold onAccept
      dsimp only
      split
      · exact ⟨0, fun c l hc => absurd (hi.symm.trans hc) (by simp)⟩
      · rename_i io_thread m_index _
        have hge : v.conns.length ≤ i := List.getElem?_eq_none_iff.mp hi
        rcases Nat.lt_or_eq_of_le hge with hlt | rfl
        · refine ⟨0, fun c l hc => ?_⟩
          have hc : (v.conns ++ [_])[i]? = some c := hc
          rw [List.getElem?_eq_none (by rw [List.length_append]; exact hlt)] at hc
          cases hc
        · exact construct_awaits_new _ fd io_thread

theorem callback_registered (v : TcpServer) (i : Nat) (effects : List CallbackEffect) :
    (v.callback i effects).registered = v.registered := by
  unfold callback
  split
  · exact List.foldlRecOn (motive := fun w : TcpServer => w.registered = v.registered) effects _ rfl
      fun w hw e _ => (effect_queues w i e).2.2.trans hw
  · rfl

/-- **A registration that runs leaves its loop listening to the connection.** -/
theorem step_registered {op : TcpServerOp} (hacc : v.Accounted) {k i : Nat}
    (hs : v.step op = some v') (hno : (k, i) ∉ v.registered) (hyes : (k, i) ∈ v'.registered) :
    v'.Listens k i := by
  cases op with
  | onAccept client_fd =>
    cases client_fd with
    | none =>
      cases hs
      exact absurd hyes hno
    | some fd =>
      obtain ⟨-, hs⟩ := Option.ite_none_left_eq_some.mp hs
      cases hs
      unfold onAccept at hyes
      dsimp only at hyes
      split at hyes
      · exact absurd hyes hno
      · exact absurd hyes hno
  | runTask io_thread grant effects =>
    obtain ⟨l, task, tasks, hl, -, -, rfl⟩ := runTask_cases hs
    cases task with
    | addToEpoll fd =>
      rcases List.mem_append.mp hyes with hold | hnew
      · exact absurd hold hno
      obtain ⟨j, hj, he⟩ := List.mem_map.mp hnew
      obtain ⟨rfl, rfl⟩ := Prod.mk.inj he
      obtain ⟨c, hc, hopen, rfl⟩ := hacc.slot.mp (Option.mem_toList.mp hj)
      refine ⟨c, ({ l with m_pending_tasks := tasks } : SubLoop).addToEpoll c.fd grant, hc, hopen,
        ?_, Finset.mem_insert_self _ _⟩
      show ((v.loops.modify io_thread _).modify io_thread _)[io_thread]? = _
      rw [List.getElem?_modify_eq, List.getElem?_modify_eq, hl]
      rfl
    | callback j =>
      rw [execute, callback_registered] at hyes
      exact absurd hyes hno
  | event io_thread fd epollin epollout is_terminal =>
    obtain ⟨l, -, hs⟩ := Option.bind_eq_some_iff.mp hs
    obtain ⟨-, hs⟩ := Option.ite_none_right_eq_some.mp hs
    cases hs
    exact absurd hyes hno
  | ClearClientTimerFunc =>
    cases hs
    exact absurd hyes hno
  | stopLoop io_thread =>
    cases hs
    exact absurd hyes hno
  | foreignReply j =>
    obtain ⟨c, -, rfl⟩ := Option.map_eq_some_iff.mp hs
    split at hyes
    · exact absurd hyes hno
    · exact absurd hyes hno

theorem run_awaits {ops : List TcpServerOp}
    (hrun : Run (fun v op v' => step v op = some v') v ops v') {i : Nat} :
    ∀ {n : Nat} {c : Accepted}, v.Accounted → v.Awaits i n → v.conns[i]? = some c →
      v'.Awaits i (n - ops.countP (IsTask c.io_thread)) := by
  induction hrun with
  | nil v =>
    intro n c _ h _
    exact h
  | cons hs _ ih =>
    intro n c hacc h hi
    obtain ⟨c', hi', hk⟩ := step_conn hs hi
    have h' := ih (step_accounted hacc hs) (step_awaits hacc h hi hs) hi'
    rw [List.countP_cons, Nat.add_comm, ← Nat.sub_sub, ← hk]
    rw [← hk] at h'
    exact h'

end Steps

/-! ### Runs -/

section Runs

variable {v v' : TcpServer} {m_io_threads : Nat} {ops ops' : List TcpServerOp}

/-- **A descriptor belongs to one loop**: in every run in which responses are given on the loop's
own thread, a loop listens to a descriptor only if it is that of an open connection of its own;
no other loop listens to it; and what the loop's epoll set holds, it listens to. -/
theorem server_isolates
    (hrun : Run (fun v op v' => OnLoop op ∧ step v op = some v') (init m_io_threads) ops v)
    {k : Nat} {l : SubLoop} (hl : v.loops[k]? = some l) :
    l.epoll ⊆ l.m_listen_fds ∧ ∀ fd ∈ l.m_listen_fds, v.Serves k fd ∧
      ∀ (j : Nat) (l' : SubLoop), v.loops[j]? = some l' → fd ∈ l'.m_listen_fds → j = k := by
  obtain ⟨hacc, h⟩ := Run.invariant (I := fun v => v.Accounted ∧ v.Isolated)
    (fun h hs => ⟨step_accounted h.1 hs.2, step_isolated h.1 h.2 hs.1 hs.2⟩) hrun
    ⟨init_accounted _, init_isolated _⟩
  refine ⟨(h k l hl).epoll, fun fd hfd => ⟨(h k l hl).listens fd hfd, fun j l' hl' hfd' => ?_⟩⟩
  obtain ⟨i, c, hi, hopen, hcfd, hk⟩ := (h k l hl).listens fd hfd
  obtain ⟨i', c', hi', hopen', hcfd', hj⟩ := (h j l' hl').listens fd hfd'
  have hii := hacc.unique hi hopen hi' hopen' (hcfd'.trans hcfd.symm)
  subst hii
  rw [hi] at hi'
  cases hi'
  exact hj.symm.trans hk

theorem server_isolates_three : ∃ (v : TcpServer) (l : SubLoop),
    v.loops[0]? = some l ∧ v.Serves 0 9 ∧ 9 ∈ l.epoll := by
  have hrun : Run (fun v op v' => OnLoop op ∧ step v op = some v') (init 2)
      [.onAccept (some 7), .onAccept (some 8), .onAccept (some 9), .runTask 0 true [],
        .runTask 0 true []] _ := Run.of_guarded rfl
  exact ⟨_, _, rfl, ((server_isolates hrun rfl).2 9 (by decide)).1, by decide⟩

/-- **A response given on another thread**: its registration is queued behind the end of the
connection, and runs when the number is that of a connection on another loop. -/
theorem foreign_reply_watches : ∃ (v : TcpServer) (l₀ l₁ : SubLoop),
    Run (fun v op v' => step v op = some v') (init 2)
      [.onAccept (some 7), .runTask 0 true [], .event 0 7 true false false, .foreignReply 0,
        .runTask 0 true [.clear], .onAccept (some 7), .runTask 1 true [], .runTask 0 true []] v ∧
      v.loops[0]? = some l₀ ∧ v.loops[1]? = some l₁ ∧ 7 ∈ l₀.epoll ∧ 7 ∈ l₁.epoll :=
  ⟨_, _, _, Run.of_foldlM rfl, rfl, rfl, by decide, by decide⟩

theorem listened_of_registered
    (hrun : Run (fun v op v' => step v op = some v') (init m_io_threads) ops v) {k i : Nat}
    (h : (k, i) ∈ v.registered) : ∃ ops₁ ops₂ w, ops = ops₁ ++ ops₂ ∧
      Run (fun v op v' => step v op = some v') (init m_io_threads) ops₁ w ∧
      Run (fun v op v' => step v op = some v') w ops₂ v ∧ w.Listens k i := by
  obtain ⟨ops₁, op, ops₂, v₁, w, rfl, hrun₁, hs, hrun₂, hno, hyes⟩ :=
    hrun.exists_step (P := fun v => (k, i) ∈ v.registered) List.not_mem_nil h
  refine ⟨ops₁ ++ [op], ops₂, w, by rw [List.append_assoc]; rfl, ?_, hrun₂,
    step_registered (run_accounted hrun₁) hs hno hyes⟩
  exact hrun₁.append (.cons hs (.nil w))

end Runs

end TcpServer

end KaiRPC
