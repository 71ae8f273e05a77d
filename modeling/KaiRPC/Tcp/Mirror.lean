import KaiRPC.Lib.Run
import KaiRPC.Net.Loop

/-!
# The shadow set of the loop

`m_listen_fds` (`net/eventloop.cc`) decides whether `addEpollEvent` asks the kernel for `ADD` or
for `MOD`.  It is changed on the loop's thread by `addEpollEvent`, by `deleteEpollEvent`, by a
terminal result of `epoll_wait` and by `TcpConnection::clear`, whatever the kernel answered.

* `Slotted`: a connection with its slot of the fd event group, on the same descriptor.
* `InStep`: the set is the kernel's, so the choice between `ADD` and `MOD` is right.
* `RefusedAdd`: the kernel refuses the `ADD` that the step asks for.
* `apply_inStep`: **one step keeps the two in step exactly if no `ADD` was refused.**
* `mirrors_iff_granted`: the same along every run.
* `deaf_of_refused`: after a refused `ADD` the loop asks for `MOD` only, and in vain.
-/

namespace KaiRPC

variable {W R D : Type}

/-- A connection and its slot of the fd event group.  The constructor takes the slot of the
descriptor's number, and neither side ever changes that number (`m_fd` goes to `-1` in `clear`). -/
structure Slotted (W R D : Type) where
  conn : TcpConnection W R D
  m_fd_event : FdEvent
  slot : 0 ≤ conn.m_fd → m_fd_event.m_fd = conn.m_fd

namespace Slotted

/-- `TcpConnection(…, fd, …)` takes `getFdEvent(fd)`. -/
def new (self : Nat) (fd : Int) (buffer_size : Nat) (type : TcpConnectionType) :
    Slotted W R D :=
  ⟨TcpConnection.new self fd buffer_size type, { m_fd := fd }, fun _ => rfl⟩

/-- What `clear` leaves of the loop. -/
def clear (c : Slotted W R D) (l : Eventloop) : Eventloop :=
  (Endpoint.clear ⟨c.conn, c.m_fd_event, l⟩).1.m_event_loop

end Slotted

/-- A step on the loop's thread. -/
inductive ListenOp (W R D : Type)
  | addEpollEvent (event : FdEvent) (grant : Bool)
  | deleteEpollEvent (event : FdEvent)
  /-- What the loop does with a result of `epoll_wait`, a terminal one among them. -/
  | result (r : EpollResult)
  | clear (c : Slotted W R D)

namespace Eventloop

/-- The operation `addEpollEvent` picks. -/
def pickedOp (l : Eventloop) (event : FdEvent) : EpollOp :=
  if event.m_fd ∈ l.m_listen_fds then .MOD else .ADD

def apply (l : Eventloop) : ListenOp W R D → Eventloop
  | .addEpollEvent event grant => l.addEpollEvent event grant
  | .deleteEpollEvent event => l.deleteEpollEvent event
  | .result r => l.dispatch r
  | .clear c => c.clear l

/-- **The bookkeeping mirrors the kernel**, and so the picked operation suits the descriptor. -/
structure InStep (l : Eventloop) : Prop where
  mirrors : ∀ fd, l.Mirrors fd
  mod_registered : ∀ event, l.pickedOp event = .MOD → (l.epoll event.m_fd).isSome
  add_unregistered : ∀ event, l.pickedOp event = .ADD → l.epoll event.m_fd = none

/-- The kernel has no resources for the `ADD` of this step. -/
def RefusedAdd (l : Eventloop) : ListenOp W R D → Prop
  | .addEpollEvent event grant =>
      l.m_stop_flag = false ∧ event.m_fd ∉ l.m_listen_fds ∧ grant = false
  | _ => False

/-! ### One step -/

theorem inStep_iff {l : Eventloop} : l.InStep ↔ ∀ fd, l.Mirrors fd := by
  refine ⟨fun h => h.mirrors, fun h => ⟨h, fun event hmod => ?_, fun event hadd => ?_⟩⟩
  · by_cases hin : event.m_fd ∈ l.m_listen_fds
    · exact (h event.m_fd).mp hin
    · rw [pickedOp, if_neg hin] at hmod
      cases hmod
  · by_cases hin : event.m_fd ∈ l.m_listen_fds
    · rw [pickedOp, if_pos hin] at hadd
      cases hadd
    · rw [← Option.not_isSome_iff_eq_none]
      exact fun hreg => hin ((h event.m_fd).mpr hreg)

theorem mirrors_of_beside {l l' : Eventloop} {fd : Int} (hb : l.Beside (· = fd) l')
    (hl : ∀ fd, l.Mirrors fd) : (∀ other, l'.Mirrors other) ↔ l'.Mirrors fd := by
  refine ⟨fun h => h fd, fun h other => ?_⟩
  by_cases he : other = fd
  · rw [he]
    exact h
  · rw [Mirrors, hb.listen_fds other he, hb.epoll other he]
    exact hl other

theorem addEpollEvent_beside (l : Eventloop) (event : FdEvent) (grant : Bool) :
    l.Beside (· = event.m_fd) (l.addEpollEvent event grant) := by
  rw [addEpollEvent]
  split
  · exact .refl l
  · refine ⟨rfl, rfl, rfl, fun fd hfd => ?_, fun fd hfd => ?_⟩
    · rw [Finset.mem_insert]
      exact or_iff_right hfd
    · dsimp only
      generalize (if event.m_fd ∈ l.m_listen_fds then EpollOp.MOD else EpollOp.ADD) = op
      cases hctl : epoll_ctl l.epoll op event.m_fd event.m_listen_event grant with
      | none => rfl
      | some k => exact epoll_ctl_of_ne hctl hfd

/-- **A registration keeps the descriptor in step unless its `ADD` is refused.** -/
theorem addEpollEvent_mirrors {l : Eventloop} {event : FdEvent} {grant : Bool}
    (hm : l.Mirrors event.m_fd) : (l.addEpollEvent event grant).Mirrors event.m_fd ↔
      ¬ (l.m_stop_flag = false ∧ event.m_fd ∉ l.m_listen_fds ∧ grant = false) := by
  cases hstop : l.m_stop_flag with
  | true =>
    rw [addEpollEvent, if_pos hstop]
    exact iff_of_true hm (by simp)
  | false =>
    rw [addEpollEvent, if_neg (by simp [hstop]), Mirrors]
    by_cases hin : event.m_fd ∈ l.m_listen_fds
    · -- `MOD` of a registered descriptor succeeds
      obtain ⟨i, hi⟩ := Option.isSome_iff_exists.mp (hm.mp hin)
      simp [hin, epoll_ctl, hi]
    · have hnone : l.epoll event.m_fd = none := by
        rw [← Option.not_isSome_iff_eq_none]
        exact fun h => hin (hm.mpr h)
      cases grant with
      | true => simp [hin, epoll_ctl, hnone]
      | false => simp [hin, epoll_ctl, hnone]

theorem deleteEpollEvent_mirrors {l : Eventloop} (hl : ∀ fd, l.Mirrors fd) (event : FdEvent) :
    ∀ fd, (l.deleteEpollEvent event).Mirrors fd := by
  refine (mirrors_of_beside (l.deleteEpollEvent_beside rfl) hl).mpr ?_
  rw [deleteEpollEvent]
  split
  · rename_i hin
    obtain ⟨i, hi⟩ := Option.isSome_iff_exists.mp ((hl event.m_fd).mp hin)
    simp [Mirrors, epoll_ctl, hi]
  · exact hl event.m_fd

theorem addHandler_mirrors {l : Eventloop} {fd : Int} (handler : Option Callback) :
    (l.addHandler handler).Mirrors fd ↔ l.Mirrors fd := by
  cases handler with
  | none => rfl
  | some cb =>
    rw [addHandler, addTask]
    split <;> rfl

theorem dispatch_mirrors {l : Eventloop} (hl : ∀ fd, l.Mirrors fd) (r : EpollResult) :
    ∀ fd, (l.dispatch r).Mirrors fd := by
  have hhandler : ∀ (l : Eventloop) (c : Bool) (handler : Option Callback),
      (∀ fd, l.Mirrors fd) → ∀ fd, (if c then l.addHandler handler else l).Mirrors fd := by
    intro l c handler h fd
    cases c with
    | true => exact (addHandler_mirrors handler).mpr (h fd)
    | false => exact h fd
  have hqueued := hhandler _ (r.EPOLLOUT && !r.is_terminal) (r.fd_event.handler .OUT_EVENT)
    (hhandler l r.EPOLLIN (r.fd_event.handler .IN_EVENT) hl)
  intro fd
  rw [dispatch]
  split
  · exact (addHandler_mirrors _).mpr (deleteEpollEvent_mirrors hqueued r.fd_event fd)
  · exact hqueued fd

theorem clear_mirrors {l : Eventloop} (hl : ∀ fd, l.Mirrors fd) (c : Slotted W R D) :
    ∀ fd, (c.clear l).Mirrors fd := by
  rw [Slotted.clear, Endpoint.clear]
  split
  · exact hl
  · have hdel := deleteEpollEvent_mirrors hl ((c.m_fd_event.cancle .IN_EVENT).cancle .OUT_EVENT)
    dsimp only
    split
    · rename_i hfd
      refine (mirrors_of_beside (closeFd_beside _ rfl) hdel).mpr ?_
      -- the slot's number is the descriptor's, so the set has forgotten it
      have hgone : c.conn.m_fd ∉ (l.deleteEpollEvent
          ((c.m_fd_event.cancle .IN_EVENT).cancle .OUT_EVENT)).m_listen_fds := by
        rw [deleteEpollEvent]
        split
        · simp [c.slot hfd]
        · rename_i hnot
          simpa [c.slot hfd] using hnot
      exact iff_of_false hgone (by simp [closeFd])
    · exact hdel

theorem apply_inStep {l : Eventloop} {op : ListenOp W R D} (h : l.InStep) :
    (l.apply op).InStep ↔ ¬ l.RefusedAdd op := by
  have hl := h.mirrors
  rw [inStep_iff]
  cases op with
  | addEpollEvent event grant =>
    exact (mirrors_of_beside (l.addEpollEvent_beside event grant) hl).trans
      (addEpollEvent_mirrors (hl event.m_fd))
  | deleteEpollEvent event => exact iff_of_true (deleteEpollEvent_mirrors hl event) not_false
  | result r => exact iff_of_true (dispatch_mirrors hl r) not_false
  | clear c => exact iff_of_true (clear_mirrors hl c) not_false

/-! ### Whole runs -/

theorem inStep_new : InStep {} :=
  inStep_iff.mpr fun _ => iff_of_false (Finset.notMem_empty _) (by simp)

/-- **The bookkeeping mirrors the kernel after every step of a run exactly if the kernel refuses
no `ADD` in it.** -/
theorem mirrors_iff_granted {l : Eventloop} (h : l.InStep) (ops : List (ListenOp W R D)) :
    Run.EveryState apply InStep l ops ↔ Run.EveryStep apply (fun l op => ¬ l.RefusedAdd op) l ops :=
  Run.everyState_iff (fun _ _ hs => apply_inStep hs) ops l h

/-- A connection registered, served and cleared, and its number registered again. -/
theorem mirrors_iff_granted_reuse :
    Run.EveryState apply InStep ({} : Eventloop) ([.addEpollEvent { m_fd := 7 } true,
      .clear (.new 0 7 16 .TcpConnectionByServer), .addEpollEvent { m_fd := 7 } true] :
        List (ListenOp Unit Unit Unit)) :=
  (mirrors_iff_granted inStep_new _).mpr ⟨by simp [RefusedAdd], by simp [RefusedAdd],
    by simp [RefusedAdd], trivial⟩

/-- One refused `ADD` on a fresh loop. -/
theorem refused_add_drifts :
    ¬ ∀ ops : List (ListenOp Unit Unit Unit), Run.EveryState apply InStep ({} : Eventloop) ops := by
  intro hall
  have hstate := (hall [.addEpollEvent { m_fd := 7 } false]).2.head
  exact (apply_inStep inStep_new).mp hstate ⟨rfl, Finset.notMem_empty _, rfl⟩

/-- **A refused `ADD` is never made up for**: from then on the loop picks `MOD` for the
descriptor, and the kernel knows nothing of it whatever it would grant. -/
theorem deaf_of_refused {l : Eventloop} (h : l.InStep) {event : FdEvent}
    (hr : l.RefusedAdd (.addEpollEvent event false : ListenOp W R D)) (grants : List Bool) :
    (grants.foldl (fun l grant => l.addEpollEvent event grant)
      (l.addEpollEvent event false)).epoll event.m_fd = none := by
  obtain ⟨hstop, hnot, -⟩ := hr
  have hadd := h.add_unregistered event (by rw [pickedOp, if_neg hnot])
  -- the invariant: shadowed, and unknown to the kernel
  have hdeaf : ∀ (grants : List Bool) (l : Eventloop), event.m_fd ∈ l.m_listen_fds →
      l.epoll event.m_fd = none → (grants.foldl (fun l grant => l.addEpollEvent event grant)
        l).epoll event.m_fd = none := by
    intro grants
    induction grants with
    | nil => intro l _ hk; exact hk
    | cons grant grants ih =>
      intro l hin hk
      rw [List.foldl_cons]
      refine ih _ ?_ ?_
      · rw [addEpollEvent]
        split
        · exact hin
        · exact Finset.mem_insert_self _ _
      · rw [addEpollEvent]
        split
        · exact hk
        · simp [epoll_ctl, hk]
  refine hdeaf grants _ ?_ ?_
  · rw [addEpollEvent, if_neg (by simp [hstop])]
    exact Finset.mem_insert_self _ _
  · rw [addEpollEvent, if_neg (by simp [hstop])]
    simp [hnot, epoll_ctl, hadd]

end Eventloop

end KaiRPC
