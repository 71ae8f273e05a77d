import Mathlib.Data.Finset.Basic
import KaiRPC.Net.Timer

/-!
# Fd events and the event loop

`net/fd_event.cc` and the bookkeeping of `net/eventloop.cc`, for calls on the loop's
own thread.  `Epoll` is the kernel's side: the registrations of the epoll instance.
`EPOLLIN` and `EPOLLRDHUP` are always set and cleared together, so they are one bit.

`Eventloop.addEpollEvent_granted` is what a successful registration means: the
descriptor is in `m_listen_fds` and the kernel watches the event's interest.
-/

namespace KaiRPC

/-- `epoll_event.events`. -/
structure Interest where
  in_event : Bool := false
  out_event : Bool := false
deriving DecidableEq, Repr

inductive TriggerEvent
  | IN_EVENT
  | OUT_EVENT
  | ERROR_EVENT
deriving DecidableEq, Repr

/-- The callbacks the program hands to an fd event or to the task queue: a connection's (under
a weak pointer), a client's connect callback, the cancellation of an attempt, the timer's and
the wakeup's. -/
inductive Callback
  | onRead (connection : Nat)
  | onWrite (connection : Nat)
  | clear (connection : Nat)
  | connect (client : Nat)
  | cancel (attempt : Nat)
  | onTimer
  | onWakeup
deriving DecidableEq, Repr

structure FdEvent where
  m_fd : Int := -1
  m_listen_event : Interest := {}
  m_read_callback : Option Callback := none
  m_write_callback : Option Callback := none
  m_error_callback : Option Callback := none
deriving DecidableEq, Repr

namespace FdEvent

def handler (ev : FdEvent) : TriggerEvent → Option Callback
  | .IN_EVENT => ev.m_read_callback
  | .OUT_EVENT => ev.m_write_callback
  | .ERROR_EVENT => ev.m_error_callback

def listen (ev : FdEvent) (event_type : TriggerEvent) (callback : Callback)
    (error_callback : Option Callback) : FdEvent :=
  let ev := match event_type with
    | .IN_EVENT => { ev with
        m_listen_event := { ev.m_listen_event with in_event := true }
        m_read_callback := some callback }
    | .OUT_EVENT => { ev with
        m_listen_event := { ev.m_listen_event with out_event := true }
        m_write_callback := some callback }
    | .ERROR_EVENT => { ev with m_error_callback := some callback }
  if error_callback.isSome then { ev with m_error_callback := error_callback } else ev

def cancle (ev : FdEvent) : TriggerEvent → FdEvent
  | .IN_EVENT => { ev with m_listen_event := { ev.m_listen_event with in_event := false } }
  | .OUT_EVENT => { ev with m_listen_event := { ev.m_listen_event with out_event := false } }
  | .ERROR_EVENT => ev

def reset (ev : FdEvent) : FdEvent := { m_fd := ev.m_fd }

@[simp] theorem listen_fd (ev : FdEvent) (t : TriggerEvent) (c : Callback) (c' : Option Callback) :
    (ev.listen t c c').m_fd = ev.m_fd := by
  unfold listen
  cases t <;> dsimp only <;> split <;> rfl

@[simp] theorem cancle_fd (ev : FdEvent) (t : TriggerEvent) : (ev.cancle t).m_fd = ev.m_fd := by
  cases t <;> rfl

theorem listen_out_event (ev : FdEvent) (c : Callback) (c' : Option Callback) :
    (ev.listen .OUT_EVENT c c').m_listen_event.out_event = true := by
  unfold listen
  dsimp only
  split <;> rfl

end FdEvent

/-! ### The epoll instance -/

inductive EpollOp
  | ADD
  | MOD
  | DEL
deriving DecidableEq, Repr

/-- The registered descriptors and what is watched on them. -/
abbrev Epoll := Int → Option Interest

/-- `epoll_ctl`: `MOD` and `DEL` need the descriptor registered, `ADD` needs it absent and
the resources (`grant`).  `none` is the result `-1`. -/
def epoll_ctl (k : Epoll) (op : EpollOp) (fd : Int) (tmp : Interest) (grant : Bool) :
    Option Epoll :=
  match op, k fd with
  | .ADD, none => if grant then some (Function.update k fd (some tmp)) else none
  | .ADD, some _ => none
  | .MOD, some _ => some (Function.update k fd (some tmp))
  | .MOD, none => none
  | .DEL, some _ => some (Function.update k fd none)
  | .DEL, none => none

structure Eventloop where
  m_stop_flag : Bool := false
  m_is_looping : Bool := false
  m_listen_fds : Finset Int := ∅
  m_pending_tasks : List Callback := []
  m_timer : Timer := {}
  epoll : Epoll := fun _ => none

namespace Eventloop

/-- A failed `epoll_ctl` is logged and otherwise ignored. -/
def addEpollEvent (l : Eventloop) (event : FdEvent) (grant : Bool) : Eventloop :=
  if l.m_stop_flag then l
  else
    let op := if event.m_fd ∈ l.m_listen_fds then EpollOp.MOD else EpollOp.ADD
    { l with
      epoll := (epoll_ctl l.epoll op event.m_fd event.m_listen_event grant).getD l.epoll
      m_listen_fds := insert event.m_fd l.m_listen_fds }

def deleteEpollEvent (l : Eventloop) (event : FdEvent) : Eventloop :=
  if event.m_fd ∈ l.m_listen_fds then
    { l with
      epoll := (epoll_ctl l.epoll .DEL event.m_fd event.m_listen_event true).getD l.epoll
      m_listen_fds := l.m_listen_fds.erase event.m_fd }
  else l

/-- `close(fd)`: the kernel forgets the descriptor. -/
def closeFd (l : Eventloop) (fd : Int) : Eventloop :=
  { l with epoll := Function.update l.epoll fd none }

def addTask (l : Eventloop) (cb : Callback) : Eventloop :=
  if l.m_stop_flag then l else { l with m_pending_tasks := l.m_pending_tasks ++ [cb] }

def addTimerEvent (l : Eventloop) (event : Nat) (now : Int) : Eventloop :=
  if l.m_stop_flag then l else { l with m_timer := l.m_timer.addTimerEvent event now }

def deleteTimerEvent (l : Eventloop) (event : Nat) : Eventloop :=
  { l with m_timer := l.m_timer.deleteTimerEvent event }

def stop (l : Eventloop) : Eventloop := { l with m_stop_flag := true }

@[simp] theorem addEpollEvent_timer (l : Eventloop) (event : FdEvent) (grant : Bool) :
    (l.addEpollEvent event grant).m_timer = l.m_timer := by
  unfold addEpollEvent
  split <;> rfl

@[simp] theorem deleteEpollEvent_timer (l : Eventloop) (event : FdEvent) :
    (l.deleteEpollEvent event).m_timer = l.m_timer := by
  unfold deleteEpollEvent
  split <;> rfl

@[simp] theorem addTask_timer (l : Eventloop) (cb : Callback) :
    (l.addTask cb).m_timer = l.m_timer := by
  unfold addTask
  split <;> rfl

/-- On a stopped loop the event is not added at all. -/
theorem addTimerEvent_atMostOne {l : Eventloop} {event : Nat} (now : Int)
    (h : l.m_timer.entries event = []) :
    (l.addTimerEvent event now).m_timer.AtMostOneEntry event := by
  unfold addTimerEvent
  split
  · exact Or.inl h
  · exact Timer.addTimerEvent_atMostOne now h

theorem addTimerEvent_agree (l : Eventloop) {event other : Nat} (hne : other ≠ event) (now : Int) :
    l.m_timer.Agree (l.addTimerEvent event now).m_timer other := by
  unfold addTimerEvent
  split
  · exact .refl _ _
  · exact Timer.addTimerEvent_agree _ hne now

/-- The bookkeeping of a descriptor agrees with the kernel's. -/
def Mirrors (l : Eventloop) (fd : Int) : Prop := fd ∈ l.m_listen_fds ↔ (l.epoll fd).isSome

/-- The kernel watches what the event asks for. -/
def Watches (l : Eventloop) (event : FdEvent) : Prop :=
  event.m_fd ∈ l.m_listen_fds ∧ l.epoll event.m_fd = some event.m_listen_event

/-- **A granted registration.** -/
theorem addEpollEvent_granted {l : Eventloop} {event : FdEvent} (hstop : l.m_stop_flag = false)
    (hm : l.Mirrors event.m_fd) : (l.addEpollEvent event true).Watches event ∧
      (l.addEpollEvent event true).m_stop_flag = false := by
  rw [addEpollEvent, if_neg (by simp [hstop])]
  refine ⟨⟨Finset.mem_insert_self _ _, ?_⟩, hstop⟩
  by_cases hin : event.m_fd ∈ l.m_listen_fds
  · obtain ⟨i, hi⟩ := Option.isSome_iff_exists.mp (hm.mp hin)
    simp [hin, epoll_ctl, hi]
  · have hnone : l.epoll event.m_fd = none := by
      rw [← Option.not_isSome_iff_eq_none]
      exact fun h => hin (hm.mpr h)
    simp [hin, epoll_ctl, hnone]

theorem Watches.mirrors {l : Eventloop} {event : FdEvent} (h : l.Watches event) :
    l.Mirrors event.m_fd := by
  obtain ⟨h1, h2⟩ := h
  rw [Mirrors, h2]
  exact iff_of_true h1 rfl

/-! ### What an operation on some descriptors leaves alone -/

/-- Apart from the timer and the descriptors `own`, the loop is as it was. -/
structure Beside (own : Int → Prop) (l l' : Eventloop) : Prop where
  stop_flag : l'.m_stop_flag = l.m_stop_flag
  looping : l'.m_is_looping = l.m_is_looping
  tasks : l'.m_pending_tasks = l.m_pending_tasks
  listen_fds : ∀ fd, ¬ own fd → (fd ∈ l'.m_listen_fds ↔ fd ∈ l.m_listen_fds)
  epoll : ∀ fd, ¬ own fd → l'.epoll fd = l.epoll fd

variable {own : Int → Prop} {l l' l'' : Eventloop}

theorem Beside.of_timer (l : Eventloop) (t : Timer) : l.Beside own { l with m_timer := t } :=
  ⟨rfl, rfl, rfl, fun _ _ => Iff.rfl, fun _ _ => rfl⟩

theorem Beside.refl (l : Eventloop) : l.Beside own l := .of_timer l l.m_timer

theorem Beside.trans (h : l.Beside own l') (h' : l'.Beside own l'') : l.Beside own l'' where
  stop_flag := h'.stop_flag.trans h.stop_flag
  looping := h'.looping.trans h.looping
  tasks := h'.tasks.trans h.tasks
  listen_fds fd hfd := (h'.listen_fds fd hfd).trans (h.listen_fds fd hfd)
  epoll fd hfd := (h'.epoll fd hfd).trans (h.epoll fd hfd)

theorem epoll_ctl_of_ne {k k' : Epoll} {op : EpollOp} {fd other : Int} {tmp : Interest}
    {grant : Bool} (h : epoll_ctl k op fd tmp grant = some k') (hne : other ≠ fd) :
    k' other = k other := by
  unfold epoll_ctl at h
  split at h
  · obtain ⟨-, h⟩ := Option.ite_none_right_eq_some.mp h
    cases h
    exact Function.update_of_ne hne _ _
  · cases h
  · cases h
    exact Function.update_of_ne hne _ _
  · cases h
  · cases h
    exact Function.update_of_ne hne _ _
  · cases h

theorem deleteEpollEvent_beside (l : Eventloop) {event : FdEvent} (h : own event.m_fd) :
    l.Beside own (l.deleteEpollEvent event) := by
  rw [deleteEpollEvent]
  split
  · refine ⟨rfl, rfl, rfl, fun fd hfd => ?_, fun fd hfd => ?_⟩
    · rw [Finset.mem_erase]
      exact and_iff_right fun he => hfd (he ▸ h)
    · cases hctl : epoll_ctl l.epoll .DEL event.m_fd event.m_listen_event true with
      | none => rfl
      | some k => exact epoll_ctl_of_ne hctl fun he => hfd (he ▸ h)
  · exact .refl l

theorem closeFd_beside (l : Eventloop) {fd : Int} (h : own fd) : l.Beside own (l.closeFd fd) := by
  refine ⟨rfl, rfl, rfl, fun _ _ => Iff.rfl, fun other hother => ?_⟩
  have hne : other ≠ fd := fun he => hother (he ▸ h)
  exact Function.update_of_ne hne _ _

end Eventloop

end KaiRPC
