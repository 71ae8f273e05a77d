import KaiRPC.Net.Loop

/-!
# What is done with a client

The code around a `TcpClient` (`net/tcp/tcp_client.cc`, `net/rpc/rpc_channel.cc`) connects it,
listens on it, closes its connection and completes its call.  `ClientAction` is each of these,
`connectCallback` what the connect callback does on a client that is not released.

* `Keeps`: what they all keep.  A connect callback is on the fd event of a client only while the
  connection is open and the client not released.
* `act_fd_event`, `connectCallback_fd_event`: **only a completion and a failed connect release a
  client**; `finish_stop_flag` and `connectCallback_stop_flag`: they stop a loop that is looping.
-/

namespace KaiRPC

def Callback.isConnect : Callback → Bool
  | .connect _ => true
  | .onRead _ | .onWrite _ | .clear _ | .cancel _ | .onTimer | .onWakeup => false

/-- The callbacks an fd event holds. -/
def FdEvent.callbacks (ev : FdEvent) : List Callback :=
  ev.m_read_callback.toList ++ ev.m_write_callback.toList ++ ev.m_error_callback.toList

namespace ConnectResult

/-- `connect` ended without its callback. -/
def atOnce : ConnectResult → Bool
  | .successAtOnce | .failedAtOnce _ => true
  | .success | .refused _ | .failed _ => false

def isFailure : ConnectResult → Bool
  | .successAtOnce | .success => false
  | .failedAtOnce _ | .refused _ | .failed _ => true

end ConnectResult

/-- What the code around a client does with it. -/
inductive ClientAction
  /-- `connect` that ends at once. -/
  | connected (r : ConnectResult)
  /-- `connect` that goes on in the connect callback. -/
  | connecting (grant : Bool)
  | listenRead (grant : Bool)
  | listenWrite (grant : Bool)
  /-- The connection closes itself, on an error or an end of file. -/
  | clear
  /-- A completion: timeout, cancel, response or transport error. -/
  | finish

namespace TcpClient

variable {W R D : Type}

/-- What a completion does with its client. -/
def finish (k : TcpClient W R D) : TcpClient W R D := k.disconnect.stop

/-- What a client does.  `connect` can be in progress only on a socket that is still open. -/
def act (k : TcpClient W R D) : ClientAction → TcpClient W R D
  | .connected r => if r.atOnce then k.connected r else k
  | .connecting grant =>
      if k.m_fd_event ∧ ¬ k.endpoint.conn.IsCleared then k.connecting grant else k
  | .listenRead grant => { k with endpoint := k.endpoint.listenRead grant }
  | .listenWrite grant => { k with endpoint := k.endpoint.listenWrite grant }
  | .clear => { k with endpoint := k.endpoint.clear.1 }
  | .finish => k.finish

/-- The connect callback on a client that is not released, with the completion its `done` runs
on a failure if the call is not completed yet (`completes`). -/
def connectCallback (k : TcpClient W R D) (r : ConnectResult) (completes : Bool) :
    TcpClient W R D :=
  if r.isFailure && completes then (k.connected r).finish else k.connected r

end TcpClient

/-! ### What a client does to its fd event -/

namespace FdEvent

theorem cancle_callbacks (ev : FdEvent) (t : TriggerEvent) :
    (ev.cancle t).callbacks = ev.callbacks := by
  cases t <;> rfl

theorem mem_callbacks_of_listen {ev : FdEvent} {t : TriggerEvent} {callback error cb : Callback}
    (h : cb ∈ (ev.listen t callback (some error)).callbacks) :
    cb = callback ∨ cb = error ∨ cb ∈ ev.callbacks := by
  cases t <;> simp [listen, callbacks] at h ⊢ <;> tauto

end FdEvent

namespace TcpClient

variable {W R D : Type} {k k' k'' : TcpClient W R D}

/-- The connect callback of `c` waits on the client's fd event with reason. -/
def Waits (k : TcpClient W R D) (c : Nat) : Prop :=
  c = k.endpoint.conn.self ∧ ¬ k.endpoint.conn.IsCleared ∧ k.m_fd_event = true

/-- What every action keeps: the queue, a stop, the descriptor; and a connect callback stays on the
fd event only if it was there and the connection is as open as it was. -/
structure Keeps (k k' : TcpClient W R D) : Prop where
  stop_flag : k.endpoint.m_event_loop.m_stop_flag = true →
    k'.endpoint.m_event_loop.m_stop_flag = true
  tasks : k'.endpoint.m_event_loop.m_pending_tasks = k.endpoint.m_event_loop.m_pending_tasks
  fd : k'.endpoint.m_fd_event.m_fd = k.endpoint.m_fd_event.m_fd
  self : k'.endpoint.conn.self = k.endpoint.conn.self
  opened : (k.m_fd_event = true → 0 ≤ k.m_fd) → k'.m_fd_event = true → 0 ≤ k'.m_fd
  callbacks : ∀ c, .connect c ∈ k'.endpoint.m_fd_event.callbacks → k'.Waits c ∨
    .connect c ∈ k.endpoint.m_fd_event.callbacks ∧ (¬ k.endpoint.conn.IsCleared →
      ¬ k'.endpoint.conn.IsCleared ∧ k'.m_fd_event = k.m_fd_event)

theorem Keeps.refl (k : TcpClient W R D) : k.Keeps k :=
  ⟨fun h => h, rfl, rfl, rfl, fun h => h, fun _ hc => .inr ⟨hc, fun h => ⟨h, rfl⟩⟩⟩

theorem Keeps.trans (h : k.Keeps k') (h' : k'.Keeps k'') : k.Keeps k'' where
  stop_flag hf := h'.stop_flag (h.stop_flag hf)
  tasks := h'.tasks.trans h.tasks
  fd := h'.fd.trans h.fd
  self := h'.self.trans h.self
  opened ho := h'.opened (h.opened ho)
  callbacks c hc := by
    rcases h'.callbacks c hc with hw | ⟨hc', hkeep'⟩
    · exact .inl hw
    · rcases h.callbacks c hc' with ⟨rfl, hopen, hev⟩ | ⟨hc'', hkeep⟩
      · obtain ⟨hopen', hev'⟩ := hkeep' hopen
        exact .inl ⟨h'.self.symm, hopen', hev'.trans hev⟩
      · refine .inr ⟨hc'', fun hopen => ?_⟩
        obtain ⟨hopen', hev'⟩ := hkeep hopen
        obtain ⟨hopen'', hev''⟩ := hkeep' hopen'
        exact ⟨hopen'', hev''.trans hev'⟩

theorem stop_keeps (k : TcpClient W R D) : k.Keeps k.stop := by
  rw [stop]
  split
  · exact ⟨fun _ => rfl, rfl, rfl, rfl, fun h => h, fun _ hc => .inr ⟨hc, fun h => ⟨h, rfl⟩⟩⟩
  · exact .refl k

theorem owns_all (e : Endpoint W R D) : e.Owns fun _ => True := ⟨trivial, fun _ => trivial⟩

theorem clear_event (e : Endpoint W R D) : e.clear.1.m_fd_event =
    if e.conn.IsCleared then e.m_fd_event
    else ((e.m_fd_event.cancle .IN_EVENT).cancle .OUT_EVENT).reset := by
  rw [Endpoint.clear]
  split <;> rfl

theorem keeps_of_clear (hend : k'.endpoint = k.endpoint.clear.1)
    (ho : (k.m_fd_event = true → 0 ≤ k.m_fd) → k'.m_fd_event = true → 0 ≤ k'.m_fd) :
    k.Keeps k' := by
  obtain ⟨hloop, -⟩ := Endpoint.clear_beside (owns_all k.endpoint)
  rw [← hend] at hloop
  refine ⟨fun hf => hloop.stop_flag.trans hf, hloop.tasks, ?_, ?_, ho, fun c hc => ?_⟩
  · rw [hend, clear_event]
    split
    · rfl
    · show ((k.endpoint.m_fd_event.cancle .IN_EVENT).cancle .OUT_EVENT).m_fd = _
      rw [FdEvent.cancle_fd, FdEvent.cancle_fd]
  · rw [hend, Endpoint.clear_conn]
    split <;> rfl
  · rw [hend, clear_event] at hc
    split at hc
    · rename_i hcl
      exact .inr ⟨hc, fun hopen => absurd hcl hopen⟩
    · cases hc

theorem keeps_of_endpoint (hloop : k'.endpoint.m_event_loop = k.endpoint.m_event_loop)
    (hevent : k'.endpoint.m_fd_event = k.endpoint.m_fd_event)
    (hself : k'.endpoint.conn.self = k.endpoint.conn.self)
    (hopen : ¬ k.endpoint.conn.IsCleared → ¬ k'.endpoint.conn.IsCleared)
    (hfd : k'.m_fd = k.m_fd) (hev : k'.m_fd_event = k.m_fd_event) : k.Keeps k' where
  stop_flag hf := by rw [hloop]; exact hf
  tasks := by rw [hloop]
  fd := by rw [hevent]
  self := hself
  opened ho hev' := by
    rw [hfd]
    exact ho (hev ▸ hev')
  callbacks c hc := .inr ⟨hevent ▸ hc, fun h => ⟨hopen h, hev⟩⟩

theorem disconnect_keeps (k : TcpClient W R D) : k.Keeps k.disconnect := by
  have hcb : k.Keeps (k.setDisconnectCallback none) :=
    keeps_of_endpoint rfl rfl rfl (fun h => h) rfl rfl
  exact hcb.trans (keeps_of_clear rfl fun _ h => absurd h Bool.false_ne_true)

theorem finish_keeps (k : TcpClient W R D) : k.Keeps k.finish :=
  k.disconnect_keeps.trans (stop_keeps _)

theorem listen_keeps (k : TcpClient W R D) (t : TriggerEvent) {callback : Callback}
    (grant : Bool) (hcb : callback.isConnect = false) :
    k.Keeps { k with endpoint := k.endpoint.listen t callback grant } := by
  rw [Endpoint.listen]
  split
  · exact .refl k
  split
  · exact .refl k
  · refine ⟨fun hf => (Eventloop.addEpollEvent_stop_flag _ _ _).trans hf, ?_, ?_, rfl, fun h => h,
      fun c hc => ?_⟩
    · dsimp only [Eventloop.addEpollEvent]
      split <;> rfl
    · exact FdEvent.listen_fd _ _ _ _
    · rcases FdEvent.mem_callbacks_of_listen hc with rfl | he | hold
      · cases hcb
      · cases he
      · exact .inr ⟨hold, fun h => ⟨h, rfl⟩⟩

theorem stopConnecting_keeps (k : TcpClient W R D) : k.Keeps k.stopConnecting := by
  obtain ⟨hloop, -⟩ := stopConnecting_beside (owns_all k.endpoint)
  rw [stopConnecting] at hloop ⊢
  split
  · rename_i hev
    rw [if_pos hev] at hloop
    refine ⟨fun hf => hloop.stop_flag.trans hf, hloop.tasks, FdEvent.cancle_fd _ _, rfl,
      fun h => h, fun c hc => .inr ⟨?_, fun h => ⟨h, rfl⟩⟩⟩
    exact FdEvent.cancle_callbacks k.endpoint.m_fd_event .OUT_EVENT ▸ hc
  · exact .refl k

theorem setState_keeps (k : TcpClient W R D) :
    k.Keeps (k.withConn (k.endpoint.conn.setState .Connected)) :=
  keeps_of_endpoint rfl rfl rfl (fun _ h => by cases h.1) rfl rfl

theorem connectFailed_keeps (k : TcpClient W R D) (code : Int32) (info : Bytes) :
    k.Keeps (k.connectFailed code info) :=
  k.disconnect_keeps.trans (keeps_of_endpoint rfl rfl rfl (fun h => h) rfl rfl)

theorem connected_keeps (k : TcpClient W R D) (r : ConnectResult) : k.Keeps (k.connected r) := by
  cases r with
  | successAtOnce =>
    dsimp only [connected]
    split
    · exact k.setState_keeps
    · exact keeps_of_endpoint rfl rfl rfl (fun h => h) rfl rfl
  | failedAtOnce error => exact keeps_of_endpoint rfl rfl rfl (fun h => h) rfl rfl
  | success =>
    dsimp only [connected]
    split
    · exact k.stopConnecting_keeps.trans (setState_keeps _)
    · exact k.stopConnecting_keeps.trans (connectFailed_keeps _ _ _)
  | refused error => exact k.stopConnecting_keeps.trans (connectFailed_keeps _ _ _)
  | failed error => exact k.stopConnecting_keeps.trans (connectFailed_keeps _ _ _)

/-- Here a connect callback comes onto the fd event, of a client that is not released. -/
theorem connecting_keeps (k : TcpClient W R D) (grant : Bool)
    (h : k.m_fd_event = true ∧ ¬ k.endpoint.conn.IsCleared) : k.Keeps (k.connecting grant) := by
  refine ⟨fun hf => (Eventloop.addEpollEvent_stop_flag _ _ _).trans hf, ?_, ?_, rfl, fun ho => ho,
    fun c hc => ?_⟩
  · dsimp only [connecting, Eventloop.addEpollEvent]
    split <;> rfl
  · exact FdEvent.listen_fd _ _ _ _
  · rcases FdEvent.mem_callbacks_of_listen hc with he | he | hold
    · cases he
      exact .inl ⟨rfl, h.2, h.1⟩
    · cases he
      exact .inl ⟨rfl, h.2, h.1⟩
    · exact .inr ⟨hold, fun h => ⟨h, rfl⟩⟩

theorem act_keeps (k : TcpClient W R D) (a : ClientAction) : k.Keeps (k.act a) := by
  cases a with
  | connected r =>
    dsimp only [act]
    split
    · exact k.connected_keeps r
    · exact .refl k
  | connecting grant =>
    dsimp only [act]
    split
    · rename_i h
      exact k.connecting_keeps grant h
    · exact .refl k
  | listenRead grant => exact k.listen_keeps .IN_EVENT grant rfl
  | listenWrite grant => exact k.listen_keeps .OUT_EVENT grant rfl
  | clear => exact keeps_of_clear rfl fun h => h
  | finish => exact k.finish_keeps

theorem connectCallback_keeps (k : TcpClient W R D) (r : ConnectResult) (completes : Bool) :
    k.Keeps (k.connectCallback r completes) := by
  rw [connectCallback]
  split
  · exact (k.connected_keeps r).trans (finish_keeps _)
  · exact k.connected_keeps r

/-! ### Releasing a client -/

/-- Only a completion releases a client. -/
theorem act_fd_event (k : TcpClient W R D) (a : ClientAction) (ha : a ≠ .finish) :
    (k.act a).m_fd_event = k.m_fd_event := by
  cases a with
  | connected r =>
    dsimp only [act]
    split
    · rename_i hr
      cases r with
      | successAtOnce =>
        dsimp only [connected]
        split <;> rfl
      | failedAtOnce error => rfl
      | success => cases hr
      | refused error => cases hr
      | failed error => cases hr
    · rfl
  | connecting grant =>
    dsimp only [act]
    split <;> rfl
  | listenRead grant => rfl
  | listenWrite grant => rfl
  | clear => rfl
  | finish => exact absurd rfl ha

/-- A completion stops a loop that is looping. -/
theorem finish_stop_flag (k : TcpClient W R D) (h : k.endpoint.m_event_loop.m_is_looping = true ∨
    k.endpoint.m_event_loop.m_stop_flag = true) :
    k.finish.endpoint.m_event_loop.m_stop_flag = true := by
  obtain ⟨hloop, -⟩ := disconnect_beside (owns_all k.endpoint)
  rcases h with hl | hf
  · rw [finish, stop, if_pos (hloop.looping.trans hl)]
    rfl
  · exact k.finish_keeps.stop_flag hf

theorem connectCallback_fd_event {k : TcpClient W R D} {r : ConnectResult} (completes : Bool)
    (hr : r.isFailure = false) (hfd : 0 ≤ k.m_fd) :
    (k.connectCallback r completes).m_fd_event = k.m_fd_event := by
  rw [connectCallback, hr, Bool.false_and, if_neg Bool.false_ne_true]
  cases r with
  | successAtOnce =>
    dsimp only [connected]
    split <;> rfl
  | failedAtOnce error => cases hr
  | success =>
    dsimp only [connected]
    rw [if_pos (by rw [stopConnecting_fd]; exact hfd)]
    show k.stopConnecting.m_fd_event = _
    rw [stopConnecting]
    split <;> rfl
  | refused error => cases hr
  | failed error => cases hr

theorem connectCallback_stop_flag (k : TcpClient W R D) {r : ConnectResult}
    (hr : r.isFailure = true) (hlooping : k.endpoint.m_event_loop.m_is_looping = true) :
    (k.connectCallback r true).endpoint.m_event_loop.m_stop_flag = true := by
  obtain ⟨hloop, -⟩ := connected_beside (owns_all k.endpoint) r
  rw [connectCallback, hr, Bool.and_true, if_pos rfl]
  exact finish_stop_flag _ (.inl (hloop.looping.trans hlooping))

end TcpClient

end KaiRPC
