import KaiRPC.Tcp.Connection

/-!
# TcpClient

`net/tcp/tcp_client.cc`: a connection with the descriptor it was opened on and the
outcome of its `connect`.  The client and its connection share the fd event and the
loop, so the `Endpoint` of the connection is the client's too; `m_fd_event` only says
whether the client's own pointer to the event is still set.

`connect` ends in one of the `ConnectResult`s, at once or from the connect callback,
which waits for the socket meanwhile (`connecting`), and then runs the caller's callback;
`connected` is what it does before that.

What a caller has to know about it: without an error it made the connection usable and no
more (`connected_conn`), and a client that was disconnected stays so
(`connected_disconnected`).
-/

namespace KaiRPC

structure TcpClient (W R D : Type) where
  endpoint : Endpoint W R D
  m_fd : Int
  m_fd_event : Bool := true
  m_connect_error_code : Int32 := 0
  m_connect_error_info : Bytes := []

/-- How a `connect` ended: at once or in the connect callback, with the text of `strerror`. -/
inductive ConnectResult
  | successAtOnce
  | failedAtOnce (error : Bytes)
  | success
  | refused (error : Bytes)
  | failed (error : Bytes)
deriving DecidableEq, Repr

namespace TcpClient

variable {W R D : Type}

/-- The constructor on descriptor `fd`: a stopped loop is made ready to run again. -/
def new (self : Nat) (fd : Nat) (loop : Eventloop) : TcpClient W R D where
  endpoint := {
    conn := TcpConnection.new self fd 128 .TcpConnectionByClient
    m_fd_event := { m_fd := fd }
    m_event_loop := if loop.m_stop_flag then
      { loop with m_stop_flag := false, m_is_looping := false } else loop }
  m_fd := fd

def withConn (c : TcpClient W R D) (conn : TcpConnection W R D) : TcpClient W R D :=
  { c with endpoint := { c.endpoint with conn := conn } }

def withLoop (c : TcpClient W R D) (loop : Eventloop) : TcpClient W R D :=
  { c with endpoint := { c.endpoint with m_event_loop := loop } }

def setDisconnectCallback (c : TcpClient W R D) (callback : Option D) : TcpClient W R D :=
  c.withConn (c.endpoint.conn.setDisconnectCallback callback)

def removeReadMessage (c : TcpClient W R D) (msg_id : Bytes) : TcpClient W R D :=
  c.withConn (c.endpoint.conn.removeReadMessage msg_id)

def addTimerEvent (c : TcpClient W R D) (event : Nat) (now : Int) : TcpClient W R D :=
  c.withLoop (c.endpoint.m_event_loop.addTimerEvent event now)

def deleteTimerEvent (c : TcpClient W R D) (event : Nat) : TcpClient W R D :=
  c.withLoop (c.endpoint.m_event_loop.deleteTimerEvent event)

def addTask (c : TcpClient W R D) (cb : Callback) : TcpClient W R D :=
  c.withLoop (c.endpoint.m_event_loop.addTask cb)

def stop (c : TcpClient W R D) : TcpClient W R D :=
  if c.endpoint.m_event_loop.m_is_looping then c.withLoop c.endpoint.m_event_loop.stop else c

/-- `disconnect`: the disconnect callback is taken out first, so no callback runs. -/
def disconnect (c : TcpClient W R D) : TcpClient W R D :=
  { c with
    endpoint := (c.setDisconnectCallback none).endpoint.clear.1
    m_fd := -1
    m_fd_event := false }

def writeMessage (c : TcpClient W R D) (message : TinyPBProtocol) (done : W) : TcpClient W R D :=
  let c := c.withConn (c.endpoint.conn.pushSendMessage message done)
  { c with endpoint := c.endpoint.listenWrite true }

def readMessage (c : TcpClient W R D) (msg_id : Bytes) (done : R) : TcpClient W R D :=
  let c := c.withConn (c.endpoint.conn.pushReadMessage msg_id done)
  { c with endpoint := c.endpoint.listenRead true }

/-- `connect` is in progress: the connect callback waits for the socket to become writable. -/
def connecting (c : TcpClient W R D) (grant : Bool) : TcpClient W R D :=
  let callback := Callback.connect c.endpoint.conn.self
  let event := c.endpoint.m_fd_event.listen .OUT_EVENT callback (some callback)
  { c with endpoint := { c.endpoint with
      m_fd_event := event
      m_event_loop := c.endpoint.m_event_loop.addEpollEvent event grant } }

/-- The head of the connect callback.  On a released event the source dereferences a null
pointer; here nothing happens. -/
def stopConnecting (c : TcpClient W R D) : TcpClient W R D :=
  if c.m_fd_event then
    let event := c.endpoint.m_fd_event.cancle .OUT_EVENT
    { c with endpoint := { c.endpoint with
        m_fd_event := event
        m_event_loop := c.endpoint.m_event_loop.deleteEpollEvent event } }
  else c

/-- The error branch of the connect callback. -/
def connectFailed (c : TcpClient W R D) (error_code : Int32) (error_info : Bytes) :
    TcpClient W R D :=
  { c.disconnect with m_connect_error_code := error_code, m_connect_error_info := error_info }

def badDescriptor : Bytes := str "Bad file descriptor"

/-- What `connect` does before it runs the caller's callback.  On descriptor `-1` the system
call fails whatever the peer does. -/
def connected (c : TcpClient W R D) : ConnectResult → TcpClient W R D
  | .successAtOnce =>
      if 0 ≤ c.m_fd then c.withConn (c.endpoint.conn.setState .Connected)
      else { c with
        m_connect_error_code := ERROR_FAILED_CONNECT
        m_connect_error_info := str "connect error, sys error = " ++ badDescriptor }
  | .failedAtOnce error => { c with
      m_connect_error_code := ERROR_FAILED_CONNECT
      m_connect_error_info := str "connect error, sys error = " ++ error }
  | .success =>
      let c := c.stopConnecting
      if 0 ≤ c.m_fd then c.withConn (c.endpoint.conn.setState .Connected)
      else c.connectFailed ERROR_FAILED_CONNECT
        (str "connect unkonwn error, sys error = " ++ badDescriptor)
  | .refused error =>
      c.stopConnecting.connectFailed ERROR_PEER_CLOSED
        (str "connect refused, sys error = " ++ error)
  | .failed error =>
      c.stopConnecting.connectFailed ERROR_FAILED_CONNECT
        (str "connect unkonwn error, sys error = " ++ error)

/-! ### The timer and the connection -/

/-- The timer of the client's loop. -/
def m_timer (c : TcpClient W R D) : Timer := c.endpoint.m_event_loop.m_timer

theorem new_timer (self fd : Nat) (loop : Eventloop) :
    (new self fd loop : TcpClient W R D).m_timer = loop.m_timer := by
  unfold new m_timer
  dsimp only
  split <;> rfl

@[simp] theorem addTask_timer (c : TcpClient W R D) (cb : Callback) :
    (c.addTask cb).m_timer = c.m_timer := Eventloop.addTask_timer _ _

@[simp] theorem stop_timer (c : TcpClient W R D) : c.stop.m_timer = c.m_timer := by
  unfold stop
  split <;> rfl

@[simp] theorem stop_conn (c : TcpClient W R D) : c.stop.endpoint.conn = c.endpoint.conn := by
  unfold stop
  split <;> rfl

@[simp] theorem stop_fd (c : TcpClient W R D) : c.stop.m_fd = c.m_fd := by
  unfold stop
  split <;> rfl

@[simp] theorem disconnect_timer (c : TcpClient W R D) : c.disconnect.m_timer = c.m_timer :=
  Endpoint.clear_timer _

@[simp] theorem writeMessage_timer (c : TcpClient W R D) (message : TinyPBProtocol) (done : W) :
    (c.writeMessage message done).m_timer = c.m_timer := Endpoint.listen_timer _ _ _ _

@[simp] theorem readMessage_timer (c : TcpClient W R D) (msg_id : Bytes) (done : R) :
    (c.readMessage msg_id done).m_timer = c.m_timer := Endpoint.listen_timer _ _ _ _

@[simp] theorem connecting_timer (c : TcpClient W R D) (grant : Bool) :
    (c.connecting grant).m_timer = c.m_timer := Eventloop.addEpollEvent_timer _ _ _

@[simp] theorem stopConnecting_timer (c : TcpClient W R D) :
    c.stopConnecting.m_timer = c.m_timer := by
  unfold stopConnecting
  split
  · exact Eventloop.deleteEpollEvent_timer _ _
  · rfl

@[simp] theorem stopConnecting_conn (c : TcpClient W R D) :
    c.stopConnecting.endpoint.conn = c.endpoint.conn := by
  unfold stopConnecting
  split <;> rfl

@[simp] theorem stopConnecting_fd (c : TcpClient W R D) : c.stopConnecting.m_fd = c.m_fd := by
  unfold stopConnecting
  split <;> rfl

theorem connected_timer (c : TcpClient W R D) (r : ConnectResult) :
    (c.connected r).m_timer = c.m_timer := by
  cases r with
  | successAtOnce =>
    dsimp only [connected]
    split <;> rfl
  | failedAtOnce error => rfl
  | success =>
    dsimp only [connected]
    split
    · exact c.stopConnecting_timer
    · exact (disconnect_timer _).trans c.stopConnecting_timer
  | refused error => exact (disconnect_timer _).trans c.stopConnecting_timer
  | failed error => exact (disconnect_timer _).trans c.stopConnecting_timer

/-! ### The rest of the loop -/

/-- The client's descriptors are among `own`, and the rest of the loop is as it was. -/
def Beside (own : Int → Prop) (c c' : TcpClient W R D) : Prop :=
  c.endpoint.m_event_loop.Beside own c'.endpoint.m_event_loop ∧ c'.endpoint.Owns own

theorem Beside.trans {own : Int → Prop} {c c' c'' : TcpClient W R D} (h : c.Beside own c')
    (h' : c'.Beside own c'') : c.Beside own c'' := ⟨h.1.trans h'.1, h'.2⟩

theorem stopConnecting_beside {own : Int → Prop} {c : TcpClient W R D} (h : c.endpoint.Owns own) :
    c.Beside own c.stopConnecting := by
  rw [stopConnecting]
  split
  · refine ⟨Eventloop.deleteEpollEvent_beside _ ?_, ?_, h.2⟩
    · rw [FdEvent.cancle_fd]
      exact h.1
    · dsimp only
      rw [FdEvent.cancle_fd]
      exact h.1
  · exact ⟨.refl _, h⟩

theorem disconnect_beside {own : Int → Prop} {c : TcpClient W R D} (h : c.endpoint.Owns own) :
    c.Beside own c.disconnect :=
  Endpoint.clear_beside (e := (c.setDisconnectCallback none).endpoint) h

theorem connected_beside {own : Int → Prop} {c : TcpClient W R D} (h : c.endpoint.Owns own)
    (r : ConnectResult) : c.Beside own (c.connected r) := by
  have hstop := stopConnecting_beside h
  have hfailed : ∀ code info, c.Beside own (c.stopConnecting.connectFailed code info) := by
    intro code info
    exact hstop.trans (disconnect_beside hstop.2)
  cases r with
  | successAtOnce =>
    dsimp only [connected]
    split
    · exact ⟨.refl _, h⟩
    · exact ⟨.refl _, h⟩
  | failedAtOnce error => exact ⟨.refl _, h⟩
  | success =>
    dsimp only [connected]
    split
    · exact hstop
    · exact hfailed _ _
  | refused error => exact hfailed _ _
  | failed error => exact hfailed _ _

/-- The client's side is closed for good: the connection is cleared, nothing waits on it. -/
structure Disconnected (c : TcpClient W R D) (msg_id : Bytes) : Prop where
  fd : c.m_fd < 0
  cleared : c.endpoint.conn.IsCleared
  read_dones : c.endpoint.conn.m_read_dones msg_id = none
  disconnect_callback : c.endpoint.conn.m_disconnect_callback = none

theorem Disconnected.congr {c c' : TcpClient W R D} {msg_id : Bytes} (h : c.Disconnected msg_id)
    (hfd : c'.m_fd = c.m_fd) (hconn : c'.endpoint.conn = c.endpoint.conn) :
    c'.Disconnected msg_id := by
  obtain ⟨h1, h2, h3, h4⟩ := h
  rw [← hfd] at h1
  rw [← hconn] at h2 h3 h4
  exact ⟨h1, h2, h3, h4⟩

theorem disconnect_disconnected {c : TcpClient W R D} {msg_id : Bytes}
    (h : c.endpoint.conn.m_read_dones msg_id = none) : c.disconnect.Disconnected msg_id := by
  have hconn := (c.setDisconnectCallback none).endpoint.clear_conn
  refine ⟨(by decide : (-1 : Int) < 0), Endpoint.clear_isCleared _, ?_, ?_⟩
  · show (c.setDisconnectCallback none).endpoint.clear.1.conn.m_read_dones msg_id = none
    rw [hconn]
    split
    · exact h
    · rfl
  · show (c.setDisconnectCallback none).endpoint.clear.1.conn.m_disconnect_callback = none
    rw [hconn]
    split <;> rfl

/-- **A disconnected client stays so, and its `connect` fails.** -/
theorem connected_disconnected {c : TcpClient W R D} {msg_id : Bytes} (h : c.Disconnected msg_id)
    (r : ConnectResult) : (c.connected r).Disconnected msg_id := by
  have hfd : ¬ 0 ≤ c.m_fd := not_le.mpr h.fd
  have hfailed : ∀ code info, (c.stopConnecting.connectFailed code info).Disconnected msg_id := by
    intro code info
    have hd : c.stopConnecting.disconnect.Disconnected msg_id :=
      disconnect_disconnected (by rw [stopConnecting_conn]; exact h.read_dones)
    exact hd.congr rfl rfl
  cases r with
  | successAtOnce =>
    dsimp only [connected]
    rw [if_neg hfd]
    exact h.congr rfl rfl
  | failedAtOnce error => exact h.congr rfl rfl
  | success =>
    dsimp only [connected]
    rw [if_neg (by rw [stopConnecting_fd]; exact hfd)]
    exact hfailed _ _
  | refused error => exact hfailed _ _
  | failed error => exact hfailed _ _

/-- **A `connect` without an error made the connection usable and no more.** -/
theorem connected_conn {c : TcpClient W R D} {r : ConnectResult}
    (h : (c.connected r).m_connect_error_code = 0) :
    (c.connected r).endpoint.conn = c.endpoint.conn.setState .Connected := by
  have h1 : ERROR_FAILED_CONNECT ≠ 0 := by decide
  have h2 : ERROR_PEER_CLOSED ≠ 0 := by decide
  cases r with
  | successAtOnce =>
    dsimp only [connected] at h ⊢
    split at h
    · rw [if_pos ‹_›]
      rfl
    · exact absurd h h1
  | failedAtOnce error => exact absurd h h1
  | success =>
    dsimp only [connected] at h ⊢
    split at h
    · rw [if_pos ‹_›]
      exact congrArg (fun conn => conn.setState .Connected) c.stopConnecting_conn
    · exact absurd h h1
  | refused error => exact absurd h h2
  | failed error => exact absurd h h1

end TcpClient

end KaiRPC
