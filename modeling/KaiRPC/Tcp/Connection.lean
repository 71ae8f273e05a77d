import KaiRPC.Net.EventLoop
import KaiRPC.Coder.Decode

/-!
# TcpConnection

The state of `net/tcp/tcp_connection.cc` and the operations that neither read nor
write the socket.  `W`, `R` and `D` are the types of the callbacks a connection
holds for its owner: write done, response arrived, disconnected.  A callback is not
run here: an operation that would run one returns it.

An `Endpoint` is a connection with the two objects it works on, its slot of the fd
event group and its event loop.  `owned` says that a `shared_ptr` owns the
connection, so that `weak_from_this` has not expired.
-/

namespace KaiRPC

inductive TcpState
  | NotConnected
  | Connected
  | HalfClosing
  | Closed
deriving DecidableEq, Repr

inductive TcpConnectionType
  | TcpConnectionByServer
  | TcpConnectionByClient
deriving DecidableEq, Repr

structure TcpConnection (W R D : Type) where
  self : Nat := 0
  owned : Bool := true
  m_in_buffer : TcpBuffer
  m_out_buffer : TcpBuffer
  m_state : TcpState := .NotConnected
  m_fd : Int := -1
  m_connection_type : TcpConnectionType := .TcpConnectionByServer
  m_write_dones : List (TinyPBProtocol × W) := []
  m_read_dones : Bytes → Option R := fun _ => none
  m_disconnect_callback : Option D := none

namespace TcpConnection

variable {W R D : Type}

/-- The constructor, with both buffers of `buffer_size`. -/
def new (self : Nat) (fd : Int) (buffer_size : Nat) (type : TcpConnectionType) :
    TcpConnection W R D where
  self := self
  m_in_buffer := TcpBuffer.new buffer_size
  m_out_buffer := TcpBuffer.new buffer_size
  m_fd := fd
  m_connection_type := type

/-- `setState` ignores its argument. -/
def setState (c : TcpConnection W R D) (_state : TcpState) : TcpConnection W R D :=
  { c with m_state := .Connected }

def pushSendMessage (c : TcpConnection W R D) (message : TinyPBProtocol) (done : W) :
    TcpConnection W R D :=
  { c with m_write_dones := c.m_write_dones ++ [(message, done)] }

/-- `map::insert`: an id that is there keeps its callback. -/
def pushReadMessage (c : TcpConnection W R D) (msg_id : Bytes) (done : R) :
    TcpConnection W R D :=
  match c.m_read_dones msg_id with
  | some _ => c
  | none => { c with m_read_dones := Function.update c.m_read_dones msg_id (some done) }

def removeReadMessage (c : TcpConnection W R D) (msg_id : Bytes) : TcpConnection W R D :=
  { c with m_read_dones := Function.update c.m_read_dones msg_id none }

def setDisconnectCallback (c : TcpConnection W R D) (callback : Option D) :
    TcpConnection W R D :=
  { c with m_disconnect_callback := callback }

/-- What `clear` leaves of a connection. -/
def cleared (c : TcpConnection W R D) : TcpConnection W R D :=
  { c with
    m_fd := -1
    m_state := .Closed
    m_read_dones := fun _ => none
    m_write_dones := []
    m_disconnect_callback := none }

/-- The test at the head of `clear`. -/
def IsCleared (c : TcpConnection W R D) : Prop := c.m_state = .Closed ∧ c.m_fd < 0

instance (c : TcpConnection W R D) : Decidable c.IsCleared := inferInstanceAs (Decidable (_ ∧ _))

/-- The test at the head of `onRead` and `onWrite`. -/
def IsUsable (c : TcpConnection W R D) : Prop := c.m_state = .Connected ∧ 0 ≤ c.m_fd

instance (c : TcpConnection W R D) : Decidable c.IsUsable := inferInstanceAs (Decidable (_ ∧ _))

/-- The entry of a response: found, it is moved out of the map. -/
def takeReadDone (c : TcpConnection W R D) (msg_id : Bytes) : Option R × TcpConnection W R D :=
  match c.m_read_dones msg_id with
  | some done => (some done, c.removeReadMessage msg_id)
  | none => (none, c)

end TcpConnection

structure Endpoint (W R D : Type) where
  conn : TcpConnection W R D
  m_fd_event : FdEvent
  m_event_loop : Eventloop

namespace Endpoint

variable {W R D : Type}

/-- A connection right after its construction and `setState(Connected)`, on a fresh loop. -/
def connected (fd buffer_size : Nat) (type : TcpConnectionType) : Endpoint W R D where
  conn := (TcpConnection.new 0 fd buffer_size type).setState .Connected
  m_fd_event := { m_fd := fd }
  m_event_loop := {}

/-- The same endpoint with another input buffer. -/
def withIn (e : Endpoint W R D) (b : TcpBuffer) : Endpoint W R D :=
  { e with conn := { e.conn with m_in_buffer := b } }

/-- The same endpoint with another output buffer. -/
def withOut (e : Endpoint W R D) (out : TcpBuffer) : Endpoint W R D :=
  { e with conn := { e.conn with m_out_buffer := out } }

/-- `clear`, and the disconnect callback it runs last. -/
def clear (e : Endpoint W R D) : Endpoint W R D × Option D :=
  if e.conn.IsCleared then (e, none)
  else
    let fd := e.conn.m_fd
    let event := (e.m_fd_event.cancle .IN_EVENT).cancle .OUT_EVENT
    let loop := e.m_event_loop.deleteEpollEvent event
    let loop := if fd ≥ 0 then loop.closeFd fd else loop
    ({ conn := e.conn.cleared, m_fd_event := event.reset, m_event_loop := loop },
      e.conn.m_disconnect_callback)

/-- `listenRead` and `listenWrite`: register the callback, and `clear` for errors. -/
def listen (e : Endpoint W R D) (event_type : TriggerEvent) (callback : Callback)
    (grant : Bool) : Endpoint W R D :=
  if e.conn.m_state = .Closed ∨ e.conn.m_fd < 0 then e
  else if ¬ e.conn.owned then e
  else
    let event := e.m_fd_event.listen event_type callback (some (.clear e.conn.self))
    { e with
      m_fd_event := event
      m_event_loop := e.m_event_loop.addEpollEvent event grant }

def listenWrite (e : Endpoint W R D) (grant : Bool) : Endpoint W R D :=
  e.listen .OUT_EVENT (.onWrite e.conn.self) grant

def listenRead (e : Endpoint W R D) (grant : Bool) : Endpoint W R D :=
  e.listen .IN_EVENT (.onRead e.conn.self) grant

/-- `shutdown`: half close, the descriptor stays. -/
def shutdown (e : Endpoint W R D) : Endpoint W R D :=
  if e.conn.m_state = .Closed ∨ e.conn.m_state = .NotConnected then e
  else { e with conn := { e.conn with m_state := .HalfClosing } }

/-- `reply`: encode behind what is already there and wait for the socket. -/
def reply (e : Endpoint W R D) (messages : List TinyPBProtocol) (grant : Bool) :
    Option (Endpoint W R D) :=
  (TinyPBCoder.encode messages e.conn.m_out_buffer).map fun out =>
    (e.withOut out).listenWrite grant

@[simp] theorem listen_conn (e : Endpoint W R D) (t : TriggerEvent) (c : Callback) (grant : Bool) :
    (e.listen t c grant).conn = e.conn := by
  unfold listen
  split
  · rfl
  · split <;> rfl

@[simp] theorem listen_timer (e : Endpoint W R D) (t : TriggerEvent) (c : Callback) (grant : Bool) :
    (e.listen t c grant).m_event_loop.m_timer = e.m_event_loop.m_timer := by
  unfold listen
  split
  · rfl
  · split
    · rfl
    · exact Eventloop.addEpollEvent_timer _ _ _

@[simp] theorem clear_timer (e : Endpoint W R D) :
    e.clear.1.m_event_loop.m_timer = e.m_event_loop.m_timer := by
  unfold clear
  split
  · rfl
  · dsimp only
    split <;> exact Eventloop.deleteEpollEvent_timer _ _

/-- **After `clear` the connection is the cleared one.** -/
theorem clear_conn (e : Endpoint W R D) :
    e.clear.1.conn = if e.conn.IsCleared then e.conn else e.conn.cleared := by
  unfold clear
  split <;> rfl

/-- The descriptors of the endpoint are among `own`. -/
def Owns (own : Int → Prop) (e : Endpoint W R D) : Prop :=
  own e.m_fd_event.m_fd ∧ (0 ≤ e.conn.m_fd → own e.conn.m_fd)

/-- **`clear` touches nothing on the loop but the descriptors of its connection.** -/
theorem clear_beside {own : Int → Prop} {e : Endpoint W R D} (h : e.Owns own) :
    e.m_event_loop.Beside own e.clear.1.m_event_loop ∧ e.clear.1.Owns own := by
  rw [clear]
  split
  · exact ⟨.refl _, h⟩
  · have hown : own ((e.m_fd_event.cancle .IN_EVENT).cancle .OUT_EVENT).m_fd := by simpa using h.1
    have hdel := e.m_event_loop.deleteEpollEvent_beside hown
    refine ⟨?_, by simpa [FdEvent.reset] using h.1, fun hfd => ?_⟩
    · dsimp only
      split
      · exact hdel.trans (Eventloop.closeFd_beside _ (h.2 ‹_›))
      · exact hdel
    · exact absurd hfd (by decide : ¬ (0 : Int) ≤ -1)

theorem clear_isCleared (e : Endpoint W R D) : e.clear.1.conn.IsCleared := by
  rw [clear_conn]
  split
  · assumption
  · exact ⟨rfl, (by decide : (-1 : Int) < 0)⟩

end Endpoint

end KaiRPC
