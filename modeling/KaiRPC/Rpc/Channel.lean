import KaiRPC.Rpc.Controller
import KaiRPC.Tcp.Read
import KaiRPC.Tcp.Client

/-!
# RPC attempts

`RpcChannel::RequestState` and `RpcChannel::CallMethod` of `net/rpc/rpc_channel.cc`.
An `Attempt` is a request state with the objects that belong to it alone: its
controller, its client and connection, its timer event and its closure.

The callbacks of an attempt only hold a weak pointer to the request state; `held` says
that the channel still has its strong one.  `beginCompletion` is the gate, `finish` what
lies behind it up to the user's closure, and `returned` the end of `finish`, so that
events that come while the closure runs are events like any others.

* `Attempt.step`: what each event does, in any order and any number of times.
* `Attempt.Pending` and `Attempt.Done`: an attempt is one or the other; `Done` is kept by
  every event, and so is the result in the controller.
* `attempt_completes_once`: the closure runs at most once, the first terminal event
  decides the result, and a completed attempt has left nothing behind.
-/

namespace KaiRPC

/-- `W`, `R` and `D` of an attempt's connection: there is one callback of each kind. -/
abbrev AttemptClient := TcpClient Unit Unit Unit

structure Attempt where
  controller : RpcController Unit
  msg_id : Bytes
  req_protocol : TinyPBProtocol
  client : AttemptClient
  /-- The timer event of the attempt. -/
  timer_event : Nat
  completed : Bool := false
  /-- `closure`, `client` and `timer` of the request state, as far as they are still set. -/
  closure : Bool := true
  has_client : Bool := true
  timer : Bool := true
  /-- The closure has run and `finish` has not returned yet. -/
  finishing : Bool := false
  held : Bool := true
  closure_runs : Nat := 0

/-- The events of an attempt, in any order. -/
inductive AttemptEvent
  | connecting (grant : Bool)
  | connectDone (r : ConnectResult)
  | writeDone
  | response (message : TinyPBProtocol)
  | timeout
  | cancelTask
  | startCancel
  | disconnect
  | returned
  | release
deriving DecidableEq

namespace Attempt

/-- The tail of `CallMethod`, from the request state to the call of `connect`. -/
def CallMethod (self fd timer_event : Nat) (controller : RpcController Unit)
    (req_protocol : TinyPBProtocol) (loop : Eventloop) (now : Int) : Attempt :=
  let client : AttemptClient := TcpClient.new self fd loop
  let event : TimerEvent :=
    { m_arrive_time := now + controller.m_timeout, m_interval := controller.m_timeout }
  let client := client.withLoop { client.endpoint.m_event_loop with
    m_timer := client.endpoint.m_event_loop.m_timer.setEvent timer_event event }
  let cancel := controller.SetCancelCallback ()
  let client := if cancel.2.isSome then client.addTask (.cancel self) else client
  let client := client.addTimerEvent timer_event now
  { controller := cancel.1
    msg_id := req_protocol.m_msg_id
    req_protocol := req_protocol
    client := client.setDisconnectCallback (some ())
    timer_event := timer_event }

/-- The gate, and whether the caller is the first to pass it. -/
def beginCompletion (a : Attempt) : Attempt × Bool :=
  if a.completed then (a, false)
  else
    let client := if a.has_client then
      let client := (a.client.setDisconnectCallback none).removeReadMessage a.msg_id
      if a.timer then client.deleteTimerEvent a.timer_event else client
    else a.client
    ({ a with
       completed := true
       controller := (a.controller.SetFinished true).ClearCancelCallback
       client := client }, true)

/-- `finish` up to the user's closure. -/
def finish (a : Attempt) (error_code : Int32) (error_info : Bytes) : Attempt :=
  let controller := if error_code ≠ 0 then a.controller.SetError error_code error_info
    else a.controller
  { a with
    controller := controller.SetFinished true
    closure := false
    timer := false
    client := if a.has_client then (a.client.setDisconnectCallback none).disconnect.stop
      else a.client
    closure_runs := if a.closure then a.closure_runs + 1 else a.closure_runs
    finishing := true }

/-- A terminal callback: `lock`, the gate, `finish`. -/
def complete (a : Attempt) (error_code : Int32) (error_info : Bytes) : Attempt :=
  if a.held then
    match a.beginCompletion with
    | (a, true) => a.finish error_code error_info
    | (a, false) => a
  else a

/-- The test at the head of the connect and write callbacks. -/
def IsActive (a : Attempt) : Prop := a.held = true ∧ a.completed = false

instance (a : Attempt) : Decidable a.IsActive := inferInstanceAs (Decidable (_ ∧ _))

/-- The result of a response, with the body parsed as the response message or not. -/
def responseResult (ParseFromString : Bytes → Bool) (message : TinyPBProtocol) : Int32 × Bytes :=
  if ¬ ParseFromString message.m_pb_data then
    (ERROR_FAILED_SERIALIZE, str "failed to deserialize response")
  else if message.m_err_code ≠ 0 then (message.m_err_code, message.m_err_info)
  else (0, [])

/-- What an event does to an attempt.  `connecting` is a `connect` in progress, `timeout` a run of
the timer callback, whose entry `onTimer` has taken out before, and `disconnect` a `clear` of the
connection. -/
def step (ParseFromString : Bytes → Bool) (a : Attempt) : AttemptEvent → Attempt
  | .connecting grant => { a with client := a.client.connecting grant }
  | .connectDone r =>
      let a := { a with client := a.client.connected r }
      if ¬ a.IsActive then a
      else if a.client.m_connect_error_code ≠ 0 then
        a.complete a.client.m_connect_error_code a.client.m_connect_error_info
      else { a with client := a.client.writeMessage a.req_protocol () }
  | .writeDone =>
      if ¬ a.IsActive then a else { a with client := a.client.readMessage a.msg_id () }
  | .response message =>
      let r := a.client.endpoint.handle message
      let a := { a with client := { a.client with endpoint := r.1 } }
      if r.2.isSome then
        let result := responseResult ParseFromString message
        a.complete result.1 result.2
      else a
  | .timeout =>
      let loop := a.client.endpoint.m_event_loop
      let loop := { loop with m_timer := loop.m_timer.erase a.timer_event }
      let a := { a with client := a.client.withLoop loop }
      a.complete ERROR_RPC_CALL_TIMEOUT (str "rpc call timeout")
  | .cancelTask => a.complete ERROR_RPC_CALL_CANCELLED (str "rpc call cancelled")
  | .startCancel =>
      let r := a.controller.StartCancel
      { a with
        controller := r.1
        client := if r.2.isSome then a.client.addTask (.cancel a.client.endpoint.conn.self)
          else a.client }
  | .disconnect =>
      let r := a.client.endpoint.clear
      let a := { a with client := { a.client with endpoint := r.1 } }
      if r.2.isSome then a.complete ERROR_RPC_TRANSPORT (str "rpc transport disconnected") else a
  | .returned =>
      if a.finishing then { a with has_client := false, held := false, finishing := false } else a
  | .release => { a with held := false }

/-! ### Terminal events -/

/-- The event is one of those that complete an attempt: a failed connect, a response that finds
its callback, the timeout, the cancellation, the close of a connection that was not cleared. -/
def Terminal (a : Attempt) : AttemptEvent → Prop
  | .connectDone r => (a.client.connected r).m_connect_error_code ≠ 0
  | .response message => (a.client.endpoint.handle message).2.isSome = true
  | .timeout | .cancelTask => True
  | .disconnect => ¬ a.client.endpoint.conn.IsCleared
  | .connecting _ | .writeDone | .startCancel | .returned | .release => False

instance (a : Attempt) : (ev : AttemptEvent) → Decidable (a.Terminal ev)
  | .connectDone _ => inferInstanceAs (Decidable (_ ≠ _))
  | .response _ => inferInstanceAs (Decidable (_ = _))
  | .timeout | .cancelTask => inferInstanceAs (Decidable True)
  | .disconnect => inferInstanceAs (Decidable (¬ _))
  | .connecting _ | .writeDone | .startCancel | .returned | .release =>
      inferInstanceAs (Decidable False)

/-- The error code and text a terminal event completes the attempt with. -/
def verdict (ParseFromString : Bytes → Bool) (a : Attempt) : AttemptEvent → Int32 × Bytes
  | .connectDone r =>
      ((a.client.connected r).m_connect_error_code, (a.client.connected r).m_connect_error_info)
  | .response message => responseResult ParseFromString message
  | .timeout => (ERROR_RPC_CALL_TIMEOUT, str "rpc call timeout")
  | .cancelTask => (ERROR_RPC_CALL_CANCELLED, str "rpc call cancelled")
  | .disconnect => (ERROR_RPC_TRANSPORT, str "rpc transport disconnected")
  | .connecting _ | .writeDone | .startCancel | .returned | .release => (0, [])

/-- What the controller reads as once the attempt was completed with `v`: finished, and failed
unless `v` has no error. -/
def settled (r : Bool × Int32 × Bytes) (v : Int32 × Bytes) : Bool × Int32 × Bytes :=
  (true, if v.1 ≠ 0 then v else r.2)

/-! ### Pending and done -/

/-- The connection is open, and its close would be reported. -/
def Armed (client : AttemptClient) : Prop :=
  ¬ client.endpoint.conn.IsCleared ∧ client.endpoint.conn.m_disconnect_callback.isSome = true

/-- Nobody has passed the gate yet. -/
structure Fresh (a : Attempt) : Prop where
  completed : a.completed = false
  closure : a.closure = true
  closure_runs : a.closure_runs = 0
  has_client : a.has_client = true
  timer : a.timer = true
  finishing : a.finishing = false
  entry : a.client.m_timer.AtMostOneEntry a.timer_event

structure Pending (a : Attempt) : Prop extends Fresh a where
  armed : a.held = true → Armed a.client

/-- An attempt left nothing behind. -/
structure Left (a : Attempt) : Prop where
  read_dones : a.client.endpoint.conn.m_read_dones a.msg_id = none
  timer_cancled : (a.client.m_timer.events a.timer_event).m_is_cancled = true
  timer_not_pending : ¬ a.client.m_timer.IsPending a.timer_event
  disconnect_callback : a.client.endpoint.conn.m_disconnect_callback = none
  cancel_callback : a.controller.m_cancel_callback = none
  closed : a.client.endpoint.conn.m_state = .Closed

structure Done (a : Attempt) : Prop where
  completed : a.completed = true
  closure_runs : a.closure_runs = 1
  finished : a.controller.m_is_finished = true
  cancel_callback : a.controller.m_cancel_callback = none
  disconnected : a.client.Disconnected a.msg_id
  timer_cancled : (a.client.m_timer.events a.timer_event).m_is_cancled = true
  timer_not_pending : ¬ a.client.m_timer.IsPending a.timer_event

theorem Done.left {a : Attempt} (h : a.Done) : a.Left where
  read_dones := h.disconnected.read_dones
  timer_cancled := h.timer_cancled
  timer_not_pending := h.timer_not_pending
  disconnect_callback := h.disconnected.disconnect_callback
  cancel_callback := h.cancel_callback
  closed := h.disconnected.cleared.1

theorem Fresh.setClient {a : Attempt} (h : a.Fresh) (client : AttemptClient)
    (ht : client.m_timer = a.client.m_timer) : ({ a with client := client } : Attempt).Fresh :=
  { h with entry := ht ▸ h.entry }

theorem Done.setClient {a : Attempt} (h : a.Done) (client : AttemptClient)
    (hd : client.Disconnected a.msg_id) (ht : client.m_timer = a.client.m_timer) :
    ({ a with client := client } : Attempt).Done :=
  { h with
    disconnected := hd
    timer_cancled := ht ▸ h.timer_cancled
    timer_not_pending := ht ▸ h.timer_not_pending }

/-! ### The gate -/

theorem complete_of_completed {a : Attempt} (h : a.completed = true) (error_code : Int32)
    (error_info : Bytes) : a.complete error_code error_info = a := by
  unfold complete
  split
  · rw [beginCompletion, if_pos h]
  · rfl

theorem complete_of_released {a : Attempt} (h : a.held = false) (error_code : Int32)
    (error_info : Bytes) : a.complete error_code error_info = a := by
  rw [complete, if_neg (by simp [h])]

theorem complete_eq_finish {a : Attempt} (h : a.Fresh) (hheld : a.held = true)
    (error_code : Int32) (error_info : Bytes) :
    a.complete error_code error_info = finish { a with
      completed := true
      controller := (a.controller.SetFinished true).ClearCancelCallback
      client := ((a.client.setDisconnectCallback none).removeReadMessage a.msg_id).deleteTimerEvent
        a.timer_event } error_code error_info := by
  rw [complete, if_pos hheld, beginCompletion, if_neg (by simp [h.completed]),
    if_pos h.has_client, if_pos h.timer]

theorem complete_client {a : Attempt} (h : a.Fresh) (hheld : a.held = true)
    (error_code : Int32) (error_info : Bytes) :
    (a.complete error_code error_info).client
      = ((((a.client.setDisconnectCallback none).removeReadMessage a.msg_id).deleteTimerEvent
        a.timer_event).setDisconnectCallback none).disconnect.stop := by
  rw [complete_eq_finish h hheld]
  exact if_pos h.has_client

/-- **The first to pass the gate completes the attempt.** -/
theorem complete_fresh {a : Attempt} (h : a.Fresh) (hheld : a.held = true)
    (error_code : Int32) (error_info : Bytes) :
    (a.complete error_code error_info).Done ∧
      (a.complete error_code error_info).controller.result
        = settled a.controller.result (error_code, error_info) := by
  have hgate := complete_eq_finish h hheld error_code error_info
  have hclient := complete_client h hheld error_code error_info
  have htimer : (a.complete error_code error_info).client.m_timer
      = a.client.m_timer.deleteTimerEvent a.timer_event := by
    rw [hclient, TcpClient.stop_timer, TcpClient.disconnect_timer]
    rfl
  have hruns : (a.complete error_code error_info).closure_runs = 1 := by
    rw [hgate]
    show (if a.closure then a.closure_runs + 1 else a.closure_runs) = 1
    rw [if_pos h.closure, h.closure_runs]
  obtain ⟨hcancled, hpending⟩ := Timer.deleteTimerEvent_spec h.entry
  have hid : (a.complete error_code error_info).msg_id = a.msg_id ∧
      (a.complete error_code error_info).timer_event = a.timer_event := by
    rw [hgate]
    exact ⟨rfl, rfl⟩
  refine ⟨⟨by rw [hgate]; rfl, hruns, by rw [hgate]; rfl, ?_, ?_, ?_, ?_⟩, ?_⟩
  · rw [hgate]
    unfold finish
    dsimp only
    split <;> rfl
  · rw [hclient, hid.1]
    exact (TcpClient.disconnect_disconnected (Function.update_self _ _ _)).congr
      (TcpClient.stop_fd _) (TcpClient.stop_conn _)
  · rw [htimer, hid.2]
    exact hcancled
  · rw [htimer, hid.2]
    exact hpending
  · rw [hgate]
    unfold finish settled
    dsimp only
    split <;> rfl

/-! ### One event -/

theorem handle_conn (e : Endpoint Unit Unit Unit) (message : TinyPBProtocol) :
    (e.handle message).1.conn = e.conn ∨
      (e.handle message).1.conn = e.conn.removeReadMessage message.m_msg_id := by
  unfold Endpoint.handle TcpConnection.takeReadDone
  split
  · exact Or.inl rfl
  · dsimp only
    split
    · exact Or.inr rfl
    · exact Or.inl rfl

variable {a : Attempt}

theorem response_armed (message : TinyPBProtocol) (h : Armed a.client) :
    Armed { a.client with endpoint := (a.client.endpoint.handle message).1 } := by
  obtain hc | hc := handle_conn a.client.endpoint message
  · exact ⟨by rw [hc]; exact h.1, by rw [hc]; exact h.2⟩
  · exact ⟨by rw [hc]; exact h.1, by rw [hc]; exact h.2⟩

theorem response_disconnected (message : TinyPBProtocol) (h : a.client.Disconnected a.msg_id) :
    TcpClient.Disconnected { a.client with endpoint := (a.client.endpoint.handle message).1 }
      a.msg_id := by
  obtain hc | hc := handle_conn a.client.endpoint message
  · exact h.congr rfl hc
  · refine ⟨h.fd, by rw [hc]; exact h.cleared, ?_, by rw [hc]; exact h.disconnect_callback⟩
    rw [hc]
    show Function.update a.client.endpoint.conn.m_read_dones message.m_msg_id none a.msg_id = none
    by_cases hid : a.msg_id = message.m_msg_id
    · rw [hid, Function.update_self]
    · rw [Function.update_of_ne hid]
      exact h.read_dones

variable (ParseFromString : Bytes → Bool)

/-- **A completed attempt stays as it is**, whatever comes. -/
theorem step_done (h : a.Done) (ev : AttemptEvent) : (a.step ParseFromString ev).Done ∧
    (a.step ParseFromString ev).controller.result = a.controller.result := by
  have hactive : ¬ a.IsActive := fun hactive => absurd hactive.2 (by simp [h.completed])
  cases ev with
  | connecting grant =>
    exact ⟨h.setClient _ (h.disconnected.congr rfl rfl) (TcpClient.connecting_timer _ _), rfl⟩
  | connectDone r =>
    have hd := h.setClient _ (TcpClient.connected_disconnected h.disconnected r)
      (a.client.connected_timer r)
    have hactive' : ¬ ({ a with client := a.client.connected r } : Attempt).IsActive := hactive
    dsimp only [step]
    rw [if_pos hactive']
    exact ⟨hd, rfl⟩
  | writeDone =>
    dsimp only [step]
    rw [if_pos hactive]
    exact ⟨h, rfl⟩
  | response message =>
    have hd := h.setClient _ (response_disconnected message h.disconnected)
      (congrArg Eventloop.m_timer (Endpoint.handle_loop _ _))
    dsimp only [step]
    split
    · rw [complete_of_completed hd.completed]
      exact ⟨hd, rfl⟩
    · exact ⟨hd, rfl⟩
  | timeout =>
    dsimp only [step]
    rw [complete_of_completed (by exact h.completed)]
    refine ⟨{ h with
      disconnected := h.disconnected.congr rfl rfl
      timer_cancled := h.timer_cancled
      timer_not_pending := not_not.mpr (Timer.entries_erase _ _) }, rfl⟩
  | cancelTask =>
    dsimp only [step]
    rw [complete_of_completed h.completed]
    exact ⟨h, rfl⟩
  | startCancel =>
    dsimp only [step]
    rw [RpcController.StartCancel_of_finished h.finished]
    exact ⟨h, rfl⟩
  | disconnect =>
    have hclear : a.client.endpoint.clear = (a.client.endpoint, none) :=
      if_pos h.disconnected.cleared
    dsimp only [step]
    rw [hclear]
    exact ⟨h, rfl⟩
  | returned =>
    dsimp only [step]
    split
    · exact ⟨{ h with }, rfl⟩
    · exact ⟨h, rfl⟩
  | release => exact ⟨{ h with }, rfl⟩

/-- What a terminal event does to a pending attempt that the channel still holds: something
on its own client, and then it completes the attempt. -/
theorem step_eq_complete (h : a.Pending) (hheld : a.held = true) {ev : AttemptEvent}
    (ht : a.Terminal ev) : ∃ client, ({ a with client := client } : Attempt).Fresh ∧
      (∀ own, a.client.endpoint.Owns own → a.client.Beside own client) ∧
      a.step ParseFromString ev = ({ a with client := client } : Attempt).complete
        (a.verdict ParseFromString ev).1 (a.verdict ParseFromString ev).2 := by
  cases ev with
  | connectDone r =>
    have hactive : ({ a with client := a.client.connected r } : Attempt).IsActive :=
      ⟨hheld, h.completed⟩
    refine ⟨a.client.connected r, h.setClient _ (a.client.connected_timer r),
      fun own hown => TcpClient.connected_beside hown r, ?_⟩
    dsimp only [step, Terminal] at ht ⊢
    rw [if_neg (not_not.mpr hactive), if_pos ht]
    rfl
  | response message =>
    have hloop := Endpoint.handle_loop a.client.endpoint message
    refine ⟨{ a.client with endpoint := (a.client.endpoint.handle message).1 },
      h.setClient _ (congrArg Eventloop.m_timer hloop), fun own hown => ⟨?_, ?_⟩, ?_⟩
    · rw [hloop]
      exact .refl _
    · obtain hc | hc := handle_conn a.client.endpoint message
      · exact ⟨by rw [Endpoint.handle_fd_event]; exact hown.1, by rw [hc]; exact hown.2⟩
      · exact ⟨by rw [Endpoint.handle_fd_event]; exact hown.1, by rw [hc]; exact hown.2⟩
    · dsimp only [step, Terminal] at ht ⊢
      rw [if_pos ht]
      rfl
  | timeout =>
    refine ⟨a.client.withLoop { a.client.endpoint.m_event_loop with
      m_timer := a.client.endpoint.m_event_loop.m_timer.erase a.timer_event },
      { h.toFresh with entry := ?_ }, fun own hown => ⟨.of_timer _ _, hown⟩, rfl⟩
    exact Or.inl (Timer.entries_erase _ _)
  | cancelTask => exact ⟨a.client, h.toFresh, fun own hown => ⟨.refl _, hown⟩, rfl⟩
  | disconnect =>
    have hclear : a.client.endpoint.clear.2.isSome = true := by
      rw [Endpoint.clear, if_neg (by exact ht)]
      exact (h.armed hheld).2
    refine ⟨{ a.client with endpoint := a.client.endpoint.clear.1 },
      h.setClient _ (Endpoint.clear_timer _), fun own hown => Endpoint.clear_beside hown, ?_⟩
    dsimp only [step]
    rw [if_pos hclear]
    rfl
  | connecting grant => exact ht.elim
  | writeDone => exact ht.elim
  | startCancel => exact ht.elim
  | returned => exact ht.elim
  | release => exact ht.elim

/-- **A terminal event completes a pending attempt** that the channel still holds. -/
theorem step_terminal (h : a.Pending) (hheld : a.held = true) {ev : AttemptEvent}
    (ht : a.Terminal ev) : (a.step ParseFromString ev).Done ∧
      (a.step ParseFromString ev).controller.result
        = settled a.controller.result (a.verdict ParseFromString ev) := by
  obtain ⟨client, hf, -, heq⟩ := step_eq_complete ParseFromString h hheld ht
  rw [heq]
  exact complete_fresh hf hheld _ _

theorem writeMessage_armed {client : AttemptClient} (h : Armed client) (message : TinyPBProtocol) :
    Armed (client.writeMessage message ()) := by
  unfold Armed TcpClient.writeMessage Endpoint.listenWrite
  rw [Endpoint.listen_conn]
  exact h

theorem readMessage_armed {client : AttemptClient} (h : Armed client) (msg_id : Bytes) :
    Armed (client.readMessage msg_id ()) := by
  unfold Armed TcpClient.readMessage Endpoint.listenRead
  rw [Endpoint.listen_conn]
  show ¬ (client.endpoint.conn.pushReadMessage msg_id ()).IsCleared ∧
    (client.endpoint.conn.pushReadMessage msg_id ()).m_disconnect_callback.isSome = true
  unfold TcpConnection.pushReadMessage
  split
  · exact h
  · exact h

theorem connected_armed {client : AttemptClient} {r : ConnectResult} (h : Armed client)
    (hr : (client.connected r).m_connect_error_code = 0) : Armed (client.connected r) := by
  unfold Armed
  rw [TcpClient.connected_conn hr]
  exact ⟨fun hc => absurd hc.1 (by decide : TcpState.Connected ≠ .Closed), h.2⟩

theorem connectDone_pending (h : a.Pending) {r : ConnectResult}
    (ht : ¬ (a.held = true ∧ a.Terminal (.connectDone r))) :
    (a.step ParseFromString (.connectDone r)).Pending ∧
      (a.step ParseFromString (.connectDone r)).controller.result = a.controller.result ∧
      ((a.step ParseFromString (.connectDone r)).held = true ↔
        a.held = true ∧ AttemptEvent.connectDone r ≠ .release) := by
  have hf : ({ a with client := a.client.connected r } : Attempt).Fresh :=
    h.setClient _ (a.client.connected_timer r)
  dsimp only [step]
  by_cases hheld : a.held = true
  · have hr : (a.client.connected r).m_connect_error_code = 0 :=
      not_not.mp fun hr => ht ⟨hheld, hr⟩
    have hactive : ({ a with client := a.client.connected r } : Attempt).IsActive :=
      ⟨hheld, h.completed⟩
    rw [if_neg (not_not.mpr hactive), if_neg (not_not.mpr hr)]
    have hf' := hf.setClient ((a.client.connected r).writeMessage a.req_protocol ())
      (TcpClient.writeMessage_timer _ _ _)
    have harmed := writeMessage_armed (connected_armed (h.armed hheld) hr) a.req_protocol
    exact ⟨⟨hf', fun _ => harmed⟩, rfl, by simp⟩
  · rw [if_pos fun hactive => hheld hactive.1]
    exact ⟨⟨hf, fun hheld' => absurd hheld' hheld⟩, rfl, by simp⟩

theorem startCancel_pending (h : a.Pending) :
    (a.step ParseFromString .startCancel).Pending ∧
      (a.step ParseFromString .startCancel).controller.result = a.controller.result ∧
      ((a.step ParseFromString .startCancel).held = true ↔
        a.held = true ∧ AttemptEvent.startCancel ≠ .release) := by
  dsimp only [step]
  have hp : ∀ client : AttemptClient, client.m_timer = a.client.m_timer →
      client.endpoint.conn = a.client.endpoint.conn →
      Pending { a with controller := a.controller.StartCancel.1, client := client } := by
    intro client htimer hconn
    refine ⟨{ h.toFresh with entry := htimer ▸ h.entry }, fun hheld => ?_⟩
    unfold Armed
    dsimp only
    rw [hconn]
    exact h.armed hheld
  split
  · exact ⟨hp _ (TcpClient.addTask_timer _ _) rfl, RpcController.StartCancel_result _, by simp⟩
  · exact ⟨hp _ rfl rfl, RpcController.StartCancel_result _, by simp⟩

/-- **Any other event leaves a pending attempt pending**, and so does every event once the
channel let it go. -/
theorem step_pending (h : a.Pending) {ev : AttemptEvent} (ht : ¬ (a.held = true ∧ a.Terminal ev)) :
    (a.step ParseFromString ev).Pending ∧
      (a.step ParseFromString ev).controller.result = a.controller.result ∧
      ((a.step ParseFromString ev).held = true ↔ a.held = true ∧ ev ≠ .release) := by
  cases ev with
  | connecting grant =>
    exact ⟨⟨h.setClient _ (TcpClient.connecting_timer _ _), h.armed⟩, rfl, by simp [step]⟩
  | connectDone r => exact connectDone_pending ParseFromString h ht
  | writeDone =>
    dsimp only [step]
    split
    · exact ⟨h, rfl, by simp⟩
    · exact ⟨⟨h.setClient _ (TcpClient.readMessage_timer _ _ _),
        fun hheld => readMessage_armed (h.armed hheld) _⟩, rfl, by simp⟩
  | response message =>
    have hf := h.setClient ({ a.client with
      endpoint := (a.client.endpoint.handle message).1 })
      (congrArg Eventloop.m_timer (Endpoint.handle_loop _ _))
    have hp : ({ a with client := { a.client with
        endpoint := (a.client.endpoint.handle message).1 } } : Attempt).Pending :=
      ⟨hf, fun hheld => response_armed message (h.armed hheld)⟩
    dsimp only [step]
    split
    · have hheld : a.held = false := by simpa using fun hheld => ht ⟨hheld, ‹_›⟩
      rw [complete_of_released (by exact hheld)]
      exact ⟨hp, rfl, by simp⟩
    · exact ⟨hp, rfl, by simp⟩
  | timeout =>
    have hheld : a.held = false := by simpa using fun hheld => ht ⟨hheld, trivial⟩
    dsimp only [step]
    rw [complete_of_released (by exact hheld)]
    exact ⟨{ h.toFresh with
      entry := Or.inl (Timer.entries_erase _ _)
      armed := fun hheld' => absurd hheld' (by simp [hheld]) }, rfl, by simp⟩
  | cancelTask =>
    have hheld : a.held = false := by simpa using fun hheld => ht ⟨hheld, trivial⟩
    dsimp only [step]
    rw [complete_of_released hheld]
    exact ⟨h, rfl, by simp⟩
  | startCancel => exact startCancel_pending ParseFromString h
  | disconnect =>
    have hf := h.setClient ({ a.client with endpoint := a.client.endpoint.clear.1 })
      (Endpoint.clear_timer _)
    by_cases hheld : a.held = true
    · exact absurd ⟨hheld, (h.armed hheld).1⟩ ht
    · have hp : ({ a with client := { a.client with
          endpoint := a.client.endpoint.clear.1 } } : Attempt).Pending :=
        ⟨hf, fun hheld' => absurd hheld' hheld⟩
      dsimp only [step]
      split
      · rw [complete_of_released (by simpa using hheld)]
        exact ⟨hp, rfl, by simp⟩
      · exact ⟨hp, rfl, by simp⟩
  | returned =>
    dsimp only [step]
    rw [if_neg (by simp [h.finishing])]
    exact ⟨h, rfl, by simp⟩
  | release => exact ⟨{ h.toFresh with armed := fun hheld => by cases hheld }, rfl,
    by simp [step]⟩

/-! ### Whole runs -/

def run (ParseFromString : Bytes → Bool) (a : Attempt) (evs : List AttemptEvent) : Attempt :=
  evs.foldl (step ParseFromString) a

theorem run_done (h : a.Done) (evs : List AttemptEvent) : (run ParseFromString a evs).Done ∧
    (run ParseFromString a evs).controller.result = a.controller.result := by
  induction evs generalizing a with
  | nil => exact ⟨h, rfl⟩
  | cons ev evs ih =>
    obtain ⟨hd, hr⟩ := step_done ParseFromString h ev
    obtain ⟨hd', hr'⟩ := ih hd
    exact ⟨hd', hr'.trans hr⟩

/-- The attempt is completed by the event `ev`, which comes after `pre`. -/
def CompletedBy (ParseFromString : Bytes → Bool) (a : Attempt) (pre : List AttemptEvent)
    (ev : AttemptEvent) : Prop :=
  (run ParseFromString a pre).Pending ∧ .release ∉ pre ∧ (run ParseFromString a pre).Terminal ev

/-- **Pending to the end, or completed by one of the events.** -/
theorem run_pending (h : a.Pending) (hheld : a.held = true) (evs : List AttemptEvent) :
    ((run ParseFromString a evs).Pending ∧
      (run ParseFromString a evs).controller.result = a.controller.result ∧
      ((run ParseFromString a evs).held = true ↔ .release ∉ evs)) ∨
    ∃ pre ev post, evs = pre ++ ev :: post ∧ CompletedBy ParseFromString a pre ev ∧
      (run ParseFromString a evs).Done := by
  -- From the right: an event changes nothing once the attempt is done.
  induction evs using List.reverseRecOn with
  | nil => exact Or.inl ⟨h, rfl, iff_of_true hheld (List.not_mem_nil)⟩
  | append_singleton evs ev ih =>
    have hrun : run ParseFromString a (evs ++ [ev])
        = (run ParseFromString a evs).step ParseFromString ev := List.foldl_concat ..
    rw [hrun]
    obtain ⟨hp, hr, hh⟩ | ⟨pre, ev', post, rfl, hby, hd⟩ := ih
    · by_cases ht : (run ParseFromString a evs).held = true ∧
        (run ParseFromString a evs).Terminal ev
      · exact Or.inr ⟨evs, ev, [], rfl, ⟨hp, hh.mp ht.1, ht.2⟩, (step_terminal _ hp ht.1 ht.2).1⟩
      · obtain ⟨hp', hr', hh'⟩ := step_pending ParseFromString hp ht
        refine Or.inl ⟨hp', hr'.trans hr, ?_⟩
        rw [hh', hh, List.mem_append, List.mem_singleton, not_or]
        exact and_congr_right' ne_comm
    · exact Or.inr ⟨pre, ev', post ++ [ev], by simp, hby, (step_done _ hd ev).1⟩

/-- **A pending attempt that was let go never runs its closure**, whatever comes. -/
theorem run_released (h : a.Pending) (hheld : a.held = false) (evs : List AttemptEvent) :
    (run ParseFromString a evs).closure_runs = 0 := by
  induction evs generalizing a with
  | nil => exact h.closure_runs
  | cons ev evs ih =>
    have ht : ¬ (a.held = true ∧ a.Terminal ev) := by simp [hheld]
    obtain ⟨hp, -, hh⟩ := step_pending ParseFromString h ht
    refine ih hp ?_
    rw [← Bool.not_eq_true, hh]
    simp [hheld]

theorem CallMethod_pending (self fd : Nat) {timer_event : Nat} (controller : RpcController Unit)
    (req_protocol : TinyPBProtocol) {loop : Eventloop} (now : Int)
    (hnew : ¬ loop.m_timer.IsPending timer_event) :
    (CallMethod self fd timer_event controller req_protocol loop now).Pending ∧
      (CallMethod self fd timer_event controller req_protocol loop now).controller.result
        = controller.result := by
  have hentries : (TcpClient.new self fd loop : AttemptClient).m_timer.entries timer_event
      = [] := by
    rw [TcpClient.new_timer]
    exact not_not.mp hnew
  refine ⟨⟨⟨rfl, rfl, rfl, rfl, rfl, rfl, ?_⟩, fun _ => ⟨?_, rfl⟩⟩,
    RpcController.SetCancelCallback_result _ _⟩
  · refine Eventloop.addTimerEvent_atMostOne now ?_
    split
    · refine (congrArg (fun t => t.entries timer_event) (TcpClient.addTask_timer _ _)).trans ?_
      exact hentries
    · exact hentries
  · intro hcleared
    unfold CallMethod at hcleared
    dsimp only at hcleared
    split at hcleared <;> cases hcleared.1

/-- **One completion.**  Whatever the order and the number of the events of an attempt, its
closure runs at most once; it is completed exactly when a terminal event came before the channel
let it go; the first such event decides what the controller reads as, then and at every later
time; and a completed attempt has left nothing behind. -/
theorem attempt_completes_once (ParseFromString : Bytes → Bool) (self fd timer_event : Nat)
    (controller : RpcController Unit) (req_protocol : TinyPBProtocol) (loop : Eventloop) (now : Int)
    (hnew : ¬ loop.m_timer.IsPending timer_event) (evs : List AttemptEvent) :
    let a := run ParseFromString (CallMethod self fd timer_event controller req_protocol loop now)
    (a evs).closure_runs ≤ 1 ∧
    ((a evs).completed = true → (a evs).Left) ∧
    ((a evs).completed = true ↔ ∃ pre ev post, evs = pre ++ ev :: post ∧ .release ∉ pre ∧
      (a pre).Terminal ev) ∧
    ((a evs).completed = false →
      (a evs).closure_runs = 0 ∧ (a evs).controller.result = controller.result) ∧
    (∀ pre ev post, evs = pre ++ ev :: post → (a pre).completed = false → .release ∉ pre →
      (a pre).Terminal ev → (a evs).closure_runs = 1 ∧ (a evs).controller.result
        = settled controller.result ((a pre).verdict ParseFromString ev)) := by
  intro a
  obtain ⟨hp₀, hr₀⟩ := CallMethod_pending self fd controller req_protocol now hnew
  have hcases := fun evs => run_pending ParseFromString hp₀ rfl evs
  have happ : ∀ pre ev post, a (pre ++ ev :: post)
      = run ParseFromString ((a pre).step ParseFromString ev) post := by
    intro pre ev post
    exact List.foldl_append ..
  have hfirst : ∀ pre ev post, (a pre).completed = false → .release ∉ pre → (a pre).Terminal ev →
      (a (pre ++ ev :: post)).Done ∧ (a (pre ++ ev :: post)).controller.result
        = settled controller.result ((a pre).verdict ParseFromString ev) := by
    intro pre ev post hc hpre ht
    obtain ⟨hp, hr, hheld⟩ | ⟨_, _, _, _, _, hd⟩ := hcases pre
    · obtain ⟨hd, hr'⟩ := step_terminal ParseFromString hp (hheld.mpr hpre) ht
      obtain ⟨hd', hr''⟩ := run_done ParseFromString hd post
      rw [happ]
      exact ⟨hd', by rw [hr'', hr', hr, hr₀]⟩
    · cases hc.symm.trans hd.completed
  refine ⟨?_, ?_, ⟨?_, ?_⟩, ?_, ?_⟩
  · obtain ⟨hp, _⟩ | ⟨_, _, _, _, _, hd⟩ := hcases evs
    · exact hp.closure_runs.trans_le (Nat.zero_le 1)
    · exact hd.closure_runs.le
  · intro hc
    obtain ⟨hp, _⟩ | ⟨_, _, _, _, _, hd⟩ := hcases evs
    · cases hp.completed.symm.trans hc
    · exact hd.left
  · intro hc
    obtain ⟨hp, _⟩ | ⟨pre, ev, post, he, hby, _⟩ := hcases evs
    · cases hp.completed.symm.trans hc
    · exact ⟨pre, ev, post, he, hby.2⟩
  · rintro ⟨pre, ev, post, rfl, hpre, ht⟩
    obtain ⟨hp, _⟩ | ⟨_, _, _, _, _, hd⟩ := hcases pre
    · exact (hfirst pre ev post hp.completed hpre ht).1.completed
    · rw [happ]
      exact (run_done _ (step_done _ hd ev).1 post).1.completed
  · intro hc
    obtain ⟨hp, hr, _⟩ | ⟨_, _, _, _, _, hd⟩ := hcases evs
    · exact ⟨hp.closure_runs, hr.trans hr₀⟩
    · cases hc.symm.trans hd.completed
  · rintro pre ev post rfl hc hpre ht
    obtain ⟨hd, hr⟩ := hfirst pre ev post hc hpre ht
    exact ⟨hd.closure_runs, hr⟩

/-- The timeout and the disconnect come after the response: one run, no error. -/
theorem attempt_completes_once_late_timeout :
    ¬ ({} : Eventloop).m_timer.IsPending 0 ∧
    let a := run (fun _ => true) (CallMethod 0 3 0 {} { m_msg_id := str "1" } {} 0) [
      .connecting true, .connectDone .success, .writeDone, .response { m_msg_id := str "1" },
      .timeout, .disconnect]
    a.closure_runs = 1 ∧ a.Left ∧ a.controller.result = (true, 0, []) := by
  have hnew : ¬ ({} : Eventloop).m_timer.IsPending 0 := not_not.mpr rfl
  obtain ⟨-, hleft, -, -, hfirst⟩ := attempt_completes_once (fun _ => true) 0 3 0 {}
    { m_msg_id := str "1" } {} 0 hnew [.connecting true, .connectDone .success, .writeDone,
      .response { m_msg_id := str "1" }, .timeout, .disconnect]
  obtain ⟨hruns, hresult⟩ := hfirst [.connecting true, .connectDone .success, .writeDone]
    (.response { m_msg_id := str "1" }) [.timeout, .disconnect] rfl (by decide +kernel)
    (by decide) (by decide +kernel)
  exact ⟨hnew, hruns, hleft (by decide +kernel), hresult⟩

end Attempt

end KaiRPC
