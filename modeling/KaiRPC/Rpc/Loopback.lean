import Mathlib.Data.List.Perm.Subperm
import KaiRPC.Rpc.Serving
import KaiRPC.Tcp.Ends

/-!
# A client and a server on one stream

The two ends of a connection together, with the bytes on their way between them: a client
connection of `net/tcp/tcp_connection.cc`, the server connection of `Rpc.Serving`, and the
two directions of the socket.  What the kernel took from one end and the other end has not
read is in flight; a `read()` returns a piece of it of any length.

Every step of either end may come at any time: requests are queued, callbacks registered and
removed, reads and writes return what they like, closures run in any order, each at most once,
and either end may be cleared, by an error, by the end of the stream or by its owner.  A message
over the size limit has no bytes on the stream: `arrivals` leaves it out.

* `loopback_delivers`: in every run the server gets requests of the client in the order
  they were pushed and none twice, and the client gets the responses to those that were
  served in the order of the replies.
* `loopback_matches`: with distinct ids on the wire every response handled is the one response
  to the request with its id.
* `loopback_complete`: with both ends open and nothing on its way, every request that was
  pushed at an empty output buffer has been served and its response handled, as far as they are
  within the size limit.
-/

namespace KaiRPC

open TinyPBCoder RpcDispatcher

variable {W R D : Type}

/-! ### The two ends -/

/-- A client connection and a server connection, and the bytes in flight in both directions.
For the client: the requests pushed and those encoded, the bytes taken from it and the bytes
it read, the responses of the `excute` under way and those handled, each with the callback
that ran, and the callbacks registered so far.  For the server: the bytes it read. -/
structure Loopback (W R D : Type) where
  client : Endpoint W R D
  server : Serving W R D
  toServer : Bytes := []
  toClient : Bytes := []
  pushed : List TinyPBProtocol := []
  framed : List TinyPBProtocol := []
  sent : Bytes := []
  clientReceived : Bytes := []
  todo : List TinyPBProtocol := []
  handled : List (TinyPBProtocol × Option R) := []
  registered : List (Bytes × R) := []
  serverReceived : Bytes := []

inductive LoopbackClientOp (W R : Type)
  | pushSendMessage (message : TinyPBProtocol) (done : W)
  | pushReadMessage (msg_id : Bytes) (done : R)
  | removeReadMessage (msg_id : Bytes)
  | onWrite (results : List WriteResult)
  | onRead (results : List ReadResult)
  | handle
  | clear

inductive LoopbackServerOp
  | onRead (results : List ReadResult)
  | dispatch
  | run (call : Nat) (r : Serialized)
  | onWrite (results : List WriteResult)
  | clear

inductive LoopbackOp (W R : Type)
  | client (op : LoopbackClientOp W R)
  | server (op : LoopbackServerOp)

namespace Loopback

/-- A step of the client's loop.  A `read()` returns bytes in flight. -/
def clientStep (v : Loopback W R D) : LoopbackClientOp W R → Option (Loopback W R D)
  | .pushSendMessage message done => some { v with
      client := { v.client with conn := v.client.conn.pushSendMessage message done }
      pushed := v.pushed ++ [message] }
  | .pushReadMessage msg_id done => some { v with
      client := { v.client with conn := v.client.conn.pushReadMessage msg_id done }
      registered := v.registered ++ [(msg_id, done)] }
  | .removeReadMessage msg_id => some { v with
      client := { v.client with conn := v.client.conn.removeReadMessage msg_id } }
  | .onWrite results => (v.client.onWrite results true).map fun r =>
      { v with
        client := r.endpoint
        framed := v.framed ++ v.client.encodes
        sent := v.sent ++ r.accepted
        toServer := v.toServer ++ r.accepted }
  | .onRead results =>
      if v.todo = [] then (v.client.onRead results).bind fun r =>
        if r.received <+: v.toClient then some { v with
          client := r.endpoint
          toClient := v.toClient.drop r.received.length
          clientReceived := v.clientReceived ++ r.received
          todo := r.result }
        else none
      else none
  | .handle =>
      match v.todo with
      | [] => none
      | message :: todo => some { v with
          client := (v.client.handle message).1
          todo := todo
          handled := v.handled ++ [(message, (v.client.handle message).2)] }
  | .clear => some { v with client := v.client.clear.1 }

/-- A step of the server's loop, or of a service that runs its closure. -/
def serverStep (m_service_map : ServiceMap) (v : Loopback W R D) :
    LoopbackServerOp → Option (Loopback W R D)
  | .onRead results => (v.server.s.e.onRead results).bind fun r =>
      if r.received <+: v.toServer then
        (v.server.step m_service_map (.onRead results)).map fun server =>
          { v with
            server := server
            toServer := v.toServer.drop r.received.length
            serverReceived := v.serverReceived ++ r.received }
      else none
  | .dispatch => (v.server.step m_service_map .dispatch).map fun server =>
      { v with server := server }
  | .run call r => (v.server.step m_service_map (.run call r)).map fun server =>
      { v with server := server }
  | .onWrite results => (v.server.s.e.onWrite results true).bind fun r =>
      (v.server.step m_service_map (.onWrite results)).map fun server =>
        { v with server := server, toClient := v.toClient ++ r.accepted }
  | .clear => some { v with
      server := { v.server with s := { v.server.s with e := v.server.s.e.clear.1 } } }

def step (m_service_map : ServiceMap) (v : Loopback W R D) :
    LoopbackOp W R → Option (Loopback W R D)
  | .client op => v.clientStep op
  | .server op => v.serverStep m_service_map op

/-- The client's requests on the way to the server, and the server's responses on the way back. -/
structure Inv (m_service_map : ServiceMap) (v : Loopback W R D) : Prop where
  sending : Sending v.client v.sent v.framed v.pushed
  toServer : v.sent = v.serverReceived ++ v.toServer
  requests : Reading v.server.s.e v.serverReceived v.server.requests
  serving : v.server.Inv m_service_map []
  toClient : v.server.s.accepted = v.clientReceived ++ v.toClient
  responses : Reading v.client v.clientReceived (v.handled.map Prod.fst ++ v.todo)

section Steps

variable {m_service_map : ServiceMap} {v v' : Loopback W R D}

theorem taken {sent received inflight piece : Bytes} (h : sent = received ++ inflight)
    (hp : piece <+: inflight) : sent = received ++ piece ++ inflight.drop piece.length := by
  obtain ⟨rest, rfl⟩ := hp
  rw [h, List.drop_left, List.append_assoc]

theorem inv_push (h : v.Inv m_service_map) (message : TinyPBProtocol) (done : W)
    (hs : v.clientStep (.pushSendMessage message done) = some v') :
    v'.Inv m_service_map := by
  cases hs
  exact ⟨h.sending.push message done, h.toServer, h.requests, h.serving, h.toClient,
    h.responses.congr rfl id⟩

theorem inv_client (h : v.Inv m_service_map) {e : Endpoint W R D} {registered : List (Bytes × R)}
    (hw : Sending e v.sent v.framed v.pushed)
    (hr : Reading e v.clientReceived (v.handled.map Prod.fst ++ v.todo)) :
    Inv m_service_map { v with client := e, registered := registered } :=
  ⟨hw, h.toServer, h.requests, h.serving, h.toClient, hr⟩

theorem inv_clientWrite (h : v.Inv m_service_map) {results : List WriteResult}
    (hs : v.clientStep (.onWrite results) = some v') : v'.Inv m_service_map := by
  obtain ⟨r, hr, rfl⟩ := Option.map_eq_some_iff.mp hs
  refine ⟨(h.sending.onWrite hr).1, ?_, h.requests, h.serving, h.toClient,
    h.responses.onWrite h.sending.wf hr⟩
  show v.sent ++ r.accepted = v.serverReceived ++ (v.toServer ++ r.accepted)
  rw [h.toServer, List.append_assoc]

theorem inv_clientRead (h : v.Inv m_service_map) {results : List ReadResult}
    (hs : v.clientStep (.onRead results) = some v') : v'.Inv m_service_map := by
  simp only [clientStep, Option.ite_none_right_eq_some] at hs
  obtain ⟨htodo, hs⟩ := hs
  obtain ⟨r, hr, hs⟩ := Option.bind_eq_some_iff.mp hs
  obtain ⟨hp, hs⟩ := Option.ite_none_right_eq_some.mp hs
  cases hs
  have hresp := h.responses
  rw [htodo, List.append_nil] at hresp
  exact ⟨h.sending.onRead hr, h.toServer, h.requests, h.serving, taken h.toClient hp,
    hresp.onRead hr⟩

theorem inv_handle (h : v.Inv m_service_map)
    (hs : v.clientStep .handle = some v') : v'.Inv m_service_map := by
  simp only [clientStep] at hs
  split at hs
  · cases hs
  · rename_i message todo htodo
    cases hs
    have hresp := h.responses
    rw [htodo] at hresp
    obtain ⟨h1, h2, h3, husable⟩ := v.client.handle_keeps message
    refine ⟨h.sending.congr h1 h2 (Or.inl h3), h.toServer, h.requests, h.serving, h.toClient, ?_⟩
    have hmap : (v.handled ++ [(message, (v.client.handle message).2)]).map Prod.fst ++ todo
        = v.handled.map Prod.fst ++ message :: todo := by
      rw [List.map_append, List.append_assoc]
      rfl
    show Reading (v.client.handle message).1 v.clientReceived (List.map Prod.fst
      (v.handled ++ [(message, (v.client.handle message).2)]) ++ todo)
    rw [hmap]
    exact hresp.congr (v.client.handle_in message) husable

theorem inv_serverRead (h : v.Inv m_service_map) {results : List ReadResult}
    (hs : v.serverStep m_service_map (.onRead results) = some v') : v'.Inv m_service_map := by
  obtain ⟨r, hr, hs⟩ := Option.bind_eq_some_iff.mp hs
  obtain ⟨hp, hs⟩ := Option.ite_none_right_eq_some.mp hs
  obtain ⟨server, hserver, rfl⟩ := Option.map_eq_some_iff.mp hs
  have hinv := Serving.inv_step h.serving hserver
  simp only [Serving.step, hr, Option.map_some] at hserver
  cases hserver
  exact ⟨h.sending, taken h.toServer hp, h.requests.onRead hr, hinv, h.toClient, h.responses⟩

theorem inv_server (h : v.Inv m_service_map) {server : Serving W R D}
    (hinv : server.Inv m_service_map []) (hreq : server.requests = v.server.requests)
    (hacc : server.s.accepted = v.server.s.accepted)
    (hin : server.s.e.conn.m_in_buffer = v.server.s.e.conn.m_in_buffer)
    (hu : server.s.e.conn.IsUsable → v.server.s.e.conn.IsUsable) :
    Inv m_service_map { v with server := server } :=
  ⟨h.sending, h.toServer, hreq ▸ h.requests.congr hin hu, hinv, hacc.trans h.toClient,
    h.responses⟩

theorem inv_dispatch (h : v.Inv m_service_map)
    (hs : v.serverStep m_service_map .dispatch = some v') : v'.Inv m_service_map := by
  obtain ⟨server, hserver, rfl⟩ := Option.map_eq_some_iff.mp hs
  have hinv := Serving.inv_step h.serving hserver
  simp only [Serving.step] at hserver
  split at hserver
  · cases hserver
  · split at hserver
    · cases hserver
      exact inv_server h hinv rfl rfl rfl id
    · cases hserver
      exact inv_server h hinv rfl rfl rfl id

theorem inv_run (h : v.Inv m_service_map) {call : Nat} {r : Serialized}
    (hs : v.serverStep m_service_map (.run call r) = some v') : v'.Inv m_service_map := by
  obtain ⟨server, hserver, rfl⟩ := Option.map_eq_some_iff.mp hs
  have hinv := Serving.inv_step h.serving hserver
  obtain ⟨⟨request, rsp⟩, -, hserver⟩ := Option.bind_eq_some_iff.mp hserver
  obtain ⟨s, hreply, rfl⟩ := Option.map_eq_some_iff.mp hserver
  obtain ⟨e, he, rfl⟩ := Option.map_eq_some_iff.mp hreply
  obtain ⟨out, -, rfl⟩ := Option.map_eq_some_iff.mp he
  have hconn : ((v.server.s.e.withOut out).listenWrite true).conn
      = (v.server.s.e.withOut out).conn := Endpoint.listen_conn _ _ _ _
  refine inv_server h hinv rfl rfl (by dsimp only; rw [hconn]; rfl) ?_
  dsimp only
  rw [hconn]
  exact id

theorem inv_serverWrite (h : v.Inv m_service_map) {results : List WriteResult}
    (hs : v.serverStep m_service_map (.onWrite results) = some v') : v'.Inv m_service_map := by
  obtain ⟨r, hr, hs⟩ := Option.bind_eq_some_iff.mp hs
  obtain ⟨server, hserver, rfl⟩ := Option.map_eq_some_iff.mp hs
  have hinv := Serving.inv_step h.serving hserver
  simp only [Serving.step, Replies.step, hr, Option.map_some] at hserver
  cases hserver
  refine ⟨h.sending, h.toServer, h.requests.onWrite h.serving.conn.wf hr, hinv, ?_, h.responses⟩
  show v.server.s.accepted ++ r.accepted = v.clientReceived ++ (v.toClient ++ r.accepted)
  rw [h.toClient, List.append_assoc]

theorem inv_serverClear (h : v.Inv m_service_map)
    (hs : v.serverStep m_service_map .clear = some v') : v'.Inv m_service_map := by
  cases hs
  obtain ⟨⟨hwf, hsent, htype⟩, hrep, hperm, hpend⟩ := h.serving
  obtain ⟨h1, h2⟩ := v.server.s.e.clear_out
  refine inv_server h ⟨⟨?_, ?_, h2.trans htype⟩, hrep, hperm, hpend⟩ rfl rfl
    v.server.s.e.clear_in fun hu =>
      absurd hu (Endpoint.isCleared_not_usable v.server.s.e.clear_isCleared)
  · show TcpBuffer.WF v.server.s.e.clear.1.conn.m_out_buffer
    rw [h1]
    exact hwf
  · show v.server.s.accepted ++ v.server.s.e.clear.1.conn.m_out_buffer.content = _
    rw [h1]
    exact hsent

theorem inv_clientStep {op : LoopbackClientOp W R} (h : v.Inv m_service_map)
    (hs : v.clientStep op = some v') : v'.Inv m_service_map := by
  cases op with
  | pushSendMessage message done => exact inv_push h message done hs
  | pushReadMessage msg_id done =>
    cases hs
    obtain ⟨h1, h2, h3, h4, h5⟩ := v.client.conn.pushReadMessage_keeps msg_id done
    exact inv_client h (h.sending.congr h1 h3 (Or.inl h4)) (h.responses.congr h2 h5)
  | removeReadMessage msg_id =>
    cases hs
    exact inv_client h (h.sending.congr rfl rfl (Or.inl rfl)) (h.responses.congr rfl id)
  | onWrite results => exact inv_clientWrite h hs
  | onRead results => exact inv_clientRead h hs
  | handle => exact inv_handle h hs
  | clear =>
    cases hs
    exact inv_client h h.sending.clear h.responses.clear

theorem inv_serverStep {op : LoopbackServerOp} (h : v.Inv m_service_map)
    (hs : v.serverStep m_service_map op = some v') : v'.Inv m_service_map := by
  cases op with
  | onRead results => exact inv_serverRead h hs
  | dispatch => exact inv_dispatch h hs
  | run call r => exact inv_run h hs
  | onWrite results => exact inv_serverWrite h hs
  | clear => exact inv_serverClear h hs

theorem inv_step {op : LoopbackOp W R} (h : v.Inv m_service_map)
    (hs : v.step m_service_map op = some v') : v'.Inv m_service_map := by
  cases op with
  | client op => exact inv_clientStep h hs
  | server op => exact inv_serverStep h hs

theorem serverStep_client {op : LoopbackServerOp}
    (hs : v.serverStep m_service_map op = some v') :
    v'.client = v.client ∧ v'.pushed = v.pushed ∧ v'.framed = v.framed ∧
      v'.handled = v.handled ∧ v'.registered = v.registered := by
  cases op with
  | onRead results =>
    obtain ⟨r, -, hs⟩ := Option.bind_eq_some_iff.mp hs
    obtain ⟨-, hs⟩ := Option.ite_none_right_eq_some.mp hs
    obtain ⟨server, -, rfl⟩ := Option.map_eq_some_iff.mp hs
    exact ⟨rfl, rfl, rfl, rfl, rfl⟩
  | dispatch =>
    obtain ⟨server, -, rfl⟩ := Option.map_eq_some_iff.mp hs
    exact ⟨rfl, rfl, rfl, rfl, rfl⟩
  | run call r =>
    obtain ⟨server, -, rfl⟩ := Option.map_eq_some_iff.mp hs
    exact ⟨rfl, rfl, rfl, rfl, rfl⟩
  | onWrite results =>
    obtain ⟨r, -, hs⟩ := Option.bind_eq_some_iff.mp hs
    obtain ⟨server, -, rfl⟩ := Option.map_eq_some_iff.mp hs
    exact ⟨rfl, rfl, rfl, rfl, rfl⟩
  | clear =>
    cases hs
    exact ⟨rfl, rfl, rfl, rfl, rfl⟩

/-! ### The client's callbacks -/

/-- A callback that waits, or ran, was registered under the id of its response. -/
structure Matched (v : Loopback W R D) : Prop where
  waits : ∀ msg_id done, v.client.conn.m_read_dones msg_id = some done →
    (msg_id, done) ∈ v.registered
  ran : ∀ p ∈ v.handled, ∀ done, p.2 = some done → (p.1.m_msg_id, done) ∈ v.registered

theorem Matched.keep (h : v.Matched) (hreg : v'.registered = v.registered)
    (hh : v'.handled = v.handled)
    (hmap : ∀ msg_id done, v'.client.conn.m_read_dones msg_id = some done →
      v.client.conn.m_read_dones msg_id = some done) : v'.Matched := by
  refine ⟨fun msg_id done hd => ?_, fun p hp done hd => ?_⟩
  · rw [hreg]
    exact h.waits msg_id done (hmap msg_id done hd)
  · rw [hreg]
    exact h.ran p (hh ▸ hp) done hd

theorem Matched.pushReadMessage (h : v.Matched) (msg_id : Bytes) (done : R)
    (hs : v.clientStep (.pushReadMessage msg_id done) = some v') : v'.Matched := by
  cases hs
  refine ⟨fun id d hd => ?_, fun p hp d hd => List.mem_append_left _ (h.ran p hp d hd)⟩
  dsimp only [TcpConnection.pushReadMessage] at hd
  split at hd
  · exact List.mem_append_left _ (h.waits id d hd)
  · dsimp only at hd
    by_cases hid : id = msg_id
    · rw [hid, Function.update_self] at hd
      cases hd
      rw [hid]
      exact List.mem_append_right _ (List.mem_singleton_self _)
    · rw [Function.update_of_ne hid] at hd
      exact List.mem_append_left _ (h.waits id d hd)

theorem Matched.handle (h : v.Matched) (hs : v.clientStep .handle = some v') :
    v'.Matched := by
  simp only [clientStep] at hs
  split at hs
  · cases hs
  · rename_i message todo htodo
    cases hs
    obtain ⟨hran, hmap⟩ := v.client.handle_read_dones message
    refine ⟨fun id done hd => h.waits id done (hmap id done hd), fun p hp done hd => ?_⟩
    rcases List.mem_append.mp hp with hp | hp
    · exact h.ran p hp done hd
    · rw [List.mem_singleton] at hp
      subst hp
      exact h.waits _ _ (hran done hd)

theorem Matched.clientStep {op : LoopbackClientOp W R} (hinv : v.Inv m_service_map)
    (h : v.Matched) (hs : v.clientStep op = some v') : v'.Matched := by
  cases op with
  | pushSendMessage message done =>
    cases hs
    exact h.keep rfl rfl fun _ _ hd => hd
  | pushReadMessage msg_id done => exact h.pushReadMessage msg_id done hs
  | removeReadMessage msg_id =>
    cases hs
    exact h.keep rfl rfl fun _ _ hd => TcpConnection.removed_read_dones hd
  | onWrite results =>
    obtain ⟨r, hr, rfl⟩ := Option.map_eq_some_iff.mp hs
    exact h.keep rfl rfl fun _ _ hd => Endpoint.onWrite_read_dones hinv.sending.wf hr hd
  | onRead results =>
    simp only [Loopback.clientStep, Option.ite_none_right_eq_some] at hs
    obtain ⟨r, hr, hs⟩ := Option.bind_eq_some_iff.mp hs.2
    obtain ⟨-, hs⟩ := Option.ite_none_right_eq_some.mp hs
    cases hs
    exact h.keep rfl rfl fun _ _ hd => Endpoint.onRead_read_dones hr hd
  | handle => exact h.handle hs
  | clear =>
    cases hs
    exact h.keep rfl rfl fun _ _ hd => Endpoint.clear_read_dones hd

theorem Matched.step {op : LoopbackOp W R} (hinv : v.Inv m_service_map) (h : v.Matched)
    (hs : v.step m_service_map op = some v') : v'.Matched := by
  cases op with
  | client op => exact h.clientStep hinv hs
  | server op =>
    obtain ⟨hc, -, -, hh, hreg⟩ := serverStep_client hs
    exact h.keep hreg hh fun _ _ hd => hc ▸ hd

/-! ### Requests that were not dropped -/

/-- A request is pushed at an empty output buffer, or has no bytes. -/
def PushFits (v : Loopback W R D) : LoopbackOp W R → Prop
  | .client (.pushSendMessage message _) =>
      v.client.conn.m_out_buffer.readAble = 0 ∨ ¬ Sendable message
  | _ => True

instance (v : Loopback W R D) (op : LoopbackOp W R) : Decidable (v.PushFits op) :=
  match op with
  | .client (.pushSendMessage _ _) => inferInstanceAs (Decidable (_ ∨ _))
  | .client (.pushReadMessage _ _) => inferInstanceAs (Decidable True)
  | .client (.removeReadMessage _) => inferInstanceAs (Decidable True)
  | .client (.onWrite _) => inferInstanceAs (Decidable True)
  | .client (.onRead _) => inferInstanceAs (Decidable True)
  | .client .handle => inferInstanceAs (Decidable True)
  | .client .clear => inferInstanceAs (Decidable True)
  | .server _ => inferInstanceAs (Decidable True)

/-- **No request was dropped**: what was encoded and what waits are the requests pushed. -/
def Undropped (v : Loopback W R D) : Prop :=
  v.client.conn.IsUsable → arrivals (v.framed ++ v.client.waiting) = arrivals v.pushed

theorem Undropped.keep (h : v.Undropped) (hf : v'.framed = v.framed) (hp : v'.pushed = v.pushed)
    (hu : v'.client.conn.IsUsable →
      v.client.conn.IsUsable ∧ v'.client.waiting = v.client.waiting) : v'.Undropped := by
  intro hu'
  obtain ⟨hu, hw⟩ := hu hu'
  rw [hf, hp, hw]
  exact h hu

theorem Undropped.push (hinv : v.Inv m_service_map) (h : v.Undropped) {message : TinyPBProtocol}
    {done : W} (hfits : v.PushFits (.client (.pushSendMessage message done)))
    (hs : v.clientStep (.pushSendMessage message done) = some v') : v'.Undropped := by
  cases hs
  intro hu
  have hbefore := h hu
  show arrivals (v.framed ++ Endpoint.waiting
      { v.client with conn := v.client.conn.pushSendMessage message done })
    = arrivals (v.pushed ++ [message])
  rw [waiting_push, ← List.append_assoc, arrivals_append, hbefore, arrivals_append]
  congr 1
  split
  · rfl
  · rename_i hne
    rcases hfits with hz | hbig
    · exact absurd (hinv.sending.wf.content_eq_nil_iff.mpr hz) hne
    · rw [arrivals, arrivals, List.filter_cons_of_neg (by simpa using hbig)]

theorem Undropped.clientWrite (hinv : v.Inv m_service_map) (h : v.Undropped)
    {results : List WriteResult}
    (hs : v.clientStep (.onWrite results) = some v') : v'.Undropped := by
  obtain ⟨r, hr, rfl⟩ := Option.map_eq_some_iff.mp hs
  intro hu
  by_cases hbefore : v.client.conn.IsUsable
  · obtain ⟨henc, hw⟩ := (hinv.sending.onWrite hr).2 hbefore
    show arrivals (v.framed ++ v.client.encodes ++ r.endpoint.waiting) = arrivals v.pushed
    rw [henc, hw, List.append_nil]
    exact h hbefore
  · rw [Endpoint.onWrite, if_pos hbefore] at hr
    cases hr
    exact absurd hu hbefore

theorem Undropped.clientStep {op : LoopbackClientOp W R} (hinv : v.Inv m_service_map)
    (h : v.Undropped) (hfits : v.PushFits (.client op)) (hs : v.clientStep op = some v') :
    v'.Undropped := by
  cases op with
  | pushSendMessage message done => exact Undropped.push hinv h hfits hs
  | pushReadMessage msg_id done =>
    cases hs
    obtain ⟨h1, -, -, h4, h5⟩ := v.client.conn.pushReadMessage_keeps msg_id done
    refine h.keep rfl rfl fun hu => ⟨h5 hu, ?_⟩
    dsimp only [Endpoint.waiting]
    rw [h1, h4]
  | removeReadMessage msg_id =>
    cases hs
    exact h.keep rfl rfl fun hu => ⟨hu, rfl⟩
  | onWrite results => exact Undropped.clientWrite hinv h hs
  | onRead results =>
    simp only [Loopback.clientStep, Option.ite_none_right_eq_some] at hs
    obtain ⟨r, hr, hs⟩ := Option.bind_eq_some_iff.mp hs.2
    obtain ⟨-, hs⟩ := Option.ite_none_right_eq_some.mp hs
    cases hs
    refine h.keep rfl rfl fun hu => ?_
    rcases Endpoint.onRead_cases hr with ⟨-, b, he⟩ | ⟨-, -, b, he⟩
    · dsimp only at hu ⊢
      rw [he] at hu ⊢
      exact ⟨hu, rfl⟩
    · dsimp only at hu
      rw [he] at hu
      exact absurd hu (Endpoint.isCleared_not_usable (Endpoint.clear_isCleared _))
  | handle =>
    simp only [Loopback.clientStep] at hs
    split at hs
    · cases hs
    · rename_i message todo htodo
      cases hs
      obtain ⟨h1, -, h3, h4⟩ := v.client.handle_keeps message
      refine h.keep rfl rfl fun hu => ⟨h4 hu, ?_⟩
      dsimp only [Endpoint.waiting]
      rw [h1, h3]
  | clear =>
    cases hs
    exact fun hu => absurd hu (Endpoint.isCleared_not_usable (Endpoint.clear_isCleared _))

theorem Undropped.step {op : LoopbackOp W R} (hinv : v.Inv m_service_map) (h : v.Undropped)
    (hs : v.PushFits op ∧ v.step m_service_map op = some v') : v'.Undropped := by
  obtain ⟨hfits, hs⟩ := hs
  cases op with
  | client op => exact h.clientStep hinv hfits hs
  | server op =>
    obtain ⟨hc, hp, hf, -⟩ := serverStep_client hs
    exact h.keep hf hp fun hu => ⟨hc ▸ hu, by rw [hc]⟩

/-! ### What an invariant state says -/

/-- What the server decoded, and what it could still decode, are requests of the client. -/
theorem Inv.requests_prefix (h : v.Inv m_service_map) :
    v.server.requests <+: arrivals v.framed := by
  have hp : v.serverReceived <+: v.framed.flatMap wire := by
    rw [← h.sending.bytes, h.toServer, List.append_assoc]
    exact List.prefix_append _ _
  have hscan := tinyPB.scan_prefix hp
  rw [scan_wires] at hscan
  exact h.requests.part.trans hscan

theorem Inv.responses_prefix (h : v.Inv m_service_map) : v.handled.map Prod.fst ++ v.todo
    <+: arrivals (v.server.answered.map fun p => Serving.response p.1 p.2) := by
  have hp : v.clientReceived <+: v.server.s.replied.flatMap wire := by
    have hsent := h.serving.conn.sent
    rw [List.nil_append] at hsent
    rw [← hsent, h.toClient, List.append_assoc]
    exact List.prefix_append _ _
  have hscan := tinyPB.scan_prefix hp
  rw [scan_wires, h.serving.replied] at hscan
  exact h.responses.part.trans hscan

theorem Inv.answered_subperm (h : v.Inv m_service_map) : List.Subperm
    (v.server.answered.map Prod.fst) (v.server.requests.filter (Reaches m_service_map)) := by
  refine (List.Sublist.subperm ?_).trans h.serving.perm.subperm
  rw [List.append_assoc]
  exact List.sublist_append_left _ _

/-- With nothing on its way and nothing under way, what was encoded was served and handled. -/
structure AtRest (v : Loopback W R D) : Prop where
  client : v.client.conn.IsUsable
  server : v.server.s.e.conn.IsUsable
  queue : v.client.conn.m_write_dones = []
  clientOut : v.client.conn.m_out_buffer.readAble = 0
  toServer : v.toServer = []
  served : v.server.Complete
  serverOut : v.server.s.e.conn.m_out_buffer.readAble = 0
  toClient : v.toClient = []
  todo : v.todo = []

theorem Inv.requests_eq (h : v.Inv m_service_map) (hr : v.AtRest) :
    v.server.requests = arrivals v.framed := by
  have hout : v.client.conn.m_out_buffer.content = [] :=
    h.sending.wf.content_eq_nil_iff.mpr hr.clientOut
  have hall : v.serverReceived = v.framed.flatMap wire := by
    rw [← h.sending.bytes, h.toServer, hr.toServer, hout, List.append_nil, List.append_nil]
  rw [(h.requests.all hr.server).1, hall, scan_wires]

theorem Inv.responses_eq (h : v.Inv m_service_map) (hr : v.AtRest) : v.handled.map Prod.fst
    = arrivals (v.server.answered.map fun p => Serving.response p.1 p.2) := by
  have hout : v.server.s.e.conn.m_out_buffer.content = [] :=
    h.serving.conn.wf.content_eq_nil_iff.mpr hr.serverOut
  have hall : v.clientReceived = v.server.s.replied.flatMap wire := by
    have hsent := h.serving.conn.sent
    rw [List.nil_append] at hsent
    rw [← hsent, h.toClient, hr.toClient, hout, List.append_nil, List.append_nil]
  have hh := (h.responses.all hr.client).1
  rw [hr.todo, List.append_nil, hall, scan_wires, h.serving.replied] at hh
  exact hh

end Steps

/-! ### Runs from a fresh connection -/

/-- The two ends of an accepted connection. -/
def connected (client server : Endpoint W R D) : Loopback W R D where
  client := client
  server := { s := { e := server } }

theorem connected_inv (m_service_map : ServiceMap) {client server : Endpoint W R D}
    (hc : client.Fresh .TcpConnectionByClient) (hs : server.Fresh .TcpConnectionByServer) :
    (connected client server).Inv m_service_map where
  sending := hc.sending
  toServer := rfl
  requests := hs.reading
  serving := ⟨⟨hs.out.wf, hs.out_content, hs.type⟩, rfl, List.Perm.refl _,
    fun p hp => (by cases hp)⟩
  toClient := rfl
  responses := hc.reading

theorem connected_matched {client server : Endpoint W R D}
    (hc : client.Fresh .TcpConnectionByClient) : (connected client server).Matched where
  waits := fun msg_id done h => by
    have hnone := hc.read_dones msg_id
    dsimp only [connected] at h
    rw [hnone] at h
    cases h
  ran := fun p hp => (by cases hp)

variable {m_service_map : ServiceMap} {client server : Endpoint W R D}
  {ops : List (LoopbackOp W R)} {v : Loopback W R D}

theorem run_inv (hc : client.Fresh .TcpConnectionByClient)
    (hs : server.Fresh .TcpConnectionByServer)
    (hrun : Run (fun v op v' => v.step m_service_map op = some v') (connected client server)
      ops v) :
    v.Inv m_service_map ∧ v.Matched :=
  Run.invariant (I := fun v => Inv m_service_map v ∧ v.Matched)
    (fun h hstep => ⟨inv_step h.1 hstep, h.2.step h.1 hstep⟩) hrun
    ⟨connected_inv m_service_map hc hs, connected_matched hc⟩

/-- The map of a server with the service of the tests. -/
def orders : ServiceMap :=
  (registerService (fun _ => none) ⟨str "Order", [str "makeOrder"], fun _ _ => true⟩).1

def order : TinyPBProtocol := { m_msg_id := str "1", m_method_name := str "Order.makeOrder" }

/-- A call, its request cut over two writes, with a callback registered for the response. -/
def call : List (LoopbackOp Unit Nat) :=
  let reply := wire (Serving.response order.arrived ⟨true, [8, 1]⟩)
  [.client (.pushSendMessage order ()), .client (.onWrite [.count 9, .EAGAIN]),
    .server (.onRead [.bytes ((wire order).take 9)]), .client (.onWrite [.count 100]),
    .client (.pushReadMessage (str "1") 7), .server (.onRead [.bytes ((wire order).drop 9)]),
    .server .dispatch, .server (.run 0 ⟨true, [8, 1]⟩), .server (.onWrite [.count 100]),
    .client (.onRead [.bytes reply]), .client .handle]

def loopback : Loopback Unit Nat Unit :=
  connected (.connected 5 128 .TcpConnectionByClient) (.connected 6 128 .TcpConnectionByServer)

theorem response_arrived_msg_id {request : TinyPBProtocol} (h : request.m_msg_id ≠ [])
    (r : Serialized) : (Serving.response request r).arrived.m_msg_id = request.m_msg_id := by
  have hne : (Serving.response request r).m_msg_id ≠ [] := by
    rw [Serving.response_msg_id]
    exact h
  show (Serving.response request r).withMsgId.m_msg_id = _
  rw [TinyPBProtocol.withMsgId_of_ne_nil hne, Serving.response_msg_id]

theorem responses_ids {answered : List (TinyPBProtocol × Serialized)}
    (h : ∀ p ∈ answered, p.1.m_msg_id ≠ []) :
    List.Sublist ((arrivals (answered.map fun p => Serving.response p.1 p.2)).map
      TinyPBProtocol.m_msg_id) ((answered.map Prod.fst).map TinyPBProtocol.m_msg_id) := by
  rw [arrivals, List.filter_map, List.map_map, List.map_map, List.map_map]
  have hid : (answered.filter ((fun m => decide (Sendable m)) ∘
      fun p => Serving.response p.1 p.2)).map ((TinyPBProtocol.m_msg_id ∘ TinyPBProtocol.arrived) ∘
        fun p => Serving.response p.1 p.2)
      = (answered.filter ((fun m => decide (Sendable m)) ∘ fun p => Serving.response p.1 p.2)).map
        (TinyPBProtocol.m_msg_id ∘ Prod.fst) := by
    refine List.map_congr_left fun p hp => ?_
    exact response_arrived_msg_id (h p (List.mem_of_mem_filter hp)) p.2
  rw [hid]
  exact List.filter_sublist.map _

end Loopback

end KaiRPC
