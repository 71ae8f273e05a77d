import KaiRPC.Tcp.Connection

/-!
# Writing to the socket

`TcpConnection::onWrite` of `net/tcp/tcp_connection.cc`, for both kinds of connection.

A call of `onWrite` takes the results of its `write()` calls as a list.  A count is
cut to the bytes offered; behind the list the kernel answers `EAGAIN`.  So every list
describes a call, and every call that returns is described by one.

* `writeLoop_spec`: the loop hands over a prefix of the content, and either leaves
  the rest in place or has cleared the connection.
* `onWrite_cases`: what a call of `onWrite` does.
* `Ready`: a connection its loop can serve, and what keeps it so.
-/

namespace KaiRPC

open TinyPBCoder

/-- What `write()` returns. -/
inductive WriteResult
  | count (n : Nat)
  | EAGAIN
  | EINTR
  | error
deriving DecidableEq, Repr

namespace Endpoint

variable {W R D : Type}

/-- The end of the write loop: the endpoint, the bytes the kernel took, `is_write_all`,
and the disconnect callback a `clear` ran. -/
structure Written (W R D : Type) where
  endpoint : Endpoint W R D
  accepted : Bytes := []
  is_write_all : Bool := false
  disconnect : Option D := none

def writeLoop : List WriteResult → Endpoint W R D → Written W R D
  | rs, e =>
    let out := e.conn.m_out_buffer
    if out.readAble = 0 then { endpoint := e, is_write_all := true }
    else match rs with
      | [] => { endpoint := e }
      | .EAGAIN :: _ => { endpoint := e }
      | .EINTR :: rs => writeLoop rs e
      | .error :: _ => { endpoint := e.clear.1, disconnect := e.clear.2 }
      | .count n :: rs =>
          let rt := min n out.readAble.toNat
          if rt > 0 then
            let r := writeLoop rs (e.withOut (out.moveReadIndex rt))
            { r with accepted := TcpBuffer.slice out.m_buffer out.readIndex rt ++ r.accepted }
          else { endpoint := e }

/-- A client with nothing left to send encodes its queue. -/
def encodeQueue (e : Endpoint W R D) : Option (Endpoint W R D) :=
  if e.conn.m_connection_type = .TcpConnectionByClient ∧ e.conn.m_out_buffer.readAble = 0 then
    (encode (e.conn.m_write_dones.map Prod.fst) e.conn.m_out_buffer).map e.withOut
  else some e

/-- What a call of `onWrite` did: the bytes the kernel took, the write callbacks it ran
in order, the disconnect callback a `clear` ran. -/
structure WriteCall (W R D : Type) where
  endpoint : Endpoint W R D
  accepted : Bytes := []
  dones : List (TinyPBProtocol × W) := []
  disconnect : Option D := none

/-- Everything is written: the interest is dropped, and a client's queue with it. -/
def drained (e : Endpoint W R D) (grant : Bool) : Endpoint W R D :=
  let event := e.m_fd_event.cancle .OUT_EVENT
  let e := { e with m_fd_event := event, m_event_loop := e.m_event_loop.addEpollEvent event grant }
  if e.conn.m_connection_type = .TcpConnectionByClient then
    { e with conn := { e.conn with m_write_dones := [] } }
  else e

/-- The write callbacks of a client, in the order of its queue. -/
def clientDones (e : Endpoint W R D) : List (TinyPBProtocol × W) :=
  if e.conn.m_connection_type = .TcpConnectionByClient then e.conn.m_write_dones else []

/-- The end of `onWrite`, behind the loop. -/
def afterWrite (r : Written W R D) (grant : Bool) : WriteCall W R D :=
  if r.is_write_all then
    { endpoint := r.endpoint.drained grant
      accepted := r.accepted
      dones := r.endpoint.clientDones
      disconnect := r.disconnect }
  else { endpoint := r.endpoint, accepted := r.accepted, disconnect := r.disconnect }

def onWrite (e : Endpoint W R D) (results : List WriteResult) (grant : Bool) :
    Option (WriteCall W R D) :=
  if ¬ e.conn.IsUsable then some { endpoint := e }
  else e.encodeQueue.map fun e => afterWrite (writeLoop results e) grant

/-! ### The loop -/

/-- The loop ended with `out` still to be sent, or an error cleared the connection there. -/
structure LoopEnd (e : Endpoint W R D) (r : Written W R D) (out : TcpBuffer) : Prop where
  wf : out.WF
  content : e.conn.m_out_buffer.content = r.accepted ++ out.content
  ends : (r.endpoint = e.withOut out ∧ r.disconnect = none ∧
      (r.is_write_all = true ↔ out.content = [])) ∨
    (r.endpoint = (e.withOut out).clear.1 ∧ r.is_write_all = false)

theorem loopEnd_stop {e : Endpoint W R D} (h : e.conn.m_out_buffer.WF)
    (hne : e.conn.m_out_buffer.readAble ≠ 0) :
    LoopEnd e { endpoint := e } e.conn.m_out_buffer := by
  refine ⟨h, rfl, Or.inl ⟨rfl, rfl, ?_⟩⟩
  rw [h.content_eq_nil_iff]
  exact iff_of_false (by simp) hne

theorem slice_content {b : TcpBuffer} (h : b.WF) {n : Nat} (hn : n ≤ b.content.length) :
    TcpBuffer.slice b.m_buffer b.readIndex n = b.content.take n := by
  have hl := h.content_length_index
  rw [TcpBuffer.content, TcpBuffer.slice, TcpBuffer.slice, List.take_take, Int.toNat_natCast,
    Nat.min_eq_left (by omega)]
  rfl

/-- **The write loop** hands over a prefix of the content. -/
theorem writeLoop_spec : ∀ (rs : List WriteResult) {e : Endpoint W R D},
    e.conn.m_out_buffer.WF → ∃ out, LoopEnd e (writeLoop rs e) out := by
  intro rs
  induction rs with
  | nil =>
    intro e h
    unfold writeLoop
    dsimp only
    split
    · rename_i hz
      exact ⟨_, h, rfl, Or.inl ⟨rfl, rfl, iff_of_true rfl (h.content_eq_nil_iff.mpr hz)⟩⟩
    · exact ⟨_, loopEnd_stop h ‹_›⟩
  | cons r rs ih =>
    intro e h
    unfold writeLoop
    dsimp only
    split
    · rename_i hz
      exact ⟨_, h, rfl, Or.inl ⟨rfl, rfl, iff_of_true rfl (h.content_eq_nil_iff.mpr hz)⟩⟩
    rename_i hne
    cases r with
    | EAGAIN => exact ⟨_, loopEnd_stop h hne⟩
    | EINTR => exact ih h
    | error => exact ⟨e.conn.m_out_buffer, h, rfl, Or.inr ⟨rfl, rfl⟩⟩
    | count n =>
      dsimp only
      split
      · -- the kernel took `rt` bytes, the loop goes on with the rest
        have hle : min n e.conn.m_out_buffer.readAble.toNat
            ≤ e.conn.m_out_buffer.content.length := by
          have := h.content_length
          omega
        obtain ⟨hwf, hc, -⟩ := TcpBuffer.moveReadIndex_spec h hle
        obtain ⟨out, hout, hcont, hends⟩ := ih (e := e.withOut
          (e.conn.m_out_buffer.moveReadIndex (min n e.conn.m_out_buffer.readAble.toNat : Nat))) hwf
        refine ⟨out, hout, ?_, hends⟩
        rw [slice_content h hle, List.append_assoc, ← hcont]
        show _ = _ ++ TcpBuffer.content (TcpBuffer.moveReadIndex _ _)
        rw [hc, List.take_append_drop]
      · exact ⟨_, loopEnd_stop h hne⟩

theorem encodeQueue_spec {e e₁ : Endpoint W R D} (hwf : e.conn.m_out_buffer.WF)
    (hq : e.encodeQueue = some e₁) : ∃ before, e₁ = e.withOut before ∧ before.WF ∧
      (if e.conn.m_connection_type = .TcpConnectionByClient ∧ e.conn.m_out_buffer.content = [] then
        before.content = (e.conn.m_write_dones.map Prod.fst).flatMap wire
      else before = e.conn.m_out_buffer) := by
  unfold encodeQueue at hq
  split at hq
  · rename_i hc
    have hnil : e.conn.m_out_buffer.content = [] := hwf.content_eq_nil_iff.mpr hc.2
    obtain ⟨before, he, rfl⟩ := Option.map_eq_some_iff.mp hq
    obtain ⟨h1, h2⟩ := encode_some _ hwf he
    refine ⟨before, rfl, h1, ?_⟩
    rw [if_pos ⟨hc.1, hnil⟩, h2, hnil, List.nil_append]
  · rename_i hc
    cases hq
    refine ⟨e.conn.m_out_buffer, rfl, hwf, ?_⟩
    rw [if_neg (fun h => hc ⟨h.1, hwf.content_eq_nil_iff.mp h.2⟩)]

/-- **What a call of `onWrite` does.**  A client with nothing left encodes its queue.  Then a
prefix of the bytes goes out, and bytes are left, or none is, or the connection is cleared. -/
theorem onWrite_cases {e : Endpoint W R D} {results : List WriteResult} {grant : Bool}
    {r : WriteCall W R D} (hu : e.conn.IsUsable) (hwf : e.conn.m_out_buffer.WF)
    (h : e.onWrite results grant = some r) :
    ∃ before out : TcpBuffer, before.WF ∧ out.WF ∧
      (if e.conn.m_connection_type = .TcpConnectionByClient ∧ e.conn.m_out_buffer.content = [] then
        before.content = (e.conn.m_write_dones.map Prod.fst).flatMap wire
      else before = e.conn.m_out_buffer) ∧
      before.content = r.accepted ++ out.content ∧
      ((out.content ≠ [] ∧ r.endpoint = e.withOut out ∧ r.dones = []) ∨
        (out.content = [] ∧ r.endpoint = (e.withOut out).drained grant ∧ r.dones = e.clientDones) ∨
        (r.endpoint = (e.withOut out).clear.1 ∧ r.dones = [])) := by
  rw [onWrite, if_neg (not_not.mpr hu)] at h
  obtain ⟨e₁, hq, rfl⟩ := Option.map_eq_some_iff.mp h
  obtain ⟨before, rfl, hbwf, hbc⟩ := encodeQueue_spec hwf hq
  obtain ⟨out, hout, hcont, hends⟩ := writeLoop_spec results (e := e.withOut before) hbwf
  refine ⟨before, out, hbwf, hout, hbc, ?_⟩
  unfold afterWrite
  rcases hends with ⟨he, -, hall⟩ | ⟨he, hall⟩
  · by_cases hnil : out.content = []
    · rw [if_pos (hall.mpr hnil), he]
      exact ⟨hcont, Or.inr (Or.inl ⟨hnil, rfl, rfl⟩)⟩
    · rw [if_neg (fun ht => hnil (hall.mp ht)), he]
      exact ⟨hcont, Or.inl ⟨hnil, rfl, rfl⟩⟩
  · rw [hall, if_neg (by simp), he]
    exact ⟨hcont, Or.inr (Or.inr ⟨rfl, rfl⟩)⟩

/-! ### A connection in service -/

/-- A connection its loop can serve: connected, owned, with its own slot, on a running
loop whose bookkeeping of the descriptor is right. -/
structure Ready (e : Endpoint W R D) : Prop where
  usable : e.conn.IsUsable
  owned : e.conn.owned = true
  fd : e.m_fd_event.m_fd = e.conn.m_fd
  running : e.m_event_loop.m_stop_flag = false
  mirrors : e.m_event_loop.Mirrors e.conn.m_fd

/-- The event asks for `EPOLLOUT` and the kernel watches it. -/
def WatchesOut (e : Endpoint W R D) : Prop :=
  e.m_fd_event.m_listen_event.out_event = true ∧ e.m_event_loop.Watches e.m_fd_event

theorem connected_ready (fd buffer_size : Nat) (type : TcpConnectionType) :
    (connected fd buffer_size type : Endpoint W R D).Ready where
  usable := ⟨rfl, Int.natCast_nonneg fd⟩
  owned := rfl
  fd := rfl
  running := rfl
  mirrors := iff_of_false (Finset.notMem_empty _) (by simp [connected])

theorem Ready.withOut {e : Endpoint W R D} (h : e.Ready) (out : TcpBuffer) :
    (e.withOut out).Ready := ⟨h.usable, h.owned, h.fd, h.running, h.mirrors⟩

theorem Ready.withIn {e : Endpoint W R D} (h : e.Ready) (b : TcpBuffer) :
    (e.withIn b).Ready := ⟨h.usable, h.owned, h.fd, h.running, h.mirrors⟩

/-- A ready connection whose event changes but for the descriptor, registered anew. -/
theorem Ready.addEpollEvent {e : Endpoint W R D} (h : e.Ready) (event : FdEvent)
    (hfd : event.m_fd = e.m_fd_event.m_fd) :
    let e' : Endpoint W R D := { e with
      m_fd_event := event, m_event_loop := e.m_event_loop.addEpollEvent event true }
    e'.Ready ∧ e'.m_event_loop.Watches e'.m_fd_event := by
  have hm : e.m_event_loop.Mirrors event.m_fd := by
    rw [hfd, h.fd]
    exact h.mirrors
  obtain ⟨hw, hs⟩ := Eventloop.addEpollEvent_granted h.running hm
  have hfd' : event.m_fd = e.conn.m_fd := hfd.trans h.fd
  exact ⟨⟨h.usable, h.owned, hfd', hs, hfd' ▸ hw.mirrors⟩, hw⟩

theorem Ready.listenWrite {e : Endpoint W R D} (h : e.Ready) :
    (e.listenWrite true).Ready ∧ (e.listenWrite true).WatchesOut := by
  obtain ⟨⟨hst, hfd⟩, ho, -⟩ := id h
  have hopen : ¬ (e.conn.m_state = .Closed ∨ e.conn.m_fd < 0) := by
    rw [hst]
    rintro (hc | hc)
    · cases hc
    · omega
  rw [Endpoint.listenWrite, listen, if_neg hopen, if_neg (by simp [ho])]
  obtain ⟨hr, hw⟩ := h.addEpollEvent (e.m_fd_event.listen .OUT_EVENT
    (.onWrite e.conn.self) (some (.clear e.conn.self))) (FdEvent.listen_fd _ _ _ _)
  exact ⟨hr, FdEvent.listen_out_event _ _ _, hw⟩

theorem isCleared_not_usable {c : TcpConnection W R D} (h : c.IsCleared) : ¬ c.IsUsable := by
  rintro ⟨hs, -⟩
  rw [h.1] at hs
  cases hs

@[simp] theorem clear_out (e : Endpoint W R D) :
    e.clear.1.conn.m_out_buffer = e.conn.m_out_buffer ∧
      e.clear.1.conn.m_connection_type = e.conn.m_connection_type := by
  rw [clear_conn]
  split <;> exact ⟨rfl, rfl⟩

end Endpoint

end KaiRPC
