import Mathlib.Data.List.Infix
import KaiRPC.Tcp.Read
import KaiRPC.Tcp.Write

/-!
# The two ends of a stream

What the connection at either end of a socket has done so far, in every state and also behind
a `clear` (`net/tcp/tcp_connection.cc`).

* `arrivals`: the messages of a queue that have bytes, as the other end decodes them.
* `Reading`: the messages an end has decoded, against the bytes it has read;
  `Reading.onRead` is the step.
* `Sending`: the requests a client has encoded, against those pushed on it;
  `Sending.onWrite` is the step.
-/

namespace KaiRPC

open TinyPBCoder

variable {W R D : Type}

/-- A message as the other end decodes it. -/
def TinyPBProtocol.arrived (m : TinyPBProtocol) : TinyPBProtocol := m.withMsgId.stamp

/-- The messages of a queue that have bytes, as the other end decodes them. -/
def arrivals (ms : List TinyPBProtocol) : List TinyPBProtocol :=
  (ms.filter fun m => Sendable m).map TinyPBProtocol.arrived

theorem scan_wires (ms : List TinyPBProtocol) :
    tinyPB.scan (ms.flatMap wire) = (arrivals ms, []) := by
  have h := scan_flatMap_wire ms []
  rw [List.append_nil, scan_nil, List.append_nil] at h
  exact h

theorem arrivals_append (ms ms' : List TinyPBProtocol) :
    arrivals (ms ++ ms') = arrivals ms ++ arrivals ms' := by
  rw [arrivals, List.filter_append, List.map_append]
  rfl

theorem arrivals_sublist {ms ms' : List TinyPBProtocol} (h : List.Sublist ms ms') :
    List.Sublist (arrivals ms) (arrivals ms') := (h.filter _).map _

theorem mem_arrivals {ms : List TinyPBProtocol} {m : TinyPBProtocol} (h : m ∈ arrivals ms) :
    ∃ m' ∈ ms, m = m'.arrived := by
  obtain ⟨m', hm, rfl⟩ := List.mem_map.mp h
  exact ⟨m', List.mem_of_mem_filter hm, rfl⟩

theorem arrived_msg_id_ne (m : TinyPBProtocol) : m.arrived.m_msg_id ≠ [] := by
  show m.withMsgId.m_msg_id ≠ []
  unfold TinyPBProtocol.withMsgId
  split
  · exact (by decide : str "123456789" ≠ [])
  · assumption

/-! ### One end reading -/

/-- **Reading**: what was decoded is a part of what the bytes hold, and on a usable connection
all of it; the input buffer goes on where the stream goes on. -/
structure Reading (e : Endpoint W R D) (received : Bytes) (decoded : List TinyPBProtocol) :
    Prop where
  wf : e.conn.m_in_buffer.WF
  part : decoded <+: (tinyPB.scan received).1
  all : e.conn.IsUsable → decoded = (tinyPB.scan received).1 ∧
    tinyPB.scan e.conn.m_in_buffer.content = ([], (tinyPB.scan received).2)

theorem Reading.congr {e e' : Endpoint W R D} {received : Bytes} {decoded : List TinyPBProtocol}
    (h : Reading e received decoded) (hin : e'.conn.m_in_buffer = e.conn.m_in_buffer)
    (hu : e'.conn.IsUsable → e.conn.IsUsable) : Reading e' received decoded := by
  refine ⟨hin ▸ h.wf, h.part, fun hu' => ?_⟩
  rw [hin]
  exact h.all (hu hu')

theorem Reading.clear {e : Endpoint W R D} {received : Bytes} {decoded : List TinyPBProtocol}
    (h : Reading e received decoded) : Reading e.clear.1 received decoded :=
  h.congr e.clear_in fun hu => absurd hu (Endpoint.isCleared_not_usable e.clear_isCleared)

/-- **A call of `onRead` keeps it**, with the bytes it read and the messages it decoded. -/
theorem Reading.onRead {e : Endpoint W R D} {received : Bytes} {decoded : List TinyPBProtocol}
    (h : Reading e received decoded) {results : List ReadResult} {r : Endpoint.ReadCall W R D}
    (hr : e.onRead results = some r) :
    Reading r.endpoint (received ++ r.received) (decoded ++ r.result) := by
  unfold Endpoint.onRead at hr
  split at hr
  · cases hr
    rw [List.append_nil, List.append_nil]
    exact h
  rename_i hu
  obtain ⟨hall, hres⟩ := h.all (not_not.mp hu)
  obtain ⟨x, hloop, hr⟩ := Option.bind_eq_some_iff.mp hr
  obtain ⟨hwf, hc⟩ := readLoop_spec results h.wf hloop
  -- the buffer and the stream are scanned alike from here on
  have hstream : tinyPB.scan (received ++ x.received)
      = (decoded ++ (tinyPB.scan x.buffer.content).1, (tinyPB.scan x.buffer.content).2) := by
    rw [tinyPB.scan_append, ← hall, hc, tinyPB.scan_append e.conn.m_in_buffer.content, hres]
    rfl
  dsimp only at hr
  split at hr
  · -- the end of the stream: what the buffer holds is not decoded any more
    cases hr
    refine ⟨?_, ?_, fun hu' => absurd hu' (Endpoint.isCleared_not_usable
      (Endpoint.clear_isCleared _))⟩
    · show TcpBuffer.WF (e.withIn x.buffer).clear.1.conn.m_in_buffer
      rw [Endpoint.clear_in]
      exact hwf
    · rw [hstream, List.append_nil]
      exact List.prefix_append _ _
  · obtain ⟨b, hd, hwf', hc', -⟩ := decode_eq hwf
    rw [hd, Option.map_some] at hr
    cases hr
    have hitems := congrArg Prod.fst hstream
    refine ⟨hwf', hitems ▸ List.prefix_rfl, fun _ => ⟨hitems.symm, ?_⟩⟩
    · rw [hstream]
      show tinyPB.scan b.content = _
      rw [hc']
      exact tinyPB.scan_residual _

theorem Reading.onWrite {e : Endpoint W R D} {received : Bytes} {decoded : List TinyPBProtocol}
    (h : Reading e received decoded) (hout : e.conn.m_out_buffer.WF) {results : List WriteResult}
    {grant : Bool} {r : Endpoint.WriteCall W R D} (hr : e.onWrite results grant = some r) :
    Reading r.endpoint received decoded := by
  by_cases hu : e.conn.IsUsable
  · obtain ⟨-, out, -, -, -, -, hends⟩ := Endpoint.onWrite_cases hu hout hr
    have hw : Reading (e.withOut out) received decoded := ⟨h.wf, h.part, fun _ => h.all hu⟩
    rcases hends with ⟨-, he, -⟩ | ⟨-, he, -⟩ | ⟨he, -⟩
    · exact he ▸ hw
    · rw [he]
      refine hw.congr ?_ fun _ => hu
      dsimp only [Endpoint.drained]
      split <;> rfl
    · exact he ▸ hw.clear
  · rw [Endpoint.onWrite, if_pos hu] at hr
    cases hr
    exact h

/-! ### The client sending -/

/-- The queued requests the next call of `onWrite` encodes: none behind unsent bytes. -/
def Endpoint.waiting (e : Endpoint W R D) : List TinyPBProtocol :=
  if e.conn.m_out_buffer.content = [] then e.conn.m_write_dones.map Prod.fst else []

/-- **Sending**: the bytes are those of the requests encoded so far, and these with the waiting
ones are among those pushed, in their order. -/
structure Sending (e : Endpoint W R D) (sent : Bytes) (framed pushed : List TinyPBProtocol) :
    Prop where
  wf : e.conn.m_out_buffer.WF
  type : e.conn.m_connection_type = .TcpConnectionByClient
  bytes : sent ++ e.conn.m_out_buffer.content = framed.flatMap wire
  among : List.Sublist (framed ++ e.waiting) pushed

/-- The requests encoded in front of the write loop of a call of `onWrite`. -/
def Endpoint.encodes (e : Endpoint W R D) : List TinyPBProtocol :=
  if e.conn.IsUsable ∧ e.conn.m_out_buffer.readAble = 0 then e.conn.m_write_dones.map Prod.fst
  else []

/-- **What a call of `onWrite` does to the client's queue.**  What it encodes is what was
waiting, and what waits behind it is nothing. -/
theorem Sending.onWrite {e : Endpoint W R D} {sent : Bytes} {framed pushed : List TinyPBProtocol}
    (h : Sending e sent framed pushed) {results : List WriteResult}
    {r : Endpoint.WriteCall W R D} (hr : e.onWrite results true = some r) :
    Sending r.endpoint (sent ++ r.accepted) (framed ++ e.encodes) pushed ∧
      (e.conn.IsUsable → e.encodes = e.waiting ∧ r.endpoint.waiting = []) := by
  by_cases hu : e.conn.IsUsable
  · have henc : e.encodes = e.waiting := by
      simp only [Endpoint.encodes, Endpoint.waiting, hu, true_and, h.wf.content_eq_nil_iff]
    obtain ⟨before, out, -, hout, hbefore, hcont, hends⟩ := Endpoint.onWrite_cases hu h.wf hr
    have hbytes : sent ++ r.accepted ++ out.content = (framed ++ e.waiting).flatMap wire := by
      rw [List.append_assoc, ← hcont, List.flatMap_append, ← h.bytes, Endpoint.waiting]
      split at hbefore
      · rename_i hnil
        rw [hbefore, if_pos hnil.2, hnil.2, List.append_nil]
      · rename_i hne
        rw [hbefore, if_neg (fun hc => hne ⟨h.type, hc⟩), List.flatMap_nil, List.append_nil]
    -- in every case the output buffer is `out`, and nothing waits
    have hkeeps : r.endpoint.conn.m_out_buffer = out ∧
        r.endpoint.conn.m_connection_type = e.conn.m_connection_type ∧
        r.endpoint.waiting = [] := by
      rcases hends with ⟨hne, he, -⟩ | ⟨hnil, he, -⟩ | ⟨he, -⟩
      · rw [he]
        exact ⟨rfl, rfl, if_neg hne⟩
      · have hd : (e.withOut out).drained true = _ := if_pos h.type
        rw [he, hd]
        exact ⟨rfl, rfl, if_pos hnil⟩
      · rw [he]
        obtain ⟨h1, h2⟩ := (e.withOut out).clear_out
        refine ⟨h1, h2, ?_⟩
        have hq : (e.withOut out).clear.1.conn.m_write_dones = [] := by
          rw [Endpoint.clear_conn, if_neg (show ¬ (e.withOut out).conn.IsCleared from
            fun hc => Endpoint.isCleared_not_usable hc hu)]
          rfl
        rw [Endpoint.waiting, hq]
        split <;> rfl
    obtain ⟨h1, h2, h3⟩ := hkeeps
    rw [henc]
    refine ⟨⟨h1 ▸ hout, h2.trans h.type, ?_, ?_⟩, fun _ => ⟨rfl, h3⟩⟩
    · rw [h1, hbytes]
    · rw [h3, List.append_nil]
      exact h.among
  · have henc : e.encodes = [] := if_neg fun hc => hu hc.1
    rw [Endpoint.onWrite, if_pos hu] at hr
    cases hr
    rw [henc, List.append_nil, List.append_nil]
    exact ⟨h, fun hu' => absurd hu' hu⟩

theorem waiting_push (e : Endpoint W R D) (message : TinyPBProtocol) (done : W) :
    Endpoint.waiting { e with conn := e.conn.pushSendMessage message done }
      = e.waiting ++ if e.conn.m_out_buffer.content = [] then [message] else [] := by
  by_cases hnil : e.conn.m_out_buffer.content = []
  · have hw : Endpoint.waiting { e with conn := e.conn.pushSendMessage message done }
        = (e.conn.m_write_dones ++ [(message, done)]).map Prod.fst := if_pos hnil
    rw [hw, Endpoint.waiting, if_pos hnil, if_pos hnil, List.map_append]
    rfl
  · have hw : Endpoint.waiting { e with conn := e.conn.pushSendMessage message done } = [] :=
      if_neg hnil
    rw [hw, Endpoint.waiting, if_neg hnil, if_neg hnil]
    rfl

theorem Sending.push {e : Endpoint W R D} {sent : Bytes} {framed pushed : List TinyPBProtocol}
    (h : Sending e sent framed pushed) (message : TinyPBProtocol) (done : W) :
    Sending { e with conn := e.conn.pushSendMessage message done } sent framed
      (pushed ++ [message]) := by
  refine ⟨h.wf, h.type, h.bytes, ?_⟩
  rw [waiting_push, ← List.append_assoc]
  refine h.among.append ?_
  split
  · exact List.Sublist.refl _
  · exact List.nil_sublist _

theorem Sending.congr {e e' : Endpoint W R D} {sent : Bytes} {framed pushed : List TinyPBProtocol}
    (h : Sending e sent framed pushed) (hout : e'.conn.m_out_buffer = e.conn.m_out_buffer)
    (htype : e'.conn.m_connection_type = e.conn.m_connection_type)
    (hq : e'.conn.m_write_dones = e.conn.m_write_dones ∨ e'.conn.m_write_dones = []) :
    Sending e' sent framed pushed := by
  refine ⟨hout ▸ h.wf, htype.trans h.type, by rw [hout]; exact h.bytes, ?_⟩
  rcases hq with hq | hq
  · have hw : e'.waiting = e.waiting := by rw [Endpoint.waiting, hout, hq]; rfl
    exact hw ▸ h.among
  · have hw : e'.waiting = [] := by rw [Endpoint.waiting, hq]; split <;> rfl
    rw [hw, List.append_nil]
    exact (List.sublist_append_left _ _).trans h.among

theorem Sending.clear {e : Endpoint W R D} {sent : Bytes} {framed pushed : List TinyPBProtocol}
    (h : Sending e sent framed pushed) : Sending e.clear.1 sent framed pushed := by
  obtain ⟨h1, h2⟩ := e.clear_out
  refine h.congr h1 h2 ?_
  rw [Endpoint.clear_conn]
  split
  · exact Or.inl rfl
  · exact Or.inr rfl

theorem Sending.onRead {e : Endpoint W R D} {sent : Bytes} {framed pushed : List TinyPBProtocol}
    (h : Sending e sent framed pushed) {results : List ReadResult}
    {r : Endpoint.ReadCall W R D} (hr : e.onRead results = some r) :
    Sending r.endpoint sent framed pushed := by
  rcases Endpoint.onRead_cases hr with ⟨-, b, he⟩ | ⟨-, -, b, he⟩
  · rw [he]
    exact h.congr rfl rfl (Or.inl rfl)
  · rw [he]
    have hin : Sending (e.withIn b) sent framed pushed := h.congr rfl rfl (Or.inl rfl)
    exact hin.clear

/-! ### The registered callbacks -/

theorem TcpConnection.pushReadMessage_keeps (c : TcpConnection W R D) (msg_id : Bytes) (done : R) :
    (c.pushReadMessage msg_id done).m_out_buffer = c.m_out_buffer ∧
      (c.pushReadMessage msg_id done).m_in_buffer = c.m_in_buffer ∧
      (c.pushReadMessage msg_id done).m_connection_type = c.m_connection_type ∧
      (c.pushReadMessage msg_id done).m_write_dones = c.m_write_dones ∧
      ((c.pushReadMessage msg_id done).IsUsable → c.IsUsable) := by
  unfold TcpConnection.pushReadMessage
  split <;> exact ⟨rfl, rfl, rfl, rfl, id⟩

theorem Endpoint.handle_keeps (e : Endpoint W R D) (message : TinyPBProtocol) :
    (e.handle message).1.conn.m_out_buffer = e.conn.m_out_buffer ∧
      (e.handle message).1.conn.m_connection_type = e.conn.m_connection_type ∧
      (e.handle message).1.conn.m_write_dones = e.conn.m_write_dones ∧
      ((e.handle message).1.conn.IsUsable → e.conn.IsUsable) := by
  unfold Endpoint.handle TcpConnection.takeReadDone
  split
  · exact ⟨rfl, rfl, rfl, id⟩
  · dsimp only
    split <;> exact ⟨rfl, rfl, rfl, id⟩

theorem Endpoint.clear_read_dones {e : Endpoint W R D} {msg_id : Bytes} {done : R}
    (h : e.clear.1.conn.m_read_dones msg_id = some done) :
    e.conn.m_read_dones msg_id = some done := by
  rw [Endpoint.clear_conn] at h
  split at h
  · exact h
  · cases h

theorem TcpConnection.removed_read_dones {c : TcpConnection W R D} {msg_id id : Bytes} {done : R}
    (h : (c.removeReadMessage msg_id).m_read_dones id = some done) :
    c.m_read_dones id = some done := by
  dsimp only [TcpConnection.removeReadMessage] at h
  by_cases hid : id = msg_id
  · rw [hid, Function.update_self] at h
    cases h
  · rw [Function.update_of_ne hid] at h
    exact h

theorem Endpoint.handle_read_dones (e : Endpoint W R D) (message : TinyPBProtocol) :
    (∀ done, (e.handle message).2 = some done →
        e.conn.m_read_dones message.m_msg_id = some done) ∧
      ∀ id done, (e.handle message).1.conn.m_read_dones id = some done →
        e.conn.m_read_dones id = some done := by
  unfold Endpoint.handle TcpConnection.takeReadDone
  split
  · exact ⟨fun _ h => (by cases h), fun _ _ h => h⟩
  · dsimp only
    split
    · rename_i d hd
      refine ⟨fun done h => ?_, fun id done h => TcpConnection.removed_read_dones h⟩
      cases h
      exact hd
    · exact ⟨fun _ h => (by cases h), fun _ _ h => h⟩

theorem Endpoint.onWrite_read_dones {e : Endpoint W R D} (hwf : e.conn.m_out_buffer.WF)
    {results : List WriteResult} {grant : Bool} {r : Endpoint.WriteCall W R D}
    (hr : e.onWrite results grant = some r) {msg_id : Bytes} {done : R}
    (h : r.endpoint.conn.m_read_dones msg_id = some done) :
    e.conn.m_read_dones msg_id = some done := by
  by_cases hu : e.conn.IsUsable
  · obtain ⟨-, out, -, -, -, -, hends⟩ := Endpoint.onWrite_cases hu hwf hr
    rcases hends with ⟨-, he, -⟩ | ⟨-, he, -⟩ | ⟨he, -⟩
    · rw [he] at h
      exact h
    · rw [he] at h
      dsimp only [Endpoint.drained] at h
      split at h <;> exact h
    · rw [he] at h
      exact Endpoint.clear_read_dones (e := e.withOut out) h
  · rw [Endpoint.onWrite, if_pos hu] at hr
    cases hr
    exact h

theorem Endpoint.onRead_read_dones {e : Endpoint W R D} {results : List ReadResult}
    {r : Endpoint.ReadCall W R D} (hr : e.onRead results = some r) {msg_id : Bytes} {done : R}
    (h : r.endpoint.conn.m_read_dones msg_id = some done) :
    e.conn.m_read_dones msg_id = some done := by
  rcases Endpoint.onRead_cases hr with ⟨-, b, he⟩ | ⟨-, -, b, he⟩
  · rw [he] at h
    exact h
  · rw [he] at h
    exact Endpoint.clear_read_dones (e := e.withIn b) h

/-! ### A fresh connection -/

/-- A connection of the given type with nothing read, nothing to send and nothing registered. -/
structure Endpoint.Fresh (type : TcpConnectionType) (e : Endpoint W R D) : Prop where
  type : e.conn.m_connection_type = type
  inBuffer : e.conn.m_in_buffer.Reachable
  inEmpty : e.conn.m_in_buffer.readAble = 0
  out : e.conn.m_out_buffer.Reachable
  outEmpty : e.conn.m_out_buffer.readAble = 0
  queue : e.conn.m_write_dones = []
  read_dones : ∀ msg_id, e.conn.m_read_dones msg_id = none

namespace Endpoint.Fresh

variable {type : TcpConnectionType} {e : Endpoint W R D}

theorem out_content (h : e.Fresh type) : e.conn.m_out_buffer.content = [] :=
  h.out.wf.content_eq_nil_iff.mpr h.outEmpty

theorem reading (h : e.Fresh type) : Reading e [] [] := by
  have hnil : e.conn.m_in_buffer.content = [] := h.inBuffer.wf.content_eq_nil_iff.mpr h.inEmpty
  refine ⟨h.inBuffer.wf, List.nil_prefix, fun _ => ?_⟩
  rw [hnil, scan_nil]
  exact ⟨rfl, rfl⟩

theorem waiting_eq (h : e.Fresh type) : e.waiting = [] := by
  rw [Endpoint.waiting, if_pos h.out_content, h.queue]
  rfl

theorem sending (h : e.Fresh .TcpConnectionByClient) : Sending e [] [] [] := by
  refine ⟨h.out.wf, h.type, ?_, ?_⟩
  · rw [h.out_content]
    rfl
  · rw [h.waiting_eq]
    exact List.Sublist.refl _

end Endpoint.Fresh

theorem Endpoint.connected_fresh (fd : Nat) {buffer_size : Nat} (h : buffer_size < 2147483648)
    (type : TcpConnectionType) : (connected fd buffer_size type : Endpoint W R D).Fresh type where
  type := rfl
  inBuffer := .new buffer_size h
  inEmpty := rfl
  out := .new buffer_size h
  outEmpty := rfl
  queue := rfl
  read_dones := fun _ => rfl

end KaiRPC
