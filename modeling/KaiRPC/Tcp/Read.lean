import KaiRPC.Lib.Run
import KaiRPC.Tcp.Connection

/-!
# Reading from the socket

`TcpConnection::onRead` and the loops of `TcpConnection::excute` over the decoded
messages (`net/tcp/tcp_connection.cc`).

A call of `onRead` takes the results of its `read()` calls as a list.  Bytes beyond
the free space of the input buffer are cut off, no bytes is the end of the stream,
and behind the list the kernel answers `EAGAIN`.

A message decoded by `excute` is handed over by `handle`: a server dispatches it, a
client moves the callback registered under its id out of the map and runs it.

* `readLoop_spec`: the loop appends what it read to the content.
* `Reads.NothingLost`: every complete frame among the bytes read was handed over, or
  is in the `excute` under way.
* `reads_lose_nothing`: that holds as long as no call of `onRead` meets the end of the
  stream, or an error, with a complete frame in the buffer; `eof_loses_frame` is the
  call that does.
-/

open Word

namespace KaiRPC

open TinyPBCoder

/-- What `read()` returns. -/
inductive ReadResult
  | bytes (data : Bytes)
  | EAGAIN
  | EINTR
  | error
deriving DecidableEq, Repr

/-- The end of the read loop. -/
structure ReadEnd where
  buffer : TcpBuffer
  received : Bytes := []
  is_close : Bool := false

/-- A full buffer is doubled. -/
def makeRoom (b : TcpBuffer) : Option TcpBuffer :=
  if b.writeAble = 0 then b.resizeBuffer (wrap32 (2 * b.m_buffer.length)) else some b

/-- The bytes of a `read()` into the free space. -/
def fitted (b : TcpBuffer) (data : Bytes) : Bytes := data.take b.writeAble.toNat

/-- The buffer behind a `read()` that returned `data`. -/
def claimed (b : TcpBuffer) (data : Bytes) : Option TcpBuffer :=
  (b.store data).map fun b => b.moveWriteIndex data.length

def readLoop : List ReadResult → TcpBuffer → Option ReadEnd
  | rs, b => (makeRoom b).bind fun b =>
    match rs with
    | [] => some { buffer := b }
    | .EAGAIN :: _ => some { buffer := b }
    | .EINTR :: rs => readLoop rs b
    | .error :: _ => some { buffer := b, is_close := true }
    | .bytes data :: rs =>
        if (fitted b data).length > 0 then
          (claimed b (fitted b data)).bind fun b' =>
            if ((fitted b data).length : Int) = b.writeAble then
              (readLoop rs b').map fun r => { r with received := fitted b data ++ r.received }
            else some { buffer := b', received := fitted b data }
        else some { buffer := b, is_close := true }

namespace Endpoint

variable {W R D : Type}

/-- What a call of `onRead` did: the bytes it read, the messages it decoded for `excute`,
whether it cleared the connection and the disconnect callback that ran. -/
structure ReadCall (W R D : Type) where
  endpoint : Endpoint W R D
  received : Bytes := []
  result : List TinyPBProtocol := []
  is_close : Bool := false
  disconnect : Option D := none

def onRead (e : Endpoint W R D) (results : List ReadResult) : Option (ReadCall W R D) :=
  if ¬ e.conn.IsUsable then some { endpoint := e }
  else (readLoop results e.conn.m_in_buffer).bind fun r =>
    let e := e.withIn r.buffer
    if r.is_close then
      some {
        endpoint := e.clear.1
        received := r.received
        is_close := true
        disconnect := e.clear.2 }
    else (decode r.buffer).map fun (result, buffer) =>
      { endpoint := e.withIn buffer, received := r.received, result := result }

/-- One turn of the loop of `excute`: the endpoint, and the callback a client runs. -/
def handle (e : Endpoint W R D) (message : TinyPBProtocol) : Endpoint W R D × Option R :=
  match e.conn.m_connection_type with
  | .TcpConnectionByServer => (e, none)
  | .TcpConnectionByClient =>
      let (done, conn) := e.conn.takeReadDone message.m_msg_id
      ({ e with conn := conn }, done)

/-- A call of `onRead` leaves the connection alone but for the input buffer, or clears it. -/
theorem onRead_cases {e : Endpoint W R D} {results : List ReadResult} {r : ReadCall W R D}
    (h : e.onRead results = some r) :
    (r.is_close = false ∧ ∃ b, r.endpoint = e.withIn b) ∨
      (r.is_close = true ∧ e.conn.IsUsable ∧ ∃ b, r.endpoint = (e.withIn b).clear.1) := by
  unfold onRead at h
  split at h
  · cases h
    exact Or.inl ⟨rfl, e.conn.m_in_buffer, rfl⟩
  · rename_i hu
    obtain ⟨x, -, h⟩ := Option.bind_eq_some_iff.mp h
    dsimp only at h
    split at h
    · cases h
      exact Or.inr ⟨rfl, not_not.mp hu, x.buffer, rfl⟩
    · obtain ⟨⟨result, b⟩, -, rfl⟩ := Option.map_eq_some_iff.mp h
      exact Or.inl ⟨rfl, b, rfl⟩

theorem handle_loop (e : Endpoint W R D) (message : TinyPBProtocol) :
    (e.handle message).1.m_event_loop = e.m_event_loop := by
  unfold handle
  split <;> rfl

theorem handle_fd_event (e : Endpoint W R D) (message : TinyPBProtocol) :
    (e.handle message).1.m_fd_event = e.m_fd_event := by
  unfold handle
  split <;> rfl

theorem handle_in (e : Endpoint W R D) (message : TinyPBProtocol) :
    (e.handle message).1.conn.m_in_buffer = e.conn.m_in_buffer := by
  unfold handle TcpConnection.takeReadDone
  split
  · rfl
  · dsimp only
    split <;> rfl

theorem clear_in (e : Endpoint W R D) : e.clear.1.conn.m_in_buffer = e.conn.m_in_buffer := by
  rw [clear_conn]
  split <;> rfl

end Endpoint

/-! ### The loop -/

theorem makeRoom_spec {b b' : TcpBuffer} (h : b.WF) (hm : makeRoom b = some b') :
    b'.WF ∧ b'.content = b.content := by
  unfold makeRoom at hm
  split at hm
  · -- a doubled capacity is either an `int` or negative, and then the vector throws
    have hlt := h.size_lt
    have hle := h.content_length_le
    have hl := h.content_length
    by_cases hbig : (2 * b.m_buffer.length : Int) < 2147483648
    · rw [wrap32_of_range (by omega) hbig, TcpBuffer.resizeBuffer_eq h (by omega)] at hm
      cases hm
      exact ⟨TcpBuffer.rebased_wf (by omega) (by omega), TcpBuffer.rebased_content _ _⟩
    · have hneg : wrap32 (2 * b.m_buffer.length) < 0 := by
        unfold wrap32
        omega
      rw [TcpBuffer.resizeBuffer, if_pos hneg] at hm
      cases hm
  · cases hm
    exact ⟨h, rfl⟩

theorem claimed_spec {b b' : TcpBuffer} (h : b.WF) {data : Bytes}
    (hc : claimed b (fitted b data) = some b') :
    b'.WF ∧ b'.content = b.content ++ fitted b data := by
  have hfit : ((fitted b data).length : Int) ≤ b.writeAble := by
    have := h.writeAble_eq
    have := h.write_le
    rw [fitted, List.length_take]
    omega
  obtain ⟨b₁, hs, hwf, hcont, -⟩ := TcpBuffer.store_moveWriteIndex h hfit
  rw [claimed, hs] at hc
  cases hc
  exact ⟨hwf, hcont⟩

/-- **The read loop** appends what it read. -/
theorem readLoop_spec : ∀ (rs : List ReadResult) {b : TcpBuffer} {r : ReadEnd}, b.WF →
    readLoop rs b = some r → r.buffer.WF ∧ r.buffer.content = b.content ++ r.received := by
  intro rs
  induction rs with
  | nil =>
    intro b r h hr
    unfold readLoop at hr
    obtain ⟨b', hm, hr⟩ := Option.bind_eq_some_iff.mp hr
    cases hr
    obtain ⟨hwf, hc⟩ := makeRoom_spec h hm
    exact ⟨hwf, by rw [hc, List.append_nil]⟩
  | cons x rs ih =>
    intro b r h hr
    unfold readLoop at hr
    obtain ⟨b', hm, hr⟩ := Option.bind_eq_some_iff.mp hr
    obtain ⟨hwf, hc⟩ := makeRoom_spec h hm
    rw [← hc]
    cases x with
    | EAGAIN => cases hr; exact ⟨hwf, (List.append_nil _).symm⟩
    | EINTR => exact ih hwf hr
    | error => cases hr; exact ⟨hwf, (List.append_nil _).symm⟩
    | bytes data =>
      dsimp only at hr
      split at hr
      · obtain ⟨b'', hcl, hr⟩ := Option.bind_eq_some_iff.mp hr
        obtain ⟨hwf', hc'⟩ := claimed_spec hwf hcl
        split at hr
        · obtain ⟨r', hr', rfl⟩ := Option.map_eq_some_iff.mp hr
          obtain ⟨h1, h2⟩ := ih hwf' hr'
          exact ⟨h1, by rw [h2, hc', List.append_assoc]⟩
        · cases hr
          exact ⟨hwf', hc'⟩
      · cases hr
        exact ⟨hwf, (List.append_nil _).symm⟩

/-! ### Frames in front of the end of the stream -/

/-- `decode` would emit a message. -/
def holdsFrame (b : TcpBuffer) : Bool := (decode b).any fun r => r.1 ≠ []

theorem holdsFrame_iff {b : TcpBuffer} (h : b.WF) :
    holdsFrame b = true ↔ (tinyPB.scan b.content).1 ≠ [] := by
  obtain ⟨b', hd, -⟩ := decode_eq h
  rw [holdsFrame, hd, Option.any_some, decide_eq_true_iff]

/-- The end of the stream, or an error, reaches a call of `onRead` while the buffer holds a
complete frame: the reads in front of it filled the buffer to the last byte. -/
def closesOnFrame : List ReadResult → TcpBuffer → Bool
  | [], _ => false
  | .EAGAIN :: _, _ => false
  | .EINTR :: rs, b => (makeRoom b).any (closesOnFrame rs)
  | .error :: _, b => (makeRoom b).any holdsFrame
  | .bytes data :: rs, b => (makeRoom b).any fun b =>
      if (fitted b data).length > 0 then
        decide (((fitted b data).length : Int) = b.writeAble) &&
          (claimed b (fitted b data)).any (closesOnFrame rs)
      else holdsFrame b

theorem closesOnFrame_iff : ∀ (rs : List ReadResult) {b : TcpBuffer} {r : ReadEnd}, b.WF →
    readLoop rs b = some r →
    (closesOnFrame rs b = true ↔ r.is_close = true ∧ (tinyPB.scan r.buffer.content).1 ≠ []) := by
  intro rs
  induction rs with
  | nil =>
    intro b r h hr
    unfold readLoop at hr
    obtain ⟨b', hm, hr⟩ := Option.bind_eq_some_iff.mp hr
    cases hr
    simp [closesOnFrame]
  | cons x rs ih =>
    intro b r h hr
    unfold readLoop at hr
    obtain ⟨b', hm, hr⟩ := Option.bind_eq_some_iff.mp hr
    obtain ⟨hwf, -⟩ := makeRoom_spec h hm
    cases x with
    | EAGAIN => cases hr; simp [closesOnFrame]
    | EINTR =>
      rw [closesOnFrame, hm, Option.any_some]
      exact ih hwf hr
    | error =>
      cases hr
      rw [closesOnFrame, hm, Option.any_some, holdsFrame_iff hwf]
      simp
    | bytes data =>
      rw [closesOnFrame, hm, Option.any_some]
      dsimp only at hr
      split at hr
      · rename_i hpos
        rw [if_pos hpos]
        obtain ⟨b'', hcl, hr⟩ := Option.bind_eq_some_iff.mp hr
        obtain ⟨hwf', -⟩ := claimed_spec hwf hcl
        split at hr
        · rename_i hfull
          obtain ⟨r', hr', rfl⟩ := Option.map_eq_some_iff.mp hr
          have hih := ih hwf' hr'
          rw [hcl, Option.any_some, decide_eq_true hfull, Bool.true_and]
          exact hih
        · rename_i hfull
          cases hr
          simp [hfull]
      · rename_i hpos
        rw [if_neg hpos]
        cases hr
        rw [holdsFrame_iff hwf]
        simp

/-! ### Runs of a connection's reading -/

section Reads

variable {W R D : Type}

/-- A connection with the bytes it read, the messages of the `excute` under way, and the
messages handed over, each with the callback that a client ran for it. -/
structure Reads (W R D : Type) where
  e : Endpoint W R D
  received : Bytes := []
  todo : List TinyPBProtocol := []
  handled : List (TinyPBProtocol × Option R) := []

/-- Between the turns of `excute`, and between calls of `onRead`, anything may happen to the
connection that leaves its input buffer alone: callbacks, replies, writes, a `clear`. -/
inductive ReadOp (W R D : Type)
  | onRead (results : List ReadResult)
  | handle
  | other (e : Endpoint W R D)

def Reads.step (s : Reads W R D) : ReadOp W R D → Option (Reads W R D)
  | .onRead results =>
      if s.todo = [] then (s.e.onRead results).map fun r =>
        { s with e := r.endpoint, received := s.received ++ r.received, todo := r.result }
      else none
  | .handle =>
      match s.todo with
      | [] => none
      | message :: todo => some { s with
          e := (s.e.handle message).1
          todo := todo
          handled := s.handled ++ [(message, (s.e.handle message).2)] }
  | .other e =>
      if e.conn.m_in_buffer = s.e.conn.m_in_buffer then some { s with e := e } else none

/-- **Nothing is lost**: the complete frames among the bytes read are those handed over and
those in the `excute` under way. -/
def Reads.NothingLost (s : Reads W R D) : Prop :=
  s.handled.map Prod.fst ++ s.todo = (tinyPB.scan s.received).1

/-- The call of `onRead` does not meet the end of the stream with a complete frame in the
buffer. -/
def Reads.ReadFits (s : Reads W R D) : ReadOp W R D → Prop
  | .onRead results => s.e.conn.IsUsable → closesOnFrame results s.e.conn.m_in_buffer = false
  | _ => True

instance (s : Reads W R D) (op : ReadOp W R D) : Decidable (s.ReadFits op) := by
  cases op
  · exact inferInstanceAs (Decidable (_ → _))
  · exact inferInstanceAs (Decidable True)
  · exact inferInstanceAs (Decidable True)

/-- The input buffer emits nothing more, and goes on where the stream goes on. -/
structure Reads.Inv (s : Reads W R D) : Prop where
  wf : s.e.conn.m_in_buffer.WF
  lost : s.NothingLost
  residual : tinyPB.scan s.e.conn.m_in_buffer.content = ([], (tinyPB.scan s.received).2)

theorem Reads.inv_onRead {s s' : Reads W R D} (h : s.Inv) {results : List ReadResult}
    (hfits : s.ReadFits (.onRead results)) (hs : s.step (.onRead results) = some s') : s'.Inv := by
  obtain ⟨hwf, hlost, hres⟩ := h
  simp only [Reads.step, Option.ite_none_right_eq_some] at hs
  obtain ⟨htodo, hs⟩ := hs
  obtain ⟨call, hcall, rfl⟩ := Option.map_eq_some_iff.mp hs
  rw [Reads.NothingLost, htodo, List.append_nil] at hlost
  unfold Endpoint.onRead at hcall
  split at hcall
  · cases hcall
    refine ⟨hwf, ?_, ?_⟩
    · show s.handled.map Prod.fst ++ [] = (tinyPB.scan (s.received ++ [])).1
      rw [List.append_nil, List.append_nil, hlost]
    · show tinyPB.scan s.e.conn.m_in_buffer.content = ([], (tinyPB.scan (s.received ++ [])).2)
      rw [List.append_nil, hres]
  rename_i hu
  obtain ⟨r, hloop, hcall⟩ := Option.bind_eq_some_iff.mp hcall
  obtain ⟨hwf', hc⟩ := readLoop_spec results hwf hloop
  have hclose := closesOnFrame_iff results hwf hloop
  rw [hfits (not_not.mp hu)] at hclose
  -- the buffer and the stream are scanned alike from here on
  have hstream := tinyPB.scan_append s.received r.received
  have hbuffer := tinyPB.scan_append s.e.conn.m_in_buffer.content r.received
  rw [hres, List.nil_append, ← hc] at hbuffer
  have hitems : (tinyPB.scan (s.received ++ r.received)).1
      = (tinyPB.scan s.received).1 ++ (tinyPB.scan r.buffer.content).1 := by
    rw [hstream, hbuffer]
  have hrest : (tinyPB.scan (s.received ++ r.received)).2 = (tinyPB.scan r.buffer.content).2 := by
    rw [hstream, hbuffer]
  dsimp only at hcall
  split at hcall
  · rename_i hisclose
    cases hcall
    have hnone : (tinyPB.scan r.buffer.content).1 = [] := by
      by_contra hne
      exact Bool.false_ne_true (hclose.mpr ⟨hisclose, hne⟩)
    refine ⟨?_, ?_, ?_⟩
    · show TcpBuffer.WF (s.e.withIn r.buffer).clear.1.conn.m_in_buffer
      rw [Endpoint.clear_in]
      exact hwf'
    · show s.handled.map Prod.fst ++ [] = (tinyPB.scan (s.received ++ r.received)).1
      rw [hitems, hnone, hlost]
    · show tinyPB.scan (s.e.withIn r.buffer).clear.1.conn.m_in_buffer.content
        = ([], (tinyPB.scan (s.received ++ r.received)).2)
      rw [Endpoint.clear_in, hrest, ← hnone]
      rfl
  · obtain ⟨b', hd, hwf'', hc', -⟩ := decode_eq hwf'
    rw [hd, Option.map_some] at hcall
    cases hcall
    refine ⟨hwf'', ?_, ?_⟩
    · show s.handled.map Prod.fst ++ (tinyPB.scan r.buffer.content).1
        = (tinyPB.scan (s.received ++ r.received)).1
      rw [hitems, hlost]
    · show tinyPB.scan b'.content = ([], (tinyPB.scan (s.received ++ r.received)).2)
      rw [hc', hrest]
      exact tinyPB.scan_residual _

theorem Reads.inv_step {s s' : Reads W R D} {op : ReadOp W R D} (h : s.Inv)
    (hs : s.ReadFits op ∧ s.step op = some s') : s'.Inv := by
  obtain ⟨hfits, hs⟩ := hs
  cases op with
  | onRead results => exact Reads.inv_onRead h hfits hs
  | handle =>
    simp only [Reads.step] at hs
    split at hs
    · cases hs
    · rename_i message todo htodo
      cases hs
      obtain ⟨hwf, hlost, hres⟩ := h
      have hin := s.e.handle_in message
      refine ⟨?_, ?_, ?_⟩
      · show TcpBuffer.WF (s.e.handle message).1.conn.m_in_buffer
        rw [hin]
        exact hwf
      · rw [Reads.NothingLost, htodo] at hlost
        rw [Reads.NothingLost, List.map_append, List.append_assoc]
        exact hlost
      · show tinyPB.scan (s.e.handle message).1.conn.m_in_buffer.content = _
        rw [hin]
        exact hres
  | other e =>
    simp only [Reads.step, Option.ite_none_right_eq_some] at hs
    obtain ⟨hin, hs⟩ := hs
    cases hs
    obtain ⟨hwf, hlost, hres⟩ := h
    exact ⟨hin ▸ hwf, hlost, hin ▸ hres⟩

/-- A connection that has read nothing yet. -/
structure Reads.Start (s : Reads W R D) : Prop where
  in_buffer : s.e.conn.m_in_buffer.Reachable
  empty : s.e.conn.m_in_buffer.readAble = 0
  received : s.received = []
  todo : s.todo = []
  handled : s.handled = []

theorem Reads.Start.inv {s : Reads W R D} (h : s.Start) : s.Inv := by
  have hwf := h.in_buffer.wf
  have hnil : s.e.conn.m_in_buffer.content = [] := hwf.content_eq_nil_iff.mpr h.empty
  refine ⟨hwf, ?_, ?_⟩
  · rw [Reads.NothingLost, h.handled, h.todo, h.received, scan_nil]
    rfl
  · rw [hnil, h.received, scan_nil]

/-- **No frame is lost, as long as no call of `onRead` meets the end of the stream, or an error,
with a complete frame in the buffer.** -/
theorem reads_lose_nothing {s₀ s : Reads W R D} {ops : List (ReadOp W R D)} (h₀ : s₀.Start)
    (hrun : Run (fun s op s' => s.ReadFits op ∧ s.step op = some s') s₀ ops s) : s.NothingLost :=
  (Run.invariant (I := Reads.Inv) Reads.inv_step hrun h₀.inv).lost

/-- A frame cut over two calls of `onRead`, and the end of the stream in a third. -/
theorem reads_lose_nothing_cut :
    let frame := wire { m_msg_id := [49] }
    let s₀ : Reads Unit Unit Unit := { e := .connected 5 128 .TcpConnectionByServer }
    ∃ s, Run (fun s op s' => s.ReadFits op ∧ s.step op = some s') s₀
        [.onRead [.bytes (frame.take 7)], .onRead [.EINTR, .bytes (frame.drop 7)], .handle,
          .onRead [.bytes []]] s ∧
      s.e.conn.m_state = .Closed ∧ s.NothingLost := by
  intro frame s₀
  obtain ⟨s, hs, hp⟩ := (Option.any_eq_true _ _).mp (by decide +kernel :
    ([ReadOp.onRead [.bytes (frame.take 7)], .onRead [.EINTR, .bytes (frame.drop 7)], .handle,
      .onRead [.bytes []]].foldlM (Run.guarded Reads.ReadFits Reads.step) s₀).any
      (fun s => s.e.conn.m_state = .Closed) = true)
  have hrun := Run.of_guarded hs
  exact ⟨s, hrun, of_decide_eq_true hp,
    reads_lose_nothing ⟨.new 128 (by decide), by decide, rfl, rfl, rfl⟩ hrun⟩

/-- **A frame that fills the buffer to the last byte is lost when the peer closes behind it**: the
same call of `onRead` reads the end of the stream and clears the connection without `excute`. -/
theorem eof_loses_frame :
    let frame := wire { m_msg_id := [49], m_pb_data := List.replicate 101 0 }
    let s₀ : Reads Unit Unit Unit := { e := .connected 5 128 .TcpConnectionByServer }
    s₀.Start ∧ ∃ s, Run (fun s op s' => s.step op = some s') s₀
        [.onRead [.bytes frame, .bytes []]] s ∧
      s.e.conn.m_state = .Closed ∧ s.received = frame ∧ s.handled = [] ∧ s.todo = [] ∧
      ¬ s.NothingLost := by
  intro frame s₀
  refine ⟨⟨.new 128 (by decide), by decide, rfl, rfl, rfl⟩, ?_⟩
  obtain ⟨s, hs, hp⟩ := (Option.any_eq_true _ _).mp (by decide +kernel :
    ([ReadOp.onRead [.bytes frame, .bytes []]].foldlM Reads.step s₀).any
      (fun s => s.e.conn.m_state = .Closed ∧ s.received = frame ∧ s.handled = [] ∧ s.todo = [])
        = true)
  obtain ⟨h1, h2, h3, h4⟩ := of_decide_eq_true hp
  refine ⟨s, Run.of_foldlM hs, h1, h2, h3, h4, fun hlost => ?_⟩
  have hscan := scan_wire (m := { m_msg_id := [49], m_pb_data := List.replicate 101 0 })
    (by decide +kernel) []
  rw [List.append_nil] at hscan
  rw [Reads.NothingLost, h2, h3, h4, hscan] at hlost
  cases hlost

end Reads

end KaiRPC
