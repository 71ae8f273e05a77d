import Mathlib.Data.List.Infix
import KaiRPC.Lib.Run
import KaiRPC.Tcp.Write

/-!
# The client's side of writing

A client connection under calls of `pushSendMessage` and `onWrite`.  A message is known
by the number of its push, which its write callback carries.

* `Sends.ExactlyOnce`: no message is dropped or encoded twice, and a write callback
  runs once, behind the bytes of its message.
* `client_sends`: that holds as long as no message is pushed behind unsent bytes;
  `client_drops` is the run where one is.
-/

namespace KaiRPC

open TinyPBCoder

variable {R D : Type}

/-- A client connection, with what the kernel took from it, what was pushed on it, how many
of those messages went through `encode`, and the write callbacks that ran. -/
structure Sends (R D : Type) where
  e : Endpoint Nat R D
  accepted : Bytes := []
  pushed : List TinyPBProtocol := []
  encoded : Nat := 0
  done : List (TinyPBProtocol × Nat) := []

inductive ClientOp
  | push (message : TinyPBProtocol)
  | onWrite (results : List WriteResult)

def Sends.step (s : Sends R D) : ClientOp → Option (Sends R D)
  | .push message => some { s with
      e := { s.e with conn := s.e.conn.pushSendMessage message s.pushed.length }
      pushed := s.pushed ++ [message] }
  | .onWrite results => (s.e.onWrite results true).map fun r => { s with
      e := r.endpoint
      accepted := s.accepted ++ r.accepted
      encoded := if s.e.conn.IsUsable ∧ s.e.conn.m_out_buffer.readAble = 0 then s.pushed.length
        else s.encoded
      done := s.done ++ r.dones }

/-- The messages still queued but not yet encoded. -/
def Sends.unencoded (s : Sends R D) : List TinyPBProtocol :=
  (s.e.conn.m_write_dones.filter fun p => s.encoded ≤ p.2).map Prod.fst

/-- **Exactly once**: what the kernel took, what is readable and what is queued make up the
encodings of the pushed messages, and a write callback runs at most once, behind all bytes of
its message. -/
def Sends.ExactlyOnce (s : Sends R D) : Prop :=
  s.accepted ++ s.e.conn.m_out_buffer.content ++ s.unencoded.flatMap wire
      = s.pushed.flatMap wire ∧
    (s.done.map Prod.snd).Nodup ∧
    ∀ p ∈ s.done, s.pushed[p.2]? = some p.1 ∧
      (s.pushed.take (p.2 + 1)).flatMap wire <+: s.accepted

/-- A push behind unsent bytes is a push of a message without bytes. -/
def Sends.PushFits (s : Sends R D) : ClientOp → Prop
  | .push message => s.e.conn.m_out_buffer.readAble = 0 ∨ ¬ Sendable message
  | .onWrite _ => True

instance (s : Sends R D) (op : ClientOp) : Decidable (s.PushFits op) := by
  cases op
  · exact inferInstanceAs (Decidable (_ ∨ _))
  · exact inferInstanceAs (Decidable True)

/-- The invariant of the runs whose pushes fit.  The callbacks that ran and the queue are
together the pushes in order; bytes are accounted for; behind unsent bytes only messages
without bytes wait; without unsent bytes nothing encoded waits. -/
structure Sends.Open (s : Sends R D) : Prop where
  usable : s.e.conn.IsUsable
  queue : s.done ++ s.e.conn.m_write_dones = s.pushed.zipIdx
  sent : s.accepted ++ s.e.conn.m_out_buffer.content
      ++ (s.pushed.drop (max s.done.length s.encoded)).flatMap wire = s.pushed.flatMap wire
  waiting : s.e.conn.m_out_buffer.content ≠ [] → ∀ m ∈ s.pushed.drop s.encoded, wire m = []
  idle : s.e.conn.m_out_buffer.content = [] → s.encoded ≤ s.done.length
  encoded_le : s.encoded ≤ s.pushed.length
  finished : (s.pushed.take s.done.length).flatMap wire <+: s.accepted

structure Sends.Inv (s : Sends R D) : Prop where
  wf : s.e.conn.m_out_buffer.WF
  type : s.e.conn.m_connection_type = .TcpConnectionByClient
  live : s.e.conn.m_state = .Closed ∨ s.Open

theorem zipIdx_split {α : Type} {l : List α} {A B : List (α × Nat)} (h : A ++ B = l.zipIdx) :
    A.length ≤ l.length ∧ A = (l.take A.length).zipIdx ∧
      B = (l.drop A.length).zipIdx A.length := by
  have hlen : A.length + B.length = l.length := by
    rw [← List.length_append, h, List.length_zipIdx]
  have hs : A ++ B = (l.take A.length).zipIdx ++ (l.drop A.length).zipIdx A.length := by
    have hz : (l.take A.length ++ l.drop A.length).zipIdx 0 = _ := List.zipIdx_append
    rw [List.take_append_drop, List.length_take, Nat.min_eq_left (by omega), Nat.zero_add] at hz
    rw [h, hz]
  obtain ⟨h1, h2⟩ := List.append_inj hs (by rw [List.length_zipIdx, List.length_take]; omega)
  exact ⟨by omega, h1, h2⟩

theorem filter_zipIdx {α : Type} (k : Nat) : ∀ (l : List α) (n : Nat),
    ((l.zipIdx n).filter fun p => k ≤ p.2).map Prod.fst = l.drop (k - n) := by
  intro l
  induction l with
  | nil => intro n; simp
  | cons a l ih =>
    intro n
    rw [List.zipIdx_cons, List.filter_cons]
    by_cases hk : k ≤ n
    · have h0 : k - n = 0 := by omega
      have h1 : k - (n + 1) = 0 := by omega
      rw [if_pos (by simpa using hk), List.map_cons, ih, h0, h1]
      rfl
    · have h1 : k - n = (k - (n + 1)) + 1 := by omega
      rw [if_neg (by simpa using hk), ih, h1, List.drop_succ_cons]

theorem Sends.unencoded_eq {s : Sends R D}
    (hq : s.done ++ s.e.conn.m_write_dones = s.pushed.zipIdx) :
    s.unencoded = s.pushed.drop (max s.done.length s.encoded) := by
  obtain ⟨-, -, h2⟩ := zipIdx_split hq
  rw [Sends.unencoded, h2, filter_zipIdx, List.drop_drop]
  congr 1
  omega

/-- **An open connection has sent exactly once.** -/
theorem Sends.Open.exactlyOnce {s : Sends R D} (h : s.Open) : s.ExactlyOnce := by
  obtain ⟨hd, h1, -⟩ := zipIdx_split h.queue
  refine ⟨?_, ?_, ?_⟩
  · rw [Sends.unencoded_eq h.queue]
    exact h.sent
  · rw [h1, List.zipIdx_map_snd]
    exact List.nodup_range'
  · intro p hp
    have hmem : p ∈ s.pushed.zipIdx := by
      rw [← h.queue]
      exact List.mem_append_left _ hp
    rw [h1] at hp
    have hlt : p.2 < s.done.length := by
      have := List.snd_lt_of_mem_zipIdx hp
      rw [List.length_take] at this
      omega
    refine ⟨List.mem_zipIdx_iff_getElem?.mp hmem, List.IsPrefix.trans ?_ h.finished⟩
    exact (List.take_prefix_take_left (by omega)).flatMap wire

theorem Sends.inv_push {s s' : Sends R D} (h : s.Inv) {message : TinyPBProtocol}
    (hfits : s.PushFits (.push message)) (hs : s.step (.push message) = some s') : s'.Inv := by
  cases hs
  refine ⟨h.wf, h.type, ?_⟩
  rcases h.live with hcl | ho
  · exact Or.inl hcl
  obtain ⟨hle, -, -⟩ := zipIdx_split ho.queue
  have henc := ho.encoded_le
  refine Or.inr ⟨ho.usable, ?_, ?_, ?_, ho.idle, ?_, ?_⟩
  · show s.done ++ (s.e.conn.m_write_dones ++ [(message, s.pushed.length)])
      = (s.pushed ++ [message]).zipIdx
    rw [← List.append_assoc, ho.queue, List.zipIdx_append, Nat.zero_add]
    rfl
  · show s.accepted ++ s.e.conn.m_out_buffer.content
      ++ ((s.pushed ++ [message]).drop (max s.done.length s.encoded)).flatMap wire
        = (s.pushed ++ [message]).flatMap wire
    rw [List.drop_append_of_le_length (by omega), List.flatMap_append, List.flatMap_append,
      ← List.append_assoc, ho.sent]
  · intro hne m hm
    rw [List.drop_append_of_le_length henc, List.mem_append, List.mem_singleton] at hm
    rcases hm with hm | rfl
    · exact ho.waiting hne m hm
    · rcases hfits with hz | hbig
      · exact absurd (h.wf.content_eq_nil_iff.mpr hz) hne
      · exact wire_of_not hbig
  · show s.encoded ≤ (s.pushed ++ [message]).length
    rw [List.length_append]
    omega
  · show ((s.pushed ++ [message]).take s.done.length).flatMap wire <+: s.accepted
    rw [List.take_append_of_le_length hle]
    exact ho.finished

theorem flatMap_wire_nil {ms : List TinyPBProtocol} (h : ∀ m ∈ ms, wire m = []) :
    ms.flatMap wire = [] := List.flatMap_eq_nil_iff.mpr h

/-- Whether the queue was encoded just now or earlier, the bytes in front of the loop are all
that is missing, and what has not been encoded has no bytes. -/
theorem Sends.Open.before {s : Sends R D} (h : s.Open)
    (htype : s.e.conn.m_connection_type = .TcpConnectionByClient) {before : TcpBuffer}
    (hb : if s.e.conn.m_connection_type = .TcpConnectionByClient ∧
        s.e.conn.m_out_buffer.content = [] then
        before.content = (s.e.conn.m_write_dones.map Prod.fst).flatMap wire
      else before = s.e.conn.m_out_buffer) :
    let encoded := if s.e.conn.m_out_buffer.content = [] then s.pushed.length else s.encoded
    s.accepted ++ before.content = s.pushed.flatMap wire ∧ encoded ≤ s.pushed.length ∧
      ∀ m ∈ s.pushed.drop encoded, wire m = [] := by
  obtain ⟨-, -, h2⟩ := zipIdx_split h.queue
  have hsent := h.sent
  intro encoded
  by_cases hnil : s.e.conn.m_out_buffer.content = []
  · have hidle := h.idle hnil
    have henc : encoded = s.pushed.length := if_pos hnil
    rw [if_pos ⟨htype, hnil⟩, h2, List.zipIdx_map_fst] at hb
    rw [hnil, List.append_nil, Nat.max_eq_left hidle] at hsent
    refine ⟨by rw [hb, hsent], henc.le, ?_⟩
    rw [henc, List.drop_length]
    intro m hm
    cases hm
  · have hwait := h.waiting hnil
    have henc : encoded = s.encoded := if_neg hnil
    rw [if_neg (fun hc => hnil hc.2)] at hb
    have hrest : (s.pushed.drop (max s.done.length s.encoded)).flatMap wire = [] := by
      refine flatMap_wire_nil fun m hm => hwait m ?_
      exact (List.drop_sublist_drop_left _ (Nat.le_max_right _ _)).subset hm
    rw [hrest, List.append_nil] at hsent
    rw [henc, hb]
    exact ⟨hsent, h.encoded_le, hwait⟩

theorem Sends.inv_onWrite {s s' : Sends R D} (h : s.Inv) {results : List WriteResult}
    (hs : s.step (.onWrite results) = some s') : s'.Inv := by
  obtain ⟨hwf, htype, hlive⟩ := h
  obtain ⟨r, hr, rfl⟩ := Option.map_eq_some_iff.mp hs
  rcases hlive with hcl | ho
  · have hu : ¬ s.e.conn.IsUsable := fun hu => by cases hcl.symm.trans hu.1
    rw [Endpoint.onWrite, if_pos hu] at hr
    cases hr
    exact ⟨hwf, htype, Or.inl hcl⟩
  obtain ⟨before, out, -, hout, hbefore, hcont, hends⟩ := Endpoint.onWrite_cases ho.usable hwf hr
  obtain ⟨hall, henc, hwait⟩ := ho.before htype hbefore
  have hif : (if s.e.conn.IsUsable ∧ s.e.conn.m_out_buffer.readAble = 0 then s.pushed.length
      else s.encoded)
        = if s.e.conn.m_out_buffer.content = [] then s.pushed.length else s.encoded := by
    simp only [ho.usable, true_and, hwf.content_eq_nil_iff]
  rw [hif]
  generalize (if s.e.conn.m_out_buffer.content = [] then s.pushed.length else s.encoded) = encoded
    at henc hwait
  have hall' : s.accepted ++ r.accepted ++ out.content = s.pushed.flatMap wire := by
    rw [List.append_assoc, ← hcont, hall]
  rcases hends with ⟨hne, he, hd⟩ | ⟨hnil, he, hd⟩ | ⟨he, -⟩
  · rw [he, hd, List.append_nil]
    refine ⟨hout, htype, Or.inr ⟨ho.usable, ho.queue, ?_, fun _ => hwait, fun hn => absurd hn hne,
      henc, ho.finished.trans (List.prefix_append _ _)⟩⟩
    show s.accepted ++ r.accepted ++ out.content
      ++ (s.pushed.drop (max s.done.length encoded)).flatMap wire = _
    rw [flatMap_wire_nil fun m hm => hwait m
        ((List.drop_sublist_drop_left _ (Nat.le_max_right _ _)).subset hm),
      List.append_nil, hall']
  · -- everything is sent: the whole queue has run
    have hdones : r.dones = s.e.conn.m_write_dones := by rw [hd]; exact if_pos htype
    have hqueue : s.done ++ r.dones = s.pushed.zipIdx := by rw [hdones, ho.queue]
    have hlen : (s.done ++ r.dones).length = s.pushed.length := by
      rw [hqueue, List.length_zipIdx]
    have hdr : (s.e.withOut out).drained true = _ := if_pos htype
    rw [hnil, List.append_nil] at hall'
    rw [he, hdr]
    refine ⟨hout, htype, Or.inr ⟨ho.usable, ?_, ?_, fun hne => absurd hnil hne, ?_, henc, ?_⟩⟩
    · show s.done ++ r.dones ++ [] = _
      rw [List.append_nil, hqueue]
    · show s.accepted ++ r.accepted ++ out.content
        ++ (s.pushed.drop (max (s.done ++ r.dones).length encoded)).flatMap wire = _
      rw [hlen, Nat.max_eq_left henc, List.drop_length, hnil, hall']
      simp
    · intro _
      show encoded ≤ (s.done ++ r.dones).length
      omega
    · show (s.pushed.take (s.done ++ r.dones).length).flatMap wire <+: s.accepted ++ r.accepted
      rw [hlen, List.take_length, hall']
  · obtain ⟨h1, h2⟩ := (s.e.withOut out).clear_out
    rw [he]
    refine ⟨?_, h2.trans htype, Or.inl (Endpoint.clear_isCleared _).1⟩
    show TcpBuffer.WF (s.e.withOut out).clear.1.conn.m_out_buffer
    rw [h1]
    exact hout

/-- A connected client connection at the start of its service, with nothing to send. -/
structure Sends.Start (s : Sends R D) : Prop where
  type : s.e.conn.m_connection_type = .TcpConnectionByClient
  usable : s.e.conn.IsUsable
  out : s.e.conn.m_out_buffer.Reachable
  empty : s.e.conn.m_out_buffer.readAble = 0
  queue : s.e.conn.m_write_dones = []
  accepted : s.accepted = []
  pushed : s.pushed = []
  encoded : s.encoded = 0
  done : s.done = []

theorem Sends.Start.inv {s : Sends R D} (h : s.Start) : s.Inv := by
  have hwf := h.out.wf
  have hnil : s.e.conn.m_out_buffer.content = [] := hwf.content_eq_nil_iff.mpr h.empty
  refine ⟨hwf, h.type, Or.inr ⟨h.usable, ?_, ?_, fun hne => absurd hnil hne, ?_, ?_, ?_⟩⟩
  · rw [h.done, h.queue, h.pushed]
    rfl
  · rw [h.accepted, h.pushed, hnil]
    simp
  · intro _
    rw [h.encoded]
    exact Nat.zero_le _
  · rw [h.encoded]
    exact Nat.zero_le _
  · rw [h.pushed]
    simp

/-- **A client sends exactly once, as long as every push fits**: in every state of a run in
which no message with bytes is pushed behind unsent bytes, until the connection is cleared. -/
theorem client_sends {s₀ s : Sends R D} {ops : List ClientOp} (h₀ : s₀.Start)
    (hrun : Run (fun s op s' => s.PushFits op ∧ s.step op = some s') s₀ ops s)
    (hopen : s.e.conn.m_state ≠ .Closed) : s.ExactlyOnce := by
  have hstep : ∀ {s : Sends R D} {op s'}, s.Inv → s.PushFits op ∧ s.step op = some s' → s'.Inv := by
    intro s op s' h hs
    cases op with
    | push message => exact Sends.inv_push h hs.1 hs.2
    | onWrite results => exact Sends.inv_onWrite h hs.2
  have h : s.Inv := Run.invariant (I := Sends.Inv) hstep hrun h₀.inv
  rcases h.live with hcl | ho
  · exact absurd hcl hopen
  · exact ho.exactlyOnce

/-- Two pushes before the first write, and a push when everything is sent. -/
theorem client_sends_in_turn :
    let s₀ : Sends Unit Unit := { e := .connected 5 128 .TcpConnectionByClient }
    let ops := [ClientOp.push { m_msg_id := [49] }, .push { m_msg_id := [50] },
      .onWrite [.count 100], .push { m_msg_id := [51] }, .onWrite [.count 3]]
    ∃ s, Run (fun s op s' => s.PushFits op ∧ s.step op = some s') s₀ ops s ∧
      s.e.conn.m_state ≠ .Closed ∧ s.ExactlyOnce := by
  intro s₀ ops
  obtain ⟨s, hs, hopen⟩ := (Option.any_eq_true _ _).mp (by decide +kernel :
    (ops.foldlM (Run.guarded Sends.PushFits Sends.step) s₀).any
      (fun s => s.e.conn.m_state ≠ .Closed) = true)
  have hrun := Run.of_guarded hs
  exact ⟨s, hrun, by simpa using hopen, client_sends ⟨rfl, ⟨rfl, by decide⟩, .new 128 (by decide),
    by decide, rfl, rfl, rfl, rfl, rfl⟩ hrun (by simpa using hopen)⟩

/-- **A message pushed behind unsent bytes is dropped.**  The first message is partly written
when the second is pushed; the next `onWrite` sends the rest of the first, runs both write
callbacks and clears the queue. -/
theorem client_drops :
    let s₀ : Sends Unit Unit := { e := .connected 5 128 .TcpConnectionByClient }
    let ops := [ClientOp.push { m_msg_id := [49] }, .onWrite [.count 3],
      .push { m_msg_id := [50] }, .onWrite [.count 100]]
    s₀.Start ∧ ∃ s, Run (fun s op s' => s.step op = some s') s₀ ops s ∧
      s.e.conn.m_state ≠ .Closed ∧ ¬ s.ExactlyOnce := by
  intro s₀ ops
  refine ⟨⟨rfl, ⟨rfl, by decide⟩, .new 128 (by decide), by decide, rfl, rfl, rfl, rfl, rfl⟩, ?_⟩
  obtain ⟨s, hs, hbad⟩ := (Option.any_eq_true _ _).mp (by decide +kernel :
    (ops.foldlM Sends.step s₀).any (fun s => s.e.conn.m_state ≠ .Closed ∧
      s.accepted ++ s.e.conn.m_out_buffer.content ++ s.unencoded.flatMap wire
        ≠ s.pushed.flatMap wire) = true)
  have hbad := of_decide_eq_true hbad
  exact ⟨s, Run.of_foldlM hs, hbad.1, fun h => hbad.2 h.1⟩

end KaiRPC
