import KaiRPC.Lib.Run
import KaiRPC.Tcp.Read
import KaiRPC.Tcp.Write

/-!
# Teardown and reuse of descriptors

The connections of one loop with what they share: the slots of the `FdEventGroup`
(`net/fd_event_group.cc`), one for each descriptor number, the loop, and the descriptors the
kernel has open.  A connection keeps its slot when it is cleared, and the kernel gives the
number out again, so a cleared connection and a later one work on the same slot.

* `ConnOp`: the operations on a connection, its queued callbacks among them.
* `run_cleared`: on a cleared connection each of them but `setState` returns at once.
* `Sockets.Inv`: an open connection has its descriptor open and was never closed; a cleared
  one was closed once.
* `teardown_isolated`: **whatever comes after `clear`, an operation on the cleared connection
  changes no slot, nothing on the loop and no other connection, and closes nothing.**
-/

namespace KaiRPC

variable {W R D : Type}

inductive ConnOp (W R D : Type)
  | onRead (results : List ReadResult)
  | onWrite (results : List WriteResult) (grant : Bool)
  /-- A turn of the loop of `excute`. -/
  | handle (message : TinyPBProtocol)
  | reply (messages : List TinyPBProtocol) (grant : Bool)
  | listenRead (grant : Bool)
  | listenWrite (grant : Bool)
  | shutdown
  /-- Also the error callback. -/
  | clear
  /-- `~TcpConnection`. -/
  | destroy
  | pushSendMessage (message : TinyPBProtocol) (done : W)
  | pushReadMessage (msg_id : Bytes) (done : R)
  | removeReadMessage (msg_id : Bytes)
  | setDisconnectCallback (callback : Option D)
  | setState (state : TcpState)

namespace ConnOp

/-- The endpoint behind an operation, and the disconnect callback it ran. -/
def run (e : Endpoint W R D) : ConnOp W R D → Option (Endpoint W R D × Option D)
  | .onRead results => (e.onRead results).map fun r => (r.endpoint, r.disconnect)
  | .onWrite results grant => (e.onWrite results grant).map fun r => (r.endpoint, r.disconnect)
  | .handle message => some ((e.handle message).1, none)
  | .reply messages grant => (e.reply messages grant).map fun e => (e, none)
  | .listenRead grant => some (e.listenRead grant, none)
  | .listenWrite grant => some (e.listenWrite grant, none)
  | .shutdown => some (e.shutdown, none)
  | .clear | .destroy => some e.clear
  | .pushSendMessage message done =>
      some ({ e with conn := e.conn.pushSendMessage message done }, none)
  | .pushReadMessage msg_id done =>
      some ({ e with conn := e.conn.pushReadMessage msg_id done }, none)
  | .removeReadMessage msg_id => some ({ e with conn := e.conn.removeReadMessage msg_id }, none)
  | .setDisconnectCallback callback =>
      some ({ e with conn := e.conn.setDisconnectCallback callback }, none)
  | .setState state => some ({ e with conn := e.conn.setState state }, none)

def IsSetState : ConnOp W R D → Prop
  | .setState _ => True
  | _ => False

end ConnOp

/-! ### An operation on one connection -/

namespace Endpoint

/-- The state and the descriptor of the connection are as they were. -/
def SameFd (e e' : Endpoint W R D) : Prop :=
  e'.conn.m_state = e.conn.m_state ∧ e'.conn.m_fd = e.conn.m_fd

theorem SameFd.isCleared {e e' : Endpoint W R D} (h : e.SameFd e') (hc : e.conn.IsCleared) :
    e'.conn.IsCleared := ⟨h.1.trans hc.1, h.2.trans_lt hc.2⟩

theorem handle_sameFd (e : Endpoint W R D) (message : TinyPBProtocol) :
    e.SameFd (e.handle message).1 := by
  unfold handle TcpConnection.takeReadDone
  split
  · exact ⟨rfl, rfl⟩
  · dsimp only
    split <;> exact ⟨rfl, rfl⟩

theorem listen_sameFd (e : Endpoint W R D) (t : TriggerEvent) (c : Callback) (grant : Bool) :
    e.SameFd (e.listen t c grant) := by
  rw [SameFd, listen_conn]
  exact ⟨rfl, rfl⟩

theorem pushReadMessage_sameFd (e : Endpoint W R D) (msg_id : Bytes) (done : R) :
    e.SameFd { e with conn := e.conn.pushReadMessage msg_id done } := by
  unfold SameFd TcpConnection.pushReadMessage
  split <;> exact ⟨rfl, rfl⟩

theorem listen_of_cleared {e : Endpoint W R D} (h : e.conn.IsCleared) (t : TriggerEvent)
    (c : Callback) (grant : Bool) : e.listen t c grant = e := by
  rw [listen, if_pos (Or.inl h.1)]

theorem reply_of_cleared {e e' : Endpoint W R D} {messages : List TinyPBProtocol} {grant : Bool}
    (h : e.conn.IsCleared) (hr : e.reply messages grant = some e') : ∃ out, e' = e.withOut out := by
  obtain ⟨out, -, rfl⟩ := Option.map_eq_some_iff.mp hr
  exact ⟨out, listen_of_cleared (e := e.withOut out) h _ _ grant⟩

theorem reply_sameFd {e e' : Endpoint W R D} {messages : List TinyPBProtocol} {grant : Bool}
    (hr : e.reply messages grant = some e') : e.SameFd e' := by
  obtain ⟨out, -, rfl⟩ := Option.map_eq_some_iff.mp hr
  exact listen_sameFd (e.withOut out) _ _ grant

theorem writeLoop_fd (rs : List WriteResult) : ∀ e : Endpoint W R D,
    (e.SameFd (writeLoop rs e).endpoint ∧ (writeLoop rs e).disconnect = none) ∨
      ((writeLoop rs e).endpoint.conn.IsCleared ∧ (writeLoop rs e).is_write_all = false) := by
  induction rs with
  | nil =>
    intro e
    unfold writeLoop
    dsimp only
    split <;> exact Or.inl ⟨⟨rfl, rfl⟩, rfl⟩
  | cons r rs ih =>
    intro e
    unfold writeLoop
    dsimp only
    split
    · exact Or.inl ⟨⟨rfl, rfl⟩, rfl⟩
    · cases r with
      | EAGAIN => exact Or.inl ⟨⟨rfl, rfl⟩, rfl⟩
      | EINTR => exact ih e
      | error => exact Or.inr ⟨clear_isCleared e, rfl⟩
      | count n =>
        dsimp only
        split
        · exact ih _
        · exact Or.inl ⟨⟨rfl, rfl⟩, rfl⟩

theorem onWrite_fd {e : Endpoint W R D} {results : List WriteResult} {grant : Bool}
    {r : WriteCall W R D} (h : e.onWrite results grant = some r) :
    (e.SameFd r.endpoint ∧ r.disconnect = none) ∨ r.endpoint.conn.IsCleared := by
  rw [onWrite] at h
  split at h
  · cases h
    exact Or.inl ⟨⟨rfl, rfl⟩, rfl⟩
  · obtain ⟨e₁, hq, rfl⟩ := Option.map_eq_some_iff.mp h
    have hsame : e.SameFd e₁ := by
      rw [encodeQueue] at hq
      split at hq
      · obtain ⟨out, -, rfl⟩ := Option.map_eq_some_iff.mp hq
        exact ⟨rfl, rfl⟩
      · cases hq
        exact ⟨rfl, rfl⟩
    rw [afterWrite]
    obtain ⟨⟨hst, hfd⟩, hd⟩ | ⟨hc, hall⟩ := writeLoop_fd results e₁
    · refine Or.inl ?_
      split
      · refine ⟨?_, hd⟩
        dsimp only [drained]
        split
        · exact ⟨hst.trans hsame.1, hfd.trans hsame.2⟩
        · exact ⟨hst.trans hsame.1, hfd.trans hsame.2⟩
      · exact ⟨⟨hst.trans hsame.1, hfd.trans hsame.2⟩, hd⟩
    · refine Or.inr ?_
      rw [hall, if_neg (by simp)]
      exact hc

theorem onRead_fd {e : Endpoint W R D} {results : List ReadResult} {r : ReadCall W R D}
    (h : e.onRead results = some r) :
    (e.SameFd r.endpoint ∧ r.disconnect = none) ∨ r.endpoint.conn.IsCleared := by
  rw [onRead] at h
  split at h
  · cases h
    exact Or.inl ⟨⟨rfl, rfl⟩, rfl⟩
  · obtain ⟨x, -, h⟩ := Option.bind_eq_some_iff.mp h
    dsimp only at h
    split at h
    · cases h
      exact Or.inr (clear_isCleared _)
    · obtain ⟨y, -, rfl⟩ := Option.map_eq_some_iff.mp h
      exact Or.inl ⟨⟨rfl, rfl⟩, rfl⟩

end Endpoint

namespace ConnOp

/-- **On a cleared connection every operation but `setState` returns at once**: the slot and the
loop are as they were, no callback runs, and the connection stays cleared. -/
theorem run_cleared {e : Endpoint W R D} {op : ConnOp W R D} {r : Endpoint W R D × Option D}
    (hc : e.conn.IsCleared) (hop : ¬ op.IsSetState) (h : op.run e = some r) :
    r.1.m_fd_event = e.m_fd_event ∧ r.1.m_event_loop = e.m_event_loop ∧ e.SameFd r.1 ∧
      r.2 = none := by
  have husable := Endpoint.isCleared_not_usable hc
  cases op with
  | onRead results =>
    obtain ⟨x, hx, rfl⟩ := Option.map_eq_some_iff.mp h
    rw [Endpoint.onRead, if_pos husable] at hx
    cases hx
    exact ⟨rfl, rfl, ⟨rfl, rfl⟩, rfl⟩
  | onWrite results grant =>
    obtain ⟨x, hx, rfl⟩ := Option.map_eq_some_iff.mp h
    rw [Endpoint.onWrite, if_pos husable] at hx
    cases hx
    exact ⟨rfl, rfl, ⟨rfl, rfl⟩, rfl⟩
  | handle message =>
    cases h
    exact ⟨e.handle_fd_event message, e.handle_loop message, e.handle_sameFd message, rfl⟩
  | reply messages grant =>
    obtain ⟨x, hx, rfl⟩ := Option.map_eq_some_iff.mp h
    obtain ⟨out, rfl⟩ := Endpoint.reply_of_cleared hc hx
    exact ⟨rfl, rfl, ⟨rfl, rfl⟩, rfl⟩
  | listenRead grant =>
    cases h
    rw [Endpoint.listenRead, Endpoint.listen_of_cleared hc]
    exact ⟨rfl, rfl, ⟨rfl, rfl⟩, rfl⟩
  | listenWrite grant =>
    cases h
    rw [Endpoint.listenWrite, Endpoint.listen_of_cleared hc]
    exact ⟨rfl, rfl, ⟨rfl, rfl⟩, rfl⟩
  | shutdown =>
    cases h
    rw [Endpoint.shutdown, if_pos (Or.inl hc.1)]
    exact ⟨rfl, rfl, ⟨rfl, rfl⟩, rfl⟩
  | clear =>
    cases h
    rw [Endpoint.clear, if_pos hc]
    exact ⟨rfl, rfl, ⟨rfl, rfl⟩, rfl⟩
  | destroy =>
    cases h
    rw [Endpoint.clear, if_pos hc]
    exact ⟨rfl, rfl, ⟨rfl, rfl⟩, rfl⟩
  | pushReadMessage msg_id done =>
    cases h
    exact ⟨rfl, rfl, e.pushReadMessage_sameFd msg_id done, rfl⟩
  | pushSendMessage message done => cases h; exact ⟨rfl, rfl, ⟨rfl, rfl⟩, rfl⟩
  | removeReadMessage msg_id => cases h; exact ⟨rfl, rfl, ⟨rfl, rfl⟩, rfl⟩
  | setDisconnectCallback callback => cases h; exact ⟨rfl, rfl, ⟨rfl, rfl⟩, rfl⟩
  | setState state => exact absurd trivial hop

/-- On any connection an operation keeps the descriptor and runs no disconnect callback, or
clears the connection. -/
theorem run_fd {e : Endpoint W R D} {op : ConnOp W R D} {r : Endpoint W R D × Option D}
    (h : op.run e = some r) :
    (r.1.conn.m_fd = e.conn.m_fd ∧ r.2 = none) ∨ r.1.conn.IsCleared := by
  cases op with
  | onRead results =>
    obtain ⟨x, hx, rfl⟩ := Option.map_eq_some_iff.mp h
    exact (Endpoint.onRead_fd hx).imp_left fun hs => ⟨hs.1.2, hs.2⟩
  | onWrite results grant =>
    obtain ⟨x, hx, rfl⟩ := Option.map_eq_some_iff.mp h
    exact (Endpoint.onWrite_fd hx).imp_left fun hs => ⟨hs.1.2, hs.2⟩
  | handle message =>
    cases h
    exact Or.inl ⟨(e.handle_sameFd message).2, rfl⟩
  | reply messages grant =>
    obtain ⟨x, hx, rfl⟩ := Option.map_eq_some_iff.mp h
    exact Or.inl ⟨(Endpoint.reply_sameFd hx).2, rfl⟩
  | listenRead grant =>
    cases h
    exact Or.inl ⟨(e.listen_sameFd _ _ grant).2, rfl⟩
  | listenWrite grant =>
    cases h
    exact Or.inl ⟨(e.listen_sameFd _ _ grant).2, rfl⟩
  | shutdown =>
    cases h
    refine Or.inl ⟨?_, rfl⟩
    rw [Endpoint.shutdown]
    split <;> rfl
  | clear =>
    cases h
    exact Or.inr (Endpoint.clear_isCleared e)
  | destroy =>
    cases h
    exact Or.inr (Endpoint.clear_isCleared e)
  | pushReadMessage msg_id done =>
    cases h
    exact Or.inl ⟨(e.pushReadMessage_sameFd msg_id done).2, rfl⟩
  | pushSendMessage message done => cases h; exact Or.inl ⟨rfl, rfl⟩
  | removeReadMessage msg_id => cases h; exact Or.inl ⟨rfl, rfl⟩
  | setDisconnectCallback callback => cases h; exact Or.inl ⟨rfl, rfl⟩
  | setState state => cases h; exact Or.inl ⟨rfl, rfl⟩

end ConnOp

/-! ### All connections of a loop -/

/-- A connection with the number of its slot, how often the kernel closed its descriptor and how
often its disconnect callback ran. -/
structure Held (W R D : Type) where
  conn : TcpConnection W R D
  slot : Int
  closes : Nat := 0
  disconnects : Nat := 0

/-- `opened` is the kernel's side: whose descriptor a number stands for. -/
structure Sockets (W R D : Type) where
  m_fd_group : Int → FdEvent
  loop : Eventloop
  opened : Int → Option Nat := fun _ => none
  conns : List (Held W R D) := []

inductive SocketsOp (W R D : Type)
  | construct (fd buffer_size : Nat) (type : TcpConnectionType)
  | act (i : Nat) (op : ConnOp W R D)
  /-- What anyone else does with the slots and the loop. -/
  | other (m_fd_group : Int → FdEvent) (loop : Eventloop)

namespace Sockets

def endpoint (w : Sockets W R D) (h : Held W R D) : Endpoint W R D :=
  ⟨h.conn, w.m_fd_group h.slot, w.loop⟩

/-- `close(fd)` closes the descriptor the number stands for, whoever calls it. -/
def close (w : Sockets W R D) (fd : Int) : Sockets W R D :=
  match w.opened fd with
  | none => w
  | some j => { w with
      opened := Function.update w.opened fd none
      conns := w.conns.modify j fun h => { h with closes := h.closes + 1 } }

/-- The `i`-th connection after an operation.  Its `m_fd` only goes to `-1` in `clear`, which
closes what it was. -/
def settle (w : Sockets W R D) (i : Nat) (h : Held W R D) (r : Endpoint W R D × Option D) :
    Sockets W R D :=
  let w' : Sockets W R D := { w with
    m_fd_group := Function.update w.m_fd_group h.slot r.1.m_fd_event
    loop := r.1.m_event_loop
    conns := w.conns.set i { h with
      conn := r.1.conn
      disconnects := if r.2.isSome then h.disconnects + 1 else h.disconnects } }
  if 0 ≤ h.conn.m_fd ∧ r.1.conn.m_fd < 0 then w'.close h.conn.m_fd else w'

/-- The kernel gives out a number that is not open. -/
def step (w : Sockets W R D) : SocketsOp W R D → Option (Sockets W R D)
  | .construct fd buffer_size type =>
      if w.opened fd = none then
        some { w with
          opened := Function.update w.opened fd (some w.conns.length)
          conns := w.conns ++ [{
            conn := TcpConnection.new w.conns.length fd buffer_size type, slot := fd }] }
      else none
  | .act i op =>
      match w.conns[i]? with
      | some h => (op.run (w.endpoint h)).map (w.settle i h)
      | none => none
  | .other m_fd_group loop => some { w with m_fd_group, loop }

/-- The step is no `setState` on a cleared connection. -/
def SparesCleared (w : Sockets W R D) : SocketsOp W R D → Prop
  | .act i (.setState _) => ∀ h ∈ w.conns[i]?, ¬ h.conn.IsCleared
  | _ => True

instance (w : Sockets W R D) (op : SocketsOp W R D) : Decidable (w.SparesCleared op) :=
  match op with
  | .act i (.setState _) => inferInstanceAs (Decidable (∀ h ∈ w.conns[i]?, ¬ h.conn.IsCleared))
  | .act _ (.onRead _) | .act _ (.onWrite ..) | .act _ (.handle _) | .act _ (.reply ..)
  | .act _ (.listenRead _) | .act _ (.listenWrite _) | .act _ .shutdown | .act _ .clear
  | .act _ .destroy | .act _ (.pushSendMessage ..) | .act _ (.pushReadMessage ..)
  | .act _ (.removeReadMessage _) | .act _ (.setDisconnectCallback _) | .construct ..
  | .other .. => instDecidableTrue

/-- The runs of the loop thread. -/
def Runs (w : Sockets W R D) (ops : List (SocketsOp W R D)) (w' : Sockets W R D) : Prop :=
  Run (fun w op w' => SparesCleared w op ∧ step w op = some w') w ops w'

/-! ### Open or closed once -/

/-- Connection `i` is open under its number, or cleared and closed once. -/
def Good (opened : Int → Option Nat) (i : Nat) (h : Held W R D) : Prop :=
  (0 ≤ h.conn.m_fd ∧ opened h.conn.m_fd = some i ∧ h.closes = 0 ∧ h.disconnects = 0) ∨
    (h.conn.IsCleared ∧ h.closes = 1 ∧ h.disconnects ≤ 1)

def Inv (w : Sockets W R D) : Prop := ∀ i h, w.conns[i]? = some h → Good w.opened i h

variable {w w' : Sockets W R D} {i : Nat} {h : Held W R D}

theorem act_eq {op : ConnOp W R D} (hs : w.step (.act i op) = some w') : ∃ h r,
    w.conns[i]? = some h ∧ op.run (w.endpoint h) = some r ∧ w' = w.settle i h r := by
  dsimp only [step] at hs
  split at hs
  · rename_i h hi
    obtain ⟨r, hr, rfl⟩ := Option.map_eq_some_iff.mp hs
    exact ⟨h, r, hi, hr, rfl⟩
  · cases hs

theorem settle_closed {r : Endpoint W R D × Option D} (hfd : 0 ≤ h.conn.m_fd)
    (hc : r.1.conn.IsCleared) (hopen : w.opened h.conn.m_fd = some i) :
    (w.settle i h r).opened = Function.update w.opened h.conn.m_fd none ∧
      (w.settle i h r).conns = w.conns.set i { h with
        conn := r.1.conn
        closes := h.closes + 1
        disconnects := if r.2.isSome then h.disconnects + 1 else h.disconnects } := by
  dsimp only [settle]
  rw [if_pos ⟨hfd, hc.2⟩, close]
  dsimp only
  rw [hopen]
  refine ⟨rfl, List.ext_getElem? fun k => ?_⟩
  dsimp only
  rw [List.getElem?_modify, List.getElem?_set, List.getElem?_set]
  by_cases hk : i = k
  · rw [if_pos hk, if_pos hk]
    split <;> simp
  · simp [hk]

theorem settle_kept {r : Endpoint W R D × Option D}
    (hfd : ¬ (0 ≤ h.conn.m_fd ∧ r.1.conn.m_fd < 0)) :
    (w.settle i h r).opened = w.opened ∧ (w.settle i h r).conns = w.conns.set i { h with
      conn := r.1.conn
      disconnects := if r.2.isSome then h.disconnects + 1 else h.disconnects } := by
  dsimp only [settle]
  rw [if_neg hfd]
  exact ⟨rfl, rfl⟩

theorem act_inv {op : ConnOp W R D} (hinv : w.Inv)
    (hspare : w.SparesCleared (.act i op)) (hs : w.step (.act i op) = some w') : w'.Inv := by
  obtain ⟨h, r, hi, hr, rfl⟩ := act_eq hs
  have hlt := (List.getElem?_eq_some_iff.mp hi).1
  -- The other connections only depend on what is open under their numbers.
  have hset : ∀ {opened v}, (∀ j h', j ≠ i → w.conns[j]? = some h' → Good opened j h') →
      Good opened i v → ∀ j h', (w.conns.set i v)[j]? = some h' → Good opened j h' := by
    intro opened v hothers hv j h' hj
    by_cases hne : j = i
    · subst hne
      rw [List.getElem?_set_self hlt] at hj
      cases hj
      exact hv
    · rw [List.getElem?_set_ne (Ne.symm hne)] at hj
      exact hothers j h' hne hj
  obtain ⟨hfd, hopen, hcloses, hdisc⟩ | ⟨hc, hcloses, hdisc⟩ := hinv i h hi
  · obtain ⟨hkeep, hnone⟩ | hcleared := ConnOp.run_fd hr
    · have hkept : ¬ (0 ≤ h.conn.m_fd ∧ r.1.conn.m_fd < 0) := by
        rw [hkeep]
        exact fun hneg => absurd hneg.2 (not_lt.mpr hfd)
      obtain ⟨hopened, hconns⟩ := settle_kept (w := w) (i := i) hkept
      rw [Inv, hopened, hconns]
      refine hset (fun j h' _ hj => hinv j h' hj) (Or.inl ⟨hkeep ▸ hfd, hkeep ▸ hopen, hcloses, ?_⟩)
      rw [hnone]
      exact hdisc
    · obtain ⟨hopened, hconns⟩ := settle_closed hfd hcleared hopen
      rw [Inv, hopened, hconns]
      refine hset (fun j h' hne hj => ?_) (Or.inr ⟨hcleared, by rw [hcloses], ?_⟩)
      · -- Another open connection is open under another number.
        obtain ⟨hfd', hopen', hrest⟩ | hc' := hinv j h' hj
        · have hdiff : h'.conn.m_fd ≠ h.conn.m_fd := by
            intro he
            rw [he, hopen] at hopen'
            exact hne (Option.some.inj hopen').symm
          exact Or.inl ⟨hfd', by rw [Function.update_of_ne hdiff]; exact hopen', hrest⟩
        · exact Or.inr hc'
      · rw [hdisc]
        split <;> simp
  · have hop : ¬ op.IsSetState := by
      intro hset'
      cases op with
      | setState state => exact hspare h hi hc
      | _ => exact hset'
    obtain ⟨-, -, hsame, hnone⟩ := ConnOp.run_cleared (e := w.endpoint h) hc hop hr
    obtain ⟨hopened, hconns⟩ := settle_kept (w := w) (i := i) (h := h) (r := r)
      fun hneg => absurd hneg.1 (not_le.mpr hc.2)
    rw [Inv, hopened, hconns]
    refine hset (fun j h' _ hj => hinv j h' hj) (Or.inr ⟨hsame.isCleared hc, hcloses, ?_⟩)
    rw [hnone]
    exact hdisc

theorem construct_inv {fd buffer_size : Nat} {type : TcpConnectionType} (hinv : w.Inv)
    (hs : w.step (.construct fd buffer_size type) = some w') : w'.Inv := by
  obtain ⟨hfree, hs⟩ := Option.ite_none_right_eq_some.mp hs
  cases hs
  intro j h' hj
  by_cases hlt : j < w.conns.length
  · rw [List.getElem?_append_left hlt] at hj
    obtain ⟨hfd, hopen, hrest⟩ | hc := hinv j h' hj
    · have hne : h'.conn.m_fd ≠ fd := by
        intro he
        rw [he, hfree] at hopen
        cases hopen
      exact Or.inl ⟨hfd, by dsimp only; rw [Function.update_of_ne hne]; exact hopen, hrest⟩
    · exact Or.inr hc
  · rw [List.getElem?_append_right (by omega), List.getElem?_singleton,
      Option.ite_none_right_eq_some] at hj
    obtain ⟨hz, hj⟩ := hj
    obtain rfl : j = w.conns.length := by omega
    cases hj
    exact Or.inl ⟨Int.natCast_nonneg fd, Function.update_self _ _ _, rfl, rfl⟩

theorem step_inv {op : SocketsOp W R D} (hinv : w.Inv)
    (hs : w.SparesCleared op ∧ w.step op = some w') : w'.Inv := by
  cases op with
  | construct fd buffer_size type => exact construct_inv hinv hs.2
  | act i op => exact act_inv hinv hs.1 hs.2
  | other m_fd_group loop =>
    obtain ⟨-, hs⟩ := hs
    cases hs
    exact hinv

/-! ### A cleared connection -/

/-- Nothing but the connection itself is changed by an operation on it other than `setState`:
no slot, nothing on the loop, no open descriptor, no other connection. -/
def Isolated (w : Sockets W R D) (i : Nat) : Prop :=
  ∀ op w', ¬ ConnOp.IsSetState op → w.step (.act i op) = some w' →
    w'.m_fd_group = w.m_fd_group ∧ w'.loop = w.loop ∧ w'.opened = w.opened ∧
      ∀ j, j ≠ i → w'.conns[j]? = w.conns[j]?

theorem settle_cleared {r : Endpoint W R D × Option D} (hc : h.conn.IsCleared) :
    (w.settle i h r).opened = w.opened ∧ (w.settle i h r).conns = w.conns.set i { h with
      conn := r.1.conn
      disconnects := if r.2.isSome then h.disconnects + 1 else h.disconnects } :=
  settle_kept fun hneg => absurd hneg.1 (not_le.mpr hc.2)

theorem isolated_of_cleared (hi : w.conns[i]? = some h) (hc : h.conn.IsCleared) :
    w.Isolated i := by
  intro op w' hop hs
  obtain ⟨h₀, r, hi₀, hr, rfl⟩ := act_eq hs
  cases hi.symm.trans hi₀
  obtain ⟨hev, hloop, -, -⟩ := ConnOp.run_cleared (e := w.endpoint h) hc hop hr
  obtain ⟨hopened, hconns⟩ := settle_cleared (w := w) (i := i) (r := r) hc
  refine ⟨?_, ?_, hopened, fun j hne => ?_⟩
  · dsimp only [settle]
    rw [if_neg fun hneg => absurd hneg.1 (not_le.mpr hc.2), hev]
    exact Function.update_eq_self _ _
  · dsimp only [settle]
    rw [if_neg fun hneg => absurd hneg.1 (not_le.mpr hc.2), hloop]
    rfl
  · rw [hconns, List.getElem?_set_ne (Ne.symm hne)]

/-- Connection `i` is there and cleared. -/
def ClearedAt (i : Nat) (w : Sockets W R D) : Prop := ∃ h, w.conns[i]? = some h ∧ h.conn.IsCleared

theorem act_cleared {j : Nat} {op : ConnOp W R D} (hinv : w.Inv) (hcl : w.ClearedAt i)
    (hspare : w.SparesCleared (.act j op)) (hs : w.step (.act j op) = some w') :
    w'.ClearedAt i := by
  obtain ⟨h, hi, hc⟩ := hcl
  obtain ⟨h₁, r, hj, hr, rfl⟩ := act_eq hs
  by_cases hne : j = i
  · subst hne
    cases hi.symm.trans hj
    have hop : ¬ op.IsSetState := by
      intro hset
      cases op with
      | setState state => exact hspare h hi hc
      | _ => exact hset
    obtain ⟨-, -, hsame, -⟩ := ConnOp.run_cleared (e := w.endpoint h) hc hop hr
    rw [ClearedAt, (settle_cleared hc).2]
    exact ⟨_, List.getElem?_set_self (List.getElem?_eq_some_iff.mp hi).1, hsame.isCleared hc⟩
  · -- What another connection closes is its own descriptor.
    have hset : ∃ v, (w.settle j h₁ r).conns = w.conns.set j v := by
      obtain ⟨hfd, hopen, -⟩ | ⟨hc₁, -⟩ := hinv j h₁ hj
      · obtain ⟨hkeep, -⟩ | hcleared := ConnOp.run_fd hr
        · exact ⟨_, (settle_kept fun hneg => absurd (hkeep ▸ hneg.2) (not_lt.mpr hfd)).2⟩
        · exact ⟨_, (settle_closed hfd hcleared hopen).2⟩
      · exact ⟨_, (settle_cleared hc₁).2⟩
    obtain ⟨v, hv⟩ := hset
    rw [ClearedAt, hv]
    exact ⟨h, (List.getElem?_set_ne hne).trans hi, hc⟩

theorem step_cleared {op : SocketsOp W R D} (h : w.Inv ∧ w.ClearedAt i)
    (hs : w.SparesCleared op ∧ w.step op = some w') : w'.Inv ∧ w'.ClearedAt i := by
  refine ⟨step_inv h.1 hs, ?_⟩
  obtain ⟨hinv, hcl⟩ := h
  obtain ⟨hspare, hs⟩ := hs
  cases op with
  | construct fd buffer_size type =>
    obtain ⟨-, hs⟩ := Option.ite_none_right_eq_some.mp hs
    cases hs
    obtain ⟨h, hi, hc⟩ := hcl
    refine ⟨h, ?_, hc⟩
    dsimp only
    rw [List.getElem?_append_left (List.getElem?_eq_some_iff.mp hi).1]
    exact hi
  | act j op => exact act_cleared hinv hcl hspare hs
  | other m_fd_group loop =>
    cases hs
    exact hcl

end Sockets

open Sockets

/-- **Teardown isolation.**  Once a connection is cleared, in every state that follows, with
connections constructed on its number or not: it is still cleared, its descriptor was closed
once and its disconnect callback ran at most once, and no operation on it but `setState` changes
a slot, the loop, an open descriptor or another connection. -/
theorem teardown_isolated {m_fd_group : Int → FdEvent} {loop : Eventloop}
    {ops ops' : List (SocketsOp W R D)} {w w' : Sockets W R D}
    (hrun : Runs { m_fd_group, loop } ops w) {i : Nat} {h : Held W R D}
    (hi : w.conns[i]? = some h) (hc : h.conn.IsCleared) (hrun' : w.Runs ops' w') :
    ∃ h', w'.conns[i]? = some h' ∧ h'.conn.IsCleared ∧ h'.closes = 1 ∧ h'.disconnects ≤ 1 ∧
      w'.Isolated i := by
  have hstart : ({ m_fd_group, loop } : Sockets W R D).Inv := by
    intro j h' hj
    cases hj
  have hinv : w.Inv := Run.invariant (I := Inv) step_inv hrun hstart
  obtain ⟨hinv', h', hi', hc'⟩ := Run.invariant (I := fun w => w.Inv ∧ w.ClearedAt i) step_cleared
    hrun' ⟨hinv, h, hi, hc⟩
  obtain ⟨hfd, -⟩ | ⟨-, hcloses, hdisc⟩ := hinv' i h' hi'
  · exact absurd hc'.2 (not_lt.mpr hfd)
  · exact ⟨h', hi', hc', hcloses, hdisc, isolated_of_cleared hi' hc'⟩

/-- A connection on descriptor `7` is cleared, another is constructed on it and listens; the
first one's callbacks come after that. -/
theorem teardown_isolated_reused :
    ∃ (w : Sockets Unit Unit Unit) (a b : Held Unit Unit Unit),
      w.conns[0]? = some a ∧ w.conns[1]? = some b ∧ a.slot = b.slot ∧ w.opened 7 = some 1 ∧
      a.conn.IsCleared ∧ a.closes = 1 ∧ a.disconnects ≤ 1 ∧ w.Isolated 0 := by
  obtain ⟨w₁, hw₁, h⟩ := (Option.any_eq_true _ _).mp (by decide +kernel :
    (List.foldlM (Run.guarded SparesCleared step)
      ({ m_fd_group := fun fd => { m_fd := fd }, loop := {} } : Sockets Unit Unit Unit)
      [.construct 7 4 .TcpConnectionByServer, .act 0 (.setState .Connected),
        .act 0 (.setDisconnectCallback (some ())), .act 0 (.listenRead true), .act 0 .clear]).any
      (fun w₁ => (w₁.conns[0]?).any (fun a => a.conn.IsCleared) ∧
        (List.foldlM (Run.guarded SparesCleared step) w₁
          [.construct 7 4 .TcpConnectionByServer, .act 1 (.setState .Connected),
            .act 1 (.listenRead true), .act 0 (.onRead []), .act 0 .clear]).any
          (fun w => (w.conns[0]?).map Held.slot = (w.conns[1]?).map Held.slot ∧
            (w.conns[1]?).isSome ∧ w.opened 7 = some 1)) = true)
  obtain ⟨h₁, h₂⟩ := of_decide_eq_true h
  obtain ⟨a₁, ha₁, hc₁⟩ := (Option.any_eq_true _ _).mp h₁
  obtain ⟨w, hw, h⟩ := (Option.any_eq_true _ _).mp h₂
  obtain ⟨hslot, hb, hopened⟩ := of_decide_eq_true h
  obtain ⟨b, hb⟩ := Option.isSome_iff_exists.mp hb
  obtain ⟨a, ha, hrest⟩ := teardown_isolated (Run.of_guarded hw₁) ha₁ (of_decide_eq_true hc₁)
    (Run.of_guarded hw)
  rw [ha, hb] at hslot
  exact ⟨w, a, b, ha, hb, Option.some.inj hslot, hopened, hrest⟩

end KaiRPC
