import KaiRPC.Tcp.Buffer
import KaiRPC.Lib.Run

/-!
# TcpBuffer as a byte FIFO

`net/tcp/tcp_buffer.cc` seen from its callers: a queue of bytes (`content`) that
is extended at one end and consumed at the other, whatever the vector below does.

* `readFromBuffer`: the last operation of the class.
* `BufferOp`, `exec`: one call on a buffer; `Fits` says that its sizes stay in the
  `int` range, `Does` is a call that fits, with what it returned.
* `Fifo`: what the call is for, on the queue of bytes alone.
* `exec_refines`: **one call does to the content what `Fifo` says**, and the
  indices stay in order.
* `buffer_refines_fifo`: **every run of a fresh buffer is a run of the queue**,
  and no call that fits gets stuck.
-/

open Word

namespace KaiRPC

namespace TcpBuffer

/-- `readFromBuffer(re, size)`: the vector `re` afterwards is the second component. -/
def readFromBuffer (b : TcpBuffer) (re : Bytes) (size : Int) : Option (TcpBuffer × Bytes) :=
  if b.readAble = 0 then some (b, re)
  else
    let read_size := if b.readAble > size then size else b.readAble
    -- a negative `read_size` is an exception of the vector constructor
    (copyOut b.m_buffer b.m_read_index read_size).map fun tmp =>
      (adjustBuffer { b with m_read_index := wrap32 (b.m_read_index + read_size) }, tmp)

/-! ### Calls -/

/-- One call of a member function.  Before `moveWriteIndex` the caller may have
stored bytes at the write index, as `TcpConnection::readFromSocket` does. -/
inductive BufferOp where
  | writeToBuffer (buf : Bytes)
  | readFromBuffer (re : Bytes) (size : Int)
  | moveReadIndex (size : Int)
  | moveWriteIndex (stored : Bytes) (size : Int)
  | adjustBuffer
  | resizeBuffer (new_size : Int)
deriving DecidableEq, Repr

/-- The buffer after a call, and the vector `re` of `readFromBuffer` (of no use to the others). -/
def exec (b : TcpBuffer) : BufferOp → Option (TcpBuffer × Bytes)
  | .writeToBuffer buf => (b.writeToBuffer buf).map fun b' => (b', [])
  | .readFromBuffer re size => b.readFromBuffer re size
  | .moveReadIndex size => some (b.moveReadIndex size, [])
  | .moveWriteIndex stored size => (b.store stored).map fun b₁ => (b₁.moveWriteIndex size, [])
  | .adjustBuffer => some (b.adjustBuffer, [])
  | .resizeBuffer new_size => (b.resizeBuffer new_size).map fun b' => (b', [])

/-- The sizes of a call do not leave the `int` range, and the caller keeps to its side: a
non-negative count to read, stored bytes that have room, no resize below the content. -/
def Fits (b : TcpBuffer) : BufferOp → Prop
  | .writeToBuffer buf => b.WriteFits buf.length
  | .readFromBuffer _ size => 0 ≤ size
  | .moveReadIndex size => -2147483648 ≤ size ∧ b.m_read_index + size < 2147483648
  | .moveWriteIndex stored _ => (stored.length : Int) ≤ b.writeAble
  | .adjustBuffer => True
  | .resizeBuffer new_size => b.readAble ≤ new_size ∧ new_size < 2147483648

instance (b : TcpBuffer) : ∀ op : BufferOp, Decidable (b.Fits op)
  | .writeToBuffer buf => inferInstanceAs (Decidable (b.WriteFits buf.length))
  | .readFromBuffer _ size => inferInstanceAs (Decidable (0 ≤ size))
  | .moveReadIndex _ => inferInstanceAs (Decidable (_ ∧ _))
  | .moveWriteIndex stored _ => inferInstanceAs (Decidable ((stored.length : Int) ≤ b.writeAble))
  | .adjustBuffer => inferInstanceAs (Decidable True)
  | .resizeBuffer _ => inferInstanceAs (Decidable (_ ∧ _))

/-- A call as its caller sees it: the room there was behind the write index, and what came back. -/
structure BufferEvent where
  op : BufferOp
  room : Int
  re : Bytes
deriving DecidableEq, Repr

/-- `b'` is the buffer after the call `e`. -/
def Does (b : TcpBuffer) (e : BufferEvent) (b' : TcpBuffer) : Prop :=
  b.Fits e.op ∧ e.room = b.writeAble ∧ b.exec e.op = some (b', e.re)

instance (b : TcpBuffer) (e : BufferEvent) (b' : TcpBuffer) : Decidable (b.Does e b') :=
  inferInstanceAs (Decidable (_ ∧ _ ∧ _))

/-! ### The queue -/

/-- **The byte FIFO**: what each call does to the queue of readable bytes. -/
def Fifo (c : Bytes) (e : BufferEvent) (c' : Bytes) : Prop :=
  match e.op with
  | .writeToBuffer buf => c' = c ++ buf
  | .readFromBuffer re size =>
    c' = c.drop size.toNat ∧ e.re = if c = [] then re else c.take size.toNat
  | .moveReadIndex size => c' = if 0 ≤ size ∧ size ≤ c.length then c.drop size.toNat else c
  | .moveWriteIndex stored size =>
    if 0 ≤ size ∧ size ≤ e.room then
      -- a claim beyond the stored bytes takes what the vector held there
      ∃ stale : Bytes, size ≤ (stored ++ stale).length ∧
        c' = c ++ (stored ++ stale).take size.toNat
    else c' = c
  | .adjustBuffer => c' = c
  | .resizeBuffer _ => c' = c

/-! ### One call -/

/-- A buffer that wants fewer bytes than it holds drops them, one that wants more drops all. -/
theorem readFromBuffer_eq {b : TcpBuffer} (h : b.WF) {re : Bytes} {size : Int} (hs : 0 ≤ size) :
    b.readFromBuffer re size = some (if b.content = [] then (b, re)
      else (b.moveReadIndex (min size b.readAble), b.content.take size.toNat)) := by
  have hl := h.content_length
  have h0 := h.readAble_nonneg
  have hra := h.readAble_eq
  obtain ⟨h1, h2, h3, h4⟩ := id h
  by_cases he : b.content = []
  · rw [readFromBuffer, if_pos (h.content_eq_nil_iff.mp he), if_pos he]
  · rw [readFromBuffer, if_neg (fun e => he (h.content_eq_nil_iff.mpr e)), if_neg he]
    have hmin : (if b.readAble > size then size else b.readAble) = min size b.readAble := by
      split <;> omega
    have hj : wrap32 (b.m_read_index + min size b.readAble)
        = b.m_read_index + min size b.readAble := wrap32_of_range (by omega) (by omega)
    have htake : slice b.m_buffer b.m_read_index (min size b.readAble)
        = b.content.take size.toNat := by
      rw [content, slice, slice, List.take_take]
      congr 1
      omega
    simp only [hmin]
    rw [copyOut, if_pos ⟨h1, by omega, by omega⟩, Option.map_some, htake, moveReadIndex, hj,
      if_neg (by omega)]

theorem moveReadIndex_content {b : TcpBuffer} (h : b.WF) {size : Int}
    (hf : -2147483648 ≤ size ∧ b.m_read_index + size < 2147483648) :
    (b.moveReadIndex size).WF ∧ (b.moveReadIndex size).content
      = if 0 ≤ size ∧ size ≤ b.content.length then b.content.drop size.toNat else b.content := by
  have hl := h.content_length
  have hra := h.readAble_eq
  split
  · rename_i hin
    obtain ⟨n, rfl⟩ := Int.eq_ofNat_of_zero_le hin.1
    obtain ⟨a1, a2, -⟩ := moveReadIndex_spec h (n := n) (by omega)
    exact ⟨a1, a2⟩
  · rename_i hout
    have h1 := h.read_nonneg
    have hj : wrap32 (b.m_read_index + size) = b.m_read_index + size :=
      wrap32_of_range (by omega) hf.2
    rw [moveReadIndex, hj, if_pos (by omega)]
    exact ⟨h, rfl⟩

theorem moveWriteIndex_content {b : TcpBuffer} (h : b.WF) {size : Int} (h0 : 0 ≤ size)
    (hs : size ≤ b.writeAble) :
    (b.moveWriteIndex size).WF ∧
      (b.moveWriteIndex size).content = b.content ++ slice b.m_buffer b.m_write_index size := by
  obtain ⟨h1, h2, h3, h4⟩ := id h
  have hwa := h.writeAble_eq
  have hlen := slice_length (v := b.m_buffer) (i := b.m_write_index) (n := size)
    (by omega) h0 (by omega)
  have hn : (slice b.m_buffer b.m_write_index size).length = size.toNat := by omega
  -- the vector is what it would be had the caller just stored those bytes
  have hself : copyIn b.m_buffer b.m_write_index (slice b.m_buffer b.m_write_index size)
      = some b.m_buffer := by
    rw [copyIn, if_pos ⟨by omega, by omega⟩, hn, slice, ← List.drop_drop, List.append_assoc,
      List.take_append_drop, List.take_append_drop]
  obtain ⟨hwf, hc, -⟩ := copyIn_content h hself
  rw [hlen] at hwf hc
  have hj : wrap32 (b.m_write_index + size) = b.m_write_index + size :=
    wrap32_of_range (by omega) (by omega)
  rw [moveWriteIndex, if_neg (by omega)]
  simp only [hj]
  obtain ⟨a1, a2, -⟩ := adjustBuffer_spec hwf
  exact ⟨a1, a2.trans hc⟩

theorem store_spec {b : TcpBuffer} (h : b.WF) {stored : Bytes}
    (hfit : (stored.length : Int) ≤ b.writeAble) :
    ∃ b₁ stale, b.store stored = some b₁ ∧ b₁.WF ∧ b₁.content = b.content ∧
      b₁.writeAble = b.writeAble ∧ b₁.m_buffer.drop b₁.m_write_index.toNat = stored ++ stale ∧
      ((stored ++ stale).length : Int) = b.writeAble := by
  obtain ⟨h1, h2, h3, h4⟩ := id h
  have hwa := h.writeAble_eq
  obtain ⟨v, hv⟩ : ∃ v, v = b.m_buffer.take b.m_write_index.toNat ++ (stored ++
      b.m_buffer.drop (b.m_write_index.toNat + stored.length)) := ⟨_, rfl⟩
  have hin : copyIn b.m_buffer b.m_write_index stored = some v := by
    rw [copyIn, if_pos ⟨by omega, by omega⟩, hv, List.append_assoc]
  obtain ⟨-, -, hlen⟩ := copyIn_content h hin
  have htake : (b.m_buffer.take b.m_write_index.toNat).length = b.m_write_index.toNat := by
    rw [List.length_take]; omega
  have hwf : TcpBuffer.WF { b with m_buffer := v } :=
    ⟨h1, h2, by show b.m_write_index ≤ v.length; omega, by show v.length < 2147483648; omega⟩
  refine ⟨{ b with m_buffer := v }, b.m_buffer.drop (b.m_write_index.toNat + stored.length),
    by rw [store, hin, Option.map_some], hwf, ?_, ?_, ?_, ?_⟩
  · have hle : (b.m_write_index - b.m_read_index).toNat
        ≤ ((b.m_buffer.take b.m_write_index.toNat).drop b.m_read_index.toNat).length := by
      rw [List.length_drop, htake]; omega
    have hcount : (b.m_write_index - b.m_read_index).toNat
        = b.m_write_index.toNat - b.m_read_index.toNat := by omega
    simp only [content, slice]
    rw [hv, List.drop_append_of_le_length (by omega), List.take_append_of_le_length hle,
      List.drop_take, List.take_take, hcount, min_self]
  · rw [writeAble, writeAble, hlen]
  · show v.drop b.m_write_index.toNat = _
    rw [hv, List.drop_left' htake]
  · rw [List.length_append, List.length_drop]
    omega

/-- **One call refines the queue.** -/
theorem exec_refines {b b' : TcpBuffer} (h : b.WF) {e : BufferEvent} (hd : b.Does e b') :
    b'.WF ∧ Fifo b.content e b'.content := by
  obtain ⟨op, room, re'⟩ := e
  obtain ⟨hf, hroom, hx⟩ := hd
  have hl := h.content_length
  replace hroom : room = b.writeAble := hroom
  cases op with
  | writeToBuffer buf =>
    obtain ⟨b₁, hw, hb⟩ := Option.map_eq_some_iff.mp hx
    cases hb
    exact writeToBuffer_some h hw
  | readFromBuffer re size =>
    have hs : 0 ≤ size := hf
    simp only [exec, readFromBuffer_eq h hs, Option.some.injEq] at hx
    dsimp only [Fifo]
    by_cases he : b.content = []
    · rw [if_pos he, Prod.mk.injEq] at hx
      obtain ⟨rfl, rfl⟩ := hx
      exact ⟨h, by rw [he, List.drop_nil], by rw [if_pos he]⟩
    · rw [if_neg he, Prod.mk.injEq] at hx
      obtain ⟨rfl, rfl⟩ := hx
      have h0 := h.readAble_nonneg
      obtain ⟨n, hn⟩ := Int.eq_ofNat_of_zero_le (a := min size b.readAble) (by omega)
      obtain ⟨a1, a2, -⟩ := moveReadIndex_spec h (n := n) (by omega)
      rw [hn]
      refine ⟨a1, ?_, by rw [if_neg he]⟩
      rw [a2]
      by_cases hle : size ≤ b.readAble
      · congr 1; omega
      · rw [List.drop_eq_nil_of_le (by omega), List.drop_eq_nil_of_le (by omega)]
  | moveReadIndex size =>
    cases hx
    exact moveReadIndex_content h hf
  | moveWriteIndex stored size =>
    obtain ⟨b₁, stale, hs, hwf, hc, hwa, hdrop, hlen⟩ := store_spec h hf
    simp only [exec, hs, Option.map_some, Option.some.injEq, Prod.mk.injEq] at hx
    obtain ⟨rfl, -⟩ := hx
    dsimp only [Fifo]
    split
    · rename_i hin
      obtain ⟨a1, a2⟩ := moveWriteIndex_content hwf hin.1 (by omega)
      refine ⟨a1, stale, by omega, ?_⟩
      rw [a2, hc, slice, hdrop]
    · rw [moveWriteIndex, if_pos (by omega)]
      exact ⟨hwf, hc⟩
  | adjustBuffer =>
    cases hx
    obtain ⟨a1, a2, -⟩ := adjustBuffer_spec h
    exact ⟨a1, a2⟩
  | resizeBuffer new_size =>
    obtain ⟨hle, hlt⟩ := hf
    rw [exec, resizeBuffer_eq h hle, Option.map_some] at hx
    cases hx
    exact ⟨rebased_wf (by omega) (by omega), rebased_content _ _⟩

/-- **A call that fits returns.** -/
theorem exec_isSome {b : TcpBuffer} (h : b.WF) {op : BufferOp} (hf : b.Fits op) :
    ∃ b' re, b.exec op = some (b', re) := by
  cases op with
  | writeToBuffer buf =>
    obtain ⟨b', hw⟩ := writeToBuffer_fits h hf
    exact ⟨b', [], by rw [exec, hw, Option.map_some]⟩
  | readFromBuffer re size => exact ⟨_, _, readFromBuffer_eq h hf⟩
  | moveReadIndex size => exact ⟨_, _, rfl⟩
  | moveWriteIndex stored size =>
    obtain ⟨b₁, stale, hs, -⟩ := store_spec h hf
    exact ⟨_, [], by rw [exec, hs, Option.map_some]⟩
  | adjustBuffer => exact ⟨_, _, rfl⟩
  | resizeBuffer new_size => exact ⟨_, [], by rw [exec, resizeBuffer_eq h hf.1, Option.map_some]⟩

/-! ### Whole runs -/

/-- **The buffer refines a byte FIFO**: along every run of a fresh buffer the indices stay in
order, the content goes through exactly the states of the queue, and every call that fits
returns; a write index that has no room for the claim does not move at all. -/
theorem buffer_refines_fifo {size : Nat} (hsize : size < 2147483648) {es : List BufferEvent}
    {b : TcpBuffer} (hrun : Run Does (new size) es b) :
    (0 ≤ b.m_read_index ∧ b.m_read_index ≤ b.m_write_index ∧
        b.m_write_index ≤ b.m_buffer.length) ∧
      Run Fifo [] es b.content ∧
      (∀ op, b.Fits op → ∃ b' re, b.Does ⟨op, b.writeAble, re⟩ b' ∧
        Fifo b.content ⟨op, b.writeAble, re⟩ b'.content) ∧
      ∀ n, n < 0 ∨ b.writeAble < n → b.moveWriteIndex n = b := by
  have hnew : (new size).content = [] := by simp [content, slice, new]
  obtain ⟨hwf, hqueue⟩ := Run.simulation (f := content) (fun h hd => exec_refines h hd) hrun
    (new_wf hsize)
  rw [hnew] at hqueue
  refine ⟨⟨hwf.read_nonneg, hwf.read_le, hwf.write_le⟩, hqueue, ?_, ?_⟩
  · intro op hf
    obtain ⟨b', re, hx⟩ := exec_isSome hwf hf
    have hd : b.Does ⟨op, b.writeAble, re⟩ b' := ⟨hf, rfl, hx⟩
    exact ⟨b', re, hd, (exec_refines hwf hd).2⟩
  · intro n hn
    rw [moveWriteIndex, if_pos hn]

/-- A write that grows the vector, a claim of one stored byte and a read that compacts it. -/
theorem buffer_refines_fifo_three_calls :
    ∃ es b, Run Does (new 2) es b ∧ b.content = [3, 9] ∧ Run Fifo [] es b.content :=
  have h1 : (new 2).Does ⟨.writeToBuffer [1, 2, 3], 2, []⟩ ⟨0, 3, [1, 2, 3, 0]⟩ := by decide
  have h2 : Does ⟨0, 3, [1, 2, 3, 0]⟩ ⟨.moveWriteIndex [9] 1, 1, []⟩ ⟨0, 4, [1, 2, 3, 9]⟩ := by
    decide
  have h3 : Does ⟨0, 4, [1, 2, 3, 9]⟩ ⟨.readFromBuffer [] 2, 0, [1, 2]⟩ ⟨0, 2, [3, 9, 0, 0]⟩ := by
    decide
  have hrun := Run.cons h1 (.cons h2 (.cons h3 (.nil _)))
  ⟨_, _, hrun, by decide, (buffer_refines_fifo (by decide) hrun).2.1⟩

end TcpBuffer

end KaiRPC
