import KaiRPC.Tcp.Fifo

/-!
# The capacity of a TcpBuffer

A vector of `net/tcp/tcp_buffer.cc` never shrinks, and it grows from the write
index, which counts bytes already consumed.  What keeps it proportional to the
load is `adjustBuffer`: consumed bytes never fill a third of it.

* `Load`: a buffer with the largest number of readable bytes it has held.
* `Compact`: `m_read_index` is 0 or below a third of the vector.
* `Proportional`: the vector is at most the initial one or three times that load.
* `capacity_proportional`: **both hold after every operation of every run**.
-/

open Word

namespace KaiRPC

namespace TcpBuffer

/-- `m_read_index` is 0 or strictly below `m_buffer.size() / 3`. -/
def Compact (b : TcpBuffer) : Prop :=
  b.m_read_index = 0 ∨ b.m_read_index < (b.m_buffer.length / 3 : Nat)

/-- The operations of a connection: the four calls, and the resize of `TcpConnection::onRead`
to twice the size of a vector that is full.  No sum leaves the `int` range. -/
def Serves (b : TcpBuffer) : BufferOp → Prop
  | .writeToBuffer buf => b.WriteFits buf.length
  | .readFromBuffer _ _ => True
  | .moveReadIndex size => -2147483648 ≤ size ∧ b.m_read_index + size < 2147483648
  | .moveWriteIndex stored _ => (stored.length : Int) ≤ b.writeAble
  | .adjustBuffer => True
  | .resizeBuffer new_size =>
    b.writeAble = 0 ∧ new_size = 2 * b.m_buffer.length ∧ new_size < 2147483648

instance (b : TcpBuffer) : ∀ op : BufferOp, Decidable (b.Serves op)
  | .writeToBuffer buf => inferInstanceAs (Decidable (b.WriteFits buf.length))
  | .readFromBuffer _ _ => inferInstanceAs (Decidable True)
  | .moveReadIndex _ => inferInstanceAs (Decidable (_ ∧ _))
  | .moveWriteIndex stored _ => inferInstanceAs (Decidable ((stored.length : Int) ≤ b.writeAble))
  | .adjustBuffer => inferInstanceAs (Decidable True)
  | .resizeBuffer _ => inferInstanceAs (Decidable (_ ∧ _ ∧ _))

/-- A buffer under watch: `peak` is the largest `readAble()` so far. -/
structure Load where
  buffer : TcpBuffer
  peak : Int
deriving DecidableEq, Repr

namespace Load

def start (size : Nat) : Load := ⟨new size, 0⟩

/-- One operation of a run. -/
def Step (l : Load) (op : BufferOp) (l' : Load) : Prop :=
  l.buffer.Serves op ∧ (∃ re, l.buffer.exec op = some (l'.buffer, re)) ∧
    l'.peak = max l.peak l'.buffer.readAble

/-- The vector is at most the initial one, or three times the largest load so far. -/
def Proportional (size : Nat) (l : Load) : Prop :=
  (l.buffer.m_buffer.length : Int) ≤ max (size : Int) (3 * l.peak)

end Load

/-! ### Consumed space -/

theorem adjustBuffer_compact {b : TcpBuffer} : b.adjustBuffer.Compact := by
  unfold adjustBuffer
  split
  · rename_i hlt
    exact Or.inr hlt
  · exact Or.inl rfl

theorem moveReadIndex_compact {b : TcpBuffer} (hc : b.Compact) (size : Int) :
    (b.moveReadIndex size).Compact := by
  unfold moveReadIndex
  dsimp only
  split
  · exact hc
  · exact adjustBuffer_compact

theorem moveWriteIndex_compact {b : TcpBuffer} (hc : b.Compact) (size : Int) :
    (b.moveWriteIndex size).Compact := by
  unfold moveWriteIndex
  split
  · exact hc
  · exact adjustBuffer_compact

/-! ### Capacity

The two moves keep the vector; what is left is growth. -/

theorem moveReadIndex_length {b : TcpBuffer} (h : b.WF) {size : Int}
    (hf : -2147483648 ≤ size ∧ b.m_read_index + size < 2147483648) :
    (b.moveReadIndex size).m_buffer.length = b.m_buffer.length := by
  obtain ⟨h1, h2, h3, h4⟩ := id h
  rw [moveReadIndex, wrap32_of_range (by omega) hf.2]
  split
  · rfl
  · rename_i hin
    have hmoved : TcpBuffer.WF { b with m_read_index := b.m_read_index + size } :=
      ⟨by show 0 ≤ b.m_read_index + size; omega,
        by show b.m_read_index + size ≤ b.m_write_index; omega, h3, h4⟩
    exact (adjustBuffer_spec hmoved).2.2

theorem moveWriteIndex_length {b : TcpBuffer} (h : b.WF) (size : Int) :
    (b.moveWriteIndex size).m_buffer.length = b.m_buffer.length := by
  obtain ⟨h1, h2, h3, h4⟩ := id h
  have hwa := h.writeAble_eq
  rw [moveWriteIndex]
  split
  · rfl
  · rename_i hin
    rw [wrap32_of_range (by omega) (by omega)]
    have hmoved : TcpBuffer.WF { b with m_write_index := b.m_write_index + size } :=
      ⟨h1, by show b.m_read_index ≤ b.m_write_index + size; omega,
        by show b.m_write_index + size ≤ b.m_buffer.length; omega, h4⟩
    exact (adjustBuffer_spec hmoved).2.2

theorem readFromBuffer_neg {b : TcpBuffer} (h : b.WF) {re : Bytes} {size : Int} (hs : size < 0)
    {r : TcpBuffer × Bytes} (hx : b.readFromBuffer re size = some r) : r.1 = b := by
  have h0 := h.readAble_nonneg
  rw [readFromBuffer] at hx
  split at hx
  · cases hx
    rfl
  · simp only [if_pos (show b.readAble > size by omega)] at hx
    rw [copyOut, if_neg (by omega), Option.map_none] at hx
    cases hx

/-- A vector that grows for `size` more bytes ends below two and a quarter times the load: less
than a third of it was consumed space. -/
theorem newSize_le {b : TcpBuffer} (h : b.WF) (hc : b.Compact) {n : Nat} (hf : b.WriteFits n)
    (hbig : (n : Int) > b.writeAble) :
    b.readAble + n ≤ newSize b.m_write_index n ∧
      4 * newSize b.m_write_index n ≤ 9 * (b.readAble + n) := by
  obtain ⟨h1, h2, h3, h4⟩ := id h
  have hra := h.readAble_eq
  have hwa := h.writeAble_eq
  have hcap : (b.m_write_index + n) * 3 / 2 < 2147483648 := hf.resolve_left (by omega)
  rw [newSize_eq (by omega) (by omega) hcap]
  rcases hc with hc | hc <;> omega

theorem writeToBuffer_capacity {b b' : TcpBuffer} (h : b.WF) (hc : b.Compact) {buf : Bytes}
    (hf : b.WriteFits buf.length) (hw : b.writeToBuffer buf = some b') :
    b'.Compact ∧ (b'.m_buffer.length = b.m_buffer.length ∨
      (b'.m_buffer.length : Int) ≤ 3 * b'.readAble) := by
  obtain ⟨hwf', hcont⟩ := writeToBuffer_some h hw
  have hload : b'.readAble = b.readAble + buf.length := by
    rw [← hwf'.content_length, hcont, List.length_append, ← h.content_length]
    omega
  simp only [writeToBuffer, Option.bind_eq_some_iff, Option.map_eq_some_iff] at hw
  obtain ⟨b₁, hgrow, v, hv, rfl⟩ := hw
  unfold grow at hgrow
  split at hgrow
  · rename_i hbig
    obtain ⟨hroom, hbound⟩ := newSize_le h hc hf hbig
    rw [resizeBuffer_eq h (by omega)] at hgrow
    cases hgrow
    have hl := h.content_length
    have hfits : b.content.length ≤ (newSize b.m_write_index buf.length).toNat := by omega
    have hlen := (copyIn_content (rebased_wf hfits
      (by have := newSize_lt b.m_write_index buf.length; omega)) hv).2.2
    rw [rebased_length hfits] at hlen
    refine ⟨Or.inl rfl, Or.inr ?_⟩
    rw [hload]
    show (v.length : Int) ≤ _
    omega
  · cases hgrow
    have hlen := (copyIn_content h hv).2.2
    refine ⟨?_, Or.inl hlen⟩
    show b.m_read_index = 0 ∨ b.m_read_index < (v.length / 3 : Nat)
    rw [hlen]
    exact hc

/-- Doubling a full vector: more than two thirds of it were readable. -/
theorem double_capacity {b b' : TcpBuffer} (h : b.WF) (hc : b.Compact) (hfull : b.writeAble = 0)
    (hlt : 2 * (b.m_buffer.length : Int) < 2147483648)
    (hr : b.resizeBuffer (2 * b.m_buffer.length) = some b') :
    b'.WF ∧ b'.Compact ∧ (b'.m_buffer.length : Int) ≤ 3 * b'.readAble := by
  obtain ⟨h1, h2, h3, h4⟩ := id h
  have hra := h.readAble_eq
  have hwa := h.writeAble_eq
  have hl := h.content_length
  rw [resizeBuffer_eq h (by omega)] at hr
  cases hr
  have hfits : b.content.length ≤ (2 * (b.m_buffer.length : Int)).toNat := by omega
  have hwf' := rebased_wf hfits (by omega)
  refine ⟨hwf', Or.inl rfl, ?_⟩
  rw [rebased_length hfits, ← hwf'.content_length, rebased_content]
  rcases hc with hc | hc <;> omega

/-! ### One operation -/

/-- **An operation keeps the vector or leaves it at most three times the load.** -/
theorem exec_capacity {b b' : TcpBuffer} (h : b.WF) (hc : b.Compact) {op : BufferOp} {re : Bytes}
    (hs : b.Serves op) (hx : b.exec op = some (b', re)) :
    b'.WF ∧ b'.Compact ∧ (b'.m_buffer.length = b.m_buffer.length ∨
      (b'.m_buffer.length : Int) ≤ 3 * b'.readAble) := by
  cases op with
  | writeToBuffer buf =>
    obtain ⟨b₁, hw, hb⟩ := Option.map_eq_some_iff.mp hx
    cases hb
    exact ⟨(writeToBuffer_some h hw).1, writeToBuffer_capacity h hc hs hw⟩
  | readFromBuffer re size =>
    by_cases hneg : size < 0
    · obtain rfl := readFromBuffer_neg h hneg hx
      exact ⟨h, hc, Or.inl rfl⟩
    · have h0 := h.readAble_nonneg
      obtain ⟨h1, h2, h3, h4⟩ := id h
      have hra := h.readAble_eq
      have hmove : -2147483648 ≤ min size b.readAble ∧
          b.m_read_index + min size b.readAble < 2147483648 := by omega
      simp only [exec, readFromBuffer_eq h (by omega : 0 ≤ size), Option.some.injEq] at hx
      split at hx
      · cases hx
        exact ⟨h, hc, Or.inl rfl⟩
      · cases hx
        exact ⟨(moveReadIndex_content h hmove).1, moveReadIndex_compact hc _,
          Or.inl (moveReadIndex_length h hmove)⟩
  | moveReadIndex size =>
    cases hx
    exact ⟨(moveReadIndex_content h hs).1, moveReadIndex_compact hc _,
      Or.inl (moveReadIndex_length h hs)⟩
  | moveWriteIndex stored size =>
    obtain ⟨b₁, hst, hb⟩ := Option.map_eq_some_iff.mp hx
    cases hb
    obtain ⟨v, hv, rfl⟩ := Option.map_eq_some_iff.mp hst
    have hlen : v.length = b.m_buffer.length := (copyIn_content h hv).2.2
    have hwf : TcpBuffer.WF { b with m_buffer := v } :=
      ⟨h.read_nonneg, h.read_le, by rw [hlen]; exact h.write_le, by rw [hlen]; exact h.size_lt⟩
    have hcomp : Compact { b with m_buffer := v } := by
      show b.m_read_index = 0 ∨ b.m_read_index < (v.length / 3 : Nat)
      rw [hlen]
      exact hc
    refine ⟨?_, moveWriteIndex_compact hcomp _,
      Or.inl ((moveWriteIndex_length hwf size).trans hlen)⟩
    by_cases hin : 0 ≤ size ∧ size ≤ writeAble { b with m_buffer := v }
    · exact (moveWriteIndex_content hwf hin.1 hin.2).1
    · rw [moveWriteIndex, if_pos (by omega)]
      exact hwf
  | adjustBuffer =>
    cases hx
    obtain ⟨a1, -, a3⟩ := adjustBuffer_spec h
    exact ⟨a1, adjustBuffer_compact, Or.inl a3⟩
  | resizeBuffer new_size =>
    obtain ⟨hfull, rfl, hlt⟩ := hs
    obtain ⟨b₁, hr, hb⟩ := Option.map_eq_some_iff.mp hx
    cases hb
    obtain ⟨a1, a2, a3⟩ := double_capacity h hc hfull hlt hr
    exact ⟨a1, a2, Or.inr a3⟩

/-! ### Whole runs -/

/-- **Consumed space is reclaimed and the capacity stays proportional to the load**: after every
operation of every run. -/
theorem capacity_proportional {size : Nat} (hsize : size < 2147483648) {ops : List BufferOp}
    {l : Load} (hrun : Run Load.Step (.start size) ops l) :
    l.buffer.Compact ∧ l.Proportional size := by
  have hinv : l.buffer.WF ∧ l.buffer.Compact ∧ l.Proportional size := by
    refine hrun.invariant (I := fun l => l.buffer.WF ∧ l.buffer.Compact ∧ l.Proportional size)
      ?_ ⟨new_wf hsize, Or.inl rfl, ?_⟩
    · rintro l op l' ⟨hwf, hc, hp⟩ ⟨hs, ⟨re, hx⟩, hpeak⟩
      obtain ⟨hwf', hc', hgrow⟩ := exec_capacity hwf hc hs hx
      refine ⟨hwf', hc', ?_⟩
      unfold Load.Proportional at hp ⊢
      rcases hgrow with hgrow | hgrow <;> omega
    · show ((List.replicate size (0 : UInt8)).length : Int) ≤ max (size : Int) (3 * 0)
      rw [List.length_replicate]
      omega
  exact hinv.2

/-- A vector of two bytes grows to four for a write of three, is filled by a claim of one and
doubled, and a read of one leaves the read index below a third of it. -/
theorem capacity_proportional_four_operations :
    ∃ ops l, Run Load.Step (.start 2) ops l ∧ l.peak = 4 ∧ l.buffer.m_buffer.length = 8 ∧
      l.buffer.m_read_index = 1 ∧ l.buffer.Compact ∧ l.Proportional 2 :=
  have h1 : Load.Step (.start 2) (.writeToBuffer [1, 2, 3]) ⟨⟨0, 3, [1, 2, 3, 0]⟩, 3⟩ :=
    ⟨by decide, ⟨[], by decide⟩, by decide⟩
  have h2 : Load.Step ⟨⟨0, 3, [1, 2, 3, 0]⟩, 3⟩ (.moveWriteIndex [4] 1)
      ⟨⟨0, 4, [1, 2, 3, 4]⟩, 4⟩ := ⟨by decide, ⟨[], by decide⟩, by decide⟩
  have h3 : Load.Step ⟨⟨0, 4, [1, 2, 3, 4]⟩, 4⟩ (.resizeBuffer 8)
      ⟨⟨0, 4, [1, 2, 3, 4, 0, 0, 0, 0]⟩, 4⟩ := ⟨by decide, ⟨[], by decide⟩, by decide⟩
  have h4 : Load.Step ⟨⟨0, 4, [1, 2, 3, 4, 0, 0, 0, 0]⟩, 4⟩ (.readFromBuffer [] 1)
      ⟨⟨1, 4, [1, 2, 3, 4, 0, 0, 0, 0]⟩, 4⟩ := ⟨by decide, ⟨[1], by decide⟩, by decide⟩
  have hrun := Run.cons h1 (.cons h2 (.cons h3 (.cons h4 (.nil _))))
  ⟨_, _, hrun, rfl, rfl, rfl, capacity_proportional (by decide) hrun⟩

end TcpBuffer

end KaiRPC
