import KaiRPC.Tcp.Fifo

/-!
# TcpBuffer at the limits of `int`

`net/tcp/tcp_buffer.cc` checks its three index computations in three ways:
`moveReadIndex` adds and then compares, `moveWriteIndex` compares with the
difference `writeAble()`, and `writeToBuffer` goes through `1.5 * (...)`.  With
32-bit wrap-around the three differ at the end of the `int` range.

* `Exact`: the call does what it says, with no sum that left the range.
* `Within`: the read index has no carry out of `int`, the new capacity is an `int`.
* `exact_iff_within`: **a call is exact precisely within**, on every buffer whose
  indices are in order.
* `limits_iff`: along every run of calls within the limits the indices stay in
  order, and it is the next call alone that decides.
-/

open Word

namespace KaiRPC

namespace TcpBuffer

/-- `0 <= m_read_index <= m_write_index <= m_buffer.size()`. -/
def Ordered (b : TcpBuffer) : Prop :=
  0 ≤ b.m_read_index ∧ b.m_read_index ≤ b.m_write_index ∧ b.m_write_index ≤ b.m_buffer.length

instance (b : TcpBuffer) : Decidable b.Ordered := inferInstanceAs (Decidable (_ ∧ _ ∧ _))

theorem WF.ordered {b : TcpBuffer} (h : b.WF) : b.Ordered :=
  ⟨h.read_nonneg, h.read_le, h.write_le⟩

/-- The calls in question: the two moves take any `int`, a write any size whose sum with the
write index is an `int`; the other operations are called as their callers call them. -/
def Admissible (b : TcpBuffer) : BufferOp → Prop
  | .writeToBuffer buf => b.m_write_index + buf.length < 2147483648
  | .readFromBuffer _ size => 0 ≤ size
  | .moveReadIndex size => IsInt size
  | .moveWriteIndex stored size => IsInt size ∧ (stored.length : Int) ≤ b.writeAble
  | .adjustBuffer => True
  | .resizeBuffer new_size => b.readAble ≤ new_size ∧ new_size < 2147483648

/-- **What a call should do**: a move advances by `size` exactly if there is room for it and
changes nothing otherwise; the capacity a write computes is an `int` that holds its bytes. -/
def Exact (b : TcpBuffer) : BufferOp → Prop
  | .moveReadIndex size =>
    b.moveReadIndex size = if 0 ≤ size ∧ size ≤ b.readAble then
      adjustBuffer { b with m_read_index := b.m_read_index + size } else b
  | .moveWriteIndex _ size =>
    b.moveWriteIndex size = if 0 ≤ size ∧ size ≤ b.writeAble then
      adjustBuffer { b with m_write_index := b.m_write_index + size } else b
  | .writeToBuffer buf =>
    b.writeAble < buf.length → IsInt ((b.m_write_index + buf.length) * 3 / 2) ∧
      b.m_write_index + buf.length ≤ newSize b.m_write_index buf.length
  | _ => True

/-- The limits: `m_read_index + size` is an `int`, and a write that grows the vector ends at
most two thirds of the way to `INT_MAX`. -/
def Within (b : TcpBuffer) : BufferOp → Prop
  | .moveReadIndex size => b.m_read_index + size ≤ 2147483647
  | .writeToBuffer buf =>
    (buf.length : Int) ≤ b.writeAble ∨ b.m_write_index + buf.length ≤ 1431655765
  | _ => True

instance (b : TcpBuffer) : ∀ op : BufferOp, Decidable (b.Admissible op)
  | .writeToBuffer _ => inferInstanceAs (Decidable (_ < _))
  | .readFromBuffer _ size => inferInstanceAs (Decidable (0 ≤ size))
  | .moveReadIndex size => inferInstanceAs (Decidable (IsInt size))
  | .moveWriteIndex _ _ => inferInstanceAs (Decidable (_ ∧ _))
  | .adjustBuffer => inferInstanceAs (Decidable True)
  | .resizeBuffer _ => inferInstanceAs (Decidable (_ ∧ _))

instance (b : TcpBuffer) : ∀ op : BufferOp, Decidable (b.Within op)
  | .writeToBuffer _ => inferInstanceAs (Decidable (_ ∨ _))
  | .readFromBuffer _ _ => inferInstanceAs (Decidable True)
  | .moveReadIndex _ => inferInstanceAs (Decidable (_ ≤ _))
  | .moveWriteIndex _ _ => inferInstanceAs (Decidable True)
  | .adjustBuffer => inferInstanceAs (Decidable True)
  | .resizeBuffer _ => inferInstanceAs (Decidable True)

/-! ### One call -/

/-- A carry out of `int` makes the read index negative, and a negative index passes the check. -/
theorem exact_moveReadIndex_iff {b : TcpBuffer} (h : b.WF) {size : Int} (hs : IsInt size) :
    b.Exact (.moveReadIndex size) ↔ b.m_read_index + size ≤ 2147483647 := by
  obtain ⟨h1, h2, h3, h4⟩ := id h
  obtain ⟨hlo, hhi⟩ := hs
  have hra := h.readAble_eq
  rw [Exact]
  constructor
  · intro he
    by_contra hover
    have hj : wrap32 (b.m_read_index + size) = b.m_read_index + size - 4294967296 := by
      unfold wrap32
      omega
    rw [if_neg (by omega), moveReadIndex, hj, if_neg (by omega), adjustBuffer,
      if_pos (by show b.m_read_index + size - 4294967296 < _; omega)] at he
    have hread : b.m_read_index + size - 4294967296 = b.m_read_index :=
      congrArg TcpBuffer.m_read_index he
    omega
  · intro hle
    have hj : wrap32 (b.m_read_index + size) = b.m_read_index + size :=
      wrap32_of_range (by omega) (by omega)
    rw [moveReadIndex, hj]
    by_cases hin : 0 ≤ size ∧ size ≤ b.readAble
    · rw [if_pos hin, if_neg (by omega)]
    · rw [if_neg hin, if_pos (by omega)]

/-- Comparing with the difference never leaves the range. -/
theorem exact_moveWriteIndex {b : TcpBuffer} (h : b.WF) (stored : Bytes) (size : Int) :
    b.Exact (.moveWriteIndex stored size) := by
  obtain ⟨h1, h2, h3, h4⟩ := id h
  have hwa := h.writeAble_eq
  rw [Exact, moveWriteIndex]
  by_cases hin : 0 ≤ size ∧ size ≤ b.writeAble
  · have hj : wrap32 (b.m_write_index + size) = b.m_write_index + size :=
      wrap32_of_range (by omega) (by omega)
    rw [if_pos hin, if_neg (by omega), hj]
  · rw [if_neg hin, if_pos (by omega)]

theorem exact_writeToBuffer_iff {b : TcpBuffer} (h : b.WF) {buf : Bytes} :
    b.Exact (.writeToBuffer buf) ↔
      (buf.length : Int) ≤ b.writeAble ∨ b.m_write_index + buf.length ≤ 1431655765 := by
  obtain ⟨h1, h2, h3, h4⟩ := id h
  rw [Exact]
  constructor
  · intro he
    by_cases hfit : (buf.length : Int) ≤ b.writeAble
    · exact Or.inl hfit
    · obtain ⟨⟨-, hcap⟩, -⟩ := he (by omega)
      exact Or.inr (by omega)
  · intro hw hbig
    have hcap : (b.m_write_index + buf.length) * 3 / 2 < 2147483648 := by omega
    have hns := newSize_eq (by omega) (by omega) hcap
    exact ⟨⟨by omega, hcap⟩, by omega⟩

/-- **A call is exact precisely within the limits.** -/
theorem exact_iff_within {b : TcpBuffer} (h : b.WF) {op : BufferOp} (ha : b.Admissible op) :
    b.Exact op ↔ b.Within op := by
  cases op with
  | moveReadIndex size => exact exact_moveReadIndex_iff h ha
  | moveWriteIndex stored size => exact iff_of_true (exact_moveWriteIndex h stored size) trivial
  | writeToBuffer buf => exact exact_writeToBuffer_iff h
  | readFromBuffer re size => exact Iff.rfl
  | adjustBuffer => exact Iff.rfl
  | resizeBuffer new_size => exact Iff.rfl

theorem fits_of_within {b : TcpBuffer} {op : BufferOp} (ha : b.Admissible op)
    (hw : b.Within op) : b.Fits op := by
  cases op with
  | moveReadIndex size =>
    have hle : b.m_read_index + size ≤ 2147483647 := hw
    exact ⟨ha.1, by omega⟩
  | moveWriteIndex stored size => exact ha.2
  | writeToBuffer buf => exact hw.imp id fun hle => by omega
  | readFromBuffer re size => exact ha
  | adjustBuffer => trivial
  | resizeBuffer new_size => exact ha

/-! ### Whole runs -/

/-- One call of a run, admissible and within the limits. -/
def CallWithin (b : TcpBuffer) (op : BufferOp) (b' : TcpBuffer) : Prop :=
  b.Admissible op ∧ b.Within op ∧ ∃ re, b.exec op = some (b', re)

theorem callWithin_wf {b b' : TcpBuffer} {op : BufferOp} (h : b.WF) (hc : b.CallWithin op b') :
    b'.WF := by
  obtain ⟨ha, hw, re, hx⟩ := hc
  exact (exec_refines (e := ⟨op, b.writeAble, re⟩) h ⟨fits_of_within ha hw, rfl, hx⟩).1

/-- **Index arithmetic is exact within the limits and only there.**  After any run of calls
within the limits the indices are in order; the next call, whatever it is, is exact if and only
if it is within the limits itself, and then it returns and keeps the indices in order. -/
theorem limits_iff {size : Nat} (hsize : size < 2147483648) {ops : List BufferOp} {b : TcpBuffer}
    (hrun : Run CallWithin (new size) ops b) :
    b.Ordered ∧ ∀ op, b.Admissible op → (b.Exact op ↔ b.Within op) ∧
      (b.Within op → ∃ b', b.CallWithin op b' ∧ b'.Ordered) := by
  have hwf : b.WF := hrun.invariant (I := WF) callWithin_wf (new_wf hsize)
  refine ⟨hwf.ordered, fun op ha => ⟨exact_iff_within hwf ha, fun hw => ?_⟩⟩
  obtain ⟨b', re, hx⟩ := exec_isSome hwf (fits_of_within ha hw)
  have hc : b.CallWithin op b' := ⟨ha, hw, re, hx⟩
  exact ⟨b', hc, (callWithin_wf hwf hc).ordered⟩

/-- Three bytes written and one read: the next call reads one more. -/
theorem limits_iff_two_calls :
    ∃ ops b, Run CallWithin (new 6) ops b ∧ b.m_read_index = 1 ∧ b.Exact (.moveReadIndex 1) :=
  have h1 : (new 6).CallWithin (.writeToBuffer [1, 2, 3]) ⟨0, 3, [1, 2, 3, 0, 0, 0]⟩ :=
    ⟨by decide, by decide, [], by decide⟩
  have h2 : CallWithin ⟨0, 3, [1, 2, 3, 0, 0, 0]⟩ (.moveReadIndex 1) ⟨1, 3, [1, 2, 3, 0, 0, 0]⟩ :=
    ⟨by decide, by decide, [], by decide⟩
  have hrun := Run.cons h1 (.cons h2 (.nil _))
  ⟨_, _, hrun, rfl, (((limits_iff (by decide) hrun).2 _ (by decide)).1).mpr (by decide)⟩

/-- `moveReadIndex(INT_MAX)` at read index 1: the sum wraps to `INT_MIN`, the check lets it pass
and the read index is negative.  And a first write of 1431655766 bytes into an empty vector asks
for a capacity that is no `int`; what wraps around is negative. -/
theorem moveReadIndex_wraps :
    (∃ ops b, Run CallWithin (new 6) ops b ∧ b.Admissible (.moveReadIndex 2147483647) ∧
      b.readAble < 2147483647 ∧ (b.moveReadIndex 2147483647).m_read_index = -2147483648 ∧
      ¬ b.Exact (.moveReadIndex 2147483647) ∧ ¬ (b.moveReadIndex 2147483647).Ordered) ∧
    (new 0).Admissible (.writeToBuffer (List.replicate 1431655766 0)) ∧
      ¬ (new 0).Exact (.writeToBuffer (List.replicate 1431655766 0)) ∧
      newSize (new 0).m_write_index 1431655766 < 0 := by
  have h1 : (new 6).CallWithin (.writeToBuffer [1, 2, 3]) ⟨0, 3, [1, 2, 3, 0, 0, 0]⟩ :=
    ⟨by decide, by decide, [], by decide⟩
  have h2 : CallWithin ⟨0, 3, [1, 2, 3, 0, 0, 0]⟩ (.moveReadIndex 1) ⟨1, 3, [1, 2, 3, 0, 0, 0]⟩ :=
    ⟨by decide, by decide, [], by decide⟩
  have hread : ¬ Exact ⟨1, 3, [1, 2, 3, 0, 0, 0]⟩ (.moveReadIndex 2147483647) := by
    rw [Exact]
    decide
  refine ⟨⟨_, _, .cons h1 (.cons h2 (.nil _)), by decide, by decide, by decide, hread, by decide⟩,
    ?_, ?_, by decide⟩
  · rw [Admissible, List.length_replicate]
    decide
  · rw [exact_writeToBuffer_iff (new_wf (by decide)), List.length_replicate]
    decide

end TcpBuffer

end KaiRPC
