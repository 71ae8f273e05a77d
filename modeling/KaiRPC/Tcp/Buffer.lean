import KaiRPC.Lib.Word

/-!
# TcpBuffer

`net/tcp/tcp_buffer.cc`: a vector of bytes with a read index and a write index.
The readable bytes are those between the two (`content`).  Both indices are
`int`, so every sum and difference of the source is taken with `wrap32`.

An operation whose C++ text may leave the defined behaviour returns an `Option`:
`none` is an exception of the vector constructor (a negative size) or a copy
that runs past the end of a vector.

* `WF`: `0 ≤ m_read_index ≤ m_write_index ≤ m_buffer.size() < 2^31`.
* `writeToBuffer_some`: on a well-formed buffer, a write that returns has
  appended exactly its bytes; `writeToBuffer_fits` says when it returns.
* `moveReadIndex_spec`: a move inside the readable bytes drops them.
* `store_moveWriteIndex`: bytes stored at the write index and then claimed are
  appended.
* `Reachable`: the buffers the program can build, all of them well formed.
-/

open Word

namespace KaiRPC

/-- The bytes of a `std::string` or of a `std::vector<char>`. -/
abbrev Bytes := List UInt8

/-- The bytes of a string literal of the source. -/
def str (s : String) : Bytes := s.toList.map fun c => UInt8.ofNat c.toNat

structure TcpBuffer where
  m_read_index : Int
  m_write_index : Int
  m_buffer : Bytes
deriving DecidableEq, Repr

namespace TcpBuffer

/-- `TcpBuffer(int size)`. -/
def new (size : Nat) : TcpBuffer := ⟨0, 0, List.replicate size 0⟩

def readAble (b : TcpBuffer) : Int := wrap32 (b.m_write_index - b.m_read_index)

def writeAble (b : TcpBuffer) : Int := wrap32 (b.m_buffer.length - b.m_write_index)

def readIndex (b : TcpBuffer) : Int := b.m_read_index

def writeIndex (b : TcpBuffer) : Int := b.m_write_index

/-- The `count` bytes from `index` on. -/
def slice (v : Bytes) (index count : Int) : Bytes := (v.drop index.toNat).take count.toNat

/-- A `memcpy` of `count` bytes out of a vector. -/
def copyOut (v : Bytes) (index count : Int) : Option Bytes :=
  if 0 ≤ index ∧ 0 ≤ count ∧ index + count ≤ v.length then some (slice v index count) else none

/-- A `memcpy` of `bytes` into a vector. -/
def copyIn (v : Bytes) (index : Int) (bytes : Bytes) : Option Bytes :=
  if 0 ≤ index ∧ index + bytes.length ≤ v.length then
    some (v.take index.toNat ++ bytes ++ v.drop (index.toNat + bytes.length))
  else none

def resizeBuffer (b : TcpBuffer) (new_size : Int) : Option TcpBuffer :=
  if new_size < 0 then none
  else
    let count := min new_size b.readAble
    (copyOut b.m_buffer b.m_read_index count).map fun copied =>
      ⟨0, count, copied ++ List.replicate (new_size.toNat - copied.length) 0⟩

/-- `(int)(1.5 * (m_write_index + size))`. -/
def newSize (write_index size : Int) : Int := wrap32 ((wrap32 (write_index + size) * 3).tdiv 2)

/-- The growth at the head of `writeToBuffer`. -/
def grow (b : TcpBuffer) (size : Int) : Option TcpBuffer :=
  if size > b.writeAble then b.resizeBuffer (newSize b.m_write_index size) else some b

def writeToBuffer (b : TcpBuffer) (buf : Bytes) : Option TcpBuffer :=
  (b.grow buf.length).bind fun b =>
    (copyIn b.m_buffer b.m_write_index buf).map fun v =>
      ⟨b.m_read_index, wrap32 (b.m_write_index + buf.length), v⟩

def adjustBuffer (b : TcpBuffer) : TcpBuffer :=
  if b.m_read_index < (b.m_buffer.length / 3 : Nat) then b
  else
    let count := b.readAble
    let copied := if count > 0 then slice b.m_buffer b.m_read_index count else []
    ⟨0, count, copied ++ List.replicate (b.m_buffer.length - copied.length) 0⟩

def moveReadIndex (b : TcpBuffer) (size : Int) : TcpBuffer :=
  let j := wrap32 (b.m_read_index + size)
  if size < 0 ∨ j > b.m_write_index then b
  else adjustBuffer { b with m_read_index := j }

def moveWriteIndex (b : TcpBuffer) (size : Int) : TcpBuffer :=
  if size < 0 ∨ size > b.writeAble then b
  else adjustBuffer { b with m_write_index := wrap32 (b.m_write_index + size) }

/-- What `read(fd, &m_buffer[write_index], n)` does to the vector. -/
def store (b : TcpBuffer) (bytes : Bytes) : Option TcpBuffer :=
  (copyIn b.m_buffer b.m_write_index bytes).map fun v => { b with m_buffer := v }

/-! ### The content -/

/-- The readable bytes. -/
def content (b : TcpBuffer) : Bytes :=
  slice b.m_buffer b.m_read_index (b.m_write_index - b.m_read_index)

/-- The invariant of the two indices. -/
structure WF (b : TcpBuffer) : Prop where
  read_nonneg : 0 ≤ b.m_read_index
  read_le : b.m_read_index ≤ b.m_write_index
  write_le : b.m_write_index ≤ b.m_buffer.length
  size_lt : b.m_buffer.length < 2147483648

theorem slice_length {v : Bytes} {i n : Int} (hi : 0 ≤ i) (hn : 0 ≤ n) (h : i + n ≤ v.length) :
    ((slice v i n).length : Int) = n := by
  rw [slice, List.length_take, List.length_drop]
  omega

theorem slice_append_left {u v : Bytes} {n : Int} (hn : n = u.length) :
    slice (u ++ v) 0 n = u := by
  rw [slice, hn]
  simp

theorem WF.readAble_eq {b : TcpBuffer} (h : b.WF) :
    b.readAble = b.m_write_index - b.m_read_index := by
  obtain ⟨h1, h2, h3, h4⟩ := h
  exact wrap32_of_range (by omega) (by omega)

theorem WF.writeAble_eq {b : TcpBuffer} (h : b.WF) :
    b.writeAble = b.m_buffer.length - b.m_write_index := by
  obtain ⟨h1, h2, h3, h4⟩ := h
  exact wrap32_of_range (by omega) (by omega)

theorem WF.content_length {b : TcpBuffer} (h : b.WF) :
    (b.content.length : Int) = b.readAble := by
  obtain ⟨h1, h2, h3, h4⟩ := id h
  rw [h.readAble_eq, content, slice_length h1 (by omega) (by omega)]

theorem WF.content_length_index {b : TcpBuffer} (h : b.WF) :
    (b.content.length : Int) = b.m_write_index - b.m_read_index :=
  h.content_length.trans h.readAble_eq

theorem WF.readAble_nonneg {b : TcpBuffer} (h : b.WF) : 0 ≤ b.readAble := by
  rw [← h.content_length]; omega

theorem WF.content_eq_nil_iff {b : TcpBuffer} (h : b.WF) : b.content = [] ↔ b.readAble = 0 := by
  rw [← h.content_length, ← List.length_eq_zero_iff]
  omega

theorem new_wf {size : Nat} (h : size < 2147483648) : (new size).WF :=
  ⟨by simp [new], by simp [new], by simp [new], by simpa [new] using h⟩

/-! ### Rebasing

`resizeBuffer` and `adjustBuffer` both copy the readable bytes to the front of a
fresh vector. -/

/-- The bytes `c` at the front of a fresh vector of `size` bytes. -/
def rebased (c : Bytes) (size : Nat) : TcpBuffer :=
  ⟨0, c.length, c ++ List.replicate (size - c.length) 0⟩

theorem rebased_length {c : Bytes} {size : Nat} (h : c.length ≤ size) :
    (rebased c size).m_buffer.length = size := by
  simp only [rebased, List.length_append, List.length_replicate]
  omega

theorem rebased_wf {c : Bytes} {size : Nat} (h : c.length ≤ size) (hs : size < 2147483648) :
    (rebased c size).WF := by
  have hl := rebased_length h
  refine ⟨le_rfl, ?_, ?_, by omega⟩
  · show (0 : Int) ≤ c.length
    omega
  · show (c.length : Int) ≤ (rebased c size).m_buffer.length
    omega

@[simp] theorem rebased_content (c : Bytes) (size : Nat) : (rebased c size).content = c :=
  slice_append_left (by simp [rebased])

theorem WF.content_length_le {b : TcpBuffer} (h : b.WF) :
    b.content.length ≤ b.m_buffer.length := by
  have hl := h.content_length_index
  obtain ⟨h1, h2, h3, h4⟩ := id h
  omega

theorem adjustBuffer_eq {b : TcpBuffer} (h : b.WF) :
    b.adjustBuffer = b ∨ b.adjustBuffer = rebased b.content b.m_buffer.length := by
  unfold adjustBuffer
  split
  · exact Or.inl rfl
  · have hcopied : (if b.readAble > 0 then slice b.m_buffer b.m_read_index b.readAble else [])
        = b.content := by
      split
      · rw [content, h.readAble_eq]
      · exact (h.content_eq_nil_iff.mpr (by have := h.readAble_nonneg; omega)).symm
    rw [rebased, h.content_length]
    simp only [hcopied, or_true]

/-- **Compaction changes neither the content nor the capacity.** -/
theorem adjustBuffer_spec {b : TcpBuffer} (h : b.WF) :
    b.adjustBuffer.WF ∧ b.adjustBuffer.content = b.content ∧
      b.adjustBuffer.m_buffer.length = b.m_buffer.length := by
  rcases adjustBuffer_eq h with e | e
  · rw [e]
    exact ⟨h, rfl, rfl⟩
  · rw [e]
    exact ⟨rebased_wf h.content_length_le h.size_lt, rebased_content _ _,
      rebased_length h.content_length_le⟩

theorem resizeBuffer_eq {b : TcpBuffer} (h : b.WF) {n : Int} (hn : b.readAble ≤ n) :
    b.resizeBuffer n = some (rebased b.content n.toNat) := by
  have h0 := h.readAble_nonneg
  have hmin : min n b.readAble = b.readAble := min_eq_right hn
  obtain ⟨h1, h2, h3, h4⟩ := id h
  have hcopy : copyOut b.m_buffer b.m_read_index b.readAble = some b.content := by
    rw [copyOut, h.readAble_eq, if_pos ⟨h1, by omega, by omega⟩, content]
  rw [resizeBuffer, if_neg (by omega)]
  simp only [hmin, hcopy, Option.map_some]
  rw [rebased, h.content_length]

/-! ### Reading -/

/-- **A move inside the readable bytes drops exactly those bytes.** -/
theorem moveReadIndex_spec {b : TcpBuffer} (h : b.WF) {n : Nat} (hn : n ≤ b.content.length) :
    (b.moveReadIndex n).WF ∧ (b.moveReadIndex n).content = b.content.drop n ∧
      (b.moveReadIndex n).m_buffer.length = b.m_buffer.length := by
  have hl := h.content_length_index
  obtain ⟨h1, h2, h3, h4⟩ := id h
  have hj : wrap32 (b.m_read_index + n) = b.m_read_index + n :=
    wrap32_of_range (by omega) (by omega)
  have hmoved : TcpBuffer.WF { b with m_read_index := b.m_read_index + n } :=
    ⟨by show (0 : Int) ≤ b.m_read_index + n; omega,
      by show b.m_read_index + (n : Int) ≤ b.m_write_index; omega, h3, h4⟩
  have hc : TcpBuffer.content { b with m_read_index := b.m_read_index + n } = b.content.drop n := by
    simp only [content, slice, List.drop_take, List.drop_drop]
    congr 1
    · omega
    · congr 1; omega
  rw [moveReadIndex, hj, if_neg (by omega)]
  obtain ⟨a1, a2, a3⟩ := adjustBuffer_spec hmoved
  exact ⟨a1, a2.trans hc, a3⟩

/-! ### Writing -/

theorem copyIn_content {b : TcpBuffer} (h : b.WF) {bytes v : Bytes}
    (hv : copyIn b.m_buffer b.m_write_index bytes = some v) :
    TcpBuffer.WF ⟨b.m_read_index, b.m_write_index + bytes.length, v⟩ ∧
      TcpBuffer.content ⟨b.m_read_index, b.m_write_index + bytes.length, v⟩ = b.content ++ bytes ∧
      v.length = b.m_buffer.length := by
  obtain ⟨h1, h2, h3, h4⟩ := h
  obtain ⟨r, hr⟩ := Int.eq_ofNat_of_zero_le h1
  obtain ⟨w, hw⟩ := Int.eq_ofNat_of_zero_le (le_trans h1 h2)
  simp only [copyIn, Option.ite_none_right_eq_some, Option.some.injEq] at hv
  obtain ⟨⟨-, hfit⟩, rfl⟩ := hv
  rw [hw] at hfit h3
  have hlen : (b.m_buffer.take w ++ bytes ++ b.m_buffer.drop (w + bytes.length)).length
      = b.m_buffer.length := by
    simp only [List.length_append, List.length_take, List.length_drop]
    omega
  rw [hw, hr] at h2
  have hrw : r ≤ w := by omega
  refine ⟨⟨h1, ?_, ?_, ?_⟩, ?_, ?_⟩
  · show b.m_read_index ≤ b.m_write_index + bytes.length
    omega
  · show b.m_write_index + (bytes.length : Int) ≤ _
    rw [hw, Int.toNat_natCast, hlen]
    omega
  · show (_ : Nat) < 2147483648
    rw [hw, Int.toNat_natCast, hlen]
    exact h4
  · simp only [content, slice, hw, hr, Int.toNat_natCast]
    have e1 : ((w : Int) + bytes.length - r).toNat = (w - r) + bytes.length := by omega
    have e2 : ((w : Int) - r).toNat = w - r := by omega
    have hA : ((b.m_buffer.take w).drop r).length = w - r := by
      rw [List.length_drop, List.length_take]; omega
    rw [e1, e2, List.append_assoc, List.drop_append_of_le_length (by rw [List.length_take]; omega),
      List.take_append, hA, List.take_of_length_le (by omega), Nat.add_sub_cancel_left,
      List.take_left, List.drop_take]
  · rw [hw, Int.toNat_natCast]
    exact hlen

/-- A buffer that grew and could take `bytes` at its write index is the rebased one: cutting
the content short leaves no room behind it. -/
theorem resizeBuffer_copyIn {b b₁ : TcpBuffer} (h : b.WF) {n : Int} {bytes v : Bytes}
    (hne : bytes ≠ []) (hr : b.resizeBuffer n = some b₁)
    (hv : copyIn b₁.m_buffer b₁.m_write_index bytes = some v) :
    b.readAble ≤ n ∧ b₁ = rebased b.content n.toNat := by
  by_cases hn : b.readAble ≤ n
  · rw [resizeBuffer_eq h hn] at hr
    exact ⟨hn, (Option.some.inj hr).symm⟩
  · exfalso
    have hpos : 0 < bytes.length := List.length_pos_iff.mpr hne
    obtain ⟨h1, h2, h3, h4⟩ := id h
    have hra := h.readAble_eq
    simp only [resizeBuffer] at hr
    split at hr
    · cases hr
    · rw [min_eq_left (by omega), copyOut, if_pos ⟨h1, by omega, by omega⟩,
        Option.map_some] at hr
      cases hr
      have hs : ((slice b.m_buffer b.m_read_index n).length : Int) = n :=
        slice_length h1 (by omega) (by omega)
      simp only [copyIn, List.length_append, List.length_replicate] at hv
      rw [if_neg (by omega)] at hv
      cases hv

theorem newSize_lt (w n : Int) : newSize w n < 2147483648 := wrap32_lt _

/-- **A write that returns has appended exactly its bytes.** -/
theorem writeToBuffer_some {b b' : TcpBuffer} (h : b.WF) {buf : Bytes}
    (hw : b.writeToBuffer buf = some b') : b'.WF ∧ b'.content = b.content ++ buf := by
  simp only [writeToBuffer, Option.bind_eq_some_iff, Option.map_eq_some_iff] at hw
  obtain ⟨b₁, hgrow, v, hv, rfl⟩ := hw
  -- growth keeps the content, so the copy lands right behind it
  have hb₁ : b₁.WF ∧ b₁.content = b.content := by
    unfold grow at hgrow
    split at hgrow
    · rename_i hbig
      have hne : buf ≠ [] := by
        rintro rfl
        have := h.writeAble_eq
        have := h.write_le
        simp only [List.length_nil] at hbig
        omega
      obtain ⟨hn, rfl⟩ := resizeBuffer_copyIn h hne hgrow hv
      have hl := h.content_length
      have hlt := newSize_lt b.m_write_index buf.length
      exact ⟨rebased_wf (by omega) (by omega), rebased_content _ _⟩
    · cases hgrow
      exact ⟨h, rfl⟩
  obtain ⟨hwf, hc, hlen⟩ := copyIn_content hb₁.1 hv
  have hle : b₁.m_write_index + (buf.length : Int) ≤ v.length := hwf.write_le
  have h0 : 0 ≤ b₁.m_write_index := le_trans hb₁.1.read_nonneg hb₁.1.read_le
  have hsz := hb₁.1.size_lt
  rw [wrap32_of_range (by omega) (by omega)]
  exact ⟨hwf, hc.trans (by rw [hb₁.2])⟩

/-- A write never moves the write index further than its bytes, and growth only ever moves the
readable bytes to the front. -/
theorem writeToBuffer_index {b b' : TcpBuffer} (h : b.WF) {buf : Bytes}
    (hw : b.writeToBuffer buf = some b') :
    b'.m_write_index ≤ b.m_write_index + buf.length ∧
      ((buf.length : Int) ≤ b.writeAble → b'.writeAble = b.writeAble - buf.length) := by
  obtain ⟨hwf', hc'⟩ := writeToBuffer_some h hw
  have hl := h.content_length_index
  have hl' := hwf'.content_length_index
  rw [hc', List.length_append] at hl'
  have hwa := h.writeAble_eq
  have hr := h.read_nonneg
  have hb' : b'.m_read_index = 0 ∧ ¬ (buf.length : Int) ≤ b.writeAble ∨
      b'.m_read_index = b.m_read_index ∧ b'.m_buffer.length = b.m_buffer.length := by
    simp only [writeToBuffer, Option.bind_eq_some_iff, Option.map_eq_some_iff] at hw
    obtain ⟨b₁, hgrow, v, hv, rfl⟩ := hw
    unfold grow at hgrow
    split at hgrow
    · refine Or.inl ⟨?_, by omega⟩
      simp only [resizeBuffer, Option.ite_none_left_eq_some, Option.map_eq_some_iff] at hgrow
      obtain ⟨-, c, -, rfl⟩ := hgrow
      rfl
    · cases hgrow
      exact Or.inr ⟨rfl, (copyIn_content h hv).2.2⟩
  rw [hwf'.writeAble_eq]
  rcases hb' with ⟨h1, h2⟩ | ⟨h1, h2⟩
  · exact ⟨by omega, fun hfit => absurd hfit h2⟩
  · exact ⟨by omega, fun _ => by omega⟩

/-- A write of `n` bytes whose new capacity, if it needs one, is an `int`. -/
def WriteFits (b : TcpBuffer) (n : Nat) : Prop :=
  (n : Int) ≤ b.writeAble ∨ (b.m_write_index + n) * 3 / 2 < 2147483648

instance (b : TcpBuffer) (n : Nat) : Decidable (b.WriteFits n) :=
  inferInstanceAs (Decidable (_ ∨ _))

theorem newSize_eq {w n : Int} (hw : 0 ≤ w) (hn : 0 ≤ n) (h : (w + n) * 3 / 2 < 2147483648) :
    newSize w n = (w + n) * 3 / 2 := by
  have hsum : wrap32 (w + n) = w + n := wrap32_of_range (by omega) (by omega)
  rw [newSize, hsum, Int.tdiv_eq_ediv_of_nonneg (by omega)]
  exact wrap32_of_range (by omega) h

/-- **A write that fits returns.** -/
theorem writeToBuffer_fits {b : TcpBuffer} (h : b.WF) {buf : Bytes} (hf : b.WriteFits buf.length) :
    ∃ b', b.writeToBuffer buf = some b' := by
  obtain ⟨h1, h2, h3, h4⟩ := id h
  have hwa := h.writeAble_eq
  by_cases hbig : (buf.length : Int) > b.writeAble
  · have hcap : (b.m_write_index + buf.length) * 3 / 2 < 2147483648 := by
      rcases hf with hf | hf
      · omega
      · exact hf
    have hns := newSize_eq (by omega) (by omega) hcap
    have hl := h.content_length
    have hra := h.readAble_eq
    have hsize : b.content.length ≤ (newSize b.m_write_index buf.length).toNat := by omega
    have hlen := rebased_length hsize
    have hroom : (b.content.length : Int) + buf.length
        ≤ (rebased b.content (newSize b.m_write_index buf.length).toNat).m_buffer.length := by
      rw [hlen]; omega
    rw [writeToBuffer, grow, if_pos hbig, resizeBuffer_eq h (by omega), Option.bind_some, copyIn,
      if_pos ⟨by simp [rebased], hroom⟩]
    exact ⟨_, rfl⟩
  · rw [writeToBuffer, grow, if_neg hbig, Option.bind_some, copyIn, if_pos ⟨by omega, by omega⟩]
    exact ⟨_, rfl⟩

/-- **Bytes stored at the write index and then claimed are appended.** -/
theorem store_moveWriteIndex {b : TcpBuffer} (h : b.WF) {bytes : Bytes}
    (hfit : (bytes.length : Int) ≤ b.writeAble) :
    ∃ b₁, b.store bytes = some b₁ ∧ (b₁.moveWriteIndex bytes.length).WF ∧
      (b₁.moveWriteIndex bytes.length).content = b.content ++ bytes ∧
      (b₁.moveWriteIndex bytes.length).m_buffer.length = b.m_buffer.length := by
  obtain ⟨h1, h2, h3, h4⟩ := id h
  have hwa := h.writeAble_eq
  have hin : ∃ v, copyIn b.m_buffer b.m_write_index bytes = some v := by
    rw [copyIn, if_pos ⟨by omega, by omega⟩]
    exact ⟨_, rfl⟩
  obtain ⟨v, hv⟩ := hin
  obtain ⟨hwf, hc, hlen⟩ := copyIn_content h hv
  have hle : b.m_write_index + (bytes.length : Int) ≤ v.length := hwf.write_le
  have hsame : writeAble { b with m_buffer := v } = b.writeAble := by
    rw [writeAble, writeAble, hlen]
  have hj : wrap32 (b.m_write_index + bytes.length) = b.m_write_index + bytes.length :=
    wrap32_of_range (by omega) (by omega)
  refine ⟨{ b with m_buffer := v }, by rw [store, hv, Option.map_some], ?_⟩
  rw [moveWriteIndex, hsame, if_neg (by omega)]
  simp only [hj]
  obtain ⟨a1, a2, a3⟩ := adjustBuffer_spec hwf
  exact ⟨a1, a2.trans hc, a3.trans hlen⟩

/-! ### Reachable buffers -/

/-- The buffers built from a fresh one by the operations of the source, none of
them with an index that leaves the `int` range. -/
inductive Reachable : TcpBuffer → Prop
  | new (size : Nat) (h : size < 2147483648) : Reachable (new size)
  | write {b b' : TcpBuffer} (buf : Bytes) : Reachable b → b.writeToBuffer buf = some b' →
      Reachable b'
  | read {b : TcpBuffer} (n : Nat) : Reachable b → (n : Int) ≤ b.readAble →
      Reachable (b.moveReadIndex n)
  | claim {b b₁ : TcpBuffer} (bytes : Bytes) : Reachable b → (bytes.length : Int) ≤ b.writeAble →
      b.store bytes = some b₁ → Reachable (b₁.moveWriteIndex bytes.length)
  | adjust {b : TcpBuffer} : Reachable b → Reachable b.adjustBuffer
  | resize {b b' : TcpBuffer} (n : Int) : Reachable b → b.readAble ≤ n → n < 2147483648 →
      b.resizeBuffer n = some b' → Reachable b'

theorem Reachable.wf {b : TcpBuffer} (h : Reachable b) : b.WF := by
  induction h with
  | new size h => exact new_wf h
  | write buf _ hw ih => exact (writeToBuffer_some ih hw).1
  | read n _ hn ih => exact (moveReadIndex_spec ih (by have := ih.content_length; omega)).1
  | claim bytes _ hfit hs ih =>
    obtain ⟨b₁, hs', hwf, -⟩ := store_moveWriteIndex ih hfit
    rw [hs] at hs'
    cases hs'
    exact hwf
  | adjust _ ih => exact (adjustBuffer_spec ih).1
  | resize n _ hle hlt hr ih =>
    rw [resizeBuffer_eq ih hle] at hr
    cases hr
    have hl := ih.content_length
    exact rebased_wf (by omega) (by omega)

end TcpBuffer

end KaiRPC
