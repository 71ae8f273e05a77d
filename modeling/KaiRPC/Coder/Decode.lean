import KaiRPC.Coder.Scan

/-!
# Decoding a buffer

The decoding half of `net/coder/tinypb_coder.cc`.  `decodeTurn` is one turn of the
`while` loop of `TinyPBCoder::decode`, over the indices of the buffer; `decodeLoop`
repeats it.  A read outside the readable bytes makes the turn `none`, a field that
does not fit makes `parseFields` stop with `some none` (`parse_success == false`).

`decode_eq` is the refinement: on a well-formed buffer `decode` returns, emits what
the TinyPB scanner emits on the content, and leaves the scanner's residual as the
content.
-/

open Word

namespace KaiRPC

open TinyPBProtocol

namespace TinyPBCoder

/-- `tmp[i]`, for an index inside the readable bytes. -/
def byteAt (b : TcpBuffer) (i : Int) : Option UInt8 :=
  if b.readIndex ≤ i ∧ i < b.writeIndex then b.m_buffer[i.toNat]? else none

/-- `getInt32FromNetByte(&tmp[i])`. -/
def getInt32FromNetByte (b : TcpBuffer) (i : Int) : Option Int32 :=
  (byteAt b i).bind fun b₀ => (byteAt b (i + 1)).bind fun b₁ =>
    (byteAt b (i + 2)).bind fun b₂ => (byteAt b (i + 3)).map fun b₃ => ofNetBytes b₀ b₁ b₂ b₃

def canReadInt32 (index limit : Int) : Prop := 0 ≤ index ∧ index + 4 ≤ limit

def canReadField (index : Int) (len : Int32) (limit : Int) : Prop :=
  0 ≤ len.toInt ∧ 0 ≤ index ∧ index + len.toInt ≤ limit

instance (index limit : Int) : Decidable (canReadInt32 index limit) :=
  inferInstanceAs (Decidable (_ ∧ _))

instance (index : Int) (len : Int32) (limit : Int) : Decidable (canReadField index len limit) :=
  inferInstanceAs (Decidable (_ ∧ _))

def readStringField (b : TcpBuffer) (index len : Int) : Option Bytes :=
  if len = 0 then some []
  else if b.readIndex ≤ index ∧ 0 ≤ len ∧ index + len ≤ b.writeIndex then
    some (TcpBuffer.slice b.m_buffer index len)
  else none

def moveReadIndexIfNeeded (b : TcpBuffer) (size : Int) : TcpBuffer :=
  if size > 0 then b.moveReadIndex size else b

/-- The search for the start flag: `n` indices from `i` on. -/
def findStart (b : TcpBuffer) : Nat → Int → Option Int
  | 0, _ => none
  | n + 1, i => if byteAt b i = some PB_START then some i else findStart b n (i + 1)

/-! ### The fields of a packet -/

/-- Go on with what was read, unless the parse has failed. -/
def andThen {α β : Type} (x : Option (Option α)) (f : α → Option (Option β)) :
    Option (Option β) :=
  x.bind fun
    | none => some none
    | some a => f a

/-- A word of the packet and the cursor behind it. -/
def readInt32 (b : TcpBuffer) (cursor limit : Int) : Option (Option (Int32 × Int)) :=
  if canReadInt32 cursor limit then
    (getInt32FromNetByte b cursor).map fun v => some (v, cursor + 4)
  else some none

/-- A string of the packet and the cursor behind it. -/
def readField (b : TcpBuffer) (cursor : Int) (len : Int32) (limit : Int) :
    Option (Option (Bytes × Int)) :=
  if canReadField cursor len limit then
    (readStringField b cursor len.toInt).map fun f => some (f, cursor + len.toInt)
  else some none

/-- The protobuf body: everything up to the checksum. -/
def readBody (b : TcpBuffer) (cursor checksum_index : Int) : Option (Option (Bytes × Int)) :=
  let pb_data_len := checksum_index - cursor
  if pb_data_len < 0 then some none
  else (readStringField b cursor pb_data_len).map fun f => some (f, cursor + pb_data_len)

def parseFields (b : TcpBuffer) (start_index : Int) (pk_len : Int32) (end_flag_index : Int) :
    Option (Option TinyPBProtocol) :=
  let checksum_index := end_flag_index - 4
  andThen (readInt32 b (start_index + 1 + 4) checksum_index) fun (msg_id_len, cursor) =>
  andThen (readField b cursor msg_id_len checksum_index) fun (msg_id, cursor) =>
  andThen (readInt32 b cursor checksum_index) fun (method_name_len, cursor) =>
  andThen (readField b cursor method_name_len checksum_index) fun (method_name, cursor) =>
  andThen (readInt32 b cursor checksum_index) fun (err_code, cursor) =>
  andThen (readInt32 b cursor checksum_index) fun (err_info_len, cursor) =>
  andThen (readField b cursor err_info_len checksum_index) fun (err_info, cursor) =>
  andThen (readBody b cursor checksum_index) fun (pb_data, cursor) =>
  andThen (readInt32 b cursor end_flag_index) fun (check_sum, _) =>
    some (some
      { m_msg_id := msg_id
        m_pk_len := pk_len
        m_msg_id_len := msg_id_len
        m_method_name_len := method_name_len
        m_method_name := method_name
        m_err_code := err_code
        m_err_info_len := err_info_len
        m_err_info := err_info
        m_pb_data := pb_data
        m_check_sum := check_sum
        parse_success := true })

/-! ### The loop -/

/-- How a turn of the loop ends: the function returns, or the loop continues with
the message the turn emitted, if any. -/
inductive Turn
  | ret (b : TcpBuffer)
  | cont (message : Option TinyPBProtocol) (b : TcpBuffer)

def decodeTurn (buffer : TcpBuffer) : Option Turn :=
  match findStart buffer (buffer.writeIndex - buffer.readIndex).toNat buffer.readIndex with
  | none => some (.ret (moveReadIndexIfNeeded buffer buffer.readAble))
  | some start_index =>
      if start_index > buffer.readIndex then
        some (.cont none (moveReadIndexIfNeeded buffer (start_index - buffer.readIndex)))
      else if ¬ canReadInt32 (start_index + 1) buffer.writeIndex then some (.ret buffer)
      else (getInt32FromNetByte buffer (start_index + 1)).bind fun pk_len =>
        if BadLength pk_len then some (.cont none (moveReadIndexIfNeeded buffer 1))
        else if start_index + pk_len.toInt > buffer.writeIndex then some (.ret buffer)
        else (byteAt buffer (start_index + pk_len.toInt - 1)).bind fun flag =>
          if flag ≠ PB_END then some (.cont none (moveReadIndexIfNeeded buffer 1))
          else (parseFields buffer start_index pk_len (start_index + pk_len.toInt - 1)).map
            fun message => .cont message (moveReadIndexIfNeeded buffer pk_len.toInt)

def decodeLoop : Nat → List TinyPBProtocol → TcpBuffer → Option (List TinyPBProtocol × TcpBuffer)
  | 0, _, _ => none
  | fuel + 1, out_messages, buffer =>
      if buffer.readAble > 0 then
        (decodeTurn buffer).bind fun
          | .ret buffer => some (out_messages, buffer)
          | .cont message buffer => decodeLoop fuel (out_messages ++ message.toList) buffer
      else some (out_messages, buffer)

/-- `decode`: every turn that continues consumes a byte, so the loop takes at most as many
turns as there are readable bytes, and one more to see that none is left. -/
def decode (buffer : TcpBuffer) : Option (List TinyPBProtocol × TcpBuffer) :=
  decodeLoop (buffer.readAble.toNat + 1) [] buffer

/-! ### Reading the buffer is reading its content -/

theorem byteAt_eq {b : TcpBuffer} (h : b.WF) (k : Nat) :
    byteAt b (b.readIndex + k) = b.content[k]? := by
  have hl := h.content_length_index
  obtain ⟨h1, h2, h3, h4⟩ := h
  unfold byteAt TcpBuffer.readIndex TcpBuffer.writeIndex
  split
  · rw [TcpBuffer.content, TcpBuffer.slice, List.getElem?_take_of_lt (by omega),
      List.getElem?_drop]
    congr 1
    omega
  · exact (List.getElem?_eq_none (by omega)).symm

theorem getInt32FromNetByte_eq {b : TcpBuffer} (h : b.WF) (k : Nat) :
    getInt32FromNetByte b (b.readIndex + k) = (takeInt32 (b.content.drop k)).map Prod.fst := by
  have e1 : b.readIndex + (k : Int) + 1 = b.readIndex + ((k + 1 : Nat) : Int) := by omega
  have e2 : b.readIndex + (k : Int) + 2 = b.readIndex + ((k + 2 : Nat) : Int) := by omega
  have e3 : b.readIndex + (k : Int) + 3 = b.readIndex + ((k + 3 : Nat) : Int) := by omega
  rw [getInt32FromNetByte, e1, e2, e3, byteAt_eq h, byteAt_eq h, byteAt_eq h, byteAt_eq h]
  have hget (j : Nat) : b.content[k + j]? = (b.content.drop k)[j]? := by rw [List.getElem?_drop]
  have h0 : b.content[k]? = (b.content.drop k)[0]? := by rw [List.getElem?_drop, Nat.add_zero]
  rw [h0, hget 1, hget 2, hget 3]
  match b.content.drop k with
  | [] => rfl
  | [_] => rfl
  | [_, _] => rfl
  | [_, _, _] => rfl
  | _ :: _ :: _ :: _ :: _ => rfl

theorem readStringField_eq {b : TcpBuffer} (h : b.WF) {k n : Nat} (hn : k + n ≤ b.content.length) :
    readStringField b (b.readIndex + k) n = some ((b.content.drop k).take n) := by
  have hl := h.content_length_index
  obtain ⟨h1, h2, h3, h4⟩ := h
  unfold readStringField TcpBuffer.readIndex TcpBuffer.writeIndex
  split
  · have : n = 0 := by omega
    rw [this, List.take_zero]
  · rw [if_pos ⟨by omega, by omega, by omega⟩, TcpBuffer.content, TcpBuffer.slice,
      TcpBuffer.slice, List.drop_take, List.take_take, List.drop_drop]
    congr 2
    · omega
    · congr 1
      omega

/-! ### Parsing the buffer is parsing the packet

Below the cursor stands at offset `k` of the content and the limit at offset `lim`. -/

theorem takeInt32_drop {L s : Bytes} {k : Nat} {v : Int32}
    (h : takeInt32 (L.drop k) = some (v, s)) :
    s = L.drop (k + 4) ∧ k + 4 ≤ L.length := by
  have hl := takeInt32_length h
  rw [List.length_drop] at hl
  have hs : (L.drop k).drop 4 = s := by
    match L.drop k, h with
    | _ :: _ :: _ :: _ :: u, h => cases h; rfl
  rw [List.drop_drop] at hs
  exact ⟨hs.symm, by omega⟩

theorem takeField_drop {L f s : Bytes} {k : Nat} {len : Int32} (hk : k ≤ L.length)
    (h : takeField len (L.drop k) = some (f, s)) :
    s = L.drop (k + len.toInt.toNat) ∧ k + len.toInt.toNat ≤ L.length ∧
      (len.toInt.toNat : Int) = len.toInt := by
  rw [takeField, List.length_drop] at h
  split at h
  · cases h
    rw [List.drop_drop]
    exact ⟨rfl, by omega, by omega⟩
  · cases h

theorem readInt32_eq {b : TcpBuffer} (h : b.WF) {k lim : Nat} (hlim : lim ≤ b.content.length) :
    readInt32 b (b.readIndex + k) (b.readIndex + lim)
      = some ((takeInt32 ((b.content.take lim).drop k)).map
          fun p => (p.1, b.readIndex + ((k + 4 : Nat) : Int))) := by
  have h0 : 0 ≤ b.readIndex := h.read_nonneg
  unfold readInt32
  split
  · rename_i hcan
    obtain ⟨-, hcan⟩ := hcan
    have hsplit : b.content.drop k = (b.content.take lim).drop k ++ b.content.drop lim := by
      rw [← List.drop_append_of_le_length (by rw [List.length_take]; omega),
        List.take_append_drop]
    cases ht : takeInt32 ((b.content.take lim).drop k) with
    | none =>
      rw [takeInt32_eq_none_iff, List.length_drop, List.length_take] at ht
      omega
    | some p =>
      have hcur : b.readIndex + (k : Int) + 4 = b.readIndex + ((k + 4 : Nat) : Int) := by omega
      rw [getInt32FromNetByte_eq h, hsplit, takeInt32_append ht, hcur]
      rfl
  · rename_i hcan
    have hnone : takeInt32 ((b.content.take lim).drop k) = none := by
      rw [takeInt32_eq_none_iff, List.length_drop, List.length_take]
      unfold canReadInt32 at hcan
      omega
    rw [hnone]
    rfl

theorem readField_eq {b : TcpBuffer} (h : b.WF) {k lim : Nat} (hlim : lim ≤ b.content.length)
    (hk : k ≤ lim) (len : Int32) :
    readField b (b.readIndex + k) len (b.readIndex + lim)
      = some ((takeField len ((b.content.take lim).drop k)).map
          fun p => (p.1, b.readIndex + ((k + len.toInt.toNat : Nat) : Int))) := by
  have h0 : 0 ≤ b.readIndex := h.read_nonneg
  have hl : ((b.content.take lim).drop k).length = lim - k := by
    rw [List.length_drop, List.length_take]; omega
  rw [readField, takeField, hl]
  by_cases hc : 0 ≤ len.toInt ∧ len.toInt ≤ ((lim - k : Nat) : Int)
  · have hcan : canReadField (b.readIndex + k) len (b.readIndex + lim) :=
      ⟨hc.1, by omega, by omega⟩
    have hn : len.toInt = (len.toInt.toNat : Int) := by omega
    have hread := readStringField_eq h (k := k) (n := len.toInt.toNat) (by omega)
    rw [← hn] at hread
    rw [if_pos hc, if_pos hcan, hread, List.drop_take, List.take_take,
      Nat.min_eq_left (by omega)]
    simp only [Option.map_some, Option.some.injEq, Prod.mk.injEq, true_and]
    omega
  · have hcan : ¬ canReadField (b.readIndex + k) len (b.readIndex + lim) := by
      rintro ⟨h1, -, h2⟩
      omega
    rw [if_neg hc, if_neg hcan]
    rfl

theorem readBody_eq {b : TcpBuffer} (h : b.WF) {k lim : Nat} (hlim : lim ≤ b.content.length)
    (hk : k ≤ lim) :
    readBody b (b.readIndex + k) (b.readIndex + lim)
      = some (some ((b.content.take lim).drop k, b.readIndex + (lim : Int))) := by
  have hread := readStringField_eq h (k := k) (n := lim - k) (by omega)
  have hn : b.readIndex + (lim : Int) - (b.readIndex + k) = ((lim - k : Nat) : Int) := by omega
  have hc : b.readIndex + (k : Int) + ((lim - k : Nat) : Int) = b.readIndex + (lim : Int) := by
    omega
  simp only [readBody, hn, hread, hc]
  rw [if_neg (by omega), List.drop_take]
  rfl

@[simp] theorem andThen_none {α β : Type} (f : α → Option (Option β)) :
    andThen (some none) f = some none := rfl

@[simp] theorem andThen_some {α β : Type} (a : α) (f : α → Option (Option β)) :
    andThen (some (some a)) f = f a := rfl

theorem andThen_readInt32 {b : TcpBuffer} (h : b.WF) {α : Type} {k lim : Nat}
    (hlim : lim ≤ b.content.length) {f : Int32 × Int → Option (Option α)}
    {g : Int32 × Bytes → Option α}
    (hfg : ∀ v, k + 4 ≤ lim → f (v, b.readIndex + ((k + 4 : Nat) : Int))
      = some (g (v, (b.content.take lim).drop (k + 4)))) :
    andThen (readInt32 b (b.readIndex + k) (b.readIndex + lim)) f
      = some ((takeInt32 ((b.content.take lim).drop k)).bind g) := by
  rw [readInt32_eq h hlim]
  cases ht : takeInt32 ((b.content.take lim).drop k) with
  | none => rfl
  | some p =>
    obtain ⟨v, s⟩ := p
    obtain ⟨rfl, hk⟩ := takeInt32_drop ht
    rw [List.length_take] at hk
    exact hfg v (by omega)

theorem andThen_readField {b : TcpBuffer} (h : b.WF) {α : Type} {k lim : Nat}
    (hlim : lim ≤ b.content.length) (hk : k ≤ lim) {len : Int32}
    {f : Bytes × Int → Option (Option α)} {g : Bytes × Bytes → Option α}
    (hfg : ∀ s, k + len.toInt.toNat ≤ lim →
      f (s, b.readIndex + ((k + len.toInt.toNat : Nat) : Int))
        = some (g (s, (b.content.take lim).drop (k + len.toInt.toNat)))) :
    andThen (readField b (b.readIndex + k) len (b.readIndex + lim)) f
      = some ((takeField len ((b.content.take lim).drop k)).bind g) := by
  have hlen : (b.content.take lim).length = lim := by rw [List.length_take]; omega
  rw [readField_eq h hlim hk]
  cases ht : takeField len ((b.content.take lim).drop k) with
  | none => rfl
  | some p =>
    obtain ⟨field, s⟩ := p
    obtain ⟨rfl, hk', -⟩ := takeField_drop (hk.trans_eq hlen.symm) ht
    exact hfg field (hk'.trans_eq hlen)

/-- **The fields of a packet at the front of the content**, by cursor and by bytes. -/
theorem parseFields_eq {b : TcpBuffer} (h : b.WF) (pk_len : Int32) {n : Nat} (hmin : 26 ≤ n)
    (hn : n ≤ b.content.length) :
    parseFields b b.readIndex pk_len (b.readIndex + n - 1)
      = some (parseFrame pk_len (b.content.take n)) := by
  have hlen : (b.content.take n).length = n := by rw [List.length_take]; omega
  have hL : (b.content.take n).take (n - 5) = b.content.take (n - 5) := by
    rw [List.take_take, Nat.min_eq_left (by omega)]
  have hS : (b.content.take n).take (n - 1) = b.content.take (n - 1) := by
    rw [List.take_take, Nat.min_eq_left (by omega)]
  have hlim : n - 5 ≤ b.content.length := by omega
  have e1 : b.readIndex + 1 + 4 = b.readIndex + ((5 : Nat) : Int) := by omega
  have e2 : b.readIndex + (n : Int) - 1 - 4 = b.readIndex + ((n - 5 : Nat) : Int) := by omega
  have e3 : b.readIndex + (n : Int) - 1 = b.readIndex + ((n - 1 : Nat) : Int) := by omega
  simp only [parseFields, parseFrame, hlen, hL, hS, e1, e2]
  rw [e3]
  refine andThen_readInt32 h hlim fun msg_id_len k1 => ?_
  refine andThen_readField h hlim k1 fun msg_id k2 => ?_
  refine andThen_readInt32 h hlim fun method_name_len k3 => ?_
  refine andThen_readField h hlim k3 fun method_name k4 => ?_
  refine andThen_readInt32 h hlim fun err_code k5 => ?_
  refine andThen_readInt32 h hlim fun err_info_len k6 => ?_
  refine andThen_readField h hlim k6 fun err_info k7 => ?_
  -- The body is what is left, and the checksum ends at the other limit.
  dsimp only
  rw [readBody_eq h hlim k7, andThen_some, readInt32_eq h (by omega)]
  cases takeInt32 ((b.content.take (n - 1)).drop (n - 5)) with
  | none => rfl
  | some p => rfl

/-! ### A turn of the loop is a run of steps of the scanner -/

theorem moveReadIndexIfNeeded_spec {b : TcpBuffer} (h : b.WF) {n : Nat}
    (hn : n ≤ b.content.length) :
    (moveReadIndexIfNeeded b n).WF ∧ (moveReadIndexIfNeeded b n).content = b.content.drop n ∧
      (moveReadIndexIfNeeded b n).m_buffer.length = b.m_buffer.length := by
  unfold moveReadIndexIfNeeded
  split
  · exact TcpBuffer.moveReadIndex_spec h hn
  · have : n = 0 := by omega
    rw [this]
    exact ⟨h, rfl, rfl⟩

theorem findStart_eq {b : TcpBuffer} (h : b.WF) : ∀ (n k : Nat), k + n = b.content.length →
    findStart b n (b.readIndex + k)
      = ((b.content.drop k).findIdx? (· == PB_START)).map fun j =>
          b.readIndex + ((k + j : Nat) : Int) := by
  intro n
  induction n with
  | zero =>
    intro k hk
    rw [List.drop_of_length_le (by omega)]
    rfl
  | succ n ih =>
    intro k hk
    have hlt : k < b.content.length := by omega
    have hnext : b.readIndex + (k : Int) + 1 = b.readIndex + ((k + 1 : Nat) : Int) := by omega
    rw [findStart, byteAt_eq h, List.getElem?_eq_getElem hlt, List.drop_eq_getElem_cons hlt,
      List.findIdx?_cons, hnext, ih (k + 1) (by omega)]
    by_cases hc : b.content[k] = PB_START
    · rw [if_pos (by rw [hc]), if_pos (by rw [hc]; rfl), Option.map_some, Nat.add_zero]
    · rw [if_neg (fun e => hc (Option.some.inj e)), if_neg (by simpa using hc), Option.map_map]
      congr 1
      funext j
      show b.readIndex + ((k + 1 + j : Nat) : Int) = b.readIndex + ((k + (j + 1) : Nat) : Int)
      omega

/-- A turn that returns leaves what the scanner leaves; a turn that continues has made the
content shorter and has emitted what the scanner emits on the way. -/
def TurnOf (b : TcpBuffer) : Turn → Prop
  | .ret b' => b'.WF ∧ b'.m_buffer.length = b.m_buffer.length ∧
      tinyPB.scan b.content = ([], b'.content)
  | .cont message b' => b'.WF ∧ b'.m_buffer.length = b.m_buffer.length ∧
      b'.content.length < b.content.length ∧
      tinyPB.scan b.content = (message.toList ++ (tinyPB.scan b'.content).1,
        (tinyPB.scan b'.content).2)

theorem turnOf_step {b : TcpBuffer} (h : b.WF) {message : Option TinyPBProtocol} {n : Nat}
    (hs : frameStep b.content = some (message, n)) :
    TurnOf b (.cont message (moveReadIndexIfNeeded b n)) := by
  have hpos : 0 < n := tinyPB.step_pos hs
  have hle : n ≤ b.content.length := tinyPB.step_le hs
  obtain ⟨h1, h2, h3⟩ := moveReadIndexIfNeeded_spec h hle
  refine ⟨h1, h3, ?_, ?_⟩
  · rw [h2, List.length_drop]
    omega
  · rw [h2]
    exact tinyPB.scan_of_some hs

theorem decodeTurn_at_start {b : TcpBuffer} (h : b.WF) {t : Bytes}
    (hb : b.content = PB_START :: t)
    (hf : findStart b (b.writeIndex - b.readIndex).toNat b.readIndex = some b.readIndex) :
    ∃ turn, decodeTurn b = some turn ∧ TurnOf b turn := by
  have hl : (b.content.length : Int) = b.writeIndex - b.readIndex := h.content_length_index
  have h0 : 0 ≤ b.readIndex := h.read_nonneg
  have hret (hnone : frameStep b.content = none) : TurnOf b (.ret b) :=
    ⟨h, rfl, tinyPB.scan_of_none hnone⟩
  have hstep : frameStep b.content = (takeInt32 t).bind fun p =>
      if BadLength p.1 then some (none, 1)
      else if b.content.length < p.1.toInt.toNat then none
      else if b.content[p.1.toInt.toNat - 1]? ≠ some PB_END then some (none, 1)
      else some (parseFrame p.1 (b.content.take p.1.toInt.toNat), p.1.toInt.toNat) := by
    rw [hb, frameStep, if_neg (by simp)]
  have hword : getInt32FromNetByte b (b.readIndex + 1) = (takeInt32 t).map Prod.fst := by
    rw [show b.readIndex + 1 = b.readIndex + ((1 : Nat) : Int) by omega,
      getInt32FromNetByte_eq h, hb]
    rfl
  rw [decodeTurn, hf]
  dsimp only
  rw [if_neg (lt_irrefl _)]
  cases ht : takeInt32 t with
  | none =>
    have hshort : t.length < 4 := takeInt32_eq_none_iff.mp ht
    have hlen : b.content.length = t.length + 1 := by rw [hb, List.length_cons]
    have hcan : ¬ canReadInt32 (b.readIndex + 1) b.writeIndex := by
      rintro ⟨-, h2⟩
      omega
    rw [if_pos hcan]
    exact ⟨_, rfl, hret (by rw [hstep, ht, Option.bind_none])⟩
  | some p =>
  obtain ⟨pk_len, s⟩ := p
  have hlong := takeInt32_length ht
  have hlen : b.content.length = t.length + 1 := by rw [hb, List.length_cons]
  rw [ht, Option.bind_some] at hstep
  dsimp only at hstep
  have hcan : canReadInt32 (b.readIndex + 1) b.writeIndex := ⟨by omega, by omega⟩
  rw [if_neg (not_not.mpr hcan), hword, ht, Option.map_some, Option.bind_some]
  dsimp only
  by_cases hbad : BadLength pk_len
  · rw [if_pos hbad] at hstep ⊢
    exact ⟨_, rfl, turnOf_step h hstep⟩
  rw [if_neg hbad] at hstep ⊢
  obtain ⟨hmin, -, hnat⟩ := length_pos_of_not_bad hbad
  by_cases hfew : b.content.length < pk_len.toInt.toNat
  · rw [if_pos hfew] at hstep
    rw [if_pos (by omega)]
    exact ⟨_, rfl, hret hstep⟩
  rw [if_neg hfew] at hstep
  have hend : b.readIndex + pk_len.toInt - 1
      = b.readIndex + ((pk_len.toInt.toNat - 1 : Nat) : Int) := by omega
  have hlt : pk_len.toInt.toNat - 1 < b.content.length := by omega
  rw [if_neg (by omega), hend, byteAt_eq h, List.getElem?_eq_getElem hlt, Option.bind_some]
  rw [List.getElem?_eq_getElem hlt] at hstep
  by_cases hflag : b.content[pk_len.toInt.toNat - 1] = PB_END
  · rw [if_neg (by rw [hflag]; exact fun e => e rfl)] at hstep
    have hparse := parseFields_eq h pk_len (n := pk_len.toInt.toNat) hmin (by omega)
    rw [hnat, hend] at hparse
    rw [if_neg (by rw [hflag]; exact fun e => e rfl), hparse, Option.map_some, ← hnat]
    exact ⟨_, rfl, turnOf_step h hstep⟩
  · rw [if_pos (fun e => hflag (Option.some.inj e))] at hstep
    rw [if_pos hflag]
    exact ⟨_, rfl, turnOf_step h hstep⟩

theorem decodeTurn_spec {b : TcpBuffer} (h : b.WF) :
    ∃ turn, decodeTurn b = some turn ∧ TurnOf b turn := by
  have hl : (b.content.length : Int) = b.writeIndex - b.readIndex := h.content_length_index
  have hfind := findStart_eq h b.content.length 0 (by omega)
  rw [List.drop_zero, Int.natCast_zero, Int.add_zero] at hfind
  have hcount : (b.writeIndex - b.readIndex).toNat = b.content.length := by omega
  cases hidx : b.content.findIdx? (· == PB_START) with
  | none =>
    rw [hidx, Option.map_none, ← hcount] at hfind
    have hskip : ∀ c ∈ b.content, c ≠ PB_START := by
      intro c hc
      simpa using List.findIdx?_eq_none_iff.mp hidx c hc
    have hscan := scan_skip b.content [] hskip
    rw [List.append_nil, scan_nil] at hscan
    obtain ⟨h1, h2, h3⟩ := moveReadIndexIfNeeded_spec h (n := b.content.length) le_rfl
    rw [h.content_length] at h1 h2 h3
    rw [decodeTurn, hfind]
    exact ⟨_, rfl, h1, h3, by rw [hscan, h2, List.drop_length]⟩
  | some j =>
    rw [hidx, Option.map_some, Nat.zero_add] at hfind
    obtain ⟨hj, hat, hbefore⟩ := List.findIdx?_eq_some_iff_getElem.mp hidx
    have hstart : b.content[j] = PB_START := by simpa using hat
    cases j with
    | zero =>
      rw [Int.natCast_zero, Int.add_zero, ← hcount] at hfind
      refine decodeTurn_at_start h (t := b.content.drop 1) ?_ hfind
      rw [← hstart, ← List.drop_eq_getElem_cons hj, List.drop_zero]
    | succ j =>
      have hskip : ∀ c ∈ b.content.take (j + 1), c ≠ PB_START := by
        intro c hc
        obtain ⟨i, hi, rfl⟩ := List.mem_iff_getElem.mp hc
        rw [List.length_take] at hi
        rw [List.getElem_take]
        simpa using hbefore i (by omega)
      have hscan := scan_skip (b.content.take (j + 1)) (b.content.drop (j + 1)) hskip
      rw [List.take_append_drop] at hscan
      obtain ⟨h1, h2, h3⟩ := moveReadIndexIfNeeded_spec h (n := j + 1) (by omega)
      rw [decodeTurn, hcount, hfind]
      dsimp only
      rw [if_pos (by omega), add_sub_cancel_left]
      refine ⟨_, rfl, h1, h3, ?_, ?_⟩
      · rw [h2, List.length_drop]
        omega
      · rw [hscan, h2]
        rfl

/-! ### The loop is the scan -/

theorem decodeLoop_spec : ∀ (fuel : Nat) {b : TcpBuffer} (out : List TinyPBProtocol), b.WF →
    b.content.length < fuel →
    ∃ b', decodeLoop fuel out b = some (out ++ (tinyPB.scan b.content).1, b') ∧ b'.WF ∧
      b'.content = (tinyPB.scan b.content).2 ∧ b'.m_buffer.length = b.m_buffer.length := by
  intro fuel
  induction fuel with
  | zero => intro b out h hf; omega
  | succ fuel ih =>
    intro b out h hf
    rw [decodeLoop]
    by_cases hpos : b.readAble > 0
    · obtain ⟨turn, hturn, hspec⟩ := decodeTurn_spec h
      rw [if_pos hpos, hturn, Option.bind_some]
      cases turn with
      | ret b' =>
        obtain ⟨hwf, hcap, hscan⟩ := hspec
        refine ⟨b', ?_, hwf, by rw [hscan], hcap⟩
        rw [hscan, List.append_nil]
      | cont message b' =>
        obtain ⟨hwf, hcap, hlt, hscan⟩ := hspec
        obtain ⟨b'', hloop, hwf', hc, hcap'⟩ := ih (out ++ message.toList) hwf (by omega)
        refine ⟨b'', ?_, hwf', by rw [hc, hscan], hcap'.trans hcap⟩
        show decodeLoop fuel (out ++ message.toList) b' = _
        rw [hloop, hscan, List.append_assoc]
    · have hnil : b.content = [] :=
        h.content_eq_nil_iff.mpr (by have := h.readAble_nonneg; omega)
      rw [if_neg hpos, hnil, scan_nil, List.append_nil]
      exact ⟨b, rfl, h, hnil, rfl⟩

/-- **`decode` is the scan of the content.** -/
theorem decode_eq {b : TcpBuffer} (h : b.WF) :
    ∃ b', decode b = some ((tinyPB.scan b.content).1, b') ∧ b'.WF ∧
      b'.content = (tinyPB.scan b.content).2 ∧ b'.m_buffer.length = b.m_buffer.length := by
  have hl := h.content_length
  exact decodeLoop_spec _ [] h (by omega)

end TinyPBCoder

end KaiRPC
