import KaiRPC.Coder.Decode

/-!
# Decoding with every access checked

`TinyPBCoder::decode` once more, statement by statement as the source has it (the
`parse_success` flag, the computations it does on a packet that has already
failed), with a check at every place the language leaves undefined:

* an `int` computation is `int`, an `int64_t` one is `int64`;
* an index into the vector lies in the readable range (`byteAt`);
* a field of a packet lies between its start flag and its end flag (`inside`),
  and so does the length handed to `std::string`, which is not negative.

A check that fails makes the whole call `none`.

* `parseChecked_spec`: on a packet that is there in full no check of a field fails.
* `checkedDecode_eq`: **no check ever fails**, whatever the bytes are: on a
  well-formed buffer the checked decoder returns what `decode` returns.
-/

open Word

namespace KaiRPC

open TinyPBProtocol

namespace TinyPBCoder

/-- The result of an `int` computation. -/
def int (x : Int) : Option Int := if IsInt x then some x else none

/-- The result of an `int64_t` computation. -/
def int64 (x : Int) : Option Int :=
  if -9223372036854775808 ≤ x ∧ x < 9223372036854775808 then some x else none

/-- The packet from its start flag up to its end flag. -/
structure Frame where
  start_index : Int
  end_flag_index : Int

/-- `count` bytes from `index` on belong to the packet, before its end flag. -/
def Frame.inside (fr : Frame) (index count : Int) : Option Unit :=
  if fr.start_index ≤ index ∧ 0 ≤ count ∧ index + count ≤ fr.end_flag_index then some () else none

/-- `canReadInt32`, with its sum. -/
def canReadInt32Checked (index limit : Int) : Option Bool :=
  if 0 ≤ index then (int64 (index + 4)).map fun sum => decide (sum ≤ limit) else some false

/-- `canReadField`, with its sum. -/
def canReadFieldChecked (index : Int) (len : Int32) (limit : Int) : Option Bool :=
  if 0 ≤ len.toInt ∧ 0 ≤ index then
    (int64 (index + len.toInt)).map fun sum => decide (sum ≤ limit)
  else some false

/-- `readStringField`: `std::string(&data[index], len)` unless `len` is 0. -/
def readStringChecked (b : TcpBuffer) (fr : Frame) (index len : Int) : Option Bytes :=
  if len = 0 then some []
  else (fr.inside index len).bind fun _ => readStringField b index len

/-! ### The fields of a packet -/

/-- The variables of the parse. -/
structure Parse where
  message : TinyPBProtocol
  cursor : Int
  parse_success : Bool

namespace Parse

def fail (p : Parse) : Parse := { p with parse_success := false }

/-- A word of the packet: check, read, advance. -/
def readInt32 (b : TcpBuffer) (fr : Frame) (limit : Int)
    (put : TinyPBProtocol → Int32 → TinyPBProtocol) (p : Parse) : Option Parse :=
  if p.parse_success then
    (canReadInt32Checked p.cursor limit).bind fun can =>
      if can then
        (fr.inside p.cursor 4).bind fun _ => (getInt32FromNetByte b p.cursor).bind fun v =>
          (int (p.cursor + 4)).map fun cursor =>
            { p with message := put p.message v, cursor := cursor }
      else some p.fail
  else some p

/-- A string of the packet whose length the message already holds. -/
def readField (b : TcpBuffer) (fr : Frame) (limit : Int) (len : TinyPBProtocol → Int32)
    (put : TinyPBProtocol → Bytes → TinyPBProtocol) (p : Parse) : Option Parse :=
  if p.parse_success then
    (canReadFieldChecked p.cursor (len p.message) limit).bind fun can =>
      if can then
        (readStringChecked b fr p.cursor (len p.message).toInt).bind fun field =>
          (int (p.cursor + (len p.message).toInt)).map fun cursor =>
            { p with message := put p.message field, cursor := cursor }
      else some p.fail
  else some p

/-- The protobuf body.  Its length is computed even when the parse has failed. -/
def readBody (b : TcpBuffer) (fr : Frame) (checksum_index : Int) (p : Parse) : Option Parse :=
  (int (checksum_index - p.cursor)).bind fun pb_data_len =>
    if p.parse_success then
      if pb_data_len < 0 then some p.fail
      else (readStringChecked b fr p.cursor pb_data_len).bind fun field =>
        (int (p.cursor + pb_data_len)).map fun cursor =>
          { p with message := { p.message with m_pb_data := field }, cursor := cursor }
    else some p

/-- The message that is pushed. -/
def emitted (p : Parse) : Option TinyPBProtocol :=
  if p.parse_success then some { p.message with parse_success := true } else none

end Parse

def parseChecked (b : TcpBuffer) (start_index : Int) (pk_len : Int32) (end_flag_index : Int) :
    Option (Option TinyPBProtocol) :=
  let fr : Frame := ⟨start_index, end_flag_index⟩
  (int (end_flag_index - 4)).bind fun checksum_index =>
  (int (start_index + 1)).bind fun cursor =>
  (int (cursor + 4)).bind fun cursor =>
  (Parse.readInt32 b fr checksum_index (fun m v => { m with m_msg_id_len := v })
    ⟨{ m_pk_len := pk_len }, cursor, true⟩).bind fun p =>
  (p.readField b fr checksum_index (·.m_msg_id_len)
    fun m s => { m with m_msg_id := s }).bind fun p =>
  (p.readInt32 b fr checksum_index fun m v => { m with m_method_name_len := v }).bind fun p =>
  (p.readField b fr checksum_index (·.m_method_name_len)
    fun m s => { m with m_method_name := s }).bind fun p =>
  (p.readInt32 b fr checksum_index fun m v => { m with m_err_code := v }).bind fun p =>
  (p.readInt32 b fr checksum_index fun m v => { m with m_err_info_len := v }).bind fun p =>
  (p.readField b fr checksum_index (·.m_err_info_len)
    fun m s => { m with m_err_info := s }).bind fun p =>
  (p.readBody b fr checksum_index).bind fun p =>
  (p.readInt32 b fr end_flag_index fun m v => { m with m_check_sum := v }).map Parse.emitted

/-! ### The loop -/

/-- The search for the start flag: `n` indices from `i` on. -/
def findStartChecked (b : TcpBuffer) : Nat → Int → Option (Option Int)
  | 0, _ => some none
  | n + 1, i => (byteAt b i).bind fun c =>
      if c = PB_START then some (some i)
      else (int (i + 1)).bind fun i => findStartChecked b n i

def checkedTurn (buffer : TcpBuffer) : Option Turn :=
  let read_index := buffer.readIndex
  let write_index := buffer.writeIndex
  (findStartChecked buffer (write_index - read_index).toNat read_index).bind fun
  | none =>
    (int (write_index - read_index)).map fun readAble =>
      .ret (moveReadIndexIfNeeded buffer readAble)
  | some start_index =>
    if start_index > read_index then
      (int (start_index - read_index)).map fun n => .cont none (moveReadIndexIfNeeded buffer n)
    else
      (int (start_index + 1)).bind fun len_index =>
      (canReadInt32Checked len_index write_index).bind fun can =>
      if ¬ can then some (.ret buffer)
      else (getInt32FromNetByte buffer len_index).bind fun pk_len =>
        if BadLength pk_len then some (.cont none (moveReadIndexIfNeeded buffer 1))
        else (int64 (start_index + pk_len.toInt)).bind fun packet_end64 =>
          if packet_end64 > write_index then some (.ret buffer)
          else (int packet_end64).bind fun packet_end =>
            (int (packet_end - 1)).bind fun end_flag_index =>
            (byteAt buffer end_flag_index).bind fun flag =>
            if flag ≠ PB_END then some (.cont none (moveReadIndexIfNeeded buffer 1))
            else (parseChecked buffer start_index pk_len end_flag_index).map fun message =>
              .cont message (moveReadIndexIfNeeded buffer pk_len.toInt)

def checkedLoop : Nat → List TinyPBProtocol → TcpBuffer → Option (List TinyPBProtocol × TcpBuffer)
  | 0, _, _ => none
  | fuel + 1, out_messages, buffer =>
      (int (buffer.writeIndex - buffer.readIndex)).bind fun readAble =>
        if readAble > 0 then
          (checkedTurn buffer).bind fun
            | .ret buffer => some (out_messages, buffer)
            | .cont message buffer => checkedLoop fuel (out_messages ++ message.toList) buffer
        else some (out_messages, buffer)

/-- `decode`, with as many turns as `decode` takes. -/
def checkedDecode (buffer : TcpBuffer) : Option (List TinyPBProtocol × TcpBuffer) :=
  checkedLoop (buffer.readAble.toNat + 1) [] buffer

/-! ### The primitives -/

theorem int_eq {x : Int} (h : IsInt x) : int x = some x := if_pos h

theorem int64_eq {x : Int} (h : -9223372036854775808 ≤ x ∧ x < 9223372036854775808) :
    int64 x = some x := if_pos h

theorem byteAt_some {b : TcpBuffer} (h : b.WF) {i : Int} (hlo : b.readIndex ≤ i)
    (hhi : i < b.writeIndex) : ∃ c, byteAt b i = some c := by
  have hr : 0 ≤ b.readIndex := h.read_nonneg
  have hw : b.writeIndex ≤ b.m_buffer.length := h.write_le
  rw [byteAt, if_pos ⟨hlo, hhi⟩]
  exact ⟨_, List.getElem?_eq_getElem (by omega : i.toNat < b.m_buffer.length)⟩

theorem getInt32FromNetByte_some {b : TcpBuffer} (h : b.WF) {i : Int} (hlo : b.readIndex ≤ i)
    (hhi : i + 4 ≤ b.writeIndex) : ∃ v, getInt32FromNetByte b i = some v := by
  obtain ⟨b₀, h0⟩ := byteAt_some h hlo (by omega)
  obtain ⟨b₁, h1⟩ := byteAt_some h (i := i + 1) (by omega) (by omega)
  obtain ⟨b₂, h2⟩ := byteAt_some h (i := i + 2) (by omega) (by omega)
  obtain ⟨b₃, h3⟩ := byteAt_some h (i := i + 3) (by omega) (by omega)
  exact ⟨_, by rw [getInt32FromNetByte, h0, Option.bind_some, h1, Option.bind_some, h2,
    Option.bind_some, h3, Option.map_some]⟩

theorem canReadInt32Checked_eq {index limit : Int} (h : IsInt index) :
    canReadInt32Checked index limit = some (decide (canReadInt32 index limit)) := by
  obtain ⟨hlo, hhi⟩ := h
  rw [canReadInt32Checked]
  split
  · rename_i h0
    rw [int64_eq (by omega), Option.map_some]
    exact congrArg some (decide_eq_decide.mpr ⟨fun hle => ⟨h0, hle⟩, fun hcan => hcan.2⟩)
  · rename_i h0
    rw [decide_eq_false fun hcan : canReadInt32 index limit => h0 hcan.1]

theorem canReadFieldChecked_eq {index limit : Int} {len : Int32} (h : IsInt index) :
    canReadFieldChecked index len limit = some (decide (canReadField index len limit)) := by
  obtain ⟨hlo, hhi⟩ := h
  have hlen := len.toInt_lt
  have hlen' := len.le_toInt
  rw [canReadFieldChecked]
  split
  · rename_i h0
    rw [int64_eq (by omega), Option.map_some]
    exact congrArg some (decide_eq_decide.mpr
      ⟨fun hle => ⟨h0.1, h0.2, hle⟩, fun hcan => hcan.2.2⟩)
  · rename_i h0
    rw [decide_eq_false fun hcan : canReadField index len limit => h0 ⟨hcan.1, hcan.2.1⟩]

/-! ### The fields

`fr` is a packet that is there in full.  While its fields are read the cursor stays between
its length word and its checksum. -/

/-- The packet lies in the readable range. -/
structure Frame.Within (fr : Frame) (b : TcpBuffer) : Prop where
  start : b.readIndex ≤ fr.start_index
  stop : fr.end_flag_index < b.writeIndex

/-- The cursor stands in the packet, at most at `limit`. -/
def Parse.At (fr : Frame) (limit : Int) (p : Parse) : Prop :=
  fr.start_index ≤ p.cursor ∧ p.cursor ≤ limit

section Fields

variable {b : TcpBuffer} {fr : Frame} {limit : Int} {p : Parse}

theorem Parse.At.isInt (h : b.WF) (hfr : fr.Within b) (hlim : limit ≤ fr.end_flag_index)
    (hp : p.At fr limit) : IsInt p.cursor ∧ IsInt limit := by
  have h1 : 0 ≤ b.readIndex := h.read_nonneg
  have h2 : b.writeIndex ≤ b.m_buffer.length := h.write_le
  have h3 := h.size_lt
  obtain ⟨f1, f2⟩ := hfr
  obtain ⟨p1, p2⟩ := hp
  exact ⟨⟨by omega, by omega⟩, by omega, by omega⟩

/-- A word is refused by its check, as `readInt32` refuses it, or read inside the packet. -/
theorem Parse.readInt32_cases (h : b.WF) (hfr : fr.Within b) (hlim : limit ≤ fr.end_flag_index)
    (hp : p.At fr limit) (hok : p.parse_success = true)
    (put : TinyPBProtocol → Int32 → TinyPBProtocol) :
    (TinyPBCoder.readInt32 b p.cursor limit = some none ∧
        p.readInt32 b fr limit put = some p.fail) ∨
      ∃ v, TinyPBCoder.readInt32 b p.cursor limit = some (some (v, p.cursor + 4)) ∧
        p.cursor + 4 ≤ limit ∧
        p.readInt32 b fr limit put
          = some { p with message := put p.message v, cursor := p.cursor + 4 } := by
  obtain ⟨hci, hli⟩ := hp.isInt h hfr hlim
  obtain ⟨f1, f2⟩ := hfr
  obtain ⟨p1, p2⟩ := hp
  obtain ⟨l1, l2⟩ := hli
  rw [Parse.readInt32, if_pos hok, canReadInt32Checked_eq hci, Option.bind_some,
    TinyPBCoder.readInt32]
  by_cases hcan : canReadInt32 p.cursor limit
  · right
    obtain ⟨hc0, hc4⟩ := id hcan
    obtain ⟨v, hv⟩ := getInt32FromNetByte_some h (i := p.cursor) (by omega) (by omega)
    refine ⟨v, by rw [if_pos hcan, hv, Option.map_some], hc4, ?_⟩
    rw [if_pos (decide_eq_true hcan), Frame.inside, if_pos ⟨p1, by omega, by omega⟩,
      Option.bind_some, hv, Option.bind_some, int_eq ⟨by omega, by omega⟩, Option.map_some]
  · left
    rw [if_neg hcan, if_neg (by simpa using hcan)]
    exact ⟨rfl, rfl⟩

theorem readStringChecked_eq (hfr : fr.Within b) {index len : Int}
    (h0 : 0 ≤ len) (hlo : fr.start_index ≤ index) (hhi : index + len ≤ fr.end_flag_index) :
    ∃ s, readStringField b index len = some s ∧ readStringChecked b fr index len = some s := by
  obtain ⟨f1, f2⟩ := hfr
  rw [readStringChecked, readStringField]
  by_cases hz : len = 0
  · rw [if_pos hz, if_pos hz]
    exact ⟨_, rfl, rfl⟩
  · rw [if_neg hz, if_neg hz, if_pos ⟨by omega, h0, by omega⟩, Frame.inside,
      if_pos ⟨hlo, h0, hhi⟩]
    exact ⟨_, rfl, rfl⟩

theorem Parse.readField_cases (h : b.WF) (hfr : fr.Within b) (hlim : limit ≤ fr.end_flag_index)
    (hp : p.At fr limit) (hok : p.parse_success = true) (len : TinyPBProtocol → Int32)
    (put : TinyPBProtocol → Bytes → TinyPBProtocol) :
    (TinyPBCoder.readField b p.cursor (len p.message) limit = some none ∧
        p.readField b fr limit len put = some p.fail) ∨
      ∃ s, TinyPBCoder.readField b p.cursor (len p.message) limit
          = some (some (s, p.cursor + (len p.message).toInt)) ∧
        0 ≤ (len p.message).toInt ∧ p.cursor + (len p.message).toInt ≤ limit ∧
        p.readField b fr limit len put = some { p with
          message := put p.message s, cursor := p.cursor + (len p.message).toInt } := by
  obtain ⟨hci, hli⟩ := hp.isInt h hfr hlim
  obtain ⟨p1, p2⟩ := hp
  obtain ⟨l1, l2⟩ := hli
  obtain ⟨c1, c2⟩ := id hci
  rw [Parse.readField, if_pos hok, canReadFieldChecked_eq hci, Option.bind_some,
    TinyPBCoder.readField]
  by_cases hcan : canReadField p.cursor (len p.message) limit
  · right
    obtain ⟨hn, hc0, hcn⟩ := id hcan
    obtain ⟨s, hs, hs'⟩ := readStringChecked_eq hfr hn p1 (hcn.trans hlim)
    refine ⟨s, by rw [if_pos hcan, hs, Option.map_some], hn, hcn, ?_⟩
    rw [if_pos (decide_eq_true hcan), hs', Option.bind_some, int_eq ⟨by omega, by omega⟩,
      Option.map_some]
  · left
    rw [if_neg hcan, if_neg (by simpa using hcan)]
    exact ⟨rfl, rfl⟩

theorem Parse.At.body_isInt (h : b.WF) (hfr : fr.Within b) (hlim : limit ≤ fr.end_flag_index)
    (hp : p.At fr limit) : IsInt (limit - p.cursor) := by
  obtain ⟨⟨c1, c2⟩, l1, l2⟩ := hp.isInt h hfr hlim
  have h1 : 0 ≤ b.readIndex := h.read_nonneg
  obtain ⟨f1, f2⟩ := hfr
  obtain ⟨p1, p2⟩ := hp
  exact ⟨by omega, by omega⟩

theorem Parse.readBody_eq (h : b.WF) (hfr : fr.Within b) (hlim : limit ≤ fr.end_flag_index)
    (hp : p.At fr limit) (hok : p.parse_success = true) :
    ∃ s, TinyPBCoder.readBody b p.cursor limit = some (some (s, limit)) ∧
      p.readBody b fr limit = some { p with
        message := { p.message with m_pb_data := s }, cursor := limit } := by
  obtain ⟨-, hli⟩ := hp.isInt h hfr hlim
  have hbody := hp.body_isInt h hfr hlim
  obtain ⟨p1, p2⟩ := hp
  have hadd : p.cursor + (limit - p.cursor) = limit := by omega
  obtain ⟨s, hs, hs'⟩ := readStringChecked_eq hfr (show 0 ≤ limit - p.cursor by omega) p1 (by omega)
  refine ⟨s, ?_, ?_⟩
  · simp only [TinyPBCoder.readBody, hs, hadd, Option.map_some]
    rw [if_neg (by omega)]
  · rw [Parse.readBody, int_eq hbody, Option.bind_some, if_pos hok, if_neg (by omega), hs',
      Option.bind_some, hadd, int_eq hli, Option.map_some]

end Fields

section Chain

variable {b : TcpBuffer} {start_index end_flag_index limit cursor : Int} {m : TinyPBProtocol}

theorem Parse.bind_readInt32 (h : b.WF) (hfr : Frame.Within ⟨start_index, end_flag_index⟩ b)
    (hlim : limit ≤ end_flag_index) (hlo : start_index ≤ cursor) (hhi : cursor ≤ limit)
    {put : TinyPBProtocol → Int32 → TinyPBProtocol} {f : Parse → Option (Option TinyPBProtocol)}
    {g : Int32 × Int → Option (Option TinyPBProtocol)} (hfail : f ⟨m, cursor, false⟩ = some none)
    (hfg : ∀ v, cursor + 4 ≤ limit → f ⟨put m v, cursor + 4, true⟩ = g (v, cursor + 4)) :
    (Parse.readInt32 b ⟨start_index, end_flag_index⟩ limit put ⟨m, cursor, true⟩).bind f
      = andThen (TinyPBCoder.readInt32 b cursor limit) g := by
  rcases Parse.readInt32_cases (p := ⟨m, cursor, true⟩) h hfr hlim ⟨hlo, hhi⟩ rfl put with
    ⟨hr, hc⟩ | ⟨v, hr, hle, hc⟩
  · rw [hr, hc, Option.bind_some, andThen_none]
    exact hfail
  · rw [hr, hc, Option.bind_some, andThen_some]
    exact hfg v hle

theorem Parse.bind_readField (h : b.WF) (hfr : Frame.Within ⟨start_index, end_flag_index⟩ b)
    (hlim : limit ≤ end_flag_index) (len : TinyPBProtocol → Int32) (hlo : start_index ≤ cursor)
    (hhi : cursor ≤ limit) {put : TinyPBProtocol → Bytes → TinyPBProtocol}
    {f : Parse → Option (Option TinyPBProtocol)} {g : Bytes × Int → Option (Option TinyPBProtocol)}
    (hfail : f ⟨m, cursor, false⟩ = some none)
    (hfg : ∀ s, 0 ≤ (len m).toInt → cursor + (len m).toInt ≤ limit →
      f ⟨put m s, cursor + (len m).toInt, true⟩ = g (s, cursor + (len m).toInt)) :
    (Parse.readField b ⟨start_index, end_flag_index⟩ limit len put ⟨m, cursor, true⟩).bind f
      = andThen (TinyPBCoder.readField b cursor (len m) limit) g := by
  rcases Parse.readField_cases (p := ⟨m, cursor, true⟩) h hfr hlim ⟨hlo, hhi⟩ rfl len put with
    ⟨hr, hc⟩ | ⟨s, hr, h0, hle, hc⟩
  · rw [hr, hc, Option.bind_some, andThen_none]
    exact hfail
  · rw [hr, hc, Option.bind_some, andThen_some]
    exact hfg s h0 hle

theorem Parse.bind_readBody (h : b.WF) (hfr : Frame.Within ⟨start_index, end_flag_index⟩ b)
    (hlim : limit ≤ end_flag_index) (hlo : start_index ≤ cursor) (hhi : cursor ≤ limit)
    {f : Parse → Option (Option TinyPBProtocol)} {g : Bytes × Int → Option (Option TinyPBProtocol)}
    (hfg : ∀ s, f ⟨{ m with m_pb_data := s }, limit, true⟩ = g (s, limit)) :
    (Parse.readBody b ⟨start_index, end_flag_index⟩ limit ⟨m, cursor, true⟩).bind f
      = andThen (TinyPBCoder.readBody b cursor limit) g := by
  obtain ⟨s, hr, hc⟩ := Parse.readBody_eq (p := ⟨m, cursor, true⟩) h hfr hlim ⟨hlo, hhi⟩ rfl
  rw [hr, hc, Option.bind_some, andThen_some]
  exact hfg s

end Chain

/-- **No check of a field fails** on a packet that is there in full, and the parse is that of
`parseFields`. -/
theorem parseChecked_spec {b : TcpBuffer} (h : b.WF) {start_index end_flag_index : Int}
    (pk_len : Int32) (hstart : b.readIndex ≤ start_index) (hsize : start_index + 25 ≤ end_flag_index)
    (hend : end_flag_index < b.writeIndex) :
    parseChecked b start_index pk_len end_flag_index
      = parseFields b start_index pk_len end_flag_index := by
  have h1 : 0 ≤ b.readIndex := h.read_nonneg
  have h2 : b.writeIndex ≤ b.m_buffer.length := h.write_le
  have h3 := h.size_lt
  have hfr : Frame.Within ⟨start_index, end_flag_index⟩ b := ⟨hstart, hend⟩
  have hlim : end_flag_index - 4 ≤ Frame.end_flag_index ⟨start_index, end_flag_index⟩ := by
    show end_flag_index - 4 ≤ end_flag_index
    omega
  simp only [parseChecked, parseFields]
  rw [int_eq ⟨by omega, by omega⟩, Option.bind_some, int_eq ⟨by omega, by omega⟩,
    Option.bind_some, int_eq ⟨by omega, by omega⟩, Option.bind_some]
  -- a failed parse runs through to the checksum without a failing check
  have hfailed (m : TinyPBProtocol) (cursor : Int) (hlo : start_index ≤ cursor)
      (hhi : cursor ≤ end_flag_index - 4) :
      (Parse.readBody b ⟨start_index, end_flag_index⟩ (end_flag_index - 4)
        ⟨m, cursor, false⟩).bind (fun p => (p.readInt32 b ⟨start_index, end_flag_index⟩
          end_flag_index fun m v => { m with m_check_sum := v }).map Parse.emitted) = some none := by
    have hbody := Parse.At.body_isInt (p := ⟨m, cursor, false⟩) h hfr hlim ⟨hlo, hhi⟩
    rw [Parse.readBody, int_eq hbody]
    rfl
  refine Parse.bind_readInt32 h hfr hlim (by omega) (by omega)
    (hfailed _ _ (by omega) (by omega)) fun msg_id_len k1 => ?_
  refine Parse.bind_readField h hfr hlim (·.m_msg_id_len) (by omega) (by omega)
    (hfailed _ _ (by omega) (by omega)) fun msg_id k2 k3 => ?_
  dsimp only at k2 k3 ⊢
  refine Parse.bind_readInt32 h hfr hlim (by omega) (by omega)
    (hfailed _ _ (by omega) (by omega)) fun method_name_len k4 => ?_
  refine Parse.bind_readField h hfr hlim (·.m_method_name_len) (by omega) (by omega)
    (hfailed _ _ (by omega) (by omega)) fun method_name k5 k6 => ?_
  dsimp only at k5 k6 ⊢
  refine Parse.bind_readInt32 h hfr hlim (by omega) (by omega)
    (hfailed _ _ (by omega) (by omega)) fun err_code k7 => ?_
  refine Parse.bind_readInt32 h hfr hlim (by omega) (by omega)
    (hfailed _ _ (by omega) (by omega)) fun err_info_len k8 => ?_
  refine Parse.bind_readField h hfr hlim (·.m_err_info_len) (by omega) (by omega)
    (hfailed _ _ (by omega) (by omega)) fun err_info k9 k10 => ?_
  dsimp only at k9 k10 ⊢
  -- the body ends at the checksum, and the checksum ends at the end flag
  refine Parse.bind_readBody h hfr hlim (by omega) k10 fun pb_data => ?_
  dsimp only
  rw [Option.map_eq_bind]
  exact Parse.bind_readInt32 h hfr le_rfl (by omega) (by omega) rfl fun check_sum k11 => rfl

/-! ### The loop -/

theorem findStartChecked_eq {b : TcpBuffer} (h : b.WF) : ∀ (n : Nat) (i : Int), b.readIndex ≤ i →
    i + n ≤ b.writeIndex → findStartChecked b n i = some (findStart b n i) := by
  have h1 : 0 ≤ b.readIndex := h.read_nonneg
  have h2 : b.writeIndex ≤ b.m_buffer.length := h.write_le
  have h3 := h.size_lt
  intro n
  induction n with
  | zero => intro i _ _; rfl
  | succ n ih =>
    intro i hlo hhi
    obtain ⟨c, hc⟩ := byteAt_some h hlo (by omega)
    rw [findStartChecked, findStart, hc, Option.bind_some]
    by_cases hflag : c = PB_START
    · rw [if_pos hflag, if_pos (congrArg some hflag)]
    · rw [if_neg hflag, if_neg (fun e => hflag (Option.some.inj e)), int_eq ⟨by omega, by omega⟩,
        Option.bind_some, ih (i + 1) (by omega) (by omega)]

theorem findStart_mem {b : TcpBuffer} : ∀ {n : Nat} {i j : Int}, findStart b n i = some j →
    i ≤ j ∧ j < i + n := by
  intro n
  induction n with
  | zero => intro i j h; cases h
  | succ n ih =>
    intro i j h
    rw [findStart] at h
    split at h
    · cases h
      omega
    · have := ih h
      omega

/-- **No check of a turn fails.** -/
theorem checkedTurn_eq {b : TcpBuffer} (h : b.WF) : checkedTurn b = decodeTurn b := by
  have h1 : 0 ≤ b.readIndex := h.read_nonneg
  have h2 : b.writeIndex ≤ b.m_buffer.length := h.write_le
  have h3 := h.size_lt
  have h4 : b.readIndex ≤ b.writeIndex := h.read_le
  have hra : b.readAble = b.writeIndex - b.readIndex := h.readAble_eq
  rw [checkedTurn, decodeTurn, findStartChecked_eq h _ _ le_rfl (by omega), Option.bind_some]
  cases hf : findStart b (b.writeIndex - b.readIndex).toNat b.readIndex with
  | none => rw [int_eq ⟨by omega, by omega⟩, Option.map_some, hra]
  | some start_index =>
    obtain ⟨hlo, hhi⟩ := findStart_mem hf
    dsimp only
    by_cases hskip : start_index > b.readIndex
    · rw [if_pos hskip, if_pos hskip, int_eq ⟨by omega, by omega⟩, Option.map_some]
    rw [if_neg hskip, if_neg hskip, int_eq ⟨by omega, by omega⟩, Option.bind_some,
      canReadInt32Checked_eq ⟨by omega, by omega⟩, Option.bind_some]
    by_cases hcan : canReadInt32 (start_index + 1) b.writeIndex
    · obtain ⟨pk_len, hlen⟩ := getInt32FromNetByte_some h (i := start_index + 1) (by omega)
        (by have := hcan.2; omega)
      rw [if_neg (by simpa using hcan), if_neg (not_not.mpr hcan), hlen, Option.bind_some,
        Option.bind_some]
      by_cases hbad : BadLength pk_len
      · rw [if_pos hbad, if_pos hbad]
      obtain ⟨hmin, hmax, hnat⟩ := length_pos_of_not_bad hbad
      rw [MAX_PACKAGE_SIZE] at hmax
      rw [if_neg hbad, if_neg hbad, int64_eq ⟨by omega, by omega⟩, Option.bind_some]
      by_cases hmore : start_index + pk_len.toInt > b.writeIndex
      · rw [if_pos hmore, if_pos hmore]
      obtain ⟨flag, hflag⟩ := byteAt_some h (i := start_index + pk_len.toInt - 1) (by omega)
        (by omega)
      rw [if_neg hmore, if_neg hmore, int_eq ⟨by omega, by omega⟩, Option.bind_some,
        int_eq ⟨by omega, by omega⟩, Option.bind_some, hflag, Option.bind_some, Option.bind_some,
        parseChecked_spec h pk_len hlo (by omega) (by omega)]
    · rw [if_pos (by simpa using hcan), if_pos hcan]

theorem checkedLoop_eq : ∀ (fuel : Nat) (out : List TinyPBProtocol) {b : TcpBuffer}, b.WF →
    checkedLoop fuel out b = decodeLoop fuel out b := by
  intro fuel
  induction fuel with
  | zero => intro out b _; rfl
  | succ fuel ih =>
    intro out b h
    have h1 : 0 ≤ b.readIndex := h.read_nonneg
    have h2 : b.writeIndex ≤ b.m_buffer.length := h.write_le
    have h3 := h.size_lt
    have h4 : b.readIndex ≤ b.writeIndex := h.read_le
    have hra : b.readAble = b.writeIndex - b.readIndex := h.readAble_eq
    obtain ⟨turn, hturn, hspec⟩ := decodeTurn_spec h
    rw [checkedLoop, decodeLoop, int_eq ⟨by omega, by omega⟩, Option.bind_some, ← hra,
      checkedTurn_eq h, hturn, Option.bind_some, Option.bind_some]
    cases turn with
    | ret b' => rfl
    | cont message b' =>
      dsimp only
      rw [ih (out ++ message.toList) hspec.1]

/-- **Decoding is in bounds for every content**: no check of the checked decoder fails, and what
it returns is what `decode` returns. -/
theorem checkedDecode_eq {b : TcpBuffer} (h : b.WF) :
    ∃ r, checkedDecode b = some r ∧ decode b = some r := by
  obtain ⟨b', hd, -⟩ := decode_eq h
  exact ⟨_, (checkedLoop_eq _ [] h).trans hd, hd⟩

/-- A packet that declares an id of 2^31 - 1 bytes, and a packet of length -1 behind it. -/
theorem checkedDecode_eq_hostile :
    ∃ r, checkedDecode ⟨0, 31, [2, 0, 0, 0, 26, 127, 255, 255, 255, 0, 0, 0, 0, 0, 0, 0, 0, 0, 0, 0,
      0, 0, 0, 0, 1, 3, 2, 255, 255, 255, 255]⟩ = some r ∧ decode ⟨0, 31, [2, 0, 0, 0, 26, 127, 255,
      255, 255, 0, 0, 0, 0, 0, 0, 0, 0, 0, 0, 0, 0, 0, 0, 0, 1, 3, 2, 255, 255, 255, 255]⟩ = some r :=
  checkedDecode_eq ⟨by decide, by decide, by decide, by decide⟩

end TinyPBCoder

end KaiRPC
