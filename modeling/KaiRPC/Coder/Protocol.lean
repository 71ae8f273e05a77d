import KaiRPC.Tcp.Buffer

/-!
# TinyPB messages and their encoding

`net/coder/tinypb_protocol.h` and the encoding half of `net/coder/tinypb_coder.cc`.
`encodeTinyPB` stamps a message (default id, lengths, checksum `1`) and lays its
fields out; a message over `MAX_PACKAGE_SIZE` has no bytes.  `encode` writes the
bytes of a list of messages into a buffer.

* `layout`: the packet of a message, read off its own fields.
* `encodeTinyPB_eq`: the bytes of a message are the layout of the stamped message.
* `encode_some`: an `encode` that returns has appended the messages' bytes in order.
-/

open Word

namespace KaiRPC

/-! ### Error codes

The values of `m_err_code`, from `common/err_code.h`. -/

def ERROR_PEER_CLOSED : Int32 := 10000000
def ERROR_FAILED_CONNECT : Int32 := 10000001
def ERROR_FAILED_DESERIALIZE : Int32 := 10000003
def ERROR_FAILED_SERIALIZE : Int32 := 10000004
def ERROR_RPC_CALL_TIMEOUT : Int32 := 10000007
def ERROR_SERVICE_NOT_FOUND : Int32 := 10000008
def ERROR_PARSE_SERVICE_NAME : Int32 := 10000010
def ERROR_RPC_CALL_CANCELLED : Int32 := 10000013
def ERROR_RPC_TRANSPORT : Int32 := 10000014

structure TinyPBProtocol where
  m_msg_id : Bytes := []
  m_pk_len : Int32 := 0
  m_msg_id_len : Int32 := 0
  m_method_name_len : Int32 := 0
  m_method_name : Bytes := []
  m_err_code : Int32 := 0
  m_err_info_len : Int32 := 0
  m_err_info : Bytes := []
  m_pb_data : Bytes := []
  m_check_sum : Int32 := 0
  parse_success : Bool := false
deriving DecidableEq, Repr

namespace TinyPBProtocol

def MAX_PACKAGE_SIZE : Nat := 10 * 1024 * 1024

def MIN_PACKAGE_SIZE : Nat := 1 + 4 + 4 + 4 + 4 + 4 + 4 + 1

def PB_START : UInt8 := 0x02

def PB_END : UInt8 := 0x03

/-- `MIN_PACKAGE_SIZE` and the lengths of the four strings. -/
def packageSize (m : TinyPBProtocol) : Nat :=
  MIN_PACKAGE_SIZE + m.m_msg_id.length + m.m_method_name.length + m.m_err_info.length
    + m.m_pb_data.length

/-- An empty id is replaced before anything else is looked at. -/
def withMsgId (m : TinyPBProtocol) : TinyPBProtocol :=
  if m.m_msg_id = [] then { m with m_msg_id := str "123456789" } else m

/-- What `encodeTinyPB` leaves in the fields of a message it encodes. -/
def stamp (m : TinyPBProtocol) : TinyPBProtocol :=
  { m with
    m_pk_len := Int32.ofNat m.packageSize
    m_msg_id_len := Int32.ofNat m.m_msg_id.length
    m_method_name_len := Int32.ofNat m.m_method_name.length
    m_err_info_len := Int32.ofNat m.m_err_info.length
    m_check_sum := 1
    parse_success := true }

/-- **The packet of a message**, byte for byte. -/
def layout (m : TinyPBProtocol) : Bytes :=
  [PB_START] ++ netBytes m.m_pk_len
    ++ netBytes m.m_msg_id_len ++ m.m_msg_id
    ++ netBytes m.m_method_name_len ++ m.m_method_name
    ++ netBytes m.m_err_code
    ++ netBytes m.m_err_info_len ++ m.m_err_info
    ++ m.m_pb_data
    ++ netBytes m.m_check_sum ++ [PB_END]

theorem layout_length (m : TinyPBProtocol) : m.layout.length = m.packageSize := by
  simp only [layout, packageSize, MIN_PACKAGE_SIZE, List.length_append, List.length_singleton,
    netBytes_length]
  omega

theorem withMsgId_of_ne_nil {m : TinyPBProtocol} (h : m.m_msg_id ≠ []) : m.withMsgId = m :=
  if_neg h

end TinyPBProtocol

open TinyPBProtocol

namespace TinyPBCoder

/-- The message as the call leaves it, and the bytes it allocates (`nullptr` over
the limit). -/
def encodeTinyPB (message : TinyPBProtocol) : TinyPBProtocol × Option Bytes :=
  let message := message.withMsgId
  let pk_len := message.packageSize
  if pk_len > MAX_PACKAGE_SIZE then (message, none)
  else
    let msg_id_len := Int32.ofNat message.m_msg_id.length
    let method_name_len := Int32.ofNat message.m_method_name.length
    let err_info_len := Int32.ofNat message.m_err_info.length
    let buf := [PB_START] ++ netBytes (Int32.ofNat pk_len)
      ++ netBytes msg_id_len ++ message.m_msg_id
      ++ netBytes method_name_len ++ message.m_method_name
      ++ netBytes message.m_err_code
      ++ netBytes err_info_len ++ message.m_err_info
      ++ message.m_pb_data
      ++ netBytes 1 ++ [PB_END]
    ({ message with
       m_check_sum := 1
       m_pk_len := Int32.ofNat pk_len
       m_msg_id_len := msg_id_len
       m_method_name_len := method_name_len
       m_err_info_len := err_info_len
       parse_success := true }, some buf)

/-- The bytes of a message: none when it is over the limit. -/
def wire (m : TinyPBProtocol) : Bytes := (encodeTinyPB m).2.getD []

/-- The size test of `encodeTinyPB`. -/
def Sendable (m : TinyPBProtocol) : Prop := m.withMsgId.packageSize ≤ MAX_PACKAGE_SIZE

instance (m : TinyPBProtocol) : Decidable (Sendable m) := inferInstanceAs (Decidable (_ ≤ _))

/-- One turn of the loop of `encode`. -/
def encodeOne (out_buffer : TcpBuffer) (m : TinyPBProtocol) : Option TcpBuffer :=
  match (encodeTinyPB m).2 with
  | some buf => if buf.length ≠ 0 then out_buffer.writeToBuffer buf else some out_buffer
  | none => some out_buffer

def encode (messages : List TinyPBProtocol) (out_buffer : TcpBuffer) : Option TcpBuffer :=
  messages.foldlM encodeOne out_buffer

/-! ### What is written -/

theorem encodeTinyPB_eq {m : TinyPBProtocol} (h : Sendable m) :
    encodeTinyPB m = (m.withMsgId.stamp, some m.withMsgId.stamp.layout) := by
  rw [encodeTinyPB, if_neg (Nat.not_lt.mpr h)]
  rfl

theorem encodeTinyPB_of_not {m : TinyPBProtocol} (h : ¬ Sendable m) :
    encodeTinyPB m = (m.withMsgId, none) := by
  rw [encodeTinyPB, if_pos (Nat.lt_of_not_le h)]

theorem wire_eq {m : TinyPBProtocol} (h : Sendable m) : wire m = m.withMsgId.stamp.layout := by
  rw [wire, encodeTinyPB_eq h]
  rfl

theorem wire_of_not {m : TinyPBProtocol} (h : ¬ Sendable m) : wire m = [] := by
  rw [wire, encodeTinyPB_of_not h]
  rfl

theorem layout_ne_nil (m : TinyPBProtocol) : m.layout ≠ [] := by
  intro h
  have := layout_length m
  rw [h] at this
  simp [packageSize, MIN_PACKAGE_SIZE] at this
  omega

theorem wire_eq_nil_iff {m : TinyPBProtocol} : wire m = [] ↔ ¬ Sendable m := by
  constructor
  · intro h hs
    rw [wire_eq hs] at h
    exact layout_ne_nil _ h
  · exact wire_of_not

theorem encodeOne_eq (b : TcpBuffer) (m : TinyPBProtocol) :
    encodeOne b m = if wire m = [] then some b else b.writeToBuffer (wire m) := by
  by_cases hs : Sendable m
  · have hl : m.withMsgId.stamp.layout.length ≠ 0 := fun h =>
      layout_ne_nil _ (List.length_eq_zero_iff.mp h)
    rw [if_neg (fun h => wire_eq_nil_iff.mp h hs), encodeOne, wire_eq hs, encodeTinyPB_eq hs]
    exact if_pos hl
  · rw [if_pos (wire_of_not hs), encodeOne, encodeTinyPB_of_not hs]

theorem encodeOne_some {b b' : TcpBuffer} (h : b.WF) {m : TinyPBProtocol}
    (he : encodeOne b m = some b') : b'.WF ∧ b'.content = b.content ++ wire m := by
  rw [encodeOne_eq] at he
  split at he
  · rename_i hnil
    cases he
    exact ⟨h, by rw [hnil, List.append_nil]⟩
  · exact TcpBuffer.writeToBuffer_some h he

/-- **An `encode` that returns has appended the bytes of the messages in order.** -/
theorem encode_some : ∀ (ms : List TinyPBProtocol) {b b' : TcpBuffer}, b.WF →
    encode ms b = some b' → b'.WF ∧ b'.content = b.content ++ ms.flatMap wire := by
  intro ms
  induction ms with
  | nil =>
    intro b b' h he
    cases he
    exact ⟨h, by simp⟩
  | cons m ms ih =>
    intro b b' h he
    simp only [encode, List.foldlM_cons, Option.bind_eq_bind, Option.bind_eq_some_iff] at he
    obtain ⟨b₁, h1, h2⟩ := he
    obtain ⟨hwf, hc⟩ := encodeOne_some h h1
    obtain ⟨hwf', hc'⟩ := ih hwf h2
    exact ⟨hwf', by rw [hc', hc, List.flatMap_cons, List.append_assoc]⟩

/-- Every write of an `encode` has room for its bytes or a new capacity that is an `int`. -/
def EncodeFits : List TinyPBProtocol → TcpBuffer → Prop
  | [], _ => True
  | m :: ms, b => b.WriteFits (wire m).length ∧ ∀ b', encodeOne b m = some b' → EncodeFits ms b'

/-- If all the bytes together fit, so does each write: growing never moves the write index
further than the bytes written. -/
theorem encodeFits_of_total : ∀ (ms : List TinyPBProtocol) {b : TcpBuffer}, b.WF →
    b.WriteFits (ms.flatMap wire).length → EncodeFits ms b := by
  intro ms
  induction ms with
  | nil => intro b _ _; trivial
  | cons m ms ih =>
    intro b h hf
    rw [List.flatMap_cons, List.length_append] at hf
    have h0 : 0 ≤ b.m_write_index := le_trans h.read_nonneg h.read_le
    refine ⟨?_, ?_⟩
    · rcases hf with hf | hf
      · exact Or.inl (by omega)
      · exact Or.inr (by omega)
    · intro b' he
      have hwf' := (encodeOne_some h he).1
      have h0' : 0 ≤ b'.m_write_index := le_trans hwf'.read_nonneg hwf'.read_le
      refine ih hwf' ?_
      rw [encodeOne_eq] at he
      split at he
      · rename_i hnil
        cases he
        rw [hnil, List.length_nil, Nat.zero_add] at hf
        exact hf
      · obtain ⟨hle, hroom⟩ := TcpBuffer.writeToBuffer_index h he
        rcases hf with hf | hf
        · have := hroom (by omega)
          exact Or.inl (by omega)
        · exact Or.inr (by omega)

/-- **An `encode` that fits returns.** -/
theorem encode_fits : ∀ (ms : List TinyPBProtocol) {b : TcpBuffer}, b.WF → EncodeFits ms b →
    ∃ b', encode ms b = some b' := by
  intro ms
  induction ms with
  | nil => intro b _ _; exact ⟨b, rfl⟩
  | cons m ms ih =>
    intro b h hf
    obtain ⟨hw, hrest⟩ := hf
    obtain ⟨b₁, h1⟩ : ∃ b₁, encodeOne b m = some b₁ := by
      rw [encodeOne_eq]
      split
      · exact ⟨b, rfl⟩
      · exact TcpBuffer.writeToBuffer_fits h hw
    obtain ⟨b₂, h2⟩ := ih (encodeOne_some h h1).1 (hrest b₁ h1)
    exact ⟨b₂, by rw [encode, List.foldlM_cons, h1]; exact h2⟩

end TinyPBCoder

end KaiRPC
