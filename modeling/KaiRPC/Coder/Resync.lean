import KaiRPC.Coder.Slices

/-!
# Resynchronisation

What `TinyPBCoder::decode` makes of a stream in which the packets of messages are mixed with
bytes that cannot start a packet and with packets whose envelope is in order but whose fields
are not.

* `Overrun`: the fields of a packet, read one after the other, do not fit before the checksum.
* `MalformedFrame`: flags and package length are right, the fields overrun.
* `parseFrame_overrun`: **such a packet is rejected**, and `frameStep_malformed`: it is consumed
  whole.
* `decode_resync`: **decoding a stream of such segments emits its messages and leaves nothing.**
-/

open Word

namespace KaiRPC

open TinyPBProtocol

namespace TinyPBCoder

/-! ### Fields that do not fit -/

/-- A field of a packet: a word, or a word with the length of the string behind it. -/
inductive FieldKind
  | word
  | string
deriving DecidableEq, Repr

/-- `msg_id`, `method_name`, `err_code` and `err_info`; the protobuf body takes the rest. -/
def fieldKinds : List FieldKind := [.string, .string, .word, .string]

/-- **The fields do not fit into the bytes before the checksum**: some word is cut short, or some
length is negative or reaches past the end, the fields before it being in order. -/
inductive Overrun : List FieldKind → Bytes → Prop
  | short {k : FieldKind} {ks : List FieldKind} {s : Bytes} : s.length < 4 → Overrun (k :: ks) s
  | badLength {ks : List FieldKind} {len : Int32} {s : Bytes} :
      len.toInt < 0 ∨ s.length < len.toInt → Overrun (.string :: ks) (netBytes len ++ s)
  | word {ks : List FieldKind} {v : Int32} {s : Bytes} :
      Overrun ks s → Overrun (.word :: ks) (netBytes v ++ s)
  | string {ks : List FieldKind} {len : Int32} {f s : Bytes} :
      len.toInt = f.length → Overrun ks s → Overrun (.string :: ks) (netBytes len ++ (f ++ s))

/-- A packet with both flags and its own length, in range, whose fields overrun. -/
def MalformedFrame (frame : Bytes) : Prop :=
  ∃ (pk_len check_sum : Int32) (inner : Bytes),
    frame = ([PB_START] ++ netBytes pk_len) ++ inner ++ (netBytes check_sum ++ [PB_END]) ∧
      pk_len.toInt = frame.length ∧ MIN_PACKAGE_SIZE ≤ frame.length ∧
      frame.length ≤ MAX_PACKAGE_SIZE ∧ Overrun fieldKinds inner

/-! ### Reading such fields -/

theorem netBytes_append_inj {v v' : Int32} {s s' : Bytes}
    (h : netBytes v ++ s = netBytes v' ++ s') : v = v' ∧ s = s' := by
  have hw := congrArg takeInt32 h
  rw [takeInt32_netBytes, takeInt32_netBytes] at hw
  exact Prod.mk.inj (Option.some.inj hw)

theorem not_short (v : Int32) (s : Bytes) : ¬ (netBytes v ++ s).length < 4 := by
  rw [List.length_append, netBytes_length]
  omega

theorem Overrun.behind_word {ks : List FieldKind} {v : Int32} {s : Bytes}
    (h : Overrun (.word :: ks) (netBytes v ++ s)) : Overrun ks s := by
  generalize hu : netBytes v ++ s = u at h
  cases h with
  | short hs => exact absurd (hu ▸ hs) (not_short v s)
  | word hs =>
    obtain ⟨-, rfl⟩ := netBytes_append_inj hu
    exact hs

theorem Overrun.behind_string {ks : List FieldKind} {len : Int32} {f s : Bytes}
    (hl : len.toInt = f.length) (h : Overrun (.string :: ks) (netBytes len ++ (f ++ s))) :
    Overrun ks s := by
  generalize hu : netBytes len ++ (f ++ s) = u at h
  cases h with
  | short hs => exact absurd (hu ▸ hs) (not_short len (f ++ s))
  | badLength hbad =>
    obtain ⟨rfl, rfl⟩ := netBytes_append_inj hu
    rw [hl, List.length_append] at hbad
    omega
  | string hl' hs =>
    obtain ⟨rfl, he⟩ := netBytes_append_inj hu
    obtain ⟨-, rfl⟩ := List.append_inj he (by omega)
    exact hs

/-- **A packet whose fields overrun is rejected.** -/
theorem parseFrame_overrun {pk_len : Int32} {frame : Bytes} (hlen : 26 ≤ frame.length)
    (h : Overrun fieldKinds ((frame.take (frame.length - 5)).drop 5)) :
    parseFrame pk_len frame = none := by
  rw [Option.eq_none_iff_forall_ne_some]
  intro m hm
  -- had it been accepted, the fields of its message would be what is there
  obtain ⟨hfields, -, -, l1, l2, l3, -⟩ := parseFrame_some hlen hm
  rw [hfields, fields_eq] at h
  have herr := ((h.behind_string l1).behind_string l2).behind_word
  cases herr.behind_string l3

theorem frameStep_malformed {frame : Bytes} (h : MalformedFrame frame) (t : Bytes) :
    frameStep (frame ++ t) = some (none, frame.length) := by
  obtain ⟨pk_len, check_sum, inner, hframe, hlen, hmin, hmax, hover⟩ := h
  have hbad : ¬ BadLength pk_len := by
    rw [BadLength, hlen]
    omega
  have hl : frame.length = (([PB_START] ++ netBytes pk_len) ++ inner).length + 5 := by
    rw [hframe]
    simp only [List.length_append, netBytes_length, List.length_singleton]
  have hinner : (frame.take (frame.length - 5)).drop 5 = inner := by
    rw [hl, Nat.add_sub_cancel, hframe, List.take_left]
    rfl
  have hlast : frame = ([PB_START] ++ netBytes pk_len ++ inner ++ netBytes check_sum)
      ++ [PB_END] := by
    rw [hframe]
    simp only [List.append_assoc]
  have hopen : frame = PB_START :: (netBytes pk_len ++
      (inner ++ (netBytes check_sum ++ [PB_END]))) := by
    rw [hframe]
    simp only [List.append_assoc, List.cons_append, List.nil_append]
  rw [frameStep_packet t hopen hlen hbad (packet_end hlast t),
    parseFrame_overrun hmin (by rw [hinner]; exact hover)]

/-! ### Streams of segments -/

inductive Segment
  | message (m : TinyPBProtocol)
  | noise (u : Bytes)
  | malformed (frame : Bytes)

namespace Segment

def bytes : Segment → Bytes
  | .message m => wire m
  | .noise u => u
  | .malformed frame => frame

/-- Noise holds no start flag, a malformed packet is one. -/
def Ok : Segment → Prop
  | .message _ => True
  | .noise u => PB_START ∉ u
  | .malformed frame => MalformedFrame frame

/-- The message as `encodeTinyPB` left it; over the limit it was not encoded. -/
def messages : Segment → List TinyPBProtocol
  | .message m => if Sendable m then [(encodeTinyPB m).1] else []
  | _ => []

end Segment

theorem scan_segment {g : Segment} (h : g.Ok) (t : Bytes) :
    tinyPB.scan (g.bytes ++ t) = (g.messages ++ (tinyPB.scan t).1, (tinyPB.scan t).2) := by
  cases g with
  | message m =>
    dsimp only [Segment.bytes, Segment.messages]
    split
    · rename_i hs
      rw [scan_wire hs, encodeTinyPB_eq hs, List.singleton_append]
    · rename_i hs
      rw [wire_of_not hs]
      rfl
  | noise u => exact scan_skip u t fun c hc he => h (he ▸ hc)
  | malformed frame =>
    have hstep : tinyPB.step (frame ++ t) = _ := frameStep_malformed h t
    dsimp only [Segment.bytes]
    rw [tinyPB.scan_of_some hstep, List.drop_left]
    rfl

theorem scan_segments (gs : List Segment) (h : ∀ g ∈ gs, g.Ok) :
    tinyPB.scan (gs.flatMap Segment.bytes) = (gs.flatMap Segment.messages, []) := by
  induction gs with
  | nil => exact scan_nil
  | cons g gs ih =>
    obtain ⟨hg, hgs⟩ := List.forall_mem_cons.mp h
    rw [List.flatMap_cons, scan_segment hg, ih hgs, List.flatMap_cons]

/-- **Resynchronisation**: of any concatenation of encoded messages, bytes without a start flag
and malformed packets, `decode` emits exactly the messages in order and leaves no readable
byte. -/
theorem decode_resync {b : TcpBuffer} (hb : b.Reachable) {segments : List Segment}
    (hok : ∀ g ∈ segments, g.Ok) (hc : b.content = segments.flatMap Segment.bytes) :
    ∃ b', decode b = some (segments.flatMap Segment.messages, b') ∧ b'.readAble = 0 := by
  obtain ⟨b', hd, hwf, hc', -⟩ := decode_eq hb.wf
  rw [hc, scan_segments segments hok] at hd hc'
  exact ⟨b', hd, hwf.content_eq_nil_iff.mp hc'⟩

/-- A packet of the least size whose `msg_id_len` is `-1`. -/
def negativeFrame : Bytes :=
  [2, 0, 0, 0, 26, 255, 255, 255, 255] ++ List.replicate 12 0 ++ [0, 0, 0, 1, 3]

theorem negativeFrame_malformed : MalformedFrame negativeFrame :=
  ⟨26, 1, netBytes (-1) ++ List.replicate 12 0, by decide, by decide, by decide, by decide,
    .badLength (Or.inl (by decide))⟩

/-- Stray bytes, a message, a malformed packet and another message. -/
theorem decode_resync_four :
    ∃ b b', (TcpBuffer.new 8).writeToBuffer ([7, 3] ++ (wire { m_msg_id := [2] } ++
        (negativeFrame ++ wire { m_pb_data := [2, 3] }))) = some b ∧
      decode b = some ([(encodeTinyPB { m_msg_id := [2] }).1,
        (encodeTinyPB { m_pb_data := [2, 3] }).1], b') ∧ b'.readAble = 0 := by
  have hfits : (TcpBuffer.new 8).WriteFits ([7, 3] ++ (wire { m_msg_id := [2] } ++
      (negativeFrame ++ wire { m_pb_data := [2, 3] }))).length := by decide +kernel
  have hnew : (TcpBuffer.new 8).WF := TcpBuffer.new_wf (by decide)
  obtain ⟨b, hw⟩ := TcpBuffer.writeToBuffer_fits hnew hfits
  have hok : ∀ g ∈ ([.noise [7, 3], .message { m_msg_id := [2] }, .malformed negativeFrame,
      .message { m_pb_data := [2, 3] }] : List Segment), g.Ok := by
    intro g hg
    simp only [List.mem_cons, List.not_mem_nil, or_false] at hg
    rcases hg with rfl | rfl | rfl | rfl
    · show PB_START ∉ _
      decide
    · trivial
    · exact negativeFrame_malformed
    · trivial
  obtain ⟨b', hd, hleft⟩ := decode_resync (.write _ (.new 8 (by decide)) hw) hok
    (TcpBuffer.writeToBuffer_some hnew hw).2
  exact ⟨b, b', hw, hd, hleft⟩

end TinyPBCoder

end KaiRPC
