import KaiRPC.Coder.Decode

/-!
# Streams of packets

What the coder promises over a connection.  TCP hands the bytes over in pieces of
its own choosing; `feed` writes each piece into the buffer and decodes after it.

* `feed_spec`: feeding pieces is the scanner's own feeding of them.
* `decode_chunks`: the messages and the residual do not depend on the cut.
* `encode_decode`: decoding what `encode` wrote returns the messages within the
  limit and consumes every byte.
-/

namespace KaiRPC

open TinyPBProtocol

namespace TinyPBCoder

/-- Write each piece and decode after it. -/
def feed : List Bytes → TcpBuffer → Option (List TinyPBProtocol × TcpBuffer)
  | [], b => some ([], b)
  | c :: cs, b => ((b.writeToBuffer c).bind decode).bind fun (out, b) =>
      (feed cs b).map fun (out', b) => (out ++ out', b)

/-- Every write of a `feed` has room for its piece or a new capacity that is an `int`. -/
def FeedFits : List Bytes → TcpBuffer → Prop
  | [], _ => True
  | c :: cs, b => b.WriteFits c.length ∧ ∀ r ∈ (b.writeToBuffer c).bind decode, FeedFits cs r.2

instance decidableFeedFits : ∀ (cs : List Bytes) (b : TcpBuffer), Decidable (FeedFits cs b)
  | [], _ => isTrue trivial
  | c :: cs, b =>
      have : DecidablePred fun r : List TinyPBProtocol × TcpBuffer => FeedFits cs r.2 :=
        fun r => decidableFeedFits cs r.2
      inferInstanceAs (Decidable (b.WriteFits c.length ∧
        ∀ r ∈ (b.writeToBuffer c).bind decode, FeedFits cs r.2))

theorem writeToBuffer_decode {b : TcpBuffer} (h : b.WF) {c : Bytes} (hf : b.WriteFits c.length) :
    ∃ b', (b.writeToBuffer c).bind decode = some ((tinyPB.scan (b.content ++ c)).1, b') ∧ b'.WF ∧
      b'.content = (tinyPB.scan (b.content ++ c)).2 := by
  obtain ⟨b₁, hw⟩ := TcpBuffer.writeToBuffer_fits h hf
  obtain ⟨hwf, hc⟩ := TcpBuffer.writeToBuffer_some h hw
  obtain ⟨b', hd, hwf', hc', -⟩ := decode_eq hwf
  rw [hc] at hd hc'
  exact ⟨b', by rw [hw, Option.bind_some, hd], hwf', hc'⟩

theorem feed_spec : ∀ (cs : List Bytes) {b : TcpBuffer}, b.WF → FeedFits cs b →
    ∃ b', feed cs b = some ((tinyPB.feed b.content cs).1, b') ∧ b'.WF ∧
      b'.content = (tinyPB.feed b.content cs).2 := by
  intro cs
  induction cs with
  | nil => intro b h _; exact ⟨b, rfl, h, rfl⟩
  | cons c cs ih =>
    intro b h hf
    obtain ⟨hw, hrest⟩ := hf
    obtain ⟨b₁, hd, hwf, hc⟩ := writeToBuffer_decode h hw
    obtain ⟨b', hfeed, hwf', hc'⟩ := ih hwf (hrest _ hd)
    rw [hc] at hfeed hc'
    refine ⟨b', ?_, hwf', hc'⟩
    rw [feed, hd, Option.bind_some]
    dsimp only
    rw [hfeed]
    rfl

/-- **Decoding does not depend on how the stream was cut**: the pieces one after another give
the messages and the residual of the whole stream. -/
theorem decode_chunks {b : TcpBuffer} (hb : b.Reachable) (hempty : b.readAble = 0)
    (chunks : List Bytes) (hfeed : FeedFits chunks b)
    (hwhole : b.WriteFits chunks.flatten.length) :
    ∃ out b₁ b₂, feed chunks b = some (out, b₁) ∧
      (b.writeToBuffer chunks.flatten).bind decode = some (out, b₂) ∧
      b₁.content = b₂.content := by
  have h := hb.wf
  have hnil : b.content = [] := h.content_eq_nil_iff.mpr hempty
  obtain ⟨b₁, hrun, -, hc₁⟩ := feed_spec chunks h hfeed
  obtain ⟨b₂, hd, -, hc₂⟩ := writeToBuffer_decode h hwhole
  have hscan : tinyPB.feed b.content chunks = tinyPB.scan (b.content ++ chunks.flatten) :=
    tinyPB.feed_eq chunks b.content (by rw [hnil]; rfl)
  rw [hscan] at hrun hc₁
  exact ⟨_, b₁, b₂, hrun, hd, hc₁.trans hc₂.symm⟩

/-- A packet behind a stray byte, cut inside its package length, in a buffer too small for it. -/
theorem decode_chunks_cut_packet :
    let packet := wire { m_msg_id := [2], m_pb_data := [3, 2] }
    ∃ out b₁ b₂, feed [7 :: packet.take 3, packet.drop 3] (TcpBuffer.new 8) = some (out, b₁) ∧
      ((TcpBuffer.new 8).writeToBuffer [7 :: packet.take 3, packet.drop 3].flatten).bind decode
        = some (out, b₂) ∧
      b₁.content = b₂.content :=
  decode_chunks (.new 8 (by decide)) (by decide) _ (by decide +kernel) (by decide +kernel)

/-- **Decoding undoes encoding.**  The messages within the limit come back in order, stamped,
and nothing is left over; a message over the limit has no bytes. -/
theorem encode_decode {b : TcpBuffer} (hb : b.Reachable) (hempty : b.readAble = 0)
    (ms : List TinyPBProtocol) (hfits : EncodeFits ms b) :
    ∃ b₁ b₂, encode ms b = some b₁ ∧ b₁.content = ms.flatMap wire ∧
      decode b₁ = some ((ms.filter fun m => Sendable m).map fun m => m.withMsgId.stamp, b₂) ∧
      b₂.readAble = 0 ∧
      (∀ m ∈ ms, wire m = [] ↔ MAX_PACKAGE_SIZE < m.withMsgId.packageSize) ∧
      ∀ m, Sendable m → Stamped m.withMsgId.stamp ∧ m.withMsgId.stamp.m_check_sum = 1 := by
  have h := hb.wf
  have hnil : b.content = [] := h.content_eq_nil_iff.mpr hempty
  obtain ⟨b₁, he⟩ := encode_fits ms h hfits
  obtain ⟨hwf₁, hc₁⟩ := encode_some ms h he
  rw [hnil, List.nil_append] at hc₁
  obtain ⟨b₂, hd, hwf₂, hc₂, -⟩ := decode_eq hwf₁
  have hscan := scan_flatMap_wire ms []
  rw [List.append_nil, scan_nil, List.append_nil] at hscan
  rw [hc₁, hscan] at hd hc₂
  refine ⟨b₁, b₂, he, hc₁, hd, hwf₂.content_eq_nil_iff.mp hc₂, ?_, ?_⟩
  · intro m _
    rw [wire_eq_nil_iff]
    exact Nat.not_le
  · intro m hs
    exact ⟨stamped_stamp hs, rfl⟩

/-- Two messages, the first with the default id, the second with flags in its strings. -/
theorem encode_decode_two :
    let ms : List TinyPBProtocol := [{ m_err_code := -1 }, { m_msg_id := [2], m_pb_data := [3, 2] }]
    let b := TcpBuffer.new 8
    ∃ b₁ b₂, encode ms b = some b₁ ∧ b₁.content = ms.flatMap wire ∧
      decode b₁ = some ((ms.filter fun m => Sendable m).map fun m => m.withMsgId.stamp, b₂) ∧
      b₂.readAble = 0 ∧
      (∀ m ∈ ms, wire m = [] ↔ MAX_PACKAGE_SIZE < m.withMsgId.packageSize) ∧
      ∀ m, Sendable m → Stamped m.withMsgId.stamp ∧ m.withMsgId.stamp.m_check_sum = 1 :=
  encode_decode (.new 8 (by decide)) (by decide) _
    (encodeFits_of_total _ (TcpBuffer.new_wf (by decide)) (by decide +kernel))

end TinyPBCoder

end KaiRPC
