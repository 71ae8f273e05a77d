import KaiRPC.Coder.Stream

/-!
# What decoding consumes

The converse of `Coder.Scan`: there a packet is read back, here what was accepted is a packet.

* `frameStep_emit`: **an accepted packet is the layout of its message**, with every length field
  the length of its string.
* `decoded_slices`: the decoded stream is `g₀ f₁ g₁ … fₙ gₙ` and the residual, `fᵢ` the packet of
  the `i`-th message, for one call and for a stream that comes in pieces.
* `frameStep_none`: the scanner asks for more only inside a packet that is not all there.
* `decode_settles`: **`decode` returns, leaves at most such a packet, and a second call finds
  nothing to do.**
-/

open Word

namespace KaiRPC

open TinyPBProtocol

namespace TinyPBCoder

/-! ### An accepted packet -/

theorem takeInt32_some {s s' : Bytes} {v : Int32} (h : takeInt32 s = some (v, s')) :
    s = netBytes v ++ s' := by
  match s, h with
  | b₀ :: b₁ :: b₂ :: b₃ :: s, h =>
    cases h
    rw [netBytes_ofNetBytes]
    rfl

theorem takeField_some {len : Int32} {s f s' : Bytes} (h : takeField len s = some (f, s')) :
    s = f ++ s' ∧ len.toInt = f.length := by
  obtain ⟨hfit, h⟩ := Option.ite_none_right_eq_some.mp h
  cases h
  exact ⟨(List.take_append_drop _ s).symm, by rw [List.length_take]; omega⟩

theorem parseFrame_some {pk_len : Int32} {f : Bytes} {m : TinyPBProtocol} (hlen : 26 ≤ f.length)
    (h : parseFrame pk_len f = some m) :
    (f.take (f.length - 5)).drop 5 = fields m ∧
      (f.take (f.length - 1)).drop (f.length - 5) = netBytes m.m_check_sum ∧
      m.m_pk_len = pk_len ∧ m.m_msg_id_len.toInt = m.m_msg_id.length ∧
      m.m_method_name_len.toInt = m.m_method_name.length ∧
      m.m_err_info_len.toInt = m.m_err_info.length ∧ m.parse_success = true := by
  obtain ⟨⟨msg_id_len, s₁⟩, h1, h⟩ := Option.bind_eq_some_iff.mp h
  obtain ⟨⟨msg_id, s₂⟩, h2, h⟩ := Option.bind_eq_some_iff.mp h
  obtain ⟨⟨method_name_len, s₃⟩, h3, h⟩ := Option.bind_eq_some_iff.mp h
  obtain ⟨⟨method_name, s₄⟩, h4, h⟩ := Option.bind_eq_some_iff.mp h
  obtain ⟨⟨err_code, s₅⟩, h5, h⟩ := Option.bind_eq_some_iff.mp h
  obtain ⟨⟨err_info_len, s₆⟩, h6, h⟩ := Option.bind_eq_some_iff.mp h
  obtain ⟨⟨err_info, pb_data⟩, h7, h⟩ := Option.bind_eq_some_iff.mp h
  obtain ⟨⟨check_sum, s₇⟩, h8, rfl⟩ := Option.map_eq_some_iff.mp h
  obtain ⟨e2, l2⟩ := takeField_some h2
  obtain ⟨e4, l4⟩ := takeField_some h4
  obtain ⟨e7, l7⟩ := takeField_some h7
  refine ⟨?_, ?_, rfl, l2, l4, l7, rfl⟩
  · rw [takeInt32_some h1, e2, takeInt32_some h3, e4, takeInt32_some h5, takeInt32_some h6, e7]
    simp only [fields, List.append_assoc]
  · -- the checksum is all there is between the fields and the end flag
    have hs := takeInt32_length h8
    rw [List.length_drop, List.length_take] at hs
    obtain rfl : s₇ = [] := List.length_eq_zero_iff.mp (by omega)
    rw [takeInt32_some h8, List.append_nil]

theorem frame_split {f : Bytes} (hlen : 26 ≤ f.length) :
    f = f.take 5 ++ (f.take (f.length - 5)).drop 5
      ++ (f.take (f.length - 1)).drop (f.length - 5) ++ f.drop (f.length - 1) := by
  have h1 : f.take 5 ++ (f.take (f.length - 5)).drop 5 = f.take (f.length - 5) := by
    conv_rhs => rw [← List.take_append_drop 5 (f.take (f.length - 5))]
    rw [List.take_take, min_eq_left (by omega)]
  have h2 : f.take (f.length - 5) ++ (f.take (f.length - 1)).drop (f.length - 5)
      = f.take (f.length - 1) := by
    conv_rhs => rw [← List.take_append_drop (f.length - 5) (f.take (f.length - 1))]
    rw [List.take_take, min_eq_left (by omega)]
  rw [h1, h2, List.take_append_drop]

theorem frameStep_some {s : Bytes} {m : TinyPBProtocol} {n : Nat}
    (h : frameStep s = some (some m, n)) : ∃ pk_len t s', s = PB_START :: t ∧
      takeInt32 t = some (pk_len, s') ∧ ¬ BadLength pk_len ∧ n = pk_len.toInt.toNat ∧
      n ≤ s.length ∧ s[n - 1]? = some PB_END ∧ parseFrame pk_len (s.take n) = some m := by
  cases s with
  | nil => cases h
  | cons c t =>
    rw [frameStep] at h
    split at h
    · cases h
    · rename_i hc
      obtain ⟨⟨pk_len, s'⟩, ht, h⟩ := Option.bind_eq_some_iff.mp h
      dsimp only at h
      split at h
      · cases h
      · rename_i hbad
        split at h
        · cases h
        · rename_i hlen
          split at h
          · cases h
          · rename_i hflag
            obtain ⟨hm, rfl⟩ := Prod.mk.inj (Option.some.inj h)
            refine ⟨pk_len, t, s', by rw [not_not.mp hc], ht, hbad, rfl, by omega,
              not_not.mp hflag, hm⟩

/-- **An accepted packet is the layout of its message.** -/
theorem frameStep_emit {s : Bytes} {m : TinyPBProtocol} {n : Nat}
    (h : frameStep s = some (some m, n)) :
    s.take n = m.layout ∧ Stamped m ∧ m.packageSize ≤ MAX_PACKAGE_SIZE := by
  obtain ⟨pk_len, t, s', rfl, ht, hbad, hn, hle, hflag, hm⟩ := frameStep_some h
  obtain ⟨hmin, hmax, hnat⟩ := length_pos_of_not_bad hbad
  have hlen : ((PB_START :: t).take n).length = n := by rw [List.length_take]; omega
  obtain ⟨hfields, hsum, hpk, l1, l2, l3, hok⟩ := parseFrame_some (by omega) hm
  have hhead : ((PB_START :: t).take n).take 5 = [PB_START] ++ netBytes m.m_pk_len := by
    rw [List.take_take, min_eq_left (by omega), takeInt32_some ht, hpk]
    exact congrArg _ (List.take_left' (netBytes_length pk_len))
  have hlast : ((PB_START :: t).take n).drop (n - 1) = [PB_END] := by
    rw [List.drop_take, show n - (n - 1) = 1 by omega, List.take_one, List.head?_drop, hflag]
    rfl
  have hlayout : (PB_START :: t).take n = m.layout := by
    rw [frame_split (f := (PB_START :: t).take n) (by omega), hfields, hsum, hhead, hlen, hlast,
      layout_eq]
    simp only [List.append_assoc]
  have hsize : m.packageSize = n := by rw [← layout_length, ← hlayout, hlen]
  exact ⟨hlayout, ⟨by rw [hpk, hsize]; omega, l1, l2, l3, hok⟩, by omega⟩

/-! ### Encoding what was decoded -/

theorem stamp_of_stamped {m : TinyPBProtocol} (h : Stamped m) (hsum : m.m_check_sum = 1) :
    m.stamp = m := by
  obtain ⟨h1, h2, h3, h4, h5⟩ := h
  have hofNat : ∀ {len : Int32} {n : Nat}, len.toInt = n → Int32.ofNat n = len := by
    intro len n hn
    rw [← Int32.ofInt_eq_ofNat, ← hn, Int32.ofInt_toInt]
  rw [stamp, hofNat h1, hofNat h2, hofNat h3, hofNat h4, ← hsum, ← h5]

/-- **Encoding a decoded message writes its packet again.** -/
theorem encodeTinyPB_of_stamped {m : TinyPBProtocol} (h : Stamped m)
    (hmax : m.packageSize ≤ MAX_PACKAGE_SIZE) (hid : m.m_msg_id ≠ []) (hsum : m.m_check_sum = 1) :
    encodeTinyPB m = (m, some m.layout) := by
  have hs : Sendable m := by rw [Sendable, withMsgId_of_ne_nil hid]; exact hmax
  rw [encodeTinyPB_eq hs, withMsgId_of_ne_nil hid, stamp_of_stamped h hsum]

/-- What is true of every decoded message: its packet has the declared length, its strings have
theirs, and encoding it again gives the same bytes. -/
def Faithful (m : TinyPBProtocol) : Prop :=
  Stamped m ∧ m.m_pk_len.toInt = m.layout.length ∧
    (m.m_msg_id ≠ [] → m.m_check_sum = 1 → (encodeTinyPB m).2 = some m.layout)

theorem faithful_of_step {s : Bytes} {m : TinyPBProtocol} {n : Nat}
    (h : tinyPB.step s = some (some m, n)) : Faithful m := by
  obtain ⟨-, hst, hmax⟩ := frameStep_emit h
  refine ⟨hst, by rw [hst.pk_len, layout_length], ?_⟩
  intro hid hsum
  rw [encodeTinyPB_of_stamped hst hmax hid hsum]

theorem scan_slices (s : Bytes) :
    Scanner.Factors layout s (tinyPB.scan s).1 (tinyPB.scan s).2 ∧
      ∀ m ∈ (tinyPB.scan s).1, Faithful m :=
  ⟨tinyPB.scan_factors (fun h => (frameStep_emit h).1) s, tinyPB.scan_forall faithful_of_step s⟩

/-- **Every decoded message is a slice of the stream.**  A call of `decode` factors the content
into the packets of its messages, gaps between them and what it leaves; so does a stream that is
fed in any pieces into an empty buffer. -/
theorem decoded_slices {b : TcpBuffer} (hb : b.Reachable) :
    (∃ out b', decode b = some (out, b') ∧
      Scanner.Factors layout b.content out b'.content ∧ ∀ m ∈ out, Faithful m) ∧
    ∀ chunks, b.readAble = 0 → FeedFits chunks b → ∃ out b', feed chunks b = some (out, b') ∧
      Scanner.Factors layout chunks.flatten out b'.content ∧ ∀ m ∈ out, Faithful m := by
  have h := hb.wf
  refine ⟨?_, ?_⟩
  · obtain ⟨b', hd, -, hc, -⟩ := decode_eq h
    obtain ⟨hfac, hall⟩ := scan_slices b.content
    exact ⟨_, b', hd, hc ▸ hfac, hall⟩
  · intro chunks hempty hfits
    have hnil : b.content = [] := h.content_eq_nil_iff.mpr hempty
    obtain ⟨b', hfeed, -, hc⟩ := feed_spec chunks h hfits
    rw [tinyPB.feed_eq chunks b.content (by rw [hnil]; rfl), hnil, List.nil_append] at hfeed hc
    obtain ⟨hfac, hall⟩ := scan_slices chunks.flatten
    exact ⟨_, b', hfeed, hc ▸ hfac, hall⟩

/-- A packet behind a stray byte. -/
theorem decoded_slices_stray_byte :
    ∃ b, (TcpBuffer.new 8).writeToBuffer (7 :: wire { m_msg_id := [2], m_pb_data := [3, 2] })
        = some b ∧
      ∃ out b', decode b = some (out, b') ∧ Scanner.Factors layout b.content out b'.content ∧
        ∀ m ∈ out, Faithful m := by
  have hfits : (TcpBuffer.new 8).WriteFits
      (7 :: wire { m_msg_id := [2], m_pb_data := [3, 2] }).length := by decide +kernel
  obtain ⟨b, hw⟩ := TcpBuffer.writeToBuffer_fits (TcpBuffer.new_wf (by decide)) hfits
  exact ⟨b, hw, (decoded_slices (.write _ (.new 8 (by decide)) hw)).1⟩

/-! ### What is left -/

/-- The front of a packet that is not all there: a start flag without a whole package length, or
with one in range that the bytes do not reach. -/
def Incomplete (s : Bytes) : Prop :=
  ∃ t, s = PB_START :: t ∧ (s.length < 5 ∨ ∃ (pk_len : Int32) (u : Bytes),
    t = netBytes pk_len ++ u ∧ MIN_PACKAGE_SIZE ≤ pk_len.toInt ∧
      pk_len.toInt ≤ MAX_PACKAGE_SIZE ∧ s.length < pk_len.toInt)

theorem Incomplete.length_lt {s : Bytes} (h : Incomplete s) : s.length < MAX_PACKAGE_SIZE := by
  obtain ⟨t, -, hshort | ⟨pk_len, u, -, -, hmax, hlt⟩⟩ := h
  · exact lt_of_lt_of_le hshort (by decide)
  · omega

/-- **The scanner asks for more only inside a packet.** -/
theorem frameStep_none {s : Bytes} (h : frameStep s = none) : s = [] ∨ Incomplete s := by
  cases s with
  | nil => exact Or.inl rfl
  | cons c t =>
    rw [frameStep] at h
    split at h
    · cases h
    · rename_i hc
      refine Or.inr ⟨t, by rw [not_not.mp hc], ?_⟩
      cases ht : takeInt32 t with
      | none =>
        have := takeInt32_eq_none_iff.mp ht
        exact Or.inl (by rw [List.length_cons]; omega)
      | some p =>
        rw [ht, Option.bind_some] at h
        dsimp only at h
        split at h
        · cases h
        · rename_i hbad
          split at h
          · rename_i hfew
            rw [BadLength, not_or] at hbad
            exact Or.inr ⟨p.1, p.2, takeInt32_some ht, by omega, by omega, by omega⟩
          · split at h <;> cases h

/-! ### A second call -/

theorem decodeTurn_ret {b b' : TcpBuffer} (h : decodeTurn b = some (.ret b')) :
    b' = b ∨ b' = moveReadIndexIfNeeded b b.readAble := by
  rw [decodeTurn] at h
  split at h
  · cases h
    exact Or.inr rfl
  · split at h
    · cases h
    · split at h
      · cases h
        exact Or.inl rfl
      · obtain ⟨pk_len, -, h⟩ := Option.bind_eq_some_iff.mp h
        split at h
        · cases h
        · split at h
          · cases h
            exact Or.inl rfl
          · obtain ⟨flag, -, h⟩ := Option.bind_eq_some_iff.mp h
            split at h
            · cases h
            · obtain ⟨message, -, h⟩ := Option.map_eq_some_iff.mp h
              cases h

/-- Where the scanner asks for more, a turn returns the buffer untouched. -/
theorem decodeTurn_of_none {b : TcpBuffer} (h : b.WF) (hne : b.content ≠ [])
    (hnone : frameStep b.content = none) : decodeTurn b = some (.ret b) := by
  have hscan : tinyPB.scan b.content = ([], b.content) := tinyPB.scan_of_none hnone
  obtain ⟨turn, hturn, hspec⟩ := decodeTurn_spec h
  cases turn with
  | cont message b' =>
    -- a turn that goes on has consumed something, the scanner would not
    obtain ⟨-, -, hlt, hs⟩ := hspec
    have hrest : b.content = (tinyPB.scan b'.content).2 := by
      rw [hscan] at hs
      exact congrArg Prod.snd hs
    have hle := (tinyPB.residual_suffix b'.content).length_le
    rw [← hrest] at hle
    omega
  | ret b' =>
    obtain ⟨-, -, hs⟩ := hspec
    rw [hscan] at hs
    have hsame : b.content = b'.content := congrArg Prod.snd hs
    rcases decodeTurn_ret hturn with rfl | rfl
    · exact hturn
    · obtain ⟨-, hdrop, -⟩ := moveReadIndexIfNeeded_spec h (n := b.content.length) le_rfl
      rw [h.content_length, ← hsame, List.drop_length] at hdrop
      exact absurd hdrop hne

theorem decode_of_none {b : TcpBuffer} (h : b.WF) (hnone : frameStep b.content = none) :
    decode b = some ([], b) := by
  rw [decode, decodeLoop]
  split
  · rename_i hpos
    have hne : b.content ≠ [] := fun he => by
      have := h.content_eq_nil_iff.mp he
      omega
    rw [decodeTurn_of_none h hne hnone]
    rfl
  · rfl

/-- **`decode` terminates and never gets stuck.**  It leaves nothing or the front of a packet that
is not all there, so less than the limit, and a second call emits nothing and changes nothing. -/
theorem decode_settles {b : TcpBuffer} (hb : b.Reachable) :
    ∃ out b', decode b = some (out, b') ∧ (b'.content = [] ∨ Incomplete b'.content) ∧
      b'.content.length < 10 * 1024 * 1024 ∧ decode b' = some ([], b') := by
  obtain ⟨b', hd, hwf, hc, -⟩ := decode_eq hb.wf
  have hnone : frameStep b'.content = none := by
    rw [hc]
    exact tinyPB.step_residual _
  have hleft := frameStep_none hnone
  refine ⟨_, b', hd, hleft, ?_, decode_of_none hwf hnone⟩
  rcases hleft with hnil | hinc
  · rw [hnil]
    decide
  · exact hinc.length_lt

/-- A start flag with half of its package length. -/
theorem decode_settles_half_word :
    ∃ b, (TcpBuffer.new 8).writeToBuffer [2, 0, 0] = some b ∧
      ∃ out b', decode b = some (out, b') ∧ (b'.content = [] ∨ Incomplete b'.content) ∧
        b'.content.length < 10 * 1024 * 1024 ∧ decode b' = some ([], b') := by
  have hfits : (TcpBuffer.new 8).WriteFits ([2, 0, 0] : Bytes).length := by decide
  obtain ⟨b, hw⟩ := TcpBuffer.writeToBuffer_fits (TcpBuffer.new_wf (by decide)) hfits
  exact ⟨b, hw, decode_settles (.write _ (.new 8 (by decide)) hw)⟩

end TinyPBCoder

end KaiRPC
