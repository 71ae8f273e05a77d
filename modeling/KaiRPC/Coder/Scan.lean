import KaiRPC.Lib.Scanner
import KaiRPC.Coder.Protocol

/-!
# The TinyPB scanner

What decoding does to a stream, written on the bytes alone: no buffer, no index.
`frameStep` looks at the front of the stream and skips a byte that cannot start a
packet, asks for more while a packet is incomplete, or consumes a packet, whose
fields `parseFrame` reads.  `tinyPB` is this step as a `Scanner`.

* `tinyPB`: the step decides on a prefix as it does on every extension of it.
* `parseFrame_layout`: the fields of a packet are read back.
* `scan_wire`: scanning the bytes of a message returns the stamped message and
  goes on behind it.
-/

open Word

namespace KaiRPC

open TinyPBProtocol

namespace TinyPBCoder

/-- The word at the front. -/
def takeInt32 : Bytes → Option (Int32 × Bytes)
  | b₀ :: b₁ :: b₂ :: b₃ :: s => some (ofNetBytes b₀ b₁ b₂ b₃, s)
  | _ => none

/-- The field of `len` bytes at the front. -/
def takeField (len : Int32) (s : Bytes) : Option (Bytes × Bytes) :=
  if 0 ≤ len.toInt ∧ len.toInt ≤ s.length then
    some (s.take len.toInt.toNat, s.drop len.toInt.toNat)
  else none

/-- The message in a packet whose start flag, package length and end flag are in
order.  Behind the two flags, the package length and the checksum lie the fields;
the protobuf body is what the others leave. -/
def parseFrame (pk_len : Int32) (f : Bytes) : Option TinyPBProtocol :=
  (takeInt32 ((f.take (f.length - 5)).drop 5)).bind fun (msg_id_len, s) =>
  (takeField msg_id_len s).bind fun (msg_id, s) =>
  (takeInt32 s).bind fun (method_name_len, s) =>
  (takeField method_name_len s).bind fun (method_name, s) =>
  (takeInt32 s).bind fun (err_code, s) =>
  (takeInt32 s).bind fun (err_info_len, s) =>
  (takeField err_info_len s).bind fun (err_info, pb_data) =>
  (takeInt32 ((f.take (f.length - 1)).drop (f.length - 5))).map fun (check_sum, _) =>
    { m_msg_id := msg_id
      m_pk_len := pk_len
      m_msg_id_len := msg_id_len
      m_method_name_len := method_name_len
      m_method_name := method_name
      m_err_code := err_code
      m_err_info_len := err_info_len
      m_err_info := err_info
      m_pb_data := pb_data
      m_check_sum := check_sum
      parse_success := true }

/-- A package length outside the two limits. -/
def BadLength (pk_len : Int32) : Prop :=
  pk_len.toInt < MIN_PACKAGE_SIZE ∨ pk_len.toInt > MAX_PACKAGE_SIZE

instance (pk_len : Int32) : Decidable (BadLength pk_len) := inferInstanceAs (Decidable (_ ∨ _))

/-- The decision at the front of a stream. -/
def frameStep : Bytes → Option (Option TinyPBProtocol × Nat)
  | [] => none
  | c :: t =>
      if c ≠ PB_START then some (none, 1)
      else (takeInt32 t).bind fun (pk_len, _) =>
        if BadLength pk_len then some (none, 1)
        else if (c :: t).length < pk_len.toInt.toNat then none
        else if (c :: t)[pk_len.toInt.toNat - 1]? ≠ some PB_END then some (none, 1)
        else some (parseFrame pk_len ((c :: t).take pk_len.toInt.toNat), pk_len.toInt.toNat)

/-! ### The step is stable -/

theorem takeInt32_append {s s' : Bytes} {v : Int32} (h : takeInt32 s = some (v, s')) (t : Bytes) :
    takeInt32 (s ++ t) = some (v, s' ++ t) := by
  match s, h with
  | b₀ :: b₁ :: b₂ :: b₃ :: s, h =>
    cases h
    rfl

theorem takeInt32_length {s s' : Bytes} {v : Int32} (h : takeInt32 s = some (v, s')) :
    s.length = 4 + s'.length := by
  match s, h with
  | b₀ :: b₁ :: b₂ :: b₃ :: s, h =>
    cases h
    simp only [List.length_cons]
    omega

theorem takeInt32_eq_none_iff {s : Bytes} : takeInt32 s = none ↔ s.length < 4 := by
  match s with
  | [] => simp [takeInt32]
  | [_] => simp [takeInt32]
  | [_, _] => simp [takeInt32]
  | [_, _, _] => simp [takeInt32]
  | _ :: _ :: _ :: _ :: _ => simp [takeInt32]

theorem length_pos_of_not_bad {pk_len : Int32} (h : ¬ BadLength pk_len) :
    26 ≤ pk_len.toInt.toNat ∧ pk_len.toInt.toNat ≤ MAX_PACKAGE_SIZE ∧
      (pk_len.toInt.toNat : Int) = pk_len.toInt := by
  simp only [BadLength, MIN_PACKAGE_SIZE, not_or] at h
  omega

/-- **What the step can do**: skip a byte or take a packet that is there in full. -/
theorem frameStep_cases {s : Bytes} {o : Option TinyPBProtocol} {n : Nat}
    (h : frameStep s = some (o, n)) :
    (o = none ∧ n = 1 ∧ s ≠ []) ∨ (26 ≤ n ∧ n ≤ s.length) := by
  cases s with
  | nil => cases h
  | cons c t =>
    rw [frameStep] at h
    split at h
    · cases h
      exact Or.inl ⟨rfl, rfl, List.cons_ne_nil _ _⟩
    · obtain ⟨⟨pk_len, s'⟩, -, h⟩ := Option.bind_eq_some_iff.mp h
      dsimp only at h
      split at h
      · cases h
        exact Or.inl ⟨rfl, rfl, List.cons_ne_nil _ _⟩
      · rename_i hbad
        split at h
        · cases h
        · split at h
          · cases h
            exact Or.inl ⟨rfl, rfl, List.cons_ne_nil _ _⟩
          · cases h
            have := (length_pos_of_not_bad hbad).1
            exact Or.inr ⟨by omega, by omega⟩

/-- A decision does not look past what it needs: more input never changes it. -/
theorem frameStep_append {s : Bytes} {r : Option TinyPBProtocol × Nat} (t : Bytes)
    (h : frameStep s = some r) : frameStep (s ++ t) = some r := by
  cases s with
  | nil => cases h
  | cons c u =>
    rw [frameStep] at h
    rw [List.cons_append, frameStep]
    split at h
    · rename_i hc
      rw [if_pos hc]
      exact h
    · rename_i hc
      obtain ⟨⟨pk_len, s'⟩, hp, h⟩ := Option.bind_eq_some_iff.mp h
      rw [if_neg hc, takeInt32_append hp, Option.bind_some]
      dsimp only at h ⊢
      split at h
      · rename_i hbad
        rw [if_pos hbad]
        exact h
      · rename_i hbad
        have hpos := (length_pos_of_not_bad hbad).1
        rw [if_neg hbad]
        split at h
        · cases h
        · rename_i hlen
          have hle : pk_len.toInt.toNat ≤ (c :: u).length := by omega
          have hflag : (c :: (u ++ t))[pk_len.toInt.toNat - 1]?
              = (c :: u)[pk_len.toInt.toNat - 1]? := by
            rw [← List.cons_append, List.getElem?_append_left (by omega)]
          have htake : (c :: (u ++ t)).take pk_len.toInt.toNat
              = (c :: u).take pk_len.toInt.toNat := by
            rw [← List.cons_append, List.take_append_of_le_length hle]
          have hnlt : ¬ (c :: (u ++ t)).length < pk_len.toInt.toNat := by
            rw [← List.cons_append, List.length_append]
            omega
          rw [if_neg hnlt, hflag, htake]
          exact h

/-- **The TinyPB decoder as a scanner.** -/
def tinyPB : Scanner UInt8 TinyPBProtocol where
  step := frameStep
  step_pos := fun h => by rcases frameStep_cases h with ⟨-, hn, -⟩ | ⟨hn, -⟩ <;> omega
  step_le := fun h => by
    rcases frameStep_cases h with ⟨-, hn, hs⟩ | ⟨-, hn⟩
    · rw [hn]
      exact List.length_pos_iff.mpr hs
    · exact hn
  step_append := frameStep_append

theorem scan_nil : tinyPB.scan [] = ([], []) := tinyPB.scan_of_none rfl

theorem scan_skip : ∀ (u t : Bytes), (∀ c ∈ u, c ≠ PB_START) →
    tinyPB.scan (u ++ t) = tinyPB.scan t := by
  intro u
  induction u with
  | nil => intro t _; rfl
  | cons c u ih =>
    intro t h
    have hstep : tinyPB.step (c :: u ++ t) = some (none, 1) := if_pos (h c List.mem_cons_self)
    rw [tinyPB.scan_of_some hstep]
    exact ih t (fun d hd => h d (List.mem_cons_of_mem c hd))

/-! ### Packets are read back -/

theorem takeInt32_netBytes (v : Int32) (s : Bytes) : takeInt32 (netBytes v ++ s) = some (v, s) := by
  show some (ofNetBytes _ _ _ _, s) = _
  rw [ofNetBytes_netBytes]

theorem takeField_append {len : Int32} {f : Bytes} (h : len.toInt = f.length) (s : Bytes) :
    takeField len (f ++ s) = some (f, s) := by
  rw [takeField, h, if_pos ⟨by omega, by rw [List.length_append]; omega⟩, Int.toNat_natCast,
    List.take_left, List.drop_left]

/-- The length fields of a message are the lengths of its strings and of its packet. -/
structure Stamped (m : TinyPBProtocol) : Prop where
  pk_len : m.m_pk_len.toInt = m.packageSize
  msg_id_len : m.m_msg_id_len.toInt = m.m_msg_id.length
  method_name_len : m.m_method_name_len.toInt = m.m_method_name.length
  err_info_len : m.m_err_info_len.toInt = m.m_err_info.length
  parsed : m.parse_success = true

theorem toInt_ofNat_length {n : Nat} (h : n ≤ MAX_PACKAGE_SIZE) : (Int32.ofNat n).toInt = n :=
  Int32.toInt_ofNat_of_lt (by simp only [MAX_PACKAGE_SIZE] at h; omega)

theorem stamped_stamp {m : TinyPBProtocol} (h : m.packageSize ≤ MAX_PACKAGE_SIZE) :
    Stamped m.stamp := by
  have hsz : m.packageSize = MIN_PACKAGE_SIZE + m.m_msg_id.length + m.m_method_name.length
    + m.m_err_info.length + m.m_pb_data.length := rfl
  exact ⟨toInt_ofNat_length h, toInt_ofNat_length (by omega), toInt_ofNat_length (by omega),
    toInt_ofNat_length (by omega), rfl⟩

/-- The bytes of a packet between the package length and the checksum. -/
def fields (m : TinyPBProtocol) : Bytes :=
  netBytes m.m_msg_id_len ++ m.m_msg_id
    ++ netBytes m.m_method_name_len ++ m.m_method_name
    ++ netBytes m.m_err_code
    ++ netBytes m.m_err_info_len ++ m.m_err_info
    ++ m.m_pb_data

theorem fields_eq (m : TinyPBProtocol) :
    fields m = netBytes m.m_msg_id_len ++ (m.m_msg_id ++ (netBytes m.m_method_name_len
      ++ (m.m_method_name ++ (netBytes m.m_err_code ++ (netBytes m.m_err_info_len
        ++ (m.m_err_info ++ m.m_pb_data)))))) := by
  simp only [fields, List.append_assoc]

theorem layout_eq (m : TinyPBProtocol) :
    m.layout = ([PB_START] ++ netBytes m.m_pk_len) ++ fields m
      ++ (netBytes m.m_check_sum ++ [PB_END]) := by
  simp only [layout, fields, List.append_assoc]

theorem layout_fields (m : TinyPBProtocol) :
    (m.layout.take (m.layout.length - 5)).drop 5 = fields m := by
  have hl : m.layout.length - 5 = (([PB_START] ++ netBytes m.m_pk_len) ++ fields m).length := by
    rw [layout_eq]
    simp only [List.length_append, netBytes_length, List.length_singleton]
    omega
  rw [hl, layout_eq, List.take_left]
  rfl

theorem layout_check_sum (m : TinyPBProtocol) :
    (m.layout.take (m.layout.length - 1)).drop (m.layout.length - 5) = netBytes m.m_check_sum := by
  have hl : m.layout.length = (([PB_START] ++ netBytes m.m_pk_len) ++ fields m).length + 5 := by
    rw [layout_eq]
    simp only [List.length_append, netBytes_length, List.length_singleton]
  have hs : m.layout = ((([PB_START] ++ netBytes m.m_pk_len) ++ fields m)
      ++ netBytes m.m_check_sum) ++ [PB_END] := by
    rw [layout_eq, List.append_assoc _ (netBytes m.m_check_sum)]
  rw [hl, Nat.add_sub_cancel, hs, List.take_left' (by
    rw [List.length_append, netBytes_length]; rfl), List.drop_left]

/-- **The fields of a packet are read back.** -/
theorem parseFrame_layout {m : TinyPBProtocol} (h : Stamped m) :
    parseFrame m.m_pk_len m.layout = some m := by
  obtain ⟨-, h1, h2, h3, h4⟩ := h
  have hsum : takeInt32 (netBytes m.m_check_sum) = some (m.m_check_sum, []) := by
    conv_lhs => rw [← List.append_nil (netBytes _)]
    exact takeInt32_netBytes _ _
  rw [parseFrame, layout_fields, layout_check_sum, fields_eq]
  -- one field at a time, in the order of the packet
  refine Option.bind_eq_some_iff.mpr ⟨_, takeInt32_netBytes _ _, ?_⟩
  refine Option.bind_eq_some_iff.mpr ⟨_, takeField_append h1 _, ?_⟩
  refine Option.bind_eq_some_iff.mpr ⟨_, takeInt32_netBytes _ _, ?_⟩
  refine Option.bind_eq_some_iff.mpr ⟨_, takeField_append h2 _, ?_⟩
  refine Option.bind_eq_some_iff.mpr ⟨_, takeInt32_netBytes _ _, ?_⟩
  refine Option.bind_eq_some_iff.mpr ⟨_, takeInt32_netBytes _ _, ?_⟩
  refine Option.bind_eq_some_iff.mpr ⟨_, takeField_append h3 _, ?_⟩
  exact Option.map_eq_some_iff.mpr ⟨_, hsum, by rw [← h4]⟩

theorem packet_end {frame x : Bytes} (h : frame = x ++ [PB_END]) (t : Bytes) :
    (frame ++ t)[frame.length - 1]? = some PB_END := by
  rw [h, List.length_append, List.length_singleton, Nat.add_sub_cancel, List.append_assoc,
    List.getElem?_append_right (Nat.le_refl _), Nat.sub_self]
  rfl

theorem layout_end (m : TinyPBProtocol) (t : Bytes) :
    (m.layout ++ t)[m.layout.length - 1]? = some PB_END := by
  have hs : m.layout = ([PB_START] ++ netBytes m.m_pk_len ++ fields m ++ netBytes m.m_check_sum)
      ++ [PB_END] := by
    rw [layout_eq]
    simp only [List.append_assoc]
  exact packet_end hs t

/-- **A packet whose length word, limits and end flag are right is consumed whole**, whatever its
fields are. -/
theorem frameStep_packet {frame u : Bytes} {pk_len : Int32} (t : Bytes)
    (hframe : frame = PB_START :: (netBytes pk_len ++ u)) (hlen : pk_len.toInt = frame.length)
    (hbad : ¬ BadLength pk_len) (hend : (frame ++ t)[frame.length - 1]? = some PB_END) :
    frameStep (frame ++ t) = some (parseFrame pk_len frame, frame.length) := by
  have hnat : pk_len.toInt.toNat = frame.length := by rw [hlen, Int.toNat_natCast]
  have hopen : frame ++ t = PB_START :: (netBytes pk_len ++ (u ++ t)) := by
    rw [hframe, List.cons_append, List.append_assoc]
  rw [hopen, frameStep, if_neg (by simp), takeInt32_netBytes, Option.bind_some, ← hopen]
  dsimp only
  rw [if_neg hbad, hnat, if_neg (by rw [List.length_append]; omega), hend, if_neg (by simp),
    List.take_left]

theorem frameStep_layout {m : TinyPBProtocol} (h : Stamped m)
    (hmax : m.packageSize ≤ MAX_PACKAGE_SIZE) (t : Bytes) :
    frameStep (m.layout ++ t) = some (some m, m.layout.length) := by
  have hlen : m.m_pk_len.toInt = m.layout.length := by rw [h.pk_len, layout_length]
  have hbad : ¬ BadLength m.m_pk_len := by
    rw [BadLength, h.pk_len]
    simp only [packageSize] at hmax ⊢
    omega
  have hopen : m.layout = PB_START :: (netBytes m.m_pk_len ++
      (fields m ++ (netBytes m.m_check_sum ++ [PB_END]))) := by
    rw [layout_eq]
    simp only [List.append_assoc, List.cons_append, List.nil_append]
  rw [frameStep_packet t hopen hlen hbad (layout_end m t), parseFrame_layout h]

/-- **The bytes of a message are scanned as that message**, stamped, and the scan goes
on behind them. -/
theorem scan_wire {m : TinyPBProtocol} (h : Sendable m) (t : Bytes) :
    tinyPB.scan (wire m ++ t) = (m.withMsgId.stamp :: (tinyPB.scan t).1, (tinyPB.scan t).2) := by
  have hstep : tinyPB.step (m.withMsgId.stamp.layout ++ t) = _ :=
    frameStep_layout (stamped_stamp h) h t
  rw [wire_eq h, tinyPB.scan_of_some hstep, List.drop_left]
  rfl

theorem scan_flatMap_wire : ∀ (ms : List TinyPBProtocol) (t : Bytes),
    tinyPB.scan (ms.flatMap wire ++ t) =
      ((ms.filter fun m => Sendable m).map (fun m => m.withMsgId.stamp) ++ (tinyPB.scan t).1,
        (tinyPB.scan t).2) := by
  intro ms
  induction ms with
  | nil => intro t; rfl
  | cons m ms ih =>
    intro t
    rw [List.flatMap_cons, List.append_assoc]
    by_cases hs : Sendable m
    · rw [scan_wire hs, ih, List.filter_cons_of_pos (by simpa using hs), List.map_cons,
        List.cons_append]
    · rw [wire_of_not hs, List.nil_append, ih, List.filter_cons_of_neg (by simpa using hs)]

end TinyPBCoder

end KaiRPC
