import KaiRPC.Lib.Text
import KaiRPC.Tcp.Buffer

/-!
# Message ids

`net/rpc/msg_id_util.cc`: a thread counts its ids in decimal.  `t_msg_id_no` is the
last id, seeded with twenty random digits; `t_max_msg_id_no` is the text at which it
is seeded again.  The maximum is never cleared: each seed appends twenty nines to it,
so after the second seed it is longer than any id, and an id of twenty nines goes to
the carry loop, which runs below index 0.

* `GenMsgID`: one call; `none` is the index below 0.
* `Counted`: what the ids of a thread should be, one after the other.
* `genMsgIDs_phase`: the state of a thread after `n` calls.
* `genMsgIDs_counted_iff`: **the ids are right for exactly the calls of the first two
  seeds**: up to the twenty nines that the second seed counts up to.
-/

open Text

namespace KaiRPC

/-- The two texts of a thread, and how often it has read `/dev/urandom`. -/
structure MsgIDUtil where
  t_msg_id_no : Bytes := []
  t_max_msg_id_no : Bytes := []
  reads : Nat := 0
deriving DecidableEq, Repr

namespace MsgIDUtil

def g_msg_id_length : Nat := 20

/-- The bytes of a read, each as a decimal digit. -/
def seed (res : Bytes) : Bytes := res.map fun c => c % 10 + 48

/-- `while (t_msg_id_no[i] == '9') i--;` -/
def carryIndex (no : Bytes) : Nat → Option Nat
  | 0 => if no[0]? = some 57 then none else some 0
  | i + 1 => if no[i + 1]? = some 57 then carryIndex no i else some (i + 1)

/-- The carry: the digit that is increased, and zeros behind it. -/
def increment (no : Bytes) : Option Bytes :=
  (carryIndex no (no.length - 1)).bind fun i =>
    no[i]?.map fun c => no.take i ++ (c + 1) :: List.replicate (no.length - (i + 1)) 48

/-- `GenMsgID`: `urandom k` is what the `k`-th read stored. -/
def GenMsgID (urandom : Nat → Bytes) (s : MsgIDUtil) : Option (MsgIDUtil × Bytes) :=
  if s.t_msg_id_no = [] ∨ s.t_msg_id_no = s.t_max_msg_id_no then
    let res := urandom s.reads
    if res.length ≠ g_msg_id_length then some ({ s with reads := s.reads + 1 }, [])
    else
      let res := seed res
      some (⟨res, s.t_max_msg_id_no ++ List.replicate g_msg_id_length 57, s.reads + 1⟩, res)
  else (increment s.t_msg_id_no).map fun no => ({ s with t_msg_id_no := no }, no)

/-- The ids of the first `n` calls of a thread. -/
def genMsgIDs (urandom : Nat → Bytes) : Nat → Option (MsgIDUtil × List Bytes)
  | 0 => some ({}, [])
  | n + 1 => (genMsgIDs urandom n).bind fun r =>
      (GenMsgID urandom r.1).map fun q => (q.1, r.2 ++ [q.2])

/-! ### What the ids should be -/

/-- Twenty decimal digits. -/
def IsId (id : Bytes) : Prop := id.length = g_msg_id_length ∧ ∀ c ∈ id, isdigit c = true

instance (id : Bytes) : Decidable (IsId id) := inferInstanceAs (Decidable (_ ∧ _))

def nines : Bytes := List.replicate g_msg_id_length 57

/-- **The ids of a thread** that has read `k` seeds: twenty digits each, one more than the one
before, and a fresh seed at the start and behind twenty nines. -/
inductive Counted (urandom : Nat → Bytes) : Nat → List Bytes → Prop
  | nil : Counted urandom 0 []
  | seeded {k : Nat} {ids : List Bytes} (h : ∀ x, ids.getLast? = some x → x = nines)
      (hid : IsId (seed (urandom k))) :
      Counted urandom k ids → Counted urandom (k + 1) (ids ++ [seed (urandom k)])
  | next {k : Nat} {ids : List Bytes} {x y : Bytes} (hx : ids.getLast? = some x) (h : x ≠ nines)
      (hid : IsId y) (hy : digitsValue y = digitsValue x + 1) :
      Counted urandom k ids → Counted urandom k (ids ++ [y])

/-! ### One call -/

theorem seed_isId {res : Bytes} (h : res.length = g_msg_id_length) : IsId (seed res) := by
  refine ⟨by rw [seed, List.length_map, h], ?_⟩
  intro c hc
  obtain ⟨x, -, rfl⟩ := List.mem_map.mp hc
  have hx : (x % 10 + 48).toNat = x.toNat % 10 + 48 := by
    rw [UInt8.toNat_add, UInt8.toNat_mod]
    show (x.toNat % 10 + 48) % 256 = _
    omega
  rw [isdigit_iff, hx]
  omega

theorem IsId.value_lt {id : Bytes} (h : IsId id) : digitsValue id < 10 ^ 20 := by
  have hlt := digitsValue_lt h.2
  rwa [h.1] at hlt

/-- The loop stops at the last digit that is not a nine, or runs below index 0. -/
theorem carryIndex_spec (no : Bytes) : ∀ i,
    (carryIndex no i = none ∧ ∀ j ≤ i, no[j]? = some 57) ∨
      ∃ k ≤ i, carryIndex no i = some k ∧ no[k]? ≠ some 57 ∧
        ∀ j, k < j → j ≤ i → no[j]? = some 57 := by
  intro i
  induction i with
  | zero =>
    rw [carryIndex]
    split
    · rename_i h9
      refine Or.inl ⟨rfl, fun j hj => ?_⟩
      rwa [Nat.le_zero.mp hj]
    · rename_i h9
      exact Or.inr ⟨0, le_rfl, rfl, h9, fun j h1 h2 => by omega⟩
  | succ i ih =>
    rw [carryIndex]
    split
    · rename_i h9
      rcases ih with ⟨hnone, hall⟩ | ⟨k, hk, hsome, hne, hall⟩
      · refine Or.inl ⟨hnone, fun j hj => ?_⟩
        rcases Nat.lt_or_eq_of_le hj with hlt | rfl
        · exact hall j (by omega)
        · exact h9
      · refine Or.inr ⟨k, by omega, hsome, hne, fun j h1 h2 => ?_⟩
        rcases Nat.lt_or_eq_of_le h2 with hlt | rfl
        · exact hall j h1 (by omega)
        · exact h9
    · rename_i h9
      exact Or.inr ⟨i + 1, le_rfl, rfl, h9, fun j h1 h2 => by omega⟩

theorem eq_append_nines (no : Bytes) {k : Nat} (hk : k ≤ no.length)
    (h : ∀ j, k ≤ j → j < no.length → no[j]? = some 57) :
    no = no.take k ++ List.replicate (no.length - k) 57 := by
  have hdrop : no.drop k = List.replicate (no.length - k) 57 := by
    apply List.ext_getElem?
    intro j
    rw [List.getElem?_drop, List.getElem?_replicate]
    split
    · exact h (k + j) (by omega) (by omega)
    · exact List.getElem?_eq_none (by omega)
  rw [← hdrop, List.take_append_drop]

/-- **The carry**: an id of nines runs off the string, every other id is increased by one. -/
theorem increment_spec {id : Bytes} (h : IsId id) :
    (id = nines ∧ increment id = none) ∨
      ∃ y, increment id = some y ∧ id ≠ nines ∧ IsId y ∧ digitsValue y = digitsValue id + 1 := by
  obtain ⟨hlen, hdig⟩ := h
  rw [g_msg_id_length] at hlen
  rcases carryIndex_spec id (id.length - 1) with ⟨hnone, hall⟩ | ⟨k, hk, hsome, hne, hall⟩
  · left
    have hid := eq_append_nines id (Nat.zero_le _) fun j _ hj => hall j (by omega)
    rw [List.take_zero, List.nil_append, Nat.sub_zero, hlen] at hid
    exact ⟨hid, by rw [increment, hnone, Option.bind_none]⟩
  · right
    have hlt : k < id.length := by omega
    have hget : id[k]? = some id[k] := List.getElem?_eq_getElem hlt
    have h9 : id[k] ≠ 57 := fun e => hne (hget.trans (congrArg some e))
    have hd : isdigit id[k] = true := hdig _ (List.getElem_mem hlt)
    -- the id is cut into what stays, the digit that grows and the nines behind it
    have hcut : id = id.take k ++ id[k] :: List.replicate (id.length - (k + 1)) 57 := by
      have htail := eq_append_nines id (k := k + 1) (by omega)
        fun j h1 h2 => hall j (by omega) (by omega)
      rw [List.take_succ_eq_append_getElem hlt, List.append_assoc] at htail
      exact htail
    refine ⟨_, by rw [increment, hsome, Option.bind_some, hget, Option.map_some], ?_, ⟨?_, ?_⟩, ?_⟩
    · intro e
      have hmem : id[k] ∈ nines := e ▸ List.getElem_mem hlt
      exact h9 (List.eq_of_mem_replicate hmem)
    · simp only [List.length_append, List.length_take, List.length_cons, List.length_replicate,
        g_msg_id_length]
      omega
    · intro c hc
      rw [List.mem_append, List.mem_cons] at hc
      rcases hc with hc | rfl | hc
      · exact hdig c (List.mem_of_mem_take hc)
      · exact (digit_succ hd h9).2
      · rw [List.eq_of_mem_replicate hc]
        rfl
    · rw [digitsValue_carry _ hd h9, ← hcut]

/-! ### The calls of a thread -/

/-- How many ids the `k`-th seed counts through, itself and the twenty nines included. -/
def run (urandom : Nat → Bytes) (k : Nat) : Nat := 10 ^ 20 - digitsValue (seed (urandom k))

/-- The calls before the `k`-th seed. -/
def spent (urandom : Nat → Bytes) : Nat → Nat
  | 0 => 0
  | k + 1 => spent urandom k + run urandom k

section Calls

variable {urandom : Nat → Bytes} {n : Nat} {s : MsgIDUtil} {ids : List Bytes}

/-- A thread after `n` calls, under its first or its second seed. -/
structure Phase (urandom : Nat → Bytes) (n : Nat) (s : MsgIDUtil) (ids : List Bytes) : Prop where
  counted : Counted urandom s.reads ids
  last : ids.getLast? = some s.t_msg_id_no
  isId : IsId s.t_msg_id_no
  max : s.t_max_msg_id_no = List.replicate (20 * s.reads) 57
  seeds : s.reads = 1 ∨ s.reads = 2
  calls : n + digitsValue (seed (urandom (s.reads - 1)))
    = spent urandom (s.reads - 1) + digitsValue s.t_msg_id_no + 1

theorem nines_value : digitsValue nines + 1 = 10 ^ 20 := digitsValue_nines 20

theorem IsId.ne_nil {id : Bytes} (h : IsId id) : id ≠ [] := by
  rintro rfl
  exact absurd h.1 (by decide)

theorem GenMsgID_carry (h : IsId s.t_msg_id_no) (hmax : s.t_msg_id_no ≠ s.t_max_msg_id_no) :
    GenMsgID urandom s
      = (increment s.t_msg_id_no).map fun no => ({ s with t_msg_id_no := no }, no) := by
  rw [GenMsgID, if_neg (not_or.mpr ⟨h.ne_nil, hmax⟩)]

theorem GenMsgID_seed (hlen : ∀ k, (urandom k).length = g_msg_id_length)
    (h : s.t_msg_id_no = [] ∨ s.t_msg_id_no = s.t_max_msg_id_no) :
    GenMsgID urandom s = some (⟨seed (urandom s.reads), s.t_max_msg_id_no ++ nines, s.reads + 1⟩,
      seed (urandom s.reads)) := by
  rw [GenMsgID, if_pos h]
  dsimp only
  rw [if_neg (not_not.mpr (hlen _))]
  rfl

/-- **One call** while the id is not twenty nines. -/
theorem Phase.next (h : Phase urandom n s ids) (hne : s.t_msg_id_no ≠ nines) :
    ∃ s' id, GenMsgID urandom s = some (s', id) ∧ Phase urandom (n + 1) s' (ids ++ [id]) := by
  obtain ⟨hc, hlast, hid, hmax, hseeds, hcalls⟩ := h
  obtain ⟨e, -⟩ | ⟨y, hinc, -, hy, hval⟩ := increment_spec hid
  · exact absurd e hne
  have hbelow : s.t_msg_id_no ≠ s.t_max_msg_id_no := by
    intro e
    have hlen := congrArg List.length e
    rw [hid.1, hmax, List.length_replicate, g_msg_id_length] at hlen
    have hone : s.reads = 1 := by omega
    rw [hmax, hone] at e
    exact hne e
  refine ⟨{ s with t_msg_id_no := y }, y, ?_, ?_⟩
  · rw [GenMsgID_carry hid hbelow, hinc, Option.map_some]
  · refine ⟨.next hlast hne hy hval hc, by simp, hy, hmax, hseeds, ?_⟩
    show n + 1 + digitsValue (seed (urandom (s.reads - 1)))
      = spent urandom (s.reads - 1) + digitsValue y + 1
    omega

/-- **One call** at the first twenty nines: the maximum is reached and the id seeded. -/
theorem Phase.reseed (hlen : ∀ k, (urandom k).length = g_msg_id_length)
    (h : Phase urandom n s ids) (h9 : s.t_msg_id_no = nines) (hone : s.reads = 1) :
    ∃ s' id, GenMsgID urandom s = some (s', id) ∧ Phase urandom (n + 1) s' (ids ++ [id]) := by
  obtain ⟨hc, hlast, hid, hmax, hseeds, hcalls⟩ := h
  have hfull : s.t_msg_id_no = s.t_max_msg_id_no := by rw [h9, hmax, hone]; rfl
  have hfresh := seed_isId (hlen s.reads)
  refine ⟨_, _, GenMsgID_seed hlen (Or.inr hfull), ?_⟩
  refine ⟨.seeded ?_ hfresh hc, by simp, hfresh, ?_, Or.inr (by rw [hone]), ?_⟩
  · intro x hx
    rw [hlast] at hx
    exact (Option.some.inj hx).symm.trans h9
  · rw [hmax, hone]
    rfl
  · have hlt := (seed_isId (hlen 0)).value_lt
    have hv := nines_value
    rw [hone, h9] at hcalls
    rw [hone]
    show n + 1 + digitsValue (seed (urandom 1))
      = 0 + (10 ^ 20 - digitsValue (seed (urandom 0))) + digitsValue (seed (urandom 1)) + 1
    have hcalls' : n + digitsValue (seed (urandom 0)) = 0 + digitsValue nines + 1 := hcalls
    omega

/-- **One call** at the second twenty nines: the carry runs below index 0. -/
theorem Phase.overrun (h : Phase urandom n s ids) (h9 : s.t_msg_id_no = nines)
    (htwo : s.reads = 2) : GenMsgID urandom s = none := by
  have hbelow : s.t_msg_id_no ≠ s.t_max_msg_id_no := by
    rw [h9, h.max, htwo]
    decide
  rw [GenMsgID_carry h.isId hbelow, h9]
  rfl

theorem Phase.le (hlen : ∀ k, (urandom k).length = g_msg_id_length) (h : Phase urandom n s ids) :
    s.reads = 1 ∧ n ≤ spent urandom 1 ∨ s.reads = 2 ∧ n ≤ spent urandom 2 ∧
      (s.t_msg_id_no = nines ↔ n = spent urandom 2) := by
  have hlt := h.isId.value_lt
  have hlt0 := (seed_isId (hlen 0)).value_lt
  have hlt1 := (seed_isId (hlen 1)).value_lt
  have hcalls := h.calls
  have hspent : spent urandom 1 = run urandom 0 ∧ spent urandom 2 = run urandom 0 + run urandom 1 :=
    ⟨Nat.zero_add _, congrArg (· + run urandom 1) (Nat.zero_add _)⟩
  unfold run at hspent
  rcases h.seeds with hone | htwo
  · rw [hone] at hcalls
    have hcalls' : n + digitsValue (seed (urandom 0)) = 0 + digitsValue s.t_msg_id_no + 1 := hcalls
    exact Or.inl ⟨hone, by omega⟩
  · rw [htwo] at hcalls
    have hcalls' : n + digitsValue (seed (urandom 1))
        = spent urandom 1 + digitsValue s.t_msg_id_no + 1 := hcalls
    have hv := nines_value
    refine Or.inr ⟨htwo, by omega, fun e => ?_, fun e => ?_⟩
    · rw [e] at hcalls'
      omega
    · by_contra hne
      obtain ⟨e', -⟩ | ⟨y, -, -, hy, hval⟩ := increment_spec h.isId
      · exact hne e'
      · have := hy.value_lt
        omega

/-- **The state of a thread after `n` calls**, up to the twenty nines of the second seed. -/
theorem genMsgIDs_phase (hlen : ∀ k, (urandom k).length = g_msg_id_length) :
    ∀ n, 0 < n → n ≤ spent urandom 2 →
      ∃ s ids, genMsgIDs urandom n = some (s, ids) ∧ Phase urandom n s ids := by
  intro n
  induction n with
  | zero => intro h; omega
  | succ n ih =>
    intro _ hn
    rcases Nat.eq_zero_or_pos n with rfl | hpos
    · have hfresh := seed_isId (hlen 0)
      have hseed := GenMsgID_seed (s := {}) hlen (Or.inl rfl)
      refine ⟨_, _, by rw [genMsgIDs, genMsgIDs, Option.bind_some, hseed, Option.map_some], ?_⟩
      refine ⟨.seeded (fun x hx => by cases hx) hfresh .nil, by simp, hfresh, rfl, Or.inl rfl, ?_⟩
      show 0 + 1 + digitsValue (seed (urandom 0)) = 0 + digitsValue (seed (urandom 0)) + 1
      omega
    · obtain ⟨s, ids, hgen, hphase⟩ := ih hpos (by omega)
      have hstep : ∃ s' id, GenMsgID urandom s = some (s', id) ∧
          Phase urandom (n + 1) s' (ids ++ [id]) := by
        by_cases h9 : s.t_msg_id_no = nines
        · rcases hphase.le hlen with ⟨hone, -⟩ | ⟨-, -, hiff⟩
          · exact hphase.reseed hlen h9 hone
          · have := hiff.mp h9
            omega
        · exact hphase.next h9
      obtain ⟨s', id, hcall, hphase'⟩ := hstep
      exact ⟨s', ids ++ [id], by rw [genMsgIDs, hgen, Option.bind_some, hcall, Option.map_some],
        hphase'⟩

/-- The call behind those twenty nines does not return, and none after it. -/
theorem genMsgIDs_none (hlen : ∀ k, (urandom k).length = g_msg_id_length) :
    ∀ n, spent urandom 2 < n → genMsgIDs urandom n = none := by
  have hlt0 := (seed_isId (hlen 0)).value_lt
  have hlt1 := (seed_isId (hlen 1)).value_lt
  have hspent : spent urandom 1 < spent urandom 2 := by
    show spent urandom 1 < spent urandom 1 + (10 ^ 20 - digitsValue (seed (urandom 1)))
    omega
  intro n
  induction n with
  | zero => intro h; omega
  | succ n ih =>
    intro hn
    rw [genMsgIDs]
    rcases Nat.lt_or_eq_of_le (Nat.lt_succ_iff.mp hn) with hlt | rfl
    · rw [ih hlt, Option.bind_none]
    · obtain ⟨s, ids, hgen, hphase⟩ := genMsgIDs_phase hlen _ (by omega) le_rfl
      rw [hgen, Option.bind_some]
      rcases hphase.le hlen with ⟨-, hle⟩ | ⟨htwo, -, hiff⟩
      · omega
      · rw [hphase.overrun (hiff.mpr rfl) htwo, Option.map_none]

theorem genMsgIDs_length (h : genMsgIDs urandom n = some (s, ids)) : ids.length = n := by
  induction n generalizing s ids with
  | zero =>
    cases h
    rfl
  | succ n ih =>
    rw [genMsgIDs] at h
    obtain ⟨r, hr, h⟩ := Option.bind_eq_some_iff.mp h
    obtain ⟨q, -, hq⟩ := Option.map_eq_some_iff.mp h
    cases hq
    rw [List.length_append, ih hr, List.length_singleton]

/-- **Ids are counted correctly for exactly the calls of two seeds**: the first `n` calls of a
thread return `n` ids that count as they should if and only if `n` does not exceed what the
first two seeds count through. -/
theorem genMsgIDs_counted_iff (hlen : ∀ k, (urandom k).length = g_msg_id_length) (n : Nat) :
    (∃ s ids, genMsgIDs urandom n = some (s, ids) ∧ ids.length = n ∧
      Counted urandom s.reads ids) ↔
    n ≤ (10 ^ 20 - digitsValue (seed (urandom 0))) + (10 ^ 20 - digitsValue (seed (urandom 1))) := by
  have hspent : spent urandom 2 = (10 ^ 20 - digitsValue (seed (urandom 0)))
      + (10 ^ 20 - digitsValue (seed (urandom 1))) :=
    congrArg (· + run urandom 1) (Nat.zero_add _)
  rw [← hspent]
  constructor
  · rintro ⟨s, ids, hgen, -, -⟩
    by_contra hover
    rw [genMsgIDs_none hlen n (by omega)] at hgen
    cases hgen
  · intro hn
    rcases Nat.eq_zero_or_pos n with rfl | hpos
    · exact ⟨_, _, rfl, rfl, .nil⟩
    · obtain ⟨s, ids, hgen, hphase⟩ := genMsgIDs_phase hlen n hpos hn
      exact ⟨s, ids, hgen, genMsgIDs_length hgen, hphase.counted⟩

end Calls

/-- Three calls of a thread whose first seed is twenty sevens. -/
theorem genMsgIDs_counted_iff_sevens :
    ∃ s ids, genMsgIDs (fun _ => List.replicate 20 7) 3 = some (s, ids) ∧ ids.length = 3 ∧
      Counted (fun _ => List.replicate 20 7) s.reads ids :=
  (genMsgIDs_counted_iff (fun _ => rfl) 3).mpr (by decide)

/-- Two reads of twenty nines: the first two ids are the two seeds, and the third call looks for
a digit to increase below index 0. -/
theorem genMsgIDs_runs_off :
    genMsgIDs (fun _ => List.replicate 20 9) 2
      = some (⟨nines, nines ++ nines, 2⟩, [nines, nines]) ∧
    GenMsgID (fun _ => List.replicate 20 9) ⟨nines, nines ++ nines, 2⟩ = none ∧
    ¬ ∃ s ids, genMsgIDs (fun _ => List.replicate 20 9) 3 = some (s, ids) ∧ ids.length = 3 ∧
      Counted (fun _ => List.replicate 20 9) s.reads ids := by
  have hnone : genMsgIDs (fun _ => List.replicate 20 9) 3 = none := by decide
  refine ⟨by decide, by decide, ?_⟩
  rintro ⟨s, ids, h, -, -⟩
  rw [hnone] at h
  cases h

end MsgIDUtil

end KaiRPC
