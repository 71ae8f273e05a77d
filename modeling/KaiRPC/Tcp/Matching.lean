import KaiRPC.Tcp.Read

/-!
# Matching responses

A client connection hands a response to the callback registered under its id.  A
registration is known by its number; the log records every registration, removal,
`clear`, every frame that was looked up and every callback that ran.

The steps may come in any order while `excute` has messages left: those are the
callbacks that register, remove or clear themselves.

`pendingIn` reads off the log which registration of an id is pending.  The map of the
connection is that function (`Matching.Inv`), and a log written under it is `Good`.

* `responses_match`: a callback runs at most once, for the first frame of its id since
  its registration, with no removal and no effective `clear` in between; a second
  registration of a pending id changes nothing.
* `clear_twice_runs`: a registration made on a cleared connection survives a further
  `clear`.
-/

namespace KaiRPC

inductive MatchEvent
  | registered (n : Nat) (msg_id : Bytes)
  | removed (msg_id : Bytes)
  /-- A call of `clear`, and whether it found the connection not yet cleared. -/
  | clear (effective : Bool)
  | frame (message : TinyPBProtocol)
  | ran (n : Nat) (message : TinyPBProtocol)
deriving DecidableEq

namespace MatchEvent

/-- The event ends a registration of the id. -/
def Ends (msg_id : Bytes) : MatchEvent → Prop
  | registered _ _ => False
  | removed id => id = msg_id
  | clear effective => effective = true
  | frame message => message.m_msg_id = msg_id
  | ran _ _ => False

instance (msg_id : Bytes) : DecidablePred (Ends msg_id) := by
  intro ev
  cases ev
  · exact inferInstanceAs (Decidable False)
  · exact inferInstanceAs (Decidable (_ = _))
  · exact inferInstanceAs (Decidable (_ = _))
  · exact inferInstanceAs (Decidable (_ = _))
  · exact inferInstanceAs (Decidable False)

/-- The event registers the id, under the number returned. -/
def registers (msg_id : Bytes) : MatchEvent → Option Nat
  | registered n id => if id = msg_id then some n else none
  | _ => none

/-- The registration pending after an event. -/
def next (msg_id : Bytes) (pending : Option Nat) (ev : MatchEvent) : Option Nat :=
  if ev.Ends msg_id then none else pending <|> ev.registers msg_id

/-- The registration of an id that is pending after a log. -/
def pendingIn (msg_id : Bytes) (log : List MatchEvent) : Option Nat := log.foldl (next msg_id) none

@[simp] theorem pendingIn_nil (msg_id : Bytes) : pendingIn msg_id [] = none := rfl

@[simp] theorem pendingIn_snoc (msg_id : Bytes) (log : List MatchEvent) (ev : MatchEvent) :
    pendingIn msg_id (log ++ [ev]) = next msg_id (pendingIn msg_id log) ev := by
  rw [pendingIn, List.foldl_append]
  rfl

theorem next_some {msg_id : Bytes} {n : Nat} {ev : MatchEvent} (h : ¬ ev.Ends msg_id) :
    next msg_id (some n) ev = some n := by
  rw [next, if_neg h]
  rfl

theorem next_eq_some {id : Bytes} {p : Option Nat} {ev : MatchEvent} {n : Nat}
    (h : next id p ev = some n) : ¬ ev.Ends id ∧ (p = some n ∨ ev = .registered n id) := by
  rw [next] at h
  split at h
  · cases h
  · rename_i hends
    refine ⟨hends, ?_⟩
    cases p with
    | some m => exact Or.inl h
    | none =>
      cases ev with
      | registered m id' =>
        have he : (if id' = id then some m else none) = some n := h
        split at he
        · rename_i hid
          cases he
          exact Or.inr (by rw [hid])
        · cases he
      | removed id' => cases h
      | clear b => cases h
      | frame m => cases h
      | ran m' m => cases h

/-- A registration that took effect stays pending until an event ends it. -/
theorem pendingIn_of_split {msg_id : Bytes} {n : Nat} {A : List MatchEvent}
    (hA : pendingIn msg_id A = none) (B : List MatchEvent) (hB : ∀ ev ∈ B, ¬ ev.Ends msg_id) :
    pendingIn msg_id (A ++ registered n msg_id :: B) = some n := by
  induction B using List.reverseRecOn with
  | nil =>
    rw [pendingIn_snoc, hA, next, if_neg (by simp [Ends])]
    simp [registers]
  | append_singleton B ev ih =>
    rw [← List.cons_append, ← List.append_assoc, pendingIn_snoc,
      ih (fun ev' h => hB ev' (List.mem_append_left _ h)),
      next_some (hB ev (by simp))]

/-- A pending registration took effect at some point, and no event has ended it since. -/
theorem pendingIn_split {msg_id : Bytes} {n : Nat} : ∀ {log : List MatchEvent},
    pendingIn msg_id log = some n → ∃ A B, log = A ++ registered n msg_id :: B ∧
      pendingIn msg_id A = none ∧ ∀ ev ∈ B, ¬ ev.Ends msg_id := by
  intro log
  induction log using List.reverseRecOn with
  | nil => intro h; cases h
  | append_singleton log ev ih =>
    intro h
    rw [pendingIn_snoc] at h
    cases hp : pendingIn msg_id log with
    | some m =>
      rw [hp] at h
      -- the id was pending already, so a registration has no effect
      have hends := (next_eq_some h).1
      rw [next_some hends] at h
      cases h
      obtain ⟨A, B, rfl, hA, hB⟩ := ih hp
      refine ⟨A, B ++ [ev], by simp, hA, fun ev' hev => ?_⟩
      rcases List.mem_append.mp hev with hev | hev
      · exact hB ev' hev
      · rw [List.mem_singleton] at hev
        rw [hev]
        exact hends
    | none =>
      rw [hp] at h
      obtain ⟨-, hm | rfl⟩ := next_eq_some h
      · cases hm
      · exact ⟨log, [], rfl, hp, fun ev' hev => by cases hev⟩

/-- **A log written by a connection**: `k` registrations with fresh numbers, and behind each frame
the run of the registration that was pending for it. -/
inductive Good : Nat → List MatchEvent → Prop
  | nil : Good 0 []
  | registered {k : Nat} {log : List MatchEvent} (msg_id : Bytes) : Good k log →
      Good (k + 1) (log ++ [registered k msg_id])
  | removed {k : Nat} {log : List MatchEvent} (msg_id : Bytes) : Good k log →
      Good k (log ++ [removed msg_id])
  | clear {k : Nat} {log : List MatchEvent} (effective : Bool) : Good k log →
      Good k (log ++ [clear effective])
  | unmatched {k : Nat} {log : List MatchEvent} {message : TinyPBProtocol} : Good k log →
      pendingIn message.m_msg_id log = none → Good k (log ++ [frame message])
  | matched {k n : Nat} {log : List MatchEvent} {message : TinyPBProtocol} : Good k log →
      pendingIn message.m_msg_id log = some n → Good k (log ++ [frame message] ++ [ran n message])

theorem split_snoc {α : Type} {A C L : List α} {x y : α} (h : A ++ x :: C = L ++ [y]) :
    (∃ C', C = C' ++ [y] ∧ L = A ++ x :: C') ∨ (C = [] ∧ A = L ∧ x = y) := by
  rcases List.eq_nil_or_concat C with rfl | ⟨C', z, rfl⟩
  · obtain ⟨h1, h2⟩ := List.append_inj' h rfl
    exact Or.inr ⟨rfl, h1, (List.cons.inj h2).1⟩
  · rw [List.concat_eq_append] at h ⊢
    rw [← List.cons_append, ← List.append_assoc] at h
    obtain ⟨h1, h2⟩ := List.append_inj' h rfl
    exact Or.inl ⟨C', by rw [(List.cons.inj h2).1], h1.symm⟩

/-! ### Numbers are fresh -/

theorem Good.registered_lt {k : Nat} {log : List MatchEvent} (h : Good k log) {n : Nat}
    {msg_id : Bytes} (hn : MatchEvent.registered n msg_id ∈ log) : n < k := by
  induction h with
  | nil => cases hn
  | registered id _ ih =>
    rcases List.mem_append.mp hn with hn | hn
    · exact Nat.lt_succ_of_lt (ih hn)
    · rw [List.mem_singleton] at hn
      cases hn
      exact Nat.lt_succ_self _
  | removed id _ ih => exact ih (by simpa using hn)
  | clear b _ ih => exact ih (by simpa using hn)
  | unmatched _ _ ih => exact ih (by simpa using hn)
  | matched _ _ ih => exact ih (by simpa using hn)

theorem Good.registered_unique {k : Nat} {log : List MatchEvent} (h : Good k log) {n : Nat}
    {id id' : Bytes} (hn : MatchEvent.registered n id ∈ log)
    (hn' : MatchEvent.registered n id' ∈ log) : id = id' := by
  induction h with
  | nil => cases hn
  | @registered k log id₀ hg ih =>
    rw [List.mem_append, List.mem_singleton] at hn hn'
    rcases hn with hn | hn
    · rcases hn' with hn' | hn'
      · exact ih hn hn'
      · cases hn'
        exact absurd (hg.registered_lt hn) (lt_irrefl _)
    · cases hn
      rcases hn' with hn' | hn'
      · exact absurd (hg.registered_lt hn') (lt_irrefl _)
      · cases hn'
        rfl
  | removed id _ ih => exact ih (by simpa using hn) (by simpa using hn')
  | clear b _ ih => exact ih (by simpa using hn) (by simpa using hn')
  | unmatched _ _ ih => exact ih (by simpa using hn) (by simpa using hn')
  | matched _ _ ih => exact ih (by simpa using hn) (by simpa using hn')

theorem Good.pendingIn_inj {k : Nat} {log : List MatchEvent} (h : Good k log) {n : Nat}
    {id id' : Bytes} (hp : pendingIn id log = some n) (hp' : pendingIn id' log = some n) :
    id = id' := by
  obtain ⟨A, B, he, -⟩ := pendingIn_split hp
  obtain ⟨A', B', he', -⟩ := pendingIn_split hp'
  exact h.registered_unique (n := n) (by rw [he]; simp) (by rw [he']; simp)

theorem Good.pendingIn_lt {k : Nat} {log : List MatchEvent} (h : Good k log) {n : Nat}
    {id : Bytes} (hp : pendingIn id log = some n) : n < k := by
  obtain ⟨A, B, he, -⟩ := pendingIn_split hp
  have hn : MatchEvent.registered n id ∈ log := by
    rw [he]
    simp
  exact h.registered_lt hn

theorem Good.ran_lt {k : Nat} {log : List MatchEvent} (h : Good k log) {n : Nat}
    {m : TinyPBProtocol} (hn : MatchEvent.ran n m ∈ log) : n < k := by
  induction h with
  | nil => cases hn
  | registered id _ ih => exact Nat.lt_succ_of_lt (ih (by simpa using hn))
  | removed id _ ih => exact ih (by simpa using hn)
  | clear b _ ih => exact ih (by simpa using hn)
  | unmatched _ _ ih => exact ih (by simpa using hn)
  | matched hg hp ih =>
    rcases List.mem_append.mp hn with hn | hn
    · exact ih (by simpa using hn)
    · rw [List.mem_singleton] at hn
      cases hn
      exact hg.pendingIn_lt hp

/-- **A pending registration has not run.** -/
theorem Good.not_ran {k : Nat} {log : List MatchEvent} (h : Good k log) : ∀ {n : Nat} {id : Bytes},
    pendingIn id log = some n → ∀ m, MatchEvent.ran n m ∉ log := by
  induction h with
  | nil => intro n id hp; cases hp
  | @registered k log id₀ hg ih =>
    intro n id hp m hm
    rw [pendingIn_snoc] at hp
    have hm' : MatchEvent.ran n m ∈ log := by simpa using hm
    rcases (next_eq_some hp).2 with hp | he
    · exact ih hp m hm'
    · cases he
      exact absurd (hg.ran_lt hm') (lt_irrefl _)
  | removed id₀ hg ih =>
    intro n id hp m hm
    rw [pendingIn_snoc] at hp
    rcases (next_eq_some hp).2 with hp | he
    · exact ih hp m (by simpa using hm)
    · cases he
  | clear b hg ih =>
    intro n id hp m hm
    rw [pendingIn_snoc] at hp
    rcases (next_eq_some hp).2 with hp | he
    · exact ih hp m (by simpa using hm)
    · cases he
  | unmatched hg _ ih =>
    intro n id hp m hm
    rw [pendingIn_snoc] at hp
    rcases (next_eq_some hp).2 with hp | he
    · exact ih hp m (by simpa using hm)
    · cases he
  | @matched k n₀ log message hg hp₀ ih =>
    intro n id hp m hm
    rw [pendingIn_snoc, pendingIn_snoc] at hp
    rcases (next_eq_some hp).2 with hp | he
    · obtain ⟨hends, hp | he⟩ := next_eq_some hp
      · rcases List.mem_append.mp hm with hm | hm
        · exact ih hp m (by simpa using hm)
        · rw [List.mem_singleton] at hm
          cases hm
          exact hends (hg.pendingIn_inj hp₀ hp)
      · cases he
    · cases he

/-! ### What a good log says about the callbacks -/

/-- A callback runs at most once. -/
def RunsOnce (log : List MatchEvent) : Prop :=
  ∀ A n m C, log = A ++ .ran n m :: C → ∀ m', .ran n m' ∉ A ++ C

/-- A callback runs for the frame just looked up, under the id it was registered under when
that id was not pending, and nothing has ended the registration before that frame. -/
def RunsRegistered (log : List MatchEvent) : Prop :=
  ∀ A n m C, log = A ++ .ran n m :: C → ∃ A₁ A₂,
    A = A₁ ++ .registered n m.m_msg_id :: A₂ ++ [.frame m] ∧ pendingIn m.m_msg_id A₁ = none ∧
      ∀ ev ∈ A₂, ¬ ev.Ends m.m_msg_id

/-- A registration of an id that was not pending runs for the first frame of the id behind it,
unless an event ends it first.  Further registrations of the id make no difference. -/
def RunsFirst (log : List MatchEvent) : Prop :=
  ∀ A₁ n A₂ m C, log = A₁ ++ .registered n m.m_msg_id :: A₂ ++ .frame m :: C →
    pendingIn m.m_msg_id A₁ = none → (∀ ev ∈ A₂, ¬ ev.Ends m.m_msg_id) → ∃ C', C = .ran n m :: C'

/-- No call of `clear` at all lies between a registration and its run. -/
def RunsUncleared (log : List MatchEvent) : Prop :=
  ∀ A₁ n id A₂ m C, log = A₁ ++ .registered n id :: A₂ ++ .ran n m :: C → ∀ b, .clear b ∉ A₂

theorem RunsOnce.snoc {log : List MatchEvent} (h : RunsOnce log) {ev : MatchEvent}
    (hev : ∀ n m, ev ≠ .ran n m) : RunsOnce (log ++ [ev]) := by
  intro A n m C he m' hm'
  rcases split_snoc he.symm with ⟨C', rfl, hl⟩ | ⟨-, -, hx⟩
  · rw [← List.append_assoc, List.mem_append, List.mem_singleton] at hm'
    rcases hm' with hm' | hm'
    · exact h A n m C' hl m' hm'
    · exact hev n m' hm'.symm
  · exact hev n m hx.symm

theorem RunsRegistered.snoc {log : List MatchEvent} (h : RunsRegistered log) {ev : MatchEvent}
    (hev : ∀ n m, ev ≠ .ran n m) : RunsRegistered (log ++ [ev]) := by
  intro A n m C he
  rcases split_snoc he.symm with ⟨C', -, hl⟩ | ⟨-, -, hx⟩
  · exact h A n m C' hl
  · exact absurd hx.symm (hev n m)

theorem RunsFirst.snoc {log : List MatchEvent} (h : RunsFirst log) {ev : MatchEvent}
    (hev : ∀ m, ev ≠ .frame m) : RunsFirst (log ++ [ev]) := by
  intro A₁ n A₂ m C he hA hB
  rcases split_snoc he.symm with ⟨C', rfl, hl⟩ | ⟨-, -, hx⟩
  · obtain ⟨C'', rfl⟩ := h A₁ n A₂ m C' hl hA hB
    exact ⟨C'' ++ [ev], rfl⟩
  · exact absurd hx.symm (hev m)

theorem Good.runsOnce {k : Nat} {log : List MatchEvent} (h : Good k log) : RunsOnce log := by
  induction h with
  | nil => intro A n m C he; simp at he
  | registered id _ ih => exact ih.snoc (by simp)
  | removed id _ ih => exact ih.snoc (by simp)
  | clear b _ ih => exact ih.snoc (by simp)
  | unmatched _ _ ih => exact ih.snoc (by simp)
  | @matched k n₀ log message hg hp ih =>
    have hnot := hg.not_ran hp
    intro A n m C he m' hm'
    rcases split_snoc he.symm with ⟨C', rfl, hl⟩ | ⟨rfl, rfl, hx⟩
    · have hin : MatchEvent.ran n m ∈ log := by
        have : MatchEvent.ran n m ∈ log ++ [.frame message] := by rw [hl]; simp
        simpa using this
      rw [← List.append_assoc, List.mem_append, List.mem_singleton] at hm'
      rcases hm' with hm' | hm'
      · exact (ih.snoc (by simp)) A n m C' hl m' hm'
      · cases hm'
        exact hnot _ hin
    · cases hx
      exact hnot m' (by simpa using hm')

theorem Good.runsRegistered {k : Nat} {log : List MatchEvent} (h : Good k log) :
    RunsRegistered log := by
  induction h with
  | nil => intro A n m C he; simp at he
  | registered id _ ih => exact ih.snoc (by simp)
  | removed id _ ih => exact ih.snoc (by simp)
  | clear b _ ih => exact ih.snoc (by simp)
  | unmatched _ _ ih => exact ih.snoc (by simp)
  | @matched k n₀ log message hg hp ih =>
    intro A n m C he
    rcases split_snoc he.symm with ⟨C', -, hl⟩ | ⟨-, rfl, hx⟩
    · exact (ih.snoc (by simp)) A n m C' hl
    · cases hx
      obtain ⟨A₁, A₂, rfl, hA, hB⟩ := pendingIn_split hp
      exact ⟨A₁, A₂, rfl, hA, hB⟩

theorem Good.runsFirst {k : Nat} {log : List MatchEvent} (h : Good k log) : RunsFirst log := by
  induction h with
  | nil => intro A₁ n A₂ m C he; simp at he
  | registered id _ ih => exact ih.snoc (by simp)
  | removed id _ ih => exact ih.snoc (by simp)
  | clear b _ ih => exact ih.snoc (by simp)
  | unmatched _ hp ih =>
    intro A₁ n A₂ m C he hA hB
    rcases split_snoc he.symm with ⟨C', rfl, hl⟩ | ⟨-, hl, hx⟩
    · obtain ⟨C'', rfl⟩ := ih A₁ n A₂ m C' hl hA hB
      exact ⟨_, rfl⟩
    · cases hx
      rw [← hl, pendingIn_of_split hA A₂ hB] at hp
      cases hp
  | @matched k n₀ log message hg hp ih =>
    intro A₁ n A₂ m C he hA hB
    rcases split_snoc he.symm with ⟨C', rfl, hl⟩ | ⟨-, -, hx⟩
    · rcases split_snoc hl.symm with ⟨C'', rfl, hl'⟩ | ⟨rfl, hl', hx⟩
      · obtain ⟨C₃, rfl⟩ := ih A₁ n A₂ m C'' hl' hA hB
        exact ⟨_, rfl⟩
      · cases hx
        rw [← hl', pendingIn_of_split hA A₂ hB] at hp
        cases hp
        exact ⟨[], rfl⟩
    · cases hx

end MatchEvent

/-! ### Runs of a client connection -/

open MatchEvent TinyPBCoder

section Matching

variable {W D : Type}

/-- A client connection whose callbacks are the numbers of their registrations. -/
structure Matching (W D : Type) where
  e : Endpoint W Nat D
  todo : List TinyPBProtocol := []
  fresh : Nat := 0
  log : List MatchEvent := []

inductive MatchOp
  | push (msg_id : Bytes)
  | remove (msg_id : Bytes)
  | clear
  | onRead (results : List ReadResult)
  | handle

/-- Every step but `onRead` is possible while `excute` has messages left. -/
def Matching.step (s : Matching W D) : MatchOp → Option (Matching W D)
  | .push msg_id => some { s with
      e := { s.e with conn := s.e.conn.pushReadMessage msg_id s.fresh }
      fresh := s.fresh + 1
      log := s.log ++ [.registered s.fresh msg_id] }
  | .remove msg_id => some { s with
      e := { s.e with conn := s.e.conn.removeReadMessage msg_id }
      log := s.log ++ [.removed msg_id] }
  | .clear => some { s with
      e := s.e.clear.1
      log := s.log ++ [.clear (decide (¬ s.e.conn.IsCleared))] }
  | .onRead results =>
      if s.todo = [] then (s.e.onRead results).map fun r =>
        { s with
          e := r.endpoint
          todo := r.result
          log := s.log ++ if r.is_close then [.clear true] else [] }
      else none
  | .handle =>
      match s.todo with
      | [] => none
      | message :: todo => some { s with
          e := (s.e.handle message).1
          todo := todo
          log := s.log ++ [.frame message]
            ++ ((s.e.handle message).2.map fun n => .ran n message).toList }

/-- The map of the connection is what the log leaves pending. -/
structure Matching.Inv (s : Matching W D) : Prop where
  type : s.e.conn.m_connection_type = .TcpConnectionByClient
  dones : ∀ msg_id, s.e.conn.m_read_dones msg_id = pendingIn msg_id s.log
  good : Good s.fresh s.log

theorem Matching.inv_push {s : Matching W D} (h : s.Inv) (msg_id : Bytes) :
    Matching.Inv { s with
      e := { s.e with conn := s.e.conn.pushReadMessage msg_id s.fresh }
      fresh := s.fresh + 1
      log := s.log ++ [.registered s.fresh msg_id] } := by
  obtain ⟨htype, hdones, hgood⟩ := h
  refine ⟨?_, ?_, hgood.registered msg_id⟩
  · show (s.e.conn.pushReadMessage msg_id s.fresh).m_connection_type = _
    unfold TcpConnection.pushReadMessage
    split <;> exact htype
  · intro id
    rw [pendingIn_snoc, ← hdones, next, if_neg (by simp [Ends])]
    show (s.e.conn.pushReadMessage msg_id s.fresh).m_read_dones id = _
    unfold TcpConnection.pushReadMessage
    by_cases hid : msg_id = id
    · subst hid
      cases hp : s.e.conn.m_read_dones msg_id with
      | some n => simp [hp]
      | none => simp [registers]
    · cases hp : s.e.conn.m_read_dones msg_id with
      | some n => simp [registers, hid]
      | none => simp [registers, hid, Function.update_of_ne (Ne.symm hid)]

theorem Matching.inv_remove {s : Matching W D} (h : s.Inv) (msg_id : Bytes) :
    Matching.Inv { s with
      e := { s.e with conn := s.e.conn.removeReadMessage msg_id }
      log := s.log ++ [.removed msg_id] } := by
  obtain ⟨htype, hdones, hgood⟩ := h
  refine ⟨htype, ?_, hgood.removed msg_id⟩
  intro id
  rw [pendingIn_snoc, ← hdones, next]
  show Function.update s.e.conn.m_read_dones msg_id none id = _
  by_cases hid : msg_id = id
  · subst hid
    simp [Ends]
  · simp [Ends, registers, hid, Function.update_of_ne (Ne.symm hid)]

theorem pendingIn_clear {c c' : TcpConnection W Nat D} {log : List MatchEvent}
    (hdones : ∀ msg_id, c.m_read_dones msg_id = pendingIn msg_id log)
    (hc : c' = if c.IsCleared then c else c.cleared) (msg_id : Bytes) :
    c'.m_read_dones msg_id = pendingIn msg_id (log ++ [.clear (decide (¬ c.IsCleared))]) := by
  rw [pendingIn_snoc, ← hdones, next, hc]
  by_cases hcl : c.IsCleared
  · simp [hcl, Ends, registers]
  · simp [hcl, Ends, TcpConnection.cleared]

theorem Matching.inv_clear {s : Matching W D} (h : s.Inv) :
    Matching.Inv { s with
      e := s.e.clear.1
      log := s.log ++ [.clear (decide (¬ s.e.conn.IsCleared))] } := by
  obtain ⟨htype, hdones, hgood⟩ := h
  refine ⟨?_, fun id => pendingIn_clear hdones (Endpoint.clear_conn _) id, hgood.clear _⟩
  show s.e.clear.1.conn.m_connection_type = _
  rw [Endpoint.clear_conn]
  split <;> exact htype

theorem Matching.inv_onRead {s s' : Matching W D} (h : s.Inv) {results : List ReadResult}
    (hs : s.step (.onRead results) = some s') : s'.Inv := by
  obtain ⟨htype, hdones, hgood⟩ := h
  simp only [Matching.step, Option.ite_none_right_eq_some] at hs
  obtain ⟨-, hs⟩ := hs
  obtain ⟨r, hr, rfl⟩ := Option.map_eq_some_iff.mp hs
  rcases Endpoint.onRead_cases hr with ⟨hc, b, he⟩ | ⟨hc, hu, b, he⟩
  · simp only [he, hc, Bool.false_eq_true, if_false, List.append_nil]
    exact ⟨htype, hdones, hgood⟩
  · -- the connection was in use, so the clear is effective
    have hncl : ¬ (s.e.withIn b).conn.IsCleared := by
      rintro ⟨hst, -⟩
      cases hst.symm.trans hu.1
    have hclear := (s.e.withIn b).clear_conn
    simp only [he, hc, if_true]
    refine ⟨?_, ?_, hgood.clear true⟩
    · show (s.e.withIn b).clear.1.conn.m_connection_type = _
      rw [hclear, if_neg hncl]
      exact htype
    · intro id
      have := pendingIn_clear (c := (s.e.withIn b).conn) hdones hclear id
      rw [decide_eq_true hncl] at this
      exact this

theorem Matching.inv_handle {s s' : Matching W D} (h : s.Inv) (hs : s.step .handle = some s') :
    s'.Inv := by
  obtain ⟨htype, hdones, hgood⟩ := h
  simp only [Matching.step] at hs
  split at hs
  · cases hs
  · rename_i message todo htodo
    cases hs
    cases hp : s.e.conn.m_read_dones message.m_msg_id with
    | none =>
      have hh : s.e.handle message = (s.e, none) := by
        simp [Endpoint.handle, htype, TcpConnection.takeReadDone, hp]
      have hpend : pendingIn message.m_msg_id s.log = none := by rw [← hdones, hp]
      simp only [hh, Option.map_none, Option.toList_none, List.append_nil]
      refine ⟨htype, fun id => ?_, hgood.unmatched hpend⟩
      rw [pendingIn_snoc, ← hdones, next]
      by_cases hid : message.m_msg_id = id
      · subst hid
        simp [Ends, hp]
      · simp [Ends, registers, hid]
    | some n =>
      have hh : s.e.handle message
          = ({ s.e with conn := s.e.conn.removeReadMessage message.m_msg_id }, some n) := by
        simp [Endpoint.handle, htype, TcpConnection.takeReadDone, hp]
      have hpend : pendingIn message.m_msg_id s.log = some n := by rw [← hdones, hp]
      simp only [hh, Option.map_some, Option.toList_some]
      refine ⟨htype, fun id => ?_, hgood.matched hpend⟩
      rw [pendingIn_snoc, pendingIn_snoc, ← hdones]
      show Function.update s.e.conn.m_read_dones message.m_msg_id none id = _
      by_cases hid : message.m_msg_id = id
      · subst hid
        simp [next, Ends, registers]
      · simp [next, Ends, registers, hid, Function.update_of_ne (Ne.symm hid)]

theorem Matching.inv_step {s s' : Matching W D} {op : MatchOp} (h : s.Inv)
    (hs : s.step op = some s') : s'.Inv := by
  cases op with
  | push msg_id => cases hs; exact Matching.inv_push h msg_id
  | remove msg_id => cases hs; exact Matching.inv_remove h msg_id
  | clear => cases hs; exact Matching.inv_clear h
  | onRead results => exact Matching.inv_onRead h hs
  | handle => exact Matching.inv_handle h hs

/-- A client connection without registrations. -/
structure Matching.Start (s : Matching W D) : Prop where
  type : s.e.conn.m_connection_type = .TcpConnectionByClient
  dones : ∀ msg_id, s.e.conn.m_read_dones msg_id = none
  fresh : s.fresh = 0
  log : s.log = []

theorem Matching.Start.inv {s : Matching W D} (h : s.Start) : s.Inv := by
  refine ⟨h.type, fun id => ?_, ?_⟩
  · rw [h.dones, h.log, pendingIn_nil]
  · rw [h.fresh, h.log]
    exact .nil

/-- **Responses are matched.**  In every run the map holds the pending registrations; a callback
runs at most once; it runs for a frame of the id it was registered under, with no frame of the
id, no removal and no effective `clear` since; and the first such frame does run it. -/
theorem responses_match {s₀ s : Matching W D} {ops : List MatchOp} (h₀ : s₀.Start)
    (hrun : Run (fun s op s' => s.step op = some s') s₀ ops s) :
    (∀ msg_id, s.e.conn.m_read_dones msg_id = pendingIn msg_id s.log) ∧
      RunsOnce s.log ∧ RunsRegistered s.log ∧ RunsFirst s.log := by
  have h : s.Inv := Run.invariant (I := Matching.Inv) Matching.inv_step hrun h₀.inv
  exact ⟨h.dones, h.good.runsOnce, h.good.runsRegistered, h.good.runsFirst⟩

/-- A second registration of a pending id, and two frames of it. -/
theorem responses_match_duplicate :
    let f : TinyPBProtocol := { m_msg_id := [49] }
    let s₀ : Matching Unit Unit := { e := .connected 5 128 .TcpConnectionByClient }
    ∃ s, Run (fun s op s' => s.step op = some s') s₀
        [.push [49], .push [49], .onRead [.bytes (wire f ++ wire f)], .handle, .handle] s ∧
      (∀ msg_id, s.e.conn.m_read_dones msg_id = pendingIn msg_id s.log) ∧
      RunsOnce s.log ∧ RunsRegistered s.log ∧ RunsFirst s.log := by
  intro f s₀
  obtain ⟨s, hs⟩ : ∃ s, [MatchOp.push [49], .push [49], .onRead [.bytes (wire f ++ wire f)],
      .handle, .handle].foldlM Matching.step s₀ = some s :=
    Option.isSome_iff_exists.mp (by decide +kernel)
  have hrun := Run.of_foldlM hs
  exact ⟨s, hrun, responses_match ⟨rfl, fun _ => rfl, rfl, rfl⟩ hrun⟩

/-- **A callback that runs after a `clear`.**  Two frames arrive at once; the callback of the first
clears the connection, registers the id of the second and clears again.  The second `clear`
returns at once, and the second frame runs the new callback. -/
theorem clear_twice_runs :
    let f₁ : TinyPBProtocol := { m_msg_id := [49] }
    let f₂ : TinyPBProtocol := { m_msg_id := [50] }
    let s₀ : Matching Unit Unit := { e := .connected 5 128 .TcpConnectionByClient }
    s₀.Start ∧ ∃ s, Run (fun s op s' => s.step op = some s') s₀
        [.push [49], .onRead [.bytes (wire f₁ ++ wire f₂)], .handle, .clear, .push [50], .clear,
          .handle] s ∧
      s.log = [.registered 0 [49], .frame f₁.stamp, .ran 0 f₁.stamp, .clear true,
        .registered 1 [50], .clear false, .frame f₂.stamp, .ran 1 f₂.stamp] ∧
      ¬ RunsUncleared s.log := by
  intro f₁ f₂ s₀
  refine ⟨⟨rfl, fun _ => rfl, rfl, rfl⟩, ?_⟩
  obtain ⟨s, hs, hlog⟩ := (Option.any_eq_true _ _).mp (by decide +kernel :
    ([MatchOp.push [49], .onRead [.bytes (wire f₁ ++ wire f₂)], .handle, .clear, .push [50], .clear,
      .handle].foldlM Matching.step s₀).any (fun s => s.log = [.registered 0 [49],
        .frame f₁.stamp, .ran 0 f₁.stamp, .clear true, .registered 1 [50], .clear false,
        .frame f₂.stamp, .ran 1 f₂.stamp]) = true)
  have hlog := of_decide_eq_true hlog
  refine ⟨s, Run.of_foldlM hs, hlog, fun h => ?_⟩
  have hclear := h [.registered 0 [49], .frame f₁.stamp, .ran 0 f₁.stamp, .clear true] 1 [50]
    [.clear false, .frame f₂.stamp] f₂.stamp [] hlog false
  exact hclear (List.mem_cons_self ..)

end Matching

end KaiRPC
