import KaiRPC.Net.Lifetime

/-!
# The life of a thread group

`IOThreadGroup` of `net/iothreadgroup.cc`, as `TcpServer` of `net/tcp/tcp_server.cc` owns one: the
owner constructs the threads one after another, starts them or not, and in the end stops all of
them, joins all of them, clears its set of connections, and does both again before it deletes the
threads.  Each thread lives as in `Net.Lifetime`; the owner is one thread that is inside one call
at a time, and the threads of the group are interleaved with it at every step.

* `group_torn_down`: **the connections are cleared when every IO thread has ended**, and a loop is
  deleted only behind the end of its thread; when the owner is done every thread was joined once
  and every loop is deleted.
-/

namespace KaiRPC

/-- A call of the owner. -/
inductive GroupCall
  /-- `new IOThread()`. -/
  | construct (i : Nat)
  | call (i : Nat) (c : LifeCall)
  /-- `m_client.clear()`. -/
  | clear
deriving DecidableEq, Repr

def GroupCall.thread : GroupCall → Option Nat
  | .construct i | .call i _ => some i
  | .clear => none

structure ThreadGroup where
  /-- What the owner has left to call. -/
  program : List GroupCall
  threads : Nat → Option Lifetime := fun _ => none
  /-- The thread that the owner's last call was for. -/
  inside : Option Nat := none

inductive GroupOp
  /-- The owner begins its next call. -/
  | next
  /-- Thread `i` goes on, or the owner inside a call for it. -/
  | thread (i : Nat) (op : LifeOp)

namespace ThreadGroup

/-- The owner has returned from its last call. -/
def idle (v : ThreadGroup) : Bool :=
  v.inside.all fun i => (v.threads i).all fun t => t.callers 0 = {}

def setThread (v : ThreadGroup) (i : Nat) (t : Lifetime) : ThreadGroup :=
  { v with threads := Function.update v.threads i (some t) }

def begin (v : ThreadGroup) (program : List GroupCall) : GroupCall → Option ThreadGroup
  | .construct i =>
      if v.threads i = none then
        some ({ v with program := program, inside := some i }.setThread i {})
      else none
  | .call i c => (v.threads i).bind fun t => (t.step (.call 0 false c)).map fun t =>
      { v with program := program, inside := some i }.setThread i t
  | .clear => some { v with program := program, inside := none }

def step (v : ThreadGroup) : GroupOp → Option ThreadGroup
  | .next => match v.program with
      | [] => none
      | c :: program => if v.idle then v.begin program c else none
  | .thread i op => match op with
      | .call _ _ _ | .go (_ + 1) => none
      | .go 0 | .main | .loop _ => (v.threads i).bind fun t => (t.step op).map fun t =>
          v.setThread i t

/-- One call for every thread of the group. -/
def each (n : Nat) (c : LifeCall) : List GroupCall := (List.range n).map fun i => .call i c

/-- `IOThreadGroup::IOThreadGroup` and `TcpServer::start` or not, then `stop` and `join`. -/
def opening (n : Nat) (started : Bool) : List GroupCall :=
  (List.range n).map .construct ++ (if started then each n .start else []) ++
    each n .stop ++ each n .join

/-- `~IOThreadGroup`. -/
def closing (n : Nat) : List GroupCall := each n .stop ++ each n .join ++ each n .destroy

/-- The life of the group of a `TcpServer`, to the end of `~TcpServer`. -/
def serverLife (n : Nat) (started : Bool) : List GroupCall :=
  opening n started ++ .clear :: closing n

/-- Nothing is called for a thread behind its destruction. -/
def Ok (program : List GroupCall) : Prop :=
  program.Pairwise fun c d => ∀ i, c = .call i .destroy → d.thread ≠ some i

/-- What holds of a thread of the group. -/
structure Good (v : ThreadGroup) (i : Nat) (t : Lifetime) : Prop where
  inv : t.Inv
  ordered : t.Ordered
  owner : ∀ k, k ≠ 0 → t.callers k = {}
  outside : v.inside ≠ some i → t.callers 0 = {}
  destroyed : t.destroying = true → ∀ c ∈ v.program, c.thread ≠ some i

/-- The owner is inside `join`. -/
def Joining (t : Lifetime) : Prop :=
  t.callers 0 = ⟨none, [.exchangeJoined]⟩ ∨ t.callers 0 = ⟨some .pthreadJoin, []⟩

/-- What a call has come to that the owner has begun. -/
def Called (v : ThreadGroup) : GroupCall → Prop
  | .call i .join => ∃ t, v.threads i = some t ∧ (0 < t.joins ∨ Joining t)
  | .call i .destroy => ∃ t, v.threads i = some t ∧ t.destroying = true
  | _ => True

def Joined (v : ThreadGroup) (i : Nat) : Prop := ∃ t, v.threads i = some t ∧ 0 < t.joins

structure Inv (life : List GroupCall) (v : ThreadGroup) : Prop where
  ok : Ok v.program
  good : ∀ i t, v.threads i = some t → v.Good i t
  /-- What was called before the last call has returned. -/
  called : ∃ done, life = done ++ v.program ∧ (∀ c ∈ done, v.Called c) ∧
    ∀ i, .call i .join ∈ done.dropLast → v.Joined i

/-! ### One thread -/

theorem go_frame {t t' : Lifetime} {k : Nat} (hs : t.go k = some t') :
    t'.destroying = t.destroying ∧ t.joins ≤ t'.joins ∧
      ∀ j, j ≠ k → t'.callers j = t.callers j := by
  obtain ⟨w, c, rfl, hw, -, hdest, hjoins, -, -⟩ := Lifetime.go_cases hs
  refine ⟨hdest, hjoins, fun j hj => ?_⟩
  show Function.update w.callers k c j = t.callers j
  rw [Function.update_of_ne hj, hw]

theorem runMain_frame {t t' : Lifetime} (hs : t.runMain = some t') :
    t'.destroying = t.destroying ∧ t'.joins = t.joins ∧ t'.callers = t.callers := by
  unfold Lifetime.runMain at hs
  split at hs
  · cases hs
    exact ⟨rfl, rfl, rfl⟩
  · cases hs
    exact ⟨rfl, rfl, rfl⟩
  · obtain ⟨-, hs⟩ := Option.ite_none_right_eq_some.mp hs
    cases hs
    exact ⟨rfl, rfl, rfl⟩
  · obtain ⟨-, hs⟩ := Option.ite_none_right_eq_some.mp hs
    cases hs
    exact ⟨rfl, rfl, rfl⟩
  · cases hs

theorem step_frame {t t' : Lifetime} {op : LifeOp}
    (hop : op = .go 0 ∨ op = .main ∨ ∃ o, op = .loop o) (hs : t.step op = some t') :
    t'.destroying = t.destroying ∧ t.joins ≤ t'.joins ∧
      (∀ k, k ≠ 0 → t'.callers k = t.callers k) ∧ (t.callers 0 = {} → t'.callers 0 = {}) := by
  rcases hop with rfl | rfl | ⟨o, rfl⟩
  · obtain ⟨h1, h2, h3⟩ := go_frame hs
    refine ⟨h1, h2, h3, fun hidle => ?_⟩
    have hs : t.go 0 = some t' := hs
    unfold Lifetime.go at hs
    rw [hidle] at hs
    cases hs
  · obtain ⟨h1, h2, h3⟩ := runMain_frame hs
    exact ⟨h1, h2.ge, fun k _ => by rw [h3], fun hidle => by rw [h3]; exact hidle⟩
  · obtain ⟨w, -, rfl, -⟩ := Lifetime.runLoop_cases hs
    exact ⟨rfl, le_rfl, fun _ _ => rfl, id⟩

/-- **The owner inside `join`** stays in it until the thread was joined, by this call or by an
earlier one. -/
theorem joining_step {t t' : Lifetime} {op : LifeOp} (hinv : t.Inv)
    (howner : ∀ k, k ≠ 0 → t.callers k = {}) (hop : op = .go 0 ∨ op = .main ∨ ∃ o, op = .loop o)
    (hs : t.step op = some t') (h : 0 < t.joins ∨ Joining t) : 0 < t'.joins ∨ Joining t' := by
  rcases h with h | h
  · exact Or.inl (h.trans_le (step_frame hop hs).2.1)
  rcases hop with rfl | rfl | ⟨o, rfl⟩
  · have hs : t.go 0 = some t' := hs
    unfold Lifetime.go at hs
    rcases h with h | h
    · rw [h] at hs
      dsimp only [Lifetime.exec] at hs
      split at hs
      · rename_i hj
        cases hs
        exact Or.inl (hinv.joins_eq_one hj howner (by rw [h]) ▸ Nat.one_pos)
      · cases hs
        exact Or.inr (Or.inr (Function.update_self 0 _ t.callers))
    · rw [h] at hs
      obtain ⟨-, hs⟩ := Option.ite_none_right_eq_some.mp hs
      cases hs
      exact Or.inl (Nat.succ_pos _)
  · refine Or.inr ?_
    unfold Joining
    rw [(runMain_frame hs).2.2]
    exact h
  · obtain ⟨w, -, rfl, -⟩ := Lifetime.runLoop_cases hs
    exact Or.inr h

theorem init_callers {k : Nat} (hk : k ≠ 0) : ({} : Lifetime).callers k = {} := by
  show Function.update (fun _ => ({} : Caller)) 0 _ k = {}
  rw [Function.update_of_ne hk]

theorem call_spec {t t' : Lifetime} {c : LifeCall} (hs : t.step (.call 0 false c) = some t') :
    t'.callers 0 = { rest := c.body false } ∧ (∀ k, k ≠ 0 → t'.callers k = t.callers k) ∧
      t'.joins = t.joins ∧ t'.destroying = (t.destroying || c = .destroy) ∧
      t'.constructed = t.constructed ∧ t'.thread = t.thread := by
  obtain ⟨-, hs⟩ := Option.ite_none_right_eq_some.mp hs
  cases hs
  exact ⟨Function.update_self 0 _ t.callers, fun k hk => Function.update_of_ne hk _ t.callers, rfl,
    rfl, rfl, rfl⟩

section Steps

variable {v v' : ThreadGroup} {i : Nat} {t t' : Lifetime} {life program : List GroupCall}

theorem setThread_cases {j : Nat} {u : Lifetime} (h : (v.setThread i t).threads j = some u) :
    j = i ∧ u = t ∨ j ≠ i ∧ v.threads j = some u := by
  have h : Function.update v.threads i (some t) j = some u := h
  by_cases hj : j = i
  · subst hj
    rw [Function.update_self] at h
    exact Or.inl ⟨rfl, (Option.some.inj h).symm⟩
  · rw [Function.update_of_ne hj] at h
    exact Or.inr ⟨hj, h⟩

theorem Good.thread (h : v.Good i t) {op : LifeOp}
    (hop : op = .go 0 ∨ op = .main ∨ ∃ o, op = .loop o) (hs : t.step op = some t') :
    v.Good i t' := by
  have horderly : t.Orderly op := by
    rcases hop with rfl | rfl | ⟨o, rfl⟩ <;> trivial
  obtain ⟨hdest, -, hothers, hzero⟩ := step_frame hop hs
  refine ⟨Lifetime.step_inv h.inv hs, Lifetime.step_ordered h.ordered horderly hs,
    fun k hk => (hothers k hk).trans (h.owner k hk), fun hin => hzero (h.outside hin), fun hd => ?_⟩
  rw [hdest] at hd
  exact h.destroyed hd

theorem idle_spec (h : v.idle = true) (ht : v.threads i = some t) (hin : v.inside = some i) :
    t.callers 0 = {} := by
  unfold idle at h
  rw [hin, Option.all_some, ht, Option.all_some] at h
  exact of_decide_eq_true h

theorem Inv.callers (h : v.Inv life) (hidle : v.idle = true) (ht : v.threads i = some t) (k : Nat) :
    t.callers k = {} := by
  by_cases hk : k = 0
  · subst hk
    by_cases hin : v.inside = some i
    · exact idle_spec hidle ht hin
    · exact (h.good i t ht).outside hin
  · exact (h.good i t ht).owner k hk

theorem Inv.other (h : v.Inv life) (hidle : v.idle = true) (ht : v.threads i = some t)
    {w : ThreadGroup} (hprog : w.program ⊆ v.program) : w.Good i t := by
  have hgood := h.good i t ht
  exact ⟨hgood.inv, hgood.ordered, hgood.owner, fun _ => h.callers hidle ht 0,
    fun hd c hc => hgood.destroyed hd c (hprog hc)⟩

theorem Called.keep {c : GroupCall} (h : v.Called c) {w : ThreadGroup}
    (hw : ∀ i t, v.threads i = some t → ∃ u, w.threads i = some u ∧
      (t.destroying = true → u.destroying = true) ∧
      (0 < t.joins ∨ Joining t → 0 < u.joins ∨ Joining u)) : w.Called c := by
  cases c with
  | construct i => trivial
  | clear => trivial
  | call i c =>
    cases c with
    | start => trivial
    | stop => trivial
    | join =>
      obtain ⟨t, ht, hj⟩ := h
      obtain ⟨u, hu, -, hju⟩ := hw i t ht
      exact ⟨u, hu, hju hj⟩
    | destroy =>
      obtain ⟨t, ht, hd⟩ := h
      obtain ⟨u, hu, hdu, -⟩ := hw i t ht
      exact ⟨u, hu, hdu hd⟩

/-- **What the beginning of a call changes.** -/
theorem begin_cases {c : GroupCall} (hs : v.begin program c = some v') :
    (∃ i, c = .construct i ∧ v.threads i = none ∧
      v' = { v with program := program, inside := some i }.setThread i {}) ∨
    (c = .clear ∧ v' = { v with program := program, inside := none }) ∨
    ∃ i d t t', c = .call i d ∧ v.threads i = some t ∧ t.step (.call 0 false d) = some t' ∧
      v' = { v with program := program, inside := some i }.setThread i t' := by
  cases c with
  | construct i =>
    obtain ⟨hnone, hs⟩ := Option.ite_none_right_eq_some.mp hs
    exact Or.inl ⟨i, rfl, hnone, (Option.some.inj hs).symm⟩
  | clear => exact Or.inr (Or.inl ⟨rfl, (Option.some.inj hs).symm⟩)
  | call i d =>
    obtain ⟨t, ht, hs⟩ := Option.bind_eq_some_iff.mp hs
    obtain ⟨t', hstep, rfl⟩ := Option.map_eq_some_iff.mp hs
    exact Or.inr (Or.inr ⟨i, d, t, t', rfl, ht, hstep, rfl⟩)

/-- The next call joins those that were begun; the ones before it have returned. -/
theorem Inv.called_next (h : v.Inv life) {c : GroupCall} (hprog : v.program = c :: program)
    (hidle : v.idle = true) {w : ThreadGroup} (hc : w.Called c)
    (hw : ∀ i t, v.threads i = some t → ∃ u, w.threads i = some u ∧
      (t.destroying = true → u.destroying = true) ∧ t.joins ≤ u.joins) :
    ∃ done, life = done ++ program ∧ (∀ d ∈ done, w.Called d) ∧
      ∀ i, .call i .join ∈ done.dropLast → w.Joined i := by
  obtain ⟨done, hlife, hdone, -⟩ := h.called
  -- nobody is inside `join` when the next call begins
  have hjoining : ∀ {i t}, v.threads i = some t → ¬ Joining t := by
    intro i t ht hj
    have hz := h.callers hidle ht 0
    rcases hj with hj | hj <;> rw [hz] at hj <;> cases hj
  refine ⟨done ++ [c], ?_, fun d hd => ?_, fun i hi => ?_⟩
  · rw [hlife, hprog, List.append_assoc]
    rfl
  · rcases List.mem_append.mp hd with hd | hd
    · refine (hdone d hd).keep fun i t ht => ?_
      obtain ⟨u, hu, hdest, hle⟩ := hw i t ht
      exact ⟨u, hu, hdest, fun hj => Or.inl ((hj.resolve_right (hjoining ht)).trans_le hle)⟩
    · rw [List.mem_singleton.mp hd]
      exact hc
  · rw [List.dropLast_concat] at hi
    obtain ⟨t, ht, hj⟩ := hdone _ hi
    obtain ⟨u, hu, -, hle⟩ := hw i t ht
    exact ⟨u, hu, (hj.resolve_right (hjoining ht)).trans_le hle⟩

theorem Inv.ok_next (h : v.Inv life) {c : GroupCall} (hprog : v.program = c :: program) :
    Ok (c :: program) ∧ program ⊆ v.program := by
  have hok := h.ok
  rw [hprog] at hok ⊢
  exact ⟨hok, List.subset_cons_self c program⟩

theorem construct_inv (h : v.Inv life) (hprog : v.program = .construct i :: program)
    (hidle : v.idle = true) (hnone : v.threads i = none) :
    Inv life ({ v with program := program, inside := some i }.setThread i {}) := by
  obtain ⟨hok, hsub⟩ := h.ok_next hprog
  refine ⟨hok.of_cons, fun j u hj => ?_, h.called_next hprog hidle trivial fun j u hj => ?_⟩
  · rcases setThread_cases hj with ⟨rfl, rfl⟩ | ⟨hne, hj⟩
    · exact ⟨Lifetime.init_inv, Lifetime.init_ordered, fun k hk => init_callers hk,
        fun hin => absurd rfl hin, nofun⟩
    · exact h.other hidle hj hsub
  · have hne : j ≠ i := by
      rintro rfl
      rw [hnone] at hj
      cases hj
    exact ⟨u, (Function.update_of_ne hne ..).trans hj, id, le_rfl⟩

theorem clear_inv (h : v.Inv life) (hprog : v.program = .clear :: program)
    (hidle : v.idle = true) : Inv life { v with program := program, inside := none } := by
  obtain ⟨hok, hsub⟩ := h.ok_next hprog
  exact ⟨hok.of_cons, fun j u hj => h.other hidle hj hsub,
    h.called_next hprog hidle trivial fun j u hj => ⟨u, hj, id, le_rfl⟩⟩

theorem Inv.not_destroying (h : v.Inv life) {c : LifeCall}
    (hprog : v.program = .call i c :: program) (ht : v.threads i = some t) :
    t.destroying = false := by
  by_contra hd
  rw [Bool.not_eq_false] at hd
  exact (h.good i t ht).destroyed hd (.call i c) (hprog ▸ List.mem_cons_self) rfl

theorem call_good (h : v.Inv life) {c : LifeCall} (hprog : v.program = .call i c :: program)
    (hidle : v.idle = true) (ht : v.threads i = some t)
    (hstep : t.step (.call 0 false c) = some t') :
    Good ({ v with program := program, inside := some i }.setThread i t') i t' := by
  have hgood := h.good i t ht
  have hcallers := h.callers hidle ht
  have hnot := h.not_destroying hprog ht
  have horderly : t.Orderly (.call 0 false c) := ⟨hnot, fun _ => ⟨rfl, hcallers⟩⟩
  obtain ⟨-, hothers, -, hdest, -, -⟩ := call_spec hstep
  refine ⟨Lifetime.step_inv hgood.inv hstep, Lifetime.step_ordered hgood.ordered horderly hstep,
    fun k hk => (hothers k hk).trans (hcallers k), fun hin => absurd rfl hin, fun hd => ?_⟩
  -- it is the destructor that was called
  rw [hdest, hnot, Bool.false_or, decide_eq_true_eq] at hd
  subst hd
  exact fun d hd => List.rel_of_pairwise_cons (h.ok_next hprog).1 hd i rfl

theorem call_inv (h : v.Inv life) {c : LifeCall} (hprog : v.program = .call i c :: program)
    (hidle : v.idle = true) (ht : v.threads i = some t)
    (hstep : t.step (.call 0 false c) = some t') :
    Inv life ({ v with program := program, inside := some i }.setThread i t') := by
  obtain ⟨hok, hsub⟩ := h.ok_next hprog
  have hnot := h.not_destroying hprog ht
  obtain ⟨hzero, -, hjoins, hdest, -, -⟩ := call_spec hstep
  rw [hnot, Bool.false_or] at hdest
  have hthread : ∀ w : ThreadGroup, (w.setThread i t').threads i = some t' :=
    fun w => Function.update_self ..
  refine ⟨hok.of_cons, fun j u hj => ?_, h.called_next hprog hidle ?_ fun j u hj => ?_⟩
  · rcases setThread_cases hj with ⟨rfl, rfl⟩ | ⟨hne, hj⟩
    · exact call_good h hprog hidle ht hstep
    · exact h.other hidle hj hsub
  · cases c with
    | start => trivial
    | stop => trivial
    | join => exact ⟨t', hthread _, Or.inr (Or.inl hzero)⟩
    | destroy => exact ⟨t', hthread _, hdest⟩
  · by_cases hne : j = i
    · subst hne
      rw [ht] at hj
      cases hj
      exact ⟨t', hthread _, fun hd => absurd hd (by rw [hnot]; decide), hjoins.ge⟩
    · exact ⟨u, (Function.update_of_ne hne ..).trans hj, id, le_rfl⟩

theorem begin_inv (h : v.Inv life) {c : GroupCall} (hprog : v.program = c :: program)
    (hidle : v.idle = true) (hs : v.begin program c = some v') : v'.Inv life := by
  obtain ⟨i, rfl, hnone, rfl⟩ | ⟨rfl, rfl⟩ | ⟨i, c, t, t', rfl, ht, hstep, rfl⟩ := begin_cases hs
  · exact construct_inv h hprog hidle hnone
  · exact clear_inv h hprog hidle
  · exact call_inv h hprog hidle ht hstep

theorem thread_step {op : LifeOp} (hs : v.step (.thread i op) = some v') :
    (op = .go 0 ∨ op = .main ∨ ∃ o, op = .loop o) ∧
      ∃ t t', v.threads i = some t ∧ t.step op = some t' ∧ v' = v.setThread i t' := by
  have hop : (op = .go 0 ∨ op = .main ∨ ∃ o, op = .loop o) ∧
      ((v.threads i).bind fun t => (t.step op).map fun t => v.setThread i t) = some v' := by
    cases op with
    | call k self c => cases hs
    | go k =>
      cases k with
      | zero => exact ⟨Or.inl rfl, hs⟩
      | succ k => cases hs
    | main => exact ⟨Or.inr (Or.inl rfl), hs⟩
    | loop o => exact ⟨Or.inr (Or.inr ⟨o, rfl⟩), hs⟩
  obtain ⟨t, ht, hs⟩ := Option.bind_eq_some_iff.mp hop.2
  obtain ⟨t', hstep, rfl⟩ := Option.map_eq_some_iff.mp hs
  exact ⟨hop.1, t, t', ht, hstep, rfl⟩

theorem next_step (hs : v.step .next = some v') : ∃ c program, v.program = c :: program ∧
    v.idle = true ∧ v.begin program c = some v' := by
  dsimp only [step] at hs
  split at hs
  · cases hs
  · rename_i c program hprog
    obtain ⟨hidle, hs⟩ := Option.ite_none_right_eq_some.mp hs
    exact ⟨c, program, hprog, hidle, hs⟩

theorem step_inv {op : GroupOp} (h : v.Inv life) (hs : v.step op = some v') : v'.Inv life := by
  cases op with
  | next =>
    obtain ⟨c, program, hprog, hidle, hs⟩ := next_step hs
    exact begin_inv h hprog hidle hs
  | thread i op =>
    obtain ⟨hop, t, t', ht, hstep, rfl⟩ := thread_step hs
    have hgood := h.good i t ht
    obtain ⟨done, hlife, hdone, hjoined⟩ := h.called
    obtain ⟨hdest, hjoins, -, -⟩ := step_frame hop hstep
    refine ⟨h.ok, fun j u hj => ?_, done, hlife, fun c hc => ?_, fun j hj => ?_⟩
    · rcases setThread_cases hj with ⟨rfl, rfl⟩ | ⟨hne, hj⟩
      · exact { hgood.thread hop hstep with }
      · exact { h.good j u hj with }
    · refine (hdone c hc).keep fun j u hj => ?_
      by_cases hji : j = i
      · subst hji
        rw [ht] at hj
        cases hj
        refine ⟨t', Function.update_self .., hdest.trans, ?_⟩
        exact joining_step hgood.inv hgood.owner hop hstep
      · exact ⟨u, (Function.update_of_ne hji ..).trans hj, id, id⟩
    · obtain ⟨u, hu, hpos⟩ := hjoined j hj
      by_cases hji : j = i
      · subst hji
        rw [ht] at hu
        cases hu
        exact ⟨t', Function.update_self .., hpos.trans_le hjoins⟩
      · exact ⟨u, (Function.update_of_ne hji ..).trans hu, hpos⟩

end Steps

/-! ### The life of a server -/

section Life

variable {n : Nat} {started : Bool}

theorem Ok.append {l program : List GroupCall} (hl : ∀ c ∈ l, ∀ i, c ≠ .call i .destroy)
    (h : Ok program) : Ok (l ++ program) := by
  refine List.pairwise_append.mpr ⟨?_, h, fun c hc d _ i he => absurd he (hl c hc i)⟩
  exact List.pairwise_of_forall_mem_list fun c hc d _ i he => absurd he (hl c hc i)

theorem each_ne_destroy {c : LifeCall} (hc : c ≠ .destroy) :
    ∀ d ∈ each n c, ∀ i, d ≠ .call i .destroy := by
  intro d hd i he
  obtain ⟨j, -, rfl⟩ := List.mem_map.mp hd
  injection he with _ he
  exact hc he

theorem opening_ne_destroy : ∀ d ∈ opening n started, ∀ i, d ≠ .call i .destroy := by
  intro d hd i
  unfold opening at hd
  rcases List.mem_append.mp hd with hd | hd
  · rcases List.mem_append.mp hd with hd | hd
    · rcases List.mem_append.mp hd with hd | hd
      · obtain ⟨j, -, rfl⟩ := List.mem_map.mp hd
        nofun
      · cases started with
        | true => exact each_ne_destroy (by decide) d hd i
        | false => cases hd
    · exact each_ne_destroy (by decide) d hd i
  · exact each_ne_destroy (by decide) d hd i

theorem each_destroy_ok : Ok (each n .destroy) := by
  refine List.pairwise_map.mpr (List.nodup_range.imp fun {i j} hne k he => ?_)
  injection he with he _
  subst he
  exact fun hj => hne (Option.some.inj hj).symm

theorem serverLife_ok : Ok (serverLife n started) := by
  have hclosing : Ok (closing n) := by
    refine Ok.append (fun d hd => ?_) each_destroy_ok
    rcases List.mem_append.mp hd with hd | hd
    · exact each_ne_destroy (by decide) d hd
    · exact each_ne_destroy (by decide) d hd
  have hclear : Ok ([.clear] ++ closing n) := by
    refine Ok.append (fun d hd i => ?_) hclosing
    rw [List.mem_singleton.mp hd]
    nofun
  exact Ok.append opening_ne_destroy hclear

theorem run_inv {v : ThreadGroup} {ops : List GroupOp}
    (hrun : Run (fun v op v' => step v op = some v') { program := serverLife n started } ops v) :
    v.Inv (serverLife n started) :=
  hrun.invariant (I := Inv (serverLife n started)) step_inv
    ⟨serverLife_ok, fun _ _ ht => (by cases ht), [], rfl, nofun, nofun⟩

/-- Behind the clearing of the connections every thread was joined. -/
theorem Inv.cleared {v : ThreadGroup} (h : v.Inv (serverLife n started))
    (hclear : .clear ∉ v.program) {i : Nat} (hi : i < n) : v.Joined i := by
  obtain ⟨done, hlife, -, hjoined⟩ := h.called
  rcases List.append_eq_append_iff.mp hlife with ⟨rest, hd, hp⟩ | ⟨rest, -, hp⟩
  · have hrest : rest ≠ [] := by
      rintro rfl
      rw [List.nil_append] at hp
      exact hclear (hp ▸ List.mem_cons_self)
    refine hjoined i ?_
    rw [hd, List.dropLast_append_of_ne_nil hrest]
    refine List.mem_append_left _ (List.mem_append_right _ ?_)
    exact List.mem_map.mpr ⟨i, List.mem_range.mpr hi, rfl⟩
  · rw [hp] at hclear
    exact absurd (List.mem_append_right rest List.mem_cons_self) hclear

theorem Inv.all_deleted {v : ThreadGroup} (h : v.Inv (serverLife n started))
    (hend : v.program = []) (hidle : v.idle = true) {i : Nat} (hi : i < n) :
    ∃ t, v.threads i = some t ∧ t.deleted = true := by
  obtain ⟨done, hlife, hdone, -⟩ := h.called
  rw [hend, List.append_nil] at hlife
  have hmem : GroupCall.call i .destroy ∈ done := by
    rw [← hlife]
    refine List.mem_append_right _ (List.mem_cons_of_mem _ (List.mem_append_right _ ?_))
    exact List.mem_map.mpr ⟨i, List.mem_range.mpr hi, rfl⟩
  obtain ⟨t, ht, hdest⟩ := hdone _ hmem
  refine ⟨t, ht, ?_⟩
  obtain ⟨k, -, ⟨-, hk⟩ | ⟨hdel, -⟩⟩ := (h.good i t ht).ordered.alone hdest
  · rw [h.callers hidle ht k] at hk
    cases hk
  · exact hdel

theorem Good.joined {v : ThreadGroup} {i : Nat} {t : Lifetime} (h : v.Good i t)
    (hj : 0 < t.joins) : t.main = .ended ∧ t.thread.calls = [] ∧ t.joins = 1 := by
  have hended := h.inv.joined hj
  have hle := h.inv.join.le_one
  exact ⟨hended, h.inv.returned (by rw [hended]; decide), by omega⟩

end Life

/-- **The group is torn down in order.**  In every run of a server with `n` IO threads, started or
not: when the owner comes to `m_client.clear()`, every IO thread has ended and was joined once, so
none of them touches a connection any more; a loop is deleted only behind the end of its thread;
and when the owner is done the loop of every thread is deleted. -/
theorem group_torn_down {n : Nat} {started : Bool} {v : ThreadGroup} {ops : List GroupOp}
    (hrun : Run (fun v op v' => step v op = some v') { program := serverLife n started } ops v) :
    (.clear ∉ v.program → ∀ i, i < n → ∃ t, v.threads i = some t ∧
        t.main = .ended ∧ t.thread.calls = [] ∧ t.joins = 1) ∧
      (∀ i t, v.threads i = some t → t.deleted = true →
        t.main = .ended ∧ t.thread.calls = [] ∧ t.joins = 1) ∧
      (v.program = [] → v.idle = true → ∀ i, i < n → ∃ t, v.threads i = some t ∧
        t.deleted = true) := by
  have h := run_inv hrun
  refine ⟨fun hclear i hi => ?_, fun i t ht hdel => ?_,
    fun hend hidle i => h.all_deleted hend hidle⟩
  · obtain ⟨t, ht, hj⟩ := h.cleared hclear hi
    exact ⟨t, ht, (h.good i t ht).joined hj⟩
  · have hgood := h.good i t ht
    obtain ⟨hmain, hcalls, hjoins, -⟩ := hgood.ordered.of_deleted hgood.inv hdel
    exact ⟨hmain, hcalls, hjoins⟩

/-- A server that is torn down without having been started. -/
theorem group_torn_down_unstarted : ∃ v : ThreadGroup, ∃ t, v.program = [] ∧
    v.threads 0 = some t ∧ t.main = .ended ∧ t.joins = 1 ∧ t.deleted = true := by
  have hrun : Run (fun v op v' => step v op = some v') { program := serverLife 1 false }
      [.next, .thread 0 .main, .thread 0 .main, .thread 0 (.go 0),
        .next, .thread 0 (.go 0), .thread 0 (.go 0), .thread 0 (.go 0), .thread 0 .main,
        .next, .thread 0 (.go 0), .thread 0 .main, .thread 0 (.go 0), .next,
        .next, .thread 0 (.go 0), .thread 0 (.go 0), .next, .thread 0 (.go 0),
        .next, .thread 0 (.go 0), .thread 0 (.go 0), .thread 0 (.go 0), .thread 0 (.go 0)] _ :=
    Run.of_foldlM rfl
  obtain ⟨-, h2, h3⟩ := group_torn_down hrun
  obtain ⟨t, ht, hdel⟩ := h3 rfl rfl 0 Nat.one_pos
  obtain ⟨hmain, -, hjoins⟩ := h2 0 t ht hdel
  exact ⟨_, t, rfl, ht, hmain, hjoins, hdel⟩

end ThreadGroup

end KaiRPC
