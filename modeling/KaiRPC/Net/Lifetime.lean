import KaiRPC.Lib.Once
import KaiRPC.Net.Loop

/-!
# The life of an IO thread

`IOThread` of `net/iothread.cc`: its construction, `start`, `stop`, `join` and its destruction,
called by any number of threads, beside `Main`, which builds the loop, tells the constructor, and
waits for the start semaphore.  The threads are interleaved at every semaphore, every exchange
and every step of the loop.  The loop itself is `IOThread` of `Net.Loop`.

* `lifetime_once`: **the start semaphore is posted at most once and the thread joined at most
  once**, whoever calls what; the loop runs behind the one post, and the one `pthread_join` ends
  behind `Main`.  A second call of `join` returns at once.
* `lifetime_deletes_last`: **the loop is deleted when `Main` has ended and no thread is inside a
  call**, if the destructor runs alone and not on the thread itself; `overlapping_join_deletes` is
  a run in which it does not run alone.
* `lifetime_destroys`: **the destructor can always finish**, started or not, if it runs alone and
  not on the thread itself, and no client is constructed on the thread after the stop.
-/

namespace KaiRPC

/-- Where `IOThread::Main` is. -/
inductive MainPc
  | created
  /-- `m_event_loop` is set. -/
  | built
  /-- At `sem_wait(&m_start_semaphore)`. -/
  | waiting
  | running
  | ended
deriving DecidableEq, Repr

/-- `Main` is past the start semaphore. -/
def MainPc.past : MainPc → Nat
  | .created | .built | .waiting => 0
  | .running | .ended => 1

inductive LifeInstr
  /-- `sem_wait(&m_init_semaphore)`. -/
  | waitInit
  | stopLoop
  /-- `m_started.exchange(true)`. -/
  | exchangeStarted
  /-- `m_joined.compare_exchange_strong(expected, true)`. -/
  | exchangeJoined
  | deleteLoop
deriving DecidableEq, Repr

/-- What a thread does behind an exchange that found `false`. -/
inductive Won
  | semPost
  | pthreadJoin
deriving DecidableEq, Repr

/-- Where a thread that uses the object is. -/
structure Caller where
  won : Option Won := none
  rest : List LifeInstr := []
deriving DecidableEq, Repr

inductive LifeCall
  | start
  | stop
  | join
  | destroy
deriving DecidableEq, Repr

/-- The body of a call; `self`: on the IO thread, where `join` returns at once. -/
def LifeCall.body (self : Bool) : LifeCall → List LifeInstr
  | .start => [.exchangeStarted]
  | .stop => [.stopLoop, .exchangeStarted]
  | .join => if self then [] else [.exchangeJoined]
  | .destroy =>
      [.stopLoop, .exchangeStarted] ++ (if self then [] else [.exchangeJoined]) ++ [.deleteLoop]

structure Lifetime where
  thread : IOThread := {}
  main : MainPc := .created
  m_init_semaphore : Nat := 0
  m_start_semaphore : Nat := 0
  m_joined : Bool := false
  /-- Thread 0 is in the constructor. -/
  callers : Nat → Caller := Function.update (fun _ => {}) 0 { rest := [.waitInit] }
  constructed : Bool := false
  destroying : Bool := false
  deleted : Bool := false
  posts : Nat := 0
  joins : Nat := 0

inductive LifeOp
  | call (k : Nat) (self : Bool) (c : LifeCall)
  /-- The next instruction of thread `k`. -/
  | go (k : Nat)
  | main
  /-- A step of the loop, or of what it runs. -/
  | loop (op : LoopOp)

namespace Lifetime

def setCaller (v : Lifetime) (k : Nat) (c : Caller) : Lifetime :=
  { v with callers := Function.update v.callers k c }

/-- One instruction of a call.  `sem_wait` blocks. -/
def exec (v : Lifetime) (k : Nat) (rest : List LifeInstr) : LifeInstr → Option Lifetime
  | .waitInit =>
      if 0 < v.m_init_semaphore then
        some ({ v with
          m_init_semaphore := v.m_init_semaphore - 1, constructed := true }.setCaller k
          { rest := rest })
      else none
  | .stopLoop => some ({ v with thread := v.thread.stopLoop }.setCaller k { rest := rest })
  | .exchangeStarted =>
      if v.thread.m_started then some (v.setCaller k { rest := rest })
      else some ({ v with thread := { v.thread with m_started := true } }.setCaller k
        { won := some .semPost, rest := rest })
  | .exchangeJoined =>
      if v.m_joined then some (v.setCaller k { rest := rest })
      else some ({ v with m_joined := true }.setCaller k { won := some .pthreadJoin, rest := rest })
  | .deleteLoop => some ({ v with deleted := true }.setCaller k { rest := rest })

/-- The winner of an exchange acts; `pthread_join` blocks. -/
def act (v : Lifetime) (k : Nat) (rest : List LifeInstr) : Won → Option Lifetime
  | .semPost => some ({ v with
      m_start_semaphore := v.m_start_semaphore + 1, posts := v.posts + 1 }.setCaller k
      { rest := rest })
  | .pthreadJoin =>
      if v.main = .ended then some ({ v with joins := v.joins + 1 }.setCaller k { rest := rest })
      else none

def go (v : Lifetime) (k : Nat) : Option Lifetime :=
  match v.callers k with
  | ⟨some won, rest⟩ => v.act k rest won
  | ⟨none, instr :: rest⟩ => v.exec k rest instr
  | ⟨none, []⟩ => none

def runMain (v : Lifetime) : Option Lifetime :=
  match v.main with
  | .created => some { v with main := .built }
  | .built => some { v with main := .waiting, m_init_semaphore := v.m_init_semaphore + 1 }
  | .waiting =>
      if 0 < v.m_start_semaphore then
        some { v with
          main := .running
          m_start_semaphore := v.m_start_semaphore - 1
          thread := { v.thread with entered := true }.loop }
      else none
  | .running => if v.thread.calls = [] then some { v with main := .ended } else none
  | .ended => none

/-- The steps of the loop are those of a running `Main`; others add tasks and stop it. -/
def runLoop (v : Lifetime) (op : LoopOp) : Option Lifetime :=
  match op with
  | .advance _ | .act _ | .loop =>
      if v.main = .running then (v.thread.step op).map fun w => { v with thread := w } else none
  | .addTask _ | .stopLoop =>
      if v.constructed then (v.thread.step op).map fun w => { v with thread := w } else none
  | .start | .stop | .main => none

def step (v : Lifetime) : LifeOp → Option Lifetime
  | .call k self c =>
      if v.constructed ∧ ¬ v.deleted ∧ v.callers k = {} then
        some { v.setCaller k { rest := c.body self } with
          destroying := v.destroying || c = .destroy }
      else none
  | .go k => v.go k
  | .main => v.runMain
  | .loop op => v.runLoop op

/-! ### Exchanges -/

section Exchanges

variable {callers : Nat → Caller} {flag : Bool} {n k : Nat} {c : Caller} {w : Won}

theorem once_keep (h : Once flag n fun j => (callers j).won = some w)
    (hk : (callers k).won ≠ some w) (hc : c.won ≠ some w) :
    Once flag n fun j => (Function.update callers k c j).won = some w := by
  refine h.congr fun j => ?_
  by_cases hj : j = k
  · subst hj
    rw [Function.update_self]
    exact iff_of_false hc hk
  · rw [Function.update_of_ne hj]

theorem once_exchange (h : Once false n fun j => (callers j).won = some w)
    (hc : c.won = some w) : Once true n fun j => (Function.update callers k c j).won = some w := by
  refine h.exchange (k := k) fun j => ?_
  by_cases hj : j = k
  · subst hj
    rw [Function.update_self]
    exact iff_of_true hc (Or.inl rfl)
  · rw [Function.update_of_ne hj]
    exact ⟨Or.inr, fun h => h.resolve_left hj⟩

theorem once_act (h : Once flag n fun j => (callers j).won = some w) (hk : (callers k).won = some w)
    (hc : c.won ≠ some w) :
    Once flag (n + 1) fun j => (Function.update callers k c j).won = some w := by
  refine h.act hk fun j => ?_
  by_cases hj : j = k
  · subst hj
    rw [Function.update_self]
    exact iff_of_false hc fun h => h.1 rfl
  · rw [Function.update_of_ne hj]
    exact ⟨fun h => ⟨hj, h⟩, fun h => h.2⟩

end Exchanges

/-- What holds in every run. -/
structure Inv (v : Lifetime) : Prop where
  start : Once v.thread.m_started v.posts fun k => (v.callers k).won = some .semPost
  join : Once v.m_joined v.joins fun k => (v.callers k).won = some .pthreadJoin
  semaphore : v.m_start_semaphore + v.main.past = v.posts
  joined : 0 < v.joins → v.main = .ended
  built : 0 < v.m_init_semaphore ∨ v.constructed = true → v.main ≠ .created ∧ v.main ≠ .built
  returned : v.main ≠ .running → v.thread.calls = []

section Steps

variable {v v' : Lifetime}

theorem init_inv : Inv {} := by
  have hwon : ∀ (w : Won) (k : Nat), ¬ (({} : Lifetime).callers k).won = some w := by
    intro w k
    show ¬ (Function.update (fun _ => ({} : Caller)) 0 { rest := [.waitInit] } k).won = some w
    by_cases hk : k = 0
    · subst hk
      rw [Function.update_self]
      nofun
    · rw [Function.update_of_ne hk]
      nofun
  refine ⟨Once.init.congr fun k => ?_, Once.init.congr fun k => ?_, rfl, nofun, ?_, fun _ => rfl⟩
  · exact iff_of_false (hwon _ k) id
  · exact iff_of_false (hwon _ k) id
  · rintro (h | h)
    · cases h
    · cases h

theorem exec_inv (h : v.Inv) {k : Nat} {rest : List LifeInstr} {instr : LifeInstr}
    (hk : (v.callers k).won = none) (hs : v.exec k rest instr = some v') : v'.Inv := by
  have hne : ∀ w, (v.callers k).won ≠ some w := fun w => by rw [hk]; nofun
  cases instr with
  | waitInit =>
    obtain ⟨hpos, hs⟩ := Option.ite_none_right_eq_some.mp hs
    cases hs
    exact ⟨once_keep h.start (hne _) nofun, once_keep h.join (hne _) nofun, h.semaphore, h.joined,
      fun _ => h.built (Or.inl hpos), h.returned⟩
  | stopLoop =>
    cases hs
    exact ⟨once_keep h.start (hne _) nofun, once_keep h.join (hne _) nofun, h.semaphore, h.joined,
      h.built, h.returned⟩
  | exchangeStarted =>
    dsimp only [exec] at hs
    split at hs
    · cases hs
      exact ⟨once_keep h.start (hne _) nofun, once_keep h.join (hne _) nofun, h.semaphore, h.joined,
        h.built, h.returned⟩
    · rename_i hflag
      cases hs
      have hstart := h.start
      rw [Bool.not_eq_true] at hflag
      rw [hflag] at hstart
      exact ⟨once_exchange hstart rfl, once_keep h.join (hne _) nofun, h.semaphore, h.joined,
        h.built, h.returned⟩
  | exchangeJoined =>
    dsimp only [exec] at hs
    split at hs
    · cases hs
      exact ⟨once_keep h.start (hne _) nofun, once_keep h.join (hne _) nofun, h.semaphore, h.joined,
        h.built, h.returned⟩
    · rename_i hflag
      cases hs
      have hjoin := h.join
      rw [Bool.not_eq_true] at hflag
      rw [hflag] at hjoin
      exact ⟨once_keep h.start (hne _) nofun, once_exchange hjoin rfl, h.semaphore, h.joined,
        h.built, h.returned⟩
  | deleteLoop =>
    cases hs
    exact ⟨once_keep h.start (hne _) nofun, once_keep h.join (hne _) nofun, h.semaphore, h.joined,
      h.built, h.returned⟩

theorem act_inv (h : v.Inv) {k : Nat} {rest : List LifeInstr} {won : Won}
    (hk : (v.callers k).won = some won) (hs : v.act k rest won = some v') : v'.Inv := by
  cases won with
  | semPost =>
    cases hs
    refine ⟨once_act h.start hk nofun, once_keep h.join (by rw [hk]; nofun) nofun, ?_, h.joined,
      h.built, h.returned⟩
    show v.m_start_semaphore + 1 + v.main.past = v.posts + 1
    have := h.semaphore
    omega
  | pthreadJoin =>
    obtain ⟨hended, hs⟩ := Option.ite_none_right_eq_some.mp hs
    cases hs
    exact ⟨once_keep h.start (by rw [hk]; nofun) nofun, once_act h.join hk nofun, h.semaphore,
      fun _ => hended, h.built, h.returned⟩

theorem go_inv (h : v.Inv) {k : Nat} (hs : v.go k = some v') : v'.Inv := by
  unfold go at hs
  split at hs
  · rename_i won rest hk
    exact act_inv h (by rw [hk]) hs
  · rename_i instr rest hk
    exact exec_inv h (by rw [hk]) hs
  · cases hs

/-- **What a thread changes that goes on inside a call.** -/
theorem go_cases {k : Nat} (hs : v.go k = some v') : ∃ (w : Lifetime) (c : Caller),
    v' = w.setCaller k c ∧ w.callers = v.callers ∧ c.rest ⊆ (v.callers k).rest ∧
    w.destroying = v.destroying ∧ v.joins ≤ w.joins ∧
    (.deleteLoop ∉ (v.callers k).rest → w.deleted = v.deleted) ∧
    (w.thread = v.thread ∨ w.thread = v.thread.stopLoop ∨
      w.thread = { v.thread with m_started := true }) := by
  unfold go at hs
  split at hs
  · rename_i won rest hk
    rw [hk]
    cases won with
    | semPost =>
      cases hs
      exact ⟨_, _, rfl, rfl, List.Subset.refl _, rfl, le_rfl, fun _ => rfl, Or.inl rfl⟩
    | pthreadJoin =>
      obtain ⟨-, hs⟩ := Option.ite_none_right_eq_some.mp hs
      cases hs
      exact ⟨_, _, rfl, rfl, List.Subset.refl _, rfl, Nat.le_succ _, fun _ => rfl, Or.inl rfl⟩
  · rename_i instr rest hk
    rw [hk]
    have hsub : rest ⊆ instr :: rest := List.subset_cons_self instr rest
    cases instr with
    | waitInit =>
      obtain ⟨-, hs⟩ := Option.ite_none_right_eq_some.mp hs
      cases hs
      exact ⟨_, _, rfl, rfl, hsub, rfl, le_rfl, fun _ => rfl, Or.inl rfl⟩
    | stopLoop =>
      cases hs
      exact ⟨_, _, rfl, rfl, hsub, rfl, le_rfl, fun _ => rfl, Or.inr (Or.inl rfl)⟩
    | exchangeStarted =>
      dsimp only [exec] at hs
      split at hs
      · cases hs
        exact ⟨_, _, rfl, rfl, hsub, rfl, le_rfl, fun _ => rfl, Or.inl rfl⟩
      · cases hs
        exact ⟨_, _, rfl, rfl, hsub, rfl, le_rfl, fun _ => rfl, Or.inr (Or.inr rfl)⟩
    | exchangeJoined =>
      dsimp only [exec] at hs
      split at hs
      · cases hs
        exact ⟨_, _, rfl, rfl, hsub, rfl, le_rfl, fun _ => rfl, Or.inl rfl⟩
      · cases hs
        exact ⟨_, _, rfl, rfl, hsub, rfl, le_rfl, fun _ => rfl, Or.inl rfl⟩
    | deleteLoop =>
      cases hs
      exact ⟨_, _, rfl, rfl, hsub, rfl, le_rfl, fun hd => absurd List.mem_cons_self hd, Or.inl rfl⟩
  · cases hs

theorem advance_started {w w' : IOThread} {results : List EpollResult}
    (hs : w.advance results = some w') :
    w'.m_started = w.m_started ∧ w'.requested = w.requested := by
  unfold IOThread.advance at hs
  split at hs
  · cases hs
  · split at hs <;> cases hs <;> exact ⟨rfl, rfl⟩
  · cases hs
    exact ⟨rfl, rfl⟩
  · split at hs <;> cases hs <;> exact ⟨rfl, rfl⟩
  · cases hs
    exact ⟨rfl, rfl⟩
  · cases hs
    exact ⟨rfl, rfl⟩
  · cases hs
    exact ⟨rfl, rfl⟩

theorem loop_started (w : IOThread) :
    w.loop.m_started = w.m_started ∧ w.loop.requested = w.requested := by
  unfold IOThread.loop
  split <;> exact ⟨rfl, rfl⟩

theorem runMain_inv (h : v.Inv) (hs : v.runMain = some v') : v'.Inv := by
  have hsem := h.semaphore
  unfold runMain at hs
  split at hs
  · rename_i hmain
    cases hs
    rw [hmain] at hsem
    exact ⟨h.start, h.join, hsem, fun hj => absurd ((h.joined hj).symm.trans hmain) (by decide),
      fun hb => absurd hmain (h.built hb).1, fun _ => h.returned (by rw [hmain]; decide)⟩
  · rename_i hmain
    cases hs
    rw [hmain] at hsem
    exact ⟨h.start, h.join, hsem, fun hj => absurd ((h.joined hj).symm.trans hmain) (by decide),
      fun _ => ⟨nofun, nofun⟩, fun _ => h.returned (by rw [hmain]; decide)⟩
  · rename_i hmain
    obtain ⟨hpos, hs⟩ := Option.ite_none_right_eq_some.mp hs
    cases hs
    rw [hmain] at hsem
    have hstarted := (loop_started { v.thread with entered := true }).1
    refine ⟨?_, h.join, ?_, fun hj => absurd ((h.joined hj).symm.trans hmain) (by decide),
      fun _ => ⟨nofun, nofun⟩, fun hr => absurd rfl hr⟩
    · show Once ({ v.thread with entered := true } : IOThread).loop.m_started _ _
      rw [hstarted]
      exact h.start
    · show v.m_start_semaphore - 1 + 1 = v.posts
      rw [Nat.sub_add_cancel hpos]
      exact hsem
  · rename_i hmain
    obtain ⟨hcalls, hs⟩ := Option.ite_none_right_eq_some.mp hs
    cases hs
    rw [hmain] at hsem
    exact ⟨h.start, h.join, hsem, fun _ => rfl, fun _ => ⟨nofun, nofun⟩, fun _ => hcalls⟩
  · cases hs

/-- **A step of the loop** is one of its thread, and leaves the rest alone. -/
theorem runLoop_cases {op : LoopOp} (hs : v.runLoop op = some v') : ∃ w,
    v.thread.step op = some w ∧ v' = { v with thread := w } ∧ w.m_started = v.thread.m_started ∧
      (v.thread.requested = true → w.requested = true) ∧
      (v.main ≠ .running → w.calls = v.thread.calls) := by
  cases op with
  | advance results =>
    obtain ⟨hmain, hs⟩ := Option.ite_none_right_eq_some.mp hs
    obtain ⟨w, hw, rfl⟩ := Option.map_eq_some_iff.mp hs
    obtain ⟨hstarted, hreq⟩ := advance_started hw
    exact ⟨w, hw, rfl, hstarted, hreq.trans, fun hne => absurd hmain hne⟩
  | act action =>
    obtain ⟨hmain, hs⟩ := Option.ite_none_right_eq_some.mp hs
    obtain ⟨w, hw, rfl⟩ := Option.map_eq_some_iff.mp hs
    obtain ⟨-, hw'⟩ := Option.ite_none_right_eq_some.mp hw
    cases hw'
    exact ⟨_, hw, rfl, rfl, id, fun hne => absurd hmain hne⟩
  | loop =>
    obtain ⟨hmain, hs⟩ := Option.ite_none_right_eq_some.mp hs
    obtain ⟨w, hw, rfl⟩ := Option.map_eq_some_iff.mp hs
    obtain ⟨-, hw'⟩ := Option.ite_none_right_eq_some.mp hw
    cases hw'
    obtain ⟨hstarted, hreq⟩ := loop_started v.thread
    exact ⟨_, hw, rfl, hstarted, hreq.trans, fun hne => absurd hmain hne⟩
  | addTask cb =>
    obtain ⟨-, hs⟩ := Option.ite_none_right_eq_some.mp hs
    obtain ⟨w, hw, rfl⟩ := Option.map_eq_some_iff.mp hs
    cases hw
    exact ⟨_, rfl, rfl, rfl, id, fun _ => rfl⟩
  | stopLoop =>
    obtain ⟨-, hs⟩ := Option.ite_none_right_eq_some.mp hs
    obtain ⟨w, hw, rfl⟩ := Option.map_eq_some_iff.mp hs
    cases hw
    exact ⟨_, rfl, rfl, rfl, fun _ => rfl, fun _ => rfl⟩
  | start => cases hs
  | stop => cases hs
  | main => cases hs

theorem step_inv {op : LifeOp} (h : v.Inv) (hs : v.step op = some v') : v'.Inv := by
  cases op with
  | call k self c =>
    obtain ⟨⟨-, -, hk⟩, hs⟩ := Option.ite_none_right_eq_some.mp hs
    cases hs
    have hne : ∀ w, (v.callers k).won ≠ some w := fun w => by rw [hk]; nofun
    exact ⟨once_keep h.start (hne _) nofun, once_keep h.join (hne _) nofun, h.semaphore, h.joined,
      h.built, h.returned⟩
  | go k => exact go_inv h hs
  | main => exact runMain_inv h hs
  | loop op =>
    obtain ⟨w, -, rfl, hstarted, -, hcalls⟩ := runLoop_cases hs
    refine ⟨?_, h.join, h.semaphore, h.joined, h.built, fun hmain => ?_⟩
    · show Once w.m_started _ _
      rw [hstarted]
      exact h.start
    · exact (hcalls hmain).trans (h.returned hmain)

end Steps

theorem run_inv {v : Lifetime} {ops : List LifeOp}
    (hrun : Run (fun v op v' => step v op = some v') {} ops v) : v.Inv :=
  hrun.invariant (I := Inv) step_inv init_inv

/-- **Whoever calls what**, the start semaphore is posted at most once and the thread joined at
most once.  `Main` is in its loop, or past it, only behind that post; the one `pthread_join` has
waited for its end; and the constructor returns with the loop built. -/
theorem lifetime_once {v : Lifetime} {ops : List LifeOp}
    (hrun : Run (fun v op v' => step v op = some v') {} ops v) :
    v.posts ≤ 1 ∧ v.joins ≤ 1 ∧ (v.main = .running ∨ v.main = .ended → v.posts = 1) ∧
      (v.joins = 1 → v.main = .ended ∧ v.thread.calls = []) ∧
      (v.constructed = true → v.main ≠ .created) := by
  have h := run_inv hrun
  refine ⟨h.start.le_one, h.join.le_one, fun hmain => ?_, fun hj => ?_, fun hc => ?_⟩
  · have hpast : v.main.past = 1 := by
      rcases hmain with hm | hm <;> rw [hm] <;> rfl
    have hsem := h.semaphore
    have hle := h.start.le_one
    omega
  · have hended := h.joined (hj ▸ Nat.one_pos)
    exact ⟨hended, h.returned (by rw [hended]; decide)⟩
  · exact (h.built (Or.inr hc)).1

/-- Two threads start and stop it at once. -/
theorem lifetime_once_racing : ∃ v : Lifetime,
    Run (fun v op v' => step v op = some v') {}
      [.main, .main, .go 0, .call 0 false .start, .call 1 false .stop, .go 1, .go 0, .go 1, .go 0,
        .main, .main] v ∧ v.main = .ended ∧ v.posts = 1 :=
  have hrun : Run (fun v op v' => step v op = some v') {}
      [.main, .main, .go 0, .call 0 false .start, .call 1 false .stop, .go 1, .go 0, .go 1, .go 0,
        .main, .main] _ := Run.of_foldlM rfl
  ⟨_, hrun, rfl, (lifetime_once hrun).2.2.1 (Or.inr rfl)⟩

/-! ### Destruction -/

/-- The destructor runs alone and not on the thread itself, and nothing is called behind it. -/
def Orderly (v : Lifetime) : LifeOp → Prop
  | .call _ self c =>
      v.destroying = false ∧ (c = .destroy → self = false ∧ ∀ j, v.callers j = {})
  | _ => True

/-- Where the destructor is, and what it has done. -/
inductive Destructing (v : Lifetime) : Caller → Prop
  | stop : Destructing v ⟨none, [.stopLoop, .exchangeStarted, .exchangeJoined, .deleteLoop]⟩
  | start (hreq : v.thread.requested = true) :
      Destructing v ⟨none, [.exchangeStarted, .exchangeJoined, .deleteLoop]⟩
  | post (hreq : v.thread.requested = true) (hs : v.thread.m_started = true) :
      Destructing v ⟨some .semPost, [.exchangeJoined, .deleteLoop]⟩
  | join (hreq : v.thread.requested = true) (hs : v.thread.m_started = true) :
      Destructing v ⟨none, [.exchangeJoined, .deleteLoop]⟩
  | wait (hreq : v.thread.requested = true) (hs : v.thread.m_started = true)
      (hj : v.m_joined = true) : Destructing v ⟨some .pthreadJoin, [.deleteLoop]⟩
  | delete (hj : v.m_joined = true) : Destructing v ⟨none, [.deleteLoop]⟩

structure Ordered (v : Lifetime) : Prop where
  before : v.destroying = false → v.deleted = false ∧ ∀ k, .deleteLoop ∉ (v.callers k).rest
  alone : v.destroying = true → ∃ k, (∀ j, j ≠ k → v.callers j = {}) ∧
    (v.deleted = false ∧ v.Destructing (v.callers k) ∨
      v.deleted = true ∧ v.callers k = {} ∧ v.m_joined = true)

section Destruction

variable {v v' : Lifetime}

theorem Destructing.mono {c : Caller} (h : v.Destructing c)
    (hreq : v.thread.requested = true → v'.thread.requested = true)
    (hs : v.thread.m_started = true → v'.thread.m_started = true)
    (hj : v.m_joined = true → v'.m_joined = true) : v'.Destructing c := by
  cases h with
  | stop => exact .stop
  | start h1 => exact .start (hreq h1)
  | post h1 h2 => exact .post (hreq h1) (hs h2)
  | join h1 h2 => exact .join (hreq h1) (hs h2)
  | wait h1 h2 h3 => exact .wait (hreq h1) (hs h2) (hj h3)
  | delete h3 => exact .delete (hj h3)

theorem Inv.joins_eq_one (h : v.Inv) (hj : v.m_joined = true) {k : Nat}
    (hidle : ∀ j, j ≠ k → v.callers j = {}) (hk : (v.callers k).won = none) : v.joins = 1 := by
  have hjoin := h.join
  rw [hj] at hjoin
  refine hjoin.done_of_idle fun j hw => ?_
  by_cases hjk : j = k
  · subst hjk
    rw [hk] at hw
    cases hw
  · rw [hidle j hjk] at hw
    cases hw

theorem go_before {k : Nat} (hk : .deleteLoop ∉ (v.callers k).rest) (hs : v.go k = some v') :
    v'.destroying = v.destroying ∧ v'.deleted = v.deleted ∧
      ∀ j, (v'.callers j).rest ⊆ (v.callers j).rest := by
  obtain ⟨w, c, rfl, hw, hsub, hdest, -, hdel, -⟩ := go_cases hs
  refine ⟨hdest, hdel hk, fun j => ?_⟩
  show (Function.update w.callers k c j).rest ⊆ _
  by_cases hj : j = k
  · subst hj
    rw [Function.update_self]
    exact hsub
  · rw [Function.update_of_ne hj, hw]
    exact List.Subset.refl _

theorem go_destructing {k : Nat} (hidle : ∀ j, j ≠ k → v.callers j = {})
    (hdel : v.deleted = false) (hk : v.Destructing (v.callers k)) (hs : v.go k = some v') :
    v'.destroying = v.destroying ∧ (∀ j, j ≠ k → v'.callers j = {}) ∧
      (v'.deleted = false ∧ v'.Destructing (v'.callers k) ∨
        v'.deleted = true ∧ v'.callers k = {} ∧ v'.m_joined = true) := by
  have hcases : ∀ {w : Lifetime} {c : Caller}, w.setCaller k c = v' → w.callers = v.callers →
      w.destroying = v.destroying →
      (w.deleted = false ∧ w.Destructing c ∨ w.deleted = true ∧ c = {} ∧ w.m_joined = true) →
      v'.destroying = v.destroying ∧ (∀ j, j ≠ k → v'.callers j = {}) ∧
      (v'.deleted = false ∧ v'.Destructing (v'.callers k) ∨
        v'.deleted = true ∧ v'.callers k = {} ∧ v'.m_joined = true) := by
    rintro w c rfl hw hd hc
    have hself : (w.setCaller k c).callers k = c := Function.update_self ..
    refine ⟨hd, fun j hj => ?_, ?_⟩
    · show Function.update w.callers k c j = {}
      rw [Function.update_of_ne hj, hw]
      exact hidle j hj
    · rw [hself]
      exact hc.imp (fun ⟨h1, h2⟩ => ⟨h1, h2.mono id id id⟩) id
  unfold go at hs
  generalize hc : v.callers k = c at hk hs
  cases hk with
  | stop => exact hcases (Option.some.inj hs) rfl rfl (Or.inl ⟨hdel, .start rfl⟩)
  | start hreq =>
    dsimp only [exec] at hs
    split at hs
    · rename_i hstarted
      exact hcases (Option.some.inj hs) rfl rfl (Or.inl ⟨hdel, .join hreq hstarted⟩)
    · exact hcases (Option.some.inj hs) rfl rfl (Or.inl ⟨hdel, .post hreq rfl⟩)
  | post hreq hstarted =>
    exact hcases (Option.some.inj hs) rfl rfl (Or.inl ⟨hdel, .join hreq hstarted⟩)
  | join hreq hstarted =>
    dsimp only [exec] at hs
    split at hs
    · rename_i hj
      exact hcases (Option.some.inj hs) rfl rfl (Or.inl ⟨hdel, .delete hj⟩)
    · exact hcases (Option.some.inj hs) rfl rfl (Or.inl ⟨hdel, .wait hreq hstarted rfl⟩)
  | wait hreq hstarted hj =>
    obtain ⟨-, hs⟩ := Option.ite_none_right_eq_some.mp hs
    exact hcases (Option.some.inj hs) rfl rfl (Or.inl ⟨hdel, .delete hj⟩)
  | delete hj => exact hcases (Option.some.inj hs) rfl rfl (Or.inr ⟨rfl, rfl, hj⟩)

theorem init_ordered : Ordered {} := by
  refine ⟨fun _ => ⟨rfl, fun k => ?_⟩, nofun⟩
  show LifeInstr.deleteLoop ∉ (Function.update (fun _ => ({} : Caller)) 0 _ k).rest
  by_cases hk : k = 0
  · subst hk
    rw [Function.update_self]
    decide
  · rw [Function.update_of_ne hk]
    exact List.not_mem_nil

theorem call_ordered (h : v.Ordered) {k : Nat} {self : Bool} {c : LifeCall}
    (hop : v.Orderly (.call k self c)) (hs : v.step (.call k self c) = some v') : v'.Ordered := by
  obtain ⟨hdest, halone⟩ := hop
  obtain ⟨-, hs⟩ := Option.ite_none_right_eq_some.mp hs
  cases hs
  obtain ⟨hdel, hno⟩ := h.before hdest
  by_cases hc : c = .destroy
  · -- the destructor is alone
    obtain ⟨rfl, hidle⟩ := halone hc
    subst hc
    refine ⟨fun hf => ?_, fun _ => ⟨k, fun j hj => ?_, Or.inl ⟨hdel, ?_⟩⟩⟩
    · simp at hf
    · show Function.update v.callers k _ j = {}
      rw [Function.update_of_ne hj]
      exact hidle j
    · show Destructing _ (Function.update v.callers k _ k)
      rw [Function.update_self]
      exact .stop
  · refine ⟨fun _ => ⟨hdel, fun j => ?_⟩, fun hd => ?_⟩
    · show LifeInstr.deleteLoop ∉ (Function.update v.callers k _ j).rest
      by_cases hj : j = k
      · subst hj
        rw [Function.update_self]
        cases c with
        | start => exact nofun
        | stop => exact nofun
        | join => cases self <;> decide
        | destroy => exact absurd rfl hc
      · rw [Function.update_of_ne hj]
        exact hno j
    · simp [hdest, hc] at hd

theorem go_ordered (h : v.Ordered) {k : Nat} (hs : v.go k = some v') :
    v'.Ordered := by
  cases hd : v.destroying with
  | false =>
    obtain ⟨hdel, hno⟩ := h.before hd
    obtain ⟨h1, h2, h3⟩ := go_before (hno k) hs
    refine ⟨fun _ => ⟨h2.trans hdel, fun j hmem => hno j (h3 j hmem)⟩, fun hd' => ?_⟩
    rw [h1, hd] at hd'
    cases hd'
  | true =>
    obtain ⟨k₀, hidle, hk₀⟩ := h.alone hd
    have hnone : v.callers k ≠ {} := by
      intro he
      unfold go at hs
      rw [he] at hs
      cases hs
    have hk : k = k₀ := by
      by_contra hne
      exact hnone (hidle k hne)
    subst hk
    rcases hk₀ with ⟨hdel, hk⟩ | ⟨-, hk, -⟩
    · obtain ⟨h1, h2, h3⟩ := go_destructing hidle hdel hk hs
      refine ⟨fun hd' => ?_, fun _ => ⟨k, h2, h3⟩⟩
      rw [h1, hd] at hd'
      cases hd'
    · exact absurd hk hnone

theorem Ordered.keep (h : v.Ordered) (hcallers : v'.callers = v.callers)
    (hdest : v'.destroying = v.destroying) (hdel : v'.deleted = v.deleted)
    (hreq : v.thread.requested = true → v'.thread.requested = true)
    (hs : v.thread.m_started = true → v'.thread.m_started = true)
    (hj : v.m_joined = true → v'.m_joined = true) : v'.Ordered := by
  refine ⟨fun hd => ?_, fun hd => ?_⟩
  · rw [hdest] at hd
    rw [hdel, hcallers]
    exact h.before hd
  · rw [hdest] at hd
    obtain ⟨k, hidle, hk⟩ := h.alone hd
    rw [hdel, hcallers]
    exact ⟨k, hidle, hk.imp (fun ⟨h1, h2⟩ => ⟨h1, h2.mono hreq hs hj⟩)
      fun ⟨h1, h2, h3⟩ => ⟨h1, h2, hj h3⟩⟩

theorem step_ordered {op : LifeOp} (h : v.Ordered) (hop : v.Orderly op)
    (hs : v.step op = some v') : v'.Ordered := by
  cases op with
  | call k self c => exact call_ordered h hop hs
  | go k => exact go_ordered h hs
  | main =>
    have hs : v.runMain = some v' := hs
    unfold runMain at hs
    split at hs
    · cases hs
      exact h.keep rfl rfl rfl id id id
    · cases hs
      exact h.keep rfl rfl rfl id id id
    · obtain ⟨-, hs⟩ := Option.ite_none_right_eq_some.mp hs
      cases hs
      obtain ⟨hstarted, hreq⟩ := loop_started { v.thread with entered := true }
      exact h.keep rfl rfl rfl hreq.trans hstarted.trans id
    · obtain ⟨-, hs⟩ := Option.ite_none_right_eq_some.mp hs
      cases hs
      exact h.keep rfl rfl rfl id id id
    · cases hs
  | loop op =>
    obtain ⟨w, -, rfl, hstarted, hreq, -⟩ := runLoop_cases hs
    exact h.keep rfl rfl rfl hreq hstarted.trans id

theorem Ordered.of_deleted (h : v.Ordered) (hinv : v.Inv) (hdel : v.deleted = true) :
    v.main = .ended ∧ v.thread.calls = [] ∧ v.joins = 1 ∧ ∀ k, v.callers k = {} := by
  have hdest : v.destroying = true := by
    by_contra hd
    rw [Bool.not_eq_true] at hd
    rw [(h.before hd).1] at hdel
    cases hdel
  obtain ⟨k, hidle, ⟨hno, -⟩ | ⟨-, hk, hj⟩⟩ := h.alone hdest
  · rw [hno] at hdel
    cases hdel
  have hone := hinv.joins_eq_one hj hidle (by rw [hk])
  have hended := hinv.joined (hone ▸ Nat.one_pos)
  refine ⟨hended, hinv.returned (by rw [hended]; decide), hone, fun j => ?_⟩
  by_cases hjk : j = k
  · rw [hjk]
    exact hk
  · exact hidle j hjk

end Destruction

/-- **The loop is deleted last**: in every run in which the destructor runs alone, `Main` has
ended by the time the loop is deleted, its calls of `loop` have returned, the thread was joined,
and no thread is inside a call. -/
theorem lifetime_deletes_last {v : Lifetime} {ops : List LifeOp}
    (hrun : Run (fun v op v' => Orderly v op ∧ step v op = some v') {} ops v)
    (hdel : v.deleted = true) :
    v.main = .ended ∧ v.thread.calls = [] ∧ v.joins = 1 ∧ ∀ k, v.callers k = {} := by
  obtain ⟨hinv, h⟩ := hrun.invariant (I := fun v => v.Inv ∧ v.Ordered)
    (fun h hs => ⟨step_inv h.1 hs.2, step_ordered h.2 hs.1 hs.2⟩) ⟨init_inv, init_ordered⟩
  exact h.of_deleted hinv hdel

/-- A thread that is destroyed without having been started. -/
theorem lifetime_deletes_last_unstarted : ∃ v : Lifetime, v.deleted = true ∧ v.main = .ended := by
  have hrun : Run (fun v op v' => Orderly v op ∧ step v op = some v') {}
      [.main, .main, .go 0, .call 0 false .destroy, .go 0, .go 0, .go 0, .main, .main, .go 0, .go 0,
        .go 0] _ :=
    .cons ⟨trivial, rfl⟩ <| .cons ⟨trivial, rfl⟩ <| .cons ⟨trivial, rfl⟩ <|
    .cons ⟨⟨rfl, fun _ => ⟨rfl, fun j => match j with | 0 => rfl | _ + 1 => rfl⟩⟩, rfl⟩ <|
    .cons ⟨trivial, rfl⟩ <| .cons ⟨trivial, rfl⟩ <| .cons ⟨trivial, rfl⟩ <|
    .cons ⟨trivial, rfl⟩ <| .cons ⟨trivial, rfl⟩ <| .cons ⟨trivial, rfl⟩ <|
    .cons ⟨trivial, rfl⟩ <| .cons ⟨trivial, rfl⟩ <| .nil _
  exact ⟨_, rfl, (lifetime_deletes_last hrun rfl).1⟩

/-- **The destructor beside a `join`**: its own `join` returns at once, and the loop is deleted
while `Main` is in it. -/
theorem overlapping_join_deletes : ∃ v : Lifetime,
    Run (fun v op v' => step v op = some v') {}
      [.main, .main, .go 0, .call 0 false .start, .go 0, .go 0, .main, .call 1 false .join, .go 1,
        .call 0 false .destroy, .go 0, .go 0, .go 0, .go 0] v ∧
      v.deleted = true ∧ v.main = .running ∧ v.thread.calls = [.head] :=
  ⟨_, Run.of_foldlM rfl, rfl, rfl, rfl⟩

/-! ### The destructor finishes -/

/-- The steps of thread `k` inside its call, of `Main` and of the loop. -/
def Own (k : Nat) (v : Lifetime) (op : LifeOp) (v' : Lifetime) : Prop :=
  (op = .go k ∨ op = .main ∨ op = .loop (.advance [])) ∧ v.step op = some v'

/-- `Main` comes to its end while thread `k` stays where it is. -/
def Ends (k : Nat) (v : Lifetime) : Prop :=
  ∃ ops v', Run (Own k) v ops v' ∧ v'.main = .ended ∧ v'.callers = v.callers ∧
    v'.deleted = v.deleted

section Finish

variable {k : Nat} {v v' : Lifetime}

theorem Ends.main (hs : v.step .main = some v') (hc : v'.callers = v.callers)
    (hd : v'.deleted = v.deleted) (h : v'.Ends k) : v.Ends k := by
  obtain ⟨ops, v'', hrun, hmain, hcallers, hdel⟩ := h
  exact ⟨_, v'', .cons ⟨Or.inr (Or.inl rfl), hs⟩ hrun, hmain, hcallers.trans hc, hdel.trans hd⟩

theorem run_advance {w w' : IOThread} {n : Nat}
    (hrun : Run (fun w op w' => IOThread.step w op = some w') w
      (List.replicate n (.advance [])) w') : ∀ {v : Lifetime}, v.main = .running → v.thread = w →
    Run (Own k) v (List.replicate n (.loop (.advance []))) { v with thread := w' } := by
  induction n generalizing w with
  | zero =>
    intro v _ hv
    cases hrun
    subst hv
    exact .nil v
  | succ n ih =>
    intro v hmain hv
    rw [List.replicate_succ] at hrun ⊢
    cases hrun with
    | cons hs hrun =>
      rename_i w₁
      subst hv
      have hone : v.step (.loop (.advance [])) = some { v with thread := w₁ } := by
        show v.runLoop (.advance []) = _
        unfold runLoop
        rw [if_pos hmain, hs]
        rfl
      exact .cons ⟨Or.inr (Or.inr rfl), hone⟩ (ih hrun (v := { v with thread := w₁ }) hmain rfl)

theorem ends_of_running (hmain : v.main = .running)
    (hflag : v.thread.m_event_loop.m_stop_flag = true) : v.Ends k := by
  obtain ⟨n, w, hrun, hcalls⟩ := IOThread.returns_of_stopped hflag
  have hlast : step { v with thread := w } .main =
      some { v with thread := w, main := .ended } := by
    show runMain { v with thread := w } = _
    unfold runMain
    rw [hmain]
    exact if_pos hcalls
  exact ⟨_, _, (run_advance hrun hmain rfl).append
    (.cons ⟨Or.inr (Or.inl rfl), hlast⟩ (.nil _)), rfl, rfl, rfl⟩

/-- **A stopped thread that was started ends.** -/
theorem Inv.ends (h : v.Inv) (hflag : v.thread.m_event_loop.m_stop_flag = true)
    (hposts : v.posts = 1) : v.Ends k := by
  have hwaiting : ∀ {v : Lifetime}, v.main = .waiting → 0 < v.m_start_semaphore →
      v.thread.m_event_loop.m_stop_flag = true → v.Ends k := by
    intro v hmain hpos hflag
    have hs : v.step .main = some { v with
        main := .running
        m_start_semaphore := v.m_start_semaphore - 1
        thread := { v.thread with entered := true }.loop } := by
      show v.runMain = _
      unfold runMain
      rw [hmain]
      exact if_pos hpos
    refine Ends.main hs rfl rfl (ends_of_running rfl ?_)
    show (IOThread.loop { v.thread with entered := true }).m_event_loop.m_stop_flag = true
    unfold IOThread.loop
    rw [if_pos hflag]
    exact hflag
  have hbuilt : ∀ {v : Lifetime}, v.main = .built → 0 < v.m_start_semaphore →
      v.thread.m_event_loop.m_stop_flag = true → v.Ends k := by
    intro v hmain hpos hflag
    have hs : v.step .main = some { v with
        main := .waiting, m_init_semaphore := v.m_init_semaphore + 1 } := by
      show v.runMain = _
      unfold runMain
      rw [hmain]
    exact Ends.main hs rfl rfl (hwaiting rfl hpos hflag)
  have hpos : v.main.past = 0 → 0 < v.m_start_semaphore := by
    intro hpast
    have hsem := h.semaphore
    omega
  cases hmain : v.main with
  | created =>
    have hs : v.step .main = some { v with main := .built } := by
      show v.runMain = _
      unfold runMain
      rw [hmain]
    exact Ends.main hs rfl rfl (hbuilt rfl (hpos (by rw [hmain]; rfl)) hflag)
  | built => exact hbuilt hmain (hpos (by rw [hmain]; rfl)) hflag
  | waiting => exact hwaiting hmain (hpos (by rw [hmain]; rfl)) hflag
  | running => exact ends_of_running hmain hflag
  | ended => exact ⟨[], v, .nil v, hmain, rfl, rfl⟩

/-- What is left of a call comes to its end: a join is behind a stop and a start. -/
def CanReturn (flag started : Bool) : List LifeInstr → Prop
  | [] => True
  | .waitInit :: _ => False
  | .stopLoop :: rest => CanReturn true started rest
  | .exchangeStarted :: rest => CanReturn flag true rest
  | .exchangeJoined :: rest => flag = true ∧ started = true ∧ CanReturn false false rest
  | .deleteLoop :: rest => CanReturn flag started rest

theorem CanReturn.mono {rest : List LifeInstr} : ∀ {flag flag' started started' : Bool},
    (flag = true → flag' = true) → (started = true → started' = true) →
    CanReturn flag started rest → CanReturn flag' started' rest := by
  induction rest with
  | nil => exact fun _ _ _ => trivial
  | cons instr rest ih =>
    intro flag flag' started started' hf hs h
    cases instr with
    | waitInit => exact h.elim
    | stopLoop => exact ih id hs h
    | exchangeStarted => exact ih hf id h
    | exchangeJoined => exact ⟨hf h.1, hs h.2.1, h.2.2⟩
    | deleteLoop => exact ih hf hs h

/-- Thread `k` returns from its call; the loop is deleted if the call deletes it. -/
def Finishes (k : Nat) (v : Lifetime) (deletes : Prop) : Prop :=
  ∃ ops v', Run (Own k) v ops v' ∧ v'.callers k = {} ∧ (deletes → v'.deleted = true)

theorem Finishes.go {p q : Prop} (hs : v.step (.go k) = some v') (hpq : q → p)
    (h : v'.Finishes k p) : v.Finishes k q := by
  obtain ⟨ops, v'', hrun, hidle, hdel⟩ := h
  exact ⟨_, v'', .cons ⟨Or.inl rfl, hs⟩ hrun, hidle, fun hq => hdel (hpq hq)⟩

theorem Finishes.imp {p q : Prop} (h : v.Finishes k p) (hpq : q → p) : v.Finishes k q := by
  obtain ⟨ops, v', hrun, hidle, hdel⟩ := h
  exact ⟨ops, v', hrun, hidle, fun hq => hdel (hpq hq)⟩

/-- Only thread `k` is inside a call. -/
structure Closing (k : Nat) (c : Caller) (v : Lifetime) : Prop where
  inv : v.Inv
  idle : ∀ j, j ≠ k → v.callers j = {}
  here : v.callers k = c

theorem Closing.next {c c' : Caller} {w : Lifetime} (h : v.Closing k c)
    (hs : v.step (.go k) = some (w.setCaller k c')) (hw : w.callers = v.callers) :
    (w.setCaller k c').Closing k c' := by
  refine ⟨step_inv h.inv hs, fun j hj => ?_, Function.update_self ..⟩
  show Function.update w.callers k c' j = {}
  rw [Function.update_of_ne hj, hw]
  exact h.idle j hj

theorem Closing.posts_eq_one {c : Caller} (h : v.Closing k c)
    (hs : v.thread.m_started = true) (hc : c.won ≠ some .semPost) : v.posts = 1 := by
  have hstart := h.inv.start
  rw [hs] at hstart
  refine hstart.done_of_idle fun j hw => ?_
  by_cases hj : j = k
  · rw [hj, h.here] at hw
    exact hc hw
  · rw [h.idle j hj] at hw
    cases hw

theorem Closing.own {c : Caller} {ops : List LifeOp} (h : v.Closing k c)
    (hrun : Run (Own k) v ops v') (hc : v'.callers = v.callers) : v'.Closing k c :=
  ⟨hrun.invariant (I := Inv) (fun h hs => step_inv h hs.2) h.inv, hc ▸ h.idle, hc ▸ h.here⟩

theorem Closing.go_eq {rest : List LifeInstr} {instr : LifeInstr}
    (h : v.Closing k ⟨none, instr :: rest⟩) : v.step (.go k) = v.exec k rest instr := by
  show v.go k = _
  unfold go
  rw [h.here]

theorem Closing.act_eq {rest : List LifeInstr} {won : Won} (h : v.Closing k ⟨some won, rest⟩) :
    v.step (.go k) = v.act k rest won := by
  show v.go k = _
  unfold go
  rw [h.here]

/-- **A thread that waits in `pthread_join`** comes out of it. -/
theorem Closing.joins_out {rest : List LifeInstr} {p : Prop}
    (h : v.Closing k ⟨some .pthreadJoin, rest⟩)
    (hflag : v.thread.m_event_loop.m_stop_flag = true) (hs : v.thread.m_started = true)
    (hnext : ∀ {w : Lifetime}, w.Closing k ⟨none, rest⟩ → w.deleted = v.deleted →
      w.Finishes k p) : v.Finishes k p := by
  obtain ⟨ops, w, hrun, hmain, hcallers, hdel⟩ :=
    h.inv.ends (k := k) hflag (h.posts_eq_one hs nofun)
  have hw := h.own hrun hcallers
  have hgo : w.step (.go k) =
      some ({ w with joins := w.joins + 1 }.setCaller k ⟨none, rest⟩) :=
    hw.act_eq.trans (if_pos hmain)
  obtain ⟨ops', w', hrun', hret⟩ := (hnext (hw.next hgo rfl) hdel).go hgo id
  exact ⟨_, w', hrun.append hrun', hret⟩

/-- **A thread inside a call returns**, and deletes the loop if the call does. -/
theorem Closing.finishes {rest : List LifeInstr} : ∀ {v : Lifetime}, v.Closing k ⟨none, rest⟩ →
    CanReturn v.thread.m_event_loop.m_stop_flag v.thread.m_started rest →
    v.Finishes k (v.deleted = true ∨ .deleteLoop ∈ rest) := by
  induction rest with
  | nil =>
    intro v h _
    exact ⟨[], v, .nil v, h.here, fun hd => hd.resolve_right List.not_mem_nil⟩
  | cons instr rest ih =>
    intro v h hc
    -- a step that deletes nothing leaves the deletion to what follows
    have hmem : ∀ {instr : LifeInstr}, instr ≠ .deleteLoop →
        v.deleted = true ∨ .deleteLoop ∈ instr :: rest → v.deleted = true ∨ .deleteLoop ∈ rest :=
      fun hne hd => hd.imp_right fun hm => (List.mem_cons.mp hm).resolve_left (Ne.symm hne)
    cases instr with
    | waitInit => exact hc.elim
    | stopLoop =>
      have hs := h.go_eq
      exact (ih (h.next hs rfl) hc).go hs (hmem nofun)
    | exchangeStarted =>
      have hgo := h.go_eq
      cases hstarted : v.thread.m_started with
      | true =>
        have hs : v.step (.go k) = some (v.setCaller k ⟨none, rest⟩) := hgo.trans (if_pos hstarted)
        have hc : CanReturn _ true rest := hc
        rw [← hstarted] at hc
        exact (ih (h.next hs rfl) hc).go hs (hmem nofun)
      | false =>
        have hs : v.step (.go k) = some ({ v with
            thread := { v.thread with m_started := true } }.setCaller k ⟨some .semPost, rest⟩) :=
          hgo.trans (if_neg (by simp [hstarted]))
        have h₁ := h.next hs rfl
        have hs₁ := h₁.act_eq
        exact ((ih (h₁.next hs₁ rfl) hc).go hs₁ id).go hs (hmem nofun)
    | exchangeJoined =>
      have hgo := h.go_eq
      have hrest : ∀ {w : Lifetime}, w.Closing k ⟨none, rest⟩ → w.deleted = v.deleted →
          w.Finishes k (v.deleted = true ∨ .deleteLoop ∈ rest) := by
        intro w hw hd
        rw [← hd]
        have hfree : CanReturn false false rest := hc.2.2
        exact ih hw (hfree.mono (fun h => absurd h (by decide)) fun h => absurd h (by decide))
      cases hj : v.m_joined with
      | true =>
        have hs : v.step (.go k) = some (v.setCaller k ⟨none, rest⟩) := hgo.trans (if_pos hj)
        exact (hrest (h.next hs rfl) rfl).go hs (hmem nofun)
      | false =>
        have hs : v.step (.go k) =
            some ({ v with m_joined := true }.setCaller k ⟨some .pthreadJoin, rest⟩) :=
          hgo.trans (if_neg (by simp [hj]))
        exact ((h.next hs rfl).joins_out hc.1 hc.2.1 hrest).go hs (hmem nofun)
    | deleteLoop =>
      have hs := h.go_eq
      exact (ih (h.next hs rfl) hc).go hs fun _ => Or.inl rfl

/-- **From wherever the destructor is, it finishes.** -/
theorem Destructing.finishes (h : v.Destructing (v.callers k)) (hinv : v.Inv)
    (hidle : ∀ j, j ≠ k → v.callers j = {})
    (hflag : v.thread.requested = true → v.thread.m_event_loop.m_stop_flag = true) :
    v.Finishes k True := by
  generalize hc : v.callers k = c at h
  have hclosing : v.Closing k c := ⟨hinv, hidle, hc⟩
  cases h with
  | stop => exact (hclosing.finishes ⟨rfl, rfl, trivial⟩).imp fun _ => Or.inr (by decide)
  | start hreq =>
    exact (hclosing.finishes ⟨hflag hreq, rfl, trivial⟩).imp fun _ => Or.inr (by decide)
  | post hreq hs =>
    have hgo := hclosing.act_eq
    refine Finishes.go hgo ?_ ((hclosing.next hgo rfl).finishes ⟨hflag hreq, hs, trivial⟩)
    exact fun _ => Or.inr (by decide)
  | join hreq hs =>
    exact (hclosing.finishes ⟨hflag hreq, hs, trivial⟩).imp fun _ => Or.inr (by decide)
  | wait hreq hs _ =>
    refine hclosing.joins_out (hflag hreq) hs fun hw _ => ?_
    exact (hw.finishes trivial).imp fun _ => Or.inr (by decide)
  | delete _ => exact (hclosing.finishes trivial).imp fun _ => Or.inr (by decide)

end Finish

/-- No client is constructed on the thread once a stop was requested. -/
def Honours (v : Lifetime) : LifeOp → Prop
  | .loop op => v.thread.HonoursStop op
  | _ => True

theorem step_thread {v v' : Lifetime} {op : LifeOp} (h : v.thread.Inv) (hop : v.Honours op)
    (hs : v.step op = some v') : v'.thread.Inv := by
  cases op with
  | call k self c =>
    obtain ⟨-, hs⟩ := Option.ite_none_right_eq_some.mp hs
    cases hs
    exact h
  | go k =>
    obtain ⟨w, c, rfl, -, -, -, -, -, hthread⟩ := go_cases hs
    show w.thread.Inv
    rcases hthread with ht | ht | ht
    · rw [ht]
      exact h
    · rw [ht]
      exact ⟨fun _ => rfl, h.2⟩
    · rw [ht]
      exact h
  | main =>
    have hs : v.runMain = some v' := hs
    unfold runMain at hs
    split at hs
    · cases hs
      exact h
    · cases hs
      exact h
    · obtain ⟨-, hs⟩ := Option.ite_none_right_eq_some.mp hs
      cases hs
      exact IOThread.loop_inv (w := { v.thread with entered := true }) h
    · obtain ⟨-, hs⟩ := Option.ite_none_right_eq_some.mp hs
      cases hs
      exact h
    · cases hs
  | loop op =>
    obtain ⟨w, hw, rfl, -⟩ := runLoop_cases hs
    exact IOThread.step_inv h ⟨hop, hw⟩

/-- **The destructor can always finish**: in every run in which it runs alone and not on the thread
itself, and no client is constructed on the thread after a stop, wherever the destructor and `Main`
are, started or not, their own steps and those of the loop lead to the end of the destructor. -/
theorem lifetime_destroys {v : Lifetime} {ops : List LifeOp}
    (hrun : Run (fun v op v' => (Orderly v op ∧ Honours v op) ∧ step v op = some v') {} ops v)
    (hdest : v.destroying = true) :
    ∃ k ops' v', Run (Own k) v ops' v' ∧ v'.deleted = true := by
  obtain ⟨hinv, h, hthread⟩ := hrun.invariant (I := fun v => v.Inv ∧ v.Ordered ∧ v.thread.Inv)
    (fun h hs => ⟨step_inv h.1 hs.2, step_ordered h.2.1 hs.1.1 hs.2, step_thread h.2.2 hs.1.2 hs.2⟩)
    ⟨init_inv, init_ordered, nofun, rfl⟩
  obtain ⟨k, hidle, ⟨-, hk⟩ | ⟨hdel, -⟩⟩ := h.alone hdest
  · obtain ⟨ops', v', hrun', -, hdel⟩ := hk.finishes hinv hidle hthread.1
    exact ⟨k, ops', v', hrun', hdel trivial⟩
  · exact ⟨k, [], v, .nil v, hdel⟩

/-- The destructor of a thread that was never started, at its beginning. -/
theorem lifetime_destroys_unstarted : ∃ v v' : Lifetime, ∃ k ops,
    v.destroying = true ∧ v.thread.m_started = false ∧ Run (Own k) v ops v' ∧
      v'.deleted = true := by
  have hrun : Run (fun v op v' => (Orderly v op ∧ Honours v op) ∧ step v op = some v') {}
      [.main, .main, .go 0, .call 0 false .destroy] _ :=
    .cons ⟨⟨trivial, trivial⟩, rfl⟩ <| .cons ⟨⟨trivial, trivial⟩, rfl⟩ <|
    .cons ⟨⟨trivial, trivial⟩, rfl⟩ <|
    .cons ⟨⟨⟨rfl, fun _ => ⟨rfl, fun j => match j with | 0 => rfl | _ + 1 => rfl⟩⟩, trivial⟩,
      rfl⟩ <|
    .nil _
  obtain ⟨k, ops', v', hrun', hdel⟩ := lifetime_destroys hrun rfl
  exact ⟨_, v', k, ops', rfl, rfl, hrun', hdel⟩

end Lifetime

end KaiRPC
