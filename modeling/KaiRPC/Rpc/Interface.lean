import KaiRPC.Lib.Run
import KaiRPC.Rpc.Dispatcher

/-!
# RpcInterface

`net/rpc/rpc_interface.cc` and `RpcClosure::Run` of `net/rpc/rpc_closure.h`: a service
method as an object that owns the closure of the dispatcher (`m_done`).  The object lives
as long as a shared reference to it does: its holders', and one in every closure of
`newRpcClosure` until that closure has run.  `reply()` runs `m_done`, and so does the
destructor.

* `RpcInterface`, `Event`, `step`: the object, what may happen to it, and what comes of it.
* `owed`: the replies made and the one the destructor still has to make.
* `step_owed`: **a step changes that number only by calling `reply()`**.
* `replied_once_iff`: over a whole lifetime `m_done` is run exactly once if and only if
  nobody called `reply()`.
-/

namespace KaiRPC

open RpcDispatcher

structure RpcInterface where
  /-- The shared references outside the closures. -/
  held : Nat := 1
  /-- The closures of `newRpcClosure`: whether `m_rpc_interface` is still set. -/
  closures : List Bool := []
  /-- What the response message serialises to. -/
  m_rsp_base : Serialized := ⟨true, []⟩
  /-- `m_done != nullptr`. -/
  m_done : Bool := true
  /-- The response of the dispatcher, captured by `m_done`. -/
  rsp_protocol : TinyPBProtocol := {}
  /-- The messages handed to `connection->reply`, one for each run of `m_done`. -/
  replies : List TinyPBProtocol := []
deriving DecidableEq, Repr

namespace RpcInterface

/-- How the callback of a closure ends. -/
inductive Ending
  | returned
  | talonException (error_code : Int) (error_info : Bytes)
  | stdException
  | unknown
deriving DecidableEq, Repr

/-- What happens to an `RpcInterface`: `run()` and the callbacks of its closures call its
members, references to it are copied and dropped, closures are run and destroyed. -/
inductive Event
  | reply
  | newRpcClosure
  | writeResponse (response : Serialized)
  | copy
  | release
  | closureRun (i : Nat) (ending : Ending)
  | closureDestroyed (i : Nat)
deriving DecidableEq, Repr

def use_count (s : RpcInterface) : Nat := s.held + s.closures.count true

/-- `m_done->Run()`: the closure that `RpcDispatcher::dispatch` built. -/
def runDone (s : RpcInterface) : RpcInterface :=
  let rsp := closureResponse s.rsp_protocol s.m_rsp_base
  { s with rsp_protocol := rsp, replies := s.replies ++ [rsp] }

def reply (s : RpcInterface) : RpcInterface := if s.m_done then s.runDone else s

def destroy (s : RpcInterface) : RpcInterface := { s with m_done := false }

/-- `~RpcInterface`. -/
def destructor (s : RpcInterface) : RpcInterface := s.reply.destroy

/-- A reference has been dropped. -/
def dropped (s : RpcInterface) : RpcInterface := if s.use_count = 0 then s.destructor else s

/-- `m_rpc_interface.reset()` in the `i`-th closure. -/
def reset (s : RpcInterface) (i : Nat) : RpcInterface :=
  dropped { s with closures := s.closures.set i false }

section Step

variable (setError : Int → Bytes → Serialized → Serialized)

/-- What the handlers of `RpcClosure::Run` do before they reset the reference. -/
def handle (s : RpcInterface) : Ending → RpcInterface
  | .returned => s
  | .talonException error_code error_info =>
    { s with m_rsp_base := setError error_code error_info s.m_rsp_base }
  | .stdException =>
    { s with m_rsp_base := setError (-1) (str "unkonwn std::exception") s.m_rsp_base }
  | .unknown => { s with m_rsp_base := setError (-1) (str "unkonwn exception") s.m_rsp_base }

/-- One event; `none` when the object or the reference it needs is gone. -/
def step (s : RpcInterface) : Event → Option RpcInterface
  | .reply => if 0 < s.use_count then some s.reply else none
  | .newRpcClosure =>
    if 0 < s.use_count then some { s with closures := s.closures ++ [true] } else none
  | .writeResponse response =>
    if 0 < s.use_count then some { s with m_rsp_base := response } else none
  | .copy => if 0 < s.use_count then some { s with held := s.held + 1 } else none
  | .release => if 0 < s.held then some (dropped { s with held := s.held - 1 }) else none
  | .closureRun i ending =>
    -- `Run` has called the callback; what that did are events of their own
    s.closures[i]?.map fun engaged =>
      if engaged then (s.handle setError ending).reset i else s
  | .closureDestroyed i =>
    s.closures[i]?.map fun engaged => if engaged then s.reset i else s

/-! ### One event -/

/-- The object is there, with its closure, exactly as long as a reference is. -/
def Sound (s : RpcInterface) : Prop := s.m_done = decide (0 < s.use_count)

/-- The replies made, and the one of the destructor. -/
def owed (s : RpcInterface) : Nat := s.replies.length + if s.m_done then 1 else 0

variable {setError}

theorem runDone_owed (s : RpcInterface) : s.runDone.owed = s.owed + 1 := by
  show (s.replies ++ [_]).length + (if s.m_done then 1 else 0) = s.owed + 1
  rw [List.length_append, owed]
  show s.replies.length + 1 + _ = _
  omega

theorem dropped_spec {s : RpcInterface} (hd : s.m_done = true) :
    s.dropped.Sound ∧ s.dropped.owed = s.owed := by
  unfold dropped
  split
  · rename_i hz
    refine ⟨?_, ?_⟩
    · show false = decide (0 < s.reply.destroy.use_count)
      have huse : s.reply.destroy.use_count = s.use_count := by
        rw [reply, if_pos hd]
        rfl
      rw [huse, hz]
      rfl
    · rw [destructor, reply, if_pos hd, owed, owed, hd]
      show (s.replies ++ [_]).length + 0 = _
      rw [List.length_append]
      rfl
  · rename_i hz
    exact ⟨hd.trans (decide_eq_true (Nat.pos_of_ne_zero hz)).symm, rfl⟩

variable (setError) in
theorem handle_frame (s : RpcInterface) (ending : Ending) :
    (s.handle setError ending).m_done = s.m_done ∧
      (s.handle setError ending).owed = s.owed := by
  cases ending <;> exact ⟨rfl, rfl⟩

theorem use_count_pos_of_closure {s : RpcInterface} {i : Nat} (h : s.closures[i]? = some true) :
    0 < s.use_count :=
  Nat.add_pos_right _ (List.count_pos_iff.mpr (List.mem_of_getElem? h))

/-- **An event other than `reply()` leaves the number of replies owed as it is**, and `reply()`
adds one to it. -/
theorem step_owed {s s' : RpcInterface} {e : Event} (h : s.Sound) (hs : s.step setError e = some s') :
    s'.Sound ∧ s'.owed = s.owed + if e = .reply then 1 else 0 := by
  have hlive (hpos : 0 < s.use_count) : s.m_done = true := h.trans (decide_eq_true hpos)
  cases e with
  | reply =>
    obtain ⟨hpos, hs⟩ := Option.ite_none_right_eq_some.mp hs
    cases hs
    rw [reply, if_pos (hlive hpos)]
    exact ⟨h, s.runDone_owed⟩
  | newRpcClosure =>
    obtain ⟨hpos, hs⟩ := Option.ite_none_right_eq_some.mp hs
    cases hs
    refine ⟨(hlive hpos).trans (decide_eq_true ?_).symm, rfl⟩
    show 0 < s.held + (s.closures ++ [true]).count true
    rw [List.count_append]
    show 0 < s.held + (s.closures.count true + 1)
    omega
  | writeResponse response =>
    obtain ⟨hpos, hs⟩ := Option.ite_none_right_eq_some.mp hs
    cases hs
    exact ⟨h, rfl⟩
  | copy =>
    obtain ⟨hpos, hs⟩ := Option.ite_none_right_eq_some.mp hs
    cases hs
    refine ⟨(hlive hpos).trans (decide_eq_true ?_).symm, rfl⟩
    show 0 < s.held + 1 + s.closures.count true
    omega
  | release =>
    obtain ⟨hpos, hs⟩ := Option.ite_none_right_eq_some.mp hs
    cases hs
    exact dropped_spec (s := { s with held := s.held - 1 }) (hlive (Nat.add_pos_left hpos _))
  | closureRun i ending =>
    obtain ⟨engaged, hi, hs⟩ := Option.map_eq_some_iff.mp hs
    cases engaged with
    | false =>
      cases hs
      exact ⟨h, rfl⟩
    | true =>
      cases hs
      obtain ⟨hd, ho⟩ := handle_frame setError s ending
      obtain ⟨h1, h2⟩ := dropped_spec (s := { s.handle setError ending with
        closures := (s.handle setError ending).closures.set i false })
        (hd.trans (hlive (use_count_pos_of_closure hi)))
      exact ⟨h1, h2.trans ho⟩
  | closureDestroyed i =>
    obtain ⟨engaged, hi, hs⟩ := Option.map_eq_some_iff.mp hs
    cases engaged with
    | false =>
      cases hs
      exact ⟨h, rfl⟩
    | true =>
      cases hs
      exact dropped_spec (s := { s with closures := s.closures.set i false })
        (hlive (use_count_pos_of_closure hi))

/-! ### A lifetime -/

theorem run_owed {s s' : RpcInterface} {es : List Event}
    (hrun : Run (fun s e s' => s.step setError e = some s') s es s') (h : s.Sound) :
    s'.Sound ∧ s'.owed = s.owed + es.count .reply := by
  induction hrun with
  | nil s => exact ⟨h, rfl⟩
  | cons hs _ ih =>
    obtain ⟨h1, ho⟩ := step_owed h hs
    obtain ⟨h', ho'⟩ := ih h1
    refine ⟨h', ?_⟩
    rw [ho', ho, List.count_cons]
    simp only [beq_iff_eq]
    omega

/-- **One reply if and only if nobody called `reply()`**: over every lifetime of an object built
on a closure of the dispatcher, until its last reference has gone. -/
theorem replied_once_iff {rsp : TinyPBProtocol} {s : RpcInterface} {es : List Event}
    (hrun : Run (fun s e s' => s.step setError e = some s') { rsp_protocol := rsp } es s)
    (hgone : s.use_count = 0) : s.replies.length = 1 ↔ Event.reply ∉ es := by
  obtain ⟨hs, ho⟩ := run_owed hrun rfl
  have hdone : s.m_done = false := by rw [hs, hgone]; rfl
  have hlen : s.replies.length = 1 + es.count .reply := by
    rw [owed, hdone] at ho
    exact ho
  rw [hlen, ← List.count_eq_zero]
  omega

end Step

/-- A method whose only answer is that of a closure that throws. -/
theorem replied_once_iff_throwing_closure :
    ∃ s, Run (fun s e s' => step (fun _ _ r => r) s e = some s') {}
        [.newRpcClosure, .release, .closureRun 0 .stdException] s ∧
      s.use_count = 0 ∧ s.replies.length = 1 :=
  have hrun : Run (fun s e s' => step (fun _ _ r => r) s e = some s') {}
      [.newRpcClosure, .release, .closureRun 0 .stdException] _ := Run.of_foldlM rfl
  ⟨_, hrun, by decide, (replied_once_iff hrun (by decide)).mpr (by decide)⟩

/-- A method that answers with `reply()`, as its comment asks, and lets its reference go: the
destructor answers again. -/
theorem reply_answers_twice :
    ∃ s, Run (fun s e s' => step (fun _ _ r => r) s e = some s') {} [.reply, .release] s ∧
      s.use_count = 0 ∧ s.replies.length = 2 :=
  ⟨_, Run.of_foldlM rfl, by decide, by decide⟩

end RpcInterface

end KaiRPC
