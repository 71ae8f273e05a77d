import KaiRPC.Rpc.Controller
import Mathlib.Data.List.Induction

/-!
# Cancellation from any thread

`StartCancel`, `NotifyOnCancel`, `SetCancelCallback`, `ClearCancelCallback` and
`SetFinished(true)` on one controller, called by the threads `T` in any order.  A call is its
critical section; the callbacks it brings out of the lock are in the hands of its thread, and
`invoke` is a thread that runs the next one it has.  A call that a callback makes while it runs
is a call of the same thread, and what that one brings out comes first.

A registration is named by its place in the run, so that one closure that is registered twice is
two registrations.

* `CancelRun.step`: one step of one thread.
* `CancelRun.Unrepeated`: **no registration is in two places**, which every step keeps.
* `cancelled_exactly_once`: what a run invokes.
-/

namespace KaiRPC

/-- The steps of the threads.  `callback` says whether the pointer or the function that is
registered is not null. -/
inductive CancelOp (T : Type)
  | startCancel (t : T)
  | notifyOnCancel (t : T) (callback : Bool)
  | setCancelCallback (t : T) (callback : Bool)
  | clearCancelCallback (t : T)
  | setFinished (t : T)
  | invoke (t : T)
deriving DecidableEq

/-- The controller, what each thread brought out of the lock and has not run yet, and what was
run. -/
structure CancelRun (T : Type) where
  controller : FullController Nat := {}
  /-- The number of steps so far. -/
  clock : Nat := 0
  inHand : List (T × Nat) := []
  invoked : List Nat := []

/-- The two places a cancel callback is kept in: `m_cancel_closure` and `m_cancel_callback`. -/
inductive CancelSlot
  | closure
  | callback
deriving DecidableEq

theorem CancelSlot.exists_iff {p : CancelSlot → Prop} :
    (∃ slot, p slot) ↔ p .closure ∨ p .callback := by
  constructor
  · rintro ⟨_ | _, h⟩
    · exact Or.inl h
    · exact Or.inr h
  · rintro (h | h)
    · exact ⟨_, h⟩
    · exact ⟨_, h⟩

namespace CancelOp

variable {T : Type}

/-- What a call registers in a slot, and whether that is a callback or none. -/
def writes : CancelSlot → CancelOp T → Option Bool
  | .closure, .notifyOnCancel _ callback => some callback
  | .callback, .setCancelCallback _ callback => some callback
  | .callback, .clearCancelCallback _ => some false
  | _, _ => none

/-- The call at place `i` of a run, as far as it is one that touches the slot. -/
def writesAt (slot : CancelSlot) (es : List (CancelOp T)) (i : Nat) : Option Bool :=
  es[i]?.bind (writes slot)

/-- The call at place `i` registers a callback. -/
def Registers (es : List (CancelOp T)) (i : Nat) : Prop := ∃ slot, writesAt slot es i = some true

/-- The call at place `i` is the most recent registration of its kind, and it was not cleared. -/
def Standing (slot : CancelSlot) (es : List (CancelOp T)) (i : Nat) : Prop :=
  writesAt slot es i = some true ∧ ∀ j, i < j → writesAt slot es j = none

/-- No call so far cancelled or finished the controller: a `StartCancel` that comes now takes
effect. -/
def Quiet (es : List (CancelOp T)) : Prop := ∀ t, .startCancel t ∉ es ∧ .setFinished t ∉ es

theorem quiet_append {es es' : List (CancelOp T)} : Quiet (es ++ es') ↔ Quiet es ∧ Quiet es' := by
  unfold Quiet
  simp only [List.mem_append, not_or, ← forall_and]
  exact forall_congr' fun t => and_and_and_comm

theorem writesAt_of_length_le {slot : CancelSlot} {es : List (CancelOp T)} {i : Nat}
    (h : es.length ≤ i) : writesAt slot es i = none := by
  rw [writesAt, List.getElem?_eq_none h]
  rfl

theorem writesAt_append (slot : CancelSlot) (es : List (CancelOp T)) (e : CancelOp T) (i : Nat) :
    writesAt slot (es ++ [e]) i = if i = es.length then e.writes slot else writesAt slot es i := by
  split
  · rename_i hi
    rw [writesAt, hi, List.getElem?_concat_length]
    rfl
  · rename_i hi
    by_cases hlt : i < es.length
    · rw [writesAt, writesAt, List.getElem?_append_left hlt]
    · rw [writesAt_of_length_le (by rw [List.length_append, List.length_singleton]; omega),
        writesAt_of_length_le (by omega)]

theorem registers_append (es : List (CancelOp T)) (e : CancelOp T) (i : Nat) :
    Registers (es ++ [e]) i ↔
      Registers es i ∨ ((∃ slot, e.writes slot = some true) ∧ i = es.length) := by
  unfold Registers
  simp only [writesAt_append]
  by_cases hi : i = es.length
  · have hold : ∀ slot, writesAt slot es i = none := fun _ => writesAt_of_length_le hi.ge
    simp only [hi, if_true, hi ▸ hold, reduceCtorEq, exists_false, false_or, and_true]
  · simp only [hi, if_false, and_false, or_false]

/-- **The standing registration after one more call**: that call, or the old one if the call did
not touch the slot. -/
theorem standing_append (slot : CancelSlot) (es : List (CancelOp T)) (e : CancelOp T) (i : Nat) :
    Standing slot (es ++ [e]) i ↔
      (e.writes slot = some true ∧ i = es.length) ∨
        (e.writes slot = none ∧ Standing slot es i) := by
  constructor
  · rintro ⟨hw, hlast⟩
    rw [writesAt_append] at hw
    by_cases hi : i = es.length
    · rw [if_pos hi] at hw
      exact Or.inl ⟨hw, hi⟩
    rw [if_neg hi] at hw
    have hlt : i < es.length := by
      by_contra hge
      cases hw.symm.trans (writesAt_of_length_le (not_lt.mp hge))
    refine Or.inr ⟨?_, hw, fun j hj => ?_⟩
    · have he := hlast es.length hlt
      rwa [writesAt_append, if_pos rfl] at he
    · by_cases hjl : j = es.length
      · exact writesAt_of_length_le hjl.ge
      · have hold := hlast j hj
        rwa [writesAt_append, if_neg hjl] at hold
  · rintro (⟨hw, rfl⟩ | ⟨he, hw, hlast⟩)
    · refine ⟨by rw [writesAt_append, if_pos rfl]; exact hw, fun j hj => ?_⟩
      rw [writesAt_append, if_neg hj.ne']
      exact writesAt_of_length_le hj.le
    · have hne : i ≠ es.length := by
        rintro rfl
        cases hw.symm.trans (writesAt_of_length_le le_rfl)
      refine ⟨by rw [writesAt_append, if_neg hne]; exact hw, fun j hj => ?_⟩
      rw [writesAt_append]
      split
      · exact he
      · exact hlast j hj

end CancelOp

namespace FullController

/-! ### What a call does with the registrations -/

/-- How often a registration is in the slots. -/
def slotCount (c : FullController Nat) (i : Nat) : Nat :=
  c.m_cancel_closure.toList.count i + c.m_cancel_callback.toList.count i

theorem StartCancel_count (c : FullController Nat) (i : Nat) :
    c.StartCancel.1.slotCount i + c.StartCancel.2.count i = c.slotCount i := by
  unfold StartCancel
  split
  · exact Nat.add_zero _
  · dsimp only [slotCount]
    rw [List.count_append, Option.toList_none, List.count_nil]
    omega

theorem NotifyOnCancel_count (c : FullController Nat) (callback : Option Nat) (i : Nat) :
    (c.NotifyOnCancel callback).1.slotCount i + (c.NotifyOnCancel callback).2.count i
      ≤ c.slotCount i + callback.toList.count i := by
  unfold NotifyOnCancel
  split
  · exact Nat.le_refl _
  · dsimp only [slotCount]
    rw [List.count_nil]
    omega

theorem SetCancelCallback_count (c : FullController Nat) (callback : Option Nat) (i : Nat) :
    (c.SetCancelCallback callback).1.slotCount i + (c.SetCancelCallback callback).2.count i
      ≤ c.slotCount i + callback.toList.count i := by
  unfold SetCancelCallback
  split
  · exact Nat.le_refl _
  · dsimp only [slotCount]
    rw [List.count_nil]
    omega

theorem ClearCancelCallback_count (c : FullController Nat) (i : Nat) :
    c.ClearCancelCallback.slotCount i ≤ c.slotCount i := by
  dsimp only [slotCount, ClearCancelCallback, RpcController.ClearCancelCallback]
  rw [Option.toList_none, List.count_nil]
  omega

end FullController

namespace CancelRun

variable {T : Type}

/-- The registration of the next step. -/
def registration (s : CancelRun T) (callback : Bool) : Option Nat :=
  if callback then some s.clock else none

/-- A critical section of the thread `t` is over. -/
def leave (s : CancelRun T) (t : T) (r : FullController Nat × List Nat) : CancelRun T :=
  { s with
    controller := r.1
    clock := s.clock + 1
    inHand := r.2.map (Prod.mk t) ++ s.inHand }

/-- The thread `t` runs the next callback it has. -/
def runNext [DecidableEq T] (s : CancelRun T) (t : T) : CancelRun T :=
  match s.inHand.find? (fun entry => entry.1 = t) with
  | none => { s with clock := s.clock + 1 }
  | some entry =>
      { s with
        clock := s.clock + 1
        inHand := s.inHand.erase entry
        invoked := entry.2 :: s.invoked }

def step [DecidableEq T] (s : CancelRun T) : CancelOp T → CancelRun T
  | .startCancel t => s.leave t s.controller.StartCancel
  | .notifyOnCancel t callback =>
      s.leave t (s.controller.NotifyOnCancel (s.registration callback))
  | .setCancelCallback t callback =>
      s.leave t (s.controller.SetCancelCallback (s.registration callback))
  | .clearCancelCallback t => s.leave t (s.controller.ClearCancelCallback, [])
  | .setFinished t => s.leave t (s.controller.SetFinished true, [])
  | .invoke t => s.runNext t

/-- A run from a new controller. -/
def run [DecidableEq T] (es : List (CancelOp T)) : CancelRun T := es.foldl step {}

theorem run_append [DecidableEq T] (es : List (CancelOp T)) (e : CancelOp T) :
    run (es ++ [e]) = (run es).step e := List.foldl_append ..

/-- The registrations that were brought out of the lock. -/
def handed (s : CancelRun T) : List Nat := s.inHand.map Prod.snd ++ s.invoked

/-- The registrations that can still be run or were run. -/
def held (s : CancelRun T) : List Nat :=
  s.controller.m_cancel_closure.toList ++ s.controller.m_cancel_callback.toList ++ s.handed

/-! ### No registration is in two places -/

/-- No registration is in two places, and none has a name of the future. -/
def Unrepeated (s : CancelRun T) : Prop := ∀ i, s.held.count i ≤ if i < s.clock then 1 else 0

theorem count_registration (s : CancelRun T) (callback : Bool) (i : Nat) :
    (s.registration callback).toList.count i ≤ if i = s.clock then 1 else 0 := by
  cases callback with
  | false => exact Nat.zero_le _
  | true =>
    by_cases hi : i = s.clock
    · rw [if_pos hi]
      exact List.count_le_length
    · rw [if_neg hi]
      exact (List.count_eq_zero_of_not_mem (by simpa [registration] using hi)).le

theorem leave_handed (s : CancelRun T) (t : T) (r : FullController Nat × List Nat) :
    (s.leave t r).handed = r.2 ++ s.handed := by
  have hids : (r.2.map (Prod.mk t)).map Prod.snd = r.2 := by
    rw [List.map_map]
    exact List.map_id _
  unfold handed leave
  dsimp only
  rw [List.map_append, hids, List.append_assoc]

theorem count_held (s : CancelRun T) (i : Nat) :
    s.held.count i = s.controller.slotCount i + s.handed.count i := by
  rw [held, List.count_append, List.count_append]
  rfl

theorem count_held_leave (s : CancelRun T) (t : T) (r : FullController Nat × List Nat) (i : Nat) :
    (s.leave t r).held.count i = r.1.slotCount i + r.2.count i + s.handed.count i := by
  rw [count_held, leave_handed, List.count_append, Nat.add_assoc]
  rfl

variable [DecidableEq T]

theorem runNext_spec (s : CancelRun T) (t : T) :
    (s.runNext t).controller = s.controller ∧ (s.runNext t).clock = s.clock + 1 ∧
      (s.runNext t).handed.Perm s.handed := by
  unfold runNext
  split
  · exact ⟨rfl, rfl, .refl _⟩
  · rename_i entry hfind
    refine ⟨rfl, rfl, ?_⟩
    have hperm := (List.perm_cons_erase (List.mem_of_find?_eq_some hfind)).map Prod.snd
    exact List.perm_middle.trans (hperm.symm.append_right s.invoked)

theorem step_clock (s : CancelRun T) (e : CancelOp T) : (s.step e).clock = s.clock + 1 := by
  cases e with
  | invoke t => exact (s.runNext_spec t).2.1
  | _ => rfl

/-- **A step adds at most the registration it makes.** -/
theorem count_held_step (s : CancelRun T) (e : CancelOp T) (i : Nat) :
    (s.step e).held.count i ≤ s.held.count i + if i = s.clock then 1 else 0 := by
  cases e with
  | startCancel t =>
    have hcall := s.controller.StartCancel_count i
    dsimp only [step]
    rw [count_held_leave, count_held]
    omega
  | notifyOnCancel t callback =>
    have hnew := s.count_registration callback i
    have hcall := s.controller.NotifyOnCancel_count (s.registration callback) i
    dsimp only [step]
    rw [count_held_leave, count_held]
    omega
  | setCancelCallback t callback =>
    have hnew := s.count_registration callback i
    have hcall := s.controller.SetCancelCallback_count (s.registration callback) i
    dsimp only [step]
    rw [count_held_leave, count_held]
    omega
  | clearCancelCallback t =>
    have hcall := s.controller.ClearCancelCallback_count i
    dsimp only [step]
    rw [count_held_leave, count_held, List.count_nil]
    dsimp only
    omega
  | setFinished t =>
    have hcall : (s.controller.SetFinished true).slotCount i = s.controller.slotCount i := rfl
    dsimp only [step]
    rw [count_held_leave, count_held, hcall, List.count_nil]
    omega
  | invoke t =>
    obtain ⟨hc, -, hperm⟩ := s.runNext_spec t
    dsimp only [step]
    rw [count_held, count_held, hc, hperm.count_eq]
    omega

/-- **Every step keeps the registrations apart.** -/
theorem step_unrepeated {s : CancelRun T} (h : s.Unrepeated) (e : CancelOp T) :
    (s.step e).Unrepeated := by
  intro i
  have hstep := s.count_held_step e i
  have hi := h i
  rw [step_clock]
  split_ifs at hstep hi ⊢ <;> omega

theorem run_unrepeated (es : List (CancelOp T)) : (run es).Unrepeated := by
  induction es using List.reverseRecOn with
  | nil => exact fun i => Nat.zero_le _
  | append_singleton es e ih =>
    rw [run_append]
    exact step_unrepeated ih e

/-! ### Before a cancellation -/

theorem run_clock (es : List (CancelOp T)) : (run es).clock = es.length := by
  induction es using List.reverseRecOn with
  | nil => rfl
  | append_singleton es e ih =>
    rw [run_append, step_clock, ih, List.length_append]
    rfl

/-- The callback in a slot. -/
def slotOf (s : CancelRun T) : CancelSlot → Option Nat
  | .closure => s.controller.m_cancel_closure
  | .callback => s.controller.m_cancel_callback

/-- Not cancelled, and nothing was brought out. -/
structure Idle (s : CancelRun T) : Prop where
  cancled : s.controller.m_is_cancled = false
  inHand : s.inHand = []
  invoked : s.invoked = []

/-- **A call that does not cancel only touches the slots.** -/
theorem step_idle {s : CancelRun T} (h : s.Idle) {e : CancelOp T}
    (he : s.controller.m_is_finished = true ∨ ∀ t, e ≠ .startCancel t) :
    (s.step e).Idle ∧ ∀ slot, (s.step e).slotOf slot
      = ((e.writes slot).map s.registration).getD (s.slotOf slot) := by
  cases e with
  | startCancel t =>
    have hf : s.controller.m_is_finished = true := he.resolve_right fun hne => hne t rfl
    dsimp only [step]
    rw [FullController.StartCancel, if_pos (Or.inr hf)]
    exact ⟨⟨h.cancled, h.inHand, h.invoked⟩, by rintro (_ | _) <;> rfl⟩
  | notifyOnCancel t callback =>
    dsimp only [step]
    rw [FullController.NotifyOnCancel, if_neg (by simp [h.cancled])]
    exact ⟨⟨h.cancled, h.inHand, h.invoked⟩, by rintro (_ | _) <;> rfl⟩
  | setCancelCallback t callback =>
    dsimp only [step]
    rw [FullController.SetCancelCallback, if_neg (by simp [h.cancled])]
    exact ⟨⟨h.cancled, h.inHand, h.invoked⟩, by rintro (_ | _) <;> rfl⟩
  | clearCancelCallback t =>
    exact ⟨⟨h.cancled, h.inHand, h.invoked⟩, by rintro (_ | _) <;> rfl⟩
  | setFinished t => exact ⟨⟨h.cancled, h.inHand, h.invoked⟩, by rintro (_ | _) <;> rfl⟩
  | invoke t =>
    dsimp only [step, runNext]
    rw [h.inHand]
    exact ⟨⟨h.cancled, rfl, h.invoked⟩, by rintro (_ | _) <;> rfl⟩

theorem step_finished (s : CancelRun T) (e : CancelOp T) :
    (s.step e).controller.m_is_finished = true ↔
      s.controller.m_is_finished = true ∨ ∃ t, e = .setFinished t := by
  cases e with
  | startCancel t =>
    dsimp only [step, leave]
    unfold FullController.StartCancel
    split <;> simp
  | notifyOnCancel t callback =>
    dsimp only [step, leave]
    unfold FullController.NotifyOnCancel
    split <;> simp
  | setCancelCallback t callback =>
    dsimp only [step, leave]
    unfold FullController.SetCancelCallback
    split <;> simp
  | clearCancelCallback t => exact ⟨Or.inl, fun h => h.resolve_right nofun⟩
  | setFinished t => exact iff_of_true rfl (Or.inr ⟨t, rfl⟩)
  | invoke t =>
    dsimp only [step]
    rw [(s.runNext_spec t).1]
    exact ⟨Or.inl, fun h => h.resolve_right nofun⟩

/-- **Before a cancellation a slot holds the standing registration of its kind.** -/
theorem run_quiet {es : List (CancelOp T)} (h : CancelOp.Quiet es) :
    (run es).Idle ∧ (run es).controller.m_is_finished = false ∧
      ∀ slot i, (run es).slotOf slot = some i ↔ CancelOp.Standing slot es i := by
  induction es using List.reverseRecOn with
  | nil =>
    refine ⟨⟨rfl, rfl, rfl⟩, rfl, fun slot i => iff_of_false ?_ ?_⟩
    · cases slot <;> exact nofun
    · rintro ⟨hw, -⟩
      cases hw
  | append_singleton es e ih =>
    obtain ⟨hes, he⟩ := CancelOp.quiet_append.mp h
    obtain ⟨hidle, hfin, hslot⟩ := ih hes
    have hne : ∀ t, e ≠ .startCancel t := by
      rintro t rfl
      exact (he t).1 (List.mem_singleton_self _)
    obtain ⟨hidle', hslot'⟩ := step_idle hidle (Or.inr hne)
    rw [run_append]
    refine ⟨hidle', ?_, fun slot i => ?_⟩
    · rw [← Bool.not_eq_true, step_finished, hfin]
      rintro (hf | ⟨t, ht⟩)
      · cases hf
      · exact (he t).2 (by simp [ht])
    · rw [hslot', CancelOp.standing_append, ← hslot, ← run_clock es]
      cases e.writes slot with
      | none => simp
      | some callback => cases callback <;> simp [registration, eq_comm]

/-- **A controller that finished first brings nothing out**, whatever comes. -/
theorem run_finished {pre : List (CancelOp T)} (hpre : ∀ u, .startCancel u ∉ pre) (t : T)
    (post : List (CancelOp T)) :
    (run (pre ++ .setFinished t :: post)).Idle ∧
      (run (pre ++ .setFinished t :: post)).controller.m_is_finished = true := by
  have hidle : (run pre).Idle := by
    induction pre using List.reverseRecOn with
    | nil => exact ⟨rfl, rfl, rfl⟩
    | append_singleton pre e ih =>
      rw [run_append]
      refine (step_idle (ih fun u hu => hpre u (List.mem_append_left _ hu)) (Or.inr ?_)).1
      rintro u rfl
      exact hpre u (by simp)
  induction post using List.reverseRecOn with
  | nil =>
    rw [run_append]
    exact ⟨(step_idle hidle (Or.inr (by rintro _ ⟨⟩))).1, rfl⟩
  | append_singleton post e ih =>
    rw [← List.cons_append, ← List.append_assoc, run_append]
    exact ⟨(step_idle ih.1 (Or.inl ih.2)).1, (step_finished _ e).mpr (Or.inl ih.2)⟩

/-! ### After a cancellation -/

theorem step_cancled {s : CancelRun T} (h : s.controller.m_is_cancled = true) (e : CancelOp T) :
    (s.step e).controller.m_is_cancled = true := by
  cases e with
  | invoke t =>
    dsimp only [step]
    rw [(s.runNext_spec t).1]
    exact h
  | startCancel t =>
    dsimp only [step, leave]
    rw [FullController.StartCancel, if_pos (Or.inl h)]
    exact h
  | notifyOnCancel t callback =>
    dsimp only [step, leave]
    rw [FullController.NotifyOnCancel, if_pos h]
    exact h
  | setCancelCallback t callback =>
    dsimp only [step, leave]
    rw [FullController.SetCancelCallback, if_pos h]
    exact h
  | clearCancelCallback t => exact h
  | setFinished t => exact h

/-- **On a cancelled controller a registration is brought out at once**, and nothing else is. -/
theorem mem_handed_step_of_cancled {s : CancelRun T} (h : s.controller.m_is_cancled = true)
    (e : CancelOp T) (i : Nat) : i ∈ (s.step e).handed ↔
      i ∈ s.handed ∨ ((∃ slot, e.writes slot = some true) ∧ i = s.clock) := by
  have hnew : ∀ callback, i ∈ (s.registration callback).toList ↔ callback = true ∧ i = s.clock := by
    rintro (_ | _) <;> simp [registration]
  rw [CancelSlot.exists_iff]
  cases e with
  | startCancel t =>
    dsimp only [step]
    rw [leave_handed, FullController.StartCancel, if_pos (Or.inl h)]
    simp [CancelOp.writes]
  | notifyOnCancel t callback =>
    dsimp only [step]
    rw [leave_handed, FullController.NotifyOnCancel, if_pos h, List.mem_append, hnew, or_comm]
    simp [CancelOp.writes]
  | setCancelCallback t callback =>
    dsimp only [step]
    rw [leave_handed, FullController.SetCancelCallback, if_pos h, List.mem_append, hnew, or_comm]
    simp [CancelOp.writes]
  | clearCancelCallback t =>
    dsimp only [step]
    rw [leave_handed]
    simp [CancelOp.writes]
  | setFinished t =>
    dsimp only [step]
    rw [leave_handed]
    simp [CancelOp.writes]
  | invoke t =>
    dsimp only [step]
    rw [(s.runNext_spec t).2.2.mem_iff]
    simp [CancelOp.writes]

/-- **What a cancellation brings out**: the standing registration of each kind, and every
registration from then on. -/
theorem run_cancelled {pre : List (CancelOp T)} (hpre : CancelOp.Quiet pre) (t : T)
    (post : List (CancelOp T)) :
    (run (pre ++ .startCancel t :: post)).controller.m_is_cancled = true ∧
      ∀ i, i ∈ (run (pre ++ .startCancel t :: post)).handed ↔
        (∃ slot, CancelOp.Standing slot pre i) ∨
          (pre.length < i ∧ CancelOp.Registers (pre ++ .startCancel t :: post) i) := by
  induction post using List.reverseRecOn with
  | nil =>
    obtain ⟨hidle, hfin, hslot⟩ := run_quiet hpre
    have hstep : (run pre).step (.startCancel t) = (run pre).leave t
        ({ (run pre).controller with
            m_is_cancled := true, m_cancel_closure := none, m_cancel_callback := none },
          ((run pre).slotOf .closure).toList ++ ((run pre).slotOf .callback).toList) := by
      dsimp only [step]
      rw [FullController.StartCancel, if_neg (by simp [hidle.cancled, hfin])]
      rfl
    have hlate : ∀ i, ¬ (pre.length < i ∧ CancelOp.Registers (pre ++ [.startCancel t]) i) := by
      rintro i ⟨hi, slot, hw⟩
      have hlen : (pre ++ [CancelOp.startCancel t]).length ≤ i := by
        rw [List.length_append]
        exact hi
      cases hw.symm.trans (CancelOp.writesAt_of_length_le hlen)
    rw [run_append, hstep]
    refine ⟨rfl, fun i => ?_⟩
    have hnone : (run pre).handed = [] := by
      rw [handed, hidle.inHand, hidle.invoked]
      rfl
    rw [leave_handed, hnone, List.append_nil, List.mem_append, Option.mem_toList,
      Option.mem_toList, hslot, hslot, or_iff_left (hlate i),
      CancelSlot.exists_iff]
  | append_singleton post e ih =>
    obtain ⟨hcancled, hmem⟩ := ih
    rw [← List.cons_append, ← List.append_assoc, run_append]
    refine ⟨step_cancled hcancled e, fun i => ?_⟩
    have hlen : pre.length < (pre ++ .startCancel t :: post).length := by
      rw [List.length_append, List.length_cons]
      omega
    rw [mem_handed_step_of_cancled hcancled, hmem, run_clock, CancelOp.registers_append,
      and_or_left, or_assoc]
    refine or_congr_right (or_congr_right (and_iff_right_of_imp ?_).symm)
    rintro ⟨-, rfl⟩
    exact hlen

/-! ### Whole runs -/

/-- **The threads can always run what they have.** -/
theorem exists_drained (s : CancelRun T) :
    ∃ ts : List T, ((ts.map CancelOp.invoke).foldl step s).inHand = [] := by
  induction hs : s.inHand generalizing s with
  | nil => exact ⟨[], hs⟩
  | cons entry rest ih =>
    have hstep : (s.step (.invoke entry.1)).inHand = rest := by
      dsimp only [step, runNext]
      rw [hs, List.find?_cons_of_pos (by simp)]
      exact List.erase_cons_head ..
    obtain ⟨ts, hts⟩ := ih _ hstep
    exact ⟨entry.1 :: ts, hts⟩

/-- **Cancellation is neither lost nor repeated**, in whatever order the threads come.  Every
registration is invoked at most once.  Once a `StartCancel` took effect, the standing
registrations of the two kinds before it and all registrations after it are brought out of the
lock, once, and no others; each was invoked exactly once when the threads have nothing left in
hand.  After a `SetFinished(true)` that came before any `StartCancel`, nothing is ever invoked.
The threads can always run what they have in hand. -/
theorem cancelled_exactly_once (es : List (CancelOp T)) :
    (∀ i, (run es).invoked.count i ≤ 1) ∧
    (∀ pre t post, es = pre ++ .startCancel t :: post → CancelOp.Quiet pre → ∀ i,
      ((∃ slot, CancelOp.Standing slot pre i) ∨ (pre.length < i ∧ CancelOp.Registers es i) →
        (run es).handed.count i = 1 ∧ ((run es).inHand = [] → (run es).invoked.count i = 1)) ∧
      (¬ ((∃ slot, CancelOp.Standing slot pre i) ∨
          (pre.length < i ∧ CancelOp.Registers es i)) →
        i ∉ (run es).handed)) ∧
    (∀ pre t post, es = pre ++ .setFinished t :: post → (∀ u, .startCancel u ∉ pre) →
      (run es).inHand = [] ∧ (run es).invoked = []) ∧
    (∃ ts : List T, (run (es ++ ts.map .invoke)).inHand = []) := by
  have honce : ∀ i, (run es).handed.count i ≤ 1 := by
    intro i
    have hi := run_unrepeated es i
    rw [count_held] at hi
    split at hi <;> omega
  refine ⟨fun i => ?_, ?_, ?_, ?_⟩
  · have hi := honce i
    rw [handed, List.count_append] at hi
    omega
  · rintro pre t post rfl hpre i
    obtain ⟨-, hmem⟩ := run_cancelled hpre t post
    refine ⟨fun howed => ?_, fun hnot hi => hnot ((hmem i).mp hi)⟩
    have hpos := List.count_pos_iff.mpr ((hmem i).mpr howed)
    have hone := Nat.le_antisymm (honce i) hpos
    refine ⟨hone, fun hdone => ?_⟩
    rw [handed, hdone] at hone
    exact hone
  · rintro pre t post rfl hpre
    have hidle := (run_finished hpre t post).1
    exact ⟨hidle.inHand, hidle.invoked⟩
  · obtain ⟨ts, hts⟩ := exists_drained (run es)
    refine ⟨ts, ?_⟩
    rw [run, List.foldl_append]
    exact hts

/-- Thread `1` registers between the critical section of thread `0` and its callback. -/
example : (run [.notifyOnCancel 0 true, .startCancel 0, .setCancelCallback 1 true, .invoke 1,
    .invoke (0 : Nat)]).invoked = [0, 2] := by
  decide

end CancelRun

end KaiRPC
