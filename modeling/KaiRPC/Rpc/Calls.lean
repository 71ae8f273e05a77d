import KaiRPC.Lib.Run
import KaiRPC.Rpc.Channel

/-!
# Calls on one event loop

Several attempts in flight on one loop that is already looping, so that `connect`
returns at once.  Every callback of an attempt holds a weak pointer; the one strong
pointer is `m_request_state` of the channel, which the next `CallMethod` on the channel
overwrites and the end of the channel drops.  The `CALLRPRC` macro ends the channel
right after the call.

`Calls.attemptAt` is an attempt as an event finds it, on the loop as it is by then.

* `Calls.AllSound`: every attempt is done or pending; it goes through `Attempt.Frame`, which
  says that an attempt leaves the timer events of the others alone.  `Calls.Inv`: every
  attempt is done, or pending and held.
* `no_call_lost`: as long as no channel is called or ended with a pending attempt, every
  terminal event finds its attempt, and its closure has run once.
* `released_call_lost`: the macro, and the timeout of its call.
-/

namespace KaiRPC

namespace Attempt

/-- The same attempt on another state of the loop. -/
def on (a : Attempt) (loop : Eventloop) : Attempt := { a with client := a.client.withLoop loop }

/-! ### What an attempt leaves alone -/

/-- From `a` to `a'` only the timer event of the attempt has changed. -/
structure Frame (a a' : Attempt) : Prop where
  timer_event : a'.timer_event = a.timer_event
  agree : ∀ other, other ≠ a.timer_event → a.client.m_timer.Agree a'.client.m_timer other

theorem Frame.of_timer {a a' : Attempt} (he : a'.timer_event = a.timer_event)
    (ht : a'.client.m_timer = a.client.m_timer) : a.Frame a' :=
  ⟨he, fun _ _ => .of_eq ht⟩

theorem Frame.trans {a a' a'' : Attempt} (h : a.Frame a') (h' : a'.Frame a'') : a.Frame a'' :=
  ⟨h'.timer_event.trans h.timer_event, fun other hne => (h.agree other hne).trans
    (h'.agree other (h.timer_event ▸ hne))⟩

theorem beginCompletion_frame (a : Attempt) : a.Frame a.beginCompletion.1 := by
  unfold beginCompletion
  split
  · exact .of_timer rfl rfl
  · refine ⟨rfl, fun other hne => ?_⟩
    dsimp only
    split
    · split
      · exact Timer.deleteTimerEvent_agree _ hne
      · exact .refl _ _
    · exact .refl _ _

theorem finish_frame (a : Attempt) (error_code : Int32) (error_info : Bytes) :
    a.Frame (a.finish error_code error_info) := by
  refine .of_timer rfl ?_
  unfold finish
  dsimp only
  split
  · rw [TcpClient.stop_timer, TcpClient.disconnect_timer]
    rfl
  · rfl

theorem complete_frame (a : Attempt) (error_code : Int32) (error_info : Bytes) :
    a.Frame (a.complete error_code error_info) := by
  have hgate := a.beginCompletion_frame
  unfold complete
  split
  · split
    next a' h =>
      rw [h] at hgate
      exact hgate.trans (a'.finish_frame _ _)
    next a' h =>
      rw [h] at hgate
      exact hgate
  · exact .of_timer rfl rfl

theorem step_frame (ParseFromString : Bytes → Bool) (a : Attempt) (ev : AttemptEvent) :
    a.Frame (a.step ParseFromString ev) := by
  cases ev with
  | connecting grant => exact .of_timer rfl (TcpClient.connecting_timer _ _)
  | connectDone r =>
    have hc : a.Frame { a with client := a.client.connected r } :=
      .of_timer rfl (a.client.connected_timer r)
    dsimp only [step]
    split
    · exact hc
    · split
      · exact hc.trans (complete_frame _ _ _)
      · exact hc.trans (.of_timer rfl (TcpClient.writeMessage_timer _ _ _))
  | writeDone =>
    dsimp only [step]
    split
    · exact .of_timer rfl rfl
    · exact .of_timer rfl (TcpClient.readMessage_timer _ _ _)
  | response message =>
    have hc : a.Frame { a with client := { a.client with
        endpoint := (a.client.endpoint.handle message).1 } } :=
      .of_timer rfl (congrArg Eventloop.m_timer (Endpoint.handle_loop _ _))
    dsimp only [step]
    split
    · exact hc.trans (complete_frame _ _ _)
    · exact hc
  | timeout =>
    have hc : a.Frame { a with client := a.client.withLoop { a.client.endpoint.m_event_loop with
        m_timer := a.client.endpoint.m_event_loop.m_timer.erase a.timer_event } } :=
      ⟨rfl, fun other hne => Timer.erase_agree _ hne⟩
    exact hc.trans (complete_frame _ _ _)
  | cancelTask => exact complete_frame _ _ _
  | startCancel =>
    refine .of_timer rfl ?_
    dsimp only [step]
    split
    · exact TcpClient.addTask_timer _ _
    · rfl
  | disconnect =>
    have hc : a.Frame { a with
        client := { a.client with endpoint := a.client.endpoint.clear.1 } } :=
      .of_timer rfl (Endpoint.clear_timer _)
    dsimp only [step]
    split
    · exact hc.trans (complete_frame _ _ _)
    · exact hc
  | returned =>
    dsimp only [step]
    split
    · exact .of_timer rfl rfl
    · exact .of_timer rfl rfl
  | release => exact .of_timer rfl rfl

theorem CallMethod_agree (self fd : Nat) {timer_event other : Nat} (controller : RpcController Unit)
    (req_protocol : TinyPBProtocol) (loop : Eventloop) (now : Int) (hne : other ≠ timer_event) :
    loop.m_timer.Agree
      (CallMethod self fd timer_event controller req_protocol loop now).client.m_timer other := by
  have hset : ∀ event, loop.m_timer.Agree
      ((TcpClient.new self fd loop : AttemptClient).m_timer.setEvent timer_event event) other := by
    intro event
    rw [TcpClient.new_timer]
    exact Timer.setEvent_agree _ hne _
  refine Timer.Agree.trans ?_ (Eventloop.addTimerEvent_agree _ hne now)
  split
  · exact (hset _).trans (.of_eq (TcpClient.addTask_timer _ _))
  · exact hset _

/-! ### An attempt on another state of the loop -/

theorem Done.on {a : Attempt} {loop loop' : Eventloop} (h : (a.on loop).Done)
    (hagree : loop.m_timer.Agree loop'.m_timer a.timer_event) : (a.on loop').Done :=
  { h with
    disconnected := h.disconnected.congr rfl rfl
    timer_cancled := (congrArg TimerEvent.m_is_cancled hagree.1).trans h.timer_cancled
    timer_not_pending := fun hp => h.timer_not_pending fun he => hp (hagree.2.trans he) }

theorem Pending.on {a : Attempt} {loop loop' : Eventloop} (h : (a.on loop).Pending)
    (hagree : loop.m_timer.Agree loop'.m_timer a.timer_event) : (a.on loop').Pending :=
  { h with entry := hagree.atMostOne h.entry, armed := h.armed }

end Attempt

/-! ### The calls -/

/-- An attempt and the channel it was made on. -/
structure Call where
  channel : Nat
  attempt : Attempt

/-- The attempts made so far, the `i`-th with timer event `base + i`. -/
structure Calls where
  base : Nat
  loop : Eventloop
  calls : List Call := []

inductive CallsOp
  | CallMethod (channel fd : Nat) (controller : RpcController Unit) (req_protocol : TinyPBProtocol)
      (now : Int)
  | release (channel : Nat)
  | event (i : Nat) (ev : AttemptEvent)

namespace Calls

/-- The `i`-th attempt, on the loop as it is. -/
def attemptAt (s : Calls) (i : Nat) : Option Attempt :=
  s.calls[i]?.map fun call => call.attempt.on s.loop

/-- `m_request_state` of the channel is overwritten or destroyed. -/
def letGo (s : Calls) (channel : Nat) : Calls :=
  { s with calls := s.calls.map fun call =>
      if call.channel = channel then { call with attempt := { call.attempt with held := false } }
      else call }

/-- An attempt is only let go by its channel, so `release` is no event here. -/
def step (ParseFromString : Bytes → Bool) (s : Calls) : CallsOp → Option Calls
  | .CallMethod channel fd controller req_protocol now =>
      let i := s.calls.length
      let attempt := Attempt.CallMethod i fd (s.base + i) controller req_protocol s.loop now
      some { s with
        loop := attempt.client.endpoint.m_event_loop
        calls := (s.letGo channel).calls ++ [⟨channel, attempt⟩] }
  | .release channel => some (s.letGo channel)
  | .event i ev =>
      match s.calls[i]? with
      | some call =>
          if ev = .release then none
          else
            let attempt := (call.attempt.on s.loop).step ParseFromString ev
            some { s with
              loop := attempt.client.endpoint.m_event_loop
              calls := s.calls.set i { call with attempt := attempt } }
      | none => none

/-- No channel is called or ended while its attempt is pending. -/
def Keeps (s : Calls) : CallsOp → Prop
  | .CallMethod channel .. | .release channel => ∀ call ∈ s.calls, call.channel = channel →
      call.attempt.held = true → call.attempt.completed = true
  | .event .. => True

instance (s : Calls) : (op : CallsOp) → Decidable (s.Keeps op)
  | .CallMethod .. | .release _ => inferInstanceAs (Decidable (∀ call ∈ s.calls, _))
  | .event .. => inferInstanceAs (Decidable True)

/-! ### The invariant -/

/-- The attempt with timer event `event` is done or pending. -/
structure Sound (loop : Eventloop) (event : Nat) (a : Attempt) : Prop where
  timer_event : a.timer_event = event
  state : (a.on loop).Done ∨ (a.on loop).Pending

/-- What every run keeps. -/
structure AllSound (s : Calls) : Prop where
  sound : ∀ i call, s.calls[i]? = some call → Sound s.loop (s.base + i) call.attempt
  unused : ∀ i, s.calls.length ≤ i → s.loop.m_timer.entries (s.base + i) = []

/-- The attempt with timer event `event` is done, or pending and held. -/
structure Good (loop : Eventloop) (event : Nat) (a : Attempt) : Prop where
  timer_event : a.timer_event = event
  state : (a.on loop).Done ∨ (a.on loop).Pending ∧ a.held = true

structure Inv (s : Calls) : Prop where
  good : ∀ i call, s.calls[i]? = some call → Good s.loop (s.base + i) call.attempt
  unused : ∀ i, s.calls.length ≤ i → s.loop.m_timer.entries (s.base + i) = []

variable {ParseFromString : Bytes → Bool} {loop loop' : Eventloop} {event : Nat} {a : Attempt}

theorem Sound.on (h : Sound loop event a) (hagree : loop.m_timer.Agree loop'.m_timer event) :
    Sound loop' event a := by
  refine ⟨h.timer_event, ?_⟩
  rw [← h.timer_event] at hagree
  obtain hd | hp := h.state
  · exact Or.inl (hd.on hagree)
  · exact Or.inr (hp.on hagree)

theorem Sound.letGo (h : Sound loop event a) : Sound loop event { a with held := false } := by
  refine ⟨h.timer_event, ?_⟩
  obtain hd | hp := h.state
  · exact Or.inl { hd with }
  · exact Or.inr { hp.toFresh with armed := nofun }

theorem Sound.step (h : Sound loop event a) (ev : AttemptEvent) :
    Sound ((a.on loop).step ParseFromString ev).client.endpoint.m_event_loop event
      ((a.on loop).step ParseFromString ev) := by
  refine ⟨(Attempt.step_frame _ _ _).timer_event.trans h.timer_event, ?_⟩
  obtain hd | hp := h.state
  · exact Or.inl (Attempt.step_done _ hd ev).1
  · by_cases ht : (a.on loop).held = true ∧ (a.on loop).Terminal ev
    · exact Or.inl (Attempt.step_terminal _ hp ht.1 ht.2).1
    · exact Or.inr (Attempt.step_pending ParseFromString hp ht).1

variable {s s' : Calls}

theorem length_letGo (s : Calls) (channel : Nat) :
    (s.letGo channel).calls.length = s.calls.length :=
  List.length_map _

theorem letGo_sound (h : s.AllSound) (channel : Nat) : (s.letGo channel).AllSound := by
  refine ⟨fun i call hi => ?_, fun i hi => h.unused i ?_⟩
  · rw [letGo, List.getElem?_map, Option.map_eq_some_iff] at hi
    obtain ⟨call₀, hi₀, rfl⟩ := hi
    split
    · exact (h.sound i call₀ hi₀).letGo
    · exact h.sound i call₀ hi₀
  · rwa [length_letGo] at hi

theorem CallMethod_sound (h : s.AllSound) {channel fd : Nat} {controller : RpcController Unit}
    {req_protocol : TinyPBProtocol} {now : Int}
    (hs : s.step ParseFromString (.CallMethod channel fd controller req_protocol now) = some s') :
    s'.AllSound := by
  cases hs
  -- The new attempt is the one after the last; only its timer event has changed.
  have hagree := fun j (hne : j ≠ s.calls.length) => Attempt.CallMethod_agree s.calls.length fd
    controller req_protocol s.loop now (fun he : s.base + j = s.base + s.calls.length =>
      hne (Nat.add_left_cancel he))
  refine ⟨fun i call hi => ?_, fun i hi => ?_⟩
  · by_cases hlt : i < s.calls.length
    · rw [List.getElem?_append_left (by rwa [length_letGo])] at hi
      exact ((letGo_sound h channel).sound i call hi).on (hagree i (Nat.ne_of_lt hlt))
    · rw [List.getElem?_append_right (by rw [length_letGo]; omega), length_letGo,
        List.getElem?_singleton, Option.ite_none_right_eq_some] at hi
      obtain ⟨hi, hcall⟩ := hi
      obtain rfl : i = s.calls.length := by omega
      cases hcall
      exact ⟨rfl, Or.inr (Attempt.CallMethod_pending _ _ _ _ _
        (not_not.mpr (h.unused _ le_rfl))).1⟩
  · have hi : s.calls.length + 1 ≤ i := by simpa [length_letGo] using hi
    exact (hagree i (by omega)).2.trans (h.unused i (by omega))

theorem event_eq {i : Nat} {ev : AttemptEvent}
    (hs : s.step ParseFromString (.event i ev) = some s') : ∃ call, s.calls[i]? = some call ∧
      ev ≠ .release ∧
      s' = { s with
        loop := ((call.attempt.on s.loop).step ParseFromString ev).client.endpoint.m_event_loop
        calls := s.calls.set i
          { call with attempt := (call.attempt.on s.loop).step ParseFromString ev } } := by
  dsimp only [step] at hs
  split at hs
  next call hi =>
    split at hs
    · cases hs
    · cases hs
      exact ⟨call, hi, ‹_›, rfl⟩
  next => cases hs

theorem event_sound (h : s.AllSound) {i : Nat} {ev : AttemptEvent}
    (hs : s.step ParseFromString (.event i ev) = some s') : s'.AllSound := by
  obtain ⟨call, hi, -, rfl⟩ := event_eq hs
  have hsound := h.sound i call hi
  have hframe := Attempt.step_frame ParseFromString (call.attempt.on s.loop) ev
  have hagree := fun j (hne : j ≠ i) => hframe.agree (s.base + j) (fun he => hne
    (Nat.add_left_cancel (he.trans hsound.timer_event)))
  refine ⟨fun j call' hj => ?_, fun j hj => ?_⟩
  · by_cases hne : j = i
    · subst hne
      rw [List.getElem?_set_self (List.getElem?_eq_some_iff.mp hi).1] at hj
      cases hj
      exact hsound.step ev
    · rw [List.getElem?_set_ne (Ne.symm hne)] at hj
      exact (h.sound j call' hj).on (hagree j hne)
  · have hlt := (List.getElem?_eq_some_iff.mp hi).1
    have hj : s.calls.length ≤ j := by simpa using hj
    exact (hagree j (by omega)).2.trans (h.unused j hj)

/-- **One operation**, of any run. -/
theorem step_sound {op : CallsOp} (h : s.AllSound) (hs : s.step ParseFromString op = some s') :
    s'.AllSound := by
  cases op with
  | CallMethod channel fd controller req_protocol now => exact CallMethod_sound h hs
  | release channel =>
    cases hs
    exact letGo_sound h channel
  | event i ev => exact event_sound h hs

/-! ### Attempts that stay held -/

/-- Every attempt that is not completed is held. -/
def Holds (s : Calls) : Prop :=
  ∀ call ∈ s.calls, call.attempt.completed = false → call.attempt.held = true

theorem inv_iff : s.Inv ↔ s.AllSound ∧ s.Holds := by
  constructor
  · intro h
    refine ⟨⟨fun i call hi => ?_, h.unused⟩, fun call hcall hc => ?_⟩
    · exact ⟨(h.good i call hi).timer_event, (h.good i call hi).state.imp_right And.left⟩
    · obtain ⟨i, hi⟩ := List.mem_iff_getElem?.mp hcall
      obtain hd | hp := (h.good i call hi).state
      · cases hc.symm.trans hd.completed
      · exact hp.2
  · rintro ⟨h, hh⟩
    refine ⟨fun i call hi => ⟨(h.sound i call hi).timer_event, ?_⟩, h.unused⟩
    obtain hd | hp := (h.sound i call hi).state
    · exact Or.inl hd
    · exact Or.inr ⟨hp, hh call (List.mem_of_getElem? hi) hp.completed⟩

theorem letGo_holds (h : s.Holds) {channel : Nat} (hk : s.Keeps (.release channel)) :
    (s.letGo channel).Holds := by
  intro call hcall hc
  obtain ⟨call₀, hcall₀, rfl⟩ := List.mem_map.mp hcall
  split at hc
  · cases hc.symm.trans (hk call₀ hcall₀ ‹_› (h call₀ hcall₀ hc))
  · rw [if_neg ‹_›]
    exact h call₀ hcall₀ hc

theorem event_holds (h : s.Inv) {i : Nat} {ev : AttemptEvent}
    (hs : s.step ParseFromString (.event i ev) = some s') : s'.Holds := by
  obtain ⟨call, hi, hev, rfl⟩ := event_eq hs
  intro call' hcall' hc
  obtain hcall' | rfl := List.mem_or_eq_of_mem_set hcall'
  · exact (inv_iff.mp h).2 call' hcall' hc
  · obtain hd | ⟨hp, hheld⟩ := (h.good i call hi).state
    · cases hc.symm.trans (Attempt.step_done ParseFromString hd ev).1.completed
    · by_cases ht : (call.attempt.on s.loop).Terminal ev
      · cases hc.symm.trans (Attempt.step_terminal ParseFromString hp hheld ht).1.completed
      · exact (Attempt.step_pending ParseFromString hp fun hh => ht hh.2).2.2.mpr ⟨hheld, hev⟩

/-- **One operation** that lets no pending attempt go. -/
theorem step_inv {op : CallsOp} (h : s.Inv)
    (hs : s.Keeps op ∧ s.step ParseFromString op = some s') : s'.Inv := by
  obtain ⟨hsound, hholds⟩ := inv_iff.mp h
  obtain ⟨hk, hs⟩ := hs
  refine inv_iff.mpr ⟨step_sound hsound hs, ?_⟩
  cases op with
  | CallMethod channel fd controller req_protocol now =>
    cases hs
    intro call hcall hc
    obtain hcall | hcall := List.mem_append.mp hcall
    · exact letGo_holds hholds hk call hcall hc
    · cases List.mem_singleton.mp hcall
      rfl
  | release channel =>
    cases hs
    exact letGo_holds hholds hk
  | event i ev => exact event_holds h hs

theorem start_sound {base : Nat} (hbase : ∀ p ∈ loop.m_timer.m_pending_events, p.2 < base) :
    (⟨base, loop, []⟩ : Calls).AllSound := by
  refine ⟨fun i call hi => (by cases hi), fun i _ => ?_⟩
  rw [Timer.entries, List.filter_eq_nil_iff]
  intro p hp
  have := hbase p hp
  simp only [decide_eq_true_eq]
  omega

theorem start_inv {base : Nat} (hbase : ∀ p ∈ loop.m_timer.m_pending_events, p.2 < base) :
    (⟨base, loop, []⟩ : Calls).Inv :=
  inv_iff.mpr ⟨start_sound hbase, fun _ hcall => absurd hcall List.not_mem_nil⟩

/-- After event `ev` of attempt `i`, if it is a terminal one, its closure has run once. -/
def Answers (ParseFromString : Bytes → Bool) (s : Calls) (i : Nat) (ev : AttemptEvent) : Prop :=
  ∀ a s', s.attemptAt i = some a → a.Terminal ev → s.step ParseFromString (.event i ev) = some s' →
    ∃ a', s'.attemptAt i = some a' ∧ a'.closure_runs = 1

theorem answers_of_inv (h : s.Inv) (i : Nat) (ev : AttemptEvent) :
    s.Answers ParseFromString i ev := by
  intro a s' ha ht hs
  obtain ⟨call, hi, -, rfl⟩ := event_eq hs
  rw [attemptAt, hi] at ha
  cases ha
  refine ⟨(call.attempt.on s.loop).step ParseFromString ev, ?_, ?_⟩
  · rw [attemptAt, List.getElem?_set_self (List.getElem?_eq_some_iff.mp hi).1]
    rfl
  · obtain hd | ⟨hp, hheld⟩ := (h.good i call hi).state
    · exact (Attempt.step_done _ hd ev).1.closure_runs
    · exact (Attempt.step_terminal _ hp hheld ht).1.closure_runs

end Calls

open Calls

/-- **No call is lost**, as long as no channel is called or ended while its attempt is pending:
in every state such a run reaches, every terminal event of every attempt leaves the attempt
with its closure run once. -/
theorem no_call_lost (ParseFromString : Bytes → Bool) {loop : Eventloop} {base : Nat}
    (hbase : ∀ p ∈ loop.m_timer.m_pending_events, p.2 < base) {ops : List CallsOp} {s : Calls}
    (hrun : Run (fun s op s' => s.Keeps op ∧ s.step ParseFromString op = some s')
      ⟨base, loop, []⟩ ops s) (i : Nat) (ev : AttemptEvent) :
    s.Answers ParseFromString i ev :=
  have hinv : s.Inv := Run.invariant (I := Calls.Inv) step_inv hrun (start_inv hbase)
  answers_of_inv hinv i ev

/-- Two channels, the first called again after the timeout of its first attempt; then the
connect of the third attempt fails. -/
theorem no_call_lost_called_again :
    let s₀ : Calls := { base := 0, loop := { m_is_looping := true } }
    let ops := [CallsOp.CallMethod 0 5 {} { m_msg_id := str "1" } 0, .event 0 (.connecting true),
      .CallMethod 1 6 {} { m_msg_id := str "2" } 0, .event 1 (.connecting true),
      .event 0 .timeout, .CallMethod 0 7 {} { m_msg_id := str "3" } 1000]
    ∃ s s' a a', Run (fun s op s' => s.Keeps op ∧ s.step (fun _ => true) op = some s') s₀ ops s ∧
      s.attemptAt 2 = some a ∧ a.Terminal (.connectDone (.failedAtOnce [])) ∧
      s.step (fun _ => true) (.event 2 (.connectDone (.failedAtOnce []))) = some s' ∧
      s'.attemptAt 2 = some a' ∧ a'.closure_runs = 1 := by
  intro s₀ ops
  obtain ⟨s, hs, h⟩ := (Option.any_eq_true _ _).mp (by decide +kernel :
    (ops.foldlM (Run.guarded Keeps (Calls.step fun _ => true)) s₀).any
      (fun s => (s.attemptAt 2).any (fun a => a.Terminal (.connectDone (.failedAtOnce []))) ∧
        (s.step (fun _ => true) (.event 2 (.connectDone (.failedAtOnce [])))).isSome) = true)
  obtain ⟨h1, h2⟩ := of_decide_eq_true h
  obtain ⟨a, ha, ht⟩ := (Option.any_eq_true _ _).mp h1
  obtain ⟨s', hs'⟩ := Option.isSome_iff_exists.mp h2
  have hrun := Run.of_guarded hs
  obtain ⟨a', ha', hruns⟩ := no_call_lost (fun _ => true) (by decide) hrun 2
    (.connectDone (.failedAtOnce [])) a s' ha (of_decide_eq_true ht) hs'
  exact ⟨s, s', a, a', hrun, ha, of_decide_eq_true ht, hs', ha', hruns⟩

/-- **A released call is lost.**  The channel ends right after the call, as in `CALLRPRC`; the
timeout of the attempt comes, and its closure has not run. -/
theorem released_call_lost :
    let s₀ : Calls := { base := 0, loop := { m_is_looping := true } }
    let ops := [CallsOp.CallMethod 0 5 {} { m_msg_id := str "1" } 0, .event 0 (.connecting true),
      .release 0]
    ∃ s, Run (fun s op s' => s.step (fun _ => true) op = some s') s₀ ops s ∧
      ¬ s.Answers (fun _ => true) 0 .timeout := by
  intro s₀ ops
  obtain ⟨s, hs, h⟩ := (Option.any_eq_true _ _).mp (by decide +kernel :
    (ops.foldlM (Calls.step fun _ => true) s₀).any (fun s =>
      (s.attemptAt 0).isSome ∧ (s.step (fun _ => true) (.event 0 .timeout)).any (fun s' =>
        (s'.attemptAt 0).all (fun a' => a'.closure_runs = 0))) = true)
  obtain ⟨h1, h2⟩ := of_decide_eq_true h
  refine ⟨s, Run.of_foldlM hs, fun hanswers => ?_⟩
  obtain ⟨a, ha⟩ := Option.isSome_iff_exists.mp h1
  obtain ⟨s', hs', hzero⟩ := (Option.any_eq_true _ _).mp h2
  obtain ⟨a', ha', hruns⟩ := hanswers a s' ha trivial hs'
  rw [ha'] at hzero
  simp [hruns] at hzero

end KaiRPC
