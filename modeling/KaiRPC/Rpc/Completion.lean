import KaiRPC.Rpc.Calls

/-!
# What a completion does to its loop

`RequestState::finish` disconnects the client of the attempt and stops it, and
`TcpClient::stop` stops the whole loop where `m_is_looping` is set.  `connect` only ran
that loop itself when it found `m_is_looping` unset; on a loop that was looping before the
call, the stop hits everybody else on it.

* `Attempt.step_terminal_loop`: the loop after a terminal event, up to the attempt's own
  timer event and descriptors.
* `completion_leaves_rest_iff`: **the rest of the loop is left alone exactly when the loop
  was stopped before or `m_is_looping` is not set.**
* `completion_stops_loop`: a timeout on a looping loop.
-/

namespace KaiRPC

namespace Attempt

variable {a : Attempt}

theorem complete_loop (h : a.Fresh) (hheld : a.held = true) (error_code : Int32)
    (error_info : Bytes) {own : Int → Prop} (hown : a.client.endpoint.Owns own) :
    ∃ l, a.client.endpoint.m_event_loop.Beside own l ∧
      (a.complete error_code error_info).client.endpoint.m_event_loop
        = if l.m_is_looping then l.stop else l := by
  let client := (((a.client.setDisconnectCallback none).removeReadMessage a.msg_id).deleteTimerEvent
    a.timer_event).setDisconnectCallback none
  have hclient : a.client.endpoint.m_event_loop.Beside own client.endpoint.m_event_loop :=
    .of_timer _ _
  have hdis : client.Beside own client.disconnect := TcpClient.disconnect_beside hown
  refine ⟨client.disconnect.endpoint.m_event_loop, hclient.trans hdis.1, ?_⟩
  rw [complete_client h hheld]
  show client.disconnect.stop.endpoint.m_event_loop = _
  rw [TcpClient.stop]
  split <;> rfl

/-- **The loop after a terminal event**: the rest of it is as it was, and it is stopped if it
was looping. -/
theorem step_terminal_loop (ParseFromString : Bytes → Bool) (h : a.Pending) (hheld : a.held = true)
    {ev : AttemptEvent} (ht : a.Terminal ev) {own : Int → Prop}
    (hown : a.client.endpoint.Owns own) :
    ∃ l, a.client.endpoint.m_event_loop.Beside own l ∧
      (a.step ParseFromString ev).client.endpoint.m_event_loop
        = if l.m_is_looping then l.stop else l := by
  obtain ⟨client, hf, hbeside, heq⟩ := step_eq_complete ParseFromString h hheld ht
  have hb := hbeside own hown
  obtain ⟨l, hl, hloop⟩ := complete_loop hf hheld (a.verdict ParseFromString ev).1
    (a.verdict ParseFromString ev).2 hb.2
  rw [heq]
  exact ⟨l, hb.1.trans hl, hloop⟩

/-- The descriptor the attempt has open. -/
def OwnFd (a : Attempt) (fd : Int) : Prop :=
  fd = a.client.endpoint.m_fd_event.m_fd ∨ fd = a.client.endpoint.conn.m_fd

end Attempt

namespace Calls

/-- From `s` to `s'` nothing has changed for anyone but the `i`-th attempt `a`: the other
attempts, their timer events and all others, the queued tasks, the other descriptors and the
running of the loop. -/
structure LeavesRest (i : Nat) (a : Attempt) (s s' : Calls) : Prop where
  attempts : ∀ j, j ≠ i → s'.calls[j]? = s.calls[j]?
  timers : ∀ event, event ≠ a.timer_event → s.loop.m_timer.Agree s'.loop.m_timer event
  tasks : s'.loop.m_pending_tasks = s.loop.m_pending_tasks
  listen_fds : ∀ fd, ¬ a.OwnFd fd → (fd ∈ s'.loop.m_listen_fds ↔ fd ∈ s.loop.m_listen_fds)
  epoll : ∀ fd, ¬ a.OwnFd fd → s'.loop.epoll fd = s.loop.epoll fd
  running : s.loop.m_stop_flag = false → s'.loop.m_stop_flag = false

end Calls

open Calls

/-- **The completion of one call leaves the rest of its loop alone exactly when** the loop was
stopped already or `m_is_looping` is not set: for every attempt in flight in any run and every
terminal event of it. -/
theorem completion_leaves_rest_iff (ParseFromString : Bytes → Bool) {loop : Eventloop} {base : Nat}
    (hbase : ∀ p ∈ loop.m_timer.m_pending_events, p.2 < base) {ops : List CallsOp} {s : Calls}
    (hrun : Run (fun s op s' => s.step ParseFromString op = some s') ⟨base, loop, []⟩ ops s)
    {i : Nat} {a : Attempt} (ha : s.attemptAt i = some a) (hactive : a.IsActive)
    {ev : AttemptEvent} (ht : a.Terminal ev) {s' : Calls}
    (hs : s.step ParseFromString (.event i ev) = some s') :
    LeavesRest i a s s' ↔ (s.loop.m_stop_flag = false → s.loop.m_is_looping = false) := by
  have hsound : s.AllSound := hrun.invariant (I := AllSound) step_sound (start_sound hbase)
  obtain ⟨call, hi, -, rfl⟩ := event_eq hs
  rw [attemptAt, hi] at ha
  cases ha
  have hp : (call.attempt.on s.loop).Pending := by
    obtain hd | hp := (hsound.sound i call hi).state
    · cases hactive.2.symm.trans hd.completed
    · exact hp
  have hown : (call.attempt.on s.loop).client.endpoint.Owns (call.attempt.on s.loop).OwnFd :=
    ⟨Or.inl rfl, fun _ => Or.inr rfl⟩
  obtain ⟨l, hl, hloop⟩ := Attempt.step_terminal_loop ParseFromString hp hactive.1 ht hown
  have hframe := Attempt.step_frame ParseFromString (call.attempt.on s.loop) ev
  have hlooping : l.m_is_looping = s.loop.m_is_looping := hl.looping
  have hflag : l.m_stop_flag = s.loop.m_stop_flag := hl.stop_flag
  constructor
  · intro hrest hfalse
    have hrunning := hrest.running hfalse
    dsimp only at hrunning
    rw [hloop] at hrunning
    cases hlo : s.loop.m_is_looping with
    | false => rfl
    | true =>
      rw [if_pos (hlooping.trans hlo)] at hrunning
      cases hrunning
  · intro hcond
    -- With or without the stop, the rest is that of `l`.
    have hrest : l.Beside (call.attempt.on s.loop).OwnFd
        { (if l.m_is_looping then l.stop else l) with m_stop_flag := l.m_stop_flag } := by
      split <;> exact .refl l
    have hall := hl.trans hrest
    rw [← hloop] at hall
    refine ⟨fun j hne => List.getElem?_set_ne (Ne.symm hne), hframe.agree, hall.tasks,
      hall.listen_fds, hall.epoll, fun hfalse => ?_⟩
    dsimp only
    rw [hloop, if_neg (by simp [hlooping, hcond hfalse])]
    exact hflag.trans hfalse

/-- The first attempt has stopped the loop, the client of the third has made it ready again and
left `m_is_looping` unset; then the second attempt times out. -/
theorem completion_leaves_rest_iff_taken_over :
    let s₀ : Calls := { base := 0, loop := { m_is_looping := true } }
    let ops := [CallsOp.CallMethod 0 5 {} { m_msg_id := str "1" } 0, .event 0 (.connecting true),
      .CallMethod 1 6 {} { m_msg_id := str "2" } 0, .event 1 (.connecting true),
      .event 0 .timeout, .CallMethod 2 7 {} { m_msg_id := str "3" } 1000]
    ∃ s s' a, Run (fun s op s' => s.step (fun _ => true) op = some s') s₀ ops s ∧
      s.attemptAt 1 = some a ∧ s.step (fun _ => true) (.event 1 .timeout) = some s' ∧
      LeavesRest 1 a s s' := by
  intro s₀ ops
  obtain ⟨s, hs, h⟩ := (Option.any_eq_true _ _).mp (by decide +kernel :
    (ops.foldlM (Calls.step fun _ => true) s₀).any
      (fun s => (s.attemptAt 1).any (fun a => a.IsActive) ∧
        (s.step (fun _ => true) (.event 1 .timeout)).isSome ∧ s.loop.m_is_looping = false) = true)
  obtain ⟨h1, h2, hlooping⟩ := of_decide_eq_true h
  obtain ⟨a, ha, hactive⟩ := (Option.any_eq_true _ _).mp h1
  obtain ⟨s', hs'⟩ := Option.isSome_iff_exists.mp h2
  have hterminal : a.Terminal .timeout := trivial
  have hiff := completion_leaves_rest_iff (fun _ => true) (by decide) (Run.of_foldlM hs) ha
    (of_decide_eq_true hactive) hterminal hs'
  exact ⟨s, s', a, Run.of_foldlM hs, ha, hs', hiff.mpr fun _ => hlooping⟩

/-- **A completion stops the loop of the others.**  Two calls are in flight on a looping loop;
the first times out, and the loop is told to stop under the second. -/
theorem completion_stops_loop :
    let s₀ : Calls := { base := 0, loop := { m_is_looping := true } }
    let ops := [CallsOp.CallMethod 0 5 {} { m_msg_id := str "1" } 0, .event 0 (.connecting true),
      .CallMethod 1 6 {} { m_msg_id := str "2" } 0, .event 1 (.connecting true)]
    ∃ s s' a, Run (fun s op s' => s.step (fun _ => true) op = some s') s₀ ops s ∧
      s.attemptAt 0 = some a ∧ a.IsActive ∧ a.Terminal .timeout ∧
      s.step (fun _ => true) (.event 0 .timeout) = some s' ∧ ¬ LeavesRest 0 a s s' := by
  intro s₀ ops
  obtain ⟨s, hs, h⟩ := (Option.any_eq_true _ _).mp (by decide +kernel :
    (ops.foldlM (Calls.step fun _ => true) s₀).any
      (fun s => (s.attemptAt 0).any (fun a => a.IsActive) ∧ s.loop.m_stop_flag = false ∧
        (s.step (fun _ => true) (.event 0 .timeout)).any (fun s' => s'.loop.m_stop_flag)) = true)
  obtain ⟨h1, hbefore, h2⟩ := of_decide_eq_true h
  obtain ⟨a, ha, hactive⟩ := (Option.any_eq_true _ _).mp h1
  obtain ⟨s', hs', hafter⟩ := (Option.any_eq_true _ _).mp h2
  refine ⟨s, s', a, Run.of_foldlM hs, ha, of_decide_eq_true hactive, trivial, hs', fun hrest => ?_⟩
  cases (hrest.running hbefore).symm.trans hafter

end KaiRPC
