import Mathlib.Data.List.Basic

/-!
# Timer

`net/timer.cc` and `net/timer_event.cc`.  The pending events are a multimap from the
arrive time, here the list of its entries in iteration order.  An event is a shared
object: the entries hold its number, the object itself stays in `events`.

`armed` is the expiry of the timerfd.  Every clock reading is an argument.
-/

namespace KaiRPC

structure TimerEvent where
  m_arrive_time : Int := 0
  m_interval : Int := 0
  m_is_repeated : Bool := false
  m_is_cancled : Bool := false
deriving DecidableEq, Repr

structure Timer where
  m_pending_events : List (Int × Nat) := []
  events : Nat → TimerEvent := fun _ => {}
  armed : Option Int := none

namespace Timer

def setEvent (t : Timer) (event : Nat) (v : TimerEvent) : Timer :=
  { t with events := Function.update t.events event v }

/-- `multimap::emplace`: behind the entries of the same key. -/
def emplace (key : Int) (event : Nat) (l : List (Int × Nat)) : List (Int × Nat) :=
  l.takeWhile (fun p => decide (p.1 ≤ key)) ++ (key, event)
    :: l.dropWhile (fun p => decide (p.1 ≤ key))

def resetArriveTime (t : Timer) (now : Int) : Timer :=
  match t.m_pending_events with
  | [] => t
  | (_, event) :: _ =>
      let arrive := (t.events event).m_arrive_time
      { t with armed := some (if arrive > now then arrive else now + 100) }

/-- `is_reset_timerfd`: the new event comes before every pending one. -/
def isResetTimerfd (t : Timer) (arrive : Int) : Bool :=
  match t.m_pending_events with
  | [] => true
  | (_, first) :: _ => decide ((t.events first).m_arrive_time > arrive)

def addTimerEvent (t : Timer) (event : Nat) (now : Int) : Timer :=
  let arrive := (t.events event).m_arrive_time
  let t' := { t with m_pending_events := emplace arrive event t.m_pending_events }
  if t.isResetTimerfd arrive then t'.resetArriveTime now else t'

def setCancled (t : Timer) (event : Nat) : Timer :=
  t.setEvent event { t.events event with m_is_cancled := true }

/-- The loop over the range of the event's arrive time erases its first entry there. -/
def deleteTimerEvent (t : Timer) (event : Nat) : Timer :=
  let t := t.setCancled event
  let arrive := (t.events event).m_arrive_time
  { t with m_pending_events := t.m_pending_events.eraseP fun p => p.1 = arrive ∧ p.2 = event }

/-- `onTimer` takes the entries of an event it runs out of the map. -/
def erase (t : Timer) (event : Nat) : Timer :=
  { t with m_pending_events := t.m_pending_events.filter fun p => p.2 ≠ event }

/-- The entries of an event. -/
def entries (t : Timer) (event : Nat) : List (Int × Nat) :=
  t.m_pending_events.filter fun p => p.2 = event

def IsPending (t : Timer) (event : Nat) : Prop := t.entries event ≠ []

/-! ### What the operations do to the entries -/

theorem resetArriveTime_pending (t : Timer) (now : Int) :
    (t.resetArriveTime now).m_pending_events = t.m_pending_events ∧
      (t.resetArriveTime now).events = t.events := by
  unfold resetArriveTime
  split <;> exact ⟨rfl, rfl⟩

theorem addTimerEvent_pending (t : Timer) (event : Nat) (now : Int) :
    (t.addTimerEvent event now).m_pending_events
      = emplace (t.events event).m_arrive_time event t.m_pending_events ∧
      (t.addTimerEvent event now).events = t.events := by
  unfold addTimerEvent
  dsimp only
  split
  · exact resetArriveTime_pending _ now
  · exact ⟨rfl, rfl⟩

theorem entries_addTimerEvent {t : Timer} {event : Nat} (now : Int) (h : t.entries event = []) :
    (t.addTimerEvent event now).entries event = [((t.events event).m_arrive_time, event)] := by
  rw [entries, (t.addTimerEvent_pending event now).1, emplace, List.filter_append,
    List.filter_cons_of_pos (by simp)]
  have hsplit := List.filter_append (p := fun p : Int × Nat => decide (p.2 = event))
    (t.m_pending_events.takeWhile fun p => decide (p.1 ≤ (t.events event).m_arrive_time))
    (t.m_pending_events.dropWhile fun p => decide (p.1 ≤ (t.events event).m_arrive_time))
  rw [List.takeWhile_append_dropWhile] at hsplit
  obtain ⟨h1, h2⟩ := List.append_eq_nil_iff.mp (hsplit.symm.trans h)
  rw [h1, h2]
  rfl

theorem entries_erase (t : Timer) (event : Nat) : (t.erase event).entries event = [] := by
  rw [entries, erase, List.filter_filter, List.filter_eq_nil_iff]
  intro p _
  simp

/-- The event has one entry, under its arrive time, or none. -/
def AtMostOneEntry (t : Timer) (event : Nat) : Prop :=
  t.entries event = [] ∨ t.entries event = [((t.events event).m_arrive_time, event)]

theorem addTimerEvent_atMostOne {t : Timer} {event : Nat} (now : Int) (h : t.entries event = []) :
    (t.addTimerEvent event now).AtMostOneEntry event := by
  refine Or.inr ?_
  rw [entries_addTimerEvent now h, (t.addTimerEvent_pending event now).2]

/-- **A deleted event is cancelled and has no entry.** -/
theorem deleteTimerEvent_spec {t : Timer} {event : Nat} (h : t.AtMostOneEntry event) :
    ((t.deleteTimerEvent event).events event).m_is_cancled = true ∧
      ¬ (t.deleteTimerEvent event).IsPending event := by
  have hc : ((t.deleteTimerEvent event).events event).m_is_cancled = true := by
    simp [deleteTimerEvent, setCancled, setEvent]
  have ha : ((t.setCancled event).events event).m_arrive_time = (t.events event).m_arrive_time := by
    simp [setCancled, setEvent]
  refine ⟨hc, not_not.mpr ?_⟩
  -- The entries of the event are erased from as the whole map is.
  have hfilter : (t.deleteTimerEvent event).entries event = (t.entries event).eraseP
      fun p => decide (p.1 = (t.events event).m_arrive_time) := by
    rw [entries, entries, List.eraseP_filter, deleteTimerEvent, ha]
    simp only [setCancled, setEvent, Bool.decide_and]
  rw [hfilter]
  obtain h | h := h
  · rw [h]
    rfl
  · rw [h, List.eraseP_cons_of_pos (by simp)]

/-! ### Other events -/

/-- The two timers agree on an event. -/
def Agree (t t' : Timer) (event : Nat) : Prop :=
  t'.events event = t.events event ∧ t'.entries event = t.entries event

theorem Agree.refl (t : Timer) (event : Nat) : t.Agree t event := ⟨rfl, rfl⟩

theorem Agree.of_eq {t t' : Timer} {event : Nat} (h : t' = t) : t.Agree t' event :=
  h ▸ .refl t' event

theorem Agree.trans {t t' t'' : Timer} {event : Nat} (h : t.Agree t' event)
    (h' : t'.Agree t'' event) : t.Agree t'' event :=
  ⟨h'.1.trans h.1, h'.2.trans h.2⟩

variable {event other : Nat}

theorem setEvent_agree (t : Timer) (hne : other ≠ event) (v : TimerEvent) :
    t.Agree (t.setEvent event v) other := ⟨Function.update_of_ne hne _ _, rfl⟩

theorem addTimerEvent_agree (t : Timer) (hne : other ≠ event) (now : Int) :
    t.Agree (t.addTimerEvent event now) other := by
  obtain ⟨h1, h2⟩ := t.addTimerEvent_pending event now
  refine ⟨by rw [h2], ?_⟩
  rw [entries, h1, emplace, List.filter_append, List.filter_cons_of_neg (by simpa using hne.symm),
    ← List.filter_append, List.takeWhile_append_dropWhile, entries]

theorem erase_agree (t : Timer) (hne : other ≠ event) : t.Agree (t.erase event) other := by
  refine ⟨rfl, ?_⟩
  rw [entries, erase, List.filter_filter, entries]
  refine List.filter_congr fun p _ => ?_
  by_cases h : p.2 = other
  · simp [h, hne]
  · simp [h]

theorem deleteTimerEvent_agree (t : Timer) (hne : other ≠ event) :
    t.Agree (t.deleteTimerEvent event) other := by
  refine ⟨Function.update_of_ne hne _ _, ?_⟩
  rw [entries, deleteTimerEvent]
  dsimp only
  obtain h | ⟨p, l₁, l₂, _, hp, hl, h⟩ := List.exists_or_eq_self_of_eraseP
    (fun p => decide (p.1 = ((t.setCancled event).events event).m_arrive_time ∧ p.2 = event))
    (t.setCancled event).m_pending_events
  · rw [h]
    rfl
  · -- The entry that goes is one of `event`, which the filter drops anyway.
    have hne' : p.2 ≠ other := fun h => hne (h.symm.trans (of_decide_eq_true hp).2)
    have hl' : t.m_pending_events = l₁ ++ p :: l₂ := hl
    rw [h, entries, hl', List.filter_append, List.filter_append,
      List.filter_cons_of_neg (by simpa using hne')]

theorem Agree.atMostOne {t t' : Timer} (h : t.Agree t' event) (ha : t.AtMostOneEntry event) :
    t'.AtMostOneEntry event := by
  rw [AtMostOneEntry, h.1, h.2]
  exact ha

end Timer

end KaiRPC
