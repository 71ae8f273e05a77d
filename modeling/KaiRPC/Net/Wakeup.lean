import Mathlib.Algebra.Order.Group.Int
import KaiRPC.Net.Pending

/-!
# The wake-ups of a timer

Which expiry the timerfd of `net/timer.cc` has.  `addTimerEvent` sets it only for an event that
comes first, `deleteTimerEvent` never does, and `onTimer` does if something is pending; `onTimer`
also reads the expirations, after which an expired timerfd is disarmed.

* `TimerFd`: a timer with the time its timerfd was last set.
* `WakesUp`: **if something is pending the timerfd is set, for the earliest arrive time or for
  `100` ms after it was set.**
* `apply_armedInv`: each step keeps it on a map that is `Keyed`.
* `wakeup_never_lost`: so it holds along every run in which no repeated event is added while it
  is pending; `twice_added_late` is a run in which one is.
-/

namespace KaiRPC

namespace Timer

/-- The arrive times of the pending events. -/
def arrivals (t : Timer) : List Int :=
  t.m_pending_events.map fun p => (t.events p.2).m_arrive_time

def IsEarliest (t : Timer) (first : Int) : Prop :=
  first ∈ t.arrivals ∧ ∀ a ∈ t.arrivals, first ≤ a

instance (t : Timer) (first : Int) : Decidable (t.IsEarliest first) :=
  inferInstanceAs (Decidable (_ ∧ _))

/-- The `read` loop at the head of `onTimer`: an expiry that has passed is gone. -/
def readExpirations (t : Timer) (now : Int) : Timer :=
  if ∀ expiry ∈ t.armed, now < expiry then t else { t with armed := none }

theorem readExpirations_pending (t : Timer) (now : Int) :
    (t.readExpirations now).m_pending_events = t.m_pending_events ∧
      (t.readExpirations now).events = t.events := by
  rw [readExpirations]
  split <;> exact ⟨rfl, rfl⟩

theorem Keyed.front {t : Timer} (h : t.Keyed) {p : Int × Nat} {l : List (Int × Nat)}
    (hp : t.m_pending_events = p :: l) : t.IsEarliest (t.events p.2).m_arrive_time := by
  have hmem : p ∈ t.m_pending_events := by rw [hp]; exact List.mem_cons_self
  refine ⟨List.mem_map_of_mem hmem, ?_⟩
  intro a ha
  obtain ⟨q, hq, rfl⟩ := List.mem_map.mp ha
  have hs := h.sorted
  rw [← h.keys p hmem, ← h.keys q hq]
  rw [hp] at hq hs
  rcases List.mem_cons.mp hq with rfl | hq
  · exact le_rfl
  · exact (List.pairwise_cons.mp hs).1 q hq

theorem Keyed.exists_earliest {t : Timer} (h : t.Keyed) (hne : t.m_pending_events ≠ []) :
    ∃ first, t.IsEarliest first := by
  obtain ⟨p, l, hp⟩ := List.exists_cons_of_ne_nil hne
  exact ⟨_, h.front hp⟩

theorem resetArriveTime_armed {t : Timer} (h : t.Keyed) (now : Int)
    (hne : t.m_pending_events ≠ []) : ∃ first expiry, t.IsEarliest first ∧
      (t.resetArriveTime now).armed = some expiry ∧ expiry ≤ max first (now + 100) := by
  obtain ⟨⟨key, event⟩, l, hp⟩ := List.exists_cons_of_ne_nil hne
  refine ⟨_, _, h.front hp, by rw [resetArriveTime, hp], ?_⟩
  split
  · exact le_max_left _ _
  · exact le_max_right _ _

theorem rearmAll_last (tmps : List Nat) : ∀ (t : Timer) (clock : Nat → Int),
    ∃ t' : Timer, t.rearmAll tmps clock = t'.resetArriveTime (clock (2 * tmps.length)) := by
  induction tmps with
  | nil =>
    intro t clock
    exact ⟨t, rfl⟩
  | cons event tmps ih =>
    intro t clock
    obtain ⟨t', h⟩ := ih (t.rearm event (clock 0) (clock 1)) fun n => clock (n + 2)
    refine ⟨t', h.trans ?_⟩
    rw [List.length_cons, Nat.mul_succ]

end Timer

/-! ### Runs of a timer and its timerfd -/

/-- `now` is the last clock reading, `armedAt` the one at which the timerfd was last set. -/
structure TimerFd where
  timer : Timer
  now : Int := 0
  armedAt : Int := 0

inductive TimerOp where
  | addTimerEvent (event : Nat) (now : Int)
  | deleteTimerEvent (event : Nat)
  /-- The clock is read at the `read` loop, at `now`, and in each `resetArriveTime`. -/
  | onTimer (clock : Nat → Int)

namespace TimerFd

def apply (w : TimerFd) : TimerOp → TimerFd
  | .addTimerEvent event now =>
      { timer := w.timer.addTimerEvent event now
        now := now
        armedAt := if w.timer.isResetTimerfd (w.timer.events event).m_arrive_time then now
          else w.armedAt }
  | .deleteTimerEvent event => { w with timer := w.timer.deleteTimerEvent event }
  | .onTimer clock =>
      let r := (w.timer.readExpirations (clock 0)).onTimer fun n => clock (n + 1)
      let last := clock (2 * r.2.length + 2)
      { timer := r.1
        now := last
        armedAt := if r.1.m_pending_events = [] then w.armedAt else last }

/-- The clock does not go back. -/
def Timely (w : TimerFd) : TimerOp → Prop
  | .addTimerEvent _ now => w.now ≤ now
  | .deleteTimerEvent _ => True
  | .onTimer clock => w.now ≤ clock 0 ∧ ∀ n, clock n ≤ clock (n + 1)

/-- The step adds no repeated event that is pending. -/
def AddsOnce (w : TimerFd) : TimerOp → Prop
  | .addTimerEvent event _ =>
      (w.timer.events event).m_is_repeated = true → event ∉ w.timer.pending
  | _ => True

/-- **No wake-up is lost**: the timerfd is armed, or expired and not read, for the earliest
pending event or for `100` ms after it was set. -/
def WakesUp (w : TimerFd) : Prop :=
  w.timer.m_pending_events ≠ [] → ∃ first expiry, w.timer.IsEarliest first ∧
    w.timer.armed = some expiry ∧ expiry ≤ max first (w.armedAt + 100)

def ArmedInv (w : TimerFd) : Prop := w.timer.Keyed ∧ w.WakesUp

theorem WakesUp.of_later {w w' : TimerFd} (h : w.WakesUp) (hk : w'.timer.Keyed)
    (harmed : w'.timer.armed = w.timer.armed) (hat : w'.armedAt = w.armedAt)
    (hlater : ∀ a' ∈ w'.timer.arrivals, ∃ a ∈ w.timer.arrivals, a ≤ a') : w'.WakesUp := by
  intro hne
  obtain ⟨first', hfirst'⟩ := hk.exists_earliest hne
  obtain ⟨a, ha, hle⟩ := hlater first' hfirst'.1
  have hold : w.timer.m_pending_events ≠ [] := by
    intro hnil
    rw [Timer.arrivals, hnil] at ha
    cases ha
  obtain ⟨first, expiry, hfirst, hset, hbound⟩ := h hold
  have hfa := hfirst.2 a ha
  exact ⟨first', expiry, hfirst', harmed.trans hset, by rw [hat]; omega⟩

theorem wakesUp_of_reset {w : TimerFd} {t : Timer} (hk : w.timer.Keyed)
    (htimer : w.timer = t.resetArriveTime w.armedAt) : w.WakesUp := by
  intro hne
  obtain ⟨hp, he⟩ := t.resetArriveTime_pending w.armedAt
  rw [← htimer] at hp he
  obtain ⟨first, expiry, hfirst, hset, hle⟩ := Timer.resetArriveTime_armed
    (hk.of_eq hp.symm he.symm) w.armedAt (hp ▸ hne)
  refine ⟨first, expiry, ?_, htimer ▸ hset, hle⟩
  rw [Timer.IsEarliest, Timer.arrivals, hp, he]
  exact hfirst

theorem add_wakesUp {w : TimerFd} {event : Nat} {now : Int} (h : w.WakesUp)
    (hk : (w.timer.addTimerEvent event now).Keyed) :
    (w.apply (.addTimerEvent event now)).WakesUp := by
  obtain ⟨hp, he⟩ := w.timer.addTimerEvent_pending event now
  by_cases hreset : w.timer.isResetTimerfd (w.timer.events event).m_arrive_time = true
  · obtain ⟨t, ht⟩ : ∃ t : Timer, w.timer.addTimerEvent event now = t.resetArriveTime now :=
      ⟨_, if_pos hreset⟩
    have hat : (w.apply (.addTimerEvent event now)).armedAt = now := if_pos hreset
    exact wakesUp_of_reset (t := t) hk (by rw [hat]; exact ht)
  · have hadd : (w.timer.addTimerEvent event now).armed = w.timer.armed := by
      rw [Timer.addTimerEvent, if_neg hreset]
    refine h.of_later hk hadd (if_neg hreset) ?_
    intro a' ha'
    dsimp only [apply] at ha'
    rw [Timer.arrivals, hp, he] at ha'
    obtain ⟨q, hq, rfl⟩ := List.mem_map.mp ha'
    rcases Timer.mem_emplace.mp hq with rfl | hq
    · -- some pending event is not later than the new one
      rw [Timer.isResetTimerfd] at hreset
      split at hreset
      · exact absurd rfl hreset
      · rename_i key front l hfront
        refine ⟨(w.timer.events front).m_arrive_time,
          List.mem_map_of_mem (a := (key, front)) (by rw [hfront]; exact List.mem_cons_self), ?_⟩
        simpa using hreset
    · exact ⟨_, List.mem_map_of_mem hq, le_rfl⟩

theorem delete_wakesUp {w : TimerFd} {event : Nat} (h : w.WakesUp)
    (hk : (w.timer.deleteTimerEvent event).Keyed) :
    (w.apply (.deleteTimerEvent event)).WakesUp := by
  refine h.of_later hk rfl rfl ?_
  intro a' ha'
  obtain ⟨q, hq, rfl⟩ := List.mem_map.mp ha'
  have hq' : q ∈ w.timer.m_pending_events := List.eraseP_sublist.subset hq
  exact ⟨_, List.mem_map_of_mem hq', by rw [← w.timer.deleteTimerEvent_arrive event]; exact le_rfl⟩

/-- `onTimer` sets the timerfd at its last reading if anything is pending. -/
theorem onTimer_wakesUp {w : TimerFd} {clock : Nat → Int}
    (hk : (w.apply (.onTimer clock)).timer.Keyed) : (w.apply (.onTimer clock)).WakesUp := by
  obtain ⟨t, ht⟩ := Timer.rearmAll_last
    ((w.timer.readExpirations (clock 0)).collect (clock 1))
    ((w.timer.readExpirations (clock 0)).eraseDue (clock 1)) fun n => clock (n + 2)
  intro hne
  have hat : (w.apply (.onTimer clock)).armedAt
      = clock (2 * ((w.timer.readExpirations (clock 0)).collect (clock 1)).length + 2) :=
    if_neg hne
  have htimer : (w.apply (.onTimer clock)).timer
      = t.resetArriveTime (w.apply (.onTimer clock)).armedAt := by
    rw [hat]
    exact ht
  exact wakesUp_of_reset hk htimer hne

theorem apply_armedInv {w : TimerFd} {op : TimerOp} (h : w.ArmedInv) (ho : w.AddsOnce op) :
    (w.apply op).ArmedInv := by
  obtain ⟨hk, hw⟩ := h
  cases op with
  | addTimerEvent event now =>
    have hk' := Timer.addTimerEvent_keyed hk now ho
    exact ⟨hk', add_wakesUp hw hk'⟩
  | deleteTimerEvent event =>
    have hk' := Timer.deleteTimerEvent_keyed hk event
    exact ⟨hk', delete_wakesUp hw hk'⟩
  | onTimer clock =>
    obtain ⟨hp, he⟩ := w.timer.readExpirations_pending (clock 0)
    have hk' := Timer.onTimer_keyed (hk.of_eq hp he) fun n => clock (n + 1)
    exact ⟨hk', onTimer_wakesUp hk'⟩

theorem start_armedInv (events : Nat → TimerEvent) : ArmedInv { timer := { events } } :=
  ⟨⟨.nil, nofun, fun _ _ => Nat.zero_le 1⟩, fun hne => absurd rfl hne⟩

/-- **No wake-up is lost** in a run that adds no repeated event while it is pending. -/
theorem wakeup_never_lost {events : Nat → TimerEvent} {ops : List TimerOp}
    (hrun : Run.EveryStep apply (fun w op => Timely w op ∧ AddsOnce w op) { timer := { events } }
      ops) : Run.EveryState apply WakesUp { timer := { events } } ops :=
  hrun.everyState (fun hinv hc => apply_armedInv hinv hc.2) (fun hinv => hinv.2)
    (start_armedInv events)

/-- Event `0` is repeated every second, event `1` comes once at `2005`. -/
def secondEvents : Nat → TimerEvent
  | 0 => { m_arrive_time := 1000, m_interval := 1000, m_is_repeated := true }
  | _ => { m_arrive_time := 2005 }

/-- A tick that runs the repeated event, and an event added behind it. -/
theorem wakeup_never_lost_tick :
    Run.EveryState apply WakesUp { timer := { events := secondEvents } }
    [.addTimerEvent 0 0, .onTimer fun _ => 1000, .addTimerEvent 1 1000] :=
  wakeup_never_lost ⟨⟨le_rfl, fun _ => List.not_mem_nil⟩, ⟨⟨by decide, fun _ => le_rfl⟩, trivial⟩,
    ⟨le_refl (1000 : Int), nofun⟩, trivial⟩

/-- The repeated event is added twice, and the clock goes on by `10` ms between its two
re-arms: its entries are at `2000` and `2010`, its arrive time is `2010`.  The event at `2005`
comes first, but the timerfd is set for the event of the front entry, to `2010`. -/
theorem twice_added_late : ¬ ∀ events ops, Run.EveryStep apply Timely { timer := { events } } ops →
    Run.EveryState apply WakesUp { timer := { events } } ops := by
  intro hall
  have hclock : ∀ n, (if n < 4 then (1000 : Int) else 1010) ≤ if n + 1 < 4 then 1000 else 1010 := by
    intro n
    split <;> split <;> omega
  have hlast := (hall secondEvents [.addTimerEvent 0 0, .addTimerEvent 0 0,
    .onTimer fun n => if n < 4 then 1000 else 1010, .addTimerEvent 1 1010]
    ⟨le_rfl, le_rfl, ⟨by decide, hclock⟩, le_refl (1010 : Int), trivial⟩).last
  obtain ⟨first, expiry, hfirst, harmed, hle⟩ := hlast (by decide +kernel)
  have hmem : first ≤ 2005 := hfirst.2 2005 (by decide +kernel)
  have hset : some (2010 : Int) = some expiry := Eq.trans (by decide +kernel) harmed
  have hexpiry := Option.some.inj hset
  have hat : expiry ≤ max first (1010 + 100) := hle
  omega

end TimerFd

end KaiRPC
