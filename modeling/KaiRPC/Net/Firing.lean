import Mathlib.Data.List.Nodup
import KaiRPC.Net.Pending

/-!
# Which callbacks a timer runs

Histories of a timer of `net/timer.cc`: events are added once, deleted at any time, and `onTimer`
is called with a clock that does not go back; its callbacks add and delete events between one
another.

* `Insertions` counts the insertions into the map, so that entries of one key have an order.
* `Tick` says what one `onTimer` does: it collects exactly the due events, in the order of their
  arrive times and insertions, and puts the repeated ones back.
* `onTimer_tick`: **it does so on every map the invariant holds of.**
* `Firing.step_inv`: each step keeps the invariant `Firing.Inv`.
* `timers_fire`: **along every history keys are arrive times, `onTimer` runs exactly the due
  events, a one-shot event runs at most once, and a repeated one that ran is pending once.**
-/

namespace KaiRPC

namespace Timer

/-- The number of insertions so far, and at which one an event went in last. -/
structure Insertions where
  seq : Nat → Nat := fun _ => 0
  count : Nat := 0

def Insertions.mark (g : Insertions) (event : Nat) : Insertions :=
  ⟨Function.update g.seq event g.count, g.count + 1⟩

/-- The entries are in the order of their keys, those of one key in the order of insertion. -/
structure Ordered (t : Timer) (g : Insertions) : Prop where
  entries : t.m_pending_events.Pairwise fun p q => p.1 < q.1 ∨ p.1 = q.1 ∧ g.seq p.2 < g.seq q.2
  seq_lt : ∀ p ∈ t.m_pending_events, g.seq p.2 < g.count

variable {t : Timer} {g : Insertions}

theorem Ordered.of_sublist {t' : Timer} (h : t.Ordered g)
    (hp : t'.m_pending_events.Sublist t.m_pending_events) : t'.Ordered g :=
  ⟨h.entries.sublist hp, fun p hmem => h.seq_lt p (hp.subset hmem)⟩

/-- **A new event goes in behind those of its arrive time.** -/
theorem addTimerEvent_ordered (hk : t.Keyed) (h : t.Ordered g) {event : Nat} (now : Int)
    (hnew : event ∉ t.pending) : (t.addTimerEvent event now).Ordered (g.mark event) := by
  have hne : ∀ p ∈ t.m_pending_events, (g.mark event).seq p.2 = g.seq p.2 := by
    intro p hmem
    have hdiff : p.2 ≠ event := fun he => hnew (he ▸ List.mem_map_of_mem hmem)
    exact Function.update_of_ne hdiff _ _
  have hself : (g.mark event).seq event = g.count := Function.update_self _ _ _
  have hp := (t.addTimerEvent_pending event now).1
  refine ⟨?_, ?_⟩
  · rw [hp]
    refine emplace_pairwise hk.sorted (h.entries.imp_of_mem ?_) ?_ ?_
    · intro p q hmem hmem' hpq
      rw [hne p hmem, hne q hmem']
      exact hpq
    · intro p hmem hle
      have hlt := h.seq_lt p hmem
      rw [hne p hmem, hself]
      omega
    · intro p _ hlt
      exact Or.inl hlt
  · intro p hmem
    rw [hp, mem_emplace] at hmem
    rcases hmem with rfl | hmem
    · rw [hself]
      exact Nat.lt_succ_self _
    · rw [hne p hmem]
      exact Nat.lt_succ_of_lt (h.seq_lt p hmem)

theorem setEvent_ordered (h : t.Ordered g) (event : Nat) (v : TimerEvent) :
    (t.setEvent event v).Ordered g := ⟨h.entries, h.seq_lt⟩

/-! ### The second loop of `onTimer` -/

/-- The insertions of the second loop: the repeated events, in order. -/
def repeatedOf (t : Timer) (tmps : List Nat) : List Nat :=
  tmps.filter fun event => (t.events event).m_is_repeated

theorem repeatedOf_of_sameKind {t' : Timer} (h : t.SameKind t') (tmps : List Nat) :
    t'.repeatedOf tmps = t.repeatedOf tmps :=
  List.filter_congr fun event _ => by rw [(h event).1]

theorem pending_rearmAll (tmps : List Nat) : ∀ (t : Timer) (clock : Nat → Int),
    (t.rearmAll tmps clock).pending.Perm (t.repeatedOf tmps ++ t.pending) := by
  induction tmps with
  | nil =>
    intro t clock
    rw [pending, rearmAll, (t.resetArriveTime_pending (clock 0)).1]
    exact .refl _
  | cons event tmps ih =>
    intro t clock
    have hrest := ih (t.rearm event (clock 0) (clock 1)) fun n => clock (n + 2)
    rw [repeatedOf_of_sameKind (t.rearm_sameKind event _ _)] at hrest
    refine hrest.trans ?_
    have hone := t.pending_rearm event (clock 0) (clock 1)
    rw [repeatedOf, repeatedOf, List.filter_cons]
    split
    · rename_i hr
      rw [if_pos hr] at hone
      exact (hone.append_left _).trans List.perm_middle
    · rename_i hr
      rw [if_neg hr] at hone
      exact hone.append_left _

theorem rearmAll_ordered (tmps : List Nat) : ∀ {t : Timer} {g : Insertions} (clock : Nat → Int),
    t.Keyed → t.Ordered g → (t.repeatedOf tmps ++ t.pending).Nodup →
    (t.rearmAll tmps clock).Ordered ((t.repeatedOf tmps).foldl Insertions.mark g) := by
  induction tmps with
  | nil =>
    intro t g clock _ h _
    have hp := (t.resetArriveTime_pending (clock 0)).1
    exact h.of_sublist (by rw [rearmAll, hp])
  | cons event tmps ih =>
    intro t g clock hk h hnd
    have hsame := repeatedOf_of_sameKind (t.rearm_sameKind event (clock 0) (clock 1)) tmps
    have hperm := t.pending_rearm event (clock 0) (clock 1)
    rw [rearmAll]
    rw [repeatedOf, List.filter_cons] at hnd ⊢
    split at hnd
    · rename_i hr
      rw [List.cons_append, List.nodup_cons] at hnd
      have hnew : event ∉ t.pending := fun hmem => hnd.1 (List.mem_append_right _ hmem)
      have hone : (t.rearm event (clock 0) (clock 1)).Ordered (g.mark event) := by
        rw [rearm, if_pos hr]
        exact addTimerEvent_ordered (setArriveTime_keyed hk hnew _) (setEvent_ordered h _ _) _ hnew
      rw [if_pos hr] at hperm ⊢
      have hnext := ih (fun n => clock (n + 2)) (rearm_keyed hk _ _ fun _ => hnew) hone ?_
      · rw [hsame] at hnext
        exact hnext
      · rw [hsame]
        refine ((hperm.append_left _).trans List.perm_middle).nodup_iff.mpr ?_
        exact List.nodup_cons.mpr hnd
    · rename_i hr
      rw [if_neg hr]
      have hone : t.rearm event (clock 0) (clock 1) = t := if_neg hr
      rw [hone]
      exact ih _ hk h hnd

theorem rearmAll_events_of_not_mem (tmps : List Nat) : ∀ {t : Timer} (clock : Nat → Int)
    {event : Nat}, event ∉ tmps → (t.rearmAll tmps clock).events event = t.events event := by
  induction tmps with
  | nil =>
    intro t clock event _
    rw [rearmAll, (t.resetArriveTime_pending (clock 0)).2]
  | cons other tmps ih =>
    intro t clock event hnot
    obtain ⟨hne, hrest⟩ := List.ne_and_not_mem_of_not_mem_cons hnot
    rw [rearmAll, ih _ hrest, rearm]
    split
    · rw [(addTimerEvent_pending _ other _).2, (t.setEvent_agree hne _).1]
    · rfl

/-- A repeated event is put back an interval after some reading of the loop. -/
theorem rearmAll_arrive (tmps : List Nat) : ∀ {t : Timer} (clock : Nat → Int) {event : Nat},
    tmps.Nodup → event ∈ tmps → (t.events event).m_is_repeated = true →
    ∃ n, ((t.rearmAll tmps clock).events event).m_arrive_time
      = clock n + (t.events event).m_interval := by
  induction tmps with
  | nil =>
    intro t clock event _ hmem
    cases hmem
  | cons other tmps ih =>
    intro t clock event hnd hmem hr
    obtain ⟨hnot, hnd⟩ := List.nodup_cons.mp hnd
    have hkind := t.rearm_sameKind other (clock 0) (clock 1) event
    rw [rearmAll]
    rcases List.mem_cons.mp hmem with rfl | hmem
    · refine ⟨0, ?_⟩
      rw [rearmAll_events_of_not_mem tmps _ hnot, rearm, if_pos hr,
        (addTimerEvent_pending _ event _).2]
      simp [setEvent, TimerEvent.resetArriveTime]
    · obtain ⟨n, hn⟩ := ih (fun n => clock (n + 2)) hnd hmem (hkind.1.trans hr)
      exact ⟨n + 2, by rw [hn, hkind.2]⟩

/-! ### One call of `onTimer` -/

/-- **What a tick does.**  `tasks` are the callbacks it runs, `t'` the timer it leaves to them. -/
structure Tick (t : Timer) (g : Insertions) (now : Int) (t' : Timer) (tasks : List Nat) : Prop where
  /-- Every due event once, and no other. -/
  nodup : tasks.Nodup
  due : ∀ event, event ∈ tasks ↔ event ∈ t.pending ∧ (t.events event).m_is_cancled = false ∧
    (t.events event).m_arrive_time ≤ now
  order : tasks.Pairwise fun e f => (t.events e).m_arrive_time < (t.events f).m_arrive_time ∨
    (t.events e).m_arrive_time = (t.events f).m_arrive_time ∧ g.seq e < g.seq f
  /-- The repeated ones are pending again. -/
  again : ∀ event ∈ tasks, (t.events event).m_is_repeated = true →
    t'.entries event = [((t'.events event).m_arrive_time, event)] ∧
      now + (t.events event).m_interval ≤ (t'.events event).m_arrive_time
  gone : ∀ event ∈ tasks, (t.events event).m_is_repeated = false → t'.entries event = []

theorem mem_pending_iff {event : Nat} (hk : t.Keyed) :
    event ∈ t.pending ↔ ((t.events event).m_arrive_time, event) ∈ t.m_pending_events := by
  constructor
  · intro h
    obtain ⟨p, hp, rfl⟩ := List.mem_map.mp h
    rw [← hk.keys p hp]
    exact hp
  · exact List.mem_map_of_mem

theorem entries_of_mem {event : Nat} (hk : t.Keyed) (hnd : t.pending.Nodup)
    (hmem : event ∈ t.pending) : t.entries event = [((t.events event).m_arrive_time, event)] := by
  obtain ⟨before, after, hsplit⟩ := List.append_of_mem ((mem_pending_iff hk).mp hmem)
  rw [pending, hsplit, List.map_append, List.map_cons, List.nodup_middle, List.nodup_cons,
    ← List.map_append] at hnd
  have hnone : ∀ p ∈ before ++ after, ¬ decide (p.2 = event) = true := by
    intro p hp he
    have hmap : p.2 ∈ (before ++ after).map Prod.snd := List.mem_map_of_mem hp
    rw [of_decide_eq_true he] at hmap
    exact hnd.1 hmap
  have hnil := List.filter_eq_nil_iff.mpr hnone
  rw [List.filter_append, List.append_eq_nil_iff] at hnil
  rw [entries, hsplit, List.filter_append, List.filter_cons_of_pos (by simp), hnil.1, hnil.2]
  rfl

theorem entries_of_not_mem {event : Nat} (h : event ∉ t.pending) : t.entries event = [] := by
  rw [entries, List.filter_eq_nil_iff]
  intro p hp he
  exact h ((of_decide_eq_true he) ▸ List.mem_map_of_mem hp)

theorem mem_collect_iff {now : Int} {event : Nat} (hk : t.Keyed) :
    event ∈ t.collect now ↔ event ∈ t.pending ∧ (t.events event).m_is_cancled = false ∧
      (t.events event).m_arrive_time ≤ now := by
  rw [mem_pending_iff hk, collect]
  constructor
  · intro h
    obtain ⟨p, hp, rfl⟩ := List.mem_map.mp h
    obtain ⟨hdue, hc⟩ := List.mem_filter.mp hp
    obtain ⟨hmem, hle⟩ := (mem_takeWhile_iff hk.sorted).mp hdue
    rw [← hk.keys p hmem]
    exact ⟨hmem, by simpa using hc, hle⟩
  · rintro ⟨hmem, hc, hle⟩
    have hdue := (mem_takeWhile_iff hk.sorted).mpr ⟨hmem, hle⟩
    exact List.mem_map_of_mem (List.mem_filter.mpr ⟨hdue, by simp [hc]⟩)

theorem collect_sublist (t : Timer) (now : Int) :
    ((t.due now).filter fun p => !(t.events p.2).m_is_cancled).Sublist t.m_pending_events :=
  List.filter_sublist.trans (List.takeWhile_sublist _)

theorem collect_nodup (hnd : t.pending.Nodup) (now : Int) : (t.collect now).Nodup :=
  hnd.sublist ((t.collect_sublist now).map Prod.snd)

/-- What a tick inserts and what it leaves in the map are different events. -/
theorem onTimer_nodup (hnd : t.pending.Nodup) (now : Int) :
    (t.repeatedOf (t.collect now) ++ (t.eraseDue now).pending).Nodup := by
  rw [List.nodup_iff_count_le_one]
  intro event
  have hle : (t.repeatedOf (t.collect now)).count event ≤ (t.collect now).count event :=
    List.filter_sublist.count_le event
  have hall := t.collect_count_le now event
  have hone := List.nodup_iff_count_le_one.mp hnd event
  rw [List.count_append]
  omega

theorem pending_onTimer (t : Timer) (clock : Nat → Int) : (t.onTimer clock).1.pending.Perm
    (t.repeatedOf (t.collect (clock 0)) ++ (t.eraseDue (clock 0)).pending) :=
  pending_rearmAll _ (t.eraseDue (clock 0)) _

theorem mem_pending_of_onTimer {clock : Nat → Int} {event : Nat}
    (h : event ∈ (t.onTimer clock).1.pending ∨ event ∈ (t.onTimer clock).2) :
    event ∈ t.pending := by
  have hmem : event ∈ t.collect (clock 0) ∨ event ∈ (t.eraseDue (clock 0)).pending := by
    rcases h with h | h
    · rcases List.mem_append.mp ((t.pending_onTimer clock).mem_iff.mp h) with h | h
      · exact Or.inl (List.mem_of_mem_filter h)
      · exact Or.inr h
    · exact Or.inl h
  have hle := t.collect_count_le (clock 0) event
  rw [← List.count_pos_iff, ← List.count_pos_iff] at hmem
  rw [← List.count_pos_iff]
  omega

theorem onTimer_count_le (clock : Nat → Int) {event : Nat}
    (hr : (t.events event).m_is_repeated = false) :
    (t.onTimer clock).1.pending.count event + (t.onTimer clock).2.count event
      ≤ t.pending.count event := by
  have hzero : (t.repeatedOf (t.collect (clock 0))).count event = 0 := by
    apply List.count_eq_zero_of_not_mem
    intro hmem
    rw [(List.mem_filter.mp hmem).2] at hr
    cases hr
  have hle := t.collect_count_le (clock 0) event
  have htasks : (t.onTimer clock).2 = t.collect (clock 0) := rfl
  rw [(t.pending_onTimer clock).count_eq, List.count_append, hzero, htasks]
  omega

/-- **A repeated event stays pending** unless it was cancelled. -/
theorem mem_pending_onTimer (hk : t.Keyed) (clock : Nat → Int) {event : Nat}
    (hin : event ∈ t.pending) (hr : (t.events event).m_is_repeated = true)
    (hc : (t.events event).m_is_cancled = false) : event ∈ (t.onTimer clock).1.pending := by
  refine (t.pending_onTimer clock).mem_iff.mpr (List.mem_append.mpr ?_)
  by_cases hdue : (t.events event).m_arrive_time ≤ clock 0
  · have hcoll := (mem_collect_iff hk).mpr ⟨hin, hc, hdue⟩
    exact Or.inl (List.mem_filter.mpr ⟨hcoll, hr⟩)
  · -- an entry beyond the bound is not walked over
    refine Or.inr ?_
    have hmap := (mem_pending_iff hk).mp hin
    rw [← List.takeWhile_append_dropWhile (p := fun p : Int × Nat => decide (p.1 ≤ clock 0))
      (l := t.m_pending_events)] at hmap
    rcases List.mem_append.mp hmap with hmap | hmap
    · exact absurd (le_of_mem_takeWhile hmap) hdue
    · exact List.mem_map_of_mem hmap

theorem onTimer_ordered (hk : t.Keyed) (h : t.Ordered g) (hnd : t.pending.Nodup)
    (clock : Nat → Int) : (t.onTimer clock).1.Ordered
      ((t.repeatedOf (t.collect (clock 0))).foldl Insertions.mark g) :=
  rearmAll_ordered _ _ (eraseDue_keyed hk _) (h.of_sublist (List.dropWhile_sublist _))
    (onTimer_nodup hnd _)

theorem le_clock {clock : Nat → Int} (hmono : ∀ n, clock n ≤ clock (n + 1)) (n : Nat) :
    clock 0 ≤ clock n := by
  induction n with
  | zero => exact Int.le_refl _
  | succ n ih => exact Int.le_trans ih (hmono n)

/-- **A tick of a timer whose map is in order.** -/
theorem onTimer_tick (hk : t.Keyed) (h : t.Ordered g) (hnd : t.pending.Nodup)
    {clock : Nat → Int} (hmono : ∀ n, clock n ≤ clock (n + 1)) :
    Tick t g (clock 0) (t.onTimer clock).1 (t.onTimer clock).2 := by
  have hk' := onTimer_keyed hk clock
  have hperm := t.pending_onTimer clock
  have hdis := onTimer_nodup hnd (clock 0)
  have hnd' := hperm.nodup_iff.mpr hdis
  refine ⟨collect_nodup hnd _, fun event => mem_collect_iff hk, ?_, ?_, ?_⟩
  · refine List.pairwise_map.mpr ((h.entries.sublist (t.collect_sublist _)).imp_of_mem ?_)
    intro p q hp hq hpq
    have hp' := (t.collect_sublist _).subset hp
    have hq' := (t.collect_sublist _).subset hq
    rw [← hk.keys p hp', ← hk.keys q hq']
    exact hpq
  · intro event hmem hr
    have hin : event ∈ (t.onTimer clock).1.pending :=
      hperm.mem_iff.mpr (List.mem_append_left _ (List.mem_filter.mpr ⟨hmem, hr⟩))
    obtain ⟨n, hn⟩ := rearmAll_arrive (t.collect (clock 0)) (t := t.eraseDue (clock 0))
      (fun n => clock (n + 1)) (collect_nodup hnd _) hmem hr
    have harrive : ((t.onTimer clock).1.events event).m_arrive_time
        = clock (n + 1) + (t.events event).m_interval := hn
    refine ⟨entries_of_mem hk' hnd' hin, ?_⟩
    have := le_clock hmono (n + 1)
    rw [harrive]
    omega
  · intro event hmem hr
    refine entries_of_not_mem fun hin => ?_
    rcases List.mem_append.mp (hperm.mem_iff.mp hin) with hin | hin
    · rw [(List.mem_filter.mp hin).2] at hr
      cases hr
    · -- it was collected, so its one entry is gone
      have hall := t.collect_count_le (clock 0) event
      have hone := List.nodup_iff_count_le_one.mp hnd event
      have h1 := List.count_pos_iff.mpr hmem
      have h2 := List.count_pos_iff.mpr hin
      have h1' : 0 < (t.collect (clock 0)).count event := h1
      omega

end Timer

/-! ### Histories -/

/-- A timer with what it has done: `todo` are the collected callbacks that have not started,
`started` those that have, `added` the events that were ever added. -/
structure Firing where
  timer : Timer
  todo : List Nat := []
  started : List Nat := []
  added : List Nat := []
  now : Int := 0
  insertions : Timer.Insertions := {}

namespace Firing

/-- `onTimer` is not called from its own callbacks. -/
def step (w : Firing) : TickOp → Option Firing
  | .addTimerEvent event now => some { w with
      timer := w.timer.addTimerEvent event now
      added := event :: w.added
      now := now
      insertions := w.insertions.mark event }
  | .deleteTimerEvent event => some { w with timer := w.timer.deleteTimerEvent event }
  | .onTimer clock =>
      if w.todo = [] then
        let r := w.timer.onTimer clock
        some { w with
          timer := r.1
          todo := r.2
          now := clock (2 * r.2.length + 1)
          insertions := (w.timer.repeatedOf r.2).foldl Timer.Insertions.mark w.insertions }
      else none
  | .startNext =>
      match w.todo with
      | [] => none
      | event :: todo => some { w with todo, started := w.started ++ [event] }

/-- An added event is fresh, and the clock does not go back. -/
def Allowed (w : Firing) : TickOp → Prop
  | .addTimerEvent event now => event ∉ w.added ∧ w.now ≤ now
  | .onTimer clock => w.now ≤ clock 0 ∧ ∀ n, clock n ≤ clock (n + 1)
  | _ => True

def Runs (w : Firing) (ops : List TickOp) (w' : Firing) : Prop :=
  Run (fun w op w' => Allowed w op ∧ step w op = some w') w ops w'

structure Inv (w : Firing) : Prop where
  keyed : w.timer.Keyed
  once : w.timer.pending.Nodup
  ordered : w.timer.Ordered w.insertions
  known : ∀ event, event ∈ w.timer.pending ++ w.todo ++ w.started → event ∈ w.added
  oneShot : ∀ event, (w.timer.events event).m_is_repeated = false →
    (w.timer.pending ++ w.todo ++ w.started).count event ≤ 1
  live : ∀ event ∈ w.added, (w.timer.events event).m_is_repeated = true →
    (w.timer.events event).m_is_cancled = false → event ∈ w.timer.pending

theorem start_inv (events : Nat → TimerEvent) : Inv { timer := { events } } where
  keyed := ⟨.nil, nofun, fun _ _ => Nat.zero_le 1⟩
  once := .nil
  ordered := ⟨.nil, nofun⟩
  known := nofun
  oneShot := fun _ _ => Nat.zero_le 1
  live := nofun

theorem add_inv {w : Firing} (h : w.Inv) {event : Nat} (now : Int) (hfresh : event ∉ w.added) :
    Inv { w with
      timer := w.timer.addTimerEvent event now
      added := event :: w.added
      now := now
      insertions := w.insertions.mark event } := by
  have hperm := w.timer.pending_addTimerEvent event now
  have he := (w.timer.addTimerEvent_pending event now).2
  have hnone : event ∉ w.timer.pending ++ w.todo ++ w.started :=
    fun hmem => hfresh (h.known event hmem)
  have hnew : event ∉ w.timer.pending :=
    fun hmem => hnone (List.mem_append_left _ (List.mem_append_left _ hmem))
  have hperm' : ((w.timer.addTimerEvent event now).pending ++ w.todo ++ w.started).Perm
      (event :: (w.timer.pending ++ w.todo ++ w.started)) :=
    (hperm.append_right w.todo).append_right w.started
  refine ⟨Timer.addTimerEvent_keyed h.keyed now fun _ => hnew,
    hperm.nodup_iff.mpr (List.nodup_cons.mpr ⟨hnew, h.once⟩),
    Timer.addTimerEvent_ordered h.keyed h.ordered now hnew, ?_, ?_, ?_⟩
  · intro other hmem
    rcases List.mem_cons.mp (hperm'.mem_iff.mp hmem) with rfl | hmem
    · exact List.mem_cons_self
    · exact List.mem_cons_of_mem _ (h.known other hmem)
  · intro other hr
    dsimp only at hr ⊢
    rw [he] at hr
    rw [hperm'.count_eq, List.count_cons]
    by_cases hne : event = other
    · subst hne
      rw [List.count_eq_zero_of_not_mem hnone]
      simp
    · simpa [hne] using h.oneShot other hr
  · intro other hmem hr hc
    dsimp only at hr hc ⊢
    rw [he] at hr hc
    rcases List.mem_cons.mp hmem with rfl | hmem
    · exact hperm.mem_iff.mpr List.mem_cons_self
    · exact hperm.mem_iff.mpr (List.mem_cons_of_mem _ (h.live other hmem hr hc))

theorem delete_inv {w : Firing} (h : w.Inv) (event : Nat) :
    Inv { w with timer := w.timer.deleteTimerEvent event } := by
  have hkind := w.timer.deleteTimerEvent_sameKind event
  have hsub : (w.timer.deleteTimerEvent event).m_pending_events.Sublist
      w.timer.m_pending_events := List.eraseP_sublist
  have hsub' : (w.timer.deleteTimerEvent event).pending.Sublist w.timer.pending :=
    hsub.map Prod.snd
  have hall : ((w.timer.deleteTimerEvent event).pending ++ w.todo ++ w.started).Sublist
      (w.timer.pending ++ w.todo ++ w.started) :=
    (hsub'.append_right w.todo).append_right w.started
  refine ⟨Timer.deleteTimerEvent_keyed h.keyed event, h.once.sublist hsub',
    h.ordered.of_sublist hsub, ?_, ?_, ?_⟩
  · intro other hmem
    exact h.known other (hall.subset hmem)
  · intro other hr
    dsimp only at hr
    rw [(hkind other).1] at hr
    exact le_trans (hall.count_le other) (h.oneShot other hr)
  · intro other hmem hr hc
    dsimp only at hr hc ⊢
    have hne : other ≠ event := by
      rintro rfl
      rw [w.timer.deleteTimerEvent_cancled other] at hc
      cases hc
    obtain ⟨he, hentries⟩ := w.timer.deleteTimerEvent_agree hne
    rw [he] at hr hc
    have hpend := Timer.entries_of_mem h.keyed h.once (h.live other hmem hr hc)
    by_contra hnot
    rw [Timer.entries_of_not_mem hnot, hpend] at hentries
    cases hentries

theorem tick_inv {w : Firing} (h : w.Inv) (htodo : w.todo = []) (clock : Nat → Int)
    (now : Int) : Inv { w with
      timer := (w.timer.onTimer clock).1
      todo := (w.timer.onTimer clock).2
      now := now
      insertions := (w.timer.repeatedOf (w.timer.onTimer clock).2).foldl Timer.Insertions.mark
        w.insertions } := by
  have hkind := w.timer.onTimer_sameKind clock
  refine ⟨Timer.onTimer_keyed h.keyed clock,
    (w.timer.pending_onTimer clock).nodup_iff.mpr (Timer.onTimer_nodup h.once (clock 0)),
    Timer.onTimer_ordered h.keyed h.ordered h.once clock, ?_, ?_, ?_⟩
  · intro event hmem
    refine h.known event ?_
    rw [htodo, List.append_nil]
    rcases List.mem_append.mp hmem with hmem | hmem
    · exact List.mem_append_left _ (Timer.mem_pending_of_onTimer (List.mem_append.mp hmem))
    · exact List.mem_append_right _ hmem
  · intro event hr
    dsimp only at hr ⊢
    rw [(hkind event).1] at hr
    have hone := h.oneShot event hr
    have hle := Timer.onTimer_count_le clock hr
    rw [htodo, List.append_nil, List.count_append] at hone
    rw [List.count_append, List.count_append]
    omega
  · intro event hmem hr hc
    dsimp only at hr hc ⊢
    rw [(hkind event).1] at hr
    have hc' : (w.timer.events event).m_is_cancled = false := by
      rw [← Bool.not_eq_true]
      intro hcan
      rw [w.timer.onTimer_keeps clock event hcan] at hc
      cases hc
    exact Timer.mem_pending_onTimer h.keyed clock (h.live event hmem hr hc') hr hc'

theorem startNext_inv {w : Firing} (h : w.Inv) {event : Nat} {todo : List Nat}
    (htodo : w.todo = event :: todo) :
    Inv { w with todo, started := w.started ++ [event] } := by
  have hperm : (w.timer.pending ++ todo ++ (w.started ++ [event])).Perm
      (w.timer.pending ++ w.todo ++ w.started) := by
    rw [htodo, List.append_assoc, List.append_assoc]
    refine List.Perm.append_left _ ?_
    rw [← List.append_assoc, List.cons_append]
    exact List.perm_append_singleton event _
  refine ⟨h.keyed, h.once, h.ordered, ?_, ?_, h.live⟩
  · intro other hmem
    exact h.known other (hperm.mem_iff.mp hmem)
  · intro other hr
    rw [hperm.count_eq]
    exact h.oneShot other hr

theorem step_inv {w w' : Firing} {op : TickOp} (h : w.Inv)
    (hs : w.Allowed op ∧ w.step op = some w') : w'.Inv := by
  obtain ⟨hallowed, hstep⟩ := hs
  cases op with
  | addTimerEvent event now =>
    cases hstep
    exact add_inv h now hallowed.1
  | deleteTimerEvent event =>
    cases hstep
    exact delete_inv h event
  | onTimer clock =>
    obtain ⟨htodo, hstep⟩ := Option.ite_none_right_eq_some.mp hstep
    cases hstep
    exact tick_inv h htodo clock _
  | startNext =>
    dsimp only [step] at hstep
    split at hstep
    · cases hstep
    · rename_i event todo htodo
      cases hstep
      exact startNext_inv h htodo

def IsOnTimer : TickOp → Prop
  | .onTimer _ => True
  | _ => False

theorem step_tasks {w w' : Firing} {op : TickOp} (hop : ¬ IsOnTimer op)
    (hs : w.step op = some w') : w'.started ++ w'.todo = w.started ++ w.todo := by
  cases op with
  | addTimerEvent event now => cases hs; rfl
  | deleteTimerEvent event => cases hs; rfl
  | onTimer clock => exact absurd trivial hop
  | startNext =>
    dsimp only [step] at hs
    split at hs
    · cases hs
    · rename_i event todo htodo
      cases hs
      rw [htodo, List.append_assoc]
      rfl

theorem runs_tasks {w w' : Firing} {ops : List TickOp} (hrun : Runs w ops w')
    (hops : ∀ op ∈ ops, ¬ IsOnTimer op) : w'.started ++ w'.todo = w.started ++ w.todo := by
  induction hrun with
  | nil w => rfl
  | cons hs _ ih =>
    obtain ⟨hop, hrest⟩ := List.forall_mem_cons.mp hops
    exact (ih hrest).trans (step_tasks hop hs.2)

/-- The callbacks of a tick are started in order, each once, before the next tick. -/
theorem runs_onTimer {w w' : Firing} {clock : Nat → Int} {ops : List TickOp}
    (hrun : Runs w (.onTimer clock :: ops) w') (hops : ∀ op ∈ ops, ¬ IsOnTimer op) :
    w'.started ++ w'.todo = w.started ++ (w.timer.onTimer clock).2 := by
  cases hrun with
  | cons hs hrest =>
    obtain ⟨-, hstep⟩ := Option.ite_none_right_eq_some.mp hs.2
    cases hstep
    exact runs_tasks hrest hops

/-- **Timers are neither lost nor duplicated.**  Along every history: the key of an entry is the
arrive time of its event; a call of `onTimer` runs exactly the due events, once and in order, and
puts the repeated ones back (`Timer.Tick`), its callbacks adding and deleting what they like;
a one-shot event is started at most once; and a repeated one that was started and not cancelled
is pending exactly once. -/
theorem timers_fire {events : Nat → TimerEvent} {ops : List TickOp} {w : Firing}
    (hrun : Runs { timer := { events } } ops w) :
    (∀ p ∈ w.timer.m_pending_events, p.1 = (w.timer.events p.2).m_arrive_time) ∧
    (∀ clock, w.todo = [] → w.Allowed (.onTimer clock) →
      Timer.Tick w.timer w.insertions (clock 0) (w.timer.onTimer clock).1
        (w.timer.onTimer clock).2 ∧
      ∀ ops' w', Runs w (.onTimer clock :: ops') w' → (∀ op ∈ ops', ¬ IsOnTimer op) →
        w'.started ++ w'.todo = w.started ++ (w.timer.onTimer clock).2) ∧
    (∀ event, (w.timer.events event).m_is_repeated = false → w.started.count event ≤ 1) ∧
    ∀ event ∈ w.started, (w.timer.events event).m_is_repeated = true →
      (w.timer.events event).m_is_cancled = false →
      w.timer.entries event = [((w.timer.events event).m_arrive_time, event)] := by
  have h := hrun.invariant (I := Inv) step_inv (start_inv events)
  refine ⟨h.keyed.keys, ?_, ?_, ?_⟩
  · intro clock htodo hallowed
    refine ⟨Timer.onTimer_tick h.keyed h.ordered h.once hallowed.2, ?_⟩
    intro ops' w' hrun' hops
    exact runs_onTimer hrun' hops
  · intro event hr
    have hone := h.oneShot event hr
    rw [List.count_append] at hone
    omega
  · intro event hmem hr hc
    have hadded := h.known event (List.mem_append_right _ hmem)
    exact Timer.entries_of_mem h.keyed h.once (h.live event hadded hr hc)

/-- All events arrive at `10`, event `0` every `5` ms. -/
def fiveEvents (event : Nat) : TimerEvent :=
  { m_arrive_time := 10, m_interval := 5, m_is_repeated := event = 0 }

/-- Two events due in one tick: the repeated one is started first and pending again. -/
theorem timers_fire_two : ∃ w : Firing, w.started = [0, 1] ∧ w.timer.entries 0 = [(15, 0)] ∧
    ∀ p ∈ w.timer.m_pending_events, p.1 = (w.timer.events p.2).m_arrive_time :=
  have hrun : Runs { timer := { events := fiveEvents } } [.addTimerEvent 0 0, .addTimerEvent 1 0,
      .onTimer fun _ => 10, .startNext, .startNext] _ :=
    .cons ⟨⟨List.not_mem_nil, Int.le_refl 0⟩, rfl⟩
      (.cons ⟨⟨by simp, Int.le_refl 0⟩, rfl⟩
        (.cons ⟨⟨by decide, fun _ => Int.le_refl 10⟩, rfl⟩
          (.cons ⟨trivial, rfl⟩ (.cons ⟨trivial, rfl⟩ (.nil _)))))
  ⟨_, by decide +kernel, by decide +kernel, (timers_fire hrun).1⟩

end Firing

end KaiRPC
