import Mathlib.Data.List.TakeWhile
import Mathlib.Data.List.Count
import KaiRPC.Net.OnTimer

/-!
# The pending events of a timer

The multimap of `net/timer.cc` has the arrive time of an event twice: as the key of its entry
and in the event itself.  `deleteTimerEvent` looks an entry up by the one, `onTimer` collects by
the other, and only a repeated event that is run changes its own.

* `emplace_pairwise`: an insertion keeps any order that puts the new entry behind the entries up
  to its key and before the others.
* `Keyed`: the entries are sorted, each key is the arrive time of its event, and a repeated event
  has at most one entry.
* `addTimerEvent_keyed`, `deleteTimerEvent_keyed`, `onTimer_keyed`: **every operation keeps the
  two copies of an arrive time equal**, as long as no repeated event is added while it is pending.
-/

namespace KaiRPC

namespace Timer

/-! ### Insertion -/

theorem emplace_perm (key : Int) (event : Nat) (l : List (Int × Nat)) :
    (emplace key event l).Perm ((key, event) :: l) := by
  have hsplit : (l.takeWhile fun p => decide (p.1 ≤ key)) ++
      (l.dropWhile fun p => decide (p.1 ≤ key)) = l := List.takeWhile_append_dropWhile
  have h : (emplace key event l).Perm ((key, event) ::
      ((l.takeWhile fun p => decide (p.1 ≤ key)) ++
        (l.dropWhile fun p => decide (p.1 ≤ key)))) := List.perm_middle
  rwa [hsplit] at h

theorem mem_emplace {key : Int} {event : Nat} {l : List (Int × Nat)} {p : Int × Nat} :
    p ∈ emplace key event l ↔ p = (key, event) ∨ p ∈ l := by
  rw [(emplace_perm key event l).mem_iff, List.mem_cons]

theorem lt_of_mem_dropWhile {key : Int} {l : List (Int × Nat)} {p : Int × Nat}
    (hs : l.Pairwise fun p q => p.1 ≤ q.1)
    (hp : p ∈ l.dropWhile fun p => decide (p.1 ≤ key)) : key < p.1 := by
  induction l with
  | nil => cases hp
  | cons q l ih =>
    obtain ⟨hq, hl⟩ := List.pairwise_cons.mp hs
    rw [List.dropWhile_cons] at hp
    split at hp
    · exact ih hl hp
    · rename_i hgt
      have hgt' : key < q.1 := by simpa using hgt
      rcases List.mem_cons.mp hp with rfl | hp
      · exact hgt'
      · exact Int.lt_of_lt_of_le hgt' (hq p hp)

theorem le_of_mem_takeWhile {key : Int} {l : List (Int × Nat)} {p : Int × Nat}
    (hp : p ∈ l.takeWhile fun p => decide (p.1 ≤ key)) : p.1 ≤ key := by
  simpa using List.mem_takeWhile_imp hp

theorem mem_takeWhile_iff {key : Int} {l : List (Int × Nat)} {p : Int × Nat}
    (hs : l.Pairwise fun p q => p.1 ≤ q.1) :
    (p ∈ l.takeWhile fun p => decide (p.1 ≤ key)) ↔ p ∈ l ∧ p.1 ≤ key := by
  constructor
  · intro hp
    exact ⟨List.takeWhile_subset _ hp, le_of_mem_takeWhile hp⟩
  · rintro ⟨hp, hle⟩
    rw [← List.takeWhile_append_dropWhile (p := fun p => decide (p.1 ≤ key)) (l := l)] at hp
    rcases List.mem_append.mp hp with hp | hp
    · exact hp
    · have := lt_of_mem_dropWhile hs hp
      omega

/-- **Insertion keeps an order** that the new entry fits into at its place. -/
theorem emplace_pairwise {key : Int} {event : Nat} {l : List (Int × Nat)}
    {r : Int × Nat → Int × Nat → Prop} (hs : l.Pairwise fun p q => p.1 ≤ q.1) (hr : l.Pairwise r)
    (hbefore : ∀ p ∈ l, p.1 ≤ key → r p (key, event))
    (hbehind : ∀ p ∈ l, key < p.1 → r (key, event) p) : (emplace key event l).Pairwise r := by
  have hsplit := hr
  rw [← List.takeWhile_append_dropWhile (p := fun p => decide (p.1 ≤ key)) (l := l),
    List.pairwise_append] at hsplit
  obtain ⟨h1, h2, h3⟩ := hsplit
  refine List.pairwise_append.mpr ⟨h1, List.pairwise_cons.mpr ⟨?_, h2⟩, ?_⟩
  · intro p hp
    exact hbehind p (List.dropWhile_subset _ hp) (lt_of_mem_dropWhile hs hp)
  · intro p hp q hq
    rcases List.mem_cons.mp hq with rfl | hq
    · exact hbefore p (List.takeWhile_subset _ hp) (le_of_mem_takeWhile hp)
    · exact h3 p hp q hq

/-! ### The invariant of the map -/

/-- The events of the entries, in order. -/
def pending (t : Timer) : List Nat := t.m_pending_events.map Prod.snd

structure Keyed (t : Timer) : Prop where
  sorted : t.m_pending_events.Pairwise fun p q => p.1 ≤ q.1
  keys : ∀ p ∈ t.m_pending_events, p.1 = (t.events p.2).m_arrive_time
  single : ∀ event, (t.events event).m_is_repeated = true → t.pending.count event ≤ 1

/-- What no operation changes of an event. -/
def SameKind (t t' : Timer) : Prop :=
  ∀ event, (t'.events event).m_is_repeated = (t.events event).m_is_repeated ∧
    (t'.events event).m_interval = (t.events event).m_interval

theorem SameKind.refl (t : Timer) : t.SameKind t := fun _ => ⟨rfl, rfl⟩

theorem SameKind.of_events {t t' : Timer} (h : t'.events = t.events) : t.SameKind t' := by
  intro event
  rw [h]
  exact ⟨rfl, rfl⟩

theorem SameKind.trans {t t' t'' : Timer} (h : t.SameKind t') (h' : t'.SameKind t'') :
    t.SameKind t'' := fun event =>
  ⟨(h' event).1.trans (h event).1, (h' event).2.trans (h event).2⟩

theorem setEvent_sameKind (t : Timer) (event : Nat) (v : TimerEvent)
    (hr : v.m_is_repeated = (t.events event).m_is_repeated)
    (hi : v.m_interval = (t.events event).m_interval) : t.SameKind (t.setEvent event v) := by
  intro other
  by_cases he : other = event
  · subst he
    simp [setEvent, hr, hi]
  · rw [(t.setEvent_agree he v).1]
    exact ⟨rfl, rfl⟩

theorem deleteTimerEvent_sameKind (t : Timer) (event : Nat) :
    t.SameKind (t.deleteTimerEvent event) :=
  (t.setEvent_sameKind event { t.events event with m_is_cancled := true } rfl rfl).trans
    (.of_events rfl)

theorem rearm_sameKind (t : Timer) (event : Nat) (reading now : Int) :
    t.SameKind (t.rearm event reading now) := by
  rw [rearm]
  split
  · exact (t.setEvent_sameKind event ((t.events event).resetArriveTime reading) rfl rfl).trans
      (.of_events (addTimerEvent_pending _ event now).2)
  · exact .refl t

theorem rearmAll_sameKind (tmps : List Nat) : ∀ (t : Timer) (clock : Nat → Int),
    t.SameKind (t.rearmAll tmps clock) := by
  induction tmps with
  | nil =>
    intro t clock
    exact .of_events (t.resetArriveTime_pending (clock 0)).2
  | cons event tmps ih =>
    intro t clock
    exact (t.rearm_sameKind event _ _).trans (ih _ _)

theorem onTimer_sameKind (t : Timer) (clock : Nat → Int) : t.SameKind (t.onTimer clock).1 :=
  rearmAll_sameKind _ (t.eraseDue (clock 0)) _

/-! ### Each operation keeps it -/

/-- The invariant only looks at the entries, the arrive times and the kinds. -/
theorem Keyed.of_eq {t t' : Timer} (h : t.Keyed) (hp : t'.m_pending_events = t.m_pending_events)
    (he : t'.events = t.events) : t'.Keyed := by
  refine ⟨?_, ?_, ?_⟩
  · rw [hp]
    exact h.sorted
  · rw [hp, he]
    exact h.keys
  · rw [pending, hp, he]
    exact h.single

theorem Keyed.of_sublist {t t' : Timer} (h : t.Keyed)
    (hp : t'.m_pending_events.Sublist t.m_pending_events)
    (ha : ∀ event, (t'.events event).m_arrive_time = (t.events event).m_arrive_time)
    (hk : t.SameKind t') : t'.Keyed := by
  refine ⟨h.sorted.sublist hp, ?_, ?_⟩
  · intro p hmem
    rw [ha]
    exact h.keys p (hp.subset hmem)
  · intro event hr
    rw [(hk event).1] at hr
    exact le_trans ((hp.map Prod.snd).count_le event) (h.single event hr)

theorem eraseDue_keyed {t : Timer} (h : t.Keyed) (now : Int) : (t.eraseDue now).Keyed :=
  h.of_sublist (List.dropWhile_sublist _) (fun _ => rfl) (.refl t)

theorem deleteTimerEvent_arrive (t : Timer) (event other : Nat) :
    ((t.deleteTimerEvent event).events other).m_arrive_time
      = (t.events other).m_arrive_time := by
  by_cases he : other = event
  · subst he
    simp [deleteTimerEvent, setCancled, setEvent]
  · rw [(t.deleteTimerEvent_agree he).1]

theorem deleteTimerEvent_keyed {t : Timer} (h : t.Keyed) (event : Nat) :
    (t.deleteTimerEvent event).Keyed :=
  h.of_sublist List.eraseP_sublist (t.deleteTimerEvent_arrive event)
    (t.deleteTimerEvent_sameKind event)

theorem pending_addTimerEvent (t : Timer) (event : Nat) (now : Int) :
    (t.addTimerEvent event now).pending.Perm (event :: t.pending) := by
  rw [pending, (t.addTimerEvent_pending event now).1]
  exact (emplace_perm _ event _).map Prod.snd

theorem addTimerEvent_keyed {t : Timer} (h : t.Keyed) {event : Nat} (now : Int)
    (hnew : (t.events event).m_is_repeated = true → event ∉ t.pending) :
    (t.addTimerEvent event now).Keyed := by
  obtain ⟨hp, he⟩ := t.addTimerEvent_pending event now
  refine ⟨?_, ?_, ?_⟩
  · rw [hp]
    exact emplace_pairwise h.sorted h.sorted (fun _ _ hle => hle) fun _ _ hlt => Int.le_of_lt hlt
  · intro p hmem
    rw [hp, mem_emplace] at hmem
    rw [he]
    rcases hmem with rfl | hmem
    · rfl
    · exact h.keys p hmem
  · intro other hr
    rw [he] at hr
    rw [(t.pending_addTimerEvent event now).count_eq, List.count_cons]
    by_cases hne : event = other
    · subst hne
      rw [List.count_eq_zero_of_not_mem (hnew hr)]
      simp
    · simpa [hne] using h.single other hr

theorem pending_rearm (t : Timer) (event : Nat) (reading now : Int) :
    (t.rearm event reading now).pending.Perm
      (if (t.events event).m_is_repeated then event :: t.pending else t.pending) := by
  rw [rearm]
  split
  · exact pending_addTimerEvent _ event now
  · exact .refl _

theorem setArriveTime_keyed {t : Timer} (h : t.Keyed) {event : Nat} (hnew : event ∉ t.pending)
    (reading : Int) : (t.setEvent event ((t.events event).resetArriveTime reading)).Keyed := by
  have hkind := t.setEvent_sameKind event ((t.events event).resetArriveTime reading) rfl rfl
  refine ⟨h.sorted, ?_, ?_⟩
  · intro p hmem
    have hne : p.2 ≠ event := fun he => hnew (he ▸ List.mem_map_of_mem hmem)
    rw [(t.setEvent_agree hne _).1]
    exact h.keys p hmem
  · intro other hr'
    rw [(hkind other).1] at hr'
    exact h.single other hr'

theorem rearm_keyed {t : Timer} (h : t.Keyed) {event : Nat} (reading now : Int)
    (hnew : (t.events event).m_is_repeated = true → event ∉ t.pending) :
    (t.rearm event reading now).Keyed := by
  rw [rearm]
  split
  · rename_i hr
    exact addTimerEvent_keyed (setArriveTime_keyed h (hnew hr) reading) now fun _ => hnew hr
  · exact h

/-- **The second loop of `onTimer`** re-arms events that have no entry, each once. -/
theorem rearmAll_keyed (tmps : List Nat) : ∀ {t : Timer} (clock : Nat → Int), t.Keyed →
    (∀ event, (t.events event).m_is_repeated = true →
      tmps.count event + t.pending.count event ≤ 1) → (t.rearmAll tmps clock).Keyed := by
  induction tmps with
  | nil =>
    intro t clock h _
    obtain ⟨hp, he⟩ := t.resetArriveTime_pending (clock 0)
    exact h.of_eq hp he
  | cons event tmps ih =>
    intro t clock h hcount
    have hnew : (t.events event).m_is_repeated = true → event ∉ t.pending := by
      intro hr hmem
      have h1 := hcount event hr
      have h2 := List.count_pos_iff.mpr hmem
      rw [List.count_cons_self] at h1
      omega
    refine ih _ (rearm_keyed h _ _ hnew) ?_
    intro other hr
    rw [(t.rearm_sameKind event _ _ other).1] at hr
    have hle := hcount other hr
    rw [(t.pending_rearm event _ _).count_eq]
    rw [List.count_cons] at hle
    by_cases hne : event = other
    · subst hne
      rw [if_pos hr, List.count_cons_self]
      simp only [beq_self_eq_true, if_true] at hle
      omega
    · have hsame : (if (t.events event).m_is_repeated then event :: t.pending
          else t.pending).count other = t.pending.count other := by
        split
        · rw [List.count_cons_of_ne hne]
        · rfl
      rw [hsame]
      simp only [beq_iff_eq, hne, if_false] at hle
      omega

theorem collect_count_le (t : Timer) (now : Int) (event : Nat) :
    (t.collect now).count event + (t.eraseDue now).pending.count event ≤ t.pending.count event := by
  have hsub : ((t.due now).filter fun p => !(t.events p.2).m_is_cancled).Sublist (t.due now) :=
    List.filter_sublist
  have hle := (hsub.map Prod.snd).count_le event
  have hsplit : t.pending.count event = ((t.due now).map Prod.snd).count event
      + (t.eraseDue now).pending.count event := by
    rw [← List.count_append, pending, pending, eraseDue, due, ← List.map_append,
      List.takeWhile_append_dropWhile]
  rw [hsplit]
  exact Nat.add_le_add_right hle _

theorem onTimer_keyed {t : Timer} (h : t.Keyed) (clock : Nat → Int) :
    (t.onTimer clock).1.Keyed := by
  refine rearmAll_keyed _ _ (eraseDue_keyed h _) ?_
  intro event hr
  exact le_trans (t.collect_count_le (clock 0) event) (h.single event hr)

end Timer

end KaiRPC
