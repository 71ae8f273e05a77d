import KaiRPC.Net.ThreadGroup

/-!
# The end of a thread group

`Net.ThreadGroup` says in which order a group is torn down; here the owner does not get stuck in
it.  A call of the owner blocks in two places: the constructor waits for `Main` to build the loop,
and `join` waits for `Main` to end, which it does if the loop was stopped and the thread started.

* `Status`: what the owner has made of a thread, and which call may follow (`Status.next`).  The
  life of a server keeps to it (`serverLife_follows`): **every join is behind a stop**.
* `Inside`: where the owner is with a thread.
* `group_finishes`: **the owner can always finish**, from every state of every run in which no
  client is constructed on a thread after its stop.
-/

namespace KaiRPC

/-- What the owner has made of a thread. -/
inductive Status
  | absent
  | live (stopped : Bool)
  | dead
deriving DecidableEq, Repr

namespace Status

def call : Status → LifeCall → Option Status
  | .live stopped, .start => some (.live stopped)
  | .live _, .stop => some (.live true)
  | .live true, .join => some (.live true)
  | .live _, .destroy => some .dead
  | _, _ => none

/-- The calls that may be made of the threads in a state. -/
def next (σ : Nat → Status) : GroupCall → Option (Nat → Status)
  | .construct i => if σ i = .absent then some (Function.update σ i (.live false)) else none
  | .call i c => ((σ i).call c).map (Function.update σ i)
  | .clear => some σ

theorem foldlM_next {f : Nat → GroupCall} {s s' : Status}
    (hf : ∀ (σ : Nat → Status) (i : Nat), σ i = s → next σ (f i) = some (Function.update σ i s'))
    (n : Nat) (σ : Nat → Status) (hσ : ∀ i, i < n → σ i = s) :
    ((List.range n).map f).foldlM next σ = some fun i => if i < n then s' else σ i := by
  induction n with
  | zero => rfl
  | succ n ih =>
    rw [List.range_succ, List.map_append, List.foldlM_append,
      ih fun i hi => hσ i (Nat.lt_succ_of_lt hi)]
    show (next _ (f n) >>= fun σ => some σ) = _
    rw [hf _ n ((if_neg (Nat.lt_irrefl n)).trans (hσ n (Nat.lt_succ_self n)))]
    show some _ = some _
    congr 1
    funext i
    rcases Nat.lt_trichotomy i n with hlt | rfl | hgt
    · rw [Function.update_of_ne hlt.ne, if_pos hlt, if_pos (Nat.lt_succ_of_lt hlt)]
    · rw [Function.update_self, if_pos (Nat.lt_succ_self i)]
    · rw [Function.update_of_ne hgt.ne', if_neg (by omega), if_neg (by omega)]

end Status

namespace ThreadGroup

/-- The calls of a program may follow one another. -/
def Follows (program : List GroupCall) (σ : Nat → Status) : Prop :=
  (program.foldlM Status.next σ).isSome = true

/-- The first `n` threads are in a state, the others do not exist. -/
def upTo (n : Nat) (s : Status) : Nat → Status := fun i => if i < n then s else .absent

theorem follows_each {n : Nat} {f : Nat → GroupCall} {s s' : Status} {program : List GroupCall}
    (hf : ∀ (σ : Nat → Status) (i : Nat), σ i = s →
      Status.next σ (f i) = some (Function.update σ i s'))
    (h : Follows program (upTo n s')) : Follows ((List.range n).map f ++ program) (upTo n s) := by
  have hup : (fun i => if i < n then s' else upTo n s i) = upTo n s' := by
    funext i
    unfold upTo
    split <;> rfl
  unfold Follows
  rw [List.foldlM_append, Status.foldlM_next hf n (upTo n s) fun i hi => if_pos hi, hup]
  exact h

theorem follows_calls {n : Nat} {c : LifeCall} {s s' : Status} {program : List GroupCall}
    (hc : s.call c = some s') (h : Follows program (upTo n s')) :
    Follows (each n c ++ program) (upTo n s) := by
  refine follows_each (fun σ i hi => ?_) h
  show ((σ i).call c).map _ = _
  rw [hi, hc]
  rfl

/-- **The life of a server keeps to the order.** -/
theorem serverLife_follows (n : Nat) (started : Bool) :
    Follows (serverLife n started) (fun _ => .absent) := by
  have habsent : (fun _ => .absent) = upTo n .absent := by
    funext i
    unfold upTo
    split <;> rfl
  have hdestroy : Follows (each n .destroy) (upTo n (.live true)) := by
    rw [← List.append_nil (each n .destroy)]
    have hdead : (Status.live true).call .destroy = some .dead := rfl
    exact follows_calls hdead rfl
  have hclosing : Follows (closing n) (upTo n (.live true)) := by
    unfold closing
    rw [List.append_assoc]
    exact follows_calls rfl (follows_calls rfl hdestroy)
  have hstop : Follows (each n .stop ++ (each n .join ++ .clear :: closing n))
      (upTo n (.live false)) :=
    follows_calls rfl (follows_calls rfl hclosing)
  have hstart : Follows ((if started then each n .start else []) ++
      (each n .stop ++ (each n .join ++ .clear :: closing n))) (upTo n (.live false)) := by
    cases started with
    | true => exact follows_calls rfl hstop
    | false => exact hstop
  unfold serverLife opening
  rw [habsent, List.append_assoc, List.append_assoc, List.append_assoc]
  exact follows_each (fun σ i hi => if_pos hi) hstart

/-! ### One thread -/

/-- Where the owner is with a thread that it has not destroyed. -/
inductive Inside (t : Lifetime) (stopped : Bool) : Caller → Prop
  | init (hstopped : stopped = false)
      (hsem : t.main ≠ .created → t.main ≠ .built → 0 < t.m_init_semaphore) :
      Inside t stopped ⟨none, [.waitInit]⟩
  | idle (hcons : t.constructed = true)
      (hstop : stopped = true → t.thread.requested = true ∧ t.thread.m_started = true) :
      Inside t stopped ⟨none, []⟩
  | stop (hcons : t.constructed = true) : Inside t stopped ⟨none, [.stopLoop, .exchangeStarted]⟩
  | start (hcons : t.constructed = true) (hreq : stopped = true → t.thread.requested = true) :
      Inside t stopped ⟨none, [.exchangeStarted]⟩
  | post (hcons : t.constructed = true) (hreq : stopped = true → t.thread.requested = true)
      (hs : t.thread.m_started = true) : Inside t stopped ⟨some .semPost, []⟩
  | join (hcons : t.constructed = true) (hreq : t.thread.requested = true)
      (hs : t.thread.m_started = true) : Inside t stopped ⟨none, [.exchangeJoined]⟩
  | wait (hcons : t.constructed = true) (hreq : t.thread.requested = true)
      (hs : t.thread.m_started = true) : Inside t stopped ⟨some .pthreadJoin, []⟩

section Threads

variable {t t' : Lifetime} {stopped : Bool}

theorem Inside.keep {c : Caller} (h : Inside t stopped c) (hcons : t'.constructed = t.constructed)
    (hreq : t.thread.requested = true → t'.thread.requested = true)
    (hs : t.thread.m_started = true → t'.thread.m_started = true)
    (hsem : (t.main ≠ .created → t.main ≠ .built → 0 < t.m_init_semaphore) →
      t'.main ≠ .created → t'.main ≠ .built → 0 < t'.m_init_semaphore) : Inside t' stopped c := by
  cases h with
  | init h1 h2 => exact .init h1 (hsem h2)
  | idle h1 h2 => exact .idle (hcons.trans h1) fun hb => ⟨hreq (h2 hb).1, hs (h2 hb).2⟩
  | stop h1 => exact .stop (hcons.trans h1)
  | start h1 h2 => exact .start (hcons.trans h1) fun hb => hreq (h2 hb)
  | post h1 h2 h3 => exact .post (hcons.trans h1) (fun hb => hreq (h2 hb)) (hs h3)
  | join h1 h2 h3 => exact .join (hcons.trans h1) (hreq h2) (hs h3)
  | wait h1 h2 h3 => exact .wait (hcons.trans h1) (hreq h2) (hs h3)

theorem Inside.go (h : Inside t stopped (t.callers 0)) (hs : t.go 0 = some t') :
    Inside t' stopped (t'.callers 0) := by
  have hhere : ∀ {w : Lifetime} {c : Caller}, w.setCaller 0 c = t' →
      Inside w stopped c → Inside t' stopped (t'.callers 0) := by
    rintro w c rfl hc
    have hself : (w.setCaller 0 c).callers 0 = c := by
      show Function.update w.callers 0 c 0 = c
      rw [Function.update_self]
    rw [hself]
    exact hc.keep rfl id id id
  unfold Lifetime.go at hs
  generalize t.callers 0 = c at h hs
  cases h with
  | init hb hsem =>
    obtain ⟨-, hs⟩ := Option.ite_none_right_eq_some.mp hs
    exact hhere (Option.some.inj hs) (.idle rfl fun hb' => by rw [hb] at hb'; cases hb')
  | idle hcons hstop => cases hs
  | stop hcons => exact hhere (Option.some.inj hs) (.start hcons fun _ => rfl)
  | start hcons hreq =>
    dsimp only [Lifetime.exec] at hs
    split at hs
    · rename_i hstarted
      exact hhere (Option.some.inj hs) (.idle hcons fun hb => ⟨hreq hb, hstarted⟩)
    · exact hhere (Option.some.inj hs) (.post hcons hreq rfl)
  | post hcons hreq hstarted =>
    exact hhere (Option.some.inj hs) (.idle hcons fun hb => ⟨hreq hb, hstarted⟩)
  | join hcons hreq hstarted =>
    dsimp only [Lifetime.exec] at hs
    split at hs
    · exact hhere (Option.some.inj hs) (.idle hcons fun _ => ⟨hreq, hstarted⟩)
    · exact hhere (Option.some.inj hs) (.wait hcons hreq hstarted)
  | wait hcons hreq hstarted =>
    obtain ⟨-, hs⟩ := Option.ite_none_right_eq_some.mp hs
    exact hhere (Option.some.inj hs) (.idle hcons fun _ => ⟨hreq, hstarted⟩)

theorem Inside.main (h : Inside t stopped (t.callers 0)) (hs : t.runMain = some t') :
    Inside t' stopped (t'.callers 0) := by
  unfold Lifetime.runMain at hs
  split at hs
  · cases hs
    exact h.keep rfl id id fun _ _ hb => absurd rfl hb
  · cases hs
    exact h.keep rfl id id fun _ _ _ => Nat.succ_pos _
  · rename_i hmain
    obtain ⟨-, hs⟩ := Option.ite_none_right_eq_some.mp hs
    cases hs
    obtain ⟨hstarted, hreq⟩ := Lifetime.loop_started { t.thread with entered := true }
    exact h.keep rfl hreq.trans hstarted.trans fun hsem _ _ =>
      hsem (by rw [hmain]; decide) (by rw [hmain]; decide)
  · rename_i hmain
    obtain ⟨-, hs⟩ := Option.ite_none_right_eq_some.mp hs
    cases hs
    exact h.keep rfl id id fun hsem _ _ =>
      hsem (by rw [hmain]; decide) (by rw [hmain]; decide)
  · cases hs

/-- **A step leaves the owner in its call, or lets it return.** -/
theorem Inside.step {op : LifeOp} (h : Inside t stopped (t.callers 0))
    (hop : op = .go 0 ∨ op = .main ∨ ∃ o, op = .loop o) (hs : t.step op = some t') :
    Inside t' stopped (t'.callers 0) := by
  rcases hop with rfl | rfl | ⟨o, rfl⟩
  · exact h.go hs
  · exact h.main hs
  · obtain ⟨w, -, rfl, hstarted, hreq, -⟩ := Lifetime.runLoop_cases hs
    exact h.keep rfl hreq hstarted.trans id

/-- The constructor waits for `Main` to build the loop. -/
theorem finishes_init (h : t.Closing 0 ⟨none, [.waitInit]⟩)
    (hsem : t.main ≠ .created → t.main ≠ .built → 0 < t.m_init_semaphore) :
    t.Finishes 0 False := by
  have hgo : ∀ {t : Lifetime}, t.Closing 0 ⟨none, [.waitInit]⟩ → 0 < t.m_init_semaphore →
      t.Finishes 0 False := by
    intro t h hpos
    have hs := h.go_eq.trans (if_pos hpos)
    refine Lifetime.Finishes.go hs False.elim (p := False) ?_
    exact ⟨[], _, .nil _, (h.next hs rfl).here, False.elim⟩
  have hmain : ∀ {t t' : Lifetime}, t.step .main = some t' → t'.Finishes 0 False →
      t.Finishes 0 False := by
    rintro t t' hs ⟨ops, t'', hrun, hret⟩
    exact ⟨_, t'', .cons ⟨Or.inr (Or.inl rfl), hs⟩ hrun, hret⟩
  have hbuilt : ∀ {t : Lifetime}, t.Closing 0 ⟨none, [.waitInit]⟩ → t.main = .built →
      t.Finishes 0 False := by
    intro t h hm
    have hs : t.step .main = some { t with
        main := .waiting, m_init_semaphore := t.m_init_semaphore + 1 } := by
      show t.runMain = _
      unfold Lifetime.runMain
      rw [hm]
    refine hmain hs (hgo ⟨Lifetime.step_inv h.inv hs, h.idle, h.here⟩ ?_)
    exact Nat.succ_pos _
  cases hm : t.main with
  | created =>
    have hs : t.step .main = some { t with main := .built } := by
      show t.runMain = _
      unfold Lifetime.runMain
      rw [hm]
    exact hmain hs (hbuilt ⟨Lifetime.step_inv h.inv hs, h.idle, h.here⟩ rfl)
  | built => exact hbuilt h hm
  | waiting => exact hgo h (hsem (by rw [hm]; decide) (by rw [hm]; decide))
  | running => exact hgo h (hsem (by rw [hm]; decide) (by rw [hm]; decide))
  | ended => exact hgo h (hsem (by rw [hm]; decide) (by rw [hm]; decide))

/-- **From wherever the owner is in a call, it returns.** -/
theorem Inside.finishes (h : Inside t stopped (t.callers 0)) (hinv : t.Inv)
    (hidle : ∀ k, k ≠ 0 → t.callers k = {})
    (hflag : t.thread.requested = true → t.thread.m_event_loop.m_stop_flag = true) :
    t.Finishes 0 False := by
  generalize hc : t.callers 0 = c at h
  have hclosing : t.Closing 0 c := ⟨hinv, hidle, hc⟩
  cases h with
  | init hb hsem => exact finishes_init hclosing hsem
  | idle hcons hstop => exact ⟨[], t, .nil t, hc, False.elim⟩
  | stop hcons => exact (hclosing.finishes trivial).imp False.elim
  | start hcons hreq => exact (hclosing.finishes trivial).imp False.elim
  | post hcons hreq hs =>
    have hgo := hclosing.act_eq
    exact ((hclosing.next hgo rfl).finishes trivial).go hgo False.elim
  | join hcons hreq hs => exact (hclosing.finishes ⟨hflag hreq, hs, trivial⟩).imp False.elim
  | wait hcons hreq hs =>
    exact hclosing.joins_out (hflag hreq) hs fun hw _ => (hw.finishes trivial).imp False.elim

end Threads

/-! ### The group -/

/-- What the owner has made of thread `i`. -/
def Fits (v : ThreadGroup) (i : Nat) : Status → Prop
  | .absent => v.threads i = none
  | .live stopped => ∃ t, v.threads i = some t ∧ t.destroying = false ∧
      Inside t stopped (t.callers 0)
  | .dead => ∃ t, v.threads i = some t ∧ t.destroying = true

/-- No client is constructed on a thread once its stop was requested. -/
def Honours (v : ThreadGroup) : GroupOp → Prop
  | .next => True
  | .thread i op => ∀ t, v.threads i = some t → t.Honours op

structure Live (life : List GroupCall) (v : ThreadGroup) : Prop where
  inv : v.Inv life
  flag : ∀ i t, v.threads i = some t → t.thread.Inv
  status : ∃ σ, (∀ i, v.Fits i (σ i)) ∧ Follows v.program σ

section Steps

variable {v v' : ThreadGroup} {i : Nat} {t t' : Lifetime} {life program : List GroupCall}
  {σ : Nat → Status}

theorem Fits.congr {s : Status} (h : v.Fits i s) (ht : v'.threads i = v.threads i) :
    v'.Fits i s := by
  cases s with
  | absent => exact ht.trans h
  | live stopped =>
    obtain ⟨t, h1, h2⟩ := h
    exact ⟨t, ht.trans h1, h2⟩
  | dead =>
    obtain ⟨t, h1, h2⟩ := h
    exact ⟨t, ht.trans h1, h2⟩

theorem Fits.update {s : Status} (h : ∀ j, v.Fits j (σ j))
    (hothers : ∀ j, j ≠ i → v'.threads j = v.threads j) (hi : v'.Fits i s) (j : Nat) :
    v'.Fits j (Function.update σ i s j) := by
  by_cases hj : j = i
  · subst hj
    rw [Function.update_self]
    exact hi
  · rw [Function.update_of_ne hj]
    exact (h j).congr (hothers j hj)

theorem setThread_self (v : ThreadGroup) (i : Nat) (t : Lifetime) :
    (v.setThread i t).threads i = some t := Function.update_self ..

theorem setThread_other {j : Nat} (hj : j ≠ i) : (v.setThread i t).threads j = v.threads j :=
  Function.update_of_ne hj ..

theorem Follows.cons {c : GroupCall} (h : Follows (c :: program) σ) :
    ∃ σ', Status.next σ c = some σ' ∧ Follows program σ' := by
  unfold Follows at h
  rw [List.foldlM_cons] at h
  obtain ⟨σ'', hσ⟩ := Option.isSome_iff_exists.mp h
  obtain ⟨σ', h1, h2⟩ := Option.bind_eq_some_iff.mp hσ
  exact ⟨σ', h1, Option.isSome_iff_exists.mpr ⟨σ'', h2⟩⟩

theorem Live.idle_thread (h : v.Live life) (hidle : v.idle = true) {stopped : Bool}
    (ht : v.threads i = some t) (hin : Inside t stopped (t.callers 0)) :
    t.constructed = true ∧
      (stopped = true → t.thread.requested = true ∧ t.thread.m_started = true) := by
  rw [h.inv.callers hidle ht 0] at hin
  cases hin with
  | idle hcons hstop => exact ⟨hcons, hstop⟩

theorem begin_fits (h : v.Live life) {c : GroupCall} {σ' : Nat → Status} (hidle : v.idle = true)
    (hσ : ∀ j, v.Fits j (σ j)) (hnext : Status.next σ c = some σ')
    (hs : v.begin program c = some v') : ∀ j, v'.Fits j (σ' j) := by
  obtain ⟨i, rfl, -, rfl⟩ | ⟨rfl, rfl⟩ | ⟨i, c, t, t', rfl, ht, hstep, rfl⟩ := begin_cases hs
  · obtain ⟨-, hnext⟩ := Option.ite_none_right_eq_some.mp hnext
    cases hnext
    refine Fits.update hσ (fun j hj => setThread_other hj) ⟨{}, setThread_self .., rfl, ?_⟩
    exact .init rfl fun hm => absurd rfl hm
  · cases hnext
    exact fun j => (hσ j).congr rfl
  · obtain ⟨s, hs, rfl⟩ := Option.map_eq_some_iff.mp hnext
    refine Fits.update hσ (fun j hj => setThread_other hj) ?_
    obtain ⟨hzero, -, -, hdest, hcons, hthread⟩ := call_spec hstep
    have hi := hσ i
    cases hstatus : σ i with
    | absent =>
      rw [hstatus] at hs
      cases hs
    | dead =>
      rw [hstatus] at hs
      cases hs
    | live stopped =>
      rw [hstatus] at hi hs
      obtain ⟨u, hu, hnot, hin⟩ := hi
      rw [ht] at hu
      cases hu
      obtain ⟨hc, hstop⟩ := h.idle_thread hidle ht hin
      rw [hnot, Bool.false_or] at hdest
      rw [← hcons] at hc
      rw [← hthread] at hstop
      cases c with
      | start =>
        cases hs
        refine ⟨t', setThread_self .., hdest, ?_⟩
        rw [hzero]
        exact .start hc fun hb => (hstop hb).1
      | stop =>
        cases hs
        refine ⟨t', setThread_self .., hdest, ?_⟩
        rw [hzero]
        exact .stop hc
      | join =>
        cases stopped with
        | false => cases hs
        | true =>
          cases hs
          refine ⟨t', setThread_self .., hdest, ?_⟩
          rw [hzero]
          exact .join hc (hstop rfl).1 (hstop rfl).2
      | destroy =>
        cases hs
        exact ⟨t', setThread_self .., hdest⟩

theorem begin_flag {c : GroupCall} (h : ∀ i t, v.threads i = some t → t.thread.Inv)
    (hs : v.begin program c = some v') : ∀ i t, v'.threads i = some t → t.thread.Inv := by
  intro j u hu
  obtain ⟨i, rfl, -, rfl⟩ | ⟨rfl, rfl⟩ | ⟨i, c, t, t', rfl, ht, hstep, rfl⟩ := begin_cases hs
  · rcases setThread_cases hu with ⟨-, rfl⟩ | ⟨-, hu⟩
    · exact ⟨nofun, rfl⟩
    · exact h j u hu
  · exact h j u hu
  · rcases setThread_cases hu with ⟨-, rfl⟩ | ⟨-, hu⟩
    · exact Lifetime.step_thread (h i t ht) (show t.Honours (.call 0 false c) from trivial) hstep
    · exact h j u hu

theorem begin_program {c : GroupCall} (hs : v.begin program c = some v') :
    v'.program = program := by
  obtain ⟨i, rfl, -, rfl⟩ | ⟨rfl, rfl⟩ | ⟨i, c, t, t', rfl, -, -, rfl⟩ := begin_cases hs
  · rfl
  · rfl
  · rfl

theorem step_live {op : GroupOp} (h : v.Live life) (hop : v.Honours op)
    (hs : v.step op = some v') : v'.Live life := by
  have hinv := step_inv h.inv hs
  obtain ⟨σ, hσ, hfollows⟩ := h.status
  cases op with
  | next =>
    obtain ⟨c, program, hprog, hidle, hs⟩ := next_step hs
    rw [hprog] at hfollows
    obtain ⟨σ', hnext, hfollows'⟩ := hfollows.cons
    refine ⟨hinv, begin_flag h.flag hs, σ', begin_fits h hidle hσ hnext hs, ?_⟩
    rw [begin_program hs]
    exact hfollows'
  | thread i op =>
    obtain ⟨hown, t, t', ht, hstep, rfl⟩ := thread_step hs
    refine ⟨hinv, fun j u hu => ?_, σ, fun j => ?_, hfollows⟩
    · rcases setThread_cases hu with ⟨-, rfl⟩ | ⟨-, hu⟩
      · exact Lifetime.step_thread (h.flag i t ht) (hop t ht) hstep
      · exact h.flag j u hu
    · by_cases hj : j = i
      · subst hj
        have hdest := (step_frame hown hstep).1
        have hfit := hσ j
        cases hs : σ j with
        | absent =>
          rw [hs] at hfit
          exact absurd (ht.symm.trans hfit) (Option.some_ne_none t)
        | live stopped =>
          rw [hs] at hfit
          obtain ⟨u, hu, hnot, hin⟩ := hfit
          rw [ht] at hu
          cases hu
          exact ⟨t', setThread_self .., hdest.trans hnot, hin.step hown hstep⟩
        | dead =>
          rw [hs] at hfit
          obtain ⟨u, hu, hd⟩ := hfit
          rw [ht] at hu
          cases hu
          exact ⟨t', setThread_self .., hdest.trans hd⟩
      · exact (hσ j).congr (setThread_other hj)

/-! ### The owner goes on -/

theorem call_enabled (hcons : t.constructed = true) (hdel : t.deleted = false)
    (hzero : t.callers 0 = {}) (c : LifeCall) : ∃ t', t.step (.call 0 false c) = some t' :=
  ⟨_, if_pos ⟨hcons, by rw [hdel]; nofun, hzero⟩⟩

/-- **The next call can begin.** -/
theorem Live.next_enabled (h : v.Live life) {c : GroupCall} (hprog : v.program = c :: program)
    (hidle : v.idle = true) : ∃ v', v.step .next = some v' ∧ v'.program = program := by
  obtain ⟨σ, hσ, hfollows⟩ := h.status
  rw [hprog] at hfollows
  obtain ⟨σ', hnext, -⟩ := hfollows.cons
  have hbegin : ∃ v', v.begin program c = some v' := by
    cases c with
    | clear => exact ⟨_, rfl⟩
    | construct i =>
      obtain ⟨habsent, -⟩ := Option.ite_none_right_eq_some.mp hnext
      have hfit := hσ i
      rw [habsent] at hfit
      exact ⟨_, if_pos hfit⟩
    | call i c =>
      obtain ⟨s, hs, -⟩ := Option.map_eq_some_iff.mp hnext
      have hfit := hσ i
      cases hstatus : σ i with
      | absent =>
        rw [hstatus] at hs
        cases hs
      | dead =>
        rw [hstatus] at hs
        cases hs
      | live stopped =>
        rw [hstatus] at hfit
        obtain ⟨t, ht, hnot, hin⟩ := hfit
        have hcons := (h.idle_thread hidle ht hin).1
        have hdel := ((h.inv.good i t ht).ordered.before hnot).1
        obtain ⟨t', hstep⟩ := call_enabled hcons hdel (h.inv.callers hidle ht 0) c
        refine ⟨_, Option.bind_eq_some_iff.mpr ⟨t, ht, Option.map_eq_some_iff.mpr ⟨t', hstep, rfl⟩⟩⟩
  obtain ⟨v', hs⟩ := hbegin
  refine ⟨v', ?_, begin_program hs⟩
  dsimp only [step]
  rw [hprog]
  exact (if_pos hidle).trans hs

/-- The steps of a group in which no client is constructed on a stopped thread. -/
def Goes (v : ThreadGroup) (op : GroupOp) (v' : ThreadGroup) : Prop :=
  v.Honours op ∧ v.step op = some v'

theorem run_thread {ops : List LifeOp} (hrun : Run (Lifetime.Own 0) t ops t') :
    ∀ {v : ThreadGroup}, v.threads i = some t →
      Run Goes v (ops.map (.thread i)) (v.setThread i t') := by
  induction hrun with
  | nil t =>
    intro v ht
    have hself : v.setThread i t = v := by
      unfold setThread
      rw [← ht, Function.update_eq_self]
    rw [hself]
    exact .nil v
  | cons hs _ ih =>
    rename_i t t₁ t' op ops _
    intro v ht
    have hstep : v.step (.thread i op) = some (v.setThread i t₁) := by
      have hone : ((v.threads i).bind fun t => (t.step op).map fun t => v.setThread i t) =
          some (v.setThread i t₁) := by
        rw [ht, Option.bind_some, hs.2, Option.map_some]
      rcases hs.1 with rfl | rfl | rfl <;> exact hone
    have hhon : v.Honours (.thread i op) := by
      intro u _
      rcases hs.1 with rfl | rfl | rfl <;> trivial
    have htwice : (v.setThread i t₁).setThread i t' = v.setThread i t' := by
      unfold setThread
      dsimp only
      rw [Function.update_idem]
    rw [← htwice]
    exact .cons ⟨hhon, hstep⟩ (ih (setThread_self v i t₁))

/-- **The owner returns from its call.** -/
theorem Live.returns (h : v.Live life) :
    ∃ ops v', Run Goes v ops v' ∧ v'.idle = true ∧ v'.program = v.program := by
  cases hidle : v.idle with
  | true => exact ⟨[], v, .nil v, hidle, rfl⟩
  | false =>
    -- it is inside a call for some thread
    obtain ⟨i, t, hin, ht⟩ : ∃ i t, v.inside = some i ∧ v.threads i = some t := by
      unfold idle at hidle
      cases hi : v.inside with
      | none =>
        rw [hi] at hidle
        cases hidle
      | some i =>
        rw [hi, Option.all_some] at hidle
        cases ht : v.threads i with
        | none =>
          rw [ht] at hidle
          cases hidle
        | some t => exact ⟨i, t, rfl, ht⟩
    have hgood := h.inv.good i t ht
    obtain ⟨σ, hσ, -⟩ := h.status
    have hfin : ∃ p, t.Finishes 0 p := by
      have hfit := hσ i
      cases hs : σ i with
      | absent =>
        rw [hs] at hfit
        exact absurd (ht.symm.trans hfit) (Option.some_ne_none t)
      | live stopped =>
        rw [hs] at hfit
        obtain ⟨u, hu, -, hinside⟩ := hfit
        rw [ht] at hu
        cases hu
        exact ⟨_, hinside.finishes hgood.inv hgood.owner (h.flag i t ht).1⟩
      | dead =>
        rw [hs] at hfit
        obtain ⟨u, hu, hdest⟩ := hfit
        rw [ht] at hu
        cases hu
        obtain ⟨k, hidle, ⟨-, hk⟩ | ⟨-, hk, -⟩⟩ := hgood.ordered.alone hdest
        · have hzero : k = 0 := by
            by_contra hne
            rw [hgood.owner k hne] at hk
            cases hk
          subst hzero
          exact ⟨_, hk.finishes hgood.inv hidle (h.flag i t ht).1⟩
        · have hz : t.callers 0 = {} := by
            by_cases hk0 : k = 0
            · rw [← hk0]
              exact hk
            · exact hidle 0 (Ne.symm hk0)
          exact ⟨False, [], t, .nil t, hz, False.elim⟩
    obtain ⟨p, ops, t', hrun, hzero, -⟩ := hfin
    refine ⟨_, _, run_thread hrun ht, ?_, rfl⟩
    unfold idle
    rw [show (v.setThread i t').inside = some i from hin, Option.all_some, setThread_self,
      Option.all_some]
    exact decide_eq_true hzero

theorem Live.run {ops : List GroupOp} (h : v.Live life) (hrun : Run Goes v ops v') :
    v'.Live life :=
  hrun.invariant (I := Live life) (fun h hs => step_live h hs.1 hs.2) h

/-- **The owner comes to the end of its program**, call by call. -/
theorem Live.finishes : ∀ (program : List GroupCall) {v : ThreadGroup}, v.Live life →
    v.program = program → ∃ ops v', Run Goes v ops v' ∧ v'.idle = true ∧ v'.program = [] := by
  intro program
  induction program with
  | nil =>
    intro v h hprog
    obtain ⟨ops, v', hrun, hidle, hsame⟩ := h.returns
    exact ⟨ops, v', hrun, hidle, hsame.trans hprog⟩
  | cons c program ih =>
    intro v h hprog
    obtain ⟨ops₁, v₁, hrun₁, hidle₁, hsame⟩ := h.returns
    obtain ⟨v₂, hs, hprog₂⟩ := (h.run hrun₁).next_enabled (hsame.trans hprog) hidle₁
    have hnext : Run Goes v₁ [.next] v₂ := .cons ⟨trivial, hs⟩ (.nil v₂)
    obtain ⟨ops₃, v₃, hrun₃, hend⟩ := ih ((h.run hrun₁).run hnext) hprog₂
    exact ⟨_, v₃, hrun₁.append (hnext.append hrun₃), hend⟩

end Steps

theorem init_live (n : Nat) (started : Bool) :
    Live (serverLife n started) { program := serverLife n started } := by
  refine ⟨⟨serverLife_ok, fun _ _ ht => (by cases ht), [], rfl, nofun, nofun⟩,
    fun _ _ ht => (by cases ht), fun _ => .absent, fun _ => rfl, serverLife_follows n started⟩

/-- **The owner can always finish**: in every run of a server in which no client is constructed on
an IO thread after its stop, wherever the owner and the threads are, started or not, there are
steps that lead to the end of `~TcpServer`, with every loop deleted. -/
theorem group_finishes {n : Nat} {started : Bool} {v : ThreadGroup} {ops : List GroupOp}
    (hrun : Run Goes { program := serverLife n started } ops v) :
    ∃ ops' v', Run Goes v ops' v' ∧ v'.program = [] ∧ v'.idle = true ∧
      ∀ i, i < n → ∃ t, v'.threads i = some t ∧ t.deleted = true := by
  have h := (init_live n started).run hrun
  obtain ⟨ops', v', hrun', hidle, hend⟩ := h.finishes v.program rfl
  exact ⟨ops', v', hrun', hend, hidle, fun i hi => (h.run hrun').inv.all_deleted hend hidle hi⟩

/-- From the middle of the construction of the first of two threads. -/
theorem group_finishes_constructing : ∃ v : ThreadGroup,
    v.program = [] ∧ ∃ t, v.threads 1 = some t ∧ t.deleted = true := by
  have hrun : Run Goes { program := serverLife 2 true } [.next, .thread 0 .main] _ :=
    .cons ⟨trivial, rfl⟩ (.cons ⟨fun _ _ => trivial, rfl⟩ (.nil _))
  obtain ⟨-, v', -, hend, -, hdel⟩ := group_finishes hrun
  exact ⟨v', hend, hdel 1 (by decide)⟩

end ThreadGroup

end KaiRPC
