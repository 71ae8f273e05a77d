import Mathlib.Logic.Function.Basic
import KaiRPC.Lib.Run

/-!
# ScopeMutex

`common/mutex.h`, and any number of threads that each run scopes of the shape used all over
the program: construct a `ScopeMutex`, a critical section, `unlock()`, further code, the end
of the scope.  The pthread mutex under it is released by `unlock` whoever holds it.

`unlock()` leaves `m_is_lock` as it is and the destructor does not look at it, so the end of
the scope releases the mutex a second time.

* `scopeMutex_sound_iff`: **at most one thread is in its critical section and every
  acquisition is released once exactly as long as no scope has ended.**
* `exclusive_of_free_exits`: at most one thread is in its critical section as long as every
  scope ends while the mutex is free.
* `two_inside`: a thread leaves its scope while another is in the critical section.
-/

namespace KaiRPC

/-- `pthread_mutex_t`. -/
structure Mutex where
  locked : Bool := false
deriving DecidableEq, Repr

namespace Mutex

/-- `none`: the caller waits. -/
def lock (m : Mutex) : Option Mutex := if m.locked then none else some { locked := true }

def unlock (_ : Mutex) : Mutex := { locked := false }

end Mutex

/-- A `ScopeMutex` between its construction and its destruction; `releases` counts the calls
of `Mutex::unlock` it has made. -/
structure ScopeMutex where
  m_is_lock : Bool := false
  releases : Nat := 0
deriving DecidableEq, Repr

namespace ScopeMutex

def new (m : Mutex) : Option (ScopeMutex × Mutex) :=
  m.lock.map fun m => ({ m_is_lock := true }, m)

def unlock (s : ScopeMutex) (m : Mutex) : ScopeMutex × Mutex :=
  if s.m_is_lock then ({ s with releases := s.releases + 1 }, m.unlock) else (s, m)

def destroy (s : ScopeMutex) (m : Mutex) : ScopeMutex × Mutex :=
  ({ m_is_lock := false, releases := s.releases + 1 }, m.unlock)

end ScopeMutex

/-- A scope that has not ended; `inside`: `unlock()` was not called yet. -/
structure Scope where
  lock : ScopeMutex
  inside : Bool := true
deriving DecidableEq, Repr

variable {ι : Type}

/-- The threads over one mutex, and the acquisitions whose scope has ended. -/
structure Threads (ι : Type) where
  mutex : Mutex := {}
  scope : ι → Option Scope := fun _ => none
  ended : List ScopeMutex := []

inductive ScopeOp (ι : Type)
  | lock (t : ι)
  | unlock (t : ι)
  | exit (t : ι)

namespace Threads

section

variable [DecidableEq ι]

def step (w : Threads ι) : ScopeOp ι → Option (Threads ι)
  | .lock t =>
      match w.scope t, ScopeMutex.new w.mutex with
      | none, some (lock, mutex) =>
          some { w with mutex, scope := Function.update w.scope t (some { lock }) }
      | _, _ => none
  | .unlock t =>
      match w.scope t with
      | some { lock, inside := true } =>
          let (lock, mutex) := lock.unlock w.mutex
          some { w with
            mutex
            scope := Function.update w.scope t (some { lock, inside := false }) }
      | _ => none
  | .exit t =>
      match w.scope t with
      | some { lock, inside := false } =>
          let (lock, mutex) := lock.destroy w.mutex
          some { mutex, scope := Function.update w.scope t none, ended := w.ended ++ [lock] }
      | _ => none

end

/-- The thread is between its acquisition and its `unlock()`. -/
def Inside (w : Threads ι) (t : ι) : Prop := ∃ s, w.scope t = some s ∧ s.inside = true

def Exclusive (w : Threads ι) : Prop := ∀ t t', w.Inside t → w.Inside t' → t = t'

/-- An acquisition is not released before its `unlock()`, and once from then on. -/
def ReleasedOnce (w : Threads ι) : Prop :=
  (∀ t s, w.scope t = some s → s.lock.releases = if s.inside then 0 else 1) ∧
    ∀ lock ∈ w.ended, lock.releases = 1

/-! ### What a step does -/

section

variable [DecidableEq ι] {w w' : Threads ι} {t : ι}

theorem step_lock (h : w.step (.lock t) = some w') : w.scope t = none ∧ w.mutex.locked = false ∧
    w' = { w with
      mutex := { locked := true }
      scope := Function.update w.scope t (some { lock := { m_is_lock := true } }) } := by
  dsimp only [step, ScopeMutex.new, Mutex.lock] at h
  cases hs : w.scope t with
  | some s => simp [hs] at h
  | none =>
    cases hm : w.mutex.locked with
    | true => simp [hs, hm] at h
    | false =>
      rw [hs, hm] at h
      cases h
      exact ⟨rfl, rfl, rfl⟩

theorem step_unlock (h : w.step (.unlock t) = some w') : ∃ lock,
    w.scope t = some { lock, inside := true } ∧
    w' = { w with
      mutex := (lock.unlock w.mutex).2
      scope := Function.update w.scope t
        (some { lock := (lock.unlock w.mutex).1, inside := false }) } := by
  dsimp only [step] at h
  split at h
  · rename_i lock hs
    cases h
    exact ⟨lock, hs, rfl⟩
  · cases h

theorem step_exit (h : w.step (.exit t) = some w') : ∃ lock,
    w.scope t = some { lock, inside := false } ∧
    w' = {
      mutex := { locked := false }
      scope := Function.update w.scope t none
      ended := w.ended ++ [{ m_is_lock := false, releases := lock.releases + 1 }] } := by
  dsimp only [step] at h
  split at h
  · rename_i lock hs
    cases h
    exact ⟨lock, hs, rfl⟩
  · cases h

/-! ### Releases -/

/-- A scope that has ended has released its acquisition twice. -/
structure Counts (w : Threads ι) : Prop where
  is_lock : ∀ t s, w.scope t = some s → s.lock.m_is_lock = true
  releases : ∀ t s, w.scope t = some s → s.lock.releases = if s.inside then 0 else 1
  ended : ∀ lock ∈ w.ended, lock.releases = 2

theorem step_counts {op : ScopeOp ι} (h : w.Counts) (hs : w.step op = some w') : w'.Counts := by
  -- Only the scope of the thread that moves is another one.
  have hset : ∀ t v, (∀ s, v = some s → s.lock.m_is_lock = true ∧
      s.lock.releases = if s.inside then 0 else 1) →
      ∀ t' s, Function.update w.scope t v t' = some s →
      s.lock.m_is_lock = true ∧ s.lock.releases = if s.inside then 0 else 1 := by
    intro t v hv t' s hs'
    by_cases hne : t' = t
    · subst hne
      rw [Function.update_self] at hs'
      exact hv s hs'
    · rw [Function.update_of_ne hne] at hs'
      exact ⟨h.is_lock t' s hs', h.releases t' s hs'⟩
  cases op with
  | lock t =>
    obtain ⟨-, -, rfl⟩ := step_lock hs
    have hnew := hset t (some { lock := { m_is_lock := true } }) (by rintro s ⟨⟩; exact ⟨rfl, rfl⟩)
    exact ⟨fun t' s hs' => (hnew t' s hs').1, fun t' s hs' => (hnew t' s hs').2, h.ended⟩
  | unlock t =>
    obtain ⟨lock, ht, rfl⟩ := step_unlock hs
    have hlock : lock.m_is_lock = true := h.is_lock t _ ht
    have hzero : lock.releases = 0 := h.releases t _ ht
    have hnew := hset t (some { lock := (lock.unlock w.mutex).1, inside := false }) (by
      rintro s ⟨⟩
      rw [ScopeMutex.unlock, if_pos hlock]
      exact ⟨hlock, congrArg Nat.succ hzero⟩)
    exact ⟨fun t' s hs' => (hnew t' s hs').1, fun t' s hs' => (hnew t' s hs').2, h.ended⟩
  | exit t =>
    obtain ⟨lock, ht, rfl⟩ := step_exit hs
    have hone : lock.releases = 1 := h.releases t _ ht
    have hnew := hset t none (by rintro s ⟨⟩)
    refine ⟨fun t' s hs' => (hnew t' s hs').1, fun t' s hs' => (hnew t' s hs').2, ?_⟩
    intro lock' hmem
    obtain hmem | hmem := List.mem_append.mp hmem
    · exact h.ended lock' hmem
    · cases List.mem_singleton.mp hmem
      exact congrArg Nat.succ hone

omit [DecidableEq ι] in
theorem start_counts : ({} : Threads ι).Counts := ⟨nofun, nofun, nofun⟩

/-! ### Mutual exclusion -/

/-- The step ends no scope while the mutex is locked. -/
def FreeExit (w : Threads ι) : ScopeOp ι → Prop
  | .exit _ => w.mutex.locked = false
  | _ => True

/-- Whoever is inside holds the mutex. -/
def Excludes (w : Threads ι) : Prop := w.Exclusive ∧ ∀ t, w.Inside t → w.mutex.locked = true

theorem step_excludes {op : ScopeOp ι} (h : w.Excludes)
    (hs : w.FreeExit op ∧ w.step op = some w') : w'.Excludes := by
  obtain ⟨hexcl, hlocked⟩ := h
  obtain ⟨hfree, hs⟩ := hs
  have hother : ∀ {t t' v}, t' ≠ t → (∃ s, Function.update w.scope t v t' = some s ∧
      s.inside = true) → w.Inside t' := by
    rintro t t' v hne ⟨s, hs', hin⟩
    rw [Function.update_of_ne hne] at hs'
    exact ⟨s, hs', hin⟩
  cases op with
  | lock t =>
    obtain ⟨-, hm, rfl⟩ := step_lock hs
    -- The mutex was free, so nobody was inside.
    have hnobody : ∀ t', ¬ w.Inside t' := by
      intro t' hin
      cases (hlocked t' hin).symm.trans hm
    have honly : ∀ t', (∃ s, Function.update w.scope t (some { lock := { m_is_lock := true } }) t'
        = some s ∧ s.inside = true) → t' = t := by
      intro t' hin
      by_contra hne
      exact hnobody t' (hother hne hin)
    exact ⟨fun t₁ t₂ h₁ h₂ => (honly t₁ h₁).trans (honly t₂ h₂).symm, fun _ _ => rfl⟩
  | unlock t =>
    obtain ⟨lock, ht, rfl⟩ := step_unlock hs
    -- The one inside leaves.
    have hnobody : ∀ t', ¬ ∃ s, Function.update w.scope t
        (some { lock := (lock.unlock w.mutex).1, inside := false }) t' = some s ∧
          s.inside = true := by
      intro t' hin
      by_cases hne : t' = t
      · subst hne
        obtain ⟨s, hs', hin⟩ := hin
        rw [Function.update_self] at hs'
        cases hs'
        cases hin
      · exact hne (hexcl t' t (hother hne hin) ⟨_, ht, rfl⟩)
    exact ⟨fun t₁ t₂ h₁ _ => absurd h₁ (hnobody t₁), fun t' h' => absurd h' (hnobody t')⟩
  | exit t =>
    obtain ⟨lock, ht, rfl⟩ := step_exit hs
    have hnobody : ∀ t', ¬ ∃ s, Function.update w.scope t none t' = some s ∧ s.inside = true := by
      intro t' hin
      by_cases hne : t' = t
      · subst hne
        obtain ⟨s, hs', -⟩ := hin
        rw [Function.update_self] at hs'
        cases hs'
      · cases (hlocked t' (hother hne hin)).symm.trans hfree
    exact ⟨fun t₁ t₂ h₁ _ => absurd h₁ (hnobody t₁), fun t' h' => absurd h' (hnobody t')⟩

omit [DecidableEq ι] in
theorem start_excludes : ({} : Threads ι).Excludes := by
  have hnobody : ∀ t, ¬ ({} : Threads ι).Inside t := by
    rintro t ⟨s, hs, -⟩
    cases hs
  exact ⟨fun t _ ht _ => absurd ht (hnobody t), fun t ht => absurd ht (hnobody t)⟩

/-- **Mutual exclusion** as long as every scope ends while the mutex is free. -/
theorem exclusive_of_free_exits {ops : List (ScopeOp ι)}
    (hrun : Run (fun w op w' => FreeExit w op ∧ step w op = some w') {} ops w) : w.Exclusive :=
  (hrun.invariant (I := Excludes) step_excludes start_excludes).1

/-! ### Both -/

theorem step_ended {op : ScopeOp ι} (hs : w.step op = some w') :
    w'.ended = [] ↔ w.ended = [] ∧ ∀ t, op ≠ .exit t := by
  cases op with
  | lock t =>
    obtain ⟨-, -, rfl⟩ := step_lock hs
    simp
  | unlock t =>
    obtain ⟨lock, -, rfl⟩ := step_unlock hs
    simp
  | exit t =>
    obtain ⟨lock, -, rfl⟩ := step_exit hs
    simp

theorem run_ended {ops : List (ScopeOp ι)}
    (hrun : Run (fun w op w' => step w op = some w') w ops w') :
    w'.ended = [] ↔ w.ended = [] ∧ ∀ t, .exit t ∉ ops := by
  induction hrun with
  | nil w => simp
  | cons hs _ ih =>
    rw [ih, step_ended hs]
    simp only [List.mem_cons, not_or, forall_and, ne_comm, and_assoc]

/-- As long as no scope has ended, no scope has ended while the mutex was locked. -/
theorem step_excludes_of_not_ended {op : ScopeOp ι} (h : w.ended = [] → w.Excludes)
    (hs : w.step op = some w') : w'.ended = [] → w'.Excludes := by
  intro hended
  obtain ⟨hempty, hno⟩ := (step_ended hs).mp hended
  refine step_excludes (h hempty) ⟨?_, hs⟩
  cases op with
  | exit t => exact absurd rfl (hno t)
  | lock t => trivial
  | unlock t => trivial

/-- **`ScopeMutex` gives mutual exclusion and releases every acquisition once exactly as long
as no scope has ended**, for any threads in any interleaving. -/
theorem scopeMutex_sound_iff {ops : List (ScopeOp ι)}
    (hrun : Run (fun w op w' => step w op = some w') {} ops w) :
    w.Exclusive ∧ w.ReleasedOnce ↔ ∀ t, .exit t ∉ ops := by
  have hcounts : w.Counts := hrun.invariant (I := Counts) step_counts start_counts
  have hended : w.ended = [] ↔ ∀ t, .exit t ∉ ops :=
    (run_ended hrun).trans (and_iff_right rfl)
  rw [← hended]
  constructor
  · rintro ⟨-, -, honce⟩
    rw [List.eq_nil_iff_forall_not_mem]
    intro lock hmem
    cases (honce lock hmem).symm.trans (hcounts.ended lock hmem)
  · intro hnil
    have hexcl := hrun.invariant (I := fun w : Threads ι => w.ended = [] → w.Excludes)
      step_excludes_of_not_ended fun _ => start_excludes
    refine ⟨(hexcl hnil).1, hcounts.releases, ?_⟩
    rw [hnil]
    nofun

end

/-- One thread after the other, neither at the end of its scope. -/
theorem scopeMutex_sound_iff_no_exit : ∃ w : Threads Nat,
    Run (fun w op w' => step w op = some w') {} [.lock 0, .unlock 0, .lock 1] w ∧
      w.Exclusive ∧ w.ReleasedOnce := by
  obtain ⟨w, hw⟩ := Option.isSome_iff_exists.mp (by decide :
    (List.foldlM step ({} : Threads Nat) [.lock 0, .unlock 0, .lock 1]).isSome = true)
  have hrun := Run.of_foldlM hw
  exact ⟨w, hrun, (scopeMutex_sound_iff hrun).mpr (by simp)⟩

/-- Thread `0` leaves its scope while thread `1` is inside, which lets thread `2` in. -/
theorem two_inside : ∃ w : Threads Nat,
    Run (fun w op w' => step w op = some w') {}
      [.lock 0, .unlock 0, .lock 1, .exit 0, .lock 2] w ∧
    ¬ w.Exclusive ∧ ¬ w.ReleasedOnce := by
  obtain ⟨w, hw, h⟩ := (Option.any_eq_true _ _).mp (by decide :
    (List.foldlM step ({} : Threads Nat)
      [.lock 0, .unlock 0, .lock 1, .exit 0, .lock 2]).any (fun w =>
        (w.scope 1).any (fun s => s.inside) ∧ (w.scope 2).any (fun s => s.inside) ∧
        w.ended = [{ releases := 2 }]) = true)
  obtain ⟨h1, h2, hended⟩ := of_decide_eq_true h
  refine ⟨w, Run.of_foldlM hw, fun hexcl => ?_, fun honce => ?_⟩
  · have hin1 : w.Inside 1 := (Option.any_eq_true _ _).mp h1
    have hin2 : w.Inside 2 := (Option.any_eq_true _ _).mp h2
    cases hexcl 1 2 hin1 hin2
  · have hone := honce.2 { releases := 2 } (by rw [hended]; exact List.mem_singleton_self _)
    cases hone

end Threads

end KaiRPC
