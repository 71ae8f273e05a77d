import Mathlib.Data.List.Basic

/-!
# Resumable scanners

A scanner looks at the front of a stream and either asks for more input or
consumes a positive number of symbols, perhaps emitting one item.  `scan` runs
it until it asks for more; what it leaves behind is the residual.

The one condition that matters is `step_append`: a decision made on a prefix is
the decision made on every extension of it.  It is enough for `scan_append`,

    scan (s ++ t) = scan s, then scan (residual ++ t),

and so for `feed_eq`: however a stream is cut into pieces, feeding them one at a
time emits the same items and leaves the same residual as scanning the whole.

Where each emitted item stands for the symbols its step consumed, the stream is the
items one behind the other with gaps between them (`Factors`, `scan_factors`).
-/

universe u v

/-- A step function that decides on the front of a stream.  `none` asks for more
input; `some (o, n)` consumes `n` symbols and emits `o`. -/
structure Scanner (α : Type u) (β : Type v) where
  step : List α → Option (Option β × Nat)
  step_pos : ∀ {s o n}, step s = some (o, n) → 0 < n
  step_le : ∀ {s o n}, step s = some (o, n) → n ≤ s.length
  step_append : ∀ {s r} (t : List α), step s = some r → step (s ++ t) = some r

namespace Scanner

variable {α : Type u} {β : Type v} (S : Scanner α β)

/-- Run the scanner until it asks for more: the items emitted, and the residual. -/
def scan (s : List α) : List β × List α :=
  match _h : S.step s with
  | none => ([], s)
  | some (o, n) =>
      let r := scan (s.drop n)
      (o.toList ++ r.1, r.2)
  termination_by s.length
  decreasing_by
    have := S.step_pos _h
    have := S.step_le _h
    simp only [List.length_drop]
    omega

theorem scan_of_none {s : List α} (h : S.step s = none) : S.scan s = ([], s) := by
  rw [scan]
  split
  · rfl
  · rename_i h'; rw [h] at h'; cases h'

theorem scan_of_some {s : List α} {o : Option β} {n : Nat} (h : S.step s = some (o, n)) :
    S.scan s = (o.toList ++ (S.scan (s.drop n)).1, (S.scan (s.drop n)).2) := by
  rw [scan]
  split
  · rename_i h'; rw [h] at h'; cases h'
  · rename_i o' n' h'
    rw [h] at h'
    cases h'
    rfl

/-- **Induction along a scan**: where the scanner asks for more, and behind what it consumed. -/
theorem scan_induction {P : List α → Prop} (hmore : ∀ s, S.step s = none → P s)
    (hstep : ∀ s o n, S.step s = some (o, n) → P (s.drop n) → P s) (s : List α) : P s := by
  induction hn : s.length using Nat.strongRecOn generalizing s with
  | ind n ih =>
    cases h : S.step s with
    | none => exact hmore s h
    | some r =>
      obtain ⟨o, k⟩ := r
      have hk := S.step_pos h
      have hle := S.step_le h
      exact hstep s o k h (ih (s.drop k).length (by rw [List.length_drop]; omega) _ rfl)

/-- **The residual is where the scanner asks for more.** -/
theorem step_residual (s : List α) : S.step (S.scan s).2 = none := by
  induction s using S.scan_induction with
  | hmore s h => rw [S.scan_of_none h]; exact h
  | hstep s o n h ih => rw [S.scan_of_some h]; exact ih

theorem scan_residual (s : List α) : S.scan (S.scan s).2 = ([], (S.scan s).2) :=
  S.scan_of_none (S.step_residual s)

/-- **Scanning resumes.**  Scanning a stream and its continuation is scanning the
stream, then scanning the continuation behind what the first scan left. -/
theorem scan_append (s t : List α) :
    S.scan (s ++ t) = ((S.scan s).1 ++ (S.scan ((S.scan s).2 ++ t)).1,
      (S.scan ((S.scan s).2 ++ t)).2) := by
  induction s using S.scan_induction with
  | hmore s h => rw [S.scan_of_none h, List.nil_append]
  | hstep s o n h ih =>
    have hdrop : (s ++ t).drop n = s.drop n ++ t := List.drop_append_of_le_length (S.step_le h)
    rw [S.scan_of_some (S.step_append t h), S.scan_of_some h, hdrop, ih, List.append_assoc]

/-- What is emitted of a stream is emitted of every continuation of it. -/
theorem scan_prefix {s t : List α} (h : s <+: t) : (S.scan s).1 <+: (S.scan t).1 := by
  obtain ⟨u, rfl⟩ := h
  rw [S.scan_append]
  exact List.prefix_append _ _

/-- Scan each piece behind what the pieces before it left. -/
def feed (residual : List α) : List (List α) → List β × List α
  | [] => ([], residual)
  | c :: cs =>
      let r := S.scan (residual ++ c)
      let r' := feed r.2 cs
      (r.1 ++ r'.1, r'.2)

/-- **How a stream is cut does not matter.** -/
theorem feed_eq : ∀ (cs : List (List α)) (residual : List α), S.step residual = none →
    S.feed residual cs = S.scan (residual ++ cs.flatten) := by
  intro cs
  induction cs with
  | nil =>
    intro residual h
    rw [feed, List.flatten_nil, List.append_nil, S.scan_of_none h]
  | cons c cs ih =>
    intro residual _
    rw [feed, ih _ (S.step_residual _), List.flatten_cons, ← List.append_assoc,
      S.scan_append (residual ++ c)]

/-! ### The items are slices of the stream -/

theorem residual_suffix (s : List α) : (S.scan s).2 <:+ s := by
  induction s using S.scan_induction with
  | hmore s h => exact ⟨[], congrArg Prod.snd (S.scan_of_none h)⟩
  | hstep s o n h ih =>
    rw [S.scan_of_some h]
    exact ih.trans (List.drop_suffix n s)

/-- The stream `s` is `g₀ f₁ g₁ … fₙ gₙ` and then `rest`, where `fᵢ` renders the `i`-th item of
`out`; a piece is an item with the gap before it. -/
def Factors (render : β → List α) (s : List α) (out : List β) (rest : List α) : Prop :=
  ∃ (pieces : List (List α × β)) (gap : List α), pieces.map Prod.snd = out ∧
    s = pieces.flatMap (fun p => p.1 ++ render p.2) ++ gap ++ rest

variable {render : β → List α}

theorem Factors.refl (s : List α) : Factors render s [] s := ⟨[], [], rfl, rfl⟩

theorem Factors.skip {s rest : List α} {out : List β} (u : List α)
    (h : Factors render s out rest) : Factors render (u ++ s) out rest := by
  obtain ⟨pieces, gap, rfl, rfl⟩ := h
  cases pieces with
  | nil => exact ⟨[], u ++ gap, rfl, by simp⟩
  | cons p pieces => exact ⟨(u ++ p.1, p.2) :: pieces, gap, rfl, by simp⟩

theorem Factors.emit {s rest : List α} {out : List β} (x : β) (h : Factors render s out rest) :
    Factors render (render x ++ s) (x :: out) rest := by
  obtain ⟨pieces, gap, rfl, rfl⟩ := h
  exact ⟨([], x) :: pieces, gap, rfl, by simp⟩

/-- **The emitted items are disjoint slices of the stream, in order.** -/
theorem scan_factors (hemit : ∀ {s x n}, S.step s = some (some x, n) → s.take n = render x)
    (s : List α) : Factors render s (S.scan s).1 (S.scan s).2 := by
  induction s using S.scan_induction with
  | hmore s h =>
    rw [S.scan_of_none h]
    exact .refl s
  | hstep s o n h ih =>
    rw [S.scan_of_some h]
    conv => enter [2]; rw [← List.take_append_drop n s]
    cases o with
    | none => exact ih.skip _
    | some x =>
      rw [hemit h]
      exact ih.emit x

/-- What every emitting step guarantees holds of every item. -/
theorem scan_forall {P : β → Prop} (hemit : ∀ {s x n}, S.step s = some (some x, n) → P x)
    (s : List α) : ∀ x ∈ (S.scan s).1, P x := by
  induction s using S.scan_induction with
  | hmore s h =>
    rw [S.scan_of_none h]
    exact List.forall_mem_nil P
  | hstep s o n h ih =>
    rw [S.scan_of_some h]
    cases o with
    | none => exact ih
    | some x => exact List.forall_mem_cons.mpr ⟨hemit h, ih⟩

end Scanner
