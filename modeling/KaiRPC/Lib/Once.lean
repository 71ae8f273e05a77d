import Mathlib.Logic.Basic

/-!
# An action behind an atomic exchange

A thread exchanges a flag for `true` and acts if it has found `false`.  `Once` is what holds of
the flag, of the number of times the action was done, and of the threads that have found
`false` and have not acted yet.

* `Once.exchange`, `Once.act`: the two steps keep it.
* `Once.done_of_idle`: a set flag that nobody is behind stands for an action that was done.
-/

universe u

/-- `winner k`: thread `k` has found the flag `false` and has not acted. -/
structure Once {ι : Type u} (flag : Bool) (done : Nat) (winner : ι → Prop) : Prop where
  fresh : flag = false → done = 0 ∧ ∀ k, ¬ winner k
  alone : ∀ {k}, winner k → done = 0 ∧ ∀ {j}, winner j → j = k
  taken : flag = true → done = 1 ∨ ∃ k, winner k
  le_one : done ≤ 1

namespace Once

variable {ι : Type u} {flag : Bool} {done : Nat} {winner winner' : ι → Prop}

theorem init : Once false 0 fun _ : ι => False :=
  ⟨fun _ => ⟨rfl, fun _ => id⟩, fun h => h.elim, nofun, Nat.zero_le 1⟩

theorem congr (h : Once flag done winner) (hw : ∀ k, winner' k ↔ winner k) :
    Once flag done winner' := by
  have heq : winner' = winner := funext fun k => propext (hw k)
  rw [heq]
  exact h

/-- **The exchange finds `false`**: the thread is the only one behind it. -/
theorem exchange (h : Once false done winner) {k : ι} (hw : ∀ j, winner' j ↔ j = k ∨ winner j) :
    Once true done winner' := by
  obtain ⟨hdone, hnone⟩ := h.fresh rfl
  have honly : ∀ {j}, winner' j → j = k := fun hj => ((hw _).mp hj).resolve_right (hnone _)
  refine ⟨nofun, fun hj => ⟨hdone, fun hi => ?_⟩, fun _ => ?_, h.le_one⟩
  · rw [honly hi, honly hj]
  · exact Or.inr ⟨k, (hw k).mpr (Or.inl rfl)⟩

/-- **The winner acts**, and nobody is behind the exchange any more. -/
theorem act (h : Once flag done winner) {k : ι} (hk : winner k)
    (hw : ∀ j, winner' j ↔ j ≠ k ∧ winner j) : Once flag (done + 1) winner' := by
  obtain ⟨hdone, honly⟩ := h.alone hk
  have hnone : ∀ j, ¬ winner' j := fun j hj => ((hw j).mp hj).1 (honly ((hw j).mp hj).2)
  refine ⟨fun hf => ?_, fun hj => absurd hj (hnone _), fun _ => Or.inl ?_, ?_⟩
  · exact absurd hk ((h.fresh hf).2 k)
  · rw [hdone]
  · exact Nat.succ_le_succ (Nat.le_of_eq hdone)

theorem done_of_idle (h : Once true done winner) (hidle : ∀ k, ¬ winner k) : done = 1 := by
  rcases h.taken rfl with hdone | ⟨k, hk⟩
  · exact hdone
  · exact absurd hk (hidle k)

end Once
