import Mathlib.Data.List.Induction

/-!
# The last write

A log whose entries may write a cell, clear it or leave it alone, and what the cell holds
after the log: what the last entry to touch it wrote (`lastWrite_eq_some_iff`).
-/

universe u v

namespace LastWrite

variable {ε : Type u} {β : Type v}

/-- The cell after a log; `f e` is what `e` puts there, if it touches the cell. -/
def lastWrite (f : ε → Option (Option β)) (log : List ε) : Option β :=
  log.foldl (fun old e => (f e).getD old) none

theorem lastWrite_append (f : ε → Option (Option β)) (log : List ε) (e : ε) :
    lastWrite f (log ++ [e]) = (f e).getD (lastWrite f log) := by
  rw [lastWrite, List.foldl_append]
  rfl

/-- **The cell holds what the last entry that touched it wrote.** -/
theorem lastWrite_eq_some_iff {f : ε → Option (Option β)} {log : List ε} {v : β} :
    lastWrite f log = some v ↔ ∃ pre e post, log = pre ++ e :: post ∧ f e = some (some v) ∧
      ∀ e' ∈ post, f e' = none := by
  induction log using List.reverseRecOn with
  | nil => simp [lastWrite]
  | append_singleton log e ih =>
    rw [lastWrite_append]
    constructor
    · intro h
      cases he : f e with
      | some w =>
        rw [he] at h
        exact ⟨log, e, [], rfl, he.trans (congrArg some h), nofun⟩
      | none =>
        rw [he] at h
        obtain ⟨pre, e₀, post, rfl, he₀, hpost⟩ := ih.mp h
        refine ⟨pre, e₀, post ++ [e], by simp, he₀, fun e' he' => ?_⟩
        obtain he' | he' := List.mem_append.mp he'
        · exact hpost e' he'
        · rw [List.mem_singleton.mp he']
          exact he
    · rintro ⟨pre, e₀, post, hlog, he₀, hpost⟩
      -- The entry that wrote is the new one, or the new one did not touch the cell.
      cases post using List.reverseRecOn with
      | nil =>
        obtain ⟨rfl, hl⟩ := List.append_inj' hlog rfl
        cases hl
        rw [he₀]
        rfl
      | append_singleton post e' =>
        rw [← List.cons_append, ← List.append_assoc] at hlog
        obtain ⟨rfl, hl⟩ := List.append_inj' hlog rfl
        cases hl
        rw [hpost e (by simp)]
        exact ih.mpr ⟨pre, e₀, post, rfl, he₀, fun e' he' => hpost e' (by simp [he'])⟩

end LastWrite
