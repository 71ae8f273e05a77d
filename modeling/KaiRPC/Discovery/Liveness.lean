import KaiRPC.Common.Config
import KaiRPC.Discovery.History
import KaiRPC.Discovery.RuntimeCommand

/-!
# The time to live and the heartbeat

The server and the centre read the time to live from the same file, each with its own code
(`getServiceTTL_eq`).  The server sends a heartbeat every half of it, but never more often than
`MIN_HEARTBEAT_INTERVAL_MS`, and the centre has no such bound.

* `OnSchedule`: the requests behind a registration at time zero, among them the heartbeats, each
  at its time.
* `live_server_iff`: **a server that keeps its heartbeats is always found**, if and only if the
  file does not ask for less than 100 ms.
-/

namespace KaiRPC

namespace Discovery

open Runtime_Command

def DEFAULT_SERVICE_TTL_MS : Int := 10000

def MIN_HEARTBEAT_INTERVAL_MS : Int := 100

/-- The centre. -/
def readIntConfig (config : ConfigMap) (key : Bytes) (default_value : Int) : Int :=
  match config[key]? with
  | none => default_value
  | some text =>
      if text = [] then default_value
      else
        let value := Text.atoi text
        if value > 0 then value else default_value

/-- `SERVICE_TTL_MS` of the centre. -/
def serviceTTL (file : Option Bytes) : Int :=
  readIntConfig (ConfigReader.getMap file) (str "service_ttl_ms") DEFAULT_SERVICE_TTL_MS

/-- The server. -/
def getServiceTTL (config : ConfigMap) : Int :=
  match config[str "service_ttl_ms"]? with
  | none => DEFAULT_SERVICE_TTL_MS
  | some text =>
      if text = [] then DEFAULT_SERVICE_TTL_MS
      else
        let ttl_ms := Text.atoi text
        if ttl_ms > 0 then ttl_ms else DEFAULT_SERVICE_TTL_MS

/-- The interval of `startServiceHeartbeat`. -/
def interval_ms (file : Option Bytes) : Int :=
  max MIN_HEARTBEAT_INTERVAL_MS (getServiceTTL (Config.setServiceCenterMap file) / 2)

/-- A command that writes or removes the entry of `name`. -/
def Command.touches (name : Bytes) : Command → Bool
  | .add n _ | .heartbeat n _ | .modify n _ | .delete n => n == name
  | _ => false

/-- The requests behind `k` heartbeats of `n`: the next one comes at its time, and everything
before it comes by then and leaves the entry of `n` alone. -/
inductive OnSchedule (interval : Int) (n ip : Bytes) (port : Int) : Nat → List Timed → Prop
  | nil (k : Nat) : OnSchedule interval n ip port k []
  | heartbeat {k : Nat} {r : Timed} {rs : List Timed} :
      r.request = .control (heartbeat_service n ip port) → r.now = interval * (k + 1) →
      OnSchedule interval n ip port (k + 1) rs → OnSchedule interval n ip port k (r :: rs)
  | other {k : Nat} {r : Timed} {rs : List Timed} :
      (∀ c ∈ r.request.command, c.touches n = false) → r.now ≤ interval * (k + 1) →
      OnSchedule interval n ip port k rs → OnSchedule interval n ip port k (r :: rs)

/-- A server that registers at time zero, on whatever the centre knows by then, is answered with
its address at every query. -/
def LiveServerFound (file : Option Bytes) : Prop :=
  ∀ (m : ServiceMap) (n ip : Bytes) (port : Int) (rs : List Timed), ValidName n → 0 ∉ ip →
    (heartbeat_service n ip port).length ≤ 1023 →
    Monotone (⟨0, .control (add_service n ip port)⟩ :: rs) →
    OnSchedule (interval_ms file) n ip port 0 rs → ∀ pre q post, rs = pre ++ q :: post →
    q.request = .query n →
    (handle (serviceTTL file) (after (serviceTTL file) m
        (⟨0, .control (add_service n ip port)⟩ :: pre)) q.now q.request).2
      = some (IPNetAddr.text ip port)

/-! ### The time to live -/

/-- **The two sides agree.** -/
theorem getServiceTTL_eq (file : Option Bytes) :
    getServiceTTL (Config.setServiceCenterMap file) = serviceTTL file := by
  have hdefault : getServiceTTL ((ConfigReader.getMap file).insert (str "service_ttl_ms")
      (str "10000")) = DEFAULT_SERVICE_TTL_MS := by
    rw [getServiceTTL, Std.TreeMap.getElem?_insert_self]
    decide
  rw [serviceTTL, readIntConfig, Config.setServiceCenterMap]
  dsimp only
  cases h : (ConfigReader.getMap file)[str "service_ttl_ms"]? with
  | none => rw [Option.all_none, if_pos rfl, hdefault]
  | some text =>
    by_cases htext : text = []
    · rw [if_pos (by simp [htext]), hdefault, htext]
      rfl
    · rw [if_neg (by simpa using htext), getServiceTTL, h]

/-- The file asks for less than 100 ms. -/
def Short (file : Option Bytes) : Prop :=
  ∃ text, (ConfigReader.getMap file)[str "service_ttl_ms"]? = some text ∧
    0 < Text.atoi text ∧ Text.atoi text < 100

theorem serviceTTL_lt_iff (file : Option Bytes) : serviceTTL file < 100 ↔ Short file := by
  have hdefault : DEFAULT_SERVICE_TTL_MS = 10000 := rfl
  rw [serviceTTL, readIntConfig, Short]
  cases (ConfigReader.getMap file)[str "service_ttl_ms"]? with
  | none => simp [hdefault]
  | some text =>
    by_cases htext : text = []
    · subst htext
      have hzero : Text.atoi [] = 0 := by decide
      simp [hdefault, hzero]
    · dsimp only
      rw [if_neg htext]
      by_cases hpos : Text.atoi text > 0
      · rw [if_pos hpos]
        simp [hpos]
      · rw [if_neg hpos]
        simp [hdefault, hpos]

theorem serviceTTL_pos (file : Option Bytes) : 0 < serviceTTL file := by
  rw [serviceTTL, readIntConfig]
  split
  · decide
  · split
    · decide
    · dsimp only
      split
      · assumption
      · decide

theorem interval_ms_le_iff (file : Option Bytes) :
    interval_ms file ≤ serviceTTL file ↔ ¬ Short file := by
  have hpos := serviceTTL_pos file
  have hmin : MIN_HEARTBEAT_INTERVAL_MS = 100 := rfl
  rw [interval_ms, getServiceTTL_eq, ← serviceTTL_lt_iff, hmin]
  omega

/-! ### The schedule -/

variable {SERVICE_TTL_MS interval port now : Int} {n ip : Bytes} {m : ServiceMap} {k : Nat}

theorem Command.entry_of_not_touches {c : Command} {node : ServiceNode}
    (hc : c.touches n = false) (hkept : unexpired SERVICE_TTL_MS (some node) now = some node) :
    c.entry SERVICE_TTL_MS now n (some node) = some node := by
  cases c with
  | add n' a => exact if_neg (beq_eq_false_iff_ne.mp hc)
  | heartbeat n' a => exact if_neg (beq_eq_false_iff_ne.mp hc)
  | modify n' a => exact if_neg (beq_eq_false_iff_ne.mp hc)
  | delete n' => exact if_neg (beq_eq_false_iff_ne.mp hc)
  | lookup => exact hkept
  | invalid => rfl
  | unknown => rfl
  | query n' =>
    rw [entry, hkept]
    exact ite_self _

/-- **One request**: the entry is as old as the last heartbeat. -/
theorem OnSchedule.step {r : Timed} {rs : List Timed} (hn : ValidName n) (hip : 0 ∉ ip)
    (hlen : (heartbeat_service n ip port).length ≤ 1023) (hle : interval ≤ SERVICE_TTL_MS)
    (h : OnSchedule interval n ip port k (r :: rs))
    (hm : m[n]? = some ⟨IPNetAddr.text ip port, interval * k⟩) :
    ∃ k' : Nat, (handle SERVICE_TTL_MS m r.now r.request).1[n]?
        = some ⟨IPNetAddr.text ip port, interval * k'⟩ ∧ OnSchedule interval n ip port k' rs := by
  cases h with
  | heartbeat hr hnow hrest =>
    refine ⟨k + 1, ?_, hrest⟩
    rw [hr, handle_of_command (command_heartbeat_service hn hip hlen), Command.getElem?_apply,
      Command.entry, if_pos rfl, hnow]
    rfl
  | other hquiet hnow hrest =>
    refine ⟨k, ?_, hrest⟩
    refine handle_map_of
      (P := fun m => m[n]? = some ⟨IPNetAddr.text ip port, interval * k⟩) hm fun c hc => ?_
    rw [Command.getElem?_apply, hm]
    refine Command.entry_of_not_touches (hquiet c hc) (unexpired_of_le ?_)
    rw [Int.mul_add, Int.mul_one] at hnow
    dsimp only
    omega

theorem OnSchedule.after (hn : ValidName n) (hip : 0 ∉ ip)
    (hlen : (heartbeat_service n ip port).length ≤ 1023) (hle : interval ≤ SERVICE_TTL_MS)
    {post : List Timed} (pre : List Timed) : ∀ {k : Nat} {m : ServiceMap},
    OnSchedule interval n ip port k (pre ++ post) →
    m[n]? = some ⟨IPNetAddr.text ip port, interval * k⟩ →
    ∃ k' : Nat, (after SERVICE_TTL_MS m pre)[n]?
        = some ⟨IPNetAddr.text ip port, interval * k'⟩ ∧
      OnSchedule interval n ip port k' post := by
  induction pre with
  | nil => exact fun h hm => ⟨_, hm, h⟩
  | cons r pre ih =>
    intro k m h hm
    obtain ⟨k', hm', h'⟩ := h.step hn hip hlen hle hm
    exact ih h' hm'

theorem getElem?_add_service (SERVICE_TTL_MS now : Int) (m : ServiceMap) {port : Int}
    (hn : ValidName n) (hip : 0 ∉ ip) (hlen : (add_service n ip port).length ≤ 1023) :
    (handle SERVICE_TTL_MS m now (.control (add_service n ip port))).1[n]?
      = some ⟨IPNetAddr.text ip port, now⟩ := by
  rw [handle_of_command (command_add_service hn hip hlen), Command.getElem?_apply, Command.entry,
    if_pos rfl]

theorem live_server_of_interval {file : Option Bytes} (hle : interval_ms file ≤ serviceTTL file) :
    LiveServerFound file := by
  rintro m n ip port rs hn hip hlen - hsched pre q post rfl hq
  have hadd : (add_service n ip port).length ≤ 1023 := by
    have hlen' := hlen
    rw [heartbeat_service, length_service_command,
      show (str "heartbeat").length = 9 from rfl] at hlen'
    rw [add_service, length_service_command, show (str "add").length = 3 from rfl]
    omega
  have hentry := getElem?_add_service (serviceTTL file) 0 m hn hip hadd
  obtain ⟨k, hm, hrest⟩ := hsched.after hn hip hlen hle pre
    (hentry.trans (by rw [Int.natCast_zero, Int.mul_zero]))
  rw [hq]
  cases hrest with
  | heartbeat hr _ _ =>
    rw [hq] at hr
    cases hr
  | other _ hnow _ =>
    rw [Int.mul_add, Int.mul_one] at hnow
    have hage : q.now - interval_ms file * k ≤ serviceTTL file := by omega
    exact query_reply (command_query_name hn (length_name_le hlen))
      ((congrArg (unexpired (serviceTTL file) · q.now) hm).trans (unexpired_of_le hage))

/-- With less than 100 ms the entry is expired before the first heartbeat. -/
theorem not_found_of_short {file : Option Bytes} (hshort : Short file) :
    ¬ LiveServerFound file := by
  intro h
  have hpos := serviceTTL_pos file
  have hlt := (serviceTTL_lt_iff file).mpr hshort
  have hfirst : 100 ≤ interval_ms file := le_max_left _ _
  have hn : ValidName (str "echo") := ⟨by decide, by decide, by decide⟩
  have hip : 0 ∉ str "10.0.0.1" := by decide
  have hlen : (add_service (str "echo") (str "10.0.0.1") 80).length ≤ 1023 := by decide +kernel
  have hquiet : ∀ c ∈ (Request.query (str "echo")).command, c.touches (str "echo") = false := by
    decide
  have hfound := h ∅ (str "echo") (str "10.0.0.1") 80
    [⟨serviceTTL file + 1, .query (str "echo")⟩] hn hip (by decide +kernel)
    (List.pairwise_pair.mpr (by dsimp only; omega))
    (.other hquiet (by dsimp only; omega) (.nil 0)) [] _ [] rfl rfl
  have hentry := getElem?_add_service (serviceTTL file) 0 ∅ hn hip hlen
  have hage : serviceTTL file < serviceTTL file + 1 - 0 := by omega
  have hunknown := query_reply (command_query_name hn (by decide))
    ((congrArg (unexpired (serviceTTL file) · (serviceTTL file + 1)) hentry).trans
      (unexpired_of_lt hage))
  exact absurd (hfound.symm.trans hunknown) (by decide +kernel)

/-- **A live server is always found exactly if the file does not ask for less than 100 ms.** -/
theorem live_server_iff (file : Option Bytes) : LiveServerFound file ↔ ¬ Short file :=
  ⟨fun h hshort => not_found_of_short hshort h,
    fun h => live_server_of_interval ((interval_ms_le_iff file).mpr h)⟩

/-- Heartbeats come every 100 ms, and an entry is good for 50. -/
theorem ttl_of_50_not_found : ¬ LiveServerFound (some (str "service_ttl_ms = 50")) :=
  not_found_of_short ⟨str "50", by decide +kernel, by decide, by decide⟩

end Discovery

end KaiRPC
