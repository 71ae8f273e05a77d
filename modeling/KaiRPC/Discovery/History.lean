import KaiRPC.Lib.LastWrite
import KaiRPC.Discovery.Registry

/-!
# The registry and its history

Runs of the service centre: requests with the time each is handled at.  The history of a run
is what was asked and answered, and nothing of the map.

An entry goes out of the map when it is deleted, and also when a `lookup` or a query finds it
expired.  `Tracks` relates the map to the history all the same: an entry is the last one that
was put under its name, or it is missing and that one is expired.

* `Live`: the last put of a name, not deleted since and not too old.
* `ttl_semantics`: **a query answers the live address of its name, and a `lookup` lists the
  live names with their addresses.**
-/

namespace KaiRPC

namespace Discovery

open LastWrite

structure Timed where
  now : Int
  request : Request
deriving DecidableEq, Repr

/-- A request with its reply. -/
structure Handled where
  time : Int
  request : Request
  reply : Option Bytes
deriving DecidableEq, Repr

/-- The map behind a run. -/
def after (SERVICE_TTL_MS : Int) (m : ServiceMap) : List Timed → ServiceMap
  | [] => m
  | r :: rs => after SERVICE_TTL_MS (handle SERVICE_TTL_MS m r.now r.request).1 rs

def history (SERVICE_TTL_MS : Int) (m : ServiceMap) : List Timed → List Handled
  | [] => []
  | r :: rs =>
      ⟨r.now, r.request, (handle SERVICE_TTL_MS m r.now r.request).2⟩
        :: history SERVICE_TTL_MS (handle SERVICE_TTL_MS m r.now r.request).1 rs

/-- The clock does not go back. -/
def Monotone (rs : List Timed) : Prop := rs.Pairwise fun a b => a.now ≤ b.now

instance (rs : List Timed) : Decidable (Monotone rs) :=
  inferInstanceAs (Decidable (rs.Pairwise fun a b => a.now ≤ b.now))

/-- Every request of the run meets `C` at the map it is handled on. -/
def Throughout (SERVICE_TTL_MS : Int) (C : ServiceMap → Timed → Prop) (m : ServiceMap) :
    List Timed → Prop
  | [] => True
  | r :: rs => C m r ∧ Throughout SERVICE_TTL_MS C (handle SERVICE_TTL_MS m r.now r.request).1 rs

instance instDecidableThroughout (SERVICE_TTL_MS : Int) (C : ServiceMap → Timed → Prop)
    [∀ m r, Decidable (C m r)] (m : ServiceMap) (rs : List Timed) :
    Decidable (Throughout SERVICE_TTL_MS C m rs) :=
  match rs with
  | [] => inferInstanceAs (Decidable True)
  | r :: rs =>
      have := instDecidableThroughout SERVICE_TTL_MS C
        (handle SERVICE_TTL_MS m r.now r.request).1 rs
      inferInstanceAs (Decidable (_ ∧ _))

/-- What a handled request did to the entry of a name. -/
def Handled.effect (e : Handled) (name : Bytes) : Option (Option ServiceNode) :=
  match e.request.command, e.reply with
  | some c, some reply => c.effect reply e.time name
  | _, _ => none

/-- The last successful `add`, `heartbeat` or `modify` of the name in the history carried `a`,
no successful `delete` of the name came after it, and it is not too old at `t`. -/
def Live (SERVICE_TTL_MS : Int) (log : List Handled) (name : Bytes) (t : Int) (a : Bytes) : Prop :=
  ∃ pre e post, log = pre ++ e :: post ∧ e.effect name = some (some ⟨a, e.time⟩) ∧
    (∀ e' ∈ post, e'.effect name = none) ∧ t - e.time ≤ SERVICE_TTL_MS

/-- What a `lookup` writes for the services it lists. -/
def lookupText (listed : List (Bytes × Bytes)) : Bytes :=
  if listed = [] then str "service map is empty"
  else listed.flatMap fun p => p.1 ++ str " " ++ p.2 ++ str "\n"

/-! ### Runs -/

theorem after_append (SERVICE_TTL_MS : Int) (rs rs' : List Timed) : ∀ m,
    after SERVICE_TTL_MS m (rs ++ rs') = after SERVICE_TTL_MS (after SERVICE_TTL_MS m rs) rs' := by
  induction rs with
  | nil => exact fun _ => rfl
  | cons r rs ih => exact fun _ => ih _

section

variable {SERVICE_TTL_MS : Int} {C : ServiceMap → Timed → Prop}

theorem throughout_append {rs rs' : List Timed} : ∀ {m},
    Throughout SERVICE_TTL_MS C m (rs ++ rs')
      ↔ Throughout SERVICE_TTL_MS C m rs ∧
        Throughout SERVICE_TTL_MS C (after SERVICE_TTL_MS m rs) rs' := by
  induction rs with
  | nil => exact ⟨fun h => ⟨trivial, h⟩, fun h => h.2⟩
  | cons r rs ih => exact (and_congr_right fun _ => ih).trans and_assoc.symm

theorem throughout_iff {rs : List Timed} {m : ServiceMap} :
    Throughout SERVICE_TTL_MS C m rs
      ↔ ∀ pre r post, rs = pre ++ r :: post → C (after SERVICE_TTL_MS m pre) r := by
  constructor
  · rintro h pre r post rfl
    exact (throughout_append.mp h).2.1
  · intro h
    induction rs generalizing m with
    | nil => trivial
    | cons r rs ih =>
      refine ⟨h [] r rs rfl, ih fun pre r' post hrs => h (r :: pre) r' post ?_⟩
      rw [hrs]
      rfl

end

/-! ### Expiry -/

variable {SERVICE_TTL_MS now now' t : Int} {old mid new : Option ServiceNode}

theorem isExpired_mono {node : ServiceNode} (h : isExpired SERVICE_TTL_MS node now = true)
    (hle : now ≤ now') : isExpired SERVICE_TTL_MS node now' = true := by
  simp only [isExpired, decide_eq_true_eq] at h ⊢
  omega

theorem Pruned.mono (h : Pruned SERVICE_TTL_MS now old new) (hle : now ≤ now') :
    Pruned SERVICE_TTL_MS now' old new :=
  h.imp_right fun h => ⟨h.1, h.2.imp fun _ hn => ⟨hn.1, isExpired_mono hn.2 hle⟩⟩

theorem Pruned.trans (h : Pruned SERVICE_TTL_MS now old mid)
    (h' : Pruned SERVICE_TTL_MS now mid new) : Pruned SERVICE_TTL_MS now old new := by
  obtain rfl | ⟨hmid, hold⟩ := h
  · exact h'
  · obtain rfl | ⟨hnew, -⟩ := h'
    · exact Or.inr ⟨hmid, hold⟩
    · exact Or.inr ⟨hnew, hold⟩

theorem Pruned.unexpired_eq (h : Pruned SERVICE_TTL_MS now old new) (hle : now ≤ t) :
    unexpired SERVICE_TTL_MS new t = unexpired SERVICE_TTL_MS old t := by
  obtain rfl | ⟨rfl, node, rfl, hexp⟩ := h
  · rfl
  · simp [unexpired, Option.filter, isExpired_mono hexp hle]

/-! ### The map tracks the history -/

/-- The entry the history says a name has. -/
def recorded (log : List Handled) (name : Bytes) : Option ServiceNode :=
  lastWrite (fun e => e.effect name) log

/-- Every entry is the recorded one, or it is missing and the recorded one is expired. -/
def Tracks (SERVICE_TTL_MS now : Int) (log : List Handled) (m : ServiceMap) : Prop :=
  ∀ name, Pruned SERVICE_TTL_MS now (recorded log name) m[name]?

theorem follows_handle (SERVICE_TTL_MS : Int) (m : ServiceMap) (r : Timed) (name : Bytes) :
    Follows SERVICE_TTL_MS r.now
      (Handled.effect ⟨r.now, r.request, (handle SERVICE_TTL_MS m r.now r.request).2⟩ name)
      m[name]? (handle SERVICE_TTL_MS m r.now r.request).1[name]? := by
  rw [Handled.effect, handle_eq]
  cases r.request.command with
  | none => exact Or.inl rfl
  | some c => exact c.follows_apply SERVICE_TTL_MS m r.now name

theorem Tracks.handle {log : List Handled} {m : ServiceMap} {r : Timed}
    (h : Tracks SERVICE_TTL_MS now log m) (hle : now ≤ r.now) :
    Tracks SERVICE_TTL_MS r.now
      (log ++ [⟨r.now, r.request, (handle SERVICE_TTL_MS m r.now r.request).2⟩])
      (Discovery.handle SERVICE_TTL_MS m r.now r.request).1 := by
  intro name
  have hf := follows_handle SERVICE_TTL_MS m r name
  rw [recorded, lastWrite_append]
  cases he : Handled.effect
      ⟨r.now, r.request, (Discovery.handle SERVICE_TTL_MS m r.now r.request).2⟩ name with
  | some v =>
    rw [he] at hf
    exact Or.inl hf
  | none =>
    rw [he] at hf
    exact ((h name).mono hle).trans hf

theorem Tracks.run (rs : List Timed) : ∀ {now : Int} {log : List Handled} {m : ServiceMap},
    Tracks SERVICE_TTL_MS now log m → now ≤ t → (∀ r ∈ rs, now ≤ r.now ∧ r.now ≤ t) →
    Monotone rs → Tracks SERVICE_TTL_MS t (log ++ history SERVICE_TTL_MS m rs)
      (after SERVICE_TTL_MS m rs) := by
  induction rs with
  | nil =>
    intro now log m h hle _ _ name
    rw [history, List.append_nil, after]
    exact (h name).mono hle
  | cons r rs ih =>
    intro now log m h _ hbounds hmono
    obtain ⟨hfirst, hrest⟩ := List.pairwise_cons.mp hmono
    obtain ⟨hr, hrt⟩ := hbounds r List.mem_cons_self
    have hnext := ih (h.handle hr) hrt (fun r' hr' => ⟨hfirst r' hr',
      (hbounds r' (List.mem_cons_of_mem _ hr')).2⟩) hrest
    rw [List.append_assoc] at hnext
    exact hnext

theorem tracks_after (SERVICE_TTL_MS : Int) {rs : List Timed} (hmono : Monotone rs) {t : Int}
    (ht : ∀ r ∈ rs, r.now ≤ t) :
    Tracks SERVICE_TTL_MS t (history SERVICE_TTL_MS ∅ rs) (after SERVICE_TTL_MS ∅ rs) := by
  have hempty : ∀ now, Tracks SERVICE_TTL_MS now [] ∅ := fun _ _ => Or.inl rfl
  cases rs with
  | nil => exact hempty t
  | cons r rs =>
    have hfirst := (List.pairwise_cons.mp hmono).1
    refine Tracks.run (r :: rs) (hempty r.now) (ht r List.mem_cons_self) (fun r' hr' => ?_) hmono
    refine ⟨?_, ht r' hr'⟩
    obtain rfl | hr' := List.mem_cons.mp hr'
    · exact le_rfl
    · exact hfirst r' hr'

/-! ### Answers -/

theorem Handled.effect_stamp {e : Handled} {name : Bytes} {node : ServiceNode}
    (h : e.effect name = some (some node)) : node.last_seen_ms = e.time := by
  unfold Handled.effect Command.effect at h
  grind

/-- **The live address** is that of the recorded entry, while it is unexpired. -/
theorem live_iff {log : List Handled} {name a : Bytes} :
    Live SERVICE_TTL_MS log name t a
      ↔ (unexpired SERVICE_TTL_MS (recorded log name) t).map ServiceNode.addr = some a := by
  rw [Option.map_eq_some_iff]
  simp only [unexpired, Option.filter_eq_some_iff, recorded, lastWrite_eq_some_iff]
  constructor
  · rintro ⟨pre, e, post, hlog, he, hpost, hle⟩
    refine ⟨⟨a, e.time⟩, ⟨⟨pre, e, post, hlog, he, hpost⟩, ?_⟩, rfl⟩
    simp only [isExpired, Bool.not_eq_true', decide_eq_false_iff_not]
    omega
  · rintro ⟨node, ⟨⟨pre, e, post, hlog, he, hpost⟩, hexp⟩, rfl⟩
    have hstamp := Handled.effect_stamp he
    refine ⟨pre, e, post, hlog, by rw [he, ← hstamp], hpost, ?_⟩
    simp only [isExpired, Bool.not_eq_true', decide_eq_false_iff_not] at hexp
    omega

theorem Tracks.answer_iff {log : List Handled} {m : ServiceMap}
    (h : Tracks SERVICE_TTL_MS t log m) {name a : Bytes} :
    answer SERVICE_TTL_MS m name t = some a ↔ Live SERVICE_TTL_MS log name t a := by
  rw [live_iff, ← (h name).unexpired_eq le_rfl]
  rfl

/-- The services a `lookup` lists, in the order of the map. -/
def listed (SERVICE_TTL_MS : Int) (m : ServiceMap) (now : Int) : List (Bytes × Bytes) :=
  (pruneExpiredServices SERVICE_TTL_MS m now).toList.map fun item => (item.1, item.2.addr)

theorem lookupMessage_eq (SERVICE_TTL_MS : Int) (m : ServiceMap) (now : Int) :
    lookupMessage (pruneExpiredServices SERVICE_TTL_MS m now)
      = lookupText (listed SERVICE_TTL_MS m now) := by
  rw [lookupMessage, lookupText, listed, List.flatMap_map]
  refine if_congr ?_ rfl rfl
  rw [← Std.TreeMap.isEmpty_toList, List.map_eq_nil_iff, List.isEmpty_iff]

theorem listed_sorted (SERVICE_TTL_MS : Int) (m : ServiceMap) (now : Int) :
    ((listed SERVICE_TTL_MS m now).map Prod.fst).Pairwise (compare · · = .lt) := by
  rw [listed, List.map_map, List.pairwise_map]
  exact Std.TreeMap.ordered_keys_toList

theorem mem_listed {m : ServiceMap} {name a : Bytes} :
    (name, a) ∈ listed SERVICE_TTL_MS m now ↔ answer SERVICE_TTL_MS m name now = some a := by
  rw [listed, List.mem_map, answer, Option.map_eq_some_iff,
    ← getElem?_pruneExpiredServices]
  constructor
  · rintro ⟨⟨k, node⟩, hmem, hpair⟩
    cases hpair
    exact ⟨node, Std.TreeMap.mem_toList_iff_getElem?_eq_some.mp hmem, rfl⟩
  · rintro ⟨node, hnode, rfl⟩
    exact ⟨(name, node), Std.TreeMap.mem_toList_iff_getElem?_eq_some.mpr hnode, rfl⟩

/-- **TTL semantics.** -/
theorem ttl_semantics (SERVICE_TTL_MS : Int) {rs : List Timed} (hmono : Monotone rs) {t : Int}
    (ht : ∀ r ∈ rs, r.now ≤ t) :
    (∀ sent ≠ [], ∃ found,
      (handle SERVICE_TTL_MS (after SERVICE_TTL_MS ∅ rs) t (.query sent)).2
        = some (found.getD (str "unknown host")) ∧
      ∀ a, found = some a
        ↔ Live SERVICE_TTL_MS (history SERVICE_TTL_MS ∅ rs) (receive sent) t a) ∧
    ∀ sent, (Request.control sent).command = some .lookup → ∃ services,
      (handle SERVICE_TTL_MS (after SERVICE_TTL_MS ∅ rs) t (.control sent)).2
        = some (lookupText services) ∧
      (services.map Prod.fst).Pairwise (compare · · = .lt) ∧
      ∀ name a, (name, a) ∈ services
        ↔ Live SERVICE_TTL_MS (history SERVICE_TTL_MS ∅ rs) name t a := by
  have htracks := tracks_after SERVICE_TTL_MS hmono ht
  constructor
  · intro sent hsent
    refine ⟨answer SERVICE_TTL_MS (after SERVICE_TTL_MS ∅ rs) (receive sent) t, ?_,
      fun a => htracks.answer_iff⟩
    exact query_reply (Request.command_query hsent) rfl
  · intro sent hlookup
    refine ⟨listed SERVICE_TTL_MS (after SERVICE_TTL_MS ∅ rs) t, ?_, listed_sorted .., fun name a =>
      mem_listed.trans htracks.answer_iff⟩
    rw [handle_of_command hlookup, ← lookupMessage_eq]
    rfl

theorem ttl_semantics_refreshed :
    let rs : List Timed := [⟨0, .control (str "add echo 10.0.0.1:80")⟩, ⟨5, .query (str "echo")⟩,
      ⟨8, .control (str "heartbeat echo 10.0.0.1:80")⟩]
    Monotone rs ∧ (∀ r ∈ rs, r.now ≤ 18) ∧
      (handle 10 (after 10 ∅ rs) 18 (.query (str "echo"))).2 = some (str "10.0.0.1:80") ∧
      Live 10 (history 10 ∅ rs) (str "echo") 18 (str "10.0.0.1:80") := by
  intro rs
  have hmono : Monotone rs := by decide
  have ht : ∀ r ∈ rs, r.now ≤ 18 := by decide
  have hanswer : (handle 10 (after 10 ∅ rs) 18 (.query (str "echo"))).2
      = some (str "10.0.0.1:80") := by decide +kernel
  obtain ⟨found, hreply, hlive⟩ := (ttl_semantics 10 hmono ht).1 (str "echo") (by decide)
  have hfound := Option.some_inj.mp (hanswer.symm.trans hreply)
  refine ⟨hmono, ht, hanswer, (hlive _).mp ?_⟩
  cases found with
  | none => exact absurd hfound (by decide)
  | some a => exact congrArg some hfound.symm

end Discovery

end KaiRPC
