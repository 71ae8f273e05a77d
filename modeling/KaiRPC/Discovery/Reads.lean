import KaiRPC.Discovery.History

/-!
# Reads of the registry

A query and a `lookup` take what they find expired out of the map, so a run with one more of
them is a run over a smaller map (`Behind`).  Nothing but a `modify` or a `delete` can tell:
they ask whether the name is in the map, and not whether its entry is expired.

* `Transparent`: one more read anywhere in the run changes no later reply and no later set of
  unexpired entries.
* `reads_transparent_iff`: **the runs that are transparent** are those in which no `modify` and
  no `delete` finds an expired entry under its name.
-/

namespace KaiRPC

namespace Discovery

/-- A query or a `lookup`. -/
def Request.IsRead (r : Request) : Prop :=
  r.command = some .lookup ∨ ∃ name, r.command = some (.query name)

def Transparent (SERVICE_TTL_MS : Int) (rs : List Timed) : Prop :=
  ∀ pre post q, rs = pre ++ post → q.request.IsRead → Monotone (pre ++ q :: post) →
    history SERVICE_TTL_MS (after SERVICE_TTL_MS ∅ (pre ++ [q])) post
        = history SERVICE_TTL_MS (after SERVICE_TTL_MS ∅ pre) post ∧
      ∀ mid rest t, post = mid ++ rest → (∀ r ∈ pre ++ q :: mid, r.now ≤ t) → ∀ name : Bytes,
        unexpired SERVICE_TTL_MS (after SERVICE_TTL_MS ∅ (pre ++ q :: mid))[name]? t
          = unexpired SERVICE_TTL_MS (after SERVICE_TTL_MS ∅ (pre ++ mid))[name]? t

/-- The command is a `modify` or a `delete` of a name whose entry is expired. -/
def Command.findsExpired (SERVICE_TTL_MS : Int) (m : ServiceMap) (now : Int) : Command → Bool
  | .modify name _ | .delete name =>
      m[name]?.any fun node => isExpired SERVICE_TTL_MS node now
  | _ => false

/-- The request does not find an expired entry under the name it modifies or deletes. -/
def Settled (SERVICE_TTL_MS : Int) (m : ServiceMap) (r : Timed) : Prop :=
  ∀ c ∈ r.request.command, c.findsExpired SERVICE_TTL_MS m r.now = false

instance (SERVICE_TTL_MS : Int) (m : ServiceMap) (r : Timed) :
    Decidable (Settled SERVICE_TTL_MS m r) :=
  inferInstanceAs (Decidable (∀ c ∈ r.request.command, _))

variable {SERVICE_TTL_MS now now' t : Int} {m m' : ServiceMap}

/-! ### A smaller map -/

/-- `m'` is `m` without some of the entries that are expired. -/
def Behind (SERVICE_TTL_MS now : Int) (m m' : ServiceMap) : Prop :=
  ∀ name : Bytes, Pruned SERVICE_TTL_MS now m[name]? m'[name]?

theorem Request.IsRead.behind {r : Timed} (h : r.request.IsRead) (m : ServiceMap) :
    Behind SERVICE_TTL_MS r.now m (handle SERVICE_TTL_MS m r.now r.request).1 := by
  intro name
  obtain h | ⟨n, h⟩ := h
  · rw [handle_of_command h, Command.getElem?_apply]
    exact pruned_unexpired SERVICE_TTL_MS r.now m[name]?
  · rw [handle_of_command h, Command.getElem?_apply, Command.entry]
    split
    · exact pruned_unexpired SERVICE_TTL_MS r.now m[name]?
    · exact Or.inl rfl

theorem Behind.mono (h : Behind SERVICE_TTL_MS now m m') (hle : now ≤ now') :
    Behind SERVICE_TTL_MS now' m m' := fun name => (h name).mono hle

theorem Behind.lookupMessage_eq (h : Behind SERVICE_TTL_MS now m m') :
    lookupMessage (pruneExpiredServices SERVICE_TTL_MS m' now)
      = lookupMessage (pruneExpiredServices SERVICE_TTL_MS m now) := by
  have hequiv : (pruneExpiredServices SERVICE_TTL_MS m' now).Equiv
      (pruneExpiredServices SERVICE_TTL_MS m now) := by
    refine Std.TreeMap.Equiv.of_forall_constGet?_eq fun name => ?_
    rw [getElem?_pruneExpiredServices, getElem?_pruneExpiredServices]
    exact (h name).unexpired_eq le_rfl
  rw [lookupMessage, lookupMessage, hequiv.toList_eq, hequiv.isEmpty_eq]

theorem Pruned.eq_of_unexpired {old new : Option ServiceNode}
    (h : Pruned SERVICE_TTL_MS now old new)
    (hunexp : (old.any fun node => isExpired SERVICE_TTL_MS node now) = false) : new = old := by
  obtain rfl | ⟨-, node, rfl, hexp⟩ := h
  · rfl
  · rw [Option.any_some, hexp] at hunexp
    exact absurd hunexp (by decide)

/-- **One command** that finds nothing expired has the same reply over a smaller map. -/
theorem Behind.reply_eq (h : Behind SERVICE_TTL_MS now m m') {c : Command}
    (hc : c.findsExpired SERVICE_TTL_MS m now = false) :
    c.reply SERVICE_TTL_MS m' now = c.reply SERVICE_TTL_MS m now := by
  have hmem : ∀ {name : Bytes}, m'[name]? = m[name]? → (name ∈ m' ↔ name ∈ m) := fun heq => by
    rw [Std.TreeMap.mem_iff_isSome_getElem?, Std.TreeMap.mem_iff_isSome_getElem?, heq]
  cases c with
  | add n a => rfl
  | heartbeat n a => rfl
  | modify n a => exact if_congr (hmem ((h n).eq_of_unexpired hc)) rfl rfl
  | delete n => exact if_congr (hmem ((h n).eq_of_unexpired hc)) rfl rfl
  | lookup => exact h.lookupMessage_eq
  | invalid => rfl
  | unknown => rfl
  | query n =>
    dsimp only [Command.reply, answer]
    rw [(h n).unexpired_eq le_rfl]

theorem Pruned.ite {P : Prop} [Decidable P] {old new v v' : Option ServiceNode}
    (h : Pruned SERVICE_TTL_MS now old new) (hP : P → Pruned SERVICE_TTL_MS now v v') :
    Pruned SERVICE_TTL_MS now (if P then v else old) (if P then v' else new) := by
  split
  · rename_i hp
    exact hP hp
  · exact h

/-- **One command** keeps the smaller map behind the other. -/
theorem Behind.apply (h : Behind SERVICE_TTL_MS now m m') {c : Command}
    (hc : c.findsExpired SERVICE_TTL_MS m now = false) :
    Behind SERVICE_TTL_MS now (c.apply SERVICE_TTL_MS m now) (c.apply SERVICE_TTL_MS m' now) := by
  intro name
  rw [Command.getElem?_apply, Command.getElem?_apply]
  cases c with
  | add n a => exact (h name).ite fun _ => Or.inl rfl
  | heartbeat n a => exact (h name).ite fun _ => Or.inl rfl
  | modify n a =>
    refine (h name).ite fun hn => Or.inl ?_
    rw [← hn, (h n).eq_of_unexpired hc]
  | delete n => exact (h name).ite fun _ => Or.inl rfl
  | lookup => exact Or.inl ((h name).unexpired_eq le_rfl)
  | invalid => exact h name
  | unknown => exact h name
  | query n => exact (h name).ite fun _ => Or.inl ((h name).unexpired_eq le_rfl)

/-! ### Whole runs -/

theorem Behind.handle {r : Timed} (h : Behind SERVICE_TTL_MS now m m') (hle : now ≤ r.now)
    (hr : Settled SERVICE_TTL_MS m r) :
    (handle SERVICE_TTL_MS m' r.now r.request).2 = (handle SERVICE_TTL_MS m r.now r.request).2 ∧
      Behind SERVICE_TTL_MS r.now (handle SERVICE_TTL_MS m r.now r.request).1
        (handle SERVICE_TTL_MS m' r.now r.request).1 := by
  rw [handle_eq, handle_eq]
  cases hc : r.request.command with
  | none => exact ⟨rfl, h.mono hle⟩
  | some c =>
    have hsettled := hr c hc
    exact ⟨congrArg some ((h.mono hle).reply_eq hsettled), (h.mono hle).apply hsettled⟩

/-- **A run of settled requests** has the same replies over a smaller map. -/
theorem Behind.history_eq (rs : List Timed) : ∀ {now : Int} {m m' : ServiceMap},
    Behind SERVICE_TTL_MS now m m' → Monotone rs → (∀ r ∈ rs, now ≤ r.now) →
    Throughout SERVICE_TTL_MS (Settled SERVICE_TTL_MS) m rs →
    history SERVICE_TTL_MS m' rs = history SERVICE_TTL_MS m rs := by
  induction rs with
  | nil => exact fun _ _ _ _ => rfl
  | cons r rs ih =>
    intro now m m' h hmono hnow hsettled
    obtain ⟨hfirst, hrest⟩ := List.pairwise_cons.mp hmono
    obtain ⟨hreply, hnext⟩ := h.handle (hnow r List.mem_cons_self) hsettled.1
    rw [history, history, hreply, ih hnext hrest hfirst hsettled.2]

theorem Behind.after (rs : List Timed) : ∀ {now : Int} {m m' : ServiceMap},
    Behind SERVICE_TTL_MS now m m' → now ≤ t → Monotone rs →
    (∀ r ∈ rs, now ≤ r.now ∧ r.now ≤ t) →
    Throughout SERVICE_TTL_MS (Settled SERVICE_TTL_MS) m rs →
    Behind SERVICE_TTL_MS t (after SERVICE_TTL_MS m rs) (after SERVICE_TTL_MS m' rs) := by
  induction rs with
  | nil => exact fun h hle _ _ _ => h.mono hle
  | cons r rs ih =>
    intro now m m' h _ hmono hnow hsettled
    obtain ⟨hfirst, hrest⟩ := List.pairwise_cons.mp hmono
    obtain ⟨hr, hrt⟩ := hnow r List.mem_cons_self
    exact ih (h.handle hr hsettled.1).2 hrt hrest
      (fun r' hr' => ⟨hfirst r' hr', (hnow r' (List.mem_cons_of_mem r hr')).2⟩) hsettled.2

theorem transparent_of_settled {rs : List Timed}
    (hsettled : Throughout SERVICE_TTL_MS (Settled SERVICE_TTL_MS) ∅ rs) :
    Transparent SERVICE_TTL_MS rs := by
  rintro pre post q rfl hread hmono
  obtain ⟨-, hpost, -⟩ := List.pairwise_append.mp hmono
  obtain ⟨hq, hpost⟩ := List.pairwise_cons.mp hpost
  have hsettled := (throughout_append.mp hsettled).2
  have hbehind : Behind SERVICE_TTL_MS q.now (after SERVICE_TTL_MS ∅ pre)
      (handle SERVICE_TTL_MS (after SERVICE_TTL_MS ∅ pre) q.now q.request).1 := hread.behind _
  constructor
  · rw [after_append]
    exact hbehind.history_eq post hpost hq hsettled
  · rintro mid rest t rfl ht name
    rw [after_append, after_append]
    refine ((hbehind.after mid (ht q (by simp)) (List.pairwise_append.mp hpost).1
      (fun r hr => ⟨hq r (by simp [hr]), ht r (by simp [hr])⟩)
      (throughout_append.mp hsettled).1) name).unexpired_eq le_rfl

/-! ### The runs that are not transparent -/

/-- A `modify` or a `delete` of an expired entry succeeds, and behind a `lookup` it does not. -/
theorem Command.reply_ne_of_findsExpired {c : Command}
    (h : c.findsExpired SERVICE_TTL_MS m now = true) :
    c.reply SERVICE_TTL_MS (pruneExpiredServices SERVICE_TTL_MS m now) now
      ≠ c.reply SERVICE_TTL_MS m now := by
  have hmem : ∀ {name : Bytes},
      (m[name]?.any fun node => isExpired SERVICE_TTL_MS node now) = true →
      name ∈ m ∧ name ∉ pruneExpiredServices SERVICE_TTL_MS m now := by
    intro name hany
    obtain ⟨node, hnode, hexp⟩ := (Option.any_eq_true _ _).mp hany
    rw [Std.TreeMap.mem_iff_isSome_getElem?, Std.TreeMap.mem_iff_isSome_getElem?,
      getElem?_pruneExpiredServices, hnode]
    simp [unexpired, hexp, Option.filter]
  cases c with
  | modify n a =>
    dsimp only [reply]
    rw [if_pos (hmem h).1, if_neg (hmem h).2]
    decide
  | delete n =>
    dsimp only [reply]
    rw [if_pos (hmem h).1, if_neg (hmem h).2]
    decide
  | _ => cases h

theorem Monotone.insert_twin {pre post : List Timed} {r q : Timed} (hq : q.now = r.now)
    (h : Monotone (pre ++ r :: post)) : Monotone (pre ++ q :: r :: post) := by
  obtain ⟨hpre, hpost, hcross⟩ := List.pairwise_append.mp h
  refine List.pairwise_append.mpr ⟨hpre, List.pairwise_cons.mpr ⟨?_, hpost⟩, ?_⟩
  · intro r' hr'
    rw [hq]
    obtain rfl | hr' := List.mem_cons.mp hr'
    · exact le_rfl
    · exact (List.pairwise_cons.mp hpost).1 r' hr'
  · intro r' hr' r'' hr''
    obtain rfl | hr'' := List.mem_cons.mp hr''
    · rw [hq]
      exact hcross r' hr' r List.mem_cons_self
    · exact hcross r' hr' r'' hr''

/-- **Reads are transparent in exactly the runs of settled requests.** -/
theorem reads_transparent_iff (SERVICE_TTL_MS : Int) {rs : List Timed} (hmono : Monotone rs) :
    Transparent SERVICE_TTL_MS rs
      ↔ Throughout SERVICE_TTL_MS (Settled SERVICE_TTL_MS) ∅ rs := by
  refine ⟨fun htrans => throughout_iff.mpr fun pre r post hrs c hc => ?_, transparent_of_settled⟩
  by_contra hexp
  -- A `lookup` right before the request.
  have hlookup : (Request.control (str "lookup")).command = some .lookup := by decide
  have hsame := (htrans pre (r :: post) ⟨r.now, .control (str "lookup")⟩ hrs (Or.inl hlookup)
    (Monotone.insert_twin rfl (hrs ▸ hmono))).1
  rw [after_append, history, history] at hsame
  have hreply := congrArg Handled.reply (List.cons.inj hsame).1
  dsimp only [after] at hreply
  rw [handle_of_command hc, handle_of_command hc, handle_of_command hlookup] at hreply
  exact Command.reply_ne_of_findsExpired ((Bool.not_eq_false _).mp hexp)
    (Option.some_inj.mp hreply)

theorem reads_transparent_iff_unexpired :
    let rs : List Timed := [⟨0, .control (str "add echo 10.0.0.1:80")⟩,
      ⟨10, .control (str "modify echo 10.0.0.2:80")⟩, ⟨30, .query (str "echo")⟩]
    Monotone rs ∧ Throughout 10 (Settled 10) ∅ rs ∧ Transparent 10 rs := by
  intro rs
  have hmono : Monotone rs := by decide
  have hsettled : Throughout 10 (Settled 10) ∅ rs := by decide +kernel
  exact ⟨hmono, hsettled, (reads_transparent_iff 10 hmono).mpr hsettled⟩

/-- The entry expires at 10.  A `lookup` at 20 decides what becomes of the `modify`. -/
theorem modify_sees_lookup :
    let rs : List Timed := [⟨0, .control (str "add echo 10.0.0.1:80")⟩,
      ⟨20, .control (str "modify echo 10.0.0.2:80")⟩]
    Monotone rs ∧ ¬ Transparent 10 rs := by
  refine ⟨by decide, fun h => ?_⟩
  have hsame := (h [⟨0, .control (str "add echo 10.0.0.1:80")⟩]
    [⟨20, .control (str "modify echo 10.0.0.2:80")⟩] ⟨20, .control (str "lookup")⟩ rfl
    (Or.inl (by decide)) (by decide)).1
  exact absurd hsame (by decide +kernel)

end Discovery

end KaiRPC
