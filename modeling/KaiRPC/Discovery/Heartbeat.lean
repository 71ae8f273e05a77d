import KaiRPC.Discovery.History

/-!
# Heartbeats and the operator

`startServiceHeartbeat` sends, for as long as the server runs, the address the service was
registered with, and the centre handles a `heartbeat` as an `add`.  What the operator did with
`modify` or `delete` stands until the next heartbeat comes in.

* `OperatorStands`: what a `modify` wrote is answered until the next `add`, `modify` or `delete`
  of the name, a deleted name is unknown until the next `add`, and a heartbeat does nothing but
  refresh an entry.
* `operator_stands_iff`: **the runs in which the operator stands** are those in which every
  heartbeat finds an entry with the address it carries.
-/

namespace KaiRPC

namespace Discovery

/-- An `add`, a `modify` or a `delete` of `name`. -/
def Command.sets (name : Bytes) : Command → Bool
  | .add n _ | .modify n _ | .delete n => n == name
  | _ => false

structure OperatorStands (SERVICE_TTL_MS : Int) (rs : List Timed) : Prop where
  /-- A heartbeat refreshes the entry of its name, if there is one, and changes nothing else. -/
  refreshes : ∀ (pre : List Timed) (r : Timed) (post : List Timed) (n a : Bytes),
    rs = pre ++ r :: post →
    r.request.command = some (.heartbeat n a) → ∀ name : Bytes,
    (handle SERVICE_TTL_MS (after SERVICE_TTL_MS ∅ pre) r.now r.request).1[name]?
      = (after SERVICE_TTL_MS ∅ pre)[name]?.map fun node =>
          if n = name then { node with last_seen_ms := r.now } else node
  /-- Within the TTL of a successful `modify`, or of a heartbeat since, a query answers what it
  wrote. -/
  modified : ∀ (pre : List Timed) (r : Timed) (mid : List Timed) (q : Timed) (post : List Timed)
    (n b : Bytes), rs = pre ++ r :: (mid ++ q :: post) →
    r.request.command = some (.modify n b) →
    (handle SERVICE_TTL_MS (after SERVICE_TTL_MS ∅ pre) r.now r.request).2
      = some (str "modify service success") →
    (∀ r' ∈ mid, ∀ c ∈ r'.request.command, c.sets n = false) →
    q.request.command = some (.query n) →
    (∃ s ∈ r :: mid, (s = r ∨ ∃ a, s.request.command = some (.heartbeat n a)) ∧
      q.now - s.now ≤ SERVICE_TTL_MS) →
    (handle SERVICE_TTL_MS (after SERVICE_TTL_MS ∅ (pre ++ r :: mid)) q.now q.request).2 = some b
  deleted : ∀ (pre : List Timed) (r : Timed) (mid : List Timed) (q : Timed) (post : List Timed)
    (n : Bytes), rs = pre ++ r :: (mid ++ q :: post) →
    r.request.command = some (.delete n) →
    (handle SERVICE_TTL_MS (after SERVICE_TTL_MS ∅ pre) r.now r.request).2
      = some (str "delete service success") →
    (∀ r' ∈ mid, ∀ a, r'.request.command ≠ some (.add n a)) →
    q.request.command = some (.query n) →
    (handle SERVICE_TTL_MS (after SERVICE_TTL_MS ∅ (pre ++ r :: mid)) q.now q.request).2
      = some (str "unknown host")

/-- A heartbeat for which there is no entry with its address. -/
def Command.strays (m : ServiceMap) : Command → Bool
  | .heartbeat n a => m[n]?.all fun node => node.addr != a
  | _ => false

/-- The request is no such heartbeat. -/
def Matches (m : ServiceMap) (r : Timed) : Prop := ∀ c ∈ r.request.command, c.strays m = false

instance (m : ServiceMap) (r : Timed) : Decidable (Matches m r) :=
  inferInstanceAs (Decidable (∀ c ∈ r.request.command, _))

variable {SERVICE_TTL_MS now now' t s : Int} {m : ServiceMap} {n b : Bytes}

theorem Command.strays_eq_false {a : Bytes} :
    (Command.heartbeat n a).strays m = false ↔ ∃ node, m[n]? = some node ∧ node.addr = a := by
  rw [strays]
  cases m[n]? with
  | none => simp
  | some node => simp

/-! ### A modified entry -/

/-- The entry is `b`, seen at `s` or later, or such an entry was expired and is gone. -/
def Kept (SERVICE_TTL_MS now s : Int) (b : Bytes) (entry : Option ServiceNode) : Prop :=
  ∃ seen, s ≤ seen ∧ Pruned SERVICE_TTL_MS now (some ⟨b, seen⟩) entry

theorem Kept.mono {entry : Option ServiceNode} (h : Kept SERVICE_TTL_MS now s b entry)
    (hle : now ≤ now') : Kept SERVICE_TTL_MS now' s b entry :=
  h.imp fun _ h => ⟨h.1, h.2.mono hle⟩

theorem Kept.addr_eq {node : ServiceNode} (h : Kept SERVICE_TTL_MS now s b (some node)) :
    node.addr = b := by
  obtain ⟨seen, -, heq | ⟨hnone, -⟩⟩ := h
  · cases heq
    rfl
  · cases hnone

theorem Kept.heartbeat_addr {a : Bytes} (h : Kept SERVICE_TTL_MS now s b m[n]?)
    (hc : (Command.heartbeat n a).strays m = false) : a = b := by
  obtain ⟨node, hnode, rfl⟩ := Command.strays_eq_false.mp hc
  rw [hnode] at h
  exact h.addr_eq

theorem Kept.prune {old new : Option ServiceNode} (h : Kept SERVICE_TTL_MS now s b old)
    (hp : Pruned SERVICE_TTL_MS now old new) : Kept SERVICE_TTL_MS now s b new :=
  h.imp fun _ h => ⟨h.1, h.2.trans hp⟩

/-- **One command** that does not set the name, and is no stray heartbeat. -/
theorem Kept.apply (h : Kept SERVICE_TTL_MS now s b m[n]?) (hs : s ≤ now) {c : Command}
    (hsets : c.sets n = false) (hc : c.strays m = false) :
    Kept SERVICE_TTL_MS now s b (c.apply SERVICE_TTL_MS m now)[n]? := by
  rw [Command.getElem?_apply]
  cases c with
  | add n' a =>
    rw [Command.entry, if_neg (beq_eq_false_iff_ne.mp hsets)]
    exact h
  | heartbeat n' a =>
    rw [Command.entry]
    split
    · rename_i hn
      subst hn
      rw [h.heartbeat_addr hc]
      exact ⟨now, hs, Or.inl rfl⟩
    · exact h
  | modify n' a =>
    rw [Command.entry, if_neg (beq_eq_false_iff_ne.mp hsets)]
    exact h
  | delete n' =>
    rw [Command.entry, if_neg (beq_eq_false_iff_ne.mp hsets)]
    exact h
  | lookup => exact h.prune (pruned_unexpired SERVICE_TTL_MS now m[n]?)
  | invalid => exact h
  | unknown => exact h
  | query n' =>
    rw [Command.entry]
    split
    · exact h.prune (pruned_unexpired SERVICE_TTL_MS now m[n]?)
    · exact h

theorem Kept.after (rs : List Timed) : ∀ {now : Int} {m : ServiceMap},
    Kept SERVICE_TTL_MS now s b m[n]? → s ≤ now → now ≤ t → Monotone rs →
    (∀ r ∈ rs, now ≤ r.now ∧ r.now ≤ t) → (∀ r ∈ rs, ∀ c ∈ r.request.command, c.sets n = false) →
    Throughout SERVICE_TTL_MS Matches m rs →
    Kept SERVICE_TTL_MS t s b (after SERVICE_TTL_MS m rs)[n]? := by
  induction rs with
  | nil => exact fun h _ hle _ _ _ _ => h.mono hle
  | cons r rs ih =>
    intro now m h hs _ hmono hnow hquiet hmatch
    obtain ⟨hfirst, hrest⟩ := List.pairwise_cons.mp hmono
    obtain ⟨hr, hrt⟩ := hnow r List.mem_cons_self
    refine ih ?_ (hs.trans hr) hrt hrest
      (fun r' hr' => ⟨hfirst r' hr', (hnow r' (List.mem_cons_of_mem r hr')).2⟩)
      (fun r' hr' => hquiet r' (List.mem_cons_of_mem r hr')) hmatch.2
    exact handle_map_of (P := fun m => Kept SERVICE_TTL_MS r.now s b m[n]?) (h.mono hr) fun c hc =>
      (h.mono hr).apply (hs.trans hr) (hquiet r List.mem_cons_self c hc) (hmatch.1 c hc)

theorem Kept.query_reply {q : Timed} (h : Kept SERVICE_TTL_MS q.now s b m[n]?)
    (hc : q.request.command = some (.query n)) (hq : q.now - s ≤ SERVICE_TTL_MS) :
    (handle SERVICE_TTL_MS m q.now q.request).2 = some b := by
  obtain ⟨seen, hseen, hp⟩ := h
  have hentry := (hp.unexpired_eq le_rfl).trans (unexpired_of_le (by dsimp only; omega))
  exact Discovery.query_reply hc hentry

theorem Kept.heartbeat {r : Timed} {a : Bytes} (h : Kept SERVICE_TTL_MS now s b m[n]?)
    (hc : r.request.command = some (.heartbeat n a)) (hmatch : Matches m r) :
    Kept SERVICE_TTL_MS r.now r.now b (handle SERVICE_TTL_MS m r.now r.request).1[n]? := by
  rw [handle_of_command hc, Command.getElem?_apply, Command.entry, if_pos rfl,
    h.heartbeat_addr (hmatch _ hc)]
  exact ⟨r.now, le_rfl, Or.inl rfl⟩

theorem kept_modify {r : Timed} (hc : r.request.command = some (.modify n b))
    (hreply : (handle SERVICE_TTL_MS m r.now r.request).2 = some (str "modify service success")) :
    Kept SERVICE_TTL_MS r.now r.now b (handle SERVICE_TTL_MS m r.now r.request).1[n]? := by
  rw [handle_of_command hc] at hreply ⊢
  have hin : n ∈ m := by
    by_contra hnot
    dsimp only [Command.reply] at hreply
    rw [if_neg hnot] at hreply
    exact absurd hreply (by decide)
  obtain ⟨node, hnode⟩ := exists_getElem? hin
  rw [Command.getElem?_apply, Command.entry, if_pos rfl, hnode]
  exact ⟨r.now, le_rfl, Or.inl rfl⟩

/-! ### A deleted entry -/

theorem gone_delete {r : Timed} (hc : r.request.command = some (.delete n)) (m : ServiceMap) :
    (handle SERVICE_TTL_MS m r.now r.request).1[n]? = none := by
  rw [handle_of_command hc, Command.getElem?_apply, Command.entry, if_pos rfl]

/-- **One command** that does not add the name, and is no stray heartbeat. -/
theorem gone_apply (h : m[n]? = none) {c : Command} (hadd : ∀ a, c ≠ .add n a)
    (hc : c.strays m = false) : (c.apply SERVICE_TTL_MS m now)[n]? = none := by
  rw [Command.getElem?_apply, h]
  cases c with
  | add n' a =>
    rw [Command.entry, if_neg]
    rintro rfl
    exact hadd a rfl
  | heartbeat n' a =>
    rw [Command.entry, if_neg]
    rintro rfl
    obtain ⟨node, hnode, -⟩ := Command.strays_eq_false.mp hc
    rw [h] at hnode
    cases hnode
  | modify n' a => exact ite_self none
  | delete n' => exact ite_self none
  | lookup => rfl
  | invalid => rfl
  | unknown => rfl
  | query n' => exact ite_self none

theorem gone_after (rs : List Timed) : ∀ {m : ServiceMap}, m[n]? = none →
    (∀ r ∈ rs, ∀ a, r.request.command ≠ some (.add n a)) →
    Throughout SERVICE_TTL_MS Matches m rs → (after SERVICE_TTL_MS m rs)[n]? = none := by
  induction rs with
  | nil => exact fun h _ _ => h
  | cons r rs ih =>
    intro m h hadd hmatch
    refine ih ?_ (fun r' hr' => hadd r' (List.mem_cons_of_mem r hr')) hmatch.2
    refine handle_map_of (P := fun m => m[n]? = none) h fun c hc => ?_
    refine gone_apply h (fun a heq => hadd r List.mem_cons_self a ?_) (hmatch.1 c hc)
    rw [hc, heq]

/-! ### Heartbeats -/

/-- **A heartbeat only refreshes** an entry exactly if it matches one. -/
theorem heartbeat_refreshes_iff {r : Timed} {a : Bytes}
    (hc : r.request.command = some (.heartbeat n a)) :
    (∀ name : Bytes, (handle SERVICE_TTL_MS m r.now r.request).1[name]? = m[name]?.map fun node =>
      if n = name then { node with last_seen_ms := r.now } else node) ↔ Matches m r := by
  rw [handle_of_command hc]
  simp only [Command.getElem?_apply, Command.entry, Matches, hc, Option.mem_some_iff,
    forall_eq']
  constructor
  · intro h
    have hn := (h n).symm
    rw [if_pos rfl] at hn
    obtain ⟨node, hnode, heq⟩ := Option.map_eq_some_iff.mp hn
    rw [if_pos rfl] at heq
    exact Command.strays_eq_false.mpr ⟨node, hnode, congrArg ServiceNode.addr heq⟩
  · intro h name
    obtain ⟨node, hnode, rfl⟩ := Command.strays_eq_false.mp h
    split
    · rename_i hn
      rw [← hn, hnode]
      rfl
    · exact Option.map_id_apply.symm

/-! ### Whole runs -/

theorem modified_of_matches {r q : Timed} {mid : List Timed} (hmono : Monotone (r :: (mid ++ [q])))
    (hc : r.request.command = some (.modify n b))
    (hreply : (handle SERVICE_TTL_MS m r.now r.request).2 = some (str "modify service success"))
    (hquiet : ∀ r' ∈ mid, ∀ c ∈ r'.request.command, c.sets n = false)
    (hq : q.request.command = some (.query n))
    (hseen : ∃ s ∈ r :: mid, (s = r ∨ ∃ a, s.request.command = some (.heartbeat n a)) ∧
      q.now - s.now ≤ SERVICE_TTL_MS)
    (hmatch : Throughout SERVICE_TTL_MS Matches
      (handle SERVICE_TTL_MS m r.now r.request).1 mid) :
    (handle SERVICE_TTL_MS (after SERVICE_TTL_MS m (r :: mid)) q.now q.request).2 = some b := by
  obtain ⟨hr, hrest⟩ := List.pairwise_cons.mp hmono
  obtain ⟨hmid, -, hmidq⟩ := List.pairwise_append.mp hrest
  have hend : ∀ r' ∈ mid, r'.now ≤ q.now := fun r' hr' => hmidq r' hr' q (List.mem_singleton_self q)
  have hkept := kept_modify hc hreply
  obtain ⟨s, hs, rfl | ⟨a, ha⟩, hle⟩ := hseen
  · exact (hkept.after mid le_rfl (hr q (by simp)) hmid
      (fun r' hr' => ⟨hr r' (by simp [hr']), hend r' hr'⟩) hquiet hmatch).query_reply hq hle
  · have hs : s ∈ mid := by
      refine (List.mem_cons.mp hs).resolve_left ?_
      rintro rfl
      rw [hc] at ha
      cases ha
    -- Up to the heartbeat, the heartbeat, and from there to the query.
    obtain ⟨mid₁, mid₂, rfl⟩ := List.append_of_mem hs
    obtain ⟨hmatch₁, hmatch₂⟩ := throughout_append.mp hmatch
    obtain ⟨hmid₁, hmid₂, hcross⟩ := List.pairwise_append.mp hmid
    obtain ⟨hfirst, hmid₂⟩ := List.pairwise_cons.mp hmid₂
    have hkept₁ := hkept.after mid₁ (t := s.now) le_rfl (hr s (by simp)) hmid₁
      (fun r' hr' => ⟨hr r' (by simp [hr']), hcross r' hr' s List.mem_cons_self⟩)
      (fun r' hr' => hquiet r' (by simp [hr'])) hmatch₁
    have hkept₂ := (hkept₁.heartbeat ha hmatch₂.1).after mid₂ (t := q.now) le_rfl
      (hend s hs) hmid₂ (fun r' hr' => ⟨hfirst r' hr', hend r' (by simp [hr'])⟩)
      (fun r' hr' => hquiet r' (by simp [hr'])) hmatch₂.2
    rw [after, after_append]
    exact hkept₂.query_reply hq hle

theorem deleted_of_matches {r q : Timed} {mid : List Timed}
    (hc : r.request.command = some (.delete n))
    (hadd : ∀ r' ∈ mid, ∀ a, r'.request.command ≠ some (.add n a))
    (hq : q.request.command = some (.query n))
    (hmatch : Throughout SERVICE_TTL_MS Matches
      (handle SERVICE_TTL_MS m r.now r.request).1 mid) :
    (handle SERVICE_TTL_MS (after SERVICE_TTL_MS m (r :: mid)) q.now q.request).2
      = some (str "unknown host") := by
  have hgone := gone_after mid (gone_delete hc m) hadd hmatch
  exact query_reply hq (congrArg (unexpired SERVICE_TTL_MS · q.now) hgone)

/-- **The operator stands in exactly the runs whose heartbeats all match an entry.** -/
theorem operator_stands_iff (SERVICE_TTL_MS : Int) {rs : List Timed} (hmono : Monotone rs) :
    OperatorStands SERVICE_TTL_MS rs ↔ Throughout SERVICE_TTL_MS Matches ∅ rs := by
  constructor
  · intro h
    refine throughout_iff.mpr fun pre r post hrs c hc => ?_
    cases c with
    | heartbeat n a =>
      exact (heartbeat_refreshes_iff hc).mp (h.refreshes pre r post n a hrs hc) _ hc
    | _ => rfl
  · intro h
    constructor
    · intro pre r post n a hrs hc
      exact (heartbeat_refreshes_iff hc).mpr (throughout_iff.mp h pre r post hrs)
    · rintro pre r mid q post n b rfl hc hreply hquiet hq hseen
      rw [after_append]
      refine modified_of_matches ?_ hc hreply hquiet hq hseen
        (throughout_append.mp (throughout_append.mp h).2.2).1
      refine List.Pairwise.sublist ?_ hmono
      exact (List.cons_sublist_cons.mpr ((List.Sublist.refl mid).append
        (List.cons_sublist_cons.mpr (List.nil_sublist post)))).trans (List.sublist_append_right ..)
    · rintro pre r mid q post n rfl hc - hadd hq
      rw [after_append]
      exact deleted_of_matches hc hadd hq (throughout_append.mp (throughout_append.mp h).2.2).1

theorem operator_stands_iff_new_address :
    let rs : List Timed := [⟨0, .control (str "add echo 10.0.0.1:80")⟩,
      ⟨5, .control (str "heartbeat echo 10.0.0.1:80")⟩,
      ⟨8, .control (str "modify echo 10.0.0.2:80")⟩,
      ⟨10, .control (str "heartbeat echo 10.0.0.2:80")⟩, ⟨20, .query (str "echo")⟩]
    Monotone rs ∧ Throughout 10 Matches ∅ rs ∧ OperatorStands 10 rs := by
  intro rs
  have hmono : Monotone rs := by decide
  have hmatch : Throughout 10 Matches ∅ rs := by decide +kernel
  exact ⟨hmono, hmatch, (operator_stands_iff 10 hmono).mpr hmatch⟩

/-- The server was registered with `10.0.0.1:80` and keeps sending it. -/
theorem heartbeat_undoes_modify :
    let rs : List Timed := [⟨0, .control (str "add echo 10.0.0.1:80")⟩,
      ⟨4, .control (str "modify echo 10.0.0.2:80")⟩,
      ⟨5, .control (str "heartbeat echo 10.0.0.1:80")⟩, ⟨6, .query (str "echo")⟩]
    Monotone rs ∧ ¬ OperatorStands 10 rs := by
  refine ⟨by decide, fun h => ?_⟩
  have hanswer := h.modified [⟨0, .control (str "add echo 10.0.0.1:80")⟩]
    ⟨4, .control (str "modify echo 10.0.0.2:80")⟩
    [⟨5, .control (str "heartbeat echo 10.0.0.1:80")⟩] ⟨6, .query (str "echo")⟩ [] (str "echo")
    (str "10.0.0.2:80") rfl (by decide) (by decide +kernel) (by decide) (by decide)
    ⟨_, List.mem_cons_self, Or.inl rfl, by decide⟩
  exact absurd hanswer (by decide +kernel)

end Discovery

end KaiRPC
