import KaiRPC.Lib.Run
import KaiRPC.Net.EventLoop

/-!
# The fd event group

`net/fd_event_group.cc`: a vector of pointers to `Fd_Event`s, one for each descriptor, that grows
by half when a descriptor is beyond its end.  Connections and clients take the pointer of their
descriptor and keep it; the vector is reallocated under them, and other `Fd_Event`s are allocated
in between.  `events` is the heap, and a pointer is an index into it.

* `FdSlots` says what the group is for: **a slot for every descriptor**, there from the beginning.
* `fd_group_refines`: whatever is asked for and written through whichever pointer, the group is
  that map; the pointers of two descriptors differ, and those of one descriptor agree.
-/

namespace KaiRPC

structure FdEventGroup where
  m_size : Nat := 0
  m_fd_group : List Nat := []
  events : List FdEvent := []

namespace FdEventGroup

/-- `m_fd_group.push_back(new Fd_Event(i))`, where `i` is the size of the vector. -/
def push (g : FdEventGroup) : FdEventGroup :=
  { g with
    m_fd_group := g.m_fd_group ++ [g.events.length]
    events := g.events ++ [{ m_fd := g.m_fd_group.length }] }

/-- `n` rounds of the loop around it. -/
def grow : Nat → FdEventGroup → FdEventGroup
  | 0, g => g
  | n + 1, g => grow n g.push

/-- `FdEventGroup(size)`. -/
def create (size : Nat) : FdEventGroup := grow size { m_size := size }

/-- `(size_t) fd`. -/
def size_t (fd : Int32) : Nat := (fd.toInt % 18446744073709551616).toNat

/-- `none` is a read outside the vector, or an `int(fd * 1.5)` that no `int` holds. -/
def getFdEvent (g : FdEventGroup) (fd : Int32) : Option (FdEventGroup × Nat) :=
  if size_t fd < g.m_fd_group.length then
    (g.m_fd_group[size_t fd]?).map fun p => (g, p)
  else
    let new_size := (fd.toInt * 3).tdiv 2
    if new_size < 2147483648 then
      let g := g.grow (new_size - g.m_fd_group.length).toNat
      (g.m_fd_group[size_t fd]?).map fun p => (g, p)
    else none

end FdEventGroup

/-- What is done with an event through its pointer. -/
inductive FdEdit
  | listen (event_type : TriggerEvent) (callback : Callback) (error_callback : Option Callback)
  | cancle (event_type : TriggerEvent)
  | reset

def FdEdit.apply (ev : FdEvent) : FdEdit → FdEvent
  | .listen event_type callback error_callback => ev.listen event_type callback error_callback
  | .cancle event_type => ev.cancle event_type
  | .reset => ev.reset

inductive FdOp
  /-- A connection or a client takes the pointer of its descriptor. -/
  | get (fd : Int32)
  /-- Through the `k`-th pointer that was taken. -/
  | edit (k : Nat) (e : FdEdit)
  /-- Another `new Fd_Event(fd)`. -/
  | alloc (fd : Int)

/-- The group, with the pointers that were taken and for which descriptor. -/
structure FdUsers where
  group : FdEventGroup
  held : List (Int32 × Nat) := []

namespace FdUsers

def step (v : FdUsers) : FdOp → Option FdUsers
  | .get fd => (v.group.getFdEvent fd).map fun (g, p) =>
      { group := g, held := v.held ++ [(fd, p)] }
  | .edit k e => (v.held[k]?).map fun (_, p) =>
      { v with group.events := v.group.events.modify p e.apply }
  | .alloc fd => some { v with group.events := v.group.events ++ [{ m_fd := fd }] }

end FdUsers

/-- **What the group is for**: every descriptor has its event. -/
structure FdSlots where
  slot : Nat → FdEvent := fun fd => { m_fd := fd }
  taken : List Int32 := []

namespace FdSlots

def step (v : FdSlots) : FdOp → Option FdSlots
  | .get fd => if 0 ≤ fd.toInt then some { v with taken := v.taken ++ [fd] } else none
  | .edit k e => (v.taken[k]?).map fun fd =>
      { v with slot := Function.update v.slot fd.toInt.toNat (e.apply (v.slot fd.toInt.toNat)) }
  | .alloc _ => some v

end FdSlots

namespace FdEventGroup

/-- The event of a descriptor, or the one it will get. -/
def slot (g : FdEventGroup) (fd : Nat) : FdEvent :=
  ((g.m_fd_group[fd]?).bind fun p => g.events[p]?).getD { m_fd := fd }

/-- The pointers are to allocated events, and no two are the same. -/
structure Inv (g : FdEventGroup) : Prop where
  allocated : ∀ p ∈ g.m_fd_group, p < g.events.length
  nodup : g.m_fd_group.Nodup

theorem Inv.index {g : FdEventGroup} (h : g.Inv) {i j p : Nat} (hi : g.m_fd_group[i]? = some p)
    (hj : g.m_fd_group[j]? = some p) : i = j := by
  obtain ⟨hi', rfl⟩ := List.getElem?_eq_some_iff.mp hi
  obtain ⟨hj', he⟩ := List.getElem?_eq_some_iff.mp hj
  exact (h.nodup.getElem_inj_iff.mp he).symm

theorem Inv.slot_eq {g : FdEventGroup} (h : g.Inv) {fd p : Nat}
    (hp : g.m_fd_group[fd]? = some p) : g.events[p]? = some (g.slot fd) := by
  have hlt := h.allocated p (List.mem_of_getElem? hp)
  unfold slot
  rw [hp, Option.bind_some, List.getElem?_eq_getElem hlt]
  rfl

/-- **A write through a pointer** is one to the slot of its descriptor. -/
theorem modify_slot {g : FdEventGroup} (h : g.Inv) {fd p : Nat}
    (hp : g.m_fd_group[fd]? = some p) (f : FdEvent → FdEvent) :
    slot { g with events := g.events.modify p f } =
      Function.update g.slot fd (f (g.slot fd)) := by
  funext fd'
  by_cases he : fd' = fd
  · subst he
    rw [Function.update_self]
    unfold slot
    dsimp only
    rw [hp, Option.bind_some, Option.bind_some, List.getElem?_modify_eq, h.slot_eq hp]
    rfl
  · rw [Function.update_of_ne he]
    unfold slot
    dsimp only
    cases hq : g.m_fd_group[fd']? with
    | none => rfl
    | some q =>
      have hne : p ≠ q := by
        rintro rfl
        exact he (h.index hq hp)
      rw [Option.bind_some, Option.bind_some, List.getElem?_modify_ne _ _ hne]

/-! ### Growth -/

/-- `g'` is `g` with more descriptors. -/
structure Extends (g g' : FdEventGroup) : Prop where
  inv : g'.Inv
  slot : ∀ fd, g'.slot fd = g.slot fd
  kept : ∀ {fd p : Nat}, g.m_fd_group[fd]? = some p → g'.m_fd_group[fd]? = some p

section Growth

variable {g : FdEventGroup}

theorem Extends.refl (h : g.Inv) : g.Extends g := ⟨h, fun _ => rfl, id⟩

theorem push_inv (h : g.Inv) : g.push.Inv := by
  refine ⟨fun p hp => ?_, ?_⟩
  · show p < (g.events ++ [_]).length
    rw [List.length_append]
    rcases List.mem_append.mp hp with hp | hp
    · exact Nat.lt_succ_of_lt (h.allocated p hp)
    · rw [List.mem_singleton.mp hp]
      exact Nat.lt_succ_self _
  · -- the new pointer is beyond those that are there
    refine List.nodup_append.mpr ⟨h.nodup, List.nodup_singleton _, fun p hp q hq => ?_⟩
    rw [List.mem_singleton.mp hq]
    exact (h.allocated p hp).ne

theorem push_slot (h : g.Inv) (fd : Nat) : g.push.slot fd = g.slot fd := by
  unfold slot push
  dsimp only
  rcases Nat.lt_trichotomy fd g.m_fd_group.length with hlt | rfl | hgt
  · rw [List.getElem?_append_left hlt, List.getElem?_eq_getElem hlt, Option.bind_some,
      Option.bind_some, List.getElem?_append_left (h.allocated _ (List.getElem_mem hlt))]
  · rw [List.getElem?_concat_length, List.getElem?_eq_none le_rfl, Option.bind_some,
      List.getElem?_concat_length]
    rfl
  · rw [List.getElem?_eq_none hgt.le, List.getElem?_eq_none]
    · rfl
    · rw [List.length_append]
      exact hgt

theorem grow_extends (n : Nat) : ∀ {g : FdEventGroup}, g.Inv → g.Extends (grow n g) := by
  induction n with
  | zero => exact Extends.refl
  | succ n ih =>
    intro g h
    have h' := ih (push_inv h)
    refine ⟨h'.inv, fun fd => (h'.slot fd).trans (push_slot h fd), fun {fd p} hp => h'.kept ?_⟩
    exact (List.getElem?_append_left (List.getElem?_eq_some_iff.mp hp).1).trans hp

theorem grow_length (n : Nat) : ∀ g : FdEventGroup,
    (grow n g).m_fd_group.length = g.m_fd_group.length + n := by
  induction n with
  | zero => exact fun g => rfl
  | succ n ih =>
    intro g
    show (grow n g.push).m_fd_group.length = _
    rw [ih g.push]
    show (g.m_fd_group ++ [_]).length + n = _
    rw [List.length_append, List.length_singleton, Nat.add_assoc, Nat.add_comm 1 n]

theorem create_extends (size : Nat) : Extends {} (create size) := by
  have h := grow_extends size (g := { m_size := size }) ⟨nofun, List.nodup_nil⟩
  exact ⟨h.inv, h.slot, nofun⟩

end Growth

/-! ### Lookup -/

/-- The vector is as long as at the beginning or as an `int` allows. -/
def Sized (g : FdEventGroup) : Prop := 128 ≤ g.m_fd_group.length ∧ g.m_fd_group.length < 2147483648

theorem create_sized : (create 128).Sized := by
  unfold Sized create
  rw [grow_length]
  exact ⟨le_rfl, by decide⟩

theorem size_t_of_nonneg {fd : Int32} (h : 0 ≤ fd.toInt) : size_t fd = fd.toInt.toNat := by
  have hlt := fd.toInt_lt
  unfold size_t
  rw [Int.emod_eq_of_lt h (by omega)]

theorem size_t_of_neg {fd : Int32} (h : fd.toInt < 0) : 2147483648 ≤ size_t fd := by
  have hle := fd.le_toInt
  unfold size_t
  omega

section Lookup

variable {g : FdEventGroup} {fd : Int32}

/-- Half as many descriptors again are enough, and as many as an `int` allows. -/
theorem tdiv_bounds {n : Int} (h : 128 ≤ n) (hle : n ≤ 1431655765) :
    n < (n * 3).tdiv 2 ∧ (n * 3).tdiv 2 < 2147483648 := by
  rw [Int.tdiv_eq_ediv_of_nonneg (by omega)]
  omega

/-- **The group answers for every descriptor** whose `int(fd * 1.5)` is an `int`. -/
theorem getFdEvent_isSome (hsize : g.Sized) (h0 : 0 ≤ fd.toInt) (hle : fd.toInt ≤ 1431655765) :
    (g.getFdEvent fd).isSome = true := by
  obtain ⟨hlower, -⟩ := hsize
  have hsz := size_t_of_nonneg h0
  have hget : ∀ {g' : FdEventGroup}, size_t fd < g'.m_fd_group.length →
      ((g'.m_fd_group[size_t fd]?).map fun p => (g', p)).isSome = true := by
    intro g' hlt
    rw [List.getElem?_eq_getElem hlt]
    rfl
  unfold getFdEvent
  by_cases hlt : size_t fd < g.m_fd_group.length
  · rw [if_pos hlt]
    exact hget hlt
  · obtain ⟨hmore, hint⟩ := tdiv_bounds (n := fd.toInt) (by omega) hle
    rw [if_neg hlt]
    dsimp only
    rw [if_pos hint]
    refine hget ?_
    rw [grow_length]
    omega

/-- **An answer** is the pointer that is the descriptor's own from then on. -/
theorem getFdEvent_spec (h : g.Inv) (hsize : g.Sized) {g' : FdEventGroup} {p : Nat}
    (hs : g.getFdEvent fd = some (g', p)) :
    0 ≤ fd.toInt ∧ g.Extends g' ∧ g'.Sized ∧ g'.m_fd_group[fd.toInt.toNat]? = some p := by
  have hanswer : ∀ {w : FdEventGroup}, g.Extends w → w.Sized →
      ((w.m_fd_group[size_t fd]?).map fun p => (w, p)) = some (g', p) →
      0 ≤ fd.toInt ∧ g.Extends g' ∧ g'.Sized ∧ g'.m_fd_group[fd.toInt.toNat]? = some p := by
    intro w hext hw hs
    obtain ⟨q, hq, hs⟩ := Option.map_eq_some_iff.mp hs
    cases hs
    have h0 : 0 ≤ fd.toInt := by
      by_contra hneg
      have hfar := size_t_of_neg (not_le.mp hneg)
      exact absurd (List.getElem?_eq_some_iff.mp hq).1 (by have := hw.2; omega)
    rw [size_t_of_nonneg h0] at hq
    exact ⟨h0, hext, hw, hq⟩
  unfold getFdEvent at hs
  split at hs
  · exact hanswer (.refl h) hsize hs
  · obtain ⟨hint, hs⟩ := Option.ite_none_right_eq_some.mp hs
    refine hanswer (grow_extends _ h) ?_ hs
    have hlower := hsize.1
    have hupper := hsize.2
    unfold Sized
    rw [grow_length]
    omega

end Lookup

end FdEventGroup

/-! ### The group and its users -/

namespace FdUsers

/-- What the users see of the group. -/
def slots (v : FdUsers) : FdSlots :=
  { slot := v.group.slot, taken := v.held.map Prod.fst }

structure Inv (v : FdUsers) : Prop where
  group : v.group.Inv
  sized : v.group.Sized
  held : ∀ {fd p}, (fd, p) ∈ v.held → 0 ≤ fd.toInt ∧ v.group.m_fd_group[fd.toInt.toNat]? = some p

section Steps

variable {v v' : FdUsers}

theorem Inv.pointer (h : v.Inv) {fd fd' : Int32} {p p' : Nat} (hp : (fd, p) ∈ v.held)
    (hp' : (fd', p') ∈ v.held) : p = p' ↔ fd = fd' := by
  obtain ⟨h0, hget⟩ := h.held hp
  obtain ⟨h0', hget'⟩ := h.held hp'
  refine ⟨?_, ?_⟩
  · rintro rfl
    have hidx := h.group.index hget hget'
    exact Int32.toInt_inj.mp (by omega)
  · rintro rfl
    rw [hget] at hget'
    exact Option.some.inj hget'

theorem get_step (h : v.Inv) {fd : Int32} (hs : v.step (.get fd) = some v') :
    v'.Inv ∧ v.slots.step (.get fd) = some v'.slots := by
  obtain ⟨⟨g, p⟩, hget, rfl⟩ := Option.map_eq_some_iff.mp hs
  obtain ⟨h0, hext, hsized, hp⟩ := FdEventGroup.getFdEvent_spec h.group h.sized hget
  refine ⟨⟨hext.inv, hsized, fun {fd' p'} hmem => ?_⟩, ?_⟩
  · rcases List.mem_append.mp hmem with hmem | hmem
    · exact ⟨(h.held hmem).1, hext.kept (h.held hmem).2⟩
    · cases List.mem_singleton.mp hmem
      exact ⟨h0, hp⟩
  · show (if 0 ≤ fd.toInt then some _ else none) = _
    rw [if_pos h0]
    unfold slots
    dsimp only
    rw [List.map_append, funext hext.slot]
    rfl

theorem alloc_step (h : v.Inv) {fd : Int} (hs : v.step (.alloc fd) = some v') :
    v'.Inv ∧ v.slots.step (.alloc fd) = some v'.slots := by
  cases hs
  have hlt : ∀ p ∈ v.group.m_fd_group, p < v.group.events.length := h.group.allocated
  refine ⟨⟨⟨fun p hp => ?_, h.group.nodup⟩, h.sized, h.held⟩, ?_⟩
  · show p < (v.group.events ++ [_]).length
    rw [List.length_append]
    exact Nat.lt_succ_of_lt (hlt p hp)
  · show some v.slots = _
    unfold slots
    congr 2
    funext fd'
    unfold FdEventGroup.slot
    dsimp only
    cases hp : v.group.m_fd_group[fd']? with
    | none => rfl
    | some p =>
      rw [Option.bind_some, Option.bind_some,
        List.getElem?_append_left (hlt p (List.mem_of_getElem? hp))]

theorem edit_step (h : v.Inv) {k : Nat} {e : FdEdit} (hs : v.step (.edit k e) = some v') :
    v'.Inv ∧ v.slots.step (.edit k e) = some v'.slots := by
  obtain ⟨⟨fd, p⟩, hk, rfl⟩ := Option.map_eq_some_iff.mp hs
  have hp := (h.held (List.mem_of_getElem? hk)).2
  refine ⟨⟨⟨fun q hq => ?_, h.group.nodup⟩, h.sized, h.held⟩, ?_⟩
  · show q < (v.group.events.modify p _).length
    rw [List.length_modify]
    exact h.group.allocated q hq
  · have htaken : v.slots.taken[k]? = some fd := by
      show (v.held.map Prod.fst)[k]? = some fd
      rw [List.getElem?_map, hk]
      rfl
    show (v.slots.taken[k]?).map _ = _
    rw [htaken]
    unfold slots
    dsimp only [Option.map_some]
    rw [FdEventGroup.modify_slot h.group hp]

/-- **A step of the group is one of its slots.** -/
theorem step_slots {op : FdOp} (h : v.Inv) (hs : v.step op = some v') :
    v'.Inv ∧ v.slots.step op = some v'.slots := by
  cases op with
  | get fd => exact get_step h hs
  | edit k e => exact edit_step h hs
  | alloc fd => exact alloc_step h hs

end Steps

theorem init_inv : Inv { group := .create 128 } :=
  ⟨(FdEventGroup.create_extends 128).inv, FdEventGroup.create_sized, nofun⟩

theorem init_slots : slots { group := .create 128 } = {} := by
  unfold slots
  dsimp only
  rw [funext (FdEventGroup.create_extends 128).slot]
  rfl

/-- **The group is a map from descriptors to events.**  Whatever pointers are taken and whatever is
written through them, in any order and however often the vector grows: the same steps are steps of
the map; a pointer taken for a descriptor, now or long ago, is to that descriptor's event; pointers
are the same exactly when their descriptors are.  Every descriptor up to the last whose
`int(fd * 1.5)` is an `int` is answered, and no negative one. -/
theorem fd_group_refines {v : FdUsers} {ops : List FdOp}
    (hrun : Run (fun v op v' => step v op = some v') { group := .create 128 } ops v) :
    (∃ s : FdSlots, Run (fun s op s' => FdSlots.step s op = some s') {} ops s ∧
        s.taken = v.held.map Prod.fst ∧
        ∀ fd p, (fd, p) ∈ v.held → v.group.events[p]? = some (s.slot fd.toInt.toNat)) ∧
      (∀ fd p fd' p', (fd, p) ∈ v.held → (fd', p') ∈ v.held → (p = p' ↔ fd = fd')) ∧
      (∀ fd : Int32, 0 ≤ fd.toInt → fd.toInt ≤ 1431655765 →
        (v.group.getFdEvent fd).isSome = true) ∧
      ∀ fd : Int32, fd.toInt < 0 → v.group.getFdEvent fd = none := by
  have hsim : Inv v ∧ Run (fun s op s' => FdSlots.step s op = some s') _ ops v.slots :=
    hrun.simulation (I := Inv) (f := slots) step_slots init_inv
  rw [init_slots] at hsim
  obtain ⟨h, hslots⟩ := hsim
  refine ⟨⟨v.slots, hslots, rfl, fun fd p hp => h.group.slot_eq (h.held hp).2⟩,
    fun fd p fd' p' hp hp' => h.pointer hp hp',
    fun fd h0 hle => FdEventGroup.getFdEvent_isSome h.sized h0 hle, fun fd hneg => ?_⟩
  rw [Option.eq_none_iff_forall_ne_some]
  rintro ⟨g, p⟩ hs
  have := (FdEventGroup.getFdEvent_spec h.group h.sized hs).1
  omega

/-- A descriptor beyond the end, asked for twice with a write in between. -/
theorem fd_group_refines_grown : ∃ v : FdUsers, ∃ p p',
    v.held = [(200, p), (200, p')] ∧ p = p' ∧ v.group.getFdEvent (-1) = none := by
  have hfd : 0 ≤ (200 : Int32).toInt ∧ (200 : Int32).toInt ≤ 1431655765 := by decide
  obtain ⟨⟨g, p⟩, hg⟩ := Option.isSome_iff_exists.mp <|
    FdEventGroup.getFdEvent_isSome FdEventGroup.create_sized hfd.1 hfd.2
  have hget : step { group := .create 128 } (.get 200) =
      some { group := g, held := [(200, p)] } := by
    dsimp only [step]
    rw [hg]
    rfl
  obtain ⟨h₁, -⟩ := step_slots init_inv hget
  obtain ⟨v₂, hedit⟩ : ∃ v₂, step { group := g, held := [(200, p)] }
      (.edit 0 (.listen .IN_EVENT (.onRead 0) none)) = some v₂ := ⟨_, rfl⟩
  obtain ⟨h₂, -⟩ := step_slots h₁ hedit
  obtain ⟨⟨g', p'⟩, hg'⟩ := Option.isSome_iff_exists.mp <|
    FdEventGroup.getFdEvent_isSome h₂.sized hfd.1 hfd.2
  have hagain : step v₂ (.get 200) = some { group := g', held := v₂.held ++ [(200, p')] } := by
    dsimp only [step]
    rw [hg']
    rfl
  have href := fd_group_refines (.cons hget (.cons hedit (.cons hagain (.nil _))))
  cases hedit
  exact ⟨_, p, p', rfl, (href.2.1 200 p 200 p' List.mem_cons_self
    (List.mem_cons_of_mem _ List.mem_cons_self)).mpr rfl, href.2.2.2 (-1) (by decide)⟩

end FdUsers

end KaiRPC
