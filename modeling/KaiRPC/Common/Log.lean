import Mathlib.Data.List.Infix
import Mathlib.Data.List.TakeWhile
import KaiRPC.Lib.Run
import KaiRPC.Tcp.Buffer

/-!
# Logger and AsyncLogger

`common/log.cc`: a line goes into `m_buffer` of the logger, `syncLoop` moves the buffer as
one batch to the queue of the asynchronous logger, and its thread prints the batches.
`flush` is a `syncLoop` followed by `stop`, and the thread looks at the stop flag once
behind each batch, not at the queue.  It prints a line with `printf("%s", …)`, which stops at
the first NUL.  The two loggers of the source run the same code; this is one of them.

* `State`, `Event`, `step`: the buffer, the queue, the thread, and a step for each section
  under a mutex.  `pushed`, `taken` and `returned` are kept for the statements alone.
* `Flow`: every line pushed is, in order, taken, queued, with a `syncLoop` or in the buffer.
* `Good`: what is printed is a prefix of what was pushed, and behind a flush it is all of it.
* `flush_good_iff`: **a run is good exactly if the thread prints nothing from a line with a NUL
  in or before it, and never stops with a line of the flush still queued**.
-/

namespace KaiRPC

namespace Logger

abbrev Line := Bytes

/-- What `printf("%s", line.c_str())` writes. -/
def text (line : Line) : Line := line.takeWhile (· ≠ 0)

/-- The lines that are not empty. -/
def nonempty (lines : List Line) : List Line := lines.filter (· ≠ [])

/-- What the loop over a batch writes for a line. -/
def printed (line : Line) : List Line := if line = [] then [] else nonempty [text line]

/-- Where the thread of `AsyncLogger::Loop` stands. -/
inductive Thread
  | waiting
  /-- A batch is out of the queue; behind its last line the stop flag is tested. -/
  | printing (rest : List Line)
  | exited
deriving DecidableEq, Repr

/-- A call of `Logger::flush`, with the lines pushed before it. -/
inductive Flush
  | idle
  | called (before : List Line)
  | syncing (before : List Line)
  | synced (before : List Line)
deriving DecidableEq, Repr

structure State where
  /-- `Logger::m_buffer`. -/
  m_buffer : List Line := []
  /-- `tmp_vec` of the `syncLoop` in progress. -/
  tmp_vec : Option (List Line) := none
  /-- `AsyncLogger::m_buffer`. -/
  queue : List (List Line) := []
  thread : Thread := .waiting
  m_stop_flag : Bool := false
  flush : Flush := .idle
  output : List Line := []
  /-- Every line pushed so far. -/
  pushed : List Line := []
  /-- Every line the thread has taken out of the queue. -/
  taken : List Line := []
  /-- The lines pushed before the last flush that returned while the thread was running. -/
  returned : List Line := []
deriving DecidableEq, Repr

/-- The sections of the source: `pushLog`; the two halves of a `syncLoop` of the timer; a flush
with the two halves of its own `syncLoop` and its `stop`; the thread. -/
inductive Event
  | pushLog (line : Line)
  | swap
  | pushLogBuffer
  | flush
  | flushSwap
  | flushPushLogBuffer
  | stop
  | take
  | print
  | test
deriving DecidableEq, Repr

/-- `tmp_vec.swap(m_buffer)`. -/
def State.swap (s : State) : State := { s with tmp_vec := some s.m_buffer, m_buffer := [] }

/-- `if (!tmp_vec.empty()) pushLogBuffer(tmp_vec)`. -/
def State.pushLogBuffer (s : State) (tmp_vec : List Line) : State :=
  { s with queue := s.queue ++ (if tmp_vec = [] then [] else [tmp_vec]), tmp_vec := none }

/-- An event that cannot happen changes nothing; calls of `syncLoop` do not overlap. -/
def step (s : State) : Event → State
  | .pushLog line => { s with m_buffer := s.m_buffer ++ [line], pushed := s.pushed ++ [line] }
  | .swap => if s.tmp_vec = none then s.swap else s
  | .pushLogBuffer =>
    match s.tmp_vec, s.flush with
    | some _, .syncing _ => s
    | some tmp_vec, _ => s.pushLogBuffer tmp_vec
    | none, _ => s
  | .flush => if s.flush = .idle then { s with flush := .called s.pushed } else s
  | .flushSwap =>
    match s.tmp_vec, s.flush with
    | none, .called before => { s.swap with flush := .syncing before }
    | _, _ => s
  | .flushPushLogBuffer =>
    match s.tmp_vec, s.flush with
    | some tmp_vec, .syncing before => { s.pushLogBuffer tmp_vec with flush := .synced before }
    | _, _ => s
  | .stop =>
    match s.flush with
    | .synced before =>
      { s with
        m_stop_flag := true
        flush := .idle
        returned := if s.thread = .exited then s.returned else before }
    | _ => s
  | .take =>
    match s.thread, s.queue with
    | .waiting, batch :: queue =>
      { s with thread := .printing batch, queue := queue, taken := s.taken ++ batch }
    | _, _ => s
  | .print =>
    match s.thread with
    | .printing (line :: rest) =>
      { s with thread := .printing rest, output := s.output ++ printed line }
    | _ => s
  | .test =>
    match s.thread with
    | .printing [] => { s with thread := if s.m_stop_flag then .exited else .waiting }
    | _ => s

/-- **What logging promises**: the output is a prefix of the lines pushed, in their order and
without repetition; and a thread that has exited after a flush has printed every line pushed
before it. -/
structure Good (s : State) : Prop where
  inOrder : s.output <+: nonempty s.pushed
  delivered : s.thread = .exited → nonempty s.returned <+: s.output

/-- The lines at the head of the queue that were pushed before the flush. -/
def State.left (s : State) : List Line :=
  s.queue.flatten.take (s.returned.length - s.taken.length)

/-- `printf` writes each line whole. -/
def Plain (lines : List Line) : Prop := ∀ line ∈ lines, 0 ∉ line

/-- A text is printed only while all the lines up to it are plain; and the thread exits only when
the lines of the flush are plain and no more of them is in the queue. -/
def Safe (s : State) : Event → Prop
  | .print => ∀ line rest, s.thread = .printing (line :: rest) → text line ≠ [] →
      Plain (s.taken.take (s.taken.length - rest.length))
  | .test => s.thread = .printing [] → s.m_stop_flag = true →
      Plain s.returned ∧ nonempty s.left = []
  | _ => True

/-! ### Where the lines are -/

/-- The lines of the batch that are still to be printed. -/
def Thread.rest : Thread → List Line
  | .printing rest => rest
  | _ => []

/-- Every line that has reached the queue. -/
def State.queued (s : State) : List Line := s.taken ++ s.queue.flatten

/-- How far the lines pushed before a flush have come. -/
def State.Carried (s : State) : Flush → Prop
  | .idle => True
  | .called before => before <+: s.pushed
  | .syncing before => before <+: s.queued ++ s.tmp_vec.getD []
  | .synced before => before <+: s.queued

/-- **Lines flow in order**: from the buffer with a `syncLoop` into the queue, out of it to the
thread, and to the output. -/
structure Flow (s : State) : Prop where
  pushed : s.pushed = s.queued ++ s.tmp_vec.getD [] ++ s.m_buffer
  written : ∃ done, s.taken = done ++ s.thread.rest ∧ s.output = done.flatMap printed
  carried : s.Carried s.flush
  returned : s.returned <+: s.queued

theorem nonempty_append (a b : List Line) : nonempty (a ++ b) = nonempty a ++ nonempty b :=
  List.filter_append ..

theorem nonempty_mono {a b : List Line} (h : a <+: b) : nonempty a <+: nonempty b :=
  List.IsPrefix.filter _ h

theorem nonempty_cons {line : Line} (hne : line ≠ []) (lines : List Line) :
    nonempty (line :: lines) = line :: nonempty lines :=
  List.filter_cons_of_pos (decide_eq_true hne)

theorem queued_pushLogBuffer (s : State) (tmp_vec : List Line) :
    (s.pushLogBuffer tmp_vec).queued = s.queued ++ tmp_vec := by
  rw [State.pushLogBuffer, State.queued, State.queued]
  dsimp only
  split
  · rename_i he
    rw [he, List.append_nil, List.append_nil]
  · rw [List.flatten_append, List.append_assoc, List.flatten_singleton]

theorem State.Carried.mono {s : State} (s' : State) {f : Flush} (h : s.Carried f)
    (hp : s.pushed <+: s'.pushed) (hq : s.queued <+: s'.queued)
    (ht : s.queued ++ s.tmp_vec.getD [] <+: s'.queued ++ s'.tmp_vec.getD []) : s'.Carried f := by
  cases f with
  | idle => trivial
  | called before => exact h.trans hp
  | syncing before => exact h.trans ht
  | synced before => exact h.trans hq

theorem swap_flow {s : State} (h : Flow s) (hnone : s.tmp_vec = none) : Flow s.swap := by
  obtain ⟨hpushed, hwritten, hcarried, hreturned⟩ := h
  rw [hnone, Option.getD_none, List.append_nil] at hpushed
  refine ⟨?_, hwritten, hcarried.mono s.swap List.prefix_rfl List.prefix_rfl ?_, hreturned⟩
  · show s.pushed = s.queued ++ s.m_buffer ++ []
    rw [hpushed, List.append_nil]
  · rw [hnone, Option.getD_none, List.append_nil]
    exact List.prefix_append _ _

theorem pushLogBuffer_flow {s : State} (h : Flow s) {tmp_vec : List Line}
    (hsome : s.tmp_vec = some tmp_vec) : Flow (s.pushLogBuffer tmp_vec) := by
  obtain ⟨hpushed, hwritten, hcarried, hreturned⟩ := h
  have hqueued := queued_pushLogBuffer s tmp_vec
  have hgrow : s.queued <+: (s.pushLogBuffer tmp_vec).queued := by
    rw [hqueued]
    exact List.prefix_append _ _
  rw [hsome, Option.getD_some] at hpushed
  refine ⟨?_, hwritten, hcarried.mono (s.pushLogBuffer tmp_vec) List.prefix_rfl hgrow ?_,
    hreturned.trans hgrow⟩
  · rw [hqueued]
    show s.pushed = s.queued ++ tmp_vec ++ [] ++ s.m_buffer
    rw [hpushed, List.append_nil]
  · rw [hqueued, hsome]
    exact List.prefix_append _ _

theorem Flow.setFlush {s : State} (h : Flow s) {f : Flush} (hf : s.Carried f) :
    Flow { s with flush := f } :=
  ⟨h.pushed, h.written, hf, h.returned⟩

theorem take_flow {s : State} (h : Flow s) {batch : List Line} {queue : List (List Line)}
    (hw : s.thread = .waiting) (hq : s.queue = batch :: queue) :
    Flow { s with thread := .printing batch, queue := queue, taken := s.taken ++ batch } := by
  obtain ⟨hpushed, hwritten, hcarried, hreturned⟩ := h
  have hqueued : s.taken ++ batch ++ queue.flatten = s.queued := by
    rw [State.queued, hq, List.flatten_cons, List.append_assoc]
  obtain ⟨done, hdone, hout⟩ := hwritten
  rw [hw] at hdone
  refine ⟨?_, ?_, ?_, ?_⟩
  · show s.pushed = s.taken ++ batch ++ queue.flatten ++ s.tmp_vec.getD [] ++ s.m_buffer
    rw [hqueued, hpushed]
  · refine ⟨done, ?_, hout⟩
    rw [hdone]
    exact congrArg (· ++ batch) (List.append_nil done)
  · exact hcarried.mono _ List.prefix_rfl (by rw [← hqueued]; exact List.prefix_rfl)
      (by rw [← hqueued]; exact List.prefix_rfl)
  · show s.returned <+: s.taken ++ batch ++ queue.flatten
    rw [hqueued]
    exact hreturned

theorem print_flow {s : State} (h : Flow s) {line : Line} {rest : List Line}
    (hp : s.thread = .printing (line :: rest)) :
    Flow { s with thread := .printing rest, output := s.output ++ printed line } := by
  obtain ⟨done, hdone, hout⟩ := h.written
  rw [hp] at hdone
  refine ⟨h.pushed, ⟨done ++ [line], ?_, ?_⟩, h.carried, h.returned⟩
  · rw [List.append_assoc]
    exact hdone
  · rw [List.flatMap_append, List.flatMap_singleton, hout]

theorem test_flow {s : State} (h : Flow s) (hp : s.thread = .printing []) :
    Flow { s with thread := if s.m_stop_flag then .exited else .waiting } := by
  obtain ⟨done, hdone, hout⟩ := h.written
  rw [hp] at hdone
  refine ⟨h.pushed, ⟨done, ?_, hout⟩, h.carried, h.returned⟩
  rw [hdone]
  show done ++ [] = done ++ Thread.rest (if s.m_stop_flag then _ else _)
  split <;> rfl

/-- **Every event keeps the lines in order.** -/
theorem step_flow (s : State) (e : Event) (h : Flow s) : Flow (step s e) := by
  obtain ⟨hpushed, hwritten, hcarried, hreturned⟩ := id h
  cases e with
  | pushLog line =>
    refine ⟨?_, hwritten, ?_, hreturned⟩
    · show s.pushed ++ [line] = s.queued ++ s.tmp_vec.getD [] ++ (s.m_buffer ++ [line])
      rw [← List.append_assoc, ← hpushed]
    · exact hcarried.mono (step s (.pushLog line)) (List.prefix_append _ _) List.prefix_rfl
        List.prefix_rfl
  | swap =>
    rw [step]
    split
    · rename_i hnone
      exact swap_flow h hnone
    · exact h
  | pushLogBuffer =>
    rw [step]
    split
    · exact h
    · rename_i hsome _
      exact pushLogBuffer_flow h hsome
    · exact h
  | flush =>
    rw [step]
    split
    · exact h.setFlush List.prefix_rfl
    · exact h
  | flushSwap =>
    rw [step]
    split
    · rename_i hnone hf
      -- what was pushed before the flush is in the queue or in the buffer that was swapped
      rw [hf] at hcarried
      rw [hnone, Option.getD_none, List.append_nil] at hpushed
      refine (swap_flow h hnone).setFlush ?_
      have hbefore : _ <+: s.pushed := hcarried
      rw [hpushed] at hbefore
      exact hbefore
    · exact h
  | flushPushLogBuffer =>
    rw [step]
    split
    · rename_i tmp_vec before hsome hf
      rw [hf] at hcarried
      refine (pushLogBuffer_flow h hsome).setFlush ?_
      have hbefore : before <+: s.queued ++ s.tmp_vec.getD [] := hcarried
      rw [hsome, Option.getD_some, ← queued_pushLogBuffer] at hbefore
      exact hbefore
    · exact h
  | stop =>
    rw [step]
    split
    · rename_i before hf
      rw [hf] at hcarried
      refine ⟨hpushed, hwritten, trivial, ?_⟩
      show (if s.thread = .exited then s.returned else before) <+: s.queued
      split
      · exact hreturned
      · exact hcarried
    · exact h
  | take =>
    rw [step]
    split
    · rename_i batch queue hw hq
      exact take_flow h hw hq
    · exact h
  | print =>
    rw [step]
    split
    · rename_i line rest hp
      exact print_flow h hp
    · exact h
  | test =>
    rw [step]
    split
    · rename_i hp
      exact test_flow h hp
    · exact h

/-! ### What is printed -/

theorem zero_notMem_text (line : Line) : 0 ∉ text line := by
  intro h
  simpa using List.mem_takeWhile_imp h

theorem text_of_plain {line : Line} (h : 0 ∉ line) : text line = line := by
  refine List.takeWhile_eq_self_iff.mpr fun b hb => decide_eq_true ?_
  rintro rfl
  exact h hb

theorem printed_of_plain {line : Line} (h : 0 ∉ line) : printed line = nonempty [line] := by
  rw [printed, text_of_plain h]
  split
  · rename_i he
    rw [he]
    rfl
  · rfl

/-- A line of which nothing is printed is empty or begins with a NUL. -/
theorem printed_cases (line : Line) : line = [] ∨
    (text line = [] ∧ 0 ∈ line ∧ printed line = []) ∨
      (line ≠ [] ∧ text line ≠ [] ∧ printed line = [text line]) := by
  by_cases hne : line = []
  · exact Or.inl hne
  refine Or.inr ?_
  rw [printed, if_neg hne]
  by_cases ht : text line = []
  · refine Or.inl ⟨ht, ?_, ?_⟩
    · by_contra h0
      exact hne ((text_of_plain h0).symm.trans ht)
    · rw [ht]
      rfl
  · exact Or.inr ⟨hne, ht, nonempty_cons ht []⟩

theorem zero_notMem_of_mem_printed {lines : List Line} {t : Line}
    (h : t ∈ lines.flatMap printed) : 0 ∉ t := by
  obtain ⟨line, -, h⟩ := List.mem_flatMap.mp h
  rcases printed_cases line with rfl | ⟨-, -, hp⟩ | ⟨-, -, hp⟩
  · cases h
  · rw [hp] at h
    cases h
  · rw [hp] at h
    rw [List.mem_singleton.mp h]
    exact zero_notMem_text line

/-- Among printed texts no line with a NUL stands. -/
theorem not_cons_of_printed {lines : List Line} {line l : Line} {more : List Line} (h0 : 0 ∈ l) :
    ¬ lines.flatMap printed ++ [text line] <+: l :: more := by
  intro h
  have hmem : l ∈ lines.flatMap printed ++ [text line] := by
    cases hlist : lines.flatMap printed ++ [text line] with
    | nil => exact absurd hlist (List.append_ne_nil_of_right_ne_nil _ (List.cons_ne_nil _ _))
    | cons t ts =>
      rw [hlist] at h
      rw [(List.cons_prefix_cons.mp h).1]
      exact List.mem_cons_self
  rcases List.mem_append.mp hmem with hmem | hmem
  · exact zero_notMem_of_mem_printed hmem h0
  · rw [List.mem_singleton.mp hmem] at h0
    exact zero_notMem_text line h0

theorem Plain.flatMap_printed {lines : List Line} (h : Plain lines) :
    lines.flatMap printed = nonempty lines := by
  induction lines with
  | nil => rfl
  | cons line lines ih =>
    obtain ⟨h0, h⟩ := List.forall_mem_cons.mp h
    rw [List.flatMap_cons, ih h, printed_of_plain h0, ← nonempty_append, List.singleton_append]

theorem length_printed_le (lines : List Line) :
    (lines.flatMap printed).length ≤ (nonempty lines).length := by
  induction lines with
  | nil => exact Nat.le_refl 0
  | cons line lines ih =>
    rw [List.flatMap_cons, List.length_append]
    rcases printed_cases line with rfl | ⟨-, h0, hp⟩ | ⟨hne, -, hp⟩
    · exact (Nat.zero_add _).trans_le ih
    · rw [hp, nonempty_cons (List.ne_nil_of_mem h0), List.length_cons, List.length_nil]
      omega
    · rw [hp, nonempty_cons hne, List.length_singleton, List.length_cons]
      omega

/-- **Printed texts that are the lines themselves**, up to a line of which something is printed,
come from plain lines. -/
theorem plain_of_prefix {line : Line} {more : List Line} : ∀ {lines : List Line},
    lines.flatMap printed ++ [text line] <+: nonempty lines ++ line :: more →
      Plain (lines ++ [line]) := by
  intro lines
  induction lines with
  | nil =>
    intro h
    have hline : text line = line := (List.cons_prefix_cons.mp h).1
    intro l hl
    rw [List.mem_singleton.mp hl, ← hline]
    exact zero_notMem_text line
  | cons l lines ih =>
    intro h
    rw [List.flatMap_cons] at h
    rw [List.cons_append]
    rcases printed_cases l with rfl | ⟨-, h0, hp⟩ | ⟨hne, -, hp⟩
    · exact List.forall_mem_cons.mpr ⟨List.not_mem_nil, ih h⟩
    · -- nothing was printed of `l`, so a text stands where `l` should
      rw [hp, nonempty_cons (List.ne_nil_of_mem h0), List.nil_append] at h
      exact absurd h (not_cons_of_printed h0)
    · rw [hp, nonempty_cons hne] at h
      obtain ⟨he, h⟩ := List.cons_prefix_cons.mp h
      refine List.forall_mem_cons.mpr ⟨?_, ih h⟩
      rw [← he]
      exact zero_notMem_text l

/-- Where the thread is in what it has taken. -/
theorem Flow.printing {s : State} (h : Flow s) {line : Line} {rest : List Line}
    (hp : s.thread = .printing (line :: rest)) : ∃ done, s.output = done.flatMap printed ∧
      s.taken.take (s.taken.length - rest.length) = done ++ [line] ∧
      nonempty (done ++ [line]) <+: nonempty s.pushed := by
  obtain ⟨done, hdone, hout⟩ := h.written
  have hdone : s.taken = (done ++ [line]) ++ rest := by
    rw [hdone, hp, List.append_assoc]
    rfl
  refine ⟨done, hout, ?_, nonempty_mono ?_⟩
  · rw [hdone]
    refine List.take_left' ?_
    have hlen : (done ++ [line] ++ rest).length = (done ++ [line]).length + rest.length :=
      List.length_append
    rw [hlen, Nat.add_sub_cancel]
  · rw [h.pushed, State.queued, hdone]
    simp only [List.append_assoc]
    exact (List.prefix_append_right_inj done).mpr (List.prefix_append [line] _)

theorem printed_of_text {line : Line} (ht : text line ≠ []) :
    line ≠ [] ∧ printed line = [text line] := by
  rcases printed_cases line with rfl | ⟨hno, -, -⟩ | ⟨hne, -, hp⟩
  · exact absurd rfl ht
  · exact absurd hno ht
  · exact ⟨hne, hp⟩

/-- **A text is printed of the right line** exactly if it and the lines before it are plain. -/
theorem print_good_iff {s : State} (h : Flow s) (hg : Good s) {line : Line} {rest : List Line}
    (hp : s.thread = .printing (line :: rest)) : Good (step s .print) ↔ Safe s .print := by
  obtain ⟨done, hout, htake, hpushed⟩ := h.printing hp
  have hsafe : Safe s .print ↔ (text line ≠ [] → Plain (done ++ [line])) := by
    rw [← htake]
    constructor
    · exact fun hs => hs line rest hp
    · intro hs line' rest' hp'
      rw [hp] at hp'
      cases hp'
      exact hs
  have hstep : step s .print
      = { s with thread := .printing rest, output := s.output ++ printed line } := by
    rw [step, hp]
  rw [hstep, hsafe]
  by_cases ht : text line = []
  · -- nothing is printed
    have hnone : printed line = [] := by
      rw [printed, ht]
      split <;> rfl
    refine iff_of_true ⟨?_, fun hx => by cases hx⟩ fun hno => absurd ht hno
    show s.output ++ printed line <+: nonempty s.pushed
    rw [hnone, List.append_nil]
    exact hg.inOrder
  obtain ⟨hne, hprinted⟩ := printed_of_text ht
  rw [hprinted, hout]
  constructor
  · rintro ⟨hord, -⟩ -
    obtain ⟨more, hmore⟩ := hpushed
    have hone : nonempty [line] = [line] := nonempty_cons hne []
    rw [nonempty_append, hone, List.append_assoc] at hmore
    rw [← hmore] at hord
    exact plain_of_prefix hord
  · intro hplain
    refine ⟨?_, fun hx => by cases hx⟩
    show done.flatMap printed ++ [text line] <+: nonempty s.pushed
    rw [← hprinted, ← List.flatMap_singleton printed line, ← List.flatMap_append,
      (hplain ht).flatMap_printed]
    exact hpushed

theorem Flow.output_eq {s : State} (h : Flow s) (hp : s.thread = .printing []) :
    s.output = s.taken.flatMap printed := by
  obtain ⟨done, hdone, hout⟩ := h.written
  rw [hout, hdone, hp]
  exact congrArg (List.flatMap printed) (List.append_nil done).symm

theorem Flow.returned_eq {s : State} (h : Flow s) :
    s.taken.take s.returned.length ++ s.left = s.returned := by
  rw [State.left, ← List.take_append]
  exact (List.prefix_iff_eq_take.mp h.returned).symm

/-- A thread that exits has printed the lines of the flush exactly if they are plain and it had
taken them all. -/
theorem delivered_iff {s : State} (h : Flow s) (hp : s.thread = .printing []) :
    nonempty s.returned <+: s.output ↔ Plain s.returned ∧ nonempty s.left = [] := by
  have hout := h.output_eq hp
  have hsplit := h.returned_eq
  constructor
  · intro hpre
    refine ⟨fun line hl h0 => ?_, ?_⟩
    · have hmem : line ∈ s.output :=
        hpre.subset (List.mem_filter.mpr ⟨hl, decide_eq_true (List.ne_nil_of_mem h0)⟩)
      rw [hout] at hmem
      exact zero_notMem_of_mem_printed hmem h0
    · by_cases hle : s.returned.length ≤ s.taken.length
      · rw [State.left, Nat.sub_eq_zero_of_le hle]
        rfl
      · -- everything taken is of the flush, and more than that is not printed
        have hlen := hpre.length_le
        have hmost := length_printed_le s.taken
        rw [← hsplit, nonempty_append, List.length_append,
          List.take_of_length_le (Nat.le_of_not_le hle), hout] at hlen
        exact List.length_eq_zero_iff.mp (by omega)
  · rintro ⟨hplain, hleft⟩
    have hplain' : Plain (s.taken.take s.returned.length) := fun line hl =>
      hplain line (by rw [← hsplit]; exact List.mem_append_left _ hl)
    rw [← hsplit, nonempty_append, hleft, List.append_nil, ← hplain'.flatMap_printed, hout]
    exact (List.take_prefix _ _).flatMap printed

theorem test_good_iff {s : State} (h : Flow s) (hg : Good s) (hp : s.thread = .printing []) :
    Good (step s .test) ↔ Safe s .test := by
  have hstep : step s .test
      = { s with thread := if s.m_stop_flag then .exited else .waiting } := by
    rw [step, hp]
  rw [hstep]
  constructor
  · intro hgood _ hflag
    rw [hflag] at hgood
    exact (delivered_iff h hp).mp (hgood.delivered rfl)
  · intro hs
    refine ⟨hg.inOrder, fun hx => ?_⟩
    have hflag : s.m_stop_flag = true := by
      by_contra hno
      rw [if_neg hno] at hx
      cases hx
    exact (delivered_iff h hp).mpr (hs hp hflag)

/-- The other events print nothing; and once the thread has exited no flush counts any more. -/
theorem step_quiet {s : State} {e : Event} (hprint : e ≠ .print) (htest : e ≠ .test) :
    (step s e).output = s.output ∧ s.pushed <+: (step s e).pushed ∧
      ((step s e).thread = .exited →
        s.thread = .exited ∧ (step s e).returned = s.returned) := by
  cases e with
  | pushLog line => exact ⟨rfl, List.prefix_append _ _, fun hx => ⟨hx, rfl⟩⟩
  | swap => rw [step]; split <;> exact ⟨rfl, List.prefix_rfl, fun hx => ⟨hx, rfl⟩⟩
  | pushLogBuffer => rw [step]; split <;> exact ⟨rfl, List.prefix_rfl, fun hx => ⟨hx, rfl⟩⟩
  | flush => rw [step]; split <;> exact ⟨rfl, List.prefix_rfl, fun hx => ⟨hx, rfl⟩⟩
  | flushSwap => rw [step]; split <;> exact ⟨rfl, List.prefix_rfl, fun hx => ⟨hx, rfl⟩⟩
  | flushPushLogBuffer => rw [step]; split <;> exact ⟨rfl, List.prefix_rfl, fun hx => ⟨hx, rfl⟩⟩
  | stop =>
    rw [step]
    split
    · exact ⟨rfl, List.prefix_rfl, fun hx => ⟨hx, if_pos hx⟩⟩
    · exact ⟨rfl, List.prefix_rfl, fun hx => ⟨hx, rfl⟩⟩
  | take =>
    rw [step]
    split
    · exact ⟨rfl, List.prefix_rfl, fun hx => by cases hx⟩
    · exact ⟨rfl, List.prefix_rfl, fun hx => ⟨hx, rfl⟩⟩
  | print => exact absurd rfl hprint
  | test => exact absurd rfl htest

/-- **An event keeps the promise exactly if it is safe**: what it prints is the next line as a
whole, and an exit leaves no line of the flush behind. -/
theorem step_good_iff (s : State) (e : Event) (h : Flow s) (hg : Good s) :
    Good (step s e) ↔ Safe s e := by
  by_cases hprint : e = .print
  · subst hprint
    by_cases hp : ∃ line rest, s.thread = .printing (line :: rest)
    · obtain ⟨line, rest, hp⟩ := hp
      exact print_good_iff h hg hp
    · have hstep : step s .print = s := by
        rw [step]
        split
        · rename_i line rest hp'
          exact absurd ⟨line, rest, hp'⟩ hp
        · rfl
      rw [hstep]
      exact iff_of_true hg fun line rest hp' => absurd ⟨line, rest, hp'⟩ hp
  by_cases htest : e = .test
  · subst htest
    by_cases hp : s.thread = .printing []
    · exact test_good_iff h hg hp
    · have hstep : step s .test = s := by
        rw [step]
        split
        · rename_i hp'
          exact absurd hp' hp
        · rfl
      rw [hstep]
      exact iff_of_true hg fun hp' => absurd hp' hp
  · have hsafe : Safe s e := by
      cases e <;> trivial
    obtain ⟨hout, hpushed, hexit⟩ := step_quiet (s := s) hprint htest
    refine iff_of_true ⟨?_, fun hx => ?_⟩ hsafe
    · rw [hout]
      exact hg.inOrder.trans (nonempty_mono hpushed)
    · obtain ⟨hx', hr⟩ := hexit hx
      rw [hr, hout]
      exact hg.delivered hx'

/-! ### Whole runs -/

/-- **Logging keeps its promise exactly in the runs in which the thread prints no text of a line
with a NUL in or before it, and never exits with a line of the flush still queued or one with a
NUL printed**: in every order of the events, at every state. -/
theorem flush_good_iff (events : List Event) :
    Run.EveryState step Good {} events ↔ Run.EveryStep step Safe {} events :=
  Run.everyState_iff_of_invariant step_flow step_good_iff events {}
    ⟨rfl, ⟨[], rfl, rfl⟩, trivial, List.prefix_rfl⟩ ⟨List.prefix_rfl, fun h => by cases h⟩

/-- Two batches are queued when the flag is set: the thread prints the first and exits. -/
theorem flush_loses_a_line :
    let events := [Event.pushLog [97], .swap, .pushLogBuffer, .pushLog [98], .flush, .flushSwap,
      .flushPushLogBuffer, .stop, .take, .print, .test]
    (events.foldl step {}).thread = .exited ∧ (events.foldl step {}).returned = [[97], [98]] ∧
      (events.foldl step {}).output = [[97]] ∧ ¬ Run.EveryState step Good {} events := by
  refine ⟨rfl, rfl, rfl, fun h => ?_⟩
  have hlast := h.last.delivered rfl
  revert hlast
  decide

/-- A line with a NUL in it is printed up to there. -/
theorem print_cuts_line :
    let events := [Event.pushLog [97, 0, 98], .swap, .pushLogBuffer, .take, .print]
    (events.foldl step {}).output = [[97]] ∧ ¬ Run.EveryState step Good {} events := by
  refine ⟨rfl, fun h => ?_⟩
  have hlast := h.last.inOrder
  revert hlast
  decide

end Logger

end KaiRPC
