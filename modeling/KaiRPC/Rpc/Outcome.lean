import KaiRPC.Lib.LastWrite
import KaiRPC.Rpc.Channel
import KaiRPC.Rpc.Dispatcher

/-!
# The outcome of a call on the wire

How a failure on the server gets into a frame, and how a frame gets into the controller of the
client.

On the server a service method is given a controller and a response message; it calls the one,
writes the other and runs its closure.  The closure holds the controller and does not read it:
what it puts into the frame is decided by `SerializeToString` alone.

On the client the response callback parses the body of a frame before it looks at the error code.

* `serve_reports_iff`: the frame reports a failure of the method, except when the method
  marked the controller failed and left a response that serialises.
* `response_transparent_iff`: the controller gets the error of a frame, except when the frame
  has an error and a body that does not parse.
-/

namespace KaiRPC

/-! ### The server -/

/-- The calls on a controller that change it. -/
inductive ControllerCall (C : Type)
  | reset
  | setFailed (reason : Bytes)
  | setError (error_code : Int32) (error_info : Bytes)
  | setMsgId (msg_id : Bytes)
  | setLocalAddr (addr : Option IPNetAddr)
  | setPeerAddr (addr : Option IPNetAddr)
  | setTimeout (timeout : Int)
  | setFinished (value : Bool)
  | startCancel
  | notifyOnCancel (callback : Option C)
  | setCancelCallback (callback : Option C)
  | clearCancelCallback

namespace ControllerCall

variable {C : Type}

/-- The controller after a call.  A cancel callback that the call runs can make calls of its own,
which come after it. -/
def apply (c : FullController C) : ControllerCall C → FullController C
  | .reset => c.Reset
  | .setFailed reason => c.SetFailed reason
  | .setError error_code error_info => c.SetError error_code error_info
  | .setMsgId msg_id => c.SetMsgId msg_id
  | .setLocalAddr addr => c.SetLocalAddr addr
  | .setPeerAddr addr => c.SetPeerAddr addr
  | .setTimeout timeout => c.SetTimeout timeout
  | .setFinished value => c.SetFinished value
  | .startCancel => c.StartCancel.1
  | .notifyOnCancel callback => (c.NotifyOnCancel callback).1
  | .setCancelCallback callback => (c.SetCancelCallback callback).1
  | .clearCancelCallback => c.ClearCancelCallback

/-- The calls that mark a controller failed, and the one that takes the mark back. -/
def marks : ControllerCall C → Option (Option Unit)
  | .setFailed _ | .setError _ _ => some (some ())
  | .reset => some none
  | _ => none

theorem apply_failed (c : FullController C) (call : ControllerCall C) :
    (apply c call).m_is_failed = (call.marks.map Option.isSome).getD c.m_is_failed := by
  cases call with
  | startCancel =>
    dsimp only [apply, marks]
    unfold FullController.StartCancel
    split <;> rfl
  | notifyOnCancel callback =>
    dsimp only [apply, marks]
    unfold FullController.NotifyOnCancel
    split <;> rfl
  | setCancelCallback callback =>
    dsimp only [apply, marks]
    unfold FullController.SetCancelCallback
    split <;> rfl
  | _ => rfl

end ControllerCall

/-- A step of a service method, which is given a controller and a response message. -/
inductive MethodStep (C M : Type)
  | controller (call : ControllerCall C)
  | write (response : M)

namespace MethodStep

variable {C M : Type}

def apply (s : FullController C × M) : MethodStep C M → FullController C × M
  | .controller call => (call.apply s.1, s.2)
  | .write response => (s.1, response)

def marks : MethodStep C M → Option (Option Unit)
  | .controller call => call.marks
  | .write _ => none

/-- The response message after the writes of the method. -/
def lastResponse (prototype : M) (steps : List (MethodStep C M)) : M :=
  steps.foldl (fun old e => match e with
    | .controller _ => old
    | .write response => response) prototype

/-- The method marks the controller failed, and does not take the mark back. -/
def MarksFailed (steps : List (MethodStep C M)) : Prop :=
  ∃ pre e post, steps = pre ++ e :: post ∧ e.marks = some (some ()) ∧ ∀ e' ∈ post, e'.marks = none

theorem foldl_response (c : FullController C) (prototype : M) (steps : List (MethodStep C M)) :
    (steps.foldl apply (c, prototype)).2 = lastResponse prototype steps := by
  induction steps generalizing c prototype with
  | nil => rfl
  | cons e steps ih =>
    cases e with
    | controller call => exact ih _ _
    | write response => exact ih _ _

theorem foldl_failed {c : FullController C} (hc : c.m_is_failed = false) (prototype : M)
    (steps : List (MethodStep C M)) :
    (steps.foldl apply (c, prototype)).1.m_is_failed = true ↔ MarksFailed steps := by
  have hlast : (steps.foldl apply (c, prototype)).1.m_is_failed
      = (LastWrite.lastWrite marks steps).isSome := by
    induction steps using List.reverseRecOn with
    | nil => exact hc
    | append_singleton steps e ih =>
      rw [List.foldl_concat, LastWrite.lastWrite_append]
      cases e with
      | controller call =>
        dsimp only [apply, marks]
        rw [ControllerCall.apply_failed, ih]
        cases call.marks with
        | none => rfl
        | some mark => rfl
      | write response => exact ih
  rw [hlast, Option.isSome_iff_exists]
  constructor
  · rintro ⟨_, h⟩
    exact LastWrite.lastWrite_eq_some_iff.mp h
  · intro h
    exact ⟨(), LastWrite.lastWrite_eq_some_iff.mpr h⟩

end MethodStep

namespace RpcDispatcher

variable {C M : Type}

/-- The controller `dispatch` makes for a request. -/
def newController (request : TinyPBProtocol) (local_addr peer_addr : Option IPNetAddr) :
    FullController C :=
  ((({} : FullController C).SetLocalAddr local_addr).SetPeerAddr peer_addr).SetMsgId
    request.m_msg_id

/-- The controller and the response message when the method runs its closure. -/
def callMethod (request : TinyPBProtocol) (local_addr peer_addr : Option IPNetAddr)
    (prototype : M) (steps : List (MethodStep C M)) : FullController C × M :=
  steps.foldl MethodStep.apply (newController request local_addr peer_addr, prototype)

/-- The frame the closure replies with. -/
def replyFrame (SerializeToString : M → Serialized) (request : TinyPBProtocol)
    (s : FullController C × M) : TinyPBProtocol :=
  closureResponse (freshResponse request) (SerializeToString s.2)

/-- A frame reports how the method ended: no error exactly if the response was serialised and the
controller was not marked failed, and else an error with a text that was recorded for it. -/
def Reports (c : FullController C) (r : Serialized) (frame : TinyPBProtocol) : Prop :=
  (frame.m_err_code = 0 ∧ frame.m_err_info = [] ↔ r.ok = true ∧ c.m_is_failed = false) ∧
  (¬ (r.ok = true ∧ c.m_is_failed = false) → frame.m_err_code ≠ 0 ∧
    (c.m_is_failed = true ∧ frame.m_err_info = c.m_error_info ∨
      r.ok = false ∧ frame.m_err_info = str "serilize error"))

/-- **The closure reports what `SerializeToString` returned**, and nothing of the controller. -/
theorem closureResponse_reports_iff (c : FullController C) (rsp : TinyPBProtocol)
    (r : Serialized) :
    Reports c r (closureResponse rsp r) ↔ ¬ (r.ok = true ∧ c.m_is_failed = true) := by
  unfold closureResponse
  by_cases hr : r.ok = true
  · rw [if_pos hr]
    constructor
    · rintro ⟨h, -⟩ ⟨-, hf⟩
      have hf' := (h.mp ⟨rfl, rfl⟩).2
      rw [hf] at hf'
      cases hf'
    · intro h
      have hf : c.m_is_failed = false := by simpa using fun hf => h ⟨hr, hf⟩
      exact ⟨iff_of_true ⟨rfl, rfl⟩ ⟨hr, hf⟩, fun hn => absurd ⟨hr, hf⟩ hn⟩
  · rw [if_neg hr]
    have hcode : ERROR_FAILED_SERIALIZE ≠ 0 := by decide
    refine iff_of_true ⟨iff_of_false (fun h => hcode h.1) (fun h => hr h.1), fun _ => ?_⟩
      (fun h => hr h.1)
    exact ⟨hcode, Or.inr ⟨by simpa using hr, rfl⟩⟩

/-- **When the frame reports how the method ended**: exactly if not both the method marked its
controller failed and the response it left serialises. -/
theorem serve_reports_iff (SerializeToString : M → Serialized) (request : TinyPBProtocol)
    (local_addr peer_addr : Option IPNetAddr) (prototype : M) (steps : List (MethodStep C M)) :
    let s := callMethod request local_addr peer_addr prototype steps
    Reports s.1 (SerializeToString s.2) (replyFrame SerializeToString request s) ↔
      ¬ ((SerializeToString (MethodStep.lastResponse prototype steps)).ok = true ∧
        MethodStep.MarksFailed steps) := by
  intro s
  have hc : (newController request local_addr peer_addr : FullController C).m_is_failed = false :=
    rfl
  rw [replyFrame, closureResponse_reports_iff, ← MethodStep.foldl_failed hc prototype,
    ← MethodStep.foldl_response (newController request local_addr peer_addr)]
  rfl

/-- A method that refuses an order: the frame says that the call succeeded. -/
theorem failed_method_reported_as_success :
    let s : FullController Unit × Bytes := callMethod { m_msg_id := str "1" } none none []
      [.controller (.setFailed (str "short balance")), .write [8, 1]]
    let r : Serialized := ⟨true, s.2⟩
    s.1.m_is_failed = true ∧ s.1.m_error_info = str "short balance" ∧
      (replyFrame (fun m => ⟨true, m⟩) { m_msg_id := str "1" } s).m_err_code = 0 ∧
      ¬ Reports s.1 r (replyFrame (fun m => ⟨true, m⟩) { m_msg_id := str "1" } s) := by
  refine ⟨rfl, rfl, rfl, fun h => ?_⟩
  cases (h.1.mp ⟨rfl, rfl⟩).2

end RpcDispatcher

/-! ### The client -/

namespace Attempt

/-- The controller has the outcome that the frame tells of: its error if it has one, and else
whether the body parses. -/
def Transparent (ParseFromString : Bytes → Bool) (message : TinyPBProtocol)
    (c : RpcController Unit) : Prop :=
  (message.m_err_code ≠ 0 → c.m_is_failed = true ∧ c.m_error_code = message.m_err_code ∧
    c.m_error_info = message.m_err_info) ∧
  (message.m_err_code = 0 →
    (ParseFromString message.m_pb_data = true → c.m_is_failed = false) ∧
    (ParseFromString message.m_pb_data = false →
      c.m_is_failed = true ∧ c.m_error_code = ERROR_FAILED_SERIALIZE))

theorem complete_failed {a : Attempt} (h : a.Fresh) (hheld : a.held = true) (error_code : Int32)
    (error_info : Bytes) : (a.complete error_code error_info).controller.m_is_failed = true ↔
      error_code ≠ 0 ∨ a.controller.m_is_failed = true := by
  rw [complete_eq_finish h hheld]
  unfold finish
  dsimp only
  split
  · rename_i hcode
    exact iff_of_true rfl (Or.inl hcode)
  · rename_i hcode
    exact ⟨Or.inr, fun h => h.resolve_left hcode⟩

/-- **What a response leaves in the controller** of an attempt it completes. -/
theorem response_controller (ParseFromString : Bytes → Bool) {a : Attempt} (h : a.Pending)
    (hheld : a.held = true) {message : TinyPBProtocol} (ht : a.Terminal (.response message))
    (hf : a.controller.m_is_failed = false) :
    let c := (a.step ParseFromString (.response message)).controller
    let v := responseResult ParseFromString message
    (c.m_is_failed = true ↔ v.1 ≠ 0) ∧
      (v.1 ≠ 0 → c.m_error_code = v.1 ∧ c.m_error_info = v.2) := by
  obtain ⟨client, hfresh, -, heq⟩ := step_eq_complete ParseFromString h hheld ht
  have hresult := (step_terminal ParseFromString h hheld ht).2
  refine ⟨?_, fun hv => ?_⟩
  · rw [heq, complete_failed hfresh hheld]
    exact or_iff_left (by simp [hf])
  · rw [settled, verdict, if_pos hv] at hresult
    injection hresult with _ hresult
    exact ⟨congrArg Prod.fst hresult, congrArg Prod.snd hresult⟩

/-- **When a response is transparent**: exactly if it has no error, or its body parses as the
response message, or its error happens to be the one a body that does not parse is given. -/
theorem response_transparent_iff (ParseFromString : Bytes → Bool) {a : Attempt} (h : a.Pending)
    (hheld : a.held = true) {message : TinyPBProtocol} (ht : a.Terminal (.response message))
    (hf : a.controller.m_is_failed = false) :
    Transparent ParseFromString message (a.step ParseFromString (.response message)).controller ↔
      message.m_err_code = 0 ∨ ParseFromString message.m_pb_data = true ∨
        (message.m_err_code = ERROR_FAILED_SERIALIZE ∧
          message.m_err_info = str "failed to deserialize response") := by
  obtain ⟨hfailed, herror⟩ := response_controller ParseFromString h hheld ht hf
  -- The body is parsed first; the error code counts only if it parses.
  by_cases hp : ParseFromString message.m_pb_data = true
  · refine iff_of_true ?_ (Or.inr (Or.inl hp))
    rw [responseResult, if_neg (not_not.mpr hp)] at hfailed herror
    by_cases hcode : message.m_err_code = 0
    · rw [if_neg (not_not.mpr hcode)] at hfailed
      refine ⟨fun hne => absurd hcode hne, fun _ => ⟨fun _ => ?_, fun hn => ?_⟩⟩
      · simpa using hfailed
      · cases hn.symm.trans hp
    · rw [if_pos hcode] at hfailed herror
      exact ⟨fun _ => ⟨hfailed.mpr hcode, herror hcode⟩, fun h0 => absurd h0 hcode⟩
  · have hser : ERROR_FAILED_SERIALIZE ≠ 0 := by decide
    rw [responseResult, if_pos hp] at hfailed herror
    obtain ⟨hec, hei⟩ := herror hser
    constructor
    · rintro ⟨h1, -⟩
      by_cases hcode : message.m_err_code = 0
      · exact Or.inl hcode
      · obtain ⟨-, hec', hei'⟩ := h1 hcode
        exact Or.inr (Or.inr ⟨hec'.symm.trans hec, hei'.symm.trans hei⟩)
    · intro hwhen
      refine ⟨fun hcode => ?_, fun _ => ⟨fun hp' => absurd hp' hp, fun _ => ⟨hfailed.mpr hser, hec⟩⟩⟩
      obtain ⟨hcode', hinfo⟩ := (hwhen.resolve_left hcode).resolve_left hp
      exact ⟨hfailed.mpr hser, hec.trans hcode'.symm, hei.trans hinfo.symm⟩

/-- An attempt whose request was written. -/
def awaiting : Attempt :=
  run (fun _ => true) (CallMethod 0 3 0 {} { m_msg_id := str "1" } {} 0)
    [.connecting true, .connectDone .success, .writeDone]

theorem awaiting_pending : awaiting.Pending ∧ awaiting.held = true := by
  have hnew : ¬ ({} : Eventloop).m_timer.IsPending 0 := not_not.mpr rfl
  have hp := (CallMethod_pending 0 3 {} { m_msg_id := str "1" } 0 hnew).1
  obtain ⟨h, -, -⟩ | ⟨_, _, _, _, _, hd⟩ := run_pending (fun _ => true) hp rfl
    [.connecting true, .connectDone .success, .writeDone]
  · exact ⟨h, by decide +kernel⟩
  · cases (show awaiting.completed = false by decide +kernel).symm.trans hd.completed

/-- The response of a service that is not there, for a message that may be empty. -/
theorem response_transparent_iff_not_found :
    let message : TinyPBProtocol :=
      { m_msg_id := str "1", m_err_code := ERROR_SERVICE_NOT_FOUND,
        m_err_info := str "service not found" }
    awaiting.Pending ∧ awaiting.held = true ∧ awaiting.Terminal (.response message) ∧
      awaiting.controller.m_is_failed = false ∧
      Transparent (fun _ => true) message
        (awaiting.step (fun _ => true) (.response message)).controller := by
  intro message
  have ht : awaiting.Terminal (.response message) := by decide +kernel
  have hf : awaiting.controller.m_is_failed = false := by decide +kernel
  exact ⟨awaiting_pending.1, awaiting_pending.2, ht, hf,
    (response_transparent_iff _ awaiting_pending.1 awaiting_pending.2 ht hf).mpr
      (Or.inr (Or.inl rfl))⟩

/-- The same response, whose empty body is no message if a field is required: the caller learns
that the response could not be parsed, and not that there is no such service. -/
theorem required_field_hides_error :
    let message : TinyPBProtocol :=
      { m_msg_id := str "1", m_err_code := ERROR_SERVICE_NOT_FOUND,
        m_err_info := str "service not found" }
    let ParseFromString : Bytes → Bool := fun body => body ≠ []
    awaiting.Pending ∧ awaiting.held = true ∧ awaiting.Terminal (.response message) ∧
      awaiting.controller.m_is_failed = false ∧
      ¬ Transparent ParseFromString message
        (awaiting.step ParseFromString (.response message)).controller := by
  intro message ParseFromString
  refine ⟨awaiting_pending.1, awaiting_pending.2, by decide +kernel, by decide +kernel, ?_⟩
  rintro ⟨h, -⟩
  obtain ⟨-, hcode, -⟩ := h (by decide)
  exact absurd hcode (by decide +kernel)

end Attempt

end KaiRPC
