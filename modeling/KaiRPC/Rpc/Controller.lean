import KaiRPC.Coder.Protocol
import KaiRPC.Tcp.NetAddr

/-!
# RpcController

`net/rpc/rpc_controller.cc`: the result of a call and its cancellation.  Each function
is one critical section of the controller's mutex; a callback that a function runs
after it is returned.  `C` is the type of the cancel callbacks.

`RpcController` has the fields an RPC attempt of the client uses.  `FullController` has all of
them: a service method on the server is given one, and so is a caller that registers a closure
with `NotifyOnCancel`.
-/

namespace KaiRPC

structure RpcController (C : Type) where
  m_error_code : Int32 := 0
  m_error_info : Bytes := []
  m_msg_id : Bytes := []
  m_is_failed : Bool := false
  m_is_cancled : Bool := false
  m_is_finished : Bool := false
  m_timeout : Int := 1000
  m_cancel_callback : Option C := none

namespace RpcController

variable {C : Type}

def SetError (c : RpcController C) (error_code : Int32) (error_info : Bytes) : RpcController C :=
  { c with m_error_code := error_code, m_error_info := error_info, m_is_failed := true }

def SetFinished (c : RpcController C) (value : Bool) : RpcController C :=
  { c with m_is_finished := value }

/-- The cancel callback it runs is moved out. -/
def StartCancel (c : RpcController C) : RpcController C × Option C :=
  if c.m_is_cancled ∨ c.m_is_finished then (c, none)
  else ({ c with m_is_cancled := true, m_cancel_callback := none }, c.m_cancel_callback)

/-- On a cancelled controller the callback runs at once. -/
def SetCancelCallback (c : RpcController C) (callback : C) : RpcController C × Option C :=
  if c.m_is_cancled then (c, some callback)
  else ({ c with m_cancel_callback := some callback }, none)

def ClearCancelCallback (c : RpcController C) : RpcController C :=
  { c with m_cancel_callback := none }

/-- The three fields a caller reads the result from. -/
def result (c : RpcController C) : Bool × Int32 × Bytes :=
  (c.m_is_finished, c.m_error_code, c.m_error_info)

@[simp] theorem StartCancel_result (c : RpcController C) : c.StartCancel.1.result = c.result := by
  unfold StartCancel
  split <;> rfl

theorem StartCancel_of_finished {c : RpcController C} (h : c.m_is_finished = true) :
    c.StartCancel = (c, none) := if_pos (Or.inr h)

theorem SetCancelCallback_result (c : RpcController C) (callback : C) :
    (c.SetCancelCallback callback).1.result = c.result := by
  unfold SetCancelCallback
  split <;> rfl

end RpcController

/-! ### All the fields -/

structure FullController (C : Type) extends RpcController C where
  m_local_addr : Option IPNetAddr := none
  m_peer_addr : Option IPNetAddr := none
  m_cancel_closure : Option C := none

namespace FullController

variable {C : Type}

/-- Every field goes back to its default. -/
def Reset (_ : FullController C) : FullController C := {}

def SetFailed (c : FullController C) (reason : Bytes) : FullController C :=
  { c with m_error_info := reason, m_is_failed := true }

def SetError (c : FullController C) (error_code : Int32) (error_info : Bytes) :
    FullController C :=
  { c with toRpcController := c.toRpcController.SetError error_code error_info }

def SetMsgId (c : FullController C) (msg_id : Bytes) : FullController C :=
  { c with m_msg_id := msg_id }

def SetLocalAddr (c : FullController C) (addr : Option IPNetAddr) : FullController C :=
  { c with m_local_addr := addr }

def SetPeerAddr (c : FullController C) (addr : Option IPNetAddr) : FullController C :=
  { c with m_peer_addr := addr }

def SetTimeout (c : FullController C) (timeout : Int) : FullController C :=
  { c with m_timeout := timeout }

def SetFinished (c : FullController C) (value : Bool) : FullController C :=
  { c with toRpcController := c.toRpcController.SetFinished value }

def ClearCancelCallback (c : FullController C) : FullController C :=
  { c with toRpcController := c.toRpcController.ClearCancelCallback }

/-- The closure and the callback it runs, in this order. -/
def StartCancel (c : FullController C) : FullController C × List C :=
  if c.m_is_cancled ∨ c.m_is_finished then (c, [])
  else ({ c with m_is_cancled := true, m_cancel_closure := none, m_cancel_callback := none },
    c.m_cancel_closure.toList ++ c.m_cancel_callback.toList)

/-- `none` is the null pointer. -/
def NotifyOnCancel (c : FullController C) (callback : Option C) : FullController C × List C :=
  if c.m_is_cancled then (c, callback.toList) else ({ c with m_cancel_closure := callback }, [])

/-- `none` is the empty function. -/
def SetCancelCallback (c : FullController C) (callback : Option C) :
    FullController C × List C :=
  if c.m_is_cancled then (c, callback.toList) else ({ c with m_cancel_callback := callback }, [])

/-- **Without a closure a cancellation is the one of an attempt**, on its fields and in what it
runs. -/
theorem StartCancel_toRpcController {c : FullController C} (h : c.m_cancel_closure = none) :
    c.StartCancel.1.toRpcController = c.toRpcController.StartCancel.1 ∧
      c.StartCancel.2 = c.toRpcController.StartCancel.2.toList := by
  unfold StartCancel RpcController.StartCancel
  split
  · exact ⟨rfl, rfl⟩
  · rw [h]
    exact ⟨rfl, rfl⟩

theorem SetCancelCallback_toRpcController (c : FullController C) (callback : C) :
    (c.SetCancelCallback (some callback)).1.toRpcController
        = (c.toRpcController.SetCancelCallback callback).1 ∧
      (c.SetCancelCallback (some callback)).2
        = (c.toRpcController.SetCancelCallback callback).2.toList := by
  unfold SetCancelCallback RpcController.SetCancelCallback
  split <;> exact ⟨rfl, rfl⟩

end FullController

end KaiRPC
