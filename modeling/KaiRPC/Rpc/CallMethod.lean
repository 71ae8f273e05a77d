import KaiRPC.Common.Config
import KaiRPC.Rpc.Channel

/-!
# A call from its beginning

`RpcChannel::CallMethod` of `net/rpc/rpc_channel.cc` up to the request state, from where
`Attempt.CallMethod` goes on, with `Init`, `FindAddr` and `aliasController`.  Controllers and
closures are numbered objects, as the channel and the caller may hold the same ones or not: what
fails early is reported to the arguments, an attempt to the objects of `Init`.

* `callMethod_cases`: a call is dropped, fails at once, or starts an attempt; the last check of
  the source never fails.
* `call_ends`: **every call is completed at most once**, at once or by its attempt, in every
  order of the events; it is dropped only without a controller, and a call that fails at once
  leaves a finished and failed controller, no attempt, and has run the caller's closure once.
-/

namespace KaiRPC

def ERROR_RPC_CHANNEL_INIT : Int32 := 10000011
def ERROR_RPC_PEER_ADDR : Int32 := 10000012

structure RpcChannel where
  m_peer_addr : Option IPNetAddr := none
  m_controller : Option Nat := none
  m_closure : Option Nat := none
  m_is_init : Bool := false
deriving DecidableEq, Repr

/-- The arguments of a call.  A null pointer is `none`, and so is a controller of another type;
`request` is what `SerializeToString` makes of the message. -/
structure CallArguments where
  method : Option Bytes
  controller : Option Nat
  request : Option (Option Bytes)
  response : Bool
  done : Option Nat

/-- What `CallMethod` asks the process for. -/
structure CallEnv where
  service_center_map : ConfigMap
  serviceDiscovery : Bytes → Bytes → Int → Bytes
  m_rpc_stubs : Bytes → Option IPNetAddr
  /-- `RunTime::m_msgid`. -/
  m_msgid : Bytes
  GenMsgID : Bytes

structure CallState where
  channel : RpcChannel
  controllers : Nat → RpcController Unit
  /-- The closures that have run. -/
  ran : List Nat := []

/-- What the request state is made from. -/
structure CallStart where
  controller : Nat
  closure : Option Nat
  peer_addr : IPNetAddr
  req_protocol : TinyPBProtocol

namespace RpcChannel

def Init (v : RpcChannel) (controller done : Option Nat) : RpcChannel :=
  if v.m_is_init then v
  else { v with m_controller := controller, m_closure := done, m_is_init := true }

def FindAddr (m_rpc_stubs : Bytes → Option IPNetAddr) (text : Bytes) : Option IPNetAddr :=
  if IPNetAddr.CheckValid text then some (IPNetAddr.ofString text) else m_rpc_stubs text

def aliasController (controller raw_controller : Option Nat) : Option Nat :=
  controller.orElse fun _ => raw_controller

end RpcChannel

namespace CallState

def completeSynchronously (s : CallState) (controller : Nat) (done : Option Nat)
    (error_code : Int32) (error_info : Bytes) : CallState :=
  { s with
    controllers := Function.update s.controllers controller
      (((s.controllers controller).SetError error_code error_info).SetFinished true)
    ran := s.ran ++ done.toList }

/-- The service centre's address in the configuration; a missing key reads as the empty text. -/
def serverAddr (env : CallEnv) (full_name : Bytes) : Bytes :=
  env.serviceDiscovery full_name (env.service_center_map[str "service_center_ip"]?.getD [])
    (Text.atoi (env.service_center_map[str "query_port"]?.getD []))

/-- The id of the request: the controller's, the run time's, or a new one. -/
def msgId (env : CallEnv) (controller : RpcController Unit) : Bytes :=
  if controller.m_msg_id = [] then if env.m_msgid = [] then env.GenMsgID else env.m_msgid
  else controller.m_msg_id

/-- `CallMethod` behind the address: from the id to the request state. -/
def prepare (s : CallState) (env : CallEnv) (full_name : Bytes) (rpc_controller : Nat)
    (request : Option Bytes) (done : Option Nat) (peer_addr : IPNetAddr) :
    CallState × Option CallStart :=
  let msg_id := msgId env (s.controllers rpc_controller)
  let s := { s with
    channel := { s.channel with m_peer_addr := some peer_addr }
    controllers := Function.update s.controllers rpc_controller
      { s.controllers rpc_controller with m_msg_id := msg_id } }
  if ¬ s.channel.m_is_init then
    (s.completeSynchronously rpc_controller done ERROR_RPC_CHANNEL_INIT
      (str "RpcChannel not call init()"), none)
  else match request with
    | none => (s.completeSynchronously rpc_controller done ERROR_FAILED_SERIALIZE
        (str "failed to serialize request"), none)
    | some pb_data =>
        match RpcChannel.aliasController s.channel.m_controller (some rpc_controller) with
        | none => (s.completeSynchronously rpc_controller done ERROR_RPC_CHANNEL_INIT
            (str "controller type is unsupported"), none)
        | some controller => (s, some
            { controller := controller
              closure := s.channel.m_closure.orElse fun _ => done
              peer_addr := peer_addr
              req_protocol :=
                { m_msg_id := msg_id, m_method_name := full_name, m_pb_data := pb_data } })

def CallMethod (s : CallState) (env : CallEnv) (args : CallArguments) :
    CallState × Option CallStart :=
  match args.controller with
  | none => (s, none)
  | some rpc_controller =>
      match args.request, args.method, args.response with
      | some request, some full_name, true =>
          if (s.controllers rpc_controller).m_is_cancled then
            (s.completeSynchronously rpc_controller args.done ERROR_RPC_CALL_CANCELLED
              (str "rpc call cancelled"), none)
          else
            let server_addr := serverAddr env full_name
            if server_addr = str "unknown host" then
              (s.completeSynchronously rpc_controller args.done ERROR_RPC_PEER_ADDR
                (str "service not found"), none)
            else match RpcChannel.FindAddr env.m_rpc_stubs server_addr with
              | none =>
                  ({ s with
                    channel := { s.channel with m_peer_addr := none } }.completeSynchronously
                    rpc_controller args.done ERROR_RPC_PEER_ADDR (str "peer addr nullptr"), none)
              | some peer_addr =>
                  s.prepare env full_name rpc_controller request args.done peer_addr
      | _, _, _ => (s.completeSynchronously rpc_controller args.done ERROR_RPC_CHANNEL_INIT
          (str "controller, method, request or response NULL"), none)

/-! ### The three ends of a call -/

/-- The call failed at once: the controller of the arguments is finished and failed with a code,
the other controllers are as they were, and the closure of the arguments has run. -/
structure FailedAtOnce (s s' : CallState) (rpc_controller : Nat) (done : Option Nat) : Prop where
  ran : s'.ran = s.ran ++ done.toList
  finished : (s'.controllers rpc_controller).m_is_finished = true
  failed : (s'.controllers rpc_controller).m_is_failed = true
  error_code : (s'.controllers rpc_controller).m_error_code ≠ 0
  others : ∀ k, k ≠ rpc_controller → s'.controllers k = s.controllers k

/-- The call goes on as an attempt, with the id that the controller of the arguments now has. -/
structure Starts (s s' : CallState) (env : CallEnv) (rpc_controller : Nat)
    (full_name pb_data : Bytes) (done : Option Nat) (start : CallStart) : Prop where
  ran : s'.ran = s.ran
  msg_id : (s'.controllers rpc_controller).m_msg_id = start.req_protocol.m_msg_id
  unfinished : (s'.controllers rpc_controller).result = (s.controllers rpc_controller).result
  others : ∀ k, k ≠ rpc_controller → s'.controllers k = s.controllers k
  peer_addr : RpcChannel.FindAddr env.m_rpc_stubs (serverAddr env full_name) = some start.peer_addr
  method_name : start.req_protocol.m_method_name = full_name
  pb_data : start.req_protocol.m_pb_data = pb_data
  controller : start.controller = s.channel.m_controller.getD rpc_controller
  closure : start.closure = s.channel.m_closure.orElse fun _ => done

section Ends

variable {s s' : CallState}

theorem completeSynchronously_failed {rpc_controller : Nat} {error_code : Int32}
    (hcode : error_code ≠ 0) (done : Option Nat) (error_info : Bytes) (hran : s'.ran = s.ran)
    (hothers : ∀ k, k ≠ rpc_controller → s'.controllers k = s.controllers k) :
    FailedAtOnce s (s'.completeSynchronously rpc_controller done error_code error_info)
      rpc_controller done := by
  have hself : (s'.completeSynchronously rpc_controller done error_code error_info).controllers
      rpc_controller =
        ((s'.controllers rpc_controller).SetError error_code error_info).SetFinished true :=
    Function.update_self ..
  refine ⟨?_, ?_, ?_, ?_, fun k hk => ?_⟩
  · show s'.ran ++ done.toList = _
    rw [hran]
  · rw [hself]
    rfl
  · rw [hself]
    rfl
  · rw [hself]
    exact hcode
  · exact (Function.update_of_ne hk ..).trans (hothers k hk)

theorem prepare_cases (s : CallState) (env : CallEnv) (full_name : Bytes) (rpc_controller : Nat)
    (request : Option Bytes) (done : Option Nat) {peer_addr : IPNetAddr}
    (hpeer : RpcChannel.FindAddr env.m_rpc_stubs (serverAddr env full_name) = some peer_addr) :
    (∃ s', s.prepare env full_name rpc_controller request done peer_addr = (s', none) ∧
        FailedAtOnce s s' rpc_controller done) ∨
      ∃ s' pb_data start, request = some pb_data ∧
        s.prepare env full_name rpc_controller request done peer_addr = (s', some start) ∧
        Starts s s' env rpc_controller full_name pb_data done start := by
  have hothers : ∀ k, k ≠ rpc_controller → Function.update s.controllers rpc_controller
      { s.controllers rpc_controller with m_msg_id := msgId env (s.controllers rpc_controller) } k =
        s.controllers k :=
    fun k hk => Function.update_of_ne hk ..
  unfold prepare
  dsimp only
  split
  · exact Or.inl ⟨_, rfl, completeSynchronously_failed (by decide) done _ rfl hothers⟩
  · cases request with
    | none => exact Or.inl ⟨_, rfl, completeSynchronously_failed (by decide) done _ rfl hothers⟩
    | some pb_data =>
      have hsome : RpcChannel.aliasController s.channel.m_controller (some rpc_controller) =
          some (s.channel.m_controller.getD rpc_controller) := by
        unfold RpcChannel.aliasController
        cases s.channel.m_controller <;> rfl
      rw [hsome]
      refine Or.inr ⟨_, pb_data, _, rfl, rfl, ⟨rfl, ?_, ?_, hothers, hpeer, rfl, rfl, rfl, rfl⟩⟩
      · show (Function.update s.controllers rpc_controller _ rpc_controller).m_msg_id = _
        rw [Function.update_self]
      · show (Function.update s.controllers rpc_controller _ rpc_controller).result = _
        rw [Function.update_self]
        rfl

/-- **The three ends of a call.** -/
theorem callMethod_cases (s : CallState) (env : CallEnv) (args : CallArguments) :
    (args.controller = none ∧ s.CallMethod env args = (s, none)) ∨
      (∃ rpc_controller s', args.controller = some rpc_controller ∧
        s.CallMethod env args = (s', none) ∧ FailedAtOnce s s' rpc_controller args.done) ∨
      ∃ rpc_controller full_name pb_data s' start, args.controller = some rpc_controller ∧
        args.method = some full_name ∧ args.request = some (some pb_data) ∧
        s.CallMethod env args = (s', some start) ∧
        Starts s s' env rpc_controller full_name pb_data args.done start := by
  obtain ⟨method, controller, request, response, done⟩ := args
  unfold CallMethod
  dsimp only
  cases controller with
  | none => exact Or.inl ⟨rfl, rfl⟩
  | some rpc_controller =>
    refine Or.inr ?_
    dsimp only
    split
    · rename_i request full_name
      split
      · exact Or.inl ⟨rpc_controller, _, rfl, rfl,
          completeSynchronously_failed (by decide) done _ rfl fun _ _ => rfl⟩
      · split
        · exact Or.inl ⟨rpc_controller, _, rfl, rfl,
            completeSynchronously_failed (by decide) done _ rfl fun _ _ => rfl⟩
        · split
          · exact Or.inl ⟨rpc_controller, _, rfl, rfl,
              completeSynchronously_failed (by decide) done _ rfl fun _ _ => rfl⟩
          · rename_i peer_addr hpeer
            obtain ⟨s', hs, hfail⟩ | ⟨s', pb_data, start, rfl, hs, hstart⟩ :=
              s.prepare_cases env full_name rpc_controller request done hpeer
            · exact Or.inl ⟨rpc_controller, s', rfl, hs, hfail⟩
            · exact Or.inr ⟨rpc_controller, full_name, pb_data, s', start, rfl, rfl, rfl, hs,
                hstart⟩
    · exact Or.inl ⟨rpc_controller, _, rfl, rfl,
        completeSynchronously_failed (by decide) done _ rfl fun _ _ => rfl⟩

end Ends

/-! ### The attempt -/

/-- The attempt a call goes on as. -/
def attempt (s : CallState) (start : CallStart) (self fd timer_event : Nat) (loop : Eventloop)
    (now : Int) : Attempt :=
  Attempt.CallMethod self fd timer_event (s.controllers start.controller) start.req_protocol loop
    now

/-- What the caller sees of an attempt. -/
def behind (s : CallState) (start : CallStart) (a : Attempt) : CallState :=
  { s with
    controllers := Function.update s.controllers start.controller a.controller
    ran := s.ran ++ (List.replicate a.closure_runs start.closure.toList).flatten }

/-- **Every call ends at most once.**  Without a controller it does nothing.  If it fails at once
the closure of the arguments has run and there is no attempt.  Otherwise no closure has run yet,
the request has the id of the controller and the full name of the method, and whatever happens to
the attempt, either it is not completed, no closure has run and the result is as before, or it is
completed, the closure of the channel has run once and the controller is finished. -/
theorem call_ends (ParseFromString : Bytes → Bool) (s : CallState) (env : CallEnv)
    (args : CallArguments) (self fd timer_event : Nat) (loop : Eventloop) (now : Int)
    (hnew : ¬ loop.m_timer.IsPending timer_event) (evs : List AttemptEvent) :
    match s.CallMethod env args, args.controller with
    | (s', none), none => s' = s
    | (s', none), some rpc_controller => FailedAtOnce s s' rpc_controller args.done
    | (_, some _), none => False
    | (s', some start), some rpc_controller =>
        start.req_protocol.m_msg_id = (s'.controllers rpc_controller).m_msg_id ∧
        some start.req_protocol.m_method_name = args.method ∧
        let a := Attempt.run ParseFromString (s'.attempt start self fd timer_event loop now) evs
        (a.completed = false ∧ (s'.behind start a).ran = s.ran ∧
          ((s'.behind start a).controllers start.controller).result =
            (s'.controllers start.controller).result) ∨
        (a.completed = true ∧ (s'.behind start a).ran = s.ran ++ start.closure.toList ∧
          ((s'.behind start a).controllers start.controller).m_is_finished = true) := by
  obtain ⟨hc, hs⟩ | ⟨c, s', hc, hs, hfail⟩ |
    ⟨c, full_name, pb_data, s', start, hc, hm, -, hs, hst⟩ := s.callMethod_cases env args
  · rw [hs, hc]
  · rw [hs, hc]
    exact hfail
  · rw [hs, hc]
    dsimp only
    obtain ⟨hp₀, hr₀⟩ := Attempt.CallMethod_pending self fd (s'.controllers start.controller)
      start.req_protocol now hnew
    refine ⟨hst.msg_id.symm, by rw [hst.method_name, hm], ?_⟩
    have hself : ∀ a : Attempt, (s'.behind start a).controllers start.controller = a.controller :=
      fun a => Function.update_self ..
    rw [hself]
    obtain ⟨hp, hr, -⟩ | ⟨-, -, -, -, -, hd⟩ := Attempt.run_pending ParseFromString hp₀ rfl evs
    · refine Or.inl ⟨hp.completed, ?_, hr.trans hr₀⟩
      show s'.ran ++ (List.replicate _ _).flatten = s.ran
      rw [attempt, hp.closure_runs, List.replicate_zero, List.flatten_nil, List.append_nil, hst.ran]
    · refine Or.inr ⟨hd.completed, ?_, hd.finished⟩
      show s'.ran ++ (List.replicate _ _).flatten = s.ran ++ _
      rw [attempt, hd.closure_runs, List.replicate_one, List.flatten_cons, List.flatten_nil,
        List.append_nil, hst.ran]

/-- A call of `Order.makeOrder`, found at an address, on a channel with the caller's objects. -/
theorem call_ends_order :
    let s : CallState :=
      { channel := RpcChannel.Init {} (some 0) (some 5), controllers := fun _ => {} }
    let env : CallEnv :=
      { service_center_map := ∅, serviceDiscovery := fun _ _ _ => str "10.0.0.1:80"
        m_rpc_stubs := fun _ => none, m_msgid := [], GenMsgID := str "17" }
    let args : CallArguments :=
      { method := some (str "Order.makeOrder"), controller := some 0, request := some (some [])
        response := true, done := some 5 }
    ∃ s' start, s.CallMethod env args = (s', some start) ∧
      let a := Attempt.run (fun _ => true) (s'.attempt start 0 3 0 {} 0) [.timeout, .cancelTask]
      a.completed = true ∧ (s'.behind start a).ran = [5] := by
  intro s env args
  obtain ⟨start, hstart, hp⟩ := (Option.any_eq_true _ _).mp (by decide +kernel :
    (s.CallMethod env args).2.any (fun start =>
      (Attempt.run (fun _ => true) ((s.CallMethod env args).1.attempt start 0 3 0 {} 0)
        [.timeout, .cancelTask]).completed && decide (start.closure = some 5)) = true)
  obtain ⟨hdone, hclosure⟩ := Bool.and_eq_true_iff.mp hp
  have hr : s.CallMethod env args = ((s.CallMethod env args).1, some start) := by
    rw [← hstart]
  have h := call_ends (fun _ => true) s env args 0 3 0 {} 0 (not_not.mpr rfl)
    [.timeout, .cancelTask]
  rw [hr] at h
  obtain ⟨-, -, ⟨hnot, -⟩ | ⟨-, hran, -⟩⟩ := h
  · rw [hdone] at hnot
    cases hnot
  · refine ⟨_, start, hr, hdone, ?_⟩
    rw [hran, of_decide_eq_true hclosure]
    rfl

end CallState

end KaiRPC
