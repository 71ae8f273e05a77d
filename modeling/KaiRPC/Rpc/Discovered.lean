import KaiRPC.Discovery.History
import KaiRPC.Discovery.RuntimeCommand
import KaiRPC.Rpc.CallMethod
import KaiRPC.Rpc.Dispatcher

/-!
# From a registration to a call

The server registers its services (`RpcDispatcher::registerService`), the service centre keeps
their methods with the server's address, and a client's `CallMethod` asks it for one of them: the
texts of three programs have to fit.  `Server` is a server whose services can be found: their
names are in no package (`package_is_cut_off` is what happens otherwise), distinct, and fit in a
command.

* `Server.findMethod_published`: every published name finds the method it was published for.
* `discovered_call`: **a call is started towards the server that registered its method, and the
  name in its request is dispatched to that method**, as long as the server's last word to the
  centre is not older than the TTL and nobody else has written the name since.
* `undiscovered_call`: without a live entry the call fails at once, and says so.
-/

namespace KaiRPC

open RpcDispatcher Runtime_Command Discovery

namespace RpcDispatcher

/-- `registerService` on one service after another: the map, and the names published. -/
def registerServices (services : List Service) : RpcDispatcher.ServiceMap × List Bytes :=
  services.foldl (fun p service =>
    ((registerService p.1 service).1, p.2 ++ (registerService p.1 service).2)) (fun _ => none, [])

theorem registerServices_append (services : List Service) (service : Service) :
    registerServices (services ++ [service]) =
      (Function.update (registerServices services).1 service.full_name (some service),
        (registerServices services).2 ++
          service.methods.map (methodFullName service.full_name)) := by
  unfold registerServices
  rw [List.foldl_append]
  rfl

/-- **The last registration under a name stands**, and every method is published. -/
theorem registerServices_spec {services : List Service}
    (hnames : (services.map Service.full_name).Nodup) {service : Service}
    (hs : service ∈ services) :
    (registerServices services).1 service.full_name = some service ∧
      ∀ method_name ∈ service.methods,
        methodFullName service.full_name method_name ∈ (registerServices services).2 := by
  induction services using List.reverseRecOn with
  | nil => cases hs
  | append_singleton services last ih =>
    rw [registerServices_append]
    rw [List.map_append, List.nodup_append] at hnames
    obtain ⟨hfirst, -, hdisjoint⟩ := hnames
    rcases List.mem_append.mp hs with hs | hs
    · obtain ⟨hmap, hpub⟩ := ih hfirst hs
      have hne : service.full_name ≠ last.full_name :=
        hdisjoint _ (List.mem_map_of_mem hs) _ (List.mem_singleton_self _)
      refine ⟨?_, fun m hm => List.mem_append_left _ (hpub m hm)⟩
      dsimp only
      rw [Function.update_of_ne hne]
      exact hmap
    · rw [List.mem_singleton] at hs
      subst hs
      exact ⟨Function.update_self .., fun m hm =>
        List.mem_append_right _ (List.mem_map_of_mem hm)⟩

end RpcDispatcher

/-- A server, with the address of its configuration. -/
structure Server where
  services : List Service
  local_ip : Bytes
  local_port : Int
  names : (services.map Service.full_name).Nodup
  no_package : ∀ service ∈ services, dot ∉ service.full_name
  valid_name : ∀ service ∈ services, ∀ method_name ∈ service.methods,
    ValidName (methodFullName service.full_name method_name)
  fits : ∀ service ∈ services, ∀ method_name ∈ service.methods,
    (heartbeat_service (methodFullName service.full_name method_name) local_ip local_port).length
      ≤ 1023
  valid_ip : ValidIp local_ip
  port : 1 ≤ local_port ∧ local_port ≤ 65535

namespace Server

variable {server : Server} {service : Service} {method_name : Bytes}

def m_service_map (server : Server) : RpcDispatcher.ServiceMap :=
  (registerServices server.services).1

/-- **A published name finds its method.** -/
theorem findMethod_published (hs : service ∈ server.services)
    (hm : method_name ∈ service.methods) :
    methodFullName service.full_name method_name ∈ (registerServices server.services).2 ∧
      findMethod server.m_service_map (methodFullName service.full_name method_name) =
        some (service, method_name) := by
  obtain ⟨hmap, hpub⟩ := registerServices_spec server.names hs
  refine ⟨hpub _ hm, ?_⟩
  unfold findMethod m_service_map
  rw [methodFullName, parseServiceFullName_eq (server.no_package service hs), Option.bind_some]
  dsimp only
  rw [hmap, Option.bind_some, if_pos hm]

/-- What the server says about a name: at its registration, and with every heartbeat. -/
def messages (server : Server) (name : Bytes) : List Request :=
  [.control (add_service name server.local_ip server.local_port),
    .control (heartbeat_service name server.local_ip server.local_port)]

end Server

namespace Discovery

/-- The name whose entry a command is about. -/
def Command.writes : Command → Option Bytes
  | .add name _ | .heartbeat name _ | .modify name _ | .delete name => some name
  | .lookup | .invalid | .unknown | .query _ => none

/-- The request writes another name or none. -/
def Spares (name : Bytes) (r : Request) : Prop := ∀ c, r.command = some c → c.writes ≠ some name

theorem history_append (SERVICE_TTL_MS : Int) (rs rs' : List Timed) : ∀ m,
    history SERVICE_TTL_MS m (rs ++ rs') =
      history SERVICE_TTL_MS m rs ++ history SERVICE_TTL_MS (after SERVICE_TTL_MS m rs) rs' := by
  induction rs with
  | nil => exact fun _ => rfl
  | cons r rs ih => exact fun m => congrArg (_ :: ·) (ih _)

theorem mem_history {SERVICE_TTL_MS : Int} {e : Handled} : ∀ {rs : List Timed} {m : ServiceMap},
    e ∈ history SERVICE_TTL_MS m rs → ∃ r ∈ rs, e.request = r.request := by
  intro rs
  induction rs with
  | nil =>
    intro m he
    cases he
  | cons r rs ih =>
    intro m he
    rcases List.mem_cons.mp he with rfl | he
    · exact ⟨r, List.mem_cons_self, rfl⟩
    · obtain ⟨r', hr', heq⟩ := ih he
      exact ⟨r', List.mem_cons_of_mem _ hr', heq⟩

theorem effect_of_spares {name : Bytes} {e : Handled} (h : Spares name e.request) :
    e.effect name = none := by
  unfold Handled.effect
  split
  · rename_i c reply hc _
    have hne := h c hc
    unfold Command.effect
    cases c with
    | add n a => exact if_neg fun he => hne (congrArg some he.2)
    | heartbeat n a => exact if_neg fun he => hne (congrArg some he.2)
    | modify n a => exact if_neg fun he => hne (congrArg some he.2)
    | delete n => exact if_neg fun he => hne (congrArg some he.2)
    | lookup => rfl
    | invalid => rfl
    | unknown => rfl
    | query n => rfl
  · rfl

end Discovery

/-! ### The server's word -/

namespace Server

variable {server : Server} {service : Service} {method_name : Bytes} {SERVICE_TTL_MS t : Int}

/-- The server has said something about the name, not too long ago, and nobody has written the
name since. -/
def Refreshed (server : Server) (SERVICE_TTL_MS : Int) (name : Bytes) (rs : List Timed) (t : Int) :
    Prop :=
  ∃ pre r post, rs = pre ++ r :: post ∧ r.request ∈ server.messages name ∧
    (∀ r' ∈ post, Spares name r'.request) ∧ t - r.now ≤ SERVICE_TTL_MS

theorem add_fits (hs : service ∈ server.services) (hm : method_name ∈ service.methods) :
    (add_service (methodFullName service.full_name method_name) server.local_ip
      server.local_port).length ≤ 1023 := by
  have hfits := server.fits service hs method_name hm
  have hadd : (str "add").length = 3 := by decide
  have hbeat : (str "heartbeat").length = 9 := by decide
  rw [heartbeat_service, length_service_command, hbeat] at hfits
  rw [add_service, length_service_command, hadd]
  omega

theorem effect_message (hs : service ∈ server.services) (hm : method_name ∈ service.methods)
    {r : Timed} (hr : r.request ∈ server.messages (methodFullName service.full_name method_name))
    (m : Discovery.ServiceMap) :
    Handled.effect ⟨r.now, r.request, (handle SERVICE_TTL_MS m r.now r.request).2⟩
        (methodFullName service.full_name method_name) =
      some (some ⟨IPNetAddr.text server.local_ip server.local_port, r.now⟩) := by
  have hname := server.valid_name service hs method_name hm
  have hnul := server.valid_ip.no_nul
  obtain ⟨now, request⟩ := r
  rcases List.mem_cons.mp hr with rfl | hr
  · have hc := command_add_service hname hnul (add_fits hs hm)
    rw [handle_of_command hc, Handled.effect, hc]
    exact if_pos ⟨rfl, rfl⟩
  · rw [List.mem_singleton] at hr
    dsimp only at hr
    subst hr
    have hc := command_heartbeat_service hname hnul (server.fits service hs method_name hm)
    rw [handle_of_command hc, Handled.effect, hc]
    exact if_pos ⟨rfl, rfl⟩

/-- **A refreshed name is live** with the server's address. -/
theorem Refreshed.live {rs : List Timed} (hs : service ∈ server.services)
    (hm : method_name ∈ service.methods)
    (h : server.Refreshed SERVICE_TTL_MS (methodFullName service.full_name method_name) rs t) :
    Live SERVICE_TTL_MS (history SERVICE_TTL_MS ∅ rs)
      (methodFullName service.full_name method_name) t
      (IPNetAddr.text server.local_ip server.local_port) := by
  obtain ⟨pre, r, post, rfl, hr, hpost, ht⟩ := h
  rw [history_append]
  refine ⟨_, _, _, rfl, effect_message hs hm hr _, fun e he => ?_, ht⟩
  obtain ⟨r', hr', hreq⟩ := mem_history he
  exact effect_of_spares (hreq ▸ hpost r' hr')

end Server

/-! ### The call -/

namespace CallState

/-- The call passes the checks that the service centre has no part in. -/
structure Ready (s : CallState) (args : CallArguments) (full_name pb_data : Bytes)
    (rpc_controller : Nat) : Prop where
  controller : args.controller = some rpc_controller
  method : args.method = some full_name
  request : args.request = some (some pb_data)
  response : args.response = true
  not_cancled : (s.controllers rpc_controller).m_is_cancled = false
  is_init : s.channel.m_is_init = true

/-- `serviceDiscovery` brings what the centre answers. -/
def Asks (env : CallEnv) (SERVICE_TTL_MS : Int) (m : Discovery.ServiceMap) (t : Int) : Prop :=
  ∀ name ip port, env.serviceDiscovery name ip port =
    ((handle SERVICE_TTL_MS m t (.query name)).2).getD []

variable {s : CallState} {env : CallEnv} {args : CallArguments} {full_name pb_data : Bytes}
  {rpc_controller : Nat}

theorem Ready.callMethod_unknown (h : s.Ready args full_name pb_data rpc_controller)
    (haddr : serverAddr env full_name = str "unknown host") :
    s.CallMethod env args = (s.completeSynchronously rpc_controller args.done ERROR_RPC_PEER_ADDR
      (str "service not found"), none) := by
  unfold CallMethod
  rw [h.controller, h.method, h.request, h.response]
  dsimp only
  rw [if_neg (by simp [h.not_cancled]), if_pos haddr]

theorem Ready.callMethod_started (h : s.Ready args full_name pb_data rpc_controller)
    (hvalid : IPNetAddr.CheckValid (serverAddr env full_name) = true) : ∃ s' start,
    s.CallMethod env args = (s', some start) ∧
      start.peer_addr = IPNetAddr.ofString (serverAddr env full_name) ∧
      start.req_protocol.m_method_name = full_name ∧ start.req_protocol.m_pb_data = pb_data := by
  have hknown : serverAddr env full_name ≠ str "unknown host" := by
    intro he
    rw [he] at hvalid
    exact absurd hvalid (by decide)
  unfold CallMethod
  rw [h.controller, h.method, h.request, h.response]
  dsimp only
  rw [if_neg (by simp [h.not_cancled]), if_neg hknown, RpcChannel.FindAddr, if_pos hvalid]
  dsimp only [prepare]
  rw [if_neg (not_not.mpr h.is_init)]
  cases s.channel.m_controller <;> exact ⟨_, _, rfl, rfl, rfl, rfl⟩

end CallState

variable {SERVICE_TTL_MS t : Int} {rs : List Timed} {s : CallState} {env : CallEnv}
  {args : CallArguments} {pb_data : Bytes} {rpc_controller : Nat}

/-- **A call reaches the method it names**: for every `Server` and every run of the service centre
in which the server's last word about a method is not older than the TTL and nobody has written
its name since, a call of the method that is `Ready` and `Asks` the centre is started towards the
server's own address, and the name in its request is one the server has published and dispatches
to that very method. -/
theorem discovered_call {server : Server} {service : Service} {method_name : Bytes}
    (hs : service ∈ server.services) (hm : method_name ∈ service.methods) (hmono : Monotone rs)
    (ht : ∀ r ∈ rs, r.now ≤ t)
    (hfresh : server.Refreshed SERVICE_TTL_MS (methodFullName service.full_name method_name) rs t)
    (hasks : CallState.Asks env SERVICE_TTL_MS (after SERVICE_TTL_MS ∅ rs) t)
    (hready : s.Ready args (methodFullName service.full_name method_name) pb_data rpc_controller) :
    ∃ s' start, s.CallMethod env args = (s', some start) ∧
      start.peer_addr.m_ip = server.local_ip ∧
      (start.peer_addr.m_port.toNat : Int) = server.local_port ∧
      start.req_protocol.m_method_name ∈ (registerServices server.services).2 ∧
      findMethod server.m_service_map start.req_protocol.m_method_name =
        some (service, method_name) := by
  have hname := server.valid_name service hs method_name hm
  have hanswer := (tracks_after SERVICE_TTL_MS hmono ht).answer_iff.mpr (hfresh.live hs hm)
  have hlen := length_name_le (server.fits service hs method_name hm)
  have haddr : CallState.serverAddr env (methodFullName service.full_name method_name) =
      IPNetAddr.text server.local_ip server.local_port := by
    unfold CallState.serverAddr
    rw [hasks, query_reply (command_query_name hname hlen) rfl, Option.getD_some]
    show (answer _ _ _ _).getD _ = _
    rw [hanswer]
    rfl
  have hip := server.valid_ip
  have hvalid := IPNetAddr.checkValid_text hip.no_colon hip.ne_nil server.port
  obtain ⟨hparsed, hport⟩ := IPNetAddr.ofString_text hip.no_colon server.port
  obtain ⟨s', start, hcall, hpeer, hmethod, -⟩ := hready.callMethod_started (haddr ▸ hvalid)
  rw [haddr] at hpeer
  obtain ⟨hpub, hfind⟩ := server.findMethod_published hs hm
  exact ⟨s', start, hcall, by rw [hpeer, hparsed], by rw [hpeer, hport],
    by rw [hmethod]; exact hpub, by rw [hmethod]; exact hfind⟩

/-- The server of the tests. -/
def orderServer : Server where
  services := [⟨str "Order", [str "makeOrder"], fun _ _ => true⟩]
  local_ip := str "127.0.0.1"
  local_port := 9999
  names := by decide
  no_package := by
    intro service hs
    rw [List.mem_singleton] at hs
    subst hs
    decide
  valid_name := by
    intro service hs method_name hm
    rw [List.mem_singleton] at hs
    subst hs
    rw [List.mem_singleton] at hm
    subst hm
    exact ⟨by decide, by decide, by decide⟩
  fits := by
    intro service hs method_name hm
    rw [List.mem_singleton] at hs
    subst hs
    rw [List.mem_singleton] at hm
    subst hm
    decide +kernel
  valid_ip := ⟨by decide, by decide, by decide, by decide⟩
  port := ⟨by decide, by decide⟩

/-- Its method is called 9 seconds after its registration; another name was registered since. -/
theorem discovered_call_order :
    let rs : List Timed := [⟨0, .control (str "add Order.makeOrder 127.0.0.1:9999")⟩,
      ⟨5000, .control (str "add echo 10.0.0.1:80")⟩]
    let env : CallEnv :=
      { service_center_map := ∅
        serviceDiscovery := fun name _ _ =>
          ((handle 10000 (after 10000 ∅ rs) 9000 (.query name)).2).getD []
        m_rpc_stubs := fun _ => none, m_msgid := [], GenMsgID := str "17" }
    let s : CallState :=
      { channel := RpcChannel.Init {} (some 0) (some 5), controllers := fun _ => {} }
    let args : CallArguments :=
      { method := some (str "Order.makeOrder"), controller := some 0, request := some (some [])
        response := true, done := some 5 }
    ∃ s' start, s.CallMethod env args = (s', some start) ∧
      start.peer_addr.m_ip = str "127.0.0.1" ∧ (start.peer_addr.m_port.toNat : Int) = 9999 := by
  intro rs env s args
  have hfresh : orderServer.Refreshed 10000 (methodFullName (str "Order") (str "makeOrder")) rs
      9000 := by
    refine ⟨[], _, [_], rfl, ?_, fun r hr c hc => ?_, by decide⟩
    · exact List.mem_cons.mpr (Or.inl (by decide +kernel))
    · rw [List.mem_singleton] at hr
      subst hr
      have hcommand : (Request.control (str "add echo 10.0.0.1:80")).command =
          some (.add (str "echo") (str "10.0.0.1:80")) := by decide +kernel
      rw [hcommand] at hc
      cases hc
      decide
  have hs : (⟨str "Order", [str "makeOrder"], fun _ _ => true⟩ : Service) ∈ orderServer.services :=
    List.mem_singleton_self _
  have hasks : CallState.Asks env 10000 (after 10000 ∅ rs) 9000 := fun _ _ _ => rfl
  have hready : s.Ready args (methodFullName (str "Order") (str "makeOrder")) [] 0 :=
    ⟨rfl, rfl, rfl, rfl, rfl, rfl⟩
  obtain ⟨s', start, hcall, hip, hport, -⟩ :=
    discovered_call hs (List.mem_singleton_self _) (by decide) (by decide) hfresh hasks hready
  exact ⟨s', start, hcall, hip, hport⟩

/-- **Without a live entry the call fails at once**: the name was never registered, is deleted,
or has expired. -/
theorem undiscovered_call {full_name : Bytes} (hmono : Monotone rs) (ht : ∀ r ∈ rs, r.now ≤ t)
    (hname : ValidName full_name) (hlen : full_name.length ≤ 1023)
    (hdead : ∀ a, ¬ Live SERVICE_TTL_MS (history SERVICE_TTL_MS ∅ rs) full_name t a)
    (hasks : CallState.Asks env SERVICE_TTL_MS (after SERVICE_TTL_MS ∅ rs) t)
    (hready : s.Ready args full_name pb_data rpc_controller) :
    s.CallMethod env args = (s.completeSynchronously rpc_controller args.done ERROR_RPC_PEER_ADDR
      (str "service not found"), none) := by
  refine hready.callMethod_unknown ?_
  unfold CallState.serverAddr
  rw [hasks, query_reply (command_query_name hname hlen) rfl, Option.getD_some]
  show (answer _ _ _ _).getD _ = _
  cases hanswer : answer SERVICE_TTL_MS (after SERVICE_TTL_MS ∅ rs) full_name t with
  | none => rfl
  | some a => exact absurd ((tracks_after SERVICE_TTL_MS hmono ht).answer_iff.mp hanswer) (hdead a)

end KaiRPC
