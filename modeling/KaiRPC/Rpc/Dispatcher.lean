import KaiRPC.Coder.Protocol

/-!
# RpcDispatcher

`net/rpc/rpc_dispatcher.cc`.  A protobuf service is what the dispatcher asks of it:
its full name, the names of its methods and whether the body of a request parses.
What the service does with a request is not decided here; its closure is run later with
the outcome of `SerializeToString`.

* `dispatch`: the response as the call leaves it, and whether the service was called.
* `parseServiceFullName_eq`: a name is split at its first dot.
* `published_name_resolves_iff`: the name a method is published under resolves to that
  method exactly when the full name of the service has no dot.
-/

namespace KaiRPC

/-- A protobuf service. -/
structure Service where
  full_name : Bytes
  /-- The names of the methods of the descriptor. -/
  methods : List Bytes
  /-- Whether a body parses as the request of a method. -/
  ParseFromString : Bytes → Bytes → Bool

/-- What `SerializeToString` left in the string, and what it returned. -/
structure Serialized where
  ok : Bool
  pb_data : Bytes
deriving DecidableEq, Repr

namespace RpcDispatcher

abbrev ServiceMap := Bytes → Option Service

/-- The byte `'.'`. -/
def dot : UInt8 := 46

def setTinyPBError (msg : TinyPBProtocol) (err_code : Int32) (err_info : Bytes) :
    TinyPBProtocol :=
  { msg with
    m_err_code := err_code
    m_err_info := err_info
    m_err_info_len := Int32.ofNat err_info.length }

/-- `find_first_of('.')`, and the two parts. -/
def parseServiceFullName (full_name : Bytes) : Option (Bytes × Bytes) :=
  if full_name = [] then none
  else (full_name.findIdx? (· == dot)).map fun i =>
    (full_name.take i, (full_name.drop (i + 1)).take (full_name.length - i - 1))

/-- `all_name` of `registerService`, and `method->full_name()` on the client's side. -/
def methodFullName (service_name method_name : Bytes) : Bytes :=
  service_name ++ [dot] ++ method_name

/-- The local registration, and the names published to the service centre. -/
def registerService (m_service_map : ServiceMap) (service : Service) : ServiceMap × List Bytes :=
  (Function.update m_service_map service.full_name (some service),
    service.methods.map (methodFullName service.full_name))

/-- How `dispatch` ends: it returned with an error in the response, or it called the
service, whose closure holds the response. -/
inductive Dispatched
  | returned (response : TinyPBProtocol)
  | called (response : TinyPBProtocol)

/-- The service and the method a full name stands for. -/
def findMethod (m_service_map : ServiceMap) (full_name : Bytes) : Option (Service × Bytes) :=
  (parseServiceFullName full_name).bind fun (service_name, method_name) =>
    (m_service_map service_name).bind fun service =>
      if method_name ∈ service.methods then some (service, method_name) else none

/-- The response `dispatch` starts from. -/
def freshResponse (request : TinyPBProtocol) : TinyPBProtocol :=
  { m_msg_id := request.m_msg_id, m_method_name := request.m_method_name }

def dispatch (m_service_map : ServiceMap) (request : TinyPBProtocol) : Dispatched :=
  let rsp := freshResponse request
  match parseServiceFullName request.m_method_name with
  | none => .returned (setTinyPBError rsp ERROR_PARSE_SERVICE_NAME (str "parse service name error"))
  | some (service_name, method_name) =>
      match m_service_map service_name with
      | none => .returned (setTinyPBError rsp ERROR_SERVICE_NOT_FOUND (str "service not found"))
      | some service =>
          if method_name ∉ service.methods then
            .returned (setTinyPBError rsp ERROR_SERVICE_NOT_FOUND (str "method not found"))
          else if ¬ service.ParseFromString method_name request.m_pb_data then
            .returned (setTinyPBError rsp ERROR_FAILED_DESERIALIZE (str "deserilize error"))
          else .called rsp

/-- What the closure of a call leaves in the response before it replies with it. -/
def closureResponse (rsp : TinyPBProtocol) (r : Serialized) : TinyPBProtocol :=
  let rsp := { rsp with m_pb_data := r.pb_data }
  if r.ok then { rsp with m_err_code := 0, m_err_info := [] }
  else setTinyPBError rsp ERROR_FAILED_SERIALIZE (str "serilize error")

/-- A request that gets as far as the service. -/
def Reaches (m_service_map : ServiceMap) (request : TinyPBProtocol) : Prop :=
  (findMethod m_service_map request.m_method_name).any
    (fun (service, method_name) => service.ParseFromString method_name request.m_pb_data) = true

instance (m_service_map : ServiceMap) : DecidablePred (Reaches m_service_map) :=
  fun _ => inferInstanceAs (Decidable (_ = true))

/-- **The exits of `dispatch`**: a request that does not reach the service leaves an error in a
response with its id; one that does leaves the fresh response to the closure. -/
theorem dispatch_cases (m_service_map : ServiceMap) (request : TinyPBProtocol) :
    (Reaches m_service_map request ∧
        dispatch m_service_map request = .called (freshResponse request)) ∨
      (¬ Reaches m_service_map request ∧ ∃ rsp, dispatch m_service_map request = .returned rsp ∧
        rsp.m_msg_id = request.m_msg_id ∧ rsp.m_err_code ≠ 0) := by
  unfold dispatch Reaches findMethod
  cases hp : parseServiceFullName request.m_method_name with
  | none => exact Or.inr ⟨by simp, _, rfl, rfl, (by decide : ERROR_PARSE_SERVICE_NAME ≠ 0)⟩
  | some p =>
  obtain ⟨service_name, method_name⟩ := p
  simp only [Option.bind_some]
  cases hs : m_service_map service_name with
  | none => exact Or.inr ⟨by simp, _, rfl, rfl, (by decide : ERROR_SERVICE_NOT_FOUND ≠ 0)⟩
  | some service =>
  simp only [Option.bind_some]
  by_cases hm : method_name ∈ service.methods
  · rw [if_neg (not_not.mpr hm), if_pos hm, Option.any_some]
    by_cases hb : service.ParseFromString method_name request.m_pb_data = true
    · rw [if_neg (not_not.mpr hb)]
      exact Or.inl ⟨hb, rfl⟩
    · rw [if_pos hb]
      exact Or.inr ⟨hb, _, rfl, rfl, (by decide : ERROR_FAILED_DESERIALIZE ≠ 0)⟩
  · rw [if_pos hm, if_neg hm]
    exact Or.inr ⟨by simp, _, rfl, rfl, (by decide : ERROR_SERVICE_NOT_FOUND ≠ 0)⟩

/-! ### Names -/

/-- **A name is split at its first dot.** -/
theorem parseServiceFullName_eq {a b : Bytes} (h : dot ∉ a) :
    parseServiceFullName (a ++ [dot] ++ b) = some (a, b) := by
  have hfind : (a ++ [dot] ++ b).findIdx? (· == dot) = some a.length := by
    rw [List.append_assoc, List.findIdx?_append]
    have hnone : a.findIdx? (· == dot) = none := by
      rw [List.findIdx?_eq_none_iff]
      intro c hc
      rw [beq_eq_false_iff_ne]
      rintro rfl
      exact h hc
    rw [hnone, List.singleton_append, List.findIdx?_cons]
    simp
  have hne : a ++ [dot] ++ b ≠ [] := by simp
  have hdrop : (a ++ [dot] ++ b).drop (a.length + 1) = b :=
    List.drop_left' (by rw [List.length_append]; rfl)
  have htake : (a ++ [dot] ++ b).take a.length = a := by
    rw [List.append_assoc]
    exact List.take_left
  rw [parseServiceFullName, if_neg hne, hfind, Option.map_some, hdrop, htake]
  congr 2
  apply List.take_of_length_le
  simp only [List.length_append, List.length_singleton]
  omega

theorem dot_notMem_of_parse {full_name service_name method_name : Bytes}
    (h : parseServiceFullName full_name = some (service_name, method_name)) :
    dot ∉ service_name := by
  unfold parseServiceFullName at h
  split at h
  · cases h
  · obtain ⟨i, hi, he⟩ := Option.map_eq_some_iff.mp h
    cases he
    intro hmem
    obtain ⟨hlt, -, hbefore⟩ := List.findIdx?_eq_some_iff_getElem.mp hi
    obtain ⟨j, hj, hget⟩ := List.mem_iff_getElem.mp hmem
    rw [List.length_take] at hj
    rw [List.getElem_take] at hget
    have := hbefore j (by omega)
    rw [hget] at this
    simp at this

/-- **Registration and dispatch agree on a name exactly when the service has no package**: the
published name of a method is split into the service and the method, and finds them, if and only
if the full name of the service has no dot. -/
theorem published_name_resolves_iff (m_service_map : ServiceMap) (service : Service)
    {method_name : Bytes} (hm : method_name ∈ service.methods) :
    (methodFullName service.full_name method_name ∈ (registerService m_service_map service).2 ∧
      parseServiceFullName (methodFullName service.full_name method_name)
        = some (service.full_name, method_name) ∧
      findMethod (registerService m_service_map service).1
        (methodFullName service.full_name method_name) = some (service, method_name)) ↔
      dot ∉ service.full_name := by
  constructor
  · rintro ⟨-, hp, -⟩
    exact dot_notMem_of_parse hp
  · intro hd
    have hp := parseServiceFullName_eq (b := method_name) hd
    refine ⟨List.mem_map_of_mem hm, hp, ?_⟩
    rw [findMethod, methodFullName, hp, Option.bind_some]
    dsimp only [registerService]
    rw [Function.update_self, Option.bind_some, if_pos hm]

/-- The service of the tests, which is in no package. -/
theorem order_resolves :
    let service : Service := ⟨str "Order", [str "makeOrder"], fun _ _ => true⟩
    let name := methodFullName service.full_name (str "makeOrder")
    name ∈ (registerService (fun _ => none) service).2 ∧
      parseServiceFullName name = some (service.full_name, str "makeOrder") ∧
      findMethod (registerService (fun _ => none) service).1 name =
        some (service, str "makeOrder") :=
  (published_name_resolves_iff _ _ (by decide)).mpr (by decide)

/-- A service in a package is registered as `shop.Order` and looked up as `shop`. -/
theorem package_is_cut_off :
    let service : Service := ⟨str "shop.Order", [str "makeOrder"], fun _ _ => true⟩
    let name := methodFullName service.full_name (str "makeOrder")
    str "makeOrder" ∈ service.methods ∧ dot ∉ str "makeOrder" ∧
      parseServiceFullName name = some (str "shop", str "Order.makeOrder") ∧
      parseServiceFullName name ≠ some (service.full_name, str "makeOrder") ∧
      (findMethod (registerService (fun _ => none) service).1 name).isNone := by
  decide +kernel

end RpcDispatcher

end KaiRPC
