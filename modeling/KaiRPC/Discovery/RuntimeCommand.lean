import KaiRPC.Discovery.Registry
import KaiRPC.Tcp.NetAddr

/-!
# The runtime commands

`net/service_discovery/run_time_service_discovery_interface.h`: the texts a server or an operator
sends to the control port.

* `command_add_service` and its siblings: the centre reads from such a text what was written
  into it.
* `registration_round_trip`: **what is registered is what is discovered**: the address the
  centre answers with is accepted and has the ip and the port of the command, and no command
  touches the entry of another name.
-/

namespace KaiRPC

namespace Runtime_Command

/-- A command with a name and an address. -/
def service_command (operator_c : String) (service_name ip : Bytes) (port : Int) : Bytes :=
  str operator_c ++ str " " ++ service_name ++ str " " ++ IPNetAddr.text ip port

def modify_service (service_name ip : Bytes) (port : Int) : Bytes :=
  service_command "modify" service_name ip port

def delete_service (service_name : Bytes) : Bytes := str "delete" ++ str " " ++ service_name

def add_service (service_name ip : Bytes) (port : Int) : Bytes :=
  service_command "add" service_name ip port

def heartbeat_service (service_name ip : Bytes) (port : Int) : Bytes :=
  service_command "heartbeat" service_name ip port

end Runtime_Command

namespace Discovery

open Runtime_Command

/-- A name the centre can be asked for. -/
structure ValidName (n : Bytes) : Prop where
  ne_nil : n ≠ []
  no_space : space ∉ n
  no_nul : 0 ∉ n

/-- An ip that can be written into a command. -/
structure ValidIp (ip : Bytes) : Prop where
  ne_nil : ip ≠ []
  no_space : space ∉ ip
  no_colon : IPNetAddr.colon ∉ ip
  no_nul : 0 ∉ ip

/-! ### What the centre reads -/

variable {n ip : Bytes} {port : Int}

theorem receive_eq {sent : Bytes} (hlen : sent.length ≤ 1023) (hnul : 0 ∉ sent) :
    receive sent = sent := by
  rw [receive, List.take_of_length_le hlen]
  refine List.takeWhile_eq_self_iff.mpr fun c hc => ?_
  simp only [decide_eq_true_eq]
  rintro rfl
  exact hnul hc

theorem no_nul_text (hip : 0 ∉ ip) (port : Int) : 0 ∉ IPNetAddr.text ip port := by
  rw [IPNetAddr.text, List.mem_append, List.mem_append]
  rintro ((h | h) | h)
  · exact hip h
  · exact absurd h (by decide)
  · obtain h | h := Text.mem_to_string h
    · exact absurd h (by decide)
    · exact absurd h (by decide)

theorem text_ne_nil (ip : Bytes) (port : Int) : IPNetAddr.text ip port ≠ [] :=
  List.append_ne_nil_of_right_ne_nil _ (Text.to_string_ne_nil port)

theorem no_nul_service_command {operator_c : String} (hop : 0 ∉ str operator_c) (hn : ValidName n)
    (hip : 0 ∉ ip) (port : Int) : 0 ∉ service_command operator_c n ip port := by
  rw [service_command]
  simp only [List.mem_append, not_or]
  exact ⟨⟨⟨⟨hop, by decide⟩, hn.no_nul⟩, by decide⟩, no_nul_text hip port⟩

theorem splitFirst_space {a : Bytes} (ha : space ∉ a) (b : Bytes) :
    Text.splitFirst space (a ++ str " " ++ b) = some (a, b) := by
  rw [List.append_assoc]
  exact Text.splitFirst_append ha b

theorem parseServiceAndAddr_eq (hn : ValidName n) {addr : Bytes} (haddr : addr ≠ []) :
    parseServiceAndAddr (n ++ str " " ++ addr) = some (n, addr) := by
  rw [parseServiceAndAddr, splitFirst_space hn.no_space]
  exact if_pos ⟨hn.ne_nil, haddr⟩

theorem splitFirst_service_command {operator_c : String} (hop : space ∉ str operator_c)
    (n ip : Bytes) (port : Int) : Text.splitFirst space (service_command operator_c n ip port)
      = some (str operator_c, n ++ str " " ++ IPNetAddr.text ip port) := by
  have happ : service_command operator_c n ip port
      = str operator_c ++ str " " ++ (n ++ str " " ++ IPNetAddr.text ip port) := by
    simp only [service_command, List.append_assoc]
  rw [happ]
  exact splitFirst_space hop _

theorem named_text (hn : ValidName n) (ip : Bytes) (port : Int)
    (make : Bytes → Bytes → Command) :
    named make (n ++ str " " ++ IPNetAddr.text ip port) = make n (IPNetAddr.text ip port) := by
  rw [named, parseServiceAndAddr_eq hn (text_ne_nil ip port)]

theorem command_service_command {operator_c : String} (hop : space ∉ str operator_c)
    (hnul : 0 ∉ str operator_c) (hn : ValidName n) (hip : 0 ∉ ip)
    (hlen : (service_command operator_c n ip port).length ≤ 1023) :
    (Request.control (service_command operator_c n ip port)).command
      = some (parseCommand (service_command operator_c n ip port)) := by
  have hne : service_command operator_c n ip port ≠ [] := by
    intro h
    have hsplit := splitFirst_service_command hop n ip port
    rw [h] at hsplit
    cases hsplit
  rw [Request.command_control hne, receive_eq hlen (no_nul_service_command hnul hn hip port)]

theorem command_add_service (hn : ValidName n) (hip : 0 ∉ ip)
    (hlen : (add_service n ip port).length ≤ 1023) :
    (Request.control (add_service n ip port)).command
      = some (.add n (IPNetAddr.text ip port)) := by
  rw [add_service, command_service_command (by decide) (by decide) hn hip hlen, parseCommand,
    splitFirst_service_command (by decide), Option.getD_some]
  dsimp only
  rw [if_pos rfl, named_text hn]

theorem command_heartbeat_service (hn : ValidName n) (hip : 0 ∉ ip)
    (hlen : (heartbeat_service n ip port).length ≤ 1023) :
    (Request.control (heartbeat_service n ip port)).command
      = some (.heartbeat n (IPNetAddr.text ip port)) := by
  rw [heartbeat_service, command_service_command (by decide) (by decide) hn hip hlen, parseCommand,
    splitFirst_service_command (by decide), Option.getD_some]
  dsimp only
  rw [if_neg (by decide), if_pos rfl, named_text hn]

theorem command_modify_service (hn : ValidName n) (hip : 0 ∉ ip)
    (hlen : (modify_service n ip port).length ≤ 1023) :
    (Request.control (modify_service n ip port)).command
      = some (.modify n (IPNetAddr.text ip port)) := by
  rw [modify_service, command_service_command (by decide) (by decide) hn hip hlen, parseCommand,
    splitFirst_service_command (by decide), Option.getD_some]
  dsimp only
  rw [if_neg (by decide), if_neg (by decide), if_neg (by decide), if_neg (by decide), if_pos rfl,
    named_text hn]

theorem command_delete_service (hn : ValidName n) (hlen : (delete_service n).length ≤ 1023) :
    (Request.control (delete_service n)).command = some (.delete n) := by
  have hnul : 0 ∉ delete_service n := by
    rw [delete_service, List.mem_append, not_or]
    exact ⟨by decide, hn.no_nul⟩
  have hne : delete_service n ≠ [] := List.append_ne_nil_of_left_ne_nil (by decide) n
  rw [Request.command_control hne, receive_eq hlen hnul, parseCommand, delete_service,
    splitFirst_space (by decide), Option.getD_some]
  dsimp only
  rw [if_neg (by decide), if_neg (by decide), if_pos rfl]

theorem length_service_command (operator_c : String) (n ip : Bytes) (port : Int) :
    (service_command operator_c n ip port).length
      = (str operator_c).length + 1 + n.length + 1 + (IPNetAddr.text ip port).length := by
  simp only [service_command, List.length_append]
  rfl

theorem length_name_le {operator_c : String}
    (hlen : (service_command operator_c n ip port).length ≤ 1023) : n.length ≤ 1023 := by
  rw [length_service_command] at hlen
  omega

/-! ### Registration and discovery -/

/-- `m'` is `m` with `n` registered under `ip` and `port`: what a query answers while the entry
is unexpired is a valid address, and it is that of the ip and the port. -/
structure Registered (SERVICE_TTL_MS now : Int) (n ip : Bytes) (port : Int) (m m' : ServiceMap) :
    Prop where
  discovered : ∃ addr, m'[n]? = some ⟨addr, now⟩ ∧
    (∀ t, t - now ≤ SERVICE_TTL_MS → (handle SERVICE_TTL_MS m' t (.query n)).2 = some addr) ∧
    IPNetAddr.CheckValid addr = true ∧ (IPNetAddr.ofString addr).m_ip = ip ∧
    ((IPNetAddr.ofString addr).m_port.toNat : Int) = port
  others : ∀ name ≠ n, m'[name]? = m[name]?

variable {SERVICE_TTL_MS now : Int} {m m' : ServiceMap}

theorem command_query_name (hn : ValidName n) (hlen : n.length ≤ 1023) :
    (Request.query n).command = some (.query n) := by
  rw [Request.command_query hn.ne_nil, receive_eq hlen hn.no_nul]

theorem registered_of_entry (hn : ValidName n) (hip : ValidIp ip)
    (hport : 1 ≤ port ∧ port ≤ 65535) (hlen : n.length ≤ 1023)
    (h : ∀ name : Bytes,
      m'[name]? = if n = name then some ⟨IPNetAddr.text ip port, now⟩ else m[name]?) :
    Registered SERVICE_TTL_MS now n ip port m m' := by
  have hentry : m'[n]? = some ⟨IPNetAddr.text ip port, now⟩ := (h n).trans (if_pos rfl)
  have hparsed := IPNetAddr.ofString_text hip.no_colon hport
  constructor
  · refine ⟨IPNetAddr.text ip port, hentry, fun t ht => ?_,
      IPNetAddr.checkValid_text hip.no_colon hip.ne_nil hport, hparsed.1, hparsed.2⟩
    exact query_reply (command_query_name hn hlen) (by rw [hentry, unexpired_of_le ht])
  · intro name hname
    rw [h name, if_neg (Ne.symm hname)]

/-- **What is registered is what is discovered.** -/
theorem registration_round_trip (SERVICE_TTL_MS now : Int) (m : ServiceMap) {n ip : Bytes}
    {port : Int} (hn : ValidName n) (hip : ValidIp ip) (hport : 1 ≤ port ∧ port ≤ 65535) :
    ((add_service n ip port).length ≤ 1023 →
      Registered SERVICE_TTL_MS now n ip port m
        (handle SERVICE_TTL_MS m now (.control (add_service n ip port))).1) ∧
    ((heartbeat_service n ip port).length ≤ 1023 →
      Registered SERVICE_TTL_MS now n ip port m
        (handle SERVICE_TTL_MS m now (.control (heartbeat_service n ip port))).1) ∧
    ((modify_service n ip port).length ≤ 1023 → n ∈ m →
      Registered SERVICE_TTL_MS now n ip port m
        (handle SERVICE_TTL_MS m now (.control (modify_service n ip port))).1) ∧
    ((delete_service n).length ≤ 1023 →
      (handle SERVICE_TTL_MS m now (.control (delete_service n))).1[n]? = none ∧
      ∀ name ≠ n, (handle SERVICE_TTL_MS m now (.control (delete_service n))).1[name]?
        = m[name]?) := by
  refine ⟨fun hlen => ?_, fun hlen => ?_, fun hlen hin => ?_, fun hlen => ?_⟩
  · refine registered_of_entry hn hip hport (length_name_le hlen) fun name => ?_
    rw [handle_of_command (command_add_service hn hip.no_nul hlen), Command.getElem?_apply]
    rfl
  · refine registered_of_entry hn hip hport (length_name_le hlen) fun name => ?_
    rw [handle_of_command (command_heartbeat_service hn hip.no_nul hlen), Command.getElem?_apply]
    rfl
  · refine registered_of_entry hn hip hport (length_name_le hlen) fun name => ?_
    rw [handle_of_command (command_modify_service hn hip.no_nul hlen), Command.getElem?_apply,
      Command.entry]
    split
    · rename_i hname
      obtain ⟨node, hnode⟩ := exists_getElem? hin
      rw [← hname, hnode]
      rfl
    · rfl
  · rw [handle_of_command (command_delete_service hn hlen)]
    refine ⟨?_, fun name hname => ?_⟩
    · rw [Command.getElem?_apply]
      exact if_pos rfl
    · rw [Command.getElem?_apply]
      exact if_neg (Ne.symm hname)

theorem registration_round_trip_echo :
    ValidName (str "echo") ∧ ValidIp (str "10.0.0.1") ∧ (1 : Int) ≤ 65535 ∧
      (add_service (str "echo") (str "10.0.0.1") 65535).length ≤ 1023 ∧
      Registered 10 0 (str "echo") (str "10.0.0.1") 65535 ∅
        (handle 10 ∅ 0 (.control (add_service (str "echo") (str "10.0.0.1") 65535))).1 := by
  have hn : ValidName (str "echo") := ⟨by decide, by decide, by decide⟩
  have hip : ValidIp (str "10.0.0.1") := ⟨by decide, by decide, by decide, by decide⟩
  have hlen : (add_service (str "echo") (str "10.0.0.1") 65535).length ≤ 1023 := by decide +kernel
  exact ⟨hn, hip, by decide, hlen,
    (registration_round_trip 10 0 ∅ hn hip ⟨by decide, by decide⟩).1 hlen⟩

end Discovery

end KaiRPC
