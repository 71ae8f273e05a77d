import Mathlib.Data.List.Basic
import KaiRPC.Lib.Text
import KaiRPC.Tcp.Buffer

/-!
# The service centre

`net/service_discovery/run_server_discovery.cc`: the registry and what the centre does with
one control connection or one query.  Each of them reads the clock as `now`; the sweep of a
`lookup`, which asks `nowMs()` for every entry, is taken to read it once.

A request is what the peer sent.  `Command` is what the centre makes of it, and `apply` what
a command does (`handle_eq`): everything else about the centre goes through these two.

* `Command.getElem?_apply`: **a command works on each entry by itself** (`Command.entry`).
* `Command.follows_apply`: it writes the entry of a name, it removes it, or it leaves it alone,
  unless it finds it expired, and its reply says which.
-/

namespace KaiRPC

namespace Discovery

structure ServiceNode where
  addr : Bytes
  last_seen_ms : Int := 0
deriving DecidableEq, Repr

/-- `std::map<std::string, ServiceNode>`, in the order of the names. -/
abbrev ServiceMap := Std.TreeMap Bytes ServiceNode compare

def isExpired (SERVICE_TTL_MS : Int) (node : ServiceNode) (now : Int) : Bool :=
  decide (now - node.last_seen_ms > SERVICE_TTL_MS)

def pruneExpiredServices (SERVICE_TTL_MS : Int) (service_map : ServiceMap) (now : Int) :
    ServiceMap :=
  service_map.filter fun _ node => !isExpired SERVICE_TTL_MS node now

/-- The byte `' '`. -/
def space : UInt8 := 32

def parseServiceAndAddr (content : Bytes) : Option (Bytes × Bytes) :=
  match Text.splitFirst space content with
  | none => none
  | some (service_name, service_addr) =>
      if service_name ≠ [] ∧ service_addr ≠ [] then some (service_name, service_addr) else none

/-- The text of a `lookup` on a pruned map. -/
def lookupMessage (service_map : ServiceMap) : Bytes :=
  if service_map.isEmpty then str "service map is empty"
  else service_map.toList.flatMap fun item => item.1 ++ str " " ++ item.2.addr ++ str "\n"

/-- The control branch of the loop in `main`. -/
def handleCommand (SERVICE_TTL_MS : Int) (service_map : ServiceMap) (command : Bytes) (now : Int) :
    ServiceMap × Bytes :=
  let (operator_c, content) := (Text.splitFirst space command).getD (command, [])
  if operator_c = str "add" ∨ operator_c = str "heartbeat" then
    match parseServiceAndAddr content with
    | none => (service_map, str "invalid service command")
    | some (service_name, service_addr) =>
        (service_map.insert service_name ⟨service_addr, now⟩, operator_c ++ str " service success")
  else if operator_c = str "delete" then
    if content ∈ service_map then (service_map.erase content, str "delete service success")
    else (service_map, str "service not exist")
  else if operator_c = str "lookup" then
    let service_map := pruneExpiredServices SERVICE_TTL_MS service_map now
    (service_map, lookupMessage service_map)
  else if operator_c = str "modify" then
    match parseServiceAndAddr content with
    | none => (service_map, str "invalid service command")
    | some (service_name, service_addr) =>
        if service_name ∈ service_map then
          (service_map.insert service_name ⟨service_addr, now⟩, str "modify service success")
        else (service_map, str "service not exist")
  else (service_map, str "unkown command")

/-- The query branch. -/
def handleQuery (SERVICE_TTL_MS : Int) (service_map : ServiceMap) (server_name : Bytes)
    (now : Int) : ServiceMap × Bytes :=
  match service_map[server_name]? with
  | none => (service_map, str "unknown host")
  | some node =>
      if isExpired SERVICE_TTL_MS node now then (service_map.erase server_name, str "unknown host")
      else (service_map, node.addr)

/-- `recv` of at most 1023 bytes, and the C string in the buffer. -/
def receive (sent : Bytes) : Bytes := (sent.take 1023).takeWhile (· ≠ 0)

inductive Request
  | control (sent : Bytes)
  | query (sent : Bytes)
deriving DecidableEq, Repr

/-- The map behind a request, and the reply.  A peer that sends nothing is not answered. -/
def handle (SERVICE_TTL_MS : Int) (service_map : ServiceMap) (now : Int) :
    Request → ServiceMap × Option Bytes
  | .control [] | .query [] => (service_map, none)
  | .control sent =>
      let (service_map, back_message) :=
        handleCommand SERVICE_TTL_MS service_map (receive sent) now
      (service_map, some back_message)
  | .query sent =>
      let (service_map, service_addr) := handleQuery SERVICE_TTL_MS service_map (receive sent) now
      (service_map, some service_addr)

/-! ### Commands -/

inductive Command
  | add (name addr : Bytes)
  | heartbeat (name addr : Bytes)
  | modify (name addr : Bytes)
  | delete (name : Bytes)
  | lookup
  | invalid
  | unknown
  | query (name : Bytes)
deriving DecidableEq, Repr

/-- A command whose content is a name and an address. -/
def named (make : Bytes → Bytes → Command) (content : Bytes) : Command :=
  match parseServiceAndAddr content with
  | none => .invalid
  | some (service_name, service_addr) => make service_name service_addr

/-- What the centre takes a command text for. -/
def parseCommand (command : Bytes) : Command :=
  let (operator_c, content) := (Text.splitFirst space command).getD (command, [])
  if operator_c = str "add" then named .add content
  else if operator_c = str "heartbeat" then named .heartbeat content
  else if operator_c = str "delete" then .delete content
  else if operator_c = str "lookup" then .lookup
  else if operator_c = str "modify" then named .modify content
  else .unknown

def Request.command : Request → Option Command
  | .control [] | .query [] => none
  | .control sent => some (parseCommand (receive sent))
  | .query sent => some (.query (receive sent))

theorem Request.command_query {sent : Bytes} (h : sent ≠ []) :
    (Request.query sent).command = some (.query (receive sent)) := by
  cases sent with
  | nil => exact absurd rfl h
  | cons c sent => rfl

theorem Request.command_control {sent : Bytes} (h : sent ≠ []) :
    (Request.control sent).command = some (parseCommand (receive sent)) := by
  cases sent with
  | nil => exact absurd rfl h
  | cons c sent => rfl

/-- The unexpired part of an entry. -/
def unexpired (SERVICE_TTL_MS : Int) (entry : Option ServiceNode) (now : Int) :
    Option ServiceNode :=
  entry.filter fun node => !isExpired SERVICE_TTL_MS node now

/-- What a query answers with. -/
def answer (SERVICE_TTL_MS : Int) (service_map : ServiceMap) (name : Bytes) (now : Int) :
    Option Bytes :=
  (unexpired SERVICE_TTL_MS service_map[name]? now).map ServiceNode.addr

namespace Command

/-- The map behind a command. -/
def apply (SERVICE_TTL_MS : Int) (service_map : ServiceMap) (now : Int) : Command → ServiceMap
  | .add name addr | .heartbeat name addr => service_map.insert name ⟨addr, now⟩
  | .modify name addr =>
      if name ∈ service_map then service_map.insert name ⟨addr, now⟩ else service_map
  | .delete name => if name ∈ service_map then service_map.erase name else service_map
  | .lookup => pruneExpiredServices SERVICE_TTL_MS service_map now
  | .invalid | .unknown => service_map
  | .query name =>
      if service_map[name]?.any fun node => isExpired SERVICE_TTL_MS node now then
        service_map.erase name
      else service_map

/-- The reply to a command. -/
def reply (SERVICE_TTL_MS : Int) (service_map : ServiceMap) (now : Int) : Command → Bytes
  | .add _ _ => str "add service success"
  | .heartbeat _ _ => str "heartbeat service success"
  | .modify name _ =>
      if name ∈ service_map then str "modify service success" else str "service not exist"
  | .delete name =>
      if name ∈ service_map then str "delete service success" else str "service not exist"
  | .lookup => lookupMessage (pruneExpiredServices SERVICE_TTL_MS service_map now)
  | .invalid => str "invalid service command"
  | .unknown => str "unkown command"
  | .query name => (answer SERVICE_TTL_MS service_map name now).getD (str "unknown host")

end Command

/-! ### From texts to commands -/

theorem handleCommand_eq (SERVICE_TTL_MS : Int) (service_map : ServiceMap) (command : Bytes)
    (now : Int) : handleCommand SERVICE_TTL_MS service_map command now
      = ((parseCommand command).apply SERVICE_TTL_MS service_map now,
        (parseCommand command).reply SERVICE_TTL_MS service_map now) := by
  unfold handleCommand parseCommand
  obtain ⟨operator_c, content⟩ := (Text.splitFirst space command).getD (command, [])
  dsimp only
  by_cases hadd : operator_c = str "add"
  · rw [if_pos (Or.inl hadd), if_pos hadd, named, hadd]
    split <;> rfl
  by_cases hbeat : operator_c = str "heartbeat"
  · rw [if_pos (Or.inr hbeat), if_neg hadd, if_pos hbeat, named, hbeat]
    split <;> rfl
  rw [if_neg (not_or.mpr ⟨hadd, hbeat⟩), if_neg hadd, if_neg hbeat]
  by_cases hdelete : operator_c = str "delete"
  · rw [if_pos hdelete, if_pos hdelete, Command.apply, Command.reply]
    split <;> rfl
  rw [if_neg hdelete, if_neg hdelete]
  by_cases hlookup : operator_c = str "lookup"
  · rw [if_pos hlookup, if_pos hlookup]
    rfl
  rw [if_neg hlookup, if_neg hlookup]
  by_cases hmodify : operator_c = str "modify"
  · rw [if_pos hmodify, if_pos hmodify, named]
    split
    · rfl
    · rw [Command.apply, Command.reply]
      split <;> rfl
  · rw [if_neg hmodify, if_neg hmodify]
    rfl

theorem handleQuery_eq (SERVICE_TTL_MS : Int) (service_map : ServiceMap) (server_name : Bytes)
    (now : Int) : handleQuery SERVICE_TTL_MS service_map server_name now
      = ((Command.query server_name).apply SERVICE_TTL_MS service_map now,
        (Command.query server_name).reply SERVICE_TTL_MS service_map now) := by
  rw [handleQuery, Command.apply, Command.reply, answer, unexpired]
  cases service_map[server_name]? with
  | none => rfl
  | some node =>
    cases h : isExpired SERVICE_TTL_MS node now with
    | true => simp [h, Option.filter]
    | false => simp [h, Option.filter]

/-- **A request is its command.** -/
theorem handle_eq (SERVICE_TTL_MS : Int) (service_map : ServiceMap) (now : Int) (r : Request) :
    handle SERVICE_TTL_MS service_map now r = match r.command with
      | none => (service_map, none)
      | some c => (c.apply SERVICE_TTL_MS service_map now,
          some (c.reply SERVICE_TTL_MS service_map now)) := by
  cases r with
  | control sent =>
    cases sent with
    | nil => rfl
    | cons c sent =>
      dsimp only [handle, Request.command]
      rw [handleCommand_eq]
  | query sent =>
    cases sent with
    | nil => rfl
    | cons c sent =>
      dsimp only [handle, Request.command]
      rw [handleQuery_eq]

theorem handle_of_command {r : Request} {c : Command} (h : r.command = some c)
    (SERVICE_TTL_MS : Int) (service_map : ServiceMap) (now : Int) :
    handle SERVICE_TTL_MS service_map now r
      = (c.apply SERVICE_TTL_MS service_map now,
        some (c.reply SERVICE_TTL_MS service_map now)) := by
  rw [handle_eq, h]

theorem handle_map_of {P : ServiceMap → Prop} {SERVICE_TTL_MS now : Int} {service_map : ServiceMap}
    {r : Request} (hnone : P service_map)
    (hsome : ∀ c ∈ r.command, P (c.apply SERVICE_TTL_MS service_map now)) :
    P (handle SERVICE_TTL_MS service_map now r).1 := by
  rw [handle_eq]
  cases hc : r.command with
  | none => exact hnone
  | some c => exact hsome c hc

/-! ### The entry of a name -/

theorem getElem?_insert (m : ServiceMap) (k a : Bytes) (node : ServiceNode) :
    (m.insert k node)[a]? = if k = a then some node else m[a]? := by
  rw [Std.TreeMap.getElem?_insert]
  simp only [Std.LawfulEqCmp.compare_eq_iff_eq]

theorem getElem?_erase (m : ServiceMap) (k a : Bytes) :
    (m.erase k)[a]? = if k = a then none else m[a]? := by
  rw [Std.TreeMap.getElem?_erase]
  simp only [Std.LawfulEqCmp.compare_eq_iff_eq]

theorem getElem?_pruneExpiredServices (SERVICE_TTL_MS : Int) (m : ServiceMap) (now : Int)
    (name : Bytes) : (pruneExpiredServices SERVICE_TTL_MS m now)[name]?
      = unexpired SERVICE_TTL_MS m[name]? now :=
  Std.TreeMap.getElem?_filter'

theorem exists_getElem? {m : ServiceMap} {name : Bytes} (h : name ∈ m) :
    ∃ node, m[name]? = some node :=
  Option.isSome_iff_exists.mp (Std.TreeMap.mem_iff_isSome_getElem?.mp h)

/-- The entry of `name` behind a command, from the one before it. -/
def Command.entry (SERVICE_TTL_MS now : Int) (c : Command) (name : Bytes)
    (old : Option ServiceNode) : Option ServiceNode :=
  match c with
  | .add n a | .heartbeat n a => if n = name then some ⟨a, now⟩ else old
  | .modify n a => if n = name then old.map fun _ => ⟨a, now⟩ else old
  | .delete n => if n = name then none else old
  | .lookup => unexpired SERVICE_TTL_MS old now
  | .query n => if n = name then unexpired SERVICE_TTL_MS old now else old
  | .invalid | .unknown => old

/-- **A command works on each entry by itself.** -/
theorem Command.getElem?_apply (SERVICE_TTL_MS : Int) (m : ServiceMap) (now : Int) (c : Command)
    (name : Bytes) :
    (c.apply SERVICE_TTL_MS m now)[name]? = c.entry SERVICE_TTL_MS now name m[name]? := by
  cases c with
  | add n a => exact getElem?_insert m n name ⟨a, now⟩
  | heartbeat n a => exact getElem?_insert m n name ⟨a, now⟩
  | modify n a =>
    dsimp only [apply, entry]
    by_cases hin : n ∈ m
    · obtain ⟨node, hnode⟩ := exists_getElem? hin
      rw [if_pos hin, getElem?_insert]
      refine if_ctx_congr Iff.rfl (fun hn => ?_) fun _ => rfl
      rw [← hn, hnode]
      rfl
    · rw [if_neg hin]
      by_cases hn : n = name
      · rw [if_pos hn, ← hn, Std.TreeMap.getElem?_eq_none hin]
        rfl
      · rw [if_neg hn]
  | delete n =>
    dsimp only [apply, entry]
    by_cases hin : n ∈ m
    · rw [if_pos hin, getElem?_erase]
    · rw [if_neg hin]
      by_cases hn : n = name
      · rw [if_pos hn, ← hn, Std.TreeMap.getElem?_eq_none hin]
      · rw [if_neg hn]
  | lookup => exact getElem?_pruneExpiredServices SERVICE_TTL_MS m now name
  | invalid => rfl
  | unknown => rfl
  | query n =>
    dsimp only [apply, entry]
    by_cases hn : n = name
    · subst hn
      rw [if_pos rfl, unexpired]
      cases hm : m[n]? with
      | none => simp [hm]
      | some node =>
        cases hexp : isExpired SERVICE_TTL_MS node now with
        | true => simp [hexp, Option.filter]
        | false => simp [hm, hexp, Option.filter]
    · rw [if_neg hn]
      split
      · rw [getElem?_erase, if_neg hn]
      · rfl

/-- The entry is as it was, or it was expired and is gone. -/
def Pruned (SERVICE_TTL_MS now : Int) (old new : Option ServiceNode) : Prop :=
  new = old ∨ new = none ∧ ∃ node, old = some node ∧ isExpired SERVICE_TTL_MS node now = true

theorem pruned_unexpired (SERVICE_TTL_MS now : Int) (old : Option ServiceNode) :
    Pruned SERVICE_TTL_MS now old (unexpired SERVICE_TTL_MS old now) := by
  cases old with
  | none => exact Or.inl rfl
  | some node =>
    cases h : isExpired SERVICE_TTL_MS node now with
    | true => exact Or.inr ⟨by simp [unexpired, h], node, rfl, h⟩
    | false => exact Or.inl (by simp [unexpired, h])

section

variable {SERVICE_TTL_MS now : Int} {node : ServiceNode}

theorem unexpired_of_le (h : now - node.last_seen_ms ≤ SERVICE_TTL_MS) :
    unexpired SERVICE_TTL_MS (some node) now = some node := by
  have hexp : isExpired SERVICE_TTL_MS node now = false := by
    simp only [isExpired, decide_eq_false_iff_not]
    omega
  rw [unexpired, Option.filter, hexp]
  rfl

theorem unexpired_of_lt (h : SERVICE_TTL_MS < now - node.last_seen_ms) :
    unexpired SERVICE_TTL_MS (some node) now = none := by
  have hexp : isExpired SERVICE_TTL_MS node now = true := by
    simp only [isExpired, decide_eq_true_eq]
    omega
  rw [unexpired, Option.filter, hexp]
  rfl

theorem query_reply {r : Request} {name : Bytes} {m : ServiceMap}
    (hc : r.command = some (.query name)) {entry : Option ServiceNode}
    (h : unexpired SERVICE_TTL_MS m[name]? now = entry) :
    (handle SERVICE_TTL_MS m now r).2
      = some ((entry.map ServiceNode.addr).getD (str "unknown host")) := by
  rw [handle_of_command hc]
  dsimp only [Command.reply, answer]
  rw [h]

end

/-- What a command did to the entry of `name`, by the reply it got: `some` entry or none, or
`none` if it was not carried out or is about something else. -/
def Command.effect (c : Command) (reply : Bytes) (now : Int) (name : Bytes) :
    Option (Option ServiceNode) :=
  match c with
  | .add n a => if reply = str "add service success" ∧ n = name then some (some ⟨a, now⟩) else none
  | .heartbeat n a =>
      if reply = str "heartbeat service success" ∧ n = name then some (some ⟨a, now⟩) else none
  | .modify n a =>
      if reply = str "modify service success" ∧ n = name then some (some ⟨a, now⟩) else none
  | .delete n => if reply = str "delete service success" ∧ n = name then some none else none
  | .lookup | .invalid | .unknown | .query _ => none

/-- How an effect shows in the entry. -/
def Follows (SERVICE_TTL_MS now : Int) (effect : Option (Option ServiceNode))
    (old new : Option ServiceNode) : Prop :=
  match effect with
  | some v => new = v
  | none => Pruned SERVICE_TTL_MS now old new

theorem follows_ite {SERVICE_TTL_MS now : Int} {n name : Bytes} {P : Prop} [Decidable P]
    {old v v' : Option ServiceNode} (hdone : n = name → P → v' = v)
    (hnot : n = name → ¬ P → v' = old) :
    Follows SERVICE_TTL_MS now (if P ∧ n = name then some v else none) old
      (if n = name then v' else old) := by
  by_cases hn : n = name
  · rw [if_pos hn]
    by_cases hp : P
    · rw [if_pos ⟨hp, hn⟩]
      exact hdone hn hp
    · rw [if_neg fun h => hp h.1]
      exact Or.inl (hnot hn hp)
  · rw [if_neg fun h => hn h.2, if_neg hn]
    exact Or.inl rfl

/-- **What a command does to an entry**: what its reply says, and otherwise nothing but to
remove it if it is expired. -/
theorem Command.follows_apply (SERVICE_TTL_MS : Int) (m : ServiceMap) (now : Int) (c : Command)
    (name : Bytes) :
    Follows SERVICE_TTL_MS now (c.effect (c.reply SERVICE_TTL_MS m now) now name) m[name]?
      (c.apply SERVICE_TTL_MS m now)[name]? := by
  have htexts : str "service not exist" ≠ str "modify service success" ∧
      str "service not exist" ≠ str "delete service success" := by decide
  rw [getElem?_apply]
  cases c with
  | add n a => exact follows_ite (fun _ _ => rfl) fun _ h => absurd rfl h
  | heartbeat n a => exact follows_ite (fun _ _ => rfl) fun _ h => absurd rfl h
  | modify n a =>
    dsimp only [effect, reply, entry]
    by_cases hin : n ∈ m
    · obtain ⟨node, hnode⟩ := exists_getElem? hin
      rw [if_pos hin]
      refine follows_ite (fun hn _ => ?_) fun _ h => absurd rfl h
      rw [← hn, hnode]
      rfl
    · rw [if_neg hin]
      refine follows_ite (fun _ h => absurd h htexts.1) fun hn _ => ?_
      rw [← hn, Std.TreeMap.getElem?_eq_none hin]
      rfl
  | delete n =>
    dsimp only [effect, reply, entry]
    by_cases hin : n ∈ m
    · rw [if_pos hin]
      exact follows_ite (fun _ _ => rfl) fun _ h => absurd rfl h
    · rw [if_neg hin]
      refine follows_ite (fun _ h => absurd h htexts.2) fun hn _ => ?_
      rw [← hn, Std.TreeMap.getElem?_eq_none hin]
  | lookup => exact pruned_unexpired SERVICE_TTL_MS now m[name]?
  | invalid => exact Or.inl rfl
  | unknown => exact Or.inl rfl
  | query n =>
    dsimp only [effect, entry, Follows]
    split
    · exact pruned_unexpired SERVICE_TTL_MS now m[name]?
    · exact Or.inl rfl

end Discovery

end KaiRPC
