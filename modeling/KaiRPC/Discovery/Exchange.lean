import KaiRPC.Discovery.History
import KaiRPC.Discovery.RuntimeCommand

/-!
# Exchanges with the service centre

The socket calls around a command and a query: `recv` in the centre
(`net/service_discovery/run_server_discovery.cc`), `read` in `Runtime_Command::to_command` and
in `serviceDiscovery`.  Each ends what it received with a NUL.  The centre asks for one byte less
than its buffer and keeps the result in a `size_t`; the other two ask for the whole buffer.

* `terminate`: the store of the NUL; `none` is a store outside the 1024 bytes.
* `Exchange`: a text that was sent, and what the kernel returned at both ends.
* `Clean`: in a registry built by requests no entry has a NUL or an address over 1023 bytes.
* `exchange_whole_iff`: **an exchange is in bounds and whole exactly if** the centre's `recv` does
  not fail, the client's `read` fails or returns all of the reply, and a listing has room.
-/

namespace KaiRPC

namespace Discovery

/-- `buff[index] = '\0'` in a buffer of 1024 bytes, and the C string in it. -/
def terminate (received : Bytes) (index : Nat) : Option Bytes :=
  if index < 1024 then some (received.takeWhile (· ≠ 0)) else none

/-- A result kept in a `size_t`. -/
def size_t (ret : Int) : Nat := (ret % 2 ^ 64).toNat

/-- The centre at a request of which `recv` returned `ret`. -/
def serve (SERVICE_TTL_MS : Int) (service_map : ServiceMap) (now : Int) (request : Request)
    (ret : Int) : Option (ServiceMap × Option Bytes) :=
  let bytesRead := size_t ret
  if bytesRead ≤ 0 then some (service_map, none)
  else match request with
    | .control sent => (terminate (sent.take bytesRead) bytesRead).map fun command =>
        let (service_map, back_message) := handleCommand SERVICE_TTL_MS service_map command now
        (service_map, some back_message)
    | .query sent => (terminate (sent.take bytesRead) bytesRead).map fun server_name =>
        let (service_map, service_addr) := handleQuery SERVICE_TTL_MS service_map server_name now
        (service_map, some service_addr)

end Discovery

/-! ### The two clients -/

/-- A call before the `read` that failed. -/
inductive Fault
  | socket
  | connect
  | write
deriving DecidableEq, Repr

def Fault.text : Fault → Bytes
  | .socket => str "socket error"
  | .connect => str "connect error"
  | .write => str "write error"

structure RC_Message where
  info : Bytes := []
  is_success : Bool := false
deriving DecidableEq, Repr

open Discovery

namespace Runtime_Command

def look_up : Bytes := str "lookup"

/-- `to_command`, with the bytes that came back and what `read` returned. -/
def to_command (fault : Option Fault) (reply : Bytes) (ret : Int) : Option RC_Message :=
  match fault with
  | some f => some { info := f.text }
  | none =>
    if ret < 0 then some { info := str "read error" }
    else (terminate (reply.take ret.toNat) ret.toNat).map fun info => ⟨info, true⟩

end Runtime_Command

/-- `serviceDiscovery`; `error` is the text `sys_error` prints before it exits. -/
def serviceDiscovery (fault : Option Fault) (reply : Bytes) (ret : Int) :
    Option (Except Bytes Bytes) :=
  match fault with
  | some f => some (.error f.text)
  | none =>
    if ret < 0 then some (.error (str "read error"))
    else (terminate (reply.take ret.toNat) ret.toNat).map .ok

namespace Discovery

open Runtime_Command

/-! ### An exchange -/

/-- What a client sent, and what `recv` and `read` returned. -/
structure Exchange where
  request : Request
  recv : Int
  read : Int
deriving DecidableEq, Repr

/-- The bytes of a request. -/
def Request.sent : Request → Bytes
  | .control sent | .query sent => sent

/-- The first `n` bytes of a request. -/
def Request.cut (n : Nat) : Request → Request
  | .control sent => .control (sent.take n)
  | .query sent => .query (sent.take n)

/-- What a call that asks for `size` bytes may return when `available` have arrived: a failure,
any part of them, and nothing only at the end of the stream. -/
def Allows (size available : Nat) (ret : Int) : Prop :=
  ret = -1 ∨ 0 ≤ ret ∧ ret ≤ size ∧ ret ≤ available ∧ (ret = 0 → available = 0)

namespace Exchange

/-- The client at a reply: the text it returns, none if the `read` failed. -/
def client (x : Exchange) (reply : Bytes) : Option (Option Bytes) :=
  match x.request with
  | .control _ => (to_command none reply x.read).map fun message =>
      if message.is_success then some message.info else none
  | .query _ => (serviceDiscovery none reply x.read).map fun
      | .ok text => some text
      | .error _ => none

/-- Both ends: the reply of the centre and the text of the client. -/
def run (SERVICE_TTL_MS : Int) (m : ServiceMap) (now : Int) (x : Exchange) :
    Option (Bytes × Option Bytes) :=
  (serve SERVICE_TTL_MS m now x.request x.recv).bind fun r =>
    (x.client (r.2.getD [])).map fun returned => (r.2.getD [], returned)

/-- **In bounds and whole**: every NUL is stored inside its buffer, and if no call fails the
client returns the reply of the centre. -/
def Whole (SERVICE_TTL_MS : Int) (m : ServiceMap) (now : Int) (x : Exchange) : Prop :=
  ∃ reply returned, x.run SERVICE_TTL_MS m now = some (reply, returned) ∧
    (x.recv ≠ -1 → x.read ≠ -1 → returned = some reply)

/-- The request as far as the centre received it. -/
def received (x : Exchange) : Request := x.request.cut x.recv.toNat

/-- What the centre writes back to what it received. -/
def reply (SERVICE_TTL_MS : Int) (m : ServiceMap) (now : Int) (x : Exchange) : Bytes :=
  (handle SERVICE_TTL_MS m now x.received).2.getD []

end Exchange

/-! ### Replies of a registry -/

/-- An entry that a request can have made. -/
structure CleanEntry (name addr : Bytes) : Prop where
  name_no_nul : 0 ∉ name
  addr_no_nul : 0 ∉ addr
  addr_length : addr.length ≤ 1023

def Clean (m : ServiceMap) : Prop := ∀ name node, m[name]? = some node → CleanEntry name node.addr

/-- The name and the address in a command. -/
def Command.Clean : Command → Prop
  | .add name addr | .heartbeat name addr | .modify name addr => CleanEntry name addr
  | _ => True

theorem receive_clean (sent : Bytes) : 0 ∉ receive sent ∧ (receive sent).length ≤ 1023 := by
  constructor
  · intro h
    have := List.mem_takeWhile_imp h
    simp at this
  · have h1 := (List.takeWhile_prefix (p := (· ≠ (0 : UInt8))) (l := sent.take 1023)).length_le
    have h2 := List.length_take_le 1023 sent
    exact h1.trans h2

theorem clean_content {command : Bytes} (h0 : 0 ∉ command) (hl : command.length ≤ 1023) :
    0 ∉ ((Text.splitFirst space command).getD (command, [])).2 ∧
      ((Text.splitFirst space command).getD (command, [])).2.length ≤ 1023 := by
  cases hs : Text.splitFirst space command with
  | none => exact ⟨List.not_mem_nil, Nat.zero_le _⟩
  | some p =>
    obtain ⟨a, b⟩ := p
    obtain ⟨-, rfl⟩ := Text.eq_of_splitFirst hs
    rw [List.mem_append, List.mem_cons, not_or, not_or] at h0
    rw [List.length_append, List.length_cons] at hl
    exact ⟨h0.2.2, by show b.length ≤ 1023; omega⟩

theorem named_clean {make : Bytes → Bytes → Command} {content : Bytes} (h0 : 0 ∉ content)
    (hl : content.length ≤ 1023) (hmake : ∀ n a, (make n a).Clean = CleanEntry n a) :
    (named make content).Clean := by
  rw [named]
  split
  · trivial
  · rename_i name addr hp
    rw [hmake]
    unfold parseServiceAndAddr at hp
    split at hp
    · cases hp
    · rename_i a b hs
      obtain ⟨-, rfl⟩ := Text.eq_of_splitFirst hs
      rw [List.mem_append, List.mem_cons, not_or, not_or] at h0
      rw [List.length_append, List.length_cons] at hl
      obtain ⟨-, he⟩ := Option.ite_none_right_eq_some.mp hp
      cases he
      exact ⟨h0.1, h0.2.2, by omega⟩

theorem command_clean {r : Request} {c : Command} (h : r.command = some c) : c.Clean := by
  have hparse (sent : Bytes) : (parseCommand (receive sent)).Clean := by
    obtain ⟨h0, hl⟩ := receive_clean sent
    obtain ⟨h0', hl'⟩ := clean_content h0 hl
    unfold parseCommand
    generalize (Text.splitFirst space (receive sent)).getD (receive sent, []) = p at h0' hl' ⊢
    obtain ⟨operator_c, content⟩ := p
    dsimp only at h0' hl' ⊢
    split
    · exact named_clean h0' hl' fun _ _ => rfl
    · split
      · exact named_clean h0' hl' fun _ _ => rfl
      · split
        · trivial
        · split
          · trivial
          · split
            · exact named_clean h0' hl' fun _ _ => rfl
            · trivial
  cases r with
  | control sent =>
    cases sent with
    | nil => cases h
    | cons b sent =>
      cases h
      exact hparse (b :: sent)
  | query sent =>
    cases sent with
    | nil => cases h
    | cons b sent =>
      cases h
      trivial

theorem eq_some_of_unexpired {SERVICE_TTL_MS now : Int} {old : Option ServiceNode}
    {node : ServiceNode} (h : unexpired SERVICE_TTL_MS old now = some node) : old = some node :=
  (Option.filter_eq_some_iff.mp h).1

theorem apply_clean {SERVICE_TTL_MS now : Int} {m : ServiceMap} {c : Command} (hm : Clean m)
    (hc : c.Clean) : Clean (c.apply SERVICE_TTL_MS m now) := by
  intro name node h
  rw [Command.getElem?_apply] at h
  -- the entry is an old one, or the name is that of the command
  have hset {n a : Bytes} (hna : CleanEntry n a)
      (h : (if n = name then some ⟨a, now⟩ else m[name]?) = some node) :
      CleanEntry name node.addr := by
    split at h
    · rename_i hn
      cases h
      rwa [← hn]
    · exact hm name node h
  cases c with
  | add n a => exact hset hc h
  | heartbeat n a => exact hset hc h
  | modify n a =>
    dsimp only [Command.entry] at h
    refine hset hc ?_
    split at h
    · rename_i hn
      obtain ⟨old, -, hnode⟩ := Option.map_eq_some_iff.mp h
      rw [if_pos hn, hnode]
    · rename_i hn
      rw [if_neg hn, h]
  | delete n =>
    dsimp only [Command.entry] at h
    split at h
    · cases h
    · exact hm name node h
  | lookup => exact hm name node (eq_some_of_unexpired h)
  | invalid => exact hm name node h
  | unknown => exact hm name node h
  | query n =>
    dsimp only [Command.entry] at h
    split at h
    · exact hm name node (eq_some_of_unexpired h)
    · exact hm name node h

/-- **A registry built by requests is clean.** -/
theorem after_clean {SERVICE_TTL_MS : Int} (rs : List Timed) : ∀ {m : ServiceMap}, Clean m →
    Clean (after SERVICE_TTL_MS m rs) := by
  induction rs with
  | nil => intro m hm; exact hm
  | cons r rs ih =>
    intro m hm
    exact ih (handle_map_of (P := Clean) hm fun c hc => apply_clean hm (command_clean hc))

theorem lookupMessage_no_nul {m : ServiceMap} (hm : Clean m) : 0 ∉ lookupMessage m := by
  rw [lookupMessage]
  split
  · decide
  · intro h
    obtain ⟨⟨name, node⟩, hmem, h⟩ := List.mem_flatMap.mp h
    have hclean := hm name node (Std.TreeMap.mem_toList_iff_getElem?_eq_some.mp hmem)
    simp only [List.mem_append] at h
    rcases h with ((h | h) | h) | h
    · exact hclean.name_no_nul h
    · exact absurd h (by decide)
    · exact hclean.addr_no_nul h
    · exact absurd h (by decide)

/-- What the centre writes has no NUL, and only a listing can be over 1023 bytes. -/
theorem reply_clean (SERVICE_TTL_MS now : Int) {m : ServiceMap} (hm : Clean m) (c : Command) :
    0 ∉ c.reply SERVICE_TTL_MS m now ∧
      (c ≠ .lookup → (c.reply SERVICE_TTL_MS m now).length ≤ 1023) := by
  have htext (text : Bytes) (h : 0 ∉ text ∧ text.length ≤ 1023) {P : Prop} :
      0 ∉ text ∧ (P → text.length ≤ 1023) := ⟨h.1, fun _ => h.2⟩
  cases c with
  | add n a => exact htext (str "add service success") (by decide)
  | heartbeat n a => exact htext (str "heartbeat service success") (by decide)
  | modify n a =>
    dsimp only [Command.reply]
    split
    · exact htext _ (by decide)
    · exact htext _ (by decide)
  | delete n =>
    dsimp only [Command.reply]
    split
    · exact htext _ (by decide)
    · exact htext _ (by decide)
  | lookup =>
    have hpruned : Clean (pruneExpiredServices SERVICE_TTL_MS m now) :=
      apply_clean (c := .lookup) hm trivial
    exact ⟨lookupMessage_no_nul hpruned, fun h => absurd rfl h⟩
  | invalid => exact htext (str "invalid service command") (by decide)
  | unknown => exact htext (str "unkown command") (by decide)
  | query n =>
    dsimp only [Command.reply, answer]
    cases hn : unexpired SERVICE_TTL_MS m[n]? now with
    | none => exact htext (str "unknown host") (by decide)
    | some node =>
      have hclean := hm n node (eq_some_of_unexpired hn)
      exact htext _ ⟨hclean.addr_no_nul, hclean.addr_length⟩

/-! ### Both ends -/

section Ends

variable {SERVICE_TTL_MS now : Int} {m : ServiceMap} {x : Exchange}

/-- A `recv` that fails is taken for 2^64 - 1 bytes. -/
theorem serve_failed (request : Request) : serve SERVICE_TTL_MS m now request (-1) = none := by
  cases request <;> rfl

theorem terminate_take {sent : Bytes} {n : Nat} (hn : n ≤ 1023) :
    terminate (sent.take n) n = some (receive (sent.take n)) := by
  rw [terminate, if_pos (by omega), receive,
    List.take_of_length_le ((List.length_take_le _ _).trans hn)]

theorem handle_control {sent : Bytes} (h : sent ≠ []) :
    handle SERVICE_TTL_MS m now (.control sent)
      = ((handleCommand SERVICE_TTL_MS m (receive sent) now).1,
        some (handleCommand SERVICE_TTL_MS m (receive sent) now).2) := by
  cases sent with
  | nil => exact absurd rfl h
  | cons c sent => rfl

theorem handle_query {sent : Bytes} (h : sent ≠ []) :
    handle SERVICE_TTL_MS m now (.query sent)
      = ((handleQuery SERVICE_TTL_MS m (receive sent) now).1,
        some (handleQuery SERVICE_TTL_MS m (receive sent) now).2) := by
  cases sent with
  | nil => exact absurd rfl h
  | cons c sent => rfl

theorem serve_eq (hrecv : Allows 1023 x.request.sent.length x.recv) (hok : x.recv ≠ -1) :
    serve SERVICE_TTL_MS m now x.request x.recv = some (handle SERVICE_TTL_MS m now x.received) := by
  obtain ⟨h0, hsize, havail, hzero⟩ := hrecv.resolve_left hok
  obtain ⟨n, hn⟩ := Int.eq_ofNat_of_zero_le h0
  have hcount : size_t x.recv = n := by
    rw [size_t, hn]
    omega
  unfold serve
  rw [Exchange.received, hcount, hn, Int.toNat_natCast]
  by_cases hz : n = 0
  · subst hz
    cases x.request <;> rfl
  · have hle : n ≤ 1023 := by omega
    have hne : x.request.sent.take n ≠ [] := by
      intro h
      have hlen := congrArg List.length h
      rw [List.length_take, List.length_nil] at hlen
      omega
    dsimp only
    rw [if_neg (by omega)]
    cases hreq : x.request with
    | control sent =>
      rw [hreq] at hne
      have hne' : sent.take n ≠ [] := hne
      dsimp only [Request.cut]
      rw [terminate_take hle, handle_control hne']
      rfl
    | query sent =>
      rw [hreq] at hne
      have hne' : sent.take n ≠ [] := hne
      dsimp only [Request.cut]
      rw [terminate_take hle, handle_query hne']
      rfl

theorem client_eq (reply : Bytes) : x.client reply = if x.read < 0 then some none
    else (terminate (reply.take x.read.toNat) x.read.toNat).map some := by
  unfold Exchange.client
  cases x.request with
  | control sent =>
    dsimp only [to_command]
    split
    · rfl
    · rw [Option.map_map]
      rfl
  | query sent =>
    dsimp only [serviceDiscovery]
    split
    · rfl
    · rw [Option.map_map]
      rfl

theorem run_eq (hrecv : Allows 1023 x.request.sent.length x.recv) (hok : x.recv ≠ -1) :
    x.run SERVICE_TTL_MS m now = (x.client (x.reply SERVICE_TTL_MS m now)).map fun returned =>
      (x.reply SERVICE_TTL_MS m now, returned) := by
  rw [Exchange.run, serve_eq hrecv hok]
  rfl

theorem takeWhile_take_eq_iff {reply : Bytes} (h0 : 0 ∉ reply) {n : Nat} (hn : n ≤ reply.length) :
    (reply.take n).takeWhile (· ≠ 0) = reply ↔ n = reply.length := by
  have hall : (reply.take n).takeWhile (· ≠ 0) = reply.take n := by
    refine List.takeWhile_eq_self_iff.mpr fun c hc => ?_
    simp only [decide_eq_true_eq]
    rintro rfl
    exact h0 (List.mem_of_mem_take hc)
  rw [hall]
  constructor
  · intro h
    have hlen := congrArg List.length h
    rw [List.length_take] at hlen
    omega
  · rintro rfl
    exact List.take_length

end Ends

/-- The command that the centre received is a `lookup`. -/
def Exchange.Lists (x : Exchange) : Prop := x.received.command = some .lookup

theorem exchange_reply (SERVICE_TTL_MS now : Int) {m : ServiceMap} (hm : Clean m) (x : Exchange) :
    0 ∉ x.reply SERVICE_TTL_MS m now ∧
      ((x.reply SERVICE_TTL_MS m now).length ≤ 1023 ↔ (x.Lists →
        (lookupMessage (pruneExpiredServices SERVICE_TTL_MS m now)).length ≤ 1023)) := by
  rw [Exchange.reply, Exchange.Lists, handle_eq]
  cases hc : x.received.command with
  | none => exact ⟨List.not_mem_nil, iff_of_true (Nat.zero_le _) fun h => by cases h⟩
  | some c =>
    obtain ⟨h0, hlen⟩ := reply_clean SERVICE_TTL_MS now hm c
    refine ⟨h0, ?_⟩
    by_cases hl : c = .lookup
    · subst hl
      exact ⟨fun h _ => h, fun h => h rfl⟩
    · exact iff_of_true (hlen hl) fun h => absurd (Option.some.inj h) hl

/-- **Exchanges are in bounds and whole exactly if no `recv` of the centre fails, the client reads
all of the reply or its `read` fails, and a listing is at most 1023 bytes long**: on every registry
that requests can build, for every text sent and everything the kernel may return. -/
theorem exchange_whole_iff {SERVICE_TTL_MS now : Int} (rs : List Timed) {m : ServiceMap}
    (hm : m = after SERVICE_TTL_MS ∅ rs) (x : Exchange)
    (hrecv : Allows 1023 x.request.sent.length x.recv)
    (hread : Allows 1024 (x.reply SERVICE_TTL_MS m now).length x.read) :
    x.Whole SERVICE_TTL_MS m now ↔ x.recv ≠ -1 ∧ (x.read = -1 ∨
      x.read = (x.reply SERVICE_TTL_MS m now).length ∧ (x.Lists →
        (lookupMessage (pruneExpiredServices SERVICE_TTL_MS m now)).length ≤ 1023)) := by
  have hclean : Clean m := by
    rw [hm]
    exact after_clean rs fun name node h => by simp at h
  obtain ⟨h0, hroom⟩ := exchange_reply SERVICE_TTL_MS now hclean x
  rw [← hroom]
  by_cases hok : x.recv = -1
  · refine iff_of_false ?_ fun h => h.1 hok
    rintro ⟨reply, returned, hrun, -⟩
    rw [Exchange.run, hok, serve_failed] at hrun
    cases hrun
  rw [Exchange.Whole, run_eq hrecv hok, client_eq]
  by_cases hfail : x.read = -1
  · refine iff_of_true ⟨x.reply SERVICE_TTL_MS m now, none, ?_, fun _ h => absurd hfail h⟩
      ⟨hok, Or.inl hfail⟩
    rw [hfail]
    rfl
  obtain ⟨hr0, hr1024, hrlen, -⟩ := hread.resolve_left hfail
  obtain ⟨n, hn⟩ := Int.eq_ofNat_of_zero_le hr0
  rw [hn, if_neg (by omega), Int.toNat_natCast, terminate]
  have hwhole := takeWhile_take_eq_iff h0 (n := n) (by omega)
  by_cases hlt : n < 1024
  · rw [if_pos hlt, Option.map_some, Option.map_some]
    constructor
    · rintro ⟨reply, returned, hrun, htext⟩
      cases hrun
      have := hwhole.mp (Option.some.inj (htext hok (by omega)))
      exact ⟨hok, Or.inr ⟨by omega, by omega⟩⟩
    · rintro ⟨-, h | ⟨h, -⟩⟩
      · omega
      · exact ⟨_, _, rfl, fun _ _ => congrArg some (hwhole.mpr (by omega))⟩
  · rw [if_neg hlt, Option.map_none, Option.map_none]
    refine iff_of_false ?_ ?_
    · rintro ⟨reply, returned, hrun, -⟩
      cases hrun
    · rintro ⟨-, h | ⟨h, hle⟩⟩ <;> omega

/-- A `lookup` on a registry with one entry, all of whose listing is read. -/
theorem exchange_whole_iff_lookup :
    let rs : List Timed := [⟨0, .control (add_service (str "echo") (str "10.0.0.1") 80)⟩]
    (after 10 ∅ rs).size = 1 ∧
      (Exchange.mk (.control look_up) 6 17).Whole 10 (after 10 ∅ rs) 5 := by
  refine ⟨by decide +kernel, (exchange_whole_iff _ rfl ⟨.control look_up, 6, 17⟩ ?_ ?_).mpr ?_⟩
  · exact Or.inr (by decide +kernel)
  · exact Or.inr (by decide +kernel)
  · exact ⟨by decide, Or.inr ⟨by decide +kernel, fun _ => by decide +kernel⟩⟩

/-- A `recv` that fails while a `lookup` is being received: the NUL is stored at index 2^64 - 1.
And a listing of 1026 bytes of which `read` returns as many as it asked for: the NUL is stored at
index 1024. -/
theorem exchange_out_of_bounds :
    (Allows 1023 look_up.length (-1) ∧
      ¬ (Exchange.mk (.control look_up) (-1) 0).Whole 10 ∅ 5) ∧
    ∃ rs : List Timed,
      ((Exchange.mk (.control look_up) 6 1024).reply 10 (after 10 ∅ rs) 5).length = 1026 ∧
      Allows 1023 look_up.length 6 ∧ Allows 1024 1026 1024 ∧
      ¬ (Exchange.mk (.control look_up) 6 1024).Whole 10 (after 10 ∅ rs) 5 := by
  refine ⟨⟨Or.inl rfl, ?_⟩,
    [⟨0, .control (add_service (List.replicate 500 97) (str "10.0.0.1") 80)⟩,
      ⟨1, .control (add_service (List.replicate 500 98) (str "10.0.0.1") 80)⟩],
    by decide +kernel, Or.inr (by decide), Or.inr (by decide), ?_⟩
  · rintro ⟨reply, returned, hrun, -⟩
    cases hrun
  · rintro ⟨reply, returned, hrun, -⟩
    have hnone : (Exchange.mk (.control look_up) 6 1024).run 10 (after 10 ∅
        [⟨0, .control (add_service (List.replicate 500 97) (str "10.0.0.1") 80)⟩,
          ⟨1, .control (add_service (List.replicate 500 98) (str "10.0.0.1") 80)⟩]) 5 = none := by
      decide +kernel
    rw [hnone] at hrun
    cases hrun

end Discovery

end KaiRPC
