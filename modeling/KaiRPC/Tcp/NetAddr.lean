import KaiRPC.Lib.Text
import KaiRPC.Tcp.Buffer

/-!
# Addresses

`net/tcp/net_addr.cc`: an address as the text `ip:port`.  The `sockaddr_in` an address keeps is
a function of the two and is left out.

* `IPNetAddr.ofString_text`: **an address survives being written and read**, and what is
  written is accepted (`IPNetAddr.checkValid_text`).
* `IPNetAddr.agrees_iff`: the check and the constructor agree on a text that is accepted,
  except on the port 65536, which the check accepts and `uint16_t` does not hold.
-/

namespace KaiRPC

structure IPNetAddr where
  m_ip : Bytes := []
  m_port : UInt16 := 0
deriving DecidableEq, Repr

namespace IPNetAddr

/-- The byte `':'`. -/
def colon : UInt8 := 58

/-- The static check on a text. -/
def CheckValid (addr : Bytes) : Bool :=
  match Text.splitFirst colon addr with
  | none => false
  | some (ip, port) =>
      if ip = [] ∨ port = [] then false
      else
        let iport := Text.atoi port
        if iport ≤ 0 ∨ iport > 65536 then false else true

/-- The constructor from a text. -/
def ofString (addr : Bytes) : IPNetAddr :=
  match Text.splitFirst colon addr with
  | none => {}
  | some (ip, port) => ⟨ip, UInt16.ofInt (Text.atoi port)⟩

/-- What the commands of the service centre write for an ip and a port. -/
def text (ip : Bytes) (port : Int) : Bytes := ip ++ str ":" ++ Text.to_string port

/-! ### Round trip -/

variable {ip : Bytes} {port : Int}

theorem splitFirst_text (hip : colon ∉ ip) (port : Int) :
    Text.splitFirst colon (text ip port) = some (ip, Text.to_string port) := by
  have htext : text ip port = ip ++ colon :: Text.to_string port := by
    rw [text, List.append_assoc]
    rfl
  rw [htext]
  exact Text.splitFirst_append hip _

theorem checkValid_text (hip : colon ∉ ip) (hne : ip ≠ []) (hport : 1 ≤ port ∧ port ≤ 65535) :
    CheckValid (text ip port) = true := by
  rw [CheckValid, splitFirst_text hip]
  dsimp only
  rw [if_neg (not_or.mpr ⟨hne, Text.to_string_ne_nil port⟩),
    Text.atoi_to_string (by omega) (by omega), if_neg (by omega)]

theorem ofString_text (hip : colon ∉ ip) (hport : 1 ≤ port ∧ port ≤ 65535) :
    (ofString (text ip port)).m_ip = ip ∧
      ((ofString (text ip port)).m_port.toNat : Int) = port := by
  rw [ofString, splitFirst_text hip]
  refine ⟨rfl, ?_⟩
  dsimp only
  rw [Text.atoi_to_string (by omega) (by omega), UInt16.ofInt, UInt16.toNat_ofNat']
  omega

/-! ### The check and the constructor -/

def toString (a : IPNetAddr) : Bytes := text a.m_ip a.m_port.toNat

/-- The number that the check looks at: the one behind the first colon. -/
def portOf (addr : Bytes) : Int := ((Text.splitFirst colon addr).map fun p => Text.atoi p.2).getD 0

/-- The constructor takes from a text what the check accepted, and writes it as a text that is
accepted and read as the same address. -/
structure Agrees (addr : Bytes) : Prop where
  ip : ∃ rest, addr = (ofString addr).m_ip ++ colon :: rest ∧ colon ∉ (ofString addr).m_ip
  port : ((ofString addr).m_port.toNat : Int) = portOf addr
  valid : CheckValid (ofString addr).toString = true
  again : ofString (ofString addr).toString = ofString addr

theorem checkValid_iff {addr : Bytes} : CheckValid addr = true ↔
    ∃ ip port, Text.splitFirst colon addr = some (ip, port) ∧ ip ≠ [] ∧ port ≠ [] ∧
      1 ≤ Text.atoi port ∧ Text.atoi port ≤ 65536 := by
  rw [CheckValid]
  cases hs : Text.splitFirst colon addr with
  | none => simp
  | some p =>
    obtain ⟨ip, port⟩ := p
    dsimp only
    constructor
    · intro h
      split at h
      · cases h
      · rename_i hne
        rw [not_or] at hne
        split at h
        · cases h
        · exact ⟨ip, port, rfl, hne.1, hne.2, by omega, by omega⟩
    · rintro ⟨_, _, he, hip, hport, h1, h2⟩
      cases he
      rw [if_neg (not_or.mpr ⟨hip, hport⟩), if_neg (by omega)]

/-- **When an accepted text and its address agree**: exactly if its port is not 65536. -/
theorem agrees_iff {addr : Bytes} (h : CheckValid addr = true) :
    Agrees addr ↔ portOf addr ≠ 65536 := by
  obtain ⟨ip, port, hs, hip, -, h1, h2⟩ := checkValid_iff.mp h
  obtain ⟨hcolon, haddr⟩ := Text.eq_of_splitFirst hs
  have hof : ofString addr = ⟨ip, UInt16.ofInt (Text.atoi port)⟩ := by
    rw [ofString, hs]
  have hport : portOf addr = Text.atoi port := by
    rw [portOf, hs]
    rfl
  have hnat : ((ofString addr).m_port.toNat : Int) = Text.atoi port % 65536 := by
    rw [hof]
    dsimp only
    rw [UInt16.ofInt, UInt16.toNat_ofNat']
    omega
  rw [hport]
  constructor
  · intro ha heq
    have hp := ha.port
    rw [hnat, hport, heq] at hp
    cases hp
  · intro hne
    have hp : ((ofString addr).m_port.toNat : Int) = Text.atoi port := by omega
    have hip' : (ofString addr).m_ip = ip := by rw [hof]
    have htext : (ofString addr).toString = text ip (Text.atoi port) := by
      rw [toString, hp, hip']
    have hrange : 1 ≤ Text.atoi port ∧ Text.atoi port ≤ 65535 := ⟨h1, by omega⟩
    refine ⟨⟨port, by rw [hip']; exact haddr, by rw [hip']; exact hcolon⟩, ?_, ?_, ?_⟩
    · rw [hp, hport]
    · rw [htext]
      exact checkValid_text hcolon hip hrange
    · rw [htext, ofString, splitFirst_text hcolon]
      dsimp only
      rw [Text.atoi_to_string (by omega) (by omega), hof]

/-- Blanks, a sign and what follows the digits do not matter to either side. -/
theorem agrees_iff_blank_sign : CheckValid (str "10.0.0.1: +80x") = true ∧
    Agrees (str "10.0.0.1: +80x") :=
  ⟨by decide +kernel, (agrees_iff (by decide +kernel)).mpr (by decide +kernel)⟩

/-- The port 65536 is accepted and stored as 0, and the address is then written as a text that
is not accepted. -/
theorem port_65536_wraps : CheckValid (str "10.0.0.1:65536") = true ∧
    (ofString (str "10.0.0.1:65536")).m_port = 0 ∧
    CheckValid (ofString (str "10.0.0.1:65536")).toString = false ∧
    ¬ Agrees (str "10.0.0.1:65536") := by
  have hinvalid : CheckValid (ofString (str "10.0.0.1:65536")).toString = false := by
    decide +kernel
  refine ⟨by decide +kernel, by decide +kernel, hinvalid, fun h => ?_⟩
  cases h.valid.symm.trans hinvalid

end IPNetAddr

end KaiRPC
