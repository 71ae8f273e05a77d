import Mathlib.Data.List.Basic
import KaiRPC.Lib.Text
import KaiRPC.Tcp.Buffer

/-!
# The configuration of the service centre

`common/config_reader.h` and the part of `common/config.cc` that reads it.  A file is its bytes,
or none if it cannot be opened.
-/

namespace KaiRPC

/-- `std::unordered_map<std::string, std::string>`. -/
abbrev ConfigMap := Std.TreeMap Bytes Bytes compare

namespace ConfigReader

/-- The bytes of `" \t\r\n"`. -/
def blank (c : UInt8) : Bool := c == 32 || c == 9 || c == 13 || c == 10

def trim (str : Bytes) : Bytes := Text.trim blank str

/-- A comment starts with `'#'`, and a key ends at the first `'='`. -/
def parseLine (configMap : ConfigMap) (line : Bytes) : ConfigMap :=
  let trimmedLine := trim line
  if trimmedLine = [] ∨ trimmedLine.head? = some 35 then configMap
  else match Text.splitFirst 61 trimmedLine with
    | none => configMap
    | some (key, value) => configMap.insert (trim key) (trim value)

def getMap (file : Option Bytes) : ConfigMap :=
  match file with
  | none => ∅
  | some content => (Text.lines 10 content).foldl parseLine ∅

end ConfigReader

namespace Config

def setServiceCenterMap (file : Option Bytes) : ConfigMap :=
  let service_center_map := ConfigReader.getMap file
  if service_center_map[str "service_ttl_ms"]?.all (· == []) then
    service_center_map.insert (str "service_ttl_ms") (str "10000")
  else service_center_map

end Config

end KaiRPC
