import KaiRPC.Common.Config
import KaiRPC.Lib.LastWrite

/-!
# Configuration files

What `ConfigReader` reads from a file, as the people who write such a file see it: lines that
assign a value to a key, with blanks around both, and lines that do not matter.

* `ConfigEntry.parseLine_text`, `ConfigLine.parseLine_text`: what one line does.
* `config_round_trip`: **every key has the value of the last line that assigns one to it**,
  whatever the blanks, the comments, the line ends (`\r\n` too), and the end of the file.
* `serviceCenterMap_ttl`: the map of the service centre always has a `service_ttl_ms`.
-/

namespace KaiRPC

open LastWrite

/-- Blanks of one line: no newline. -/
structure Padding where
  bytes : Bytes
  blank : ∀ c ∈ bytes, ConfigReader.blank c = true
  one_line : 10 ∉ bytes

/-- A key and a value that a line can assign. -/
structure ConfigEntry where
  key : Bytes
  value : Bytes
  key_trimmed : Text.Trimmed ConfigReader.blank key
  value_trimmed : Text.Trimmed ConfigReader.blank value
  key_ends : 61 ∉ key
  no_comment : key.head? ≠ some 35
  one_line : 10 ∉ key ∧ 10 ∉ value

/-- A line of a file. -/
inductive ConfigLine
  /-- An assignment, with the blanks around its parts. -/
  | entry (e : ConfigEntry) (a b c d : Padding)
  /-- A blank line, a comment, or a line without an assignment. -/
  | other (line : Bytes) (one_line : 10 ∉ line)
      (h : ConfigReader.trim line = [] ∨ (ConfigReader.trim line).head? = some 35 ∨ 61 ∉ line)

namespace ConfigLine

def text : ConfigLine → Bytes
  | .entry e a b c d =>
      a.bytes ++ e.key ++ b.bytes ++ 61 :: (c.bytes ++ e.value ++ d.bytes)
  | .other line _ _ => line

/-- What the line assigns to a key. -/
def assigns (key : Bytes) : ConfigLine → Option (Option Bytes)
  | .entry e _ _ _ _ => if e.key = key then some (some e.value) else none
  | .other .. => none

theorem no_newline (l : ConfigLine) : 10 ∉ l.text := by
  cases l with
  | entry e a b c d =>
    unfold text
    simp only [List.mem_append, List.mem_cons, not_or]
    exact ⟨⟨⟨a.one_line, e.one_line.1⟩, b.one_line⟩, by decide,
      ⟨c.one_line, e.one_line.2⟩, d.one_line⟩
  | other line one_line h => exact one_line

end ConfigLine

theorem ConfigEntry.key_side (e : ConfigEntry) (a b : Padding) :
    61 ∉ (a.bytes ++ e.key ++ b.bytes).dropWhile ConfigReader.blank ∧
      ((a.bytes ++ e.key ++ b.bytes).dropWhile ConfigReader.blank).head? ≠ some 35 ∧
      ConfigReader.trim ((a.bytes ++ e.key ++ b.bytes).dropWhile ConfigReader.blank) = e.key := by
  have hblank : ∀ {p : Padding}, 61 ∉ p.bytes := by
    intro p hmem
    exact absurd (p.blank 61 hmem) (by decide)
  rw [List.append_assoc, List.dropWhile_append_of_pos a.blank]
  cases hk : e.key with
  | nil =>
    rw [List.nil_append, List.dropWhile_eq_nil_iff.mpr b.blank]
    exact ⟨List.not_mem_nil, nofun, rfl⟩
  | cons x l =>
    have hx : ConfigReader.blank x = false := e.key_trimmed.1 x (by rw [hk]; rfl)
    have hdrop : (x :: l ++ b.bytes).dropWhile ConfigReader.blank = x :: l ++ b.bytes :=
      List.dropWhile_cons_of_neg (by simp [hx])
    rw [hdrop]
    refine ⟨?_, ?_, ?_⟩
    · rw [List.mem_append, not_or]
      exact ⟨hk ▸ e.key_ends, hblank⟩
    · exact fun hc => e.no_comment (by rw [hk]; exact hc)
    · have htrim := Text.trim_pad (a := []) (fun c hc => absurd hc List.not_mem_nil) b.blank
        (hk ▸ e.key_trimmed)
      exact htrim

theorem ConfigEntry.value_side (e : ConfigEntry) (c d : Padding) :
    ConfigReader.trim ((c.bytes ++ e.value ++ d.bytes).reverse.dropWhile ConfigReader.blank).reverse
      = e.value := by
  have hrev : ∀ x ∈ d.bytes.reverse, ConfigReader.blank x = true :=
    fun x hx => d.blank x (List.mem_reverse.mp hx)
  rw [List.reverse_append, List.dropWhile_append_of_pos hrev, List.reverse_append]
  cases hv : e.value with
  | nil =>
    have hall : ∀ x ∈ ([] : Bytes).reverse ++ c.bytes.reverse, ConfigReader.blank x = true :=
      fun x hx => c.blank x (List.mem_reverse.mp hx)
    rw [List.dropWhile_eq_nil_iff.mpr hall]
    rfl
  | cons x l =>
    have hhead : ∀ y, ((x :: l).reverse ++ c.bytes.reverse).head? = some y →
        ConfigReader.blank y = false := by
      intro y hy
      refine e.value_trimmed.2 y ?_
      rw [hv, ← List.head?_reverse]
      rw [List.head?_append_of_ne_nil _ (by simp)] at hy
      exact hy
    rw [← List.nil_append ((x :: l).reverse ++ _),
      Text.dropWhile_pad (fun y hy => absurd hy List.not_mem_nil) hhead, ← List.reverse_append,
      List.reverse_reverse]
    have htrim := Text.trim_pad (b := []) c.blank (fun y hy => absurd hy List.not_mem_nil)
      (hv ▸ e.value_trimmed)
    rw [List.append_nil] at htrim
    exact htrim

/-- **An assignment is read as it was written.** -/
theorem ConfigEntry.parseLine_text (e : ConfigEntry) (a b c d : Padding) (m : ConfigMap) :
    ConfigReader.parseLine m (ConfigLine.entry e a b c d).text = m.insert e.key e.value := by
  obtain ⟨hends, hcomment, hkey⟩ := e.key_side a b
  have htrim : ConfigReader.trim (ConfigLine.entry e a b c d).text =
      (a.bytes ++ e.key ++ b.bytes).dropWhile ConfigReader.blank ++ 61 ::
        ((c.bytes ++ e.value ++ d.bytes).reverse.dropWhile ConfigReader.blank).reverse :=
    Text.trim_mid (by decide) _ _
  have hhead : (ConfigReader.trim (ConfigLine.entry e a b c d).text).head? ≠ some 35 := by
    rw [htrim]
    cases hl : (a.bytes ++ e.key ++ b.bytes).dropWhile ConfigReader.blank with
    | nil => exact fun h => absurd h (by simp)
    | cons x l =>
      rw [hl] at hcomment
      exact hcomment
  have hne : ConfigReader.trim (ConfigLine.entry e a b c d).text ≠ [] := by
    rw [htrim]
    exact List.append_ne_nil_of_right_ne_nil _ (List.cons_ne_nil _ _)
  unfold ConfigReader.parseLine
  dsimp only
  rw [if_neg (not_or.mpr ⟨hne, hhead⟩), htrim, Text.splitFirst_append hends]
  dsimp only
  rw [hkey, e.value_side c d]

theorem mem_trim {line : Bytes} {x : UInt8} (h : x ∈ ConfigReader.trim line) : x ∈ line := by
  unfold ConfigReader.trim Text.trim at h
  have hrev := (List.dropWhile_suffix _).subset (List.mem_reverse.mp h)
  exact (List.dropWhile_suffix _).subset (List.mem_reverse.mp hrev)

theorem ConfigLine.parseLine_text (l : ConfigLine) (m : ConfigMap) (key : Bytes) :
    (ConfigReader.parseLine m l.text)[key]? = (l.assigns key).getD m[key]? := by
  cases l with
  | entry e a b c d =>
    rw [e.parseLine_text, Std.TreeMap.getElem?_insert, assigns,
      if_congr Std.LawfulEqCmp.compare_eq_iff_eq rfl rfl]
    split <;> rfl
  | other line one_line h =>
    have hskip : ConfigReader.parseLine m line = m := by
      unfold ConfigReader.parseLine
      dsimp only
      split
      · rfl
      · rename_i hnot
        rw [not_or] at hnot
        have hno : 61 ∉ line := (h.resolve_left hnot.1).resolve_left hnot.2
        rw [Text.splitFirst_eq_none fun hmem => hno (mem_trim hmem)]
    rw [text, hskip]
    rfl

/-- The text of a file: every line ends with a newline, but the last one need not. -/
def fileText (ls : List ConfigLine) (last : ConfigLine) : Bytes :=
  ls.foldr (fun l rest => l.text ++ 10 :: rest) last.text

/-- **The lines of a file are read one by one**; an empty last line is no line. -/
theorem lines_fileText (ls : List ConfigLine) (last : ConfigLine) :
    Text.lines 10 (fileText ls last) =
      ls.map ConfigLine.text ++ if last.text = [] then [] else [last.text] := by
  induction ls with
  | nil => exact Text.lines_last last.no_newline
  | cons l ls ih =>
    show Text.lines 10 (l.text ++ 10 :: fileText ls last) = _
    rw [Text.lines_cons l.no_newline, ih]
    rfl

theorem foldl_parseLine (key : Bytes) (ls : List ConfigLine) :
    ((ls.map ConfigLine.text).foldl ConfigReader.parseLine ∅)[key]? =
      lastWrite (ConfigLine.assigns key) ls := by
  induction ls using List.reverseRecOn with
  | nil => rfl
  | append_singleton ls l ih =>
    rw [List.map_append, List.foldl_append, lastWrite_append, List.map_singleton, List.foldl_cons,
      List.foldl_nil, l.parseLine_text, ih]

/-- **A configuration file is read back**: for every list of lines, with any blanks around keys
and values and any blank lines, comments and lines without an assignment among them, each key has
the value that the last line that assigns it gives it, and no value if there is none. -/
theorem config_round_trip (ls : List ConfigLine) (last : ConfigLine) (key : Bytes) :
    (ConfigReader.getMap (some (fileText ls last)))[key]? =
      lastWrite (ConfigLine.assigns key) (ls ++ [last]) := by
  unfold ConfigReader.getMap
  dsimp only
  rw [lines_fileText, lastWrite_append]
  split
  · rename_i hnil
    -- an empty last line assigns nothing
    have hnone : last.assigns key = none := by
      cases last with
      | entry e a b c d =>
        exact absurd hnil (List.append_ne_nil_of_right_ne_nil _ (List.cons_ne_nil _ _))
      | other line one_line h => rfl
    rw [List.append_nil, foldl_parseLine, hnone]
    rfl
  · rw [List.foldl_append, List.foldl_cons, List.foldl_nil, last.parseLine_text, foldl_parseLine]

example : (ConfigReader.getMap (some (str "# ports\nquery_port = 8080\r\n\tquery_port=9\n")))[str
    "query_port"]? = some (str "9") := by
  decide +kernel

/-- Whatever the file says, the map of the service centre has a TTL to read. -/
theorem serviceCenterMap_ttl (file : Option Bytes) :
    ∃ text, text ≠ [] ∧ (Config.setServiceCenterMap file)[str "service_ttl_ms"]? = some text := by
  unfold Config.setServiceCenterMap
  dsimp only
  split
  · refine ⟨str "10000", by decide, ?_⟩
    rw [Std.TreeMap.getElem?_insert_self]
  · rename_i hall
    cases hget : (ConfigReader.getMap file)[str "service_ttl_ms"]? with
    | none =>
      rw [hget] at hall
      exact absurd rfl hall
    | some text =>
      rw [hget, Option.all_some, beq_iff_eq] at hall
      exact ⟨text, hall, rfl⟩

end KaiRPC
