import Mathlib.Data.List.Induction
import Mathlib.Data.List.TakeWhile
import Mathlib.Data.Nat.Digits.Defs
import KaiRPC.Lib.Word

/-!
# Text

Byte strings as the C and C++ libraries take them apart and put them together: the first
occurrence of a separator (`find_first_of` with the two substrings), lines, blanks at both ends
and decimal numbers (`to_string`, `atoi`).

`splitFirst_append` and `atoi_to_string` are the two directions in which programs rely on
them.
-/

open Word

namespace Text

/-! ### Separators -/

section

variable {α : Type*} [DecidableEq α]

/-- What is before and behind the first `sep`. -/
def splitFirst (sep : α) : List α → Option (List α × List α)
  | [] => none
  | x :: s => if x = sep then some ([], s) else (splitFirst sep s).map fun p => (x :: p.1, p.2)

theorem splitFirst_append {sep : α} {a : List α} (h : sep ∉ a) (b : List α) :
    splitFirst sep (a ++ sep :: b) = some (a, b) := by
  induction a with
  | nil => exact if_pos rfl
  | cons x a ih =>
    rw [List.mem_cons, not_or] at h
    obtain ⟨hx, ha⟩ := h
    rw [List.cons_append, splitFirst, if_neg (Ne.symm hx), ih ha]
    rfl

theorem eq_of_splitFirst {sep : α} {s a b : List α} (h : splitFirst sep s = some (a, b)) :
    sep ∉ a ∧ s = a ++ sep :: b := by
  induction s generalizing a with
  | nil => cases h
  | cons x s ih =>
    rw [splitFirst] at h
    split at h
    · rename_i hx
      cases h
      exact ⟨List.not_mem_nil, by rw [hx]; rfl⟩
    · rename_i hx
      obtain ⟨⟨a', b'⟩, hs, he⟩ := Option.map_eq_some_iff.mp h
      cases he
      obtain ⟨hnot, heq⟩ := ih hs
      refine ⟨?_, by rw [heq]; rfl⟩
      rw [List.mem_cons, not_or]
      exact ⟨Ne.symm hx, hnot⟩

/-- The pieces between the occurrences of `sep`, as a loop of `getline` reads them: there is none
behind the last `sep` if nothing follows it. -/
def lines (sep : α) : List α → List (List α)
  | [] => []
  | x :: s =>
      if x = sep then [] :: lines sep s
      else match lines sep s with
        | [] => [[x]]
        | l :: ls => (x :: l) :: ls

/-- The text without what `blank` holds of, at both ends. -/
def trim (blank : α → Bool) (s : List α) : List α :=
  ((s.dropWhile blank).reverse.dropWhile blank).reverse

theorem splitFirst_eq_none {sep : α} {s : List α} (h : sep ∉ s) : splitFirst sep s = none := by
  cases hs : splitFirst sep s with
  | none => rfl
  | some p =>
    obtain ⟨-, rfl⟩ := eq_of_splitFirst hs
    exact absurd (List.mem_append_right _ List.mem_cons_self) h

theorem lines_cons {sep : α} {l : List α} (h : sep ∉ l) (s : List α) :
    lines sep (l ++ sep :: s) = l :: lines sep s := by
  induction l with
  | nil => exact if_pos rfl
  | cons x l ih =>
    rw [List.mem_cons, not_or] at h
    rw [List.cons_append, lines, if_neg (Ne.symm h.1), ih h.2]

theorem lines_last {sep : α} {l : List α} (h : sep ∉ l) :
    lines sep l = if l = [] then [] else [l] := by
  induction l with
  | nil => rfl
  | cons x l ih =>
    rw [List.mem_cons, not_or] at h
    rw [lines, if_neg (Ne.symm h.1), ih h.2, if_neg (List.cons_ne_nil x l)]
    cases l with
    | nil => rfl
    | cons y l => rfl

end

/-! ### Blanks -/

section

variable {α : Type*} {blank : α → Bool}

/-- There is nothing to trim. -/
def Trimmed (blank : α → Bool) (s : List α) : Prop :=
  (∀ c, s.head? = some c → blank c = false) ∧ ∀ c, s.getLast? = some c → blank c = false

theorem dropWhile_pad {a s : List α} (ha : ∀ c ∈ a, blank c = true)
    (hs : ∀ c, s.head? = some c → blank c = false) : (a ++ s).dropWhile blank = s := by
  rw [List.dropWhile_append_of_pos ha]
  cases s with
  | nil => rfl
  | cons c s => exact List.dropWhile_cons_of_neg (by simp [hs c rfl])

/-- **Padding is trimmed off.** -/
theorem trim_pad {a s b : List α} (ha : ∀ c ∈ a, blank c = true) (hb : ∀ c ∈ b, blank c = true)
    (hs : Trimmed blank s) : trim blank (a ++ s ++ b) = s := by
  have hrev : ∀ c ∈ b.reverse, blank c = true := fun c hc => hb c (List.mem_reverse.mp hc)
  have hlast : ∀ c, s.reverse.head? = some c → blank c = false := by
    intro c hc
    rw [List.head?_reverse] at hc
    exact hs.2 c hc
  unfold trim
  rw [List.append_assoc]
  cases hnil : s with
  | nil =>
    have hall : ∀ c ∈ a ++ ([] ++ b), blank c = true := by
      intro c hc
      rcases List.mem_append.mp hc with hc | hc
      · exact ha c hc
      · exact hb c hc
    rw [List.dropWhile_eq_nil_iff.mpr hall]
    rfl
  | cons x l =>
    have hhead : ∀ c, (x :: l ++ b).head? = some c → blank c = false := by
      intro c hc
      rw [hnil] at hs
      exact hs.1 c hc
    rw [dropWhile_pad ha hhead, List.reverse_append, ← hnil, dropWhile_pad hrev hlast,
      List.reverse_reverse]

/-- **A text is trimmed on both sides of a byte that is not blank.** -/
theorem trim_mid {x : α} (hx : blank x = false) (a b : List α) :
    trim blank (a ++ x :: b) = a.dropWhile blank ++ x :: (b.reverse.dropWhile blank).reverse := by
  have hdrop : ∀ a b : List α, (a ++ x :: b).dropWhile blank = a.dropWhile blank ++ x :: b := by
    intro a b
    induction a with
    | nil => exact List.dropWhile_cons_of_neg (by simp [hx])
    | cons c a ih =>
      rw [List.cons_append, List.dropWhile_cons, List.dropWhile_cons, ih]
      split <;> rfl
  unfold trim
  rw [hdrop, List.reverse_append, List.reverse_cons, List.append_assoc, List.singleton_append,
    hdrop, List.reverse_append, List.reverse_cons, List.reverse_reverse, List.append_assoc,
    List.singleton_append]

end

/-! ### Decimal numbers -/

/-- `isspace` in the C locale. -/
def isspace (c : UInt8) : Bool := c == 32 || (9 ≤ c && c ≤ 13)

def isdigit (c : UInt8) : Bool := 48 ≤ c && c ≤ 57

def digit (d : Nat) : UInt8 := UInt8.ofNat (48 + d)

/-- The number a row of digits stands for. -/
def digitsValue (s : List UInt8) : Nat := s.foldl (fun v c => c.toNat - 48 + 10 * v) 0

/-- `strtol` to base ten with a 64-bit `long`: what does not fit is cut to the largest or the
smallest value. -/
def strtol (s : List UInt8) : Int :=
  match s.dropWhile isspace with
  | 45 :: s => max (-2 ^ 63) (-(digitsValue (s.takeWhile isdigit) : Int))
  | 43 :: s => min (2 ^ 63 - 1) (digitsValue (s.takeWhile isdigit) : Int)
  | s => min (2 ^ 63 - 1) (digitsValue (s.takeWhile isdigit) : Int)

/-- `atoi` is a `strtol` cast to `int`. -/
def atoi (s : List UInt8) : Int := wrap32 (strtol s)

/-- The decimal digits of a number. -/
def decimal (n : Nat) : List UInt8 :=
  if n = 0 then [digit 0] else (Nat.digits 10 n).reverse.map digit

/-- `std::to_string`. -/
def to_string (n : Int) : List UInt8 :=
  if n < 0 then 45 :: decimal n.natAbs else decimal n.natAbs

theorem isdigit_iff {c : UInt8} : isdigit c = true ↔ 48 ≤ c.toNat ∧ c.toNat ≤ 57 := by
  simp [isdigit, UInt8.le_iff_toNat_le]

theorem digit_toNat {d : Nat} (h : d < 10) : (digit d).toNat = 48 + d := by
  rw [digit, UInt8.toNat_ofNat']
  omega

theorem isdigit_digit {d : Nat} (h : d < 10) : isdigit (digit d) = true := by
  rw [isdigit_iff, digit_toNat h]
  omega

theorem isdigit_of_mem_decimal {n : Nat} {c : UInt8} (h : c ∈ decimal n) : isdigit c = true := by
  rw [decimal] at h
  split at h
  · rw [List.mem_singleton.mp h]
    rfl
  · obtain ⟨d, hd, rfl⟩ := List.mem_map.mp h
    exact isdigit_digit (Nat.digits_lt_base (by omega) (List.mem_reverse.mp hd))

theorem decimal_ne_nil (n : Nat) : decimal n ≠ [] := by
  rw [decimal]
  split
  · exact List.cons_ne_nil _ _
  · intro h
    rw [List.map_eq_nil_iff, List.reverse_eq_nil_iff, Nat.digits_eq_nil_iff_eq_zero] at h
    exact ‹n ≠ 0› h

theorem to_string_ne_nil (n : Int) : to_string n ≠ [] := by
  rw [to_string]
  split
  · exact List.cons_ne_nil _ _
  · exact decimal_ne_nil _

theorem mem_to_string {n : Int} {c : UInt8} (h : c ∈ to_string n) : c = 45 ∨ isdigit c = true := by
  rw [to_string] at h
  split at h
  · exact (List.mem_cons.mp h).imp_right isdigit_of_mem_decimal
  · exact Or.inr (isdigit_of_mem_decimal h)

theorem digitsValue_decimal (n : Nat) : digitsValue (decimal n) = n := by
  rw [decimal]
  split
  · exact (‹n = 0›).symm
  · -- From the least digit up, the fold is `Nat.ofDigits`.
    have hfold : ∀ ds : List Nat, (∀ d ∈ ds, d < 10) →
        ds.foldr (fun d v => (digit d).toNat - 48 + 10 * v) 0 = Nat.ofDigits 10 ds := by
      intro ds
      induction ds with
      | nil => intro _; rfl
      | cons d ds ih =>
        intro h
        rw [List.foldr_cons, ih fun d hd => h d (List.mem_cons_of_mem _ hd), Nat.ofDigits_cons,
          digit_toNat (h d List.mem_cons_self), Nat.add_sub_cancel_left]
    rw [digitsValue, List.foldl_map, List.foldl_reverse,
      hfold _ fun d hd => Nat.digits_lt_base (by omega) hd]
    exact Nat.ofDigits_digits 10 n

theorem strtol_digits {s : List UInt8} (h : ∀ c ∈ s, isdigit c = true) :
    strtol s = min (2 ^ 63 - 1) (digitsValue s : Int) := by
  have hall : s.takeWhile isdigit = s := List.takeWhile_eq_self_iff.mpr h
  -- A digit is neither a blank nor a sign.
  have hdigit : ∀ c ∈ s, isspace c = false ∧ c ≠ 45 ∧ c ≠ 43 := by
    intro c hc
    have hd := isdigit_iff.mp (h c hc)
    refine ⟨?_, ?_, ?_⟩
    · simp [isspace, UInt8.le_iff_toNat_le, ← UInt8.toNat_inj]
      omega
    · simp [← UInt8.toNat_inj]
      omega
    · simp [← UInt8.toNat_inj]
      omega
  have hdrop : s.dropWhile isspace = s := by
    cases s with
    | nil => rfl
    | cons c s => exact List.dropWhile_cons_of_neg (by simp [hdigit c List.mem_cons_self])
  rw [strtol, hdrop]
  split
  · exact absurd rfl (hdigit 45 List.mem_cons_self).2.1
  · exact absurd rfl (hdigit 43 List.mem_cons_self).2.2
  · rw [hall]

/-- **Numbers survive being written and read.** -/
theorem atoi_to_string {n : Int} (h0 : 0 ≤ n) (h : n < 2147483648) : atoi (to_string n) = n := by
  rw [atoi, to_string, if_neg (by omega), strtol_digits fun c hc => isdigit_of_mem_decimal hc,
    digitsValue_decimal, Int.natAbs_of_nonneg h0, min_eq_right (by omega)]
  exact wrap32_of_range (by omega) h

theorem strtol_neg_digits {s : List UInt8} (h : ∀ c ∈ s, isdigit c = true) :
    strtol (45 :: s) = max (-2 ^ 63) (-(digitsValue s : Int)) := by
  have hall : s.takeWhile isdigit = s := List.takeWhile_eq_self_iff.mpr h
  have hdrop : (45 :: s).dropWhile isspace = 45 :: s :=
    List.dropWhile_cons_of_neg (by decide)
  rw [strtol, hdrop]
  show max _ (-(digitsValue (s.takeWhile isdigit) : Int)) = _
  rw [hall]

theorem atoi_to_string_int {n : Int} (hlo : -2147483648 ≤ n) (hhi : n < 2147483648) :
    atoi (to_string n) = n := by
  by_cases h0 : n < 0
  · rw [atoi, to_string, if_pos h0, strtol_neg_digits fun c hc => isdigit_of_mem_decimal hc,
      digitsValue_decimal, max_eq_right (by omega), Int.ofNat_natAbs_of_nonpos h0.le, neg_neg]
    exact wrap32_of_range hlo hhi
  · exact atoi_to_string (not_lt.mp h0) hhi

/-! ### Counting

A row of digits is increased by one from its right end: nines become zeros up to the first
digit that is not a nine. -/

theorem digitsValue_append (s t : List UInt8) :
    digitsValue (s ++ t) = digitsValue s * 10 ^ t.length + digitsValue t := by
  induction t using List.reverseRecOn with
  | nil => simp [digitsValue]
  | append_singleton t c ih =>
    have hsnoc (u : List UInt8) : digitsValue (u ++ [c]) = c.toNat - 48 + 10 * digitsValue u := by
      rw [digitsValue, List.foldl_append]
      rfl
    rw [← List.append_assoc, hsnoc, hsnoc, ih, List.length_append, List.length_singleton,
      Nat.pow_succ, Nat.mul_add, Nat.mul_comm 10 (_ * _), Nat.mul_assoc]
    omega

theorem digitsValue_lt {s : List UInt8} (h : ∀ c ∈ s, isdigit c = true) :
    digitsValue s < 10 ^ s.length := by
  induction s with
  | nil => decide
  | cons c s ih =>
    have hc := isdigit_iff.mp (h c List.mem_cons_self)
    have hs := ih fun d hd => h d (List.mem_cons_of_mem _ hd)
    have hhead : digitsValue [c] = c.toNat - 48 := by simp [digitsValue]
    have hle : (c.toNat - 48) * 10 ^ s.length ≤ 9 * 10 ^ s.length :=
      Nat.mul_le_mul_right _ (by omega)
    rw [← List.singleton_append, digitsValue_append, hhead, List.length_append,
      List.length_singleton, Nat.add_comm 1, Nat.pow_succ]
    omega

theorem digitsValue_nines (k : Nat) : digitsValue (List.replicate k 57) + 1 = 10 ^ k := by
  induction k with
  | zero => rfl
  | succ k ih =>
    rw [List.replicate_succ', digitsValue_append, Nat.pow_succ, ← ih]
    show _ * 10 + 9 + 1 = _
    omega

theorem digitsValue_zeros (k : Nat) : digitsValue (List.replicate k 48) = 0 := by
  induction k with
  | zero => rfl
  | succ k ih =>
    rw [List.replicate_succ', digitsValue_append, ih]
    rfl

theorem digit_succ {c : UInt8} (h : isdigit c = true) (h9 : c ≠ 57) :
    (c + 1).toNat = c.toNat + 1 ∧ isdigit (c + 1) = true := by
  obtain ⟨hlo, hhi⟩ := isdigit_iff.mp h
  have hne : c.toNat ≠ 57 := fun e => h9 (UInt8.toNat_inj.mp e)
  have hadd : (c + 1).toNat = c.toNat + 1 := by
    rw [UInt8.toNat_add]
    show (c.toNat + 1) % 256 = _
    omega
  exact ⟨hadd, isdigit_iff.mpr ⟨by omega, by omega⟩⟩

/-- **The carry adds one.** -/
theorem digitsValue_carry (s : List UInt8) {c : UInt8} (h : isdigit c = true) (h9 : c ≠ 57)
    (k : Nat) : digitsValue (s ++ (c + 1) :: List.replicate k 48)
      = digitsValue (s ++ c :: List.replicate k 57) + 1 := by
  have hc := isdigit_iff.mp h
  have hadd := (digit_succ h h9).1
  have hsplit (d : UInt8) (t : List UInt8) : digitsValue (s ++ d :: t)
      = (digitsValue s * 10 + (d.toNat - 48)) * 10 ^ t.length + digitsValue t := by
    rw [← List.singleton_append, ← List.append_assoc, digitsValue_append, digitsValue_append s]
    simp [digitsValue]
  have hnext : digitsValue s * 10 + (c.toNat + 1 - 48)
      = digitsValue s * 10 + (c.toNat - 48) + 1 := by omega
  rw [hsplit, hsplit, hadd, hnext, digitsValue_zeros, List.length_replicate, List.length_replicate,
    Nat.add_mul, Nat.one_mul, ← digitsValue_nines k]
  omega

end Text
