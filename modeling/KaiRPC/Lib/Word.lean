import Mathlib.Algebra.Order.Group.Int

/-!
# Machine words and their network form

Two facts about a 32-bit word are used again and again: signed arithmetic wraps
around (`wrap32`), and a word travels as four bytes, most significant first
(`netBytes`, `ofNetBytes`).  `wrap32` is written on `Int` so that `omega` can
see through it; inside the range of a word it is the identity
(`wrap32_of_range`), and that is how every index of a buffer uses it.

`ofNetBytes_netBytes` and `netBytes_ofNetBytes` say the two directions of the
network form are inverse to each other.
-/

namespace Word

/-- Signed 32-bit wrap-around. -/
def wrap32 (x : Int) : Int :=
  (x + 2147483648) % 4294967296 - 2147483648

/-- The values of a signed 32-bit word. -/
def IsInt (x : Int) : Prop := -2147483648 ≤ x ∧ x < 2147483648

instance (x : Int) : Decidable (IsInt x) := inferInstanceAs (Decidable (_ ∧ _))

theorem wrap32_of_range {x : Int} (h₁ : -2147483648 ≤ x) (h₂ : x < 2147483648) :
    wrap32 x = x := by
  unfold wrap32; omega

theorem wrap32_lt (x : Int) : wrap32 x < 2147483648 := by
  unfold wrap32; omega

/-! ### The network form -/

/-- The four bytes of a word, most significant first. -/
def netBytes (x : Int32) : List UInt8 :=
  let n := x.toUInt32.toNat
  [UInt8.ofNat (n / 16777216), UInt8.ofNat (n / 65536), UInt8.ofNat (n / 256), UInt8.ofNat n]

/-- The word four bytes stand for, most significant first. -/
def ofNetBytes (b₀ b₁ b₂ b₃ : UInt8) : Int32 :=
  (UInt32.ofNat (b₀.toNat * 16777216 + b₁.toNat * 65536 + b₂.toNat * 256 + b₃.toNat)).toInt32

@[simp] theorem netBytes_length (x : Int32) : (netBytes x).length = 4 := rfl

theorem ofNetBytes_netBytes (x : Int32) :
    ofNetBytes (UInt8.ofNat (x.toUInt32.toNat / 16777216)) (UInt8.ofNat (x.toUInt32.toNat / 65536))
      (UInt8.ofNat (x.toUInt32.toNat / 256)) (UInt8.ofNat x.toUInt32.toNat) = x := by
  have hlt : x.toUInt32.toNat < 4294967296 := x.toUInt32.toNat_lt
  have hsum : (UInt8.ofNat (x.toUInt32.toNat / 16777216)).toNat * 16777216
      + (UInt8.ofNat (x.toUInt32.toNat / 65536)).toNat * 65536
      + (UInt8.ofNat (x.toUInt32.toNat / 256)).toNat * 256
      + (UInt8.ofNat x.toUInt32.toNat).toNat = x.toUInt32.toNat := by
    simp only [UInt8.toNat_ofNat']
    omega
  rw [ofNetBytes, hsum, UInt32.ofNat_toNat]
  exact Int32.toInt32_toUInt32 x

theorem netBytes_ofNetBytes (b₀ b₁ b₂ b₃ : UInt8) :
    netBytes (ofNetBytes b₀ b₁ b₂ b₃) = [b₀, b₁, b₂, b₃] := by
  have h₀ := b₀.toNat_lt
  have h₁ := b₁.toNat_lt
  have h₂ := b₂.toNat_lt
  have h₃ := b₃.toNat_lt
  have hn : (ofNetBytes b₀ b₁ b₂ b₃).toUInt32.toNat
      = b₀.toNat * 16777216 + b₁.toNat * 65536 + b₂.toNat * 256 + b₃.toNat := by
    rw [ofNetBytes, UInt32.toUInt32_toInt32, UInt32.toNat_ofNat']
    omega
  simp only [netBytes, hn, List.cons.injEq, and_true, ← UInt8.toNat_inj, UInt8.toNat_ofNat']
  omega

end Word
