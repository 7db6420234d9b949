import Mathlib.Tactic

/-! Types and machine arithmetic shared by the models. -/

namespace Asp

abbrev Bytes := List UInt8

abbrev Uuid := ℕ

/-- `as_bytes`. -/
def asBytes (text : String) : Bytes := text.toUTF8.data.toList

def isHexDigit (byte : UInt8) : Bool :=
  (48 ≤ byte && byte ≤ 57) || (65 ≤ byte && byte ≤ 70) || (97 ≤ byte && byte ≤ 102)

def validSha256 (value : String) : Bool :=
  (asBytes value).length == 64 && (asBytes value).all isHexDigit

def toAsciiLowercase (text : String) : String := String.ofList (text.toList.map Char.toLower)

/-- `char::is_control`. -/
def isControl (character : Char) : Bool :=
  decide (character.toNat < 32) || decide (127 ≤ character.toNat ∧ character.toNat < 160)

/-- A serializer whose decoder inverts its encoder. -/
structure Message (α : Type) where
  encode : α → Bytes
  decode : Bytes → Option α
  decode_encode : ∀ x, decode (encode x) = some x

def maxFrameBytes : ℕ := 128 * 1024 * 1024

def usizeMax : ℕ := 2 ^ 64 - 1

def saturatingAdd (a b : ℕ) : ℕ := min (a + b) usizeMax

def saturatingMul (a b : ℕ) : ℕ := min (a * b) usizeMax

theorem map_ok {α β ε : Type} {x : Except ε α} {f : α → β} {y : β} (h : x.map f = .ok y) :
    ∃ a, x = .ok a ∧ y = f a := by
  cases x with
  | error e => cases h
  | ok a => exact ⟨a, rfl, (Except.ok.inj h).symm⟩

theorem bind_ok {α β ε : Type} {x : Except ε α} {f : α → Except ε β} {y : β}
    (h : x.bind f = .ok y) : ∃ a, x = .ok a ∧ f a = .ok y := by
  cases x with
  | error e => cases h
  | ok a => exact ⟨a, rfl, h⟩

end Asp
