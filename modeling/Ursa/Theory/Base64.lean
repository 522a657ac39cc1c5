/-
# Theory.Base64 — bytes as text, six bits to a character

The standard alphabet.  `digits` writes three bytes as four characters and what is left
over, one byte or two, as two characters or three; `encode` fills the last group up with
`=`.  `ofDigits` and `decode` read them back: a group of one character, a character outside
the alphabet, bits of a last character that stand for nothing and wrong padding are refused.
`decodeLoose` lets padding be left out.

`ofDigits_digits`, `decode_encode` and `decodeLoose_digits` are the round trips.
-/
import Mathlib.Data.List.TakeDrop

namespace Ursa.Theory.Base64

set_option autoImplicit false

/-! ## The alphabet -/

def digit (n : Nat) : Char :=
  if n < 26 then Char.ofNat (n + 65)
  else if n < 52 then Char.ofNat (n + 71)
  else if n < 62 then Char.ofNat (n - 4)
  else if n = 62 then '+'
  else '/'

def value (c : Char) : Option Nat :=
  if 'A' ≤ c ∧ c ≤ 'Z' then some (c.toNat - 65)
  else if 'a' ≤ c ∧ c ≤ 'z' then some (c.toNat - 71)
  else if '0' ≤ c ∧ c ≤ '9' then some (c.toNat + 4)
  else if c = '+' then some 62
  else if c = '/' then some 63
  else none

theorem value_digit : ∀ n < 64, value (digit n) = some n := by decide

/-- The alphabet is made of letters, digits, `+` and `/`. -/
def InAlphabet (c : Char) : Prop := (value c).isSome = true

theorem inAlphabet_digit {n : Nat} (small : n < 64) : InAlphabet (digit n) := by
  rw [InAlphabet, value_digit n small]
  rfl

/-! ## Writing -/

/-- The digits of the bytes, without padding. -/
def digits : List UInt8 → List Char
  | [] => []
  | [a] => [digit (a.toNat / 4), digit (a.toNat % 4 * 16)]
  | [a, b] =>
      [digit (a.toNat / 4), digit (a.toNat % 4 * 16 + b.toNat / 16), digit (b.toNat % 16 * 4)]
  | a :: b :: c :: rest =>
      digit (a.toNat / 4) :: digit (a.toNat % 4 * 16 + b.toNat / 16) ::
        digit (b.toNat % 16 * 4 + c.toNat / 64) :: digit (c.toNat % 64) :: digits rest

/-- How many characters the last group lacks. -/
def lacking (length : Nat) : Nat := (4 - length % 4) % 4

def encode (b : List UInt8) : List Char :=
  digits b ++ List.replicate (lacking (digits b).length) '='

/-! ## Reading -/

/-- The bytes of digits without padding. -/
def ofDigits : List Char → Option (List UInt8)
  | [] => some []
  | [_] => none
  | [x, y] =>
      match value x, value y with
      | some x, some y => if y % 16 = 0 then some [UInt8.ofNat (x * 4 + y / 16)] else none
      | _, _ => none
  | [x, y, z] =>
      match value x, value y, value z with
      | some x, some y, some z =>
          if z % 4 = 0 then
            some [UInt8.ofNat (x * 4 + y / 16), UInt8.ofNat (y % 16 * 16 + z / 4)]
          else none
      | _, _, _ => none
  | x :: y :: z :: w :: rest =>
      match value x, value y, value z, value w, ofDigits rest with
      | some x, some y, some z, some w, some bytes =>
          some (UInt8.ofNat (x * 4 + y / 16) :: UInt8.ofNat (y % 16 * 16 + z / 4) ::
            UInt8.ofNat (z % 4 * 64 + w) :: bytes)
      | _, _, _, _, _ => none

/-- The bytes of a text with all its padding. -/
def decode (text : List Char) : Option (List UInt8) :=
  let body := text.takeWhile (· ≠ '=')
  if text.drop body.length = List.replicate (lacking body.length) '=' then ofDigits body else none

/-- The bytes of a text with its padding, with a part of it or without. -/
def decodeLoose (text : List Char) : Option (List UInt8) :=
  let body := text.takeWhile (· ≠ '=')
  let padding := text.drop body.length
  if padding = List.replicate padding.length '=' ∧ padding.length ≤ lacking body.length then
    ofDigits body
  else none

/-! ## Round trips -/

theorem ofNat_eq {n : Nat} {b : UInt8} (same : n = b.toNat) : UInt8.ofNat n = b := by
  rw [same, UInt8.ofNat_toNat]

theorem ofDigits_digits (b : List UInt8) : ofDigits (digits b) = some b := by
  fun_induction digits b with
  | case1 => rfl
  | case2 a =>
      have small : a.toNat < 256 := a.toNat_lt
      rw [ofDigits, value_digit _ (by omega), value_digit _ (by omega)]
      have zero : a.toNat % 4 * 16 % 16 = 0 := by omega
      simp only [zero, if_true]
      rw [ofNat_eq (b := a) (by omega)]
  | case3 a b =>
      have small : a.toNat < 256 := a.toNat_lt
      have small' : b.toNat < 256 := b.toNat_lt
      rw [ofDigits, value_digit _ (by omega), value_digit _ (by omega), value_digit _ (by omega)]
      have zero : b.toNat % 16 * 4 % 4 = 0 := by omega
      simp only [zero, if_true]
      rw [ofNat_eq (b := a) (by omega), ofNat_eq (b := b) (by omega)]
  | case4 a b c rest ih =>
      have small : a.toNat < 256 := a.toNat_lt
      have small' : b.toNat < 256 := b.toNat_lt
      have small'' : c.toNat < 256 := c.toNat_lt
      rw [ofDigits, value_digit _ (by omega), value_digit _ (by omega), value_digit _ (by omega),
        value_digit _ (by omega), ih]
      simp only
      rw [ofNat_eq (b := a) (by omega), ofNat_eq (b := b) (by omega), ofNat_eq (b := c) (by omega)]

theorem inAlphabet_digits (b : List UInt8) : ∀ c ∈ digits b, InAlphabet c := by
  fun_induction digits b with
  | case1 => simp
  | case2 a =>
      have small : a.toNat < 256 := a.toNat_lt
      simp only [List.forall_mem_cons]
      exact ⟨inAlphabet_digit (by omega), inAlphabet_digit (by omega), by simp⟩
  | case3 a b =>
      have small : a.toNat < 256 := a.toNat_lt
      have small' : b.toNat < 256 := b.toNat_lt
      simp only [List.forall_mem_cons]
      exact ⟨inAlphabet_digit (by omega), inAlphabet_digit (by omega), inAlphabet_digit (by omega),
        by simp⟩
  | case4 a b c rest ih =>
      have small : a.toNat < 256 := a.toNat_lt
      have small' : b.toNat < 256 := b.toNat_lt
      have small'' : c.toNat < 256 := c.toNat_lt
      simp only [List.forall_mem_cons]
      exact ⟨inAlphabet_digit (by omega), inAlphabet_digit (by omega), inAlphabet_digit (by omega),
        inAlphabet_digit (by omega), ih⟩

theorem InAlphabet.ne {c other : Char} (letter : InAlphabet c) (outside : value other = none) :
    c ≠ other := by
  rintro rfl
  simp [InAlphabet, outside] at letter

/-- The digits end where the padding starts. -/
theorem takeWhile_padded (b : List UInt8) (n : Nat) :
    (digits b ++ List.replicate n '=').takeWhile (· ≠ '=') = digits b := by
  have letters : ∀ c ∈ digits b, (decide (c ≠ '=')) = true := by
    intro c member
    have outside : value '=' = none := by decide
    simpa using (inAlphabet_digits b c member).ne outside
  have padding : (List.replicate n '=').takeWhile (· ≠ '=') = [] := by
    cases n <;> simp [List.replicate_succ]
  rw [List.takeWhile_append_of_pos letters, padding, List.append_nil]

/-- **Reading undoes writing.** -/
theorem decode_encode (b : List UInt8) : decode (encode b) = some b := by
  simp only [decode, encode, takeWhile_padded]
  rw [List.drop_left, if_pos rfl, ofDigits_digits]

/-- Digits are read with any part of their padding. -/
theorem decodeLoose_digits (b : List UInt8) {n : Nat} (few : n ≤ lacking (digits b).length) :
    decodeLoose (digits b ++ List.replicate n '=') = some b := by
  simp only [decodeLoose, takeWhile_padded, List.drop_left, List.length_replicate]
  rw [if_pos ⟨trivial, few⟩, ofDigits_digits]

end Ursa.Theory.Base64
