import Mathlib.Data.List.Basic
import Mathlib.Data.Nat.Notation

/-!
# Base64

Three bytes make four symbols of six bits each, and what is left at the end is filled up with zero
bits and padding. The symbols are a parameter: of the sixty-four of them and the padding it only
matters that they are told apart. Missing padding, symbols behind it and a bit that should be zero
are errors.
-/

namespace EdgeOrchestrator.Base64

/-- Sixty-four symbols, and one for the padding. -/
structure Alphabet (Symbol : Type) where
  symbol : ℕ → Symbol
  digit : Symbol → Option ℕ
  pad : Symbol
  digit_symbol : ∀ {value}, value < 64 → digit (symbol value) = some value
  digit_pad : digit pad = none

namespace Alphabet

variable {Symbol : Type} (alphabet : Alphabet Symbol)

def encode : List UInt8 → List Symbol
  | [] => []
  | [first] =>
    [alphabet.symbol (first.toNat / 4), alphabet.symbol (first.toNat % 4 * 16), alphabet.pad,
      alphabet.pad]
  | [first, second] =>
    [alphabet.symbol (first.toNat / 4),
      alphabet.symbol (first.toNat % 4 * 16 + second.toNat / 16),
      alphabet.symbol (second.toNat % 16 * 4), alphabet.pad]
  | first :: second :: third :: rest =>
    alphabet.symbol (first.toNat / 4) ::
      alphabet.symbol (first.toNat % 4 * 16 + second.toNat / 16) ::
        alphabet.symbol (second.toNat % 16 * 4 + third.toNat / 64) ::
          alphabet.symbol (third.toNat % 64) :: encode rest

variable [DecidableEq Symbol]

def decode : List Symbol → Option (List UInt8)
  | [] => some []
  | first :: second :: third :: fourth :: rest =>
    match alphabet.digit first, alphabet.digit second with
    | some one, some two =>
      let leading : UInt8 := .ofNat (one * 4 + two / 16)
      match alphabet.digit third, alphabet.digit fourth with
      | some three, some four =>
        (decode rest).map fun bytes ↦
          leading :: .ofNat (two % 16 * 16 + three / 4) :: .ofNat (three % 4 * 64 + four) :: bytes
      | some three, none =>
        if fourth = alphabet.pad ∧ rest = [] ∧ three % 4 = 0 then
          some [leading, .ofNat (two % 16 * 16 + three / 4)]
        else none
      | none, none =>
        if third = alphabet.pad ∧ fourth = alphabet.pad ∧ rest = [] ∧ two % 16 = 0 then
          some [leading]
        else none
      | none, some _ => none
    | _, _ => none
  | _ => none

/-- The byte of which a number is the value. -/
theorem ofNat_of_eq {value : ℕ} {byte : UInt8} (hvalue : value = byte.toNat) :
    UInt8.ofNat value = byte := by
  rw [hvalue, UInt8.ofNat_toNat]

theorem decode_encode (bytes : List UInt8) :
    alphabet.decode (alphabet.encode bytes) = some bytes := by
  induction bytes using encode.induct with
  | case1 => rfl
  | case2 first =>
    have hfirst := first.toNat_lt
    have hleading : UInt8.ofNat (first.toNat / 4 * 4 + first.toNat % 4 * 16 / 16) = first :=
      ofNat_of_eq (by omega)
    simp only [encode, decode, alphabet.digit_symbol (show first.toNat / 4 < 64 by omega),
      alphabet.digit_symbol (show first.toNat % 4 * 16 < 64 by omega), alphabet.digit_pad, hleading]
    rw [if_pos ⟨trivial, trivial, trivial, by omega⟩]
  | case3 first second =>
    have hfirst := first.toNat_lt
    have hsecond := second.toNat_lt
    have hleading : UInt8.ofNat (first.toNat / 4 * 4 +
        (first.toNat % 4 * 16 + second.toNat / 16) / 16) = first := ofNat_of_eq (by omega)
    have hnext : UInt8.ofNat ((first.toNat % 4 * 16 + second.toNat / 16) % 16 * 16 +
        second.toNat % 16 * 4 / 4) = second := ofNat_of_eq (by omega)
    simp only [encode, decode, alphabet.digit_symbol (show first.toNat / 4 < 64 by omega),
      alphabet.digit_symbol (show first.toNat % 4 * 16 + second.toNat / 16 < 64 by omega),
      alphabet.digit_symbol (show second.toNat % 16 * 4 < 64 by omega), alphabet.digit_pad,
      hleading, hnext]
    rw [if_pos ⟨trivial, trivial, by omega⟩]
  | case4 first second third rest ih =>
    have hfirst := first.toNat_lt
    have hsecond := second.toNat_lt
    have hthird := third.toNat_lt
    have hleading : UInt8.ofNat (first.toNat / 4 * 4 +
        (first.toNat % 4 * 16 + second.toNat / 16) / 16) = first := ofNat_of_eq (by omega)
    have hnext : UInt8.ofNat ((first.toNat % 4 * 16 + second.toNat / 16) % 16 * 16 +
        (second.toNat % 16 * 4 + third.toNat / 64) / 4) = second := ofNat_of_eq (by omega)
    have hlast : UInt8.ofNat ((second.toNat % 16 * 4 + third.toNat / 64) % 4 * 64 +
        third.toNat % 64) = third := ofNat_of_eq (by omega)
    simp only [encode, decode, alphabet.digit_symbol (show first.toNat / 4 < 64 by omega),
      alphabet.digit_symbol (show first.toNat % 4 * 16 + second.toNat / 16 < 64 by omega),
      alphabet.digit_symbol (show second.toNat % 16 * 4 + third.toNat / 64 < 64 by omega),
      alphabet.digit_symbol (show third.toNat % 64 < 64 by omega), ih, Option.map_some,
      hleading, hnext, hlast]

end Alphabet

def symbols : List Char :=
  "ABCDEFGHIJKLMNOPQRSTUVWXYZabcdefghijklmnopqrstuvwxyz0123456789+/".toList

def standard : Alphabet Char where
  symbol value := symbols.getD value '='
  digit char := symbols.findIdx? (· == char)
  pad := '='
  digit_symbol := by
    have hall : ∀ value < 64, symbols.findIdx? (· == symbols.getD value '=') = some value := by
      decide +kernel
    intro value hvalue
    exact hall value hvalue
  digit_pad := by decide

example : standard.encode [77, 97, 110, 33] = "TWFuIQ==".toList := by decide

end EdgeOrchestrator.Base64
