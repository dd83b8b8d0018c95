/-
# Lossy decoding of UTF-8

`String::from_utf8_lossy`: valid UTF-8 is the text it encodes; elsewhere each maximal
piece of an ill-formed sequence becomes one replacement character.
-/

import Mathlib

namespace Hegira
namespace LossyText

/-- The code point of the replacement character. -/
def replacement : ℕ := 0xFFFD

/-- A continuation byte. -/
def IsContinuation (byte : UInt8) : Prop := 0x80 ≤ byte.toNat ∧ byte.toNat < 0xC0

instance (byte : UInt8) : Decidable (IsContinuation byte) := inferInstanceAs (Decidable (_ ∧ _))

/-- The six bits of a continuation byte. -/
def bits (byte : UInt8) : ℕ := byte.toNat - 0x80

/-- The second byte that may follow the first byte of a longer sequence. -/
def IsSecond (first second : UInt8) : Prop :=
  IsContinuation second ∧
    (first.toNat = 0xE0 → 0xA0 ≤ second.toNat) ∧ (first.toNat = 0xED → second.toNat < 0xA0) ∧
    (first.toNat = 0xF0 → 0x90 ≤ second.toNat) ∧ (first.toNat = 0xF4 → second.toNat < 0x90)

instance (first second : UInt8) : Decidable (IsSecond first second) :=
  inferInstanceAs (Decidable (_ ∧ _))

/-- The first code point of a sequence that starts with `first`, and the rest. -/
def decodeFirst (first : UInt8) (rest : List UInt8) : ℕ × List UInt8 :=
  if first.toNat < 0x80 then (first.toNat, rest)
  else if 0xC2 ≤ first.toNat ∧ first.toNat < 0xE0 then
    match rest with
    | b :: rest =>
        if IsContinuation b then ((first.toNat - 0xC0) * 64 + bits b, rest)
        else (replacement, b :: rest)
    | [] => (replacement, [])
  else if 0xE0 ≤ first.toNat ∧ first.toNat < 0xF0 then
    match rest with
    | b :: c :: rest =>
        if ¬IsSecond first b then (replacement, b :: c :: rest)
        else if ¬IsContinuation c then (replacement, c :: rest)
        else ((first.toNat - 0xE0) * 4096 + bits b * 64 + bits c, rest)
    | [b] => (replacement, if IsSecond first b then [] else [b])
    | [] => (replacement, [])
  else if 0xF0 ≤ first.toNat ∧ first.toNat < 0xF5 then
    match rest with
    | b :: c :: d :: rest =>
        if ¬IsSecond first b then (replacement, b :: c :: d :: rest)
        else if ¬IsContinuation c then (replacement, c :: d :: rest)
        else if ¬IsContinuation d then (replacement, d :: rest)
        else ((first.toNat - 0xF0) * 262144 + bits b * 4096 + bits c * 64 + bits d, rest)
    | [b, c] =>
        (replacement, if ¬IsSecond first b then [b, c] else if ¬IsContinuation c then [c] else [])
    | [b] => (replacement, if IsSecond first b then [] else [b])
    | [] => (replacement, [])
  else (replacement, rest)

/-- The characters of a byte string, for as many steps as `fuel`. -/
def decode : ℕ → List UInt8 → List Char
  | 0, _ | _, [] => []
  | fuel + 1, first :: rest =>
      let (code, rest) := decodeFirst first rest
      Char.ofNat code :: decode fuel rest

/-- `String::from_utf8_lossy`.  A step of the decoding takes at least one byte. -/
def lossy (bytes : List UInt8) : String :=
  match String.fromUTF8? ⟨bytes.toArray⟩ with
  | some text => text
  | none => String.ofList (decode bytes.length bytes)

example : lossy [0x61, 0xFF, 0x62] = "a�b" := by decide +kernel
example : lossy [0xE2, 0x82, 0x41, 0xC3] = "�A�" := by decide +kernel

/-- Valid text is what it encodes. -/
theorem lossy_of_fromUTF8? {bytes : List UInt8} {text : String}
    (h : String.fromUTF8? ⟨bytes.toArray⟩ = some text) : lossy bytes = text := by
  rw [lossy]
  split
  · next text' htext => exact Option.some.inj (htext.symm.trans h)
  · next hnone => exact nomatch hnone.symm.trans h

end LossyText
end Hegira
