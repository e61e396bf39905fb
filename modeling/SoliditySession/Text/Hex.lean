import SoliditySession.Text.Basic
import SoliditySession.Text.Visible
/- Bytes as pairs of hexadecimal digits. -/
namespace SoliditySession.Text

def nibble (c : Char) : Option Nat :=
  if c.isDigit then some (c.toNat - 48)
  else if 'a' ≤ c ∧ c ≤ 'f' then some (c.toNat - 87)
  else if 'A' ≤ c ∧ c ≤ 'F' then some (c.toNat - 55)
  else none

def hexByte (b : UInt8) : List Char :=
  [hexDigit (b.toNat / 16), hexDigit (b.toNat % 16)]

def hex (bytes : List UInt8) : String := .ofList (bytes.flatMap hexByte)

inductive HexFault
  | oddLength
  /-- The byte at this position is no digit. -/
  | notADigit (byte : UInt8) (position : Nat)
deriving DecidableEq

def HexFault.message : HexFault → String
  | .oddLength => "Odd number of digits"
  | .notADigit b i =>
    "Invalid character " ++ visible '\'' [.ofNat b.toNat] ++ " at position " ++ toString i

def hexPairs (position : Nat) : List UInt8 → Except HexFault (List UInt8)
  | [] => .ok []
  | [_] => .error .oddLength
  | a :: b :: r =>
    match nibble (.ofNat a.toNat), nibble (.ofNat b.toNat) with
    | none, _ => .error (.notADigit a position)
    | some _, none => .error (.notADigit b (position + 1))
    | some x, some y => (hexPairs (position + 2) r).map (UInt8.ofNat (x * 16 + y) :: ·)

/-- The bytes that a text spells; its length is judged before its characters. -/
def unhex (s : String) : Except HexFault (List UInt8) :=
  let bytes := s.toUTF8.toList
  if bytes.length % 2 == 1 then .error .oddLength else hexPairs 0 bytes

end SoliditySession.Text
