/- Bytes read as UTF-8. -/
namespace SoliditySession.Text

def isTail (b : UInt8) : Bool := 0x80 ≤ b && b ≤ 0xBF

/-- Whether `b` may follow the leading byte `a`. -/
def canFollow (a b : UInt8) : Bool :=
  if a == 0xE0 then 0xA0 ≤ b && b ≤ 0xBF
  else if a == 0xED then 0x80 ≤ b && b ≤ 0x9F
  else if a == 0xF0 then 0x90 ≤ b && b ≤ 0xBF
  else if a == 0xF4 then 0x80 ≤ b && b ≤ 0x8F
  else isTail b

/-- How many bytes the leading byte announces. -/
def announced (a : UInt8) : Option Nat :=
  if a < 0x80 then some 1
  else if 0xC2 ≤ a && a ≤ 0xDF then some 2
  else if 0xE0 ≤ a && a ≤ 0xEF then some 3
  else if 0xF0 ≤ a && a ≤ 0xF4 then some 4
  else none

inductive Utf8Step
  | char (c : Char) (rest : List UInt8)
  /-- The longest beginning of a character that the bytes cannot complete has been skipped. -/
  | broken (rest : List UInt8)

def bits6 (b : UInt8) : Nat := b.toNat % 64

def utf8Step (a : UInt8) (rest : List UInt8) : Utf8Step :=
  match announced a, rest with
  | none, r => .broken r
  | some 1, r => .char (.ofNat a.toNat) r
  | some 2, b :: r =>
    if canFollow a b then .char (.ofNat (a.toNat % 32 * 64 + bits6 b)) r else .broken (b :: r)
  | some 3, b :: r =>
    if canFollow a b then
      match r with
      | c :: r =>
        if isTail c then .char (.ofNat (a.toNat % 16 * 4096 + bits6 b * 64 + bits6 c)) r
        else .broken (c :: r)
      | [] => .broken []
    else .broken (b :: r)
  | some _, b :: r =>
    if canFollow a b then
      match r with
      | c :: r =>
        if isTail c then
          match r with
          | d :: r =>
            if isTail d then
              .char (.ofNat (a.toNat % 8 * 262144 + bits6 b * 4096 + bits6 c * 64 + bits6 d)) r
            else .broken (d :: r)
          | [] => .broken []
        else .broken (c :: r)
      | [] => .broken []
    else .broken (b :: r)
  | some _, [] => .broken []

def Utf8Step.rest : Utf8Step → List UInt8
  | .char _ r => r
  | .broken r => r

theorem utf8Step_rest_length (a : UInt8) (rest : List UInt8) :
    (utf8Step a rest).rest.length ≤ rest.length := by
  unfold utf8Step
  repeat' split
  all_goals simp [Utf8Step.rest]
  all_goals omega

/-- The text of some bytes, with U+FFFD for each maximal broken piece. -/
def decodeLossy : List UInt8 → List Char
  | [] => []
  | a :: r =>
    match h : utf8Step a r with
    | .char c rest =>
      have : rest.length ≤ r.length := by
        have := utf8Step_rest_length a r; rw [h] at this; exact this
      c :: decodeLossy rest
    | .broken rest =>
      have : rest.length ≤ r.length := by
        have := utf8Step_rest_length a r; rw [h] at this; exact this
      '\uFFFD' :: decodeLossy rest
termination_by bs => bs.length

/-- The text of some bytes, if they are all well-formed. -/
def decodeStrict : List UInt8 → Option (List Char)
  | [] => some []
  | a :: r =>
    match h : utf8Step a r with
    | .char c rest =>
      have : rest.length ≤ r.length := by
        have := utf8Step_rest_length a r; rw [h] at this; exact this
      (decodeStrict rest).map (c :: ·)
    | .broken _ => none
termination_by bs => bs.length

def ofBytesLossy (bytes : List UInt8) : String := .ofList (decodeLossy bytes)

def ofBytes? (bytes : List UInt8) : Option String := (decodeStrict bytes).map .ofList

def toBytes (s : String) : List UInt8 := s.toUTF8.toList

end SoliditySession.Text
