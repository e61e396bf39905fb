import SoliditySession.Json
/- Reading JSON text: one value with nothing but white space around it. -/
namespace SoliditySession.Json

abbrev Parse (α : Type) := Option (α × List Char)

def skipSpace (cs : List Char) : List Char :=
  cs.dropWhile fun c => c == ' ' || c == '\n' || c == '\t' || c == '\r'

def hexValue (c : Char) : Option Nat :=
  if c.isDigit then some (c.toNat - 48)
  else if 'a' ≤ c ∧ c ≤ 'f' then some (c.toNat - 87)
  else if 'A' ≤ c ∧ c ≤ 'F' then some (c.toNat - 55)
  else none

def hex4 : List Char → Parse Nat
  | a :: b :: c :: d :: r =>
    match hexValue a, hexValue b, hexValue c, hexValue d with
    | some a, some b, some c, some d => some (a * 4096 + b * 256 + c * 16 + d, r)
    | _, _, _, _ => none
  | _ => none

def simpleEscape : Char → Option Char
  | '"' => some '"'
  | '\\' => some '\\'
  | '/' => some '/'
  | 'b' => some '\x08'
  | 'f' => some '\x0c'
  | 'n' => some '\n'
  | 'r' => some '\r'
  | 't' => some '\t'
  | _ => none

/-- One piece of a quotation. -/
inductive Piece
  | close
  | char (c : Char)
  | surrogate (unit : Nat)

def piece : List Char → Parse Piece
  | '"' :: r => some (.close, r)
  | '\\' :: 'u' :: r =>
    (hex4 r).map fun (n, r) =>
      if 0xD800 ≤ n && n < 0xE000 then (.surrogate n, r) else (.char (.ofNat n), r)
  | '\\' :: c :: r => (simpleEscape c).map fun d => (.char d, r)
  | c :: r => if c.toNat < 0x20 || c == '\\' then none else some (.char c, r)
  | [] => none

/-- What is behind the opening quote. The text is missing where a surrogate has no partner. -/
def stringTail : Nat → List Char → Option (List Char) → Parse (Option String)
  | 0, _, _ => none
  | n + 1, cs, acc =>
    match piece cs with
    | none => none
    | some (.close, r) => some (acc.map fun l => .ofList l.reverse, r)
    | some (.char c, r) => stringTail n r (acc.map (c :: ·))
    | some (.surrogate u, r) =>
      match piece r with
      | some (.surrogate v, r') =>
        if u < 0xDC00 && 0xDC00 ≤ v then
          let c := Char.ofNat (0x10000 + (u - 0xD800) * 1024 + (v - 0xDC00))
          stringTail n r' (acc.map (c :: ·))
        else stringTail n r none
      | _ => stringTail n r none

/-- Adds digits while the number fits 64 bits; counts those that no longer do. -/
def absorb (significand : Nat) : List Char → Nat × Nat
  | [] => (significand, 0)
  | c :: cs =>
    let next := significand * 10 + (c.toNat - 48)
    if next < Nat.pow 2 64 then absorb next cs else (significand, cs.length + 1)

/-- Scales by powers of ten no larger than `10 ^ 308`; nothing if the result is infinite. -/
def scale : Nat → Float → Int → Option Float
  | 0, _, _ => none
  | n + 1, f, e =>
    if e.natAbs ≤ 308 then
      let p := Float.ofScientific 1 false e.natAbs
      if 0 ≤ e then
        let g := f * p
        if g.isInf then none else some g
      else some (f / p)
    else if f == 0.0 then some f
    else if 0 ≤ e then none
    else scale n (f / Float.ofScientific 1 false 308) (e + 308)

def toFloat (negative : Bool) (significand : Nat) (exponent : Int) : Json :=
  match scale 8 significand.toUInt64.toFloat (max (-2000) (min 2000 exponent)) with
  | none => .unreadable
  | some f => .float (if negative then -f else f).toBits

def digitsValue (cs : List Char) : Nat := cs.foldl (fun n c => n * 10 + (c.toNat - 48)) 0

/-- The number with these digits before and behind the point, and this exponent. -/
def number (negative : Bool) (whole : List Char) (fraction : Option (List Char))
    (exponent : Option (Bool × List Char)) : Json :=
  let (s, skipped) := absorb 0 whole
  if skipped == 0 && fraction.isNone && exponent.isNone then
    if negative then
      if s == 0 || Nat.pow 2 63 < s then toFloat true s 0 else .int (-(s : Int))
    else .int s
  else
    let ds := fraction.getD []
    let (s, dropped) := absorb s ds
    let e : Int := skipped - ((ds.length : Int) - dropped)
    match exponent with
    | none => toFloat negative s e
    | some (down, es) =>
      let size := digitsValue es
      if s == 0 then toFloat negative 0 0
      else toFloat negative s (if down then e - size else e + size)

def digits (cs : List Char) : List Char × List Char := (cs.takeWhile Char.isDigit, cs.dropWhile Char.isDigit)

def fractionPart : List Char → Parse (Option (List Char))
  | '.' :: r =>
    match digits r with
    | ([], _) => none
    | (ds, r) => some (some ds, r)
  | r => some (none, r)

def exponentPart : List Char → Parse (Option (Bool × List Char))
  | c :: r =>
    if c == 'e' || c == 'E' then
      let (down, r) := match r with
        | '-' :: r => (true, r)
        | '+' :: r => (false, r)
        | r => (false, r)
      match digits r with
      | ([], _) => none
      | (ds, r) => some (some (down, ds), r)
    else some (none, c :: r)
  | [] => some (none, [])

def numberTail (negative : Bool) (cs : List Char) : Parse Json :=
  match digits cs with
  | ([], _) => none
  | (whole, r) =>
    if whole.head? == some '0' && 1 < whole.length then none
    else
      match fractionPart r with
      | none => none
      | some (fraction, r) =>
        match exponentPart r with
        | none => none
        | some (exponent, r) => some (number negative whole fraction exponent, r)

def literal (word : String) (value : Json) (cs : List Char) : Parse Json :=
  if word.toList.isPrefixOf cs then some (value, cs.drop word.length) else none

/-- Containers more deeply nested than this cannot be read. -/
def nestingLimit : Nat := 127

mutual
def value (level : Nat) : Nat → List Char → Parse Json
  | 0, _ => none
  | n + 1, cs =>
    match skipSpace cs with
    | '"' :: r =>
      (stringTail r.length.succ r (some [])).map fun (s, r) =>
        (match s with | some s => .str s | none => .unreadable, r)
    | '[' :: r =>
      match skipSpace r with
      | ']' :: r => some (if level < nestingLimit then .arr [] else .unreadable, r)
      | r => items (level + 1) n r []
    | '{' :: r =>
      match skipSpace r with
      | '}' :: r => some (if level < nestingLimit then .obj [] else .unreadable, r)
      | r => members (level + 1) n r (some [])
    | '-' :: r => numberTail true r
    | 't' :: r => literal "rue" (.bool true) r
    | 'f' :: r => literal "alse" (.bool false) r
    | 'n' :: r => literal "ull" .null r
    | r => numberTail false r

def items (level : Nat) : Nat → List Char → List Json → Parse Json
  | 0, _, _ => none
  | n + 1, cs, acc =>
    match value level n cs with
    | none => none
    | some (j, r) =>
      match skipSpace r with
      | ',' :: r => items level n r (j :: acc)
      | ']' :: r =>
        some (if level ≤ nestingLimit then .arr (j :: acc).reverse else .unreadable, r)
      | _ => none

def members (level : Nat) : Nat → List Char → Option (List (String × Json)) → Parse Json
  | 0, _, _ => none
  | n + 1, cs, acc =>
    match skipSpace cs with
    | '"' :: r =>
      match stringTail r.length.succ r (some []) with
      | none => none
      | some (key, r) =>
        match skipSpace r with
        | ':' :: r =>
          match value level n r with
          | none => none
          | some (j, r) =>
            let acc := match acc, key with
              | some es, some k => some ((k, j) :: es)
              | _, _ => none
            match skipSpace r with
            | ',' :: r => members level n r acc
            | '}' :: r =>
              let whole := match acc with
                | some es => if level ≤ nestingLimit then .obj es.reverse else .unreadable
                | none => .unreadable
              some (whole, r)
            | _ => none
        | _ => none
    | _ => none
end

/-- The value of a text, if the text is well-formed. -/
def parse? (s : String) : Option Json :=
  let cs := s.toList
  match value 0 (cs.length + 1) cs with
  | some (j, r) => if (skipSpace r).isEmpty then some j else none
  | none => none

end SoliditySession.Json
