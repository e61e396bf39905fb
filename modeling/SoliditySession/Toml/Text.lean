import SoliditySession.Json.Parser
import SoliditySession.Toml
/- The words of TOML text: line ends and comments, strings, numbers, and moments. -/
namespace SoliditySession.Toml

abbrev Parse (α : Type) := Option (α × List Char)

def expect (c : Char) : List Char → Option (List Char)
  | d :: r => if d == c then some r else none
  | [] => none

/-- Characters that may stand in comments and strings as they are. -/
def isPlain (c : Char) : Bool := c == '\t' || (0x20 ≤ c.toNat && c.toNat != 0x7f)

def skipBlank (cs : List Char) : List Char := cs.dropWhile fun c => c == ' ' || c == '\t'

def newline? : List Char → Option (List Char)
  | '\n' :: r => some r
  | '\r' :: '\n' :: r => some r
  | _ => none

def skipComment : List Char → List Char
  | '#' :: r => r.dropWhile isPlain
  | r => r

/-- What follows the rest of a line that holds nothing more than a comment. -/
def lineEnd? (cs : List Char) : Option (List Char) :=
  match skipComment (skipBlank cs) with
  | [] => some []
  | r => newline? r

/-- Skips blanks and line ends. -/
def skipLines : List Char → List Char
  | ' ' :: r => skipLines r
  | '\t' :: r => skipLines r
  | '\n' :: r => skipLines r
  | '\r' :: '\n' :: r => skipLines r
  | r => r

def codePoint (length : Nat) (cs : List Char) : Parse Char :=
  match (cs.take length).mapM Json.hexValue with
  | none => none
  | some ds =>
    let n := ds.foldl (fun n d => n * 16 + d) 0
    if ds.length == length && n.isValidChar then some (.ofNat n, cs.drop length) else none

/-- What is behind the backslash of an escape. -/
def escape : List Char → Parse Char
  | 'b' :: r => some ('\x08', r)
  | 't' :: r => some ('\t', r)
  | 'n' :: r => some ('\n', r)
  | 'f' :: r => some ('\x0c', r)
  | 'r' :: r => some ('\r', r)
  | '"' :: r => some ('"', r)
  | '\\' :: r => some ('\\', r)
  | 'u' :: r => codePoint 4 r
  | 'U' :: r => codePoint 8 r
  | _ => none

/-- What encloses a string: one mark on either side, or three around several lines. -/
structure Quote where
  mark : Char
  long : Bool

namespace Quote

/-- What follows a backslash at the end of a line. -/
def joined? (q : Quote) (cs : List Char) : Option (List Char) :=
  if q.long then (newline? (skipBlank cs)).map skipLines else none

/-- Reads to the closing marks. Up to two marks more belong to the text of a long string. -/
def tail (q : Quote) : Nat → List Char → List Char → Parse String
  | 0, _, _ => none
  | _ + 1, [], _ => none
  | n + 1, c :: r, acc =>
    if c == q.mark then
      if q.long then
        let marks := (c :: r).takeWhile (· == q.mark)
        let r := r.dropWhile (· == q.mark)
        if marks.length < 3 then q.tail n r (marks ++ acc)
        else if marks.length ≤ 5 then some (.ofList (marks.drop 3 ++ acc).reverse, r)
        else none
      else some (.ofList acc.reverse, r)
    else if c == '\\' && q.mark == '"' then
      match q.joined? r, escape r with
      | some r, _ => q.tail n r acc
      | none, some (d, r) => q.tail n r (d :: acc)
      | none, none => none
    else if isPlain c then q.tail n r (c :: acc)
    else if q.long then
      match newline? (c :: r) with
      | some r => q.tail n r ('\n' :: acc)
      | none => none
    else none

def read (q : Quote) (cs : List Char) : Parse String := q.tail (cs.length + 1) cs []

end Quote

/-- A string on one line. -/
def shortString : List Char → Parse String
  | '"' :: r => Quote.read ⟨'"', false⟩ r
  | '\'' :: r => Quote.read ⟨'\'', false⟩ r
  | _ => none

def quoted : List Char → Parse String
  | '"' :: '"' :: '"' :: r => Quote.read ⟨'"', true⟩ ((newline? r).getD r)
  | '\'' :: '\'' :: '\'' :: r => Quote.read ⟨'\'', true⟩ ((newline? r).getD r)
  | cs => shortString cs

/-- Underscores stand alone between two digits. -/
def wellSpaced : List Char → Bool
  | [] => false
  | [c] => c != '_'
  | '_' :: _ => false
  | _ :: '_' :: r => wellSpaced r
  | _ :: r => wellSpaced r

/-- The digits of a numeral. -/
def numeral (isDigit : Char → Bool) (cs : List Char) : Parse (List Char) :=
  let here (c : Char) : Bool := isDigit c || c == '_'
  if wellSpaced (cs.takeWhile here) then some ((cs.takeWhile here).filter isDigit, cs.dropWhile here)
  else none

def integerOf (n : Int) : Option Toml :=
  if Json.isInt64 n then some (.integer n) else none

def basedInteger (base : Nat) (cs : List Char) : Parse Toml :=
  let value (c : Char) : Option Nat := (Json.hexValue c).filter (· < base)
  match numeral (fun c => (value c).isSome) cs with
  | none => none
  | some (ds, r) =>
    let n := (ds.filterMap value).foldl (fun n d => n * base + d) 0
    (integerOf n).map (·, r)

def sign : List Char → Bool × List Char
  | '-' :: r => (true, r)
  | '+' :: r => (false, r)
  | r => (false, r)

def fraction : List Char → Parse (Option (List Char))
  | '.' :: r => (numeral Char.isDigit r).map fun (ds, r) => (some ds, r)
  | r => some (none, r)

def exponent : List Char → Parse (Option Int)
  | c :: r =>
    if c == 'e' || c == 'E' then
      let (down, r) := sign r
      (numeral Char.isDigit r).map fun (ds, r) =>
        let n : Int := Json.digitsValue ds
        (some (if down then -n else n), r)
    else some (none, c :: r)
  | [] => some (none, [])

/-- Whether a number of this significand and power of ten rounds to one that is not finite. -/
def overflows (significand : Nat) (power : Int) : Bool :=
  if significand == 0 then false
  else if power < -(10 * significand.log2 + 10 : Nat) then false
  else if 400 < power then true
  else
    let limit := Nat.pow 2 1024 - Nat.pow 2 970
    if 0 ≤ power then limit ≤ significand * Nat.pow 10 power.toNat
    else limit * Nat.pow 10 (-power).toNat ≤ significand

def floatOf (negative : Bool) (whole ds : List Char) (power : Int) : Option Toml :=
  if !negative && overflows (Json.digitsValue (whole ++ ds)) (power - ds.length) then none
  else some .float

def decimal (cs : List Char) : Option (Toml × List Char) :=
  let (negative, r) := sign cs
  if ("inf".toList.isPrefixOf r || "nan".toList.isPrefixOf r) then some (.float, r.drop 3)
  else do
    let (whole, r) ← numeral Char.isDigit r
    if whole.head? == some '0' && 1 < whole.length then none
    else
      let (ds, r) ← fraction r
      let (power, r) ← exponent r
      let value ← if ds.isNone && power.isNone then
          let n : Int := Json.digitsValue whole
          integerOf (if negative then -n else n)
        else floatOf negative whole (ds.getD []) (power.getD 0)
      some (value, r)

def number : List Char → Parse Toml
  | '0' :: 'x' :: r => basedInteger 16 r
  | '0' :: 'o' :: r => basedInteger 8 r
  | '0' :: 'b' :: r => basedInteger 2 r
  | cs => decimal cs

def digits (length : Nat) (cs : List Char) : Parse Nat :=
  let ds := cs.take length
  if ds.length == length && ds.all Char.isDigit then some (Json.digitsValue ds, cs.drop length)
  else none

/-- Two digits of a number from `low` to `high`. -/
def pair (low high : Nat) (cs : List Char) : Parse Nat :=
  (digits 2 cs).filter fun (n, _) => low ≤ n && n ≤ high

def isLeap (year : Nat) : Bool := year % 4 == 0 && (year % 100 != 0 || year % 400 == 0)

def daysIn (year month : Nat) : Nat :=
  if month == 2 then (if isLeap year then 29 else 28)
  else if [4, 6, 9, 11].contains month then 30 else 31

def beginsDate (cs : List Char) : Bool :=
  match digits 4 cs with
  | some (_, '-' :: _) => true
  | _ => false

def beginsTime (cs : List Char) : Bool :=
  match pair 0 23 cs with
  | some (_, ':' :: _) => true
  | _ => false

/-- What follows a date. -/
def date? (cs : List Char) : Option (List Char) := do
  let (year, r) ← digits 4 cs
  let r ← expect '-' r
  let (month, r) ← pair 1 12 r
  let r ← expect '-' r
  let (_, r) ← pair 1 (daysIn year month) r
  some r

/-- What follows the parts of a second. -/
def skipParts : List Char → List Char
  | '.' :: c :: r => if c.isDigit then r.dropWhile Char.isDigit else '.' :: c :: r
  | r => r

/-- What follows a time of the day. -/
def time? (cs : List Char) : Option (List Char) := do
  let (_, r) ← pair 0 23 cs
  let r ← expect ':' r
  let (_, r) ← pair 0 59 r
  let r ← expect ':' r
  let (_, r) ← pair 0 60 r
  some (skipParts r)

/-- What follows the distance to universal time, which may be absent. -/
def offset? : List Char → Option (List Char)
  | [] => some []
  | c :: r =>
    if c == 'Z' || c == 'z' then some r
    else if c == '+' || c == '-' then do
      let (_, r) ← pair 0 23 r
      let r ← expect ':' r
      let (_, r) ← pair 0 59 r
      some r
    else some (c :: r)

/-- What follows a date and the time of that day, which may be absent. -/
def dateTime? (cs : List Char) : Option (List Char) := do
  match ← date? cs with
  | [] => some []
  | c :: r =>
    if (c == 'T' || c == 't' || c == ' ') && beginsTime r then offset? (← time? r)
    else some (c :: r)

def numberOrMoment (cs : List Char) : Parse Toml :=
  if beginsDate cs then (dateTime? cs).map (.moment, ·)
  else if beginsTime cs then (time? cs).map (.moment, ·)
  else number cs

end SoliditySession.Toml
