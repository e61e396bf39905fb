import SoliditySession.Text.Word
import SoliditySession.Text.Basic
/- Patterns over texts, tried in order: the first way of matching that lets the rest succeed wins. -/
namespace SoliditySession

/-- A place in a text with what lies behind it, nearest first, and the pieces marked so far,
latest first. -/
structure Place where
  behind : List Char
  ahead : List Char
  marks : List (String × List Char)

namespace Place

def start (cs : List Char) : Place := ⟨[], cs, []⟩

/-- The characters between `p` and a later place. -/
def upTo (p q : Place) : List Char :=
  (q.behind.take (q.behind.length - p.behind.length)).reverse

def mark? (p : Place) (name : String) : Option String := (p.marks.lookup name).map .ofList

/-- The places reached by zero, one, two … accepted characters. -/
def strides (accepts : Char → Bool) (p : Place) : List Place :=
  go p.behind p.ahead
where
  go (behind : List Char) : List Char → List Place
    | [] => [⟨behind, [], p.marks⟩]
    | c :: cs =>
      ⟨behind, c :: cs, p.marks⟩ :: if accepts c then go (c :: behind) cs else []

end Place

inductive Pattern
  | empty
  | char (accepts : Char → Bool)
  /-- As many accepted characters as possible, at least `least`. -/
  | many (least : Nat) (accepts : Char → Bool)
  /-- As few accepted characters as possible, at least `least`. -/
  | few (least : Nat) (accepts : Char → Bool)
  /-- Looks at the two neighbouring characters only. -/
  | edge (holds : Option Char → Option Char → Bool)
  | seq (first second : Pattern)
  | alt (first second : Pattern)
  /-- As often as possible. -/
  | star (body : Pattern)
  | mark (name : String) (body : Pattern)

namespace Pattern

/-- Applies `step` up to `n` times, each time getting ahead, and prefers more rounds to fewer. -/
def rounds {α : Type} (step : Place → (Place → Option α) → Option α) :
    Nat → Place → (Place → Option α) → Option α
  | 0, p, k => k p
  | n + 1, p, k =>
    (step p fun q => if q.ahead.length < p.ahead.length then rounds step n q k else none)
      <|> k p

/-- Offers the places where the pattern can end to `k`, in order, until one is taken. -/
def run {α : Type} : Pattern → Place → (Place → Option α) → Option α
  | .empty, p, k => k p
  | .char accepts, p, k =>
    match p.ahead with
    | [] => none
    | c :: cs => if accepts c then k ⟨c :: p.behind, cs, p.marks⟩ else none
  | .many least accepts, p, k => ((p.strides accepts).drop least).reverse.findSome? k
  | .few least accepts, p, k => ((p.strides accepts).drop least).findSome? k
  | .edge holds, p, k => if holds p.behind.head? p.ahead.head? then k p else none
  | .seq a b, p, k => a.run p fun q => b.run q k
  | .alt a b, p, k => a.run p k <|> b.run p k
  | .star a, p, k => rounds a.run p.ahead.length p k
  | .mark name a, p, k =>
    a.run p fun q => k ⟨q.behind, q.ahead, (name, p.upTo q) :: q.marks⟩

/-- Where the pattern ends when it starts at `p`. -/
def matchAt? (a : Pattern) (p : Place) : Option Place := a.run p some

def match? (a : Pattern) (s : String) : Option Place := a.matchAt? (.start s.toList)

def matches? (a : Pattern) (s : String) : Bool := (a.match? s).isSome

/-- The text matched at the start of `s`. -/
def taken? (a : Pattern) (s : String) : Option String :=
  (a.match? s).map fun q => .ofList q.behind.reverse

/-- The first place from which the pattern matches, and where that match ends. -/
def search (a : Pattern) (behind : List Char) : List Char → Option (Place × Place)
  | [] => (a.matchAt? ⟨behind, [], []⟩).map (⟨behind, [], []⟩, ·)
  | c :: cs =>
    match a.matchAt? ⟨behind, c :: cs, []⟩ with
    | some q => some (⟨behind, c :: cs, []⟩, q)
    | none => search a (c :: behind) cs

def find? (a : Pattern) (s : String) : Option (Place × Place) := a.search [] s.toList

/-- The matches from left to right, each sought after the one before it. -/
def allFrom (a : Pattern) (behind ahead : List Char) : List (Place × Place) :=
  match a.search behind ahead with
  | none => []
  | some (p, q) =>
    if _h : q.ahead.length < ahead.length then (p, q) :: allFrom a q.behind q.ahead else [(p, q)]
termination_by ahead.length

def all (a : Pattern) (s : String) : List (Place × Place) := a.allFrom [] s.toList

/-- Puts `new` in place of every match. -/
def replaceAll (a : Pattern) (new s : String) : String :=
  go [] s.toList (a.all s)
where
  go (done rest : List Char) : List (Place × Place) → String
    | [] => .ofList (done ++ rest)
    | (p, q) :: more =>
      go (done ++ rest.take (rest.length - p.ahead.length) ++ new.toList) q.ahead more

instance : Append Pattern := ⟨.seq⟩
instance : OrElse Pattern := ⟨fun a b => .alt a (b ())⟩

def never : Pattern := .char fun _ => false

def choice : List Pattern → Pattern
  | [] => never
  | [a] => a
  | a :: as => .alt a (choice as)

def exactly (c : Char) : Pattern := .char (· == c)

def word (s : String) : Pattern := (s.toList.map exactly).foldr .seq .empty

def words (l : List String) : Pattern := choice (l.map word)

def optional (a : Pattern) : Pattern := .alt a .empty

def oneOf (s : String) : Pattern := .char fun c => s.toList.contains c

def blanks : Pattern := .many 0 Text.isBlank

def blanks1 : Pattern := .many 1 Text.isBlank

def wordEdge : Pattern := .edge Text.wordEdge

def textEnd : Pattern := .edge fun _ after => after.isNone

def lineStart : Pattern := .edge fun before _ => before.all (· == '\n')

end Pattern
end SoliditySession
