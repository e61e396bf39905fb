/- The code of a source text: what stands outside string literals and line comments. -/
namespace SoliditySession.Solidity

inductive Zone
  | code
  | literal (quote : Char)
  /-- Behind a backslash in a literal. -/
  | escape (quote : Char)
  | comment
deriving DecidableEq

/-- The zone behind a character, given the character that follows it. A line break ends a literal or
comment. -/
def Zone.next : Zone → Char → Option Char → Zone
  | .code, c, following =>
    if c == '"' || c == '\'' then .literal c
    else if c == '/' && following == some '/' then .comment
    else .code
  | .literal q, c, _ =>
    if c == '\\' then .escape q
    else if c == '\n' || c == q then .code
    else .literal q
  | .escape q, _, _ => .literal q
  | .comment, c, _ => if c == '\n' then .code else .comment

/-- The characters of code, read from a zone on: those that lead from code to code. -/
def codeFrom : Zone → List Char → List Char
  | _, [] => []
  | z, c :: cs =>
    let rest := codeFrom (z.next c cs.head?) cs
    if z = .code ∧ z.next c cs.head? = .code then c :: rest else rest

/-- The zone at the end of a text. -/
def endZone : Zone → List Char → Zone
  | z, [] => z
  | z, c :: cs => endZone (z.next c cs.head?) cs

def code (text : String) : List Char := codeFrom .code text.toList

def isOpening (c : Char) : Bool := c == '(' || c == '[' || c == '{'

def isClosing (c : Char) : Bool := c == ')' || c == ']' || c == '}'

def isNesting (c : Char) : Bool := isOpening c || isClosing c

/-- The brackets of a text. -/
def bracketsOf (cs : List Char) : List Char := cs.filter isNesting

/-- Opening brackets less closing ones. -/
def depth (cs : List Char) : Int :=
  (cs.countP isOpening : Int) - cs.countP isClosing

/-- The counter never gets further from zero than there are brackets. -/
theorem natAbs_depth_le {before cs : List Char} (h : before <+: cs) :
    (depth before).natAbs ≤ (bracketsOf cs).length := by
  have hle : ∀ a : Char → Bool, (∀ c, a c = true → isNesting c = true) →
      before.countP a ≤ (bracketsOf cs).length := by
    intro a ha
    calc before.countP a ≤ cs.countP a := h.sublist.countP_le
      _ ≤ cs.countP isNesting := List.countP_mono_left fun c _ => ha c
      _ = (bracketsOf cs).length := List.countP_eq_length_filter
  have hopen := hle isOpening fun c hc => by rw [isNesting, hc, Bool.true_or]
  have hclose := hle isClosing fun c hc => by rw [isNesting, hc, Bool.or_true]
  rw [depth]
  omega

/-- Whether more brackets are opened than closed. The counter is a number of 32 bits, and wraps. -/
def needsMore (text : String) : Bool := 0 < Int32.ofInt (depth (code text))

/-- Fewer than 2 ^ 31 brackets are counted exactly. -/
theorem needsMore_iff {text : String} (hfew : (bracketsOf (code text)).length < Nat.pow 2 31) :
    needsMore text = true ↔ 0 < depth (code text) := by
  have hle := natAbs_depth_le (List.prefix_refl (code text))
  have hbound : Nat.pow 2 31 = 2147483648 := rfl
  have hcount : (Int32.ofInt (depth (code text))).toInt = depth (code text) :=
    Int32.toInt_ofInt_of_le (by omega) (by omega)
  rw [needsMore, decide_eq_true_iff, Int32.lt_iff_toInt_lt, hcount, Int32.toInt_zero]

/-- Brackets that close each other. -/
inductive Pairs : Char → Char → Prop
  | round : Pairs '(' ')'
  | square : Pairs '[' ']'
  | curly : Pairs '{' '}'

/-- Reading brackets turns the stack of open ones into another; other characters do not count. -/
inductive Nests : List Char → List Char → List Char → Prop
  | nil (stack : List Char) : Nests stack [] stack
  | opens {stack cs last : List Char} {c : Char} (h : isOpening c = true) :
      Nests (c :: stack) cs last → Nests stack (c :: cs) last
  | closes {stack cs last : List Char} {a b : Char} (h : Pairs a b) :
      Nests stack cs last → Nests (a :: stack) (b :: cs) last
  | passes {stack cs last : List Char} {c : Char} (h : isOpening c = false)
      (h' : isClosing c = false) : Nests stack cs last → Nests stack (c :: cs) last

end SoliditySession.Solidity
