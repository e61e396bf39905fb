import SoliditySession.Proofs.Relayout
import SoliditySession.Proofs.TypeName
/- Declarations as they are written, with the blanks between their words. What stands behind the
name of a type is cut into words, lists in parentheses and groups in brackets in one way only. -/
namespace SoliditySession.Solidity
open Text

/-- Letters, digits, `_` and `$`, and no digit first. -/
def isName : List Char → Bool
  | [] => false
  | c :: cs => isIdentStart c && cs.all isIdentChar

theorem isIdentChar_of_isName {w : List Char} (h : isName w = true) :
    ∀ c ∈ w, isIdentChar c = true := by
  cases w with
  | nil => cases h
  | cons c w =>
    obtain ⟨hc, hw⟩ := Bool.and_eq_true_iff.1 h
    exact List.forall_mem_cons.2 ⟨isIdentChar_of_isIdentStart hc, List.all_eq_true.1 hw⟩

theorem ne_nil_of_isName {w : List Char} (h : isName w = true) : w ≠ [] := by
  rintro rfl
  cases h

theorem Identifier.isName_chars (i : Identifier) : isName i.chars = true :=
  Bool.and_eq_true_iff.2 ⟨i.first_start, List.all_eq_true.2 i.rest_char⟩

/-- What may stand behind the name of a type. -/
inductive Token
  | word (gap text : List Char)
  | list (gap content : List Char)
  | group (content : List Char)
deriving DecidableEq

namespace Token

def chars : Token → List Char
  | word gap text => gap ++ text
  | list gap content => gap ++ '(' :: (content ++ [')'])
  | group content => '[' :: (content ++ [']'])

/-- Words stand behind blanks; lists and groups hold no parentheses or brackets of their own. -/
def Proper : Token → Prop
  | word gap text => Gap gap ∧ isName text = true
  | list gap content => Blank gap ∧ ∀ c ∈ content, isParen c = false
  | group content => ∀ c ∈ content, isBracket c = false

end Token

def written (ts : List Token) : List Char := ts.flatMap Token.chars

@[simp] theorem written_nil : written [] = [] := rfl

@[simp] theorem written_cons (t : Token) (ts : List Token) :
    written (t :: ts) = t.chars ++ written ts := rfl

@[simp] theorem written_append (ts us : List Token) :
    written (ts ++ us) = written ts ++ written us :=
  List.flatMap_append

/-- What stands behind the words of a declaration: its end, or an equals sign with more. -/
def Closing (cs : List Char) : Prop := cs = [';'] ∨ ∃ b v, Blank b ∧ cs = b ++ '=' :: v

/-- The characters of identifiers joined by points. -/
def isPathChar (c : Char) : Bool := isIdentChar c || c == '.'

theorem isIdentChar_of_isPathChar {c : Char} (h : isPathChar c = false) : isIdentChar c = false :=
  (Bool.or_eq_false_iff.1 h).1

theorem head?_gap_append {gap cs : List Char} (h : Gap gap) :
    ∀ c ∈ (gap ++ cs).head?, isBlank c = true := by
  obtain ⟨b, gap, rfl⟩ := List.exists_cons_of_ne_nil h.1
  intro c hc
  obtain rfl : b = c := Option.some.inj hc
  exact h.2 b List.mem_cons_self

/-- The token at the start of a text, with what follows it. -/
def next (cs : List Char) : Option (Token × List Char) :=
  let gap := cs.takeWhile isBlank
  match cs.dropWhile isBlank with
  | [] => none
  | c :: rest =>
    if c == '(' then
      some (.list gap (rest.takeWhile (!isParen ·)), (rest.dropWhile (!isParen ·)).tail)
    else if c == '[' then
      some (.group (rest.takeWhile (!isBracket ·)), (rest.dropWhile (!isBracket ·)).tail)
    else if isIdentStart c then
      some (.word gap ((c :: rest).takeWhile isIdentChar), (c :: rest).dropWhile isIdentChar)
    else none

theorem next_blank_append {gap : List Char} {c : Char} (rest : List Char) (hgap : Blank gap)
    (hc : isBlank c = false) : (gap ++ c :: rest).takeWhile isBlank = gap ∧
      (gap ++ c :: rest).dropWhile isBlank = c :: rest := by
  have hstop : ∀ x ∈ (c :: rest).head?, isBlank x = false := by
    rintro x ⟨⟩
    exact hc
  exact ⟨takeWhile_append_of_stop hgap hstop, dropWhile_append_of_stop hgap hstop⟩

theorem next_paren {gap : List Char} (hgap : Blank gap) (rest : List Char) :
    next (gap ++ '(' :: rest) = some (.list gap (rest.takeWhile (!isParen ·)),
      (rest.dropWhile (!isParen ·)).tail) := by
  obtain ⟨htake, hdrop⟩ := next_blank_append rest hgap (by decide : isBlank '(' = false)
  rw [next, htake, hdrop]
  rfl

theorem next_list {gap content : List Char} (hgap : Blank gap)
    (hcontent : ∀ c ∈ content, isParen c = false) (rest : List Char) :
    next ((Token.list gap content).chars ++ rest) = some (.list gap content, rest) := by
  have hflat : ∀ c ∈ content, (!isParen c) = true := fun c hc => by rw [hcontent c hc]; rfl
  have hstop : ∀ c ∈ (')' :: rest).head?, (!isParen c) = false := by
    rintro c ⟨⟩
    rfl
  rw [Token.chars, List.append_assoc, List.cons_append, List.append_assoc, List.singleton_append,
    next_paren hgap, takeWhile_append_of_stop hflat hstop, dropWhile_append_of_stop hflat hstop,
    List.tail_cons]

/-- Where a word starts behind blanks, all of it is the token. -/
theorem next_word {gap : List Char} {c : Char} (hgap : Blank gap) (hc : isIdentStart c = true)
    (rest : List Char) : next (gap ++ c :: rest) =
      some (.word gap ((c :: rest).takeWhile isIdentChar), (c :: rest).dropWhile isIdentChar) := by
  obtain ⟨htake, hdrop⟩ := next_blank_append rest hgap
    (isBlank_of_isIdentChar (isIdentChar_of_isIdentStart hc))
  have hlist : c ≠ '(' := by
    rintro rfl
    exact absurd hc (by decide)
  have hgroup : c ≠ '[' := by
    rintro rfl
    exact absurd hc (by decide)
  rw [next, htake, hdrop]
  simp only [beq_iff_eq, hlist, hgroup, hc, if_false, if_true]

/-- A token is read back where nothing carries it on. -/
theorem next_chars {t : Token} (ht : t.Proper) {rest : List Char}
    (hrest : ∀ c ∈ rest.head?, isIdentChar c = false) :
    next (t.chars ++ rest) = some (t, rest) := by
  cases t with
  | word gap text =>
    obtain ⟨hgap, hname⟩ := ht
    obtain ⟨c, text, rfl⟩ := List.exists_cons_of_ne_nil (ne_nil_of_isName hname)
    have hstart : isIdentStart c = true := (Bool.and_eq_true_iff.1 hname).1
    have hname := isIdentChar_of_isName hname
    rw [Token.chars, List.append_assoc, List.cons_append, next_word hgap.2 hstart,
      ← List.cons_append, takeWhile_append_of_stop hname hrest,
      dropWhile_append_of_stop hname hrest]
  | list gap content => exact next_list ht.1 ht.2 rest
  | group content =>
    obtain ⟨htake, hdrop⟩ := next_blank_append (content ++ ']' :: rest) blank_nil
      (by decide : isBlank '[' = false)
    have hflat : ∀ c ∈ content, (!isBracket c) = true := fun c hc => by rw [ht c hc]; rfl
    have hstop : ∀ c ∈ (']' :: rest).head?, (!isBracket c) = false := by
      rintro c ⟨⟩
      rfl
    have hlist : ('[' == '(') = false := rfl
    rw [List.nil_append] at htake hdrop
    rw [Token.chars, List.cons_append, List.append_assoc, List.singleton_append, next, htake, hdrop]
    simp only [hlist, beq_self_eq_true, if_true, takeWhile_append_of_stop hflat hstop,
      dropWhile_append_of_stop hflat hstop, List.tail_cons, Bool.false_eq_true, if_false]

theorem next_closing {v : List Char} (h : Closing v) : next v = none := by
  rcases h with rfl | ⟨b, w, hb, rfl⟩
  · rfl
  · obtain ⟨htake, hdrop⟩ := next_blank_append w hb (by decide : isBlank '=' = false)
    rw [next, hdrop]
    rfl

theorem isPathChar_of_isBlank {c : Char} (h : isBlank c = true) : isPathChar c = false := by
  rw [isPathChar, Bool.or_eq_false_iff, beq_eq_false_iff_ne]
  constructor
  · by_contra hident
    rw [isBlank_of_isIdentChar (by simpa using hident)] at h
    cases h
  · rintro rfl
    exact absurd h (by decide)

theorem head?_blank_append {b cs : List Char} {d : Char} (hb : Blank b)
    (hd : isPathChar d = false) : ∀ c ∈ (b ++ d :: cs).head?, isPathChar c = false := by
  cases b with
  | nil =>
    rintro c ⟨⟩
    exact hd
  | cons a b =>
    rintro c ⟨⟩
    exact isPathChar_of_isBlank (hb a List.mem_cons_self)

/-- A token begins with a blank or with its bracket. -/
theorem Token.head?_opens {t : Token} (ht : t.Proper) (rest : List Char) :
    ∀ c ∈ (t.chars ++ rest).head?, isBlank c = true ∨ c ∈ ['(', '['] := by
  cases t with
  | word gap text =>
    rw [chars, List.append_assoc]
    exact fun c hc => .inl (head?_gap_append ht.1 c hc)
  | list gap content =>
    rw [chars, List.append_assoc]
    cases gap with
    | nil =>
      rintro c ⟨⟩
      exact .inr (by decide)
    | cons b gap =>
      rintro c ⟨⟩
      exact .inl (ht.1 b List.mem_cons_self)
  | group content =>
    rintro c ⟨⟩
    exact .inr (by decide)

/-- No token carries on a name in front of it. -/
theorem Token.head?_chars {t : Token} (ht : t.Proper) (rest : List Char) :
    ∀ c ∈ (t.chars ++ rest).head?, isPathChar c = false := by
  have hall : ∀ c ∈ ['(', '['], isPathChar c = false := by decide
  exact fun c hc => (t.head?_opens ht rest c hc).elim isPathChar_of_isBlank (hall c)

theorem Closing.head? {v : List Char} (h : Closing v) : ∀ c ∈ v.head?, isPathChar c = false := by
  rcases h with rfl | ⟨b, w, hb, rfl⟩
  · rintro c ⟨⟩
    decide
  · exact head?_blank_append hb (by decide)

theorem head?_written {ts : List Token} {v : List Char} (hts : ∀ t ∈ ts, t.Proper)
    (hv : ∀ c ∈ v.head?, isPathChar c = false) :
    ∀ c ∈ (written ts ++ v).head?, isPathChar c = false := by
  cases ts with
  | nil => exact hv
  | cons t ts =>
    rw [written_cons, List.append_assoc]
    exact t.head?_chars (hts t List.mem_cons_self) _

/-- No piece stands at the beginning, and nothing there carries on a word in front. -/
structure Inert (cs : List Char) : Prop where
  next : next cs = none
  head : ∀ c ∈ cs.head?, isIdentChar c = false

theorem Closing.inert {v : List Char} (h : Closing v) : Inert v :=
  ⟨next_closing h, fun c hc => isIdentChar_of_isPathChar (h.head? c hc)⟩

theorem isIdentChar_head?_written {ts : List Token} {v : List Char} (hts : ∀ t ∈ ts, t.Proper)
    (hv : Inert v) : ∀ c ∈ (written ts ++ v).head?, isIdentChar c = false := by
  cases ts with
  | nil => exact hv.head
  | cons t ts =>
    rw [written_cons, List.append_assoc]
    exact fun c hc => isIdentChar_of_isPathChar (t.head?_chars (hts t List.mem_cons_self) _ c hc)

theorem next_written {t : Token} {ts : List Token} {v : List Char}
    (hts : ∀ u ∈ t :: ts, u.Proper) (hv : Inert v) :
    next (written (t :: ts) ++ v) = some (t, written ts ++ v) := by
  rw [List.forall_mem_cons] at hts
  rw [written_cons, List.append_assoc]
  exact next_chars hts.1 (isIdentChar_head?_written hts.2 hv)

/-- The pieces of a text are found again. -/
theorem written_inj_of_inert {ts us : List Token} {v w : List Char} (hts : ∀ t ∈ ts, t.Proper)
    (hus : ∀ u ∈ us, u.Proper) (hv : Inert v) (hw : Inert w)
    (h : written ts ++ v = written us ++ w) : ts = us ∧ v = w := by
  induction ts generalizing us with
  | nil =>
    cases us with
    | nil => exact ⟨rfl, h⟩
    | cons u us =>
      have hnone := hv.next
      rw [written_nil, List.nil_append] at h
      rw [h, next_written hus hw] at hnone
      cases hnone
  | cons t ts ih =>
    cases us with
    | nil =>
      have hnone := hw.next
      rw [written_nil, List.nil_append] at h
      rw [← h, next_written hts hv] at hnone
      cases hnone
    | cons u us =>
      have hsome := next_written hts hv
      rw [h, next_written hus hw] at hsome
      obtain ⟨rfl, hrest⟩ := Prod.mk.inj (Option.some.inj hsome)
      rw [List.forall_mem_cons] at hts hus
      obtain ⟨rfl, rfl⟩ := ih hts.2 hus.2 hrest.symm
      exact ⟨rfl, rfl⟩

/-- The pieces behind the name of a type are found again. -/
theorem written_inj {ts us : List Token} {v w : List Char} (hts : ∀ t ∈ ts, t.Proper)
    (hus : ∀ u ∈ us, u.Proper) (hv : Closing v) (hw : Closing w)
    (h : written ts ++ v = written us ++ w) : ts = us ∧ v = w :=
  written_inj_of_inert hts hus hv.inert hw.inert h

/-- Words that begin statements of other kinds. -/
def openingWords : List String :=
  statementKeywords ++ ["abstract", "contract", "enum", "interface", "library", "struct", "type"]

/-- Words that begin a statement or a compound type, and hence no type of their own. -/
def reservedWords : List String := openingWords ++ ["function", "mapping"]

/-- What a function type may say of itself. -/
def attributeWords : List String :=
  ["public", "private", "internal", "external", "pure", "view", "payable"]

def modifierWords : List String := ["public", "private", "internal", "immutable", "override"]

/-- A word of a list, behind blanks. -/
structure Word (l : List String) where
  gap : List Char
  text : String
  isGap : Gap gap
  listed : text ∈ l

/-- Text in parentheses, behind blanks or none. -/
structure Parameters where
  gap : List Char
  content : List Char
  isBlank : Blank gap
  flat : ∀ c ∈ content, isParen c = false

/-- Text in brackets: an array dimension, whatever its length is. -/
structure Brackets where
  content : List Char
  flat : ∀ c ∈ content, isBracket c = false

def Word.token {l : List String} (w : Word l) : Token := .word w.gap w.text.toList

def Parameters.token (p : Parameters) : Token := .list p.gap p.content

def Brackets.token (b : Brackets) : Token := .group b.content

/-- What a function type says of its results. -/
structure Results where
  gap : List Char
  isGap : Gap gap
  parameters : Parameters

def Results.tokens (r : Results) : List Token :=
  [.word r.gap "returns".toList, r.parameters.token]

/-- A type that is given by its name. -/
inductive NamedType
  | elementary (name : String) (builtIn : Elementary name)
  | path (path : Path) (words : ∀ c ∈ path.chars, Text.isAsciiWord c = true ∨ c = '.')
      (notReserved : String.ofList path.first.chars ∉ reservedWords)

def NamedType.chars : NamedType → List Char
  | elementary name _ => name.toList
  | path p _ _ => p.chars

def isLabelChar (c : Char) : Bool := isIdentChar c || isBlank c

/-- Blanks, with or without a name among them. -/
def Label (cs : List Char) : Prop := ∀ c ∈ cs, isLabelChar c = true

instance (cs : List Char) : Decidable (Label cs) :=
  List.decidableBAll (fun c => isLabelChar c = true) cs

/-- The key of a mapping, up to its value. -/
structure Key where
  before : List Char
  type : NamedType
  label : List Char
  behind : List Char
  isBlank : Blank before ∧ Blank behind
  isLabel : Label label

def Key.chars (k : Key) : List Char :=
  k.before ++ (k.type.chars ++ (k.label ++ ("=>".toList ++ k.behind)))

/-- A type as it is written: a name, a function type or a mapping, with the array dimensions
behind it. -/
inductive WrittenType
  | named (type : NamedType) (dimensions : List Brackets)
  | function (parameters : Parameters) (attributes : List (Word attributeWords))
      (results : Option Results) (dimensions : List Brackets)
  | mapping (gap : List Char) (key : Key) (value : WrittenType) (label : List Char)
      (isBlank : Blank gap) (isLabel : Label label) (dimensions : List Brackets)

namespace WrittenType

def dimensions : WrittenType → List Brackets
  | named _ dimensions | function _ _ _ dimensions | mapping _ _ _ _ _ _ dimensions => dimensions

/-- What a function type says behind its first word. -/
def functionTokens (parameters : Parameters) (attributes : List (Word attributeWords))
    (results : Option Results) : List Token :=
  parameters.token :: (attributes.map Word.token ++ (results.map Results.tokens).getD [])

/-- The name of the type, or the word that it begins with. -/
def opening : WrittenType → List Char
  | named type _ => type.chars
  | function .. => "function".toList
  | mapping .. => "mapping".toList

/-- What stands between the opening and the dimensions. -/
def inside : WrittenType → List Char
  | named .. => []
  | function parameters attributes results _ =>
    written (functionTokens parameters attributes results)
  | mapping gap key value label _ _ _ =>
    gap ++ '(' :: (key.chars ++ (value.opening ++ (value.inside ++
      (written (value.dimensions.map Brackets.token) ++ (label ++ [')'])))))

def chars (t : WrittenType) : List Char :=
  t.opening ++ (t.inside ++ written (t.dimensions.map Brackets.token))

/-- The dimensions anywhere in the type. -/
def brackets : WrittenType → List Brackets
  | named _ dimensions | function _ _ _ dimensions => dimensions
  | mapping _ _ value _ _ _ dimensions => value.brackets ++ dimensions

def isMapping : WrittenType → Bool
  | mapping .. => true
  | _ => false

def isFunction : WrittenType → Bool
  | function .. => true
  | _ => false

end WrittenType

/-- What a variable is given: an equals sign, behind blanks or none, and a text. -/
structure Initialiser where
  gap : List Char
  text : List Char
  isBlank : Blank gap
  solid : ∃ c ∈ text, Text.isBlank c = false

def Initialiser.chars (i : Initialiser) : List Char := i.gap ++ '=' :: i.text

/-- A declaration as it is written. Function types take no modifiers, and data locations none
either; a mapping is given no value. -/
structure Declaration where
  type : WrittenType
  location : Option (Word locations)
  modifiers : List (Word modifierWords)
  gap : List Char
  name : Identifier
  initialiser : Option Initialiser
  isGap : Gap gap
  notKeyword : isStatementKeyword (.ofList name.chars) = false
  modified : modifiers = [] ∨ location = none ∧ type.isFunction = false
  given : initialiser = none ∨ type.isMapping = false

namespace Declaration
variable (d : Declaration)

/-- The type with its data location. -/
def typeChars : List Char := d.type.chars ++ written (d.location.toList.map Word.token)

def closing : List Char := (d.initialiser.map Initialiser.chars).getD [] ++ [';']

/-- What stands behind the type. -/
def behind : List Char :=
  written (d.modifiers.map Word.token ++ [.word d.gap d.name.chars]) ++ d.closing

def chars : List Char := d.typeChars ++ d.behind

end Declaration

/-- The text goes on with blanks, a name, perhaps more words, and an equals sign. -/
def Assigns (cs : List Char) : Prop :=
  ∃ gap c more v, cs = gap ++ c :: (more ++ '=' :: v) ∧ Gap gap ∧ isIdentStart c = true ∧ Label more

/-- What stands in the brackets goes on, behind a closing parenthesis, as a declaration could. -/
def Brackets.Hides (b : Brackets) : Prop :=
  ∃ before after, b.content = before ++ ')' :: after ∧ Assigns after

/-- Behind words the text goes on with something other than an equals sign. -/
def Stops (cs : List Char) : Prop :=
  ∃ w c v, cs = w ++ c :: v ∧ Label w ∧ isLabelChar c = false ∧ c ≠ '='

theorem Label.append {v w : List Char} (hv : Label v) (hw : Label w) : Label (v ++ w) :=
  List.forall_mem_append.2 ⟨hv, hw⟩

theorem Label.of_blank {v : List Char} (h : Blank v) : Label v := fun c hc => by
  rw [isLabelChar, h c hc, Bool.or_true]

theorem Label.of_ident {v : List Char} (h : ∀ c ∈ v, isIdentChar c = true) : Label v :=
  fun c hc => by rw [isLabelChar, h c hc, Bool.true_or]

namespace Stops
variable {cs : List Char}

theorem not_assigns (h : Stops cs) : ¬ Assigns cs := by
  rintro ⟨gap, a, more, u, heq, hgap, ha, hmore⟩
  obtain ⟨w, c, v, rfl, hw, hc, hne⟩ := h
  have hfront : Label (gap ++ a :: more) := by
    have ha : isIdentChar a = true := isIdentChar_of_isIdentStart ha
    exact (Label.of_blank hgap.2).append
      (Label.append (v := [a]) (.of_ident (by simpa using ha)) hmore)
  have hcut : w ++ c :: v = gap ++ a :: more ++ '=' :: u := by rw [heq]; simp
  have hstop : ∀ x ∈ (c :: v).head?, isLabelChar x = false := by
    rintro x ⟨⟩
    exact hc
  have hequals : ∀ x ∈ ('=' :: u).head?, isLabelChar x = false := by
    rintro x ⟨⟩
    decide
  obtain ⟨-, hcons⟩ := append_inj_of_stop hw hfront hstop hequals hcut
  exact hne (List.cons.inj hcons).1

theorem append_label {w : List Char} (hw : Label w) (h : Stops cs) : Stops (w ++ cs) := by
  obtain ⟨v, c, u, rfl, hv, hc, hne⟩ := h
  exact ⟨w ++ v, c, u, (List.append_assoc _ _ _).symm, hw.append hv, hc, hne⟩

theorem cons {c : Char} (hc : isLabelChar c = false) (hne : c ≠ '=') : Stops (c :: cs) :=
  ⟨[], c, cs, rfl, nofun, hc, hne⟩

theorem append_token {t : Token} (ht : t.Proper) (h : Stops cs) : Stops (t.chars ++ cs) := by
  cases t with
  | word gap text =>
    exact h.append_label ((Label.of_blank ht.1.2).append (.of_ident (isIdentChar_of_isName ht.2)))
  | list gap content =>
    rw [Token.chars, List.append_assoc]
    exact append_label (.of_blank ht.1) (.cons (by decide) (by decide))
  | group content => exact .cons (by decide) (by decide)

theorem append_written {ts : List Token} (hts : ∀ t ∈ ts, t.Proper) (h : Stops cs) :
    Stops (written ts ++ cs) := by
  induction ts with
  | nil => exact h
  | cons t ts ih =>
    rw [List.forall_mem_cons] at hts
    rw [written_cons, List.append_assoc]
    exact (ih hts.2).append_token hts.1

end Stops

theorem group_append_inj {v w r s : List Char} (hv : ∀ c ∈ v, isBracket c = false)
    (hw : ∀ c ∈ w, isBracket c = false)
    (h : (Token.group v).chars ++ r = (Token.group w).chars ++ s) : v = w ∧ r = s := by
  simp only [Token.chars, List.cons_append, List.append_assoc, List.nil_append] at h
  have hstop : ∀ {t : List Char}, ∀ c ∈ (']' :: t).head?, (!isBracket c) = false := by
    rintro t c ⟨⟩
    rfl
  have hnot : ∀ {u : List Char}, (∀ c ∈ u, isBracket c = false) → ∀ c ∈ u, (!isBracket c) = true :=
    fun hu c hc => by rw [hu c hc, Bool.not_false]
  obtain ⟨hvw, hcons⟩ := append_inj_of_stop (hnot hv) (hnot hw) hstop hstop (List.cons.inj h).2
  exact ⟨hvw, (List.cons.inj hcons).2⟩

/-- Behind any dimensions at its start, the text assigns nothing. -/
def NeverAssigns (cs : List Char) : Prop :=
  ∀ (ds : List Brackets) z, cs = written (ds.map Brackets.token) ++ z → ¬ Assigns z

theorem neverAssigns_of_head {cs : List Char} (hhead : cs.head? ≠ some '[') (h : ¬ Assigns cs) :
    NeverAssigns cs := by
  intro ds z hz
  cases ds with
  | nil =>
    obtain rfl : cs = z := hz
    exact h
  | cons d ds =>
    rw [hz] at hhead
    exact absurd rfl hhead

theorem neverAssigns_written {ts : List Token} {rest : List Char} (hts : ∀ t ∈ ts, t.Proper)
    (hrest : Stops rest) (hhead : rest.head? ≠ some '[') : NeverAssigns (written ts ++ rest) := by
  induction ts with
  | nil => exact neverAssigns_of_head hhead hrest.not_assigns
  | cons t ts ih =>
    have hstops : Stops (written (t :: ts) ++ rest) := hrest.append_written hts
    rw [List.forall_mem_cons] at hts
    cases t with
    | word gap text =>
      refine neverAssigns_of_head ?_ hstops.not_assigns
      obtain ⟨b, gap, rfl⟩ := List.exists_cons_of_ne_nil hts.1.1.1
      have hb := hts.1.1.2 b List.mem_cons_self
      intro h
      obtain rfl : b = '[' := Option.some.inj h
      exact absurd hb (by decide)
    | list gap content =>
      refine neverAssigns_of_head ?_ hstops.not_assigns
      intro h
      cases gap with
      | nil => cases h
      | cons b gap =>
        obtain rfl : b = '[' := Option.some.inj h
        exact absurd (hts.1.1 _ List.mem_cons_self) (by decide)
    | group content =>
      intro ds z hz
      cases ds with
      | nil =>
        obtain rfl : _ = z := hz
        exact hstops.not_assigns
      | cons d ds =>
        rw [List.map_cons, written_cons, written_cons, List.append_assoc, List.append_assoc] at hz
        exact ih hts.2 ds z (group_append_inj hts.1 d.flat hz).2

/-- What follows a closing parenthesis in brackets. -/
theorem neverAssigns_inside {d : Brackets} (hd : ¬ d.Hides) {before after : List Char}
    (h : d.content = before ++ ')' :: after) (rest : List Char) :
    NeverAssigns (after ++ ']' :: rest) := by
  have hafter : ¬ Assigns after := fun hassigns => hd ⟨before, after, h, hassigns⟩
  have hflat : ∀ c ∈ after, isBracket c = false := fun c hc =>
    d.flat c (by rw [h]; exact List.mem_append_right _ (List.mem_cons_of_mem _ hc))
  refine neverAssigns_of_head ?_ ?_
  · intro hhead
    cases after with
    | nil => exact absurd (Option.some.inj hhead) (by decide)
    | cons a after =>
      obtain rfl : a = '[' := Option.some.inj hhead
      exact absurd (hflat '[' List.mem_cons_self) (by decide)
  · rintro ⟨gap, c, more, v, heq, hgap, hc, hmore⟩
    have hcut : after ++ ']' :: rest = (gap ++ c :: (more ++ ['='])) ++ v := by rw [heq]; simp
    rcases List.append_eq_append_iff.1 hcut with ⟨w, hw, hrest⟩ | ⟨w, rfl, -⟩
    · -- the equals sign would stand behind the bracket, which is part of no word
      cases w with
      | nil =>
        rw [List.append_nil] at hw
        exact hafter ⟨gap, c, more, [], hw.symm, hgap, hc, hmore⟩
      | cons a w =>
        obtain rfl : ']' = a := (List.cons.inj hrest).1
        have hmem : ']' ∈ gap ++ c :: (more ++ ['=']) := by rw [hw]; simp
        simp only [List.mem_append, List.mem_cons, List.not_mem_nil, or_false] at hmem
        rcases hmem with hmem | rfl | hmem | hmem
        · exact absurd (hgap.2 _ hmem) (by decide)
        · exact absurd hc (by decide)
        · exact absurd (hmore _ hmem) (by decide)
        · exact absurd hmem (by decide)
    · exact hafter ⟨gap, c, more, w, by simp, hgap, hc, hmore⟩

/-- Wherever a closing parenthesis stands in the text, nothing is assigned behind it and the
dimensions that follow it. -/
def ClosingsNeverAssign (cs rest : List Char) : Prop :=
  ∀ u v, cs = u ++ ')' :: v → NeverAssigns (v ++ rest)

namespace ClosingsNeverAssign
variable {cs ds rest : List Char}

theorem of_not_mem (h : ')' ∉ cs) : ClosingsNeverAssign cs rest := by
  rintro u v rfl
  exact absurd (List.mem_append_right u List.mem_cons_self) h

theorem append (h : ClosingsNeverAssign cs (ds ++ rest)) (h' : ClosingsNeverAssign ds rest) :
    ClosingsNeverAssign (cs ++ ds) rest := by
  intro u v heq
  rcases List.append_eq_append_iff.1 heq with ⟨w, -, hds⟩ | ⟨w, hcs, hv⟩
  · exact h' w v hds
  · cases w with
    | nil => exact h' [] v hv.symm
    | cons a w =>
      obtain ⟨rfl, rfl⟩ := List.cons.inj hv
      have hnever := h u w hcs
      rwa [← List.append_assoc] at hnever

theorem close (h : NeverAssigns rest) : ClosingsNeverAssign [')'] rest := by
  intro u v heq
  cases u with
  | nil =>
    obtain ⟨-, rfl⟩ := List.cons.inj heq
    exact h
  | cons a u => simp at heq

theorem token {t : Token} (ht : t.Proper) (hd : ∀ d : Brackets, d.token = t → ¬ d.Hides)
    (h : NeverAssigns rest) : ClosingsNeverAssign t.chars rest := by
  cases t with
  | word gap text =>
    refine of_not_mem fun hmem => ?_
    rcases List.mem_append.1 hmem with hmem | hmem
    · exact absurd (ht.1.2 _ hmem) (by decide)
    · exact absurd (isIdentChar_of_isName ht.2 _ hmem) (by decide)
  | list gap content =>
    have hchars : (Token.list gap content).chars = (gap ++ '(' :: content) ++ [')'] := by
      simp [Token.chars]
    rw [hchars]
    refine append (of_not_mem fun hmem => ?_) (close h)
    rcases List.mem_append.1 hmem with hmem | hmem
    · exact absurd (ht.1 _ hmem) (by decide)
    · rcases List.mem_cons.1 hmem with hmem | hmem
      · exact absurd hmem (by decide)
      · exact absurd (ht.2 _ hmem) (by decide)
  | group content =>
    have hchars : (Token.group content).chars = ['['] ++ (content ++ [']']) := rfl
    rw [hchars]
    refine append (of_not_mem (by decide)) ?_
    intro u v heq
    rcases List.append_eq_append_iff.1 heq with ⟨w, -, hw⟩ | ⟨w, hcontent, hv⟩
    · cases w with
      | nil => exact absurd (List.cons.inj hw).1 (by decide)
      | cons a w => simp at hw
    · cases w with
      | nil => exact absurd (List.cons.inj hv).1 (by decide)
      | cons a w =>
        obtain ⟨rfl, rfl⟩ := List.cons.inj hv
        have hnever := neverAssigns_inside (d := ⟨content, ht⟩) (hd _ rfl) hcontent rest
        rwa [← List.singleton_append, ← List.append_assoc] at hnever

theorem written {ts : List Token} (hts : ∀ t ∈ ts, t.Proper)
    (hd : ∀ d : Brackets, d.token ∈ ts → ¬ d.Hides) (hrest : Stops rest)
    (hhead : rest.head? ≠ some '[') : ClosingsNeverAssign (written ts) rest := by
  induction ts with
  | nil => exact of_not_mem List.not_mem_nil
  | cons t ts ih =>
    rw [List.forall_mem_cons] at hts
    refine append (token hts.1 ?_ (neverAssigns_written hts.2 hrest hhead)) (ih hts.2 ?_)
    · rintro d rfl
      exact hd d List.mem_cons_self
    · exact fun d hmem => hd d (List.mem_cons_of_mem t hmem)

end ClosingsNeverAssign

theorem Word.proper {l : List String} (hl : ∀ s ∈ l, isName s.toList = true) (w : Word l) :
    w.token.Proper :=
  ⟨w.isGap, hl _ w.listed⟩

theorem Parameters.proper (p : Parameters) : p.token.Proper := ⟨p.isBlank, p.flat⟩

theorem Brackets.proper (d : Brackets) : d.token.Proper := d.flat

theorem Results.proper (r : Results) : ∀ t ∈ r.tokens, t.Proper := by
  rw [Results.tokens, List.forall_mem_cons, List.forall_mem_singleton]
  exact ⟨⟨r.isGap, by decide⟩, r.parameters.proper⟩

theorem NamedType.not_mem_chars (n : NamedType) {c : Char} (hc : Text.isAsciiWord c = false)
    (hblank : c ≠ ' ') (hpoint : c ≠ '.') : c ∉ n.chars := by
  intro hmem
  cases n with
  | elementary name builtIn =>
    rcases builtIn.chars with rfl | ⟨-, hchars⟩
    · have hall : ∀ d ∈ "address payable".toList, d = ' ' ∨ Text.isAsciiWord d = true := by decide
      rcases hall c hmem with rfl | h
      · exact hblank rfl
      · rw [hc] at h
        cases h
    · have h := hchars c hmem
      rw [hc] at h
      cases h
  | path p words notReserved =>
    rcases words c hmem with h | h
    · rw [hc] at h
      cases h
    · exact hpoint h

theorem Key.not_mem_chars (k : Key) : ')' ∉ k.chars := by
  simp only [Key.chars, List.mem_append, not_or]
  refine ⟨fun h => ?_, k.type.not_mem_chars (by decide) (by decide) (by decide), fun h => ?_,
    by decide, fun h => ?_⟩
  · exact absurd (k.isBlank.1 _ h) (by decide)
  · exact absurd (k.isLabel _ h) (by decide)
  · exact absurd (k.isBlank.2 _ h) (by decide)

namespace WrittenType

theorem proper_functionTokens (parameters : Parameters) (attributes : List (Word attributeWords))
    (results : Option Results) :
    ∀ t ∈ functionTokens parameters attributes results, t.Proper := by
  rw [functionTokens, List.forall_mem_cons, List.forall_mem_append, List.forall_mem_map]
  refine ⟨parameters.proper, fun w _ => w.proper (by decide), ?_⟩
  cases results with
  | none => exact nofun
  | some r => exact r.proper

theorem group_not_mem_functionTokens (parameters : Parameters)
    (attributes : List (Word attributeWords)) (results : Option Results) (content : List Char) :
    Token.group content ∉ functionTokens parameters attributes results := by
  simp only [functionTokens, List.mem_cons, List.mem_append, List.mem_map, not_or, not_exists]
  refine ⟨nofun, nofun, ?_⟩
  cases results with
  | none => exact nofun
  | some r => simp [Results.tokens, Parameters.token]

theorem proper_dimensions (ds : List Brackets) : ∀ t ∈ ds.map Brackets.token, t.Proper :=
  List.forall_mem_map.2 fun d _ => d.proper

theorem chars_function (ps : Parameters) (ws : List (Word attributeWords)) (rs : Option Results)
    (ds : List Brackets) : (function ps ws rs ds).chars =
      "function".toList ++ written (functionTokens ps ws rs ++ ds.map Brackets.token) := by
  rw [written_append]
  rfl

theorem chars_mapping (gap : List Char) (key : Key) (value : WrittenType) (label : List Char)
    (isBlank : Blank gap) (isLabel : Label label) (ds : List Brackets) :
    (mapping gap key value label isBlank isLabel ds).chars =
      ("mapping".toList ++ (gap ++ '(' :: key.chars)) ++ (value.chars ++ (label ++ ([')'] ++
        written (ds.map Brackets.token)))) := by
  change "mapping".toList ++ ((gap ++ '(' :: (key.chars ++ (value.opening ++ (value.inside ++
    (written (value.dimensions.map Brackets.token) ++ (label ++ [')']))))) ++
      written (ds.map Brackets.token))) = _
  simp only [chars, List.append_assoc, List.cons_append, List.nil_append]

/-- Where no bracket group hides an assignment, none is behind a parenthesis of the type. -/
theorem closingsNeverAssign (t : WrittenType) {rest : List Char} (ht : ∀ d ∈ t.brackets, ¬ d.Hides)
    (hrest : Stops rest) (hhead : rest.head? ≠ some '[') : ClosingsNeverAssign t.chars rest := by
  have hmem : ∀ {ds : List Brackets}, (∀ d ∈ ds, ¬ d.Hides) → ∀ d : Brackets,
      d.token ∈ ds.map Brackets.token → ¬ d.Hides := by
    intro ds hds d hmem hhides
    obtain ⟨d', hd', heq⟩ := List.mem_map.1 hmem
    have hcontent : d'.content = d.content := Token.group.inj heq
    refine hds d' hd' ?_
    rwa [Brackets.Hides, hcontent]
  induction t generalizing rest with
  | named type ds =>
    refine .append (.of_not_mem (type.not_mem_chars (by decide) (by decide) (by decide))) ?_
    exact .written (proper_dimensions ds) (hmem ht) hrest hhead
  | function ps ws rs ds =>
    rw [chars_function]
    refine .append (.of_not_mem (by decide)) ?_
    refine .written (List.forall_mem_append.2 ⟨proper_functionTokens ps ws rs,
      proper_dimensions ds⟩) (fun d h => ?_) hrest hhead
    rcases List.mem_append.1 h with h | h
    · exact absurd h (group_not_mem_functionTokens ps ws rs d.content)
    · exact hmem ht d h
  | mapping gap key value label isBlank isLabel ds ih =>
    rw [brackets, List.forall_mem_append] at ht
    have hclose : ∀ cs : List Char, Stops (label ++ ([')'] ++ cs)) := fun cs =>
      (Stops.cons (c := ')') (by decide) (by decide)).append_label isLabel
    rw [chars_mapping]
    refine .append (.of_not_mem ?_) (.append (ih ht.1 ?_ ?_) (.append (.of_not_mem ?_)
      (.append (.close ?_) (.written (proper_dimensions ds) (hmem ht.2) hrest hhead))))
    · simp only [List.mem_append, List.mem_cons, not_or]
      exact ⟨by decide, fun h => absurd (isBlank _ h) (by decide), by decide, key.not_mem_chars⟩
    · rw [List.append_assoc, List.append_assoc]
      exact hclose _
    · cases label with
      | nil => exact fun h => absurd (Option.some.inj h) (by decide)
      | cons a label =>
        intro h
        obtain rfl : a = '[' := Option.some.inj h
        exact absurd (isLabel _ List.mem_cons_self) (by decide)
    · exact fun h => absurd (isLabel _ h) (by decide)
    · exact neverAssigns_written (proper_dimensions ds) hrest hhead

end WrittenType

end SoliditySession.Solidity
