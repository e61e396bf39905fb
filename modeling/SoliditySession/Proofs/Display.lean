import SoliditySession.Json.Parser
import SoliditySession.Proofs.Faults
import SoliditySession.Proofs.Shape
import SoliditySession.Proofs.TypeName
/- Displayed values are unambiguous: of two values of one type the texts differ, also in front of
whatever follows a value that is shown inside another. -/
namespace SoliditySession
open Solidity

namespace Text

/-- A quoted character is read back as one piece of the quotation. -/
theorem piece_quotedChar (c : Char) (r : List Char) :
    Json.piece (quotedChar c ++ r) = some (.char c, r) := by
  have hdigits : ∀ n < 32, Json.hexValue (hexDigit (n / 16)) = some (n / 16) ∧
      Json.hexValue (hexDigit (n % 16)) = some (n % 16) := by decide
  have hzero : Json.hexValue '0' = some 0 := by decide
  by_cases hnamed : c ∈ ['"', '\\', '\x08', '\x0c', '\n', '\r', '\t']
  · simp only [List.mem_cons, List.not_mem_nil, or_false] at hnamed
    rcases hnamed with rfl | rfl | rfl | rfl | rfl | rfl | rfl <;> rfl
  · simp only [List.mem_cons, List.not_mem_nil, or_false, not_or] at hnamed
    obtain ⟨hquote, hslash, hb, hf, hn, hr, ht⟩ := hnamed
    simp only [quotedChar, beq_iff_eq, hquote, hslash, hb, hf, hn, hr, ht, if_false]
    split
    · next hcontrol =>
      obtain ⟨hhigh, hlow⟩ := hdigits c.toNat hcontrol
      have hvalue : c.toNat / 16 * 16 + c.toNat % 16 = c.toNat := Nat.div_add_mod' _ _
      have hsurrogate : ¬ 0xD800 ≤ c.toNat := by omega
      simp [Json.piece, Json.hex4, hhigh, hlow, hzero, hvalue, hsurrogate]
    · next hcontrol => simp [Json.piece, hslash, hcontrol]

/-- A quotation ends at its closing quote, whatever stands behind it. -/
theorem quotedChars_append_inj {cs ds r s : List Char}
    (h : quotedChars cs ++ r = quotedChars ds ++ s) : cs = ds ∧ r = s := by
  have hclose : ∀ r, Json.piece ('"' :: r) = some (.close, r) := fun r => rfl
  have htail : cs.flatMap quotedChar ++ '"' :: r = ds.flatMap quotedChar ++ '"' :: s := by
    simpa [quotedChars] using h
  clear h
  induction cs generalizing ds with
  | nil =>
    cases ds with
    | nil => exact ⟨rfl, (List.cons.inj htail).2⟩
    | cons d ds =>
      have hpiece := congrArg Json.piece htail
      rw [List.flatMap_nil, List.nil_append, List.flatMap_cons, List.append_assoc, hclose,
        piece_quotedChar] at hpiece
      cases hpiece
  | cons c cs ih =>
    cases ds with
    | nil =>
      have hpiece := congrArg Json.piece htail
      rw [List.flatMap_nil, List.nil_append, List.flatMap_cons, List.append_assoc, hclose,
        piece_quotedChar] at hpiece
      cases hpiece
    | cons d ds =>
      have hpiece := congrArg Json.piece htail
      rw [List.flatMap_cons, List.flatMap_cons, List.append_assoc, List.append_assoc,
        piece_quotedChar, piece_quotedChar, Option.some.injEq, Prod.mk.injEq,
        Json.Piece.char.injEq] at hpiece
      obtain ⟨rfl, hrest⟩ := hpiece
      obtain ⟨rfl, hrs⟩ := ih hrest
      exact ⟨rfl, hrs⟩

theorem hex_injective : Function.Injective hex := by
  intro b c h
  have hread := unhex_hex b
  rw [h, unhex_hex] at hread
  exact (Except.ok.inj hread).symm

end Text

namespace Abi

/-- What may follow a displayed value. -/
def Stopped (r : List Char) : Prop := ∀ c ∈ r.head?, c = ',' ∨ c = ']' ∨ c = ' '

/-- What closes a list of values. -/
def Closed (r : List Char) : Prop := ∃ c ∈ r.head?, c = ']' ∨ c = ' '

theorem Closed.stopped {r : List Char} (h : Closed r) : Stopped r := by
  obtain ⟨c, hc, hclose⟩ := h
  intro d hd
  obtain rfl : c = d := Option.some.inj (hc.symm.trans hd)
  exact .inr hclose

/-- Their texts are alike only if they are the same, whatever follows either of them. -/
def Unambiguous {α : Type} (text : α → List Char) (a b : α) : Prop :=
  ∀ r s, Stopped r → Stopped s → text a ++ r = text b ++ s → a = b ∧ r = s

/-- The text begins, and not with what would close a list. -/
def Opened (cs : List Char) : Prop := ∃ c ∈ cs.head?, c ≠ ']' ∧ c ≠ ' '

section
variable {α : Type} (text : α → List Char)

/-- The texts of some things, set apart by commas. -/
def listed (as : List α) : List Char := ", ".toList.intercalate (as.map text)

theorem listed_cons (a : α) (as : List α) :
    listed text (a :: as) = text a ++ as.flatMap fun b => ',' :: ' ' :: text b := by
  induction as generalizing a with
  | nil => simp [listed]
  | cons b as ih =>
    have hrest := ih b
    rw [listed, List.map_cons] at hrest ⊢
    rw [List.map_cons, List.intercalate_cons_cons, hrest, List.flatMap_cons, List.append_assoc]
    rfl

theorem stopped_behind {r : List Char} (hr : Closed r) (as : List α) :
    Stopped ((as.flatMap fun b => ',' :: ' ' :: text b) ++ r) := by
  cases as with
  | nil => exact hr.stopped
  | cons a as =>
    rintro c ⟨⟩
    exact .inl rfl

variable {text} {as bs : List α} {r s : List Char}

/-- Behind the first thing of a list a comma goes on with it and nothing else does. -/
theorem behind_append_inj (h : ∀ x ∈ as.zip bs, Unambiguous text x.1 x.2) (hr : Closed r)
    (hs : Closed s) (heq : (as.flatMap fun b => ',' :: ' ' :: text b) ++ r =
      (bs.flatMap fun b => ',' :: ' ' :: text b) ++ s) : as = bs ∧ r = s := by
  have hcomma : ∀ {r t : List Char}, Closed r → r ≠ ',' :: t := by
    rintro _ t ⟨c, hc, hclose⟩ rfl
    obtain rfl := Option.some.inj hc
    exact absurd hclose (by decide)
  induction as generalizing bs with
  | nil =>
    cases bs with
    | nil => exact ⟨rfl, heq⟩
    | cons b bs => exact absurd heq (hcomma hr)
  | cons a as ih =>
    cases bs with
    | nil => exact absurd heq.symm (hcomma hs)
    | cons b bs =>
      rw [List.zip_cons_cons, List.forall_mem_cons] at h
      simp only [List.flatMap_cons, List.cons_append, List.cons.injEq, true_and,
        List.append_assoc] at heq
      have hab : Unambiguous text a b := h.1
      obtain ⟨rfl, hrest⟩ := hab _ _ (stopped_behind text hr as) (stopped_behind text hs bs) heq
      obtain ⟨rfl, hend⟩ := ih h.2 hrest
      exact ⟨rfl, hend⟩

theorem listed_append_inj {a b : α} (h : ∀ x ∈ (a :: as).zip (b :: bs), Unambiguous text x.1 x.2)
    (hr : Closed r) (hs : Closed s) (heq : listed text (a :: as) ++ r = listed text (b :: bs) ++ s) :
    a :: as = b :: bs ∧ r = s := by
  rw [List.zip_cons_cons, List.forall_mem_cons] at h
  rw [listed_cons, listed_cons, List.append_assoc, List.append_assoc] at heq
  have hab : Unambiguous text a b := h.1
  obtain ⟨rfl, hrest⟩ := hab _ _ (stopped_behind text hr as) (stopped_behind text hs bs) heq
  obtain ⟨rfl, hend⟩ := behind_append_inj h.2 hr hs hrest
  exact ⟨rfl, hend⟩

end

def shown (v : Value) : List Char := v.display.toList

/-- A component of a tuple with its name. -/
def shownField (f : String × Value) : List Char := f.1.toList ++ ':' :: ' ' :: shown f.2

theorem displays_eq (vs : List Value) : Value.displays vs = vs.map Value.display := by
  induction vs with
  | nil => rfl
  | cons v vs ih => rw [Value.displays, ih, List.map_cons]

theorem displayFields_eq (fs : List (String × Value)) :
    Value.displayFields fs = fs.map fun f => f.1 ++ ": " ++ f.2.display := by
  induction fs with
  | nil => rfl
  | cons f fs ih => rw [Value.displayFields, ih, List.map_cons]

theorem shown_array (vs : List Value) : shown (.array vs) = '[' :: (listed shown vs ++ [']']) := by
  simp only [shown, Value.display, displays_eq, String.toList_append, String.toList_intercalate,
    List.map_map]
  rfl

theorem shown_tuple (vs : List Value) : shown (.tuple vs) = '[' :: (listed shown vs ++ [']']) :=
  shown_array vs

theorem shown_struct (f : String × Value) (fs : List (String × Value)) :
    shown (.struct (f :: fs)) =
      '{' :: ' ' :: (listed shownField (f :: fs) ++ [' ', '}']) := by
  have hfield : String.toList ∘ (fun f : String × Value => f.1 ++ ": " ++ f.2.display) =
      shownField := by
    funext f
    simp [shownField, shown]
  simp only [shown, Value.display, displayFields_eq, String.toList_append,
    String.toList_intercalate, List.map_map, hfield]
  rfl

/-- The characters of displayed numbers, truth values and bytes. -/
def isTokenChar (c : Char) : Bool := c.isAlphanum || c == '-'

/-- Values shown by one token are told apart if their texts are not the same. -/
theorem unambiguous_tokens {v w : Value} (hv : ∀ c ∈ shown v, isTokenChar c = true)
    (hw : ∀ c ∈ shown w, isTokenChar c = true) (h : v.display = w.display → v = w) :
    Unambiguous shown v w := by
  have hstop : ∀ {r : List Char}, Stopped r → ∀ c ∈ r.head?, isTokenChar c = false := by
    intro r hr c hc
    rcases hr c hc with rfl | rfl | rfl <;> decide
  intro r s hr hs heq
  obtain ⟨htoken, hrest⟩ := Solidity.append_inj_of_stop hv hw (hstop hr) (hstop hs) heq
  exact ⟨h (String.toList_inj.1 htoken), hrest⟩

theorem isTokenChar_of_mem_toString (n : Nat) :
    ∀ c ∈ (toString n).toList, isTokenChar c = true := by
  intro c hc
  simp [isTokenChar, Char.isAlphanum, Solidity.isDigit_of_mem_toString hc]

theorem isTokenChar_of_mem_bytes (b : Bytes) :
    ∀ c ∈ ("0x" ++ Text.hex b).toList, isTokenChar c = true := by
  have hdigit : ∀ n < 16, isTokenChar (Text.hexDigit n) = true := by decide
  rw [String.toList_append, List.forall_mem_append]
  refine ⟨by decide, ?_⟩
  intro c hc
  rw [Text.hex, String.toList_ofList] at hc
  obtain ⟨x, -, hc⟩ := List.mem_flatMap.1 hc
  have hx : x.toNat < 256 := x.toNat_lt
  rw [Text.hexByte, List.mem_pair] at hc
  rcases hc with rfl | rfl
  · exact hdigit _ (by omega)
  · exact hdigit _ (by omega)

theorem toString_nat_injective {n m : Nat} (h : toString n = toString m) : n = m := by
  have hread : ∀ n : Nat, Nat.ofDigitChars 10 (toString n).toList 0 = n := by
    intro n
    rw [Nat.toString_eq_repr, Nat.toList_repr, Nat.ofDigitChars_ten_toDigits]
  rw [← hread n, h, hread]

theorem exists_digit (n : Nat) : ∃ c ∈ (toString n).toList.head?, c.isDigit = true := by
  have hne : (toString n).toList ≠ [] := by
    rw [Nat.toString_eq_repr, Nat.toList_repr]
    exact Nat.toDigits_ne_nil
  obtain ⟨c, cs, hcs⟩ := List.exists_cons_of_ne_nil hne
  have hc : c ∈ (toString n).toList.head? := by rw [hcs]; rfl
  exact ⟨c, hc, Solidity.isDigit_of_mem_toString (List.mem_of_mem_head? hc)⟩

theorem toList_toString_negSucc (n : Nat) :
    (toString (Int.negSucc n)).toList = '-' :: (toString (n + 1)).toList :=
  String.toList_append

theorem toString_int_injective {n m : Int} (h : toString n = toString m) : n = m := by
  have hsign : ∀ a b : Nat, toString (Int.ofNat a) ≠ toString (Int.negSucc b) := by
    intro a b hab
    obtain ⟨c, hc, hdigit⟩ := exists_digit a
    have hhead : c ∈ (toString (Int.negSucc b)).toList.head? := hab ▸ hc
    rw [toList_toString_negSucc] at hhead
    obtain rfl := Option.some.inj hhead
    exact absurd hdigit (by decide)
  cases n with
  | ofNat a =>
    cases m with
    | ofNat b => exact congrArg Int.ofNat (toString_nat_injective h)
    | negSucc b => exact absurd h (hsign a b)
  | negSucc a =>
    cases m with
    | ofNat b => exact absurd h.symm (hsign b a)
    | negSucc b =>
      have htexts := congrArg String.toList h
      rw [toList_toString_negSucc, toList_toString_negSucc] at htexts
      have hsucc := toString_nat_injective (String.toList_inj.1 (List.cons.inj htexts).2)
      exact congrArg Int.negSucc (Nat.succ.inj hsucc)

theorem unambiguous_uint (n m : Nat) : Unambiguous shown (.uint n) (.uint m) :=
  unambiguous_tokens (isTokenChar_of_mem_toString n) (isTokenChar_of_mem_toString m) fun h =>
    congrArg Value.uint (toString_nat_injective h)

theorem unambiguous_int (n m : Int) : Unambiguous shown (.int n) (.int m) := by
  have hchars : ∀ n : Int, ∀ c ∈ shown (.int n), isTokenChar c = true := by
    intro n
    cases n with
    | ofNat n => exact isTokenChar_of_mem_toString n
    | negSucc n =>
      rw [shown, Value.display, toList_toString_negSucc, List.forall_mem_cons]
      exact ⟨by decide, isTokenChar_of_mem_toString (n + 1)⟩
  exact unambiguous_tokens (hchars n) (hchars m) fun h =>
    congrArg Value.int (toString_int_injective h)

theorem unambiguous_bool (a b : Bool) : Unambiguous shown (.bool a) (.bool b) := by
  have hchars : ∀ b, ∀ c ∈ shown (.bool b), isTokenChar c = true := by
    intro b
    cases b <;> decide
  have hne : ∀ a b : Bool, (Value.bool a).display = (Value.bool b).display → a = b := by decide
  exact unambiguous_tokens (hchars a) (hchars b) fun h => congrArg Value.bool (hne a b h)

theorem hex_of_display {b c : Bytes} (h : "0x" ++ Text.hex b = "0x" ++ Text.hex c) : b = c := by
  have htail := congrArg String.toList h
  rw [String.toList_append, String.toList_append, List.append_cancel_left_eq] at htail
  exact Text.hex_injective (String.toList_inj.1 htail)

theorem unambiguous_address (b c : Bytes) : Unambiguous shown (.address b) (.address c) :=
  unambiguous_tokens (isTokenChar_of_mem_bytes b) (isTokenChar_of_mem_bytes c) fun h =>
    congrArg Value.address (hex_of_display h)

theorem unambiguous_bytes (b c : Bytes) : Unambiguous shown (.bytes b) (.bytes c) :=
  unambiguous_tokens (isTokenChar_of_mem_bytes b) (isTokenChar_of_mem_bytes c) fun h =>
    congrArg Value.bytes (hex_of_display h)

theorem shown_string (s : String) : shown (.string s) = Text.quotedChars s.toList :=
  String.toList_ofList

theorem unambiguous_string (a b : String) : Unambiguous shown (.string a) (.string b) := by
  intro r s _ _ heq
  rw [shown_string, shown_string] at heq
  obtain ⟨hchars, hrest⟩ := Text.quotedChars_append_inj heq
  exact ⟨congrArg Value.string (String.toList_inj.1 hchars), hrest⟩

/-- Every value is shown by something that does not look like the end of a list. -/
theorem opened_shown (v : Value) : Opened (shown v) := by
  have hdigits : ∀ n : Nat, Opened (toString n).toList := by
    intro n
    obtain ⟨c, hc, hdigit⟩ := exists_digit n
    refine ⟨c, hc, ?_, ?_⟩
    · rintro rfl
      exact absurd hdigit (by decide)
    · rintro rfl
      exact absurd hdigit (by decide)
  cases v with
  | uint n => exact hdigits n
  | int n =>
    cases n with
    | ofNat n => exact hdigits n
    | negSucc n => exact ⟨'-', by rw [shown, Value.display, toList_toString_negSucc]; rfl, by decide⟩
  | bool b => cases b <;> exact ⟨_, rfl, by decide⟩
  | address b => exact ⟨'0', by simp [shown, Value.display], by decide⟩
  | bytes b => exact ⟨'0', by simp [shown, Value.display], by decide⟩
  | string s => exact ⟨'"', by rw [shown_string]; rfl, by decide⟩
  | array vs => exact ⟨'[', by rw [shown_array]; rfl, by decide⟩
  | tuple vs => exact ⟨'[', by rw [shown_tuple]; rfl, by decide⟩
  | struct fs =>
    cases fs with
    | nil => exact ⟨'\x7b', rfl, by decide⟩
    | cons f fs => exact ⟨'\x7b', by rw [shown_struct]; rfl, by decide⟩

/-- Lists of values between brackets, whatever their lengths. -/
theorem brackets_append_inj {vs ws : List Value} {r s : List Char}
    (h : ∀ x ∈ vs.zip ws, Unambiguous shown x.1 x.2)
    (heq : '[' :: (listed shown vs ++ [']']) ++ r = '[' :: (listed shown ws ++ [']']) ++ s) :
    vs = ws ∧ r = s := by
  have hclosed : ∀ t, Closed (']' :: t) := fun t => ⟨']', rfl, .inl rfl⟩
  have hempty : ∀ (v : Value) (vs : List Value) (r s : List Char),
      ']' :: r ≠ listed shown (v :: vs) ++ s := by
    intro v vs r s heq
    obtain ⟨c, hc, hne, -⟩ := opened_shown v
    obtain ⟨cs, hcs⟩ := List.head?_eq_some_iff.1 (Option.mem_def.1 hc)
    rw [listed_cons, hcs] at heq
    exact hne (List.cons.inj heq).1.symm
  simp only [List.cons_append, List.append_assoc, List.nil_append, List.cons.injEq,
    true_and] at heq
  cases vs with
  | nil =>
    cases ws with
    | nil => exact ⟨rfl, (List.cons.inj heq).2⟩
    | cons w ws => exact absurd heq (hempty w ws r _)
  | cons v vs =>
    cases ws with
    | nil => exact absurd heq.symm (hempty v vs s _)
    | cons w ws =>
      obtain ⟨hlist, hend⟩ := listed_append_inj h (hclosed r) (hclosed s) heq
      exact ⟨hlist, (List.cons.inj hend).2⟩

theorem unambiguous_bracketed {wrap : List Value → Value}
    (hwrap : ∀ vs, shown (wrap vs) = '[' :: (listed shown vs ++ [']'])) {vs ws : List Value}
    (h : ∀ x ∈ vs.zip ws, Unambiguous shown x.1 x.2) : Unambiguous shown (wrap vs) (wrap ws) := by
  intro r s _ _ heq
  rw [hwrap, hwrap] at heq
  obtain ⟨rfl, hend⟩ := brackets_append_inj h heq
  exact ⟨rfl, hend⟩

/-- Components of one name are told apart by their values. -/
theorem Unambiguous.field {v w : Value} (h : Unambiguous shown v w) (name : String) :
    Unambiguous shownField (name, v) (name, w) := by
  intro r s hr hs heq
  simp only [shownField, List.append_assoc, List.cons_append, List.append_cancel_left_eq,
    List.cons.injEq, true_and] at heq
  obtain ⟨rfl, hend⟩ := h r s hr hs heq
  exact ⟨rfl, hend⟩

theorem unambiguous_struct {fs gs : List (String × Value)} (hf : fs ≠ []) (hg : gs ≠ [])
    (h : ∀ x ∈ fs.zip gs, Unambiguous shownField x.1 x.2) :
    Unambiguous shown (.struct fs) (.struct gs) := by
  have hclosed : ∀ t, Closed (' ' :: '\x7d' :: t) := fun t => ⟨' ', rfl, .inr rfl⟩
  obtain ⟨f, fs, rfl⟩ := List.exists_cons_of_ne_nil hf
  obtain ⟨g, gs, rfl⟩ := List.exists_cons_of_ne_nil hg
  intro r s _ _ heq
  rw [shown_struct, shown_struct] at heq
  simp only [List.cons_append, List.append_assoc, List.nil_append, List.cons.injEq,
    true_and] at heq
  obtain ⟨hlist, hend⟩ := listed_append_inj h (hclosed r) (hclosed s) heq
  exact ⟨congrArg Value.struct hlist, (List.cons.inj (List.cons.inj hend).2).2⟩

/-- Components that were read as the same types are told apart, with and without their names. -/
theorem unambiguous_components {data data' : Bytes} {fields : List (String × AbiType)}
    {vs ws : List Value}
    (hparts : ∀ t ∈ fields.map (·.2), ∀ v w, HasShape data t v → HasShape data' t w →
      Unambiguous shown v w)
    (hv : List.Forall₂ (fun f v => HasShape data f.2 v) fields vs)
    (hw : List.Forall₂ (fun f w => HasShape data' f.2 w) fields ws) :
    (∀ x ∈ vs.zip ws, Unambiguous shown x.1 x.2) ∧
      ∀ x ∈ ((fields.map (·.1)).zip vs).zip ((fields.map (·.1)).zip ws),
        Unambiguous shownField x.1 x.2 := by
  induction hv generalizing ws with
  | nil =>
    cases hw
    exact ⟨nofun, nofun⟩
  | @cons f v fields vs hfv _ ih =>
    cases hw with
    | @cons _ w _ ws hfw hws =>
      rw [List.map_cons, List.forall_mem_cons] at hparts
      have hvw : Unambiguous shown v w := hparts.1 v w hfv hfw
      obtain ⟨hbare, hnamed⟩ := ih hparts.2 hws
      simp only [List.map_cons, List.zip_cons_cons, List.forall_mem_cons]
      exact ⟨⟨hvw, hbare⟩, hvw.field f.1, hnamed⟩

/-- The text of a value tells it from all others that its type can be read as. -/
theorem HasShape.unambiguous {data data' : Bytes} {t : AbiType} {v w : Value}
    (hv : HasShape data t v) (hw : HasShape data' t w) : Unambiguous shown v w := by
  induction t generalizing v w with
  | uint bits =>
    cases hv
    cases hw
    exact unambiguous_uint _ _
  | int bits =>
    cases hv
    cases hw
    exact unambiguous_int _ _
  | address =>
    cases hv
    cases hw
    exact unambiguous_address _ _
  | bool =>
    cases hv
    cases hw
    exact unambiguous_bool _ _
  | fixedBytes length =>
    cases hv
    cases hw
    exact unambiguous_bytes _ _
  | bytes =>
    cases hv
    cases hw
    exact unambiguous_bytes _ _
  | string =>
    cases hv
    cases hw
    exact unambiguous_string _ _
  | array t ih =>
    cases hv with
    | array _ hvs =>
    cases hw with
    | array _ hws =>
      exact unambiguous_bracketed shown_array fun x hx =>
        ih (hvs _ (List.of_mem_zip hx).1) (hws _ (List.of_mem_zip hx).2)
  | fixedArray t length ih =>
    cases hv with
    | fixedArray _ _ hvs =>
    cases hw with
    | fixedArray _ _ hws =>
      exact unambiguous_bracketed shown_array fun x hx =>
        ih (hvs _ (List.of_mem_zip hx).1) (hws _ (List.of_mem_zip hx).2)
  | tuple fields ih =>
    have hforall : ∀ {data : Bytes} {vs : List Value}, vs.length = fields.length →
        (∀ x ∈ fields.zip vs, HasShape data x.1.2 x.2) →
        List.Forall₂ (fun f v => HasShape data f.2 v) fields vs := fun hlen h =>
      List.forall₂_iff_zip.2 ⟨hlen.symm, fun hx => h _ hx⟩
    have hparts : ∀ t ∈ fields.map (·.2), ∀ v w, HasShape data t v → HasShape data' t w →
        Unambiguous shown v w := fun t ht _ _ hv hw => ih t ht hv hw
    cases hv with
    | struct hnamed hvlen hvs =>
      cases hw with
      | struct _ hwlen hws =>
        have hne : ∀ {vs : List Value}, vs.length = fields.length →
            (fields.map (·.1)).zip vs ≠ [] := by
          intro vs hlen
          rw [← List.length_pos_iff, List.length_zip, List.length_map, hlen, Nat.min_self]
          exact List.length_pos_iff.2 hnamed.1
        exact unambiguous_struct (hne hvlen) (hne hwlen)
          (unambiguous_components hparts (hforall hvlen hvs) (hforall hwlen hws)).2
      | tuple hunnamed _ _ => exact absurd hnamed hunnamed
    | tuple hunnamed hvlen hvs =>
      cases hw with
      | struct hnamed _ _ => exact absurd hnamed hunnamed
      | tuple _ hwlen hws =>
        exact unambiguous_bracketed shown_tuple
          (unambiguous_components hparts (hforall hvlen hvs) (hforall hwlen hws)).1

/-- Two values of one type that are displayed alike are the same, whatever data each was read
from. -/
theorem display_injective {data data' : Bytes} {t : AbiType} {v w : Value}
    (hv : HasShape data t v) (hw : HasShape data' t w) (h : v.display = w.display) : v = w := by
  have hnil : Stopped [] := nofun
  have htexts : shown v ++ [] = shown w ++ [] := by rw [shown, shown, h]
  exact (hv.unambiguous hw [] [] hnil hnil htexts).1

/-- Of two different texts in the data one string is made; it is displayed with its line break and
quote escaped. -/
theorem display_injective_mended_string :
    let t := AbiType.tuple [("note", .string), ("shares", .array (.uint 256))]
    let read := fun b => Value.struct
      [("note", .string (Text.ofBytesLossy b)), ("shares", .array [.uint 12, .uint 0])]
    let broken : Bytes := [34, 10, 255]
    let whole : Bytes := [34, 10, 239, 191, 189]
    let data := broken ++ List.replicate 61 0
    let data' := whole ++ List.replicate 59 0
    HasShape data t (read broken) ∧ HasShape data' t (read whole) ∧
      (read broken).display = "\x7b note: \"\\\"\\n\ufffd\", shares: [12, 0] \x7d" ∧
      (read broken).display = (read whole).display ∧ read broken = read whole := by
  intro t read broken whole data data'
  have hshape : ∀ {b rest : Bytes}, (b ++ rest).length = 64 →
      HasShape (b ++ rest) t (read b) := by
    intro b rest hlen
    have hstring : HasShape (b ++ rest) .string (.string (Text.ofBytesLossy b)) :=
      .string (List.prefix_append b rest).isInfix
    have harray : HasShape (b ++ rest) (.array (.uint 256)) (.array [.uint 12, .uint 0]) := by
      refine .array (by rw [hlen]; decide) ?_
      simp only [List.forall_mem_cons]
      exact ⟨.uint (by decide), .uint (by decide), nofun⟩
    have hfields : ∀ x ∈ [("note", AbiType.string), ("shares", .array (.uint 256))].zip
        [Value.string (Text.ofBytesLossy b), .array [.uint 12, .uint 0]],
        HasShape (b ++ rest) x.1.2 x.2 := by
      simp only [List.zip_cons_cons, List.forall_mem_cons]
      exact ⟨hstring, harray, nofun⟩
    exact .struct ⟨by decide, by decide⟩ rfl hfields
  have hbroken : HasShape data t (read broken) := hshape (by decide)
  have hwhole : HasShape data' t (read whole) := hshape (by decide)
  have hshown : (read broken).display = (read whole).display := by decide +kernel
  exact ⟨hbroken, hwhole, by decide +kernel, hshown, display_injective hbroken hwhole hshown⟩

/-- Values of different types may be displayed alike. -/
example : (Value.address [7]).display = (Value.bytes [7]).display := rfl

end Abi
end SoliditySession
