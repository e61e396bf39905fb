import SoliditySession.Proofs.Operators
import SoliditySession.Proofs.UserValue
/- What can come out when a type is read off any text at all: a name that stands in the text, with at
most one data location behind it. What the compiler writes for values without a type of their own
gives nothing. -/
namespace SoliditySession
open Solidity Pattern Text

namespace Solidity

/-- A built-in name or a path, with array dimensions behind it. -/
def Named (w : List Char) : Prop :=
  ∃ base ∈ elementaryTexts + pathTexts, ∃ ds : List Brackets,
    w = base ++ written (ds.map Brackets.token)

theorem taken_dimensions {v w : List Char} {r q : Place} {cs : List Char}
    (hv : Place.Past (.start cs) v r) (hw : r.Past w q) : q.behind.reverse = v ++ w := by
  have hbehind : q.behind = (v ++ w).reverse ++ [] := (hv.trans hw).behind
  rw [hbehind, List.append_nil, List.reverse_reverse]

/-- What is read as a built-in name with dimensions, and what is left behind it. -/
theorem exists_of_elementaryPrefix? {s w : String} (h : elementaryPrefix? s = some w) :
    ∃ (name : String) (ds : List Brackets) (rest : List Char),
      Elementary name ∧ w.toList = name.toList ++ written (ds.map Brackets.token) ∧
        s.toList = name.toList ++ (written (ds.map Brackets.token) ++ rest) ∧
          ∀ c ∈ (written (ds.map Brackets.token) ++ rest).head?, isWord c = false := by
  obtain ⟨q, ⟨r, hr, hdimensions⟩, hw⟩ := exists_of_taken? h
  obtain ⟨name, hname, hpast, hedge⟩ := reads_elementary.1 hr
  obtain ⟨_, ⟨ds, rfl⟩, hpast'⟩ := (spells_dimensions r q).1 hdimensions
  rw [hpast.behind, hname.wordEdge_iff, hpast'.ahead] at hedge
  refine ⟨name, ds, q.ahead, hname, hw.trans (taken_dimensions hpast hpast'), ?_, hedge⟩
  rw [← hpast'.ahead]
  exact hpast.ahead

theorem named_of_elementaryPrefix? {s w : String} (h : elementaryPrefix? s = some w) :
    Named w.toList := by
  obtain ⟨name, ds, -, hname, hw, -⟩ := exists_of_elementaryPrefix? h
  exact ⟨name.toList, .inl ⟨name, hname, rfl⟩, ds, hw⟩

/-- What is read as a path with dimensions, and what is left behind it. -/
theorem exists_of_userPrefix? {s w : String} (h : userPrefix? s = some w) :
    ∃ (p : Path) (ds : List Brackets) (rest : List Char),
      w.toList = p.chars ++ written (ds.map Brackets.token) ∧ s.toList = w.toList ++ rest := by
  obtain ⟨rest, hrest⟩ := prefix_of_taken? h
  obtain ⟨q, ⟨r, hr, hdimensions⟩, hw⟩ := exists_of_taken? h
  obtain ⟨_, ⟨p, rfl⟩, hpast⟩ := (spells_userPath _ r).1 hr
  obtain ⟨_, ⟨ds, rfl⟩, hpast'⟩ := (spells_dimensions r q).1 hdimensions
  exact ⟨p, ds, rest, hw.trans (taken_dimensions hpast hpast'), hrest.symm⟩

theorem named_of_userPrefix? {s w : String} (h : userPrefix? s = some w) : Named w.toList := by
  obtain ⟨p, ds, rest, hw, -⟩ := exists_of_userPrefix? h
  exact ⟨p.chars, .inr ⟨p, rfl⟩, ds, hw⟩

/-- A character stays unless a data location begins there and goes, up to the bracket behind it. -/
theorem replaced_cons (behind : List Char) (c : Char) (rest : List Char) :
    innerLocation.replaced "[" behind (c :: rest) =
        c :: innerLocation.replaced "[" (c :: behind) rest ∨
      ∃ more, innerLocation.replaced "[" behind (c :: rest) = '[' :: more := by
  cases hmatch : innerLocation.matchAt? ⟨behind, c :: rest, []⟩ with
  | some q =>
    exact .inr ⟨_, replaced_of_match hmatch (advance_inner _ q (reads_of_matchAt? hmatch))⟩
  | none =>
    have hkept : innerLocation.replaced "[" behind ([c] ++ rest) =
        [c] ++ innerLocation.replaced "[" ([c].reverse ++ behind) rest := by
      refine replaced_append behind rest advance_inner fun d t behind' ht => ?_
      obtain ⟨rfl, rfl⟩ : d = c ∧ t = [] := by
        rcases List.suffix_cons_iff.1 ht with heq | ht
        · exact List.cons.inj heq
        · cases List.suffix_nil.1 ht
      rw [matchAt?_eq_none_iff]
      intro q hq
      -- what stands behind makes no difference
      obtain ⟨w, hw, hpast⟩ := (spells_innerLocation _ q).1 hq
      have hahead : d :: rest = w ++ q.ahead := hpast.ahead
      rw [hahead] at hmatch
      exact matchAt?_eq_none_iff.1 hmatch _ (spells_innerLocation.reads hw behind q.ahead [])
    exact .inl hkept

/-- Blanks before something that is no letter are no beginning of a data location. -/
theorem Quiet.gap {gap rest : List Char} {c : Char} (hgap : Blank gap) (hc : isBlank c = false)
    (hletter : c.isAlpha = false) : Quiet gap (c :: rest) := by
  rintro d t ht ⟨b, ⟨-, hb⟩, v, hv, e, heq, -⟩
  have hletters : ∀ v ∈ locations, v.toList.head?.any (fun a => a.isAlpha && !isBlank a) = true := by
    decide
  obtain ⟨a, ha, hletters⟩ := (Option.any_eq_true _ _).1 (hletters v hv)
  rw [Bool.and_eq_true, Bool.not_eq_true'] at hletters
  obtain ⟨halpha, hblank⟩ := hletters
  obtain ⟨vs, hvs⟩ := List.head?_eq_some_iff.1 ha
  have hcut : (d :: t) ++ c :: rest = b ++ (a :: (vs ++ e)) := by
    rw [List.cons_append, heq, hvs, List.cons_append]
  obtain ⟨-, hrest⟩ := append_inj_of_stop (fun x hx => hgap x (ht.subset hx)) hb
    (by rintro x ⟨⟩; exact hc) (by rintro x ⟨⟩; exact hblank) hcut
  rw [(List.cons.inj hrest).1, halpha] at hletter
  cases hletter

end Solidity

/-- Spellings of function types, mappings, several values and numbers that are not yet of a type: a
number begins with a digit or a sign. -/
inductive Internal : List Char → Prop
  | compound {w : String} {gap rest : List Char} : w ∈ ["function", "mapping"] → Blank gap →
      Internal (w.toList ++ (gap ++ '(' :: rest))
  | values {rest : List Char} : rest.head? ≠ some ')' → Internal ("tuple(".toList ++ rest)
  | number {w : String} {c : Char} {rest : List Char} : w ∈ ["int_const", "rational_const"] →
      isBlank c = false → c.isAlpha = false → Internal (w.toList ++ ' ' :: c :: rest)

def internalWords : List String := ["function", "mapping", "tuple", "int_const", "rational_const"]

theorem userPrefix?_of_stop (p : Path) {rest : List Char}
    (hrest : ∀ c ∈ rest.head?, isIdentChar c = false ∧ c ≠ '.' ∧ c ≠ '[') :
    userPrefix? (.ofList (p.chars ++ rest)) = some (.ofList p.chars) := by
  refine taken?_of_run ?_
  rw [userArray, run_append]
  refine run_userPath p (fun c hc => ⟨(hrest c hc).1, (hrest c hc).2.1⟩) ?_
  have hnone : ∀ w ∈ ([] : List (List Char)), Bracketed w := List.forall_mem_nil _
  exact run_brackets hnone (.of_head fun h => (hrest _ h).2.2 rfl) rfl

namespace Internal

/-- The words are paths by themselves, and name nothing built in. -/
theorem word_facts {w : String} (hw : w ∈ internalWords) : ∃ p : Path, p.chars = w.toList ∧
    (∀ c ∈ w.toList, isAsciiWord c = true) ∧ ¬ Elementary w := by
  have hwords : ∀ w ∈ internalWords, (∀ c ∈ w.toList, isAsciiWord c = true) ∧
      w.toList.head?.any isIdentStart = true := by decide
  obtain ⟨hchars, hfirst⟩ := hwords w hw
  obtain ⟨c, hc, hstart⟩ := (Option.any_eq_true _ _).1 hfirst
  obtain ⟨cs, hcs⟩ := List.head?_eq_some_iff.1 hc
  rw [hcs, List.forall_mem_cons] at hchars
  refine ⟨⟨⟨c, cs, hstart, fun d hd => isIdentChar_of_isAsciiWord (hchars.2 d hd)⟩, []⟩, ?_, ?_, ?_⟩
  · rw [hcs]
    exact List.append_nil _
  · rw [hcs, List.forall_mem_cons]
    exact hchars
  · exact fun h => h.not_mem (l := internalWords) (by decide) hw

section
variable {w : String} (hw : w ∈ internalWords)
include hw

theorem splitQualifier_eq (behind : List Char) : ReturnFix.splitQualifier
    (.ofList (w.toList ++ behind)) = (none, .ofList (w.toList ++ behind)) := by
  refine ReturnFix.splitQualifier_of_not_mem fun _ hmem => ?_
  have hnone : ∀ w ∈ internalWords, ' ' ∉ w.toList ∧
      ∀ q ∈ ReturnFix.qualifiers, ¬ w.toList <+: q.toList := by decide
  refine (hnone w hw).2 _ hmem ?_
  have hspace : ∀ x ∈ w.toList, (x != ' ') = true := by
    intro x hx
    simp only [bne_iff_ne, ne_eq]
    rintro rfl
    exact (hnone w hw).1 hx
  rw [String.toList_ofList, List.takeWhile_append_of_pos hspace]
  exact List.prefix_append _ _

theorem not_literal (behind : List Char) : ¬ "literal_string".toList <+: w.toList ++ behind := by
  rintro ⟨r, hr⟩
  have hhead : ∀ w ∈ internalWords, w.toList.head? ≠ some 'l' ∧ w.toList ≠ [] := by decide
  obtain ⟨hne, hnil⟩ := hhead w hw
  obtain ⟨c, cs, hcs⟩ := List.exists_cons_of_ne_nil hnil
  rw [hcs] at hr hne
  exact hne (congrArg some (List.cons.inj hr).1.symm)

section
variable {behind : List Char} (hbehind : ∀ x ∈ behind.head?, isBlank x = true ∨ x = '(')
include hbehind

theorem elementaryPrefix?_eq_none : elementaryPrefix? (.ofList (w.toList ++ behind)) = none := by
  obtain ⟨-, -, hascii, hnot⟩ := word_facts hw
  refine Solidity.elementaryPrefix?_eq_none hascii ?_ (by rwa [String.ofList_toList])
  intro x hx
  rcases hbehind x hx with h | rfl
  · exact isWord_of_isBlank h
  · decide +kernel

theorem userPrefix?_eq : userPrefix? (.ofList (w.toList ++ behind)) = some w := by
  obtain ⟨p, hp, -, -⟩ := word_facts hw
  rw [← hp, userPrefix?_of_stop p, hp, String.ofList_toList]
  intro x hx
  rcases hbehind x hx with h | rfl
  · refine ⟨isIdentChar_of_isPathChar (isPathChar_of_isBlank h), ?_, ?_⟩
    · rintro rfl
      exact absurd h (by decide)
    · rintro rfl
      exact absurd h (by decide)
  · decide

end

variable {gap : List Char} {c : Char} (hgap : Blank gap) (hc : isBlank c = false)
  (hletter : c.isAlpha = false)
include hgap hc hletter

/-- What stands behind the word is no data location. -/
theorem bareUserType?_eq_none {rest : List Char}
    (hbehind : ∀ x ∈ (gap ++ c :: rest).head?, isBlank x = true ∨ x = '(') :
    ReturnFix.bareUserType? (.ofList (w.toList ++ (gap ++ c :: rest))) = none := by
  have hdrop : dropBlank (gap ++ c :: rest) = c :: rest :=
    dropWhile_append_of_stop hgap (by rintro x ⟨⟩; exact hc)
  have hletters : ∀ v ∈ locations, v.toList.head?.any Char.isAlpha = true := by decide
  have hnone : String.ofList (c :: rest.takeWhile (!isBlank ·)) ∉ locations := by
    intro hmem
    obtain ⟨a, ha, halpha⟩ := (Option.any_eq_true _ _).1 (hletters _ hmem)
    rw [String.toList_ofList] at ha
    rw [Option.some.inj ha, halpha] at hletter
    cases hletter
  rw [Option.eq_none_iff_forall_ne_some]
  intro b hb
  obtain ⟨huser, hleft⟩ := ReturnFix.bareUserType?_eq_some_iff.1 hb
  obtain rfl := Option.some.inj ((userPrefix?_eq hw hbehind).symm.trans huser)
  refine hnone (hleft _ ?_)
  rw [String.toList_ofList, ← String.length_toList, List.drop_left, firstWord,
    String.toList_ofList, hdrop]
  rfl

/-- Nothing changes up to the character behind the word, and no parenthesis is closed anew. -/
theorem exists_stripped (rest : List Char) : ∃ more,
    withoutInnerLocations (trim (.ofList (w.toList ++ (gap ++ c :: rest)))) =
      .ofList (w.toList ++ (gap ++ c :: more)) ∧ (more.head? = some ')' → rest.head? = some ')') := by
  obtain ⟨p, hp, hascii, -⟩ := word_facts hw
  have hsolid : ∀ x ∈ w.toList, isBlank x = false := fun x hx =>
    isBlank_of_isIdentChar (isIdentChar_of_isAsciiWord (hascii x hx))
  have htrim : trim (.ofList (w.toList ++ (gap ++ c :: rest))) =
      .ofList ((w.toList ++ (gap ++ [c])) ++ dropBlankEnd rest) := by
    have hfront : dropBlank (w.toList ++ (gap ++ c :: rest)) = (w.toList ++ gap) ++ c :: rest := by
      rw [← hp, List.append_assoc]
      exact List.dropWhile_cons_of_neg (by simp [hsolid p.first.first (by rw [← hp]; exact .head _)])
    rw [trim, String.toList_ofList, hfront, dropBlankEnd_behind hc]
    simp
  have hquiet : Quiet (w.toList ++ (gap ++ [c])) (dropBlankEnd rest) := by
    refine .append (.of_no_blank hsolid) (.append (.gap hgap hc hletter) (.of_no_blank ?_))
    simpa using hc
  refine ⟨innerLocation.replaced "[" ((w.toList ++ (gap ++ [c])).reverse ++ [])
    (dropBlankEnd rest), ?_, fun hhead => ?_⟩
  · rw [htrim, withoutInnerLocations, replaceAll_eq, String.toList_ofList, replaced_quiet hquiet]
    simp
  · obtain ⟨u, hu⟩ : dropBlankEnd rest <+: rest := List.rdropWhile_prefix isBlank rest
    cases hend : dropBlankEnd rest with
    | nil =>
      rw [hend, replaced_inner_nil] at hhead
      cases hhead
    | cons d t =>
      rw [hend] at hhead hu
      rcases replaced_cons ((w.toList ++ (gap ++ [c])).reverse ++ []) d t with hkept | ⟨more, hgone⟩
      · rw [hkept] at hhead
        rw [← hu]
        exact hhead
      · rw [hgone] at hhead
        exact absurd (Option.some.inj hhead) (by decide)

/-- Nothing is read off a text that begins with the word, but for the values of nothing. -/
theorem ofReported?_eq_none {rest : List Char} (hlist : gap = [] → c = '(')
    (hvalues : w = "tuple" → rest.head? ≠ some ')') :
    ReturnFix.ofReported? (.ofList (w.toList ++ (gap ++ c :: rest))) = none := by
  obtain ⟨more, hstripped, hmore⟩ := exists_stripped hw hgap hc hletter rest
  have hbehind : ∀ x ∈ (gap ++ c :: more).head?, isBlank x = true ∨ x = '(' := by
    cases gap with
    | nil =>
      rintro x ⟨⟩
      exact .inr (hlist rfl)
    | cons b gap =>
      rintro x ⟨⟩
      exact .inl (hgap b List.mem_cons_self)
  have htuple : String.ofList (w.toList ++ (gap ++ c :: more)) ≠ "tuple()" := by
    intro h
    have hchars : w.toList ++ (gap ++ c :: more) = "tuple".toList ++ ['(', ')'] := by
      rw [← String.toList_ofList (l := w.toList ++ _), h]
      rfl
    have hnone : ∀ w ∈ internalWords, w.toList <+: "tuple()".toList → w = "tuple" := by decide
    obtain rfl := hnone w hw ⟨_, hchars⟩
    have hrest : gap ++ c :: more = ['(', ')'] := List.append_cancel_left hchars
    cases gap with
    | nil => exact hvalues rfl (hmore (by rw [(List.cons.inj hrest).2]; rfl))
    | cons b gap =>
      obtain rfl : b = '(' := (List.cons.inj hrest).1
      exact absurd (hgap _ List.mem_cons_self) (by decide)
  have hliteral := not_literal hw (gap ++ c :: more)
  rw [← String.toList_ofList (l := w.toList ++ _)] at hliteral
  rw [ReturnFix.ofReported?_eq, hstripped, if_neg htuple, if_neg hliteral, splitQualifier_eq hw,
    ReturnFix.base?]
  simp only [elementaryPrefix?_eq_none hw hbehind, bareUserType?_eq_none hw hgap hc hletter hbehind]
  rfl

end

/-- Nothing is read off such a spelling. -/
theorem not_read {cs : List Char} (h : Internal cs) : ReturnFix.ofReported? (.ofList cs) = none := by
  cases h with
  | compound hw hgap =>
    have hwords : ∀ w ∈ ["function", "mapping"], w ∈ internalWords ∧ w ≠ "tuple" := by decide
    exact ofReported?_eq_none (hwords _ hw).1 hgap (by decide) (by decide) (fun _ => rfl)
      fun htuple => absurd htuple (hwords _ hw).2
  | values hrest =>
    exact ofReported?_eq_none (w := "tuple") (c := '(') (by decide) blank_nil (by decide)
      (by decide) (fun _ => rfl) fun _ => hrest
  | number hw hc hletter =>
    have hwords : ∀ w ∈ ["int_const", "rational_const"], w ∈ internalWords ∧ w ≠ "tuple" := by
      decide
    exact ofReported?_eq_none (hwords _ hw).1 (blank_singleton (by decide)) hc hletter nofun
      fun htuple => absurd htuple (hwords _ hw).2

end Internal

namespace ReturnFix

theorem firstWord_of_solid {u : List Char} {c : Char} (hu : ∀ x ∈ u, isBlank x = false)
    (hc : isBlank c = false) (rest : List Char) : firstWord (.ofList (u ++ c :: rest)) =
      some (.ofList (u ++ c :: rest.takeWhile (!isBlank ·))) := by
  have hrun : (u ++ c :: rest).takeWhile (!isBlank ·) =
      u ++ c :: rest.takeWhile (!isBlank ·) := by
    rw [List.takeWhile_append_of_pos (by simpa using hu), List.takeWhile_cons_of_pos (by simp [hc])]
  cases u with
  | nil => simp [firstWord, dropBlank, hc]
  | cons d u =>
    have hd : isBlank d = false := hu d List.mem_cons_self
    have htail := hrun
    rw [List.cons_append, List.takeWhile_cons_of_pos (by simp [hd])] at htail
    simp [firstWord, dropBlank, hd, (List.cons.inj htail).2]

/-- Of a name with a bracket right behind it the dimension is read too: what is left begins with
no data location otherwise. -/
theorem getLast?_of_bareUserType? {w more : List Char} {b : String}
    (hw : ∀ c ∈ w, isIdentChar c = true)
    (h : bareUserType? (.ofList (w ++ '[' :: more)) = some b) : b.toList.getLast? = some ']' := by
  obtain ⟨huser, hleft⟩ := bareUserType?_eq_some_iff.1 h
  obtain ⟨p, ds, rest, hb, hs⟩ := exists_of_userPrefix? huser
  rw [String.toList_ofList] at hs hleft
  rcases List.eq_nil_or_concat ds with rfl | ⟨init, d, rfl⟩
  · exfalso
    rw [List.map_nil, written_nil, List.append_nil] at hb
    rw [hs, ← String.length_toList, List.drop_left] at hleft
    obtain ⟨u, hu, rfl⟩ : ∃ u, (∀ c ∈ u, isIdentChar c = true) ∧ rest = u ++ '[' :: more := by
      rcases List.append_eq_append_iff.1 hs with ⟨u, hbase, hrest⟩ | ⟨u, rfl, hrest⟩
      · cases u with
        | nil => exact ⟨[], by simp, hrest.symm⟩
        | cons c u =>
          obtain rfl : '[' = c := (List.cons.inj hrest).1
          have hmem : '[' ∈ p.chars := by rw [← hb, hbase]; simp
          exact absurd (p.chars_char _ hmem) (by decide)
      · exact ⟨u, fun c hc => hw c (List.mem_append_right _ hc), hrest⟩
    have hnone : ∀ v ∈ locations, '[' ∉ v.toList := by decide
    refine hnone _ (hleft _ (firstWord_of_solid (fun c hc => isBlank_of_isIdentChar (hu c hc))
      (by decide) more)) ?_
    rw [String.toList_ofList]
    simp
  · have htoken : (Brackets.token d).chars.getLast? = some ']' := by
      rw [Brackets.token, Token.chars, ← List.cons_append, List.getLast?_concat]
    simp [hb, List.getLast?_append, htoken]

theorem named_of_base? {qualified : Option String × String} {b : String}
    (h : base? qualified = some b) : Named b.toList :=
  (base_cases h).elim named_of_userPrefix? named_of_elementaryPrefix?

/-- Behind the qualifier of a structure its space stays, unless a data location is dropped there. -/
theorem exists_behind_struct {s : String} (h : "struct ".toList <+: s.toList) :
    ∃ c more, (c = ' ' ∨ c = '[') ∧
      withoutInnerLocations s = .ofList ("struct".toList ++ c :: more) := by
  obtain ⟨rest, hs⟩ := h
  have hs : s.toList = "struct".toList ++ ' ' :: rest := hs.symm
  have hquiet : Quiet "struct".toList (' ' :: rest) := .of_no_blank (by decide)
  rw [withoutInnerLocations, replaceAll_eq, hs, replaced_quiet hquiet]
  rcases replaced_cons ("struct".toList.reverse ++ []) ' ' rest with heq | ⟨more, heq⟩
  · exact ⟨' ', _, .inl rfl, by rw [heq]⟩
  · exact ⟨'[', more, .inr rfl, by rw [heq]⟩

/-- A structure is given a location: its qualifier asks for one, or the dimension that came to stand
right behind the word. -/
theorem location_of_struct {s b : String} (h : "struct ".toList <+: s.toList)
    (hbase : base? (splitQualifier (withoutInnerLocations s)) = some b) :
    needsLocation b = true ∨ (splitQualifier (withoutInnerLocations s)).1 = some "struct" := by
  obtain ⟨c, more, hc, heq⟩ := exists_behind_struct h
  rw [heq] at hbase ⊢
  rcases hc with rfl | rfl
  · rw [splitQualifier_of_mem (by decide) (by decide), String.ofList_toList]
    exact .inr rfl
  · have hnone : splitQualifier (.ofList ("struct".toList ++ '[' :: more)) =
        (none, .ofList ("struct".toList ++ '[' :: more)) := by
      refine (splitQualifier_cases _).resolve_right ?_
      rintro ⟨q, hq, rest, htext, -⟩
      rw [String.toList_ofList] at htext
      have hqualifiers : ∀ q ∈ qualifiers, ∀ x ∈ q.toList, isIdentChar x = true := by decide
      have hstruct : ∀ x ∈ "struct".toList, isIdentChar x = true := by decide
      obtain ⟨-, hrest⟩ := append_inj_of_stop hstruct (hqualifiers q hq)
        (by rintro x ⟨⟩; decide) (by rintro x ⟨⟩; decide) htext
      exact absurd (List.cons.inj hrest).1 (by decide)
    rw [hnone] at hbase
    have hedge : ∀ x ∈ ('[' :: more).head?, isWord x = false := by
      rintro x ⟨⟩
      decide +kernel
    have helementary : elementaryPrefix? (.ofList ("struct".toList ++ '[' :: more)) = none :=
      elementaryPrefix?_eq_none (by decide) hedge
        fun hword => hword.not_mem (l := ["struct"]) (by decide) (by decide)
    simp only [base?, helementary, Option.orElse_none] at hbase
    refine .inl ?_
    rw [needsLocation, getLast?_of_bareUserType? (by decide) hbase]
    rfl

/-- A name and a location that may be written in a `returns` clause, read off the text. -/
structure Returnable (text base location : String) : Prop where
  named : Named base.toList
  location_mem : location ∈ ["", " calldata", " memory"]
  located : base.toList.getLast? = some ']' ∨ base = "string" ∨ base = "bytes" ∨
    "struct ".toList <+: (trim text).toList → location ≠ ""
  stands : base.toList <:+: (withoutInnerLocations (trim text)).toList ∨
    "literal_string".toList <+: (withoutInnerLocations (trim text)).toList ∧ base = "string"

theorem returnable_literal {text : String}
    (h : "literal_string".toList <+: (withoutInnerLocations (trim text)).toList) :
    Returnable text "string" " memory" where
  named := ⟨_, .inl ⟨"string", .plain (by decide), rfl⟩, [], (List.append_nil _).symm⟩
  location_mem := by decide
  located _ := by decide
  stands := .inr ⟨h, rfl⟩

theorem exists_returnable {text b : String}
    (h : base? (splitQualifier (withoutInnerLocations (trim text))) = some b) :
    ∃ l, withLocation (withoutInnerLocations (trim text))
      (splitQualifier (withoutInnerLocations (trim text))).1 b = b ++ l ∧ Returnable text b l := by
  obtain ⟨l, hl, heq, hneeds⟩ := exists_location_withLocation (withoutInnerLocations (trim text))
    (splitQualifier (withoutInnerLocations (trim text))).1 b
  refine ⟨l, heq, named_of_base? h, hl, fun hlocated => hneeds ?_, .inl (infix_of_base? h)⟩
  rcases hlocated with hlast | rfl | rfl | hstruct
  · exact .inl (needsLocation_iff.2 (.inl hlast))
  · exact .inl (needsLocation_iff.2 (.inr (.inl rfl)))
  · exact .inl (needsLocation_iff.2 (.inr (.inr rfl)))
  · exact location_of_struct hstruct h

/-- Whatever is read off a text can be returned, and off the spellings of values without a type of
their own nothing is read. -/
theorem ofReported?_returnable (text : String) :
    (∀ s, ofReported? text = some (.type s) → ∃ base location,
      s = base ++ location ∧ Returnable text base location) ∧
    (Internal text.toList → ofReported? text = none) := by
  constructor
  · intro s h
    rcases exists_of_ofReported? h with ⟨hliteral, rfl⟩ | ⟨b, hb, rfl⟩
    · exact ⟨"string", " memory", rfl, returnable_literal hliteral⟩
    · obtain ⟨l, hl, hreturnable⟩ := exists_returnable hb
      exact ⟨b, l, hl, hreturnable⟩
  · intro h
    rw [← String.ofList_toList (s := text)]
    exact h.not_read

/-- An array keeps the location of its outermost dimension only, and a function type is no value to
give back. -/
theorem ofReported?_returnable_points :
    (∃ base location, "Main.Point[] memory" = base ++ location ∧
      Returnable "struct Main.Point memory[] storage ref" base location) ∧
    ofReported? "function (uint256) external" = none := by
  refine ⟨(ofReported?_returnable _).1 _ ?_, (ofReported?_returnable _).2 ?_⟩
  · decide +kernel
  · exact .compound (w := "function") (by decide) (blank_singleton (by decide))

end ReturnFix

end SoliditySession
