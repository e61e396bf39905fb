import SoliditySession.Proofs.Extraction
/- Assignments, steps and comparisons are told apart: what is assigned or stepped is read back, and
a comparison is read back as a whole. -/
namespace SoliditySession
open Pattern Solidity Text

namespace Solidity

def Token.IsGroup : Token → Prop
  | group _ => True
  | _ => False

theorem inert_of_sign {gap : List Char} {c : Char} (hgap : Blank gap) (hc : c ∈ signs)
    (more : List Char) : Inert (gap ++ c :: more) := by
  have hall : ∀ c ∈ signs, (c == '(') = false ∧ (c == '[') = false ∧ isIdentStart c = false := by
    decide
  obtain ⟨hparen, hbracket, hstart⟩ := hall c hc
  obtain ⟨htake, hdrop⟩ := next_blank_append more hgap (isBlank_of_sign hc)
  refine ⟨?_, fun d hd => isIdentChar_of_carriesOn (carriesOn_head? hgap hc more d hd)⟩
  rw [next, htake, hdrop]
  simp only [hparen, hbracket, hstart, Bool.false_eq_true, if_false]

theorem Inert.point (cs : List Char) : Inert ('.' :: cs) := by
  refine ⟨rfl, ?_⟩
  rintro c ⟨⟩
  decide

/-- Accesses go on a name, with groups behind it, up to a member behind these. -/
theorem exists_pieced_of_accesses (accesses : List Access) {rest : List Char} (hrest : Inert rest)
    (hhead : ∀ c ∈ rest.head?, carriesOn c = false) :
    ∃ w front rest', Pieced w front rest' ∧ (∀ t ∈ front, t.IsGroup) ∧
      (w = [] ∨ ∃ v, w = '.' :: v) ∧
        (accesses.map Access.chars).flatten ++ rest = w ++ (written front ++ rest') := by
  induction accesses with
  | nil =>
    have hpath : ∀ c ∈ rest.head?, isPathChar c = false := fun c hc =>
      (Bool.or_eq_false_iff.1 (hhead c hc)).1
    exact ⟨[], [], rest, ⟨nofun, nofun, hrest, hpath⟩, nofun, .inl rfl, rfl⟩
  | cons a accesses ih =>
    obtain ⟨w, front, rest', hpieced, hgroups, hw, hchars⟩ := ih
    cases a with
    | member name =>
      refine ⟨'.' :: name.chars ++ w, front, rest', ⟨?_, hpieced.proper, hpieced.inert,
        hpieced.head⟩, hgroups, .inr ⟨_, rfl⟩, ?_⟩
      · refine List.forall_mem_append.2 ⟨List.forall_mem_cons.2 ⟨by decide, fun c hc => ?_⟩,
          hpieced.name⟩
        rw [isPathChar, name.chars_char c hc, Bool.true_or]
      · rw [List.map_cons, List.flatten_cons, List.append_assoc, hchars, Access.chars,
          List.append_assoc]
    | element index =>
      rw [List.map_cons, List.flatten_cons, List.append_assoc, hchars, Access.chars]
      have hbracket : ∀ {ts : List Token} {cs : List Char},
          ∀ c ∈ (written (index.token :: ts) ++ cs).head?, isPathChar c = false := by
        rintro ts cs c ⟨⟩
        decide
      rcases hw with rfl | ⟨v, rfl⟩
      · exact ⟨[], index.token :: front, rest', ⟨nofun, List.forall_mem_cons.2 ⟨index.proper,
          hpieced.proper⟩, hpieced.inert, hbracket⟩, List.forall_mem_cons.2 ⟨trivial, hgroups⟩,
          .inl rfl, by simp⟩
      · exact ⟨[], [index.token], '.' :: v ++ (written front ++ rest'), ⟨nofun, List.forall_mem_singleton.2 index.proper,
          .point _, hbracket⟩, List.forall_mem_singleton.2 trivial, .inl rfl, by simp⟩

/-- A text with nothing but groups behind its first name is an expression, unless it begins like
a directive. -/
theorem Pieced.ofText_eq {w : List Char} {front : List Token} {rest : List Char}
    (h : Pieced w front rest) (hgroups : ∀ t ∈ front, t.IsGroup)
    (hdirective : ∀ k ∈ ["import", "using"], ¬ Begins k (w ++ (written front ++ rest))) :
    Part.ofText (.ofList (w ++ (written front ++ rest))) =
      .expression (Part.target? (.ofList (w ++ (written front ++ rest)))) := by
  have hword : ∀ gap text, Token.word gap text ∉ front := fun _ _ hmem => hgroups _ hmem
  have hlist : ¬ ∃ gap content, front.head? = some (.list gap content) := by
    rintro ⟨gap, content, hhead⟩
    exact hgroups _ (List.mem_of_mem_head? hhead)
  have hheaded : ∀ {ks : List String}, (∀ k ∈ ks, ∀ c ∈ k.toList, isPathChar c = true) →
      ¬ Headed ks (w ++ (written front ++ rest)) := by
    intro ks hks hcs
    obtain ⟨gap, text, hhead⟩ := h.of_headed hks hcs
    exact hword gap text (List.mem_of_mem_head? hhead)
  have hconstant : ∀ q, ¬ Part.constantLine.Reads (.start (w ++ (written front ++ rest))) q := by
    intro q hq
    rcases h.of_constantLine hq with ⟨-, hmapping⟩ | ⟨ts, ds, c, gap, x, -, hfront, -⟩
    · exact hlist hmapping
    · exact hword gap x.chars (by rw [hfront]; simp)
  refine ofText_eq_expression ⟨hheaded (by decide), hdirective _ (by decide),
    hdirective _ (by decide)⟩ hconstant ?_ (hheaded (by decide))
    fun hcs => hlist (h.of_listed (by decide) hcs)
  cases hq : Part.declarationLine.match? (.ofList (w ++ (written front ++ rest))) with
  | none => rfl
  | some q =>
    rcases h.of_declarationLine hq with ⟨-, hmapping⟩ | ⟨ts, ds, l, ms, gap, x, -, hfront⟩
    · exact absurd hmapping hlist
    · exact absurd (by rw [hfront]; simp) (hword gap x.chars)

section
variable {v : Target} (hword : ∀ c ∈ v.first.chars, isAsciiWord c = true)
  (hfirst : String.ofList v.first.chars ∉ ["import", "using"])
include hword hfirst

theorem Target.ofText_eq {rest : List Char} (hrest : Inert rest)
    (hhead : ∀ c ∈ rest.head?, carriesOn c = false) (hstop : ∀ c ∈ rest.head?, isWord c = false) :
    Part.ofText (.ofList (v.chars ++ rest)) =
      .expression (Part.target? (.ofList (v.chars ++ rest))) := by
  obtain ⟨w, front, rest', hpieced, hgroups, -, hchars⟩ :=
    exists_pieced_of_accesses v.accesses hrest hhead
  have hcut : v.chars ++ rest = v.first.chars ++ w ++ (written front ++ rest') := by
    rw [chars, List.append_assoc, hchars, List.append_assoc]
  have hpath : ∀ c ∈ v.first.chars ++ w, isPathChar c = true :=
    List.forall_mem_append.2 ⟨fun c hc => isPathChar_of_isAsciiWord (hword c hc), hpieced.name⟩
  have hbegins : Begins (.ofList v.first.chars) (v.chars ++ rest) := by
    refine ⟨(v.accesses.map Access.chars).flatten ++ rest, ?_, ?_⟩
    · rw [chars, String.toList_ofList, List.append_assoc]
    · cases v.accesses with
      | nil => exact hstop
      | cons a accesses =>
        cases a with
        | member name =>
          rintro c ⟨⟩
          exact isWord_of_parting (.inr (by decide))
        | element index =>
          rintro c ⟨⟩
          exact isWord_of_parting (.inr (by decide))
  rw [hcut] at hbegins ⊢
  refine Pieced.ofText_eq ⟨hpath, hpieced.proper, hpieced.inert, hpieced.head⟩ hgroups
    fun k hk hk' => hfirst ?_
  have hopening : ∀ k ∈ ["import", "using"], k ∈ openingWords := by decide
  have heq : k = .ofList v.first.chars := hk'.unique hbegins (isWord_openingWords k (hopening k hk))
    fun c hc => isWord_of_isAsciiWord (hword c (by rwa [String.toList_ofList] at hc))
  rwa [← heq]

end

/-- So is a text that begins with an operator. -/
theorem ofText_eq_of_sign {c : Char} (hc : c ∈ signs) (cs : List Char) :
    Part.ofText (.ofList (c :: cs)) = .expression (Part.target? (.ofList (c :: cs))) := by
  have hinert : Inert (c :: cs) := inert_of_sign blank_nil hc cs
  have hpieced : Pieced [] [] (c :: cs) := by
    refine ⟨nofun, nofun, hinert, ?_⟩
    rintro d ⟨⟩
    exact (Bool.or_eq_false_iff.1 (carriesOn_of_sign hc)).1
  refine hpieced.ofText_eq nofun fun k hk hbegins => ?_
  obtain ⟨r, hr, -⟩ := hbegins
  have hhead : ∀ k ∈ ["import", "using"], ∃ d ds, k.toList = d :: ds ∧ d ∉ signs := by
    intro k hk
    rcases List.mem_pair.1 hk with rfl | rfl
    · exact ⟨_, _, rfl, by decide⟩
    · exact ⟨_, _, rfl, by decide⟩
  obtain ⟨d, ds, hd, hnot⟩ := hhead k hk
  rw [hd] at hr
  obtain rfl : c = d := (List.cons.inj hr).1
  exact hnot hc

def assignmentOperators : List String :=
  ["=", "+=", "-=", "*=", "/=", "%=", "|=", "&=", "^=", "<<=", ">>="]

def comparisonOperators : List String := ["==", "!=", "<=", ">=", "<", ">"]

/-- What may stand behind an operator: it is not blank, and does not go on with the operator. -/
def Operand (r : List Char) : Prop := ∃ c, (dropBlank r).head? = some c ∧ c ∉ ['=', '<', '>']

theorem Operand.solid {r : List Char} (h : Operand r) : ∃ c ∈ r, isBlank c = false := by
  obtain ⟨c, hc, -⟩ := h
  have hblank := List.head?_dropWhile_not isBlank r
  rw [dropBlank] at hc
  rw [hc] at hblank
  exact ⟨c, (List.dropWhile_sublist isBlank).subset (List.mem_of_mem_head? hc), by simpa using hblank⟩

theorem Operand.head? {r : List Char} (h : Operand r) (more : List Char) :
    ∀ c ∈ (r ++ more).head?, c ∉ ['=', '<', '>'] := by
  obtain ⟨d, hd, hnot⟩ := h
  cases r with
  | nil => cases hd
  | cons a r =>
    rintro c ⟨⟩
    cases ha : isBlank a with
    | true =>
      intro hmem
      have hall : ∀ c ∈ ['=', '<', '>'], isBlank c = false := by decide
      rw [hall a hmem] at ha
      cases ha
    | false =>
      have hdrop : dropBlank (a :: r) = a :: r := List.dropWhile_cons_of_neg (by simp [ha])
      rw [hdrop] at hd
      rwa [Option.some.inj hd]

theorem signs_append_inj {gap gap' more more' : List Char} {c d : Char} (hgap : Blank gap)
    (hgap' : Blank gap') (hc : c ∈ signs) (hd : d ∈ signs)
    (h : gap ++ c :: more = gap' ++ d :: more') : c :: more = d :: more' := by
  refine (append_inj_of_stop hgap hgap' ?_ ?_ h).2
  · rintro x ⟨⟩
    exact isBlank_of_sign hc
  · rintro x ⟨⟩
    exact isBlank_of_sign hd

/-- Behind a target at the beginning stands the operator that makes it one. -/
theorem Targets.behind {t v : Target} {gap more : List Char} {c : Char} (hgap : Blank gap)
    (hc : c ∈ signs) (h : Targets t.chars (v.chars ++ (gap ++ c :: more))) :
    (∃ op ∈ compoundTexts, ∃ e, e.head? ≠ some '=' ∧ c :: more = op ++ '=' :: e) ∨
      ∃ s ∈ stepWords, ∃ e, c :: more = s.toList ++ e := by
  generalize hcs : v.chars ++ (gap ++ c :: more) = cs at h
  cases h with
  | @assigned gap' op e hgap' hop he hhead =>
    obtain ⟨d, ds, hds, hd⟩ := exists_sign_of_compound hop (e ++ [';'])
    rw [hds] at hcs
    obtain ⟨-, hrest⟩ := Target.append_inj (carriesOn_head? hgap hc more)
      (carriesOn_head? hgap' hd ds) hcs
    refine .inl ⟨op, hop, e ++ [';'], ?_, ?_⟩
    · obtain ⟨a, e, rfl⟩ := List.exists_cons_of_ne_nil he
      exact hhead
    · rw [hds]
      exact signs_append_inj hgap hgap' hc hd hrest
  | @stepsBefore s b b' hs => exact absurd hcs (ne_step hs v _ _)
  | @stepsBehind s b b' hs hb hb' =>
    obtain ⟨d, ds, hds, hd⟩ := exists_sign_of_step hs (b' ++ [';'])
    rw [hds] at hcs
    obtain ⟨-, hrest⟩ := Target.append_inj (carriesOn_head? hgap hc more)
      (carriesOn_head? hb hd ds) hcs
    refine .inr ⟨s, hs, b' ++ [';'], ?_⟩
    rw [hds]
    exact signs_append_inj hgap hb hc hd hrest

/-- A comparison is no assignment with more behind it, and none begins one that its operand could
go on with. -/
theorem comparison_ne_compound {op w : String} (hop : op ∈ comparisonOperators)
    (hw : w ∈ "" :: compoundWords) {r e : List Char} (hr : ∀ c ∈ r.head?, c ∉ ['=', '<', '>'])
    (he : e.head? ≠ some '=') : op.toList ++ r ≠ w.toList ++ '=' :: e := by
  have hshort : ∀ op ∈ comparisonOperators, ∀ w ∈ "" :: compoundWords,
      op.toList <+: w.toList ++ ['='] →
        ∃ c ∈ ['=', '<', '>'], ((w.toList ++ ['=']).drop op.toList.length).head? = some c := by
    decide
  have hlong : ∀ op ∈ comparisonOperators, ∀ w ∈ "" :: compoundWords,
      w.toList ++ ['='] <+: op.toList →
        (op.toList.drop (w.toList ++ ['=']).length).head? = some '=' := by
    decide
  intro heq
  have hcut : op.toList ++ r = (w.toList ++ ['=']) ++ e := by rw [heq]; simp
  rcases List.append_eq_append_iff.1 hcut with ⟨u, hu, rfl⟩ | ⟨u, hu, rfl⟩
  · obtain ⟨c, hc, hhead⟩ := hshort op hop w hw ⟨u, hu.symm⟩
    rw [hu, List.drop_left] at hhead
    refine hr c ?_ hc
    rw [List.head?_append, hhead]
    rfl
  · have hhead := hlong op hop w hw ⟨u, hu.symm⟩
    rw [hu, List.drop_left] at hhead
    exact he (by rw [List.head?_append, hhead]; rfl)

theorem not_targets_comparison {t v : Target} {op : String} (hop : op ∈ comparisonOperators)
    {gap r : List Char} (hgap : Blank gap) (hr : Operand r) :
    ¬ Targets t.chars (v.chars ++ (gap ++ (op.toList ++ (r ++ [';'])))) := by
  have hsign : ∀ op ∈ comparisonOperators, ∃ c ∈ signs, op.toList.head? = some c ∧
      ∀ s ∈ stepWords, s.toList.head? ≠ some c := by decide
  obtain ⟨c, hc, hhead, hstep⟩ := hsign op hop
  obtain ⟨more, hmore⟩ := List.head?_eq_some_iff.1 hhead
  intro h
  have hcons : op.toList ++ (r ++ [';']) = c :: (more ++ (r ++ [';'])) := by rw [hmore]; rfl
  rw [hcons] at h
  rcases h.behind hgap hc with ⟨w, hw, e, he, heq⟩ | ⟨s, hs, e, heq⟩
  · rw [← hcons] at heq
    rcases hw with ⟨w, hw, rfl⟩ | rfl
    · exact comparison_ne_compound hop (List.mem_cons_of_mem _ hw) (hr.head? _) he heq
    · exact comparison_ne_compound hop List.mem_cons_self (hr.head? _) he heq
  · refine hstep s hs ?_
    have hne : ∀ s ∈ stepWords, s.toList ≠ [] := by decide
    obtain ⟨d, ds, hds⟩ := List.exists_cons_of_ne_nil (hne s hs)
    rw [hds] at heq ⊢
    rw [(List.cons.inj heq).1]
    rfl

/-- Behind a target, an assignment operator assigns it. -/
theorem targets_assignment (v : Target) {op : String} (hop : op ∈ assignmentOperators)
    {gap r : List Char} (hgap : Blank gap) (hr : Operand r) :
    Targets v.chars (v.chars ++ (gap ++ (op.toList ++ (r ++ [';'])))) := by
  have hsplit : ∀ op ∈ assignmentOperators, ∃ w ∈ "" :: compoundWords,
      op.toList = w.toList ++ ['='] := by decide
  obtain ⟨w, hw, hsplit⟩ := hsplit op hop
  have hcompound : w.toList ∈ compoundTexts := by
    rcases List.mem_cons.1 hw with rfl | hw
    · exact .inr rfl
    · exact .inl ⟨w, hw, rfl⟩
  have hne : r ≠ [] := by
    rintro rfl
    obtain ⟨c, hc, -⟩ := hr
    cases hc
  have hhead : r.head? ≠ some '=' := by
    intro hhead
    refine hr.head? [] '=' ?_ (by decide)
    rwa [List.append_nil]
  rw [hsplit, List.append_assoc, List.singleton_append]
  exact .assigned hgap hcompound hne hhead

end Solidity

theorem dropBlankEnd_append {cs : List Char} (h : ∃ c ∈ cs, Text.isBlank c = false)
    (before : List Char) :
    Text.dropBlankEnd (before ++ cs) = before ++ Text.dropBlankEnd cs := by
  obtain ⟨c, hc, hblank⟩ := h
  have hne : (Text.dropBlank cs.reverse).isEmpty = false := by
    rw [Bool.eq_false_iff, ne_eq, List.isEmpty_iff]
    intro hnil
    have hall := List.dropWhile_eq_nil_iff.1 hnil c (List.mem_reverse.2 hc)
    rw [hblank] at hall
    cases hall
  have hdrop : Text.dropBlank (cs.reverse ++ before.reverse) =
      Text.dropBlank cs.reverse ++ before.reverse := by
    change (cs.reverse ++ before.reverse).dropWhile Text.isBlank = _
    rw [List.dropWhile_append]
    change (if (Text.dropBlank cs.reverse).isEmpty then _ else _) = _
    rw [hne]
    rfl
  rw [Text.dropBlankEnd, List.reverse_append, hdrop, List.reverse_append, List.reverse_reverse,
    Text.dropBlankEnd]

theorem returnExpression_of_expression {s : Statement} {target : Option String}
    (h : s.part = .expression target) (before : List Statement) :
    returnExpression (before ++ [s]) = some (target.getD s.body) := by
  rw [returnExpression, List.getLast?_append, List.getLast?_singleton, Option.some_or,
    Option.bind_some, h]
  rfl

namespace Statement

theorem body_ofList (cs : List Char) :
    body ⟨.ofList (cs ++ [';'])⟩ = .ofList (Text.dropBlankEnd cs) := by
  rw [body, String.toList_ofList, List.getLast?_append, List.getLast?_singleton,
    List.dropLast_concat]
  rfl

/-- The line is an expression with the target, and at the end of a session it is read back so. -/
def ReadBack (s : Statement) (target : Option String) (expression : String) : Prop :=
  s.part = .expression target ∧ ∀ before, returnExpression (before ++ [s]) = some expression

/-- The line of a target with an operator behind it is an expression. -/
theorem part_behind {v : Target} (hword : ∀ c ∈ v.first.chars, Text.isAsciiWord c = true)
    (hfirst : String.ofList v.first.chars ∉ ["import", "using"]) {op : String}
    (hop : op ∈ assignmentOperators ++ stepWords ++ comparisonOperators) {gap : List Char}
    (hgap : Blank gap) (r : List Char) :
    ofRaw (.ofList (v.chars ++ (gap ++ (op.toList ++ (r ++ [';']))))) =
        ⟨.ofList (v.chars ++ (gap ++ (op.toList ++ (r ++ [';']))))⟩ ∧
      Part.ofText (.ofList (v.chars ++ (gap ++ (op.toList ++ (r ++ [';']))))) =
        .expression (Part.target? (.ofList (v.chars ++ (gap ++ (op.toList ++ (r ++ [';'])))))) := by
  have hsign : ∀ op ∈ assignmentOperators ++ stepWords ++ comparisonOperators,
      ∃ c ∈ signs, op.toList.head? = some c := by decide
  have hnot : ∀ c ∈ signs, Text.isWord c = false := by decide +kernel
  obtain ⟨c, hc, hhead⟩ := hsign op hop
  obtain ⟨more, hmore⟩ := List.head?_eq_some_iff.1 hhead
  constructor
  · obtain ⟨a, as, has, hstart⟩ := v.head?_chars (gap ++ (op.toList ++ (r ++ [';'])))
    refine ofRaw_ofList (c := a) (by rw [has]; rfl)
      (isBlank_of_isIdentChar (isIdentChar_of_isIdentStart hstart)) ?_
    simp only [List.getLast?_append, List.getLast?_singleton, Option.some_or]
  · rw [hmore, List.cons_append]
    refine v.ofText_eq hword hfirst (inert_of_sign hgap hc _) (carriesOn_head? hgap hc _) ?_
    cases gap with
    | nil =>
      rintro d ⟨⟩
      exact hnot c hc
    | cons b gap =>
      rintro d ⟨⟩
      exact isWord_of_isBlank (hgap _ List.mem_cons_self)

theorem readBack_target {v : Target} {cs : List Char}
    (hpart : Part.ofText (.ofList cs) = .expression (Part.target? (.ofList cs)))
    (h : Targets v.chars cs) :
    ReadBack ⟨.ofList cs⟩ (some (.ofList v.chars)) (.ofList v.chars) := by
  have htarget : Part.target? (.ofList cs) = some (.ofList v.chars) :=
    target?_eq_some_iff.2 ⟨v, rfl, by rwa [String.toList_ofList]⟩
  rw [htarget] at hpart
  exact ⟨hpart, returnExpression_of_expression hpart⟩

theorem readBack_body {cs : List Char}
    (hpart : Part.ofText (.ofList (cs ++ [';'])) =
      .expression (Part.target? (.ofList (cs ++ [';']))))
    (h : ∀ t : Target, ¬ Targets t.chars (cs ++ [';'])) :
    ReadBack ⟨.ofList (cs ++ [';'])⟩ none (.ofList (Text.dropBlankEnd cs)) := by
  have htarget : Part.target? (.ofList (cs ++ [';'])) = none := by
    rwa [target?_eq_none_iff, String.toList_ofList]
  rw [htarget] at hpart
  have hreturn := returnExpression_of_expression (s := ⟨.ofList (cs ++ [';'])⟩) hpart
  rw [Option.getD_none, body_ofList] at hreturn
  exact ⟨hpart, hreturn⟩

/-- Assignments and steps of a variable, with members and elements of it, read the variable back;
comparisons are read back as a whole. -/
theorem readBack_operation (v : Target) (hword : ∀ c ∈ v.first.chars, Text.isAsciiWord c = true)
    (hfirst : String.ofList v.first.chars ∉ ["import", "using"]) {gap : List Char}
    (hgap : Blank gap) :
    (∀ op ∈ assignmentOperators, ∀ r, Operand r →
      ReadBack (ofRaw (.ofList (v.chars ++ (gap ++ (op.toList ++ (r ++ [';']))))))
        (some (.ofList v.chars)) (.ofList v.chars)) ∧
    (∀ op ∈ stepWords, ∀ b, Blank b →
      ReadBack (ofRaw (.ofList (v.chars ++ (gap ++ (op.toList ++ (b ++ [';']))))))
        (some (.ofList v.chars)) (.ofList v.chars) ∧
      ReadBack (ofRaw (.ofList (op.toList ++ (gap ++ (v.chars ++ (b ++ [';']))))))
        (some (.ofList v.chars)) (.ofList v.chars)) ∧
    (∀ op ∈ comparisonOperators, ∀ r, Operand r →
      ReadBack (ofRaw (.ofList (v.chars ++ (gap ++ (op.toList ++ (r ++ [';'])))))) none
        (.ofList (v.chars ++ (gap ++ (op.toList ++ Text.dropBlankEnd r))))) := by
  refine ⟨fun op hop r hr => ?_, fun op hop b hb => ⟨?_, ?_⟩, fun op hop r hr => ?_⟩
  · obtain ⟨htext, hpart⟩ := part_behind hword hfirst
      (List.mem_append_left _ (List.mem_append_left _ hop)) hgap r
    rw [htext]
    exact readBack_target hpart (targets_assignment v hop hgap hr)
  · obtain ⟨htext, hpart⟩ := part_behind hword hfirst
      (List.mem_append_left _ (List.mem_append_right _ hop)) hgap b
    rw [htext]
    exact readBack_target hpart (.stepsBehind hop hgap hb)
  · have hsign : ∀ op ∈ stepWords, ∃ c ∈ signs, op.toList.head? = some c := by decide
    obtain ⟨c, hc, hhead⟩ := hsign op hop
    obtain ⟨more, hmore⟩ := List.head?_eq_some_iff.1 hhead
    have hcons : op.toList ++ (gap ++ (v.chars ++ (b ++ [';']))) =
        c :: (more ++ (gap ++ (v.chars ++ (b ++ [';'])))) := by rw [hmore]; rfl
    have hlast : (op.toList ++ (gap ++ (v.chars ++ (b ++ [';'])))).getLast? = some ';' := by
      simp only [List.getLast?_append, List.getLast?_singleton, Option.some_or]
    rw [ofRaw_ofList (by rw [hcons]; rfl) (isBlank_of_sign hc) hlast]
    refine readBack_target ?_ (.stepsBefore hop hgap hb)
    rw [hcons]
    exact ofText_eq_of_sign hc _
  · obtain ⟨htext, hpart⟩ := part_behind hword hfirst (List.mem_append_right _ hop) hgap r
    have hbody : Text.dropBlankEnd (v.chars ++ (gap ++ (op.toList ++ r))) =
        v.chars ++ (gap ++ (op.toList ++ Text.dropBlankEnd r)) := by
      have hend := dropBlankEnd_append hr.solid (v.chars ++ (gap ++ op.toList))
      simpa only [List.append_assoc] using hend
    have hline : v.chars ++ (gap ++ (op.toList ++ (r ++ [';']))) =
        v.chars ++ (gap ++ (op.toList ++ r)) ++ [';'] := by simp only [List.append_assoc]
    rw [htext, ← hbody, hline]
    rw [hline] at hpart
    refine readBack_body hpart fun t ht => not_targets_comparison hop hgap hr (t := t) (v := v) ?_
    rwa [← hline] at ht

/-- A member of an element. -/
def heightTarget : Target :=
  ⟨⟨'x', ['s'], by decide, by decide⟩,
    [.element ⟨"i + 1".toList, by decide⟩, .member ⟨'h', [], by decide, by decide⟩]⟩

theorem readBack_operation_height :
    ReadBack (ofRaw "xs[i + 1].h <<= m == n;") (some "xs[i + 1].h") "xs[i + 1].h" ∧
      ReadBack (ofRaw "++ xs[i + 1].h;") (some "xs[i + 1].h") "xs[i + 1].h" ∧
      ReadBack (ofRaw "xs[i + 1].h <= m ;") none "xs[i + 1].h <= m" := by
  obtain ⟨hassigns, hsteps, hcompares⟩ := readBack_operation heightTarget (by decide) (by decide)
    (by decide : Text.Blank [' '])
  exact ⟨hassigns "<<=" (by decide) " m == n".toList ⟨'m', by decide, by decide⟩,
    (hsteps "++" (by decide) [] (by decide)).2,
    hcompares "<=" (by decide) " m ".toList ⟨'m', by decide, by decide⟩⟩

end Statement
end SoliditySession
