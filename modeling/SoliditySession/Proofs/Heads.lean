import SoliditySession.Proofs.DeclarationLine
/- What a text begins with, and what it can be then. -/
namespace SoliditySession
open Pattern Solidity Text
namespace Solidity

/-- The text begins with the word, which ends there. -/
def Begins (w : String) (cs : List Char) : Prop :=
  ∃ r, cs = w.toList ++ r ∧ ∀ c ∈ r.head?, Text.isWord c = false

theorem Begins.unique {v w : String} {cs : List Char} (h : Begins v cs) (h' : Begins w cs)
    (hv : ∀ c ∈ v.toList, Text.isWord c = true) (hw : ∀ c ∈ w.toList, Text.isWord c = true) :
    v = w := by
  obtain ⟨r, rfl, hr⟩ := h
  obtain ⟨t, ht, hstop⟩ := h'
  exact String.toList_inj.1 (append_inj_of_stop hv hw hr hstop ht).1

theorem isWord_openingWords : ∀ k ∈ openingWords, ∀ c ∈ k.toList, Text.isWord c = true := by
  have hall : ∀ k ∈ openingWords, ∀ c ∈ k.toList, Text.isAsciiWord c = true := by decide
  exact fun k hk c hc => isWord_of_isAsciiWord (hall k hk c hc)

theorem Begins.of_edge {k : String} {p q r : Place} (hk : k ∈ openingWords)
    (hword : (word k).Reads p r) (hedge : wordEdge.Reads r q) : Begins k p.ahead := by
  have hpast := reads_word.1 hword
  have hnonempty : ∀ k ∈ openingWords, k.toList ≠ [] := by decide
  have hedge := hedge.2
  rw [hpast.behind, wordEdge_iff (hnonempty k hk)
    (isWord_openingWords k hk _ (List.getLast_mem _))] at hedge
  exact ⟨r.ahead, hpast.ahead, hedge⟩

/-- A word of the list with blanks behind it, and behind these another word. -/
def Headed (ks : List String) (cs : List Char) : Prop :=
  ∃ k ∈ ks, ∃ gap c more, Gap gap ∧ isIdentStart c = true ∧ cs = k.toList ++ (gap ++ c :: more)

/-- A word of the list with a parenthesis behind it. -/
def Listed (ks : List String) (cs : List Char) : Prop :=
  ∃ k ∈ ks, ∃ gap more, Blank gap ∧ cs = k.toList ++ (gap ++ '(' :: more)

theorem Headed.begins {ks : List String} {cs : List Char} (h : Headed ks cs) :
    ∃ k ∈ ks, Begins k cs := by
  obtain ⟨k, hk, gap, c, more, hgap, -, rfl⟩ := h
  exact ⟨k, hk, _, rfl, fun c hc => isWord_of_isBlank (head?_gap_append hgap c hc)⟩

/-- A list of values ends the word before it. -/
theorem isWord_head?_list {gap more : List Char} (hgap : Blank gap) :
    ∀ c ∈ (gap ++ '(' :: more).head?, Text.isWord c = false := by
  intro c hc
  cases gap with
  | nil =>
    obtain rfl : '(' = c := Option.some.inj hc
    exact isWord_of_parting (.inr (by decide))
  | cons b gap =>
    obtain rfl : b = c := Option.some.inj hc
    exact isWord_of_parting (.inl (hgap b List.mem_cons_self))

theorem Listed.begins {ks : List String} {cs : List Char} (h : Listed ks cs) :
    ∃ k ∈ ks, Begins k cs := by
  obtain ⟨k, hk, gap, more, hgap, rfl⟩ := h
  exact ⟨k, hk, _, rfl, isWord_head?_list hgap⟩

section
variable {p q r s : Place} {k : String} {ks : List String} (hk : k ∈ ks)
include hk

theorem Headed.of_reads (hword : (word k).Reads p r) (hblanks : blanks1.Reads r s)
    (hname : identifier.Reads s q) : Headed ks p.ahead := by
  obtain ⟨gap, hgap, hpast⟩ := (spells_gap r s).1 hblanks
  obtain ⟨_, ⟨x, rfl⟩, hx⟩ := (spells_identifier s q).1 hname
  refine ⟨k, hk, gap, x.first, x.rest ++ q.ahead, hgap, x.first_start, ?_⟩
  rw [(reads_word.1 hword).ahead, hpast.ahead, hx.ahead]
  rfl

theorem headed_of_blockHead (h : (Part.blockHead k).Reads p q) : Headed ks p.ahead := by
  obtain ⟨_, ⟨_, ⟨_, ⟨_, hword, hblanks⟩, hname⟩, -⟩, -⟩ := h
  exact .of_reads hk hword hblanks hname

theorem headed_of_namedHead (h : (Part.namedHead k).Reads p q) : Headed ks p.ahead := by
  obtain ⟨_, ⟨_, ⟨_, hword, hblanks⟩, hname⟩, -⟩ := h
  exact .of_reads hk hword hblanks hname

end

theorem headed_of_typeAliasLine {p q : Place} {ks : List String} (hk : "type" ∈ ks)
    (h : Part.typeAliasLine.Reads p q) : Headed ks p.ahead := by
  obtain ⟨_, ⟨_, ⟨_, ⟨_, ⟨_, ⟨_, ⟨_, ⟨_, ⟨_, hword, hblanks⟩, hname⟩, -⟩, -⟩, -⟩, -⟩, -⟩, -⟩, -⟩ := h
  exact .of_reads hk hword hblanks hname

theorem Listed.of_reads {p q r t : Place} {ks : List String} (hwords : (words ks).Reads p r)
    (hblanks : blanks.Reads r t) (hparen : (exactly '(').Reads t q) : Listed ks p.ahead := by
  obtain ⟨k, hk, hpast⟩ := reads_words.1 hwords
  obtain ⟨gap, hgap, hpastgap⟩ := (spells_blanks r t).1 hblanks
  refine ⟨k, hk, gap, q.ahead, hgap, ?_⟩
  rw [hpast.ahead, hpastgap.ahead, (reads_exactly.1 hparen).ahead]
  rfl

section
variable {p q : Place}

/-- The words in front of a name, other than those of functions and events. -/
def headWords : List String :=
  ["type", "enum", "struct", "interface", "library", "abstract", "contract"]

/-- The words in front of the name of a function or an event. -/
def memberWords : List String := ["function", "modifier", "event", "error"]

/-- The words that functions without a name begin with. -/
def listWords : List String := ["constructor", "receive", "fallback"]

theorem headed_of_contractHead (h : Part.contractHead.Reads p q) : Headed headWords p.ahead := by
  obtain ⟨s, ⟨r, hword, hblanks⟩ | rfl, hnamed⟩ := h
  · obtain ⟨gap, hgap, hpast⟩ := (spells_gap r s).1 hblanks
    obtain ⟨_, ⟨_, ⟨t, hcontract, -⟩, -⟩, -⟩ := hnamed
    refine ⟨"abstract", by decide, gap, 'c', "ontract".toList ++ t.ahead, hgap, rfl, ?_⟩
    rw [(reads_word.1 hword).ahead, hpast.ahead, (reads_word.1 hcontract).ahead]
    rfl
  · have hmem : "contract" ∈ headWords := by decide
    exact headed_of_namedHead hmem hnamed

theorem begins_of_importHead (h : Part.importHead.Reads p q) : Begins "import" p.ahead := by
  obtain ⟨r, hword, hedge⟩ := h
  exact .of_edge (by decide) hword hedge

theorem begins_of_usingLine (h : Part.usingLine.Reads p q) : Begins "using" p.ahead := by
  obtain ⟨_, ⟨_, ⟨_, ⟨_, ⟨_, ⟨_, ⟨_, ⟨s, ⟨r, hword, hblanks⟩, -⟩, -⟩, -⟩, -⟩, -⟩, -⟩, -⟩, -⟩ := h
  obtain ⟨gap, hgap, hpast⟩ := (spells_gap r s).1 hblanks
  refine ⟨r.ahead, (reads_word.1 hword).ahead, ?_⟩
  rw [hpast.ahead]
  exact fun c hc => isWord_of_isBlank (head?_gap_append hgap c hc)

theorem headed_or_listed_of_functionHead (h : Part.functionHead.Reads p q) :
    Headed memberWords p.ahead ∨ Listed listWords p.ahead := by
  rcases h with ⟨_, ⟨_, ⟨r, hwords, hblanks⟩, hname⟩, -⟩ | ⟨t, ⟨r, hwords, hblanks⟩, hparen⟩
  · obtain ⟨k, hk, hpast⟩ := reads_words.1 hwords
    have hsub : ∀ k ∈ ["function", "modifier"], k ∈ memberWords := by decide
    exact .inl (.of_reads (hsub k hk) (reads_word.2 hpast) hblanks hname)
  · exact .inr (.of_reads hwords hblanks hparen)

theorem headed_of_eventHead (h : Part.eventHead.Reads p q) : Headed memberWords p.ahead := by
  obtain ⟨_, ⟨_, ⟨_, ⟨r, hwords, hblanks⟩, hname⟩, -⟩, -⟩ := h
  obtain ⟨k, hk, hpast⟩ := reads_words.1 hwords
  have hsub : ∀ k ∈ ["event", "error"], k ∈ memberWords := by decide
  exact .of_reads (hsub k hk) (reads_word.2 hpast) hblanks hname

end

/-- A text that begins like nothing that is known by its first word before declarations are. -/
structure Plain (cs : List Char) : Prop where
  notHeaded : ¬ Headed headWords cs
  notImport : ¬ Begins "import" cs
  notUsing : ¬ Begins "using" cs

theorem Plain.of_not_begins {cs : List Char} (h : ∀ k ∈ openingWords, ¬ Begins k cs) :
    Plain cs := by
  have hsub : ∀ k ∈ headWords, k ∈ openingWords := by decide
  refine ⟨fun hheaded => ?_, h _ (by decide), h _ (by decide)⟩
  obtain ⟨k, hk, hbegins⟩ := hheaded.begins
  exact h k (hsub k hk) hbegins

section
variable {cs : List Char}

theorem ofText_eq_of_plain (h : Plain cs) : Part.ofText (.ofList cs) =
    match Part.constant? (.ofList cs) with
    | some part => part
    | none =>
      match Part.declaration? (.ofList cs) with
      | some part => part
      | none =>
        if Part.functionHead.matches? (.ofList cs) then .function
        else if Part.eventHead.matches? (.ofList cs) then .event
        else .expression (Part.target? (.ofList cs)) := by
  rw [Part.ofText, matches?_eq_false fun _ hq => h.notImport (begins_of_importHead hq),
    matches?_eq_false fun _ hq => h.notHeaded (headed_of_typeAliasLine (by decide) hq),
    matches?_eq_false fun _ hq => h.notHeaded (headed_of_blockHead (by decide) hq),
    matches?_eq_false fun _ hq => h.notHeaded (headed_of_blockHead (by decide) hq),
    matches?_eq_false fun _ hq => h.notHeaded (headed_of_namedHead (by decide) hq),
    matches?_eq_false fun _ hq => h.notHeaded (headed_of_namedHead (by decide) hq),
    matches?_eq_false fun _ hq => h.notHeaded (headed_of_contractHead hq),
    matches?_eq_false fun _ hq => h.notUsing (begins_of_usingLine hq)]
  rfl

theorem constant?_eq_none (hconstant : ∀ q, ¬ Part.constantLine.Reads (.start cs) q) :
    Part.constant? (.ofList cs) = none := by
  have hnone : Part.constantLine.match? (.ofList cs) = none := by
    rwa [match?_eq_none_iff, String.toList_ofList]
  rw [Part.constant?, hnone]
  rfl

variable (h : Plain cs) (hconstant : ∀ q, ¬ Part.constantLine.Reads (.start cs) q)
include h hconstant

theorem ofText_eq_declaration {part : Part} (hpart : Part.declaration? (.ofList cs) = some part) :
    Part.ofText (.ofList cs) = part := by
  rw [ofText_eq_of_plain h, constant?_eq_none hconstant, hpart]

theorem ofText_eq_expression (hdeclaration : Part.declarationLine.match? (.ofList cs) = none)
    (hheaded : ¬ Headed memberWords cs) (hlisted : ¬ Listed listWords cs) :
    Part.ofText (.ofList cs) = .expression (Part.target? (.ofList cs)) := by
  have hnone : Part.declaration? (.ofList cs) = none := by
    rw [Part.declaration?, hdeclaration]
    rfl
  rw [ofText_eq_of_plain h, constant?_eq_none hconstant, hnone,
    matches?_eq_false fun _ hq => (headed_or_listed_of_functionHead hq).elim hheaded hlisted,
    matches?_eq_false fun _ hq => hheaded (headed_of_eventHead hq)]
  rfl

end

theorem reads_constantLine {p q : Place} (h : Part.constantLine.Reads p q) :
    ∃ (w : List Char) (r : Place) (ds : List Brackets) (c : Word ["constant"]) (gap : List Char)
      (x : Identifier) (b v : List Char), w ∈ baseTexts ∧ typeBase.Reads p r ∧ p.Past w r ∧
        Gap gap ∧ Blank b ∧ v ≠ [] ∧
        r.ahead = written (ds.map Brackets.token) ++
          (written [c.token, .word gap x.chars] ++ (b ++ '=' :: (v ++ [';']))) ∧
        q.marks = ("name", x.chars) :: ("type", w ++ written (ds.map Brackets.token)) :: p.marks := by
  obtain ⟨_, ⟨j, ⟨i, ⟨g, ⟨f, ⟨e, ⟨d, ⟨c, ⟨b, ⟨_, ⟨s, ⟨r, hbase, hds⟩, rfl⟩, hgap⟩, hword⟩, hgap'⟩,
    t, hx, rfl⟩, hb⟩, hequals⟩, hb'⟩, hv⟩, hsemicolon⟩, rfl, hend⟩ := h
  obtain ⟨w, hw, hpast⟩ := exists_base_of_reads hbase
  obtain ⟨_, ⟨ds, rfl⟩, hds⟩ := (spells_dimensions r s).1 hds
  obtain ⟨gap, hgap, hpastgap⟩ := (spells_gap _ b).1 hgap
  have hword := reads_word.1 hword
  obtain ⟨gap', hgap', hpastgap'⟩ := (spells_gap c d).1 hgap'
  obtain ⟨_, ⟨x, rfl⟩, hx⟩ := (spells_identifier d t).1 hx
  obtain ⟨b₁, hb₁, hpastb⟩ := (spells_blanks _ f).1 hb
  have hequals := reads_exactly.1 hequals
  obtain ⟨b₂, hb₂, hpastb'⟩ := (spells_blanks g i).1 hb'
  obtain ⟨v, hv, hpastv⟩ := (spells_any i j).1 hv
  have hsemicolon := reads_exactly.1 hsemicolon
  have hnil : q.ahead = [] := by simpa using hend
  have hvalue : t.ahead = b₁ ++ '=' :: (b₂ ++ v ++ [';']) := by
    have h := hpastb.ahead
    rw [hequals.ahead, hpastb'.ahead, hpastv.ahead, hsemicolon.ahead, hnil] at h
    simpa using h
  have hbefore : s.ahead = gap ++ b.ahead := hpastgap.ahead
  refine ⟨w, r, ds, ⟨gap, "constant", hgap, by decide⟩, gap', x, b₁, b₂ ++ v, hw, hbase, hpast,
    hgap', hb₁, List.append_ne_nil_of_right_ne_nil _ hv, ?_, ?_⟩
  · rw [hds.ahead, hbefore, hword.ahead, hpastgap'.ahead, hx.ahead, hvalue]
    simp [Word.token, Token.chars]
  · rw [hsemicolon.marks, hpastv.marks, hpastb'.marks, hequals.marks, hpastb.marks]
    change ("name", d.upTo t) :: t.marks = _
    rw [hx.upTo_eq, hx.marks, hpastgap'.marks, hword.marks, hpastgap.marks]
    change _ :: ("type", p.upTo s) :: s.marks = _
    rw [(hpast.trans hds).upTo_eq, hds.marks, hpast.marks]

theorem exists_of_declarationLine {cs : List Char} {q : Place}
    (h : Part.declarationLine.match? (.ofList cs) = some q) :
    ∃ (w : List Char) (ds : List Brackets) (l : Option (Word locations))
      (ms : List (Word modifierWords)) (gap : List Char) (x : Identifier) (end' : List Char)
      (v : Option (List Char)), w ∈ baseTexts ∧ Gap gap ∧ Closes end' v ∧
        cs = w ++ (written (ds.map Brackets.token ++ l.toList.map Word.token) ++
          (written (ms.map Word.token ++ [.word gap x.chars]) ++ end')) ∧
        q.marks = v.toList.map (Prod.mk "value") ++ [("name", x.chars),
          ("type", w ++ written (ds.map Brackets.token ++ l.toList.map Word.token))] := by
  rw [match?, String.toList_ofList, matchAt?_declarationLine] at h
  obtain ⟨r, hbase, h⟩ := exists_reads h
  obtain ⟨w, hw, hpast⟩ := exists_base_of_reads hbase
  obtain ⟨ds, l, ms, gap, x, end', v, hgap, hcloses, hahead, hmarks⟩ := exists_of_behindBase hpast h
  refine ⟨w, ds, l, ms, gap, x, end', v, hw, hgap, hcloses, ?_, hmarks⟩
  rw [← hahead]
  exact hpast.ahead

/-- Nothing in front of the name of a declaration is the word for constants. -/
theorem isIn_constant {w : List Char} {ts : List Token} (ho : Opening w ts) (ds : List Brackets)
    (l : Option (Word locations)) (ms : List (Word modifierWords)) :
    ∀ t ∈ ts ++ (ds.map Brackets.token ++ l.toList.map Word.token) ++ ms.map Word.token,
      t.isIn ["constant"] = false := by
  have hmodifier : ∀ s ∈ modifierWords, s ∉ ["constant"] := by decide
  exact List.forall_mem_append.2 ⟨List.forall_mem_append.2
    ⟨ho.isIn (by decide) fun _ => by decide, isIn_front (by decide) ds l⟩,
    List.forall_mem_map.2 fun m _ => Token.isIn_word (hmodifier _ m.listed)⟩

namespace Pieced
variable {w : List Char} {front : List Token} {rest : List Char}

theorem of_headed (h : Pieced w front rest) {ks : List String}
    (hks : ∀ k ∈ ks, ∀ c ∈ k.toList, isPathChar c = true)
    (hcs : Headed ks (w ++ (written front ++ rest))) :
    ∃ gap text, front.head? = some (.word gap text) := by
  obtain ⟨k, hk, gap, c, more, hgap, hc, heq⟩ := hcs
  obtain ⟨-, hrest⟩ := append_inj_of_stop h.name (hks k hk) h.head
    (fun x hx => isPathChar_of_isBlank (head?_gap_append hgap x hx)) heq
  refine ⟨gap, (c :: more).takeWhile isIdentChar, ?_⟩
  rw [← h.next_eq_head?, hrest, next_word hgap.2 hc]
  rfl

theorem of_listed (h : Pieced w front rest) {ks : List String}
    (hks : ∀ k ∈ ks, ∀ c ∈ k.toList, isPathChar c = true)
    (hcs : Listed ks (w ++ (written front ++ rest))) :
    ∃ gap content, front.head? = some (.list gap content) := by
  obtain ⟨k, hk, gap, more, hgap, heq⟩ := hcs
  obtain ⟨-, hrest⟩ := append_inj_of_stop h.name (hks k hk) h.head
    (head?_blank_append hgap (by decide)) heq
  refine ⟨gap, more.takeWhile (!isParen ·), ?_⟩
  rw [← h.next_eq_head?, hrest, next_paren hgap]
  rfl

/-- The base of a type is the name at the beginning, with some of the pieces. -/
theorem of_base (h : Pieced w front rest) {u : List Char} {us : List Token} {cs : List Char}
    (hu : u ∈ baseTexts) (hus : ∀ t ∈ us, t.Proper) (hcs : Closing cs)
    (heq : w ++ (written front ++ rest) = u ++ (written us ++ cs)) :
    (w = "mapping".toList ∧ ∃ gap content, front.head? = some (.list gap content)) ∨
      ∃ ts, Opening w ts ∧ u = w ++ written ts ∧ ts ++ us = front ∧ cs = rest := by
  rcases exists_opening_of_base hu with hmapping | ⟨v, ts, ho, rfl⟩
  · exact .inl (h.of_mapping hmapping heq)
  · have hcut : w ++ (written front ++ rest) = v ++ (written (ts ++ us) ++ cs) := by
      rw [heq, written_append]
      simp only [List.append_assoc]
    obtain ⟨rfl, hfront, hrest⟩ := h.of_opening ho hus hcs hcut
    exact .inr ⟨ts, ho, rfl, hfront, hrest⟩

theorem of_constantLine (h : Pieced w front rest) {q : Place}
    (hq : Part.constantLine.Reads (.start (w ++ (written front ++ rest))) q) :
    (w = "mapping".toList ∧ ∃ gap content, front.head? = some (.list gap content)) ∨
      ∃ (ts : List Token) (ds : List Brackets) (c : Word ["constant"]) (gap : List Char)
        (x : Identifier), Opening w ts ∧
          front = ts ++ ds.map Brackets.token ++ [c.token, .word gap x.chars] ∧
          q.marks = [("name", x.chars), ("type", w ++ written (ts ++ ds.map Brackets.token))] := by
  obtain ⟨u, r, ds, c, gap, x, b, v, hu, -, hpast, hgap, hb, -, hahead, hmarks⟩ :=
    reads_constantLine hq
  have hus : ∀ t ∈ ds.map Brackets.token ++ [c.token, .word gap x.chars], t.Proper := by
    rw [List.forall_mem_append, List.forall_mem_cons, List.forall_mem_singleton]
    exact ⟨WrittenType.proper_dimensions ds, c.proper (by decide), hgap, x.isName_chars⟩
  have heq : w ++ (written front ++ rest) = u ++ (written (ds.map Brackets.token ++
      [c.token, .word gap x.chars]) ++ (b ++ '=' :: (v ++ [';']))) := by
    have h := hpast.ahead
    rw [hahead, ← List.append_assoc (written _), ← written_append] at h
    exact h
  rcases h.of_base hu hus (.inr ⟨b, _, hb, rfl⟩) heq with hmapping | ⟨ts, ho, rfl, hfront, -⟩
  · exact .inl hmapping
  · refine .inr ⟨ts, ds, c, gap, x, ho, by rw [← hfront, List.append_assoc], ?_⟩
    rw [hmarks, written_append, List.append_assoc]
    rfl

theorem of_declarationLine (h : Pieced w front rest) {q : Place}
    (hq : Part.declarationLine.match? (.ofList (w ++ (written front ++ rest))) = some q) :
    (w = "mapping".toList ∧ ∃ gap content, front.head? = some (.list gap content)) ∨
      ∃ (ts : List Token) (ds : List Brackets) (l : Option (Word locations))
        (ms : List (Word modifierWords)) (gap : List Char) (x : Identifier), Opening w ts ∧
          front = ts ++ (ds.map Brackets.token ++ l.toList.map Word.token) ++ ms.map Word.token ++
            [.word gap x.chars] := by
  obtain ⟨u, ds, l, ms, gap, x, cs, v, hu, hgap, hcloses, heq, -⟩ := exists_of_declarationLine hq
  have hus : ∀ t ∈ ds.map Brackets.token ++ l.toList.map Word.token ++
      (ms.map Word.token ++ [.word gap x.chars]), t.Proper :=
    List.forall_mem_append.2 ⟨proper_front ds l, Declaration.proper_modifiers ms hgap x⟩
  rw [← List.append_assoc (written _), ← written_append] at heq
  rcases h.of_base hu hus hcloses.closing heq with hmapping | ⟨ts, ho, -, hfront, -⟩
  · exact .inl hmapping
  · refine .inr ⟨ts, ds, l, ms, gap, x, ho, ?_⟩
    rw [← hfront]
    simp only [List.append_assoc]

end Pieced

end Solidity
end SoliditySession
