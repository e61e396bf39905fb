import SoliditySession.Proofs.DeclarationPieces
/- What the pattern for declarations finds in a written line, for each kind of type. -/
namespace SoliditySession
open Pattern Solidity Text

namespace Solidity

/-- What is read behind the base of a type that begins at `p`. -/
def behindBase (p r : Place) : Option Place :=
  dimensions.run r fun s => (optional (blanks1 ++ words locations)).run s fun t =>
    behindType.run ⟨t.behind, t.ahead, ("type", p.upTo t) :: t.marks⟩ some

theorem matchAt?_declarationLine (p : Place) :
    Part.declarationLine.matchAt? p = typeBase.run p (behindBase p) := by
  unfold Part.declarationLine matchAt? locatedTypeName typeName typeBase behindBase behindType
  simp only [run_append, run_mark, modifierWords]

theorem spells_location : (optional (blanks1 ++ words locations)).Spells
    {w | ∃ l : Option (Word locations), written (l.toList.map Word.token) = w} :=
  spells_optional (spells_word locations)

theorem exists_of_behindBase {p r q : Place} {w : List Char} (hp : p.Past w r)
    (h : behindBase p r = some q) :
    ∃ (ds : List Brackets) (l : Option (Word locations)) (ms : List (Word modifierWords))
      (gap : List Char) (x : Identifier) (cs : List Char) (v : Option (List Char)),
      Gap gap ∧ Closes cs v ∧
        r.ahead = written (ds.map Brackets.token ++ l.toList.map Word.token) ++
          (written (ms.map Word.token ++ [.word gap x.chars]) ++ cs) ∧
        q.marks = v.toList.map (Prod.mk "value") ++ ("name", x.chars) ::
          ("type", w ++ written (ds.map Brackets.token ++ l.toList.map Word.token)) :: p.marks := by
  obtain ⟨s, hs, h⟩ := exists_reads h
  obtain ⟨t, ht, h⟩ := exists_reads h
  obtain ⟨q', hq, h⟩ := exists_reads h
  cases h
  obtain ⟨_, ⟨ds, rfl⟩, hs⟩ := (spells_dimensions r s).1 hs
  obtain ⟨_, ⟨l, rfl⟩, ht⟩ := (spells_location s t).1 ht
  obtain ⟨ms, gap, x, cs, v, hgap, hcs, hahead, hmarks⟩ := reads_behindType hq
  have hread := hp.trans (hs.trans ht)
  refine ⟨ds, l, ms, gap, x, cs, v, hgap, hcs, ?_, ?_⟩
  · rw [hs.ahead, ht.ahead, written_append, List.append_assoc]
    exact congrArg _ (congrArg _ hahead)
  · rw [hmarks, hread.upTo_eq, hread.marks, written_append]

namespace Declaration
variable (d : Declaration)

/-- The match tells what is declared. -/
structure Found (q : Place) : Prop where
  name : q.mark? "name" = some (.ofList d.name.chars)
  type : q.mark? "type" = some (.ofList d.typeChars)
  value : (q.mark? "value").map Text.trim = d.initialiser.map fun i => Text.trim (.ofList i.text)

theorem closing_closing : Closing d.closing := by
  rw [closing]
  cases d.initialiser with
  | none => exact .inl rfl
  | some i => exact .inr ⟨i.gap, i.text ++ [';'], i.isBlank, by simp [Initialiser.chars]⟩

theorem proper_modifiers (ms : List (Word modifierWords)) {gap : List Char} (hgap : Gap gap)
    (x : Identifier) : ∀ t ∈ ms.map Word.token ++ [.word gap x.chars], t.Proper := by
  rw [List.forall_mem_append, List.forall_mem_map, List.forall_mem_singleton]
  exact ⟨fun w _ => w.proper (by decide), hgap, x.isName_chars⟩

theorem value_eq {v : Option (List Char)} (h : Closes d.closing v) :
    (v.map fun e => Text.trim (.ofList e)) =
      d.initialiser.map fun i => Text.trim (.ofList i.text) := by
  generalize hcs : d.closing = cs at h
  cases hi : d.initialiser with
  | none =>
    have hplain : d.closing = [';'] := by rw [closing, hi]; rfl
    rw [hplain] at hcs
    cases h with
    | plain => rfl
    | @value b b' e hb hb' he =>
      have hlength := congrArg List.length hcs
      simp only [List.length_append, List.length_cons, List.length_nil] at hlength
      omega
  | some i =>
    have hsome : d.closing = i.gap ++ '=' :: (i.text ++ [';']) := by
      rw [closing, hi]
      simp [Initialiser.chars]
    rw [hsome] at hcs
    cases h with
    | plain =>
      have hlength := congrArg List.length hcs
      simp only [List.length_append, List.length_cons, List.length_nil] at hlength
      omega
    | @value b b' e hb hb' he =>
      obtain ⟨-, hcons⟩ := append_inj_of_stop i.isBlank hb (by rintro c ⟨⟩; decide)
        (by rintro c ⟨⟩; decide) hcs
      rw [← List.append_assoc] at hcons
      have htext : i.text = b' ++ e := List.append_cancel_right (List.cons.inj hcons).2
      have hdrop : Text.dropBlank (b' ++ e) = Text.dropBlank e :=
        List.dropWhile_append_of_pos hb'
      rw [Option.map_some, Option.map_some, htext]
      simp only [Text.trim, String.toList_ofList, hdrop]

/-- A match that reads what stands behind the type as it is meant tells what is declared. -/
theorem found_of_behind {q r : Place} {w : List Char} (hw : (Place.start d.chars).Past w r)
    {front : List Token} {ms : List (Word modifierWords)} {gap : List Char} {x : Identifier}
    {cs : List Char} {v : Option (List Char)} (hgap : Gap gap) (hcs : Closes cs v)
    (hahead : r.ahead =
      written front ++ (written (ms.map Word.token ++ [.word gap x.chars]) ++ cs))
    (hmarks : q.marks = v.toList.map (Prod.mk "value") ++ ("name", x.chars) ::
      [("type", w ++ written front)])
    (hbehind : written (ms.map Word.token ++ [.word gap x.chars]) ++ cs = d.behind) :
    d.Found q := by
  have htype : w ++ written front = d.typeChars := by
    have hchars : d.typeChars ++ d.behind = w ++ r.ahead := hw.ahead
    rw [hahead, hbehind, ← List.append_assoc] at hchars
    exact (List.append_cancel_right hchars).symm
  obtain ⟨htokens, rfl⟩ := written_inj (proper_modifiers ms hgap x)
    (proper_modifiers d.modifiers d.isGap d.name) hcs.closing d.closing_closing hbehind
  obtain ⟨-, hlast⟩ := List.append_inj' htokens rfl
  have hname : x.chars = d.name.chars := (Token.word.inj (List.cons.inj hlast).1).2
  rw [htype, hname] at hmarks
  have hvalue := d.value_eq hcs
  refine ⟨?_, ?_, ?_⟩
  · rw [Place.mark?, hmarks]
    cases v <;> rfl
  · rw [Place.mark?, hmarks]
    cases v <;> rfl
  · rw [← hvalue, Place.mark?, hmarks]
    cases v <;> rfl

/-- The line begins with the name of the type, and pieces stand behind it. -/
theorem pieced {w : List Char} {front : List Token} (hw : ∀ c ∈ w, isPathChar c = true)
    (hfront : ∀ t ∈ front, t.Proper) :
    Pieced w (front ++ (d.modifiers.map Word.token ++ [.word d.gap d.name.chars])) d.closing := by
  have hproper := List.forall_mem_append.2
    ⟨hfront, proper_modifiers d.modifiers d.isGap d.name⟩
  exact ⟨hw, hproper, d.closing_closing.inert, head?_written hproper d.closing_closing.head?⟩

theorem chars_pieced {w : List Char} {front : List Token} (htype : d.typeChars = w ++ written front) :
    d.chars = w ++ (written (front ++
      (d.modifiers.map Word.token ++ [.word d.gap d.name.chars])) ++ d.closing) := by
  rw [chars, htype, behind, written_append front]
  simp only [List.append_assoc]

/-- A text that begins with the name of a type and goes on with pieces is read in that way. -/
theorem eq_of_opening {w : List Char} {front : List Token} (hw : ∀ c ∈ w, isPathChar c = true)
    (hfront : ∀ t ∈ front, t.Proper) (htype : d.typeChars = w ++ written front)
    {w' : List Char} {ts us : List Token} {r : Place} (ho : Opening w' ts)
    (hr : (Place.start d.chars).Past (w' ++ written ts) r) {cs : List Char}
    (hus : ∀ t ∈ us, t.Proper) (hcs : Closing cs) (hahead : r.ahead = written us ++ cs) :
    w' = w ∧ ts ++ us = front ++ (d.modifiers.map Word.token ++ [.word d.gap d.name.chars]) ∧
      cs = d.closing := by
  refine (d.pieced hw hfront).of_opening ho hus hcs ?_
  have hchars : d.chars = w' ++ written ts ++ r.ahead := hr.ahead
  rw [← d.chars_pieced htype, hchars, hahead, written_append]
  simp only [List.append_assoc]

end Declaration

def Token.isIn (l : List String) : Token → Bool
  | word _ text => l.any (·.toList == text)
  | _ => false

section
variable {l : List String}

theorem Token.isIn_word {gap : List Char} {s : String} (h : s ∉ l) :
    (Token.word gap s.toList).isIn l = false := by
  refine List.any_eq_false.2 fun t ht heq => h ?_
  rwa [← String.toList_inj.1 (beq_iff_eq.1 heq)]

theorem Word.isIn_token (w : Word l) : w.token.isIn l = true :=
  List.any_eq_true.2 ⟨w.text, w.listed, beq_self_eq_true _⟩

/-- Dimensions and a data location. -/
theorem isIn_front (hl : ∀ s ∈ locations, s ∉ l) (ds : List Brackets)
    (a : Option (Word locations)) :
    ∀ t ∈ ds.map Brackets.token ++ a.toList.map Word.token, t.isIn l = false := by
  rw [List.forall_mem_append, List.forall_mem_map, List.forall_mem_map]
  exact ⟨fun _ _ => rfl, fun w _ => Token.isIn_word (hl _ w.listed)⟩

theorem isIn_results (hl : "returns" ∉ l) (rs : Option Results) :
    ∀ t ∈ (rs.map Results.tokens).getD [], t.isIn l = false := by
  cases rs with
  | none => exact nofun
  | some r =>
    rw [Option.map_some, Option.getD_some, Results.tokens, List.forall_mem_cons,
      List.forall_mem_singleton]
    exact ⟨Token.isIn_word hl, rfl⟩

theorem Opening.isIn {w : List Char} {ts : List Token} (h : Opening w ts) (hl : "payable" ∉ l)
    (hw : w = "function".toList → ∀ s ∈ "returns" :: attributeWords, s ∉ l) :
    ∀ t ∈ ts, t.isIn l = false := by
  cases h with
  | name => exact nofun
  | payable =>
    rw [List.forall_mem_singleton]
    exact Token.isIn_word hl
  | function ps ws rs =>
    obtain ⟨hreturns, hattributes⟩ := List.forall_mem_cons.1 (hw rfl)
    rw [WrittenType.functionTokens, List.forall_mem_cons, List.forall_mem_append,
      List.forall_mem_map]
    exact ⟨rfl, fun w _ => Token.isIn_word (hattributes _ w.listed), isIn_results hreturns rs⟩

end

theorem proper_front (ds : List Brackets) (l : Option (Word locations)) :
    ∀ t ∈ ds.map Brackets.token ++ l.toList.map Word.token, t.Proper := by
  rw [List.forall_mem_append, List.forall_mem_map, List.forall_mem_map]
  exact ⟨fun d _ => d.proper, fun w _ => w.proper (by decide)⟩

/-- The modifiers and the name are the same in whatever way the pieces before them are read. -/
theorem modifiers_inj {front front' : List Token} {ms ms' : List (Word modifierWords)}
    {n n' : Token} (hfront : ∀ t ∈ front, t.isIn modifierWords = false)
    (hfront' : ∀ t ∈ front', t.isIn modifierWords = false)
    (h : front ++ (ms.map Word.token ++ [n]) = front' ++ (ms'.map Word.token ++ [n'])) :
    ms.map Word.token ++ [n] = ms'.map Word.token ++ [n'] := by
  rw [← List.append_assoc, ← List.append_assoc] at h
  obtain ⟨hinit, hlast⟩ := List.append_inj' h rfl
  have hmodifiers : ∀ ms : List (Word modifierWords),
      (ms.map Word.token).filter (Token.isIn modifierWords) = ms.map Word.token := fun ms =>
    List.filter_eq_self.2 (List.forall_mem_map.2 fun w _ => w.isIn_token)
  have hnone : ∀ {front : List Token}, (∀ t ∈ front, t.isIn modifierWords = false) →
      front.filter (Token.isIn modifierWords) = [] := fun h =>
    List.filter_eq_nil_iff.2 fun t ht => by rw [h t ht]; exact Bool.false_ne_true
  have hfilter := congrArg (List.filter (Token.isIn modifierWords)) hinit
  rw [List.filter_append, List.filter_append, hnone hfront, hnone hfront', hmodifiers,
    hmodifiers] at hfilter
  rw [List.nil_append, List.nil_append] at hfilter
  rw [hfilter, hlast]

/-- Where no piece before the last is a modifier, none is read as one. -/
theorem no_modifiers {front front' : List Token} {ms : List (Word modifierWords)} {n n' : Token}
    (hfront : ∀ t ∈ front, t.isIn modifierWords = false)
    (h : front ++ [n] = front' ++ (ms.map Word.token ++ [n'])) : ms = [] ∧ n' = n := by
  rw [← List.append_assoc] at h
  obtain ⟨hinit, hlast⟩ := List.append_inj' h rfl
  refine ⟨List.eq_nil_iff_forall_not_mem.2 fun m hm => ?_, (List.singleton_inj.1 hlast).symm⟩
  have hnot := hfront m.token (by rw [hinit]; exact List.mem_append_right _ (List.mem_map_of_mem hm))
  rw [m.isIn_token] at hnot
  cases hnot

/-- Words without digits are no built-in types beyond the plain ones. -/
theorem Elementary.not_mem {s : String} (h : Elementary s) {l : List String}
    (hl : ∀ k ∈ l, k ∉ ["address", "address payable", "bool", "string", "bytes", "uint", "int",
      "fixed", "ufixed"] ∧ ∀ c ∈ k.toList, c.isDigit = false) : s ∉ l := by
  intro hs
  obtain ⟨hplain, hdigit⟩ := hl s hs
  have hnumber : ∀ {v w : String}, s = v ++ w → w.toList ≠ [] →
      (∀ c ∈ w.toList, c.isDigit = true) → False := by
    rintro v w rfl hne hw
    obtain ⟨c, hc⟩ := List.exists_mem_of_ne_nil _ hne
    have hnot := hdigit c (by rw [String.toList_append]; exact List.mem_append_right _ hc)
    rw [hw c hc] at hnot
    cases hnot
  have hnat : ∀ n : Nat, (toString n).toList ≠ [] := by
    intro n
    rw [Nat.toString_eq_repr, Nat.toList_repr]
    exact Nat.toDigits_ne_nil
  cases h with
  | plain h => exact hplain h
  | bytesOf => exact hnumber rfl (hnat _) fun c => isDigit_of_mem_toString
  | integer => exact hnumber rfl (hnat _) fun c => isDigit_of_mem_toString
  | @fixedPoint s m n hs hm hn =>
    have hsplit : s ++ (m ++ ("x" ++ n)) = s ++ (m ++ "x") ++ n := by simp [String.append_assoc]
    exact hnumber hsplit (List.ne_nil_of_length_pos hn.1) hn.2

/-- No built-in type begins a statement or a compound type. -/
theorem Elementary.not_reserved {s : String} (h : Elementary s) : s ∉ reservedWords :=
  h.not_mem (by decide)

theorem NamedType.exists_opening (n : NamedType) : ∃ w ts, Opening w ts ∧
    n.chars = w ++ written ts ∧ w ≠ "function".toList ∧ w ≠ "mapping".toList := by
  have hcompound : "function" ∈ reservedWords ∧ "mapping" ∈ reservedWords := by decide
  cases n with
  | elementary name builtIn =>
    have hne : ∀ k ∈ reservedWords, name.toList ≠ k.toList := by
      rintro k hk heq
      rw [String.toList_inj.1 heq] at builtIn
      exact builtIn.not_reserved hk
    rcases builtIn.chars with rfl | ⟨-, hchars⟩
    · exact ⟨_, _, .payable, rfl, by decide, by decide⟩
    · exact ⟨name.toList, [], .name fun c hc => isPathChar_of_isAsciiWord (hchars c hc),
        (List.append_nil _).symm, hne _ hcompound.1, hne _ hcompound.2⟩
  | path p words notReserved =>
    have hne : ∀ k ∈ reservedWords, '.' ∉ k.toList → p.chars ≠ k.toList := by
      rintro k hk hpoint heq
      rw [← heq] at hpoint
      rw [← Path.chars_eq_first hpoint, heq, String.ofList_toList] at notReserved
      exact notReserved hk
    exact ⟨p.chars, [], .name p.isPathChar_chars, (List.append_nil _).symm,
      hne _ hcompound.1 (by decide), hne _ hcompound.2 (by decide)⟩

theorem run_ne_none {α : Type} {a : Pattern} {p q : Place} {k : Place → Option α}
    (h : a.Reads p q) (hk : k q ≠ none) : a.run p k ≠ none := by
  have ho := outcome_run a p k
  generalize a.run p k = x at ho
  cases ho with
  | taken => exact Option.some_ne_none _
  | none hnone => exact absurd (hnone q h) hk

namespace Declaration
variable (d : Declaration)

theorem behindBase_ne_none (p : Place) (behind : List Char) (marks : List (String × List Char)) :
    behindBase p ⟨behind, written (d.type.dimensions.map Brackets.token) ++
      (written (d.location.toList.map Word.token) ++ d.behind), marks⟩ ≠ none := by
  refine run_ne_none (spells_dimensions.reads ⟨_, rfl⟩ _ _ _)
    (run_ne_none (spells_location.reads ⟨_, rfl⟩ _ _ _) ?_)
  obtain ⟨q, hq⟩ := d.reads_behindType ((written (d.location.toList.map Word.token)).reverse ++
    ((written (d.type.dimensions.map Brackets.token)).reverse ++ behind)) (("type",
      p.upTo ⟨(written (d.location.toList.map Word.token)).reverse ++
        ((written (d.type.dimensions.map Brackets.token)).reverse ++ behind), d.behind, marks⟩) ::
      marks)
  exact run_ne_none hq (Option.some_ne_none q)

theorem chars_eq : d.chars = (d.type.opening ++ d.type.inside) ++
    (written (d.type.dimensions.map Brackets.token) ++
      (written (d.location.toList.map Word.token) ++ d.behind)) := by
  simp only [chars, typeChars, WrittenType.chars, List.append_assoc]

/-- Where the base of the type can be read, and every way of reading it ends in telling what is
declared, the line tells that. -/
theorem exists_found (hread : ∃ q, typeBase.Reads (.start d.chars) q ∧
      (Place.start d.chars).Past (d.type.opening ++ d.type.inside) q)
    (hfound : ∀ r q, typeBase.Reads (.start d.chars) r → behindBase (.start d.chars) r = some q →
      d.Found q) :
    ∃ q, Part.declarationLine.matchAt? (.start d.chars) = some q ∧ d.Found q := by
  rw [matchAt?_declarationLine]
  have ho := outcome_run typeBase (.start d.chars) (behindBase (.start d.chars))
  generalize typeBase.run (.start d.chars) (behindBase (.start d.chars)) = x at ho
  cases ho with
  | taken hr hk => exact ⟨_, rfl, hfound _ _ hr hk⟩
  | none hnone =>
    obtain ⟨⟨behind, ahead, marks⟩, hq, hpast⟩ := hread
    have hahead := hpast.ahead
    change d.chars = _ at hahead
    rw [chars_eq] at hahead
    obtain rfl := List.append_cancel_left hahead
    exact absurd (hnone _ hq) (d.behindBase_ne_none _ _ _)

/-- A type that is given by its name. -/
theorem typeChars_of_named {n : NamedType} {ds : List Brackets} (h : d.type = .named n ds)
    {w : List Char} {ts : List Token} (hn : n.chars = w ++ written ts) : d.typeChars =
      w ++ written (ts ++ (ds.map Brackets.token ++ d.location.toList.map Word.token)) := by
  rw [typeChars, h]
  change (n.chars ++ ([] ++ written (ds.map Brackets.token))) ++ _ = _
  rw [hn]
  simp

/-- The line begins like no mapping unless its first word is the one for mappings. -/
theorem not_mapping {w : List Char} {front : List Token} (hw : ∀ c ∈ w, isPathChar c = true)
    (hne : w ≠ "mapping".toList) (hfront : ∀ t ∈ front, t.Proper)
    (htype : d.typeChars = w ++ written front) {v : List Char} (hv : v ∈ mappingTexts) {r : Place}
    (hpast : (Place.start d.chars).Past v r) : False := by
  have hchars : d.chars = v ++ r.ahead := hpast.ahead
  rw [d.chars_pieced htype] at hchars
  exact hne ((d.pieced hw hfront).of_mapping hv hchars).1

end Declaration

theorem isWord_of_parting {c : Char} (h : Text.isBlank c = true ∨ c ∈ ['.', '[', '(']) :
    Text.isWord c = false := by
  have hall : ∀ c ∈ ['.', '[', '('], Text.isWord c = false := by decide +kernel
  exact h.elim isWord_of_isBlank (hall c)

def Token.IsWord : Token → Prop
  | word .. => True
  | _ => False

theorem Word.isWord_tokens {l : List String} (ws : List (Word l)) :
    ∀ t ∈ ws.map Word.token, t.IsWord :=
  List.forall_mem_map.2 fun _ _ => trivial

namespace Declaration
variable (d : Declaration)

/-- The words behind the type, the data location among them. -/
def tokens : List Token :=
  d.location.toList.map Word.token ++
    (d.modifiers.map Word.token ++ [.word d.gap d.name.chars])

theorem tokens_ne_nil : d.tokens ≠ [] :=
  List.append_ne_nil_of_right_ne_nil _ (List.append_ne_nil_of_right_ne_nil _ (List.cons_ne_nil _ _))

theorem proper_words : ∀ t ∈ d.tokens, t.Proper :=
  List.forall_mem_append.2 ⟨List.forall_mem_map.2 fun w _ => w.proper (by decide),
    proper_modifiers d.modifiers d.isGap d.name⟩

theorem isWord_words : ∀ t ∈ d.tokens, t.IsWord :=
  List.forall_mem_append.2 ⟨Word.isWord_tokens _,
    List.forall_mem_append.2 ⟨Word.isWord_tokens _, List.forall_mem_singleton.2 trivial⟩⟩

theorem chars_words : d.chars = d.type.chars ++ (written d.tokens ++ d.closing) := by
  simp only [chars, typeChars, behind, tokens, written_append, List.append_assoc]

theorem written_words : written d.tokens ++ d.closing =
    written (d.location.toList.map Word.token) ++ d.behind := by
  simp only [tokens, behind, written_append, List.append_assoc]

end Declaration

theorem head?_words {ts : List Token} (hts : ∀ t ∈ ts, t.Proper) (hw : ∀ t ∈ ts, t.IsWord)
    (hne : ts ≠ []) (cs : List Char) : ∀ c ∈ (written ts ++ cs).head?, Text.isBlank c = true := by
  obtain ⟨t, ts, rfl⟩ := List.exists_cons_of_ne_nil hne
  cases t with
  | word gap text =>
    rw [written_cons, Token.chars, List.append_assoc, List.append_assoc]
    exact head?_gap_append (hts _ List.mem_cons_self).1
  | list => exact (hw _ List.mem_cons_self).elim
  | group => exact (hw _ List.mem_cons_self).elim

/-- What stands behind a type name begins with a blank or a bracket. -/
theorem Declaration.head?_behind (d : Declaration) (ds : List Brackets) :
    ∀ c ∈ (written (ds.map Brackets.token) ++
      (written (d.location.toList.map Word.token) ++ d.behind)).head?,
        Text.isBlank c = true ∨ c = '[' := by
  cases ds with
  | cons b ds =>
    rintro c ⟨⟩
    exact .inr rfl
  | nil =>
    rw [List.map_nil, written_nil, List.nil_append, ← written_words]
    exact fun c hc => .inl (head?_words d.proper_words d.isWord_words d.tokens_ne_nil _ c hc)

namespace Declaration
variable (d : Declaration)

theorem reads_named {n : NamedType} {ds : List Brackets} (h : d.type = .named n ds) :
    ∃ q, typeBase.Reads (.start d.chars) q ∧
      (Place.start d.chars).Past (d.type.opening ++ d.type.inside) q := by
  have hbase : d.type.opening ++ d.type.inside = n.chars := by
    rw [h]
    exact List.append_nil _
  have hhead := d.head?_behind d.type.dimensions
  rw [chars_eq, hbase]
  generalize written (d.type.dimensions.map Brackets.token) ++
    (written (d.location.toList.map Word.token) ++ d.behind) = rest at hhead ⊢
  have hpast : (Place.start (n.chars ++ rest)).Past n.chars ⟨n.chars.reverse ++ [], rest, []⟩ :=
    .intro [] n.chars rest []
  refine ⟨_, reads_choice.2 ?_, hpast⟩
  cases n with
  | elementary name builtIn =>
    exact ⟨elementary, by simp, reads_elementary.2 ⟨name, builtIn, hpast, builtIn.wordEdge_iff.2
      fun c hc => isWord_of_parting ((hhead c hc).imp_right fun h => by rw [h]; decide)⟩⟩
  | path p words notReserved =>
    exact ⟨userPath, by simp, (spells_userPath _ _).2 ⟨_, ⟨p, rfl⟩, hpast⟩⟩

theorem found_of_named {n : NamedType} {ds : List Brackets} (h : d.type = .named n ds) :
    ∃ q, Part.declarationLine.matchAt? (.start d.chars) = some q ∧ d.Found q := by
  refine d.exists_found (d.reads_named h) fun r q hr hq => ?_
  obtain ⟨w, ts, ho, hn, hfunction, hmapping⟩ := n.exists_opening
  have htype := d.typeChars_of_named h hn
  have hfront : ∀ t ∈ ts ++ (ds.map Brackets.token ++ d.location.toList.map Word.token),
      t.Proper := List.forall_mem_append.2 ⟨ho.proper, proper_front ds d.location⟩
  rcases reads_typeBase hr with ⟨v, hv, hpast⟩ | ⟨w', ts', ho', hpast⟩
  · exact (d.not_mapping ho.chars hmapping hfront htype hv hpast).elim
  · obtain ⟨ds', l', ms', gap, x, cs, v, hgap, hcs, hahead, hmarks⟩ :=
      exists_of_behindBase hpast hq
    refine d.found_of_behind hpast hgap hcs hahead hmarks ?_
    have hproper : ∀ t ∈ ds'.map Brackets.token ++ l'.toList.map Word.token ++
        (ms'.map Word.token ++ [.word gap x.chars]), t.Proper :=
      List.forall_mem_append.2 ⟨proper_front ds' l', proper_modifiers ms' hgap x⟩
    rw [← List.append_assoc, ← written_append] at hahead
    obtain ⟨rfl, htokens, rfl⟩ :=
      d.eq_of_opening ho.chars hfront htype ho' hpast hproper hcs.closing hahead
    rw [← List.append_assoc] at htokens
    have hnot : ∀ {ts : List Token} (ds : List Brackets) (l : Option (Word locations)),
        Opening w' ts → ∀ t ∈ ts ++ (ds.map Brackets.token ++ l.toList.map Word.token),
          t.isIn modifierWords = false := fun ds l ho =>
      List.forall_mem_append.2 ⟨ho.isIn (by decide) fun h => absurd h hfunction,
        isIn_front (by decide) ds l⟩
    have hmodifiers := modifiers_inj (hnot ds' l' ho') (hnot ds d.location ho) htokens
    rw [hmodifiers]
    rfl

end Declaration

def isCloser (c : Char) : Bool := c == ')' || c == ']'

theorem isCloser_of_isLabelChar {c : Char} (h : isLabelChar c = true) : isCloser c = false := by
  rw [isCloser, Bool.or_eq_false_iff, beq_eq_false_iff_ne, beq_eq_false_iff_ne]
  constructor <;>
  · rintro rfl
    exact absurd h (by decide)

theorem label_written {ts : List Token} (hts : ∀ t ∈ ts, t.Proper) (hw : ∀ t ∈ ts, t.IsWord) :
    Label (written ts) := by
  induction ts with
  | nil => exact nofun
  | cons t ts ih =>
    rw [List.forall_mem_cons] at hts hw
    cases t with
    | word gap text =>
      exact Label.append ((Label.of_blank hts.1.1.2).append
        (.of_ident (isIdentChar_of_isName hts.1.2))) (ih hts.2 hw.2)
    | list => exact hw.1.elim
    | group => exact hw.1.elim

/-- Words with an equals sign behind them assign something. -/
theorem assigns_written {ts : List Token} (hts : ∀ t ∈ ts, t.Proper) (hw : ∀ t ∈ ts, t.IsWord)
    (hne : ts ≠ []) {b v : List Char} (hb : Blank b) : Assigns (written ts ++ (b ++ '=' :: v)) := by
  obtain ⟨t, ts, rfl⟩ := List.exists_cons_of_ne_nil hne
  rw [List.forall_mem_cons] at hts hw
  cases t with
  | word gap text =>
    obtain ⟨hgap, hname⟩ := hts.1
    obtain ⟨c, text, rfl⟩ := List.exists_cons_of_ne_nil (ne_nil_of_isName hname)
    have hmore : Label (text ++ (written ts ++ b)) :=
      Label.append (.of_ident fun x hx => isIdentChar_of_isName hname x (List.mem_cons_of_mem c hx))
        ((label_written hts.2 hw.2).append (.of_blank hb))
    refine ⟨gap, c, _, v, ?_, hgap, (Bool.and_eq_true_iff.1 hname).1, hmore⟩
    simp [Token.chars]
  | list => exact hw.1.elim
  | group => exact hw.1.elim

/-- Two ways of cutting a text behind the last character that is not accepted are one. -/
theorem append_inj_of_last (accepts : Char → Bool) {u v z w : List Char} {c d : Char}
    (hc : accepts c = false) (hd : accepts d = false) (hz : ∀ x ∈ z, accepts x = true)
    (hw : ∀ x ∈ w, accepts x = true) (h : u ++ c :: z = v ++ d :: w) : z = w := by
  have hreverse : z.reverse ++ c :: u.reverse = w.reverse ++ d :: v.reverse := by
    have h := congrArg List.reverse h
    simpa using h
  have hstop : ∀ {a : Char} {l : List Char}, accepts a = false →
      ∀ x ∈ (a :: l).head?, accepts x = false := by
    rintro a l ha x ⟨⟩
    exact ha
  exact List.reverse_inj.1 (append_inj_of_stop (fun x hx => hz x (List.mem_reverse.1 hx))
    (fun x hx => hw x (List.mem_reverse.1 hx)) (hstop hc) (hstop hd) hreverse).1

/-- Two ways of cutting a text behind its last bracket or parenthesis are one. -/
theorem append_inj_of_closer {u v z w : List Char} {c d : Char} (hc : isCloser c = true)
    (hd : isCloser d = true) (hz : ∀ x ∈ z, isCloser x = false) (hw : ∀ x ∈ w, isCloser x = false)
    (h : u ++ c :: z = v ++ d :: w) : z = w := by
  have hnot : ∀ {l : List Char}, (∀ x ∈ l, isCloser x = false) →
      ∀ x ∈ l, (!isCloser x) = true := fun hl x hx => by rw [hl x hx, Bool.not_false]
  exact append_inj_of_last (!isCloser ·) (by rw [hc]; rfl) (by rw [hd]; rfl) (hnot hz)
    (hnot hw) h

theorem NamedType.chars_ne_nil (n : NamedType) : n.chars ≠ [] := by
  cases n with
  | elementary name builtIn =>
    obtain ⟨c, -, hc⟩ := builtIn.head?_mem
    intro hnil
    rw [chars] at hnil
    rw [hnil] at hc
    cases hc
  | path p => exact List.cons_ne_nil _ _

theorem WrittenType.chars_ne_nil (t : WrittenType) : t.chars ≠ [] := by
  refine List.append_ne_nil_of_left_ne_nil ?_ _
  cases t with
  | named n => exact n.chars_ne_nil
  | function => exact (by decide : "function".toList ≠ [])
  | mapping => exact (by decide : "mapping".toList ≠ [])

theorem WrittenType.mem_mappingTexts {t : WrittenType} (h : t.isMapping = true) :
    t.opening ++ t.inside ∈ mappingTexts := by
  cases t with
  | mapping gap key value label hgap hlabel ds =>
    refine ⟨gap, key.before ++ (key.type.chars ++ key.label), key.behind ++ (value.chars ++ label),
      hgap, ?_, ?_, ?_⟩
    · exact List.append_ne_nil_of_right_ne_nil _
        (List.append_ne_nil_of_left_ne_nil key.type.chars_ne_nil _)
    · exact List.append_ne_nil_of_right_ne_nil _
        (List.append_ne_nil_of_left_ne_nil value.chars_ne_nil _)
    · change _ = "mapping".toList ++ (gap ++ '(' :: (key.chars ++ (value.opening ++ (value.inside ++
        (written (value.dimensions.map Brackets.token) ++ (label ++ [')']))))))
      simp only [Key.chars, chars, List.append_assoc]
  | named => cases h
  | function => cases h

/-- A mapping with its dimensions ends in a parenthesis or in a bracket. -/
theorem exists_closer {w : List Char} (hw : w ∈ mappingTexts) (ds : List Brackets) :
    ∃ u c, w ++ written (ds.map Brackets.token) = u ++ [c] ∧ isCloser c = true := by
  rcases List.eq_nil_or_concat' ds with rfl | ⟨ds, d, rfl⟩
  · obtain ⟨gap, u, v, -, -, -, rfl⟩ := hw
    exact ⟨"mapping".toList ++ (gap ++ '(' :: (u ++ ("=>".toList ++ v))), ')', by simp, rfl⟩
  · exact ⟨w ++ (written (ds.map Brackets.token) ++ '[' :: d.content), ']',
      by simp [Brackets.token, Token.chars], rfl⟩

namespace Declaration
variable (d : Declaration)

theorem closing_of_mapping (h : d.type.isMapping = true) : d.closing = [';'] := by
  rw [closing, d.given.resolve_right (by simp [h])]
  rfl

/-- No parenthesis or bracket is closed behind the type of a mapping. -/
theorem isCloser_words (h : d.type.isMapping = true) :
    ∀ c ∈ written d.tokens ++ d.closing, isCloser c = false := by
  rw [d.closing_of_mapping h, List.forall_mem_append, List.forall_mem_singleton]
  exact ⟨fun c hc => isCloser_of_isLabelChar (label_written d.proper_words d.isWord_words c hc),
    by decide⟩

theorem reads_mapping (h : d.type.isMapping = true) : ∃ q, typeBase.Reads (.start d.chars) q ∧
    (Place.start d.chars).Past (d.type.opening ++ d.type.inside) q := by
  rw [chars_eq]
  have hpast := Place.Past.intro [] (d.type.opening ++ d.type.inside)
    (written (d.type.dimensions.map Brackets.token) ++
      (written (d.location.toList.map Word.token) ++ d.behind)) []
  exact ⟨_, reads_choice.2 ⟨mapping anyChar, by simp, (spells_mapping _ _).2
    ⟨_, WrittenType.mem_mappingTexts h, hpast⟩⟩, hpast⟩

/-- Wherever the base of a mapping is taken to end, nothing is assigned behind it. -/
theorem neverAssigns_of_mapping (h : d.type.isMapping = true)
    (hhides : ∀ b ∈ d.type.brackets, ¬ b.Hides) {v : List Char} (hv : v ∈ mappingTexts) {r : Place}
    (hpast : (Place.start d.chars).Past v r) : NeverAssigns r.ahead := by
  have hstops : Stops (written d.tokens ++ d.closing) := by
    rw [d.closing_of_mapping h]
    exact (Stops.cons (by decide) (by decide)).append_label
      (label_written d.proper_words d.isWord_words)
  have hhead : (written d.tokens ++ d.closing).head? ≠ some '[' := by
    intro hhead
    have hblank := head?_words d.proper_words d.isWord_words d.tokens_ne_nil _ _ hhead
    exact absurd hblank (by decide)
  have hclosings := d.type.closingsNeverAssign hhides hstops hhead
  obtain ⟨gap, u, v', -, -, -, rfl⟩ := hv
  have hcut : d.type.chars ++ (written d.tokens ++ d.closing) =
      "mapping".toList ++ (gap ++ '(' :: (u ++ ("=>".toList ++ v'))) ++ ')' :: r.ahead := by
    have hahead := hpast.ahead
    change d.chars = _ at hahead
    rw [← chars_words, hahead]
    simp
  rcases List.append_eq_append_iff.1 hcut with ⟨w, -, hw⟩ | ⟨w, htype, hw⟩
  · have hmem : ')' ∈ written d.tokens ++ d.closing := by
      rw [hw]
      exact List.mem_append_right _ List.mem_cons_self
    exact absurd (d.isCloser_words h _ hmem) (by decide)
  · cases w with
    | nil =>
      have hmem : ')' ∈ written d.tokens ++ d.closing := by
        rw [List.nil_append] at hw
        rw [← hw]
        exact List.mem_cons_self
      exact absurd (d.isCloser_words h _ hmem) (by decide)
    | cons c w =>
      obtain ⟨rfl, htail⟩ := List.cons.inj hw
      rw [htail]
      exact hclosings _ w htype

/-- The base of a mapping is read as nothing else. -/
theorem not_opening_of_mapping (h : d.type.isMapping = true) {w : List Char} {ts us : List Token}
    {r : Place} (ho : Opening w ts) (hr : (Place.start d.chars).Past (w ++ written ts) r)
    {ds : List Brackets} {cs : List Char} (hus : ∀ t ∈ us, t.Proper)
    (hwords : ∀ t ∈ us, t.IsWord) (hne : us ≠ []) (hcs : Closing cs)
    (hahead : r.ahead = written (ds.map Brackets.token) ++ (written us ++ cs)) : False := by
  obtain ⟨gap, u, v, hgap, -, -, hbase⟩ := WrittenType.mem_mappingTexts h
  have hahead' : w ++ (written (ts ++ (ds.map Brackets.token ++ us)) ++ cs) =
      "mapping".toList ++ (gap ++ '(' :: (u ++ ("=>".toList ++ (v ++ ([')'] ++
        (written (d.type.dimensions.map Brackets.token) ++
          (written (d.location.toList.map Word.token) ++ d.behind))))))) := by
    have h := hr.ahead
    change d.chars = _ at h
    rw [chars_eq, ← hbase, hahead] at h
    simpa using h.symm
  have hpieces : ∀ t ∈ ds.map Brackets.token ++ us, t.Proper :=
    List.forall_mem_append.2 ⟨WrittenType.proper_dimensions ds, hus⟩
  have hlist : ∀ t ∈ ds.map Brackets.token ++ us, ∀ gap content, t ≠ .list gap content := by
    rintro t ht gap content rfl
    rcases List.mem_append.1 ht with ht | ht
    · obtain ⟨b, -, hb⟩ := List.mem_map.1 ht
      cases hb
    · exact hwords _ ht
  obtain ⟨hw, hrest⟩ := append_inj_of_stop ho.chars (by decide)
    (head?_written (List.forall_mem_append.2 ⟨ho.proper, hpieces⟩) hcs.head?)
    (head?_blank_append hgap (by decide)) hahead'
  obtain rfl : ts = [] := by
    cases ho with
    | name => rfl
    | payable => exact absurd hw (by decide)
    | function => exact absurd hw (by decide)
  obtain ⟨t, more, hmore⟩ : ∃ t more, ds.map Brackets.token ++ us = t :: more :=
    List.exists_cons_of_ne_nil (List.append_ne_nil_of_right_ne_nil _ hne)
  rw [hmore, List.forall_mem_cons] at hpieces hlist
  rw [List.nil_append, hmore, written_cons, List.append_assoc] at hrest
  have hnext := next_chars hpieces.1 fun c hc =>
    isIdentChar_of_isPathChar (head?_written hpieces.2 hcs.head? c hc)
  rw [hrest, next_paren hgap] at hnext
  exact hlist.1 _ _ (Prod.mk.inj (Option.some.inj hnext)).1.symm

/-- Words that close a line behind the base of a mapping are those of the declaration. -/
theorem words_eq_of_mapping (h : d.type.isMapping = true) {v : List Char} (hv : v ∈ mappingTexts)
    {r : Place} (hpast : (Place.start d.chars).Past v r) {ds : List Brackets} {us : List Token}
    (hus : ∀ t ∈ us, t.Proper) (hwords : ∀ t ∈ us, t.IsWord)
    (hahead : r.ahead = written (ds.map Brackets.token) ++ (written us ++ [';'])) :
    us = d.tokens := by
  obtain ⟨u, c, htype, hc⟩ := exists_closer (WrittenType.mem_mappingTexts h) d.type.dimensions
  obtain ⟨u', c', hread, hc'⟩ := exists_closer hv ds
  have hcut : u' ++ c' :: (written us ++ [';']) = u ++ c :: (written d.tokens ++ d.closing) := by
    have hchars : d.chars = v ++ r.ahead := hpast.ahead
    rw [chars_words, WrittenType.chars, ← List.append_assoc d.type.opening, htype, hahead,
      ← List.append_assoc v, hread] at hchars
    simpa using hchars.symm
  have hlabel : ∀ x ∈ written us ++ [';'], isCloser x = false := by
    rw [List.forall_mem_append, List.forall_mem_singleton]
    exact ⟨fun x hx => isCloser_of_isLabelChar (label_written hus hwords x hx), by decide⟩
  exact (written_inj hus d.proper_words (.inl rfl) d.closing_closing
    (append_inj_of_closer hc' hc hlabel (d.isCloser_words h) hcut)).1

theorem found_of_mapping (h : d.type.isMapping = true)
    (hhides : ∀ b ∈ d.type.brackets, ¬ b.Hides) :
    ∃ q, Part.declarationLine.matchAt? (.start d.chars) = some q ∧ d.Found q := by
  refine d.exists_found (d.reads_mapping h) fun r q hr hq => ?_
  have hread := reads_typeBase hr
  obtain ⟨p, hp⟩ : ∃ w, (Place.start d.chars).Past w r := by
    rcases hread with ⟨w, -, hp⟩ | ⟨w, ts, -, hp⟩
    · exact ⟨w, hp⟩
    · exact ⟨_, hp⟩
  obtain ⟨ds, l, ms, gap, x, cs, e, hgap, hcs, hahead, hmarks⟩ := exists_of_behindBase hp hq
  refine d.found_of_behind hp hgap hcs hahead hmarks ?_
  have hproper : ∀ t ∈ l.toList.map Word.token ++ (ms.map Word.token ++ [.word gap x.chars]),
      t.Proper := List.forall_mem_append.2 ⟨List.forall_mem_map.2 fun w _ => w.proper (by decide),
        proper_modifiers ms hgap x⟩
  have hwords : ∀ t ∈ l.toList.map Word.token ++ (ms.map Word.token ++ [.word gap x.chars]),
      t.IsWord := List.forall_mem_append.2 ⟨Word.isWord_tokens _,
        List.forall_mem_append.2 ⟨Word.isWord_tokens _, List.forall_mem_singleton.2 trivial⟩⟩
  have hsplit : r.ahead = written (ds.map Brackets.token) ++ (written (l.toList.map Word.token ++
      (ms.map Word.token ++ [.word gap x.chars])) ++ cs) := by
    rw [hahead]
    simp only [written_append, List.append_assoc]
  rcases hread with ⟨v, hv, hpast⟩ | ⟨w, ts, ho, hpast⟩
  · obtain rfl : cs = [';'] := by
      rcases hcs.closing with hplain | ⟨b, v', hb, rfl⟩
      · exact hplain
      · exact absurd (assigns_written hproper hwords (by simp) hb)
          (d.neverAssigns_of_mapping h hhides hv hpast ds _ hsplit)
    have htokens := d.words_eq_of_mapping h hv hpast hproper hwords hsplit
    have hmodifiers := modifiers_inj (isIn_front (by decide) [] l)
      (isIn_front (by decide) [] d.location) htokens
    rw [hmodifiers, behind, d.closing_of_mapping h]
  · exact (d.not_opening_of_mapping h ho hpast hproper hwords (by simp) hcs.closing hsplit).elim

end Declaration

/-- No attribute begins like another. -/
theorem eq_of_prefix_attribute :
    ∀ s ∈ attributeWords, ∀ t ∈ attributeWords, s.toList <+: t.toList → s = t := by
  decide

theorem run_attribute {α : Type} (w : Word attributeWords) (behind rest : List Char)
    (marks : List (String × List Char)) (k : Place → Option α) :
    (blanks1 ++ words attributeWords).run ⟨behind, w.token.chars ++ rest, marks⟩ k =
      k ⟨w.token.chars.reverse ++ behind, rest, marks⟩ := by
  have hname : ∀ s ∈ attributeWords, isName s.toList = true := by decide
  refine run_of_unique ((spells_word attributeWords).reads ⟨w, rfl⟩ behind rest marks) ?_
  intro r hr
  obtain ⟨_, ⟨v, rfl⟩, hpast⟩ := (spells_word attributeWords _ r).1 hr
  have hahead : w.gap ++ (w.text.toList ++ rest) = v.gap ++ (v.text.toList ++ r.ahead) := by
    have h : w.token.chars ++ rest = v.token.chars ++ r.ahead := hpast.ahead
    simpa [Word.token, Token.chars] using h
  have hblank : ∀ {u : Word attributeWords} {cs : List Char},
      ∀ c ∈ (u.text.toList ++ cs).head?, Text.isBlank c = false := by
    intro u cs c hc
    obtain ⟨d, t, ht⟩ := List.exists_cons_of_ne_nil (ne_nil_of_isName (hname _ u.listed))
    have hd := isIdentChar_of_isName (hname _ u.listed) d (by rw [ht]; exact List.mem_cons_self)
    rw [ht] at hc
    obtain rfl : d = c := Option.some.inj hc
    exact isBlank_of_isIdentChar hd
  obtain ⟨hgap, htext⟩ := append_inj_of_stop w.isGap.2 v.isGap.2 hblank hblank hahead
  have hwv : w.text = v.text := by
    rcases List.prefix_or_prefix_of_prefix (List.prefix_append w.text.toList rest)
      (htext ▸ List.prefix_append v.text.toList r.ahead) with h | h
    · exact eq_of_prefix_attribute _ w.listed _ v.listed h
    · exact (eq_of_prefix_attribute _ v.listed _ w.listed h).symm
  have htoken : v.token = w.token := by rw [Word.token, Word.token, hgap, hwv]
  rw [htoken] at hpast
  exact (Place.Past.intro behind _ rest marks).unique hpast

/-- All attributes are read, if reading on behind them succeeds. -/
theorem run_attributes {α : Type} {k : Place → Option α} {x : α} {behind ahead : List Char}
    {marks : List (String × List Char)} (ws : List (Word attributeWords))
    (hk : (star (blanks1 ++ words attributeWords)).run
      ⟨(written (ws.map Word.token)).reverse ++ behind, ahead, marks⟩ k = some x) :
    (star (blanks1 ++ words attributeWords)).run
      ⟨behind, written (ws.map Word.token) ++ ahead, marks⟩ k = some x := by
  rw [written, List.flatMap_map] at hk ⊢
  rw [List.flatMap_def] at hk ⊢
  refine run_star_pieces (fun _ => True) ?_ ?_ (fun _ _ _ => trivial) trivial hk
  · exact List.forall_mem_map.2 fun w _ => w.token.chars_ne_nil (w.proper (by decide))
  · intro v hv behind rest k x _ hk
    obtain ⟨w, -, rfl⟩ := List.mem_map.1 hv
    exact (run_attribute w behind rest marks k).trans hk

/-- The first word of a function type with its parameters is read in one way. -/
theorem run_parameters {α : Type} (ps : Parameters) (rest : List Char) (k : Place → Option α) :
    (word "function" ++ (blanks ++ exactly '(' ++ .many 0 (!isParen ·) ++ exactly ')')).run
        (.start ("function".toList ++ (ps.token.chars ++ rest))) k =
      k ⟨("function".toList ++ ps.token.chars).reverse ++ [], rest, []⟩ := by
  have hspells := (Spells.word "function").append spells_parameters
  rw [← List.append_assoc]
  refine run_of_unique (hspells.reads ⟨_, rfl, _, ⟨ps, rfl⟩, rfl⟩ [] rest []) ?_
  intro r hr
  obtain ⟨_, ⟨_, rfl, _, ⟨v, rfl⟩, rfl⟩, hpast⟩ := (hspells _ r).1 hr
  have hahead : "function".toList ++ ps.token.chars ++ rest =
      "function".toList ++ v.token.chars ++ r.ahead := hpast.ahead
  rw [List.append_assoc, List.append_assoc] at hahead
  have hnext := next_list ps.isBlank ps.flat rest
  change next (ps.token.chars ++ rest) = _ at hnext
  rw [List.append_cancel_left hahead, Parameters.token, next_list v.isBlank v.flat] at hnext
  have htoken : v.token = ps.token := (Prod.mk.inj (Option.some.inj hnext)).1
  rw [htoken] at hpast
  exact (Place.Past.intro [] _ rest []).unique hpast

theorem proper_results (rs : Option Results) :
    ∀ t ∈ (rs.map Results.tokens).getD [], t.Proper := by
  cases rs with
  | none => exact nofun
  | some r => exact r.proper

/-- What is read behind the attributes of a function type that begins at `p`. -/
def behindAttributes (p r : Place) : Option Place :=
  (optional (blanks1 ++ word "returns" ++
    (blanks ++ exactly '(' ++ .many 0 (!isParen ·) ++ exactly ')'))).run r (behindBase p)

theorem run_functionType (p : Place) (k : Place → Option Place) : functionType.run p k =
    (word "function" ++ (blanks ++ exactly '(' ++ .many 0 (!isParen ·) ++ exactly ')')).run p
      fun q => (star (blanks1 ++ words attributeWords)).run q fun r =>
        (optional (blanks1 ++ word "returns" ++
          (blanks ++ exactly '(' ++ .many 0 (!isParen ·) ++ exactly ')'))).run r k := rfl

namespace Declaration
variable (d : Declaration)

section
variable {ps : Parameters} {ws : List (Word attributeWords)} {rs : Option Results}
  {ds : List Brackets} (h : d.type = .function ps ws rs ds)
include h

theorem typeChars_of_function : d.typeChars =
    "function".toList ++ written (WrittenType.functionTokens ps ws rs ++
      (ds.map Brackets.token ++ d.location.toList.map Word.token)) := by
  rw [typeChars, h, WrittenType.chars_function]
  simp

theorem modifiers_of_function : d.modifiers = [] :=
  d.modified.resolve_right fun hmodified => by simp [h, WrittenType.isFunction] at hmodified

theorem behind_of_function : d.behind = written [.word d.gap d.name.chars] ++ d.closing := by
  rw [behind, d.modifiers_of_function h]
  rfl

/-- However a line goes on behind its attributes, it tells what is declared. -/
theorem found_behind_attributes {p q r : Place}
    (hp : (Place.start d.chars).Past ("function".toList ++
      (ps.token.chars ++ written (ws.map Word.token))) p)
    (hr : (star (blanks1 ++ words attributeWords)).Reads p r)
    (hq : behindAttributes (.start d.chars) r = some q) : d.Found q := by
  obtain ⟨_, ⟨ws', rfl⟩, hattributes⟩ := (spells_attributes p r).1 hr
  obtain ⟨r', hr', hq⟩ := exists_reads hq
  obtain ⟨_, ⟨rs', rfl⟩, hresults⟩ := (spells_results r r').1 hr'
  have hpast := hp.trans (hattributes.trans hresults)
  obtain ⟨ds', l, ms, gap, x, cs, v, hgap, hcs, hahead, hmarks⟩ := exists_of_behindBase hpast hq
  refine d.found_of_behind hpast hgap hcs hahead hmarks ?_
  have hread : p.ahead = written (ws'.map Word.token ++ (rs'.map Results.tokens).getD [] ++
      (ds'.map Brackets.token ++ l.toList.map Word.token) ++
        (ms.map Word.token ++ [.word gap x.chars])) ++ cs := by
    rw [hattributes.ahead, hresults.ahead, hahead]
    simp only [written_append, List.append_assoc]
  have hmeant : p.ahead = written ((rs.map Results.tokens).getD [] ++ (ds.map Brackets.token ++
      d.location.toList.map Word.token) ++ [.word d.gap d.name.chars]) ++ d.closing := by
    have hchars : d.chars = _ ++ p.ahead := hp.ahead
    rw [chars, d.typeChars_of_function h, d.behind_of_function h,
      WrittenType.functionTokens] at hchars
    simp only [written_append, written_cons, List.append_assoc] at hchars
    rw [List.append_cancel_left_eq, List.append_cancel_left_eq,
      List.append_cancel_left_eq] at hchars
    simpa using hchars.symm
  rw [hmeant] at hread
  have hproper : ∀ t ∈ ws'.map Word.token ++ (rs'.map Results.tokens).getD [] ++
      (ds'.map Brackets.token ++ l.toList.map Word.token) ++
        (ms.map Word.token ++ [.word gap x.chars]), t.Proper :=
    List.forall_mem_append.2 ⟨List.forall_mem_append.2 ⟨List.forall_mem_append.2
      ⟨List.forall_mem_map.2 fun w _ => w.proper (by decide), proper_results rs'⟩,
        proper_front ds' l⟩, proper_modifiers ms hgap x⟩
  have hproper' : ∀ t ∈ (rs.map Results.tokens).getD [] ++ (ds.map Brackets.token ++
      d.location.toList.map Word.token) ++ [.word d.gap d.name.chars], t.Proper :=
    List.forall_mem_append.2 ⟨List.forall_mem_append.2 ⟨proper_results rs,
      proper_front ds d.location⟩, proper_modifiers [] d.isGap d.name⟩
  obtain ⟨htokens, rfl⟩ := written_inj hproper' hproper d.closing_closing hcs.closing hread
  obtain ⟨rfl, hname⟩ := no_modifiers (List.forall_mem_append.2
    ⟨isIn_results (by decide) rs, isIn_front (by decide) ds d.location⟩) htokens
  rw [d.behind_of_function h, hname]
  rfl

theorem found_of_function :
    ∃ q, Part.declarationLine.matchAt? (.start d.chars) = some q ∧ d.Found q := by
  have hparts : d.chars = "function".toList ++ (ps.token.chars ++ (written (ws.map Word.token) ++
      (written ((rs.map Results.tokens).getD []) ++ (written (ds.map Brackets.token) ++
        (written (d.location.toList.map Word.token) ++ d.behind))))) := by
    rw [chars, d.typeChars_of_function h, WrittenType.functionTokens]
    simp only [written_append, written_cons, List.append_assoc]
  have hmapping : ∀ q, ¬ (mapping anyChar).Reads (.start d.chars) q := by
    intro q hq
    obtain ⟨v, hv, hpast⟩ := (spells_mapping _ q).1 hq
    exact d.not_mapping (by decide) (by decide) (List.forall_mem_append.2
      ⟨WrittenType.proper_functionTokens ps ws rs, proper_front ds d.location⟩)
      (d.typeChars_of_function h) hv hpast
  generalize hrest : written ((rs.map Results.tokens).getD []) ++
    (written (ds.map Brackets.token) ++
      (written (d.location.toList.map Word.token) ++ d.behind)) = rest at hparts
  have hp : (Place.start d.chars).Past ("function".toList ++
      (ps.token.chars ++ written (ws.map Word.token)))
      ⟨(written (ws.map Word.token)).reverse ++
        (("function".toList ++ ps.token.chars).reverse ++ []), rest, []⟩ := by
    refine ⟨?_, ?_, rfl⟩
    · rw [Place.start, hparts]
      simp only [List.append_assoc]
    · simp only [Place.start, List.reverse_append, List.append_assoc]
  have hne : (star (blanks1 ++ words attributeWords)).run ⟨(written (ws.map Word.token)).reverse ++
      (("function".toList ++ ps.token.chars).reverse ++ []), rest, []⟩
        (behindAttributes (.start d.chars)) ≠ none := by
    refine run_ne_none (spells_attributes.reads ⟨[], rfl⟩ _ rest []) ?_
    rw [← hrest]
    refine run_ne_none (spells_results.reads ⟨rs, rfl⟩ _ _ []) ?_
    have hdimensions : d.type.dimensions = ds := by rw [h]; rfl
    rw [← hdimensions]
    exact d.behindBase_ne_none _ _ _
  obtain ⟨q, hq⟩ := Option.ne_none_iff_exists'.1 hne
  refine ⟨q, ?_, ?_⟩
  · have hfunction : functionType.run (.start d.chars) (behindBase (.start d.chars)) = some q := by
      rw [run_functionType]
      have hstart : Place.start d.chars = .start ("function".toList ++
        (ps.token.chars ++ (written (ws.map Word.token) ++ rest))) := by rw [hparts]
      refine (congrArg (fun p => Pattern.run _ p _) hstart).trans ?_
      rw [run_parameters]
      exact run_attributes ws hq
    rw [matchAt?_declarationLine, typeBase, run_choice, List.findSome?_cons, run_eq_none hmapping,
      List.findSome?_cons, hfunction]
  · obtain ⟨r, hr, hq⟩ := exists_reads hq
    exact d.found_behind_attributes h hp hr hq

end

/-- The line tells what is declared, unless a bracket group of a mapping hides an assignment. -/
theorem exists_found_of_brackets
    (hhides : d.type.isMapping = true → ∀ b ∈ d.type.brackets, ¬ b.Hides) :
    ∃ q, Part.declarationLine.matchAt? (.start d.chars) = some q ∧ d.Found q := by
  cases h : d.type with
  | named n ds => exact d.found_of_named h
  | function ps ws rs ds => exact d.found_of_function h
  | mapping =>
    have hmapping : d.type.isMapping = true := by rw [h]; rfl
    exact d.found_of_mapping hmapping (hhides hmapping)

end Declaration

end Solidity
end SoliditySession
