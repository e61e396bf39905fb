import SoliditySession.Proofs.Heads
import SoliditySession.Proofs.Normalization
/- The roles of definitions, which their headers decide whatever follows them: a header is found
where its name can end as a word does. -/
namespace SoliditySession
open Pattern Solidity Text

namespace Solidity

theorem isWord_identChar_iff {c : Char} (h : isIdentChar c = true) : isWord c = true ↔ c ≠ '$' := by
  constructor
  · rintro hword rfl
    exact absurd hword (by decide +kernel)
  · intro hne
    by_contra hword
    refine hne (eq_dollar h (Bool.eq_false_iff.2 fun hascii => hword ?_))
    exact isWord_of_isAsciiWord hascii

/-- The name up to its last character that is no `$`. -/
theorem Identifier.exists_upTo_word {x : Identifier} (h : ∃ c ∈ x.chars, c ≠ '$') :
    ∃ (y : Identifier) (ds : List Char), x.chars = y.chars ++ ds ∧ (∀ c ∈ ds, c = '$') ∧
      ∃ c, y.chars.getLast? = some c ∧ c ≠ '$' := by
  have hcut := List.takeWhile_append_dropWhile (p := (· == '$')) (l := x.chars.reverse)
  have hdollars : ∀ c ∈ x.chars.reverse.takeWhile (· == '$'), c = '$' := fun c hc => by
    simpa using List.mem_takeWhile_imp hc
  have hstop := List.head?_dropWhile_not (· == '$') x.chars.reverse
  generalize x.chars.reverse.takeWhile (· == '$') = ds at hcut hdollars
  generalize x.chars.reverse.dropWhile (· == '$') = v at hcut hstop
  have hchars : x.chars = v.reverse ++ ds.reverse := by
    rw [← List.reverse_append, hcut, List.reverse_reverse]
  cases hv : v.reverse with
  | nil =>
    obtain ⟨c, hc, hne⟩ := h
    rw [hchars, hv, List.nil_append, List.mem_reverse] at hc
    exact absurd (hdollars c hc) hne
  | cons a t =>
    rw [hv] at hchars
    obtain ⟨rfl, hrest⟩ : x.first = a ∧ x.rest = t ++ ds.reverse := List.cons.inj hchars
    have ht : ∀ c ∈ t, isIdentChar c = true := fun c hc =>
      x.rest_char c (by rw [hrest]; exact List.mem_append_left _ hc)
    refine ⟨⟨x.first, t, x.first_start, ht⟩, ds.reverse, hchars, by simpa using hdollars, ?_⟩
    have hlast : (x.first :: t).getLast? = v.head? := by rw [← hv, List.getLast?_reverse]
    obtain ⟨c, w, rfl⟩ := List.exists_cons_of_ne_nil (l := v) (by rintro rfl; cases hv)
    exact ⟨c, hlast, by simpa using hstop⟩

/-- Blanks, a name and the end of a word. -/
def wholeName : Pattern := blanks1 ++ identifier ++ Pattern.wordEdge

theorem reads_wholeName {a : Pattern} {p q : Place} :
    (a ++ blanks1 ++ identifier ++ Pattern.wordEdge).Reads p q ↔
      ∃ r, a.Reads p r ∧ wholeName.Reads r q := by
  constructor
  · rintro ⟨t, ⟨s, ⟨r, ha, hblanks⟩, hname⟩, hedge⟩
    exact ⟨r, ha, t, ⟨s, hblanks, hname⟩, hedge⟩
  · rintro ⟨r, ha, t, ⟨s, hblanks, hname⟩, hedge⟩
    exact ⟨t, ⟨s, ⟨r, ha, hblanks⟩, hname⟩, hedge⟩

/-- What follows a name: nothing that carries it on. -/
def Opens (rest : List Char) : Prop :=
  ∀ c ∈ rest.head?, isBlank c = true ∨ c ∈ ['\x7b', '(', ';']

theorem Opens.not_ident {rest : List Char} (h : Opens rest) :
    ∀ c ∈ rest.head?, isIdentChar c = false := by
  have hall : ∀ c ∈ ['\x7b', '(', ';'], isIdentChar c = false := by decide
  exact fun c hc => (h c hc).elim
    (fun hblank => isIdentChar_of_isPathChar (isPathChar_of_isBlank hblank)) (hall c)

theorem Opens.not_word {rest : List Char} (h : Opens rest) :
    ∀ c ∈ rest.head?, isWord c = false := by
  have hall : ∀ c ∈ ['\x7b', '(', ';'], isWord c = false := by decide +kernel
  exact fun c hc => (h c hc).elim isWord_of_isBlank (hall c)

section
variable {gap : List Char} {x : Identifier} {rest : List Char} (hgap : Gap gap)
  (hrest : Opens rest)
include hgap hrest

/-- A name ends as a word does, here or at an earlier place, just if a word character is in it. -/
theorem exists_reads_wholeName_iff {r : Place} (hahead : r.ahead = gap ++ (x.chars ++ rest)) :
    (∃ q, wholeName.Reads r q) ↔ ∃ c ∈ x.chars, c ≠ '$' := by
  have hstart : ∀ {y : Identifier} {t : List Char}, ∀ c ∈ (y.chars ++ t).head?,
      isBlank c = false := by
    rintro y t c hc
    obtain rfl := Option.some.inj hc
    exact isBlank_of_isIdentChar (isIdentChar_of_isIdentStart y.first_start)
  constructor
  · rintro ⟨t, _, ⟨s, hblanks, hname⟩, rfl, hedge⟩
    obtain ⟨gap', hgap', hpast⟩ := (spells_gap r s).1 hblanks
    obtain ⟨_, ⟨y, rfl⟩, hpast'⟩ := (spells_identifier s t).1 hname
    have hcut : gap ++ (x.chars ++ rest) = gap' ++ (y.chars ++ t.ahead) := by
      rw [← hahead, hpast.ahead, hpast'.ahead]
    obtain ⟨-, hnames⟩ := append_inj_of_stop hgap.2 hgap'.2 hstart hstart hcut
    obtain ⟨u, hu⟩ := prefix_of_prefix_append y.chars_char hrest.not_ident ⟨_, hnames.symm⟩
    -- among dollar signs no word ends
    by_contra hnone
    push Not at hnone
    have hnot : ∀ c ∈ x.chars, isWord c = false := fun c hc => by
      rw [hnone c hc]
      decide +kernel
    have hahead' : t.ahead = u ++ rest := by
      rw [← hu, List.append_assoc] at hnames
      exact (List.append_cancel_left hnames).symm
    have hbefore : ∀ c ∈ t.behind.head?, isWord c = false := by
      intro c hc
      rw [hpast'.behind, List.head?_append_of_ne_nil _ (by simp [Identifier.chars]),
        List.head?_reverse] at hc
      exact hnot c (hu ▸ List.mem_append_left _ (List.mem_of_getLast? hc))
    have hafter : ∀ c ∈ t.ahead.head?, isWord c = false := by
      rw [hahead']
      cases u with
      | nil => exact hrest.not_word
      | cons d u =>
        rintro c ⟨⟩
        exact hnot _ (by rw [← hu]; simp)
    rw [Text.wordEdge, (Option.any_eq_false _ _).2 hbefore, (Option.any_eq_false _ _).2 hafter] at hedge
    cases hedge
  · intro h
    obtain ⟨y, ds, hx, hds, c, hlast, hne⟩ := Identifier.exists_upTo_word h
    obtain ⟨behind, ahead, marks⟩ := r
    rw [hx, List.append_assoc] at hahead
    obtain rfl : ahead = gap ++ (y.chars ++ (ds ++ rest)) := hahead
    refine ⟨_, _, ⟨_, (spells_gap _ _).2 ⟨gap, hgap, .intro _ _ _ _⟩,
      (spells_identifier _ _).2 ⟨_, ⟨y, rfl⟩, .intro _ _ _ _⟩⟩, rfl, ?_⟩
    have hyne : y.chars ≠ [] := List.cons_ne_nil _ _
    have hclast : y.chars.getLast hyne = c := by
      rwa [List.getLast?_eq_some_getLast hyne, Option.some_inj] at hlast
    rw [wordEdge_iff hyne]
    · cases ds with
      | nil => exact hrest.not_word
      | cons d ds =>
        rintro b ⟨⟩
        rw [hds d List.mem_cons_self]
        decide +kernel
    · rw [hclast]
      exact (isWord_identChar_iff (y.chars_char c (List.mem_of_getLast? hlast))).2 hne

variable {p : Place} {k : String}

theorem exists_reads_header_iff (hp : p.ahead = k.toList ++ (gap ++ (x.chars ++ rest))) :
    (∃ q, (Part.namedHead k).Reads p q) ↔ ∃ c ∈ x.chars, c ≠ '$' := by
  have hpast : p.Past k.toList ⟨k.toList.reverse ++ p.behind, gap ++ (x.chars ++ rest), p.marks⟩ :=
    ⟨hp, rfl, rfl⟩
  rw [← exists_reads_wholeName_iff hgap hrest (r := ⟨k.toList.reverse ++ p.behind, _, p.marks⟩) rfl]
  constructor
  · rintro ⟨q, hq⟩
    obtain ⟨r, hr, hwhole⟩ := reads_wholeName.1 hq
    obtain rfl := hpast.unique (reads_word.1 hr)
    exact ⟨q, hwhole⟩
  · rintro ⟨q, hq⟩
    exact ⟨q, reads_wholeName.2 ⟨_, reads_word.2 hpast, hq⟩⟩

end

end Solidity

/-- What a definition begins with, in front of its name. -/
inductive Header
  | interface
  | library
  | contract
  | abstractContract (gap : List Char) (isGap : Gap gap)
  | function
  | modifier

namespace Header

/-- The first word. -/
def keyword : Header → String
  | interface => "interface"
  | library => "library"
  | contract => "contract"
  | abstractContract .. => "abstract"
  | function => "function"
  | modifier => "modifier"

/-- What stands between the first word and the blanks in front of the name. -/
def inside : Header → List Char
  | abstractContract gap _ => gap ++ "contract".toList
  | _ => []

def chars (h : Header) : List Char := h.keyword.toList ++ h.inside

def role : Header → Role
  | interface => .interface
  | library => .library
  | contract | abstractContract .. => .contract
  | function | modifier => .function

/-- What the header is recognised by. -/
def pattern : Header → Pattern
  | interface => Part.namedHead "interface"
  | library => Part.namedHead "library"
  | contract | abstractContract .. => Part.contractHead
  | function | modifier => Part.functionHead

def keywords : List String :=
  ["interface", "library", "contract", "abstract", "function", "modifier"]

theorem keyword_mem (h : Header) : h.keyword ∈ keywords := by
  cases h <;> simp [keyword, keywords]

theorem keyword_isWord (h : Header) : ∀ c ∈ h.keyword.toList, isWord c = true := by
  have hall : ∀ k ∈ keywords, ∀ c ∈ k.toList, isAsciiWord c = true := by decide
  exact isWord_of_isAsciiWords (hall _ h.keyword_mem)

section
variable (h : Header) {gap : List Char} (hgap : Gap gap) {more : List Char}
include hgap

theorem begins : Begins h.keyword (h.chars ++ (gap ++ more)) := by
  refine ⟨h.inside ++ (gap ++ more), List.append_assoc _ _ _, ?_⟩
  cases h with
  | abstractContract gap' hgap' =>
    rw [inside, List.append_assoc]
    exact fun c hc => isWord_of_isBlank (head?_gap_append hgap' c hc)
  | _ => exact fun c hc => isWord_of_isBlank (head?_gap_append hgap c hc)

theorem not_begins {k : String} (hk : k ∈ openingWords) (hne : k ≠ h.keyword) :
    ¬ Begins k (h.chars ++ (gap ++ more)) :=
  fun hbegins => hne (hbegins.unique (h.begins hgap) (isWord_openingWords k hk) h.keyword_isWord)

theorem not_headed {ks : List String} (hks : ∀ k ∈ ks, k ∈ openingWords)
    (hnot : h.keyword ∉ ks) : ¬ Headed ks (h.chars ++ (gap ++ more)) := by
  intro hheaded
  obtain ⟨k, hk, hbegins⟩ := hheaded.begins
  exact h.not_begins hgap (hks k hk) (fun hsame => hnot (hsame ▸ hk)) hbegins

end

section
variable {gap : List Char} {x : Identifier} {rest : List Char} (hgap : Gap gap)
  (hrest : Opens rest)
include hgap hrest

theorem exists_reads_contract_iff :
    (∃ q, Part.contractHead.Reads (.start ("contract".toList ++ (gap ++ (x.chars ++ rest)))) q) ↔
      ∃ c ∈ x.chars, c ≠ '$' := by
  rw [← exists_reads_header_iff hgap hrest (p := .start _) rfl]
  constructor
  · rintro ⟨q, s, ⟨r, hword, -⟩ | rfl, hnamed⟩
    · exact absurd (reads_word.1 hword).ahead (by simp [Place.start])
    · exact ⟨q, hnamed⟩
  · rintro ⟨q, hq⟩
    exact ⟨q, _, .inr rfl, hq⟩

theorem exists_reads_abstract_iff {gap' : List Char} (hgap' : Gap gap') :
    (∃ q, Part.contractHead.Reads (.start ("abstract".toList ++
      (gap' ++ ("contract".toList ++ (gap ++ (x.chars ++ rest)))))) q) ↔ ∃ c ∈ x.chars, c ≠ '$' := by
  have hletter : ∀ {cs : List Char}, ∀ c ∈ ("contract".toList ++ cs).head?, isBlank c = false := by
    rintro cs c ⟨⟩
    decide
  constructor
  · rintro ⟨q, s, ⟨r, hword, hblanks⟩ | rfl, hnamed⟩
    · obtain ⟨gap'', hgap'', hpast⟩ := (spells_gap r s).1 hblanks
      obtain ⟨t, hcontract, -⟩ := reads_wholeName.1 hnamed
      have hcut : gap' ++ ("contract".toList ++ (gap ++ (x.chars ++ rest))) =
          gap'' ++ ("contract".toList ++ t.ahead) := by
        rw [← (reads_word.1 hcontract).ahead, ← hpast.ahead]
        exact List.append_cancel_left (reads_word.1 hword).ahead
      obtain ⟨-, hahead⟩ := append_inj_of_stop hgap'.2 hgap''.2 hletter hletter hcut
      rw [← (reads_word.1 hcontract).ahead] at hahead
      exact (exists_reads_header_iff hgap hrest hahead.symm).1 ⟨q, hnamed⟩
    · obtain ⟨r, hword, -⟩ := reads_wholeName.1 hnamed
      exact absurd (reads_word.1 hword).ahead (by simp [Place.start])
  · intro hx
    obtain ⟨q, hq⟩ := (exists_reads_header_iff hgap hrest (k := "contract")
      (p := ⟨gap'.reverse ++ ("abstract".toList.reverse ++ []), _, []⟩) rfl).2 hx
    exact ⟨q, _, .inl ⟨_, reads_word.2 (.intro _ _ _ _), (spells_gap _ _).2
      ⟨gap', hgap', .intro _ _ _ _⟩⟩, hq⟩

theorem exists_reads_function_iff {k : String} (hk : k ∈ ["function", "modifier"]) :
    (∃ q, Part.functionHead.Reads (.start (k.toList ++ (gap ++ (x.chars ++ rest)))) q) ↔
      ∃ c ∈ x.chars, c ≠ '$' := by
  have hascii : ∀ k ∈ ["function", "modifier"] ++ listWords, ∀ c ∈ k.toList,
      isAsciiWord c = true := by decide
  have hword : ∀ k ∈ ["function", "modifier"] ++ listWords, ∀ c ∈ k.toList, isWord c = true :=
    fun k hk => isWord_of_isAsciiWords (hascii k hk)
  have hbegins : Begins k (k.toList ++ (gap ++ (x.chars ++ rest))) :=
    ⟨_, rfl, fun c hc => isWord_of_isBlank (head?_gap_append hgap c hc)⟩
  rw [← exists_reads_wholeName_iff hgap hrest (r := ⟨k.toList.reverse ++ [], _, []⟩) rfl]
  constructor
  · rintro ⟨q, hq | hq⟩
    · obtain ⟨r, hwords, hwhole⟩ := reads_wholeName.1 hq
      obtain ⟨k', hk', hpast⟩ := reads_words.1 hwords
      have hbegins' : Begins k' (k.toList ++ (gap ++ (x.chars ++ rest))) := by
        obtain ⟨t, ⟨s, hblanks, -⟩, -⟩ := hwhole
        obtain ⟨gap', hgap', hpast'⟩ := (spells_gap r s).1 hblanks
        refine ⟨r.ahead, hpast.ahead, ?_⟩
        rw [hpast'.ahead]
        exact fun c hc => isWord_of_isBlank (head?_gap_append hgap' c hc)
      obtain rfl := hbegins'.unique hbegins (hword k' (List.mem_append_left _ hk'))
        (hword k (List.mem_append_left _ hk))
      obtain rfl := Place.Past.unique (.intro _ _ _ _) hpast
      exact ⟨q, hwhole⟩
    · obtain ⟨t, ⟨r, hwords, hblanks⟩, hparen⟩ := hq
      obtain ⟨k', hk', hbegins'⟩ := (Listed.of_reads hwords hblanks hparen).begins
      have hsame : k' = k := hbegins'.unique hbegins (hword k' (List.mem_append_right _ hk'))
        (hword k (List.mem_append_left _ hk))
      have hnone : ∀ k ∈ ["function", "modifier"], k ∉ listWords := by decide
      exact absurd (hsame ▸ hk') (hnone k hk)
  · rintro ⟨q, hq⟩
    exact ⟨q, .inl (reads_wholeName.2 ⟨_, reads_words.2 ⟨k, hk, .intro _ _ _ _⟩, hq⟩)⟩

variable (h : Header)

/-- The header is found just if its name holds more than dollar signs. -/
theorem matches_iff : h.pattern.matches? (.ofList (h.chars ++ (gap ++ (x.chars ++ rest)))) = true ↔
    ∃ c ∈ x.chars, c ≠ '$' := by
  rw [matches?_iff]
  cases h with
  | interface => exact exists_reads_header_iff hgap hrest (p := .start _) rfl
  | library => exact exists_reads_header_iff hgap hrest (p := .start _) rfl
  | contract => exact exists_reads_contract_iff hgap hrest
  | abstractContract gap' hgap' =>
    rw [chars, inside, List.append_assoc, List.append_assoc]
    exact exists_reads_abstract_iff hgap hrest hgap'
  | function => exact exists_reads_function_iff hgap hrest (k := "function") (by decide)
  | modifier => exact exists_reads_function_iff hgap hrest (k := "modifier") (by decide)

end

end Header

/-- The description that a text of the role fits, if there is one. -/
def Role.description? : Role → Option Pattern
  | importDirective => some Part.importHead
  | typeAlias => some Part.typeAliasLine
  | enum => some (Part.blockHead "enum")
  | constant => some Part.constantLine
  | struct => some (Part.blockHead "struct")
  | interface => some (Part.namedHead "interface")
  | library => some (Part.namedHead "library")
  | contract => some Part.contractHead
  | usingDirective => some Part.usingLine
  | declaration => some Part.declarationLine
  | event => some Part.eventHead
  | function => some Part.functionHead
  | expression => none

namespace Part

theorem role_of_constant? {text : String} {part : Part} (h : constant? text = some part) :
    part.role = .constant ∧ constantLine.matches? text = true := by
  obtain ⟨found, hfound, h⟩ := Option.bind_eq_some_iff.1 h
  refine ⟨?_, by rw [matches?, hfound]; rfl⟩
  split at h
  · cases h
    rfl
  · cases h

theorem role_of_declaration? {text : String} {part : Part} (h : declaration? text = some part) :
    part.role = .declaration ∧ declarationLine.matches? text = true := by
  obtain ⟨found, hfound, h⟩ := Option.bind_eq_some_iff.1 h
  refine ⟨?_, by rw [matches?, hfound]; rfl⟩
  split at h
  · split at h
    · cases h
    · cases h
      rfl
  · cases h

/-- A text fits the description for its role. -/
theorem matches_description {text : String} {a : Pattern}
    (h : (ofText text).role.description? = some a) : a.matches? text = true := by
  rw [ofText] at h
  iterate 7
    split at h
    · next hmatch => exact Option.some.inj h ▸ hmatch
  split at h
  · next hconstant =>
    obtain ⟨hrole, hmatch⟩ := role_of_constant? hconstant
    rw [hrole] at h
    exact Option.some.inj h ▸ hmatch
  split at h
  · next hmatch => exact Option.some.inj h ▸ hmatch
  split at h
  · next hdeclaration =>
    obtain ⟨hrole, hmatch⟩ := role_of_declaration? hdeclaration
    rw [hrole] at h
    exact Option.some.inj h ▸ hmatch
  iterate 2
    split at h
    · next hmatch => exact Option.some.inj h ▸ hmatch
  cases h

end Part

/-- What is described with a semicolon at its end has one. -/
theorem getLast?_of_closed {a : Pattern} {p q : Place}
    (h : (a ++ exactly ';' ++ textEnd).Reads p q) : p.ahead.getLast? = some ';' := by
  obtain ⟨_, ⟨r, ha, hsemicolon⟩, rfl, hend⟩ := h
  obtain ⟨w, hw⟩ := exists_covers ha
  have hnil : q.ahead = [] := by simpa using hend
  rw [hw.ahead, (reads_exactly.1 hsemicolon).ahead, hnil, List.append_nil, List.getLast?_concat]

namespace Header
variable (h : Header)

theorem description?_role : h.role.description? = some h.pattern := by
  cases h <;> rfl

variable {gap more : List Char} (hgap : Gap gap)
include hgap

/-- A text with the header for a contract, an interface or a library is nothing else. -/
theorem role_of_matches_container (hrole : h.role ≠ .function)
    (hmatch : h.pattern.matches? (.ofList (h.chars ++ (gap ++ more))) = true) :
    (Part.ofText (.ofList (h.chars ++ (gap ++ more)))).role = h.role := by
  have hne : ∀ k ∉ keywords, k ≠ h.keyword := fun k hk hsame => hk (hsame ▸ h.keyword_mem)
  have hheaded : ∀ k ∈ ["type", "enum", "struct", "interface", "library"], k ≠ h.keyword →
      ¬ Headed [k] (h.chars ++ (gap ++ more)) := by
    have hall : ∀ k ∈ ["type", "enum", "struct", "interface", "library"], k ∈ openingWords := by
      decide
    intro k hk hdiffers
    refine h.not_headed hgap (by simpa using hall k hk) ?_
    rw [List.mem_singleton]
    exact fun hsame => hdiffers hsame.symm
  have hnamed : ∀ k ∈ ["interface", "library"], k ≠ h.keyword →
      (Part.namedHead k).matches? (.ofList (h.chars ++ (gap ++ more))) = false := by
    have hall : ∀ k ∈ ["interface", "library"],
        k ∈ ["type", "enum", "struct", "interface", "library"] := by decide
    exact fun k hk hdiffers => matches?_eq_false fun q hq =>
      hheaded k (hall k hk) hdiffers (headed_of_namedHead (List.mem_singleton_self k) hq)
  rw [Part.ofText,
    matches?_eq_false fun q hq => h.not_begins hgap (by decide) (hne _ (by decide))
      (begins_of_importHead hq),
    matches?_eq_false fun q hq => hheaded "type" (by decide) (hne _ (by decide))
      (headed_of_typeAliasLine (by decide) hq),
    matches?_eq_false fun q hq => hheaded "enum" (by decide) (hne _ (by decide))
      (headed_of_blockHead (by decide) hq),
    matches?_eq_false fun q hq => hheaded "struct" (by decide) (hne _ (by decide))
      (headed_of_blockHead (by decide) hq)]
  cases h with
  | interface =>
    rw [pattern] at hmatch
    rw [hmatch]
    rfl
  | library =>
    rw [pattern] at hmatch
    rw [hnamed "interface" (by decide) (by decide), hmatch]
    rfl
  | contract =>
    rw [pattern] at hmatch
    rw [hnamed "interface" (by decide) (by decide), hnamed "library" (by decide) (by decide), hmatch]
    rfl
  | abstractContract =>
    rw [pattern] at hmatch
    have hdiffers : ∀ k ∈ ["interface", "library"], k ≠ "abstract" := by decide
    rw [hnamed "interface" (by decide) (hdiffers _ (by decide)),
      hnamed "library" (by decide) (hdiffers _ (by decide)), hmatch]
    rfl
  | function => exact absurd rfl hrole
  | modifier => exact absurd rfl hrole

/-- Nor is a function, whose text ends in no semicolon. -/
theorem role_of_matches_function (hrole : h.role = .function)
    (hend : (h.chars ++ (gap ++ more)).getLast? ≠ some ';')
    (hmatch : h.pattern.matches? (.ofList (h.chars ++ (gap ++ more))) = true) :
    (Part.ofText (.ofList (h.chars ++ (gap ++ more)))).role = h.role := by
  obtain ⟨hfunction, hpattern⟩ : h.keyword ∈ ["function", "modifier"] ∧
      h.pattern = Part.functionHead := by
    cases h with
    | function => exact ⟨by decide, rfl⟩
    | modifier => exact ⟨by decide, rfl⟩
    | _ => cases hrole
  have hnone : ∀ k ∈ ["function", "modifier"], k ∉ openingWords := by decide
  have hne : ∀ k ∈ openingWords, k ≠ h.keyword := by
    rintro k hk rfl
    exact hnone _ hfunction hk
  have hplain : Plain (h.chars ++ (gap ++ more)) := .of_not_begins fun k hk =>
    h.not_begins hgap hk (hne k hk)
  rw [hpattern] at hmatch
  have hdeclaration : Part.declarationLine.match? (.ofList (h.chars ++ (gap ++ more))) = none := by
    rw [match?_eq_none_iff, String.toList_ofList]
    exact fun q hq => hend (getLast?_of_closed hq)
  have hnotDeclared : Part.declaration? (.ofList (h.chars ++ (gap ++ more))) = none := by
    rw [Part.declaration?, hdeclaration]
    rfl
  rw [ofText_eq_of_plain hplain, constant?_eq_none fun q hq => hend (getLast?_of_closed hq),
    hnotDeclared, hmatch, hrole]
  rfl

end Header

/-- A line that defines something: a header, a name and what follows it. -/
structure Definition where
  header : Header
  gap : List Char
  isGap : Gap gap
  name : Identifier
  rest : List Char
  opens : ∃ c ∈ rest.head?, isBlank c = true ∨ c ∈ ['\x7b', '(']
  /-- Functions end in their body. -/
  closes : header.role = .function → rest.getLast? = some '\x7d'

namespace Definition
variable (d : Definition)

/-- The text up to the end of the name. -/
def front : List Char := d.header.chars ++ (d.gap ++ d.name.chars)

def line : String := .ofList (d.front ++ d.rest)

/-- What follows the name once the line is normalized. -/
def ending : List Char := terminate (dropBlankEnd d.rest)

/-- The header begins with a letter, and the name ends in one of its characters. -/
theorem exists_front : ∃ (before : List Char) (c : Char), d.front = before ++ [c] ∧
    isIdentChar c = true ∧ ∀ a ∈ (before ++ [c]).head?, isBlank a = false := by
  have hne : d.name.chars ≠ [] := List.cons_ne_nil _ _
  refine ⟨d.header.chars ++ (d.gap ++ d.name.chars.dropLast), d.name.chars.getLast hne, ?_,
    d.name.chars_char _ (List.getLast_mem hne), ?_⟩
  · rw [List.append_assoc, List.append_assoc, List.dropLast_append_getLast]
    rfl
  · have hall : ∀ k ∈ Header.keywords, k.toList.head?.any (!isBlank ·) = true := by decide
    obtain ⟨a, ha, hblank⟩ := (Option.any_eq_true _ _).1 (hall _ d.header.keyword_mem)
    obtain ⟨t, ht⟩ := List.head?_eq_some_iff.1 ha
    intro b hb
    rw [Header.chars, ht] at hb
    obtain rfl := Option.some.inj hb
    simpa using hblank

theorem text_ofRaw : (Statement.ofRaw d.line).text = .ofList (d.front ++ d.ending) := by
  obtain ⟨before, c, hfront, hc, hhead⟩ := d.exists_front
  have hterminator : isTerminator c = false := by
    rw [← Bool.not_eq_true, isTerminator]
    simp only [Bool.or_eq_true, beq_iff_eq]
    rintro ((rfl | rfl) | rfl) <;> exact absurd hc (by decide)
  have hdrop : dropBlank (before ++ c :: d.rest) = before ++ c :: d.rest := by
    refine dropWhile_append_of_stop (v := []) nofun ?_
    cases before <;> exact hhead
  have hcut : before ++ [c] ++ d.rest = before ++ c :: d.rest := by simp
  rw [Statement.ofRaw, normalizeTerminator, trim, line, hfront, String.toList_ofList,
    String.toList_ofList, hcut, hdrop, dropBlankEnd_behind (isBlank_of_isIdentChar hc),
    terminate_behind hterminator, ending]
  simp

theorem opens_ending : Opens d.ending := by
  intro c hc
  rw [ending] at hc
  cases hend : dropBlankEnd d.rest with
  | nil =>
    rw [hend] at hc
    obtain rfl : ';' = c := Option.some.inj hc
    exact .inr (by decide)
  | cons a more =>
    obtain ⟨b, hb, hopens⟩ := d.opens
    obtain ⟨u, hu⟩ : dropBlankEnd d.rest <+: d.rest := List.rdropWhile_prefix isBlank d.rest
    have hab : a = b := by
      rw [← hu, hend] at hb
      exact Option.some.inj hb
    have hac : a = c := by
      rw [hend, terminate] at hc
      split at hc
      · exact Option.some.inj hc
      · exact Option.some.inj hc
    have hsub : ∀ c ∈ ['\x7b', '('], c ∈ ['\x7b', '(', ';'] := by decide
    rw [← hac, hab]
    exact hopens.imp_right (hsub b)

theorem getLast?_line (h : d.header.role = .function) :
    (d.front ++ d.ending).getLast? = some '\x7d' := by
  obtain ⟨init, hrest⟩ := List.getLast?_eq_some_iff.1 (d.closes h)
  have hend : d.ending = d.rest := by
    rw [ending, hrest, dropBlankEnd_behind (by decide), terminate]
    simp [isTerminator, dropBlankEnd, dropBlank]
  rw [hend, hrest, ← List.append_assoc, List.getLast?_concat]

/-- A definition has the role of its header just if its name holds more than dollar signs,
whatever stands behind the name. -/
theorem role_ofRaw_line_iff :
    (Statement.ofRaw d.line).role = d.header.role ↔ ∃ c ∈ d.name.chars, c ≠ '$' := by
  rw [← d.header.matches_iff d.isGap d.opens_ending, Statement.role, Statement.part, d.text_ofRaw,
    front, List.append_assoc, List.append_assoc]
  constructor
  · intro hrole
    refine Part.matches_description ?_
    rw [hrole]
    exact d.header.description?_role
  · intro hmatch
    by_cases hfunction : d.header.role = .function
    · have hclosed := d.getLast?_line hfunction
      rw [front, List.append_assoc, List.append_assoc] at hclosed
      refine d.header.role_of_matches_function d.isGap hfunction ?_ hmatch
      rw [hclosed]
      decide
    · exact d.header.role_of_matches_container d.isGap hfunction hmatch

theorem gap_space : Gap [' '] := by decide

theorem isIdentChar_nil : ∀ c ∈ ([] : List Char), isIdentChar c = true := List.forall_mem_nil _

/-- A contract named by a dollar sign. -/
def dollarContract : Definition where
  header := .contract
  gap := [' ']
  isGap := gap_space
  name := ⟨'$', [], by decide, isIdentChar_nil⟩
  rest := " \x7b\x7d".toList
  opens := ⟨' ', rfl, .inl (by decide)⟩
  closes := nofun

/-- It is a name all the same, but the definition is taken for an expression. -/
theorem role_dollarContract : dollarContract.line = "contract $ \x7b\x7d" ∧
    dollarContract.header.role = .contract ∧
    (Statement.ofRaw dollarContract.line).role = .expression := by
  refine ⟨by decide +kernel, rfl, ?_⟩
  decide +kernel

end Definition

end SoliditySession
