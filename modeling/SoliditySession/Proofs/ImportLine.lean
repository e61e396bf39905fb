import SoliditySession.Proofs.UnitImports
/- Lines of several import directives: which of them are found in a rendered unit. Reading starts at
the beginnings of text lines only, so a directive behind another one on its text line is passed
over. -/
namespace SoliditySession
namespace Text

theorem Respaced.append {cs ds cs' ds' : List Char} (h : Respaced cs ds) (h' : Respaced cs' ds') :
    Respaced (cs ++ cs') (ds ++ ds') := by
  induction h with
  | nil => exact h'
  | keep c _ ih => exact .keep c ih
  | blanks hg hblank hg' hblank' _ ih =>
    rw [List.append_assoc, List.append_assoc]
    exact .blanks hg hblank hg' hblank' ih

theorem Respaced.blank {cs ds : List Char} (h : Respaced cs ds) (hblank : Blank cs) : Blank ds :=
  fun c hc => (h.mem_or_isBlank hc).elim (hblank c) id

end Text

namespace Import
open Pattern Text Solidity

/-- What stands behind a directive, with the paths of the further directives that begin a text
line; those that do not are written on one text line. -/
inductive Behind : List (List Char) → List Char → Prop
  | nil : Behind [] []
  | starts {b path text cs : List Char} {found : List (List Char)} : Blank b → '\n' ∈ b →
      IsPath path → Form path text → Behind found cs → Behind (path :: found) (b ++ (text ++ cs))
  | follows {b path text cs : List Char} {found : List (List Char)} : Blank b → '\n' ∉ b →
      '\n' ∉ text → Form path text → Behind found cs → Behind found (b ++ (text ++ cs))

/-- One directive or more. -/
inductive Row : List (List Char) → List Char → Prop
  | intro {path text cs : List Char} {found : List (List Char)} : IsPath path → Form path text →
      Behind found cs → Row (path :: found) (text ++ cs)

theorem Form.exists_ends {path text : List Char} (h : Form path text) :
    ∃ u, text = 'i' :: (u ++ [';']) := by
  obtain ⟨cs, hcs⟩ := List.head?_eq_some_iff.1 h.head?
  have hlast := h.getLast?
  rw [hcs] at hlast
  rcases List.eq_nil_or_concat cs with rfl | ⟨u, c, rfl⟩
  · cases hlast
  · rw [List.concat_eq_append] at hcs hlast
    rw [← List.cons_append, List.getLast?_concat] at hlast
    obtain rfl := Option.some.inj hlast
    exact ⟨u, hcs⟩

/-- A directive cuts a text that is written anew. -/
theorem Form.cut {path text b cs ds : List Char} (h : Form path text)
    (hr : Respaced (b ++ (text ++ cs)) ds) : ∃ b' text' cs', ds = b' ++ (text' ++ cs') ∧
      Respaced b b' ∧ Respaced text text' ∧ Respaced cs cs' := by
  obtain ⟨u, rfl⟩ := h.exists_ends
  rw [List.cons_append, List.append_assoc] at hr
  obtain ⟨b', rest, rfl, hb, hrest⟩ := hr.cut (by decide)
  obtain ⟨u', cs', rfl, hu, hcs⟩ := hrest.cut (c := ';') (by decide)
  exact ⟨b', 'i' :: (u' ++ [';']), cs', by simp, hb, .keep 'i' (hu.append (.refl [';'])), hcs⟩

theorem Behind.respaced {found : List (List Char)} {cs ds : List Char} (h : Behind found cs)
    (hr : Respaced cs ds) : Behind found ds := by
  induction h generalizing ds with
  | nil =>
    rw [hr.eq_of_not_mem List.not_mem_nil]
    exact .nil
  | starts hb hline hpath hform _ ih =>
    obtain ⟨b', text', cs', rfl, hrb, hrtext, hrcs⟩ := hform.cut hr
    exact .starts (hrb.blank hb) (hrb.mem_newline hline) hpath
      (hform.respaced hpath.oneLine hrtext) (ih hrcs)
  | follows hb hline htext hform _ ih =>
    obtain ⟨b', text', cs', rfl, hrb, hrtext, hrcs⟩ := hform.cut hr
    rw [hrb.eq_of_not_mem hline, hrtext.eq_of_not_mem htext]
    exact .follows hb hline htext hform (ih hrcs)

theorem Row.respaced {found : List (List Char)} {cs ds : List Char} (h : Row found cs)
    (hr : Respaced cs ds) : Row found ds := by
  cases h with
  | intro hpath hform hbehind =>
    obtain ⟨b', text', cs', rfl, hrb, hrtext, hrcs⟩ := hform.cut (b := []) hr
    rw [hrb.eq_of_not_mem List.not_mem_nil, List.nil_append]
    exact .intro hpath (hform.respaced hpath.oneLine hrtext) (hbehind.respaced hrcs)

theorem matchAt?_inLine {c : Char} {behind ahead : List Char} (hc : c ≠ '\n') :
    directive.matchAt? ⟨c :: behind, ahead, []⟩ = none := by
  rw [matchAt?_eq_none_iff]
  intro r hr
  exact hc ((reads_directive hr).1 c rfl)

/-- No directive is read at any place of the text, whatever is around it, and the text ends within
a text line. -/
structure Passed (w : List Char) : Prop where
  passes : ∀ behind rest u c v, w = u ++ c :: v →
    directive.matchAt? ⟨u.reverse ++ behind, c :: (v ++ rest), []⟩ = none
  inLine : ∃ c ∈ w.getLast?, c ≠ '\n'

namespace Passed
variable {w x : List Char}

theorem of_tail {tail : List Char} (h : Free tail) : Passed (tail ++ [';']) where
  passes behind rest u c v huv := by
    obtain ⟨t, ht, hsuffix⟩ := (List.suffix_concat_iff.1 ⟨u, huv.symm⟩).resolve_left
      (List.cons_ne_nil c v)
    rw [← List.cons_append, ht, List.append_assoc]
    exact matchAt?_eq_none_of_free fun c hc => h c (hsuffix.subset hc)
  inLine := ⟨';', List.getLast?_concat, by decide⟩

/-- The next text line begins behind the first line break at the earliest. -/
theorem passes_append (h : Passed w) (hx : '\n' ∉ x.dropLast) (behind rest u : List Char) (c : Char)
    (v : List Char) (huv : w ++ x = u ++ c :: v) :
    directive.matchAt? ⟨u.reverse ++ behind, c :: (v ++ rest), []⟩ = none := by
  have hbehind : ∀ t, x = t ++ c :: v → directive.matchAt?
      ⟨(w ++ t).reverse ++ behind, c :: (v ++ rest), []⟩ = none := by
    intro t ht
    rcases List.eq_nil_or_concat t with rfl | ⟨t, d, rfl⟩
    · obtain ⟨d, hd, hne⟩ := h.inLine
      obtain ⟨w, rfl⟩ := List.getLast?_eq_some_iff.1 hd
      simpa using matchAt?_inLine hne
    · have hne : d ≠ '\n' := by
        rintro rfl
        rw [ht, List.dropLast_append_of_ne_nil (List.cons_ne_nil c v)] at hx
        simp at hx
      simpa using matchAt?_inLine hne
  rcases List.append_eq_append_iff.1 huv with ⟨t, rfl, ht⟩ | ⟨t, ht, hv⟩
  · exact hbehind t ht
  · cases t with
    | nil =>
      rw [List.append_nil] at ht
      have hhere := hbehind [] hv.symm
      rwa [List.append_nil, ht] at hhere
    | cons d t =>
      obtain ⟨rfl, hrest⟩ := List.cons.inj (hv.trans (List.cons_append ..))
      rw [hrest, List.append_assoc]
      exact h.passes behind (x ++ rest) u c t ht

theorem append (h : Passed w) (hx : '\n' ∉ x) : Passed (w ++ x) where
  passes behind rest u c v := h.passes_append (fun hmem => hx (List.dropLast_subset x hmem)) behind
    rest u c v
  inLine := by
    obtain ⟨c, hc, hne⟩ := h.inLine
    rcases List.eq_nil_or_concat x with rfl | ⟨x, d, rfl⟩
    · exact ⟨c, by rwa [List.append_nil], hne⟩
    · refine ⟨d, by simp, ?_⟩
      rintro rfl
      simp at hx

/-- Reading goes on behind the next line break. -/
theorem allFrom (h : Passed w) (hx : '\n' ∉ x) (behind rest : List Char) :
    directive.allFrom behind (w ++ (x ++ '\n' :: rest)) =
      directive.allFrom ('\n' :: ((w ++ x).reverse ++ behind)) rest := by
  have hpass := allFrom_passes behind rest advance_directive fun u c v =>
    h.passes_append (x := x ++ ['\n']) (by rwa [List.dropLast_concat]) behind rest u c v
  simpa using hpass

end Passed

theorem head?_newline (behind : List Char) : ∀ c ∈ ('\n' :: behind).head?, c = '\n' :=
  fun _ hc => (Option.some.inj hc).symm

def pathMark (path : List Char) : List (String × List Char) := [("path", path)]

/-- A directive at the beginning of a text line is found, and reading goes on at its end. -/
theorem allFrom_form {path text g behind : List Char} (hpath : IsPath path) (hform : Form path text)
    (hbehind : ∀ c ∈ behind.head?, c = '\n') (hg : Blank g) (rest : List Char) :
    ∃ behind' w, Passed w ∧ (directive.allFrom behind (g ++ (text ++ rest))).map (·.2.marks) =
      pathMark path :: (directive.allFrom behind' (w ++ rest)).map (·.2.marks) := by
  obtain ⟨behind', tail, htail, hmatch⟩ := matchAt?_directive hpath hform hbehind hg rest
  have hreads := reads_of_matchAt? hmatch
  refine ⟨behind', tail ++ [';'], .of_tail htail, ?_⟩
  rw [allFrom_of_search (search_of_match hmatch) (advance_directive _ _ hreads), List.map_cons,
    List.append_assoc]
  rfl

/-- Of what stands behind a directive the paths on new text lines are found. -/
theorem allFrom_behind {found : List (List Char)} {cs : List Char} (h : Behind found cs)
    {w : List Char} (hw : Passed w) (behind rest : List Char) :
    ∃ behind', (directive.allFrom behind (w ++ (cs ++ '\n' :: rest))).map (·.2.marks) =
      found.map pathMark ++ (directive.allFrom ('\n' :: behind') rest).map (·.2.marks) := by
  induction h generalizing w behind with
  | nil => exact ⟨_, congrArg (List.map (·.2.marks)) (hw.allFrom List.not_mem_nil behind rest)⟩
  | @starts b path text cs found hb hline hpath hform _ ih =>
    obtain ⟨b₁, b₂, rfl, hb₁⟩ := List.eq_append_cons_of_mem hline
    have hb₂ : Blank b₂ := fun c hc => hb c (by simp [hc])
    obtain ⟨behind₁, w', hw', hfound⟩ := allFrom_form hpath hform
      (head?_newline ((w ++ b₁).reverse ++ behind)) hb₂ (cs ++ '\n' :: rest)
    obtain ⟨behind', hbehind'⟩ := ih hw' behind₁
    refine ⟨behind', ?_⟩
    have htext : w ++ (b₁ ++ '\n' :: b₂ ++ (text ++ cs) ++ '\n' :: rest) =
        w ++ (b₁ ++ '\n' :: (b₂ ++ (text ++ (cs ++ '\n' :: rest)))) := by simp
    rw [htext, hw.allFrom hb₁, hfound, hbehind', List.map_cons, List.cons_append]
  | @follows b path text cs found hb hline htext hform _ ih =>
    obtain ⟨behind', hbehind'⟩ := ih ((hw.append hline).append htext) behind
    refine ⟨behind', ?_⟩
    rw [← hbehind']
    simp

theorem allFrom_row {found : List (List Char)} {cs : List Char} (h : Row found cs)
    {g behind : List Char} (hbehind : ∀ c ∈ behind.head?, c = '\n') (hg : Blank g)
    (rest : List Char) : ∃ behind',
      (directive.allFrom behind (g ++ (cs ++ '\n' :: rest))).map (·.2.marks) =
        found.map pathMark ++ (directive.allFrom ('\n' :: behind') rest).map (·.2.marks) := by
  cases h with
  | @intro path text cs found hpath hform hmore =>
    obtain ⟨behind₁, w, hw, hfound⟩ := allFrom_form hpath hform hbehind hg (cs ++ '\n' :: rest)
    obtain ⟨behind', hbehind'⟩ := allFrom_behind hmore hw behind₁ rest
    refine ⟨behind', ?_⟩
    rw [List.append_assoc, hfound, hbehind', List.map_cons, List.cons_append]

theorem allFrom_rows {founds : List (List (List Char))} {rows : List (List Char)}
    (h : List.Forall₂ Row founds rows) {g behind : List Char}
    (hbehind : ∀ c ∈ behind.head?, c = '\n') (hg : Blank g) (rest : List Char) :
    ∃ more, (directive.allFrom behind (g ++ (ended rows ++ rest))).map (·.2.marks) =
      founds.flatten.map pathMark ++ more := by
  induction h generalizing g behind with
  | nil => exact ⟨_, rfl⟩
  | @cons found row founds rows hrow _ ih =>
    obtain ⟨behind₁, hfound⟩ := allFrom_row hrow hbehind hg (ended rows ++ rest)
    obtain ⟨more, hmore⟩ := ih (head?_newline behind₁) blank_nil
    refine ⟨more, ?_⟩
    have htext : ended (row :: rows) ++ rest = row ++ '\n' :: (ended rows ++ rest) := by
      simp [ended]
    rw [List.nil_append] at hmore
    rw [htext, hfound, hmore, List.flatten_cons, List.map_append, List.append_assoc]

/-- A complete directive as it is written, with the path it names. -/
structure Imported where
  path : String
  chars : List Char
  isPath : IsPath path.toList
  directive : Directive path.toList chars

/-- A directive behind another one. If it begins no text line it is written on one. -/
structure Further extends Imported where
  blanks : List Char
  blank : Blank blanks
  settled : '\n' ∈ blanks ∨ '\n' ∉ chars

/-- Directives entered as one line. -/
structure ImportLine where
  first : Imported
  further : List Further

namespace ImportLine
variable (l : ImportLine)

def chars : List Char := l.first.chars ++ (l.further.map fun f => f.blanks ++ f.chars).flatten

def text : String := .ofList l.chars

def paths : List String := l.first.path :: l.further.map (·.path)

/-- The paths of the directives that begin a text line. -/
def found : List String := l.first.path :: (l.further.filter ('\n' ∈ ·.blanks)).map (·.path)

/-- All paths are found just if each directive begins a text line. -/
theorem found_eq_paths_iff : l.found = l.paths ↔ ∀ f ∈ l.further, '\n' ∈ f.blanks := by
  constructor
  · intro h
    have hlength := congrArg List.length h
    rw [found, paths, List.length_cons, List.length_cons, List.length_map,
      List.length_map] at hlength
    simpa using List.length_filter_eq_length_iff.1 (Nat.succ.inj hlength)
  · intro h
    rw [found, List.filter_eq_self.2 (by simpa using h), paths]

theorem behind (further : List Further) :
    Behind (((further.filter ('\n' ∈ ·.blanks)).map (·.path)).map String.toList)
      (further.map fun f => f.blanks ++ f.chars).flatten := by
  induction further with
  | nil => exact .nil
  | cons f further ih =>
    rw [List.map_cons, List.flatten_cons, List.append_assoc]
    by_cases hline : '\n' ∈ f.blanks
    · rw [List.filter_cons_of_pos (by simpa using hline)]
      exact .starts f.blank hline f.isPath f.directive.form ih
    · rw [List.filter_cons_of_neg (by simpa using hline)]
      exact .follows f.blank hline (f.settled.resolve_left hline) f.directive.form ih

theorem row : Row (l.found.map String.toList) l.chars :=
  .intro l.first.isPath l.first.directive.form (behind l.further)

theorem head?_chars : l.chars.head? = some 'i' := by
  rw [chars, List.head?_append, l.first.directive.form.head?]
  rfl

theorem getLast?_chars : l.chars.getLast? = some ';' := by
  rcases List.eq_nil_or_concat l.further with h | ⟨init, f, h⟩
  · simp [chars, h, l.first.directive.form.getLast?]
  · simp [chars, h, List.getLast?_append, f.directive.form.getLast?]

theorem ofRaw_text : Statement.ofRaw l.text = ⟨l.text⟩ :=
  Statement.ofRaw_ofList l.head?_chars (by decide) l.getLast?_chars

/-- The line as it is written in a unit. -/
theorem exists_row : ∃ row, ended ((indented "" l.text).map String.toList) = row ++ ['\n'] ∧
    Row (l.found.map String.toList) row := by
  have htext : l.text.toList = l.chars := String.toList_ofList
  have hhead : l.text.toList.head? = some 'i' := htext ▸ l.head?_chars
  have hlast : l.text.toList.getLast? = some ';' := htext ▸ l.getLast?_chars
  obtain ⟨row, hrow, hr⟩ := respaced_indented hhead (by decide) hlast (by decide)
  exact ⟨row, hrow, l.row.respaced (htext ▸ hr)⟩

theorem exists_gap : ∃ gap rest, Gap gap ∧ l.chars = "import".toList ++ (gap ++ rest) := by
  have hform := l.first.directive.form
  rw [chars]
  generalize l.first.chars = text at hform
  cases hform with
  | @intro _ _ gap _ _ _ _ hgap =>
    simp only [List.append_assoc]
    exact ⟨gap, _, hgap, rfl⟩

/-- The word at the beginning makes it a line of directives. -/
theorem role_ofRaw : (Statement.ofRaw l.text).role = .importDirective := by
  obtain ⟨gap, rest, hgap, hchars⟩ := l.exists_gap
  have hedge : Text.wordEdge ("import".toList.reverse ++ []).head? (gap ++ rest).head? = true := by
    refine (wordEdge_iff (by decide) (by decide +kernel)).2 fun c hc => ?_
    obtain ⟨b, gap, rfl⟩ := List.exists_cons_of_ne_nil hgap.1
    obtain rfl : b = c := Option.some.inj hc
    exact isWord_of_isBlank (hgap.2 b List.mem_cons_self)
  have hhead : Part.importHead.matches? l.text = true := by
    rw [matches?, match?, matchAt?, Place.start, text, String.toList_ofList, hchars,
      Part.importHead, run_append, run_word_append]
    exact congrArg Option.isSome (if_pos hedge)
  rw [l.ofRaw_text, Statement.role, Statement.part, Part.ofText, if_pos hhead]
  rfl

end ImportLine

/-- The lines as they are written in a unit. -/
theorem exists_rows {lines : List ImportLine} {statements : List Statement}
    (h : List.Forall₂ (fun l s => s.text = l.text) lines statements) :
    ∃ rows, ended (((statements.map (·.text)).flatMap (indented "")).map String.toList) =
        ended rows ∧
      List.Forall₂ Row (lines.map fun l => l.found.map String.toList) rows := by
  induction h with
  | nil => exact ⟨[], rfl, .nil⟩
  | @cons l s lines statements htext _ ih =>
    obtain ⟨rows, hrows, hall⟩ := ih
    obtain ⟨row, hrow, hfound⟩ := l.exists_row
    refine ⟨row :: rows, ?_, .cons hfound hall⟩
    rw [List.map_cons, List.flatMap_cons, List.map_append, ended_append, hrows, htext, hrow]
    rfl

/-- Directives stand right behind the two lines a unit begins with and an empty one. -/
theorem exists_source_eq (options : UnitOptions) (spec : ReturnSpec)
    {statements first more : List Statement} {rows : List (List Char)} (hne : first ≠ [])
    (himports : importsOf statements = first ++ more)
    (hrows : ended (((first.map (·.text)).flatMap (indented "")).map String.toList) = ended rows) :
    ∃ rest, (SourceUnit.assemble options spec statements).source.toList =
      "// SPDX-License-Identifier: UNLICENSED".toList ++ ['\n'] ++
        (("pragma solidity " ++ options.pragma ++ ";").toList ++ ['\n'] ++
          (['\n'] ++ (ended rows ++ rest))) := by
  have hslot := inSlot_outside spec statements (r := .importDirective) (by decide)
  have hroles : Role.topLevel = .importDirective :: Role.topLevel.tail := rfl
  have hblock : block (inSlot (placements spec statements) (.outside .importDirective)) =
      [""] ++ ((first.map (·.text)).flatMap (indented "") ++
        (more.map (·.text)).flatMap (indented "")) := by
    rw [hslot, ← importsOf, importsOf_rendered, himports]
    simp [block, hne]
  rw [toList_source, unitLines, hroles, List.flatMap_cons, hblock]
  simp only [List.append_assoc, List.map_append, ended_append, hrows]
  exact ⟨_, by simp [ended]; rfl⟩

/-- The paths in a unit's text, from its lines of directives on. -/
theorem exists_paths_eq {lines : List ImportLine} {rows : List (List Char)} {pragma : String}
    {g rest : List Char} {source : String} (hpragma : OneLine pragma) (hg : Blank g)
    (hrows : List.Forall₂ Row (lines.map fun l => l.found.map String.toList) rows)
    (hsource : source.toList = "// SPDX-License-Identifier: UNLICENSED".toList ++ ['\n'] ++
      (("pragma solidity " ++ pragma ++ ";").toList ++ ['\n'] ++ (g ++ (ended rows ++ rest)))) :
    ∃ more, Import.paths source = lines.flatMap ImportLine.found ++ more := by
  have hline : OneLine ("pragma solidity " ++ pragma ++ ";") :=
    oneLine_append (oneLine_append (by decide) hpragma) (by decide)
  have hhead : ("pragma solidity " ++ pragma ++ ";").toList.head? = some 'p' := by
    rw [String.toList_append, String.toList_append]
    rfl
  obtain ⟨more, hmore⟩ := allFrom_rows hrows (head?_behind_line _ _) hg rest
  rw [paths_eq_filterMap, hsource, allFrom_line (c := '/') (by decide) rfl (by decide) (by decide),
    allFrom_line hline hhead (by decide) (by decide), hmore, List.filterMap_append]
  refine ⟨_, congrArg (· ++ _) ?_⟩
  rw [← List.flatMap_def, ← List.map_flatMap, List.map_map, List.filterMap_map]
  have hread : ∀ path ∈ lines.flatMap ImportLine.found,
      ((pathMark path.toList).lookup "path").map String.ofList = some path :=
    fun path _ => congrArg some String.ofList_toList
  exact (List.filterMap_congr hread).trans List.filterMap_some

end Import

open Import Text Solidity

/-- Whatever the rest of a session is, in its unit the paths of a line of directives are found in
their order, behind those of the lines of directives before it; just those are left out that share
a text line with the end of the directive before them. -/
theorem paths_of_importLine (options : UnitOptions) {before : List Statement}
    {lines : List ImportLine} (hpragma : OneLine options.pragma)
    (hbefore : List.Forall₂ (fun l s => s.text = l.text) lines (importsOf before))
    (l : ImportLine) (spec : ReturnSpec) (after : List Statement) :
    (Statement.ofRaw l.text).role = .importDirective ∧
    (∃ rest, Import.paths (SourceUnit.assemble options spec
        (before ++ Statement.ofRaw l.text :: after)).source =
      lines.flatMap ImportLine.found ++ l.found ++ rest) ∧
    (l.found = l.paths ↔ ∀ f ∈ l.further, '\n' ∈ f.blanks) := by
  refine ⟨l.role_ofRaw, ?_, l.found_eq_paths_iff⟩
  have htext : (Statement.ofRaw l.text).text = l.text := congrArg Statement.text l.ofRaw_text
  obtain ⟨rows, hrows, hall⟩ := exists_rows (List.rel_append hbefore (.cons htext .nil))
  have himports : importsOf (before ++ Statement.ofRaw l.text :: after) =
      (importsOf before ++ [Statement.ofRaw l.text]) ++ importsOf after := by
    simp [importsOf, l.role_ofRaw]
  obtain ⟨rest, hsource⟩ := exists_source_eq options spec (by simp) himports hrows
  obtain ⟨more, hmore⟩ := exists_paths_eq hpragma blank_newline hall hsource
  refine ⟨more, ?_⟩
  rw [hmore, List.flatMap_append, List.flatMap_singleton]

/-- `import "a.sol";` for a given path. -/
def plainImport (path : String) (h : IsPath path.toList) : Imported where
  path := path
  chars := "import".toList ++ [' '] ++ '"' :: (path.toList ++ '"' :: ([] ++ [';']))
  isPath := h
  directive := .plain rfl (by decide) (by decide)

def besideLine : ImportLine where
  first := plainImport "a.sol" ⟨by decide, by decide, by decide⟩
  further := [{ plainImport "b.sol" ⟨by decide, by decide, by decide⟩ with
    blanks := [' '], blank := by decide, settled := by decide }]

def belowLine : ImportLine where
  first := plainImport "c.sol" ⟨by decide, by decide, by decide⟩
  further :=
    [{ plainImport "d.sol" ⟨by decide, by decide, by decide⟩ with
        blanks := "\r\n  \t".toList, blank := by decide, settled := by decide },
      { path := "e.sol"
        chars := "import".toList ++ [' '] ++ ('*' :: [' '] ++ "as".toList ++ [' '] ++
          "Kit".toList ++ ['\n'] ++ "from".toList ++ [' ']) ++
          '\'' :: ("e.sol".toList ++ '\'' :: ([] ++ [';']))
        isPath := ⟨by decide, by decide, by decide⟩
        directive := .all ⟨'K', "it".toList, by decide, by decide⟩ rfl
          (by decide) (by decide) (by decide) (by decide) (by decide) (by decide)
        blanks := "\n\n".toList, blank := by decide, settled := by decide }]

theorem paths_of_importLine_below :
    let before := ["x + 1", "import \"a.sol\"; import \"b.sol\";"].map Statement.ofRaw
    List.Forall₂ (fun (l : ImportLine) s => s.text = l.text) [besideLine] (importsOf before) ∧
    belowLine.text = "import \"c.sol\";\r\n  \timport \"d.sol\";\n\n" ++
      "import * as Kit\nfrom 'e.sol';" ∧
    (Statement.ofRaw belowLine.text).role = .importDirective ∧
    ∃ rest, Import.paths (SourceUnit.assemble {} ⟨"int256", false, none⟩
      (before ++ [Statement.ofRaw belowLine.text])).source =
        ["a.sol", "c.sol", "d.sol", "e.sol"] ++ rest := by
  intro before
  have hbefore : List.Forall₂ (fun (l : ImportLine) s => s.text = l.text) [besideLine]
      (importsOf before) := by
    have himports : importsOf before = [⟨besideLine.text⟩] := by decide +kernel
    rw [himports]
    exact .cons rfl .nil
  obtain ⟨hrole, ⟨rest, hpaths⟩, -⟩ := paths_of_importLine {} (by decide) hbefore
    belowLine ⟨"int256", false, none⟩ []
  exact ⟨hbefore, by decide +kernel, hrole, rest, hpaths⟩

/-- A directive behind another one on its text line is missed. -/
theorem paths_beside :
    besideLine.text = "import \"a.sol\"; import \"b.sol\";" ∧
    besideLine.paths = ["a.sol", "b.sol"] ∧
    (Statement.ofRaw besideLine.text).role = .importDirective ∧
    Import.paths (SourceUnit.preview {} [Statement.ofRaw besideLine.text]).source = ["a.sol"] := by
  decide +kernel

end SoliditySession
