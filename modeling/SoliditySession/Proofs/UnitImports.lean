import SoliditySession.Proofs.Derivation
import SoliditySession.Proofs.Directives
/- The paths that are found in a rendered unit: those of the session's import directives. All other
lines of the unit come from the session's other lines or from the frame around them. -/
namespace SoliditySession
open Import Text Solidity

/-- The line begins, behind blanks, with the word `import`. -/
def BeginsImport (line : String) : Prop :=
  "import".toList <+: dropBlank line.toList ∧
    ∀ c ∈ ((dropBlank line.toList).drop 6).head?, isWord c = false

instance (line : String) : Decidable (BeginsImport line) := inferInstanceAs (Decidable (_ ∧ _))

theorem beginsImport_ofList {g rest : List Char} (hg : Blank g)
    (hrest : ∀ c ∈ rest.head?, isWord c = false) :
    BeginsImport (.ofList (g ++ ("import".toList ++ rest))) := by
  have hdrop : dropBlank (g ++ ("import".toList ++ rest)) = "import".toList ++ rest :=
    List.dropWhile_append_of_pos hg
  have htext : (String.ofList (g ++ ("import".toList ++ rest))).toList =
      g ++ ("import".toList ++ rest) := String.toList_ofList
  rw [BeginsImport, htext, hdrop]
  exact ⟨List.prefix_append _ _, hrest⟩

/-- A run of blanks that ends where a line starts, and the blanks on that line. -/
theorem exists_last_line {g : List Char} (hg : Blank g) : ∃ u w, g = u ++ w ∧
    (∀ c ∈ u.getLast?, c = '\n') ∧ Blank w ∧ '\n' ∉ w := by
  induction g using List.reverseRecOn with
  | nil => exact ⟨[], [], rfl, by simp, blank_nil, List.not_mem_nil⟩
  | append_singleton g c ih =>
    obtain ⟨u, w, rfl, hu, hw, hline⟩ := ih fun x hx => hg x (List.mem_append_left _ hx)
    by_cases hc : c = '\n'
    · subst hc
      exact ⟨u ++ w ++ ['\n'], [], by simp, by simp, blank_nil, List.not_mem_nil⟩
    · refine ⟨u, w ++ [c], by simp, hu, hw.append (blank_singleton (hg c (by simp))), ?_⟩
      simp [hline, Ne.symm hc]

theorem dropReturn_append {w t : List Char} (ht : t ≠ []) :
    dropReturn (w ++ t) = w ++ dropReturn t := by
  rw [dropReturn, dropReturn, List.getLast?_append_of_ne_nil _ ht,
    List.dropLast_append_of_ne_nil ht]
  split <;> rfl

theorem dropReturn_import (w t : List Char) :
    dropReturn (w ++ ("import".toList ++ t)) = w ++ ("import".toList ++ dropReturn t) := by
  rw [dropReturn_append (by simp)]
  cases t with
  | nil => rfl
  | cons c t => rw [dropReturn_append (List.cons_ne_nil c t)]

theorem mem_head?_of_begins {v w : List Char} {c : Char} (h : v <+: w) (hc : c ∈ v.head?) :
    c ∈ w.head? := by
  obtain ⟨t, rfl⟩ := h
  exact List.mem_head?_append_of_mem_head? hc

/-- Where a directive might begin a line begins with the word. -/
theorem NoImport.of_lines {text : String} (h : ∀ l ∈ lines text, ¬ BeginsImport l) :
    NoImport text.toList := by
  rintro u v huv hu ⟨g, x, rest, hg, hx, rfl⟩
  obtain ⟨u', g', rfl, hu', hg', hline⟩ := exists_last_line hg
  have hstart : ∀ c ∈ (u ++ u').getLast?, c = '\n' := by
    intro c hc
    rw [List.getLast?_append, Option.mem_def, Option.or_eq_some_iff] at hc
    rcases hc with hc | ⟨-, hc⟩
    · exact hu' c hc
    · exact hu c hc
  have hchars : ∀ c ∈ "import".toList, (c != '\n') = true := by decide
  have hblanks : ∀ c ∈ g', (c != '\n') = true := by
    intro c hc
    simp only [bne_iff_ne, ne_eq]
    rintro rfl
    exact hline hc
  have hpart := takeWhile_mem_splitOn (v := g' ++ ("import".toList ++ x :: rest)) hstart
  rw [List.takeWhile_append_of_pos hblanks, List.takeWhile_append_of_pos hchars] at hpart
  have htext : u ++ u' ++ (g' ++ ("import".toList ++ x :: rest)) = text.toList := by
    rw [huv]
    simp only [List.append_assoc]
  rw [htext] at hpart
  have hhead : ∀ c ∈ ((x :: rest).takeWhile (· != '\n')).head?, isWord c = false := by
    intro c hc
    obtain rfl : x = c :=
      Option.some.inj (mem_head?_of_begins (List.takeWhile_prefix (· != '\n')) hc)
    exact Solidity.isWord_of_isBlank hx
  rcases mem_lineChars_of_mem_splitOn hpart (by simp) with hmem | hmem
  · exact h _ (List.mem_map_of_mem hmem) (beginsImport_ofList hg' hhead)
  · rw [dropReturn_import] at hmem
    refine h _ (List.mem_map_of_mem hmem) (beginsImport_ofList hg' fun c hc => ?_)
    exact hhead c (mem_head?_of_begins (prefix_of_dropReturn _) hc)

theorem beginsImport_of_importAhead {l : List Char} (h : ImportAhead (l ++ ['\n'])) :
    BeginsImport (.ofList l) := by
  obtain ⟨g, x, rest, hg, hx, heq⟩ := h
  rcases List.eq_nil_or_concat rest with rfl | ⟨rest, d, rfl⟩
  · have hsplit : g ++ ("import".toList ++ [x]) = g ++ "import".toList ++ [x] := by
      rw [List.append_assoc]
    obtain ⟨rfl, -⟩ := List.append_inj' (heq.trans hsplit) rfl
    have hbegins := @beginsImport_ofList _ [] hg (by simp)
    rwa [List.append_nil] at hbegins
  · have hsplit : g ++ ("import".toList ++ x :: rest.concat d) =
        g ++ ("import".toList ++ x :: rest) ++ [d] := by simp
    obtain ⟨rfl, -⟩ := List.append_inj' (heq.trans hsplit) rfl
    refine beginsImport_ofList hg ?_
    rintro c ⟨⟩
    exact Solidity.isWord_of_isBlank hx

/-- No directive begins on any of the lines. -/
def Silent (ls : List String) : Prop := ∀ l ∈ ls, NoImport (l.toList ++ ['\n'])

theorem Silent.append {ls ms : List String} (h : Silent ls) (h' : Silent ms) : Silent (ls ++ ms) :=
  List.forall_mem_append.2 ⟨h, h'⟩

theorem Silent.flatMap {α : Type} {f : α → List String} {xs : List α} (h : ∀ x ∈ xs, Silent (f x)) :
    Silent (xs.flatMap f) := by
  intro l hl
  obtain ⟨x, hx, hl⟩ := List.mem_flatMap.1 hl
  exact h x hx l hl

theorem silent_nil : Silent [] := by
  intro l hl
  cases hl

theorem Silent.cons {l : String} {ls : List String} (h : NoImport (l.toList ++ ['\n']))
    (h' : Silent ls) : Silent (l :: ls) :=
  List.forall_mem_cons.2 ⟨h, h'⟩

theorem noImport_empty : NoImport ("".toList ++ ['\n']) :=
  .line List.not_mem_nil fun h => absurd h.length_lt (by decide)

/-- A line that begins, behind blanks, with another character. -/
theorem noImport_line {g v : List Char} {c : Char} {l : String} (hl : l.toList = g ++ c :: v)
    (hline : OneLine l) (hg : Blank g) (hc : isBlank c = false) (hi : c ≠ 'i') :
    NoImport (l.toList ++ ['\n']) := by
  refine .line hline ?_
  rw [hl, List.append_assoc]
  exact not_importAhead hg hc hi

theorem silent_indented {indent text : String} (hindent : Blank indent.toList)
    (hline : OneLine indent) (h : ∀ l ∈ lines text, ¬ BeginsImport l) :
    Silent (indented indent text) := by
  intro l hl
  obtain ⟨l', hl', rfl⟩ := List.mem_map.1 hl
  obtain ⟨cs, hcs, rfl⟩ := List.mem_map.1 hl'
  split
  · exact noImport_empty
  · rw [String.toList_append, String.toList_ofList]
    refine .line ?_ ?_
    · rw [List.mem_append]
      exact fun hmem => hmem.elim hline (not_mem_of_mem_lineChars hcs)
    · intro hahead
      rw [List.append_assoc] at hahead
      exact h _ hl' (beginsImport_of_importAhead (hahead.of_blank hindent))

/-- The clause that returns a piece of a text without directives. -/
theorem noImport_return {e text : List Char} (htext : NoImport text) (he : e <:+: text) :
    NoImport ("        return ".toList ++ (e ++ [';', '\n'])) := by
  have hblank : Blank "        ".toList := by
    intro c hc
    have hall : ∀ c ∈ "        ".toList, isBlank c = true := by decide
    exact hall c hc
  have hreturn : '\n' ∉ "        return ".toList := by decide
  obtain ⟨before, after, rfl⟩ := he
  intro u v huv hu hahead
  rcases List.append_eq_append_iff.1 huv with ⟨w, rfl, hw⟩ | ⟨w, hw, rfl⟩
  · rcases List.append_eq_append_iff.1 hw with ⟨t, rfl, ht⟩ | ⟨t, rfl, rfl⟩
    · have hlt := hahead.length_lt
      have hlen := congrArg List.length ht
      simp only [List.length_append, List.length_cons, List.length_nil] at hlen
      omega
    · have hstart : ∀ c ∈ (before ++ w).getLast?, c = '\n' := by
        intro c hc
        rcases List.eq_nil_or_concat w with rfl | ⟨w, d, rfl⟩
        · rw [List.append_nil] at hu
          exact absurd (hu ' ' rfl) (by decide)
        · rw [List.concat_eq_append, ← List.append_assoc] at hc hu
          rw [List.getLast?_concat] at hc hu
          exact hu c hc
      refine htext (before ++ w) (t ++ after) (by simp) hstart ?_
      exact ImportAhead.extend (ImportAhead.of_semicolon hahead) after
  · rcases List.eq_nil_or_concat u with rfl | ⟨u, c, rfl⟩
    · have hsplit : "        return ".toList = "        ".toList ++ 'r' :: "eturn ".toList := by
        decide
      rw [List.nil_append] at hw
      rw [← hw, hsplit, List.append_assoc] at hahead
      exact not_importAhead hblank (by decide) (by decide) hahead
    · rw [List.concat_eq_append] at hu hw
      have hmem : c ∈ "        return ".toList := by
        rw [hw]
        exact List.mem_append_left _ (List.mem_append_right _ (List.mem_singleton_self c))
      rw [hu c List.getLast?_concat] at hmem
      exact hreturn hmem

namespace Part

theorem infix_of_constant? {text name : String} {part : Part} (h : constant? text = some part)
    (hname : part.name? = some name) : name.toList <:+: text.toList := by
  obtain ⟨q, hq, h⟩ := Option.bind_eq_some_iff.1 h
  split at h
  · next hmark _ =>
    cases h
    cases hname
    exact Pattern.infix_of_match? hq hmark
  · cases h

theorem infix_of_declaration? {text name : String} {part : Part}
    (h : declaration? text = some part) (hname : part.name? = some name) :
    name.toList <:+: text.toList := by
  obtain ⟨q, hq, h⟩ := Option.bind_eq_some_iff.1 h
  split at h
  · next hmark _ =>
    split at h
    · cases h
    · cases h
      cases hname
      exact Pattern.infix_of_match? hq hmark
  · cases h

theorem infix_of_target? {text name : String} (h : target? text = some name) :
    name.toList <:+: text.toList := by
  rw [target?] at h
  split at h
  · next q hq => exact Pattern.infix_of_match? hq h
  · obtain ⟨q, hq, hmark⟩ := Option.bind_eq_some_iff.1 h
    exact Pattern.infix_of_match? hq hmark

/-- What can be read back is written in the statement. -/
theorem infix_of_name? {text name : String} (h : (ofText text).name? = some name) :
    name.toList <:+: text.toList := by
  rcases cases_of_name? h with hpart | hpart | hpart
  · exact infix_of_constant? hpart h
  · exact infix_of_declaration? hpart h
  · rw [hpart] at h
    exact infix_of_target? h

end Part

theorem Statement.prefix_body (s : Statement) : s.body.toList <+: s.text.toList := by
  rw [body, String.toList_ofList]
  refine (List.rdropWhile_prefix isBlank _).trans ?_
  split
  · exact List.dropLast_prefix _
  · exact List.prefix_rfl

/-- The expression returned is written in a statement that is no directive. -/
theorem exists_of_returnExpression {statements : List Statement} {e : String}
    (h : returnExpression statements = some e) :
    ∃ s ∈ statements, s.role ≠ .importDirective ∧ e.toList <:+: s.text.toList := by
  obtain ⟨s, hs, h⟩ := Option.bind_eq_some_iff.1 h
  have hvalue : s.role ≠ .importDirective ∧ e = s.part.name?.getD s.body := by
    dsimp only at h
    split at h <;> simp_all [Statement.role]
  refine ⟨s, List.mem_of_getLast? hs, hvalue.1, ?_⟩
  rw [hvalue.2]
  cases hname : s.part.name? with
  | none => exact s.prefix_body.isInfix
  | some name => exact Part.infix_of_name? hname

theorem toList_source (options : UnitOptions) (spec : ReturnSpec) (statements : List Statement) :
    (SourceUnit.assemble options spec statements).source.toList =
      ended ((unitLines options spec statements).map String.toList) := by
  rw [SourceUnit.assemble]
  generalize unitLines options spec statements = ls
  induction ls with
  | nil => rfl
  | cons l ls ih =>
    rw [List.map_cons, String.join_cons, String.toList_append, ih, String.toList_append]
    rfl

/-- The directives of a session. -/
def importsOf (statements : List Statement) : List Statement :=
  statements.filter (·.role == .importDirective)

theorem importsOf_rendered (spec : ReturnSpec) (statements : List Statement) :
    importsOf (rendered spec statements) = importsOf statements := by
  rw [rendered]
  split
  · next h =>
    cases hlast : statements.getLast? with
    | none => simp [hlast] at h
    | some s =>
      have hstatements : statements.dropLast ++ [s] = statements :=
        List.dropLast_append_getLast? s hlast
      have hbare : s.part = .expression none := by
        simpa [hlast, Part.isBare] using (Bool.and_eq_true_iff.1 h).1
      have hnone : importsOf [s] = [] := by simp [importsOf, Statement.role, hbare, Part.role]
      conv_rhs => rw [← hstatements, importsOf, List.filter_append]
      change _ = importsOf statements.dropLast ++ importsOf [s]
      rw [hnone, List.append_nil]
  · rfl

/-- The lines of a unit behind its directives. -/
def linesBehind (spec : ReturnSpec) (statements : List Statement) : List String :=
  let placed := placements spec statements
  let members := inSlot placed .member
  Role.topLevel.tail.flatMap (fun r => block (inSlot placed (.outside r))) ++
    (["", "contract Main \x7b"] ++
    (members.flatMap (indented "    ") ++
    ((if members.isEmpty then [] else [""]) ++
    (["    " ++ signature {} spec ++ " \x7b"] ++
    ((inSlot placed .body).flatMap (indented "        ") ++
    ((match spec.expression with
      | some e => ["        return " ++ e ++ ";"]
      | none => []) ++
    ["    \x7d", "\x7d"]))))))

theorem unitLines_eq (spec : ReturnSpec) (statements : List Statement) :
    unitLines {} spec statements =
      ["// SPDX-License-Identifier: UNLICENSED", "pragma solidity ^0.8.0;"] ++
        (block ((importsOf statements).map (·.text)) ++ linesBehind spec statements) := by
  have himports := inSlot_outside spec statements (r := .importDirective) (by decide)
  have hroles : Role.topLevel = .importDirective :: Role.topLevel.tail := rfl
  have hpragma : "pragma solidity " ++ "^0.8.0" ++ ";" = "pragma solidity ^0.8.0;" := by decide
  have hcontract : "contract " ++ "Main" ++ " \x7b" = "contract Main \x7b" := by decide
  rw [← importsOf_rendered spec statements, importsOf, ← himports]
  simp only [unitLines, linesBehind, List.append_assoc, hpragma, hcontract]
  nth_rewrite 1 [hroles]
  rw [List.flatMap_cons]
  exact congrArg (_ ++ ·) (List.append_assoc _ _ _)

/-- No line of the statement begins with the word `import`. -/
def Statement.Plain (s : Statement) : Prop := ∀ l ∈ lines s.text, ¬ BeginsImport l

theorem mem_of_mem_rendered {spec : ReturnSpec} {statements : List Statement} {s : Statement}
    (h : s ∈ rendered spec statements) : s ∈ statements := by
  rw [rendered] at h
  split at h
  · exact List.dropLast_subset _ h
  · exact h

theorem oneLine_signature {spec : ReturnSpec} (h : OneLine spec.returnType) :
    OneLine (signature {} spec) := by
  have hview : OneLine (if spec.mayMutate then "" else " view") := by
    split
    · decide
    · decide
  rw [signature]
  refine oneLine_append (by decide) ?_
  split
  · exact oneLine_append (oneLine_append (oneLine_append hview (by decide)) h) (by decide)
  · decide

theorem noImport_signature {spec : ReturnSpec} (h : OneLine spec.returnType) :
    NoImport (("    " ++ signature {} spec ++ " \x7b").toList ++ ['\n']) := by
  have hline : OneLine ("    " ++ signature {} spec ++ " \x7b") :=
    oneLine_append (oneLine_append (by decide) (oneLine_signature h)) (by decide)
  have hindent : ∀ c ∈ "    ".toList, isBlank c = true := by decide
  obtain ⟨rest, hrest⟩ : ∃ rest, ("    " ++ signature {} spec ++ " \x7b").toList =
      "    ".toList ++ 'f' :: rest := by
    simp only [signature, String.toList_append, List.append_assoc]
    exact ⟨_, rfl⟩
  exact noImport_line hrest hline hindent (by decide) (by decide)

section
variable {spec : ReturnSpec} {statements : List Statement}
  (hplain : ∀ s ∈ statements, s.role ≠ .importDirective → s.Plain)
include hplain

/-- A group of statements that holds no directive, with some indentation. -/
theorem silent_group {indent : String} {p : Statement → Bool}
    (hindent : ∀ c ∈ indent.toList, isBlank c = true) (hline : OneLine indent)
    (hp : ∀ s : Statement, p s = true → s.role ≠ .importDirective) :
    Silent ((((rendered spec statements).filter p).map (·.text)).flatMap (indented indent)) := by
  refine .flatMap fun text htext => ?_
  obtain ⟨s, hs, rfl⟩ := List.mem_map.1 htext
  obtain ⟨hmem, hps⟩ := List.mem_filter.1 hs
  exact silent_indented hindent hline (hplain s (mem_of_mem_rendered hmem) (hp s hps))

theorem silent_block {r : Role} (hr : r ∈ Role.topLevel.tail) :
    Silent (block (inSlot (placements spec statements) (.outside r))) := by
  have hother : ∀ r ∈ Role.topLevel.tail, r ≠ .importDirective := by decide
  rw [inSlot_outside spec statements (List.mem_of_mem_tail hr), block]
  split
  · exact silent_nil
  · refine .cons noImport_empty (silent_group hplain (by decide) (by decide) fun s hs => ?_)
    rw [eq_of_beq hs]
    exact hother r hr

theorem silent_return (hspec : Derived {} statements spec) :
    Silent (match spec.expression with
      | some e => ["        return " ++ e ++ ";"]
      | none => []) := by
  split
  · next e he =>
    have hreturn : returnExpression statements = some e := by
      rcases hspec.expression_eq with hnone | hsome
      · rw [hnone] at he
        cases he
      · rw [← hsome, he]
    obtain ⟨s, hs, hrole, hinfix⟩ := exists_of_returnExpression hreturn
    refine .cons ?_ silent_nil
    have hclause := noImport_return (NoImport.of_lines (hplain s hs hrole)) hinfix
    simpa using hclause
  · exact silent_nil

theorem silent_behind (hspec : Derived {} statements spec) :
    Silent (linesBehind spec statements) := by
  have hmember : ∀ s : Statement, s.part.isMember = true → s.role ≠ .importDirective := by
    intro s hs hrole
    rw [Part.isMember, show s.part.role = .importDirective from hrole] at hs
    cases hs
  have hstep : ∀ s : Statement, s.part.isStep = true → s.role ≠ .importDirective := by
    intro s hs hrole
    rw [Part.isStep, show s.part.role = .importDirective from hrole] at hs
    cases hs
  have hcontract : NoImport ("contract Main \x7b".toList ++ ['\n']) :=
    noImport_line (g := []) (c := 'c') (v := "ontract Main \x7b".toList) rfl (by decide)
      blank_nil (by decide) (by decide)
  have hgap : ∀ texts : List String, Silent (if texts.isEmpty then [] else [""]) := by
    intro texts
    split
    · exact silent_nil
    · exact .cons noImport_empty silent_nil
  have hclose : Silent ["    \x7d", "\x7d"] := by
    have hindent : ∀ c ∈ "    ".toList, isBlank c = true := by decide
    refine .cons ?_ (.cons ?_ silent_nil)
    · exact noImport_line (g := "    ".toList) (c := '\x7d') (v := []) rfl (by decide) hindent
        (by decide) (by decide)
    · exact noImport_line (g := []) (c := '\x7d') (v := []) rfl (by decide) blank_nil
        (by decide) (by decide)
  rw [linesBehind, inSlot_member, inSlot_body]
  refine .append (.flatMap fun r hr => silent_block hplain hr) ?_
  refine .append (.cons noImport_empty (.cons hcontract silent_nil)) ?_
  refine .append (silent_group hplain (by decide) (by decide) hmember) ?_
  refine .append (hgap _) ?_
  refine .append (.cons (noImport_signature (hspec.oneLine_returnType (by decide))) silent_nil) ?_
  refine .append (silent_group hplain (by decide) (by decide) hstep) ?_
  exact .append (silent_return hplain hspec) hclose

end

/-- The statement is a directive that imports the unit at the path. -/
def Imports (path : String) (s : Statement) : Prop :=
  IsPath path.toList ∧ Directive path.toList s.text.toList

/-- Rendered directives are directives for the same paths. -/
theorem exists_forms {paths : List String} {directives : List Statement}
    (h : List.Forall₂ Imports paths directives) :
    ∃ texts, ended (((directives.map (·.text)).flatMap (indented "")).map String.toList) =
        ended texts ∧ List.Forall₂ Form (paths.map String.toList) texts := by
  induction h with
  | nil => exact ⟨[], rfl, .nil⟩
  | @cons path s paths directives himports _ ih =>
    obtain ⟨texts, htexts, hforms⟩ := ih
    obtain ⟨hpath, hdirective⟩ := himports
    obtain ⟨text, htext, hrespaced⟩ := respaced_indented hdirective.form.head? (by decide)
      hdirective.form.getLast? (by decide)
    refine ⟨text :: texts, ?_, .cons (hdirective.form.respaced hpath.oneLine hrespaced) hforms⟩
    rw [List.map_cons, List.flatMap_cons, List.map_append, ended_append, htexts, htext]
    rfl

/-- A line that begins with another character is passed over. -/
theorem allFrom_line {c : Char} {line behind ahead : List Char} (hline : '\n' ∉ line)
    (hhead : line.head? = some c) (hc : isBlank c = false) (hi : c ≠ 'i') :
    directive.allFrom behind (line ++ ['\n'] ++ ahead) =
      directive.allFrom ((line ++ ['\n']).reverse ++ behind) ahead := by
  refine Pattern.allFrom_passes behind ahead advance_directive fun u d v huv => ?_
  rw [Pattern.matchAt?_eq_none_iff]
  intro r hr
  obtain ⟨hstart, -⟩ := reads_directive hr
  have hahead := importAhead_of_reads hr
  rcases List.eq_nil_or_concat u with rfl | ⟨u, x, rfl⟩
  · obtain ⟨l, rfl⟩ := List.head?_eq_some_iff.1 hhead
    obtain ⟨rfl, -⟩ := List.cons.inj huv
    exact not_importAhead blank_nil hc hi hahead
  · obtain rfl : x = '\n' := hstart x (by simp)
    rcases List.eq_nil_or_concat v with rfl | ⟨v, y, rfl⟩
    · obtain ⟨rfl, -⟩ := List.append_inj' huv rfl
      simp at hline
    · have hsplit : u.concat '\n' ++ d :: v.concat y = u.concat '\n' ++ d :: v ++ [y] := by simp
      obtain ⟨rfl, -⟩ := List.append_inj' (huv.trans hsplit) rfl
      simp at hline

theorem head?_behind_line (line behind : List Char) :
    ∀ c ∈ ((line ++ ['\n']).reverse ++ behind).head?, c = '\n' := by
  intro c hc
  rw [List.reverse_append, List.reverse_singleton] at hc
  exact (Option.some.inj hc).symm

theorem paths_eq_filterMap (source : String) : Import.paths source =
    ((directive.allFrom [] source.toList).map (·.2.marks)).filterMap fun marks =>
      (marks.lookup "path").map String.ofList := by
  rw [List.filterMap_map]
  rfl

/-- The paths in a unit's text, from its directives on. -/
theorem paths_eq {paths texts : List (List Char)} {g rest : List Char} {source : String}
    (hsource : source.toList = "// SPDX-License-Identifier: UNLICENSED".toList ++ ['\n'] ++
      ("pragma solidity ^0.8.0;".toList ++ ['\n'] ++ (g ++ (ended texts ++ rest))))
    (hforms : List.Forall₂ Form paths texts) (hpaths : ∀ path ∈ paths, IsPath path) (hg : Blank g)
    (hrest : NoImport rest) : Import.paths source = paths.map .ofList := by
  have hfound : (directive.allFrom [] source.toList).map (·.2.marks) =
      paths.map fun path => [("path", path)] := by
    rw [hsource, allFrom_line (c := '/') (by decide) rfl (by decide) (by decide),
      allFrom_line (c := 'p') (by decide) rfl (by decide) (by decide)]
    exact paths_found hforms hpaths (head?_behind_line _ _) hg hrest
  rw [paths_eq_filterMap, hfound, List.filterMap_map, ← List.filterMap_eq_map]
  exact List.filterMap_congr fun path _ => rfl

/-- In a rendered unit the paths of the directives of its session are found, in their order and each
as often as it is imported, and nothing else: whatever blanks stand in the directives, and as long
as no line of the other statements begins with the word `import`. -/
theorem paths_assemble {spec : ReturnSpec} {statements : List Statement} {paths : List String}
    (hspec : Derived {} statements spec) (himports : List.Forall₂ Imports paths (importsOf statements))
    (hplain : ∀ s ∈ statements, s.role ≠ .importDirective → s.Plain) :
    Import.paths (SourceUnit.assemble {} spec statements).source = paths := by
  obtain ⟨texts, htexts, hforms⟩ := exists_forms himports
  have hpaths : ∀ path ∈ paths.map String.toList, IsPath path := by
    rw [List.forall_mem_map]
    exact (List.forall₂_and_left (p := fun path : String => IsPath path.toList) _ _ |>.1 himports).1
  have hrest : NoImport (ended ((linesBehind spec statements).map String.toList)) := by
    refine .ended fun l hl => ?_
    obtain ⟨line, hline, rfl⟩ := List.mem_map.1 hl
    exact silent_behind hplain hspec line hline
  have hblock : ∃ g, Blank g ∧ ended ((block ((importsOf statements).map (·.text))).map
      String.toList) = g ++ ended texts := by
    rw [block]
    split
    · next hempty =>
      rw [List.isEmpty_iff, List.map_eq_nil_iff] at hempty
      rw [hempty] at htexts
      exact ⟨[], blank_nil, htexts⟩
    · refine ⟨['\n'], blank_newline, ?_⟩
      rw [← htexts]
      rfl
  obtain ⟨g, hg, hblock⟩ := hblock
  have hsource := toList_source {} spec statements
  rw [unitLines_eq, List.map_append, List.map_append, ended_append, ended_append, hblock,
    List.append_assoc] at hsource
  have hheader : ended (["// SPDX-License-Identifier: UNLICENSED", "pragma solidity ^0.8.0;"].map
      String.toList) = "// SPDX-License-Identifier: UNLICENSED".toList ++ ['\n'] ++
        ("pragma solidity ^0.8.0;".toList ++ ['\n']) := by
    simp only [ended, List.map_cons, List.map_nil, List.flatMap_cons, List.flatMap_nil,
      List.append_nil]
  rw [hheader, List.append_assoc] at hsource
  rw [paths_eq hsource hforms hpaths hg hrest, List.map_map]
  exact List.map_id'' (fun path => String.ofList_toList) paths

theorem paths_assemble_several :
    let statements := ["import\n \x7bA,\r\n\tB as from\x7d\n  from './a.sol' ;",
      "import * as from from \"b c.sol\"", "import './a.sol'as X", "x +\n  imported"].map
        Statement.ofRaw
    let spec := { ReturnSpec.guess {} statements with returnType := "uint256" }
    let paths := ["./a.sol", "b c.sol", "./a.sol"]
    Derived {} statements spec ∧ List.Forall₂ Imports paths (importsOf statements) ∧
      (∀ s ∈ statements, s.role ≠ .importDirective → s.Plain) ∧
      Import.paths (SourceUnit.assemble {} spec statements).source = paths := by
  intro statements spec paths
  have hspec : Derived {} statements spec := by
    have hfix : Interpreter.solidity.returnFix? (.ofError "TypeError" ("Return argument type " ++
        "uint256 is not implicitly convertible to expected type int256.")) =
          some (.type "uint256") := by
      decide +kernel
    exact .corrected .guess (.type hfix)
  have hdirectives : importsOf statements =
      ["import\n \x7bA,\r\n\tB as from\x7d\n  from './a.sol' ;",
        "import * as from from \"b c.sol\";", "import './a.sol'as X;"].map Statement.mk := by
    decide +kernel
  have himports : List.Forall₂ Imports paths (importsOf statements) := by
    rw [hdirectives]
    refine .cons ⟨⟨by decide, by decide, by decide⟩, ?_⟩
      (.cons ⟨⟨by decide, by decide, by decide⟩, ?_⟩
        (.cons ⟨⟨by decide, by decide, by decide⟩, ?_⟩ .nil))
    · refine (congrArg (Directive _) ?_).mpr (@Directive.symbols _ '\'' "\n ".toList
        "A,\r\n\tB as from".toList "\n  ".toList " ".toList " ".toList (by decide) (by decide)
        (by decide) (by decide) (by decide) (by decide))
      decide +kernel
    · refine (congrArg (Directive _) ?_).mpr (@Directive.all _ '"' " ".toList " ".toList
        " ".toList " ".toList " ".toList [] ⟨'f', "rom".toList, by decide, by decide⟩ (by decide)
        (by decide) (by decide) (by decide) (by decide) (by decide) (by decide))
      decide +kernel
    · refine (congrArg (Directive _) ?_).mpr (@Directive.renamed _ '\'' " ".toList [] " ".toList
        [] ⟨'X', [], by decide, by decide⟩ (by decide) (by decide) (by decide) (by decide)
        (by decide))
      decide +kernel
  have hplain : ∀ s ∈ statements, s.role ≠ .importDirective → s.Plain := by
    have hroles : (statements.take 3).all (·.role == .importDirective) = true := by
      decide +kernel
    have hlast : ∀ l ∈ ["x +", "  imported;"], ¬ BeginsImport l := by decide +kernel
    have hlines : lines (Statement.ofRaw "x +\n  imported").text = ["x +", "  imported;"] := by
      decide +kernel
    intro s hs hrole
    rcases List.mem_append.1 (List.take_append_drop 3 statements ▸ hs) with hs | hs
    · exact absurd (eq_of_beq (List.all_eq_true.1 hroles s hs)) hrole
    · obtain rfl := List.mem_singleton.1 hs
      rw [Statement.Plain, hlines]
      exact hlast
  exact ⟨hspec, himports, hplain, paths_assemble hspec himports hplain⟩

end SoliditySession
