import SoliditySession.Proofs.Acceptance
import SoliditySession.Prompt.Loop
/- How the loop cuts its input into statements. What is gathered is at any time the text of the
lines since the last cut, so no line is lost, read twice or carried over into the next statement. -/
namespace SoliditySession.Prompt

def isBlankLine (line : String) : Bool := Text.trim line == ""

/-- What begins with a point is a command. -/
def isDotLine (line : String) : Bool := (Text.trim line).toList.head? == some '.'

/-- The command to leave, in letters of either case. -/
def isExitLine (line : String) : Bool :=
  (Text.trim line).toList.map Char.toLower == ".exit".toList

theorem Command.find?_word {c : Command} {word : String} :
    Command.all.find? (·.word == word) = some c ↔ c.word = word := by
  constructor
  · intro h
    exact eq_of_beq (List.find?_some (p := fun c : Command => c.word == word) h)
  · rintro rfl
    cases c <;> decide

theorem eq_point_of_toLower {c : Char} (h : c.toLower = '.') : c = '.' := by
  delta Char.toLower at h
  split at h
  · next hupper =>
    have hval := congrArg Char.toNat h
    have hlow : 65 ≤ c.val.toNat := UInt32.le_iff_toNat_le.1 hupper.1
    have hhigh : c.val.toNat ≤ 90 := UInt32.le_iff_toNat_le.1 hupper.2
    have hpoint : (c.val + 32).toNat = 46 := hval
    rw [UInt32.toNat_add] at hpoint
    have : (32 : UInt32).toNat = 32 := rfl
    omega
  · exact h

theorem isDotLine_of_isExitLine {line : String} (h : isExitLine line = true) :
    isDotLine line = true := by
  have hlower : (Text.trim line).toList.map Char.toLower = ".exit".toList := eq_of_beq h
  rw [isDotLine]
  cases hcs : (Text.trim line).toList with
  | nil =>
    rw [hcs] at hlower
    cases hlower
  | cons c cs =>
    rw [hcs] at hlower
    obtain rfl := eq_point_of_toLower (List.cons.inj hlower).1
    rfl

theorem entry_eq_statement_iff {line : String} :
    Entry.of line = .statement ↔ isDotLine line = false := by
  rw [Entry.of, isDotLine]
  cases (Text.trim line).toList.head? == some '.' with
  | false => simp
  | true =>
    simp only [if_true, Bool.true_eq_false, iff_false]
    split <;> simp

theorem entry_eq_exit_iff {line : String} :
    Entry.of line = .command .exit ↔ isExitLine line = true := by
  have hword : Command.exit.word = .ofList ((Text.trim line).toList.map Char.toLower) ↔
      isExitLine line = true := by
    rw [isExitLine, beq_iff_eq, eq_comm, ← String.toList_inj, String.toList_ofList]
    rfl
  rw [← hword, ← Command.find?_word, Entry.of]
  constructor
  · intro h
    split at h
    · dsimp only at h
      split at h
      · next hfind => rw [hfind, Entry.command.inj h]
      · cases h
    · cases h
  · intro h
    have hdot := isDotLine_of_isExitLine (hword.1 (Command.find?_word.1 h))
    rw [isDotLine] at hdot
    simp only [hdot, if_true, h]

/-- The text of some lines, of which blank ones count as empty. -/
def joined (group : List String) : String :=
  "\n".intercalate (group.map fun l => if isBlankLine l then "" else l)

/-- The first line, if there is one, begins a statement. -/
def Begins (group : List String) : Prop :=
  ∀ l ∈ group.head?, isBlankLine l = false ∧ isDotLine l = false

/-- Brackets are open behind every line that is not blank. -/
def StaysOpen (group : List String) : Prop :=
  ∀ before line, before ++ [line] <+: group → isBlankLine line = false →
    Solidity.needsMore (joined (before ++ [line])) = true

/-- The brackets are closed behind the last line, which is not blank, and not before it. -/
def Closes (group : List String) : Prop :=
  ∃ before line, group = before ++ [line] ∧ StaysOpen before ∧ isBlankLine line = false ∧
    Solidity.needsMore (joined group) = false

theorem staysOpen_nil : StaysOpen [] := by
  intro before line h
  simp at h

theorem StaysOpen.concat {group : List String} {line : String} (h : StaysOpen group)
    (hline : isBlankLine line = true ∨ Solidity.needsMore (joined (group ++ [line])) = true) :
    StaysOpen (group ++ [line]) := by
  intro before last hprefix hlast
  rcases List.prefix_concat_iff.1 hprefix with heq | hprefix
  · obtain ⟨rfl, hlast'⟩ := List.append_inj' heq rfl
    obtain rfl : last = line := by simpa using hlast'
    rcases hline with hblank | hmore
    · rw [hlast] at hblank
      cases hblank
    · exact hmore
  · exact h before last hprefix hlast

theorem begins_concat {group : List String} (h : Begins group) (hne : group ≠ []) (line : String) :
    Begins (group ++ [line]) := by
  cases group with
  | nil => exact absurd rfl hne
  | cons l group => exact h

theorem joined_singleton {line : String} (h : isBlankLine line = false) : joined [line] = line := by
  simp [joined, h]

theorem joined_concat {group : List String} (hne : group ≠ []) (line : String) :
    joined (group ++ [line]) =
      joined group ++ "\n" ++ if isBlankLine line then "" else line := by
  rw [joined, List.map_append, String.intercalate_append_of_ne_nil (by simpa using hne) (by simp)]
  simp [joined]

/-- Nothing is gathered exactly between statements. -/
theorem joined_eq_empty_iff {group : List String} (h : Begins group) :
    joined group = "" ↔ group = [] := by
  constructor
  · intro hempty
    cases group with
    | nil => rfl
    | cons l group =>
      obtain ⟨hblank, -⟩ := h l rfl
      have hne : l ≠ "" := by
        rintro rfl
        exact absurd hblank (by decide)
      cases group with
      | nil => exact absurd ((joined_singleton hblank).symm.trans hempty) hne
      | cons l' group =>
        rw [joined, List.map_cons, List.map_cons, String.intercalate_cons_cons, hblank] at hempty
        simp only [String.append_eq_empty_iff] at hempty
        exact absurd hempty.1.1 hne
  · rintro rfl
    rfl

/-- All that a line can lead to behind the lines gathered so far. -/
inductive Step (line : String) : List String → Turn → Prop
  | skips : isBlankLine line = true → Step line [] (.gather (joined []))
  | leaves : isExitLine line = true → Step line [] (.command .exit)
  | obeys {c : Command} : c ≠ .exit → Entry.of line = .command c → Step line [] (.command c)
  | refuses : Entry.of line = .unknown → Step line [] .unknownCommand
  | gathers {group : List String} : Begins (group ++ [line]) →
      isBlankLine line = true ∨ Solidity.needsMore (joined (group ++ [line])) = true →
      Step line group (.gather (joined (group ++ [line])))
  | evaluates {group : List String} : Begins (group ++ [line]) → isBlankLine line = false →
      Solidity.needsMore (joined (group ++ [line])) = false →
      Step line group (.evaluate (Text.trim (joined (group ++ [line]))))

theorem step_ofStatement {group : List String} {line : String} (hbegins : Begins (group ++ [line]))
    (hblank : isBlankLine line = false)
    (hjoined : joined (group ++ [line]) =
      if joined group == "" then line else joined group ++ "\n" ++ line) :
    Step line group (.ofStatement (joined group) line) := by
  rw [Turn.ofStatement, ← hjoined]
  cases hmore : Solidity.needsMore (joined (group ++ [line])) with
  | true => exact .gathers hbegins (.inr hmore)
  | false => exact .evaluates hbegins hblank hmore

theorem step_of {group : List String} (h : Begins group) (line : String) :
    Step line group (Turn.of (joined group) line) := by
  cases group with
  | nil =>
    have hempty : (joined [] == "") = true := rfl
    rw [Turn.of, hempty]
    cases hblank : Text.trim line == "" with
    | true => exact .skips hblank
    | false =>
      simp only [Bool.false_eq_true, if_false, if_true]
      cases hentry : Entry.of line with
      | statement =>
        refine step_ofStatement ?_ hblank (joined_singleton hblank)
        rintro l ⟨⟩
        exact ⟨hblank, entry_eq_statement_iff.1 hentry⟩
      | unknown => exact .refuses hentry
      | command c =>
        by_cases hc : c = .exit
        · subst hc
          exact .leaves (entry_eq_exit_iff.1 hentry)
        · exact .obeys hc hentry
  | cons l group =>
    have hne : l :: group ≠ [] := List.cons_ne_nil l group
    have hempty : (joined (l :: group) == "") = false :=
      beq_eq_false_iff_ne.2 fun hempty => hne ((joined_eq_empty_iff h).1 hempty)
    have hbegins := begins_concat h hne line
    have hjoined := joined_concat hne line
    rw [Turn.of, hempty]
    cases hblank : Text.trim line == "" with
    | true =>
      rw [isBlankLine, hblank, if_pos rfl, String.append_empty] at hjoined
      simp only [if_true, Bool.false_eq_true, if_false]
      rw [← hjoined]
      exact .gathers hbegins (.inl hblank)
    | false =>
      rw [isBlankLine, hblank, if_neg Bool.false_ne_true] at hjoined
      refine step_ofStatement hbegins hblank ?_
      rw [hempty, if_neg Bool.false_ne_true, hjoined]

/-- What a line between statements does to the session. -/
def Entry.action? : Entry → Option Shell.Action
  | .command .pop => some .pop
  | .command .reset => some .reset
  | _ => none

/-- Lines that belong together. -/
inductive Stretch
  /-- A blank line between statements. -/
  | blank (line : String)
  /-- A line with a command between statements. -/
  | command (line : String)
  | statement (lines : List String)

namespace Stretch

def lines : Stretch → List String
  | blank line => [line]
  | command line => [line]
  | statement lines => lines

/-- The text that is evaluated. -/
def text? : Stretch → Option String
  | statement lines => some (Text.trim (joined lines))
  | _ => none

/-- What is done to the session. -/
def action? : Stretch → Option Shell.Action
  | blank _ => none
  | command line => (Entry.of line).action?
  | statement lines => some (.eval (Text.trim (joined lines)))

/-- A blank line, a command that does not leave the loop, or a statement from its first line to
the one that closes it. -/
def Fits : Stretch → Prop
  | blank line => isBlankLine line = true
  | command line => isDotLine line = true ∧ isExitLine line = false
  | statement lines => Begins lines ∧ Closes lines

end Stretch

/-- How the reading of lines ends: within a statement that stays open, or at the command to leave. -/
def Ends (rest : List String) : Prop :=
  (Begins rest ∧ StaysOpen rest) ∨ ∃ line after, rest = line :: after ∧ isExitLine line = true

theorem lines_actions (stretches : List Stretch) :
    Shell.Action.lines (stretches.filterMap Stretch.action?) =
      stretches.filterMap Stretch.text? := by
  induction stretches with
  | nil => rfl
  | cons s stretches ih =>
    cases s with
    | blank line => exact ih
    | statement lines => exact congrArg (_ :: ·) ih
    | command line =>
      have htext : (Stretch.command line :: stretches).filterMap Stretch.text? =
          stretches.filterMap Stretch.text? := rfl
      have haction : (Stretch.command line).action? = (Entry.of line).action? := rfl
      rw [htext, ← ih, List.filterMap_cons, haction]
      cases Entry.of line with
      | command c => cases c <;> rfl
      | _ => rfl

section
variable {σ τ : Type} (style : Style) (services : Services σ τ)

/-- A command does to the session what it says, and nothing else to the shell. -/
theorem obey_command {line : String} {c : Command} (h : Entry.of line = .command c)
    (sh : Shell σ τ) :
    (obey style c sh).2 = sh.actAll services (Stretch.command line).action?.toList := by
  rw [Stretch.action?, h]
  cases c with
  | pop =>
    have hpop : sh.actAll services (Entry.command .pop).action?.toList = sh.pop.2 := rfl
    rw [obey, hpop]
    rcases sh.pop with ⟨_ | x, sh'⟩ <;> rfl
  | _ => rfl

/-- What a stretch and those after it do to the shell. -/
theorem actAll_stretches (s : Stretch) (stretches : List Stretch) (sh : Shell σ τ) :
    sh.actAll services ((s :: stretches).filterMap Stretch.action?) =
      (sh.actAll services s.action?.toList).actAll services
        (stretches.filterMap Stretch.action?) := by
  rw [List.filterMap_cons]
  cases s.action? <;> rfl

end

/-- What the loop does with some lines, behind those gathered, is what the stretches say. -/
structure Cut (group lines : List String) (stretches : List Stretch) (rest : List String) :
    Prop where
  lines_eq : group ++ lines = stretches.flatMap Stretch.lines ++ rest
  fits : ∀ s ∈ stretches, s.Fits
  ends : Ends rest
  texts : evaluated (joined group) lines = stretches.filterMap Stretch.text?
  shell {σ τ : Type} (style : Style) (services : Services σ τ) (sh : Shell σ τ) :
    (converse style services (joined group) (lines.map some) sh).2 =
      sh.actAll services (stretches.filterMap Stretch.action?)

/-- Behind a stretch the loop goes on with nothing gathered. -/
theorem Cut.cons {group lines rest : List String} {line : String} {s : Stretch}
    {stretches : List Stretch} (h : Cut [] lines stretches rest) (hline : s.lines = group ++ [line])
    (hfits : s.Fits)
    (htexts : evaluated (joined group) (line :: lines) = s.text?.toList ++ evaluated "" lines)
    (hshell : ∀ {σ τ : Type} (style : Style) (services : Services σ τ) (sh : Shell σ τ),
      (converse style services (joined group) (some line :: lines.map some) sh).2 =
        (converse style services "" (lines.map some)
          (sh.actAll services s.action?.toList)).2) :
    Cut group (line :: lines) (s :: stretches) rest where
  lines_eq := by
    have hlines : lines = stretches.flatMap Stretch.lines ++ rest := h.lines_eq
    rw [List.flatMap_cons, hline, List.append_assoc, List.append_assoc, ← hlines]
    rfl
  fits := List.forall_mem_cons.2 ⟨hfits, h.fits⟩
  ends := h.ends
  texts := by
    have hafter : evaluated "" lines = stretches.filterMap Stretch.text? := h.texts
    rw [htexts, hafter, List.filterMap_cons]
    cases s.text? <;> rfl
  shell style services sh := by
    rw [List.map_cons, hshell, actAll_stretches]
    exact h.shell style services _

/-- A line that begins with a point, and does not leave the loop, is a command on its own. -/
theorem command_fits {line : String} (hstatement : Entry.of line ≠ .statement)
    (hexit : Entry.of line ≠ .command .exit) : (Stretch.command line).Fits := by
  constructor
  · rw [← Bool.not_eq_false, ← entry_eq_statement_iff]
    exact hstatement
  · rw [← Bool.not_eq_true, ← entry_eq_exit_iff]
    exact hexit

/-- From lines gathered so far on, the input is cut into stretches and a rest. -/
theorem exists_cut (lines : List String) {group : List String} (hbegins : Begins group)
    (hopen : StaysOpen group) :
    ∃ (stretches : List Stretch) (rest : List String), Cut group lines stretches rest := by
  induction lines generalizing group with
  | nil =>
    refine ⟨[], group, List.append_nil group, by simp, .inl ⟨hbegins, hopen⟩, rfl, ?_⟩
    intros
    rfl
  | cons line lines ih =>
    have hstep := step_of hbegins line
    generalize hturn : Turn.of (joined group) line = turn at hstep
    have hnil : Begins [] := by
      rintro l ⟨⟩
    obtain ⟨after, rest, hafter⟩ := ih hnil staysOpen_nil
    cases hstep with
    | skips hblank =>
      refine ⟨.blank line :: after, rest, hafter.cons rfl hblank ?_ ?_⟩
      · rw [evaluated, hturn]
        rfl
      · intro σ τ style services sh
        rw [converse, hturn]
        rfl
    | leaves hexit =>
      refine ⟨[], line :: lines, rfl, by simp, .inr ⟨line, lines, rfl, hexit⟩, ?_, ?_⟩
      · rw [evaluated, hturn]
        rfl
      · intro σ τ style services sh
        rw [List.map_cons, converse, hturn]
        rfl
    | @obeys c hc hentry =>
      have hfits : (Stretch.command line).Fits :=
        command_fits (by simp [hentry]) (by simpa [hentry] using hc)
      refine ⟨.command line :: after, rest, hafter.cons rfl hfits ?_ ?_⟩
      · rw [evaluated, hturn]
        cases c with
        | exit => exact absurd rfl hc
        | _ => rfl
      · intro σ τ style services sh
        rw [converse, hturn, ← obey_command style services hentry]
        cases c with
        | exit => exact absurd rfl hc
        | _ => rfl
    | refuses hentry =>
      have hfits : (Stretch.command line).Fits :=
        command_fits (by simp [hentry]) (by simp [hentry])
      refine ⟨.command line :: after, rest, hafter.cons rfl hfits ?_ ?_⟩
      · rw [evaluated, hturn]
        rfl
      · intro σ τ style services sh
        rw [converse, hturn, Stretch.action?, hentry]
        rfl
    | gathers hbegins' hline =>
      obtain ⟨stretches, rest, hcut⟩ := ih hbegins' (hopen.concat hline)
      refine ⟨stretches, rest, ?_, hcut.fits, hcut.ends, ?_, ?_⟩
      · rw [← hcut.lines_eq, List.append_assoc, List.singleton_append]
      · rw [evaluated, hturn]
        exact hcut.texts
      · intro σ τ style services sh
        rw [List.map_cons, converse, hturn]
        exact hcut.shell style services sh
    | evaluates hbegins' hblank hmore =>
      have hfits : (Stretch.statement (group ++ [line])).Fits :=
        ⟨hbegins', group, line, rfl, hopen, hblank, hmore⟩
      refine ⟨.statement (group ++ [line]) :: after, rest, hafter.cons rfl hfits ?_ ?_⟩
      · rw [evaluated, hturn]
        rfl
      · intro σ τ style services sh
        rw [converse, hturn]
        rfl

/-- The loop cuts its input into blank lines, commands and statements, up to a rest: a statement
that stays open when the input ends, or the command to leave and what comes after it. The texts
evaluated, in order, are those of the statements, and with the commands they are all that is done
to the shell. -/
theorem converse_stretches (lines : List String) :
    ∃ (stretches : List Stretch) (rest : List String),
      lines = stretches.flatMap Stretch.lines ++ rest ∧
      (∀ s ∈ stretches, s.Fits) ∧ Ends rest ∧
      evaluated "" lines = stretches.filterMap Stretch.text? ∧
      Shell.Action.lines (stretches.filterMap Stretch.action?) =
        stretches.filterMap Stretch.text? ∧
      ∀ (σ τ : Type) (style : Style) (services : Services σ τ) (sh : Shell σ τ),
        (converse style services "" (lines.map some) sh).2 =
          sh.actAll services (stretches.filterMap Stretch.action?) := by
  have hnil : Begins [] := by
    rintro l ⟨⟩
  obtain ⟨stretches, rest, hcut⟩ := exists_cut lines hnil staysOpen_nil
  refine ⟨stretches, rest, hcut.lines_eq, hcut.fits, hcut.ends, hcut.texts,
    lines_actions stretches, ?_⟩
  intro σ τ style services sh
  exact hcut.shell style services sh

end SoliditySession.Prompt
