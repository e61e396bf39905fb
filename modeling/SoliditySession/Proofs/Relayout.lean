import Mathlib.Data.List.Basic
import SoliditySession.Proofs.Normalization
import SoliditySession.SourceUnit
/- What becomes of a text that is written anew line by line: runs of blanks with a line break in
them may change, everything else stays as it is. -/
namespace SoliditySession.Text

/-- Blank characters only, or none. -/
def Blank (cs : List Char) : Prop := ∀ c ∈ cs, isBlank c = true

/-- Blank characters, at least one. -/
def Gap (cs : List Char) : Prop := cs ≠ [] ∧ Blank cs

instance (cs : List Char) : Decidable (Blank cs) :=
  List.decidableBAll (fun c => isBlank c = true) cs

instance (cs : List Char) : Decidable (Gap cs) := inferInstanceAs (Decidable (_ ∧ _))

theorem blank_nil : Blank [] := by
  intro c hc
  cases hc

theorem blank_singleton {c : Char} (h : isBlank c = true) : Blank [c] := by
  intro b hb
  rwa [List.mem_singleton.1 hb]

theorem blank_newline : Blank ['\n'] := blank_singleton (by decide)

theorem Blank.append {cs ds : List Char} (h : Blank cs) (h' : Blank ds) : Blank (cs ++ ds) :=
  List.forall_mem_append.2 ⟨h, h'⟩

/-- A run of blanks with a line break in it may change to another one. -/
inductive Respaced : List Char → List Char → Prop
  | nil : Respaced [] []
  | keep (c : Char) {cs ds : List Char} : Respaced cs ds → Respaced (c :: cs) (c :: ds)
  | blanks {g g' cs ds : List Char} : '\n' ∈ g → Blank g → '\n' ∈ g' → Blank g' →
      Respaced cs ds → Respaced (g ++ cs) (g' ++ ds)

namespace Respaced
variable {cs ds : List Char}

theorem refl (cs : List Char) : Respaced cs cs := by
  induction cs with
  | nil => exact .nil
  | cons c cs ih => exact .keep c ih

theorem append_left (w : List Char) (h : Respaced cs ds) : Respaced (w ++ cs) (w ++ ds) := by
  induction w with
  | nil => exact h
  | cons c w ih => exact .keep c ih

/-- A blank in front of a line break may go with it. -/
theorem drop_blank {c : Char} (hc : isBlank c = true) (h : Respaced ('\n' :: cs) ds) :
    Respaced (c :: '\n' :: cs) ds := by
  generalize hline : '\n' :: cs = cs' at h
  cases h with
  | nil => cases hline
  | keep b h =>
    obtain ⟨rfl, rfl⟩ := List.cons.inj hline
    exact .blanks (by simp) ((blank_singleton hc).append blank_newline)
      List.mem_cons_self blank_newline h
  | blanks hg hblank hg' hblank' h =>
    exact .blanks (List.mem_cons_of_mem c hg) ((blank_singleton hc).append hblank) hg' hblank' h

theorem mem_or_isBlank (h : Respaced cs ds) {c : Char} (hc : c ∈ ds) :
    c ∈ cs ∨ isBlank c = true := by
  induction h with
  | nil => exact .inl hc
  | keep b _ ih =>
    rcases List.mem_cons.1 hc with rfl | hc
    · exact .inl List.mem_cons_self
    · exact (ih hc).imp_left (List.mem_cons_of_mem b)
  | blanks _ _ _ hblank' _ ih =>
    rcases List.mem_append.1 hc with hc | hc
    · exact .inr (hblank' c hc)
    · exact (ih hc).imp_left (List.mem_append_right _)

theorem ne_nil (h : Respaced cs ds) (hne : cs ≠ []) : ds ≠ [] := by
  cases h with
  | nil => exact hne
  | keep => exact List.cons_ne_nil _ _
  | blanks _ _ hg' _ _ => exact List.ne_nil_of_mem (List.mem_append_left _ hg')

theorem gap (h : Respaced cs ds) (hgap : Gap cs) : Gap ds :=
  ⟨h.ne_nil hgap.1, fun c hc => (h.mem_or_isBlank hc).elim (hgap.2 c) id⟩

/-- The last character stays unless it is blank. -/
theorem getLast?_or (h : Respaced cs ds) {c : Char} (hc : c ∈ ds.getLast?) :
    c ∈ cs.getLast? ∨ isBlank c = true := by
  induction h with
  | nil => exact .inl hc
  | @keep b cs ds h ih =>
    cases ds with
    | nil =>
      have hcs : cs = [] := by
        by_contra hne
        exact h.ne_nil hne rfl
      subst hcs
      exact .inl hc
    | cons d ds =>
      rw [List.getLast?_cons_cons] at hc
      refine (ih hc).imp_left fun hcs => ?_
      rw [List.getLast?_cons, hcs]
      rfl
  | @blanks g g' cs ds hg hblank hg' hblank' h ih =>
    rw [List.getLast?_append, Option.mem_def, Option.or_eq_some_iff] at hc
    rcases hc with hc | ⟨-, hc⟩
    · refine (ih hc).imp_left fun hcs => ?_
      rw [List.getLast?_append, hcs]
      rfl
    · exact .inr (hblank' c (List.mem_of_getLast? hc))

theorem mem_newline (h : Respaced cs ds) (hline : '\n' ∈ cs) : '\n' ∈ ds := by
  induction h with
  | nil => exact hline
  | keep c _ ih =>
    rcases List.mem_cons.1 hline with rfl | hline
    · exact List.mem_cons_self
    · exact List.mem_cons_of_mem c (ih hline)
  | blanks _ _ hg' _ _ _ => exact List.mem_append_left _ hg'

/-- What holds no line break stays. -/
theorem eq_of_not_mem (h : Respaced cs ds) (hline : '\n' ∉ cs) : ds = cs := by
  induction h with
  | nil => rfl
  | keep c _ ih => rw [ih fun h => hline (List.mem_cons_of_mem c h)]
  | blanks hg => exact absurd (List.mem_append_left _ hg) hline

/-- A character that is not blank cuts both texts. -/
theorem cut {u v : List Char} {c : Char} (hc : isBlank c = false)
    (h : Respaced (u ++ c :: v) ds) :
    ∃ u' v', ds = u' ++ c :: v' ∧ Respaced u u' ∧ Respaced v v' := by
  generalize hcs : u ++ c :: v = cs at h
  induction h generalizing u with
  | nil => simp at hcs
  | keep b h ih =>
    cases u with
    | nil =>
      obtain ⟨rfl, rfl⟩ := List.cons.inj hcs
      exact ⟨[], _, rfl, .nil, h⟩
    | cons a u =>
      obtain ⟨rfl, htail⟩ := List.cons.inj hcs
      obtain ⟨u', v', rfl, hu, hv⟩ := ih htail
      exact ⟨a :: u', v', rfl, .keep a hu, hv⟩
  | @blanks g g' cs ds hg hblank hg' hblank' h ih =>
    rcases List.append_eq_append_iff.1 hcs with ⟨w, hw, htail⟩ | ⟨w, rfl, htail⟩
    · cases w with
      | nil =>
        rw [List.append_nil] at hw
        obtain ⟨u', v', rfl, hu, hv⟩ := ih (u := []) htail
        refine ⟨g' ++ u', v', (List.append_assoc _ _ _).symm, ?_, hv⟩
        rw [← hw, ← List.append_nil g]
        exact .blanks hg hblank hg' hblank' hu
      | cons b w =>
        obtain ⟨rfl, -⟩ := List.cons.inj htail
        have hmem : c ∈ g := by simp [hw]
        rw [hblank c hmem] at hc
        cases hc
    · obtain ⟨u', v', rfl, hu, hv⟩ := ih htail.symm
      exact ⟨g' ++ u', v', (List.append_assoc _ _ _).symm, .blanks hg hblank hg' hblank' hu, hv⟩

end Respaced

theorem not_mem_of_mem_splitOn {sep : Char} {l cs : List Char} (h : l ∈ cs.splitOn sep) :
    sep ∉ l := by
  induction cs generalizing l with
  | nil =>
    obtain rfl := List.mem_singleton.1 h
    exact List.not_mem_nil
  | cons c cs ih =>
    rw [List.splitOn_cons_eq_if_modifyHead] at h
    split at h
    · rcases List.mem_cons.1 h with rfl | h
      · exact List.not_mem_nil
      · exact ih h
    · next hc =>
      obtain ⟨m, ms, hm⟩ := List.exists_cons_of_ne_nil (List.splitOn_ne_nil sep cs)
      rw [hm] at h ih
      rcases List.mem_cons.1 h with rfl | h
      · rw [List.mem_cons, not_or]
        exact ⟨fun heq => hc (beq_iff_eq.2 heq.symm), ih List.mem_cons_self⟩
      · exact ih (List.mem_cons_of_mem m h)

/-- The first part reaches to the first separator. -/
theorem splitOn_eq_cons (sep : Char) (cs : List Char) :
    ∃ ls, cs.splitOn sep = cs.takeWhile (· != sep) :: ls := by
  have hfirst : sep ∉ cs.takeWhile (· != sep) := fun h => by simpa using List.mem_takeWhile_imp h
  have hcs := List.takeWhile_append_dropWhile (p := (· != sep)) (l := cs)
  cases hdrop : cs.dropWhile (· != sep) with
  | nil =>
    rw [hdrop, List.append_nil] at hcs
    rw [hcs] at hfirst ⊢
    exact ⟨[], List.splitOn_eq_singleton hfirst⟩
  | cons c rest =>
    obtain rfl : c = sep := by
      have hstop := List.head_dropWhile_not (· != sep) (w := by rw [hdrop]; exact List.cons_ne_nil _ _)
      simpa [hdrop] using hstop
    rw [hdrop] at hcs
    refine ⟨rest.splitOn c, ?_⟩
    rw [← List.splitOn_append_cons_self_of_not_mem hfirst, hcs]

/-- From the start of a line on, the text up to the next separator is a part. -/
theorem takeWhile_mem_splitOn {sep : Char} {u v : List Char} (hu : ∀ c ∈ u.getLast?, c = sep) :
    v.takeWhile (· != sep) ∈ (u ++ v).splitOn sep := by
  obtain ⟨ls, hls⟩ := splitOn_eq_cons sep v
  rcases List.eq_nil_or_concat u with rfl | ⟨u, c, rfl⟩
  · rw [List.nil_append, hls]
    exact List.mem_cons_self
  · rw [List.concat_eq_append] at hu ⊢
    obtain rfl : c = sep := hu c (by simp)
    rw [List.append_assoc, List.singleton_append, List.splitOn_append_cons_self, hls]
    exact List.mem_append_right _ List.mem_cons_self

theorem prefix_of_dropReturn (l : List Char) : dropReturn l <+: l := by
  rw [dropReturn]
  split
  · exact List.dropLast_prefix l
  · exact List.prefix_rfl

theorem not_mem_of_mem_lineChars {l cs : List Char} (h : l ∈ lineChars cs) : '\n' ∉ l := by
  have hparts : ∃ part ∈ cs.splitOn '\n', l <+: part := by
    rw [lineChars] at h
    have hended : ∀ l ∈ (cs.splitOn '\n').dropLast.map dropReturn,
        ∃ part ∈ cs.splitOn '\n', l <+: part := by
      intro l hl
      obtain ⟨part, hpart, rfl⟩ := List.mem_map.1 hl
      exact ⟨part, List.dropLast_subset _ hpart, prefix_of_dropReturn part⟩
    split at h
    · exact hended l h
    · exact hended l h
    · next part hlast =>
      rcases List.mem_append.1 h with h | h
      · exact hended l h
      · obtain rfl := List.mem_singleton.1 h
        exact ⟨l, List.mem_of_getLast? hlast, List.prefix_rfl⟩
  obtain ⟨part, hpart, hbegins⟩ := hparts
  exact fun hmem => not_mem_of_mem_splitOn hpart (hbegins.subset hmem)

/-- A part is a line, without the carriage return at its end perhaps, unless nothing is left. -/
theorem mem_lineChars_of_mem_splitOn {part cs : List Char} (h : part ∈ cs.splitOn '\n')
    (hne : part ≠ []) : part ∈ lineChars cs ∨ dropReturn part ∈ lineChars cs := by
  obtain ⟨init, l, hparts⟩ :=
    (List.eq_nil_or_concat (cs.splitOn '\n')).resolve_left (List.splitOn_ne_nil _ _)
  rw [List.concat_eq_append] at hparts
  rw [hparts] at h
  rw [lineChars, hparts]
  simp only [List.getLast?_concat, List.dropLast_concat]
  rcases List.mem_append.1 h with h | h
  · have hmem : dropReturn part ∈ init.map dropReturn := List.mem_map_of_mem h
    cases l with
    | nil => exact .inr hmem
    | cons c l => exact .inr (List.mem_append_left _ hmem)
  · obtain rfl := List.mem_singleton.1 h
    cases part with
    | nil => exact absurd rfl hne
    | cons c part => exact .inl (List.mem_append_right _ (List.mem_singleton_self _))

/-- The parts of a text written anew, the last of them as it is: blank parts are emptied, and a
carriage return at the end of a part goes with it. -/
def relaid : List (List Char) → List Char
  | [] => []
  | [l] => l
  | l :: m :: ls => (if (dropReturn l).all isBlank then [] else dropReturn l) ++
      '\n' :: relaid (m :: ls)

/-- A line that is not blank stays, up to its end. -/
theorem respaced_line (l : List Char) {cs ds : List Char}
    (h : Respaced ('\n' :: cs) ('\n' :: ds)) :
    Respaced (l ++ '\n' :: cs) (dropReturn l ++ '\n' :: ds) := by
  rw [dropReturn]
  split
  · next hreturn =>
    have hl : l.dropLast ++ ['\r'] = l :=
      List.dropLast_append_getLast? '\r' (by simpa using hreturn)
    have hdrop : Respaced ('\r' :: '\n' :: cs) ('\n' :: ds) := h.drop_blank (by decide)
    nth_rewrite 1 [← hl]
    rw [List.append_assoc]
    exact hdrop.append_left _
  · exact h.append_left l

theorem isBlank_of_mem_dropReturn {l : List Char} (h : (dropReturn l).all isBlank = true) :
    Blank l := by
  intro c hc
  rw [dropReturn] at h
  split at h
  · next hreturn =>
    have hl : l.dropLast ++ ['\r'] = l :=
      List.dropLast_append_getLast? '\r' (by simpa using hreturn)
    rw [← hl, List.mem_append] at hc
    rcases hc with hc | hc
    · exact List.all_eq_true.1 h c hc
    · exact blank_singleton (by decide) c hc
  · exact List.all_eq_true.1 h c hc

/-- The induction runs with the line break that is in front of each part. -/
theorem respaced_relaid (parts : List (List Char)) :
    Respaced ('\n' :: ['\n'].intercalate parts) ('\n' :: relaid parts) := by
  induction parts with
  | nil => exact .refl _
  | cons l ls ih =>
    cases ls with
    | nil =>
      rw [List.intercalate_singleton, relaid]
      exact .refl _
    | cons m ls =>
      rw [List.intercalate_cons_cons, relaid, List.append_assoc, List.singleton_append]
      split
      · next hblank =>
        have hl : Blank ('\n' :: l) :=
          (blank_singleton (by decide)).append (isBlank_of_mem_dropReturn hblank)
        exact .blanks List.mem_cons_self hl List.mem_cons_self blank_newline ih
      · exact .keep '\n' (respaced_line l ih)

theorem respaced_relaid_of_head {cs : List Char} {c : Char} (hc : isBlank c = false)
    (hhead : cs.head? = some c) : Respaced cs (relaid (cs.splitOn '\n')) := by
  have hcs : ['\n'].intercalate (cs.splitOn '\n') = cs := List.intercalate_splitOn '\n'
  nth_rewrite 1 [← hcs]
  cases hparts : cs.splitOn '\n' with
  | nil => exact absurd hparts (List.splitOn_ne_nil _ _)
  | cons l ls =>
    rw [hparts] at hcs
    cases ls with
    | nil =>
      rw [List.intercalate_singleton, relaid]
      exact .refl _
    | cons m ls =>
      rw [List.intercalate_cons_cons, List.append_assoc, List.singleton_append] at hcs ⊢
      rw [relaid, if_neg]
      · exact respaced_line l (respaced_relaid (m :: ls))
      · intro hblank
        have hl := isBlank_of_mem_dropReturn hblank
        cases l with
        | nil =>
          obtain rfl : '\n' = c := by
            rw [← hcs] at hhead
            exact Option.some.inj hhead
          exact absurd hc (by decide)
        | cons b l =>
          obtain rfl : b = c := by
            rw [← hcs] at hhead
            exact Option.some.inj hhead
          rw [hl b List.mem_cons_self] at hc
          cases hc

/-- Lines with their ends. -/
def ended (ls : List (List Char)) : List Char := ls.flatMap (· ++ ['\n'])

theorem ended_append (ls ms : List (List Char)) : ended (ls ++ ms) = ended ls ++ ended ms :=
  List.flatMap_append

/-- The last part stands at the end, right behind a separator if anything is before it. -/
theorem intercalate_concat (sep : Char) (init : List (List Char)) (l : List Char) :
    ∃ w, [sep].intercalate (init ++ [l]) = w ++ l ∧ ∀ c ∈ w.getLast?, c = sep := by
  induction init with
  | nil => exact ⟨[], List.intercalate_singleton .., by simp⟩
  | cons m init ih =>
    obtain ⟨w, hw, hsep⟩ := ih
    obtain ⟨x, xs, hxs⟩ := List.exists_cons_of_ne_nil (l := init ++ [l]) (by simp)
    rw [hxs] at hw
    refine ⟨m ++ [sep] ++ w, ?_, ?_⟩
    · rw [List.cons_append, hxs, List.intercalate_cons_cons, hw]
      simp only [List.append_assoc]
    · intro c hc
      rw [List.getLast?_append, Option.mem_def, Option.or_eq_some_iff] at hc
      rcases hc with hc | ⟨-, hc⟩
      · exact hsep c hc
      · simpa using hc.symm

/-- A text that ends in no blank, line by line. -/
theorem ended_lineChars {cs : List Char} {c : Char} (hc : isBlank c = false)
    (hlast : cs.getLast? = some c) :
    ended ((lineChars cs).map fun l => if l.all isBlank then [] else l) =
      relaid (cs.splitOn '\n') ++ ['\n'] := by
  obtain ⟨init, l, hparts⟩ :=
    (List.eq_nil_or_concat (cs.splitOn '\n')).resolve_left (List.splitOn_ne_nil _ _)
  rw [List.concat_eq_append] at hparts
  have hl : l.getLast? = some c := by
    obtain ⟨w, hw, hsep⟩ := intercalate_concat '\n' init l
    rw [← hparts, List.intercalate_splitOn] at hw
    rw [hw, List.getLast?_append, Option.or_eq_some_iff] at hlast
    rcases hlast with hlast | ⟨-, hlast⟩
    · exact hlast
    · obtain rfl := hsep c hlast
      exact absurd hc (by decide)
  have hmem : c ∈ l := List.mem_of_getLast? hl
  have hkept : lineChars cs = init.map dropReturn ++ [l] := by
    rw [lineChars, hparts]
    simp only [List.getLast?_concat, List.dropLast_concat]
    cases l with
    | nil => cases hmem
    | cons b l => rfl
  have hblank : l.all isBlank = false := by
    rw [List.all_eq_false]
    exact ⟨c, hmem, by simp [hc]⟩
  rw [hkept, hparts]
  clear hparts hkept hlast
  induction init with
  | nil =>
    simp only [List.map_nil, List.nil_append, List.map_singleton, hblank, Bool.false_eq_true,
      if_false, ended, List.flatMap_singleton, relaid]
  | cons m init ih =>
    obtain ⟨x, xs, hxs⟩ := List.exists_cons_of_ne_nil (l := init ++ [l]) (by simp)
    rw [List.cons_append, hxs, relaid, ← hxs, List.append_assoc, List.cons_append, ← ih]
    simp [ended]

/-- The characters of the lines of a text that is rendered without indentation. -/
theorem map_toList_indented (text : String) : (indented "" text).map String.toList =
    (lineChars text.toList).map fun l => if l.all isBlank then [] else l := by
  rw [indented, lines, List.map_map, List.map_map]
  refine List.map_congr_left fun l _ => ?_
  rw [Function.comp_apply, Function.comp_apply, String.toList_ofList]
  split
  · rfl
  · rw [String.empty_append, String.toList_ofList]

/-- A text without blanks around it keeps everything but line breaks and the blanks around them. -/
theorem respaced_indented {text : String} {a b : Char} (hhead : text.toList.head? = some a)
    (ha : isBlank a = false) (hlast : text.toList.getLast? = some b) (hb : isBlank b = false) :
    ∃ cs, ended ((indented "" text).map String.toList) = cs ++ ['\n'] ∧
      Respaced text.toList cs := by
  rw [map_toList_indented]
  exact ⟨_, ended_lineChars hb hlast, respaced_relaid_of_head ha hhead⟩

end SoliditySession.Text
