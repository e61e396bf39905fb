import SoliditySession.Proofs.Reading
/- Looking for the matches of a pattern from left to right and replacing them. -/
namespace SoliditySession.Pattern
variable {a : Pattern}

/-- What stands before every match is passed over. -/
theorem search_passes {before : List Char} (behind ahead : List Char)
    (h : ∀ u c v, before = u ++ c :: v →
      a.matchAt? ⟨u.reverse ++ behind, c :: (v ++ ahead), []⟩ = none) :
    a.search behind (before ++ ahead) = a.search (before.reverse ++ behind) ahead := by
  induction before generalizing behind with
  | nil => rfl
  | cons d before ih =>
    have hhere : a.matchAt? ⟨behind, d :: (before ++ ahead), []⟩ = none := h [] d before rfl
    rw [List.cons_append, search, hhere]
    have htail : ∀ u c v, before = u ++ c :: v →
        a.matchAt? ⟨u.reverse ++ d :: behind, c :: (v ++ ahead), []⟩ = none := by
      intro u c v hu
      have := h (d :: u) c v (by rw [hu]; rfl)
      rwa [List.reverse_cons, List.append_assoc] at this
    rw [ih (d :: behind) htail, List.reverse_cons, List.append_assoc, List.singleton_append]

theorem search_append {before : List Char} (behind ahead : List Char)
    (h : ∀ c rest behind', c :: rest <:+ before →
      a.matchAt? ⟨behind', c :: (rest ++ ahead), []⟩ = none) :
    a.search behind (before ++ ahead) = a.search (before.reverse ++ behind) ahead :=
  search_passes behind ahead fun u c v hu => h c v _ ⟨u, hu.symm⟩

theorem search_of_match {behind ahead : List Char} {q : Place}
    (h : a.matchAt? ⟨behind, ahead, []⟩ = some q) :
    a.search behind ahead = some (⟨behind, ahead, []⟩, q) := by
  cases ahead with
  | nil => rw [search, h]; rfl
  | cons c cs => rw [search, h]

theorem exists_of_search {behind ahead : List Char} {p q : Place}
    (h : a.search behind ahead = some (p, q)) : p.ahead <:+ ahead ∧ a.matchAt? p = some q := by
  have hhere : ∀ behind ahead, (a.matchAt? ⟨behind, ahead, []⟩).map
      (Prod.mk (⟨behind, ahead, []⟩ : Place)) = some (p, q) →
      p.ahead <:+ ahead ∧ a.matchAt? p = some q := by
    intro behind ahead h
    obtain ⟨q', hq, he⟩ := Option.map_eq_some_iff.1 h
    cases he
    exact ⟨List.suffix_rfl, hq⟩
  induction ahead generalizing behind with
  | nil => exact hhere behind [] h
  | cons c cs ih =>
    rw [search] at h
    cases hm : a.matchAt? ⟨behind, c :: cs, []⟩ with
    | some q' => exact hhere behind (c :: cs) (by rw [hm]; rw [hm] at h; exact h)
    | none =>
      rw [hm] at h
      obtain ⟨hs, hp⟩ := ih h
      exact ⟨hs.trans (List.suffix_cons c cs), hp⟩

/-- A pattern that is never empty reads on from what it finds. -/
theorem lt_of_search {behind ahead : List Char} {p q : Place}
    (hadvance : ∀ p q, a.Reads p q → q.ahead.length < p.ahead.length)
    (h : a.search behind ahead = some (p, q)) : q.ahead.length < ahead.length := by
  obtain ⟨hsuffix, hmatch⟩ := exists_of_search h
  exact (hadvance p q (reads_of_matchAt? hmatch)).trans_le hsuffix.length_le

theorem search_eq_none {behind ahead : List Char} (h : ∀ u v, ahead = u ++ v →
    a.matchAt? ⟨u.reverse ++ behind, v, []⟩ = none) : a.search behind ahead = none := by
  have hpass : a.search behind (ahead ++ []) = a.search (ahead.reverse ++ behind) [] := by
    refine search_passes behind [] fun u c v hu => ?_
    rw [List.append_nil]
    exact h u (c :: v) hu
  rw [List.append_nil] at hpass
  rw [hpass, search, h ahead [] (List.append_nil _).symm]
  rfl

theorem matchAt?_eq_none_of_search {behind ahead : List Char} (h : a.search behind ahead = none)
    {u v : List Char} (hahead : ahead = u ++ v) :
    a.matchAt? ⟨u.reverse ++ behind, v, []⟩ = none := by
  subst hahead
  induction u generalizing behind with
  | nil =>
    cases hm : a.matchAt? ⟨behind, v, []⟩ with
    | none => exact hm
    | some q =>
      rw [List.nil_append, search_of_match hm] at h
      cases h
  | cons c u ih =>
    rw [List.cons_append, search] at h
    rw [List.reverse_cons, List.append_assoc]
    cases hm : a.matchAt? ⟨behind, c :: (u ++ v), []⟩ with
    | none =>
      rw [hm] at h
      exact ih h
    | some q =>
      rw [hm] at h
      cases h

theorem allFrom_of_none {behind ahead : List Char} (h : a.search behind ahead = none) :
    a.allFrom behind ahead = [] := by
  rw [allFrom, h]

/-- The first match, and those behind it. -/
theorem allFrom_of_search {behind ahead : List Char} {p q : Place}
    (h : a.search behind ahead = some (p, q)) (hq : q.ahead.length < ahead.length) :
    a.allFrom behind ahead = (p, q) :: a.allFrom q.behind q.ahead := by
  rw [allFrom, h]
  exact dif_pos hq

/-- The matches are those behind the text that is passed over, where no match is empty. -/
theorem allFrom_passes {before : List Char} (behind ahead : List Char)
    (hadvance : ∀ p q, a.Reads p q → q.ahead.length < p.ahead.length)
    (h : ∀ u c v, before = u ++ c :: v →
      a.matchAt? ⟨u.reverse ++ behind, c :: (v ++ ahead), []⟩ = none) :
    a.allFrom behind (before ++ ahead) = a.allFrom (before.reverse ++ behind) ahead := by
  have hsearch := search_passes behind ahead h
  cases hs : a.search (before.reverse ++ behind) ahead with
  | none => rw [allFrom_of_none (hsearch.trans hs), allFrom_of_none hs]
  | some found =>
    rw [allFrom_of_search (hsearch.trans hs) (lt_of_search hadvance (hsearch.trans hs)),
      allFrom_of_search hs (lt_of_search hadvance hs)]

/-- Matches that are never empty are no more than the characters. -/
theorem length_allFrom_le
    (hadvance : ∀ p q, a.Reads p q → q.ahead.length < p.ahead.length) (behind ahead : List Char) :
    (a.allFrom behind ahead).length ≤ ahead.length := by
  induction hlength : ahead.length using Nat.strong_induction_on generalizing behind ahead with
  | _ n ih =>
    cases hs : a.search behind ahead with
    | none =>
      rw [allFrom_of_none hs]
      exact Nat.zero_le _
    | some found =>
      obtain ⟨p, q⟩ := found
      have hlt := lt_of_search hadvance hs
      have hmore := ih _ (hlength ▸ hlt) q.behind q.ahead rfl
      rw [allFrom_of_search hs hlt, List.length_cons]
      omega

/-- The text ahead with `new` for every match. -/
def replaced (a : Pattern) (new : String) (behind ahead : List Char) : List Char :=
  (replaceAll.go new [] ahead (a.allFrom behind ahead)).toList

theorem replaceAll_eq (new s : String) :
    a.replaceAll new s = .ofList (a.replaced new [] s.toList) := by
  rw [replaced, String.ofList_toList]
  rfl

theorem toList_replaceAll_go (new : String) (done rest : List Char)
    (found : List (Place × Place)) : (replaceAll.go new done rest found).toList =
      done ++ (replaceAll.go new [] rest found).toList := by
  induction found generalizing done rest with
  | nil => simp [replaceAll.go]
  | cons pq found ih =>
    obtain ⟨p, q⟩ := pq
    rw [replaceAll.go, ih, replaceAll.go, ih ([] ++ _ ++ _)]
    simp only [List.nil_append, List.append_assoc]

theorem replaced_of_none {new : String} {behind ahead : List Char}
    (h : a.search behind ahead = none) : a.replaced new behind ahead = ahead := by
  rw [replaced, allFrom, h]
  simp [replaceAll.go]

theorem replaced_of_search {new : String} {behind ahead : List Char} {p q : Place}
    (h : a.search behind ahead = some (p, q)) (hq : q.ahead.length < ahead.length) :
    a.replaced new behind ahead = ahead.take (ahead.length - p.ahead.length) ++
      (new.toList ++ a.replaced new q.behind q.ahead) := by
  rw [replaced, allFrom, h]
  simp only [dif_pos hq, replaceAll.go]
  rw [toList_replaceAll_go, List.nil_append, List.append_assoc, replaced]

/-- A match that stands here is replaced. -/
theorem replaced_of_match {new : String} {behind ahead : List Char} {q : Place}
    (h : a.matchAt? ⟨behind, ahead, []⟩ = some q) (hq : q.ahead.length < ahead.length) :
    a.replaced new behind ahead = new.toList ++ a.replaced new q.behind q.ahead := by
  rw [replaced_of_search (search_of_match h) hq, Nat.sub_self]
  rfl

/-- What stands before every match stays, where no match is empty. -/
theorem replaced_append {new : String} {before : List Char} (behind ahead : List Char)
    (hadvance : ∀ p q, a.Reads p q → q.ahead.length < p.ahead.length)
    (h : ∀ c rest behind', c :: rest <:+ before →
      a.matchAt? ⟨behind', c :: (rest ++ ahead), []⟩ = none) :
    a.replaced new behind (before ++ ahead) =
      before ++ a.replaced new (before.reverse ++ behind) ahead := by
  have hsearch := search_append behind ahead h
  cases hs : a.search (before.reverse ++ behind) ahead with
  | none => rw [replaced_of_none (hsearch.trans hs), replaced_of_none hs]
  | some found =>
    have hle := (exists_of_search hs).1.length_le
    rw [replaced_of_search (hsearch.trans hs) (lt_of_search hadvance (hsearch.trans hs)),
      replaced_of_search hs (lt_of_search hadvance hs), List.length_append, Nat.add_sub_assoc hle,
      List.take_length_add_append, List.append_assoc]

end SoliditySession.Pattern
