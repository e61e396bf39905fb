import SoliditySession.Proofs.Returnable
/- What is read as a built-in type at the start of a text: of all beginnings that spell one, with its
dimensions, the longest. A name can be carried on by its dimensions, and `address` by a second word. -/
namespace SoliditySession.Solidity
open Pattern

theorem Bracketed.ne_nil {w : List Char} (h : Bracketed w) : w ≠ [] := by
  obtain ⟨v, -, rfl⟩ := h
  exact List.cons_ne_nil _ _

/-- A group ends at its first closing bracket, whatever stands behind it. -/
theorem Bracketed.append_inj {v w r t : List Char} (hv : Bracketed v) (hw : Bracketed w)
    (h : v ++ r = w ++ t) : v = w ∧ r = t := by
  obtain ⟨x, hx, rfl⟩ := hv
  obtain ⟨y, hy, rfl⟩ := hw
  have hclosed : x ++ ']' :: r = y ++ ']' :: t := by simpa using h
  have hclose : ∀ u : List Char, ∀ c ∈ (']' :: u).head?, (!isBracket c) = false := by
    rintro u c ⟨⟩
    rfl
  obtain ⟨rfl, hrest⟩ := append_inj_of_stop (fun c hc => by rw [hx c hc]; rfl)
    (fun c hc => by rw [hy c hc]; rfl) (hclose r) (hclose t) hclosed
  exact ⟨rfl, (List.cons.inj hrest).2⟩

/-- Every text begins with as many groups as there can be, at least none. -/
theorem exists_groups (cs : List Char) : ∃ (groups : List (List Char)) (rest : List Char),
    (∀ g ∈ groups, Bracketed g) ∧ cs = groups.flatten ++ rest ∧ Unbracketed rest := by
  induction hn : cs.length using Nat.strong_induction_on generalizing cs with
  | _ n ih =>
    by_cases h : Unbracketed cs
    · exact ⟨[], cs, List.forall_mem_nil _, rfl, h⟩
    · simp only [Unbracketed, not_forall, ne_eq, not_not] at h
      obtain ⟨g, r, hg, rfl⟩ := h
      have hlt : r.length < n := by
        have hpos := List.length_pos_iff.2 hg.ne_nil
        rw [← hn, List.length_append]
        omega
      obtain ⟨groups, rest, hgroups, rfl, hrest⟩ := ih _ hlt r rfl
      refine ⟨g :: groups, rest, List.forall_mem_cons.2 ⟨hg, hgroups⟩, ?_, hrest⟩
      rw [List.flatten_cons, List.append_assoc]

/-- Groups with none behind them go at least as far as any others do. -/
theorem length_groups_le {groups groups' : List (List Char)} {rest rest' : List Char}
    (h : ∀ g ∈ groups, Bracketed g) (h' : ∀ g ∈ groups', Bracketed g) (hrest : Unbracketed rest)
    (heq : groups.flatten ++ rest = groups'.flatten ++ rest') :
    groups'.flatten.length ≤ groups.flatten.length := by
  induction groups' generalizing groups with
  | nil => exact Nat.zero_le _
  | cons g' groups' ih =>
    rw [List.forall_mem_cons] at h'
    rw [List.flatten_cons, List.append_assoc] at heq
    cases groups with
    | nil => exact absurd heq (hrest g' _ h'.1)
    | cons g groups =>
      rw [List.forall_mem_cons] at h
      rw [List.flatten_cons, List.append_assoc] at heq
      obtain ⟨rfl, hgroups⟩ := h.1.append_inj h'.1 heq
      have hle := ih h.2 h'.2 hgroups
      rw [List.flatten_cons, List.flatten_cons, List.length_append, List.length_append]
      omega

/-- No character at the start carries a word on. -/
def WordStops (cs : List Char) : Prop := ∀ c ∈ cs.head?, Text.isWord c = false

/-- The text begins with a built-in name that ends where a word ends. -/
structure BeginsWith (text : List Char) (name : String) (rest : List Char) : Prop where
  builtIn : Elementary name
  text_eq : text = name.toList ++ rest
  stops : WordStops rest

/-- A text begins with one name only, but for a name of two words, which begins with another. -/
theorem BeginsWith.eq_or {text r u : List Char} {s t : String} (hs : BeginsWith text s r)
    (ht : BeginsWith text t u) : s = t ∨ (s = "address" ∧ t = "address payable") ∨
      (s = "address payable" ∧ t = "address") := by
  have hahead : s.toList ++ r = t.toList ++ u := hs.text_eq.symm.trans ht.text_eq
  rcases hs.builtIn.chars with rfl | ⟨-, hsword⟩
  · rcases ht.builtIn.chars with rfl | ⟨-, htword⟩
    · exact .inl rfl
    · rcases hs.builtIn.eq_of_append (isWord_of_isAsciiWords htword) ht.stops hs.stops
        hahead.symm with hname | ⟨-, hname⟩
      · exact .inl (String.toList_inj.1 hname)
      · exact .inr (.inr ⟨rfl, String.toList_inj.1 hname⟩)
  · rcases ht.builtIn.eq_of_append (isWord_of_isAsciiWords hsword) hs.stops ht.stops
      hahead with hname | ⟨rfl, hname⟩
    · exact .inl (String.toList_inj.1 hname.symm)
    · exact .inr (.inl ⟨String.toList_inj.1 hname, rfl⟩)

/-- No other name at the start of the text is longer. -/
structure BeginsLongest (text : List Char) (name : String) (rest : List Char) : Prop
    extends BeginsWith text name rest where
  longest : ∀ s r, BeginsWith text s r → s = name ∨ s = "address" ∧ name = "address payable"

theorem BeginsWith.exists_longest {text r : List Char} {s : String} (h : BeginsWith text s r) :
    ∃ name rest, BeginsLongest text name rest := by
  by_cases hpayable : ∃ u, BeginsWith text "address payable" u
  · obtain ⟨u, hu⟩ := hpayable
    refine ⟨_, u, hu, fun t v ht => ?_⟩
    rcases ht.eq_or hu with rfl | haddress | ⟨-, hsame⟩
    · exact .inl rfl
    · exact .inr haddress
    · exact absurd hsame (by decide)
  · refine ⟨s, r, h, fun t v ht => ?_⟩
    rcases ht.eq_or h with rfl | ⟨-, rfl⟩ | ⟨rfl, -⟩
    · exact .inl rfl
    · exact absurd ⟨r, h⟩ hpayable
    · exact absurd ⟨v, ht⟩ hpayable

/-- The longest name is read, with all the groups behind it. -/
theorem BeginsLongest.elementaryPrefix?_eq {groups : List (List Char)} {rest : List Char}
    {text name : String} (h : BeginsLongest text.toList name (groups.flatten ++ rest))
    (hgroups : ∀ g ∈ groups, Bracketed g) (hrest : Unbracketed rest) :
    elementaryPrefix? text = some (.ofList (name.toList ++ groups.flatten)) := by
  have htext : text = .ofList (name.toList ++ groups.flatten ++ rest) := by
    rw [List.append_assoc, ← h.text_eq, String.ofList_toList]
  rw [htext]
  apply taken?_of_run
  rw [elementaryArray, run_append, List.append_assoc]
  apply run_elementary h.builtIn h.stops
  · rintro rfl t ht hstops
    have hpayable : BeginsWith text.toList "address payable" t := by
      refine ⟨.plain (by decide), ?_, hstops⟩
      rw [h.text_eq, ht]
      rfl
    rcases h.longest _ _ hpayable with hsame | ⟨hsame, -⟩
    · exact absurd hsame (by decide)
    · exact absurd hsame (by decide)
  · apply run_brackets hgroups hrest
    simp

/-- The text begins with `w`, a built-in name with groups of brackets behind it. Where the name ends,
a word ends. -/
structure SpelledBy (text w name : String) (groups : List (List Char)) : Prop where
  builtIn : Elementary name
  bracketed : ∀ g ∈ groups, Bracketed g
  spelled : w.toList = name.toList ++ groups.flatten
  begins : w.toList <+: text.toList
  edge : Text.wordEdge name.toList.getLast? text.toList[name.toList.length]? = true

/-- The text begins with the spelling of a built-in type and its dimensions. -/
def BuiltInPrefix (text w : String) : Prop := ∃ name groups, SpelledBy text w name groups

theorem spelledBy_iff {text w name : String} {groups : List (List Char)} :
    SpelledBy text w name groups ↔ (∀ g ∈ groups, Bracketed g) ∧
      w.toList = name.toList ++ groups.flatten ∧
      ∃ rest, BeginsWith text.toList name (groups.flatten ++ rest) := by
  have hedge : ∀ rest, Elementary name → text.toList = name.toList ++ (groups.flatten ++ rest) →
      (Text.wordEdge name.toList.getLast? text.toList[name.toList.length]? = true ↔
        WordStops (groups.flatten ++ rest)) := by
    intro rest hname htext
    rw [htext, List.getElem?_append_right (Nat.le_refl _), Nat.sub_self, ← List.head?_eq_getElem?,
      ← List.head?_reverse, ← List.append_nil name.toList.reverse]
    exact hname.wordEdge_iff
  constructor
  · intro h
    obtain ⟨rest, hrest⟩ := h.begins
    have htext : text.toList = name.toList ++ (groups.flatten ++ rest) := by
      rw [← hrest, h.spelled, List.append_assoc]
    exact ⟨h.bracketed, h.spelled, rest, h.builtIn, htext, (hedge rest h.builtIn htext).1 h.edge⟩
  · rintro ⟨hgroups, hw, rest, h⟩
    have hbegins : w.toList <+: text.toList := by
      rw [hw, h.text_eq, ← List.append_assoc]
      exact List.prefix_append _ _
    exact ⟨h.builtIn, hgroups, hw, hbegins, (hedge rest h.builtIn h.text_eq).2 h.stops⟩

theorem builtInPrefix_of_elementaryPrefix? {text w : String} (h : elementaryPrefix? text = some w) :
    BuiltInPrefix text w := by
  obtain ⟨name, ds, rest, hname, hw, htext, hstops⟩ := exists_of_elementaryPrefix? h
  have hwritten : written (ds.map Brackets.token) = (ds.map fun d => d.token.chars).flatten := by
    rw [written, List.flatMap_map]
    rfl
  rw [hwritten] at hw htext hstops
  have hbegins : BeginsWith text.toList name ((ds.map fun d => d.token.chars).flatten ++ rest) :=
    ⟨hname, htext, hstops⟩
  refine ⟨name, ds.map fun d => d.token.chars, spelledBy_iff.2 ⟨?_, hw, rest, hbegins⟩⟩
  rw [List.forall_mem_map]
  exact fun d _ => ⟨d.content, d.flat, rfl⟩

/-- What can be read is read as far as it goes. -/
theorem BuiltInPrefix.exists_longest {text v : String} (h : BuiltInPrefix text v) :
    ∃ w, elementaryPrefix? text = some w ∧ ∀ v, BuiltInPrefix text v → v.length ≤ w.length := by
  obtain ⟨s, groups, hv⟩ := h
  obtain ⟨-, -, rest, hbegins⟩ := spelledBy_iff.1 hv
  obtain ⟨name, behind, hname⟩ := hbegins.exists_longest
  obtain ⟨all, left, hall, rfl, hleft⟩ := exists_groups behind
  refine ⟨_, hname.elementaryPrefix?_eq hall hleft, ?_⟩
  rintro v ⟨t, groups', hv⟩
  obtain ⟨hgroups', hspelled, rest, ht⟩ := spelledBy_iff.1 hv
  rw [← String.length_toList, ← String.length_toList, String.toList_ofList, hspelled,
    List.length_append, List.length_append]
  have htext := ht.text_eq.symm.trans hname.text_eq
  rcases hname.longest _ _ ht with rfl | ⟨rfl, rfl⟩
  · have hle := length_groups_le hall hgroups' hleft (List.append_cancel_left htext).symm
    omega
  · -- behind the first of two words no group stands
    have hspace : groups'.flatten ++ rest = " payable".toList ++ (all.flatten ++ left) :=
      List.append_cancel_left htext
    cases groups' with
    | nil =>
      have hlonger : "address".toList.length ≤ "address payable".toList.length := by decide
      rw [List.flatten_nil, List.length_nil]
      omega
    | cons g groups' =>
      obtain ⟨x, -, rfl⟩ := hgroups' g List.mem_cons_self
      exact absurd (List.cons.inj hspace).1 (by decide)

theorem BuiltInPrefix.eq_of_length {text v w : String} (hv : BuiltInPrefix text v)
    (hw : BuiltInPrefix text w) (h : v.length = w.length) : v = w := by
  obtain ⟨_, _, hv⟩ := hv
  obtain ⟨_, _, hw⟩ := hw
  rw [← String.length_toList, ← String.length_toList] at h
  have hbegins := List.prefix_of_prefix_length_le hv.begins hw.begins (Nat.le_of_eq h)
  exact String.toList_inj.1 (hbegins.eq_of_length h)

/-- The longest beginning that spells a built-in type is read, and nothing is read only where there is
no such beginning. -/
theorem elementaryPrefix?_longest (text : String) :
    (∀ w, elementaryPrefix? text = some w ↔
      BuiltInPrefix text w ∧ ∀ v, BuiltInPrefix text v → v.length ≤ w.length) ∧
    (elementaryPrefix? text = none ↔ ∀ w, ¬ BuiltInPrefix text w) := by
  constructor
  · intro w
    constructor
    · intro h
      have hw := builtInPrefix_of_elementaryPrefix? h
      obtain ⟨u, hu, hlongest⟩ := hw.exists_longest
      obtain rfl := Option.some.inj (h.symm.trans hu)
      exact ⟨hw, hlongest⟩
    · rintro ⟨hw, hlongest⟩
      obtain ⟨u, hu, hlongest'⟩ := hw.exists_longest
      have hlength : w.length = u.length :=
        Nat.le_antisymm (hlongest' w hw) (hlongest u (builtInPrefix_of_elementaryPrefix? hu))
      rw [hu, hw.eq_of_length (builtInPrefix_of_elementaryPrefix? hu) hlength]
  · constructor
    · intro h w hw
      obtain ⟨u, hu, -⟩ := hw.exists_longest
      rw [h] at hu
      cases hu
    · intro h
      cases hread : elementaryPrefix? text with
      | none => rfl
      | some w => exact absurd (builtInPrefix_of_elementaryPrefix? hread) (h w)

example : elementaryPrefix? "address payable[3][n] to" = some "address payable[3][n]" := by
  decide +kernel

example : elementaryPrefix? "ufixed8x[2]" = none := by decide +kernel

end SoliditySession.Solidity
