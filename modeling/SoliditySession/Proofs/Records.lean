import Mathlib.Data.List.Forall2
import SoliditySession.Json.Reader
/- What readers accept, said by the shapes of values. A record is accepted exactly if each of its
fields is given once and has its own shape, or is left out and has a default; in which order faults
are found plays no part. -/
namespace SoliditySession.Json

/-- Which values stand for which data. -/
abbrev Shape (α : Type) := Json → α → Prop

namespace Shape
variable {α : Type}

def text : Shape String := fun j s => j = .str s

/-- Null stands for nothing. -/
def orNull (P : Shape α) : Shape (Option α)
  | .null, v => v = none
  | j, v => ∃ x, v = some x ∧ P j x

def list (P : Shape α) : Shape (List α)
  | .arr items, vs => List.Forall₂ P items vs
  | _, _ => False

/-- Every entry has the shape, also one that a later entry of the same key replaces. -/
def table (P : Shape α) : Shape (Table α)
  | .obj es, t => (∀ e ∈ es, ∃ v, P e.2 v) ∧
    ∀ k v, t.get? k = some v ↔ ∃ c, es.reverse.lookup k = some c ∧ P c v
  | _, _ => False

/-- A record of this many fields is an object with any entries, or an array with no more items. -/
def record (fields : Nat) (P : Source → α → Prop) : Shape α
  | .obj es, v => P (.entries es) v
  | .arr js, v => js.length ≤ fields ∧ P (.items js) v
  | _, _ => False

/-- The values given for a field: those under its name, or the item in its place. -/
def given (name : String) (place : Nat) : Source → List Json
  | .entries es => (es.filter (·.1 == name)).map (·.2)
  | .items js => js[place]?.toList

/-- The field is given once, or it is left out and has a default. -/
def field (P : Shape α) (name : String) (place : Nat) (default : Option α) (src : Source)
    (v : α) : Prop :=
  match given name place src with
  | [] => default = some v
  | [j] => P j v
  | _ => False

end Shape

/-- The reader accepts exactly the values of a shape, and reads them as what they stand for. -/
def Meets {α : Type} (read : Reader α) (P : Shape α) : Prop := ∀ j v, read j = .ok v ↔ P j v

section
variable {α : Type}

theorem wrong_ne_ok (j : Json) (expected : String) (v : α) : wrong j expected ≠ .ok v := by
  cases j <;> nofun

theorem meets_self (read : Reader α) : Meets read fun j v => read j = .ok v := fun _ _ => .rfl

variable {read : Reader α} {P : Shape α}

theorem meets_text : Meets readText .text := by
  intro j s
  cases j with
  | str s' => simp [readText, Shape.text]
  | _ => simp [readText, Shape.text, wrong_ne_ok]

theorem Meets.orNull (h : Meets read P) : Meets (nullable read) P.orNull := by
  have hmap : ∀ j v, (read j).map some = .ok v ↔ ∃ x, v = some x ∧ P j x := by
    intro j v
    simp only [← h j]
    cases read j <;> simp [Except.map, eq_comm]
  intro j v
  cases j with
  | null => simp [nullable, Shape.orNull, eq_comm]
  | _ => exact hmap _ v

theorem mapM_eq_ok_iff {ε β γ : Type} {f : β → Except ε γ} {xs : List β} {ys : List γ} :
    xs.mapM f = .ok ys ↔ List.Forall₂ (fun x y => f x = .ok y) xs ys := by
  induction xs generalizing ys with
  | nil => simp [pure, Except.pure, eq_comm]
  | cons x xs ih =>
    rw [List.mapM_cons, List.forall₂_cons_left_iff]
    cases hx : f x with
    | error e => simp [bind, Except.bind]
    | ok y =>
      simp only [← ih]
      cases hxs : xs.mapM f with
      | error e => simp [bind, Except.bind]
      | ok zs => simp [bind, Except.bind, pure, Except.pure, eq_comm]

theorem exists_forall₂_iff {β γ : Type} {R : β → γ → Prop} {xs : List β} :
    (∃ ys, List.Forall₂ R xs ys) ↔ ∀ x ∈ xs, ∃ y, R x y := by
  induction xs with
  | nil => simp
  | cons x xs ih =>
    simp only [List.forall₂_cons_left_iff, List.forall_mem_cons, ← ih]
    constructor
    · rintro ⟨_, y, ys, hy, hys, rfl⟩
      exact ⟨⟨y, hy⟩, ys, hys⟩
    · rintro ⟨⟨y, hy⟩, ys, hys⟩
      exact ⟨y :: ys, y, ys, hy, hys, rfl⟩

theorem Meets.list (h : Meets read P) : Meets (listOf read) P.list := by
  intro j vs
  cases j with
  | arr items =>
    rw [listOf, mapM_eq_ok_iff, Shape.list]
    simp only [h _ _]
  | _ => simp [listOf, Shape.list, wrong_ne_ok]

/-- Each entry keeps its key, and its value is read. -/
theorem mapM_entries_eq_ok_iff (h : Meets read P) {es : List (String × Json)}
    {vs : List (String × α)} :
    (es.mapM fun e => (read e.2).map (e.1, ·)) = .ok vs ↔
      List.Forall₂ (fun e v => e.1 = v.1 ∧ P e.2 v.2) es vs := by
  have hentry : ∀ (e : String × Json) (v : String × α),
      (read e.2).map (e.1, ·) = .ok v ↔ e.1 = v.1 ∧ P e.2 v.2 := by
    rintro ⟨k, j⟩ ⟨k', v⟩
    simp only [← h j]
    cases read j <;> simp [Except.map]
  simp only [mapM_eq_ok_iff, hentry]

theorem lookup_of_forall₂ (h : Meets read P) {es : List (String × Json)} {vs : List (String × α)}
    (hall : List.Forall₂ (fun e v => e.1 = v.1 ∧ P e.2 v.2) es vs) (k : String) (v : α) :
    vs.lookup k = some v ↔ ∃ c, es.lookup k = some c ∧ P c v := by
  induction hall with
  | nil => simp
  | @cons e w es vs hew _ ih =>
    obtain ⟨k₁, j⟩ := e
    obtain ⟨k₂, x⟩ := w
    obtain ⟨rfl, hx⟩ : k₁ = k₂ ∧ P j x := hew
    by_cases hk : k = k₁
    · simp only [hk, List.lookup_cons_self, Option.some.injEq, exists_eq_left']
      constructor
      · rintro rfl
        exact hx
      · intro hv
        exact Except.ok.inj (((h j x).2 hx).symm.trans ((h j v).2 hv))
    · have hb : (k == k₁) = false := beq_eq_false_iff_ne.2 hk
      simp only [List.lookup_cons, hb]
      exact ih

theorem Meets.table (h : Meets read P) : Meets (tableOf read) P.table := by
  intro j t
  cases j with
  | obj es =>
    have hread : tableOf read (.obj es) = .ok t ↔ ∃ vs, List.Forall₂
        (fun e v => e.1 = v.1 ∧ P e.2 v.2) es vs ∧ Table.ofList vs = t := by
      rw [tableOf]
      simp only [← mapM_entries_eq_ok_iff h]
      cases (es.mapM fun e => (read e.2).map (e.1, ·)) <;> simp [Except.map]
    have hget : ∀ {vs}, List.Forall₂ (fun e v => e.1 = v.1 ∧ P e.2 v.2) es vs → ∀ k v,
        (Table.ofList vs).get? k = some v ↔ ∃ c, es.reverse.lookup k = some c ∧ P c v := by
      intro vs hall k v
      rw [Table.get?_ofList]
      exact lookup_of_forall₂ h (List.rel_reverse hall) k v
    have hevery : (∃ vs : List (String × α),
        List.Forall₂ (fun e v => e.1 = v.1 ∧ P e.2 v.2) es vs) ↔ ∀ e ∈ es, ∃ v, P e.2 v := by
      rw [exists_forall₂_iff]
      refine forall₂_congr fun e _ => ⟨?_, ?_⟩
      · rintro ⟨v, -, hv⟩
        exact ⟨v.2, hv⟩
      · rintro ⟨v, hv⟩
        exact ⟨(e.1, v), rfl, hv⟩
    rw [hread]
    constructor
    · rintro ⟨vs, hall, rfl⟩
      exact ⟨hevery.1 ⟨vs, hall⟩, hget hall⟩
    · rintro ⟨heach, hkeys⟩
      obtain ⟨vs, hall⟩ := hevery.2 heach
      exact ⟨vs, hall, Table.ext_get? fun k v => (hget hall k v).trans (hkeys k v).symm⟩
  | _ => simp [tableOf, Shape.table, wrong_ne_ok]

end

namespace Fields
variable {α β : Type}

/-- The fields are read without a fault, none is missing, and what they hold meets a condition. -/
def Yields (fields : Fields α) (before : Nat) (src : Source) (Q : α → Prop) : Prop :=
  ∃ v, fields.draft before src = ⟨[], [], some v⟩ ∧ Q v

section
variable {before : Nat} {src : Source}

theorem yields_map {f : α → β} {fields : Fields α} {Q : β → Prop} :
    (f <$> fields).Yields before src Q ↔ fields.Yields before src fun x => Q (f x) := by
  have hdraft : (f <$> fields).draft before src =
      ⟨(fields.draft before src).faults, (fields.draft before src).absent,
        (fields.draft before src).value.map f⟩ := rfl
  rw [Yields, hdraft]
  rcases h : fields.draft before src with ⟨faults, absent, value⟩
  simp only [Yields, h, Draft.mk.injEq, Option.map_eq_some_iff]
  grind

theorem draft_seq (f : Fields (α → β)) (fields : Fields α) :
    (f <*> fields).draft before src =
      ⟨(f.draft before src).faults ++ (fields.draft (before + f.count) src).faults,
        (f.draft before src).absent ++ (fields.draft (before + f.count) src).absent,
        (f.draft before src).value.bind (fields.draft (before + f.count) src).value.map⟩ := by
  change Draft.mk _ _ _ = Draft.mk _ _ _
  congr 1
  cases (f.draft before src).value with
  | none => rfl
  | some g => cases (fields.draft (before + f.count) src).value <;> rfl

/-- What comes first is read first, and the rest finds its place behind it. -/
theorem yields_seq {f : Fields (α → β)} {fields : Fields α} {Q : β → Prop} :
    (f <*> fields).Yields before src Q ↔
      f.Yields before src fun g => fields.Yields (before + f.count) src fun x => Q (g x) := by
  rw [Yields, draft_seq]
  rcases hf : f.draft before src with ⟨faults, absent, g⟩
  rcases hx : fields.draft (before + f.count) src with ⟨faults', absent', x⟩
  simp only [Yields, hf, hx, Draft.mk.injEq, List.append_eq_nil_iff]
  cases g <;> cases x <;> grind

end

@[simp] theorem count_map (f : α → β) (fields : Fields α) : (f <$> fields).count = fields.count :=
  rfl

@[simp] theorem count_seq (f : Fields (α → β)) (fields : Fields α) :
    (f <*> fields).count = f.count + fields.count := rfl

@[simp] theorem count_required (name : String) (read : Reader α) :
    (required name read).count = 1 := rfl

@[simp] theorem count_withDefault (name : String) (v : α) (read : Reader α) :
    (withDefault name v read).count = 1 := rfl

/-- The values that a field finds, with places that only its faults speak of. -/
def found (name : String) (place : Nat) : Source → List (Nat × Json)
  | .entries es => occurrences name 0 es
  | .items js => (js[place]?.map (place, ·)).toList

theorem map_occurrences (name : String) (i : Nat) (es : List (String × Json)) :
    (occurrences name i es).map (·.2) = (es.filter (·.1 == name)).map (·.2) := by
  fun_induction occurrences name i es with
  | case1 => rfl
  | case2 i k j es hk ih => simp [hk, ih]
  | case3 i k j es hk ih => simp [hk, ih]

theorem map_found (name : String) (place : Nat) (src : Source) :
    (found name place src).map (·.2) = Shape.given name place src := by
  cases src with
  | entries es => exact map_occurrences name 0 es
  | items js => cases hj : js[place]? <;> simp [found, Shape.given, hj]

theorem draft_field (name : String) (default : Option α) (read : Reader α) (place : Nat)
    (src : Source) :
    (field name default read).draft place src =
      match found name place src with
      | [] =>
        match default with
        | some v => ⟨[], [], some v⟩
        | none => ⟨[], [(place, name)], none⟩
      | (i, j) :: more =>
        match read j, more with
        | .error e, _ => ⟨[(i, e)], [], none⟩
        | .ok v, [] => ⟨[], [], some v⟩
        | .ok _, (i', _) :: _ => ⟨[(i', .duplicateField name)], [], none⟩ := by
  cases src <;> rfl

section
variable {name : String} {read : Reader α} {P : Shape α} {place : Nat} {src : Source}
  {Q : α → Prop}

theorem draft_field_eq_iff {default : Option α} (h : Meets read P) {v : α} :
    (field name default read).draft place src = ⟨[], [], some v⟩ ↔
      P.field name place default src v := by
  rw [draft_field, Shape.field, ← map_found]
  match found name place src with
  | [] => cases default <;> simp
  | [(_, j)] =>
    simp only [List.map_cons, List.map_nil, ← h j]
    cases read j <;> simp
  | (_, j) :: (_, _) :: _ =>
    dsimp only
    cases read j <;> simp

theorem yields_required (h : Meets read P) :
    (required name read).Yields place src Q ↔ ∃ v, P.field name place none src v ∧ Q v := by
  simp only [Yields, required, draft_field_eq_iff h]

theorem yields_withDefault {default : α} (h : Meets read P) :
    (withDefault name default read).Yields place src Q ↔
      ∃ v, P.field name place (some default) src v ∧ Q v := by
  simp only [Yields, withDefault, draft_field_eq_iff h]

end

theorem finish_eq_ok_iff {d : Draft α} {missing : Nat → String → Mismatch}
    {surplus : Option Mismatch} {v : α} :
    record.finish d missing surplus = .ok v ↔ d = ⟨[], [], some v⟩ ∧ surplus = none := by
  obtain ⟨faults, absent, value⟩ := d
  have hearliest : earliest faults = none ↔ faults = [] := by
    cases faults with
    | nil => simp [earliest]
    | cons f fs =>
      simp only [earliest]
      split <;> grind
  unfold record.finish
  rcases hfaults : earliest faults with _ | ⟨i, e⟩
  · obtain rfl := hearliest.1 hfaults
    cases absent <;> cases surplus <;> cases value <;> simp
  · have hne : faults ≠ [] := fun h => by simp [hearliest.2 h] at hfaults
    simp [hne]

end Fields

theorem meets_record {α : Type} {name : String} {fields : Fields α} {P : Source → α → Prop}
    (h : ∀ src v, fields.Yields 0 src (· = v) ↔ P src v) :
    Meets (Fields.record name fields) (.record fields.count P) := by
  have hdraft : ∀ src v, fields.draft 0 src = ⟨[], [], some v⟩ ↔ P src v := by
    intro src v
    rw [← h, Fields.Yields, exists_eq_right]
  intro j v
  cases j with
  | obj es =>
    rw [Fields.record, Fields.finish_eq_ok_iff, hdraft, Shape.record]
    exact and_iff_left rfl
  | arr js =>
    rw [Fields.record, Fields.finish_eq_ok_iff, hdraft, Shape.record]
    simp [and_comm]
  | _ => simp [Fields.record, Shape.record, wrong_ne_ok]

end SoliditySession.Json
