import Mathlib.Algebra.BigOperators.Ring.List
import Mathlib.Algebra.Ring.Nat
import SoliditySession.Abi.Decode
/- What reading does at each node of a type, and what that keeps. Readers are put together from a few
pieces; a property that all of these keep holds of reading whatever the types are. -/
namespace SoliditySession

namespace AbiType

/-- Induction on the nodes of a type; those of a tuple are the types of its components. -/
@[elab_as_elim, induction_eliminator]
theorem nodes {motive : AbiType → Prop} (uint : ∀ bits, motive (.uint bits))
    (int : ∀ bits, motive (.int bits)) (address : motive .address) (bool : motive .bool)
    (fixedBytes : ∀ length, motive (.fixedBytes length)) (bytes : motive .bytes)
    (string : motive .string) (array : ∀ t, motive t → motive (.array t))
    (fixedArray : ∀ t length, motive t → motive (.fixedArray t length))
    (tuple : ∀ fields, (∀ t ∈ fields.map (·.2), motive t) → motive (.tuple fields))
    (t : AbiType) : motive t := by
  refine AbiType.rec (motive_1 := motive) (motive_2 := fun fields => ∀ t ∈ fields.map (·.2), motive t)
    (motive_3 := fun field => motive field.2) uint int address bool fixedBytes bytes string array
    fixedArray tuple ?_ ?_ ?_ t
  · intro t ht
    cases ht
  · intro field fields hfield hfields
    exact List.forall_mem_cons.2 ⟨hfield, hfields⟩
  · intro _ _ h
    exact h

/-- A type stands at a node of another, or is that type. -/
inductive Part (s : AbiType) : AbiType → Prop
  | refl : Part s s
  | array {t : AbiType} : Part s t → Part s (.array t)
  | fixedArray {t : AbiType} {length : Nat} : Part s t → Part s (.fixedArray t length)
  | tuple {fields : List (String × AbiType)} {t : AbiType} :
      t ∈ fields.map (·.2) → Part s t → Part s (.tuple fields)

/-- Nodes at which reading crashes. -/
def Crashes : AbiType → Prop
  | .fixedBytes length => 32 < length
  | .fixedArray _ length => Abi.maxListed < length
  | _ => False

theorem anyDynamic_eq (fields : List (String × AbiType)) :
    anyDynamic fields = (fields.map (·.2)).any isDynamic := by
  induction fields with
  | nil => rfl
  | cons f fields ih => rw [anyDynamic, ih, List.map_cons, List.any_cons]

theorem headSizes_eq (fields : List (String × AbiType)) :
    headSizes fields = ((fields.map (·.2)).map headSize).sum := by
  induction fields with
  | nil => rfl
  | cons f fields ih => rw [headSizes, ih, List.map_cons, List.map_cons, List.sum_cons]

theorem headSize_of_dynamic {t : AbiType} (h : t.isDynamic = true) : t.headSize = 32 := by
  cases t with
  | fixedArray t n =>
      rw [isDynamic] at h
      rw [headSize, if_pos h]
  | tuple fields =>
      rw [isDynamic] at h
      rw [headSize, if_pos h]
  | _ => rfl

/-- Heads are made of words. -/
theorem dvd_headSize (t : AbiType) : 32 ∣ t.headSize := by
  induction t with
  | fixedArray t length ih =>
      rw [headSize]
      split
      · exact Nat.dvd_refl 32
      · exact Nat.dvd_mul_right_of_dvd ih length
  | tuple fields ih =>
      rw [headSize, headSizes_eq]
      split
      · exact Nat.dvd_refl 32
      · apply List.dvd_sum
        intro n hn
        obtain ⟨t, ht, rfl⟩ := List.mem_map.1 hn
        exact ih t ht
  | _ => exact Nat.dvd_refl 32

end AbiType

namespace Abi

theorem bind_eq_ok {ε α β : Type} {x : Except ε α} {f : α → Except ε β} {b : β} :
    x.bind f = .ok b ↔ ∃ a, x = .ok a ∧ f a = .ok b := by
  cases x with
  | error e => simp [Except.bind]
  | ok a => simp [Except.bind]

theorem map_eq_ok {ε α β : Type} {x : Except ε α} {f : α → β} {b : β} :
    x.map f = .ok b ↔ ∃ a, x = .ok a ∧ f a = b := by
  cases x with
  | error e => simp [Except.map]
  | ok a => simp [Except.map]

theorem slice_eq_ok {data b : Bytes} {offset length : Nat} :
    slice data offset length = .ok b ↔
      offset + length ≤ data.length ∧ (data.drop offset).take length = b := by
  rw [slice]
  split
  · next h => simp [h]
  · next h => simp [h]

theorem length_of_slice {data b : Bytes} {offset length : Nat}
    (h : slice data offset length = .ok b) : b.length = length := by
  obtain ⟨hle, rfl⟩ := slice_eq_ok.1 h
  rw [List.length_take, List.length_drop]
  omega

theorem infix_of_slice {data b : Bytes} {offset length : Nat}
    (h : slice data offset length = .ok b) : b <:+: data := by
  obtain ⟨-, rfl⟩ := slice_eq_ok.1 h
  exact (List.take_prefix _ _).isInfix.trans (List.drop_suffix _ _).isInfix

theorem size_eq_ok {data : Bytes} {offset n : Nat} :
    size data offset = .ok n ↔
      ∃ w, slice data offset 32 = .ok w ∧ bigEndian w = n ∧ n < Nat.pow 2 64 := by
  rw [size, word]
  cases slice data offset 32 with
  | error e => simp
  | ok w =>
      by_cases h : bigEndian w < Nat.pow 2 64
      · simp only [if_pos h, Except.ok.injEq, exists_eq_left']
        constructor
        · rintro rfl
          exact ⟨rfl, h⟩
        · exact And.left
      · simp only [if_neg h, Except.ok.injEq, exists_eq_left', reduceCtorEq, false_iff]
        rintro ⟨rfl, hlt⟩
        exact h hlt

theorem readCopies_decode (t : AbiType) (n : Nat) (data : Bytes) :
    readCopies data ⟨t.isDynamic, t.headSize, readValue t⟩ 0 n =
      decode (List.replicate n t) data := by
  rw [readCopies_eq, decode, List.map_replicate, Item.of]

theorem readValue_fixedArray (t : AbiType) (n : Nat) (data : Bytes) :
    readValue (.fixedArray t n) data =
      if n ≤ maxListed then (decode (List.replicate n t) data).map .array else .error .crash := by
  rw [readValue, readCopies_decode]

theorem readValue_array (t : AbiType) (data : Bytes) :
    readValue (.array t) data =
      (size data 0).bind fun n => (slice data 32 (min (n * 32) (Nat.pow 2 64 - 1))).bind fun _ =>
        (decode (List.replicate n t) (data.drop 32)).map .array := by
  rw [readValue]
  cases size data 0 with
  | error e => rfl
  | ok n =>
      simp only [readCopies_decode, Except.bind]
      cases slice data 32 (min (n * 32) (Nat.pow 2 64 - 1)) with
      | error e => rfl
      | ok b => rfl

theorem payload_eq (data : Bytes) : payload data = (size data 0).bind (slice data 32) := by
  rw [payload]
  cases size data 0 with
  | error e => rfl
  | ok n => rfl

theorem readItems_cons (data : Bytes) (offset : Nat) (i : Item) (is : List Item) :
    readItems data offset (i :: is) =
      (i.at data offset).bind fun v => (readItems data (offset + i.headSize) is).map (v :: ·) := by
  rw [readItems]
  cases i.at data offset with
  | error e => rfl
  | ok v => rfl

theorem item_at_static {t : AbiType} (h : t.isDynamic = false) (data : Bytes) (offset : Nat) :
    (Item.of t).at data offset = readValue t (data.drop offset) := by
  simp only [Item.at, Item.of, h, Bool.false_eq_true, if_false]

theorem item_at_dynamic {t : AbiType} (h : t.isDynamic = true) (data : Bytes) (offset : Nat) :
    (Item.of t).at data offset = (size data offset).bind fun start =>
      if start ≤ data.length then readValue t (data.drop start)
      else .error (.fault (.shortData start 0 data.length)) := by
  simp only [Item.at, Item.of, h, if_true]
  cases size data offset with
  | error e => rfl
  | ok start => rfl

/-- A tail that starts within the data is read from there. -/
theorem item_at_start {t : AbiType} (h : t.isDynamic = true) {data : Bytes} {offset start : Nat}
    (hsize : size data offset = .ok start) (hstart : start ≤ data.length) :
    (Item.of t).at data offset = readValue t (data.drop start) := by
  rw [item_at_dynamic h, hsize, Except.bind, if_pos hstart]

/-- A property of readers that all pieces of reading but crashing have and that holds of readers put
together. -/
structure Kept (P : ∀ {α : Type}, (Bytes → Decoded α) → Prop) : Prop where
  ok : ∀ {α : Type} (a : α), P fun _ => .ok a
  -- What is read next may depend on what was read, as a tail does on the offset that leads to it.
  bind : ∀ {α β : Type} {read : Bytes → Decoded α} {next : α → Bytes → Decoded β},
    P read → (∀ a, P (next a)) → P fun data => (read data).bind (next · data)
  slice : ∀ offset length, P (slice · offset length)
  size : ∀ offset, P (size · offset)
  drop : ∀ {α : Type} {read : Bytes → Decoded α} (n : Nat), P read → P fun data => read (data.drop n)
  tail : ∀ {α : Type} {read : Bytes → Decoded α} (start : Nat), P read → P fun data =>
    if start ≤ data.length then read (data.drop start)
    else .error (.fault (.shortData start 0 data.length))

namespace Kept
variable {P : ∀ {α : Type}, (Bytes → Decoded α) → Prop} (h : Kept P)
include h

theorem map {α β : Type} {read : Bytes → Decoded α} (f : α → β) (hread : P read) :
    P fun data => (read data).map f := by
  have hmap : (fun data => (read data).map f) = fun data => (read data).bind fun a => .ok (f a) := by
    funext data
    cases read data with
    | error e => rfl
    | ok a => rfl
  rw [hmap]
  exact h.bind hread fun a => h.ok (f a)

theorem payload : P Abi.payload := by
  have hpayload : Abi.payload = fun data => _ := funext payload_eq
  rw [hpayload]
  exact h.bind (h.size 0) fun n => h.slice 32 n

theorem item {t : AbiType} (ht : P (readValue t)) (offset : Nat) :
    P fun data => (Item.of t).at data offset := by
  cases hd : t.isDynamic with
  | true =>
      simp only [item_at_dynamic hd]
      exact h.bind (h.size offset) fun start => h.tail start ht
  | false =>
      simp only [item_at_static hd]
      exact h.drop offset ht

theorem items {types : List AbiType} (htypes : ∀ t ∈ types, P (readValue t)) (offset : Nat) :
    P fun data => readItems data offset (types.map .of) := by
  induction types generalizing offset with
  | nil => exact h.ok []
  | cons t types ih =>
      obtain ⟨ht, hrest⟩ := List.forall_mem_cons.1 htypes
      simp only [List.map_cons, readItems_cons]
      exact h.bind (h.item ht offset) fun v => h.map _ (ih hrest _)

theorem sequence {types : List AbiType} (htypes : ∀ t ∈ types, P (readValue t)) :
    P (Abi.decode types) :=
  h.items htypes 0

theorem copies {t : AbiType} (ht : P (readValue t)) (n : Nat) :
    P (Abi.decode (List.replicate n t)) :=
  h.sequence fun t' ht' => by rwa [List.eq_of_mem_replicate ht']

/-- What the property says of crashing is asked only at nodes that crash. -/
theorem readValue (t : AbiType) (hcrash : ∀ s : AbiType, s.Part t → s.Crashes →
    ∀ {α : Type}, P fun _ => (.error .crash : Decoded α)) : P (Abi.readValue t) := by
  induction t with
  | uint bits => exact h.map _ (h.slice 0 32)
  | int bits => exact h.map _ (h.slice 0 32)
  | address => exact h.map _ (h.slice 0 32)
  | bool => exact h.map _ (h.slice 0 32)
  | fixedBytes length =>
      refine h.map _ (h.bind (h.slice 0 32) fun w => ?_)
      by_cases hlength : length ≤ 32
      · simp only [front, if_pos hlength]
        exact h.ok _
      · simp only [front, if_neg hlength]
        exact hcrash _ .refl (Nat.lt_of_not_le hlength)
  | bytes => exact h.map _ h.payload
  | string => exact h.map _ h.payload
  | array t ih =>
      have hread : Abi.readValue (.array t) = fun data => _ := funext (readValue_array t)
      rw [hread]
      exact h.bind (h.size 0) fun n => h.bind (h.slice 32 _) fun _ =>
        h.map _ (h.drop 32 (h.copies (ih fun s hs => hcrash s (.array hs)) n))
  | fixedArray t length ih =>
      have hread : Abi.readValue (.fixedArray t length) = fun data => _ :=
        funext (readValue_fixedArray t length)
      rw [hread]
      by_cases hlength : length ≤ maxListed
      · simp only [if_pos hlength]
        exact h.map _ (h.copies (ih fun s hs => hcrash s (.fixedArray hs)) length)
      · simp only [if_neg hlength]
        exact hcrash _ .refl (Nat.lt_of_not_le hlength)
  | tuple fields ih =>
      have hread : Abi.readValue (.tuple fields) = fun data => _ := funext (readValue_tuple fields)
      rw [hread]
      exact h.map _ (h.sequence fun t ht => ih t ht fun s hs => hcrash s (.tuple ht hs))

theorem decode (types : List AbiType) (hcrash : ∀ t ∈ types, ∀ s : AbiType, s.Part t → s.Crashes →
    ∀ {α : Type}, P fun _ => (.error .crash : Decoded α)) : P (Abi.decode types) :=
  h.sequence fun t ht => h.readValue t (hcrash t ht)

end Kept
end Abi
end SoliditySession
