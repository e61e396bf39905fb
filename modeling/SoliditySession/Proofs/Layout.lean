import Mathlib.Data.List.Forall2
import SoliditySession.Proofs.Decoding
import SoliditySession.Proofs.Words
/- The heads and tails of a sequence. Reading walks along the heads; each offset found there leads
to its own tail, because writing laid the tails down in the same order. -/
namespace SoliditySession.Abi

namespace layOut

theorem go_dynamic (offset : Nat) (b : Bytes) (r : List (Bool × Bytes)) :
    go offset ((true, b) :: r) =
      (numberWord offset ++ (go (offset + b.length) r).1, b ++ (go (offset + b.length) r).2) := rfl

theorem go_static (offset : Nat) (b : Bytes) (r : List (Bool × Bytes)) :
    go offset ((false, b) :: r) = (b ++ (go offset r).1, (go offset r).2) := rfl

theorem length_go_fst (offset : Nat) (items : List (Bool × Bytes)) :
    (go offset items).1.length = headLength items := by
  induction items generalizing offset with
  | nil => rfl
  | cons item items ih =>
      obtain ⟨dynamic, b⟩ := item
      cases dynamic with
      | true => rw [go_dynamic, List.length_append, length_numberWord, ih, headLength]
      | false => rw [go_static, List.length_append, ih, headLength]

theorem go_snd_of_static (offset : Nat) {items : List (Bool × Bytes)}
    (h : ∀ item ∈ items, item.1 = false) : (go offset items).2 = [] := by
  induction items with
  | nil => rfl
  | cons item items ih =>
      obtain ⟨dynamic, b⟩ := item
      obtain rfl : dynamic = false := h _ List.mem_cons_self
      rw [go_static]
      exact ih fun item hitem => h item (List.mem_cons_of_mem _ hitem)

theorem length_le_go (offset : Nat) {items : List (Bool × Bytes)} {item : Bool × Bytes}
    (h : item ∈ items) :
    item.2.length ≤ (go offset items).1.length + (go offset items).2.length := by
  induction items generalizing offset with
  | nil => cases h
  | cons first items ih =>
      obtain ⟨dynamic, b⟩ := first
      cases dynamic with
      | true =>
          simp only [go_dynamic, List.length_append, length_numberWord]
          rcases List.mem_cons.1 h with rfl | h
          · simp only
            omega
          · have hle := ih (offset + b.length) h
            omega
      | false =>
          simp only [go_static, List.length_append]
          rcases List.mem_cons.1 h with rfl | h
          · simp only
            omega
          · have hle := ih offset h
            omega

end layOut

theorem layOut_eq (items : List (Bool × Bytes)) :
    layOut items = (layOut.go (headLength items) items).1 ++
      (layOut.go (headLength items) items).2 := rfl

theorem headLength_le_layOut (items : List (Bool × Bytes)) :
    headLength items ≤ (layOut items).length := by
  rw [layOut_eq, List.length_append, layOut.length_go_fst]
  exact Nat.le_add_right _ _

theorem length_layOut_of_static {items : List (Bool × Bytes)}
    (h : ∀ item ∈ items, item.1 = false) : (layOut items).length = headLength items := by
  rw [layOut_eq, layOut.go_snd_of_static _ h, List.append_nil, layOut.length_go_fst]

theorem length_le_layOut {items : List (Bool × Bytes)} {item : Bool × Bytes} (h : item ∈ items) :
    item.2.length ≤ (layOut items).length := by
  rw [layOut_eq, List.length_append]
  exact layOut.length_le_go _ h

/-- What a sequence of values is laid out from. -/
def parts (types : List AbiType) (values : List Value) : List (Bool × Bytes) :=
  List.zipWith (fun t v => (t.isDynamic, encodeValue t v)) types values

theorem encode_eq (types : List AbiType) (values : List Value) :
    encode types values = layOut (parts types values) := rfl

theorem parts_cons (t : AbiType) (types : List AbiType) (v : Value) (values : List Value) :
    parts (t :: types) (v :: values) = (t.isDynamic, encodeValue t v) :: parts types values := rfl

/-- A static value fills its room in the head. -/
def Fills (t : AbiType) (v : Value) : Prop :=
  t.isDynamic = false → (encodeValue t v).length = t.headSize

theorem headLength_parts {types : List AbiType} {values : List Value}
    (h : List.Forall₂ Fills types values) :
    headLength (parts types values) = (types.map AbiType.headSize).sum := by
  induction h with
  | nil => rfl
  | @cons t v types values hfills hrest ih =>
      rw [parts_cons, List.map_cons, List.sum_cons, ← ih]
      cases hd : t.isDynamic with
      | true => rw [headLength, AbiType.headSize_of_dynamic hd]
      | false => rw [headLength, hfills hd]

theorem static_parts {types : List AbiType} (h : ∀ t ∈ types, t.isDynamic = false)
    (values : List Value) : ∀ item ∈ parts types values, item.1 = false := by
  induction types generalizing values with
  | nil =>
      intro item hitem
      simp [parts] at hitem
  | cons t types ih =>
      intro item hitem
      cases values with
      | nil => simp [parts] at hitem
      | cons v values =>
          rw [parts_cons] at hitem
          rcases List.mem_cons.1 hitem with rfl | hitem
          · exact h t List.mem_cons_self
          · exact ih (fun t ht => h t (List.mem_cons_of_mem _ ht)) values item hitem

theorem length_encode_of_static {types : List AbiType} {values : List Value}
    (h : List.Forall₂ Fills types values) (hs : ∀ t ∈ types, t.isDynamic = false) :
    (encode types values).length = (types.map AbiType.headSize).sum := by
  rw [encode_eq, length_layOut_of_static (static_parts hs values), headLength_parts h]

theorem headSizes_le_encode {types : List AbiType} {values : List Value}
    (h : List.Forall₂ Fills types values) :
    (types.map AbiType.headSize).sum ≤ (encode types values).length := by
  rw [← headLength_parts h]
  exact headLength_le_layOut _

/-- A value comes back from its encoding, whatever follows. -/
structure Reads (t : AbiType) (v : Value) : Prop where
  fills : Fills t v
  read : ∀ more, readValue t (encodeValue t v ++ more) = .ok v

theorem item_at_of_dynamic {t : AbiType} {v : Value} (h : Reads t v) (hd : t.isDynamic = true)
    {data more rest : Bytes} {p start : Nat} (hword : data.drop p = numberWord start ++ more)
    (htail : data.drop start = encodeValue t v ++ rest) (hstart : start ≤ data.length)
    (hsmall : start < 2 ^ 64) : (Item.of t).at data p = .ok v := by
  simp only [Item.at, Item.of, hd, if_true, size_of_drop hword hsmall, if_pos hstart, htail]
  exact h.read rest

theorem item_at_of_static {t : AbiType} {v : Value} (h : Reads t v) (hd : t.isDynamic = false)
    {data more : Bytes} {p : Nat} (hhead : data.drop p = encodeValue t v ++ more) :
    (Item.of t).at data p = .ok v := by
  simp only [Item.at, Item.of, hd, Bool.false_eq_true, if_false, hhead]
  exact h.read more

theorem drop_of_drop {data b more : Bytes} {p n : Nat} (h : data.drop p = b ++ more)
    (hn : b.length = n) : data.drop (p + n) = more := by
  rw [← List.drop_drop, h]
  exact List.drop_left' hn

/-- From any head on, where the next tail starts at the offset that the heads were written for. -/
theorem readItems_go {types : List AbiType} {values : List Value}
    (h : List.Forall₂ Reads types values) {data more rest : Bytes} {p offset : Nat}
    (hheads : data.drop p = (layOut.go offset (parts types values)).1 ++ more)
    (htails : data.drop offset = (layOut.go offset (parts types values)).2 ++ rest)
    (hend : offset + (layOut.go offset (parts types values)).2.length ≤ data.length)
    (hsmall : offset + (layOut.go offset (parts types values)).2.length < 2 ^ 64) :
    readItems data p (types.map .of) = .ok values := by
  induction h generalizing p offset with
  | nil => rfl
  | @cons t v types values hread hrest ih =>
      have hnext : ∀ offset',
          data.drop (p + t.headSize) = (layOut.go offset' (parts types values)).1 ++ more →
          data.drop offset' = (layOut.go offset' (parts types values)).2 ++ rest →
          offset' + (layOut.go offset' (parts types values)).2.length ≤ data.length →
          offset' + (layOut.go offset' (parts types values)).2.length < 2 ^ 64 →
          (Item.of t).at data p = .ok v →
          readItems data p ((t :: types).map .of) = .ok (v :: values) := by
        intro offset' hheads htails hend hsmall hitem
        have hvalues : readItems data (p + (Item.of t).headSize) (types.map .of) = .ok values :=
          ih hheads htails hend hsmall
        rw [List.map_cons, readItems, hitem]
        simp only [hvalues, Except.map]
      rw [parts_cons] at hheads htails hend hsmall
      cases hd : t.isDynamic with
      | true =>
          rw [hd, layOut.go_dynamic] at hheads htails hend hsmall
          simp only [List.append_assoc, List.length_append] at hheads htails hend hsmall
          refine hnext (offset + (encodeValue t v).length) ?_ ?_ (by omega) (by omega) ?_
          · rw [AbiType.headSize_of_dynamic hd]
            exact drop_of_drop hheads (length_numberWord offset)
          · exact drop_of_drop htails rfl
          · exact item_at_of_dynamic hread hd hheads htails (by omega) (by omega)
      | false =>
          rw [hd, layOut.go_static] at hheads htails hend hsmall
          simp only [List.append_assoc] at hheads
          refine hnext offset ?_ htails hend hsmall ?_
          · exact drop_of_drop hheads (hread.fills hd)
          · exact item_at_of_static hread hd hheads

theorem decode_encode_append {types : List AbiType} {values : List Value}
    (h : List.Forall₂ Reads types values) (hsmall : (encode types values).length < 2 ^ 64)
    (more : Bytes) : decode types (encode types values ++ more) = .ok values := by
  have hheads := layOut.length_go_fst (headLength (parts types values)) (parts types values)
  rw [encode_eq, layOut_eq] at hsmall ⊢
  rw [List.length_append, hheads] at hsmall
  rw [List.append_assoc]
  refine readItems_go h rfl (List.drop_left' hheads) ?_ hsmall
  simp only [List.length_append, hheads]
  omega

/-- Where every value would come back from an encoding of its own, the sequence does. -/
theorem forall₂_of_small {P : AbiType → Value → Prop} {types : List AbiType} {values : List Value}
    (h : List.Forall₂ (fun t v => (encodeValue t v).length < 2 ^ 64 → P t v) types values)
    (hsmall : (encode types values).length < 2 ^ 64) : List.Forall₂ P types values := by
  rw [List.forall₂_iff_zip] at h ⊢
  refine ⟨h.1, ?_⟩
  intro t v htv
  have hpart : (t.isDynamic, encodeValue t v) ∈ parts types values := by
    have hparts : (types.zip values).map (fun x => (x.1.isDynamic, encodeValue x.1 x.2)) =
        parts types values := List.map_zip_eq_zipWith
    rw [← hparts]
    exact List.mem_map.2 ⟨(t, v), htv, rfl⟩
  exact h.2 htv (Nat.lt_of_le_of_lt (length_le_layOut hpart) hsmall)

end SoliditySession.Abi
