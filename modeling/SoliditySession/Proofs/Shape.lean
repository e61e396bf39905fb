import Mathlib.Data.List.Forall2
import Mathlib.Data.List.Induction
import SoliditySession.Abi.Encode
import SoliditySession.Proofs.Spelling
import SoliditySession.Proofs.Words
/- What was decoded has the shape of its type, whatever the data says. Lengths and offsets in the data are
not trusted: what is read is a piece of the data, and a sequence has no more items than there is room. -/
namespace SoliditySession.Abi

/-- The values that a type can be read as from the data. -/
inductive HasShape (data : Bytes) : AbiType → Value → Prop
  | uint {bits n : Nat} : n < 2 ^ 256 → HasShape data (.uint bits) (.uint n)
  | int {bits : Nat} {n : Int} : -2 ^ 255 ≤ n → n < 2 ^ 255 → HasShape data (.int bits) (.int n)
  | bool {b : Bool} : HasShape data .bool (.bool b)
  | address {b : Bytes} : b.length = 20 → b <:+: data → HasShape data .address (.address b)
  | fixedBytes {length : Nat} {b : Bytes} : b.length = length → b <:+: data →
      HasShape data (.fixedBytes length) (.bytes b)
  | bytes {b : Bytes} : b <:+: data → HasShape data .bytes (.bytes b)
  | string {b : Bytes} : b <:+: data → HasShape data .string (.string (Text.ofBytesLossy b))
  | array {t : AbiType} {values : List Value} : values.length ≤ data.length / 32 →
      (∀ v ∈ values, HasShape data t v) → HasShape data (.array t) (.array values)
  | fixedArray {t : AbiType} {length : Nat} {values : List Value} : values.length = length →
      (t.headSize ≠ 0 → values.length ≤ data.length / 32) → (∀ v ∈ values, HasShape data t v) →
      HasShape data (.fixedArray t length) (.array values)
  | struct {fields : List (String × AbiType)} {values : List Value} :
      (fields ≠ [] ∧ ∀ f ∈ fields, f.1 ≠ "") → values.length = fields.length →
      (∀ x ∈ fields.zip values, HasShape data x.1.2 x.2) →
      HasShape data (.tuple fields) (.struct ((fields.map (·.1)).zip values))
  | tuple {fields : List (String × AbiType)} {values : List Value} :
      ¬(fields ≠ [] ∧ ∀ f ∈ fields, f.1 ≠ "") → values.length = fields.length →
      (∀ x ∈ fields.zip values, HasShape data x.1.2 x.2) →
      HasShape data (.tuple fields) (.tuple values)

/-- What can be read from a part of the data can be read from the whole. -/
theorem HasShape.mono {part data : Bytes} {t : AbiType} {v : Value} (h : HasShape part t v)
    (hpart : part <:+: data) : HasShape data t v := by
  have hroom : part.length / 32 ≤ data.length / 32 := Nat.div_le_div_right hpart.length_le
  induction h with
  | uint hn => exact .uint hn
  | int hlow hhigh => exact .int hlow hhigh
  | bool => exact .bool
  | address hlen hb => exact .address hlen (hb.trans hpart)
  | fixedBytes hlen hb => exact .fixedBytes hlen (hb.trans hpart)
  | bytes hb => exact .bytes (hb.trans hpart)
  | string hb => exact .string (hb.trans hpart)
  | array hlen _ ih => exact .array (Nat.le_trans hlen hroom) ih
  | fixedArray hlen hcount _ ih =>
      exact .fixedArray hlen (fun ht => Nat.le_trans (hcount ht) hroom) ih
  | struct hnamed hlen _ ih => exact .struct hnamed hlen ih
  | tuple hunnamed hlen _ ih => exact .tuple hunnamed hlen ih

theorem bigEndian_lt (b : Bytes) : bigEndian b < 256 ^ b.length := by
  induction b using List.reverseRecOn with
  | nil => decide
  | append_singleton b x ih =>
    have hx : x.toNat < 256 := x.toNat_lt
    rw [bigEndian_concat, List.length_append, List.length_singleton, Nat.pow_succ]
    omega

theorem bigEndian_word_lt {w : Bytes} (hw : w.length = 32) : bigEndian w < 2 ^ 256 := by
  have h := bigEndian_lt w
  rwa [hw] at h

/-- What stands in one word was read from a piece of the data. -/
theorem exists_word {data : Bytes} {f : Bytes → Value} {v : Value}
    (h : (word data 0).map f = .ok v) : ∃ w, w.length = 32 ∧ w <:+: data ∧ f w = v := by
  obtain ⟨w, hw, hv⟩ := map_eq_ok.1 h
  exact ⟨w, length_of_slice hw, infix_of_slice hw, hv⟩

/-- So did what stands at the front of a word. -/
theorem exists_front {data : Bytes} {n : Nat} {v : Value}
    (h : ((word data 0).bind (front n)).map .bytes = .ok v) :
    ∃ w, w.length = 32 ∧ w <:+: data ∧ n ≤ 32 ∧ .bytes (w.take n) = v := by
  obtain ⟨b, hb, rfl⟩ := map_eq_ok.1 h
  obtain ⟨w, hw, hfront⟩ := bind_eq_ok.1 hb
  rw [front] at hfront
  split at hfront
  · next hn =>
    cases hfront
    exact ⟨w, length_of_slice hw, infix_of_slice hw, hn, rfl⟩
  · cases hfront

/-- What was read of a fixed array is the sequence of its elements. -/
theorem exists_elements {t : AbiType} {n : Nat} {data : Bytes} {v : Value}
    (h : readValue (.fixedArray t n) data = .ok v) :
    ∃ values, decode (List.replicate n t) data = .ok values ∧ .array values = v := by
  rw [readValue_fixedArray] at h
  split at h
  · exact map_eq_ok.1 h
  · cases h

/-- Two's complement reads a word as a number of its range. -/
theorem signed_range {w : Bytes} (hw : w.length = 32) :
    -2 ^ 255 ≤ signed w ∧ signed w < 2 ^ 255 := by
  have hlt := bigEndian_word_lt hw
  have hhalf : Nat.pow 2 255 = 2 ^ 255 := rfl
  have hcast : ((Nat.pow 2 256 : Nat) : Int) = 2 ^ 256 := rfl
  simp only [signed, hhalf, hcast]
  split
  · omega
  · omega

section
variable {data : Bytes} {offset : Nat}

/-- Wherever a value was read, it was read from some position of the data on. -/
theorem exists_of_item_at {t : AbiType} {v : Value} (h : (Item.of t).at data offset = .ok v) :
    ∃ n, readValue t (data.drop n) = .ok v := by
  cases hd : t.isDynamic with
  | true =>
      rw [item_at_dynamic hd] at h
      obtain ⟨start, -, h⟩ := bind_eq_ok.1 h
      split at h
      · exact ⟨start, h⟩
      · cases h
  | false =>
      rw [item_at_static hd] at h
      exact ⟨offset, h⟩

theorem forall₂_of_readItems {types : List AbiType} {values : List Value}
    (h : readItems data offset (types.map .of) = .ok values) :
    List.Forall₂ (fun t v => ∃ n, readValue t (data.drop n) = .ok v) types values := by
  induction types generalizing offset values with
  | nil =>
      cases h
      exact .nil
  | cons t types ih =>
      rw [List.map_cons, readItems_cons] at h
      obtain ⟨v, hv, h⟩ := bind_eq_ok.1 h
      obtain ⟨rest, hrest, rfl⟩ := map_eq_ok.1 h
      exact .cons (exists_of_item_at hv) (ih hrest)

/-- Every head that was passed lies within the data. -/
theorem heads_le {types : List AbiType} {values : List Value}
    (hroom : ∀ t ∈ types, t.isDynamic = false →
      ∀ data v, readValue t data = .ok v → t.headSize ≤ data.length)
    (hoffset : offset ≤ data.length) (h : readItems data offset (types.map .of) = .ok values) :
    offset + (types.map AbiType.headSize).sum ≤ data.length := by
  induction types generalizing offset values with
  | nil => simpa using hoffset
  | cons t types ih =>
      obtain ⟨ht, hrest⟩ := List.forall_mem_cons.1 hroom
      rw [List.map_cons, readItems_cons] at h
      obtain ⟨v, hv, h⟩ := bind_eq_ok.1 h
      obtain ⟨rest, hvalues, rfl⟩ := map_eq_ok.1 h
      -- The head of a dynamic value is the word that was read there.
      have hnext : offset + t.headSize ≤ data.length := by
        cases hd : t.isDynamic with
        | true =>
            rw [item_at_dynamic hd] at hv
            obtain ⟨start, hsize, -⟩ := bind_eq_ok.1 hv
            obtain ⟨w, hw, -⟩ := size_eq_ok.1 hsize
            rw [AbiType.headSize_of_dynamic hd]
            exact (slice_eq_ok.1 hw).1
        | false =>
            rw [item_at_static hd] at hv
            have hle := ht hd _ v hv
            rw [List.length_drop] at hle
            omega
      rw [List.map_cons, List.sum_cons, ← Nat.add_assoc]
      exact ih hrest hnext hvalues

end

/-- A static value is read from as many bytes as its head takes. -/
theorem headSize_le {t : AbiType} (hstatic : t.isDynamic = false) {data : Bytes} {v : Value}
    (h : readValue t data = .ok v) : t.headSize ≤ data.length := by
  have hword : ∀ {data : Bytes} {f : Bytes → Value} {v : Value},
      (word data 0).map f = .ok v → 32 ≤ data.length := by
    intro data f v h
    obtain ⟨w, hlen, hw, -⟩ := exists_word h
    rw [← hlen]
    exact hw.length_le
  induction t generalizing data v with
  | uint bits => exact hword h
  | int bits => exact hword h
  | address => exact hword h
  | bool => exact hword h
  | fixedBytes length =>
      obtain ⟨w, hlen, hw, -, -⟩ := exists_front h
      have hle := hw.length_le
      rwa [hlen] at hle
  | bytes => cases hstatic
  | string => cases hstatic
  | array t ih => cases hstatic
  | fixedArray t length ih =>
      rw [AbiType.isDynamic] at hstatic
      obtain ⟨values, hvalues, -⟩ := exists_elements h
      have hle := heads_le (fun t' ht' _ _ _ h' => ?_) (Nat.zero_le _) hvalues
      · rw [List.map_replicate, List.sum_replicate_nat, Nat.zero_add] at hle
        rw [AbiType.headSize, hstatic, if_neg Bool.false_ne_true, Nat.mul_comm]
        exact hle
      · obtain rfl := List.eq_of_mem_replicate ht'
        exact ih hstatic h'
  | tuple fields ih =>
      rw [AbiType.isDynamic] at hstatic
      rw [readValue_tuple] at h
      obtain ⟨values, hvalues, -⟩ := map_eq_ok.1 h
      have hle := heads_le (fun t ht hd _ _ h => ih t ht hd h) (Nat.zero_le _) hvalues
      rw [AbiType.headSize, hstatic, AbiType.headSizes_eq, if_neg Bool.false_ne_true]
      rwa [Nat.zero_add] at hle

theorem headSizes_le {types : List AbiType} {data : Bytes} {values : List Value}
    (h : decode types data = .ok values) : (types.map AbiType.headSize).sum ≤ data.length := by
  have hle := heads_le (fun t _ hd _ _ h => headSize_le hd h) (Nat.zero_le _) h
  rwa [Nat.zero_add] at hle

theorem allNamed_iff {fields : List (String × AbiType)} :
    AbiType.allNamed fields = true ↔ fields ≠ [] ∧ ∀ f ∈ fields, f.1 ≠ "" := by
  simp [AbiType.allNamed]

theorem infix_of_payload {data b : Bytes} (h : payload data = .ok b) : b <:+: data := by
  rw [payload_eq] at h
  obtain ⟨length, -, h⟩ := bind_eq_ok.1 h
  exact infix_of_slice h

theorem forall₂_of_decode {types : List AbiType} {data : Bytes} {values : List Value}
    (hread : ∀ t ∈ types, ∀ n v, readValue t (data.drop n) = .ok v → HasShape (data.drop n) t v)
    (h : decode types data = .ok values) : List.Forall₂ (HasShape data) types values := by
  have hvalues := forall₂_of_readItems h
  rw [List.forall₂_iff_zip] at hvalues ⊢
  refine ⟨hvalues.1, ?_⟩
  intro t v hmem
  obtain ⟨n, hv⟩ := hvalues.2 hmem
  exact (hread t (List.of_mem_zip hmem).1 n v hv).mono (List.drop_suffix n data).isInfix

theorem forall_of_copies {t : AbiType} {data : Bytes} {count : Nat} {values : List Value}
    (hread : ∀ n v, readValue t (data.drop n) = .ok v → HasShape (data.drop n) t v)
    (h : decode (List.replicate count t) data = .ok values) :
    values.length = count ∧ ∀ v ∈ values, HasShape data t v := by
  have hvalues := forall₂_of_decode (fun t' ht' => by rwa [List.eq_of_mem_replicate ht']) h
  have hlen := hvalues.length_eq
  rw [List.length_replicate] at hlen
  refine ⟨hlen.symm, ?_⟩
  intro v hv
  rw [List.forall₂_iff_zip] at hvalues
  rw [← List.map_snd_zip (Nat.le_of_eq hvalues.1.symm)] at hv
  obtain ⟨⟨t', v'⟩, hmem, rfl⟩ := List.mem_map.1 hv
  have hshape := hvalues.2 hmem
  rwa [List.eq_of_mem_replicate (List.of_mem_zip hmem).1] at hshape

theorem hasShape_array {t : AbiType} {data : Bytes} {v : Value} (hsmall : data.length < 2 ^ 64)
    (hread : ∀ n v, readValue t (data.drop n) = .ok v → HasShape (data.drop n) t v)
    (h : readValue (.array t) data = .ok v) : HasShape data (.array t) v := by
  rw [readValue_array] at h
  obtain ⟨count, -, h⟩ := bind_eq_ok.1 h
  obtain ⟨b, hroom, h⟩ := bind_eq_ok.1 h
  obtain ⟨values, hvalues, rfl⟩ := map_eq_ok.1 h
  -- The room asked for is a word for each item; it saturates beyond what the data can have.
  have hle := (slice_eq_ok.1 hroom).1
  have hfull : Nat.pow 2 64 = 2 ^ 64 := rfl
  rw [hfull] at hle
  obtain ⟨hlen, heach⟩ := forall_of_copies (fun n v hv => by
    rw [List.drop_drop] at hv ⊢
    exact hread _ v hv) hvalues
  refine .array ?_ fun v hv => (heach v hv).mono (List.drop_suffix 32 data).isInfix
  rw [hlen]
  omega

theorem hasShape_fixedArray {t : AbiType} {length : Nat} {data : Bytes} {v : Value}
    (hread : ∀ n v, readValue t (data.drop n) = .ok v → HasShape (data.drop n) t v)
    (h : readValue (.fixedArray t length) data = .ok v) :
    HasShape data (.fixedArray t length) v := by
  obtain ⟨values, hvalues, rfl⟩ := exists_elements h
  obtain ⟨hlen, heach⟩ := forall_of_copies hread hvalues
  refine .fixedArray hlen ?_ heach
  intro hhead
  -- No room is asked for here; it is the heads of the items that take it.
  have hword : 32 ≤ t.headSize := Nat.le_of_dvd (Nat.pos_of_ne_zero hhead) t.dvd_headSize
  have hle := headSizes_le hvalues
  rw [List.map_replicate, List.sum_replicate_nat] at hle
  rw [hlen, Nat.le_div_iff_mul_le (by decide)]
  exact Nat.le_trans (Nat.mul_le_mul_left length hword) hle

theorem hasShape_tuple {fields : List (String × AbiType)} {data : Bytes} {v : Value}
    (hread : ∀ t ∈ fields.map (·.2), ∀ n v, readValue t (data.drop n) = .ok v →
      HasShape (data.drop n) t v)
    (h : readValue (.tuple fields) data = .ok v) : HasShape data (.tuple fields) v := by
  rw [readValue_tuple] at h
  obtain ⟨values, hvalues, rfl⟩ := map_eq_ok.1 h
  have hshapes := forall₂_of_decode hread hvalues
  rw [List.forall₂_map_left_iff, List.forall₂_iff_zip] at hshapes
  obtain ⟨hlen, heach⟩ := hshapes
  have heach' : ∀ x ∈ fields.zip values, HasShape data x.1.2 x.2 := fun x hx => heach hx
  rw [tupleValue]
  split
  · next hnamed => exact .struct (allNamed_iff.1 hnamed) hlen.symm heach'
  · next hnamed => exact .tuple (mt allNamed_iff.2 hnamed) hlen.symm heach'

theorem hasShape_of_readValue {t : AbiType} (ht : t.Legal) {data : Bytes} {v : Value}
    (hsmall : data.length < 2 ^ 64) (h : readValue t data = .ok v) : HasShape data t v := by
  have hdrop : ∀ {data : Bytes} (n : Nat), data.length < 2 ^ 64 → (data.drop n).length < 2 ^ 64 := by
    intro data n hsmall
    rw [List.length_drop]
    omega
  induction ht generalizing data v with
  | uint hbits =>
      obtain ⟨w, hlen, -, rfl⟩ := exists_word h
      exact .uint (bigEndian_word_lt hlen)
  | int hbits =>
      obtain ⟨w, hlen, -, rfl⟩ := exists_word h
      exact .int (signed_range hlen).1 (signed_range hlen).2
  | address =>
      obtain ⟨w, hlen, hw, rfl⟩ := exists_word h
      refine .address ?_ ((List.drop_suffix 12 w).isInfix.trans hw)
      rw [List.length_drop, hlen]
  | bool =>
      obtain ⟨w, -, -, rfl⟩ := exists_word h
      exact .bool
  | fixedBytes hlow hhigh =>
      obtain ⟨w, hlen, hw, hn, rfl⟩ := exists_front h
      refine .fixedBytes ?_ ((List.take_prefix _ w).isInfix.trans hw)
      rw [List.length_take, hlen, Nat.min_eq_left hn]
  | bytes =>
      obtain ⟨b, hb, rfl⟩ := map_eq_ok.1 h
      exact .bytes (infix_of_payload hb)
  | string =>
      obtain ⟨b, hb, rfl⟩ := map_eq_ok.1 h
      exact .string (infix_of_payload hb)
  | array _ ih =>
      exact hasShape_array hsmall (fun n v hv => ih (hdrop n hsmall) hv) h
  | fixedArray _ _ ih =>
      exact hasShape_fixedArray (fun n v hv => ih (hdrop n hsmall) hv) h
  | tuple _ ih =>
      exact hasShape_tuple (fun t ht n v hv => ih t ht (hdrop n hsmall) hv) h

/-- Whatever the data is, what is decoded are values of the types, one for each. -/
theorem decode_shape {types : List AbiType} {data : Bytes} {values : List Value}
    (htypes : ∀ t ∈ types, ∃ s ps, AbiType.parse s ps = .ok t) (hsmall : data.length < 2 ^ 64)
    (h : decode types data = .ok values) : List.Forall₂ (HasShape data) types values := by
  refine forall₂_of_decode ?_ h
  intro t ht n v hv
  obtain ⟨s, ps, hparse⟩ := htypes t ht
  refine hasShape_of_readValue (AbiType.parse_eq_ok_iff.1 hparse).legal ?_ hv
  rw [List.length_drop]
  omega

/-- The offset in the tuple leads back to its start, where a truth value is taken for a length. -/
theorem decode_shape_backward_offset :
    let fields : List (String × AbiType) := [("ok", .bool), ("out", .bytes)]
    let data := numberWord 32 ++ numberWord 1 ++ numberWord 0
    let value := Value.struct [("ok", .bool true), ("out", .bytes [0])]
    AbiType.parse "tuple" [⟨"ok", "bool", [], none⟩, ⟨"out", "bytes", [], none⟩] =
        .ok (.tuple fields) ∧
      data.length < 2 ^ 64 ∧ decode [.tuple fields] data = .ok [value] ∧
      List.Forall₂ (HasShape data) [.tuple fields] [value] := by
  intro fields data value
  have hparse : AbiType.parse "tuple" [⟨"ok", "bool", [], none⟩, ⟨"out", "bytes", [], none⟩] =
      .ok (.tuple fields) := by cbv
  have hsmall : data.length < 2 ^ 64 := by decide +kernel
  have hok : (Item.of .bool).at (data.drop 32) 0 = .ok (.bool true) := by
    have hword : word ((data.drop 32).drop 0) 0 = .ok (numberWord 1) := by decide +kernel
    have htrue : (numberWord 1).getLast?.any (· != 0) = true := by decide +kernel
    rw [item_at_static rfl, readValue, hword, Except.map, htrue]
  have hout : (Item.of .bytes).at (data.drop 32) 32 = .ok (.bytes [0]) := by
    have hsize : size (data.drop 32) 32 = .ok 0 := by decide +kernel
    have hpayload : payload ((data.drop 32).drop 0) = .ok [0] := by decide +kernel
    rw [item_at_start rfl hsize (Nat.zero_le _), readValue, hpayload]
    rfl
  have htuple : readValue (.tuple fields) (data.drop 32) = .ok value := by
    have hhead : (Item.of .bool).headSize = 32 := rfl
    rw [readValue_tuple]
    simp only [fields, decode, List.map_cons, List.map_nil, readItems, hok, hhead, Nat.zero_add, hout,
      Except.map]
    rfl
  have hdecode : decode [.tuple fields] data = .ok [value] := by
    have hsize : size data 0 = .ok 32 := by decide +kernel
    have hitem : (Item.of (.tuple fields)).at data 0 = .ok value := by
      rw [item_at_start rfl hsize (by decide +kernel), htuple]
    simp only [decode, List.map_cons, List.map_nil, readItems, hitem, Except.map]
  refine ⟨hparse, hsmall, hdecode, decode_shape ?_ hsmall hdecode⟩
  rintro t ht
  obtain rfl := List.mem_singleton.1 ht
  exact ⟨_, _, hparse⟩

end SoliditySession.Abi
