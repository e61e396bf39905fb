import SoliditySession.Proofs.Layout
import SoliditySession.Proofs.Utf8
/- Decoding inverts encoding, by induction on the type: a word at the leaves, and at every node one
sequence, whose offsets count from its own start. -/
namespace SoliditySession

/-- The types of the ABI. Elements of an array of any length take room, as the decoder expects. -/
inductive AbiType.WellFormed : AbiType → Prop
  | uint {bits : Nat} : bits % 8 = 0 → 8 ≤ bits → bits ≤ 256 → WellFormed (.uint bits)
  | int {bits : Nat} : bits % 8 = 0 → 8 ≤ bits → bits ≤ 256 → WellFormed (.int bits)
  | address : WellFormed .address
  | bool : WellFormed .bool
  | fixedBytes {length : Nat} : 1 ≤ length → length ≤ 32 → WellFormed (.fixedBytes length)
  | bytes : WellFormed .bytes
  | string : WellFormed .string
  | array {t : AbiType} : WellFormed t → t.headSize ≠ 0 → WellFormed (.array t)
  | fixedArray {t : AbiType} (length : Nat) : WellFormed t → WellFormed (.fixedArray t length)
  | tuple {fields : List (String × AbiType)} :
      (∀ t ∈ fields.map (·.2), WellFormed t) → WellFormed (.tuple fields)

namespace Abi

theorem forall₂_of_haveTypes {fields : List (String × AbiType)} {values : List Value}
    (h : HaveTypes fields values) : List.Forall₂ HasType (fields.map (·.2)) values := by
  induction fields generalizing values with
  | nil =>
      cases values with
      | nil => exact .nil
      | cons v values => simp [HaveTypes] at h
  | cons f fields ih =>
      cases values with
      | nil => simp [HaveTypes] at h
      | cons v values =>
          rw [HaveTypes] at h
          exact .cons h.1 (ih h.2)

theorem parts_replicate (t : AbiType) (values : List Value) :
    values.map (fun v => (t.isDynamic, encodeValue t v)) =
      parts (List.replicate values.length t) values := by
  induction values with
  | nil => rfl
  | cons v values ih =>
      rw [List.map_cons, ih, List.length_cons, List.replicate_succ, parts_cons]

theorem encodeValue_array (t : AbiType) (values : List Value) :
    encodeValue (.array t) (.array values) =
      numberWord values.length ++ encode (List.replicate values.length t) values := by
  rw [encodeValue, parts_replicate, encode_eq]

theorem encodeValue_fixedArray (t : AbiType) (n : Nat) (values : List Value) :
    encodeValue (.fixedArray t n) (.array values) =
      encode (List.replicate values.length t) values := by
  rw [encodeValue, parts_replicate, encode_eq]

theorem forall₂_replicate {P : AbiType → Value → Prop} {t : AbiType} {values : List Value}
    (h : ∀ v ∈ values, P t v) : List.Forall₂ P (List.replicate values.length t) values := by
  induction values with
  | nil => exact .nil
  | cons v values ih =>
      exact .cons (h v List.mem_cons_self) (ih fun v hv => h v (List.mem_cons_of_mem _ hv))

theorem reads_of_word {t : AbiType} {v : Value} (hhead : t.headSize = 32)
    (hlen : (encodeValue t v).length = 32)
    (hread : ∀ data, word data 0 = .ok (encodeValue t v) → readValue t data = .ok v) :
    Reads t v := by
  refine ⟨?_, ?_⟩
  · intro hstatic
    rw [hlen, hhead]
  · intro more
    exact hread _ (word_of_drop rfl hlen)

theorem reads_uint {bits n : Nat} (hbits : bits ≤ 256) (hn : n < Nat.pow 2 bits) :
    Reads (.uint bits) (.uint n) := by
  have hfits : n < 2 ^ 256 :=
    Nat.lt_of_lt_of_le hn (Nat.pow_le_pow_right (by decide) hbits)
  refine reads_of_word rfl (length_numberWord n) ?_
  intro data hword
  rw [readValue, hword, encodeValue, Except.map, bigEndian_numberWord hfits]

theorem reads_int {bits : Nat} {n : Int} (hbits : bits ≤ 256)
    (hlow : -(Nat.pow 2 (bits - 1) : Int) ≤ n) (hhigh : n < (Nat.pow 2 (bits - 1) : Int)) :
    Reads (.int bits) (.int n) := by
  have hpow : Nat.pow 2 (bits - 1) ≤ 2 ^ 255 := Nat.pow_le_pow_right (by decide) (by omega)
  have hfits : -2 ^ 255 ≤ n ∧ n < 2 ^ 255 := by
    generalize Nat.pow 2 (bits - 1) = bound at *
    omega
  refine reads_of_word rfl (length_signedWord n) ?_
  intro data hword
  rw [readValue, hword, encodeValue, Except.map, signed_signedWord hfits.1 hfits.2]

theorem reads_bool (b : Bool) : Reads .bool (.bool b) := by
  refine reads_of_word rfl (length_numberWord _) ?_
  intro data hword
  rw [readValue, hword]
  cases b with
  | false => rfl
  | true => rfl

theorem reads_address {b : Bytes} (h : b.length = 20) : Reads .address (.address b) := by
  refine reads_of_word rfl (length_padLeft (by omega)) ?_
  intro data hword
  rw [readValue, hword, encodeValue, Except.map, padLeft]
  rw [List.drop_left' (by rw [List.length_replicate, h])]

theorem reads_fixedBytes {b : Bytes} {length : Nat} (hpos : 1 ≤ length) (hle : length ≤ 32)
    (h : b.length = length) : Reads (.fixedBytes length) (.bytes b) := by
  refine reads_of_word rfl (length_padRight (by omega) (by omega)) ?_
  intro data hword
  rw [readValue, hword, encodeValue, Except.bind, front, if_pos hle, Except.map, padRight,
    List.take_left' h]

theorem reads_bytes {b : Bytes} (h : (encodeValue .bytes (.bytes b)).length < 2 ^ 64) :
    Reads .bytes (.bytes b) := by
  rw [encodeValue] at h
  refine ⟨Bool.noConfusion, ?_⟩
  intro more
  rw [readValue, encodeValue, payload_append h, Except.map]

theorem reads_string {s : String} (h : (encodeValue .string (.string s)).length < 2 ^ 64) :
    Reads .string (.string s) := by
  rw [encodeValue] at h
  refine ⟨Bool.noConfusion, ?_⟩
  intro more
  rw [readValue, encodeValue, payload_append h, Except.map, Text.ofBytesLossy_toBytes]

theorem reads_tuple {fields : List (String × AbiType)} {v : Value} {values : List Value}
    (hv : encodeValue (.tuple fields) v = encode (fields.map (·.2)) values)
    (hshown : tupleValue fields values = v)
    (h : List.Forall₂ Reads (fields.map (·.2)) values)
    (hsmall : (encode (fields.map (·.2)) values).length < 2 ^ 64) : Reads (.tuple fields) v := by
  refine ⟨?_, ?_⟩
  · intro hstatic
    rw [AbiType.isDynamic] at hstatic
    have hall : ∀ t ∈ fields.map (·.2), t.isDynamic = false := by
      rw [AbiType.anyDynamic_eq] at hstatic
      simpa only [List.any_eq_false, Bool.not_eq_true] using hstatic
    rw [hv, AbiType.headSize, hstatic, AbiType.headSizes_eq,
      length_encode_of_static (h.imp fun _ _ hr => hr.fills) hall]
    rfl
  · intro more
    rw [hv, readValue_tuple, decode_encode_append h hsmall, Except.map, hshown]

theorem reads_fixedArray {t : AbiType} {values : List Value} (hlisted : values.length ≤ maxListed)
    (h : List.Forall₂ Reads (List.replicate values.length t) values)
    (hsmall : (encode (List.replicate values.length t) values).length < 2 ^ 64) :
    Reads (.fixedArray t values.length) (.array values) := by
  refine ⟨?_, ?_⟩
  · intro hstatic
    rw [AbiType.isDynamic] at hstatic
    have hstatics : ∀ t' ∈ List.replicate values.length t, t'.isDynamic = false := by
      intro t' ht
      rw [List.eq_of_mem_replicate ht, hstatic]
    rw [encodeValue_fixedArray, AbiType.headSize, hstatic,
      length_encode_of_static (h.imp fun _ _ hr => hr.fills) hstatics, List.map_replicate,
      List.sum_replicate_nat, if_neg Bool.false_ne_true, Nat.mul_comm]
  · intro more
    rw [encodeValue_fixedArray, readValue_fixedArray, if_pos hlisted,
      decode_encode_append h hsmall, Except.map]

/-- The elements have room for a word each, so the length is not taken for a bogus one. -/
theorem reads_array {t : AbiType} {values : List Value} (ht : 32 ≤ t.headSize)
    (h : List.Forall₂ Reads (List.replicate values.length t) values)
    (hsmall : (encodeValue (.array t) (.array values)).length < 2 ^ 64) :
    Reads (.array t) (.array values) := by
  refine ⟨Bool.noConfusion, ?_⟩
  intro more
  rw [encodeValue_array, List.length_append, length_numberWord] at hsmall
  have hroom : values.length * 32 ≤ (encode (List.replicate values.length t) values).length := by
    have hsum := headSizes_le_encode (h.imp fun _ _ hr => hr.fills)
    rw [List.map_replicate, List.sum_replicate_nat] at hsum
    exact Nat.le_trans (Nat.mul_le_mul_left _ ht) hsum
  rw [encodeValue_array, List.append_assoc]
  generalize hbody : encode (List.replicate values.length t) values ++ more = body
  have hlength : size (numberWord values.length ++ body) 0 = .ok values.length :=
    size_of_drop rfl (by omega)
  have hbehind : (numberWord values.length ++ body).drop 32 = body :=
    List.drop_left' (length_numberWord _)
  have hcheck : ∃ b, slice (numberWord values.length ++ body) 32
      (min (values.length * 32) (Nat.pow 2 64 - 1)) = .ok b := by
    refine ⟨_, if_pos ?_⟩
    rw [List.length_append, length_numberWord, ← hbody, List.length_append]
    omega
  obtain ⟨b, hcheck⟩ := hcheck
  rw [readValue, hlength]
  simp only [hcheck, hbehind]
  rw [readCopies_decode, ← hbody, decode_encode_append h (by omega), Except.map]

/-- The values of a short sequence come back where all short values of its types do. -/
theorem forall₂_reads {types : List AbiType} {values : List Value}
    (hread : ∀ t ∈ types, ∀ v, HasType t v → (encodeValue t v).length < 2 ^ 64 → Reads t v)
    (h : List.Forall₂ HasType types values) (hsmall : (encode types values).length < 2 ^ 64) :
    List.Forall₂ Reads types values := by
  refine forall₂_of_small ?_ hsmall
  rw [List.forall₂_iff_zip] at h ⊢
  refine ⟨h.1, ?_⟩
  intro t v htv hs
  exact hread t (List.of_mem_zip htv).1 v (h.2 htv) hs

theorem forall₂_reads_replicate {t : AbiType} {values : List Value}
    (hread : ∀ v, HasType t v → (encodeValue t v).length < 2 ^ 64 → Reads t v)
    (h : ∀ v ∈ values, HasType t v)
    (hsmall : (encode (List.replicate values.length t) values).length < 2 ^ 64) :
    List.Forall₂ Reads (List.replicate values.length t) values := by
  refine forall₂_reads ?_ (forall₂_replicate h) hsmall
  intro t' ht
  rw [List.eq_of_mem_replicate ht]
  exact hread

theorem reads_of_hasType {t : AbiType} (ht : t.WellFormed) {v : Value} (hv : HasType t v)
    (hsmall : (encodeValue t v).length < 2 ^ 64) : Reads t v := by
  induction ht generalizing v with
  | uint _ _ hbits =>
      cases v with
      | uint n =>
          rw [HasType] at hv
          exact reads_uint hbits hv
      | _ => simp [HasType] at hv
  | int _ _ hbits =>
      cases v with
      | int n =>
          rw [HasType] at hv
          exact reads_int hbits hv.1 hv.2
      | _ => simp [HasType] at hv
  | address =>
      cases v with
      | address b =>
          rw [HasType] at hv
          exact reads_address hv
      | _ => simp [HasType] at hv
  | bool =>
      cases v with
      | bool b => exact reads_bool b
      | _ => simp [HasType] at hv
  | fixedBytes hpos hle =>
      cases v with
      | bytes b =>
          rw [HasType] at hv
          exact reads_fixedBytes hpos hle hv
      | _ => simp [HasType] at hv
  | bytes =>
      cases v with
      | bytes b => exact reads_bytes hsmall
      | _ => simp [HasType] at hv
  | string =>
      cases v with
      | string s => exact reads_string hsmall
      | _ => simp [HasType] at hv
  | @array t ht hhead ih =>
      cases v with
      | array values =>
          rw [HasType] at hv
          have hword : 32 ≤ t.headSize := Nat.le_of_dvd (Nat.pos_of_ne_zero hhead) t.dvd_headSize
          refine reads_array hword ?_ hsmall
          rw [encodeValue_array, List.length_append] at hsmall
          exact forall₂_reads_replicate (fun v hv hs => ih hv hs) hv (by omega)
      | _ => simp [HasType] at hv
  | @fixedArray t length ht ih =>
      cases v with
      | array values =>
          rw [HasType] at hv
          obtain ⟨rfl, hlisted, hv⟩ := hv
          rw [encodeValue_fixedArray] at hsmall
          exact reads_fixedArray hlisted
            (forall₂_reads_replicate (fun v hv hs => ih hv hs) hv hsmall) hsmall
      | _ => simp [HasType] at hv
  | @tuple fields ht ih =>
      have hreads : ∀ values, HaveTypes fields values →
          (encode (fields.map (·.2)) values).length < 2 ^ 64 →
          List.Forall₂ Reads (fields.map (·.2)) values := by
        intro values hvalues hs
        exact forall₂_reads (fun t ht v hv hs => ih t ht hv hs) (forall₂_of_haveTypes hvalues) hs
      cases v with
      | struct named =>
          rw [HasType] at hv
          obtain ⟨hnamed, hnames, hvalues⟩ := hv
          rw [encodeValue_struct] at hsmall
          refine reads_tuple (encodeValue_struct fields named) ?_ (hreads _ hvalues hsmall) hsmall
          rw [tupleValue, if_pos hnamed, ← hnames, List.zip_map']
          simp
      | tuple values =>
          rw [HasType] at hv
          obtain ⟨hunnamed, hvalues⟩ := hv
          rw [encodeValue_tuple] at hsmall
          refine reads_tuple (encodeValue_tuple fields values) ?_ (hreads _ hvalues hsmall) hsmall
          rw [tupleValue, hunnamed, if_neg Bool.false_ne_true]
      | _ => simp [HasType] at hv

/-- Decoding the encoding of values gives these values, each type's own; outputs of the types give
no value, the one value bare, or a tuple of several. -/
theorem decode_encode {types : List AbiType} {values : List Value}
    (ht : ∀ t ∈ types, t.WellFormed) (hv : List.Forall₂ HasType types values)
    (hsmall : (encode types values).length < 2 ^ 64) :
    decode types (encode types values) = .ok values ∧
      ∀ outputs, outputs.mapM AbiType.ofParam = .ok types →
        (types = [] → decodeOutputs outputs (encode types values) = .ok none) ∧
        (∀ v, values = [v] → decodeOutputs outputs (encode types values) = .ok (some v)) ∧
        (2 ≤ values.length →
          decodeOutputs outputs (encode types values) = .ok (some (.tuple values))) := by
  have hreads : List.Forall₂ Reads types values :=
    forall₂_reads (fun t hmem v hv hs => reads_of_hasType (ht t hmem) hv hs) hv hsmall
  have hdecode : decode types (encode types values) = .ok values := by
    simpa only [List.append_nil] using decode_encode_append hreads hsmall []
  refine ⟨hdecode, ?_⟩
  intro outputs houtputs
  have houtcome : decodeOutputs outputs (encode types values) = .ok (outcome values) := by
    rw [decodeOutputs, houtputs]
    simp only [hdecode, Except.map]
  rw [houtcome]
  refine ⟨?_, ?_, ?_⟩
  · rintro rfl
    cases hv
    rfl
  · rintro v rfl
    rfl
  · intro hlength
    match values, hlength with
    | v :: w :: r, _ => rfl

theorem decode_encode_struct_and_rows :
    let types : List AbiType :=
      [.tuple [("name", .string), ("age", .uint 256)], .array (.array (.int 256))]
    let values : List Value :=
      [.struct [("name", .string "bob"), ("age", .uint 30)],
        .array [.array [.int (-1), .int 2], .array []]]
    let outputs : List AbiParam :=
      [⟨"", "tuple", [⟨"name", "string", [], none⟩, ⟨"age", "uint", [], none⟩], none⟩,
        ⟨"", "int[][]", [], none⟩]
    encode types values =
        numberWord 64 ++ numberWord 192 ++
          (numberWord 64 ++ numberWord 30 ++ (numberWord 3 ++ padRight [98, 111, 98])) ++
          (numberWord 2 ++ (numberWord 64 ++ numberWord 160 ++
            (numberWord 2 ++ signedWord (-1) ++ numberWord 2) ++ numberWord 0)) ∧
      decode types (encode types values) = .ok values ∧
      decodeOutputs outputs (encode types values) = .ok (some (.tuple values)) := by
  intro types values outputs
  have hstring : AbiType.WellFormed .string := .string
  have huint : AbiType.WellFormed (.uint 256) := .uint rfl (by decide) (by decide)
  have hint : AbiType.WellFormed (.int 256) := .int rfl (by decide) (by decide)
  have hpair : AbiType.WellFormed (.tuple [("name", .string), ("age", .uint 256)]) := by
    refine .tuple ?_
    simpa using And.intro hstring huint
  have hrows : AbiType.WellFormed (.array (.array (.int 256))) :=
    .array (.array hint (by decide)) (by decide)
  have ht : ∀ t ∈ types, t.WellFormed := by simpa [types] using And.intro hpair hrows
  have hv : List.Forall₂ HasType types values := by
    simp [types, values, HasType, HaveTypes, AbiType.allNamed]
  have houtputs : outputs.mapM AbiType.ofParam = .ok types := by cbv
  obtain ⟨hdecode, hshown⟩ := decode_encode ht hv (by decide +kernel)
  exact ⟨by decide +kernel, hdecode, (hshown outputs houtputs).2.2 (by decide)⟩

end Abi
end SoliditySession
