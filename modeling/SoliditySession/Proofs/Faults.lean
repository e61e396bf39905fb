import Mathlib.Data.List.Induction
import Mathlib.Data.Nat.Digits.Defs
import SoliditySession.Proofs.Spelling
import SoliditySession.Proofs.Utf8
import SoliditySession.Proofs.Words
/- Faults of decoding are about the data: bytes that it names are missing there, a number that it
quotes stands there and is too large. A fault found in a tail tells as much about the whole. A crash
is about a type, and tells nothing. -/
namespace SoliditySession

namespace Text

theorem length_hex (b : List UInt8) : (hex b).length = 2 * b.length := by
  rw [hex, String.length_ofList]
  induction b with
  | nil => rfl
  | cons x b ih =>
      rw [List.flatMap_cons, List.length_append, ih, hexByte, List.length_cons]
      simp only [List.length_cons, List.length_nil]
      omega

theorem exists_encoded_hexDigit : ∀ n < 16, ∃ a,
    String.utf8EncodeChar (hexDigit n) = [a] ∧ nibble (.ofNat a.toNat) = some n := by
  have hdigits : ∀ n < 16,
      String.utf8EncodeChar (hexDigit n) = [.ofNat (hexDigit n).toNat] ∧
        nibble (.ofNat (UInt8.ofNat (hexDigit n).toNat).toNat) = some n := by decide
  exact fun n hn => ⟨_, hdigits n hn⟩

theorem hexPairs_hex (position : Nat) (b : List UInt8) :
    ((b.flatMap hexByte).flatMap String.utf8EncodeChar).length = 2 * b.length ∧
      hexPairs position ((b.flatMap hexByte).flatMap String.utf8EncodeChar) = .ok b := by
  induction b generalizing position with
  | nil => exact ⟨rfl, rfl⟩
  | cons x b ih =>
      obtain ⟨hlen, hpairs⟩ := ih (position + 2)
      have hx : x.toNat < 256 := x.toNat_lt
      obtain ⟨a, ha, hhigh⟩ := exists_encoded_hexDigit (x.toNat / 16) (by omega)
      obtain ⟨c, hc, hlow⟩ := exists_encoded_hexDigit (x.toNat % 16) (by omega)
      have hbyte : UInt8.ofNat (x.toNat / 16 * 16 + x.toNat % 16) = x := by
        rw [Nat.div_add_mod', UInt8.ofNat_toNat]
      simp only [List.flatMap_cons, hexByte, ha, hc, List.cons_append, List.nil_append]
      refine ⟨?_, ?_⟩
      · simp only [List.length_cons, hlen]
        omega
      · simp only [hexPairs, hhigh, hlow, hpairs, hbyte, Except.map]

theorem unhex_hex (b : List UInt8) : unhex (hex b) = .ok b := by
  have hbytes : (hex b).toUTF8.toList = (b.flatMap hexByte).flatMap String.utf8EncodeChar := by
    have h := toBytes_eq (hex b)
    rwa [toBytes, hex, String.toList_ofList] at h
  obtain ⟨hlen, hpairs⟩ := hexPairs_hex 0 b
  have heven : (2 * b.length % 2 == 1) = false := by
    rw [Nat.mul_mod_right]
    rfl
  simp only [unhex, hbytes, hlen, hpairs, heven, Bool.false_eq_true, if_false]

end Text

namespace AbiType

theorem Part.legal {s t : AbiType} (h : s.Part t) (ht : t.Legal) : s.Legal := by
  induction h with
  | refl => exact ht
  | array _ ih =>
      cases ht with
      | array ht => exact ih ht
  | fixedArray _ ih =>
      cases ht with
      | fixedArray ht _ => exact ih ht
  | tuple hmem _ ih =>
      cases ht with
      | tuple ht => exact ih (ht _ hmem)

end AbiType

namespace Abi

theorem bigEndian_eq_ofDigits (b : Bytes) :
    bigEndian b = Nat.ofDigits 256 (b.reverse.map UInt8.toNat) := by
  induction b using List.reverseRecOn with
  | nil => rfl
  | append_singleton b x ih =>
    rw [bigEndian_concat, ih, List.reverse_concat, List.map_cons, Nat.ofDigits_cons]
    omega

/-- A fault that the data bears out. -/
inductive Borne (data : Bytes) : AbiFault → Prop
  | shortData {offset needed available : Nat} : available ≤ data.length →
      available < offset + needed → Borne data (.shortData offset needed available)
  | overflow {w : Bytes} {word : String} : w <:+: data → w.length = 32 →
      word.length = 64 → Text.unhex word = .ok w →
      2 ^ 64 ≤ Nat.ofDigits 256 (w.reverse.map UInt8.toNat) → Borne data (.overflow word)

/-- What bears out a fault within a part of the data bears it out in the whole. -/
theorem Borne.mono {part data : Bytes} {e : AbiFault} (h : Borne part e) (hpart : part <:+: data) :
    Borne data e := by
  cases h with
  | shortData havailable hshort =>
      exact .shortData (Nat.le_trans havailable hpart.length_le) hshort
  | overflow hw hlen hdigits htext hlarge =>
      exact .overflow (hw.trans hpart) hlen hdigits htext hlarge

/-- The data bears the fault out, or there is a reason to crash. -/
def Explained (reason : Prop) (data : Bytes) : Failure → Prop
  | .fault e => Borne data e
  | .crash => reason

theorem Explained.mono {reason : Prop} {part data : Bytes} {f : Failure}
    (h : Explained reason part f) (hpart : part <:+: data) : Explained reason data f := by
  cases f with
  | fault e => exact Borne.mono h hpart
  | crash => exact h

/-- Whatever a reader fails with is explained. -/
def Honest (reason : Prop) {α : Type} (read : Bytes → Decoded α) : Prop :=
  ∀ data f, read data = .error f → Explained reason data f

section
variable (reason : Prop)

theorem honest_slice (offset length : Nat) : Honest reason (slice · offset length) := by
  intro data f h
  simp only [slice] at h
  split at h
  · cases h
  · next hshort =>
    cases h
    exact Borne.shortData (Nat.le_refl _) (by omega)

theorem honest_size (offset : Nat) : Honest reason (size · offset) := by
  intro data f h
  simp only [size, word] at h
  cases hw : slice data offset 32 with
  | error f' =>
      simp only [hw] at h
      cases h
      exact honest_slice reason offset 32 data f hw
  | ok w =>
      simp only [hw] at h
      split at h
      · cases h
      · next hlarge =>
        cases h
        have hlen := length_of_slice hw
        rw [bigEndian_eq_ofDigits, Nat.not_lt] at hlarge
        refine Borne.overflow (infix_of_slice hw) hlen ?_ (Text.unhex_hex w) hlarge
        rw [Text.length_hex, hlen]

theorem kept_honest : Kept (Honest reason) where
  ok a data f h := by cases h
  bind := by
    intro α β read next hread hnext data f h
    dsimp only at h
    cases ha : read data with
    | error f' =>
        rw [ha] at h
        cases h
        exact hread data f ha
    | ok a =>
        rw [ha] at h
        exact hnext a data f h
  slice := honest_slice reason
  size := honest_size reason
  drop := by
    intro α read n hread data f h
    exact (hread _ f h).mono (List.drop_suffix n data).isInfix
  tail := by
    intro α read start hread data f h
    dsimp only at h
    split at h
    · exact (hread _ f h).mono (List.drop_suffix start data).isInfix
    · next hshort =>
      cases h
      exact Borne.shortData (Nat.le_refl _) (by omega)

end

/-- Reading crashes only where a type has a node that does. -/
theorem explained_of_decode {types : List AbiType} {data : Bytes} {f : Failure}
    (h : decode types data = .error f) :
    Explained (∃ t ∈ types, ∃ s : AbiType, s.Part t ∧ s.Crashes) data f := by
  refine (kept_honest _).decode types ?_ data f h
  intro t ht s hpart hcrashes α data f hf
  cases hf
  exact ⟨t, ht, s, hpart, hcrashes⟩

/-- Decoding fails with faults that the data bears out, none of them about a type; or it crashes, where
a fixed array of some type has more elements than can be listed. -/
theorem decode_failure {types : List AbiType} {data : Bytes} {f : Failure}
    (htypes : ∀ t ∈ types, ∃ s ps, AbiType.parse s ps = .ok t) (h : decode types data = .error f) :
    (∃ e, f = .fault e ∧ Borne data e) ∨
      f = .crash ∧ ∃ t ∈ types, ∃ (element : AbiType) (length : Nat),
        (AbiType.fixedArray element length).Part t ∧ maxListed < length := by
  have hexplained := explained_of_decode h
  cases f with
  | fault e => exact .inl ⟨e, rfl, hexplained⟩
  | crash =>
      obtain ⟨t, ht, s, hpart, hcrashes⟩ := hexplained
      obtain ⟨text, ps, hparse⟩ := htypes t ht
      have hlegal := hpart.legal (AbiType.parse_eq_ok_iff.1 hparse).legal
      refine .inr ⟨rfl, t, ht, ?_⟩
      cases hlegal with
      | fixedBytes _ hle => exact absurd hle (Nat.not_le.2 hcrashes)
      | fixedArray => exact ⟨_, _, hpart, hcrashes⟩
      | _ => exact hcrashes.elim

/-- The offset of the only element leads out of any data. -/
theorem decode_failure_far_offset :
    let data := numberWord 32 ++ numberWord 1 ++ List.replicate 32 255
    let e := AbiFault.overflow (String.ofList (List.replicate 64 'f'))
    AbiType.parse "bytes[]" [] = .ok (.array .bytes) ∧
      decode [.array .bytes] data = .error (.fault e) ∧ Borne data e := by
  intro data e
  have hparse : AbiType.parse "bytes[]" [] = .ok (.array .bytes) := by cbv
  have htypes : ∀ t ∈ [AbiType.array .bytes], ∃ s ps, AbiType.parse s ps = .ok t := by
    intro t ht
    rw [List.mem_singleton.1 ht]
    exact ⟨_, _, hparse⟩
  have hfault : (decode [.array .bytes] data).map (fun _ => ()) = .error (.fault e) := by
    decide +kernel
  have hdecode : decode [.array .bytes] data = .error (.fault e) := by
    cases hd : decode [.array .bytes] data with
    | error f =>
        rw [hd] at hfault
        exact congrArg _ (Except.error.inj hfault)
    | ok values =>
        rw [hd] at hfault
        cases hfault
  refine ⟨hparse, hdecode, ?_⟩
  obtain ⟨e', he, hborne⟩ | ⟨hcrash, -⟩ := decode_failure htypes hdecode
  · cases he
    exact hborne
  · cases hcrash

/-- A length that a type string can have and that no list of types has: whatever the data is, reading
crashes before it looks at it. -/
theorem decode_long_rows_crash :
    let rows := AbiType.fixedArray (.uint 256) 1152921504606846976
    AbiType.parse "uint256[1152921504606846976]" [] = .ok rows ∧
      (∀ data, decode [rows] data = .error .crash) ∧
      ¬∃ e, decode [rows] [] = .error (.fault e) ∧ Borne [] e := by
  intro rows
  have hdecode : ∀ data, decode [rows] data = .error .crash := by
    intro data
    have hlong : ¬1152921504606846976 ≤ maxListed := by decide
    have hread : readValue rows data = .error .crash := by
      rw [readValue_fixedArray, if_neg hlong]
    rw [decode, List.map_singleton, readItems_cons, item_at_static rfl, List.drop_zero, hread]
    rfl
  have hparse : AbiType.parse rows.spelling rows.components = .ok rows := by
    have hlegal : rows.Legal := .fixedArray (.uint ⟨rfl, by decide, by decide⟩) (by decide)
    exact AbiType.parse_eq_ok_iff.2 hlegal.spelled
  refine ⟨hparse, hdecode, ?_⟩
  rintro ⟨e, he, -⟩
  rw [hdecode] at he
  cases he

end Abi
end SoliditySession
