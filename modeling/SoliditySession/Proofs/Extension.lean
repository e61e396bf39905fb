import SoliditySession.Abi.Encode
import SoliditySession.Proofs.Decoding
/- Data behind what was read plays no part: whatever is appended, the values stay the same. Offsets may
point anywhere, and lengths are compared with the room there is; more room never changes a success. -/
namespace SoliditySession.Abi

/-- What was read is read again when more data follows. -/
def Stable {α : Type} (read : Bytes → Decoded α) : Prop :=
  ∀ data more v, read data = .ok v → read (data ++ more) = .ok v

theorem stable_slice (offset length : Nat) : Stable (slice · offset length) := by
  intro data more b h
  obtain ⟨hle, hb⟩ := slice_eq_ok.1 h
  have htake : ((data ++ more).drop offset).take length = b := by
    rw [List.drop_append_of_le_length (by omega), List.take_append_of_le_length, hb]
    rw [List.length_drop]
    omega
  refine slice_eq_ok.2 ⟨?_, htake⟩
  rw [List.length_append]
  omega

theorem stable_size (offset : Nat) : Stable (size · offset) := by
  intro data more n h
  obtain ⟨w, hw, hn⟩ := size_eq_ok.1 h
  exact size_eq_ok.2 ⟨w, stable_slice offset 32 data more w hw, hn⟩

theorem stable_crash {α : Type} : Stable fun _ => (.error .crash : Decoded α) := by
  intro data more v h
  cases h

theorem kept_stable : Kept Stable where
  ok a data more v h := h
  bind := by
    intro α β read next hread hnext data more b h
    obtain ⟨a, ha, hb⟩ := bind_eq_ok.1 h
    exact bind_eq_ok.2 ⟨a, hread data more a ha, hnext a data more b hb⟩
  slice := stable_slice
  size := stable_size
  drop := by
    intro α read n hread data more v h
    simp only [List.drop_append]
    exact hread _ _ v h
  tail := by
    intro α read start hread data more v h
    dsimp only at h ⊢
    split at h
    · next hle =>
      have hle' : start ≤ (data ++ more).length := by
        rw [List.length_append]
        omega
      rw [if_pos hle', List.drop_append_of_le_length hle]
      exact hread _ _ v h
    · cases h

/-- Decoding depends on nothing behind the data that it needed. -/
theorem decode_append {types : List AbiType} {data : Bytes} {values : List Value}
    (h : decode types data = .ok values) (more : Bytes) :
    decode types (data ++ more) = .ok values :=
  kept_stable.decode types (fun _ _ _ _ _ _ => stable_crash) data more values h

/-- Both offsets lead to the second of them, which is taken for a length. -/
theorem decode_append_overlapping :
    let b : Bytes := List.replicate 32 171
    let data := numberWord 32 ++ numberWord 32 ++ b
    decode [.bytes, .bytes] data = .ok [.bytes b, .bytes b] ∧
      decode [.bytes, .bytes] (data ++ [1, 2, 3]) = .ok [.bytes b, .bytes b] := by
  intro b data
  have hpayload : payload (data.drop 32) = .ok b := by decide +kernel
  have hitem : ∀ offset, size data offset = .ok 32 →
      (Item.of .bytes).at data offset = .ok (.bytes b) := by
    intro offset hsize
    rw [item_at_start rfl hsize (by decide +kernel), readValue, hpayload]
    rfl
  have hdecode : decode [.bytes, .bytes] data = .ok [.bytes b, .bytes b] := by
    have hfirst := hitem 0 (by decide +kernel)
    have hsecond := hitem 32 (by decide +kernel)
    have hhead : (Item.of .bytes).headSize = 32 := rfl
    simp only [decode, List.map_cons, List.map_nil, readItems, hfirst, hhead, hsecond, Except.map]
  exact ⟨hdecode, decode_append hdecode [1, 2, 3]⟩

end SoliditySession.Abi
