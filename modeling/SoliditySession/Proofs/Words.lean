import Mathlib.Algebra.Ring.Int.Defs
import Mathlib.Algebra.Ring.Nat
import SoliditySession.Abi.Encode
/- Words: the numbers and byte strings that stand in them come back, wherever they stand in the
data. A position is given by what the data holds from there on. -/
namespace SoliditySession.Abi

theorem length_bigEndianBytes (length n : Nat) : (bigEndianBytes length n).length = length := by
  induction length generalizing n with
  | zero => rfl
  | succ length ih => rw [bigEndianBytes, List.length_append, ih, List.length_singleton]

theorem bigEndian_concat (b : Bytes) (x : UInt8) :
    bigEndian (b ++ [x]) = bigEndian b * 256 + x.toNat := by
  simp only [bigEndian, List.foldl_append, List.foldl_cons, List.foldl_nil]

theorem bigEndian_bigEndianBytes {length n : Nat} (h : n < 256 ^ length) :
    bigEndian (bigEndianBytes length n) = n := by
  induction length generalizing n with
  | zero =>
      rw [Nat.pow_zero, Nat.lt_one_iff] at h
      rw [h]
      rfl
  | succ length ih =>
      have hhigh : n / 256 < 256 ^ length := by
        rw [Nat.pow_succ] at h
        exact Nat.div_lt_of_lt_mul (by rwa [Nat.mul_comm])
      have hlow : (UInt8.ofNat (n % 256)).toNat = n % 256 :=
        UInt8.toNat_ofNat_of_lt' (Nat.mod_lt n (by decide))
      rw [bigEndianBytes, bigEndian_concat, ih hhigh, hlow]
      omega

@[simp] theorem length_numberWord (n : Nat) : (numberWord n).length = 32 :=
  length_bigEndianBytes 32 n

@[simp] theorem length_signedWord (n : Int) : (signedWord n).length = 32 := length_numberWord _

theorem bigEndian_numberWord {n : Nat} (h : n < 2 ^ 256) : bigEndian (numberWord n) = n :=
  bigEndian_bigEndianBytes (by simpa using h)

/-- Two's complement, over the whole range of a word. -/
theorem signed_signedWord {n : Int} (hlow : -2 ^ 255 ≤ n) (hhigh : n < 2 ^ 255) :
    signed (signedWord n) = n := by
  have hcast : ((Nat.pow 2 256 : Nat) : Int) = 2 ^ 256 := rfl
  have hword : bigEndian (signedWord n) = (n % 2 ^ 256).toNat := by
    rw [signedWord, hcast, bigEndian_numberWord]
    omega
  have hhalf : Nat.pow 2 255 = 2 ^ 255 := rfl
  simp only [signed, hword, hcast, hhalf]
  split
  · omega
  · omega

variable {data more : Bytes} {p : Nat}

theorem slice_of_drop {b : Bytes} {n : Nat} (h : data.drop p = b ++ more) (hp : p ≤ data.length)
    (hn : b.length = n) : slice data p n = .ok b := by
  have hlen := congrArg List.length h
  rw [List.length_drop, List.length_append] at hlen
  rw [slice, if_pos (by omega), h, List.take_left' hn]

theorem word_of_drop {w : Bytes} (h : data.drop p = w ++ more) (hw : w.length = 32) :
    word data p = .ok w := by
  have hlen := congrArg List.length h
  rw [List.length_drop, List.length_append] at hlen
  exact slice_of_drop h (by omega) hw

theorem size_of_drop {n : Nat} (h : data.drop p = numberWord n ++ more) (hn : n < 2 ^ 64) :
    size data p = .ok n := by
  have hword : bigEndian (numberWord n) = n := bigEndian_numberWord (by omega)
  rw [size, word_of_drop h (length_numberWord n)]
  simp only [hword]
  exact if_pos hn

theorem length_le_padRight (b : Bytes) : b.length ≤ (padRight b).length := by
  rw [padRight, List.length_append]
  exact Nat.le_add_right _ _

theorem length_padRight {b : Bytes} (hpos : 1 ≤ b.length) (hle : b.length ≤ 32) :
    (padRight b).length = 32 := by
  rw [padRight, List.length_append, List.length_replicate]
  omega

theorem length_padLeft {b : Bytes} (h : b.length ≤ 32) : (padLeft b).length = 32 := by
  rw [padLeft, List.length_append, List.length_replicate]
  omega

/-- Bytes come back from behind their length. -/
theorem payload_append {b : Bytes} (h : (numberWord b.length ++ padRight b).length < 2 ^ 64)
    (more : Bytes) : payload (numberWord b.length ++ padRight b ++ more) = .ok b := by
  have hle := length_le_padRight b
  rw [List.length_append, length_numberWord] at h
  rw [List.append_assoc]
  have hsize : size (numberWord b.length ++ (padRight b ++ more)) 0 = .ok b.length :=
    size_of_drop rfl (by omega)
  have hbehind : (numberWord b.length ++ (padRight b ++ more)).drop 32 = padRight b ++ more :=
    List.drop_left' (length_numberWord _)
  have hbytes : slice (numberWord b.length ++ (padRight b ++ more)) 32 b.length = .ok b := by
    rw [padRight, List.append_assoc] at hbehind ⊢
    refine slice_of_drop hbehind ?_ rfl
    rw [List.length_append, length_numberWord]
    exact Nat.le_add_right _ _
  simp only [payload, hsize, hbytes]

end SoliditySession.Abi
