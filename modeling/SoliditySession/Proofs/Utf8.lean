import SoliditySession.Text.Utf8
/- Texts come back from their bytes. The facts about single bytes are checked for all of them. -/
namespace SoliditySession.Text

/-- The loop goes on from a beginning of the bytes that it has put aside in reverse. -/
theorem toList_loop {bytes : ByteArray} {i : Nat} {done : List UInt8}
    (h : done.reverse = bytes.data.toList.take i) :
    ByteArray.toList.loop bytes i done = bytes.data.toList := by
  fun_induction ByteArray.toList.loop bytes i done with
  | case1 i done hi ih =>
      apply ih
      have hlen : i < bytes.data.toList.length := hi
      have hget : bytes.get! i = bytes.data.toList[i] := by
        rw [ByteArray.get!, getElem!_pos bytes.data i hi, Array.getElem_toList]
      rw [List.reverse_cons, h, hget, List.take_append_getElem]
  | case2 i done hi =>
      rw [h]
      exact List.take_of_length_le (Nat.le_of_not_lt hi)

theorem toBytes_eq (s : String) : toBytes s = s.toList.flatMap String.utf8EncodeChar := by
  have hbytes : s.toUTF8 = s.toList.utf8Encode := by
    rw [← String.toByteArray_ofList, String.ofList_toList]
    rfl
  rw [toBytes, hbytes, ByteArray.toList, toList_loop rfl]
  simp [List.utf8Encode]

theorem isTail_ofNat : ∀ n < 64, isTail (.ofNat (n + 128)) = true := by decide

theorem bits6_ofNat : ∀ n < 64, bits6 (.ofNat (n + 128)) = n := by decide

theorem utf8Step_one {v : Nat} (hv : v < 128) (rest : List UInt8) :
    utf8Step (.ofNat v) rest = .char (.ofNat v) rest := by
  have hlead : ∀ v < 128, announced (.ofNat v) = some 1 ∧ (UInt8.ofNat v).toNat = v := by
    decide
  obtain ⟨ha, hbits⟩ := hlead v hv
  simp only [utf8Step, ha, hbits]

theorem utf8Step_two {m n : Nat} (hm : m < 32) (hn : n < 64) (hlow : 2 ≤ m) (rest : List UInt8) :
    utf8Step (.ofNat (m + 192)) (.ofNat (n + 128) :: rest) = .char (.ofNat (m * 64 + n)) rest := by
  have hlead : ∀ m < 32, 2 ≤ m → announced (.ofNat (m + 192)) = some 2 ∧
      (UInt8.ofNat (m + 192)).toNat % 32 = m := by decide
  have hfollow : ∀ m < 32, ∀ n < 64, canFollow (.ofNat (m + 192)) (.ofNat (n + 128)) = true := by
    decide
  obtain ⟨ha, hbits⟩ := hlead m hm hlow
  simp only [utf8Step, ha, hfollow m hm n hn, hbits, bits6_ofNat n hn, if_true]

/-- Overlong forms and surrogates excepted. -/
theorem utf8Step_three {m n p : Nat} (hm : m < 16) (hn : n < 64) (hp : p < 64)
    (hlow : m = 0 → 32 ≤ n) (hsurrogate : m = 13 → n < 32) (rest : List UInt8) :
    utf8Step (.ofNat (m + 224)) (.ofNat (n + 128) :: .ofNat (p + 128) :: rest) =
      .char (.ofNat (m * 4096 + n * 64 + p)) rest := by
  have hlead : ∀ m < 16, announced (.ofNat (m + 224)) = some 3 ∧
      (UInt8.ofNat (m + 224)).toNat % 16 = m := by decide
  have hfollow : ∀ m < 16, ∀ n < 64, (m = 0 → 32 ≤ n) → (m = 13 → n < 32) →
      canFollow (.ofNat (m + 224)) (.ofNat (n + 128)) = true := by decide
  obtain ⟨ha, hbits⟩ := hlead m hm
  simp only [utf8Step, ha, hfollow m hm n hn hlow hsurrogate, isTail_ofNat p hp, hbits,
    bits6_ofNat n hn, bits6_ofNat p hp, if_true]

/-- Overlong forms and what lies beyond the last character excepted. -/
theorem utf8Step_four {m n p q : Nat} (hm : m < 5) (hn : n < 64) (hp : p < 64) (hq : q < 64)
    (hlow : m = 0 → 16 ≤ n) (hhigh : m = 4 → n < 16) (rest : List UInt8) :
    utf8Step (.ofNat (m + 240))
        (.ofNat (n + 128) :: .ofNat (p + 128) :: .ofNat (q + 128) :: rest) =
      .char (.ofNat (m * 262144 + n * 4096 + p * 64 + q)) rest := by
  have hlead : ∀ m < 5, announced (.ofNat (m + 240)) = some 4 ∧
      (UInt8.ofNat (m + 240)).toNat % 8 = m := by decide
  have hfollow : ∀ m < 5, ∀ n < 64, (m = 0 → 16 ≤ n) → (m = 4 → n < 16) →
      canFollow (.ofNat (m + 240)) (.ofNat (n + 128)) = true := by decide
  obtain ⟨ha, hbits⟩ := hlead m hm
  simp only [utf8Step, ha, hfollow m hm n hn hlow hhigh, isTail_ofNat p hp, isTail_ofNat q hq,
    hbits, bits6_ofNat n hn, bits6_ofNat p hp, bits6_ofNat q hq, if_true]

/-- Reading takes a character's bytes off and gives the character. -/
theorem utf8Step_utf8EncodeChar (c : Char) (rest : List UInt8) :
    ∃ a tail, String.utf8EncodeChar c = a :: tail ∧ utf8Step a (tail ++ rest) = .char c rest := by
  have hvalid : c.val.toNat < 0xd800 ∨ 0xdfff < c.val.toNat ∧ c.val.toNat < 0x110000 := c.valid
  have hc : Char.ofNat c.val.toNat = c := Char.ofNat_toNat c
  rw [String.utf8EncodeChar]
  generalize c.val.toNat = v at hvalid hc
  split
  · refine ⟨_, _, rfl, ?_⟩
    rw [List.nil_append, utf8Step_one (by omega), hc]
  · split
    · refine ⟨_, _, rfl, ?_⟩
      have hv : v / 64 % 32 * 64 + v % 64 = v := by omega
      rw [List.cons_append, List.nil_append, utf8Step_two (by omega) (by omega) (by omega), hv, hc]
    · split
      · refine ⟨_, _, rfl, ?_⟩
        have hv : v / 4096 % 16 * 4096 + v / 64 % 64 * 64 + v % 64 = v := by omega
        simp only [List.cons_append, List.nil_append]
        rw [utf8Step_three (by omega) (by omega) (by omega) (by omega) (by omega), hv, hc]
      · refine ⟨_, _, rfl, ?_⟩
        have hv : v / 262144 % 8 * 262144 + v / 4096 % 64 * 4096 + v / 64 % 64 * 64 + v % 64 = v := by
          omega
        simp only [List.cons_append, List.nil_append]
        rw [utf8Step_four (by omega) (by omega) (by omega) (by omega) (by omega) (by omega), hv, hc]

theorem decodeLossy_cons (a : UInt8) (r : List UInt8) :
    decodeLossy (a :: r) = match utf8Step a r with
      | .char c rest => c :: decodeLossy rest
      | .broken rest => '\uFFFD' :: decodeLossy rest := by
  rw [decodeLossy]
  split <;> simp_all

theorem decodeLossy_flatMap (cs : List Char) :
    decodeLossy (cs.flatMap String.utf8EncodeChar) = cs := by
  induction cs with
  | nil => rw [List.flatMap_nil, decodeLossy]
  | cons c cs ih =>
      obtain ⟨a, tail, hc, hstep⟩ := utf8Step_utf8EncodeChar c (cs.flatMap String.utf8EncodeChar)
      rw [List.flatMap_cons, hc, List.cons_append, decodeLossy_cons, hstep]
      exact congrArg (c :: ·) ih

theorem ofBytesLossy_toBytes (s : String) : ofBytesLossy (toBytes s) = s := by
  rw [ofBytesLossy, toBytes_eq, decodeLossy_flatMap, String.ofList_toList]

theorem length_le_of_decodeStrict {bytes : List UInt8} {cs : List Char}
    (h : decodeStrict bytes = some cs) : cs.length ≤ bytes.length := by
  fun_induction decodeStrict bytes generalizing cs with
  | case1 =>
    cases h
    exact Nat.le_refl 0
  | case2 a r c rest hstep hrest ih =>
    obtain ⟨ds, hds, rfl⟩ := Option.map_eq_some_iff.1 h
    exact Nat.succ_le_succ (Nat.le_trans (ih hds) hrest)
  | case3 => cases h

/-- A text has no more characters than bytes. -/
theorem length_le_of_ofBytes? {bytes : List UInt8} {s : String} (h : ofBytes? bytes = some s) :
    s.length ≤ bytes.length := by
  obtain ⟨cs, hcs, rfl⟩ := Option.map_eq_some_iff.1 h
  rw [String.length_ofList]
  exact length_le_of_decodeStrict hcs

end SoliditySession.Text
