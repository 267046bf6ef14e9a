import CoveFormat.BitPacked

namespace CoveFormat.ValidityBitmaps

open ByteCodes ExceptRules FixedFields CheckedArith BitPacked List Except

variable {n : Nat} {bytes : Bytes}

def onesBelow (n k : Nat) : Nat := (range k).countP n.testBit

theorem onesBelow_add (n j k : Nat) :
    onesBelow n (j + k) = onesBelow n j + onesBelow (n / 2 ^ j) k := by
  rw [onesBelow, range_add, countP_append, countP_map]
  congr 1
  apply countP_congr
  intro i _
  rw [Function.comp_apply, ← Nat.shiftRight_eq_div_pow, Nat.testBit_shiftRight]

variable {k : Nat}

theorem onesBelow_congr {m : Nat} (h : ∀ i < k, m.testBit i = n.testBit i) :
    onesBelow m k = onesBelow n k := by
  apply countP_congr
  intro i hi
  rw [h i (mem_range.mp hi)]

variable {j : Nat}

theorem onesBelow_mod (h : k ≤ j) : onesBelow (n % 2 ^ j) k = onesBelow n k := by
  apply onesBelow_congr
  intro i hi
  rw [Nat.testBit_mod_two_pow, decide_eq_true (show i < j by omega), Bool.true_and]

theorem onesBelow_mod_of_le (h : j ≤ k) : onesBelow (n % 2 ^ j) k = onesBelow n j := by
  obtain ⟨d, rfl⟩ := Nat.exists_eq_add_of_le h
  have hzero : onesBelow 0 d = 0 := by
    rw [onesBelow, countP_eq_zero]
    intro i _
    simp
  rw [onesBelow_add, Nat.div_eq_of_lt (Nat.mod_lt _ (by positivity)), hzero, Nat.add_zero,
    onesBelow_mod le_rfl]

theorem onesBelow_eq_zero_iff : onesBelow n k = 0 ↔ n % 2 ^ k = 0 := by
  rw [onesBelow, countP_eq_zero]
  constructor
  · intro h
    apply Nat.eq_of_testBit_eq
    intro i
    by_cases hi : i < k
    · simpa [hi] using h i (mem_range.mpr hi)
    · simp [hi]
  · intro h i hi
    have hbit := congrArg (Nat.testBit · i) h
    simpa [Nat.testBit_mod_two_pow, mem_range.mp hi] using hbit

variable {b : UInt8}

theorem leNat_getElem? (h : bytes[j]? = some b) : leNat bytes / 2 ^ (8 * j) % 2 ^ 8 = b.toNat := by
  obtain ⟨hj, rfl⟩ := List.getElem?_eq_some_iff.mp h
  have hlt := bytes[j].toNat_lt
  rw [← BitPackedPayload.pow_byte, ← leNat_drop, drop_eq_getElem_cons hj, leNat]
  omega

theorem testBit_leNat {i : Nat} (h : bytes[i / 8]? = some b) :
    (leNat bytes).testBit i = b.toNat.testBit (i % 8) := by
  rw [← leNat_getElem? h, Nat.testBit_mod_two_pow, decide_eq_true (Nat.mod_lt i (by decide)),
    Bool.true_and, ← Nat.shiftRight_eq_div_pow, Nat.testBit_shiftRight, Nat.div_add_mod]

theorem leNat_append_zeros (bytes : Bytes) (k : Nat) :
    leNat (bytes ++ replicate k 0) = leNat bytes := by
  have hzeros : leNat (replicate k 0) = 0 := by
    induction k with
    | zero => rfl
    | succ k ih => rw [replicate_succ, leNat, ih]; rfl
  rw [leNat_append, hzeros, Nat.mul_zero, Nat.add_zero]

/-- A view of a packed null bitmap: bit 1 means null, rows from the low bit of each byte on. -/
structure ValidityBitmap where
  bytes : Bytes
  rowCount : UInt64

namespace ValidityBitmap

variable (bm : ValidityBitmap)

def isNull (row : UInt64) : Except CoveError Bool := do
  rejectIf (bm.rowCount ≤ row) .offsetRange
  match bm.bytes[row.toNat / 8]? with
  | none => .error .offsetRange
  | some byte => .ok (byte >>> UInt8.ofNat (row.toNat % 8) &&& 1 == 1)

/-- `u64::count_ones`. -/
def countOnes (word : Nat) : Nat := onesBelow word 64

def readU64LeChecked (bytes : Bytes) (offset : Nat) : Except CoveError Nat := do
  rejectIf (bytes.length < offset + 8) .offsetRange
  .ok (readUint 8 bytes offset)

def countWords (bytes : Bytes) : List Nat → Nat → Except CoveError Nat
  | [], count => .ok count
  | wordIndex :: rest, count => do
      let word ← readU64LeChecked bytes (wordIndex * 8)
      countWords bytes rest (count + countOnes word)

def countTail (tail : Bytes) (tailBits : Nat) : Nat :=
  let word := leNat (tail ++ replicate (8 - tail.length) 0)
  let word := if tailBits < 64 then word &&& (1 <<< tailBits - 1) else word
  countOnes word

def nullCount : Except CoveError Nat := do
  let biased ← checkedAdd bm.rowCount.toNat 7
  let neededBytes := biased / 8
  rejectIf (bm.bytes.length < neededBytes) .bufferTooShort
  let fullWords := neededBytes / 8
  let count ← countWords bm.bytes (range fullWords) 0
  let tail := (bm.bytes.take neededBytes).drop (fullWords * 8)
  if tail.isEmpty then .ok count
  else .ok (count + countTail tail (bm.rowCount.toNat - fullWords * 64))

/-- The rows that read as null, one at a time. -/
def nullRows : Nat :=
  (range bm.rowCount.toNat).countP fun row => bm.isNull (UInt64.ofNat row) = .ok true

theorem shifted_bit (b : UInt8) {r : Nat} (h : r < 8) :
    (b >>> UInt8.ofNat r &&& 1 == 1) = b.toNat.testBit r := by
  have hr : (UInt8.ofNat r).toNat = r := toNat_ofNat_of_lt (by omega)
  rw [Bool.eq_iff_iff, beq_iff_eq, ← UInt8.toNat_inj, UInt8.toNat_and, UInt8.toNat_shiftRight, hr,
    Nat.mod_eq_of_lt h, Nat.testBit_eq_decide_div_mod_eq, decide_eq_true_eq,
    Nat.shiftRight_eq_div_pow]
  change _ &&& 2 ^ 1 - 1 = 1 ↔ _
  rw [Nat.and_two_pow_sub_one_eq_mod, pow_one]

variable {bm}

theorem isNull_of_lt {row : UInt64} (hrow : row < bm.rowCount) (hlen : row.toNat < 8 * bm.bytes.length) :
    bm.isNull row = .ok ((leNat bm.bytes).testBit row.toNat) := by
  have hbyte : bm.bytes[row.toNat / 8]? = some bm.bytes[row.toNat / 8] :=
    List.getElem?_eq_getElem (by omega)
  rw [testBit_leNat hbyte, ← shifted_bit _ (Nat.mod_lt row.toNat (by decide))]
  refine rejectIf_andThen (UInt64.not_le.mpr hrow) ?_
  rw [hbyte]

theorem nullRows_eq (h : bm.rowCount.toNat ≤ 8 * bm.bytes.length) :
    bm.nullRows = onesBelow (leNat bm.bytes) bm.rowCount.toNat := by
  apply countP_congr
  intro i hi
  have hlt := mem_range.mp hi
  have hmax := bm.rowCount.toNat_lt
  have hi' : (UInt64.ofNat i).toNat = i := by
    exact Nat.mod_eq_of_lt (by omega)
  have hrow : UInt64.ofNat i < bm.rowCount := by
    rw [UInt64.lt_iff_toNat_lt, hi']
    exact hlt
  rw [isNull_of_lt hrow (by omega), hi', decide_eq_true_eq, ok.injEq]

theorem countWords_append (bytes : Bytes) (xs ys : List Nat) (count : Nat) :
    countWords bytes (xs ++ ys) count = countWords bytes xs count >>= countWords bytes ys := by
  induction xs generalizing count with
  | nil => rfl
  | cons x xs ih =>
    rw [cons_append, countWords, countWords]
    cases readU64LeChecked bytes (x * 8) with
    | error e => rfl
    | ok word => exact ih (count + countOnes word)

theorem countWords_range {k : Nat} (h : 8 * k ≤ bytes.length) (count : Nat) :
    countWords bytes (List.range k) count = .ok (count + onesBelow (leNat bytes) (64 * k)) := by
  induction k with
  | zero => rfl
  | succ k ih =>
    have hread : readU64LeChecked bytes (k * 8) = .ok (leNat bytes / 2 ^ (64 * k) % 2 ^ 64) := by
      rw [readU64LeChecked, rejectIf, if_neg (by omega), readUint_eq, BitPackedPayload.pow_byte,
        show 8 * (k * 8) = 64 * k by omega]
      rfl
    rw [range_succ, countWords_append, ih (by omega)]
    change countWords bytes [k] _ = _
    rw [countWords, hread]
    change ok _ = _
    rw [countOnes, onesBelow_mod le_rfl, Nat.mul_succ, onesBelow_add, Nat.add_assoc]

theorem countTail_eq (tail : Bytes) {tailBits : Nat} (h : tailBits < 64) :
    countTail tail tailBits = onesBelow (leNat tail) tailBits := by
  have hmask : leNat tail &&& (1 <<< tailBits - 1) = leNat tail % 2 ^ tailBits := by
    rw [Nat.one_shiftLeft, Nat.and_two_pow_sub_one_eq_mod]
  rw [countTail]
  simp only [leNat_append_zeros, if_pos h, hmask]
  exact onesBelow_mod_of_le h.le

def countedRows (rows : Nat) : Nat :=
  if (rows + 7) / 8 % 8 = 0 then 8 * ((rows + 7) / 8) else rows

theorem onesBelow_tail {e j t : Nat} (h : j + t ≤ e) :
    onesBelow n j + onesBelow (n % 2 ^ e / 2 ^ j) t = onesBelow n (j + t) := by
  rw [← onesBelow_mod (n := n) (show j ≤ e by omega), ← onesBelow_add, onesBelow_mod h]

theorem nullCount_of_le (hmax : bm.rowCount.toNat + 7 < 2 ^ 64)
    (hlen : (bm.rowCount.toNat + 7) / 8 ≤ bm.bytes.length) :
    bm.nullCount = .ok (onesBelow (leNat bm.bytes) (countedRows bm.rowCount.toNat)) := by
  rw [nullCount]
  generalize bm.rowCount.toNat = n at *
  generalize hm : (n + 7) / 8 = m at *
  have hwords : countWords bm.bytes (List.range (m / 8)) 0 =
      .ok (onesBelow (leNat bm.bytes) (64 * (m / 8))) := by
    rw [countWords_range (by omega), Nat.zero_add]
  have htail : leNat ((bm.bytes.take m).drop (m / 8 * 8)) =
      leNat bm.bytes % 2 ^ (8 * m) / 2 ^ (64 * (m / 8)) := by
    rw [leNat_drop, leNat_take, BitPackedPayload.pow_byte, BitPackedPayload.pow_byte,
      show 8 * (m / 8 * 8) = 64 * (m / 8) by omega]
  have hempty : ((bm.bytes.take m).drop (m / 8 * 8)).isEmpty = decide (m % 8 = 0) := by
    rw [Bool.eq_iff_iff, isEmpty_iff_length_eq_zero, length_drop, length_take,
      min_eq_left hlen, decide_eq_true_eq]
    omega
  subst hm
  refine andThen_ok (checkedAdd_ok_iff.mpr ⟨hmax, rfl⟩)
    (rejectIf_andThen (not_lt.mpr hlen) (andThen_ok hwords ?_))
  simp only [hempty, countedRows]
  by_cases h : (n + 7) / 8 % 8 = 0
  · rw [if_pos (decide_eq_true h), if_pos h]
    congr 2
    omega
  · rw [if_neg (by simpa using h), if_neg h, countTail_eq _ (by omega), htail,
      onesBelow_tail (by omega)]
    congr 2
    omega

theorem nullCount_ok_iff {count : Nat} : bm.nullCount = .ok count ↔ bm.rowCount.toNat + 7 < 2 ^ 64 ∧
      (bm.rowCount.toNat + 7) / 8 ≤ bm.bytes.length ∧
      count = onesBelow (leNat bm.bytes) (countedRows bm.rowCount.toNat) := by
  constructor
  · intro h
    obtain ⟨hmax, hrest⟩ := of_checkedAdd h
    obtain ⟨hlen, _⟩ := of_check hrest
    have hlen := not_lt.mp (of_rejectIf hlen)
    rw [nullCount_of_le hmax hlen, ok.injEq] at h
    exact ⟨hmax, hlen, h.symm⟩
  · rintro ⟨hmax, hlen, rfl⟩
    exact nullCount_of_le hmax hlen

theorem countedRows_of_le (h : n % 64 ≤ 56) : countedRows n = n := by
  rw [countedRows]
  split <;> omega

theorem onesBelow_countedRows {byte : UInt8} (h : ¬ n % 64 ≤ 56) (hbyte : bytes[n / 8]? = some byte) :
    onesBelow (leNat bytes) (countedRows n) =
      onesBelow (leNat bytes) n + onesBelow (byte.toNat / 2 ^ (n % 8)) (8 - n % 8) := by
  have hrows : countedRows n = n + (8 - n % 8) := by
    rw [countedRows, if_pos (by omega)]
    omega
  have hlast : leNat bytes / 2 ^ n % 2 ^ (8 - n % 8) = byte.toNat / 2 ^ (n % 8) := by
    have hpow : 2 ^ 8 = 2 ^ (n % 8) * 2 ^ (8 - n % 8) := by
      rw [← pow_add]
      congr 1
      omega
    rw [← leNat_getElem? hbyte, hpow, Nat.mod_mul_right_div_self, Nat.div_div_eq_div_mul, ← pow_add,
      Nat.div_add_mod]
  rw [hrows, onesBelow_add, ← hlast, onesBelow_mod le_rfl]

/-- What the word-wise count adds to the row-wise one are the padding bits of a last byte that
completes a word. -/
theorem null_count_exact_iff (bm : ValidityBitmap) :
    (∀ count, bm.nullCount = .ok count → count = bm.nullRows) ↔
      bm.rowCount.toNat % 64 ≤ 56 ∨ 2 ^ 64 ≤ bm.rowCount.toNat + 7 ∨
        ∀ byte, bm.bytes[bm.rowCount.toNat / 8]? = some byte →
          byte.toNat / 2 ^ (bm.rowCount.toNat % 8) = 0 := by
  generalize hn : bm.rowCount.toNat = n
  by_cases hrows : n % 64 ≤ 56
  · refine iff_of_true (fun count h => ?_) (.inl hrows)
    obtain ⟨_, hlen, rfl⟩ := nullCount_ok_iff.mp h
    rw [nullRows_eq (by omega), hn, countedRows_of_le hrows]
  by_cases hmax : 2 ^ 64 ≤ n + 7
  · refine iff_of_true (fun count h => ?_) (.inr (.inl hmax))
    have hlt := (nullCount_ok_iff.mp h).1
    omega
  simp only [hrows, hmax, false_or]
  cases hbyte : bm.bytes[n / 8]? with
  | none =>
    -- the buffer does not reach the last rows
    have hshort := List.getElem?_eq_none_iff.mp hbyte
    refine iff_of_true (fun count h => ?_) nofun
    have hlen := (nullCount_ok_iff.mp h).2.1
    omega
  | some byte =>
    obtain ⟨hlt, _⟩ := List.getElem?_eq_some_iff.mp hbyte
    have hcount := @nullCount_of_le bm (by omega) (by omega)
    have hzero : byte.toNat / 2 ^ (n % 8) % 2 ^ (8 - n % 8) = byte.toNat / 2 ^ (n % 8) := by
      apply Nat.mod_eq_of_lt
      have hb := byte.toNat_lt
      rw [Nat.div_lt_iff_lt_mul (by positivity), ← pow_add]
      rwa [show 8 - n % 8 + n % 8 = 8 by omega]
    rw [hn, onesBelow_countedRows hrows hbyte] at hcount
    simp only [hcount, ok.injEq, forall_eq', Option.some.injEq]
    rw [nullRows_eq (by omega), hn, Nat.add_eq_left, onesBelow_eq_zero_iff, hzero]

theorem padding_counted_as_null :
    let bm : ValidityBitmap := ⟨replicate 8 0xff, 60⟩
    bm.nullCount = .ok 64 ∧ bm.nullRows = 60 := by
  decide +kernel

end ValidityBitmap

end CoveFormat.ValidityBitmaps
