import CoveFormat.FloatRounding
import CoveFormat.LookupKeys
import CoveFormat.LoweredFilters
import Mathlib.Data.Int.ConditionallyCompleteOrder

namespace CoveFormat.NumericComparisons

open ByteCodes CoveTypes ExprLowering Floats JsonValue LookupKeys LoweredFilters NumCodes Option

/-! What a code stands for, and what the operators ask. -/

def signedUnits (negative : Bool) (magnitude : Nat) : ℤ :=
  if negative then -(magnitude : ℤ) else magnitude

/-- The value of an `f32` that is not NaN, by its own bits. -/
def f32Number (bits : Nat) : Option Extended :=
  if f32IsNan bits then none
  else if f32IsInfinite bits then some (if 2 ^ 31 ≤ bits then ⊥ else ((⊤ : WithTop ℤ) : Extended))
  else
    let units := signedUnits (2 ^ 31 ≤ bits) (decodeUnits 23 (bits % 2 ^ 31) * 2 ^ f32UnitLog)
    some ((units : WithTop ℤ) : Extended)

/-- The number stored under a code; a NaN is none. -/
def storedNumber (logical : CoveLogicalType) (value : Nat) : Option Extended :=
  match logical with
  | .float32 => f32Number (value % 2 ^ 32)
  | .float64 => floatNumber value
  | _ =>
    match signedWidth logical, unsignedWidth logical with
    | some w, _ => some (whole (signed w value))
    | none, some w => some (whole (value % 2 ^ w : Nat))
    | none, none => some (whole value)

def related (op : NumericPredicateOp) : Option Extended → Option Extended → Bool
  | some a, some b => ordered (lowerOp op) a b
  | _, _ => false

theorem related_none (op : NumericPredicateOp) (a : Option Extended) : related op a none = false := by
  cases a <;> rfl

/-! The order of the keys is the order of the numbers. -/

section

variable {α β : Type} [LinearOrder α] [LinearOrder β] {f : α → β} {s : Set α} {a b : α}
  (op : LowerOperator)

theorem ordered_image (hf : StrictMonoOn f s) (ha : a ∈ s) (hb : b ∈ s) :
    ordered op (f a) (f b) = ordered op a b := by
  cases op <;>
    simp only [ordered, hf.lt_iff_lt ha hb, hf.lt_iff_lt hb ha, hf.le_iff_le ha hb,
      hf.le_iff_le hb ha, hf.injOn.eq_iff ha hb, ne_eq]

end

theorem whole_strictMono : StrictMono whole := by
  intro n m h
  rw [whole, whole, WithBot.coe_lt_coe, WithTop.coe_lt_coe]
  exact Int.mul_lt_mul_of_pos_right h f64One_pos

theorem compareNativeOrdered_eq (n : Int) (op : NumericPredicateOp) (m : Int) :
    compareNativeOrdered n op m = ordered (lowerOp op) (whole n) (whole m) := by
  rw [ordered_image _ (whole_strictMono.strictMonoOn Set.univ) (Set.mem_univ n) (Set.mem_univ m)]
  cases op <;> rfl

def keyNumber (key : Int) : Extended :=
  if (f64Infinity : Int) ≤ key then ((⊤ : WithTop ℤ) : Extended)
  else if key ≤ -(f64Infinity : Int) then ⊥
  else ((keyUnits key : WithTop ℤ) : Extended)

def keys : Set Int := Set.Icc (-(f64Infinity : Int)) f64Infinity

theorem keyNumber_strictMonoOn : StrictMonoOn keyNumber keys := by
  rintro a ⟨ha, ha'⟩ b ⟨hb, hb'⟩ h
  rw [keyNumber, if_neg (by omega)]
  by_cases hbottom : a ≤ -(f64Infinity : Int)
  · rw [if_pos hbottom, keyNumber]
    split
    · exact WithBot.bot_lt_coe _
    · rw [if_neg (by omega)]
      exact WithBot.bot_lt_coe _
  · rw [if_neg hbottom, keyNumber]
    split
    · exact WithBot.coe_lt_coe.mpr (WithTop.coe_lt_top _)
    · rw [if_neg (by omega)]
      exact WithBot.coe_lt_coe.mpr (WithTop.coe_lt_coe.mpr (keyUnits_strictMono h))

variable {bits : Nat}

theorem key_mem (hbits : bits < 2 ^ 64) (h : f64IsNan bits = false) : f64Key bits ∈ keys := by
  rw [f64IsNan_eq_false] at h
  rw [keys, Set.mem_Icc, f64Key, f64Infinity]
  split <;> omega

theorem floatNumber_eq (hbits : bits < 2 ^ 64) (h : f64IsNan bits = false) :
    floatNumber bits = some (keyNumber (f64Key bits)) := by
  rw [floatNumber, if_neg (Bool.eq_false_iff.mp h), keyNumber, keyUnits_f64Key hbits]
  have hnan := f64IsNan_eq_false.mp h
  by_cases hinfinite : f64IsInfinite bits = true
  · have hmagnitude := f64IsInfinite_iff.mp hinfinite
    rw [if_pos hinfinite, f64IsNegative, f64Key, f64Infinity]
    by_cases hnegative : 2 ^ 63 ≤ bits
    · rw [decide_eq_true hnegative, if_pos rfl, if_neg (show ¬ bits < 2 ^ 63 by omega),
        if_neg (by omega), if_pos (by omega)]
    · rw [decide_eq_false hnegative, if_neg Bool.false_ne_true, if_pos (show bits < 2 ^ 63 by omega),
        if_pos (by omega)]
  · have hmagnitude : ¬ bits % 2 ^ 63 = 0x7ff0000000000000 := by rwa [← f64IsInfinite_iff]
    rw [if_neg hinfinite, f64Key, f64Infinity]
    split
    · rw [if_neg (by omega), if_neg (by omega)]
    · rw [if_neg (by omega), if_neg (by omega)]

variable {left right : Nat}

theorem compareNativeFloats_eq_ordered (op : NumericPredicateOp) (hl : f64IsNan left = false)
    (hr : f64IsNan right = false) :
    compareNativeFloats left op right = ordered (lowerOp op) (f64Key left) (f64Key right) := by
  rw [compareNativeFloats, f64Compare, hl, hr]
  cases op <;>
    simp [ordered, lowerOp, compare_lt_iff_lt, compare_gt_iff_gt]

theorem compareNativeFloats_numbers (op : NumericPredicateOp) (hl : left < 2 ^ 64)
    (hr : right < 2 ^ 64) :
    compareNativeFloats left op right = related op (floatNumber left) (floatNumber right) := by
  cases hleft : f64IsNan left with
  | true => simp [compareNativeFloats, f64Compare, floatNumber, hleft, related]
  | false =>
    cases hright : f64IsNan right with
    | true =>
      rw [compareNativeFloats, f64Compare, hright, Bool.or_true, if_pos rfl, floatNumber_eq hl hleft,
        floatNumber, hright, if_pos rfl]
      rfl
    | false =>
      rw [compareNativeFloats_eq_ordered op hleft hright, floatNumber_eq hl hleft,
        floatNumber_eq hr hright, related,
        ordered_image _ keyNumber_strictMonoOn (key_mem hl hleft) (key_mem hr hright)]

theorem f32IsInfinite_iff : f32IsInfinite bits = true ↔ bits % 2 ^ 31 = f32Infinity :=
  beq_iff_eq

theorem floatNumber_widened (bits : Nat) :
    floatNumber (if f32IsNan bits then f64Nan else f64OfF32 bits) = f32Number bits := by
  rw [f32Number]
  by_cases hnan : f32IsNan bits = true
  · rw [if_pos hnan, if_pos hnan]
    rfl
  · rw [if_neg hnan, if_neg hnan]
    have hle : ¬ f32Infinity < bits % 2 ^ 31 := by rwa [f32IsNan, decide_eq_true_eq] at hnan
    by_cases hinfinite : f32IsInfinite bits = true
    · have hmagnitude := f32IsInfinite_iff.mp hinfinite
      rw [if_pos hinfinite, f64OfF32, hmagnitude, if_neg (Nat.lt_irrefl _)]
      split <;> rfl
    · have hmagnitude : ¬ bits % 2 ^ 31 = f32Infinity := by rwa [← f32IsInfinite_iff]
      have hfinite : f32IsFinite bits = true :=
          f32IsFinite_iff.mpr (by rw [f32Infinity] at hle hmagnitude; omega)
      obtain ⟨hlt, hdecode⟩ := widened_magnitude (f32IsFinite_iff.mp hfinite)
      rw [f64Infinity] at hlt
      rw [if_neg hinfinite, f64OfF32_finite hfinite]
      generalize encodeUnits 52 0 (decodeUnits 23 (bits % 2 ^ 31) * 2 ^ f32UnitLog) = wide at hlt hdecode ⊢
      rw [← hdecode, floatNumber, f64IsNan, f64IsInfinite, f64Units, f64IsNegative, f64Magnitude, f64Infinity]
      by_cases hnegative : 2 ^ 31 ≤ bits
      · rw [if_pos hnegative, decide_eq_false (by omega), if_neg Bool.false_ne_true,
          if_neg (by rw [beq_iff_eq]; omega), decide_eq_true (by omega), if_pos rfl,
          show (2 ^ 63 + wide) % 2 ^ 63 = wide by omega, decide_eq_true hnegative]
        simp only [signedUnits, if_true]
      · rw [if_neg hnegative, decide_eq_false (by omega), if_neg Bool.false_ne_true,
          if_neg (by rw [beq_iff_eq]; omega), decide_eq_false (by omega), if_neg Bool.false_ne_true,
          show (0 + wide) % 2 ^ 63 = wide by omega, decide_eq_false hnegative]
        simp only [signedUnits, Bool.false_eq_true, if_false]

theorem units_strictMono : StrictMono fun n : Int => n * f64One :=
  fun _ _ h => Int.mul_lt_mul_of_pos_right h f64One_pos

variable {low high n : Int}

theorem compareNativeIntFloatLiteral_finite {literal : Nat} (op : NumericPredicateOp)
    (hlow : low ≤ n) (hhigh : n < high) (hrange : ∀ m, low ≤ m → m < high → m.natAbs ≤ 2 ^ 64)
    (hliteral : literal < 2 ^ 64) (hfinite : f64IsFinite literal = true) :
    compareNativeIntFloatLiteral low high n op literal =
      ordered (lowerOp op) (n * f64One) (f64Units literal) := by
  have hone := f64One_pos
  have hmono {m k : Int} (h : m ≤ k) : m * f64One ≤ k * f64One := units_strictMono.monotone h
  rw [compareNativeIntFloatLiteral, hfinite]
  cases hexact : f64ToIntExact low high literal with
  | some m =>
    have hunits := (f64ToIntExact_eq_some.mp hexact).1.2.1
    have himage := ordered_image (lowerOp op) (units_strictMono.strictMonoOn Set.univ)
      (Set.mem_univ n) (Set.mem_univ m)
    rw [hunits, himage]
    cases op <;> rfl
  | none =>
    by_cases hbelow : f64Units literal < low * f64One
    · have hn := Int.lt_of_lt_of_le hbelow (hmono hlow)
      simp only [Bool.not_true, Bool.false_eq_true, if_false, if_pos hbelow]
      cases op <;> simp [belowAll, ordered, lowerOp] <;> omega
    · by_cases habove : high * f64One ≤ f64Units literal
      · have hn := Int.lt_of_lt_of_le (units_strictMono hhigh) habove
        simp only [Bool.not_true, Bool.false_eq_true, if_false, if_neg hbelow, if_pos habove]
        cases op <;> simp [aboveAll, ordered, lowerOp] at hn ⊢ <;> omega
      · -- The literal is in the range, so it is not whole.
        have hfraction (m : Int) : f64Units literal ≠ m * f64One := by
          intro hunits
          have hm : low ≤ m ∧ m < high := by
            constructor
            · by_contra h
              exact hbelow (hunits ▸ units_strictMono (Int.not_le.mp h))
            · by_contra h
              exact habove (hunits ▸ hmono (Int.not_lt.mp h))
          have hkey := key_ofInt_eq (hrange m hm.1 hm.2) ((keyUnits_f64Key hliteral).trans hunits)
          have hnan := f64IsNan_of_finite hfinite
          have hcast := f64IsNan_of_finite (f64OfInt_finite (hrange m hm.1 hm.2)).2
          have hwhole : IsWhole literal m := ⟨hfinite, hunits, f64Compare_eq_iff.mpr ⟨⟨hcast, hnan⟩, hkey⟩⟩
          rw [f64ToIntExact_eq_some.mpr ⟨hwhole, hm⟩] at hexact
          cases hexact
        have hfloor : n ≤ f64Units literal / f64One ↔ n * f64One ≤ f64Units literal :=
          Int.le_ediv_iff_mul_le hone
        have hceil : -(-f64Units literal / f64One) ≤ n ↔ f64Units literal ≤ n * f64One := by
          rw [neg_le, Int.le_ediv_iff_mul_le hone, Int.neg_mul, neg_le_neg_iff]
        have hne := hfraction n
        simp only [Bool.not_true, Bool.false_eq_true, if_false, if_neg hbelow, if_neg habove]
        cases op <;>
          simp [compareNativeIntegerToFractionalBounds, ordered, lowerOp, hfloor, hceil] <;> omega

theorem floatNumber_finite (h : f64IsFinite bits = true) :
    floatNumber bits = some ((f64Units bits : WithTop ℤ) : Extended) := by
  have hfinite := f64IsFinite_iff.mp h
  have hinfinite : ¬ f64IsInfinite bits = true := by
    rw [f64IsInfinite_iff]
    omega
  rw [floatNumber, f64IsNan_of_finite h, if_neg Bool.false_ne_true, if_neg hinfinite]

theorem coe_strictMono : StrictMono fun n : ℤ => ((n : WithTop ℤ) : Extended) :=
  fun _ _ h => WithBot.coe_lt_coe.mpr (WithTop.coe_lt_coe.mpr h)

/-! Where the answer of the code is another. -/

/-- Every integer is on the side of the infinite literal that the operator asks for; the code does not
say so. -/
def BesideInfinity (op : NumericPredicateOp) (literal : PredicateLiteral) : Prop :=
  predicateNumber literal = some ((⊤ : WithTop ℤ) : Extended) ∧ (op = .lt ∨ op = .ltEq) ∨
    predicateNumber literal = some ⊥ ∧ (op = .gt ∨ op = .gtEq)

/-- The number stored is told from the literal in the operator's own terms. -/
def Parted {α : Type} [LinearOrder α] (op : NumericPredicateOp) (stored literal : α) : Prop :=
  match op with
  | .eq => stored ≠ literal
  | .lt | .gtEq => stored < literal
  | .ltEq | .gt => literal < stored

/-- The literal is cast to the float that is stored, though it is another number. -/
def RoundedOnto (stored : Option Extended) (op : NumericPredicateOp) (literal : PredicateLiteral) :
    Prop :=
  ∃ number original exact, stored = some number ∧ predicateLiteralAsF64 literal = some original ∧
    floatNumber original = some number ∧ predicateNumber literal = some exact ∧ Parted op number exact

def Misjudged (logical : CoveLogicalType) (value : Nat) (op : NumericPredicateOp)
    (literal : PredicateLiteral) : Prop :=
  if logical = .float32 ∨ logical = .float64 then RoundedOnto (storedNumber logical value) op literal
  else BesideInfinity op literal

section

variable {α : Type} [LinearOrder α] {a b m : α}

theorem ordered_rounded (op : NumericPredicateOp) (hle : a ≤ m → a ≤ b) (hge : m ≤ a → b ≤ a) :
    ordered (lowerOp op) a b = ordered (lowerOp op) a m ↔ ¬ (b = a ∧ Parted op a m) := by
  rcases lt_trichotomy a m with h | h | h
  · have hb := hle h.le
    rcases hb.eq_or_lt with heq | hlt
    · subst heq
      cases op <;> simp [ordered, lowerOp, Parted, h, h.le, h.ne, h.not_gt]
    · cases op <;>
        simp [ordered, lowerOp, h, h.le, h.ne, h.not_gt, h.not_ge, hlt, hlt.le, hlt.ne, hlt.ne',
          hlt.not_gt, hlt.not_ge]
  · subst h
    have hb := le_antisymm (hge le_rfl) (hle le_rfl)
    subst hb
    cases op <;> simp [Parted]
  · have hb := hge h.le
    rcases hb.eq_or_lt with heq | hlt
    · subst heq
      cases op <;> simp [ordered, lowerOp, Parted, h, h.le, h.ne', h.not_gt]
    · cases op <;>
        simp [ordered, lowerOp, h, h.le, h.ne', h.not_gt, h.not_ge, hlt, hlt.le, hlt.ne, hlt.ne',
          hlt.not_gt, hlt.not_ge]

end

theorem compareNativeIntFloatLiteral_iff (op : NumericPredicateOp) (hlow : low ≤ n)
    (hhigh : n < high) (hrange : ∀ m, low ≤ m → m < high → m.natAbs ≤ 2 ^ 64) (literal : UInt64) :
    compareNativeIntFloatLiteral low high n op literal.toNat =
        related op (some (whole n)) (predicateNumber (.float64 literal)) ↔
      ¬ BesideInfinity op (.float64 literal) := by
  by_cases hfinite : f64IsFinite literal.toNat = true
  · have himage := ordered_image (lowerOp op) (coe_strictMono.strictMonoOn Set.univ)
      (Set.mem_univ (n * f64One)) (Set.mem_univ (f64Units literal.toNat))
    have hplain : ¬ BesideInfinity op (.float64 literal) := by
      rw [BesideInfinity, predicateNumber, floatNumber_finite hfinite]
      rintro (⟨h, -⟩ | ⟨h, -⟩) <;> cases h
    rw [compareNativeIntFloatLiteral_finite op hlow hhigh hrange literal.toNat_lt hfinite,
      predicateNumber, floatNumber_finite hfinite, related, whole, ← himage]
    exact iff_of_true rfl hplain
  · rw [compareNativeIntFloatLiteral, Bool.eq_false_iff.mpr hfinite, Bool.not_false, if_pos rfl]
    by_cases hnan : f64IsNan literal.toNat = true
    · simp [BesideInfinity, predicateNumber, floatNumber, hnan, related]
    · have hinfinite := (f64_finite_or_infinite (Bool.eq_false_iff.mpr hnan)).resolve_left hfinite
      rw [BesideInfinity, predicateNumber, floatNumber, if_neg hnan, if_pos hinfinite]
      have hbot : (⊥ : Extended) < whole n := WithBot.bot_lt_coe _
      have htop : whole n < ⊤ := WithBot.coe_lt_coe.mpr (WithTop.coe_lt_top (n * f64One))
      split
      · cases op <;> simp [related, ordered, lowerOp, hbot, hbot.ne']
      · cases op <;> simp [related, ordered, lowerOp, htop, htop.ne]

variable {literal : PredicateLiteral}

theorem not_besideInfinity {op : NumericPredicateOp} {m : Int}
    (h : predicateNumber literal = some (whole m)) : ¬ BesideInfinity op literal := by
  rw [BesideInfinity, h]
  rintro (⟨h, -⟩ | ⟨h, -⟩) <;> cases h

theorem compareNativeSignedNumericValue_iff (hlow : -2 ^ 63 ≤ n) (hhigh : n < 2 ^ 63)
    (op : NumericPredicateOp) (literal : PredicateLiteral) :
    compareNativeSignedNumericValue n op literal = related op (some (whole n)) (predicateNumber literal) ↔
      ¬ BesideInfinity op literal := by
  cases literal with
  | int64 m =>
    refine iff_of_true ?_ (not_besideInfinity (m := m.toInt) rfl)
    exact compareNativeOrdered_eq n op m.toInt
  | uint64 m =>
    refine iff_of_true ?_ (not_besideInfinity (m := m.toNat) rfl)
    rw [compareNativeSignedNumericValue, compareNativeSignedUnsigned, predicateNumber, related,
      ← compareNativeOrdered_eq]
    split
    · cases op <;> simp [aboveAll, compareNativeOrdered] <;> omega
    · rfl
  | float64 bits =>
    exact compareNativeIntFloatLiteral_iff op hlow hhigh (fun m _ _ => by omega) bits

theorem compareNativeUnsignedNumericValue_iff {n : Nat} (h : n < 2 ^ 64) (op : NumericPredicateOp)
    (literal : PredicateLiteral) :
    compareNativeUnsignedNumericValue n op literal =
        related op (some (whole n)) (predicateNumber literal) ↔ ¬ BesideInfinity op literal := by
  cases literal with
  | int64 m =>
    refine iff_of_true ?_ (not_besideInfinity (m := m.toInt) rfl)
    rw [compareNativeUnsignedNumericValue, predicateNumber, related, ← compareNativeOrdered_eq]
    split
    · cases op <;> simp [belowAll, compareNativeOrdered] <;> omega
    · rfl
  | uint64 m =>
    refine iff_of_true ?_ (not_besideInfinity (m := m.toNat) rfl)
    exact compareNativeOrdered_eq n op m.toNat
  | float64 bits =>
    exact compareNativeIntFloatLiteral_iff op (by omega) (by omega) (fun m _ _ => by omega) bits

theorem cast_between {key : Int} (hkey : key ∈ keys) (hn : n.natAbs ≤ 2 ^ 64) :
    (keyNumber key ≤ whole n → keyNumber key ≤ keyNumber (f64Key (f64OfInt n))) ∧
      (whole n ≤ keyNumber key → keyNumber (f64Key (f64OfInt n)) ≤ keyNumber key) := by
  obtain ⟨hcast, hfinite⟩ := f64OfInt_finite hn
  have hmem := key_mem hcast (f64IsNan_of_finite hfinite)
  rw [keyNumber_strictMonoOn.le_iff_le hkey hmem, keyNumber_strictMonoOn.le_iff_le hmem hkey]
  by_cases htop : (f64Infinity : Int) ≤ key
  · refine ⟨fun h => ?_, fun _ => hmem.2.trans htop⟩
    rw [keyNumber, if_pos htop, whole] at h
    exact absurd (WithBot.coe_le_coe.mp h) (WithTop.coe_lt_top _).not_ge
  · by_cases hbottom : key ≤ -(f64Infinity : Int)
    · refine ⟨fun _ => hbottom.trans hmem.1, fun h => ?_⟩
      rw [keyNumber, if_neg htop, if_pos hbottom, whole] at h
      exact absurd h (WithBot.bot_lt_coe _).not_ge
    · rw [keyNumber, if_neg htop, if_neg hbottom, whole, coe_strictMono.le_iff_le,
        coe_strictMono.le_iff_le]
      exact ⟨le_key_ofInt hn, key_ofInt_le hn⟩

theorem float_integer_iff (op : NumericPredicateOp) (hbits : bits < 2 ^ 64) (hn : n.natAbs ≤ 2 ^ 64)
    (hcast : predicateLiteralAsF64 literal = some (f64OfInt n))
    (hliteral : predicateNumber literal = some (whole n)) :
    compareNativeTypedNumericValue (.float bits) op literal =
        related op (floatNumber bits) (predicateNumber literal) ↔
      ¬ RoundedOnto (floatNumber bits) op literal := by
  obtain ⟨hlt, hfinite⟩ := f64OfInt_finite hn
  have hnumber := floatNumber_eq hlt (f64IsNan_of_finite hfinite)
  simp only [compareNativeTypedNumericValue, hcast, compareNativeFloats_numbers op hbits hlt, hnumber,
    hliteral, RoundedOnto, some.injEq]
  by_cases hnan : f64IsNan bits = true
  · simp [floatNumber, hnan, related]
  · have hnan' := Bool.eq_false_iff.mpr hnan
    obtain ⟨hle, hge⟩ := cast_between (key_mem hbits hnan') hn
    rw [floatNumber_eq hbits hnan', related, related, ordered_rounded op hle hge, not_iff_not]
    constructor
    · rintro ⟨heq, hparted⟩
      exact ⟨_, _, _, rfl, rfl, hnumber.trans (congrArg some heq), rfl, hparted⟩
    · rintro ⟨_, _, _, ⟨⟩, rfl, heq, rfl, hparted⟩
      rw [hnumber, some.injEq] at heq
      exact ⟨heq, hparted⟩

theorem compareNativeTypedFloat_iff (hbits : bits < 2 ^ 64) (op : NumericPredicateOp)
    (literal : PredicateLiteral) :
    compareNativeTypedNumericValue (.float bits) op literal =
        related op (floatNumber bits) (predicateNumber literal) ↔
      ¬ RoundedOnto (floatNumber bits) op literal := by
  cases literal with
  | int64 m =>
    have hlow := m.le_toInt
    have hhigh := m.toInt_lt
    exact float_integer_iff op hbits (by omega) rfl rfl
  | uint64 m =>
    have hhigh := m.toNat_lt
    exact float_integer_iff op hbits (by omega) (congrArg some (f64OfInt_natCast _).symm) rfl
  | float64 literal =>
    refine iff_of_true ?_ ?_
    · by_cases hnan : f64IsNan literal.toNat = true
      · have hnone : floatNumber literal.toNat = none := if_pos hnan
        simp only [compareNativeTypedNumericValue, predicateLiteralAsF64, predicateNumber, if_pos hnan,
          hnone, related_none]
      · simp only [compareNativeTypedNumericValue, predicateLiteralAsF64, if_neg hnan, predicateNumber]
        exact compareNativeFloats_numbers op hbits literal.toNat_lt
    · rintro ⟨a, original, exact, -, horiginal, ha, hexact, hparted⟩
      rw [predicateLiteralAsF64, ite_none_left_eq_some, some.injEq] at horiginal
      rw [predicateNumber, horiginal.2, ha, some.injEq] at hexact
      rw [hexact] at hparted
      cases op <;> simp [Parted] at hparted

variable {logical : CoveLogicalType} {w value : Nat}

theorem stored_signed (h : signedWidth logical = some w) :
    storedNumber logical value = some (whole (signed w value)) := by
  cases logical <;> cases h <;> rfl

theorem stored_unsigned (h : unsignedWidth logical = some w) :
    storedNumber logical value = some (whole (value % 2 ^ w : Nat)) := by
  cases logical <;> cases h <;> rfl

variable {typed : NativeTypedNumericValue}

theorem compareNativeTypedInteger_iff (h32 : logical ≠ .float32) (h64 : logical ≠ .float64)
    (htyped : typedNativeNumcodeValue logical value = some typed) (op : NumericPredicateOp)
    (literal : PredicateLiteral) :
    compareNativeTypedNumericValue typed op literal =
        related op (storedNumber logical value) (predicateNumber literal) ↔
      ¬ BesideInfinity op literal := by
  cases hs : signedWidth logical with
  | some w =>
    have hbounds := wide_bounds (signedWidth_le hs).2 (signed_bounds w value)
    obtain rfl := some.inj ((typed_signed hs).symm.trans htyped)
    rw [stored_signed hs]
    exact compareNativeSignedNumericValue_iff hbounds.1 hbounds.2 op literal
  | none =>
    cases hu : unsignedWidth logical with
    | some w =>
      have hlt := Nat.mod_lt value (Nat.two_pow_pos w)
      have hle := Nat.pow_le_pow_right Nat.two_pos (unsignedWidth_le hu)
      obtain rfl := some.inj ((typed_unsigned hu).symm.trans htyped)
      rw [stored_unsigned hu]
      exact compareNativeUnsignedNumericValue_iff (Nat.lt_of_lt_of_le hlt hle) op literal
    | none =>
      have hbool : logical = .bool := by
        cases logical <;> simp_all [typedNativeNumcodeValue, signedWidth, unsignedWidth]
      subst hbool
      have hvalue : value < 2 ^ 64 ∧ typed = .unsigned value := by
        rw [typedNativeNumcodeValue] at htyped
        split at htyped
        · rename_i hzero
          cases htyped
          exact ⟨by omega, by rw [hzero]⟩
        · split at htyped
          · rename_i hone
            cases htyped
            exact ⟨by omega, by rw [hone]⟩
          · cases htyped
      rw [hvalue.2]
      exact compareNativeUnsignedNumericValue_iff hvalue.1 op literal

theorem compareNativeTypedNumericValue_iff {value : UInt64}
    (htyped : typedNativeNumcodeValue logical value.toNat = some typed) (op : NumericPredicateOp)
    (literal : PredicateLiteral) :
    compareNativeTypedNumericValue typed op literal =
        related op (storedNumber logical value.toNat) (predicateNumber literal) ↔
      ¬ Misjudged logical value.toNat op literal := by
  have hfloat (bits : Nat) (hbits : bits < 2 ^ 64) := compareNativeTypedFloat_iff hbits op literal
  rw [Misjudged]
  by_cases h32 : logical = .float32
  · subst h32
    rw [typedNativeNumcodeValue, some.injEq] at htyped
    rw [if_pos (.inl rfl), ← htyped, storedNumber, ← floatNumber_widened]
    refine hfloat _ ?_
    split
    · decide
    · exact f64OfF32_lt
  · by_cases h64 : logical = .float64
    · subst h64
      have hnan : floatNumber value.toNat =
          floatNumber (if f64IsNan value.toNat then f64Nan else value.toNat) := by
        split
        · rename_i h
          rw [floatNumber, if_pos h]
          rfl
        · rfl
      rw [typedNativeNumcodeValue, some.injEq] at htyped
      rw [if_pos (.inr rfl), ← htyped, storedNumber, hnan]
      refine hfloat _ ?_
      split
      · decide
      · exact value.toNat_lt
    · rw [if_neg (not_or.mpr ⟨h32, h64⟩)]
      exact compareNativeTypedInteger_iff h32 h64 htyped op literal

/-- The answer is the relation of the numbers, but for an integer beside an infinite literal and a
float onto which an integer literal is rounded. -/
theorem compareNativeNumcodeValue_iff (logical : CoveLogicalType) (value : UInt64)
    (op : NumericPredicateOp) (literal : PredicateLiteral)
    (hnumeric : (typedNativeNumcodeValue logical value.toNat).isSome = true) :
    compareNativeNumcodeValue logical value.toNat op literal =
        some (related op (storedNumber logical value.toNat) (predicateNumber literal)) ↔
      ¬ Misjudged logical value.toNat op literal := by
  obtain ⟨typed, htyped⟩ := isSome_iff_exists.mp hnumeric
  rw [compareNativeNumcodeValue, htyped, map_some, some.injEq]
  exact compareNativeTypedNumericValue_iff htyped op literal

/-- The least float over 7 is told from the integer. -/
theorem compareNativeNumcodeValue_iff_fraction :
    compareNativeNumcodeValue .uint8 (7 : UInt64).toNat .ltEq (.float64 0x401c000000000001) =
      some (related .ltEq (storedNumber .uint8 (7 : UInt64).toNat)
        (predicateNumber (.float64 0x401c000000000001))) := by
  refine (compareNativeNumcodeValue_iff .uint8 7 .ltEq (.float64 0x401c000000000001)
    (by decide)).mpr ?_
  have hfinite : predicateNumber (.float64 0x401c000000000001) = some _ :=
    floatNumber_finite (by decide)
  rintro (⟨hinfinite, -⟩ | ⟨hinfinite, -⟩)
  all_goals
    rw [hfinite] at hinfinite
    cases hinfinite

theorem stored_two_pow_53 : storedNumber .float64 0x4340000000000000 = some (whole (2 ^ 53)) := by
  have hfinite : f64IsFinite 0x4340000000000000 = true := by decide
  have hbits : 0x4340000000000000 = 2 ^ 52 + (f64OneLog + 1) * 2 ^ 52 := by decide
  -- The exponent is a variable here: its power is too large to be computed.
  have hpower (e : Nat) : decodeUnits 52 (2 ^ 52 + (e + 1) * 2 ^ 52) = 2 ^ 53 * 2 ^ e := by
    have hsucc : 2 ^ (e + 1) = 2 * 2 ^ e := Nat.pow_succ'
    rw [decodeUnits_normal (Nat.le_refl _) (by decide), hsucc, ← Nat.mul_assoc]
    rfl
  have hdecode := (congrArg (decodeUnits 52) hbits).trans (hpower f64OneLog)
  have hunits : f64Units 0x4340000000000000 = 2 ^ 53 * f64One := by
    rw [f64Units, f64Magnitude, f64IsNegative, decide_eq_false (by decide), if_neg Bool.false_ne_true,
      Nat.mod_eq_of_lt (by decide), hdecode, Int.natCast_mul, f64One]
    rfl
  rw [storedNumber, floatNumber_finite hfinite, hunits, whole]

/-- `5 < inf` is denied, and `2 ^ 53` is taken for `2 ^ 53 + 1`. -/
theorem comparison_inexact :
    (compareNativeNumcodeValue .int64 5 .lt (.float64 0x7ff0000000000000) = some false ∧
      related .lt (storedNumber .int64 5) (predicateNumber (.float64 0x7ff0000000000000)) = true) ∧
    (compareNativeNumcodeValue .float64 0x4340000000000000 .eq (.int64 9007199254740993) = some true ∧
      related .eq (storedNumber .float64 0x4340000000000000)
        (predicateNumber (.int64 9007199254740993)) = false) := by
  refine ⟨⟨by decide, ?_⟩, by decide, ?_⟩
  · exact decide_eq_true (WithBot.coe_lt_coe.mpr (WithTop.coe_lt_top (5 * f64One)))
  · have hliteral : predicateNumber (.int64 9007199254740993) = some (whole 9007199254740993) := rfl
    rw [stored_two_pow_53, hliteral, related, ← compareNativeOrdered_eq]
    decide

end CoveFormat.NumericComparisons
