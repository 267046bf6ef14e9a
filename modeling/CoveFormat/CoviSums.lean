import CoveFormat.CoviIntegers
import CoveFormat.CoviBuildRuns

namespace CoveFormat.CoviSums

open AppendedRanges ByteCodes CheckedArith CoviAnswers CoviBuildRuns CoviBuilds CoviIntegers
  ExceptRules List OrderedMaps
open CoviPostings hiding normalizeRowRanges

variable {low high : Int} {keys : KeyPostingMap} {e : KeyRanges}

section

variable {κ : Type} [DecidableEq κ] {M : Type} [AddCommMonoid M]

theorem sum_map_count {distinct all : List κ} (hd : distinct.Nodup) (hmem : ∀ k, k ∈ distinct ↔ k ∈ all)
    (f : κ → M) :
    (distinct.map fun k => (all.filter fun x => x = k).length • f k).sum = (all.map f).sum := by
  have hsame : distinct.toFinset = all.toFinset := by
    ext k
    rw [List.mem_toFinset, List.mem_toFinset, hmem]
  rw [Finset.sum_list_map_count all f, ← hsame, sum_toFinset _ hd]
  refine congrArg List.sum (map_congr_left fun k _ => congrArg (· • f k) ?_)
  exact count_eq_length_filter.symm

variable {lo hi : Int} {payload : Bytes → Except CoveError Int} {f : Bytes → Int} {c : Bytes → Nat}
  {entries : List (Bytes × List CoviRowRangePostingV2)}

theorem addContributions (hpayload : ∀ e ∈ entries, payload e.1 = .ok (f e.1) ∧ lo ≤ f e.1 ∧ f e.1 ≤ hi)
    (hcount : ∀ e ∈ entries, rowCountForRanges e.2 = .ok (c e.1)) (hlo : lo ≤ 0) (hhi : 0 ≤ hi)
    (bound : Nat) (hbound : (entries.map fun e => c e.1).sum ≤ bound) (hlow : low ≤ lo * bound)
    (hhigh : hi * bound < high) (total : Int)
    (htotal : low ≤ total + lo * (entries.map fun e => c e.1).sum ∧
      total + hi * (entries.map fun e => c e.1).sum < high) :
    entries.foldlM (addContribution low high payload) total =
      .ok (total + (entries.map fun e => f e.1 * c e.1).sum) := by
  induction entries generalizing total with
  | nil => exact congrArg Except.ok (add_zero total).symm
  | cons e entries ih =>
    obtain ⟨⟨hvalue, hl, hh⟩, hpayload⟩ := forall_mem_cons.mp hpayload
    obtain ⟨hc, hcount⟩ := forall_mem_cons.mp hcount
    rw [map_cons, sum_cons] at hbound htotal
    rw [Nat.cast_add] at htotal
    set rest : Nat := (entries.map fun e => c e.1).sum
    have hcn : (0 : Int) ≤ c e.1 := Int.natCast_nonneg _
    have hrest : (0 : Int) ≤ rest := Int.natCast_nonneg _
    have hcb : (c e.1 : Int) ≤ bound := by exact_mod_cast (Nat.le_add_right _ _).trans hbound
    have hlower : lo * c e.1 ≤ f e.1 * c e.1 := mul_le_mul_of_nonneg_right hl hcn
    have hupper : f e.1 * c e.1 ≤ hi * c e.1 := mul_le_mul_of_nonneg_right hh hcn
    have hlobound : lo * bound ≤ lo * c e.1 := mul_le_mul_of_nonpos_left hcb hlo
    have hhibound : hi * c e.1 ≤ hi * bound := mul_le_mul_of_nonneg_left hcb hhi
    have hlorest : lo * rest ≤ 0 := mul_nonpos_of_nonpos_of_nonneg hlo hrest
    have hhirest : 0 ≤ hi * rest := mul_nonneg hhi hrest
    rw [mul_add, mul_add] at htotal
    have hstep : addContribution low high payload total e = .ok (total + f e.1 * c e.1) := by
      rw [addContribution, hvalue, hc]
      refine andThen_ok rfl (andThen_ok rfl ?_)
      refine andThen_eq_ok_iff.mpr ⟨f e.1 * c e.1, ?_, ?_⟩
      · exact rejectIf_andThen (by omega) rfl
      · exact rejectIf_andThen (by omega) rfl
    rw [foldlM_cons, hstep, map_cons, sum_cons, ← add_assoc]
    exact ih hpayload hcount ((Nat.le_add_left _ _).trans hbound) _ (by omega)

variable {rows : List KeyedRow}

theorem rowCounts_ok {ranges : List CoviRowRangePostingV2} {total : Nat}
    (h : total + (ranges.map fun range => range.rowCount).sum < 2 ^ 64) :
    ranges.foldlM (fun total range => checkedAdd total range.rowCount) total =
      .ok (total + (ranges.map fun range => range.rowCount).sum) := by
  induction ranges generalizing total with
  | nil => rfl
  | cons range ranges ih =>
    rw [map_cons, sum_cons, ← add_assoc] at h ⊢
    rw [foldlM_cons, checkedAdd, if_pos ((Nat.le_add_right _ _).trans_lt h)]
    exact ih h

theorem underKey_length (key : Bytes) :
    (underKey key rows).length = ((rows.map Prod.fst).filter fun k => k = key).length := by
  rw [underKey, length_map, filter_map, length_map]
  rfl

variable (h : Collected rows keys)
include h

theorem collected_rowCount (hone : ∀ row ∈ rows, row.2.rowCount = 1) (hfits : rows.length < 2 ^ 64)
    (he : e ∈ keys.entries) : rowCountForRanges e.2 = .ok (underKey e.1 rows).length := by
  have hget : keys.get e.1 = some e.2 := OrderedMap.mem_entries_iff.mp he
  have happended := h.appended e.1
  rw [hget, Option.getD_some] at happended
  have hones : ∀ range ∈ underKey e.1 rows, range.count = 1 := fun range hrange => by
    obtain ⟨row, hrow, rfl⟩ := mem_underKey hrange
    exact hone row hrow
  have hsum : (e.2.map fun range => range.rowCount).sum = (underKey e.1 rows).length := by
    calc (e.2.map fun range => range.rowCount).sum
        = ((e.2.map CoviRowRangePostingV2.range).map ScopedRanges.ScopedRange.count).sum := by
          rw [map_map]
          rfl
      _ = ((underKey e.1 rows).map ScopedRanges.ScopedRange.count).sum := by
          rw [sum_counts, sum_counts, happended.points_eq]
      _ = (underKey e.1 rows).length := by
          rw [map_congr_left hones, map_const', sum_replicate_nat, Nat.mul_one]
  have hle : (underKey e.1 rows).length < 2 ^ 64 := by
    rw [underKey, length_map]
    exact (length_filter_le _ _).trans_lt hfits
  rw [rowCountForRanges, rowCounts_ok (by rwa [Nat.zero_add, hsum]), Nat.zero_add, hsum]

theorem collected_sum {M : Type} [AddCommMonoid M] (f : Bytes → M) :
    (keys.entries.map fun e => (underKey e.1 rows).length • f e.1).sum =
      (rows.map fun row => f row.1).sum := by
  have hnodup : keys.keys.Nodup := keys.sorted.imp fun hlt => hlt.ne
  calc (keys.entries.map fun e => (underKey e.1 rows).length • f e.1).sum
      = (keys.keys.map fun key => ((rows.map Prod.fst).filter fun k => k = key).length • f key).sum := by
        rw [OrderedMap.keys, map_map]
        exact congrArg List.sum (map_congr_left fun e _ => congrArg (· • f e.1) (underKey_length e.1))
    _ = ((rows.map Prod.fst).map f).sum := sum_map_count hnodup h.mem_keys f
    _ = (rows.map fun row => f row.1).sum := by
        rw [map_map]
        rfl

end

section

abbrev PresentRow := Int × CoviRowRangePostingV2

variable {t : IntegerType} {present : List PresentRow} {sum : Option Bytes}

def keyed (t : IntegerType) (present : List PresentRow) : List KeyedRow :=
  present.map fun row => (keyOf t row.1, row.2)

def withNumber (value : Int) (present : List PresentRow) : List PresentRow :=
  present.map fun row => (value, row.2)

def sumOf (present : List PresentRow) : Int := (present.map Prod.fst).sum

def keyNumber (t : IntegerType) (key : Bytes) : Int :=
  payloadNumber t (key.drop (varint (integerTag t).code).length)

variable {value : Int}

theorem keyNumber_keyOf (h : Fits t value) : keyNumber t (keyOf t value) = value := by
  rw [keyNumber, keyOf, drop_taggedKey, payloadNumber_integerPayload h.sum]

section

variable (h : Collected (keyed t present) keys)
include h

theorem collected_key (he : e ∈ keys.entries) : ∃ row ∈ present, keyOf t row.1 = e.1 := by
  have hmem := (h.mem_keys e.1).mp (mem_map_of_mem he)
  rw [keyed, map_map] at hmem
  exact mem_map.mp hmem

theorem collected_nil_iff : keys.entries = [] ↔ present = [] := by
  constructor
  · intro hnil
    refine eq_nil_iff_forall_not_mem.mpr fun row hrow => ?_
    have hkeyed : (keyOf t row.1, row.2) ∈ keyed t present := mem_map.mpr ⟨row, hrow, rfl⟩
    have hmem := (h.mem_keys (keyOf t row.1)).mpr (mem_map.mpr ⟨_, hkeyed, rfl⟩)
    rw [OrderedMap.keys, hnil] at hmem
    cases hmem
  · rintro rfl
    refine eq_nil_iff_forall_not_mem.mpr fun e he => ?_
    obtain ⟨row, hrow, -⟩ := collected_key h he
    cases hrow

end

theorem keyed_length : (keyed t present).length = present.length := length_map _

theorem checkedIn_ok_iff {out : Int} :
    checkedIn low high value = .ok out ↔ (low ≤ value ∧ value < high) ∧ out = value := by
  rw [checkedIn, andThen_eq_ok_iff]
  constructor
  · rintro ⟨⟨⟩, hin, hout⟩
    have hin := of_rejectIf hin
    rw [not_or, not_lt, not_le] at hin
    exact ⟨hin, (Except.ok.inj hout).symm⟩
  · rintro ⟨⟨hl, hh⟩, rfl⟩
    exact ⟨(), rejectIf_ok (by rw [not_or, not_lt, not_le]; exact ⟨hl, hh⟩), rfl⟩

variable (hfits : ∀ row ∈ present, Fits t row.1)
include hfits

theorem addContributions_collected {lo hi : Int} {payload : Bytes → Except CoveError Int}
    (hone : ∀ row ∈ present, row.2.rowCount = 1) (hlength : present.length < 2 ^ 64)
    (h : Collected (keyed t present) keys)
    (hpayload : ∀ row ∈ present, payload (keyOf t row.1) = .ok row.1 ∧ lo ≤ row.1 ∧ row.1 ≤ hi)
    (hlo : lo ≤ 0) (hhi : 0 ≤ hi) (hlow : low ≤ lo * (2 ^ 64 - 1))
    (hhigh : hi * (2 ^ 64 - 1) < high) :
    keys.entries.foldlM (addContribution low high payload) 0 = .ok (sumOf present) := by
  have hones : ∀ row ∈ keyed t present, row.2.rowCount = 1 := forall_mem_map.mpr hone
  have hcounts : (keys.entries.map fun e => (underKey e.1 (keyed t present)).length).sum =
      present.length := by
    have hsum := collected_sum h fun _ => 1
    simp only [nsmul_eq_mul, Nat.cast_id, mul_one] at hsum
    rw [hsum, map_const', sum_replicate_nat, Nat.mul_one, keyed_length]
  have hbound : present.length ≤ 2 ^ 64 - 1 := Nat.le_sub_one_of_lt hlength
  have hnat : (present.length : Int) ≤ 2 ^ 64 - 1 := by omega
  have hlowest := mul_le_mul_of_nonpos_left hnat hlo
  have hhighest := mul_le_mul_of_nonneg_left hnat hhi
  have hrun : keys.entries.foldlM (addContribution low high payload) 0 = .ok (0 +
      (keys.entries.map fun e => keyNumber t e.1 * (underKey e.1 (keyed t present)).length).sum) :=
    addContributions (f := keyNumber t) (c := fun key => (underKey key (keyed t present)).length)
    (fun e he => by
      obtain ⟨row, hrow, hkey⟩ := collected_key h he
      rw [← hkey, keyNumber_keyOf (hfits row hrow)]
      exact hpayload row hrow)
    (fun e he => collected_rowCount h hones (by rwa [keyed_length]) he) hlo hhi (2 ^ 64 - 1)
    (hcounts.trans_le hbound) (by exact_mod_cast hlow) (by exact_mod_cast hhigh) 0 (by
      rw [hcounts, zero_add, zero_add]
      omega)
  rw [hrun, zero_add]
  refine congrArg Except.ok ?_
  have hsum := collected_sum h (keyNumber t)
  calc (keys.entries.map fun e => keyNumber t e.1 * (underKey e.1 (keyed t present)).length).sum
      = (keys.entries.map fun e => (underKey e.1 (keyed t present)).length * keyNumber t e.1).sum :=
        congrArg List.sum (map_congr_left fun e _ => mul_comm _ _)
    _ = ((keyed t present).map fun row => keyNumber t row.1).sum := hsum
    _ = sumOf present := by
        rw [keyed, map_map, sumOf]
        exact congrArg List.sum (map_congr_left fun row hrow => keyNumber_keyOf (hfits row hrow))

theorem indexOnlySum_ok_iff (hone : ∀ row ∈ present, row.2.rowCount = 1)
    (hlength : present.length < 2 ^ 64) (h : Collected (keyed t present) keys) :
    indexOnlySumPayloadFromKeys t keys = .ok sum ↔ FitsSum t (sumOf present) ∧
      sum = if present = [] then none else some (integerPayload (sumOf present)) := by
  rw [indexOnlySumPayloadFromKeys]
  by_cases hnil : present = []
  · rw [if_pos ((collected_nil_iff h).mpr hnil), if_pos hnil, hnil]
    have hzero : FitsSum t (sumOf []) := by
      rw [FitsSum, lowOf, highOf]
      cases t.isSigned <;> decide
    rw [and_iff_right hzero, Except.ok.injEq, eq_comm]
  · rw [if_neg (mt (collected_nil_iff h).mp hnil), if_neg hnil]
    have hnarrow (low high : Int) : (((checkedIn low high (sumOf present)) >>= fun total =>
        (.ok (some (integerPayload total)) : Except CoveError (Option Bytes))) = .ok sum) ↔
        (low ≤ sumOf present ∧ sumOf present < high) ∧ sum = some (integerPayload (sumOf present)) := by
      rw [andThen_eq_ok_iff]
      constructor
      · rintro ⟨total, htotal, hsum⟩
        obtain ⟨hin, rfl⟩ := checkedIn_ok_iff.mp htotal
        exact ⟨hin, (Except.ok.inj hsum).symm⟩
      · rintro ⟨hin, rfl⟩
        exact ⟨_, checkedIn_ok_iff.mpr ⟨hin, rfl⟩, rfl⟩
    have hnumber (row : PresentRow) (hrow : row ∈ present) :=
      payloadNumber_integerPayload (hfits row hrow).sum
    cases hs : t.isSigned
    · have hpayload : ∀ row ∈ present, unsignedU64PayloadFromKey (keyOf t row.1) = .ok row.1 ∧
          0 ≤ row.1 ∧ row.1 ≤ 2 ^ 64 - 1 := fun row hrow => by
        obtain ⟨hl, hh⟩ := (fitsSum_unsigned hs).mp (hfits row hrow).sum
        have htag : integerTag t = .uint64 := by rw [integerTag, hs]; rfl
        refine ⟨?_, hl, Int.le_sub_one_of_lt hh⟩
        rw [unsignedU64PayloadFromKey, ← htag, payloadFromKey_keyOf]
        exact congrArg Except.ok ((payloadNumber_unsigned hs _).symm.trans (hnumber row hrow))
      have hrun : keys.entries.foldlM (addContribution 0 (2 ^ 128) unsignedU64PayloadFromKey) 0 =
          .ok (sumOf present) :=
        addContributions_collected hfits hone hlength h hpayload le_rfl (by norm_num) (by norm_num)
          (by norm_num)
      rw [if_neg Bool.false_ne_true, indexOnlyUnsignedSumPayload, hrun, fitsSum_unsigned hs]
      exact hnarrow 0 (2 ^ 64)
    · have hpayload : ∀ row ∈ present, signedI64PayloadFromKey (keyOf t row.1) = .ok row.1 ∧
          -2 ^ 63 ≤ row.1 ∧ row.1 ≤ 2 ^ 63 - 1 := fun row hrow => by
        obtain ⟨hl, hh⟩ := (fitsSum_signed hs).mp (hfits row hrow).sum
        have htag : integerTag t = .int64 := by rw [integerTag, hs]; rfl
        refine ⟨?_, hl, Int.le_sub_one_of_lt hh⟩
        rw [signedI64PayloadFromKey, ← htag, payloadFromKey_keyOf]
        exact congrArg Except.ok ((payloadNumber_signed hs _).symm.trans (hnumber row hrow))
      have hrun : keys.entries.foldlM (addContribution (-2 ^ 127) (2 ^ 127) signedI64PayloadFromKey) 0 =
          .ok (sumOf present) :=
        addContributions_collected hfits hone hlength h hpayload (by norm_num) (by norm_num) (by norm_num)
          (by norm_num)
      rw [if_pos rfl, indexOnlySignedSumPayload, hrun, fitsSum_signed hs]
      exact hnarrow (-2 ^ 63) (2 ^ 63)

end

end CoveFormat.CoviSums
