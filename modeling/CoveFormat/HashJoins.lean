import CoveFormat.FilterKernels

namespace CoveFormat.HashJoins

open CheckedArith FilterKernels List SelectionBitmaps

variable {K : Type} [DecidableEq K]

structure NativeJoinBucket where
  (start len filled : Nat)

structure NativeInnerJoinPairs where
  (leftRows rightRows : List Nat)

/-- The order in which a hash map is iterated. -/
structure IterationOrder (K : Type) where
  iterate : List (K × Nat) → List (K × Nat)
  iterate_perm : ∀ entries, (iterate entries).Perm entries

/-- `*counts.entry(value).or_default() += 1`. -/
def bump (value : K) : List (K × Nat) → List (K × Nat)
  | [] => [(value, 1)]
  | (key, count) :: counts =>
    if key = value then (key, count + 1) :: counts else (key, count) :: bump value counts

def countValues (values : List K) (validity : ValidityRef) : List (K × Nat) :=
  values.zipIdx.foldl (fun counts row => if validity.isValid row.2 then bump row.1 counts else counts) []

abbrev Buckets (K : Type) := (K → Option NativeJoinBucket) × List Nat

def placeBucket (state : Buckets K) (entry : K × Nat) : Buckets K :=
  (Function.update state.1 entry.1 (some ⟨state.2.length, entry.2, 0⟩),
    state.2 ++ replicate entry.2 0)

def placeBuckets (counts : List (K × Nat)) : Buckets K :=
  counts.foldl placeBucket (fun _ => none, [])

/-- `right_row_ids.get_mut(slot)` and the write through it. -/
def writeSlot (ids : List Nat) (slot row : Nat) : Except CoveError (List Nat) :=
  if slot < ids.length then (rowId row).map (ids.set slot) else .error .pageCorrupt

def fillRow (state : Buckets K) (row : K × Nat) : Except CoveError (Buckets K) :=
  match state.1 row.1 with
  | none => .error .pageCorrupt
  | some bucket => do
      let slot ← checkedAdd bucket.start bucket.filled
      let ids ← writeSlot state.2 slot row.2
      .ok (Function.update state.1 row.1 (some { bucket with filled := bucket.filled + 1 }), ids)

def fillBuckets (values : List K) (validity : ValidityRef) (state : Buckets K) :
    Except CoveError (Buckets K) :=
  values.zipIdx.foldlM (fun state row => if validity.isValid row.2 then fillRow state row else .ok state)
    state

/-- `right_row_ids.get(start..end)`. -/
def sliceIds (ids : List Nat) (first stop : Nat) : Except CoveError (List Nat) :=
  if first ≤ stop ∧ stop ≤ ids.length then .ok ((ids.take stop).drop first) else .error .pageCorrupt

abbrev Joined := NativeInnerJoinPairs × KernelStats

def pushPairs (state : Joined) (leftRow : Nat) (rightMatches : List Nat) : Except CoveError Joined := do
  let matched ← checkedAdd state.2.rowsMatched rightMatches.length
  .ok (⟨state.1.leftRows ++ rightMatches.map fun _ => leftRow, state.1.rightRows ++ rightMatches⟩,
    { state.2 with rowsValid := state.2.rowsValid + 1, rowsMatched := matched })

def joinRow (buckets : Buckets K) (state : Joined) (row : K × Nat) : Except CoveError Joined :=
  match buckets.1 row.1 with
  | none => .ok (state.1, { state.2 with rowsValid := state.2.rowsValid + 1 })
  | some bucket => do
      let leftRow ← rowId row.2
      let stop ← checkedAdd bucket.start bucket.len
      let rightMatches ← sliceIds buckets.2 bucket.start stop
      pushPairs state leftRow rightMatches

section

/- `width` is `size_of::<K>()`. -/
variable (order : IterationOrder K) (width : Nat) (leftValues : List K) (leftValidity : ValidityRef)
  (rightValues : List K) (rightValidity : ValidityRef) (base : Option SelectionBitmap)

/-- Unchecked sums of `usize` wrap. -/
def estimate (ids : List Nat) : Nat :=
  ((leftValues.length + rightValues.length) * width + ids.length * 4) % 2 ^ 64

def joinRows (buckets : Buckets K) : Except CoveError Joined :=
  leftValues.zipIdx.foldlM
    (fun state row => if candidate base leftValidity row.2 then joinRow buckets state row else .ok state)
    (⟨[], []⟩, .start leftValues.length (estimate width leftValues rightValues buckets.2))

def innerJoinEq : Except CoveError Joined := do
  let counts := countValues rightValues rightValidity
  let buckets ← fillBuckets rightValues rightValidity (placeBuckets (order.iterate counts))
  let (pairs, stats) ← joinRows width leftValues leftValidity rightValues base buckets
  .ok (pairs, { stats with
    bytesTouchedEstimate := (stats.bytesTouchedEstimate + pairs.leftRows.length * 2 * 4) % 2 ^ 64 })

def nestedLoopJoin : List (Nat × Nat) :=
  (leftValues.zipIdx.filter fun left => candidate base leftValidity left.2).flatMap fun left =>
    ((rightValues.zipIdx.filter fun right => rightValidity.isValid right.2).filter
      fun right => right.1 = left.1).map fun right => (left.2, right.2)

end

/-! The rows of each value. -/

section

variable {value : K} {row : K × Nat} {rows : List (K × Nat)} {values : List K}
  {validity : ValidityRef}

def rowsOf (value : K) (rows : List (K × Nat)) : List Nat :=
  (rows.filter fun row => row.1 = value).map Prod.snd

def validRows (values : List K) (validity : ValidityRef) : List (K × Nat) :=
  values.zipIdx.filter fun row => validity.isValid row.2

theorem rowsOf_append (value : K) (rows rows' : List (K × Nat)) :
    rowsOf value (rows ++ rows') = rowsOf value rows ++ rowsOf value rows' := by
  rw [rowsOf, filter_append, map_append, rowsOf, rowsOf]

theorem rowsOf_self (row : K × Nat) : rowsOf row.1 [row] = [row.2] := by
  simp [rowsOf]

theorem rowsOf_other (h : row.1 ≠ value) : rowsOf value [row] = [] := by
  simp [rowsOf, h]

theorem mem_rowsOf {id : Nat} : id ∈ rowsOf value rows ↔ (value, id) ∈ rows := by
  rw [rowsOf, mem_map]
  constructor
  · rintro ⟨⟨value', id'⟩, hmem, rfl⟩
    obtain ⟨hmem, heq⟩ := mem_filter.mp hmem
    exact of_decide_eq_true heq ▸ hmem
  · intro hmem
    exact ⟨(value, id), mem_filter.mpr ⟨hmem, decide_eq_true rfl⟩, rfl⟩

theorem rowsOf_ne_nil (h : row ∈ rows) : rowsOf row.1 rows ≠ [] :=
  ne_nil_of_mem (mem_rowsOf.mpr h)

end

/-! Counting. -/

section

variable {keys : List K} {value : K} {seen : List (K × Nat)} {counts : List (K × Nat)}

theorem bump_map (count : K → Nat) (hkeys : keys.Nodup) :
    bump value (keys.map fun key => (key, count key)) =
      if value ∈ keys then keys.map fun key => (key, if key = value then count key + 1 else count key)
      else (keys.map fun key => (key, count key)) ++ [(value, 1)] := by
  induction keys with
  | nil => rfl
  | cons key keys ih =>
    obtain ⟨hkey, hkeys⟩ := nodup_cons.mp hkeys
    rw [map_cons, bump]
    by_cases heq : key = value
    · subst heq
      rw [if_pos rfl, if_pos mem_cons_self, map_cons, if_pos rfl]
      refine congrArg _ (map_congr_left fun key' hmem => ?_)
      rw [if_neg (ne_of_mem_of_not_mem hmem hkey)]
    · rw [if_neg heq, ih hkeys]
      by_cases hmem : value ∈ keys
      · rw [if_pos hmem, if_pos (mem_cons_of_mem _ hmem), map_cons, if_neg heq]
      · have hout : value ∉ key :: keys := by
          rw [mem_cons, not_or]
          exact ⟨Ne.symm heq, hmem⟩
        rw [if_neg hmem, if_neg hout]
        rfl

theorem sum_bump (counts : List (K × Nat)) :
    ((bump value counts).map Prod.snd).sum = (counts.map Prod.snd).sum + 1 := by
  induction counts with
  | nil => rfl
  | cons entry counts ih =>
    rw [bump]
    split
    · rw [map_cons, map_cons, sum_cons, sum_cons]
      omega
    · rw [map_cons, map_cons, sum_cons, sum_cons, ih]
      omega

/-- The counts of the rows seen, for the values that occur. -/
structure Counted (keys : List K) (seen counts : List (K × Nat)) : Prop where
  nodup : keys.Nodup
  mem : ∀ value, value ∈ keys ↔ rowsOf value seen ≠ []
  counts : counts = keys.map fun key => (key, (rowsOf key seen).length)

theorem Counted.bump (h : Counted keys seen counts) (row : K × Nat) :
    ∃ keys, Counted keys (seen ++ [row]) (bump row.1 counts) := by
  have hcounts := @bump_map _ _ _ row.1 (fun key => (rowsOf key seen).length) h.nodup
  rw [← h.counts] at hcounts
  have hlength (key : K) : (rowsOf key (seen ++ [row])).length =
      if key = row.1 then (rowsOf key seen).length + 1 else (rowsOf key seen).length := by
    rw [rowsOf_append, length_append]
    by_cases heq : key = row.1
    · rw [if_pos heq, heq, rowsOf_self, length_singleton]
    · rw [if_neg heq, rowsOf_other (Ne.symm heq), length_nil, Nat.add_zero]
  have hmem (value : K) :
      rowsOf value (seen ++ [row]) ≠ [] ↔ rowsOf value seen ≠ [] ∨ value = row.1 := by
    rw [← length_pos_iff, ← length_pos_iff, hlength]
    by_cases heq : value = row.1
    · rw [if_pos heq]
      exact iff_of_true (Nat.succ_pos _) (.inr heq)
    · rw [if_neg heq]
      exact (or_iff_left heq).symm
  by_cases hold : row.1 ∈ keys
  · rw [if_pos hold] at hcounts
    refine ⟨keys, h.nodup, fun value => ?_, ?_⟩
    · rw [hmem, ← h.mem]
      constructor
      · exact .inl
      · rintro (hmem | rfl)
        · exact hmem
        · exact hold
    · simp only [hcounts, hlength]
  · rw [if_neg hold] at hcounts
    refine ⟨keys ++ [row.1], ?_, fun value => ?_, ?_⟩
    · exact nodup_append_comm.mp (nodup_cons.mpr ⟨hold, h.nodup⟩)
    · rw [hmem, ← h.mem, mem_append, mem_singleton]
    · have hnew : rowsOf row.1 seen = [] := by
        by_contra hne
        exact hold ((h.mem _).mpr hne)
      have hmap : counts = keys.map fun key => (key, (rowsOf key (seen ++ [row])).length) := by
        refine h.counts.trans (map_congr_left fun key hkey => ?_)
        rw [hlength, if_neg (ne_of_mem_of_not_mem hkey hold)]
      rw [hcounts, map_append, map_singleton, ← hmap, hlength, if_pos rfl, hnew]
      rfl

theorem countValues_counted (rows : List (K × Nat)) (h : Counted keys seen counts) :
    ∃ keys, Counted keys (seen ++ rows)
      (rows.foldl (fun counts row => HashJoins.bump row.1 counts) counts) := by
  induction rows generalizing keys seen counts with
  | nil => exact ⟨keys, (append_nil seen).symm ▸ h⟩
  | cons row rows ih =>
    obtain ⟨keys', hrow⟩ := h.bump row
    have hrun := ih hrow
    rw [append_assoc, singleton_append] at hrun
    exact hrun

theorem sum_counts (rows counts : List (K × Nat)) :
    ((rows.foldl (fun counts row => bump row.1 counts) counts).map Prod.snd).sum =
      (counts.map Prod.snd).sum + rows.length := by
  induction rows generalizing counts with
  | nil => rfl
  | cons row rows ih =>
    rw [foldl_cons, ih, sum_bump, length_cons]
    omega

theorem Counted.iterate (h : Counted keys seen counts) (order : IterationOrder K) :
    Counted ((order.iterate counts).map Prod.fst) seen (order.iterate counts) := by
  have hperm := order.iterate_perm counts
  have hkeys : ((order.iterate counts).map Prod.fst).Perm keys := by
    refine (hperm.map Prod.fst).trans (List.Perm.of_eq ?_)
    rw [h.counts, map_map]
    exact map_id' keys
  refine ⟨hkeys.nodup_iff.mpr h.nodup, fun value => hkeys.mem_iff.trans (h.mem value), ?_⟩
  rw [map_map]
  refine (map_id' _).symm.trans (map_congr_left fun entry hentry => ?_)
  have hmem := hperm.mem_iff.mp hentry
  rw [h.counts, mem_map] at hmem
  obtain ⟨key, -, rfl⟩ := hmem
  rfl

end

/-! Placing and filling. -/

section

variable {keys : List K} {len starts : K → Nat} {size : Nat} {seen : List (K × Nat)}
  {state : Buckets K} {row : K × Nat}

/-- The slots of different values do not overlap. -/
structure Layout (keys : List K) (len starts : K → Nat) (size : Nat) : Prop where
  inside : ∀ key ∈ keys, starts key + len key ≤ size
  apart : ∀ key ∈ keys, ∀ key' ∈ keys, key ≠ key' →
    starts key + len key ≤ starts key' ∨ starts key' + len key' ≤ starts key

theorem Layout.concat {key : K} (h : Layout keys len starts size) (hkey : key ∉ keys) :
    Layout (keys ++ [key]) len (Function.update starts key size) (size + len key) := by
  have hold {key' : K} (hmem : key' ∈ keys) : Function.update starts key size key' = starts key' :=
    Function.update_of_ne (ne_of_mem_of_not_mem hmem hkey) _ _
  have hcases {key' : K} (hmem : key' ∈ keys ++ [key]) : key' ∈ keys ∨ key' = key := by
    rwa [mem_append, mem_singleton] at hmem
  constructor
  · intro key₁ h₁
    rcases hcases h₁ with h₁ | rfl
    · have := h.inside _ h₁
      rw [hold h₁]
      omega
    · rw [Function.update_self]
  · intro key₁ h₁ key₂ h₂ hne
    rcases hcases h₁ with hin₁ | hlast₁ <;> rcases hcases h₂ with hin₂ | hlast₂
    · rw [hold hin₁, hold hin₂]
      exact h.apart _ hin₁ _ hin₂ hne
    · rw [hold hin₁, hlast₂, Function.update_self]
      exact .inl (h.inside _ hin₁)
    · rw [hold hin₂, hlast₁, Function.update_self]
      exact .inr (h.inside _ hin₂)
    · exact absurd (hlast₁.trans hlast₂.symm) hne

theorem placeBuckets_layout (len : K → Nat) (hkeys : keys.Nodup) :
    ∃ starts, Layout keys len starts (placeBuckets (keys.map fun key => (key, len key))).2.length ∧
      ∀ key, (placeBuckets (keys.map fun key => (key, len key))).1 key =
        if key ∈ keys then some ⟨starts key, len key, 0⟩ else none := by
  induction keys using reverseRecOn with
  | nil => exact ⟨fun _ => 0, ⟨forall_mem_nil _, forall_mem_nil _⟩, fun _ => rfl⟩
  | append_singleton keys key ih =>
    obtain ⟨hkey, hkeys⟩ := nodup_cons.mp (nodup_append_comm.mp hkeys)
    obtain ⟨starts, hlayout, hbuckets⟩ := ih hkeys
    have hplace : placeBuckets ((keys ++ [key]).map fun key => (key, len key)) =
        placeBucket (placeBuckets (keys.map fun key => (key, len key))) (key, len key) := by
      rw [map_append, placeBuckets, List.foldl_append, ← placeBuckets]
      rfl
    rw [hplace]
    generalize placeBuckets (keys.map fun key => (key, len key)) = placed at hlayout hbuckets
    refine ⟨Function.update starts key placed.2.length, ?_, fun key' => ?_⟩
    · rw [placeBucket, length_append, length_replicate]
      exact hlayout.concat hkey
    · simp only [placeBucket]
      by_cases heq : key' = key
      · subst heq
        rw [Function.update_self, Function.update_self, if_pos (mem_append_right _ mem_cons_self)]
      · rw [Function.update_of_ne heq, Function.update_of_ne heq, hbuckets]
        simp [heq]

theorem length_placeBuckets (counts : List (K × Nat)) (state : Buckets K) :
    (counts.foldl placeBucket state).2.length = state.2.length + (counts.map Prod.snd).sum := by
  induction counts generalizing state with
  | nil => rfl
  | cons entry counts ih =>
    rw [foldl_cons, ih, placeBucket, length_append, length_replicate, map_cons,
      sum_cons]
    omega

/-- Each bucket is filled with the rows of its value that were seen. -/
structure Filled (keys : List K) (len starts : K → Nat) (size : Nat) (seen : List (K × Nat))
    (state : Buckets K) : Prop where
  bucket : ∀ key, state.1 key =
    if key ∈ keys then some ⟨starts key, len key, (rowsOf key seen).length⟩ else none
  length : state.2.length = size
  slots : ∀ key ∈ keys, ∀ i < (rowsOf key seen).length,
    state.2[starts key + i]? = (rowsOf key seen)[i]?

variable (h : Filled keys len starts size seen state)
include h

theorem fillRow_eq (hlayout : Layout keys len starts size) (hsize : size < 2 ^ 64)
    (hkey : row.1 ∈ keys) (hroom : (rowsOf row.1 seen).length < len row.1) :
    fillRow state row = (rowId row.2).map fun id =>
      (Function.update state.1 row.1
        (some ⟨starts row.1, len row.1, (rowsOf row.1 seen).length + 1⟩),
        state.2.set (starts row.1 + (rowsOf row.1 seen).length) id) := by
  have hinside := hlayout.inside _ hkey
  have hbucket := h.bucket row.1
  rw [if_pos hkey] at hbucket
  have hslot : starts row.1 + (rowsOf row.1 seen).length < state.2.length := by
    rw [h.length]
    omega
  have hlt : starts row.1 + (rowsOf row.1 seen).length < 2 ^ 64 := by omega
  simp only [fillRow, hbucket, checkedAdd, if_pos hlt, writeSlot, if_pos hslot, bind, Except.bind]
  cases rowId row.2 <;> rfl

theorem Filled.concat (hlayout : Layout keys len starts size) (hkey : row.1 ∈ keys)
    (hroom : ∀ key, (rowsOf key (seen ++ [row])).length ≤ len key) :
    Filled keys len starts size (seen ++ [row])
      (Function.update state.1 row.1 (some ⟨starts row.1, len row.1, (rowsOf row.1 seen).length + 1⟩),
        state.2.set (starts row.1 + (rowsOf row.1 seen).length) row.2) := by
  have hinside := hlayout.inside _ hkey
  have hlength := h.length
  have hlast := hroom row.1
  rw [rowsOf_append, rowsOf_self, length_append, length_singleton] at hlast
  refine ⟨fun key => ?_, ?_, fun key hmem i hi => ?_⟩
  · by_cases heq : key = row.1
    · subst heq
      simp only [Function.update_self, if_pos hkey, rowsOf_append, rowsOf_self, length_append,
        length_singleton]
    · simp only [Function.update_of_ne heq, h.bucket, rowsOf_append, rowsOf_other (Ne.symm heq),
        append_nil]
  · rw [length_set, h.length]
  · rw [rowsOf_append, length_append] at hi
    rw [List.getElem?_set, rowsOf_append]
    by_cases heq : key = row.1
    · subst heq
      rw [rowsOf_self, length_singleton] at hi
      rw [rowsOf_self]
      by_cases hnext : (rowsOf row.1 seen).length = i
      · subst hnext
        rw [if_pos rfl, if_pos (by omega), List.getElem?_append_right (Nat.le_refl _), Nat.sub_self]
        rfl
      · rw [if_neg (by omega), h.slots _ hmem _ (by omega), List.getElem?_append_left (by omega)]
    · have happart := hlayout.apart _ hmem _ hkey heq
      have hkeyroom := hroom key
      rw [rowsOf_append] at hkeyroom
      rw [rowsOf_other (Ne.symm heq), length_nil, Nat.add_zero] at hi
      rw [rowsOf_other (Ne.symm heq), append_nil] at hkeyroom ⊢
      rw [if_neg (by omega), h.slots _ hmem _ hi]

theorem fill_run {rows : List (K × Nat)} (hlayout : Layout keys len starts size)
    (hsize : size < 2 ^ 64) (hkeys : ∀ row ∈ rows, row.1 ∈ keys)
    (hroom : ∀ key, (rowsOf key (seen ++ rows)).length ≤ len key) :
    (∃ row ∈ rows, 2 ^ 32 ≤ row.2) ∧ rows.foldlM fillRow state = .error .arithOverflow ∨
    (∀ row ∈ rows, row.2 < 2 ^ 32) ∧ ∃ state', rows.foldlM fillRow state = .ok state' ∧
      Filled keys len starts size (seen ++ rows) state' := by
  induction rows generalizing seen state with
  | nil => exact .inr ⟨forall_mem_nil _, state, rfl, (append_nil seen).symm ▸ h⟩
  | cons row rows ih =>
    obtain ⟨hkey, hkeys⟩ := forall_mem_cons.mp hkeys
    have hassoc : seen ++ row :: rows = seen ++ [row] ++ rows := by
      rw [append_assoc, singleton_append]
    rw [hassoc] at hroom ⊢
    have hnext (key : K) : (rowsOf key (seen ++ [row])).length ≤ len key := by
      have := hroom key
      rw [rowsOf_append, length_append] at this
      omega
    have hlast := hnext row.1
    rw [rowsOf_append, rowsOf_self, length_append, length_singleton] at hlast
    rw [foldlM_cons, fillRow_eq h hlayout hsize hkey hlast, rowId]
    by_cases hid : row.2 < 2 ^ 32
    · rw [if_pos hid]
      rcases ih (h.concat hlayout hkey hnext) hkeys hroom with ⟨⟨far, hmem, hfar⟩, herror⟩ | ⟨hids, hok⟩
      · exact .inl ⟨⟨far, mem_cons_of_mem _ hmem, hfar⟩, herror⟩
      · exact .inr ⟨forall_mem_cons.mpr ⟨hid, hids⟩, hok⟩
    · rw [if_neg hid]
      exact .inl ⟨⟨row, mem_cons_self, Nat.le_of_not_lt hid⟩, rfl⟩

end

/-! Joining. -/

section

variable {rows right seen : List (K × Nat)} {row : K × Nat} {buckets : Buckets K} {state : Joined}

/-- What the first loops leave: the right rows of each value, under its bucket. -/
def Indexed (right : List (K × Nat)) (buckets : Buckets K) : Prop :=
  ∀ key,
    (rowsOf key right = [] ∧ buckets.1 key = none) ∨
    rowsOf key right ≠ [] ∧ ∃ start, buckets.1 key =
        some ⟨start, (rowsOf key right).length, (rowsOf key right).length⟩ ∧
      start + (rowsOf key right).length < 2 ^ 64 ∧
      sliceIds buckets.2 start (start + (rowsOf key right).length) = .ok (rowsOf key right)

theorem Filled.indexed {keys : List K} {starts : K → Nat} {size : Nat}
    (h : Filled keys (fun key => (rowsOf key right).length) starts size right buckets)
    (hlayout : Layout keys (fun key => (rowsOf key right).length) starts size) (hsize : size < 2 ^ 64)
    (hkeys : ∀ key, key ∈ keys ↔ rowsOf key right ≠ []) : Indexed right buckets := by
  intro key
  have hbucket := h.bucket key
  by_cases hkey : key ∈ keys
  · rw [if_pos hkey] at hbucket
    have hinside := hlayout.inside key hkey
    have hlength := h.length
    refine .inr ⟨(hkeys key).mp hkey, starts key, hbucket, by omega, ?_⟩
    rw [sliceIds, if_pos ⟨Nat.le_add_right _ _, by omega⟩]
    refine congrArg Except.ok (ext_getElem? fun i => ?_)
    by_cases hi : i < (rowsOf key right).length
    · rw [List.getElem?_drop, List.getElem?_take_of_lt (by omega), h.slots key hkey i hi]
    · rw [List.getElem?_eq_none (by rw [length_drop, length_take]; omega),
        List.getElem?_eq_none (by omega)]
  · rw [if_neg hkey] at hbucket
    exact .inl ⟨by_contra fun hne => hkey ((hkeys key).mpr hne), hbucket⟩

def pairsOf (left right : List (K × Nat)) : List (Nat × Nat) :=
  left.flatMap fun row => (rowsOf row.1 right).map fun id => (row.2, id)

def unzipped (pairs : List (Nat × Nat)) : NativeInnerJoinPairs :=
  ⟨pairs.map Prod.fst, pairs.map Prod.snd⟩

/-- The left rows so far with their pairs counted. -/
structure Paired (seen right : List (K × Nat)) (state : Joined) : Prop where
  pairs : state.1 = unzipped (pairsOf seen right)
  count : state.2.rowsMatched = (pairsOf seen right).length
  fits : (pairsOf seen right).length < 2 ^ 64

theorem pairsOf_append (left left' right : List (K × Nat)) :
    pairsOf (left ++ left') right = pairsOf left right ++ pairsOf left' right :=
  flatMap_append

theorem pairsOf_concat (seen right : List (K × Nat)) (row : K × Nat) :
    pairsOf (seen ++ [row]) right =
      pairsOf seen right ++ (rowsOf row.1 right).map fun id => (row.2, id) := by
  rw [pairsOf_append]
  exact congrArg _ (flatMap_singleton _ _)

theorem length_pairsOf_concat (seen right : List (K × Nat)) (row : K × Nat) :
    (pairsOf (seen ++ [row]) right).length = (pairsOf seen right).length + (rowsOf row.1 right).length := by
  rw [pairsOf_concat, length_append, length_map]

theorem Paired.concat (h : Paired seen right state) (row : K × Nat)
    (hfits : state.2.rowsMatched + (rowsOf row.1 right).length < 2 ^ 64) :
    Paired (seen ++ [row]) right (⟨state.1.leftRows ++ (rowsOf row.1 right).map fun _ => row.2,
        state.1.rightRows ++ rowsOf row.1 right⟩,
        { state.2 with
          rowsValid := state.2.rowsValid + 1
          rowsMatched := state.2.rowsMatched + (rowsOf row.1 right).length }) := by
  rw [h.count] at hfits
  refine ⟨?_, ?_, length_pairsOf_concat seen right row ▸ hfits⟩
  · have hids : (rowsOf row.1 right).map (Prod.snd ∘ fun id => (row.2, id)) = rowsOf row.1 right :=
      map_id' _
    rw [pairsOf_concat, unzipped, map_append, map_append, map_map, map_map, h.pairs,
      hids]
    rfl
  · rw [length_pairsOf_concat, ← h.count]

variable (hindexed : Indexed right buckets)
include hindexed

theorem joinRow_run (h : Paired seen right state) (row : K × Nat) :
    (2 ^ 32 ≤ row.2 ∧ rowsOf row.1 right ≠ [] ∨ 2 ^ 64 ≤ (pairsOf (seen ++ [row]) right).length) ∧
      joinRow buckets state row = .error .arithOverflow ∨
    (row.2 < 2 ^ 32 ∨ rowsOf row.1 right = []) ∧ ∃ state', joinRow buckets state row = .ok state' ∧
      Paired (seen ++ [row]) right state' := by
  rcases hindexed row.1 with ⟨hnone, hbucket⟩ | ⟨hne, start, hbucket, hstop, hslice⟩
  · have hconcat := h.concat row (by rw [hnone, h.count]; exact h.fits)
    rw [hnone, map_nil, append_nil, append_nil, length_nil, Nat.add_zero] at hconcat
    refine .inr ⟨.inr hnone, _, ?_, hconcat⟩
    simp only [joinRow, hbucket]
    rfl
  · have hstart : checkedAdd start (rowsOf row.1 right).length = .ok (start + (rowsOf row.1 right).length) :=
      if_pos hstop
    by_cases hid : row.2 < 2 ^ 32
    · have hrow : joinRow buckets state row = pushPairs state row.2 (rowsOf row.1 right) := by
        simp only [joinRow, hbucket, rowId, if_pos hid, hstart, hslice, bind, Except.bind]
      rw [hrow, pushPairs, h.count, length_pairsOf_concat, ← h.count, checkedAdd]
      by_cases hlt : state.2.rowsMatched + (rowsOf row.1 right).length < 2 ^ 64
      · rw [if_pos hlt]
        exact .inr ⟨.inl hid, _, rfl, h.concat row hlt⟩
      · rw [if_neg hlt]
        exact .inl ⟨.inr (Nat.le_of_not_lt hlt), rfl⟩
    · refine .inl ⟨.inl ⟨Nat.le_of_not_lt hid, hne⟩, ?_⟩
      simp only [joinRow, hbucket, rowId, if_neg hid, bind, Except.bind]

theorem joinRows_run (h : Paired seen right state) (rows : List (K × Nat)) :
    ((∃ row ∈ rows, 2 ^ 32 ≤ row.2 ∧ rowsOf row.1 right ≠ []) ∨
        2 ^ 64 ≤ (pairsOf (seen ++ rows) right).length) ∧
      rows.foldlM (joinRow buckets) state = .error .arithOverflow ∨
    (∀ row ∈ rows, row.2 < 2 ^ 32 ∨ rowsOf row.1 right = []) ∧
      ∃ state', rows.foldlM (joinRow buckets) state = .ok state' ∧ Paired (seen ++ rows) right state' := by
  induction rows generalizing seen state with
  | nil => exact .inr ⟨forall_mem_nil _, state, rfl, (append_nil seen).symm ▸ h⟩
  | cons row rows ih =>
    have hassoc : seen ++ row :: rows = seen ++ [row] ++ rows := by
      rw [append_assoc, singleton_append]
    rw [foldlM_cons, hassoc]
    rcases joinRow_run hindexed h row with ⟨hbad, herror⟩ | ⟨hrow, next, hnext, hpaired⟩
    · rw [herror]
      refine .inl ⟨?_, rfl⟩
      rcases hbad with hfar | hmany
      · exact .inl ⟨row, mem_cons_self, hfar⟩
      · refine .inr (hmany.trans ?_)
        rw [pairsOf_append _ rows, length_append]
        exact Nat.le_add_right _ _
    · rw [hnext]
      rcases ih hpaired with ⟨hbad, herror⟩ | ⟨hrows, hok⟩
      · refine .inl ⟨hbad.imp_left ?_, herror⟩
        rintro ⟨far, hmem, hfar⟩
        exact ⟨far, mem_cons_of_mem _ hmem, hfar⟩
      · exact .inr ⟨forall_mem_cons.mpr ⟨hrow, hrows⟩, hok⟩

end

/-! The join. -/

section

variable (order : IterationOrder K) (width : Nat) (leftValues : List K) (leftValidity : ValidityRef)
  (rightValues : List K) (rightValidity : ValidityRef) (base : Option SelectionBitmap)

theorem nestedLoopJoin_eq : nestedLoopJoin leftValues leftValidity rightValues rightValidity base =
      pairsOf (leftValues.zipIdx.filter fun left => candidate base leftValidity left.2)
        (validRows rightValues rightValidity) := by
  simp only [nestedLoopJoin, pairsOf, rowsOf, validRows, map_map]
  rfl

variable {order width leftValues leftValidity rightValues rightValidity base}

omit [DecidableEq K] in
theorem mem_validRows {row : K × Nat} : row ∈ validRows rightValues rightValidity ↔
    rightValues[row.2]? = some row.1 ∧ rightValidity.isValid row.2 = true := by
  rw [validRows, mem_filter, mem_zipIdx_iff_getElem?]

theorem mem_nestedLoopJoin {left right : Nat} :
    (left, right) ∈ nestedLoopJoin leftValues leftValidity rightValues rightValidity base ↔
      candidate base leftValidity left = true ∧ rightValidity.isValid right = true ∧
        ∃ value, leftValues[left]? = some value ∧ rightValues[right]? = some value := by
  rw [nestedLoopJoin_eq, pairsOf, mem_flatMap]
  constructor
  · rintro ⟨⟨value, row⟩, hmem, hpair⟩
    obtain ⟨id, hid, heq⟩ := mem_map.mp hpair
    obtain ⟨rfl, rfl⟩ := Prod.mk.inj heq
    obtain ⟨hleft, hcandidate⟩ := mem_filter.mp hmem
    obtain ⟨hright, hvalid⟩ := mem_validRows.mp (mem_rowsOf.mp hid)
    exact ⟨hcandidate, hvalid, value, mem_zipIdx_iff_getElem?.mp hleft, hright⟩
  · rintro ⟨hcandidate, hvalid, value, hleft, hright⟩
    exact ⟨(value, left), mem_filter.mpr ⟨mem_zipIdx_iff_getElem?.mpr hleft, hcandidate⟩,
      mem_map.mpr ⟨right, mem_rowsOf.mpr (mem_validRows.mpr ⟨hright, hvalid⟩), rfl⟩⟩

omit [DecidableEq K] in
theorem pairwise_zipIdx (values : List K) : values.zipIdx.Pairwise fun row row' => row.2 < row'.2 := by
  rw [← @pairwise_map _ _ _ (· < ·), zipIdx_map_snd]
  exact pairwise_lt_range'

theorem nestedLoopJoin_ordered :
    (nestedLoopJoin leftValues leftValidity rightValues rightValidity base).Pairwise fun pair pair' =>
      pair.1 < pair'.1 ∨ pair.1 = pair'.1 ∧ pair.2 < pair'.2 := by
  rw [nestedLoopJoin, pairwise_flatMap]
  constructor
  · intro left _
    rw [pairwise_map]
    exact (((pairwise_zipIdx rightValues).filter _).filter _).imp fun hlt => .inr ⟨rfl, hlt⟩
  · refine ((pairwise_zipIdx leftValues).filter _).imp fun hlt pair hpair pair' hpair' => ?_
    obtain ⟨row, -, rfl⟩ := mem_map.mp hpair
    obtain ⟨row', -, rfl⟩ := mem_map.mp hpair'
    exact .inl hlt

variable (leftValues leftValidity rightValues rightValidity base)

/-- A row id of the join past `u32`, or more pairs than can be counted. -/
def Overflows : Prop :=
  (∃ row ∈ validRows rightValues rightValidity, 2 ^ 32 ≤ row.2) ∨
  (∃ pair ∈ nestedLoopJoin leftValues leftValidity rightValues rightValidity base, 2 ^ 32 ≤ pair.1) ∨
  2 ^ 64 ≤ (nestedLoopJoin leftValues leftValidity rightValues rightValidity base).length

variable {leftValues leftValidity rightValues rightValidity base}

theorem index_run (order : IterationOrder K) (hslice : rightValues.length < 2 ^ 64) :
    (∃ row ∈ validRows rightValues rightValidity, 2 ^ 32 ≤ row.2) ∧
      fillBuckets rightValues rightValidity
        (placeBuckets (order.iterate (countValues rightValues rightValidity))) = .error .arithOverflow ∨
    (∀ row ∈ validRows rightValues rightValidity, row.2 < 2 ^ 32) ∧ ∃ buckets,
      fillBuckets rightValues rightValidity
        (placeBuckets (order.iterate (countValues rightValues rightValidity))) = .ok buckets ∧
      Indexed (validRows rightValues rightValidity) buckets := by
  have hcount : countValues rightValues rightValidity =
      (validRows rightValues rightValidity).foldl (fun counts row => bump row.1 counts) [] :=
    foldl_filter.symm
  have hfill (state : Buckets K) : fillBuckets rightValues rightValidity state =
      (validRows rightValues rightValidity).foldlM fillRow state :=
    foldlM_filter.symm
  have hlength : (validRows rightValues rightValidity).length ≤ rightValues.length :=
    (length_filter_le _ _).trans_eq length_zipIdx
  generalize validRows rightValues rightValidity = right at hcount hfill hlength ⊢
  have hnil : Counted ([] : List K) [] [] := ⟨nodup_nil, fun _ => iff_of_false nofun nofun, rfl⟩
  obtain ⟨keys, hcounted⟩ := countValues_counted right hnil
  have hordered := hcounted.iterate order
  have hsum := ((order.iterate_perm (countValues rightValues rightValidity)).map Prod.snd).sum_eq
  rw [← hcount, nil_append] at hordered
  rw [hfill]
  generalize order.iterate (countValues rightValues rightValidity) = counts at hordered hsum ⊢
  obtain ⟨starts, hlayout, hbuckets⟩ :=
    placeBuckets_layout (fun key => (rowsOf key right).length) hordered.nodup
  rw [← hordered.counts] at hlayout hbuckets
  have hsize : (placeBuckets counts).2.length < 2 ^ 64 := by
    rw [placeBuckets, length_placeBuckets, hsum, hcount, sum_counts]
    change 0 + (0 + right.length) < 2 ^ 64
    omega
  have hempty : Filled (counts.map Prod.fst) (fun key => (rowsOf key right).length) starts
      (placeBuckets counts).2.length [] (placeBuckets counts) :=
    ⟨hbuckets, rfl, fun _ _ _ hi => absurd hi (Nat.not_lt_zero _)⟩
  have hkeys : ∀ row ∈ right, row.1 ∈ counts.map Prod.fst := by
    intro row hrow
    exact (hordered.mem _).mpr (rowsOf_ne_nil hrow)
  rcases fill_run hempty hlayout hsize hkeys (fun _ => Nat.le_refl _) with h | ⟨hids, buckets, hok, hfilled⟩
  · exact .inl h
  · exact .inr ⟨hids, buckets, hok, hfilled.indexed hlayout hsize hordered.mem⟩

theorem innerJoinEq_run (order : IterationOrder K) (width : Nat) (hslice : rightValues.length < 2 ^ 64) :
    Overflows leftValues leftValidity rightValues rightValidity base ∧
      innerJoinEq order width leftValues leftValidity rightValues rightValidity base =
        .error .arithOverflow ∨
    ¬ Overflows leftValues leftValidity rightValues rightValidity base ∧ ∃ stats,
      innerJoinEq order width leftValues leftValidity rightValues rightValidity base =
        .ok (unzipped (nestedLoopJoin leftValues leftValidity rightValues rightValidity base), stats) := by
  rw [innerJoinEq, Overflows]
  rcases index_run order hslice with ⟨hfar, herror⟩ | ⟨hids, buckets, hok, hindexed⟩
  · rw [herror]
    exact .inl ⟨.inl hfar, rfl⟩
  · have hjoin : joinRows width leftValues leftValidity rightValues base buckets =
        (leftValues.zipIdx.filter fun left => candidate base leftValidity left.2).foldlM (joinRow buckets)
          (⟨[], []⟩, .start leftValues.length (estimate width leftValues rightValues buckets.2)) :=
      foldlM_filter.symm
    have hpairs := @nestedLoopJoin_eq _ _ leftValues leftValidity rightValues rightValidity base
    have hstart : Paired [] (validRows rightValues rightValidity)
        (⟨[], []⟩, .start leftValues.length (estimate width leftValues rightValues buckets.2)) :=
      ⟨rfl, rfl, Nat.two_pow_pos 64⟩
    rw [hok, hpairs]
    change _ ∧ Except.bind (joinRows width leftValues leftValidity rightValues base buckets) _ = _ ∨
      _ ∧ ∃ stats, Except.bind (joinRows width leftValues leftValidity rightValues base buckets) _ = _
    rw [hjoin]
    rcases joinRows_run hindexed hstart
        (leftValues.zipIdx.filter fun left => candidate base leftValidity left.2) with
      ⟨hbad, herror⟩ | ⟨hrows, state, hstate, hpaired⟩
    · rw [herror]
      refine .inl ⟨.inr (hbad.imp_left ?_), rfl⟩
      rintro ⟨row, hmem, hfar, hne⟩
      obtain ⟨id, hid⟩ := exists_mem_of_ne_nil _ hne
      exact ⟨(row.2, id), mem_flatMap.mpr ⟨row, hmem, mem_map_of_mem hid⟩, hfar⟩
    · rw [hstate]
      refine .inr ⟨?_, _, congrArg (fun pairs => Except.ok (pairs, _)) hpaired.pairs⟩
      rintro (⟨row, hmem, hfar⟩ | ⟨pair, hmem, hfar⟩ | hmany)
      · exact absurd (hids row hmem) (Nat.not_lt.mpr hfar)
      · obtain ⟨row, hrow, hpair⟩ := mem_flatMap.mp hmem
        obtain ⟨id, hid, rfl⟩ := mem_map.mp hpair
        rcases hrows row hrow with hlt | hnil
        · exact absurd hlt (Nat.not_lt.mpr hfar)
        · rw [hnil] at hid
          cases hid
      · exact absurd hpaired.fits (Nat.not_lt.mpr hmany)

end

/-- The hash join is the nested-loop join, in whatever order the counts are iterated. -/
theorem innerJoinEq_eq_nestedLoopJoin (width : Nat) (leftValues : List K) (leftValidity : ValidityRef)
    (rightValues : List K) (rightValidity : ValidityRef) (base : Option SelectionBitmap)
    (hslice : rightValues.length < 2 ^ 64) :
    (∀ order : IterationOrder K, (Overflows leftValues leftValidity rightValues rightValidity base →
        innerJoinEq order width leftValues leftValidity rightValues rightValidity base =
          .error .arithOverflow) ∧
      (¬ Overflows leftValues leftValidity rightValues rightValidity base →
        (innerJoinEq order width leftValues leftValidity rightValues rightValidity base).map Prod.fst =
          .ok (unzipped (nestedLoopJoin leftValues leftValidity rightValues rightValidity base)))) ∧
    (∀ left right,
      (left, right) ∈ nestedLoopJoin leftValues leftValidity rightValues rightValidity base ↔
        candidate base leftValidity left = true ∧ rightValidity.isValid right = true ∧
          ∃ value, leftValues[left]? = some value ∧ rightValues[right]? = some value) ∧
    (nestedLoopJoin leftValues leftValidity rightValues rightValidity base).Pairwise fun pair pair' =>
      pair.1 < pair'.1 ∨ pair.1 = pair'.1 ∧ pair.2 < pair'.2 := by
  refine ⟨fun order => ?_, fun _ _ => mem_nestedLoopJoin, nestedLoopJoin_ordered⟩
  rcases @innerJoinEq_run _ _ leftValues leftValidity rightValues rightValidity base order width hslice with
    ⟨hoverflows, herror⟩ | ⟨hfits, stats, hok⟩
  · exact ⟨fun _ => herror, fun hfits => absurd hoverflows hfits⟩
  · refine ⟨fun hoverflows => absurd hoverflows hfits, fun _ => ?_⟩
    rw [hok]
    rfl

def IterationOrder.reversed : IterationOrder K := ⟨List.reverse, List.reverse_perm⟩

theorem innerJoinEq_eq_nestedLoopJoin_sample :
    (innerJoinEq (IterationOrder.reversed : IterationOrder UInt32) 4 [7, 2, 2, 9] (.allValid 4) [2, 7, 2]
      (.allValid 3) none).map Prod.fst = .ok ⟨[0, 1, 1, 2, 2], [1, 0, 2, 0, 2]⟩ := by
  have h := (innerJoinEq_eq_nestedLoopJoin 4 [7, 2, 2, 9] (.allValid 4) [2, 7, 2] (.allValid 3) none
    (by decide)).1 (IterationOrder.reversed : IterationOrder UInt32)
  refine h.2 ?_
  rintro (hfar | hfar | hmany)
  · revert hfar
    decide
  · revert hfar
    decide
  · revert hmany
    decide

/-- The right side has a valid row whose id does not fit `u32`. -/
theorem join_overflows :
    innerJoinEq (IterationOrder.reversed : IterationOrder UInt32) 4 [] (.allValid 0)
      (List.replicate (2 ^ 32 + 1) 0)
      (.allValid (2 ^ 32 + 1)) none = .error .arithOverflow := by
  have hlength : (replicate (2 ^ 32 + 1) (0 : UInt32)).length = 2 ^ 32 + 1 := length_replicate
  generalize replicate (2 ^ 32 + 1) (0 : UInt32) = right at hlength ⊢
  have hlast : 2 ^ 32 < right.length := hlength ▸ Nat.lt_succ_self _
  have hvalid : (ValidityRef.allValid (2 ^ 32 + 1)).isValid (2 ^ 32) = true := by decide
  have hfar : (right[2 ^ 32], 2 ^ 32) ∈ validRows right (.allValid (2 ^ 32 + 1)) :=
    mem_validRows.mpr ⟨List.getElem?_eq_getElem hlast, hvalid⟩
  rcases @innerJoinEq_run _ _ [] (.allValid 0) right (.allValid (2 ^ 32 + 1)) none .reversed 4
    (by omega) with ⟨-, herror⟩ | ⟨hfits, -⟩
  · exact herror
  · exact absurd (.inl ⟨_, hfar, Nat.le_refl _⟩) hfits

end CoveFormat.HashJoins
