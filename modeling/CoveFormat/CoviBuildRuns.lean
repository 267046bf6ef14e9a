import CoveFormat.AppendedRanges
import CoveFormat.CoviAnswers

namespace CoveFormat.CoviBuildRuns

open AppendedRanges ByteCodes CheckedArith CoviBuilds Except ExceptRules List Option OrderedMaps
open CoviPostings hiding normalizeRowRanges
open ScopedRanges (ScopedRange Sorted)

section

variable {rows : List (ScopedRange RowScope)} {ranges out : List CoviRowRangePostingV2}
  {next : CoviRowRangePostingV2}

variable {last : CoviRowRangePostingV2}

theorem appendRowRange_concat {before : List CoviRowRangePostingV2} :
    appendRowRange (before ++ [last]) next = (do
      let lastEnd ← checkedAdd last.rowStart last.rowCount
      if last.scope = next.scope then
        if lastEnd = next.rowStart then do
          let rowCount ← checkedAdd last.rowCount next.rowCount
          .ok (before ++ [{ last with rowCount := rowCount }])
        else if next.rowStart < lastEnd then .error .badCovi
        else .ok (before ++ [last] ++ [next])
      else .ok (before ++ [last] ++ [next])) := by
  rw [appendRowRange, List.getLast?_concat]
  simp only [dropLast_concat]

theorem range_grow (hend : last.range.finish = next.rowStart) :
    CoviRowRangePostingV2.range { last with rowCount := last.rowCount + next.rowCount } =
      last.range.extendTo next.range.finish := by
  refine congrArg (ScopedRange.mk _ _) ?_
  have hsum : last.rowStart + last.rowCount = next.rowStart := hend
  show last.rowCount + next.rowCount = next.rowStart + next.rowCount - last.rowStart
  omega

section

variable (h : Appended rows (ranges.map CoviRowRangePostingV2.range))
include h

theorem appendRowRange_ok (hok : appendRowRange ranges next = .ok out) :
    Appended (rows ++ [next.range]) (out.map CoviRowRangePostingV2.range) := by
  rcases eq_nil_or_concat' ranges with rfl | ⟨before, last, rfl⟩
  · cases hok
    exact .push h fun _ hlast => absurd hlast (not_mem_none _)
  · rw [map_append, map_singleton] at h
    have hpush (hgap : Gap last.range next.range) : Appended (rows ++ [next.range])
        ((before ++ [last] ++ [next]).map CoviRowRangePostingV2.range) := by
      rw [map_append, map_append, map_singleton, map_singleton]
      refine .push h fun x hx => ?_
      rw [List.getLast?_concat] at hx
      exact some.inj hx ▸ hgap
    rw [appendRowRange_concat] at hok
    obtain ⟨-, hok⟩ := of_checkedAdd hok
    split at hok
    · rename_i hscope
      split at hok
      · rename_i hmeet
        obtain ⟨-, hok⟩ := of_checkedAdd hok
        cases hok
        rw [map_append, map_singleton, range_grow hmeet]
        exact .grow h hscope hmeet
      · rename_i hmeet
        split at hok
        · cases hok
        · rename_i hback
          cases hok
          exact hpush fun _ => lt_of_le_of_ne (not_lt.mp hback) hmeet
    · rename_i hscope
      cases hok
      exact hpush fun hsame => absurd hsame hscope

theorem exists_appendRowRange (hends : ∀ row ∈ rows, row.finish < 2 ^ 64)
    (hnext : next.range.finish < 2 ^ 64) (hchain : (rows ++ [next.range]).IsChain Follows) :
      ∃ out, appendRowRange ranges next = .ok out := by
  rcases eq_nil_or_concat' ranges with rfl | ⟨before, last, rfl⟩
  · exact ⟨_, rfl⟩
  · rw [map_append, map_singleton] at h
    obtain ⟨last', hlast'⟩ : ∃ last', last' ∈ rows.getLast? := by
      have heq := h.last_eq
      rw [List.getLast?_concat] at heq
      obtain ⟨last', hlast', -⟩ := map_eq_some_iff.mp heq.symm
      exact ⟨last', hlast'⟩
    obtain ⟨hscope', hfinish⟩ := h.follows List.getLast?_concat hlast'
    have hend : last.rowStart + last.rowCount < 2 ^ 64 :=
      hfinish.trans_lt (hends last' (mem_of_getLast? hlast'))
    obtain ⟨-, -, hfollows⟩ := isChain_append.mp hchain
    rw [appendRowRange_concat, checkedAdd, if_pos hend]
    simp only [bind, Except.bind]
    split
    · rename_i hscope
      have hle : last.rowStart + last.rowCount ≤ next.rowStart :=
        hfinish.trans_le (hfollows last' hlast' next.range rfl (hscope'.symm.trans hscope))
      split
      · rename_i hmeet
        have hsum : last.rowCount + next.rowCount < 2 ^ 64 := by
          have hfits : next.rowStart + next.rowCount < 2 ^ 64 := hnext
          omega
        rw [checkedAdd, if_pos hsum]
        exact ⟨_, rfl⟩
      · rw [if_neg (not_lt.mpr hle)]
        exact ⟨_, rfl⟩
    · exact ⟨_, rfl⟩

end

variable {added : List CoviRowRangePostingV2}

theorem appendRows_ok (hok : added.foldlM appendRowRange [] = .ok out) :
    Appended (added.map CoviRowRangePostingV2.range) (out.map CoviRowRangePostingV2.range) := by
  induction added using reverseRecOn generalizing out with
  | nil =>
    cases hok
    exact .nil
  | append_singleton added next ih =>
    rw [foldlM_append] at hok
    obtain ⟨ranges, hranges, hok⟩ := of_andThen hok
    obtain ⟨out', hout, hok⟩ := of_andThen hok
    cases hok
    rw [map_append, map_singleton]
    exact appendRowRange_ok (ih hranges) hout

theorem exists_appendRows (hends : ∀ row ∈ added, row.range.finish < 2 ^ 64)
    (hchain : (added.map CoviRowRangePostingV2.range).IsChain Follows) :
    ∃ out, added.foldlM appendRowRange [] = .ok out := by
  induction added using reverseRecOn with
  | nil => exact ⟨[], rfl⟩
  | append_singleton added next ih =>
    obtain ⟨hadded, hnext⟩ := forall_mem_append.mp hends
    rw [map_append, map_singleton] at hchain
    obtain ⟨ranges, hranges⟩ := ih hadded (isChain_append.mp hchain).1
    obtain ⟨out, hout⟩ := exists_appendRowRange (appendRows_ok hranges) (forall_mem_map.mpr hadded)
      (hnext next mem_cons_self) hchain
    refine ⟨out, ?_⟩
    rw [foldlM_append]
    exact andThen_ok hranges (andThen_ok hout rfl)

end

section

abbrev KeyedRow := Bytes × CoviRowRangePostingV2

def underKey (key : Bytes) (rows : List KeyedRow) : List (ScopedRange RowScope) :=
  (rows.filter fun row => row.1 = key).map fun row => row.2.range

def collect (keys : KeyPostingMap) (rows : List KeyedRow) : Except CoveError KeyPostingMap :=
  rows.foldlM (fun keys row => appendUnder keys row.1 row.2) keys

/-- The map holds under each key of the rows the ranges that they make up. -/
structure Collected (rows : List KeyedRow) (keys : KeyPostingMap) : Prop where
  mem_keys : ∀ key, key ∈ keys.keys ↔ key ∈ rows.map Prod.fst
  appended : ∀ key, Appended (underKey key rows) (((keys.get key).getD []).map CoviRowRangePostingV2.range)

variable {rows : List KeyedRow} {row : KeyedRow} {keys out : KeyPostingMap}

theorem underKey_concat (key : Bytes) : underKey key (rows ++ [row]) =
    underKey key rows ++ if row.1 = key then [row.2.range] else [] := by
  rw [underKey, underKey, filter_append, map_append, filter_singleton]
  by_cases h : row.1 = key
  · rw [if_pos h, decide_eq_true h]
    rfl
  · rw [if_neg h, decide_eq_false h]
    rfl

theorem Collected.empty : Collected [] .empty := ⟨fun _ => Iff.rfl, fun _ => .nil⟩

theorem appendUnder_ok (h : Collected rows keys) (hok : appendUnder keys row.1 row.2 = .ok out) :
    Collected (rows ++ [row]) out := by
  obtain ⟨ranges, hranges, hok⟩ := of_andThen hok
  cases hok
  constructor
  · intro key
    rw [OrderedMap.mem_keys_iff, OrderedMap.get_entryOr, map_append, mem_append, map_singleton,
      mem_singleton, ← h.mem_keys, OrderedMap.mem_keys_iff]
    by_cases hkey : row.1 = key
    · rw [if_pos hkey]
      exact iff_of_true rfl (.inr hkey.symm)
    · rw [if_neg hkey]
      exact (or_iff_left fun heq => hkey heq.symm).symm
  · intro key
    rw [underKey_concat, OrderedMap.get_entryOr]
    by_cases hkey : row.1 = key
    · subst hkey
      rw [if_pos rfl, if_pos rfl]
      exact appendRowRange_ok (h.appended row.1) hranges
    · rw [if_neg hkey, if_neg hkey, append_nil]
      exact h.appended key

theorem collect_ok (hok : collect .empty rows = .ok out) : Collected rows out := by
  induction rows using reverseRecOn generalizing out with
  | nil =>
    cases hok
    exact .empty
  | append_singleton rows row ih =>
    rw [collect, foldlM_append] at hok
    obtain ⟨keys, hkeys, hok⟩ := of_andThen hok
    obtain ⟨out', hout, hok⟩ := of_andThen hok
    cases hok
    exact appendUnder_ok (ih hkeys) hout

theorem mem_underKey {key : Bytes} {range : ScopedRange RowScope} (h : range ∈ underKey key rows) :
    ∃ row ∈ rows, row.2.range = range := by
  obtain ⟨row, hrow, rfl⟩ := mem_map.mp h
  exact ⟨row, mem_of_mem_filter hrow, rfl⟩

theorem exists_collect (hends : ∀ row ∈ rows, row.2.range.finish < 2 ^ 64)
    (hchain : ∀ key, (underKey key rows).IsChain Follows) : ∃ out, collect .empty rows = .ok out := by
  induction rows using reverseRecOn with
  | nil => exact ⟨.empty, rfl⟩
  | append_singleton rows row ih =>
    obtain ⟨hrows, hrow⟩ := forall_mem_append.mp hends
    obtain ⟨keys, hkeys⟩ := ih hrows fun key =>
      (isChain_append.mp ((underKey_concat key) ▸ hchain key)).1
    have hnext := hchain row.1
    rw [underKey_concat, if_pos rfl] at hnext
    obtain ⟨ranges, hranges⟩ := exists_appendRowRange ((collect_ok hkeys).appended row.1)
      (fun range hrange => by
        obtain ⟨row', hrow', rfl⟩ := mem_underKey hrange
        exact hrows row' hrow')
      (hrow row mem_cons_self) hnext
    refine ⟨keys.entryOr row.1 [] fun _ => ranges, ?_⟩
    rw [collect, foldlM_append]
    refine andThen_ok hkeys (andThen_ok ?_ rfl)
    exact andThen_ok hranges rfl

theorem Collected.chain (h : Collected rows keys) (key : Bytes) : (underKey key rows).IsChain Follows :=
  (h.appended key).isChain

end

end CoveFormat.CoviBuildRuns
