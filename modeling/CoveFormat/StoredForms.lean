import CoveFormat.Compaction
import CoveFormat.ValueTexts

namespace CoveFormat.StoredForms

open ExceptRules CoveTypes JsonValue Temporal TemporalPushdown ExprEval PropertyValues ValueTexts
  Compaction List

variable {lib : PropertyLibrary} {p : PropertyEntryV1} {v : Value} {stored : StoredValue}

/-- A column that may be written, without the flag that lets numbers stand for bools. -/
def Written (p : PropertyEntryV1) : Prop :=
  isLogicalPhysicalPair false p.logicalType p.physicalKind = true

/-- The column has something to store for a null. -/
def HoldsNull (lib : PropertyLibrary) (p : PropertyEntryV1) : Prop :=
  match p.physicalKind with
  | .boolean | .numCode | .fixedBytes => True
  | .varBytes => validateVarbytesLogicalValue lib p.logicalType "" = .ok ()
  | .fileCode | .list | .struct | .map => False

/-- The values that a column without a dictionary takes and gives back. -/
inductive Survives (lib : PropertyLibrary) (p : PropertyEntryV1) : Value → Prop
  | null (hnullable : p.nullable = true) (hnull : HoldsNull lib p) : Survives lib p .null
  | boolean (value : Bool) (hk : p.physicalKind = .boolean) : Survives lib p (.bool value)
  | numCode (code : Nat) (hk : p.physicalKind = .numCode) : Survives lib p (.number (.posInt code))
  | uuid (id : Id16) (hk : p.physicalKind = .fixedBytes) (ht : p.logicalType = .uuid)
      (hid : id < 16 ^ 32) : Survives lib p (.string (hexEncode id))
  | decimal128 (n : Int) (hk : p.physicalKind = .fixedBytes) (ht : p.logicalType = .decimal128)
      (hn : i128 n = some n) : Survives lib p (.string (toString n))
  | text (value : String) (hk : p.physicalKind = .varBytes)
      (ht : p.logicalType = .utf8 ∨ p.logicalType = .binary) (hsize : value.utf8ByteSize < 2 ^ 32) :
      Survives lib p (.string value)
  | json (value : Value) (hk : p.physicalKind = .varBytes) (ht : p.logicalType = .json)
      (hnull : value.isNull = false) (hparse : lib.parseJson (lib.jsonText value) = some value)
      (hsize : (lib.jsonText value).utf8ByteSize < 2 ^ 32) : Survives lib p value

/-- The column takes the value, the stored form is accepted, and it is decoded to the value. -/
structure ComesBack (lib : PropertyLibrary) (p : PropertyEntryV1) (v : Value)
    (stored : StoredValue) : Prop where
  appended : appendPropertyValue lib p v = .ok stored
  accepted : validateStoredValue lib p stored = .ok ()
  decoded : decodePropertyValue lib p stored = .ok v

theorem isNull_iff : v.isNull = true ↔ v = .null := by
  constructor
  · intro h
    cases v with
    | null => rfl
    | _ => exact absurd h Bool.false_ne_true
  · rintro rfl
    rfl

theorem placeholder_eq_null (h : appendNullPlaceholder p = .ok stored) : stored = .null := by
  unfold appendNullPlaceholder at h
  split at h
  iterate 4 exact (Except.ok.inj h).symm
  · split at h
    · exact (Except.ok.inj h).symm
    · cases h
  all_goals cases h

theorem fixedBytes_form (h : fixedBytesForProperty p v = .ok stored) :
    (∃ id, stored = .uuid id) ∨ ∃ n, stored = .decimal n := by
  unfold fixedBytesForProperty at h
  split at h
  · split at h
    · obtain ⟨id, -, rfl⟩ := map_eq_ok_iff.mp h
      exact .inl ⟨id, rfl⟩
    · cases h
  iterate 2
    split at h
    · exact .inr ⟨_, (Except.ok.inj h).symm⟩
    · cases h
  · cases h

theorem varBytes_text (h : varBytesForProperty lib p v = .ok stored) :
    ∃ text, stored = .text text := by
  unfold varBytesForProperty at h
  split at h
  · split at h
    · exact ⟨_, (Except.ok.inj h).symm⟩
    · cases h
  · exact ⟨_, (Except.ok.inj h).symm⟩
  · split at h
    · exact ⟨_, (Except.ok.inj h).symm⟩
    · cases h
  · cases h

theorem varBytes_ok_iff {text : String} : varBytesForProperty lib p v = .ok (.text text) ↔
    (p.logicalType = .utf8 ∨ p.logicalType = .binary) ∧ v = .string text ∨
      p.logicalType = .json ∧ lib.jsonText v = text := by
  unfold varBytesForProperty
  cases p.logicalType <;> simp <;> cases v <;> simp [Value.asStr]

theorem appendText_ok_iff (hk : p.physicalKind = .varBytes) (hv : v.isNull = false) :
    appendPropertyValue lib p v = .ok stored ↔ ∃ text, varBytesForProperty lib p v = .ok (.text text) ∧
      text.utf8ByteSize < 2 ^ 32 ∧ stored = .text text := by
  simp only [appendPropertyValue, hv, hk, Bool.false_eq_true, if_false, bind_eq_ok_iff]
  constructor
  · rintro ⟨written, hwritten, h⟩
    obtain ⟨text, rfl⟩ := varBytes_text hwritten
    rw [lengthPrefixed] at h
    split at h
    · cases h
    · rename_i hsize
      exact ⟨text, hwritten, not_le.mp hsize, (Except.ok.inj h).symm⟩
  · rintro ⟨text, htext, hsize, rfl⟩
    exact ⟨.text text, htext, by rw [lengthPrefixed, if_neg (not_le.mpr hsize)]⟩

theorem stored_eq_null_iff (h : appendPropertyValue lib p v = .ok stored) :
    stored = .null ↔ v.isNull = true := by
  cases hv : v.isNull with
  | true =>
    rw [appendPropertyValue, if_pos hv] at h
    exact iff_of_true (placeholder_eq_null h) rfl
  | false =>
    refine iff_of_false ?_ Bool.false_ne_true
    cases hk : p.physicalKind <;>
      simp only [appendPropertyValue, hv, hk, Bool.false_eq_true, if_false] at h
    iterate 3
      obtain ⟨code, -, rfl⟩ := map_eq_ok_iff.mp h
      exact StoredValue.noConfusion
    · rcases fixedBytes_form h with ⟨id, rfl⟩ | ⟨n, rfl⟩ <;> exact StoredValue.noConfusion
    · obtain ⟨text, -, -, rfl⟩ :=
        (appendText_ok_iff hk hv).mp (by simpa [appendPropertyValue, hv, hk] using h)
      exact StoredValue.noConfusion
    · cases h
    · cases h
    · cases h

theorem holdsNull_iff (hwritten : Written p) : HoldsNull lib p ↔
    p.physicalKind ≠ .fileCode ∧ ComesBack lib p .null .null := by
  have hback : ComesBack lib p .null .null ↔
      appendNullPlaceholder p = .ok .null ∧ validateStoredValue lib p .null = .ok () :=
    ⟨fun h => ⟨h.appended, h.accepted⟩, fun h => ⟨h.1, h.2, rfl⟩⟩
  rw [hback]
  cases hk : p.physicalKind with
  | fixedBytes =>
    have ht : p.logicalType = .uuid ∨ p.logicalType = .decimal128 := by
      simpa [Written, isLogicalPhysicalPair, hk] using hwritten
    rcases ht with ht | ht <;>
      simp [HoldsNull, appendNullPlaceholder, validateStoredValue, hk, ht]
  | _ => simp [HoldsNull, appendNullPlaceholder, validateStoredValue, hk]

theorem survives_boolean (hk : p.physicalKind = .boolean) (hv : v.isNull = false)
    (h : ComesBack lib p v stored) : Survives lib p v := by
  have happend := h.appended
  simp only [appendPropertyValue, hv, hk, Bool.false_eq_true, if_false] at happend
  obtain ⟨value, -, rfl⟩ := map_eq_ok_iff.mp happend
  rw [← Except.ok.inj h.decoded]
  exact .boolean value hk

theorem survives_numCode (hk : p.physicalKind = .numCode) (hv : v.isNull = false)
    (h : ComesBack lib p v stored) : Survives lib p v := by
  have happend := h.appended
  simp only [appendPropertyValue, hv, hk, Bool.false_eq_true, if_false] at happend
  obtain ⟨code, -, rfl⟩ := map_eq_ok_iff.mp happend
  rw [← Except.ok.inj h.decoded]
  exact .numCode code hk

theorem integerValue_toString {parse : String → Option Int} (n : Int) :
    integerValue parse (.string (toString n)) = parse (toString n) := rfl

theorem survives_fixedBytes (hwritten : Written p) (hk : p.physicalKind = .fixedBytes) (hv : v.isNull = false)
    (h : ComesBack lib p v stored) : Survives lib p v := by
  have happend := h.appended
  simp only [appendPropertyValue, hv, hk, Bool.false_eq_true, if_false] at happend
  unfold fixedBytesForProperty at happend
  split at happend
  · rename_i ht
    split at happend
    · obtain ⟨id, hid, rfl⟩ := map_eq_ok_iff.mp happend
      rw [← Except.ok.inj h.decoded]
      exact .uuid id hk ht (hexDecode16_lt hid)
    · cases happend
  · rename_i ht
    split at happend
    · rename_i n hn
      cases happend
      obtain rfl := Except.ok.inj h.decoded
      rw [integerValue_toString, parseI128_toString] at hn
      exact .decimal128 n hk ht hn
    · cases happend
  · rename_i ht
    simp [Written, isLogicalPhysicalPair, hk, ht] at hwritten
  · cases happend

theorem survives_varBytes (hk : p.physicalKind = .varBytes) (hv : v.isNull = false)
    (h : ComesBack lib p v stored) : Survives lib p v := by
  obtain ⟨text, happend, hsize, rfl⟩ := (appendText_ok_iff hk hv).mp h.appended
  rcases varBytes_ok_iff.mp happend with ⟨ht, rfl⟩ | ⟨ht, rfl⟩
  · exact .text text hk ht hsize
  · have hdecoded := h.decoded
    rw [decodePropertyValue, if_pos ht] at hdecoded
    split at hdecoded
    · rename_i value hvalue
      obtain rfl := Except.ok.inj hdecoded
      exact .json value hk ht hv hvalue hsize
    · cases hdecoded

theorem comesBack_of_survives (hwritten : Written p) (h : Survives lib p v) :
    ∃ stored, ComesBack lib p v stored := by
  cases h with
  | null _ hnull => exact ⟨_, ((holdsNull_iff hwritten).mp hnull).2⟩
  | boolean value hk =>
    exact ⟨.boolean value, by simp only [appendPropertyValue, hk]; rfl, rfl, rfl⟩
  | numCode code hk =>
    refine ⟨.numCode code, by simp only [appendPropertyValue, hk]; rfl, ?_, rfl⟩
    refine rejectIf_ok fun hc => ?_
    simp [Written, isLogicalPhysicalPair, hk, hc.1] at hwritten
  | uuid id hk ht hid =>
    refine ⟨.uuid id, ?_, rfl, rfl⟩
    simp only [appendPropertyValue, fixedBytesForProperty, hk, ht, Value.asStr,
      hexDecode16_hexEncode hid]
    rfl
  | decimal128 n hk ht hn =>
    refine ⟨.decimal n, ?_, rfl, rfl⟩
    simp only [appendPropertyValue, fixedBytesForProperty, hk, ht, integerValue_toString,
      parseI128_toString, hn]
    rfl
  | text value hk ht hsize =>
    refine ⟨.text value, (appendText_ok_iff hk rfl).mpr
      ⟨value, varBytes_ok_iff.mpr (.inl ⟨ht, rfl⟩), hsize, rfl⟩, ?_, ?_⟩
    · rw [validateStoredValue]
      rcases ht with ht | ht <;> rw [ht] <;> rfl
    · rw [decodePropertyValue, if_neg]
      rcases ht with ht | ht <;> rw [ht] <;> exact CoveLogicalType.noConfusion
  | json value hk ht hnull hparse hsize =>
    refine ⟨.text (lib.jsonText v), (appendText_ok_iff hk hnull).mpr
      ⟨_, varBytes_ok_iff.mpr (.inr ⟨ht, rfl⟩), hsize, rfl⟩, ?_, ?_⟩
    · rw [validateStoredValue, ht]
      exact rejectIf_ok (by rw [hparse]; exact Bool.false_ne_true)
    · rw [decodePropertyValue, if_pos ht, hparse]

theorem survives_iff (hwritten : Written p) : Survives lib p v ↔ p.physicalKind ≠ .fileCode ∧
    (v.isNull = true → p.nullable = true) ∧ ∃ stored, ComesBack lib p v stored := by
  constructor
  · intro h
    refine ⟨?_, ?_, comesBack_of_survives hwritten h⟩
    · cases h with
      | null _ hnull => exact ((holdsNull_iff hwritten).mp hnull).1
      | boolean _ hk | numCode _ hk | uuid _ hk | decimal128 _ hk | text _ hk
      | json _ hk => rw [hk]; exact CovePhysicalKind.noConfusion
    · intro hnull
      cases h with
      | null hnullable => exact hnullable
      | json _ _ _ hv => exact absurd hnull (by rw [hv]; exact Bool.false_ne_true)
      | _ => cases hnull
  · rintro ⟨hfile, hnullable, stored, h⟩
    cases hv : v.isNull with
    | true =>
      obtain rfl := isNull_iff.mp hv
      obtain rfl := (stored_eq_null_iff h.appended).mpr rfl
      exact .null (hnullable rfl) ((holdsNull_iff hwritten).mpr ⟨hfile, h⟩)
    | false =>
      cases hk : p.physicalKind with
      | boolean => exact survives_boolean hk hv h
      | numCode => exact survives_numCode hk hv h
      | fixedBytes => exact survives_fixedBytes hwritten hk hv h
      | varBytes => exact survives_varBytes hk hv h
      | fileCode => exact absurd hk hfile
      | list | struct | map =>
        have happend := h.appended
        simp only [appendPropertyValue, hv, hk, Bool.false_eq_true, if_false] at happend
        cases happend

/-- What a column stores and a reader accepts can be hashed. -/
theorem trustValue_ok (hwritten : Written p) (hfile : p.physicalKind ≠ .fileCode)
    (happend : appendPropertyValue lib p v = .ok stored)
    (haccepted : validateStoredValue lib p stored = .ok ()) : trustValue lib p stored = .ok () := by
  cases hv : v.isNull with
  | true =>
    obtain rfl := (stored_eq_null_iff happend).mpr hv
    rfl
  | false =>
    cases hk : p.physicalKind with
    | varBytes =>
      obtain ⟨text, -, -, rfl⟩ := (appendText_ok_iff hk hv).mp happend
      refine rejectIf_ok ?_
      rintro ⟨ht, hnone⟩
      rw [validateStoredValue, ht] at haccepted
      exact of_rejectIf haccepted (by rw [hnone]; rfl)
    | fileCode => exact absurd hk hfile
    | boolean =>
      simp only [appendPropertyValue, hv, hk, Bool.false_eq_true, if_false] at happend
      obtain ⟨value, -, rfl⟩ := map_eq_ok_iff.mp happend
      rfl
    | numCode =>
      simp only [appendPropertyValue, hv, hk, Bool.false_eq_true, if_false] at happend
      obtain ⟨code, -, rfl⟩ := map_eq_ok_iff.mp happend
      rw [Written, hk] at hwritten
      have hbool : p.logicalType ≠ .bool := by
        intro ht
        rw [ht] at hwritten
        cases hwritten
      rw [trustValue, if_neg hbool]
      exact rejectIf_ok (by rw [hwritten]; exact Bool.noConfusion)
    | fixedBytes =>
      simp only [appendPropertyValue, hv, hk, Bool.false_eq_true, if_false] at happend
      rcases fixedBytes_form happend with ⟨id, rfl⟩ | ⟨n, rfl⟩ <;> rfl
    | list | struct | map =>
      simp only [appendPropertyValue, hv, hk, Bool.false_eq_true, if_false] at happend
      cases happend

end CoveFormat.StoredForms
