import CoveFormat.Canonical
import CoveFormat.CoveTypes
import CoveFormat.Kleene
import CoveFormat.ResolvedQuery
import Mathlib.Data.Prod.Lex

namespace CoveFormat.FileCodeRequests

open ByteCodes Canonical CoveTypes ExceptRules Kleene List ResolvedQuery

/-- Text validity, with the fact that the bytes of a string are UTF-8. -/
structure TextReading extends TextPredicates where
  utf8_string : ∀ s : String, utf8Valid s.toUTF8.data.toList

def TextReading.text (R : TextReading) (s : String) : Str R.toTextPredicates :=
  ⟨s.toUTF8.data.toList, R.utf8_string s⟩

structure ExecutionCodeLiteralKey where
  valueTag : Nat
  canonical : Bytes
  deriving DecidableEq

inductive ExecutionCodeMatchMode
  | includes
  | excludes
  deriving DecidableEq

def ExecutionCodeMatchMode.inverted : ExecutionCodeMatchMode → ExecutionCodeMatchMode
  | includes => excludes
  | excludes => includes

structure ExecutionCodePredicateRequest where
  (objectTypeId propertyId : Nat)
  logicalType : String
  matchMode : ExecutionCodeMatchMode
  canonicalLiterals : List ExecutionCodeLiteralKey

def logicalTypeToCove : String → Option CoveLogicalType
  | "null" => some .null
  | "bool" | "boolean" => some .bool
  | "int8" => some .int8
  | "int16" => some .int16
  | "int32" => some .int32
  | "int64" => some .int64
  | "uint8" => some .uint8
  | "uint16" => some .uint16
  | "uint32" => some .uint32
  | "uint64" => some .uint64
  | "decimal64" => some .decimal64
  | "date_days" => some .dateDays
  | "timestamp_micros" => some .timestampMicros
  | "timestamp_nanos" => some .timestampNanos
  | "utf8" | "string" => some .utf8
  | "binary" => some .binary
  | "uuid" => some .uuid
  | "json" => some .json
  | _ => none

def signedInDomain (width : Nat) (value : Int) : Except BuildExecutionError Unit :=
  rejectIf (¬ (-2 ^ (8 * width - 1) ≤ value ∧ value < 2 ^ (8 * width - 1)))
    ⟨"E_COVI_LOOKUP_UNSAFE",
      "signed literal does not fit int" ++ toString (8 * width) ++ " index key domain", none⟩

def unsignedInDomain (width value : Nat) : Except BuildExecutionError Unit :=
  rejectIf (¬ value < 2 ^ (8 * width))
    ⟨"E_COVI_LOOKUP_UNSAFE",
      "unsigned literal does not fit uint" ++ toString (8 * width) ++ " index key domain", none⟩

section

variable {P : TextPredicates}

def signedLiteralCanonicalValue (logical : CoveLogicalType) (value : Int) :
    Except BuildExecutionError (Option (CanonicalValue P)) :=
  match logical with
  | .int8 => (signedInDomain 1 value).map fun _ => some (.int 1 value)
  | .int16 => (signedInDomain 2 value).map fun _ => some (.int 2 value)
  | .int32 => (signedInDomain 4 value).map fun _ => some (.int 4 value)
  | .dateDays => (signedInDomain 4 value).map fun _ => some (.dateDays (.ofInt 32 value))
  | .int64 => .ok (some (.int 8 value))
  | .decimal64 => .ok (some (.decimal64 (.ofInt 64 value)))
  | .timestampMicros => .ok (some (.timestampMicros (.ofInt 64 value)))
  | .timestampNanos => .ok (some (.timestampNanos (.ofInt 64 value)))
  | _ => .ok none

def unsignedLiteralAsSignedCanonicalValue (logical : CoveLogicalType) (value : Nat) :
    Except BuildExecutionError (Option (CanonicalValue P)) := do
  rejectIf (2 ^ 63 ≤ value) ⟨"E_LITERAL_TYPE_DOMAIN",
    "unsigned integer literal does not fit signed canonical value domain", none⟩
  signedLiteralCanonicalValue logical value

def unsignedLiteralCanonicalValue (logical : CoveLogicalType) (value : Nat) :
    Except BuildExecutionError (Option (CanonicalValue P)) :=
  match logical with
  | .uint8 => (unsignedInDomain 1 value).map fun _ => some (.uint 1 value)
  | .uint16 => (unsignedInDomain 2 value).map fun _ => some (.uint 2 value)
  | .uint32 => (unsignedInDomain 4 value).map fun _ => some (.uint 4 value)
  | .uint64 => .ok (some (.uint 8 value))
  | _ => .ok none

def isSignedDomain : CoveLogicalType → Bool
  | .int8 | .int16 | .int32 | .int64 | .decimal64 | .dateDays | .timestampMicros | .timestampNanos => true
  | _ => false

end

variable (R : TextReading)

def canonicalValueForResolvedLiteral (logicalType : String) (literal : ResolvedLiteral) :
    Except BuildExecutionError (Option (CanonicalValue R.toTextPredicates)) :=
  match literal.typedValue, logicalTypeToCove logicalType with
  | .null, _ => .ok none
  | .boolean value, some .bool => .ok (some (.bool value))
  | .string value, some .utf8 => .ok (some (.utf8 (R.text value)))
  | .string value, some .json => .ok (some (.json (R.text value)))
  | .signedInteger value, some logical => signedLiteralCanonicalValue logical value
  | .unsignedInteger value, some logical =>
    if isSignedDomain logical then unsignedLiteralAsSignedCanonicalValue logical value
    else unsignedLiteralCanonicalValue logical value
  | .timestampMicros micros _, some .timestampMicros =>
    .ok (some (.timestampMicros (.ofInt 64 micros)))
  | .uuid _ bytes, some .uuid => .ok (some (.uuid bytes))
  | .binary _ bytes, some .binary => .ok (some (.bytes bytes))
  | _, _ => .ok none

def executionCodeLiteralKeyFromCanonical (value : CanonicalValue R.toTextPredicates) :
    Except BuildExecutionError ExecutionCodeLiteralKey :=
  match encode value with
  | .ok canonical => .ok ⟨value.valueTag.code, canonical⟩
  | .error error => .error ⟨"E_EXECUTION_CODE_MAP",
      "literal could not be converted to a canonical COVE-E FileCode key", some error⟩

def canonicalLiteralKey (logicalType : String) (literal : ResolvedLiteral) :
    Except BuildExecutionError (Option ExecutionCodeLiteralKey) := do
  match ← canonicalValueForResolvedLiteral R logicalType literal with
  | none => .ok none
  | some value => (executionCodeLiteralKeyFromCanonical R value).map some

def filecodePropertyPathParts (path : ResolvedPath) (root : Nat) : Option (Nat × Nat × String) :=
  match path.objectTypeId, path.propertyId with
  | some objectTypeId, some propertyId =>
    if objectTypeId ≠ root ∨ path.physicalKind ≠ "file_code" then none
    else some (objectTypeId, propertyId, path.logicalType)
  | _, _ => none

def matchModeOf : AstCompareOp → Option ExecutionCodeMatchMode
  | .eq => some .includes
  | .ne => some .excludes
  | _ => none

def executionCodeCompareRequest (left : ResolvedExpr) (op : AstCompareOp) (right : ResolvedExpr)
    (root : Nat) : Except BuildExecutionError (Option ExecutionCodePredicateRequest) :=
  match matchModeOf op, left, right with
  | some matchMode, .path path, .literal literal =>
    match filecodePropertyPathParts path root with
    | none => .ok none
    | some (objectTypeId, propertyId, logicalType) => do
        match ← canonicalLiteralKey R logicalType literal with
        | none => .ok none
        | some key => .ok (some ⟨objectTypeId, propertyId, logicalType, matchMode, [key]⟩)
  | _, _, _ => .ok none

def executionCodeEitherRequest (left : ResolvedExpr) (op : AstCompareOp) (right : ResolvedExpr)
    (root : Nat) : Except BuildExecutionError (Option ExecutionCodePredicateRequest) := do
  match ← executionCodeCompareRequest R left op right root with
  | some request => .ok (some request)
  | none => executionCodeCompareRequest R right op left root

def normalizeCanonicalLiterals (keys : List ExecutionCodeLiteralKey) :
    List ExecutionCodeLiteralKey :=
  SortedKeys.dedupAdjacent
    (SortedKeys.sortByKey (fun key => toLex (key.valueTag, key.canonical)) keys)

/-- The keys of the literals of a list; `none` when a literal other than NULL has none. -/
def canonicalLiteralKeys (logicalType : String) :
    List ResolvedLiteral → Except BuildExecutionError (Option (List ExecutionCodeLiteralKey))
  | [] => .ok (some [])
  | literal :: rest =>
    if literal.typedValue = .null then canonicalLiteralKeys logicalType rest
    else do
      match ← canonicalLiteralKey R logicalType literal with
      | none => .ok none
      | some key => (canonicalLiteralKeys logicalType rest).map (Option.map (key :: ·))

def executionCodeInListRequest (expr : ResolvedExpr) (values : List ResolvedLiteral) (root : Nat) :
    Except BuildExecutionError (Option ExecutionCodePredicateRequest) :=
  match expr with
  | .path path =>
    match filecodePropertyPathParts path root with
    | none => .ok none
    | some (objectTypeId, propertyId, logicalType) => do
        match ← canonicalLiteralKeys R logicalType values with
        | none => .ok none
        | some keys =>
          let canonicalLiterals := normalizeCanonicalLiterals keys
          .ok (if canonicalLiterals = [] then none
            else some ⟨objectTypeId, propertyId, logicalType, .includes, canonicalLiterals⟩)
  | _ => .ok none

def isBoolType (logicalType : String) : Bool := logicalType = "bool" || logicalType = "boolean"

def executionCodeBoolExprRequest (expr : ResolvedExpr) (root : Nat) :
    Except BuildExecutionError (Option ExecutionCodePredicateRequest) :=
  match expr with
  | .path path =>
    match filecodePropertyPathParts path root with
    | none => .ok none
    | some (objectTypeId, propertyId, logicalType) =>
      if isBoolType logicalType then
        (executionCodeLiteralKeyFromCanonical R (.bool true)).map fun key =>
          some ⟨objectTypeId, propertyId, logicalType, .includes, [key]⟩
      else .ok none
  | _ => .ok none

/-- One more disjunct of the same property; `none` when the two do not combine. -/
def combineRequests (existing request : ExecutionCodePredicateRequest) :
    Option ExecutionCodePredicateRequest :=
  if existing.objectTypeId ≠ request.objectTypeId ∨ existing.propertyId ≠ request.propertyId ∨
      existing.logicalType ≠ request.logicalType ∨ existing.matchMode ≠ .includes ∨
      request.matchMode ≠ .includes then none
  else some { existing with
    canonicalLiterals :=
      normalizeCanonicalLiterals (existing.canonicalLiterals ++ request.canonicalLiterals) }

mutual

def executionCodeOrAtomRequest (root : Nat) :
    ResolvedPredicate → Except BuildExecutionError (Option ExecutionCodePredicateRequest)
  | .compare left op right =>
    if op = .eq ∨ op = .ne then executionCodeEitherRequest R left op right root else .ok none
  | .inList expr values => executionCodeInListRequest R expr values root
  | .boolExpr expr => executionCodeBoolExprRequest R expr root
  | .or parts =>
    (executionCodeSamePathOrRequest root none parts).map
      (Option.filter fun request => request.canonicalLiterals ≠ [])
  | _ => .ok none

def executionCodeSamePathOrRequest (root : Nat) (combined : Option ExecutionCodePredicateRequest) :
    List ResolvedPredicate → Except BuildExecutionError (Option ExecutionCodePredicateRequest)
  | [] => .ok combined
  | part :: rest =>
    (executionCodeOrAtomRequest root part).bind fun
      | none => .ok none
      | some request =>
        match combined with
        | none => executionCodeSamePathOrRequest root (some request) rest
        | some existing =>
          match combineRequests existing request with
          | none => .ok none
          | some merged => executionCodeSamePathOrRequest root (some merged) rest

end

def executionCodeNotRequest (root : Nat) (predicate : ResolvedPredicate) :
    Except BuildExecutionError (Option ExecutionCodePredicateRequest) :=
  (executionCodeOrAtomRequest R root predicate).map
    (Option.map fun request => { request with matchMode := request.matchMode.inverted })

mutual

def collectExecutionCodePredicateRequests (root : Nat) :
    ResolvedPredicate → Except BuildExecutionError (List ExecutionCodePredicateRequest)
  | .compare left op right =>
    (executionCodeOrAtomRequest R root (.compare left op right)).map Option.toList
  | .inList expr values => (executionCodeInListRequest R expr values root).map Option.toList
  | .nullCheck _ _ | .exists _ => .ok []
  | .boolExpr expr => (executionCodeBoolExprRequest R expr root).map Option.toList
  | .not inner => (executionCodeNotRequest R root inner).map Option.toList
  | .or parts => (executionCodeOrAtomRequest R root (.or parts)).map Option.toList
  | .and parts => collectFromParts root parts

def collectFromParts (root : Nat) :
    List ResolvedPredicate → Except BuildExecutionError (List ExecutionCodePredicateRequest)
  | [] => .ok []
  | part :: rest =>
    (collectExecutionCodePredicateRequests root part).bind fun requests =>
      (collectFromParts root rest).map (requests ++ ·)

end

section Rows

/- The keys stored in one row, by property, and the truth of what is decided elsewhere. -/
variable (root : Nat) (stored : Nat → Option ExecutionCodeLiteralKey)
variable (other : ResolvedPredicate → Truth)

/-- `path = literal` on the stored values; `none` when it is not decided by comparing keys. -/
def equalsTruth (path : ResolvedPath) (literal : ResolvedLiteral) : Option Truth :=
  match filecodePropertyPathParts path root with
  | none => none
  | some (_, propertyId, logicalType) =>
    match stored propertyId with
    | none => some .unknown
    | some value =>
      if literal.typedValue = .null then some .unknown
      else
        match canonicalLiteralKey R logicalType literal with
        | .ok (some key) => some (.ofBool (value = key))
        | _ => none

def equalityTruth (left right : ResolvedExpr) : Option Truth :=
  match left, right with
  | .path path, .literal literal | .literal literal, .path path => equalsTruth R root stored path literal
  | _, _ => none

def inListTruth (expr : ResolvedExpr) (values : List ResolvedLiteral) : Option Truth :=
  match expr with
  | .path path =>
    match filecodePropertyPathParts path root with
    | none => none
    | some (_, propertyId, _) =>
      match stored propertyId with
      | none => some .unknown
      | some _ => (values.mapM (equalsTruth R root stored path)).map Truth.any
  | _ => none

def boolTruth (expr : ResolvedExpr) : Option Truth :=
  match expr with
  | .path path =>
    match filecodePropertyPathParts path root with
    | none => none
    | some (_, propertyId, logicalType) =>
      if isBoolType logicalType then
        match stored propertyId with
        | none => some .unknown
        | some value =>
          if value = ⟨ValueTag.boolTrue.code, []⟩ then some .yes
          else if value = ⟨ValueTag.boolFalse.code, []⟩ then some .no
          else some .unknown
      else none
  | _ => none

mutual

def truth : ResolvedPredicate → Truth
  | .compare left op right =>
    match op with
    | .eq => (equalityTruth R root stored left right).getD (other (.compare left op right))
    | .ne =>
      ((equalityTruth R root stored left right).map Truth.not).getD
        (other (.compare left op right))
    | _ => other (.compare left op right)
  | .inList expr values =>
    (inListTruth R root stored expr values).getD (other (.inList expr values))
  | .nullCheck expr negated => other (.nullCheck expr negated)
  | .exists expr => other (.exists expr)
  | .boolExpr expr => (boolTruth root stored expr).getD (other (.boolExpr expr))
  | .not inner => (truth inner).not
  | .and parts => Truth.all (truths parts)
  | .or parts => Truth.any (truths parts)

def truths : List ResolvedPredicate → List Truth
  | [] => []
  | part :: rest => truth part :: truths rest

end

/-- The row has a value of the property and the value is one the request selects. -/
def Matches (request : ExecutionCodePredicateRequest) : Prop :=
  ∃ value, stored request.propertyId = some value ∧
    (request.matchMode = .includes ↔ value ∈ request.canonicalLiterals)

/-- The row has a value of the property and the value is one the request leaves out. -/
def Misses (request : ExecutionCodePredicateRequest) : Prop :=
  ∃ value, stored request.propertyId = some value ∧
    ¬ (request.matchMode = .includes ↔ value ∈ request.canonicalLiterals)

/-- A request speaks for a truth value: rows where it is known fall on its side. -/
structure SpeaksFor (request : ExecutionCodePredicateRequest) (t : Truth) : Prop where
  object : request.objectTypeId = root
  onTrue : t = .yes → Matches stored request
  onFalse : t = .no → Misses stored request

end Rows

variable {R} {root : Nat} {stored : Nat → Option ExecutionCodeLiteralKey}
variable {other : ResolvedPredicate → Truth} {request existing : ExecutionCodePredicateRequest}

variable {key : ExecutionCodeLiteralKey} {keys : List ExecutionCodeLiteralKey}

theorem mem_normalizeCanonicalLiterals : key ∈ normalizeCanonicalLiterals keys ↔ key ∈ keys := by
  rw [normalizeCanonicalLiterals, SortedKeys.mem_dedupAdjacent]
  exact (SortedKeys.sortByKey_perm _ keys).mem_iff

variable {path : ResolvedPath} {objectTypeId propertyId : Nat} {logicalType : String}

theorem filecodePropertyPathParts_object
    (h : filecodePropertyPathParts path root = some (objectTypeId, propertyId, logicalType)) :
    objectTypeId = root := by
  unfold filecodePropertyPathParts at h
  split at h
  · split at h
    · cases h
    · rename_i hparts
      obtain ⟨rfl, -⟩ := Prod.mk.inj (Option.some.inj h)
      exact of_not_not fun hne => hparts (.inl hne)
  · cases h

theorem SpeaksFor.matches {t : Truth} (h : SpeaksFor root stored request t) (ht : t = .yes) :
    request.objectTypeId = root ∧ Matches stored request :=
  ⟨h.object, h.onTrue ht⟩

theorem speaksFor_unknown (hobject : request.objectTypeId = root) :
    SpeaksFor root stored request .unknown :=
  ⟨hobject, nofun, nofun⟩

variable {value : ExecutionCodeLiteralKey}

theorem speaksFor_mem (hobject : request.objectTypeId = root)
    (hstored : stored request.propertyId = some value) (hmode : request.matchMode = .includes) :
    SpeaksFor root stored request (.ofBool (value ∈ request.canonicalLiterals)) := by
  refine ⟨hobject, ?_, ?_⟩
  · intro h
    refine ⟨value, hstored, fun _ => ?_, fun _ => hmode⟩
    by_contra hmem
    simp [hmem, Truth.ofBool] at h
  · intro h
    refine ⟨value, hstored, fun hiff => ?_⟩
    simp [hiff.mp hmode, Truth.ofBool] at h

theorem SpeaksFor.inverted {t : Truth} (h : SpeaksFor root stored request t) :
    SpeaksFor root stored { request with matchMode := request.matchMode.inverted } t.not := by
  have hmode : request.matchMode.inverted = .includes ↔ ¬ request.matchMode = .includes := by
    cases request.matchMode <;> simp [ExecutionCodeMatchMode.inverted]
  refine ⟨h.object, ?_, ?_⟩
  · intro ht
    obtain ⟨value, hstored, hvalue⟩ := h.onFalse ((not_yes_iff t).mp ht)
    exact ⟨value, hstored, by tauto⟩
  · intro ht
    obtain ⟨value, hstored, hvalue⟩ := h.onTrue ((not_no_iff t).mp ht)
    exact ⟨value, hstored, by tauto⟩

variable {literal : ResolvedLiteral}

theorem canonicalLiteralKey_null (h : literal.typedValue = .null) :
    canonicalLiteralKey R logicalType literal = .ok none := by
  simp [canonicalLiteralKey, canonicalValueForResolvedLiteral, h, bind, Except.bind]

variable (stored) in
theorem equalsTruth_speaks
    (hpath : filecodePropertyPathParts path root = some (objectTypeId, propertyId, logicalType))
    (hkey : canonicalLiteralKey R logicalType literal = .ok (some key)) :
    ∃ t, equalsTruth R root stored path literal = some t ∧
      SpeaksFor root stored ⟨objectTypeId, propertyId, logicalType, .includes, [key]⟩ t := by
  have hnull : literal.typedValue ≠ .null := by
    intro h
    rw [canonicalLiteralKey_null h] at hkey
    cases hkey
  cases hstored : stored propertyId with
  | none => exact ⟨.unknown, by simp [equalsTruth, hpath, hstored],
      speaksFor_unknown (filecodePropertyPathParts_object hpath)⟩
  | some value =>
    refine ⟨.ofBool (value = key), by simp [equalsTruth, hpath, hstored, hnull, hkey], ?_⟩
    have h : SpeaksFor root stored ⟨objectTypeId, propertyId, logicalType, .includes, [key]⟩
        (.ofBool (value ∈ [key])) :=
      speaksFor_mem (filecodePropertyPathParts_object hpath) hstored rfl
    simpa only [mem_singleton] using h

variable (stored) in
theorem executionCodeCompareRequest_ok {left right : ResolvedExpr} {op : AstCompareOp}
    (h : executionCodeCompareRequest R left op right root = .ok (some request)) :
    ∃ t, equalityTruth R root stored left right = some t ∧
      equalityTruth R root stored right left = some t ∧
      (op = .eq ∧ SpeaksFor root stored request t ∨ op = .ne ∧ SpeaksFor root stored request t.not) := by
  unfold executionCodeCompareRequest at h
  split at h
  · rename_i matchMode path literal hop
    split at h
    · cases h
    · rename_i objectTypeId propertyId logicalType hpath
      obtain ⟨key?, hkey, h⟩ := of_andThen h
      cases key? with
      | none => cases h
      | some key =>
        cases h
        obtain ⟨t, ht, hspeaks⟩ := equalsTruth_speaks stored hpath hkey
        refine ⟨t, ht, ht, ?_⟩
        cases op with
        | eq =>
          cases hop
          exact .inl ⟨rfl, hspeaks⟩
        | ne =>
          cases hop
          exact .inr ⟨rfl, hspeaks.inverted⟩
        | lt | le | gt | ge => cases hop
  · cases h

theorem compare_speaks {left right : ResolvedExpr} {op : AstCompareOp}
    (h : executionCodeEitherRequest R left op right root = .ok (some request)) :
    SpeaksFor root stored request (truth R root stored other (.compare left op right)) := by
  have hresult : ∃ t, equalityTruth R root stored left right = some t ∧
      (op = .eq ∧ SpeaksFor root stored request t ∨ op = .ne ∧ SpeaksFor root stored request t.not) := by
    obtain ⟨request?, hleft, h⟩ := of_andThen h
    cases request? with
    | some found =>
      cases h
      obtain ⟨t, ht, -, hop⟩ := executionCodeCompareRequest_ok stored hleft
      exact ⟨t, ht, hop⟩
    | none =>
      obtain ⟨t, -, ht, hop⟩ := executionCodeCompareRequest_ok stored h
      exact ⟨t, ht, hop⟩
  obtain ⟨t, ht, ⟨rfl, hspeaks⟩ | ⟨rfl, hspeaks⟩⟩ := hresult
  · simpa [truth, ht] using hspeaks
  · simpa [truth, ht] using hspeaks

variable {values : List ResolvedLiteral}

theorem equalsTruth_list
    (hpath : filecodePropertyPathParts path root = some (objectTypeId, propertyId, logicalType))
    (hstored : stored propertyId = some value)
    (h : canonicalLiteralKeys R logicalType values = .ok (some keys)) :
    ∃ ts, values.mapM (equalsTruth R root stored path) = some ts ∧
      (Truth.any ts = .yes ↔ value ∈ keys) ∧ (Truth.any ts = .no → value ∉ keys) := by
  induction values generalizing keys with
  | nil =>
    cases h
    exact ⟨[], rfl, by simp [Truth.any], by simp⟩
  | cons literal rest ih =>
    rw [canonicalLiteralKeys] at h
    split at h
    · rename_i hnull
      obtain ⟨ts, hts, hyes, hno⟩ := ih h
      refine ⟨.unknown :: ts, ?_, ?_, ?_⟩
      · rw [mapM_cons, hts]
        simp [equalsTruth, hpath, hstored, hnull]
      · rw [← hyes, any_yes_iff, any_yes_iff]
        simp
      · intro hany
        exact hno ((any_no_iff ts).mpr fun t ht =>
          (any_no_iff _).mp hany t (mem_cons_of_mem _ ht))
    · rename_i hnull
      obtain ⟨key?, hkey, h⟩ := of_andThen h
      cases key? with
      | none => cases h
      | some key =>
        obtain ⟨keys?, hkeys, hcons⟩ := map_eq_ok_iff.mp h
        obtain ⟨keys', rfl, rfl⟩ := Option.map_eq_some_iff.mp hcons
        obtain ⟨ts, hts, hyes, hno⟩ := ih hkeys
        refine ⟨.ofBool (value = key) :: ts, ?_, ?_, ?_⟩
        · rw [mapM_cons, hts]
          simp [equalsTruth, hpath, hstored, hnull, hkey]
        · rw [mem_cons, ← hyes, any_yes_iff, any_yes_iff]
          simp [Truth.ofBool]
        · intro hany
          have hall := (any_no_iff _).mp hany
          have hne : ¬ value = key := by simpa [Truth.ofBool] using hall _ mem_cons_self
          have hrest := hno ((any_no_iff ts).mpr fun t ht => hall t (mem_cons_of_mem _ ht))
          simp [hne, hrest]

variable {expr : ResolvedExpr}

theorem inList_speaks (h : executionCodeInListRequest R expr values root = .ok (some request)) :
    SpeaksFor root stored request (truth R root stored other (.inList expr values)) := by
  unfold executionCodeInListRequest at h
  split at h
  · rename_i path
    split at h
    · cases h
    · rename_i objectTypeId propertyId logicalType hpath
      obtain ⟨keys?, hkeys, h⟩ := of_andThen h
      cases keys? with
      | none => cases h
      | some keys =>
        have hrequest := Except.ok.inj h
        split at hrequest
        · cases hrequest
        · cases hrequest
          cases hstored : stored propertyId with
          | none =>
            have ht : truth R root stored other (.inList (.path path) values) = .unknown := by
              simp [truth, inListTruth, hpath, hstored]
            rw [ht]
            exact speaksFor_unknown (filecodePropertyPathParts_object hpath)
          | some value =>
            obtain ⟨ts, hts, hyes, hno⟩ := equalsTruth_list hpath hstored hkeys
            have ht : truth R root stored other (.inList (.path path) values) = .any ts := by
              simp [truth, inListTruth, hpath, hstored, hts]
            rw [ht]
            refine ⟨filecodePropertyPathParts_object hpath, ?_, ?_⟩
            · intro hany
              have hmem := mem_normalizeCanonicalLiterals.mpr (hyes.mp hany)
              exact ⟨value, hstored, fun _ => hmem, fun _ => rfl⟩
            · intro hany
              have hmem := mem_normalizeCanonicalLiterals.not.mpr (hno hany)
              exact ⟨value, hstored, fun hiff => hmem (hiff.mp rfl)⟩
  · cases h

theorem boolExpr_speaks (h : executionCodeBoolExprRequest R expr root = .ok (some request)) :
    SpeaksFor root stored request (truth R root stored other (.boolExpr expr)) := by
  unfold executionCodeBoolExprRequest at h
  split at h
  · rename_i path
    split at h
    · cases h
    · rename_i objectTypeId propertyId logicalType hpath
      split at h
      · rename_i hbool
        obtain rfl : ⟨objectTypeId, propertyId, logicalType, .includes,
            [⟨ValueTag.boolTrue.code, []⟩]⟩ = request := Option.some.inj (Except.ok.inj h)
        cases hstored : stored propertyId with
        | none =>
          have ht : truth R root stored other (.boolExpr (.path path)) = .unknown := by
            simp [truth, boolTruth, hpath, hbool, hstored]
          rw [ht]
          exact speaksFor_unknown (filecodePropertyPathParts_object hpath)
        | some value =>
          have hobject := filecodePropertyPathParts_object hpath
          by_cases htrue : value = ⟨ValueTag.boolTrue.code, []⟩
          · refine ⟨hobject, fun _ => ⟨value, hstored, by simp [htrue]⟩, fun hno => ?_⟩
            simp [truth, boolTruth, hpath, hbool, hstored, htrue] at hno
          · refine ⟨hobject, fun hyes => ?_, fun _ => ⟨value, hstored, by simp [htrue]⟩⟩
            simp only [truth, boolTruth, hpath, hbool, hstored, htrue, if_true, if_false] at hyes
            split at hyes <;> cases hyes
      · cases h
  · cases h

variable {s : Truth}

theorem combineRequests_speaks {merged : ExecutionCodePredicateRequest} {t : Truth}
    (h : combineRequests existing request = some merged) (hs : SpeaksFor root stored existing s)
    (ht : SpeaksFor root stored request t) : SpeaksFor root stored merged (s.or t) := by
  unfold combineRequests at h
  split at h
  · cases h
  · rename_i hsame
    obtain ⟨hproperty, hleft, hright⟩ : existing.propertyId = request.propertyId ∧
        existing.matchMode = .includes ∧ request.matchMode = .includes := by tauto
    cases h
    refine ⟨hs.object, ?_, ?_⟩
    · intro hyes
      rcases (or_yes_iff s t).mp hyes with hyes | hyes
      · obtain ⟨value, hstored, hvalue⟩ := hs.onTrue hyes
        refine ⟨value, hstored, fun _ => mem_normalizeCanonicalLiterals.mpr ?_, fun _ => hleft⟩
        exact mem_append_left _ (hvalue.mp hleft)
      · obtain ⟨value, hstored, hvalue⟩ := ht.onTrue hyes
        rw [← hproperty] at hstored
        refine ⟨value, hstored, fun _ => mem_normalizeCanonicalLiterals.mpr ?_, fun _ => hleft⟩
        exact mem_append_right _ (hvalue.mp hright)
    · intro hno
      obtain ⟨hsno, htno⟩ := (or_no_iff s t).mp hno
      obtain ⟨value, hstored, hvalue⟩ := hs.onFalse hsno
      obtain ⟨value', hstored', hvalue'⟩ := ht.onFalse htno
      rw [← hproperty, hstored] at hstored'
      obtain rfl := Option.some.inj hstored'
      refine ⟨value, hstored, fun hiff => ?_⟩
      rcases mem_append.mp (mem_normalizeCanonicalLiterals.mp (hiff.mp hleft)) with hmem | hmem
      · exact hvalue ⟨fun _ => hmem, fun _ => hleft⟩
      · exact hvalue' ⟨fun _ => hmem, fun _ => hright⟩

theorem SpeaksFor.none_left {t : Truth} (h : SpeaksFor root stored request t) :
    SpeaksFor root stored request (Truth.no.or t) := by
  cases t <;> exact h

variable {parts : List ResolvedPredicate}

theorem executionCodeSamePathOrRequest_speaks {combined : Option ExecutionCodePredicateRequest}
    (hparts : ∀ part ∈ parts, ∀ request, executionCodeOrAtomRequest R root part =
      .ok (some request) → SpeaksFor root stored request (truth R root stored other part))
    (hnone : combined = none → s = .no)
    (hsome : ∀ existing, combined = some existing → SpeaksFor root stored existing s)
    (h : executionCodeSamePathOrRequest R root combined parts = .ok (some request)) :
    SpeaksFor root stored request (s.or (Truth.any (truths R root stored other parts))) := by
  induction parts generalizing combined s with
  | nil =>
    have hs := hsome request (Except.ok.inj h)
    cases s <;> exact hs
  | cons part rest ih =>
    obtain ⟨hpart, hrest⟩ := forall_mem_cons.mp hparts
    obtain ⟨atom?, hatom, h⟩ := bind_eq_ok_iff.mp h
    cases atom? with
    | none => cases h
    | some atom =>
      have hspeaks := hpart atom hatom
      have hassoc : s.or (Truth.any (truths R root stored other (part :: rest))) =
          (s.or (truth R root stored other part)).or
            (Truth.any (truths R root stored other rest)) :=
        (or_assoc s _ _).symm
      rw [hassoc]
      cases combined with
      | none =>
        obtain rfl := hnone rfl
        have hnext : ∀ found, some atom = some found →
            SpeaksFor root stored found (Truth.no.or (truth R root stored other part)) := by
          rintro found ⟨⟩
          exact hspeaks.none_left
        exact ih hrest (fun hc => by cases hc) hnext h
      | some existing =>
        dsimp only at h
        split at h
        · cases h
        · rename_i merged hmerged
          have hnext : ∀ found, some merged = some found →
              SpeaksFor root stored found (s.or (truth R root stored other part)) := by
            rintro found ⟨⟩
            exact combineRequests_speaks hmerged (hsome existing rfl) hspeaks
          exact ih hrest (fun hc => by cases hc) hnext h

theorem executionCodeOrAtomRequest_speaks (predicate : ResolvedPredicate) :
    ∀ request, executionCodeOrAtomRequest R root predicate = .ok (some request) →
      SpeaksFor root stored request (truth R root stored other predicate) := by
  induction predicate using predicate_induction with
  | compare left op right =>
    intro request h
    rw [executionCodeOrAtomRequest] at h
    split at h
    · exact compare_speaks h
    · cases h
  | inList expr values =>
    intro request h
    exact inList_speaks h
  | boolExpr expr =>
    intro request h
    exact boolExpr_speaks h
  | or parts ih =>
    intro request h
    obtain ⟨request?, hparts, hfilter⟩ := map_eq_ok_iff.mp h
    obtain rfl := (Option.filter_eq_some_iff.mp hfilter).1
    have hspeaks := executionCodeSamePathOrRequest_speaks ih (fun _ => rfl)
      (fun existing hnone => by cases hnone) hparts
    cases ht : Truth.any (truths R root stored other parts) <;>
      simpa [truth, ht, Truth.or] using hspeaks
  | nullCheck expr negated | exists_ expr | not inner ih | and parts ih =>
    intro request h
    cases h

theorem collectFromParts_matches {requests : List ExecutionCodePredicateRequest}
    (hparts : ∀ part ∈ parts, ∀ requests, collectExecutionCodePredicateRequests R root part =
      .ok requests → truth R root stored other part = .yes →
        ∀ request ∈ requests, request.objectTypeId = root ∧ Matches stored request)
    (h : collectFromParts R root parts = .ok requests)
    (hyes : Truth.all (truths R root stored other parts) = .yes) :
    ∀ request ∈ requests, request.objectTypeId = root ∧ Matches stored request := by
  induction parts generalizing requests with
  | nil =>
    cases h
    nofun
  | cons part rest ih =>
    obtain ⟨hpart, hrest⟩ := forall_mem_cons.mp hparts
    obtain ⟨hyespart, hyesrest⟩ := (and_yes_iff _ _).mp hyes
    obtain ⟨first, hfirst, h⟩ := bind_eq_ok_iff.mp h
    obtain ⟨others, hothers, rfl⟩ := map_eq_ok_iff.mp h
    intro request hrequest
    rcases mem_append.mp hrequest with hmem | hmem
    · exact hpart first hfirst hyespart request hmem
    · exact ih hrest hothers hyesrest request hmem

theorem matches_of_request {request? : Except BuildExecutionError (Option ExecutionCodePredicateRequest)}
    {requests : List ExecutionCodePredicateRequest} {t : Truth}
    (hspeaks : ∀ request, request? = .ok (some request) → SpeaksFor root stored request t)
    (h : request?.map Option.toList = .ok requests) (ht : t = .yes) :
    ∀ request ∈ requests, request.objectTypeId = root ∧ Matches stored request := by
  intro request hrequest
  obtain ⟨found, hfound, rfl⟩ := map_eq_ok_iff.mp h
  obtain rfl := Option.mem_toList.mp hrequest
  exact (hspeaks request hfound).matches ht

theorem collected_matches (predicate : ResolvedPredicate) :
    ∀ requests, collectExecutionCodePredicateRequests R root predicate = .ok requests →
      truth R root stored other predicate = .yes →
        ∀ request ∈ requests, request.objectTypeId = root ∧ Matches stored request := by
  induction predicate using predicate_induction with
  | compare left op right | or parts ih =>
    exact fun requests h => matches_of_request (executionCodeOrAtomRequest_speaks _) h
  | inList expr values => exact fun requests h => matches_of_request (fun _ => inList_speaks) h
  | boolExpr expr => exact fun requests h => matches_of_request (fun _ => boolExpr_speaks) h
  | not inner ih =>
    intro requests h hyes request hrequest
    obtain ⟨request?, hnot, rfl⟩ := map_eq_ok_iff.mp h
    obtain ⟨atom?, hatom, rfl⟩ := map_eq_ok_iff.mp hnot
    obtain ⟨atom, rfl, rfl⟩ := Option.map_eq_some_iff.mp (Option.mem_toList.mp hrequest)
    exact (executionCodeOrAtomRequest_speaks inner atom hatom).inverted.matches hyes
  | and parts ih =>
    intro requests h hyes
    exact collectFromParts_matches ih h hyes
  | nullCheck expr negated | exists_ expr =>
    intro requests h hyes
    cases h
    nofun

end CoveFormat.FileCodeRequests
