import CoveFormat.LikePatterns
import CoveFormat.MorselScan

namespace CoveFormat.ExprLowering

open ByteCodes Canonical CoveTypes ExceptRules Floats JsonValue LikePatterns NumCodes SortedKeys
  Wire
open MorselScan (NullPredicateKind CoveFilterUse)
open EncodedArrays (logicalTypeFixedWidth)

inductive LowerOperator
  | eq
  | notEq
  | lt
  | ltEq
  | gt
  | gtEq
  deriving DecidableEq

inductive LowerLiteral
  | null
  | boolean (value : Bool)
  | binary (value : Bytes)
  | int128 (value : BitVec 128)
  | int64 (value : Int64)
  | uint64 (value : UInt64)
  | float64 (bits : UInt64)
  | utf8 (value : String)

inductive LowerExpr
  | column (name : String)
  | literal (value : LowerLiteral)
  | isNull (input : LowerExpr)
  | isNotNull (input : LowerExpr)
  | and (children : List LowerExpr)
  | or (children : List LowerExpr)
  | binary (left : LowerExpr) (op : LowerOperator) (right : LowerExpr)
  | between (expr low high : LowerExpr)
  | inList (expr : LowerExpr) (list : List LowerExpr) (negated : Bool)
  | like (expr pattern : LowerExpr) (negated caseInsensitive : Bool) (escapeChar : Option Char)
  | unsupported (reason : String)

inductive CovePredicate
  | null (columnIndex : Nat) (kind : NullPredicateKind)
  | numeric (columnIndex : Nat) (op : NumericPredicateOp) (literal : PredicateLiteral)
  | numericIn (columnIndex : Nat) (literals : List PredicateLiteral)
  | numericNotIn (columnIndex : Nat) (literals : List PredicateLiteral)
  | fileCodeIn (columnIndex : Nat) (fileCodes : List UInt32) (canonicalValues canonicalKeys : List Bytes)
  | fileCodeNotIn (columnIndex : Nat) (fileCodes : List UInt32)
      (canonicalValues canonicalKeys : List Bytes)
  | fixedBytesEq (columnIndex : Nat) (literal : Bytes)
  | fixedBytesIn (columnIndex : Nat) (literals : List Bytes)
  | varBytesEq (columnIndex : Nat) (literal : Bytes)
  | varBytesIn (columnIndex : Nat) (literals : List Bytes)
  | varBytesPrefix (columnIndex : Nat) (start : Bytes)

inductive CovePredicateExpr
  | atom (predicate : CovePredicate)
  | and (exprs : List CovePredicateExpr)
  | or (exprs : List CovePredicateExpr)

structure FilterPlan where
  useKind : CoveFilterUse
  predicateColumns : List Nat
  display : String
  predicate : Option CovePredicate
  predicateExpr : Option CovePredicateExpr

structure FilterLowering where
  filters : List FilterPlan
  fallbacks : Nat

structure TableColumn where
  name : String
  logical : CoveLogicalType
  physical : CovePhysicalKind
  nullable : Bool

structure FileState where
  (hasRedaction hasReverseLookup : Bool)

structure DatasetState where
  columns : List TableColumn
  files : List FileState

/-! Filter plans. -/

def PredicateLiteral.normalized : PredicateLiteral → PredicateLiteral
  | .float64 bits => if f64Magnitude bits.toNat = 0 then .float64 0 else .float64 bits
  | literal => literal

def normalizeNumericLiterals (literals : List PredicateLiteral) : List PredicateLiteral :=
  literals.foldl (fun out literal =>
    let literal := PredicateLiteral.normalized literal
    if literal ∈ out then out else out ++ [literal]) []

def sortedSet {α : Type} [LinearOrder α] (values : List α) : List α :=
  dedupAdjacent (sortByKey id values)

namespace FilterPlan

def unsupported (display : String) : FilterPlan := ⟨.unsupported, [], display, none, none⟩

def pruningExpr (predicateColumns : List Nat) (expr : CovePredicateExpr) (display : String) :
    FilterPlan :=
  ⟨.pruningOnly, predicateColumns, display, none, some expr⟩

def pruning (columnIndex : Nat) (predicate : CovePredicate) (display : String) : FilterPlan :=
  ⟨.pruningOnly, [columnIndex], display, some predicate, some (.atom predicate)⟩

variable (i : Nat)

def pruningNull (kind : NullPredicateKind) : String → FilterPlan := pruning i (.null i kind)

def pruningNumeric (op : NumericPredicateOp) (literal : PredicateLiteral) : String → FilterPlan :=
  pruning i (.numeric i op (PredicateLiteral.normalized literal))

def pruningNumericIn (literals : List PredicateLiteral) : String → FilterPlan :=
  pruning i (.numericIn i (normalizeNumericLiterals literals))

def pruningNumericNotIn (literals : List PredicateLiteral) : String → FilterPlan :=
  pruning i (.numericNotIn i (normalizeNumericLiterals literals))

def pruningFileCodeIn (canonicalValues canonicalKeys : List Bytes) : String → FilterPlan :=
  pruning i (.fileCodeIn i [] (sortedSet canonicalValues) (sortedSet canonicalKeys))

def pruningFileCodeNotIn (canonicalValues canonicalKeys : List Bytes) : String → FilterPlan :=
  pruning i (.fileCodeNotIn i [] (sortedSet canonicalValues) (sortedSet canonicalKeys))

def pruningVarbytesEq (literal : Bytes) : String → FilterPlan :=
  pruning i (.varBytesEq i literal)

def pruningVarbytesIn (literals : List Bytes) : String → FilterPlan :=
  pruning i (.varBytesIn i (sortedSet literals))

def pruningVarbytesPrefix (start : Bytes) : String → FilterPlan :=
  pruning i (.varBytesPrefix i start)

def pruningFixedBytesEq (literal : Bytes) : String → FilterPlan :=
  pruning i (.fixedBytesEq i literal)

def pruningFixedBytesIn (literals : List Bytes) : String → FilterPlan :=
  pruning i (.fixedBytesIn i (sortedSet literals))

end FilterPlan

def nonFloatNumericComplementSupported (logical : CoveLogicalType) : Bool :=
  logical ≠ .float32 && logical ≠ .float64

section

variable (state : DatasetState)

def onColumn (i : Nat) (test : TableColumn → Bool) : Bool := (state.columns[i]?).any test

def fileCodeExact (i : Nat) (canonicalValues : List Bytes) : Bool :=
  onColumn state i (fun column => column.physical = .fileCode) &&
    !state.files.any FileState.hasRedaction &&
    (canonicalValues.isEmpty || state.files.all FileState.hasReverseLookup)

def filterExactness : Option CovePredicate → Bool
  | none => false
  | some (.null i _) => onColumn state i fun _ => true
  | some (.numeric i _ _) | some (.numericIn i _) =>
    onColumn state i fun column => column.physical = .numCode
  | some (.numericNotIn i _) =>
    onColumn state i fun column =>
      column.physical = .numCode && nonFloatNumericComplementSupported column.logical
  | some (.fileCodeIn i _ canonicalValues _) | some (.fileCodeNotIn i _ canonicalValues _) =>
    fileCodeExact state i canonicalValues
  | some (.fixedBytesEq i _) | some (.fixedBytesIn i _) =>
    onColumn state i fun column => column.physical = .fixedBytes
  | some (.varBytesEq i _) | some (.varBytesIn i _) | some (.varBytesPrefix i _) =>
    onColumn state i fun column => column.physical = .varBytes && column.logical = .utf8

def promoteFilterExactness (filter : FilterPlan) : FilterPlan :=
  if filter.useKind = .unsupported then filter
  else
    { filter with
      useKind := if filterExactness state filter.predicate then .fullRowPredicateExact
        else .pruningOnly }

end

/-! Literals. -/

/-- The white space that `trim` takes off. -/
def isWhiteSpace (c : Char) : Bool :=
  let n := c.toNat
  (9 ≤ n && n ≤ 13) || n = 32 || n = 0x85 || n = 0xa0 || n = 0x1680 || (0x2000 ≤ n && n ≤ 0x200a) ||
    n = 0x2028 || n = 0x2029 || n = 0x202f || n = 0x205f || n = 0x3000

def trim (chars : List Char) : List Char :=
  ((chars.dropWhile isWhiteSpace).reverse.dropWhile isWhiteSpace).reverse

def hexNibble (byte : UInt8) : Except CoveError UInt8 :=
  if 48 ≤ byte ∧ byte ≤ 57 then .ok (byte - 48)
  else if 97 ≤ byte ∧ byte ≤ 102 then .ok (byte - 97 + 10)
  else if 65 ≤ byte ∧ byte ≤ 70 then .ok (byte - 65 + 10)
  else .error (.unsupportedEncoding "uuid literal contains invalid hex")

def hexBytes : Bytes → Except CoveError Bytes
  | high :: low :: rest => do
      let h ← hexNibble high
      let l ← hexNibble low
      let bytes ← hexBytes rest
      .ok ((h <<< 4 ||| l) :: bytes)
  | _ => .ok []

theorem hexBytes_length {bytes out : Bytes} (h : hexBytes bytes = .ok out) :
    out.length = bytes.length / 2 := by
  fun_induction hexBytes bytes generalizing out with
  | case1 high low rest ih =>
    obtain ⟨_, -, h⟩ := of_andThen h
    obtain ⟨_, -, h⟩ := of_andThen h
    obtain ⟨tail, htail, h⟩ := of_andThen h
    cases h
    have hlength := ih htail
    simp only [List.length_cons]
    omega
  | case2 bytes hshort =>
    cases h
    match bytes, hshort with
    | [], _ => rfl
    | [_], _ => exact (Nat.div_eq_of_lt Nat.one_lt_two).symm
    | a :: b :: rest, hshort => exact absurd rfl (hshort a b rest)

def parseUuidLiteral (value : String) : Except CoveError {b : Bytes // b.length = 16} :=
  let compact := utf8 ((trim value.toList).filter (· ≠ '-'))
  if hlength : compact.length ≠ 32 then
    .error (.unsupportedEncoding "uuid literal must contain 32 hex characters")
  else
    match h : hexBytes compact with
    | .error e => .error e
    | .ok bytes => .ok ⟨bytes, by rw [hexBytes_length h, not_not.mp hlength]⟩

def parseDigits (chars : List Char) : Option Nat :=
  if chars = [] then none
  else chars.foldlM (fun n c => if c.isDigit then some (10 * n + (c.toNat - 48)) else none) 0

def textNumber (value : String) : Option Int :=
  match value.toList with
  | '-' :: digits => (parseDigits digits).map fun n => -(n : Int)
  | '+' :: digits | digits => (parseDigits digits).map Int.ofNat

def signedLiteral : LowerLiteral → Except CoveError Int
  | .int128 value | .int64 value => .ok value.toInt
  | .uint64 value => .ok value.toNat
  | .utf8 value =>
    match textNumber value with
    | some n =>
      if -2 ^ 127 ≤ n ∧ n < 2 ^ 127 then .ok n
      else .error (.unsupportedEncoding "literal cannot be parsed as signed integer")
    | none => .error (.unsupportedEncoding "literal cannot be parsed as signed integer")
  | _ => .error (.unsupportedEncoding "literal is not a signed integer")

def nonNegative (n : Int) : Except CoveError Nat :=
  if 0 ≤ n then .ok n.toNat
  else .error (.unsupportedEncoding "negative literal for unsigned type")

def unsignedLiteral : LowerLiteral → Except CoveError Nat
  | .int128 value | .int64 value => nonNegative value.toInt
  | .uint64 value => .ok value.toNat
  | .utf8 value =>
    -- a sign other than + is no digit here
    match if value.toList.head? = some '-' then none else textNumber value with
    | some n =>
      if n < 2 ^ 128 then .ok n.toNat
      else .error (.unsupportedEncoding "literal cannot be parsed as unsigned integer")
    | none => .error (.unsupportedEncoding "literal cannot be parsed as unsigned integer")
  | _ => .error (.unsupportedEncoding "literal is not an unsigned integer")

def inSigned (width : Nat) (text : String) (literal : LowerLiteral) : Except CoveError (BitVec width) := do
  let n ← signedLiteral literal
  if -2 ^ (width - 1) ≤ n ∧ n < 2 ^ (width - 1) then .ok (BitVec.ofInt width n)
  else .error (.unsupportedEncoding text)

def integerWidth : CoveLogicalType → Nat
  | .int8 | .uint8 => 1
  | .int16 | .uint16 => 2
  | .int32 | .uint32 => 4
  | _ => 8

/-- `as f32`; a NaN keeps the upper bits of its payload. -/
def narrowed (bits : Nat) : Nat :=
  if f64IsNan bits then
    (if f64IsNegative bits then 2 ^ 31 else 0) + 0x7fc00000 + bits % 2 ^ 51 / 2 ^ 29
  else f32OfF64 bits

/-- The bytes of every text are UTF-8. -/
structure Texts extends TextPredicates where
  utf8_text : ∀ chars, utf8Valid (utf8 chars)

def Texts.text (T : Texts) (value : String) : Str T.toTextPredicates :=
  ⟨utf8 value.toList, T.utf8_text _⟩

structure FileCodeCanonicalLiteral where
  (payload key : Bytes)
  deriving DecidableEq

section

variable (T : Texts)

def taggedKey (tag : ValueTag) (payload : Bytes) : Bytes := encodeU64Leb128 tag.code ++ payload

def taggedCanonicalLiteral (value : CanonicalValue T.toTextPredicates) :
    Except CoveError FileCodeCanonicalLiteral := do
  let payload ← encode value
  .ok ⟨payload, taggedKey value.valueTag payload⟩

/-- The value of the column's type that a literal stands for; `none` is NULL. -/
def canonicalValue (logical : CoveLogicalType) (literal : LowerLiteral) :
    Except CoveError (Option (CanonicalValue T.toTextPredicates)) :=
  match logical, literal with
  | _, .null => .ok none
  | .utf8, .utf8 value => .ok (some (.utf8 (T.text value)))
  | .binary, .binary value => .ok (some (.bytes value))
  | .json, .utf8 value => .ok (some (.json (T.text value)))
  | .uuid, .utf8 value => do
      let uuid ← parseUuidLiteral value
      .ok (some (.uuid uuid))
  | .uuid, .binary value =>
    if h : value.length = 16 then .ok (some (.uuid ⟨value, h⟩))
    else .error (.unsupportedEncoding "unsupported FileCode literal for Uuid")
  | .bool, .boolean value => .ok (some (.bool value))
  | .int8, literal | .int16, literal | .int32, literal | .int64, literal => do
      let n ← signedLiteral literal
      .ok (some (.int (integerWidth logical) n))
  | .uint8, literal | .uint16, literal | .uint32, literal | .uint64, literal => do
      let n ← unsignedLiteral literal
      .ok (some (.uint (integerWidth logical) n))
  | .float32, .float64 bits => .ok (some (.float32 (BitVec.ofNat 32 (narrowed bits.toNat))))
  | .float64, .float64 bits => .ok (some (.float64 bits.toBitVec))
  | .decimal64, literal => do
      let value ← inSigned 64 "decimal64 literal out of range" literal
      .ok (some (.decimal64 value))
  | .decimal128, literal => do
      let n ← signedLiteral literal
      .ok (some (.decimal128 (BitVec.ofInt 128 n)))
  | .dateDays, literal => do
      let value ← inSigned 32 "date_days literal out of range" literal
      .ok (some (.dateDays value))
  | .timestampMicros, literal => do
      let value ← inSigned 64 "timestamp_micros literal out of range" literal
      .ok (some (.timestampMicros value))
  | .timestampNanos, literal => do
      let value ← inSigned 64 "timestamp_nanos literal out of range" literal
      .ok (some (.timestampNanos value))
  | _, _ => .error (.unsupportedEncoding "unsupported FileCode literal")

def canonicalLiteral (logical : CoveLogicalType) (literal : LowerLiteral) :
    Except CoveError (Option FileCodeCanonicalLiteral) := do
  match ← canonicalValue T logical literal with
  | none => .ok none
  | some value => do
      let tagged ← taggedCanonicalLiteral T value
      .ok (some tagged)

def fileCodeCanonicalLiteral : CoveLogicalType → LowerLiteral →
    Except CoveError (Option FileCodeCanonicalLiteral) :=
  canonicalLiteral T

end

def numericLiteral : LowerLiteral → Option PredicateLiteral
  | .int128 value =>
    if -2 ^ 63 ≤ value.toInt ∧ value.toInt < 2 ^ 63 then some (.int64 (Int64.ofInt value.toInt))
    else none
  | .int64 value => some (.int64 value)
  | .uint64 value => some (.uint64 value)
  | .float64 bits =>
    if f64IsNan bits.toNat then none else some (PredicateLiteral.normalized (.float64 bits))
  | _ => none

/-- A comparison other than `≠`, which is lowered in another way. -/
def numericOp : LowerOperator → NumericPredicateOp
  | .eq | .notEq => .eq
  | .lt => .lt
  | .ltEq => .ltEq
  | .gt => .gt
  | .gtEq => .gtEq

def fixedBytesValue (expected : Nat) : CoveLogicalType → LowerLiteral → Option Bytes
  | .uuid, .utf8 value => (parseUuidLiteral value).toOption.map Subtype.val
  | .uuid, .binary value => if value.length = expected then some value else none
  | .decimal128, .int128 value => some (leBytes 16 value.toNat)
  | .decimal128, .binary value => if value.length = expected then some value else none
  | _, _ => none

def fixedBytesLiteral (logical : CoveLogicalType) (literal : LowerLiteral) : Option Bytes := do
  let expected ← logicalTypeFixedWidth logical
  let value ← fixedBytesValue expected logical literal
  if value.length = expected then some value else none

def utf8Literal : LowerLiteral → Option Bytes
  | .utf8 value => some (utf8 value.toList)
  | _ => none

def flipOp : LowerOperator → LowerOperator
  | .eq => .eq
  | .notEq => .notEq
  | .lt => .gt
  | .ltEq => .gtEq
  | .gt => .lt
  | .gtEq => .ltEq

def isTopLevelScalar (logical : CoveLogicalType) (physical : CovePhysicalKind) : Bool :=
  logical ≠ .list && logical ≠ .struct && logical ≠ .map &&
    physical ≠ .list && physical ≠ .struct && physical ≠ .map

/-! Filters of one column and literals. -/

section

variable (T : Texts) (state : DatasetState)

def topLevelColumn : LowerExpr → Option (TableColumn × Nat)
  | .column name => state.columns.zipIdx.find? fun candidate => candidate.1.name = name
  | _ => none

def literalOf : LowerExpr → Option LowerLiteral
  | .literal value => some value
  | _ => none

def columnLiteral (column literal : LowerExpr) : Option ((TableColumn × Nat) × LowerLiteral) := do
  let found ← topLevelColumn state column
  let value ← literalOf literal
  some (found, value)

def classifyNullFilter (input : LowerExpr) (kind : NullPredicateKind) (display : String) : FilterPlan :=
  match topLevelColumn state input with
  | none => .unsupported display
  | some (column, i) =>
    if !isTopLevelScalar column.logical column.physical then .unsupported display
    else if kind = .isNotNull ∧ column.nullable = false then .unsupported display
    else .pruningNull i kind display

def classifyColumnLiteral (found : TableColumn × Nat) (op : LowerOperator) (literal : LowerLiteral)
    (display : String) : FilterPlan :=
  match found.1.physical with
  | .numCode =>
    match numericLiteral literal with
    | none => .unsupported display
    | some literal =>
      if op = .notEq then
        if !nonFloatNumericComplementSupported found.1.logical then .unsupported display
        else .pruningNumericNotIn found.2 [literal] display
      else .pruningNumeric found.2 (numericOp op) literal display
  | .fileCode =>
    match op, fileCodeCanonicalLiteral T found.1.logical literal with
    | .eq, .ok (some canonical) =>
      .pruningFileCodeIn found.2 [canonical.payload] [canonical.key] display
    | .eq, .ok none => .pruningFileCodeIn found.2 [] [] display
    | .notEq, .ok (some canonical) =>
      .pruningFileCodeNotIn found.2 [canonical.payload] [canonical.key] display
    | _, _ => .unsupported display
  | .varBytes =>
    if op = .eq ∧ found.1.logical = .utf8 then
      match utf8Literal literal with
      | none => .unsupported display
      | some value => .pruningVarbytesEq found.2 value display
    else .unsupported display
  | .fixedBytes =>
    if op = .eq then
      match fixedBytesLiteral found.1.logical literal with
      | none => .unsupported display
      | some value => .pruningFixedBytesEq found.2 value display
    else .unsupported display
  | _ => .unsupported display

def classifyBinaryFilter (left : LowerExpr) (op : LowerOperator) (right : LowerExpr)
    (display : String) : FilterPlan :=
  match columnLiteral state left right with
  | some (found, literal) => classifyColumnLiteral T found op literal display
  | none =>
    match columnLiteral state right left with
    | some (found, literal) => classifyColumnLiteral T found (flipOp op) literal display
    | none => .unsupported display

def itemsOf {α : Type} (take : LowerLiteral → Option α) (list : List LowerExpr) : Option (List α) :=
  list.mapM fun item => (literalOf item).bind take

def listPlan {α : Type} (items : Option (List α)) (nonEmpty : Bool) (plan : List α → String → FilterPlan)
    (display : String) : FilterPlan :=
  match items with
  | none => .unsupported display
  | some items => if nonEmpty && items.isEmpty then .unsupported display else plan items display

def classifyInListFilter (expr : LowerExpr) (list : List LowerExpr) (display : String) : FilterPlan :=
  match topLevelColumn state expr with
  | none => .unsupported display
  | some (column, i) =>
    match column.physical with
    | .fileCode =>
      -- NULL items are passed over
      listPlan (itemsOf (fun l => (fileCodeCanonicalLiteral T column.logical l).toOption) list) false
        (fun items => .pruningFileCodeIn i ((items.filterMap id).map (·.payload))
          ((items.filterMap id).map (·.key))) display
    | .numCode => listPlan (itemsOf numericLiteral list) false (.pruningNumericIn i) display
    | .fixedBytes =>
      listPlan (itemsOf (fixedBytesLiteral column.logical) list) true (.pruningFixedBytesIn i) display
    | .varBytes =>
      if column.logical = .utf8 then
        listPlan (itemsOf utf8Literal list) true (.pruningVarbytesIn i) display
      else .unsupported display
    | _ => .unsupported display

def classifyNotInListFilter (expr : LowerExpr) (list : List LowerExpr) (display : String) : FilterPlan :=
  match topLevelColumn state expr with
  | none => .unsupported display
  | some (column, i) =>
    match column.physical with
    | .numCode =>
      if !nonFloatNumericComplementSupported column.logical then .unsupported display
      else listPlan (itemsOf numericLiteral list) true (.pruningNumericNotIn i) display
    | .fileCode =>
      listPlan (itemsOf (fun l => (fileCodeCanonicalLiteral T column.logical l).toOption.join) list)
        true (fun items => .pruningFileCodeNotIn i (items.map (·.payload)) (items.map (·.key)))
        display
    | _ => .unsupported display

def classifyLikeFilter (expr pattern : LowerExpr) (negated caseInsensitive : Bool)
    (escapeChar : Option Char) (display : String) : FilterPlan :=
  if negated || caseInsensitive then .unsupported display
  else
    match topLevelColumn state expr, literalOf pattern with
    | some (column, i), some (.utf8 pattern) =>
      if column.physical ≠ .varBytes ∨ column.logical ≠ .utf8 then .unsupported display
      else
        match exactLikeLiteral pattern.toList escapeChar with
        | some (.exact literal) => .pruningVarbytesEq i (utf8 literal) display
        | some (.start literal) => .pruningVarbytesPrefix i (utf8 literal) display
        | none => .unsupported display
    | _, _ => .unsupported display

def lowerAtomFilter (expr : LowerExpr) (display : String) : FilterPlan :=
  promoteFilterExactness state <|
    match expr with
    | .isNull input => classifyNullFilter state input .isNull display
    | .isNotNull input => classifyNullFilter state input .isNotNull display
    | .binary left op right => classifyBinaryFilter T state left op right display
    | .inList expr list false => classifyInListFilter T state expr list display
    | .inList expr list true => classifyNotInListFilter T state expr list display
    | .like expr pattern negated caseInsensitive escapeChar =>
      classifyLikeFilter state expr pattern negated caseInsensitive escapeChar display
    | _ => .unsupported display

end

/-! OR of equalities of one column. -/

section

variable (T : Texts) (state : DatasetState)

/-- The loop over the children: each is an equality of the same column, of the right kind, with a
literal that can be taken. -/
def sameColumnEqualities {α : Type} (accepts : TableColumn → Bool)
    (take : TableColumn → LowerLiteral → Option α) :
    Option Nat → List LowerExpr → Option (Option Nat × List α)
  | index, [] => some (index, [])
  | index, .binary left .eq right :: children => do
      let found ← (columnLiteral state left right).or (columnLiteral state right left)
      if accepts found.1.1 && index.all (· = found.1.2) then do
        let value ← take found.1.1 found.2
        let rest ← sameColumnEqualities accepts take (some found.1.2) children
        some (rest.1, value :: rest.2)
      else none
  | _, _ :: _ => none

/-- The plan of an OR of equalities, `None` where it is no such OR. -/
def sameColumnEqualityOr {α : Type} (accepts : TableColumn → Bool)
    (take : TableColumn → LowerLiteral → Option α) (plan : Nat → List α → FilterPlan)
    (children : List LowerExpr) : Option FilterPlan := do
  let found ← sameColumnEqualities state accepts take none children
  let columnIndex ← found.1
  some (promoteFilterExactness state (plan columnIndex found.2))

variable (children : List LowerExpr)

def classifySameColumnNumericEqualityOr (display : String) : Option FilterPlan :=
  sameColumnEqualityOr state (fun column => column.physical = .numCode) (fun _ => numericLiteral)
    (fun i literals => .pruningNumericIn i literals display) children

def classifySameColumnFilecodeEqualityOr (display : String) : Option FilterPlan :=
  sameColumnEqualityOr state (fun column => column.physical = .fileCode)
    (fun column literal => (fileCodeCanonicalLiteral T column.logical literal).toOption.join)
    (fun i literals =>
      .pruningFileCodeIn i (literals.map (·.payload)) (literals.map (·.key)) display) children

def classifySameColumnFixedBytesEqualityOr (display : String) : Option FilterPlan :=
  sameColumnEqualityOr state (fun column => column.physical = .fixedBytes)
    (fun column => fixedBytesLiteral column.logical)
    (fun i literals => .pruningFixedBytesIn i literals display) children

def classifySameColumnVarbytesEqualityOr (display : String) : Option FilterPlan :=
  sameColumnEqualityOr state (fun column => column.physical = .varBytes && column.logical = .utf8)
    (fun _ => utf8Literal) (fun i literals => .pruningVarbytesIn i literals display) children

def classifySameColumnEqualityOr (display : String) : Option FilterPlan :=
  (classifySameColumnNumericEqualityOr state children display).or <|
    (classifySameColumnFilecodeEqualityOr T state children display).or <|
      (classifySameColumnFixedBytesEqualityOr state children display).or
        (classifySameColumnVarbytesEqualityOr state children display)

end

/-! Expressions. -/

def predicateExprForFilters (filters : List FilterPlan) : Option CovePredicateExpr := do
  match ← filters.mapM FilterPlan.predicateExpr with
  | [] => none
  | [expr] => some expr
  | exprs => some (.and exprs)

def wholeExpr (child : FilterLowering) : Option CovePredicateExpr :=
  if child.fallbacks ≠ 0 ∨ child.filters.isEmpty then none else predicateExprForFilters child.filters

def FilterLowering.append (a b : FilterLowering) : FilterLowering :=
  ⟨a.filters ++ b.filters, a.fallbacks + b.fallbacks⟩

def fallback : FilterLowering := ⟨[], 1⟩

section Lowering

variable (T : Texts) (state : DatasetState)

def pushLoweredAtom (expr : LowerExpr) (display : String) : FilterLowering :=
  let filter := lowerAtomFilter T state expr display
  if filter.useKind = .unsupported then fallback else ⟨[filter], 0⟩

def lowerOr (children : List LowerExpr) (lowered : List FilterLowering) (display : String) :
    FilterLowering :=
  match classifySameColumnEqualityOr T state children display with
  | some filter => ⟨[filter], 0⟩
  | none =>
    match lowered.mapM wholeExpr with
    | none => fallback
    | some exprs =>
      let columns := lowered.flatMap fun child => child.filters.flatMap (·.predicateColumns)
      ⟨[.pruningExpr (sortedSet columns) (.or exprs) display], 0⟩

mutual

def lowerFilters : LowerExpr → String → FilterLowering
  | .and children, display => (lowerEach children display).foldr FilterLowering.append ⟨[], 0⟩
  | .between expr low high, display =>
    (pushLoweredAtom T state (.binary expr .gtEq low) (display ++ " lower")).append
      (pushLoweredAtom T state (.binary expr .ltEq high) (display ++ " upper"))
  | .or children, display => lowerOr T state children (lowerEach children display) display
  | .unsupported _, _ => fallback
  | expr, display => pushLoweredAtom T state expr display

def lowerEach : List LowerExpr → String → List FilterLowering
  | [], _ => []
  | child :: children, display => lowerFilters child display :: lowerEach children display

end

end Lowering

end CoveFormat.ExprLowering
