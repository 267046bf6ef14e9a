import CoveFormat.CanonicalIdentity
import CoveFormat.ExprLowering
import CoveFormat.Kleene

namespace CoveFormat.LoweredFilters

open ByteCodes Canonical CoveTypes ExprLowering Floats JsonValue Kleene LikePatterns NumCodes
open MorselScan (NullPredicateKind CoveFilterUse)
open EncodedArrays (logicalTypeFixedWidth)

/-! Rows and literals by their values. -/

abbrev Extended := WithBot (WithTop ℤ)

inductive Point
  | number (value : Extended)
  | bytes (value : Bytes)
  | bool (value : Bool)
  deriving DecidableEq

def whole (n : Int) : Extended := ((n * f64One : ℤ) : WithTop ℤ)

def floatNumber (bits : Nat) : Option Extended :=
  if f64IsNan bits then none
  else if f64IsInfinite bits then some (if f64IsNegative bits then ⊥ else ((⊤ : WithTop ℤ) : Extended))
  else some ((f64Units bits : WithTop ℤ) : Extended)

def typedNumber : NativeTypedNumericValue → Option Extended
  | .signed value | .unsigned value => some (whole value)
  | .float bits => floatNumber bits

def codeNumber (logical : CoveLogicalType) (code : UInt64) : Option Extended :=
  (typedNativeNumcodeValue logical code.toNat).bind typedNumber

def valuePoint {P : TextPredicates} : CanonicalValue P → Option Point
  | .bool value => some (.bool value)
  | .int _ value | .uint _ value => some (.number (whole value))
  | .float32 bits => (floatNumber (f64OfF32 bits.toNat)).map .number
  | .float64 bits => (floatNumber bits.toNat).map .number
  | .decimal64 value | .timestampMicros value | .timestampNanos value | .decimal128 value | .dateDays value =>
    some (.number (whole value.toInt))
  | .uuid bytes => some (.bytes bytes.val)
  | .utf8 text | .json text => some (.bytes text.val)
  | .bytes value => some (.bytes value)
  | _ => none

/-- What a row holds in a column: the code of a number, bytes, a text, or else the value itself, as
the value of a file code. -/
inductive Cell (P : TextPredicates)
  | null
  | code (code : UInt64)
  | canonical (value : CanonicalValue P)
  | bytes (value : Bytes)
  | text (value : String)

namespace Cell

variable {P : TextPredicates}

def isNull : Cell P → Bool
  | .null => true
  | _ => false

def number (logical : CoveLogicalType) : Cell P → Option Extended
  | .code value => codeNumber logical value
  | _ => none

def key : Cell P → Option Bytes
  | .canonical value => (encodeTagged value).toOption
  | _ => none

def stored : Cell P → Option Bytes
  | .bytes value => some value
  | .text value => some (utf8 value.toList)
  | _ => none

end Cell

def bytesPoint (logical : CoveLogicalType) (bytes : Bytes) : Point :=
  if logical = .decimal128 then .number (whole (signed 128 (leNat bytes))) else .bytes bytes

def cellPoint {P : TextPredicates} (logical : CoveLogicalType) : Cell P → Option Point
  | .null => none
  | .code code => (codeNumber logical code).map .number
  | .canonical value => valuePoint value
  | .bytes value => some (bytesPoint logical value)
  | .text value => some (.bytes (utf8 value.toList))

def literalPoint (logical : CoveLogicalType) : LowerLiteral → Option Point
  | .null => none
  | .boolean value => some (.bool value)
  | .int128 value | .int64 value => some (.number (whole value.toInt))
  | .uint64 value => some (.number (whole value.toNat))
  | .float64 bits => (floatNumber bits.toNat).map .number
  | .binary value => some (bytesPoint logical value)
  | .utf8 value =>
    match logical with
    | .utf8 | .json => some (.bytes (utf8 value.toList))
    | .uuid => (parseUuidLiteral value).toOption.map fun uuid => .bytes uuid.val
    | _ => (textNumber value).map fun n => .number (whole n)

def ordered {α : Type} [LinearOrder α] (op : LowerOperator) (a b : α) : Bool :=
  match op with
  | .eq => a = b
  | .notEq => a ≠ b
  | .lt => a < b
  | .ltEq => a ≤ b
  | .gt => b < a
  | .gtEq => b ≤ a

def compares (op : LowerOperator) : Point → Point → Truth
  | .number a, .number b | .bytes a, .bytes b | .bool a, .bool b => Truth.ofBool (ordered op a b)
  | _, _ => .unknown

def comparison {P : TextPredicates} (logical : CoveLogicalType) (cell : Cell P) (op : LowerOperator)
    (literal : LowerLiteral) : Truth :=
  match cellPoint logical cell, literalPoint logical literal with
  | some a, some b => compares op a b
  | _, _ => .unknown

/-! The truth of an expression on a row, where `outside` is that of what is never lowered. -/

section Truth

variable (T : Texts) (state : DatasetState) (row : Nat → Cell T.toTextPredicates)
  (outside : LowerExpr → Truth)

def binaryTruth (left : LowerExpr) (op : LowerOperator) (right : LowerExpr) : Truth :=
  match columnLiteral state left right with
  | some (found, literal) => comparison found.1.logical (row found.2) op literal
  | none =>
    match columnLiteral state right left with
    | some (found, literal) => comparison found.1.logical (row found.2) (flipOp op) literal
    | none => outside (.binary left op right)

def inListTruth (expr : LowerExpr) (list : List LowerExpr) : Truth :=
  Truth.any (list.map fun item => binaryTruth T state row outside expr .eq item)

def nullTruth (input : LowerExpr) : Truth :=
  match topLevelColumn state input with
  | some found => Truth.ofBool (row found.2).isNull
  | none => outside (.isNull input)

def likeTruth (expr pattern : LowerExpr) (caseInsensitive : Bool) (escapeChar : Option Char) : Truth :=
  match topLevelColumn state expr, literalOf pattern with
  | some found, some (.utf8 text) =>
    if caseInsensitive then outside (.like expr pattern false caseInsensitive escapeChar)
    else
      match row found.2, likeTokens (escapeChar.getD defaultEscape) text.toList with
      | .text value, some tokens => Truth.ofBool (tokensMatch tokens value.toList)
      | _, _ => .unknown
  | _, _ => outside (.like expr pattern false caseInsensitive escapeChar)

def negatedIf (negated : Bool) (t : Truth) : Truth := if negated then t.not else t

mutual

def exprTruth : LowerExpr → Truth
  | .and children => Truth.all (exprTruths children)
  | .or children => Truth.any (exprTruths children)
  | .isNull input => nullTruth T state row outside input
  | .isNotNull input => (nullTruth T state row outside input).not
  | .binary left op right => binaryTruth T state row outside left op right
  | .between expr low high =>
    (binaryTruth T state row outside expr .gtEq low).and
      (binaryTruth T state row outside expr .ltEq high)
  | .inList expr list negated => negatedIf negated (inListTruth T state row outside expr list)
  | .like expr pattern negated caseInsensitive escapeChar =>
    negatedIf negated (likeTruth T state row outside expr pattern caseInsensitive escapeChar)
  | expr => outside expr

def exprTruths : List LowerExpr → List Truth
  | [] => []
  | child :: children => exprTruth child :: exprTruths children

end

end Truth

/-! What the predicates select. -/

section Predicates

variable {P : TextPredicates} (state : DatasetState) (row : Nat → Cell P)

def predicateNumber : PredicateLiteral → Option Extended
  | .int64 value => some (whole value.toInt)
  | .uint64 value => some (whole value.toNat)
  | .float64 bits => floatNumber bits.toNat

def lowerOp : NumericPredicateOp → LowerOperator
  | .eq => .eq
  | .lt => .lt
  | .ltEq => .ltEq
  | .gt => .gt
  | .gtEq => .gtEq

def equalsNumber (n : Extended) (literal : PredicateLiteral) : Bool :=
  (predicateNumber literal).any fun m => n = m

def numberAt (i : Nat) : Option Extended :=
  (state.columns[i]?).bind fun column => (row i).number column.logical

def predicateHolds : CovePredicate → Bool
  | .null i .isNull => (row i).isNull
  | .null i .isNotNull => !(row i).isNull
  | .numeric i op literal =>
    (numberAt state row i).any fun n => (predicateNumber literal).any fun m => ordered (lowerOp op) n m
  | .numericIn i literals => (numberAt state row i).any fun n => literals.any (equalsNumber n)
  | .numericNotIn i literals => (numberAt state row i).any fun n => !literals.any (equalsNumber n)
  | .fileCodeIn i _ _ canonicalKeys => (row i).key.any fun key => key ∈ canonicalKeys
  | .fileCodeNotIn i _ _ canonicalKeys => (row i).key.any fun key => key ∉ canonicalKeys
  | .fixedBytesEq i literal | .varBytesEq i literal => (row i).stored.any fun value => value = literal
  | .fixedBytesIn i literals | .varBytesIn i literals =>
    (row i).stored.any fun value => value ∈ literals
  | .varBytesPrefix i start => (row i).stored.any fun value => start <+: value

mutual

def predicateExprHolds : CovePredicateExpr → Bool
  | .atom predicate => predicateHolds state row predicate
  | .and exprs => allHold exprs
  | .or exprs => anyHolds exprs

def allHold : List CovePredicateExpr → Bool
  | [] => true
  | expr :: exprs => predicateExprHolds expr && allHold exprs

def anyHolds : List CovePredicateExpr → Bool
  | [] => false
  | expr :: exprs => predicateExprHolds expr || anyHolds exprs

end

/-- The predicate of a filter and its expression are true on the row. -/
def Satisfied (filter : FilterPlan) : Prop :=
  (∀ predicate ∈ filter.predicate, predicateHolds state row predicate = true) ∧
    ∀ expr ∈ filter.predicateExpr, predicateExprHolds state row expr = true

end Predicates

/-! The rows of a table. -/

def tagsOf : CoveLogicalType → List ValueTag
  | .bool => [.boolFalse, .boolTrue]
  | .int8 | .int16 | .int32 | .int64 => [.int64]
  | .uint8 | .uint16 | .uint32 | .uint64 => [.uint64]
  | .float32 => [.float32Bits]
  | .float64 => [.float64Bits]
  | .decimal64 => [.decimal64]
  | .decimal128 => [.decimal128]
  | .dateDays => [.dateDays]
  | .timestampMicros => [.timestampMicros]
  | .timestampNanos => [.timestampNanos]
  | .utf8 => [.utf8]
  | .binary => [.binary]
  | .uuid => [.uuid]
  | .json => [.json]
  | .list => [.list]
  | .struct => [.struct]
  | .map => [.map]
  | .null => [.null]

/-- A cell of a column: numbers are not NaN, values of file codes are entries of the column's type. -/
def CellTyped {P : TextPredicates} (column : TableColumn) : Cell P → Prop
  | .null => True
  | .code code => column.physical = .numCode ∧ (codeNumber column.logical code).isSome
  | .canonical value =>
    (column.physical ≠ .numCode ∧ column.physical ≠ .fixedBytes ∧ column.physical ≠ .varBytes) ∧
    value.valueTag ∈ tagsOf column.logical ∧ (∃ payload, encode value = .ok payload) ∧
    (value.valueTag = .float32Bits ∨ value.valueTag = .float64Bits → (valuePoint value).isSome)
  | .bytes value =>
    (column.physical = .fixedBytes ∧
        ∀ width, logicalTypeFixedWidth column.logical = some width → value.length = width) ∨
      (column.physical = .varBytes ∧ column.logical ≠ .utf8)
  | .text _ => column.physical = .varBytes ∧ column.logical = .utf8

def NotNan (literal : LowerLiteral) : Prop :=
  ∀ bits, literal = .float64 bits → f64IsNan bits.toNat = false

/-- A float literal beside a column of file codes stands for the value of the row where it has the
bits that the literal is lowered to, and only there. -/
def KeysAgree {P : TextPredicates} (column : TableColumn) (cell : Cell P) (literal : LowerLiteral) :
    Prop :=
  column.physical = .fileCode → ∀ bits, literal = .float64 bits →
    match column.logical, cell with
    | .float32, .canonical (.float32 value) =>
      floatNumber (f64OfF32 value.toNat) = floatNumber bits.toNat ↔ value.toNat = narrowed bits.toNat
    | .float64, .canonical (.float64 value) =>
      floatNumber value.toNat = floatNumber bits.toNat ↔ value.toNat = bits.toNat
    | _, _ => True

section Comparisons

variable (state : DatasetState)

def binaryComparisons (left right : LowerExpr) : List ((TableColumn × Nat) × LowerLiteral) :=
  (columnLiteral state left right).toList ++ (columnLiteral state right left).toList

mutual

/-- The columns and literals whose equality is lowered to one of canonical keys. -/
def canonicalComparisons : LowerExpr → List ((TableColumn × Nat) × LowerLiteral)
  | .and children | .or children => childComparisons children
  | .binary left op right =>
    if op = .eq ∨ op = .notEq then binaryComparisons state left right else []
  | .inList expr list _ => list.flatMap fun item => binaryComparisons state expr item
  | _ => []

def childComparisons : List LowerExpr → List ((TableColumn × Nat) × LowerLiteral)
  | [] => []
  | child :: children => canonicalComparisons child ++ childComparisons children

end

end Comparisons

end CoveFormat.LoweredFilters
