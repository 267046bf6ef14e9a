import CoveFormat.DepthFirstSearch
import CoveFormat.TakeReaders

namespace CoveFormat.PredicateAst

open ByteCodes CheckedArith DepthFirstSearch ExceptRules FixedFields List Relation TakeReaders

def absentId : UInt32 := 0xffffffff

inductive PredicateOpV2
  | trueLiteral
  | falseLiteral
  | isNull
  | isNotNull
  | eq
  | notEq
  | lt
  | ltEq
  | gt
  | gtEq
  | between
  | inSet
  | and
  | or
  | not
  | likePrefix
  | contains
  | isNaN
  | isFinite
  | functionCall
  | literalValue
  | columnRef
  | extension
  deriving DecidableEq

def PredicateOpV2.fromU16 : Nat → Option PredicateOpV2
  | 0 => some .trueLiteral
  | 1 => some .falseLiteral
  | 2 => some .isNull
  | 3 => some .isNotNull
  | 4 => some .eq
  | 5 => some .notEq
  | 6 => some .lt
  | 7 => some .ltEq
  | 8 => some .gt
  | 9 => some .gtEq
  | 10 => some .between
  | 11 => some .inSet
  | 12 => some .and
  | 13 => some .or
  | 14 => some .not
  | 15 => some .likePrefix
  | 16 => some .contains
  | 17 => some .isNaN
  | 18 => some .isFinite
  | 19 => some .functionCall
  | 20 => some .literalValue
  | 21 => some .columnRef
  | 255 => some .extension
  | _ => none

inductive PredicateNullPolicyV2
  | sqlWhere
  | nullExcluded
  | nullIncluded
  | nullOnly
  | nullRejected
  | extensionDefined
  deriving DecidableEq

def PredicateNullPolicyV2.fromU8 : Nat → Option PredicateNullPolicyV2
  | 0 => some .sqlWhere
  | 1 => some .nullExcluded
  | 2 => some .nullIncluded
  | 3 => some .nullOnly
  | 4 => some .nullRejected
  | 255 => some .extensionDefined
  | _ => none

inductive PredicateOperandKindV2
  | node
  | literal
  | literalList
  | columnOrPath
  | function
  | intervalSet
  | extension
  deriving DecidableEq

def PredicateOperandKindV2.fromU8 : Nat → Option PredicateOperandKindV2
  | 0 => some .node
  | 1 => some .literal
  | 2 => some .literalList
  | 3 => some .columnOrPath
  | 4 => some .function
  | 5 => some .intervalSet
  | 255 => some .extension
  | _ => none

structure PredicateAstPayloadHeaderV2 where
  (rootNodeId nodeCount literalCount literalListCount functionCount operandRefCount : UInt32)
  (nodeOffset literalOffset literalListOffset functionOffset operandRefOffset : UInt64)
  (flags checksum : UInt32)
  deriving DecidableEq

structure PredicateAstOperandRefV2 where
  parentNodeId : UInt32
  ordinal : UInt16
  operandKind : PredicateOperandKindV2
  flags : UInt8
  (refId checksum : UInt32)
  deriving DecidableEq

structure PredicateAstNodeV2 where
  nodeId : UInt32
  op : PredicateOpV2
  (flags resultLogicalType collationId : UInt16)
  nullPolicy : PredicateNullPolicyV2
  reserved0 : UInt8
  operandCount : UInt16
  (firstOperandIndex columnOrPathRef literalRef functionRef auxRef checksum : UInt32)
  deriving DecidableEq

structure PredicateLiteralV2 where
  literalId : UInt32
  (valueTag logicalType : UInt16)
  flags : UInt32
  canonicalValueOffset : UInt64
  (canonicalValueLength checksum : UInt32)
  deriving DecidableEq

structure PredicateLiteralListV2 where
  (literalListId firstLiteralIndex literalCount flags checksum : UInt32)
  deriving DecidableEq

structure PredicateFunctionRefV2 where
  functionRef : UInt32
  (nameSpace name : Bytes)
  (versionMajor versionMinor : UInt16)
  (deterministic flags : UInt8)
  (requiredExtensionRef checksum : UInt32)
  deriving DecidableEq

structure PredicateAstPayloadV2 where
  header : PredicateAstPayloadHeaderV2
  nodes : List PredicateAstNodeV2
  literals : List PredicateLiteralV2
  literalLists : List PredicateLiteralListV2
  functions : List PredicateFunctionRefV2
  operandRefs : List PredicateAstOperandRefV2
  deriving DecidableEq

def operandsOf (operands : List PredicateAstOperandRefV2) (node : PredicateAstNodeV2) :
    List PredicateAstOperandRefV2 :=
  (operands.drop node.firstOperandIndex.toNat).take node.operandCount.toNat

/-- The loop of `validate_unique_dense_ids`, over the ids of the items. -/
def uniqueDenseIdsFrom : Nat → Finset UInt32 → List UInt32 → Except CoveError Unit
  | _, _, [] => .ok ()
  | index, seen, id :: ids => do
      rejectIf (id.toNat ≠ index ∨ id ∈ seen) .badCoverage
      uniqueDenseIdsFrom (index + 1) (insert id seen) ids

def validateUniqueDenseIds (ids : List UInt32) : Except CoveError Unit := uniqueDenseIdsFrom 0 ∅ ids

def validateMirror (node : PredicateAstNodeV2) (operands : List PredicateAstOperandRefV2)
    (kind : PredicateOperandKindV2) (mirrorRef : UInt32) : Except CoveError Unit :=
  rejectIf (mirrorRef ≠ absentId ∧
    ¬ ∃ operand ∈ operandsOf operands node, operand.operandKind = kind ∧ operand.refId = mirrorRef)
    .badCoverage

def validateNodeOperands (node : PredicateAstNodeV2) (operands : List PredicateAstOperandRefV2) :
    Except CoveError Unit :=
  if node.operandCount = 0 then rejectIf (node.firstOperandIndex ≠ absentId) .badCoverage
  else do
    rejectIf (node.firstOperandIndex = absentId) .badCoverage
    rejectIf (operands.length < node.firstOperandIndex.toNat + node.operandCount.toNat) .badCoverage
    checkAll (fun (operand, expected) =>
      rejectIf (operand.parentNodeId ≠ node.nodeId ∨ operand.ordinal.toNat ≠ expected) .badCoverage)
      (operandsOf operands node).zipIdx
    validateMirror node operands .columnOrPath node.columnOrPathRef
    validateMirror node operands .literal node.literalRef
    validateMirror node operands .function node.functionRef

def validArity (op : PredicateOpV2) (count : UInt16) : Bool :=
  match op with
  | .trueLiteral | .falseLiteral => count == 0
  | .literalValue | .columnRef | .isNull | .isNotNull | .isNaN | .isFinite | .not => count == 1
  | .eq | .notEq | .lt | .ltEq | .gt | .gtEq | .likePrefix | .contains | .inSet => count == 2
  | .between => count == 3
  | .and | .or => 2 ≤ count
  | .functionCall => 1 ≤ count
  | .extension => false

def validateNodeArity (node : PredicateAstNodeV2) : Except CoveError Unit :=
  rejectIf (validArity node.op node.operandCount = false) .badCoverage

def childrenOf (payload : PredicateAstPayloadV2) (nodeId : UInt32) : Except CoveError (List UInt32) :=
  match payload.nodes[nodeId.toNat]? with
  | none => .error .badCoverage
  | some node => do
      rejectIf (node.nodeId ≠ nodeId) .badCoverage
      .ok (((operandsOf payload.operandRefs node).filter (·.operandKind = .node)).map (·.refId))

/-- The recursion is as deep as there are nodes at most, so it never runs out of fuel. -/
def validateAstAcyclic (payload : PredicateAstPayloadV2) : Except CoveError Unit :=
  match visit (childrenOf payload) .badCoverage (payload.nodes.length + 1) payload.header.rootNodeId
      ⟨∅, ∅⟩ with
  | .ok _ => .ok ()
  | .error e => .error (e.getD .badCoverage)

def PredicateAstPayloadV2.validate (payload : PredicateAstPayloadV2) : Except CoveError Unit := do
  validateUniqueDenseIds (payload.nodes.map (·.nodeId))
  validateUniqueDenseIds (payload.literals.map (·.literalId))
  validateUniqueDenseIds (payload.literalLists.map (·.literalListId))
  validateUniqueDenseIds (payload.functions.map (·.functionRef))
  rejectIf (payload.nodes.length ≤ payload.header.rootNodeId.toNat) .badCoverage
  checkAll (fun node => do
    validateNodeOperands node payload.operandRefs
    validateNodeArity node) payload.nodes
  validateAstAcyclic payload

section

-- The checksum of the checksum package, and `str::from_utf8` as a test.
variable (crc32c : Bytes → UInt32) (utf8Valid : Bytes → Bool)

/-- `ok_or(CoveError::BadCoverage)`. -/
def orBadCoverage {α : Type} (found : Option α) : Except CoveError α :=
  match found with
  | none => .error .badCoverage
  | some a => .ok a

section

variable (bytes : Bytes)

def PredicateAstPayloadHeaderV2.parse : Except CoveError PredicateAstPayloadHeaderV2 := do
  rejectIf (bytes.length < 72) .bufferTooShort
  let checksum ← verifyChecksumField crc32c (bytes.take 72) 68
  .ok
    { rootNodeId := readU32 bytes 0
      nodeCount := readU32 bytes 4
      literalCount := readU32 bytes 8
      literalListCount := readU32 bytes 12
      functionCount := readU32 bytes 16
      operandRefCount := readU32 bytes 20
      nodeOffset := readU64 bytes 24
      literalOffset := readU64 bytes 32
      literalListOffset := readU64 bytes 40
      functionOffset := readU64 bytes 48
      operandRefOffset := readU64 bytes 56
      flags := readU32 bytes 64
      checksum }

def PredicateAstOperandRefV2.parse : Except CoveError PredicateAstOperandRefV2 := do
  rejectIf (bytes.length < 16) .bufferTooShort
  let operandKind ← orBadCoverage (PredicateOperandKindV2.fromU8 (readU8 bytes 6).toNat)
  let checksum ← verifyChecksumField crc32c (bytes.take 16) 12
  .ok
    { parentNodeId := readU32 bytes 0
      ordinal := readU16 bytes 4
      operandKind
      flags := readU8 bytes 7
      refId := readU32 bytes 8
      checksum }

def PredicateAstNodeV2.parse : Except CoveError PredicateAstNodeV2 := do
  rejectIf (bytes.length < 40) .bufferTooShort
  let op ← orBadCoverage (PredicateOpV2.fromU16 (readU16 bytes 4).toNat)
  let nullPolicy ← orBadCoverage (PredicateNullPolicyV2.fromU8 (readU8 bytes 12).toNat)
  let checksum ← verifyChecksumField crc32c (bytes.take 40) 36
  rejectIf (readU8 bytes 13 ≠ 0) .badCoverage
  .ok
    { nodeId := readU32 bytes 0
      op
      flags := readU16 bytes 6
      resultLogicalType := readU16 bytes 8
      collationId := readU16 bytes 10
      nullPolicy
      reserved0 := readU8 bytes 13
      operandCount := readU16 bytes 14
      firstOperandIndex := readU32 bytes 16
      columnOrPathRef := readU32 bytes 20
      literalRef := readU32 bytes 24
      functionRef := readU32 bytes 28
      auxRef := readU32 bytes 32
      checksum }

def PredicateLiteralV2.parse : Except CoveError PredicateLiteralV2 := do
  rejectIf (bytes.length < 28) .bufferTooShort
  let checksum ← verifyChecksumField crc32c (bytes.take 28) 24
  let _ ← checkedAdd (readU64 bytes 12).toNat (readU32 bytes 20).toNat
  .ok
    { literalId := readU32 bytes 0
      valueTag := readU16 bytes 4
      logicalType := readU16 bytes 6
      flags := readU32 bytes 8
      canonicalValueOffset := readU64 bytes 12
      canonicalValueLength := readU32 bytes 20
      checksum }

def PredicateLiteralListV2.parse : Except CoveError PredicateLiteralListV2 := do
  rejectIf (bytes.length < 20) .bufferTooShort
  let checksum ← verifyChecksumField crc32c (bytes.take 20) 16
  .ok
    { literalListId := readU32 bytes 0
      firstLiteralIndex := readU32 bytes 4
      literalCount := readU32 bytes 8
      flags := readU32 bytes 12
      checksum }

end

/-- `Cursor::string`. -/
def takeString (len : Nat) : Reader Bytes := do
  let bytes ← take len
  refuseIf (utf8Valid bytes = false) .badCoverage
  return bytes

def takeFunctionRef : Reader PredicateFunctionRefV2 := do
  let functionRef ← takeU32
  let nameSpace ← takeString utf8Valid (← takeU16).toNat
  let name ← takeString utf8Valid (← takeU16).toNat
  let versionMajor ← takeU16
  let versionMinor ← takeU16
  let deterministic ← takeU8
  let flags ← takeU8
  let requiredExtensionRef ← takeU32
  let checksum ← takeU32
  return { functionRef, nameSpace, name, versionMajor, versionMinor, deterministic, flags,
           requiredExtensionRef, checksum }

def PredicateFunctionRefV2.parseOne (bytes : Bytes) : Except CoveError (PredicateFunctionRefV2 × Nat) := do
  let (item, rest) ← (takeFunctionRef utf8Valid).run bytes
  let consumed := bytes.length - rest.length
  let _ ← verifyChecksumField crc32c (bytes.take consumed) (consumed - 4)
  rejectIf (1 < item.deterministic) .badCoverage
  .ok (item, consumed)

def parseFixedTable {α : Type} (bytes : Bytes) (offset : UInt64) (count : UInt32) (itemLen : Nat)
    (parse : Bytes → Except CoveError α) : Except CoveError (List α) :=
  if count = 0 then do
    rejectIf (offset ≠ 0) .badCoverage
    .ok []
  else do
    let finish ← checkedAdd offset.toNat (count.toNat * itemLen)
    rejectIf (bytes.length < finish) .offsetRange
    (chunksExact itemLen count.toNat ((bytes.take finish).drop offset.toNat)).mapM parse

def parseFunctionsFrom (bytes : Bytes) : Nat → Nat → Except CoveError (List PredicateFunctionRefV2)
  | 0, _ => .ok []
  | count + 1, cursor => do
      -- Slicing from beyond the end panics in the source.
      rejectIf (bytes.length < cursor) .offsetRange
      let (item, consumed) ← PredicateFunctionRefV2.parseOne crc32c utf8Valid (bytes.drop cursor)
      rejectIf (consumed = 0) .badCoverage
      let cursor ← checkedAdd cursor consumed
      rejectIf (bytes.length < cursor) .offsetRange
      let items ← parseFunctionsFrom bytes count cursor
      .ok (item :: items)

def parseFunctionTable (bytes : Bytes) (offset : UInt64) (count : UInt32) :
    Except CoveError (List PredicateFunctionRefV2) :=
  if count = 0 then do
    rejectIf (offset ≠ 0) .badCoverage
    .ok []
  else parseFunctionsFrom crc32c utf8Valid bytes count.toNat offset.toNat

def PredicateAstPayloadV2.parse (bytes : Bytes) : Except CoveError PredicateAstPayloadV2 := do
  let header ← PredicateAstPayloadHeaderV2.parse crc32c bytes
  let nodes ← parseFixedTable bytes header.nodeOffset header.nodeCount 40
    (PredicateAstNodeV2.parse crc32c)
  let literals ← parseFixedTable bytes header.literalOffset header.literalCount 28
    (PredicateLiteralV2.parse crc32c)
  let literalLists ← parseFixedTable bytes header.literalListOffset header.literalListCount 20
    (PredicateLiteralListV2.parse crc32c)
  let operandRefs ← parseFixedTable bytes header.operandRefOffset header.operandRefCount 16
    (PredicateAstOperandRefV2.parse crc32c)
  let functions ← parseFunctionTable crc32c utf8Valid bytes header.functionOffset header.functionCount
  let payload : PredicateAstPayloadV2 := { header, nodes, literals, literalLists, functions, operandRefs }
  payload.validate
  .ok payload

variable (payload : PredicateAstPayloadV2)

/-- The operand's table has the entry it names. -/
def Refers (operand : PredicateAstOperandRefV2) : Prop :=
  match operand.operandKind with
  | .node => ∃ node ∈ payload.nodes, node.nodeId = operand.refId
  | .literal => ∃ literal ∈ payload.literals, literal.literalId = operand.refId
  | .literalList => ∃ list ∈ payload.literalLists, list.literalListId = operand.refId
  | .function => ∃ function ∈ payload.functions, function.functionRef = operand.refId
  | .columnOrPath | .intervalSet | .extension => True

/-- The nodes that the evaluation of the root comes to. -/
def Reachable (nodeId : UInt32) : Prop :=
  ReflTransGen (Child (childrenOf payload)) payload.header.rootNodeId nodeId

def OperandOf (nodeId : UInt32) (operand : PredicateAstOperandRefV2) : Prop :=
  ∃ node, payload.nodes[nodeId.toNat]? = some node ∧ operand ∈ operandsOf payload.operandRefs node

structure Evaluable : Prop where
  terminates : Terminates (childrenOf payload) payload.header.rootNodeId
  acyclic : ∀ nodeId, Reachable payload nodeId → ¬ TransGen (Child (childrenOf payload)) nodeId nodeId
  refers : ∀ nodeId, Reachable payload nodeId → ∀ operand, OperandOf payload nodeId operand →
    Refers payload operand
  ranges : ∀ node ∈ payload.nodes, node.operandCount ≠ 0 →
    node.firstOperandIndex.toNat + node.operandCount.toNat ≤ payload.operandRefs.length
  lists : ∀ list ∈ payload.literalLists,
    list.firstLiteralIndex.toNat + list.literalCount.toNat ≤ payload.literals.length

/-- The reference is past the end of a table that the parser does not look it up in. -/
def PastTable (operand : PredicateAstOperandRefV2) : Prop :=
  match operand.operandKind with
  | .literal => payload.literals.length ≤ operand.refId.toNat
  | .literalList => payload.literalLists.length ≤ operand.refId.toNat
  | .function => payload.functions.length ≤ operand.refId.toNat
  | .node | .columnOrPath | .intervalSet | .extension => False

/-- What the parser leaves unchecked is wrong somewhere. -/
def Dangling : Prop :=
  (∃ nodeId operand, Reachable payload nodeId ∧ OperandOf payload nodeId operand ∧
    PastTable payload operand) ∨
    ∃ list ∈ payload.literalLists,
      payload.literals.length < list.firstLiteralIndex.toNat + list.literalCount.toNat

variable {payload : PredicateAstPayloadV2} {u : Unit}

theorem uniqueDenseIdsFrom_ok {index : Nat} {seen : Finset UInt32} {ids : List UInt32}
    (h : uniqueDenseIdsFrom index seen ids = .ok u) :
      ids.map UInt32.toNat = List.range' index ids.length := by
  induction ids generalizing index seen with
  | nil => rfl
  | cons id ids ih =>
    obtain ⟨_, hid, h⟩ := of_andThen h
    have hplace := (not_or.mp (of_rejectIf hid)).1
    rw [map_cons, length_cons, List.range'_succ, ih h, not_not.mp hplace]

theorem exists_id_iff {α : Type} {items : List α} {idOf : α → UInt32} {id : UInt32}
    (h : validateUniqueDenseIds (items.map idOf) = .ok u) :
    (∃ item ∈ items, idOf item = id) ↔ id.toNat < items.length := by
  have hids := uniqueDenseIdsFrom_ok h
  rw [length_map] at hids
  have hmem : id.toNat ∈ (items.map idOf).map UInt32.toNat ↔ id.toNat < items.length := by
    rw [hids, mem_range'_1]
    omega
  rw [← hmem, mem_map_of_injective fun a b => UInt32.toNat_inj.mp, mem_map]

variable {nodeId : UInt32}

theorem childrenOf_ok_iff {next : List UInt32} : childrenOf payload nodeId = .ok next ↔
    ∃ node, payload.nodes[nodeId.toNat]? = some node ∧ node.nodeId = nodeId ∧
      ((operandsOf payload.operandRefs node).filter (·.operandKind = .node)).map (·.refId) = next := by
  rw [childrenOf]
  cases payload.nodes[nodeId.toNat]? with
  | none => simp
  | some node =>
    simp only [andThen_eq_ok_iff, rejectIf_eq_ok_iff, exists_const, Except.ok.injEq, not_not,
      Option.some.injEq, exists_eq_left']

theorem validateAstAcyclic_ok (h : validateAstAcyclic payload = .ok u) :
    Terminates (childrenOf payload) payload.header.rootNodeId := by
  rw [validateAstAcyclic] at h
  split at h
  · rename_i marks hvisit
    have hrun := visit_ok hvisit
    exact hrun.terminates (fun v hv => absurd hv (Finset.notMem_empty v)) _
      (hrun.found _ (mem_singleton_self _))
  · cases h

theorem validateNodeOperands_ok {node : PredicateAstNodeV2} {operands : List PredicateAstOperandRefV2}
    (h : validateNodeOperands node operands = .ok u) (hcount : node.operandCount ≠ 0) :
    node.firstOperandIndex.toNat + node.operandCount.toNat ≤ operands.length := by
  rw [validateNodeOperands, if_neg hcount] at h
  obtain ⟨_, -, h⟩ := of_andThen h
  obtain ⟨_, hrange, -⟩ := of_andThen h
  exact not_lt.mp (of_rejectIf hrange)

/-- What the parser has checked of a payload. -/
structure Checked (payload : PredicateAstPayloadV2) : Prop where
  literals : validateUniqueDenseIds (payload.literals.map (·.literalId)) = .ok ()
  literalLists : validateUniqueDenseIds (payload.literalLists.map (·.literalListId)) = .ok ()
  functions : validateUniqueDenseIds (payload.functions.map (·.functionRef)) = .ok ()
  ranges : ∀ node ∈ payload.nodes, node.operandCount ≠ 0 →
    node.firstOperandIndex.toNat + node.operandCount.toNat ≤ payload.operandRefs.length
  terminates : Terminates (childrenOf payload) payload.header.rootNodeId

theorem validate_checked (h : payload.validate = .ok u) : Checked payload := by
  obtain ⟨_, -, h⟩ := of_andThen h
  obtain ⟨hliterals, h⟩ := of_check h
  obtain ⟨hlists, h⟩ := of_check h
  obtain ⟨hfunctions, h⟩ := of_check h
  obtain ⟨_, -, h⟩ := of_andThen h
  obtain ⟨_, hnodes, h⟩ := of_andThen h
  refine ⟨hliterals, hlists, hfunctions, fun node hnode => ?_, validateAstAcyclic_ok h⟩
  obtain ⟨_, hoperands, -⟩ := of_andThen (checkAll_eq_ok_iff.mp hnodes node hnode)
  exact validateNodeOperands_ok hoperands

theorem parse_checked {crc32c : Bytes → UInt32} {utf8Valid : Bytes → Bool} {bytes : Bytes}
    (h : PredicateAstPayloadV2.parse crc32c utf8Valid bytes = .ok payload) : Checked payload := by
  obtain ⟨header, -, h⟩ := of_andThen h
  obtain ⟨nodes, -, h⟩ := of_andThen h
  obtain ⟨literals, -, h⟩ := of_andThen h
  obtain ⟨literalLists, -, h⟩ := of_andThen h
  obtain ⟨operandRefs, -, h⟩ := of_andThen h
  obtain ⟨functions, -, h⟩ := of_andThen h
  obtain ⟨_, hvalid, h⟩ := of_andThen h
  cases h
  exact validate_checked hvalid

variable {operand : PredicateAstOperandRefV2}

theorem Checked.node_refers (h : Checked payload) (hreach : Reachable payload nodeId)
    (hoperand : OperandOf payload nodeId operand) (hkind : operand.operandKind = .node) :
      ∃ node ∈ payload.nodes, node.nodeId = operand.refId := by
  obtain ⟨node, hnode, hmem⟩ := hoperand
  have hterminates := h.terminates.reaches hreach
  obtain ⟨next, hnext⟩ := hterminates.children_ok
  obtain ⟨node', hnode', -, rfl⟩ := childrenOf_ok_iff.mp hnext
  obtain rfl := Option.some.inj (hnode.symm.trans hnode')
  have hchild : Child (childrenOf payload) nodeId operand.refId :=
    ⟨_, hnext, mem_map_of_mem (mem_filter.mpr ⟨hmem, decide_eq_true hkind⟩)⟩
  obtain ⟨_, hchildren⟩ := (hterminates.child hchild).children_ok
  obtain ⟨found, hfound, hid, -⟩ := childrenOf_ok_iff.mp hchildren
  exact ⟨found, mem_of_getElem? hfound, hid⟩

theorem Checked.refers_iff (h : Checked payload) (hreach : Reachable payload nodeId)
    (hoperand : OperandOf payload nodeId operand) :
    Refers payload operand ↔ ¬ PastTable payload operand := by
  rw [Refers, PastTable]
  cases hkind : operand.operandKind with
  | node => exact iff_of_true (h.node_refers hreach hoperand hkind) id
  | literal => exact (exists_id_iff h.literals).trans not_le.symm
  | literalList => exact (exists_id_iff h.literalLists).trans not_le.symm
  | function => exact (exists_id_iff h.functions).trans not_le.symm
  | columnOrPath | intervalSet | extension => exact iff_of_true trivial id

/-- A payload that parses can be evaluated exactly when no operand and no list goes past the end of a
table. -/
theorem parsed_evaluable_iff (crc32c : Bytes → UInt32) (utf8Valid : Bytes → Bool) (bytes : Bytes)
    (payload : PredicateAstPayloadV2)
    (h : PredicateAstPayloadV2.parse crc32c utf8Valid bytes = .ok payload) :
    Evaluable payload ↔ ¬ Dangling payload := by
  have hchecked := parse_checked h
  constructor
  · rintro heval (⟨nodeId, operand, hreach, hoperand, hpast⟩ | ⟨list, hlist, hpast⟩)
    · exact (hchecked.refers_iff hreach hoperand).mp (heval.refers nodeId hreach operand hoperand) hpast
    · exact not_lt.mpr (heval.lists list hlist) hpast
  · intro hsound
    refine ⟨hchecked.terminates, fun nodeId hreach => (hchecked.terminates.reaches hreach).not_cycle,
      fun nodeId hreach operand hoperand => ?_, hchecked.ranges, fun list hlist => ?_⟩
    · exact (hchecked.refers_iff hreach hoperand).mpr fun hpast =>
        hsound (.inl ⟨nodeId, operand, hreach, hoperand, hpast⟩)
    · exact not_lt.mp fun hpast => hsound (.inr ⟨list, hlist, hpast⟩)

def literalValuePayload (literals : List PredicateLiteralV2) (literalOffset : UInt64) (checksum : UInt32) :
    PredicateAstPayloadV2 where
  header :=
    { rootNodeId := 0, nodeCount := 1, literalCount := UInt32.ofNat literals.length
      literalListCount := 0, functionCount := 0, operandRefCount := 1, nodeOffset := 72, literalOffset
      literalListOffset := 0, functionOffset := 0, operandRefOffset := 112, flags := 0, checksum }
  nodes :=
    [{ nodeId := 0, op := .literalValue, flags := 0, resultLogicalType := 0, collationId := 0
       nullPolicy := .sqlWhere, reserved0 := 0, operandCount := 1, firstOperandIndex := 0
       columnOrPathRef := absentId, literalRef := absentId, functionRef := absentId, auxRef := absentId
       checksum := 3502323442 }]
  literals
  literalLists := []
  functions := []
  operandRefs :=
    [{ parentNodeId := 0, ordinal := 0, operandKind := .literal, flags := 0, refId := 0
       checksum := 2301026639 }]

def literalValueBytes (literals : List Fields) : Bytes :=
  encodeChecksummed castagnoli
      [(4, 0), (4, 1), (4, literals.length), (4, 0), (4, 0), (4, 1), (8, 72),
        (8, if literals = [] then 0 else 128), (8, 0), (8, 0), (8, 112), (4, 0)] ++
    encodeChecksummed castagnoli
      [(4, 0), (2, 20), (2, 0), (2, 0), (2, 0), (1, 0), (1, 0), (2, 1), (4, 0), (4, 0xffffffff),
        (4, 0xffffffff), (4, 0xffffffff), (4, 0xffffffff)] ++
    encodeChecksummed castagnoli [(4, 0), (2, 0), (1, 1), (1, 0), (4, 0)] ++
    literals.flatMap (encodeChecksummed castagnoli)

theorem parsed_evaluable_iff_literal :
    let payload := literalValuePayload [⟨0, 0, 0, 0, 0, 0, 4157196137⟩] 128 1402753581
    ¬ Dangling payload ∧ Evaluable payload := by
  intro payload
  have hparse : PredicateAstPayloadV2.parse castagnoli (fun _ => true)
      (literalValueBytes [[(4, 0), (2, 0), (2, 0), (4, 0), (8, 0), (4, 0)]]) = .ok payload := by
    decide +kernel
  have hsound : ¬ Dangling payload := by
    rintro (⟨nodeId, operand, hreach, ⟨node, hnode, hmem⟩, hpast⟩ | ⟨list, hlist, -⟩)
    · rcases ReflTransGen.cases_head hreach with rfl | ⟨next, ⟨nodes, hnodes, hnext⟩, -⟩
      · cases hnode
        obtain rfl := mem_singleton.mp hmem
        exact absurd (show 1 ≤ 0 from hpast) (by decide)
      · cases hnodes
        exact absurd hnext not_mem_nil
    · exact absurd hlist not_mem_nil
  exact ⟨hsound, (parsed_evaluable_iff castagnoli (fun _ => true) _ payload hparse).mpr hsound⟩

/-- The parser accepts the literal operand without any literal. -/
theorem missing_literal_accepted :
    let payload := literalValuePayload [] 0 938327440
    PredicateAstPayloadV2.parse castagnoli (fun _ => true) (literalValueBytes []) = .ok payload ∧
      ¬ Evaluable payload := by
  intro payload
  refine ⟨by decide +kernel, fun heval => ?_⟩
  obtain ⟨literal, hmem, -⟩ := heval.refers 0 .refl _ ⟨_, rfl, mem_singleton_self _⟩
  exact absurd hmem not_mem_nil

end

end CoveFormat.PredicateAst
