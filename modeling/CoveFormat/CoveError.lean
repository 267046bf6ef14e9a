import CoveFormat.ExceptRules
import Mathlib.Algebra.Group.Nat.Defs

namespace CoveFormat

/-- The errors of `error.rs`; the I/O error of the file layer is not modelled. -/
inductive CoveError
  | badMagic
  | badVersion
  | unknownRequiredFeature (bits : Nat)
  | checksumMismatch
  | digestMismatch
  | offsetRange
  | arithOverflow
  | badSection (text : String)
  | badSchema (text : String)
  | badLogicalPhysicalPair
  | dictMiss
  | badFileCode
  | badNumCode
  | badDomain
  | badStats
  | badIndex
  | badExtension
  | badEngineProfile
  | executionCodeMap
  | harborMountLease
  | refInvalid
  | notSelfContained
  | segmentCorrupt
  | pageCorrupt
  | redactionPolicy
  | sidecarStale
  | mapInvalid
  | mapFunctionUndeclared
  | mapIdentityConflict
  | mapSourceStale
  | mapEvidenceInvalid
  | badCodecExtension
  | codecUnsupported
  | badLayoutPlan
  | runtimeHintUnsupported
  | badCoverage
  | coverageStale
  | badCovi
  | indexOnlyUnsafe
  | cacheStale
  | queryDiscoveryInvalid (text : String)
  | bufferTooShort
  | reservedNotZero
  | unsupportedEncoding (text : String)
  deriving DecidableEq

end CoveFormat

namespace CoveFormat.CheckedArith

def checkedAdd (a b : Nat) : Except CoveError Nat :=
  if a + b < 2 ^ 64 then .ok (a + b) else .error .arithOverflow

theorem checkedAdd_ok_iff {a b c : Nat} : checkedAdd a b = .ok c ↔ a + b < 2 ^ 64 ∧ c = a + b :=
  ExceptRules.guarded_eq_ok_iff

theorem of_checkedAdd {a b : Nat} {β : Type} {f : Nat → Except CoveError β} {y : β}
    (h : (checkedAdd a b >>= f) = .ok y) : a + b < 2 ^ 64 ∧ f (a + b) = .ok y := by
  obtain ⟨sum, hsum, h⟩ := ExceptRules.of_andThen h
  obtain ⟨hfits, rfl⟩ := checkedAdd_ok_iff.mp hsum
  exact ⟨hfits, h⟩

theorem checkedAdd_andThen_iff {a b : Nat} {β : Type} {f : Nat → Except CoveError β} {y : β} :
    (checkedAdd a b >>= f) = .ok y ↔ a + b < 2 ^ 64 ∧ f (a + b) = .ok y :=
  ⟨of_checkedAdd, fun h => ExceptRules.andThen_ok (checkedAdd_ok_iff.mpr ⟨h.1, rfl⟩) h.2⟩

end CoveFormat.CheckedArith
