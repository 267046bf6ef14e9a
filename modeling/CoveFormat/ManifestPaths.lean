import CoveFormat.CoveError
import CoveFormat.UnixPaths

namespace CoveFormat.ManifestPaths

open ByteCodes ExceptRules UnixPaths
open List

inductive ManifestPathMode
  | datasetRelative
  | localAbsoluteOrRelative
  deriving DecidableEq

def isAsciiAlphabetic (byte : UInt8) : Bool :=
  (0x41 ≤ byte && byte ≤ 0x5a) || (0x61 ≤ byte && byte ≤ 0x7a)

def colon : UInt8 := 0x3a

def hasWindowsDrivePrefix : Bytes → Bool
  | letter :: second :: third :: _ => isAsciiAlphabetic letter && second == colon && third == slash
  | _ => false

def hasUriScheme (uri : Bytes) : Bool :=
  let firstSeparator := (uri.idxOf? slash).getD uri.length
  match (uri.take firstSeparator).idxOf? colon with
  | none => false
  | some at_ => !(at_ == 1 && hasWindowsDrivePrefix uri)

def invalidManifestPath (message : String) : CoveError := .badSection message

def checkComponent (mode : ManifestPathMode) : Component → Except CoveError Unit
  | .normal _ | .curDir => .ok ()
  | .parentDir =>
    .error (invalidManifestPath "manifest URI path must not contain parent-directory components")
  | .rootDir => rejectIf (mode = .datasetRelative)
      (invalidManifestPath "manifest URI path must be relative to the dataset root")

def isNormal : Component → Bool
  | .normal _ => true
  | _ => false

def validateManifestPathUri (uri : Bytes) (mode : ManifestPathMode) : Except CoveError Unit := do
  rejectIf (uri = []) (invalidManifestPath "manifest URI path must not be empty")
  rejectIf (0 ∈ uri) (invalidManifestPath "manifest URI path contains NUL")
  rejectIf (0x5c ∈ uri) (invalidManifestPath "manifest URI path must use forward slashes")
  rejectIf (hasUriScheme uri) (invalidManifestPath "manifest URI path must not include a URI scheme")
  rejectIf (mode = .datasetRelative ∧ hasWindowsDrivePrefix uri)
    (invalidManifestPath "manifest URI path must not include a drive prefix")
  rejectIf (mode = .datasetRelative ∧ isAbsolute uri)
    (invalidManifestPath "manifest URI path must be relative to the dataset root")
  checkAll (checkComponent mode) (components uri)
  rejectIf (¬ (components uri).any isNormal)
    (invalidManifestPath "manifest URI path must name a file under the dataset root")

def resolveManifestRelativePath (base uri : Bytes) : Except CoveError Bytes := do
  validateManifestPathUri uri .datasetRelative
  .ok (join base uri)

theorem validate_ok {uri : Bytes} {mode : ManifestPathMode}
    (h : validateManifestPathUri uri mode = .ok ()) :
    (mode = .datasetRelative → isAbsolute uri = false) ∧
      (∀ c ∈ components uri, checkComponent mode c = .ok ()) ∧
      ∃ name, .normal name ∈ components uri := by
  iterate 5 replace h := rest_ok h
  obtain ⟨habsolute, h⟩ := of_check h
  obtain ⟨hcomponents, hnormal⟩ := of_check h
  refine ⟨fun hmode => ?_, checkAll_eq_ok_iff.mp hcomponents, ?_⟩
  · have habsolute := of_rejectIf habsolute
    simpa [hmode] using habsolute
  · obtain ⟨c, hc, hname⟩ := any_eq_true.mp (not_not.mp (of_rejectIf hnormal))
    cases c with
    | normal name => exact ⟨name, hc⟩
    | rootDir | curDir | parentDir => cases hname

theorem checkComponent_relative {c : Component}
    (h : checkComponent .datasetRelative c = .ok ()) : Descends c := by
  cases c with
  | rootDir | parentDir => cases h
  | curDir | normal name => trivial

theorem relative_path_stays_below {base uri path : Bytes}
    (h : resolveManifestRelativePath base uri = .ok path) :
    Location.Below (resolve base) (resolve path) ∧ components base <+: components path := by
  obtain ⟨hvalid, h⟩ := of_check h
  cases h
  obtain ⟨habsolute, hcomponents, hname⟩ := validate_ok hvalid
  exact below_join base (habsolute rfl) (fun c hc => checkComponent_relative (hcomponents c hc)) hname

/-- `/data` and `nested/part`. -/
theorem nested_part_stays_below :
    let base : Bytes := [0x2f, 0x64, 0x61, 0x74, 0x61]
    let uri : Bytes := [0x6e, 0x65, 0x73, 0x74, 0x65, 0x64, 0x2f, 0x70, 0x61, 0x72, 0x74]
    ∃ path, resolveManifestRelativePath base uri = .ok path ∧
      Location.Below (resolve base) (resolve path) ∧ components base <+: components path := by
  intro base uri
  have h : resolveManifestRelativePath base uri = .ok (base ++ slash :: uri) := by decide +kernel
  exact ⟨_, h, relative_path_stays_below h⟩

end CoveFormat.ManifestPaths
