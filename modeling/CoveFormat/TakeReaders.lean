import CoveFormat.FixedFields

namespace CoveFormat.TakeReaders

open ByteCodes Except ExceptRules FixedFields
open List hiding Vector

abbrev Reader := StateT Bytes (Except CoveError)

def take (len : Nat) : Reader Bytes := fun bytes =>
  if bytes.length < len then .error .bufferTooShort else .ok (bytes.take len, bytes.drop len)

def takeArray (n : Nat) : Reader (Vector UInt8 n) := fun bytes =>
  if h : bytes.length < n then .error .bufferTooShort
  else .ok (⟨(bytes.take n).toArray, by simp; omega⟩, bytes.drop n)

def takeU8 : Reader UInt8 := do return UInt8.ofNat (leNat (← take 1))

def takeU16 : Reader UInt16 := do return UInt16.ofNat (leNat (← take 2))

def takeU32 : Reader UInt32 := do return UInt32.ofNat (leNat (← take 4))

def takeU64 : Reader UInt64 := do return UInt64.ofNat (leNat (← take 8))

def takeI64 : Reader Int64 := do return (← takeU64).toInt64

/-- `if c { return Err(e); }` between two reads. -/
def refuseIf (c : Prop) [Decidable c] (e : CoveError) : Reader Unit := StateT.lift (rejectIf c e)

def putU8 (x : UInt8) : Bytes := leBytes 1 x.toNat

def putU16 (x : UInt16) : Bytes := leBytes 2 x.toNat

def putU32 (x : UInt32) : Bytes := leBytes 4 x.toNat

def putU64 (x : UInt64) : Bytes := leBytes 8 x.toNat

def putI64 (x : Int64) : Bytes := putU64 x.toUInt64

section

variable {α β : Type} {r : Reader α} {f : α → Reader β} {x : α} {y : β} {bytes rest : Bytes}

/-- Whatever follows the bytes, the reader takes them for the value and stops at their end. -/
def Reads (r : Reader α) (bytes : Bytes) (x : α) : Prop :=
  ∀ rest, r.run (bytes ++ rest) = .ok (x, rest)

theorem Reads.run_bind (h : Reads r bytes x) : (r >>= f).run (bytes ++ rest) = (f x).run rest := by
  rw [StateT.run_bind, h rest]
  rfl

theorem Reads.map {g : α → β} (h : Reads r bytes x) (hg : g x = y) :
    Reads (do return g (← r)) bytes y := by
  intro rest
  rw [h.run_bind, hg]
  rfl

variable {c : Prop}

theorem run_refuseIf [Decidable c] {e : CoveError} {f : Unit → Reader β} :
    (refuseIf c e >>= f).run bytes = (rejectIf c e >>= fun _ => (f ()).run bytes) := by
  rw [StateT.run_bind, refuseIf, StateT.run_lift]
  cases rejectIf c e <;> rfl

theorem take_reads {len : Nat} (h : bytes.length = len) : Reads (take len) bytes bytes := by
  intro rest
  have hlen : ¬ (bytes ++ rest).length < len := by simp [h]
  rw [StateT.run, take, if_neg hlen, take_left' h, drop_left' h]

theorem takeArray_reads {n : Nat} (v : Vector UInt8 n) : Reads (takeArray n) v.toList v := by
  intro rest
  have hlen : ¬ (v.toList ++ rest).length < n := by simp
  rw [StateT.run, takeArray, dif_neg hlen]
  simp only [take_left' v.length_toList, drop_left' v.length_toList]
  rfl

theorem number_reads {w : Nat} {g : Nat → α} {n : Nat} (hn : n < 256 ^ w) (hg : g n = x) :
    Reads (do return g (leNat (← take w))) (leBytes w n) x :=
  (take_reads (leBytes_length w n)).map (by rw [leNat_leBytes, Nat.mod_eq_of_lt hn, hg])

theorem takeU8_reads (x : UInt8) : Reads takeU8 (putU8 x) x :=
  number_reads (by simpa using x.toNat_lt) (UInt8.ofNat_toNat ..)

theorem takeU16_reads (x : UInt16) : Reads takeU16 (putU16 x) x :=
  number_reads (by simpa using x.toNat_lt) (UInt16.ofNat_toNat ..)

theorem takeU32_reads (x : UInt32) : Reads takeU32 (putU32 x) x :=
  number_reads (by simpa using x.toNat_lt) (UInt32.ofNat_toNat ..)

theorem takeU64_reads (x : UInt64) : Reads takeU64 (putU64 x) x :=
  number_reads (by simpa using x.toNat_lt) (UInt64.ofNat_toNat ..)

theorem takeI64_reads (x : Int64) : Reads takeI64 (putI64 x) x :=
  (takeU64_reads x.toUInt64).map (Int64.toInt64_toUInt64 x)

@[simp] theorem run_takeArray {n : Nat} {v : Vector UInt8 n} {f : Vector UInt8 n → Reader β} :
    (takeArray n >>= f).run (v.toList ++ rest) = (f v).run rest := (takeArray_reads v).run_bind

@[simp] theorem run_takeU8 {x : UInt8} {f : UInt8 → Reader β} :
    (takeU8 >>= f).run (putU8 x ++ rest) = (f x).run rest := (takeU8_reads x).run_bind

@[simp] theorem run_takeU16 {x : UInt16} {f : UInt16 → Reader β} :
    (takeU16 >>= f).run (putU16 x ++ rest) = (f x).run rest := (takeU16_reads x).run_bind

@[simp] theorem run_takeU32 {x : UInt32} {f : UInt32 → Reader β} :
    (takeU32 >>= f).run (putU32 x ++ rest) = (f x).run rest := (takeU32_reads x).run_bind

@[simp] theorem run_takeU64 {x : UInt64} {f : UInt64 → Reader β} :
    (takeU64 >>= f).run (putU64 x ++ rest) = (f x).run rest := (takeU64_reads x).run_bind

@[simp] theorem run_takeI64 {x : Int64} {f : Int64 → Reader β} :
    (takeI64 >>= f).run (putI64 x ++ rest) = (f x).run rest := (takeI64_reads x).run_bind

theorem run'_eq_ok_iff {x : α} : r.run' bytes = .ok x ↔ ∃ rest, r.run bytes = .ok (x, rest) := by
  rw [StateT.run'_eq]
  cases r.run bytes with
  | error e => simp
  | ok p => exact ⟨fun h => ⟨p.2, congrArg ok (Prod.ext (ok.inj h) rfl)⟩,
      fun ⟨rest, h⟩ => congrArg ok (congrArg Prod.fst (ok.inj h))⟩

theorem run_pure_ok_iff {x : α} {p : α × Bytes} :
    (pure x : Reader α).run bytes = .ok p ↔ (x, bytes) = p :=
  ⟨ok.inj, congrArg ok⟩

theorem run_bind_ok_iff {p : β × Bytes} :
    (r >>= f).run bytes = .ok p ↔ ∃ x rest, r.run bytes = .ok (x, rest) ∧ (f x).run rest = .ok p := by
  rw [StateT.run_bind, andThen_eq_ok_iff, Prod.exists]

theorem run_refuseIf_ok_iff [Decidable c] {e : CoveError} {f : Unit → Reader β} {p : β × Bytes} :
    (refuseIf c e >>= f).run bytes = .ok p ↔ ¬ c ∧ (f ()).run bytes = .ok p := by
  rw [run_refuseIf, andThen_eq_ok_iff]
  simp only [rejectIf_eq_ok_iff, exists_and_left, exists_const]

theorem run_lift_ok_iff {checked : Except CoveError α} {p : β × Bytes} :
    ((StateT.lift checked : Reader α) >>= f).run bytes = .ok p ↔
      ∃ x, checked = .ok x ∧ (f x).run bytes = .ok p := by
  cases checked with
  | error e => exact ⟨nofun, nofun⟩
  | ok x => exact ⟨fun h => ⟨x, rfl, h⟩, fun ⟨_, hx, h⟩ => ok.inj hx ▸ h⟩

theorem run_lift_ok {f : α → Reader β} {x : α} :
    (StateT.lift (.ok x) >>= f).run bytes = (f x).run bytes := rfl

/-- All that the reader takes for a value is one of its images. -/
def Decodes (r : Reader α) (image : α → Bytes → Prop) : Prop :=
  ∀ bytes x rest, r.run bytes = .ok (x, rest) ↔ ∃ front, image x front ∧ bytes = front ++ rest

theorem take_decodes (len : Nat) :
    Decodes (take len) fun chunk front => chunk.length = len ∧ front = chunk := by
  intro bytes chunk rest
  constructor
  · intro h
    rw [StateT.run, take] at h
    split at h
    · cases h
    · obtain ⟨rfl, rfl⟩ := Prod.mk.inj (ok.inj h)
      exact ⟨_, ⟨by rw [length_take]; omega, rfl⟩, (take_append_drop len bytes).symm⟩
  · rintro ⟨_, ⟨hlen, rfl⟩, rfl⟩
    exact take_reads hlen rest

theorem takeArray_decodes (n : Nat) : Decodes (takeArray n) fun v front => front = v.toList := by
  intro bytes v rest
  constructor
  · intro h
    rw [StateT.run, takeArray] at h
    split at h
    · cases h
    · obtain ⟨rfl, rfl⟩ := Prod.mk.inj (ok.inj h)
      exact ⟨_, rfl, by simp⟩
  · rintro ⟨_, rfl, rfl⟩
    exact takeArray_reads v rest

theorem number_decodes {w : Nat} {g : Nat → α} {code : α → Nat} (hlt : ∀ x, code x < 256 ^ w)
    (hcode : ∀ n < 256 ^ w, code (g n) = n) (hg : ∀ x, g (code x) = x) :
    Decodes (do return g (leNat (← take w))) fun x front => front = leBytes w (code x) := by
  intro bytes x rest
  constructor
  · intro h
    obtain ⟨chunk, rest', hchunk, hx⟩ := run_bind_ok_iff.mp h
    obtain ⟨front, ⟨rfl, rfl⟩, rfl⟩ := (take_decodes w bytes chunk rest').mp hchunk
    obtain ⟨rfl, rfl⟩ := Prod.mk.inj (ok.inj hx)
    exact ⟨_, rfl, by rw [hcode _ (leNat_lt front), leBytes_leNat]⟩
  · rintro ⟨_, rfl, rfl⟩
    exact number_reads (hlt x) (hg x) rest

theorem takeU8_decodes : Decodes takeU8 fun x front => front = putU8 x :=
  number_decodes (fun x => by simpa using x.toNat_lt)
    (fun _ hn => UInt8.toNat_ofNat_of_lt' (by simpa using hn)) fun _ => UInt8.ofNat_toNat

theorem takeU16_decodes : Decodes takeU16 fun x front => front = putU16 x :=
  number_decodes (fun x => by simpa using x.toNat_lt)
    (fun _ hn => UInt16.toNat_ofNat_of_lt' (by simpa using hn)) fun _ => UInt16.ofNat_toNat

theorem takeU32_decodes : Decodes takeU32 fun x front => front = putU32 x :=
  number_decodes (fun x => by simpa using x.toNat_lt)
    (fun _ hn => UInt32.toNat_ofNat_of_lt' (by simpa using hn)) fun _ => UInt32.ofNat_toNat

theorem takeU64_decodes : Decodes takeU64 fun x front => front = putU64 x :=
  number_decodes (fun x => by simpa using x.toNat_lt)
    (fun _ hn => UInt64.toNat_ofNat_of_lt' (by simpa using hn)) fun _ => UInt64.ofNat_toNat

theorem Decodes.bind_ok_iff {put : α → Bytes} (h : Decodes r fun x front => front = put x)
    {p : β × Bytes} :
    (r >>= f).run bytes = .ok p ↔ ∃ x rest, bytes = put x ++ rest ∧ (f x).run rest = .ok p := by
  rw [run_bind_ok_iff]
  refine exists_congr fun x => exists_congr fun rest => and_congr_left fun _ => ?_
  rw [h bytes x rest, exists_eq_left]

theorem take_bind_ok_iff {len : Nat} {f : Bytes → Reader β} {p : β × Bytes} :
    (take len >>= f).run bytes = .ok p ↔
      ∃ chunk rest, chunk.length = len ∧ bytes = chunk ++ rest ∧ (f chunk).run rest = .ok p := by
  rw [run_bind_ok_iff]
  refine exists_congr fun chunk => exists_congr fun rest => ?_
  rw [take_decodes len bytes chunk rest]
  simp only [and_assoc, exists_and_left, exists_eq_left]

theorem readExact_ok_iff {r : Bytes → Reader α} {len : Nat} {e : CoveError} {x : α}
    (h : bytes.length = len) :
    (do rejectIf (bytes.length < len) e
        let bytes := bytes.take len
        (r bytes).run' bytes) = .ok x ↔ ∃ rest, (r bytes).run bytes = .ok (x, rest) := by
  rw [rejectIf, if_neg (by omega), take_of_length_le h.le, ← run'_eq_ok_iff]
  rfl

end

@[simp] theorem putU8_length (x : UInt8) : (putU8 x).length = 1 := leBytes_length ..

@[simp] theorem putU16_length (x : UInt16) : (putU16 x).length = 2 := leBytes_length ..

@[simp] theorem putU32_length (x : UInt32) : (putU32 x).length = 4 := leBytes_length ..

@[simp] theorem putU64_length (x : UInt64) : (putU64 x).length = 8 := leBytes_length ..

@[simp] theorem putI64_length (x : Int64) : (putI64 x).length = 8 := leBytes_length ..

theorem putU16_inj {x y : UInt16} (h : putU16 x = putU16 y) : x = y :=
  UInt16.toNat_inj.mp (leBytes_inj (by simpa using x.toNat_lt) (by simpa using y.toNat_lt) h)

theorem putU32_inj {x y : UInt32} (h : putU32 x = putU32 y) : x = y :=
  UInt32.toNat_inj.mp (leBytes_inj (by simpa using x.toNat_lt) (by simpa using y.toNat_lt) h)

theorem putU64_inj {x y : UInt64} (h : putU64 x = putU64 y) : x = y :=
  UInt64.toNat_inj.mp (leBytes_inj (by simpa using x.toNat_lt) (by simpa using y.toNat_lt) h)

section

variable {crc32c : Bytes → UInt32} {body : Bytes} {offset : Nat}

def sealOf (crc32c : Bytes → UInt32) (body : Bytes) : UInt32 :=
  crc32c (body ++ replicate 4 0)

def sealBytes (crc32c : Bytes → UInt32) (body : Bytes) : Bytes :=
  body ++ putU32 (sealOf crc32c body)

@[simp] theorem sealBytes_length : (sealBytes crc32c body).length = body.length + 4 := by
  simp [sealBytes]

theorem withoutChecksum_sealBytes (h : body.length = offset) :
    withoutChecksum (sealBytes crc32c body) offset = body ++ replicate 4 0 := by
  subst h
  rw [withoutChecksum, drop_of_length_le (by simp), append_nil, sealBytes, take_left]

theorem crc32c_sealBytes (h : body.length = offset) :
    crc32c (withoutChecksum (sealBytes crc32c body) offset) = sealOf crc32c body := by
  rw [withoutChecksum_sealBytes h, sealOf]

theorem parse_sealBytes_ok_iff {α : Type} {read : Bytes → Reader α} {len : Nat} {e : CoveError}
    {accepts : Prop} {stamp : UInt32 → α} {x : α} (hlen : body.length + 4 = len)
    (hread : ∀ bytes sum q, (read bytes).run (body ++ (putU32 sum ++ [])) = .ok q ↔
      accepts ∧ crc32c (withoutChecksum bytes body.length) = sum ∧ (stamp sum, []) = q) :
    (do rejectIf ((sealBytes crc32c body).length < len) e
        let bytes := (sealBytes crc32c body).take len
        (read bytes).run' bytes) = .ok x ↔
      accepts ∧ stamp (sealOf crc32c body) = x := by
  have hrun := hread (sealBytes crc32c body) (sealOf crc32c body)
  rw [readExact_ok_iff (sealBytes_length.trans hlen)]
  constructor
  · rintro ⟨rest, h⟩
    obtain ⟨haccepts, -, heq⟩ := (hrun _).mp h
    exact ⟨haccepts, congrArg Prod.fst heq⟩
  · rintro ⟨haccepts, rfl⟩
    exact ⟨[], (hrun _).mpr ⟨haccepts, crc32c_sealBytes rfl, rfl⟩⟩

theorem parse_sealBytes {α : Type} {read : Bytes → Reader α} {len : Nat} {e : CoveError}
    {stamp : UInt32 → α} (hlen : body.length + 4 = len)
    (hread : ∀ bytes sum q, (read bytes).run (body ++ (putU32 sum ++ [])) = .ok q ↔
      crc32c (withoutChecksum bytes body.length) = sum ∧ (stamp sum, []) = q) :
    (do rejectIf ((sealBytes crc32c body).length < len) e
        let bytes := (sealBytes crc32c body).take len
        (read bytes).run' bytes) = .ok (stamp (sealOf crc32c body)) := by
  refine (parse_sealBytes_ok_iff hlen fun bytes sum q => ?_).mpr ⟨trivial, rfl⟩
  rw [hread, true_and]

def checkSeal (crc32c : Bytes → UInt32) (bytes : Bytes) (offset : Nat) : Except CoveError Unit :=
  rejectIf (crc32c (withoutChecksum bytes offset) ≠ readU32 bytes offset) .checksumMismatch

theorem checkSeal_sealBytes (h : body.length = offset) :
    checkSeal crc32c (sealBytes crc32c body) offset = .ok () := by
  have hread : readU32 (sealBytes crc32c body) offset = sealOf crc32c body := by
    rw [sealBytes, readU32, readUint, drop_left' h, take_of_length_le (by simp), putU32,
      leNat_leBytes, Nat.mod_eq_of_lt (by simpa using UInt32.toNat_lt _), UInt32.ofNat_toNat]
  rw [checkSeal, rejectIf_eq_ok_iff, hread, @crc32c_sealBytes crc32c body offset h, not_not]

theorem parse_checkSeal {α : Type} {read : Reader α} {len : Nat} {e : CoveError}
    (stamp : UInt32 → α) (hlen : body.length + 4 = len)
    (hread : ∀ sum, read.run (body ++ (putU32 sum ++ [])) = .ok (stamp sum, [])) :
    (do rejectIf ((sealBytes crc32c body).length < len) e
        let bytes := (sealBytes crc32c body).take len
        checkSeal crc32c bytes (len - 4)
        read.run' bytes) = .ok (stamp (sealOf crc32c body)) := by
  have htake : (sealBytes crc32c body).take len = sealBytes crc32c body :=
    take_of_length_le (by simp [hlen])
  have hrun : read.run' (sealBytes crc32c body) = .ok (stamp (sealOf crc32c body)) := by
    rw [run'_eq_ok_iff]
    exact ⟨[], by rw [← hread, append_nil, sealBytes]⟩
  rw [rejectIf, if_neg (by simp [hlen])]
  change checkSeal crc32c ((sealBytes crc32c body).take len) (len - 4) >>= _ = _
  rw [htake, checkSeal_sealBytes (by omega)]
  exact hrun

end

end CoveFormat.TakeReaders
