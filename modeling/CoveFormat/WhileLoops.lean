import CoveFormat.ExceptRules

namespace CoveFormat.WhileLoops


variable {fuel : Nat}

variable {σ ε : Type}

/-- A loop that ends where there is no next state. `none` is the result of one that runs out of
fuel. -/
def drain (next : σ → Option σ) : Nat → σ → Option σ
  | 0, _ => none
  | fuel + 1, s =>
    match next s with
    | none => some s
    | some s => drain next fuel s

/-- A loop whose body may fail. The error `none` is the one of a loop that runs out of fuel. -/
def drainOrFail (next : σ → Except ε (Option σ)) : Nat → σ → Except (Option ε) σ
  | 0, _ => .error none
  | fuel + 1, s =>
    match next s with
    | .error e => .error (some e)
    | .ok none => .ok s
    | .ok (some s) => drainOrFail next fuel s

def orOutOfFuel : Option σ → Except (Option ε) σ
  | none => .error none
  | some s => .ok s

theorem orOutOfFuel_eq_ok_iff {result : Option σ} {s : σ} :
    (orOutOfFuel result : Except (Option ε) σ) = .ok s ↔ result = some s := by
  cases result <;> simp [orOutOfFuel]

section

variable {next : σ → Option σ} {s result : σ} {Inv : σ → Prop}

theorem drain_inv (hstep : ∀ s s', Inv s → next s = some s' → Inv s') (hs : Inv s)
    (h : drain next fuel s = some result) : Inv result ∧ next result = none := by
  induction fuel generalizing s with
  | zero => cases h
  | succ fuel ih =>
    rw [drain] at h
    split at h
    · rename_i hnext
      cases h
      exact ⟨hs, hnext⟩
    · rename_i s' hnext
      exact ih (hstep s s' hs hnext) h

theorem drain_ends (rank : σ → Nat)
    (hstep : ∀ s s', Inv s → next s = some s' → Inv s' ∧ rank s' < rank s) (hs : Inv s)
    (hfuel : rank s < fuel) : ∃ result, drain next fuel s = some result := by
  induction fuel generalizing s with
  | zero => exact absurd hfuel (Nat.not_lt_zero _)
  | succ fuel ih =>
    rw [drain]
    split
    · exact ⟨s, rfl⟩
    · rename_i s' hnext
      obtain ⟨hinv, hless⟩ := hstep s s' hs hnext
      exact ih hinv (by omega)

theorem drain_spec (rank : σ → Nat)
    (hstep : ∀ s s', Inv s → next s = some s' → Inv s' ∧ rank s' < rank s) (hs : Inv s)
    (hfuel : rank s < fuel) :
    ∃ result, drain next fuel s = some result ∧ Inv result ∧ next result = none := by
  obtain ⟨result, h⟩ := drain_ends rank hstep hs hfuel
  exact ⟨result, h, drain_inv (fun s s' hs hnext => (hstep s s' hs hnext).1) hs h⟩

variable {next : σ → Except ε (Option σ)}

theorem drainOrFail_inv (Inv : σ → Prop) (hstep : ∀ s s', Inv s → next s = .ok (some s') → Inv s')
    (hs : Inv s) (h : drainOrFail next fuel s = .ok result) : Inv result ∧ next result = .ok none := by
  induction fuel generalizing s with
  | zero => cases h
  | succ fuel ih =>
    rw [drainOrFail] at h
    split at h
    · cases h
    · rename_i hnext
      cases h
      exact ⟨hs, hnext⟩
    · rename_i s' hnext
      exact ih (hstep s s' hs hnext) h

theorem drainOrFail_fuel (Inv : σ → Prop) (rank : σ → Nat)
    (hstep : ∀ s s', Inv s → next s = .ok (some s') → Inv s' ∧ rank s' < rank s) (hs : Inv s)
    (hfuel : rank s < fuel) : drainOrFail next fuel s ≠ .error none := by
  induction fuel generalizing s with
  | zero => exact absurd hfuel (Nat.not_lt_zero _)
  | succ fuel ih =>
    rw [drainOrFail]
    split
    · exact nofun
    · exact nofun
    · rename_i s' hnext
      obtain ⟨hinv, hless⟩ := hstep s s' hs hnext
      exact ih hinv (by omega)

end

end CoveFormat.WhileLoops
