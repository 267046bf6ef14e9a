import CoveFormat.ByteCodes
import Mathlib.Data.List.Infix

namespace CoveFormat.LikePatterns

open ByteCodes List

/-! What a pattern of LIKE is matched by. -/

inductive LikeToken
  | char (c : Char)
  | one
  | any

def likeTokens (escape : Char) : List Char → Option (List LikeToken)
  | [] => some []
  | c :: pattern =>
    if c = escape then
      match pattern with
      | [] => none
      | d :: pattern => (likeTokens escape pattern).map (.char d :: ·)
    else
      (likeTokens escape pattern).map
        ((if c = '%' then .any else if c = '_' then .one else .char c) :: ·)

def tokensMatch : List LikeToken → List Char → Bool
  | [], text => text.isEmpty
  | .char c :: tokens, text =>
    match text with
    | [] => false
    | d :: text => c = d && tokensMatch tokens text
  | .one :: tokens, text =>
    match text with
    | [] => false
    | _ :: text => tokensMatch tokens text
  | .any :: tokens, text => text.tails.any (tokensMatch tokens)

/-! The patterns that are lowered. -/

inductive LikeLiteral
  | exact (literal : List Char)
  | start (literal : List Char)

/-- The loop of `exact_like_literal`, with what stands before. -/
def exactLikeLiteralFrom (escape : Char) (literal : List Char) : List Char → Option LikeLiteral
  | [] => some (.exact literal)
  | ch :: chars =>
    if ch = escape then
      match chars with
      | [] => none
      | next :: chars => exactLikeLiteralFrom escape (literal ++ [next]) chars
    else if ch = '%' then if chars = [] then some (.start literal) else none
    else if ch = '_' then none
    else exactLikeLiteralFrom escape (literal ++ [ch]) chars

def defaultEscape : Char := '\\'

def exactLikeLiteral (pattern : List Char) (escapeChar : Option Char) : Option LikeLiteral :=
  exactLikeLiteralFrom (escapeChar.getD defaultEscape) [] pattern

/-- A text is like an exact literal, or like one with anything after it. -/
def LikeLiteral.accepts : LikeLiteral → List Char → Prop
  | .exact literal, text => text = literal
  | .start literal, text => literal <+: text

def LikeLiteral.tokens : LikeLiteral → List LikeToken
  | .exact literal => literal.map .char
  | .start literal => literal.map .char ++ [.any]

section

variable {escape : Char} {pattern text literal : List Char} {out : LikeLiteral}

theorem likeTokens_escaped (next : Char) (chars : List Char) :
    likeTokens escape (escape :: next :: chars) = (likeTokens escape chars).map (.char next :: ·) := by
  simp [likeTokens]

theorem likeTokens_plain {ch : Char} (h : ch ≠ escape) (chars : List Char) :
    likeTokens escape (ch :: chars) = (likeTokens escape chars).map
      ((if ch = '%' then .any else if ch = '_' then .one else .char ch) :: ·) := by
  cases chars <;> simp [likeTokens, h]

theorem tokensMatch_char (c : Char) (tokens : List LikeToken) (text : List Char) :
    tokensMatch (.char c :: tokens) text = true ↔
      ∃ rest, text = c :: rest ∧ tokensMatch tokens rest = true := by
  cases text with
  | nil => simp [tokensMatch]
  | cons d text =>
    rw [tokensMatch, Bool.and_eq_true, decide_eq_true_eq]
    constructor
    · rintro ⟨rfl, h⟩
      exact ⟨text, rfl, h⟩
    · rintro ⟨rest, heq, h⟩
      obtain ⟨rfl, rfl⟩ := List.cons.inj heq
      exact ⟨rfl, h⟩

theorem tokensMatch_chars (literal : List Char) (tokens : List LikeToken) (text : List Char) :
    tokensMatch (literal.map .char ++ tokens) text = true ↔
      ∃ rest, text = literal ++ rest ∧ tokensMatch tokens rest = true := by
  induction literal generalizing text with
  | nil => simp
  | cons c literal ih =>
    rw [map_cons, cons_append, tokensMatch_char]
    constructor
    · rintro ⟨rest, rfl, h⟩
      obtain ⟨last, rfl, hlast⟩ := (ih rest).mp h
      exact ⟨last, rfl, hlast⟩
    · rintro ⟨last, rfl, hlast⟩
      exact ⟨literal ++ last, rfl, (ih _).mpr ⟨last, rfl, hlast⟩⟩

theorem tokensMatch_any : tokensMatch [.any] text = true := by
  rw [tokensMatch, any_eq_true]
  exact ⟨[], (mem_tails _ _).mpr nil_suffix, rfl⟩

theorem LikeLiteral.tokens_inj {out out' : LikeLiteral} (h : out.tokens = out'.tokens) : out = out' := by
  have hinj : Function.Injective LikeToken.char := fun _ _ h => LikeToken.char.inj h
  cases out <;> cases out' <;> simp only [tokens] at h
  · rw [map_injective_iff.mpr hinj h]
  · simpa using congrArg (LikeToken.any ∈ ·) h
  · simpa using congrArg (LikeToken.any ∈ ·) h
  · rw [map_injective_iff.mpr hinj (append_cancel_right h)]

/-- Behind a wildcard that stands before the end, or is a single character, there is no lowered pattern. -/
theorem LikeLiteral.wildcards (out : LikeLiteral) : .any ∉ out.tokens.dropLast ∧ .one ∉ out.tokens := by
  cases out <;> simp [tokens]
  exact fun h => by simpa using mem_of_mem_dropLast h

theorem likeTokens_ne_nil {chars : List Char} (hchars : chars ≠ []) : likeTokens escape chars ≠ some [] := by
  cases chars with
  | nil => exact absurd rfl hchars
  | cons c chars =>
    by_cases h : c = escape
    · subst h
      cases chars <;> simp [likeTokens]
    · simp [likeTokens_plain h]

theorem exactLikeLiteralFrom_eq_some_iff : exactLikeLiteralFrom escape literal pattern = some out ↔
    (likeTokens escape pattern).map (literal.map .char ++ ·) = some out.tokens := by
  fun_induction exactLikeLiteralFrom escape literal pattern with
  | case1 literal =>
    rw [likeTokens, Option.map_some, append_nil, Option.some_inj, Option.some_inj]
    exact ⟨fun h => congrArg LikeLiteral.tokens h, fun h => LikeLiteral.tokens_inj h⟩
  | case2 literal => simp [likeTokens]
  | case3 literal next chars ih =>
    rw [ih, likeTokens_escaped, Option.map_map]
    simp [Function.comp_def]
  | case4 literal hescape =>
    rw [likeTokens_plain hescape, likeTokens, Option.some_inj]
    exact ⟨fun h => congrArg (some ∘ LikeLiteral.tokens) h,
      fun h => LikeLiteral.tokens_inj (Option.some.inj h)⟩
  | case5 literal chars hchars hescape =>
    refine iff_of_false nofun fun h => ?_
    obtain ⟨tokens, htokens, htext⟩ := Option.map_eq_some_iff.mp h
    rw [likeTokens_plain hescape, if_pos rfl] at htokens
    obtain ⟨rest, hrest, rfl⟩ := Option.map_eq_some_iff.mp htokens
    have hne : rest ≠ [] := fun hnil => likeTokens_ne_nil hchars (hnil ▸ hrest)
    refine out.wildcards.1 ?_
    rw [← htext, dropLast_append_of_ne_nil (cons_ne_nil _ _), dropLast_cons_of_ne_nil hne]
    simp
  | case6 literal chars hescape hany =>
    refine iff_of_false nofun fun h => ?_
    obtain ⟨tokens, htokens, htext⟩ := Option.map_eq_some_iff.mp h
    rw [likeTokens_plain hescape, if_neg hany, if_pos rfl] at htokens
    obtain ⟨rest, -, rfl⟩ := Option.map_eq_some_iff.mp htokens
    refine out.wildcards.2 ?_
    rw [← htext]
    simp
  | case7 literal ch chars hescape hany hone ih =>
    rw [ih, likeTokens_plain hescape, if_neg hany, if_neg hone, Option.map_map]
    simp [Function.comp_def]

theorem exactLikeLiteral_eq_some_iff {escapeChar : Option Char} :
    exactLikeLiteral pattern escapeChar = some out ↔
    likeTokens (escapeChar.getD defaultEscape) pattern = some out.tokens := by
  rw [exactLikeLiteral, exactLikeLiteralFrom_eq_some_iff]
  simp

theorem LikeLiteral.accepts_iff (out : LikeLiteral) (text : List Char) :
    out.accepts text ↔ tokensMatch out.tokens text = true := by
  cases out with
  | exact literal =>
    have hmatch := tokensMatch_chars literal [] text
    simpa [tokens, accepts, tokensMatch] using hmatch.symm
  | start literal =>
    rw [tokens, tokensMatch_chars]
    simp only [tokensMatch_any, and_true]
    exact ⟨fun ⟨rest, h⟩ => ⟨rest, h.symm⟩, fun ⟨rest, h⟩ => ⟨rest, h.symm⟩⟩

theorem exactLikeLiteral_spec {escapeChar : Option Char}
    (h : exactLikeLiteral pattern escapeChar = some out) :
    ∃ tokens, likeTokens (escapeChar.getD defaultEscape) pattern = some tokens ∧
      ∀ text, out.accepts text ↔ tokensMatch tokens text = true :=
  ⟨out.tokens, exactLikeLiteral_eq_some_iff.mp h, out.accepts_iff⟩

/-- A pattern is lowered just when it is plain characters with at most a `%` behind them. -/
theorem exactLikeLiteral_exact (pattern : List Char) (escapeChar : Option Char) :
    (∀ out, exactLikeLiteral pattern escapeChar = some out ↔
      likeTokens (escapeChar.getD defaultEscape) pattern = some out.tokens) ∧
    ∀ out text, LikeLiteral.accepts out text ↔ tokensMatch out.tokens text = true :=
  ⟨fun _ => exactLikeLiteral_eq_some_iff, LikeLiteral.accepts_iff⟩

end

/-! The bytes of a text. -/

def utf8 (chars : List Char) : Bytes := chars.flatMap String.utf8EncodeChar

theorem utf8EncodeChar_append_inj {c d : Char} {x y : Bytes}
    (h : String.utf8EncodeChar c ++ x = String.utf8EncodeChar d ++ y) : c = d ∧ x = y := by
  have hdecode := congrArg (fun bytes => (List.toByteArray bytes).utf8DecodeChar? 0) h
  simp only [toByteArray_append, ByteArray.utf8DecodeChar?_utf8EncodeChar_append] at hdecode
  cases hdecode
  exact ⟨rfl, append_cancel_left h⟩

theorem utf8_append (a b : List Char) : utf8 (a ++ b) = utf8 a ++ utf8 b := flatMap_append

theorem utf8_isPrefix_iff {a b : List Char} : utf8 a <+: utf8 b ↔ a <+: b := by
  constructor
  · intro h
    induction a generalizing b with
    | nil => exact nil_prefix
    | cons c a ih =>
      obtain ⟨rest, hrest⟩ := h
      cases b with
      | nil =>
        have hlength := congrArg List.length hrest
        have hpos := Char.utf8Size_pos c
        simp [utf8] at hlength
        omega
      | cons d b =>
        rw [utf8, utf8, flatMap_cons, flatMap_cons, append_assoc] at hrest
        obtain ⟨rfl, htail⟩ := utf8EncodeChar_append_inj hrest
        exact cons_prefix_cons.mpr ⟨rfl, ih ⟨rest, htail⟩⟩
  · rintro ⟨rest, rfl⟩
    exact ⟨utf8 rest, (utf8_append a rest).symm⟩

theorem utf8_inj {a b : List Char} : utf8 a = utf8 b ↔ a = b := by
  refine ⟨fun h => ?_, congrArg utf8⟩
  have hab := utf8_isPrefix_iff.mp (h ▸ prefix_rfl : utf8 a <+: utf8 b)
  have hba := utf8_isPrefix_iff.mp (h ▸ prefix_rfl : utf8 b <+: utf8 a)
  exact List.IsPrefix.eq_of_length hab (Nat.le_antisymm hab.length_le hba.length_le)

end CoveFormat.LikePatterns
