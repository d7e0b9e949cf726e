import ExprView.Proofs.Grammar.Canonical
import ExprView.Proofs.Parser.Outcome

/-!
# The parser accepts the grammar

A source is parsed as a tree exactly when its lexemes denote the tree by a derivation that opens
no more levels than there are. If all that is wrong with a derivation is its nesting, that is what
is reported.

## Main statements

* `parse_exact`: what is parsed, and what is reported of an expression that is nested too deeply.
-/

namespace ExprView

open Lexer

variable {s : String} {e : Expr} {ts : List Token}

/-- A source is parsed as a tree exactly when the tree has a derivation that fits. -/
theorem parse_eq_ok_iff : parse s = .ok ⟨e⟩ ↔
    ∃ ts n, tokenize s = .ok ts ∧ Derives .assignment n (lexemes ts) e ∧ n ≤ maxNesting := by
  constructor
  · intro h
    obtain ⟨ts, l, n, hr, hend, he, hn⟩ := exists_derives_of_parse h
    exact ⟨ts, n, tokenize_of_reads hr hend, he, hn⟩
  · rintro ⟨ts, n, hts, he, hn⟩
    obtain ⟨l, hr, hend⟩ := tokenize_eq_ok_iff.mp hts
    exact parse_of_derives hr hend he hn

/-- An expression that is nested too deeply is reported as that, without a place. -/
theorem parse_of_maxNesting_lt {n : Nat} (hts : tokenize s = .ok ts)
    (he : Derives .assignment n (lexemes ts) e) (hn : maxNesting < n) :
    parse s = .error (.grammatical ⟨.tooDeep, none⟩) := by
  obtain ⟨l, hr, hend⟩ := tokenize_eq_ok_iff.mp hts
  obtain ⟨us, vs, hls, hw⟩ := he.refuses_level hn
  obtain ⟨ts₁, ts₂, l₁, rfl, hr₁, rfl, hr₂, rfl⟩ := hr.split hls
  have hpeek : l₁.peek = (lexemes ts₂ ++ []).head? := by
    rw [hr₂.peek_eq, peek_of_end hend, Option.or_none, List.append_nil]
  obtain ⟨err, hrep, hparse⟩ := parse_of_refuses hr₁ (hpeek ▸ hw [])
  cases hrep with
  | level => exact hparse
  | awaited _ hw => cases hw

/-- A source is parsed as a tree exactly when its lexemes denote the tree by a derivation of a
nesting that is allowed; and if they denote it by one that is nested too deeply, this is what is
reported. -/
theorem parse_exact (s : String) (e : Expr) :
    (parse s = .ok ⟨e⟩ ↔
      ∃ ts n, tokenize s = .ok ts ∧ Derives .assignment n (lexemes ts) e ∧ n ≤ maxNesting) ∧
    ∀ ts n, tokenize s = .ok ts → Derives .assignment n (lexemes ts) e → maxNesting < n →
      parse s = .error (.grammatical ⟨.tooDeep, none⟩) :=
  ⟨parse_eq_ok_iff, fun _ _ hts he hn => parse_of_maxNesting_lt hts he hn⟩

/-- A literal with signs in front. -/
def Expr.negated : Nat → Expr
  | 0 => .number "1"
  | n + 1 => .unary .minus (negated n)

/-- With 63 signs in front of a literal all levels are open, with 64 there are too few. -/
theorem parse_exact_negated :
    parse (Expr.negated 63).print = .ok ⟨Expr.negated 63⟩ ∧
      parse (Expr.negated 64).print = .error (.grammatical ⟨.tooDeep, none⟩) := by
  have htokens (n : Nat) : ∃ ts, tokenize (Expr.negated n).print = .ok ts ∧
      lexemes ts = (Expr.negated n).lexemes := by
    refine tokenize_intercalate ?_
    induction n with
    | zero => exact List.forall_mem_singleton.mpr spelled_one
    | succ n ih => exact List.forall_mem_cons.mpr ⟨spelled_operator rfl, ih⟩
  obtain ⟨ts, hts, hls⟩ := htokens 63
  obtain ⟨us, hus, hls'⟩ := htokens 64
  have he : Derives .assignment 64 (lexemes ts) (Expr.negated 63) :=
    derives_iff_isCanonical.mpr ⟨by decide, by decide, hls⟩
  have he' : Derives .assignment 65 (lexemes us) (Expr.negated 64) :=
    derives_iff_isCanonical.mpr ⟨by decide, by decide, hls'⟩
  exact ⟨(parse_exact _ _).1.mpr ⟨ts, 64, hts, he, by decide⟩,
    (parse_exact _ _).2 us 65 hus he' (by decide)⟩

end ExprView
