import ExprView.Proofs.Grammar.Canonical
import ExprView.Proofs.Parser.Outcome

/-!
# Printing and parsing

What is parsed is canonical and keeps every lexeme of the source, and a canonical tree is what its
own text is parsed as.

## Main statements

* `print_parse_inverse`: printing and parsing are inverse but for the blanks.
-/

namespace ExprView

/-! ### The operators of a tree -/

theorem spelled_unaryOperator (op : UnaryOperator) : (Lexeme.operator op.symbol).Spelled :=
  spelled_operator (by cases op <;> decide)

theorem spelled_binaryOperator (op : BinaryOperator) : (Lexeme.operator op.symbol).Spelled :=
  spelled_operator (by cases op <;> decide)

/-- Of what a tree is printed with, the operators can always be read. -/
def OperatorsSpelled (ls : List Lexeme) : Prop := ∀ x ∈ ls, x.kind = .operator → x.Spelled

theorem OperatorsSpelled.cons {x : Lexeme} {ls : List Lexeme} (hx : x.kind = .operator → x.Spelled)
    (h : OperatorsSpelled ls) : OperatorsSpelled (x :: ls) :=
  List.forall_mem_cons.mpr ⟨hx, h⟩

theorem OperatorsSpelled.append {ls rs : List Lexeme} (hl : OperatorsSpelled ls)
    (hr : OperatorsSpelled rs) : OperatorsSpelled (ls ++ rs) :=
  List.forall_mem_append.mpr ⟨hl, hr⟩

theorem operatorsSpelled_nil : OperatorsSpelled [] := by
  intro x hx
  cases hx

/-- What is closed by a parenthesis. -/
theorem OperatorsSpelled.close {ls : List Lexeme} (h : OperatorsSpelled ls) :
    OperatorsSpelled (ls ++ [.operator ')']) :=
  h.append (operatorsSpelled_nil.cons fun _ => spelled_operator rfl)

namespace Expr

mutual

/-- The operators that a tree is printed with are operators of the lexer. -/
theorem operatorsSpelled : (e : Expr) → OperatorsSpelled e.lexemes
  | .number _ | .identifier _ => operatorsSpelled_nil.cons fun h => by cases h
  | .unary op operand => (operatorsSpelled operand).cons fun _ => spelled_unaryOperator op
  | .binary op left right =>
    (operatorsSpelled left).append
      ((operatorsSpelled right).cons fun _ => spelled_binaryOperator op)
  | .assignment target value => (operatorsSpelled target).append (valueOperatorsSpelled value)
  | .call _ arguments =>
    ((argumentsOperatorsSpelled arguments).close.cons fun _ => spelled_operator rfl).cons
      fun h => by cases h
  | .grouping inner => (operatorsSpelled inner).close.cons fun _ => spelled_operator rfl

theorem valueOperatorsSpelled : (v : Option Expr) → OperatorsSpelled (valueLexemes v)
  | none => operatorsSpelled_nil
  | some v => (operatorsSpelled v).cons fun _ => spelled_operator rfl

theorem argumentsOperatorsSpelled : (es : List Expr) → OperatorsSpelled (argumentsLexemes es)
  | [] => operatorsSpelled_nil
  | e :: es => (operatorsSpelled e).append (moreOperatorsSpelled es)

theorem moreOperatorsSpelled : (es : List Expr) → OperatorsSpelled (moreLexemes es)
  | [] => operatorsSpelled_nil
  | e :: es =>
    ((operatorsSpelled e).append (moreOperatorsSpelled es)).cons fun _ => spelled_operator rfl

end

end Expr

/-! ### There and back -/

variable {s : String} {e : Expr}

/-- Sources with the same lexemes are parsed as the same tree. -/
theorem parse_of_lexemes_eq {s' : String} {ts us : List Token} (h : parse s = .ok ⟨e⟩)
    (hts : tokenize s = .ok ts) (hus : tokenize s' = .ok us) (heq : lexemes us = lexemes ts) :
    parse s' = .ok ⟨e⟩ := by
  obtain ⟨vs, l, n, hr, hend, he, hn⟩ := exists_derives_of_parse h
  obtain rfl := Except.ok.inj (hts.symm.trans (tokenize_of_reads hr hend))
  obtain ⟨l', hr', hend'⟩ := tokenize_eq_ok_iff.mp hus
  exact parse_of_derives hr' hend' (heq ▸ he) hn

/-- The lexemes of a source that is parsed are those of its tree. -/
theorem lexemes_of_parse (h : parse s = .ok ⟨e⟩) :
    ∃ ts, tokenize s = .ok ts ∧ lexemes ts = e.lexemes := by
  obtain ⟨ts, l, n, hr, hend, he, -⟩ := exists_derives_of_parse h
  exact ⟨ts, tokenize_of_reads hr hend, he.lexemes_eq⟩

/-- A tree that a source is parsed as is canonical, and its levels can be opened. -/
theorem isCanonical_of_parse (h : parse s = .ok ⟨e⟩) :
    Program.isCanonical ⟨e⟩ = true ∧ Program.nesting ⟨e⟩ ≤ maxNesting := by
  obtain ⟨ts, l, n, -, -, he, hn⟩ := exists_derives_of_parse h
  obtain ⟨hc, rfl, -⟩ := derives_iff_isCanonical.mp he
  exact ⟨hc, hn⟩

/-- The text of a tree that a source is parsed as has the lexemes of the source. -/
theorem tokenize_print_of_parse (h : parse s = .ok ⟨e⟩) :
    ∃ us, tokenize e.print = .ok us ∧ lexemes us = e.lexemes := by
  obtain ⟨ts, l, n, hr, -, he, -⟩ := exists_derives_of_parse h
  exact tokenize_intercalate (he.lexemes_eq ▸ hr.spelled)

/-- The text of a canonical tree, if its names and literals are names and literals of the lexer
and its levels can be opened, is parsed as this tree. -/
theorem parse_print_of_isCanonical (hc : Program.isCanonical ⟨e⟩ = true)
    (hn : Program.nesting ⟨e⟩ ≤ maxNesting) (hls : ∀ x ∈ e.lexemes, x.Spelled) :
    parse e.print = .ok ⟨e⟩ := by
  obtain ⟨ts, hts, hlexemes⟩ := tokenize_intercalate hls
  obtain ⟨l, hr, hend⟩ := tokenize_eq_ok_iff.mp hts
  exact parse_of_derives hr hend (derives_iff_isCanonical.mpr ⟨hc, rfl, hlexemes⟩) hn

/-- Printing and parsing are inverse but for the blanks. A canonical tree that opens no more levels
than there are is what its text is parsed as, if its names and literals are read as such; and a
tree that a source is parsed as is canonical and printed with the lexemes of the source. So two
sources are parsed as the same tree exactly when they have the same lexemes. -/
theorem print_parse_inverse :
    (∀ e : Expr, Program.isCanonical ⟨e⟩ = true → Program.nesting ⟨e⟩ ≤ maxNesting →
      (∀ x ∈ e.lexemes, x.kind ≠ .operator → x.ReadsBack) → parse e.print = .ok ⟨e⟩) ∧
    (∀ (s : String) (e : Expr), parse s = .ok ⟨e⟩ →
      Program.isCanonical ⟨e⟩ = true ∧ Program.nesting ⟨e⟩ ≤ maxNesting ∧
      (∃ ts us, tokenize s = .ok ts ∧ tokenize e.print = .ok us ∧ lexemes us = lexemes ts) ∧
      ∀ s' : String, parse s' = .ok ⟨e⟩ ↔
        ∃ ts us, tokenize s = .ok ts ∧ tokenize s' = .ok us ∧ lexemes us = lexemes ts) := by
  constructor
  · intro e hc hn hls
    apply parse_print_of_isCanonical hc hn
    intro x hx
    by_cases hop : x.kind = .operator
    · exact e.operatorsSpelled x hx hop
    · exact Lexeme.readsBack_iff.mp (hls x hx hop)
  · intro s e h
    obtain ⟨hc, hn⟩ := isCanonical_of_parse h
    obtain ⟨ts, hts, hlexemes⟩ := lexemes_of_parse h
    obtain ⟨us, hus, hprint⟩ := tokenize_print_of_parse h
    refine ⟨hc, hn, ⟨ts, us, hts, hus, hprint.trans hlexemes.symm⟩, ?_⟩
    intro s'
    constructor
    · intro h'
      obtain ⟨us, hus, hsame⟩ := lexemes_of_parse h'
      exact ⟨ts, us, hts, hus, hsame.trans hlexemes.symm⟩
    · rintro ⟨ts', us, hts', hus, hsame⟩
      exact parse_of_lexemes_eq h hts' hus hsame

/-- A call with a name as its argument is printed and parsed, with these blanks and without. -/
theorem print_parse_inverse_call :
    parse "f ( x )" = .ok ⟨.call "f" [.assignment (.identifier "x") none]⟩ ∧
      parse "f(x)" = .ok ⟨.call "f" [.assignment (.identifier "x") none]⟩ := by
  let e : Expr := .call "f" [.assignment (.identifier "x") none]
  have hls : ∀ x ∈ e.lexemes, x.kind ≠ .operator → x.ReadsBack := by
    have hmem : ∀ x ∈ e.lexemes, x.kind ≠ .operator →
        x = .identifier "f" ∨ x = .identifier "x" := by decide
    intro x hx hop
    rcases hmem x hx hop with rfl | rfl
    · exact Lexeme.readsBack_iff.mpr ⟨'f', [], by decide, by decide, by simp⟩
    · exact Lexeme.readsBack_iff.mpr ⟨'x', [], by decide, by decide, by simp⟩
  have hprint : parse "f ( x )" = .ok ⟨e⟩ :=
    print_parse_inverse.1 e (by decide) (by decide) hls
  have hsame : (tokenize "f ( x )").map lexemes = (tokenize "f(x)").map lexemes := by decide +kernel
  obtain ⟨-, -, ⟨ts, -, hts, -⟩, hiff⟩ := print_parse_inverse.2 "f ( x )" e hprint
  refine ⟨hprint, (hiff "f(x)").mpr ?_⟩
  rw [hts] at hsame
  cases hus : tokenize "f(x)" with
  | error err =>
    rw [hus] at hsame
    cases hsame
  | ok us =>
    rw [hus] at hsame
    exact ⟨ts, us, hts, rfl, (Except.ok.inj hsame).symm⟩

end ExprView
