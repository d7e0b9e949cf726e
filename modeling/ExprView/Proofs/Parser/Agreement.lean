import ExprView.Proofs.Grammar.Completion
import ExprView.Proofs.Parser.Steps

/-!
# The rules follow the grammar

A rule of the parser reads what the grammar derives and makes the tree of the derivation, as long
as what comes next does not go on with it and there are enough levels to open.

## Main statements

* `Derives.accepts`, `DerivesArguments.accepts`: what is derived is read.
-/

namespace ExprView

open ParserM Lexer

/-- The rule for parts of the given strength, with `n` levels to open. -/
def rule : Category → Nat → ParserM Expr
  | .assignment, n => (level n).assignment
  | .additive, n => additive (level n)
  | .multiplicative, n => multiplicative (level n)
  | .unary, n => unary (level n)
  | .primary, n => primary (level n)

/-- A primary expression does not start with a sign. -/
theorem Derives.head?_noneOf_sign {n : Nat} {ls : List Lexeme} {e : Expr}
    (h : Derives .primary n ls e) (next : Option Lexeme) :
    NoneOf ['+', '-'] (ls.head?.or next) := by
  cases h <;> simp

/-- A name is read as a sum. -/
theorem additive_of_name {below : Level} {d : Nat} {l l' : Lexer} {t : Token} {x : String}
    (h : l.next = (.ok (some t), l')) (ht : t.toLexeme = .identifier x)
    (hstop : NoneOf ((Expr.identifier x).continuations .additive) l'.peek) :
    additive below ⟨l, d⟩ = .ok (.identifier x) ⟨l', d⟩ := by
  obtain ⟨hmul, hsum⟩ := Expr.noneOf_additive_iff.mp hstop
  obtain ⟨hcall, hproduct⟩ := Expr.noneOf_multiplicative_iff.mp hmul
  have hsign : NoneOf ['+', '-'] l.peek := by
    rw [peek_of_token h, ht]
    simp
  have hprimary : primary below ⟨l, d⟩ = .ok (.identifier x) ⟨l', d⟩ :=
    primary_of_name h ht hcall
  exact chain_of_noneOf (chain_of_noneOf ((unary_of_noneOf hsign).trans hprimary) hproduct) hsum

/-- A name in front of its value is read as a sum. -/
theorem additive_of_target {below : Level} {d : Nat} {l l₁ l₂ : Lexer} {t u : Token} {x : String}
    (h : l.next = (.ok (some t), l₁)) (ht : t.toLexeme = .identifier x)
    (hu : l₁.next = (.ok (some u), l₂)) (hop : u.toLexeme = .operator '=') :
    additive below ⟨l, d⟩ = .ok (.identifier x) ⟨l₁, d⟩ := by
  refine additive_of_name h ht ?_
  rw [peek_of_token hu, hop]
  simp [Expr.continuations, Category.operators, Expr.endsInName, Expr.awaitsValue]

mutual

/-- What is derived is read, and what it is read as is the tree of the derivation. -/
theorem Derives.accepts {c : Category} {m : Nat} {ls : List Lexeme} {e : Expr} {n d : Nat}
    {l l' : Lexer} {ts : List Token} (hm : m ≤ n) (hd : n + d = maxNesting) (hr : l.Reads ts l')
    (hls : lexemes ts = ls) (hstop : NoneOf (e.continuations c) l'.peek) :
    Derives c m ls e → rule c n ⟨l, d⟩ = .ok e ⟨l', d⟩
  | .sum h hname => by
    obtain ⟨n, rfl⟩ : ∃ k, n = k + 1 := ⟨n - 1, by omega⟩
    have hend : NoneOf (e.continuations .additive) l'.peek := hstop
    have hsum : additive (level n) ⟨l, d + 1⟩ = .ok e ⟨l', d + 1⟩ :=
      h.accepts (Nat.le_of_succ_le_succ hm) (by omega) hr hls hend
    exact nested_of_ok (by omega) (assignment_of_sum hsum hname)
  | .name x => by
    obtain ⟨n, rfl⟩ : ∃ k, n = k + 1 := ⟨n - 1, by omega⟩
    obtain ⟨t, rfl, hn, ht⟩ := hr.of_singleton hls
    obtain ⟨hend, hno⟩ := Expr.noneOf_name_iff.mp hstop
    exact nested_of_ok (by omega) (assignment_of_name (additive_of_name hn ht hend) hno)
  | @Derives.assign _ x _ v h => by
    obtain ⟨n, rfl⟩ : ∃ k, n = k + 1 := ⟨n - 1, by omega⟩
    obtain ⟨t, ts', l₁, rfl, hn, ht, hr₁, hls₁⟩ := hr.uncons hls
    obtain ⟨u, ts', l₂, rfl, hu, hop, hr₂, hls₂⟩ := hr₁.uncons hls₁
    have hname : additive (level n) ⟨l, d + 1⟩ = .ok (.identifier x) ⟨l₁, d + 1⟩ :=
      additive_of_target hn ht hu hop
    have hend : NoneOf (v.continuations .assignment) l'.peek := hstop
    have hvalue : (level n).assignment ⟨l₂, d + 1⟩ = .ok v ⟨l', d + 1⟩ :=
      h.accepts (Nat.le_of_succ_le_succ hm) (by omega) hr₂ hls₂ hend
    refine nested_of_ok (by omega) ?_
    rw [assignment_of_value hname hu hop, bind_of_ok hvalue]
    rfl
  | .term h => by
    obtain ⟨hend, hno⟩ := Expr.noneOf_additive_iff.mp hstop
    have hterm : multiplicative (level n) ⟨l, d⟩ = .ok e ⟨l', d⟩ := h.accepts hm hd hr hls hend
    exact chain_of_noneOf hterm hno
  | @Derives.add m k op us vs first second hop hl hrest => by
    obtain ⟨ts₁, ts₂, l₁, rfl, hr₁, hls₁, hr₂, hls₂⟩ := hr.split hls
    obtain ⟨t, ts₂, l₂, rfl, hn, ht, hr₃, hls₃⟩ := hr₂.uncons hls₂
    have hend : NoneOf (first.continuations .multiplicative) l₁.peek := by
      rw [peek_of_token hn, ht]
      exact noneOf_of_derives_multiplicative hop hl
    have hfirst : multiplicative (level n) ⟨l, d⟩ = .ok first ⟨l₁, d⟩ :=
      hl.accepts (Nat.le_trans (Nat.le_max_left m k) hm) hd hr₁ hls₁ hend
    have hsecond : additive (level n) ⟨l₂, d⟩ = .ok second ⟨l', d⟩ := by
      rw [Expr.continuations_binary _ op first (hrest.awaitsValue_eq (by simp))] at hstop
      exact hrest.accepts (Nat.le_trans (Nat.le_max_right m k) hm) hd hr₃ hls₃ hstop
    have hchain := additive_of_operator (steady_level n) hop hfirst hn ht
    exact hchain.trans (bind_of_ok hsecond)
  | .factor h => by
    obtain ⟨hend, hno⟩ := Expr.noneOf_multiplicative_iff.mp hstop
    have hfactor : unary (level n) ⟨l, d⟩ = .ok e ⟨l', d⟩ := h.accepts hm hd hr hls hend
    exact chain_of_noneOf hfactor hno
  | @Derives.mul m k op us vs first second hop hl hrest => by
    obtain ⟨ts₁, ts₂, l₁, rfl, hr₁, hls₁, hr₂, hls₂⟩ := hr.split hls
    obtain ⟨t, ts₂, l₂, rfl, hn, ht, hr₃, hls₃⟩ := hr₂.uncons hls₂
    have hend : NoneOf (first.continuations .unary) l₁.peek := by
      rw [peek_of_token hn, ht]
      exact noneOf_of_derives_unary op hl
    have hfirst : unary (level n) ⟨l, d⟩ = .ok first ⟨l₁, d⟩ :=
      hl.accepts (Nat.le_trans (Nat.le_max_left m k) hm) hd hr₁ hls₁ hend
    have hsecond : multiplicative (level n) ⟨l₂, d⟩ = .ok second ⟨l', d⟩ := by
      rw [Expr.continuations_binary _ op first (hrest.awaitsValue_eq (by simp))] at hstop
      exact hrest.accepts (Nat.le_trans (Nat.le_max_right m k) hm) hd hr₃ hls₃ hstop
    have hchain := multiplicative_of_operator (steady_level n) hop hfirst hn ht
    exact hchain.trans (bind_of_ok hsecond)
  | @Derives.signed _ op _ operand h => by
    obtain ⟨n, rfl⟩ : ∃ k, n = k + 1 := ⟨n - 1, by omega⟩
    obtain ⟨t, ts', l₁, rfl, hn, ht, hr₁, hls₁⟩ := hr.uncons hls
    rw [Expr.continuations_signed _ op (h.awaitsValue_eq (by simp))] at hstop
    have hbelow : unary (level n) ⟨l₁, d + 1⟩ = .ok operand ⟨l', d + 1⟩ :=
      h.accepts (Nat.le_of_succ_le_succ hm) (by omega) hr₁ hls₁ hstop
    have hoperand : (level (n + 1)).unary ⟨l₁, d⟩ = .ok operand ⟨l', d⟩ :=
      nested_of_ok (by omega) hbelow
    exact (unary_of_sign hn ht).trans (bind_of_ok hoperand)
  | .operand h => by
    have hsign : NoneOf ['+', '-'] l.peek := by
      rw [hr.peek_eq, hls]
      exact h.head?_noneOf_sign l'.peek
    have hend : NoneOf (e.continuations .primary) l'.peek := hstop
    have hprimary : primary (level n) ⟨l, d⟩ = .ok e ⟨l', d⟩ := h.accepts hm hd hr hls hend
    exact (unary_of_noneOf hsign).trans hprimary
  | .identifier x => by
    obtain ⟨t, rfl, hn, ht⟩ := hr.of_singleton hls
    exact primary_of_name hn ht hstop
  | .number x => by
    obtain ⟨t, rfl, hn, ht⟩ := hr.of_singleton hls
    exact primary_of_number hn ht
  | @Derives.grouping _ us inner h => by
    obtain ⟨t, ts', l₁, rfl, hn, ht, hr₁, hls₁⟩ := hr.uncons hls
    obtain ⟨ts₁, ts₂, l₂, rfl, hr₂, hls₂, hr₃, hls₃⟩ := hr₁.split hls₁
    obtain ⟨u, rfl, hu, hclose⟩ := hr₃.of_singleton hls₃
    have hend : NoneOf (inner.continuations .assignment) l₂.peek := by
      rw [peek_of_token hu, hclose]
      exact (noneOf_close .assignment inner).1
    have hinner : (level n).assignment ⟨l₁, d⟩ = .ok inner ⟨l₂, d⟩ :=
      h.accepts hm hd hr₂ hls₂ hend
    exact primary_of_grouping hn ht hinner hu hclose
  | .callEmpty f => by
    obtain ⟨t, ts', l₁, rfl, hn, ht, hr₁, hls₁⟩ := hr.uncons hls
    obtain ⟨u, ts', l₂, rfl, hu, hopen, hr₂, hls₂⟩ := hr₁.uncons hls₁
    obtain ⟨v, rfl, hv, hclose⟩ := hr₂.of_singleton hls₂
    exact primary_of_callEmpty hn ht hu hopen hv hclose
  | @Derives.call _ f us es h => by
    obtain ⟨t, ts', l₁, rfl, hn, ht, hr₁, hls₁⟩ := hr.uncons hls
    obtain ⟨u, ts', l₂, rfl, hu, hopen, hr₂, hls₂⟩ := hr₁.uncons hls₁
    obtain ⟨ts₁, ts₂, l₃, rfl, hr₃, hls₃, hr₄, hls₄⟩ := hr₂.split hls₂
    obtain ⟨v, rfl, hv, hclose⟩ := hr₄.of_singleton hls₄
    have hempty : NoneOf [')'] l₂.peek := by
      rw [hr₂.peek_eq, hls₂, List.head?_append, Option.or_assoc]
      exact h.head?_noneOf_close _
    have hend : NoneOf (Expr.argumentsContinuations es) l₃.peek := by
      rw [peek_of_token hv, hclose]
      exact noneOf_argumentsContinuations es
    have harguments : argumentList (level n) f ⟨l₂, d⟩ = .ok es ⟨l₃, d⟩ :=
      h.accepts f hm hd hr₃ hls₃ hend
    exact primary_of_arguments hn ht hu hopen hempty harguments hv hclose

theorem DerivesArguments.accepts {m : Nat} {ls : List Lexeme} {es : List Expr} (f : String)
    {n d : Nat} {l l' : Lexer} {ts : List Token} (hm : m ≤ n) (hd : n + d = maxNesting)
    (hr : l.Reads ts l') (hls : lexemes ts = ls)
    (hstop : NoneOf (Expr.argumentsContinuations es) l'.peek) :
    DerivesArguments m ls es → argumentList (level n) f ⟨l, d⟩ = .ok es ⟨l', d⟩
  | .one h => by
    obtain ⟨hno, hend⟩ := noneOf_cons.mp hstop
    exact argumentList_of_noneOf (h.accepts hm hd hr hls hend) hno
  | @DerivesArguments.more m k us vs e es h hs => by
    obtain ⟨ts₁, ts₂, l₁, rfl, hr₁, hls₁, hr₂, hls₂⟩ := hr.split hls
    obtain ⟨t, ts₂, l₂, rfl, hn, ht, hr₃, hls₃⟩ := hr₂.uncons hls₂
    have hend : NoneOf (e.continuations .assignment) l₁.peek := by
      rw [peek_of_token hn, ht]
      exact (noneOf_close .assignment e).2
    have hfirst : (level n).assignment ⟨l, d⟩ = .ok e ⟨l₁, d⟩ :=
      h.accepts (Nat.le_trans (Nat.le_max_left m k) hm) hd hr₁ hls₁ hend
    have hmore : argumentList (level n) f ⟨l₂, d⟩ = .ok es ⟨l', d⟩ := by
      rw [Expr.argumentsContinuations_cons e hs.ne_nil] at hstop
      exact hs.accepts f (Nat.le_trans (Nat.le_max_right m k) hm) hd hr₃ hls₃ hstop
    have hclose : NoneOf [')'] l₂.peek := by
      rw [hr₃.peek_eq, hls₃]
      exact hs.head?_noneOf_close l'.peek
    exact (argumentList_of_comma (steady_level n) hfirst hn ht hclose).trans (bind_of_ok hmore)

end

end ExprView
