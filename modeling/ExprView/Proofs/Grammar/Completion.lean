import ExprView.Proofs.Grammar.Refusal

/-!
# What a refusal means

A refusal comes at the first place where it can. What was read before it can be completed, unless
the levels are used up; and the lexeme after it is refused whatever comes behind.

## Main statements

* `Refuses.completable`: what was read before a refusal can be completed to an expression.
* `Refuses.of_alike`: a lexeme of the same kind is refused in the same place.
* `Derives.refuses_level`: an expression that is nested too deeply is refused for that.
-/

namespace ExprView

/-! ### Completions -/

/-- The lexemes can be completed to an expression that opens at most `n` levels. -/
def Completable (c : Category) (n : Nat) (us : List Lexeme) : Prop :=
  ∃ vs m e, m ≤ n ∧ Derives c m (us ++ vs) e ∧ ∀ x ∈ vs, x.Spelled

/-- The lexemes can be completed to arguments that open at most `n` levels. -/
def CompletableArguments (n : Nat) (us : List Lexeme) : Prop :=
  ∃ vs m es, m ≤ n ∧ DerivesArguments m (us ++ vs) es ∧ ∀ x ∈ vs, x.Spelled

theorem spelled_operator {c : Char} (h : isOperatorChar c = true) :
    (Lexeme.operator c).Spelled := by
  refine ⟨c, h, ?_⟩
  simp [Lexeme.operator]

theorem spelled_one : (Lexeme.number "1").Spelled := by
  refine .plain (.whole (fun c hc => ?_) (by decide))
  obtain rfl : c = '1' := by simpa [Lexeme.number] using hc
  decide

/-- An expression opens a level. -/
theorem Derives.pos {n : Nat} {ls : List Lexeme} {e : Expr} (h : Derives .assignment n ls e) :
    0 < n := by
  cases h <;> omega

/-- A sum can stand where an assignment may stand, if need be as a name without a value. -/
theorem Derives.exists_assignment {n : Nat} {ls : List Lexeme} {e : Expr}
    (h : Derives .additive n ls e) : ∃ m e', m ≤ n + 1 ∧ Derives .assignment m ls e' := by
  by_cases hname : e.isIdentifier = true
  · obtain ⟨x, rfl⟩ := Expr.exists_of_isIdentifier hname
    obtain rfl : ls = [.identifier x] := h.lexemes_eq
    exact ⟨1, _, by omega, .name x⟩
  · exact ⟨n + 1, e, Nat.le_refl _, .sum h (by simpa using hname)⟩

/-- A number is an expression. -/
theorem derives_number (n : String) : Derives .assignment 1 [.number n] (.number n) :=
  .sum (.term (.factor (.operand (.number n)))) rfl

/-- Adds lexemes that close what is open. -/
theorem spelled_concat {vs : List Lexeme} (h : ∀ x ∈ vs, x.Spelled) :
    ∀ x ∈ vs ++ [.operator ')'], x.Spelled := by
  intro x hx
  rcases List.mem_append.mp hx with hx | hx
  · exact h x hx
  · obtain rfl : x = .operator ')' := by simpa using hx
    exact spelled_operator rfl

mutual

/-- What was read before a refusal can be completed, unless no level is left. -/
theorem Refuses.completable {next : Option Lexeme} {c : Category} {n : Nat} {us : List Lexeme}
    {w : Need} (hw : w ≠ .level) : Refuses next c n us w → Completable c n us
  | .level => absurd rfl hw
  | .sum h => by
    obtain ⟨vs, m, e, hm, hd, hvs⟩ := h.completable hw
    obtain ⟨k, e', hk, hd'⟩ := hd.exists_assignment
    exact ⟨vs, k, e', by omega, hd', hvs⟩
  | .assign h => by
    obtain ⟨vs, m, e, hm, hd, hvs⟩ := h.completable hw
    exact ⟨vs, m + 1, _, Nat.succ_le_succ hm, .assign hd, hvs⟩
  | .term h => by
    obtain ⟨vs, m, e, hm, hd, hvs⟩ := h.completable hw
    exact ⟨vs, m, e, hm, .term hd, hvs⟩
  | .add hop hl hm h => by
    obtain ⟨vs, k, e, hk, hd, hvs⟩ := h.completable hw
    have hrow := Derives.add hop hl hd
    rw [← List.cons_append, ← List.append_assoc] at hrow
    exact ⟨vs, _, _, Nat.max_le.mpr ⟨hm, hk⟩, hrow, hvs⟩
  | .factor h => by
    obtain ⟨vs, m, e, hm, hd, hvs⟩ := h.completable hw
    exact ⟨vs, m, e, hm, .factor hd, hvs⟩
  | .mul hop hl hm h => by
    obtain ⟨vs, k, e, hk, hd, hvs⟩ := h.completable hw
    have hrow := Derives.mul hop hl hd
    rw [← List.cons_append, ← List.append_assoc] at hrow
    exact ⟨vs, _, _, Nat.max_le.mpr ⟨hm, hk⟩, hrow, hvs⟩
  | .signedLevel _ => absurd rfl hw
  | .signed h => by
    obtain ⟨vs, m, e, hm, hd, hvs⟩ := h.completable hw
    exact ⟨vs, m + 1, _, Nat.succ_le_succ hm, .signed hd, hvs⟩
  | .operand h _ => by
    obtain ⟨vs, m, e, hm, hd, hvs⟩ := h.completable hw
    exact ⟨vs, m, e, hm, .operand hd, hvs⟩
  | .nothing _ => ⟨[.number "1"], 0, _, Nat.zero_le n, .number "1", by simpa using spelled_one⟩
  | .grouping h => by
    obtain ⟨vs, m, e, hm, hd, hvs⟩ := h.completable hw
    have hrow := Derives.grouping hd
    rw [List.append_assoc] at hrow
    exact ⟨vs ++ [.operator ')'], m, _, hm, hrow, spelled_concat hvs⟩
  | .unclosed he hm _ _ =>
    ⟨[.operator ')'], _, _, hm, .grouping he, by simpa using spelled_operator rfl⟩
  | @Refuses.call _ _ f _ _ h _ => by
    obtain ⟨vs, m, es, hm, hd, hvs⟩ := h.completable hw
    have hrow := Derives.call (f := f) hd
    rw [List.append_assoc] at hrow
    exact ⟨vs ++ [.operator ')'], m, _, hm, hrow, spelled_concat hvs⟩
  | .unclosedCall hes hm _ _ =>
    ⟨[.operator ')'], _, _, hm, .call hes, by simpa using spelled_operator rfl⟩

theorem RefusesArguments.completable {next : Option Lexeme} {f : String} {n : Nat}
    {us : List Lexeme} {w : Need} (hw : w ≠ .level) :
    RefusesArguments next f n us w → CompletableArguments n us
  | .first h => by
    obtain ⟨vs, m, e, hm, hd, hvs⟩ := h.completable hw
    exact ⟨vs, m, [e], hm, .one hd, hvs⟩
  | .further he hm h _ => by
    obtain ⟨vs, k, es, hk, hd, hvs⟩ := h.completable hw
    have hrow := DerivesArguments.more he hd
    rw [← List.cons_append, ← List.append_assoc] at hrow
    exact ⟨vs, _, _, Nat.max_le.mpr ⟨hm, hk⟩, hrow, hvs⟩
  | .missing he hm _ => by
    have hrow := DerivesArguments.more he (.one (derives_number "1"))
    rw [List.append_cons] at hrow
    exact ⟨[.number "1"], _, _, Nat.max_le.mpr ⟨hm, Nat.le_trans he.pos hm⟩, hrow,
      by simpa using spelled_one⟩

end

/-! ### Alike lexemes -/

/-- The lexemes are of one kind and, if they are operators, the same. -/
def Lexeme.Alike (x y : Lexeme) : Prop := x.kind = y.kind ∧ (x.kind = .operator → x = y)

namespace Lexeme.Alike

variable {x y : Lexeme}

theorem isOperator_eq (h : x.Alike y) (op : Char) : x.isOperator op = y.isOperator op := by
  by_cases hop : x.kind = .operator
  · rw [h.2 hop]
  · have hx : (x.kind == .operator) = false := by simpa using hop
    have hy : (y.kind == .operator) = false := h.1 ▸ hx
    simp [isOperator, hx, hy]

theorem noneOf (h : x.Alike y) {ops : List Char} (hx : NoneOf ops (some x)) :
    NoneOf ops (some y) := by
  rw [noneOf_some] at hx ⊢
  rw [← hx]
  congr 1
  exact funext fun op => (h.isOperator_eq op).symm

theorem startsNone (h : x.Alike y) (hx : StartsNone (some x)) : StartsNone (some y) := by
  obtain ⟨hkind, hopen⟩ := hx x rfl
  rintro z hz
  obtain rfl := Option.some.inj hz
  exact ⟨h.1 ▸ hkind, h.isOperator_eq '(' ▸ hopen⟩

theorem eq_operator (h : x.Alike y) {c : Char} (hx : some x = some (.operator c)) :
    some y = some (.operator c) := by
  obtain rfl := Option.some.inj hx
  rw [← h.2 rfl]

end Lexeme.Alike

mutual

/-- What is refused depends on what comes next only as far as the kind and the operator go. -/
theorem Refuses.of_alike {x y : Lexeme} (hxy : x.Alike y) {c : Category} {n : Nat}
    {us : List Lexeme} {w : Need} : Refuses (some x) c n us w → Refuses (some y) c n us w
  | .level => .level
  | .sum h => .sum (h.of_alike hxy)
  | .assign h => .assign (h.of_alike hxy)
  | .term h => .term (h.of_alike hxy)
  | .add hop hl hm h => .add hop hl hm (h.of_alike hxy)
  | .factor h => .factor (h.of_alike hxy)
  | .mul hop hl hm h => .mul hop hl hm (h.of_alike hxy)
  | .signedLevel op => .signedLevel op
  | .signed h => .signed (h.of_alike hxy)
  | .operand h hsign => .operand (h.of_alike hxy) fun hnil => hxy.noneOf (hsign hnil)
  | .nothing h => .nothing (hxy.startsNone h)
  | .grouping h => .grouping (h.of_alike hxy)
  | .unclosed he hm hstop hclose => .unclosed he hm (hxy.noneOf hstop) (hxy.noneOf hclose)
  | .call h hempty => .call (h.of_alike hxy) fun hnil => hxy.noneOf (hempty hnil)
  | .unclosedCall hes hm hstop hclose =>
    .unclosedCall hes hm (hxy.noneOf hstop) (hxy.noneOf hclose)

theorem RefusesArguments.of_alike {x y : Lexeme} (hxy : x.Alike y) {f : String} {n : Nat}
    {us : List Lexeme} {w : Need} :
    RefusesArguments (some x) f n us w → RefusesArguments (some y) f n us w
  | .first h => .first (h.of_alike hxy)
  | .further he hm h hempty =>
    .further he hm (h.of_alike hxy) fun hnil => hxy.noneOf (hempty hnil)
  | .missing he hm hx => .missing he hm (hxy.eq_operator hx)

end

/-! ### Missing arguments -/

mutual

/-- An argument is missing between a comma and a closing parenthesis. -/
theorem Refuses.of_argument {next : Option Lexeme} {c : Category} {n : Nat} {us : List Lexeme}
    {w : Need} {f : String} (hw : w = .argument f) : Refuses next c n us w →
      next = some (.operator ')') ∧ ∃ vs, us = vs ++ [.operator ',']
  | .sum h | .term h | .factor h | .operand h _ => h.of_argument hw
  | @Refuses.assign _ _ x _ _ h => by
    obtain ⟨hnext, vs, rfl⟩ := h.of_argument hw
    exact ⟨hnext, .identifier x :: .operator '=' :: vs, rfl⟩
  | @Refuses.add _ _ _ op ls _ _ _ _ _ _ h | @Refuses.mul _ _ _ op ls _ _ _ _ _ _ h => by
    obtain ⟨hnext, vs, rfl⟩ := h.of_argument hw
    exact ⟨hnext, ls ++ .operator op.symbol :: vs, by simp⟩
  | @Refuses.signed _ _ op _ _ h => by
    obtain ⟨hnext, vs, rfl⟩ := h.of_argument hw
    exact ⟨hnext, .operator op.symbol :: vs, rfl⟩
  | .grouping h => by
    obtain ⟨hnext, vs, rfl⟩ := h.of_argument hw
    exact ⟨hnext, .operator '(' :: vs, rfl⟩
  | @Refuses.call _ _ g _ _ h _ => by
    obtain ⟨hnext, vs, rfl⟩ := h.of_argument hw
    exact ⟨hnext, .identifier g :: .operator '(' :: vs, rfl⟩
  | .level | .signedLevel _ | .nothing _ | .unclosed _ _ _ _ | .unclosedCall _ _ _ _ => by
    cases hw

theorem RefusesArguments.of_argument {next : Option Lexeme} {g : String} {n : Nat}
    {us : List Lexeme} {w : Need} {f : String} (hw : w = .argument f) :
    RefusesArguments next g n us w →
      next = some (.operator ')') ∧ ∃ vs, us = vs ++ [.operator ',']
  | .first h => h.of_argument hw
  | @RefusesArguments.further _ _ _ _ ls _ _ _ _ _ h _ => by
    obtain ⟨hnext, vs, rfl⟩ := h.of_argument hw
    exact ⟨hnext, ls ++ .operator ',' :: vs, by simp⟩
  | @RefusesArguments.missing _ _ _ _ ls _ _ _ hnext => ⟨hnext, ls, rfl⟩

end

/-! ### Expressions that are nested too deeply -/

/-- An operand is not refused for its nesting before it has started. -/
theorem Refuses.primary_ne_nil {next : Option Lexeme} {n : Nat} {us : List Lexeme}
    (h : Refuses next .primary n us .level) : us ≠ [] := by
  cases h <;> simp

mutual

/-- An expression that opens too many levels is refused for that, whatever comes behind. -/
theorem Derives.refuses_level {c : Category} {m n : Nat} {ls : List Lexeme} {e : Expr}
    (hn : n < m) : Derives c m ls e →
      ∃ us vs, ls = us ++ vs ∧ ∀ rest, Refuses (vs ++ rest).head? c n us .level
  | .sum h hname => by
    cases n with
    | zero => exact ⟨[], ls, rfl, fun _ => .level⟩
    | succ n =>
      obtain ⟨us, vs, hls, hw⟩ := h.refuses_level (Nat.lt_of_succ_lt_succ hn)
      exact ⟨us, vs, hls, fun rest => .sum (hw rest)⟩
  | .name x => by
    obtain rfl : n = 0 := by omega
    exact ⟨[], _, rfl, fun _ => .level⟩
  | @Derives.assign _ x ls _ h => by
    cases n with
    | zero => exact ⟨[], _, rfl, fun _ => .level⟩
    | succ n =>
      obtain ⟨us, vs, rfl, hw⟩ := h.refuses_level (Nat.lt_of_succ_lt_succ hn)
      exact ⟨.identifier x :: .operator '=' :: us, vs, rfl, fun rest => .assign (hw rest)⟩
  | .term h => by
    obtain ⟨us, vs, hls, hw⟩ := h.refuses_level hn
    exact ⟨us, vs, hls, fun rest => .term (hw rest)⟩
  | @Derives.add m k op ls rs _ _ hop hl hr => by
    by_cases hm : n < m
    · obtain ⟨us, vs, rfl, hw⟩ := hl.refuses_level hm
      refine ⟨us, vs ++ .operator op.symbol :: rs, List.append_assoc .., fun rest => ?_⟩
      rw [List.append_assoc]
      exact .term (hw _)
    · obtain ⟨us, vs, rfl, hw⟩ := hr.refuses_level (n := n) (by omega)
      refine ⟨ls ++ .operator op.symbol :: us, vs, by simp, fun rest => ?_⟩
      exact .add hop hl (Nat.le_of_not_lt hm) (hw rest)
  | .factor h => by
    obtain ⟨us, vs, hls, hw⟩ := h.refuses_level hn
    exact ⟨us, vs, hls, fun rest => .factor (hw rest)⟩
  | @Derives.mul m k op ls rs _ _ hop hl hr => by
    by_cases hm : n < m
    · obtain ⟨us, vs, rfl, hw⟩ := hl.refuses_level hm
      refine ⟨us, vs ++ .operator op.symbol :: rs, List.append_assoc .., fun rest => ?_⟩
      rw [List.append_assoc]
      exact .factor (hw _)
    · obtain ⟨us, vs, rfl, hw⟩ := hr.refuses_level (n := n) (by omega)
      refine ⟨ls ++ .operator op.symbol :: us, vs, by simp, fun rest => ?_⟩
      exact .mul hop hl (Nat.le_of_not_lt hm) (hw rest)
  | @Derives.signed _ op ls _ h => by
    cases n with
    | zero => exact ⟨[.operator op.symbol], ls, rfl, fun _ => .signedLevel op⟩
    | succ n =>
      obtain ⟨us, vs, rfl, hw⟩ := h.refuses_level (Nat.lt_of_succ_lt_succ hn)
      exact ⟨.operator op.symbol :: us, vs, rfl, fun rest => .signed (hw rest)⟩
  | .operand h => by
    obtain ⟨us, vs, hls, hw⟩ := h.refuses_level hn
    refine ⟨us, vs, hls, fun rest => .operand (hw rest) fun hnil => ?_⟩
    exact absurd hnil (hw rest).primary_ne_nil
  | .identifier _ => absurd hn (Nat.not_lt_zero n)
  | .number _ => absurd hn (Nat.not_lt_zero n)
  | .grouping h => by
    obtain ⟨us, vs, rfl, hw⟩ := h.refuses_level hn
    refine ⟨.operator '(' :: us, vs ++ [.operator ')'], by simp, fun rest => ?_⟩
    rw [List.append_assoc]
    exact .grouping (hw _)
  | .callEmpty _ => absurd hn (Nat.not_lt_zero n)
  | @Derives.call _ f ls _ h => by
    obtain ⟨us, vs, rfl, hw⟩ := h.refuses_level hn
    refine ⟨.identifier f :: .operator '(' :: us, vs ++ [.operator ')'], by simp, fun rest => ?_⟩
    rw [List.append_assoc]
    refine .call (hw _ f) fun hnil => ?_
    subst hnil
    rw [List.head?_append]
    exact h.head?_noneOf_close _

theorem DerivesArguments.refuses_level {m n : Nat} {ls : List Lexeme} {es : List Expr}
    (hn : n < m) : DerivesArguments m ls es →
      ∃ us vs, ls = us ++ vs ∧ ∀ rest f, RefusesArguments (vs ++ rest).head? f n us .level
  | .one h => by
    obtain ⟨us, vs, hls, hw⟩ := h.refuses_level hn
    exact ⟨us, vs, hls, fun rest _ => .first (hw rest)⟩
  | @DerivesArguments.more m k ls rs _ _ h hs => by
    by_cases hm : n < m
    · obtain ⟨us, vs, rfl, hw⟩ := h.refuses_level hm
      refine ⟨us, vs ++ .operator ',' :: rs, List.append_assoc .., fun rest _ => ?_⟩
      rw [List.append_assoc]
      exact .first (hw _)
    · obtain ⟨us, vs, rfl, hw⟩ := hs.refuses_level (n := n) (by omega)
      refine ⟨ls ++ .operator ',' :: us, vs, by simp, fun rest f => ?_⟩
      refine .further h (Nat.le_of_not_lt hm) (hw rest f) fun hnil => ?_
      subst hnil
      rw [List.head?_append]
      exact hs.head?_noneOf_close rest.head?

end

end ExprView
