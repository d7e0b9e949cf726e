import ExprView.Proofs.Grammar.Follow
import ExprView.Proofs.Lexer.Locality

/-!
# Where reading stops

A row of lexemes that does not start with an expression is read up to some place, and no further.
`Refuses` says where that is and what is missing there, in the terms of the grammar alone: it has
one rule for each way in which a rule of the grammar can be cut short. Of what comes next it
depends on one lexeme.

## Main statements

* `reading`: every row of lexemes starts with an expression or is refused.
-/

namespace ExprView

/-- What is missing where reading stops. -/
inductive Need where
  /-- A level of nesting. -/
  | level
  /-- An operand. -/
  | operand
  /-- The parenthesis that closes a grouping. -/
  | close
  /-- The parenthesis that closes a call. -/
  | closeCall (name : String)
  /-- An argument after a comma. -/
  | argument (name : String)
  deriving DecidableEq, Repr

mutual

/-- Read as a part of the given strength, with `n` levels to open, the lexemes are followed by
one that cannot come there. -/
inductive Refuses (next : Option Lexeme) : Category → Nat → List Lexeme → Need → Prop where
  /-- No level is left for an expression. -/
  | level : Refuses next .assignment 0 [] .level
  /-- Within a sum. -/
  | sum {n : Nat} {us : List Lexeme} {w : Need} :
      Refuses next .additive n us w → Refuses next .assignment (n + 1) us w
  /-- Within the value of a name. -/
  | assign {n : Nat} {x : String} {us : List Lexeme} {w : Need} :
      Refuses next .assignment n us w →
        Refuses next .assignment (n + 1) (.identifier x :: .operator '=' :: us) w
  /-- Within the first term. -/
  | term {n : Nat} {us : List Lexeme} {w : Need} :
      Refuses next .multiplicative n us w → Refuses next .additive n us w
  /-- Within a further term. -/
  | add {m n : Nat} {op : BinaryOperator} {ls us : List Lexeme} {e : Expr} {w : Need} :
      op.isSum = true → Derives .multiplicative m ls e → m ≤ n → Refuses next .additive n us w →
        Refuses next .additive n (ls ++ .operator op.symbol :: us) w
  /-- Within the first factor. -/
  | factor {n : Nat} {us : List Lexeme} {w : Need} :
      Refuses next .unary n us w → Refuses next .multiplicative n us w
  /-- Within a further factor. -/
  | mul {m n : Nat} {op : BinaryOperator} {ls us : List Lexeme} {e : Expr} {w : Need} :
      op.isSum = false → Derives .unary m ls e → m ≤ n → Refuses next .multiplicative n us w →
        Refuses next .multiplicative n (ls ++ .operator op.symbol :: us) w
  /-- No level is left for the operand of a sign. -/
  | signedLevel (op : UnaryOperator) : Refuses next .unary 0 [.operator op.symbol] .level
  /-- Within the operand of a sign. -/
  | signed {n : Nat} {op : UnaryOperator} {us : List Lexeme} {w : Need} :
      Refuses next .unary n us w → Refuses next .unary (n + 1) (.operator op.symbol :: us) w
  /-- Within an operand. -/
  | operand {n : Nat} {us : List Lexeme} {w : Need} :
      Refuses next .primary n us w → (us = [] → NoneOf ['+', '-'] next) →
        Refuses next .unary n us w
  /-- There is no operand. -/
  | nothing {n : Nat} : StartsNone next → Refuses next .primary n [] .operand
  /-- Within parentheses. -/
  | grouping {n : Nat} {us : List Lexeme} {w : Need} :
      Refuses next .assignment n us w → Refuses next .primary n (.operator '(' :: us) w
  /-- Parentheses are not closed. -/
  | unclosed {m n : Nat} {ls : List Lexeme} {e : Expr} :
      Derives .assignment m ls e → m ≤ n → NoneOf (e.continuations .assignment) next →
        NoneOf [')'] next → Refuses next .primary n (.operator '(' :: ls) .close
  /-- Within the arguments of a call. -/
  | call {n : Nat} {f : String} {us : List Lexeme} {w : Need} :
      RefusesArguments next f n us w → (us = [] → NoneOf [')'] next) →
        Refuses next .primary n (.identifier f :: .operator '(' :: us) w
  /-- A call is not closed. -/
  | unclosedCall {m n : Nat} {f : String} {ls : List Lexeme} {es : List Expr} :
      DerivesArguments m ls es → m ≤ n → NoneOf (Expr.argumentsContinuations es) next →
        NoneOf [')'] next →
        Refuses next .primary n (.identifier f :: .operator '(' :: ls) (.closeCall f)

/-- Read as the arguments of a call, the lexemes are followed by one that cannot come there. -/
inductive RefusesArguments (next : Option Lexeme) :
    String → Nat → List Lexeme → Need → Prop where
  /-- Within the first argument. -/
  | first {n : Nat} {f : String} {us : List Lexeme} {w : Need} :
      Refuses next .assignment n us w → RefusesArguments next f n us w
  /-- Within a further argument. -/
  | further {m n : Nat} {f : String} {ls us : List Lexeme} {e : Expr} {w : Need} :
      Derives .assignment m ls e → m ≤ n → RefusesArguments next f n us w →
        (us = [] → NoneOf [')'] next) →
        RefusesArguments next f n (ls ++ .operator ',' :: us) w
  /-- There is no argument after a comma. -/
  | missing {m n : Nat} {f : String} {ls : List Lexeme} {e : Expr} :
      Derives .assignment m ls e → m ≤ n → next = some (.operator ')') →
        RefusesArguments next f n (ls ++ [.operator ',']) (.argument f)

end

/-! ### One or the other -/

/-- How a row of lexemes is read as a part of the given strength. -/
inductive Reading (c : Category) (n : Nat) (ls : List Lexeme) : Prop where
  /-- It starts with an expression that does not go on. -/
  | accepted {us vs : List Lexeme} {m : Nat} {e : Expr} :
      ls = us ++ vs → Derives c m us e → m ≤ n → NoneOf (e.continuations c) vs.head? →
        Reading c n ls
  /-- It is refused. -/
  | refused {us vs : List Lexeme} {w : Need} :
      ls = us ++ vs → Refuses vs.head? c n us w → Reading c n ls

/-- How a row of lexemes is read as the arguments of a call. -/
inductive ReadingArguments (f : String) (n : Nat) (ls : List Lexeme) : Prop where
  /-- It starts with arguments that do not go on. -/
  | accepted {us vs : List Lexeme} {m : Nat} {es : List Expr} :
      ls = us ++ vs → DerivesArguments m us es → m ≤ n →
        NoneOf (Expr.argumentsContinuations es) vs.head? → ReadingArguments f n ls
  /-- It is refused. -/
  | refused {us vs : List Lexeme} {w : Need} :
      ls = us ++ vs → RefusesArguments vs.head? f n us w → ReadingArguments f n ls

section
variable {n : Nat} {ls : List Lexeme}

/-- After an opening parenthesis. -/
theorem reading_grouping (h : Reading .assignment n ls) :
    Reading .primary n (.operator '(' :: ls) := by
  rcases h with ⟨rfl, he, hm, hstop⟩ | ⟨rfl, hw⟩
  · next us vs m e =>
    rcases head?_eq_or vs ')' with ⟨vs', rfl⟩ | hclose
    · have hrow : Lexeme.operator '(' :: (us ++ .operator ')' :: vs') =
          (.operator '(' :: (us ++ [.operator ')'])) ++ vs' := by simp
      exact .accepted hrow (.grouping he) hm (noneOf_nil _)
    · exact .refused (List.cons_append ..).symm (.unclosed he hm hstop hclose)
  · exact .refused (List.cons_append ..).symm (.grouping hw)

/-- After a name and an opening parenthesis. -/
theorem reading_call {f : String} (h : ReadingArguments f n ls) :
    Reading .primary n (.identifier f :: .operator '(' :: ls) := by
  rcases head?_eq_or ls ')' with ⟨vs, rfl⟩ | hempty
  · exact .accepted (rfl : _ = [.identifier f, .operator '(', .operator ')'] ++ vs) (.callEmpty f)
      (Nat.zero_le n) (noneOf_nil _)
  rcases h with ⟨rfl, hes, hm, hstop⟩ | ⟨rfl, hw⟩
  · next us vs m es =>
    rcases head?_eq_or vs ')' with ⟨vs', rfl⟩ | hclose
    · have hrow : Lexeme.identifier f :: .operator '(' :: (us ++ .operator ')' :: vs') =
          (.identifier f :: .operator '(' :: (us ++ [.operator ')'])) ++ vs' := by simp
      exact .accepted hrow (.call hes) hm (noneOf_nil _)
    · have hrow : Lexeme.identifier f :: .operator '(' :: (us ++ vs) =
          (.identifier f :: .operator '(' :: us) ++ vs := rfl
      exact .refused hrow (.unclosedCall hes hm hstop hclose)
  · next us vs w =>
    have hrow : Lexeme.identifier f :: .operator '(' :: (us ++ vs) =
        (.identifier f :: .operator '(' :: us) ++ vs := rfl
    exact .refused hrow (.call hw fun hnil => by simpa [hnil] using hempty)

/-- An operand with no sign in front. -/
theorem reading_primary
    (ih : ∀ ls' : List Lexeme, ls'.length < ls.length → Reading .assignment n ls')
    (iha : ∀ (f : String) (ls' : List Lexeme), ls'.length < ls.length → ReadingArguments f n ls') :
    Reading .primary n ls := by
  match ls with
  | [] => exact .refused (List.nil_append _).symm (.nothing fun x hx => by cases hx)
  | ⟨.number, text⟩ :: vs =>
    exact .accepted (rfl : _ = [.number text] ++ vs) (.number text) (Nat.zero_le n) (noneOf_nil _)
  | ⟨.operator, text⟩ :: vs =>
    rcases head?_eq_or (⟨.operator, text⟩ :: vs) '(' with ⟨vs', h⟩ | hopen
    · rw [h]
      exact reading_grouping (ih vs' (by simp [(List.cons.inj h).2]))
    · refine .refused (List.nil_append _).symm (.nothing fun x hx => ?_)
      obtain rfl := Option.some.inj hx
      exact ⟨rfl, by simpa using hopen⟩
  | ⟨.identifier, f⟩ :: vs =>
    rcases head?_eq_or vs '(' with ⟨vs', rfl⟩ | hopen
    · have hlt : vs'.length < (Lexeme.identifier f :: .operator '(' :: vs').length := by
        simp only [List.length_cons]
        omega
      exact reading_call (iha f vs' hlt)
    · exact .accepted (rfl : _ = [.identifier f] ++ vs) (.identifier f) (Nat.zero_le n) hopen

/-- An operand with or without a sign in front. -/
theorem reading_unary (hp : Reading .primary n ls)
    (ih : ∀ (k : Nat) (ls' : List Lexeme), ls'.length < ls.length → Reading .unary k ls') :
    Reading .unary n ls := by
  rcases head?_eq_sign_or ls with ⟨op, vs, rfl⟩ | hsign
  · cases n with
    | zero => exact .refused (rfl : _ = [.operator op.symbol] ++ vs) (.signedLevel op)
    | succ n =>
      rcases ih n vs (by simp) with ⟨rfl, he, hm, hstop⟩ | ⟨rfl, hw⟩
      · refine .accepted (List.cons_append ..).symm (.signed he) (Nat.succ_le_succ hm) ?_
        rw [Expr.continuations_signed _ op (he.awaitsValue_eq (by simp))]
        exact hstop
      · exact .refused (List.cons_append ..).symm (.signed hw)
  · rcases hp with ⟨rfl, he, hm, hstop⟩ | ⟨rfl, hw⟩
    · exact .accepted rfl (.operand he) hm hstop
    · exact .refused rfl (.operand hw fun hnil => by simpa [hnil] using hsign)

/-- An operand of a chain, and perhaps an operator and the rest of the chain after it. The
hypotheses are the rules of the grammar, and of refusals, for such chains. -/
theorem reading_chain {c d : Category} {ops : List Char} {ofChain : BinaryOperator → Prop}
    (hone : ∀ {m us e}, Derives c m us e → Derives d m us e)
    (hmore : ∀ {m k op us vs l r}, ofChain op → Derives c m us l → Derives d k vs r →
      Derives d (max m k) (us ++ .operator op.symbol :: vs) (.binary op l r))
    (hfirst : ∀ {next us w}, Refuses next c n us w → Refuses next d n us w)
    (hfurther : ∀ {next m op us vs l w}, ofChain op → Derives c m us l → m ≤ n →
      Refuses next d n vs w → Refuses next d n (us ++ .operator op.symbol :: vs) w)
    (hnext : ∀ vs : List Lexeme, (∃ (op : BinaryOperator) (vs' : List Lexeme), ofChain op ∧
      vs = .operator op.symbol :: vs') ∨ NoneOf ops vs.head?)
    (hstop : ∀ {e next}, NoneOf (Expr.continuations c e) next → NoneOf ops next →
      NoneOf (Expr.continuations d e) next)
    (hd : d ≠ .assignment) (hc : Reading c n ls)
    (ih : ∀ ls' : List Lexeme, ls'.length < ls.length → Reading d n ls') : Reading d n ls := by
  rcases hc with ⟨rfl, hl, hm, hend⟩ | ⟨rfl, hw⟩
  · rename_i us vs m l
    rcases hnext vs with ⟨op, vs', hop, rfl⟩ | hno
    · have hlt : vs'.length < (us ++ .operator op.symbol :: vs').length := by
        simp only [List.length_append, List.length_cons]
        omega
      rcases ih vs' hlt with ⟨rfl, hr, hk, hend'⟩ | ⟨rfl, hw⟩
      · rename_i us' vs' k r
        have hrow : us ++ .operator op.symbol :: (us' ++ vs') =
            (us ++ .operator op.symbol :: us') ++ vs' := by simp
        refine .accepted hrow (hmore hop hl hr) (Nat.max_le.mpr ⟨hm, hk⟩) ?_
        rw [Expr.continuations_binary _ op l (hr.awaitsValue_eq hd)]
        exact hend'
      · rename_i us' vs' w
        have hrow : us ++ .operator op.symbol :: (us' ++ vs') =
            (us ++ .operator op.symbol :: us') ++ vs' := by simp
        exact .refused hrow (hfurther hop hl hm hw)
    · exact .accepted rfl (hone hl) hm (hstop hend hno)
  · exact .refused rfl (hfirst hw)

/-- A factor, and perhaps a product after it. -/
theorem reading_multiplicative (h : Reading .unary n ls)
    (ih : ∀ ls' : List Lexeme, ls'.length < ls.length → Reading .multiplicative n ls') :
    Reading .multiplicative n ls :=
  reading_chain .factor .mul .factor .mul head?_eq_product_or
    (fun hend hno => Expr.noneOf_multiplicative_iff.mpr ⟨hend, hno⟩) (by simp) h ih

/-- A term, and perhaps a sum after it. -/
theorem reading_additive (h : Reading .multiplicative n ls)
    (ih : ∀ ls' : List Lexeme, ls'.length < ls.length → Reading .additive n ls') :
    Reading .additive n ls :=
  reading_chain .term .add .term .add head?_eq_sum_or
    (fun hend hno => Expr.noneOf_additive_iff.mpr ⟨hend, hno⟩) (by simp) h ih

/-- A sum, or a name and perhaps a value after it. -/
theorem reading_assignment (h : ∀ k : Nat, Reading .additive k ls)
    (ih : ∀ (k : Nat) (ls' : List Lexeme), ls'.length < ls.length → Reading .assignment k ls') :
    Reading .assignment n ls := by
  cases n with
  | zero => exact .refused (List.nil_append _).symm .level
  | succ n =>
    rcases h n with ⟨rfl, he, hm, hstop⟩ | ⟨rfl, hw⟩
    · rename_i us vs m e
      by_cases hname : e.isIdentifier = true
      · obtain ⟨x, rfl⟩ := Expr.exists_of_isIdentifier hname
        obtain rfl : us = [.identifier x] := he.lexemes_eq
        rcases head?_eq_or vs '=' with ⟨vs', rfl⟩ | hno
        · have hlt : vs'.length < ([Lexeme.identifier x] ++ .operator '=' :: vs').length := by
            simp only [List.length_append, List.length_cons]
            omega
          rcases ih n vs' hlt with ⟨rfl, hv, hk, hstop'⟩ | ⟨rfl, hw⟩
          · rename_i us' vs' k v
            have hrow : [Lexeme.identifier x] ++ .operator '=' :: (us' ++ vs') =
                (.identifier x :: .operator '=' :: us') ++ vs' := rfl
            exact .accepted hrow (.assign hv) (Nat.succ_le_succ hk) hstop'
          · rename_i us' vs' w
            have hrow : [Lexeme.identifier x] ++ .operator '=' :: (us' ++ vs') =
                (.identifier x :: .operator '=' :: us') ++ vs' := rfl
            exact .refused hrow (.assign hw)
        · exact .accepted rfl (.name x) (by omega) (Expr.noneOf_name_iff.mpr ⟨hstop, hno⟩)
      · exact .accepted rfl (.sum he (by simpa using hname)) (Nat.succ_le_succ hm) hstop
    · exact .refused rfl (.sum hw)

/-- An argument, and perhaps a comma and more arguments after it. -/
theorem reading_arguments {f : String} (h : Reading .assignment n ls)
    (ih : ∀ ls' : List Lexeme, ls'.length < ls.length → ReadingArguments f n ls') :
    ReadingArguments f n ls := by
  rcases h with ⟨rfl, he, hm, hstop⟩ | ⟨rfl, hw⟩
  · rename_i us vs m e
    rcases head?_eq_or vs ',' with ⟨vs', rfl⟩ | hno
    · rcases head?_eq_or vs' ')' with ⟨vs'', rfl⟩ | harg
      · exact .refused (List.append_cons ..) (.missing he hm rfl)
      · have hlt : vs'.length < (us ++ .operator ',' :: vs').length := by
          simp only [List.length_append, List.length_cons]
          omega
        rcases ih vs' hlt with ⟨rfl, hes, hk, hstop'⟩ | ⟨rfl, hw⟩
        · rename_i us' vs' k es
          have hrow : us ++ .operator ',' :: (us' ++ vs') =
              (us ++ .operator ',' :: us') ++ vs' := by simp
          refine .accepted hrow (.more he hes) (Nat.max_le.mpr ⟨hm, hk⟩) ?_
          rw [Expr.argumentsContinuations_cons e hes.ne_nil]
          exact hstop'
        · rename_i us' vs' w
          have hrow : us ++ .operator ',' :: (us' ++ vs') =
              (us ++ .operator ',' :: us') ++ vs' := by simp
          exact .refused hrow (.further he hm hw fun hnil => by simpa [hnil] using harg)
    · exact .accepted rfl (.one he) hm (noneOf_cons.mpr ⟨hno, hstop⟩)
  · exact .refused rfl (.first hw)

end

/-- Every row of lexemes starts with an expression that does not go on, or it is refused. -/
theorem reading (c : Category) (n : Nat) (ls : List Lexeme) : Reading c n ls := by
  -- by the length of the row: a rule that takes no lexeme hands on to a tighter one
  generalize hlen : ls.length = k
  induction k using Nat.strongRecOn generalizing c n ls with
  | _ k ih =>
    subst hlen
    have ih' : ∀ c n (ls' : List Lexeme), ls'.length < ls.length → Reading c n ls' :=
      fun c n ls' h => ih _ h c n ls' rfl
    have hargs : ∀ n f (ls' : List Lexeme), ls'.length < ls.length → ReadingArguments f n ls' := by
      intro n f ls' h
      generalize hj : ls'.length = j
      induction j using Nat.strongRecOn generalizing ls' with
      | _ j iha =>
        subst hj
        exact reading_arguments (ih' _ _ _ h) fun ls'' h' => iha _ h' ls'' (by omega) rfl
    have hprimary : ∀ n, Reading .primary n ls := fun n => reading_primary (ih' _ n) (hargs n)
    have hunary : ∀ n, Reading .unary n ls := fun n => reading_unary (hprimary n) (ih' _)
    have hmul : ∀ n, Reading .multiplicative n ls := fun n =>
      reading_multiplicative (hunary n) (ih' _ n)
    have hadd : ∀ n, Reading .additive n ls := fun n => reading_additive (hmul n) (ih' _ n)
    cases c with
    | assignment => exact reading_assignment hadd (ih' _)
    | additive => exact hadd n
    | multiplicative => exact hmul n
    | unary => exact hunary n
    | primary => exact hprimary n

end ExprView
