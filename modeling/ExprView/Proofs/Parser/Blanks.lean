import ExprView.Proofs.Parser.Outcome

/-!
# Blanks do not matter

Two sources with the same lexemes, whatever blanks stand between them, are parsed alike: as the
same tree, or with the same error at the same token. The parser stands at different bytes of the
two sources, but at the same place of the two rows of tokens, and all that it does depends on the
lexemes there.

## Main statements

* `exists_aligned`: what is read of one source is read of the other, and the same comes next.
* `alike_of_lexemes_eq`: the two sources are parsed alike.
* `parse_blank_free`: the same, in terms of what is reported.
-/

namespace ExprView

open Lexer

/-! ### Two rows of tokens -/

/-- The two are tokens with one lexeme at one place of two rows, or both are absent. -/
inductive Corresponding (ts us : List Token) : Option Token → Option Token → Prop where
  /-- There is neither. -/
  | absent : Corresponding ts us none none
  /-- They stand at place `i`. -/
  | present {t u : Token} (i : Nat) : ts[i]? = some t → us[i]? = some u →
      t.toLexeme = u.toLexeme → Corresponding ts us (some t) (some u)

/-- What follows rows of the same lexemes stands at one place. -/
theorem corresponding_of_append {ts₁ ts₂ us₁ us₂ : List Token} {t u : Token}
    (h : lexemes us₁ = lexemes ts₁) (htu : t.toLexeme = u.toLexeme) :
    Corresponding (ts₁ ++ t :: ts₂) (us₁ ++ u :: us₂) (some t) (some u) := by
  have hlength : us₁.length = ts₁.length := by
    simpa [lexemes] using congrArg List.length h
  refine .present ts₁.length ?_ ?_ htu
  · simp
  · rw [← hlength]
    simp

variable {a b : String} {ts us ts₀ us₀ : List Token} {l k : Lexer}

/-- What has been read of a source with tokens is the front of its tokens, and what is left is read
up to the end. -/
theorem Lexer.Reads.exists_rest {s : String} (hr : (ofSource s).Reads ts₀ l)
    (h : tokenize s = .ok ts) :
    ∃ ts₁ l', ts = ts₀ ++ ts₁ ∧ l.Reads ts₁ l' ∧ l'.next.1 = .ok none := by
  obtain ⟨l', hr', hl'⟩ := exists_reads_drain l
  cases hf : l.drain.1.fault with
  | none =>
    rw [hf] at hl'
    have hts := Except.ok.inj (h.symm.trans (tokenize_of_reads (hr.append hr') hl'))
    exact ⟨_, l', hts, hr', hl'⟩
  | some e =>
    rw [hf] at hl'
    exact absurd (h.symm.trans (tokenize_of_fault (hr.append hr') hl')) (by simp)

/-- The two lexers have read the same lexemes, and the same lexeme comes next, or the end. -/
structure Aligned (ts us ts₀ us₀ : List Token) (l k : Lexer) : Prop where
  /-- The lexemes that were read are the same. -/
  lexemes_eq : lexemes us₀ = lexemes ts₀
  /-- The first row was read from the front. -/
  front : ts₀ <+: ts
  /-- So was the second. -/
  front' : us₀ <+: us
  /-- The next lexeme is the same. -/
  peek_eq : k.peek = l.peek
  /-- The next tokens are at the same place of the two rows. -/
  next : ∃ f g, l.next.1 = .ok f ∧ k.next.1 = .ok g ∧ Corresponding ts us f g

/-- What is read of one source is read of another one with the same lexemes, and the same comes
next. -/
theorem exists_aligned (ha : tokenize a = .ok ts) (hb : tokenize b = .ok us)
    (h : lexemes ts = lexemes us) (hr : (ofSource a).Reads ts₀ l) :
    ∃ us₀ k, (ofSource b).Reads us₀ k ∧ Aligned ts us ts₀ us₀ l k := by
  obtain ⟨ts₁, l', rfl, hr₁, hend⟩ := hr.exists_rest ha
  obtain ⟨k', hk, hend'⟩ := tokenize_eq_ok_iff.mp hb
  rw [lexemes_append] at h
  obtain ⟨us₀, us₁, k, rfl, hk₀, hfront, hk₁, hrest⟩ := hk.split h.symm
  have hpeek : k.peek = l.peek := by
    rw [hk₁.peek_eq, hr₁.peek_eq, hrest, peek_of_end hend, peek_of_end hend']
  refine ⟨us₀, k, hk₀, hfront, List.prefix_append .., List.prefix_append .., hpeek, ?_⟩
  -- what comes next is the first token of what is left
  cases hr₁ with
  | nil =>
    obtain rfl : us₁ = [] := by simpa [lexemes] using hrest
    obtain rfl := hk₁.nil_eq
    exact ⟨none, none, hend, hend', .absent⟩
  | @cons _ _ _ t ts₁ hn _ =>
    obtain ⟨u, us₁, k₁, rfl, hu, hut, -, -⟩ := hk₁.uncons hrest
    exact ⟨some t, some u, congrArg Prod.fst hn, congrArg Prod.fst hu,
      corresponding_of_append hfront hut.symm⟩

/-! ### Two outcomes -/

/-- The two sources are parsed as one tree, or fail for one cause at corresponding tokens. -/
inductive ParsedAlike (ts us : List Token) :
    Except SyntaxError Program → Except SyntaxError Program → Prop where
  /-- Both are parsed. -/
  | parsed (p : Program) : ParsedAlike ts us (.ok p) (.ok p)
  /-- Both are in error. -/
  | failed (cause : ParseError.Cause) {f g : Option Token} : Corresponding ts us f g →
      ParsedAlike ts us (.error (.grammatical ⟨cause, f⟩)) (.error (.grammatical ⟨cause, g⟩))

/-- What is named where something is missing depends on the lexeme there. -/
theorem Need.causeAt_eq {f g : Option Token} (w : Need) (h : Corresponding ts us f g) :
    w.causeAt g = w.causeAt f := by
  cases h with
  | absent => rfl
  | present i _ _ htu =>
    have htext := congrArg Lexeme.text htu
    cases w with
    | operand => simp [causeAt, ParserM.operandCause, htext]
    | level | close | closeCall | argument => rfl

/-- What is reported where something is missing is alike. -/
theorem Need.Reports.alike {w : Need} {err err' : SyntaxError} (hal : Aligned ts us ts₀ us₀ l k)
    (h : w.Reports l.next.1 ts₀ err) (h' : w.Reports k.next.1 us₀ err') :
    ParsedAlike ts us (.error err) (.error err') := by
  obtain ⟨f, g, hf, hg, hfg⟩ := hal.next
  cases h with
  | level =>
    cases h' with
    | level => exact .failed .tooDeep .absent
    | awaited _ hw => cases hw
  | argument name ts₁ comma =>
    cases h' with
    | argument _ us₁ comma' =>
      obtain ⟨ts₂, rfl⟩ := hal.front
      obtain ⟨us₂, rfl⟩ := hal.front'
      have hrow := hal.lexemes_eq
      rw [lexemes_append, lexemes_append] at hrow
      obtain ⟨hfront, hcomma⟩ := List.append_inj' hrow rfl
      rw [List.append_assoc, List.append_assoc]
      exact .failed _ (corresponding_of_append hfront (List.cons.inj hcomma).1.symm)
    | awaited _ hw => cases hw
  | awaited _ hw =>
    cases h' with
    | level => cases hw
    | argument => cases hw
    | awaited _ _ =>
      rw [hf, hg, SyntaxError.atNext, SyntaxError.atNext, w.causeAt_eq hfg]
      exact .failed _ hfg

/-- Sources with the same lexemes are parsed alike. -/
theorem alike_of_lexemes_eq (ha : tokenize a = .ok ts) (hb : tokenize b = .ok us)
    (h : lexemes ts = lexemes us) : ParsedAlike ts us (parse a) (parse b) := by
  have hs := parse_outcome a
  generalize parse a = r at hs
  cases hs with
  | complete hr hend he hn =>
    obtain ⟨us₀, k, hk, hal⟩ := exists_aligned ha hb h hr
    obtain ⟨f, g, hf, hg, hfg⟩ := hal.next
    rw [hend] at hf
    obtain rfl : none = f := Except.ok.inj hf
    cases hfg with
    | absent =>
      rw [parse_of_derives hk hg (hal.lexemes_eq ▸ he) hn]
      exact .parsed _
  | @trailing ts₀ l n e t hr hnext he hn hstop =>
    obtain ⟨us₀, k, hk, hal⟩ := exists_aligned ha hb h hr
    obtain ⟨f, g, hf, hg, hfg⟩ := hal.next
    rw [hnext] at hf
    obtain rfl : some t = f := Except.ok.inj hf
    cases hfg with
    | @present _ u i ht hu htu =>
      have hstop' : NoneOf (e.continuations .assignment) k.peek := by
        rwa [peek_of_token (next_eq hg), ← htu]
      rw [parse_of_trailing hk hg (hal.lexemes_eq ▸ he) hn hstop',
        ← congrArg Lexeme.text htu]
      exact .failed _ (.present i ht hu htu)
  | fault hr herr he hn => exact absurd (ha.symm.trans (tokenize_of_fault hr herr)) (by simp)
  | refused hr hw hrep =>
    obtain ⟨us₀, k, hk, hal⟩ := exists_aligned ha hb h hr
    rw [← hal.peek_eq, ← hal.lexemes_eq] at hw
    obtain ⟨err, hrep', hparse⟩ := parse_of_refuses hk hw
    rw [hparse]
    exact hrep.alike hal hrep'

/-- Blanks do not matter to the parser. Of two sources with the same lexemes either both are parsed
as one tree, or both are reported with the same message and the same token; and the offsets are
either both absent or those of tokens at one place of the two rows, each in its own source. -/
theorem parse_blank_free {a b : String} {ts us : List Token} (ha : tokenize a = .ok ts)
    (hb : tokenize b = .ok us) (h : lexemes ts = lexemes us) :
    (∃ p, parse a = .ok p ∧ parse b = .ok p) ∨
    ∃ e e' message token place place',
      parse a = .error (.grammatical e) ∧ e.diagnostic = .grammatical message token place ∧
      parse b = .error (.grammatical e') ∧ e'.diagnostic = .grammatical message token place' ∧
      (place = none ∧ place' = none ∨
        ∃ (i : Nat) (t u : Token), ts[i]? = some t ∧ us[i]? = some u ∧
          place = some t.start ∧ place' = some u.start) := by
  have halike := alike_of_lexemes_eq ha hb h
  generalize hpa : parse a = r at halike
  generalize hpb : parse b = r' at halike
  cases halike with
  | parsed p => exact .inl ⟨p, rfl, rfl⟩
  | failed cause hfg =>
    cases hfg with
    | absent => exact .inr ⟨_, _, _, _, _, _, rfl, rfl, rfl, rfl, .inl ⟨rfl, rfl⟩⟩
    | @present t u i ht hu htu =>
      have htext : u.text = t.text := (congrArg Lexeme.text htu).symm
      refine .inr ⟨_, _, _, _, _, _, rfl, rfl, rfl, ?_, .inr ⟨i, t, u, ht, hu, rfl, rfl⟩⟩
      simp [ParseError.diagnostic, htext]

/-- A parenthesis that closes nothing, with and without blanks around it. -/
theorem parse_blank_free_close :
    ∃ e e' message token place place',
      parse "1)" = .error (.grammatical e) ∧
      e.diagnostic = .grammatical message token (some place) ∧
      parse " 1 ) " = .error (.grammatical e') ∧
      e'.diagnostic = .grammatical message token (some place') ∧ place = 1 ∧ place' = 3 := by
  have hfailed : parse "1)" = .error (.grammatical
      ⟨.trailing ")", some { kind := .operator, text := ")", start := 1, last := 1 }⟩) := by
    decide +kernel
  have htokens : tokenize "1)" = .ok
      [{ kind := .number, text := "1", start := 0, last := 0 },
        { kind := .operator, text := ")", start := 1, last := 1 }] := by decide +kernel
  have htokens' : tokenize " 1 ) " = .ok
      [{ kind := .number, text := "1", start := 1, last := 1 },
        { kind := .operator, text := ")", start := 3, last := 3 }] := by decide +kernel
  rcases parse_blank_free htokens htokens' rfl with
    ⟨p, h, -⟩ | ⟨e, e', message, token, place, place', he, hd, he', hd', hplace⟩
  · exact absurd (hfailed.symm.trans h) (by simp)
  · obtain rfl := SyntaxError.grammatical.inj (Except.error.inj (hfailed.symm.trans he))
    cases hd
    rcases hplace with ⟨h, -⟩ | ⟨i, t, u, ht, hu, hstart, rfl⟩
    · cases h
    · -- the parenthesis is the second token
      rcases i with _ | _ | i
      · cases ht
        cases hstart
      · cases ht
        cases hu
        exact ⟨_, _, _, _, _, _, he, rfl, he', hd', rfl, rfl⟩
      · cases ht

end ExprView
