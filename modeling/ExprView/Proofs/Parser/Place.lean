import ExprView.Proofs.Parser.Outcome

/-!
# The place of an error

An error of the parser points at the first token that does not belong there: what stands before
it can be completed to a text that is parsed, and no text that goes on with this token is. An
argument that is missing shows at the comma before it, so there it is the parenthesis after the
comma with which no text can go on.

## Main statements

* `parse_error_place`: what is reported is where the source stops to be the start of a text that is
  parsed.
-/

namespace ExprView

open Lexer

/-- The text can be completed to one that is parsed. -/
def Extendable (s : String) : Prop := ∃ u p, parse (s ++ u) = .ok p

theorem Extendable.of_append {s u : String} (h : Extendable (s ++ u)) : Extendable s := by
  obtain ⟨v, p, h⟩ := h
  exact ⟨u ++ v, p, String.append_assoc ▸ h⟩

variable {s front : String} {ts : List Token} {l l' : Lexer} {t : Token}
  {passed gap text : List Char}

/-! ### What can be completed -/

/-- A text of which what was read can be completed can be completed, also with blanks behind. -/
theorem extendable_of_completable (hr : (ofSource s).Reads ts l)
    (hc : Completable .assignment maxNesting (lexemes ts)) (hs : s.toList = passed ++ l.rest)
    (hgap : ∀ c ∈ gap, isBlank c = true) (hfront : front.toList = passed ++ gap) :
    Extendable front := by
  obtain ⟨vs, m, e, hm, he, hvs⟩ := hc
  have hu : (front ++ String.ofList (spaced vs)).toList = passed ++ (gap ++ spaced vs) := by
    rw [String.toList_append, hfront, String.toList_ofList, List.append_assoc]
  obtain ⟨us, hus, hls⟩ := hr.tokenize_spaced hs hgap hvs hu
  obtain ⟨k, hk, hend⟩ := tokenize_eq_ok_iff.mp hus
  exact ⟨_, _, parse_of_derives hk hend (hls ▸ he) hm⟩

/-! ### What cannot be completed -/

/-- Lexemes that start with the same character are alike. -/
theorem alike_of_head? {kind kind' : TokenKind} {text' : List Char} (h : IsText kind text)
    (h' : IsText kind' text') (hhead : text.head? = text'.head?) :
    Lexeme.Alike ⟨kind, String.ofList text⟩ ⟨kind', String.ofList text'⟩ := by
  obtain ⟨c, cs, rfl⟩ := List.exists_cons_of_ne_nil h.ne_nil
  obtain ⟨d, ds, rfl⟩ := List.exists_cons_of_ne_nil h'.ne_nil
  obtain rfl : c = d := by simpa using hhead
  obtain rfl : kind = kind' := Option.some.inj (h.ofFirst?_eq.symm.trans h'.ofFirst?_eq)
  refine ⟨rfl, ?_⟩
  intro hop
  -- an operator is its first character
  obtain rfl : kind = .operator := hop
  obtain ⟨a, -, ha⟩ := h
  obtain ⟨b, -, hb⟩ := h'
  rw [(List.cons.inj ha).2, (List.cons.inj hb).2]

/-- A text that starts with a lexeme is read as one that is alike, if it can be read at all. -/
theorem next_alike {kind : TokenKind} {rest : List Char} (hgap : ∀ c ∈ gap, isBlank c = true)
    (htext : IsText kind text) (hl : l.rest = gap ++ (text ++ rest)) :
    (∃ t l', l.next = (.ok (some t), l') ∧
      Lexeme.Alike ⟨kind, String.ofList text⟩ t.toLexeme) ∨ ∃ e, l.next.1 = .error e := by
  have hdrop := (next_of_gap hgap (htext.head?_not_blank rest) hl).2
  rcases hn : l.next with ⟨e | found, l'⟩
  · exact .inr ⟨e, rfl⟩
  · cases found with
    | none =>
      -- something that is not blank is left
      obtain ⟨c, cs, rfl⟩ := List.exists_cons_of_ne_nil htext.ne_nil
      have hc := (next_eq_end_iff.mp hn).1 c (by simp [hl])
      exact absurd hc (by simp [htext.head_not_blank])
    | some t =>
      obtain ⟨gap', text', hy⟩ := next_eq_token_iff.mp hn
      have hdrop' := (next_of_gap hy.blank (hy.isText.head?_not_blank l'.rest) hy.rest_eq).2
      have hhead : text.head? = text'.head? := by
        have hrow := congrArg List.head? (hdrop.symm.trans hdrop')
        obtain ⟨c, cs, rfl⟩ := List.exists_cons_of_ne_nil htext.ne_nil
        obtain ⟨d, ds, rfl⟩ := List.exists_cons_of_ne_nil hy.isText.ne_nil
        simpa using hrow
      have ht : t.toLexeme = ⟨t.kind, String.ofList text'⟩ := by rw [← hy.text_eq]
      exact .inl ⟨t, l', rfl, ht ▸ alike_of_head? htext hy.isText hhead⟩

/-- No text that goes on with a token is parsed, if none is in which what is read instead is
alike. -/
theorem not_extendable (hr : (ofSource s).Reads ts l) (hy : l.Yields gap text t l')
    (hs : s.toList = passed ++ l.rest) (hfront : front.toList = passed ++ (gap ++ text))
    (hbad : ∀ {v k u k'}, (ofSource v).Reads ts k → k.next = (.ok (some u), k') →
      t.toLexeme.Alike u.toLexeme → ∃ err, parse v = .error err) : ¬ Extendable front := by
  rintro ⟨u, p, h⟩
  have hu : (front ++ u).toList = passed ++ (gap ++ (text ++ u.toList)) := by
    rw [String.toList_append, hfront, List.append_assoc, List.append_assoc]
  have hjoin : Joins l.rest (gap ++ (text ++ u.toList)) := by
    rw [hy.rest_eq]
    exact (Joins.append_right hy.isText.ne_nil).append_left gap
  obtain ⟨k, hk, hrest, -⟩ := hr.resume_ofSource hs hu hjoin
  have ht : t.toLexeme = ⟨t.kind, String.ofList text⟩ := by rw [← hy.text_eq]
  rcases next_alike hy.blank hy.isText hrest with ⟨v, k', hn, halike⟩ | ⟨e, he⟩
  · obtain ⟨err, herr⟩ := hbad hk hn (ht ▸ halike)
    exact absurd (h.symm.trans herr) (by simp)
  · obtain ⟨us, hus⟩ := exists_tokenize_of_parse h
    exact absurd (hus.symm.trans (tokenize_of_fault hk he)) (by simp)

/-- No text that goes on with a token that is refused is parsed. -/
theorem not_extendable_of_refuses {w : Need} (hr : (ofSource s).Reads ts l)
    (hy : l.Yields gap text t l') (hs : s.toList = passed ++ l.rest)
    (hfront : front.toList = passed ++ (gap ++ text))
    (hw : Refuses (some t.toLexeme) .assignment maxNesting (lexemes ts) w) :
    ¬ Extendable front := by
  apply not_extendable hr hy hs hfront
  intro v k u k' hk hn halike
  have hw' := hw.of_alike halike
  rw [← peek_of_token hn] at hw'
  obtain ⟨err, -, herr⟩ := parse_of_refuses hk hw'
  exact ⟨err, herr⟩

/-- No text that goes on with a token that cannot go on with an expression is parsed. -/
theorem not_extendable_of_trailing {n : Nat} {e : Expr} (hr : (ofSource s).Reads ts l)
    (hy : l.Yields gap text t l') (hs : s.toList = passed ++ l.rest)
    (hfront : front.toList = passed ++ (gap ++ text))
    (he : Derives .assignment n (lexemes ts) e) (hn : n ≤ maxNesting)
    (hstop : NoneOf (e.continuations .assignment) (some t.toLexeme)) : ¬ Extendable front := by
  apply not_extendable hr hy hs hfront
  intro v k u k' hk hnext halike
  have hstop' := halike.noneOf hstop
  rw [← peek_of_token hnext] at hstop'
  exact ⟨_, parse_of_trailing hk (congrArg Prod.fst hnext) he hn hstop'⟩

/-! ### The place -/

/-- The source is cut in front of and behind the text of a token, with regard to an error. -/
structure IsPlace (s : String) (cause : ParseError.Cause) (text : String) (offset : Nat)
    (front back : String) : Prop where
  /-- The text stands in the source. -/
  source_eq : s = front ++ text ++ back
  /-- The text stands at the offset. -/
  offset_eq : front.utf8ByteSize = offset
  /-- The text is that of a token which is read there. -/
  token : ∃ ts l t l', (ofSource s).Reads ts l ∧ l.next = (.ok (some t), l') ∧ t.text = text ∧
    t.start = offset
  /-- What stands before it can be completed. -/
  before : Extendable front
  /-- With it, nothing can be completed, unless an argument is missing. -/
  after : (∀ f, cause ≠ .missingArgument f) → ¬ Extendable (front ++ text)
  /-- If an argument is missing, it is a comma, and nothing can be completed with the parenthesis
  that follows it. -/
  comma : ∀ f, cause = .missingArgument f → text = "," ∧ Extendable (front ++ text) ∧
    ∃ gap rest, back = gap ++ ")" ++ rest ∧ (∀ c ∈ gap.toList, isBlank c = true) ∧
      ¬ Extendable (front ++ text ++ gap ++ ")")

/-- Where a token stands in the source. -/
theorem exists_passed (hr : (ofSource s).Reads ts l) (hy : l.Yields gap text t l') :
    ∃ passed, s.toList = passed ++ l.rest ∧
      s = String.ofList (passed ++ gap) ++ t.text ++ String.ofList l'.rest ∧
      (String.ofList (passed ++ gap)).utf8ByteSize = t.start := by
  obtain ⟨passed, hs, hpos⟩ := hr.exists_front
  refine ⟨passed, hs, ?_, ?_⟩
  · rw [← String.toList_inj, hs, hy.rest_eq, hy.text_eq]
    simp
  · have hstart : t.start = byteLength passed + byteLength gap := by rw [hy.start_eq, hpos]
    rw [← byteLength_toList, String.toList_ofList, byteLength_append, hstart]

theorem toList_front (hy : l.Yields gap text t l') (passed : List Char) :
    (String.ofList (passed ++ gap) ++ t.text).toList = passed ++ (gap ++ text) := by
  rw [hy.text_eq]
  simp

/-- The place of a token with which nothing can be completed. -/
theorem isPlace_of_next {cause : ParseError.Cause} (hr : (ofSource s).Reads ts l)
    (hn : l.next = (.ok (some t), l')) (hcause : ∀ f, cause ≠ .missingArgument f)
    (hc : Completable .assignment maxNesting (lexemes ts))
    (hno : ∀ {gap text passed front}, l.Yields gap text t l' → s.toList = passed ++ l.rest →
      front.toList = passed ++ (gap ++ text) → ¬ Extendable front) :
    ∃ front back, IsPlace s cause t.text t.start front back := by
  obtain ⟨gap, text, hy⟩ := next_eq_token_iff.mp hn
  obtain ⟨passed, hs, hsource, hsize⟩ := exists_passed hr hy
  refine ⟨_, _, hsource, hsize, ⟨ts, l, t, l', hr, hn, rfl, rfl⟩, ?_, ?_, ?_⟩
  · exact extendable_of_completable hr hc hs hy.blank String.toList_ofList
  · intro _
    exact hno hy hs (toList_front hy passed)
  · intro f hf
    exact absurd hf (hcause f)

/-- The place of a comma after which an argument is missing. -/
theorem isPlace_of_comma {us : List Token} {comma : Token} {f : String}
    (hr : (ofSource s).Reads (us ++ [comma]) l)
    (hw : Refuses l.peek .assignment maxNesting (lexemes (us ++ [comma])) (.argument f)) :
    ∃ front back, IsPlace s (.missingArgument f) comma.text comma.start front back := by
  obtain ⟨hclose, vs, hvs⟩ := hw.of_argument rfl
  have hcomma : comma.toLexeme = .operator ',' := by
    rw [lexemes_append] at hvs
    exact (List.cons.inj (List.append_inj' hvs rfl).2).1
  obtain ⟨l₁, hr₁, hr₂⟩ := hr.of_append
  obtain ⟨t, l', hn, ht⟩ := exists_token_of_peek hclose
  obtain ⟨gap', text', hy'⟩ := next_eq_token_iff.mp hn
  cases hr₂ with
  | @cons _ l₂ _ _ _ hn₁ hnil =>
    obtain rfl := hnil.nil_eq
    obtain ⟨gap, text, hy⟩ := next_eq_token_iff.mp hn₁
    obtain ⟨passed, hs, hsource, hsize⟩ := exists_passed hr₁ hy
    have hs' : s.toList = passed ++ (gap ++ text) ++ l.rest := by
      rw [hs, hy.rest_eq]
      simp
    have hfront := toList_front hy passed
    have hext : Extendable (String.ofList (passed ++ gap) ++ comma.text) := by
      have hblank : ∀ c ∈ ([] : List Char), isBlank c = true := by simp
      refine extendable_of_completable hr (hw.completable (by simp)) hs' hblank ?_
      rw [hfront, List.append_nil]
    refine ⟨_, _, hsource, hsize, ⟨us, l₁, comma, l, hr₁, hn₁, rfl, rfl⟩, hext.of_append,
      fun hf => absurd rfl (hf f), fun g _ => ⟨congrArg Lexeme.text hcomma, hext, ?_⟩⟩
    have hparen : t.text = ")" := congrArg Lexeme.text ht
    refine ⟨String.ofList gap', String.ofList l'.rest, ?_, ?_, ?_⟩
    · rw [← hparen, hy'.text_eq, hy'.rest_eq]
      simp [String.append_assoc]
    · rw [String.toList_ofList]
      exact hy'.blank
    · rw [hclose, ← ht] at hw
      refine not_extendable_of_refuses hr hy' hs' ?_ hw
      rw [← hparen, hy'.text_eq, String.toList_append, String.toList_append, hfront]
      simp

/-- An error of the parser has a token and an offset or neither, and they are the place where the
source stops to be the start of a text that is parsed. -/
theorem parse_error_place {s : String} {p : ParseError} (h : parse s = .error (.grammatical p)) :
    ∃ message token offset, p.diagnostic = .grammatical message token offset ∧
      token.isSome = offset.isSome ∧
      ∀ text place, token = some text → offset = some place →
        ∃ front back, IsPlace s p.cause text place front back := by
  refine ⟨_, _, _, rfl, by simp, fun x o hx ho => ?_⟩
  obtain ⟨t, ht, rfl⟩ := Option.map_eq_some_iff.mp hx
  obtain rfl : t.start = o := by simpa [ht] using ho
  have hs := parse_outcome s
  rw [h] at hs
  generalize herr : SyntaxError.grammatical p = err at hs
  cases hs with
  | fault => cases herr
  | @trailing ts l n e u hr hn he hm hstop =>
    cases herr
    obtain rfl : u = t := Option.some.inj ht
    have hc : Completable .assignment maxNesting (lexemes ts) :=
      ⟨[], n, e, hm, by rwa [List.append_nil], by simp⟩
    exact isPlace_of_next hr (next_eq hn) (by simp) hc fun hy hs hfront =>
      not_extendable_of_trailing hr hy hs hfront he hm hstop
  | @refused ts l w err hr hw hrep =>
    cases hrep with
    | level =>
      cases herr
      cases ht
    | argument f us comma =>
      cases herr
      obtain rfl : comma = t := Option.some.inj ht
      exact isPlace_of_comma hr hw
    | awaited _ hawaited =>
      rcases hn : l.next.1 with d | found
      · rw [hn] at herr
        cases herr
      · rw [hn] at herr
        cases herr
        obtain rfl : found = some t := ht
        have hcause (f : String) : w.causeAt (some t) ≠ .missingArgument f := by
          cases w <;> simp [Need.causeAt, Need.isAwaited, ParserM.operandCause] at hawaited ⊢
        have hlevel : w ≠ .level := by
          rintro rfl
          cases hawaited
        have hw' := hw
        rw [peek_of_token (next_eq hn)] at hw'
        exact isPlace_of_next hr (next_eq hn) hcause (hw.completable hlevel) fun hy hs hfront =>
          not_extendable_of_refuses hr hy hs hfront hw'

/-- The comma of a call that is closed too early. -/
theorem parse_error_place_call :
    ∃ front back, IsPlace "f(a, )b" (.missingArgument "f") "," 3 front back := by
  have h : parse "f(a, )b" = .error (.grammatical
      ⟨.missingArgument "f", some { kind := .operator, text := ",", start := 3, last := 3 }⟩) := by
    decide +kernel
  obtain ⟨_, _, _, hd, -, hplace⟩ := parse_error_place h
  cases hd
  exact hplace "," 3 rfl rfl

end ExprView
