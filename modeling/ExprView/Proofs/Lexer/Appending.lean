import ExprView.Proofs.Lexer.Failure
import Mathlib.Data.List.Basic

/-!
# Text behind a source

What is put behind a source is read as if it stood alone if there is a blank in between, only further
on. Without a blank it may go on with the last token, and then this one becomes longer or unreadable.
It reaches no further back: the tokens in front of the last one were read in view of a character that
is still there.

## Main statements

* `Lexer.drain_shift`: what can be read of a text does not depend on where it stands.
* `tokenize_append_blank`: the tokens, or the error, of a source behind another one and a blank.
* `IsText.goesOn`: a scan of a text that starts with a lexeme reads no less, and the same kind.
* `tokenize_append_stable`: what becomes of tokens when text is put behind them.
-/

namespace ExprView

open Lexer

/-- The error, further on in a source. -/
def LexError.shift (n : Nat) (e : LexError) : LexError := { e with offset := e.offset + n }

/-- What can be read, further on in a source. -/
def TokenStream.shift (n : Nat) (s : TokenStream) : TokenStream where
  tokens := s.tokens.map (Token.shift n)
  fault := s.fault.map (LexError.shift n)

variable {n : Nat} {l l' k : Lexer} {ts : List Token} {s a b u : String}

/-! ### Reading further on -/

namespace Lexer

theorem Reads.shift (h : l.Reads ts l') (hrest : k.rest = l.rest)
    (hpos : k.position = l.position + n) :
    ∃ k', k.Reads (ts.map (Token.shift n)) k' ∧ k'.rest = l'.rest ∧
      k'.position = l'.position + n := by
  obtain ⟨-, front, hfront, -⟩ := h.front
  exact h.resume hfront (hrest.trans hfront) hpos fun _ hc => .inr hc

theorem next_error_shift {e : LexError} (h : l.next.1 = .error e) (hrest : k.rest = l.rest)
    (hpos : k.position = l.position + n) : k.next.1 = .error (e.shift n) := by
  obtain ⟨gap, back, hgap, hl, hoffset, hback⟩ := next_eq_error_iff.mp h
  refine next_eq_error_iff.mpr ⟨gap, back, hgap, hrest.trans hl, ?_, hback⟩
  show e.offset + n = k.position + byteLength gap
  omega

/-- What can be read of a text does not depend on where it stands, but for the places. -/
theorem drain_shift (hrest : k.rest = l.rest) (hpos : k.position = l.position + n) :
    k.drain.1 = l.drain.1.shift n := by
  obtain ⟨l', hr, hstop⟩ := exists_reads_drain l
  obtain ⟨k', hk, hrest', hpos'⟩ := hr.shift hrest hpos
  rw [hk.drain_eq, TokenStream.shift]
  cases hf : l.drain.1.fault with
  | none =>
    rw [hf] at hstop
    obtain ⟨hblank, -⟩ := next_eq_end_iff.mp (next_eq hstop)
    rw [drain_of_end (next_eq_end_iff.mpr ⟨hrest' ▸ hblank, rfl⟩), List.append_nil]
    rfl
  | some e =>
    rw [hf] at hstop
    rw [drain_of_error (next_eq (next_error_shift hstop hrest' hpos')), List.append_nil]
    rfl

/-- Blanks are passed over before anything is read. -/
theorem next_skip {gap rest : List Char} (hgap : ∀ c ∈ gap, isBlank c = true)
    (hl : l.rest = gap ++ rest) :
    l.next = { l with rest, position := l.position + byteLength gap : Lexer }.next := by
  simp only [next, hl, List.takeWhile_append_of_pos hgap, List.dropWhile_append_of_pos hgap,
    byteLength_append, Nat.add_assoc]

theorem drain_eq_of_next_eq (h : l.next = k.next) : l.drain = k.drain := by
  rcases hk : k.next with ⟨e | _ | t, l'⟩
  · rw [drain_of_error hk, drain_of_error (h.trans hk)]
  · rw [drain_of_end hk, drain_of_end (h.trans hk)]
  · rw [drain_of_token hk, drain_of_token (h.trans hk)]

end Lexer

/-! ### Behind a blank -/

/-- A source behind another one and a gap is read as it is alone, further on. -/
theorem tokenize_append_gap {gap : List Char} (ha : tokenize a = .ok ts) (hne : gap ≠ [])
    (hgap : ∀ c ∈ gap, isBlank c = true) (hs : s.toList = a.toList ++ (gap ++ b.toList)) :
    let stream := (ofSource b).drain.1.shift (byteLength (a.toList ++ gap))
    tokenize s = { stream with tokens := ts ++ stream.tokens : TokenStream }.toExcept := by
  intro stream
  obtain ⟨l, hr, hend⟩ := tokenize_eq_ok_iff.mp ha
  obtain ⟨hblank, -⟩ := next_eq_end_iff.mp (next_eq hend)
  obtain ⟨front, hfront, hpos⟩ := hr.exists_front
  have hblanks : ∀ c ∈ l.rest ++ gap, isBlank c = true := by
    intro c hc
    rcases List.mem_append.mp hc with hc | hc
    · exact hblank c hc
    · exact hgap c hc
  -- what comes behind the last token is a blank, as it was or as it is put there
  have hjoin : Joins l.rest (l.rest ++ gap ++ b.toList) := by
    obtain ⟨c, cs, hcs⟩ :=
      List.exists_cons_of_ne_nil (List.append_ne_nil_of_right_ne_nil l.rest hne)
    rw [hcs]
    exact Joins.of_blank (hblanks c (hcs ▸ List.mem_cons_self))
  have hrow : s.toList = front ++ (l.rest ++ gap ++ b.toList) := by
    rw [hs, hfront]
    simp only [List.append_assoc]
  obtain ⟨k, hk, hkrest, hkpos⟩ := hr.resume_ofSource hfront hrow hjoin
  let k₁ : Lexer :=
    { k with rest := b.toList, position := k.position + byteLength (l.rest ++ gap) }
  have hplace : k₁.position = (ofSource b).position + byteLength (a.toList ++ gap) := by
    show k.position + byteLength (l.rest ++ gap) = 0 + byteLength (a.toList ++ gap)
    rw [hkpos, hpos, hfront, Nat.zero_add, ← byteLength_append, List.append_assoc]
  have hskip : k.next = k₁.next := next_skip hblanks hkrest
  have hshift : k₁.drain.1 = stream := drain_shift rfl hplace
  rw [hk.tokenize_eq, drain_eq_of_next_eq hskip, hshift]

/-- A source behind another one and a blank has its own tokens or its own error, further on by the
bytes in front of it, and the source in front keeps its tokens. -/
theorem tokenize_append_blank (a b : String) (w : Char) (ta : List Token)
    (ha : tokenize a = .ok ta) (hw : isBlank w = true) :
    let n := (a ++ String.singleton w).utf8ByteSize
    let source := a ++ String.singleton w ++ b
    (∀ tb, tokenize b = .ok tb → tokenize source = .ok (ta ++ tb.map (Token.shift n))) ∧
      ∀ e, tokenize b = .error e → tokenize source = .error (e.shift n) := by
  intro n source
  have hfront : (a ++ String.singleton w).toList = a.toList ++ [w] := by
    rw [String.toList_append, String.toList_singleton]
  have hn : n = byteLength (a.toList ++ [w]) := by rw [← hfront, byteLength_toList]
  have hsource : source.toList = a.toList ++ ([w] ++ b.toList) := by
    rw [String.toList_append, hfront, List.append_assoc]
  have hgap : ∀ c ∈ [w], isBlank c = true := List.forall_mem_singleton.mpr hw
  have h := tokenize_append_gap ha (List.cons_ne_nil w []) hgap hsource
  rw [← hn] at h
  have hb : tokenize b = (ofSource b).drain.1.toExcept := rfl
  rw [hb, h]
  generalize (ofSource b).drain.1 = stream
  obtain ⟨tokens, fault⟩ := stream
  constructor
  · intro tb htb
    cases fault with
    | none =>
      obtain rfl : tokens = tb := Except.ok.inj htb
      rfl
    | some d => cases htb
  · intro e he
    cases fault with
    | none => cases he
    | some d =>
      obtain rfl : d = e := Except.error.inj he
      rfl

/-- A digit behind a sign would belong to the exponent, but not behind a blank, which has two bytes
here. -/
theorem tokenize_append_blank_sign :
    tokenize "1e+" = .ok [⟨.number "1e+", 0, 2⟩] ∧ isBlank '\u00a0' = true ∧
      tokenize "1e+\u00a05" = .ok [⟨.number "1e+", 0, 2⟩, ⟨.number "5", 5, 5⟩] ∧
      tokenize "1e+\u00a05e" = .error ⟨.exponentAtEnd, 5⟩ := by
  have ha : tokenize "1e+" = .ok [⟨.number "1e+", 0, 2⟩] := by decide +kernel
  have hw : isBlank '\u00a0' = true := by decide
  have htokens := (tokenize_append_blank "1e+" "5" '\u00a0' _ ha hw).1
  have herror := (tokenize_append_blank "1e+" "5e" '\u00a0' _ ha hw).2
  exact ⟨ha, hw, htokens [⟨.number "5", 0, 0⟩] (by decide +kernel),
    herror ⟨.exponentAtEnd, 0⟩ (by decide +kernel)⟩

/-! ### Scans that go on -/

/-- The scan reads a lexeme of the kind that starts with the text, or it fails. -/
def Scan.GoesOn (kind : TokenKind) (text : List Char) : Scan → Prop
  | .lexeme kind' text' _ => kind' = kind ∧ text <+: text'
  | .fault .. => True

variable {m text more : List Char} {kind : TokenKind}

/-- A mantissa that something is put behind stays at the start of the mantissa. -/
theorem IsMantissa.prefix_splitMantissa (h : IsMantissa m) (more : List Char) :
    m <+: (splitMantissa (m ++ more)).1 := by
  unfold splitMantissa
  cases h with
  | whole hds _ =>
    rw [List.dropWhile_append_of_pos hds, List.takeWhile_append_of_pos hds]
    split
    · exact (List.prefix_append ..).trans (List.prefix_append ..)
    · exact List.prefix_append ..
  | @dotted ds es hds hes _ =>
    have hdrop : (ds ++ '.' :: es ++ more).dropWhile Char.isDigit = '.' :: (es ++ more) := by
      rw [List.append_assoc, List.dropWhile_append_of_pos hds, List.cons_append,
        List.dropWhile_cons_of_neg (by decide)]
    have htake : (ds ++ '.' :: es ++ more).takeWhile Char.isDigit = ds := by
      rw [List.append_assoc, List.takeWhile_append_of_pos hds, List.cons_append,
        List.takeWhile_cons_of_neg (by decide), List.append_nil]
    rw [hdrop, htake]
    simp only
    rw [List.takeWhile_append_of_pos hes, ← List.cons_append, ← List.append_assoc]
    exact List.prefix_append ..

theorem scanExponent_goesOn (h : text <+: m) (cs : List Char) :
    (scanExponent m cs).GoesOn .number text := by
  unfold scanExponent
  split
  · exact ⟨rfl, h⟩
  · split
    · split
      · trivial
      · split
        · exact ⟨rfl, h.trans (List.prefix_append ..)⟩
        · trivial
    · exact ⟨rfl, h⟩

theorem IsNumberText.goesOn (h : IsNumberText text) (more : List Char) :
    (scanNumber (text ++ more)).GoesOn .number text := by
  cases h with
  | plain hm =>
    unfold scanNumber
    simp only
    split
    · exact scanExponent_goesOn (hm.prefix_splitMantissa more) _
    · trivial
  | @scaled m ds mark c hm hmark hc hds =>
    rw [List.append_assoc, List.cons_append, List.cons_append, scanNumber_append_mark _ hm hmark,
      scanExponent, if_pos hmark, if_pos hc, List.takeWhile_append_of_pos hds, ← List.cons_append,
      ← List.cons_append, ← List.append_assoc]
    exact ⟨rfl, List.prefix_append ..⟩

/-- A scan of a text that starts with a lexeme reads a lexeme of the same kind that is at least as
long, or it fails. -/
theorem IsText.goesOn {c : Char} {cs : List Char} (h : IsText kind text)
    (hcs : c :: cs = text ++ more) : (scan c cs).GoesOn kind text := by
  cases kind with
  | operator =>
    obtain ⟨d, hd, rfl⟩ := h
    obtain rfl : c = d := (List.cons.inj hcs).1
    obtain ⟨hdigit, hdot, -⟩ := isOperatorChar_disjoint hd
    rw [scan_of_not_number hdigit hdot, if_pos hd]
    exact ⟨rfl, List.prefix_rfl⟩
  | identifier =>
    obtain ⟨d, run, rfl, hd, hrun⟩ := h
    obtain ⟨rfl, rfl⟩ : c = d ∧ cs = run ++ more := by simpa using hcs
    obtain ⟨hdigit, hdot, hop, -⟩ := isNameStart_disjoint hd
    rw [scan_of_not_number hdigit hdot, hop, if_neg Bool.false_ne_true, if_pos hd,
      List.takeWhile_append_of_pos hrun, ← List.cons_append]
    exact ⟨rfl, List.prefix_append ..⟩
  | number =>
    obtain ⟨d, ds, rfl⟩ := List.exists_cons_of_ne_nil h.ne_nil
    obtain rfl : c = d := (List.cons.inj hcs).1
    have hstart : (c.isDigit || c == '.') = true := by simpa using IsNumberText.head h
    rw [scan, if_pos hstart, hcs]
    exact IsNumberText.goesOn h more

/-! ### Behind anything -/

/-- The token starts where the other one does, has its kind, and its text starts with the text of the
other one. -/
structure Token.GrowsTo (t t' : Token) : Prop where
  /-- The kind stays. -/
  kind_eq : t'.kind = t.kind
  /-- The place stays. -/
  start_eq : t'.start = t.start
  /-- No text is lost. -/
  text_kept : t.text.toList <+: t'.text.toList

/-- What is read in front of something is read in the longer source too, for the character that comes
next is still there. -/
theorem Lexer.Reads.resume_append (h : (ofSource a).Reads ts l) (hne : l.rest ≠ []) (u : String) :
    ∃ k, (ofSource (a ++ u)).Reads ts k ∧ k.rest = l.rest ++ u.toList ∧ k.position = l.position := by
  obtain ⟨front, hfront, -⟩ := h.exists_front
  have hrow : (a ++ u).toList = front ++ (l.rest ++ u.toList) := by
    rw [String.toList_append, hfront, List.append_assoc]
  have hjoin : Joins (l.rest ++ []) (l.rest ++ u.toList) := Joins.append_right hne
  rw [List.append_nil] at hjoin
  exact h.resume_ofSource hfront hrow hjoin

/-- A token that something is put behind grows, or it cannot be read any more. -/
theorem Lexer.Yields.append {gap : List Char} {t : Token} (h : l.Yields gap text t l')
    (hrest : k.rest = l.rest ++ more) (hpos : k.position = l.position) :
    (∃ t', k.next.1 = .ok (some t') ∧ t.GrowsTo t') ∨
      ∃ e, k.next.1 = .error e ∧ e.offset = t.start := by
  have hrow : k.rest = gap ++ (text ++ (l'.rest ++ more)) := by
    rw [hrest, h.rest_eq]
    simp only [List.append_assoc]
  obtain ⟨htake, hdrop⟩ := next_of_gap h.blank (h.isText.head?_not_blank _) hrow
  obtain ⟨c, cs, hcs⟩ := List.exists_cons_of_ne_nil h.isText.ne_nil
  have hscan : (scan c (cs ++ (l'.rest ++ more))).GoesOn t.kind text :=
    h.isText.goesOn (by rw [hcs, List.cons_append])
  rw [next, htake, hdrop, hcs, List.cons_append, hpos, ← h.start_eq]
  simp only
  split
  · next hs =>
    rw [hs] at hscan
    refine .inl ⟨_, rfl, hscan.1, rfl, ?_⟩
    rw [h.text_eq, String.toList_ofList, String.toList_ofList]
    exact hscan.2
  · exact .inr ⟨_, rfl, rfl⟩

/-- The tokens of a longer source are those that had been there but for the last one, which has grown,
and further ones. Or there are none, and the place of the error is not in front of the last token. -/
theorem tokenize_append_cases {t : Token} (ha : tokenize a = .ok (ts ++ [t])) (u : String) :
    (∃ t' more, tokenize (a ++ u) = .ok (ts ++ t' :: more) ∧ t.GrowsTo t') ∨
      ∃ e, tokenize (a ++ u) = .error e ∧ t.start ≤ e.offset := by
  obtain ⟨l, hr, -⟩ := tokenize_eq_ok_iff.mp ha
  obtain ⟨l₁, hfirst, hlast⟩ := hr.of_append
  obtain ⟨t', ht', hn, -⟩ := hlast.of_singleton (rfl : lexemes [t] = [t.toLexeme])
  obtain rfl : t = t' := (List.cons.inj ht').1
  obtain ⟨gap, text, hy⟩ := next_eq_token_iff.mp hn
  have hne : l₁.rest ≠ [] := by
    rw [hy.rest_eq]
    simp [hy.isText.ne_nil]
  obtain ⟨k, hk, hrest, hpos⟩ := hfirst.resume_append hne u
  rcases hy.append hrest hpos with ⟨t', ht', hgrows⟩ | ⟨e, he, hoffset⟩
  · have hstep : k.next = (.ok (some t'), k.next.2) := next_eq ht'
    have hstart := hgrows.start_eq
    rw [(hk.append (Reads.single hstep)).tokenize_eq, List.append_assoc, List.singleton_append]
    cases hf : k.next.2.drain.1.fault with
    | none =>
      exact .inl ⟨t', k.next.2.drain.1.tokens, by simp only [TokenStream.toExcept, hf], hgrows⟩
    | some e =>
      obtain ⟨-, hin⟩ := (Reads.single hstep).offsets
      have hle := position_le_fault hf
      have hlt := (hin t' (List.mem_singleton_self t')).2
      exact .inr ⟨e, by simp only [TokenStream.toExcept, hf], by omega⟩
  · exact .inr ⟨e, tokenize_of_fault hk he, Nat.le_of_eq hoffset.symm⟩

/-- Text that is put behind a source leaves all tokens but the last one alone, and the last one grows.
If the longer source has no tokens, the place of the error is not in front of the last one. -/
theorem tokenize_append_stable (a u : String) (ta : List Token) (ha : tokenize a = .ok ta) :
    (∀ tb, tokenize (a ++ u) = .ok tb → ta.dropLast <+: tb ∧
      ∀ t, ta.getLast? = some t → ∃ t' more, tb = ta.dropLast ++ t' :: more ∧ t.GrowsTo t') ∧
    ∀ e, tokenize (a ++ u) = .error e → ∀ t, ta.getLast? = some t → t.start ≤ e.offset := by
  rcases List.eq_nil_or_concat' ta with rfl | ⟨ts, last, rfl⟩
  · simp
  · simp only [List.dropLast_concat, List.getLast?_concat, Option.some.injEq, forall_eq']
    rcases tokenize_append_cases ha u with ⟨t', more, htokens, hgrows⟩ | ⟨e, herror, hle⟩
    · rw [htokens]
      refine ⟨fun tb htb => ?_, fun e he => by cases he⟩
      obtain rfl := Except.ok.inj htb
      exact ⟨List.prefix_append .., t', more, rfl, hgrows⟩
    · rw [herror]
      refine ⟨fun tb htb => (by cases htb), fun d hd => ?_⟩
      obtain rfl := Except.error.inj hd
      exact hle

/-- A mark, a sign and a digit belong to the number in front of them, and the dot behind them starts
another one. With a letter behind the mark the number cannot be read. The first number stays. -/
theorem tokenize_append_stable_mark :
    let ta : List Token := [⟨.number "1e+", 0, 2⟩, ⟨.number ".5", 3, 4⟩]
    let tb : List Token := [⟨.number "1e+", 0, 2⟩, ⟨.number ".5E-7", 3, 7⟩, ⟨.number ".3", 8, 9⟩]
    let e : LexError := ⟨.exponentBefore 'x', 3⟩
    tokenize "1e+.5" = .ok ta ∧
      (tokenize "1e+.5E-7.3" = .ok tb ∧ ta.dropLast <+: tb ∧ ∃ t' more,
        tb = ta.dropLast ++ t' :: more ∧ Token.GrowsTo ⟨.number ".5", 3, 4⟩ t') ∧
      tokenize "1e+.5Ex" = .error e ∧ 3 ≤ e.offset := by
  intro ta tb e
  have ha : tokenize "1e+.5" = .ok ta := by decide +kernel
  have hb : tokenize "1e+.5E-7.3" = .ok tb := by decide +kernel
  have he : tokenize "1e+.5Ex" = .error e := by decide +kernel
  obtain ⟨hkept, hgrown⟩ := (tokenize_append_stable "1e+.5" "E-7.3" ta ha).1 tb hb
  have hplace := (tokenize_append_stable "1e+.5" "Ex" ta ha).2 e he
  exact ⟨ha, ⟨hb, hkept, hgrown _ rfl⟩, he, hplace ⟨.number ".5", 3, 4⟩ rfl⟩

end ExprView
