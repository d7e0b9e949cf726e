import ExprView.Command
import ExprView.Proofs.Lexer.Locality
import ExprView.Proofs.Text.Runs

/-!
# The lines of tokens

A line of a token has no separators. It can be taken apart nevertheless, whatever the width of its
parts is: the column of the kind has a fixed width, the text ends at its closing quote, since no
lexeme has a quote in it, the blanks after it are given by its length, and the offsets end at the
dots and at the end of the line.

## Main statements

* `tokenLine_append_inj`: a line and what follows it can be told from the text.
* `tokenLines_inj`: so can tokens from all their lines.
-/

namespace ExprView

theorem toList_padRight (n : Nat) (text : String) :
    (padRight n text).toList = text.toList ++ List.replicate (n - text.toList.length) ' ' := by
  simp [padRight, String.length_toList]

/-! ### Columns -/

/-- The column of the kind, which is as wide for every kind. -/
def kindColumn (k : TokenKind) : List Char := (padRight 11 k.name).toList

theorem length_kindColumn (k : TokenKind) : (kindColumn k).length = 11 := by
  cases k <;> rfl

theorem kindColumn_injective : Function.Injective kindColumn := by
  intro k k' h
  cases k <;> cases k' <;> first | rfl | exact absurd h (by decide)

/-- The kind and what follows its column. -/
theorem kindColumn_append_inj {k k' : TokenKind} {rest rest' : List Char}
    (h : kindColumn k ++ rest = kindColumn k' ++ rest') : k = k' ∧ rest = rest' := by
  obtain ⟨hcolumn, hrest⟩ :=
    List.append_inj h ((length_kindColumn k).trans (length_kindColumn k').symm)
  exact ⟨kindColumn_injective hcolumn, hrest⟩

/-- The column of the text, which is wider for a long text. -/
def textColumn (text : List Char) : List Char :=
  '\'' :: (text ++ '\'' :: List.replicate (10 - text.length) ' ')

/-- A text without quotes and what follows its column. -/
theorem textColumn_append_inj {text text' rest rest' : List Char} (htext : '\'' ∉ text)
    (htext' : '\'' ∉ text') (h : textColumn text ++ rest = textColumn text' ++ rest') :
    text = text' ∧ rest = rest' := by
  have hstop : ∀ {cs : List Char}, '\'' ∉ cs → ∀ c ∈ cs, (c != '\'') = true := by
    intro cs hcs c hc
    exact bne_iff_ne.mpr fun heq => hcs (heq ▸ hc)
  simp only [textColumn, List.cons_append, List.append_assoc, List.cons.injEq, true_and] at h
  obtain ⟨rfl, hafter⟩ :=
    append_inj_of_stop (hstop htext) (hstop htext') (by simp) (by simp) h
  -- the same text leaves the same blanks
  exact ⟨rfl, List.append_cancel_left (List.cons.inj hafter).2⟩

/-- The column of the offsets, with the end of the line. -/
def rangeColumn (start last : Nat) : List Char :=
  Nat.toDigits 10 start ++ '.' :: '.' :: (Nat.toDigits 10 last ++ ['\n'])

/-- The offsets and what follows their line. -/
theorem rangeColumn_append_inj {start start' last last' : Nat} {rest rest' : List Char}
    (h : rangeColumn start last ++ rest = rangeColumn start' last' ++ rest') :
    start = start' ∧ last = last' ∧ rest = rest' := by
  simp only [rangeColumn, List.append_assoc, List.cons_append, List.nil_append] at h
  obtain ⟨hstart, hdots⟩ := toDigits_append_inj (by simp) (by simp) h
  simp only [List.cons.injEq, true_and] at hdots
  obtain ⟨hlast, hend⟩ := toDigits_append_inj (by simp) (by simp) hdots
  exact ⟨hstart, hlast, (List.cons.inj hend).2⟩

/-! ### Lines -/

/-- A closed line is its three columns. -/
theorem toList_tokenLine (t : Token) :
    (tokenLine t ++ "\n").toList =
      kindColumn t.kind ++ (textColumn t.text.toList ++ rangeColumn t.start t.last) := by
  have hwidth : 12 - (t.text.toList.length + 1 + 1) = 10 - t.text.toList.length := by omega
  simp [tokenLine, Token.quoted, Token.range, toList_padRight, kindColumn, textColumn,
    rangeColumn, hwidth]

/-- A line and what follows it can be told from the text. -/
theorem tokenLine_append_inj {t u : Token} {rest rest' : List Char}
    (ht : '\'' ∉ t.text.toList) (hu : '\'' ∉ u.text.toList)
    (h : (tokenLine t ++ "\n").toList ++ rest = (tokenLine u ++ "\n").toList ++ rest') :
    t = u ∧ rest = rest' := by
  rw [toList_tokenLine, toList_tokenLine] at h
  simp only [List.append_assoc] at h
  obtain ⟨hkind, h⟩ := kindColumn_append_inj h
  obtain ⟨htext, h⟩ := textColumn_append_inj ht hu h
  obtain ⟨hstart, hlast, hrest⟩ := rangeColumn_append_inj h
  refine ⟨?_, hrest⟩
  obtain ⟨⟨kind, text⟩, start, last⟩ := t
  obtain ⟨⟨kind', text'⟩, start', last'⟩ := u
  obtain rfl : kind = kind' := hkind
  obtain rfl : text = text' := String.toList_inj.mp htext
  obtain rfl : start = start' := hstart
  obtain rfl : last = last' := hlast
  rfl

theorem toList_closedLines_cons (line : String) (lines : List String) :
    (closedLines (line :: lines)).toList = (line ++ "\n").toList ++ (closedLines lines).toList := by
  simp [closedLines, String.toList_join]

/-- Tokens can be told from their lines. -/
theorem tokenLines_inj {ts us : List Token} (hts : ∀ t ∈ ts, '\'' ∉ t.text.toList)
    (hus : ∀ u ∈ us, '\'' ∉ u.text.toList)
    (h : closedLines (ts.map tokenLine) = closedLines (us.map tokenLine)) : ts = us := by
  rw [← String.toList_inj] at h
  induction ts generalizing us with
  | nil =>
    cases us with
    | nil => rfl
    | cons u us => simp [closedLines, String.toList_join] at h
  | cons t ts ih =>
    cases us with
    | nil => simp [closedLines, String.toList_join] at h
    | cons u us =>
      rw [List.forall_mem_cons] at hts hus
      simp only [List.map_cons, toList_closedLines_cons] at h
      obtain ⟨rfl, hrest⟩ := tokenLine_append_inj hts.1 hus.1 h
      rw [ih hts.2 hus.2 hrest]

/-! ### The lines of what is read -/

/-- No lexeme has a quote in it. -/
theorem Lexeme.Spelled.quote_not_mem {x : Lexeme} (h : x.Spelled) : '\'' ∉ x.text.toList :=
  fun hmem => absurd (IsText.isLexemeChar h _ hmem) (by decide)

theorem quote_not_mem_of_tokenize {s : String} {ts : List Token} (h : tokenize s = .ok ts) :
    ∀ t ∈ ts, '\'' ∉ t.text.toList := by
  intro t ht
  obtain ⟨l, hr, -⟩ := tokenize_eq_ok_iff.mp h
  exact (hr.spelled t.toLexeme (List.mem_map_of_mem ht)).quote_not_mem

/-- The tokens of sources can be told from their lines. -/
theorem tokenLines_inj_of_tokenize {s u : String} {ts us : List Token} (hts : tokenize s = .ok ts)
    (hus : tokenize u = .ok us) :
    closedLines (ts.map tokenLine) = closedLines (us.map tokenLine) ↔ ts = us := by
  constructor
  · exact tokenLines_inj (quote_not_mem_of_tokenize hts) (quote_not_mem_of_tokenize hus)
  · rintro rfl
    rfl

end ExprView
