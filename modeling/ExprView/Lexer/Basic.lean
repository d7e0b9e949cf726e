import ExprView.Text.Bytes
import ExprView.Lexer.Scan

/-!
# The lexer

A lexer is a cursor over one source. `Lexer.next` reads the next token, `Lexer.peek` looks at
it and leaves the cursor where it was, and `Lexer.drain` reads on to the end or to the first
failure.

## Main statements

* `Lexer.next_rest_lt`: reading a token leaves less to read, so `Lexer.drain` ends.
* `Lexer.drain_of_token`, `Lexer.drain_of_end`, `Lexer.drain_of_error`: reading on is reading one
  token and then reading on.
-/

namespace ExprView

/-- A cursor over a source. -/
structure Lexer where
  /-- The whole source. -/
  source : String := ""
  /-- What has not been read yet. -/
  rest : List Char := []
  /-- The byte offset at which `rest` starts. -/
  position : Nat := 0
  /-- The byte offset at which the last scan started. -/
  mark : Nat := 0
  deriving DecidableEq, Repr, Inhabited

/-- The tokens that can be read from a source, and the failure that ends them, if one does. -/
structure TokenStream where
  /-- The tokens up to the end or to the first failure. -/
  tokens : List Token := []
  /-- The failure after the last token. -/
  fault : Option LexError := none
  deriving DecidableEq, Repr, Inhabited

/-- The tokens, or the failure. -/
def TokenStream.toExcept (s : TokenStream) : Except LexError (List Token) :=
  match s.fault with
  | none => .ok s.tokens
  | some e => .error e

namespace Lexer

/-- A lexer at the start of a source. -/
def ofSource (source : String) : Lexer := { source, rest := source.toList }

/-- Installs a new source and goes to its start; nothing of the old one is left. -/
def reset (_ : Lexer) (source : String) : Lexer := ofSource source

theorem reset_eq (l : Lexer) (source : String) : l.reset source = ofSource source := rfl

/-- Reads the next token after the blanks; there is none if only blanks are left. A failed scan
leaves the cursor where it stopped. -/
def next (l : Lexer) : Except LexError (Option Token) × Lexer :=
  let start := l.position + byteLength (l.rest.takeWhile isBlank)
  match l.rest.dropWhile isBlank with
  | [] => (.ok none, { l with rest := [], position := start })
  | c :: cs =>
    match scan c cs with
    | .lexeme kind text rest =>
      let stop := start + byteLength text
      (.ok (some { kind, text := String.ofList text, start, last := stop - 1 }),
        { l with rest, position := stop, mark := start })
    | .fault cause read rest =>
      (.error { cause, offset := start },
        { l with rest, position := start + byteLength read, mark := start })

/-- Looks at the next token. A failing scan shows as no token. -/
def peek (l : Lexer) : Option Lexeme :=
  match l.next.1 with
  | .ok (some t) => some t.toLexeme
  | _ => none

theorem length_dropWhile_le (p : Char → Bool) (cs : List Char) :
    (cs.dropWhile p).length ≤ cs.length :=
  (List.dropWhile_sublist p).length_le

/-- After a token there is less left to read. -/
theorem next_rest_lt {l l' : Lexer} {t : Token} (h : l.next = (.ok (some t), l')) :
    l'.rest.length < l.rest.length := by
  unfold next at h
  split at h
  · simp at h
  · next c cs hcs =>
    have hle := length_dropWhile_le isBlank l.rest
    rw [hcs] at hle
    split at h
    · next kind text rest hs =>
      have hlt := scan_rest_lt hs
      simp only [Prod.mk.injEq] at h
      rw [← h.2]
      simp only
      omega
    · simp at h

/-- Reads tokens until the source ends or a scan fails. -/
def drain (l : Lexer) : TokenStream × Lexer :=
  match h : l.next with
  | (.ok (some t), l') =>
    have := next_rest_lt h
    let (stream, last) := drain l'
    ({ stream with tokens := t :: stream.tokens }, last)
  | (.ok none, l') => ({}, l')
  | (.error e, l') => ({ fault := some e }, l')
termination_by l.rest.length

theorem drain_of_token {l l' : Lexer} {t : Token} (h : l.next = (.ok (some t), l')) :
    l.drain = ({ l'.drain.1 with tokens := t :: l'.drain.1.tokens }, l'.drain.2) := by
  rw [drain]
  split
  · next u m hu =>
    rw [h] at hu
    obtain ⟨rfl, rfl⟩ : t = u ∧ l' = m := by simpa using hu
    rfl
  · next hu => rw [h] at hu; simp at hu
  · next hu => rw [h] at hu; simp at hu

theorem drain_of_end {l l' : Lexer} (h : l.next = (.ok none, l')) : l.drain = ({}, l') := by
  rw [drain]
  split
  · next hu => rw [h] at hu; simp at hu
  · next m hu => rw [h] at hu; simp at hu; rw [hu]
  · next hu => rw [h] at hu; simp at hu

theorem drain_of_error {l l' : Lexer} {e : LexError} (h : l.next = (.error e, l')) :
    l.drain = ({ fault := some e }, l') := by
  rw [drain]
  split
  · next hu => rw [h] at hu; simp at hu
  · next hu => rw [h] at hu; simp at hu
  · next d m hu => rw [h] at hu; simp at hu; rw [hu.1, hu.2]

/-- Reads all tokens that are left. -/
def remaining (l : Lexer) : Except LexError (List Token) × Lexer :=
  (l.drain.1.toExcept, l.drain.2)

end Lexer

/-- The tokens of a source, or the first failure. -/
def tokenize (source : String) : Except LexError (List Token) :=
  (Lexer.ofSource source).remaining.1

end ExprView
