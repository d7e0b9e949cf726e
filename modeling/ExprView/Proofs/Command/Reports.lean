import ExprView.Proofs.Command.Lines
import ExprView.Proofs.Json.Trees
import ExprView.Proofs.Parser.RoundTrip

/-!
# What the command line reports

Asked for the tokens or for the tree of a text, the program succeeds exactly if the text has them.
It says why where it fails, and nothing of what it finds gets lost on the way to the output.

## Main statements

* `writeTree_output_inj`: texts have the same report of their trees exactly if they have the same
  lexemes.
* `command_reports_faithful`: what the reports on two texts tell of them.
-/

namespace ExprView

/-! ### Arguments -/

/-- A text that is taken for a word of the expression wherever it stands among the arguments. -/
structure IsWord (s : String) : Prop where
  /-- It does not ask for help. -/
  ne_help : s ≠ "-h"
  /-- It is no other option either. -/
  not_option : s.startsWith "--" = false

namespace IsWord

variable {s : String} {mode : Mode} {words arguments : List String}

/-- A word is added to the words. -/
theorem ofArguments_cons (h : IsWord s) :
    Request.ofArguments mode words (s :: arguments) =
      Request.ofArguments mode (words ++ [s]) arguments := by
  have hne : ∀ option : String, option.startsWith "--" = true → s ≠ option := by
    rintro option hoption rfl
    exact absurd (hoption.symm.trans h.not_option) (by decide)
  rw [Request.ofArguments, if_neg, if_neg, if_neg, if_neg]
  · simp [h.not_option]
  · exact hne "--ast" (by simp [String.startsWith_string_iff])
  · exact hne "--tokens" (by simp [String.startsWith_string_iff])
  · exact not_or.mpr ⟨h.ne_help, hne "--help" (by simp [String.startsWith_string_iff])⟩

/-- The program writes the tokens of the word it is given. -/
theorem ofArguments_tokens (h : IsWord s) (name : String) :
    Action.ofArguments name ["--tokens", s] = .finish (writeTokens s) := by
  have hrequest : Request.ofArguments .session [] ["--tokens", s] = .run .tokens [s] := by
    rw [Request.ofArguments, if_neg (by decide), if_pos rfl, h.ofArguments_cons]
    rfl
  rw [Action.ofArguments, hrequest]
  simp

/-- The program writes the tree of the word it is given. -/
theorem ofArguments_tree (h : IsWord s) (name : String) :
    Action.ofArguments name ["--ast", s] = .finish (writeTree s) := by
  have hrequest : Request.ofArguments .session [] ["--ast", s] = .run .tree [s] := by
    rw [Request.ofArguments, if_neg (by decide), if_neg (by decide), if_pos rfl,
      h.ofArguments_cons]
    rfl
  rw [Action.ofArguments, hrequest]
  simp

end IsWord

/-! ### Outcomes -/

section Outcomes

variable {s u : String} {ts us : List Token} {p q : Program}

theorem writeTokens_of_ok (h : tokenize s = .ok ts) :
    (writeTokens s).status = 0 ∧ (writeTokens s).output = closedLines (ts.map tokenLine) := by
  unfold writeTokens
  rw [h]
  exact ⟨rfl, rfl⟩

theorem writeTree_of_ok (h : parse s = .ok p) :
    (writeTree s).status = 0 ∧ (writeTree s).output = closedLines [p.pretty] := by
  unfold writeTree
  rw [h]
  exact ⟨rfl, rfl⟩

/-- Tokens that cannot be had are refused with the reason, and nothing is written. -/
theorem writeTokens_of_error {e : LexError} (h : tokenize s = .error e) :
    writeTokens s =
      { status := 1, errors := "Tokenizing expression...\n" ++ e.diagnostic.render ++ "\n" } := by
  unfold writeTokens
  rw [h]
  simp [closedLines, String.join_cons, String.append_assoc]

/-- So is a tree. -/
theorem writeTree_of_error {e : SyntaxError} (h : parse s = .error e) :
    writeTree s =
      { status := 1,
        errors := "Parsing expression...\nParser error: " ++ e.diagnostic.render ++ "\n" } := by
  unfold writeTree
  rw [h]
  simp [closedLines, String.join_cons, ← String.append_assoc]

theorem writeTokens_status_eq_zero_iff : (writeTokens s).status = 0 ↔ ∃ ts, tokenize s = .ok ts := by
  cases h : tokenize s with
  | ok ts => simp [writeTokens_of_ok h]
  | error e => simp [writeTokens_of_error h]

theorem writeTree_status_eq_zero_iff : (writeTree s).status = 0 ↔ ∃ p, parse s = .ok p := by
  cases h : parse s with
  | ok p => simp [writeTree_of_ok h]
  | error e => simp [writeTree_of_error h]

/-- Sources have the same report of their tokens exactly if they have the same tokens. -/
theorem writeTokens_output_inj (hs : tokenize s = .ok ts) (hu : tokenize u = .ok us) :
    (writeTokens s).output = (writeTokens u).output ↔ ts = us := by
  rw [(writeTokens_of_ok hs).2, (writeTokens_of_ok hu).2]
  exact tokenLines_inj_of_tokenize hs hu

/-- Sources with trees have the same tree exactly if they have the same lexemes. -/
theorem program_eq_iff (hs : parse s = .ok p) (hu : parse u = .ok q) (hts : tokenize s = .ok ts)
    (hus : tokenize u = .ok us) : p = q ↔ lexemes ts = lexemes us := by
  constructor
  · rintro rfl
    obtain ⟨ts', hts', hlexemes⟩ := lexemes_of_parse hs
    obtain ⟨us', hus', hlexemes'⟩ := lexemes_of_parse hu
    obtain rfl := Except.ok.inj (hts.symm.trans hts')
    obtain rfl := Except.ok.inj (hus.symm.trans hus')
    exact hlexemes.trans hlexemes'.symm
  · intro heq
    exact Except.ok.inj ((parse_of_lexemes_eq hu hus hts heq).symm.trans hs).symm

/-- They have the same report of it exactly then. -/
theorem writeTree_output_inj (hs : parse s = .ok p) (hu : parse u = .ok q)
    (hts : tokenize s = .ok ts) (hus : tokenize u = .ok us) :
    (writeTree s).output = (writeTree u).output ↔ lexemes ts = lexemes us := by
  have hline : (writeTree s).output = (writeTree u).output ↔ p.pretty = q.pretty := by
    rw [(writeTree_of_ok hs).2, (writeTree_of_ok hu).2]
    simp [closedLines]
  rw [hline, ← program_eq_iff hs hu hts hus]
  obtain ⟨a⟩ := p
  obtain ⟨b⟩ := q
  rw [Program.pretty_inj, Program.mk.injEq]

end Outcomes

/-! ### Reports -/

/-- What the program called `name` leaves behind if it is asked for the tokens and for the tree of
a text. -/
structure Reports (name s : String) (tokens tree : Outcome) : Prop where
  /-- The run that is asked for the tokens. -/
  of_tokens : Action.ofArguments name ["--tokens", s] = .finish tokens
  /-- The run that is asked for the tree. -/
  of_tree : Action.ofArguments name ["--ast", s] = .finish tree
  /-- The one succeeds if the text has tokens, and only then. -/
  tokens_ok : tokens.status = 0 ↔ ∃ ts, tokenize s = .ok ts
  /-- The other one succeeds if the text has a tree, and only then. -/
  tree_ok : tree.status = 0 ↔ ∃ p, parse s = .ok p
  /-- Without tokens the reason is all that is reported. -/
  tokens_error : ∀ e, tokenize s = .error e → tokens.status = 1 ∧ tokens.output = "" ∧
    tokens.errors = "Tokenizing expression...\n" ++ e.diagnostic.render ++ "\n"
  /-- So it is without a tree. -/
  tree_error : ∀ e, parse s = .error e → tree.status = 1 ∧ tree.output = "" ∧
    tree.errors = "Parsing expression...\nParser error: " ++ e.diagnostic.render ++ "\n"
  /-- There is no tree without tokens. -/
  tokens_of_tree : tree.status = 0 → tokens.status = 0

/-- The program reports on every word. -/
theorem IsWord.reports {s : String} (h : IsWord s) (name : String) :
    Reports name s (writeTokens s) (writeTree s) where
  of_tokens := h.ofArguments_tokens name
  of_tree := h.ofArguments_tree name
  tokens_ok := writeTokens_status_eq_zero_iff
  tree_ok := writeTree_status_eq_zero_iff
  tokens_error := fun e he => by simp [writeTokens_of_error he]
  tree_error := fun e he => by simp [writeTree_of_error he]
  tokens_of_tree := by
    rw [writeTree_status_eq_zero_iff, writeTokens_status_eq_zero_iff]
    rintro ⟨p, hp⟩
    exact exists_tokenize_of_parse hp

/-- The program reports what texts have, and loses nothing of it. Two texts have the same report of
their tokens exactly if they have the same tokens, with their places, and the same report of their
trees exactly if they have the same lexemes. -/
theorem command_reports_faithful (name : String) {s u : String} (hs : IsWord s) (hu : IsWord u) :
    ∃ tokens tree tokens' tree' : Outcome,
      Reports name s tokens tree ∧ Reports name u tokens' tree' ∧
      (tokens.status = 0 → tokens'.status = 0 → ∃ ts us, tokenize s = .ok ts ∧
        tokenize u = .ok us ∧ (tokens.output = tokens'.output ↔ ts = us)) ∧
      (tree.status = 0 → tree'.status = 0 → ∃ ts us, tokenize s = .ok ts ∧
        tokenize u = .ok us ∧ (tree.output = tree'.output ↔ lexemes ts = lexemes us)) := by
  refine ⟨writeTokens s, writeTree s, writeTokens u, writeTree u, hs.reports name,
    hu.reports name, ?_, ?_⟩
  · rw [writeTokens_status_eq_zero_iff, writeTokens_status_eq_zero_iff]
    rintro ⟨ts, hts⟩ ⟨us, hus⟩
    exact ⟨ts, us, hts, hus, writeTokens_output_inj hts hus⟩
  · rw [writeTree_status_eq_zero_iff, writeTree_status_eq_zero_iff]
    rintro ⟨p, hp⟩ ⟨q, hq⟩
    obtain ⟨ts, hts⟩ := exists_tokenize_of_parse hp
    obtain ⟨us, hus⟩ := exists_tokenize_of_parse hq
    exact ⟨ts, us, hts, hus, writeTree_output_inj hp hq hts hus⟩

/-- A blank before the operator is seen in the offsets, after a name that leaves no blank in its
column, and is not seen in the tree. -/
theorem command_reports_faithful_wide :
    IsWord "percentage+1" ∧ IsWord "percentage +1" ∧
    ∃ tokens tree tokens' tree' : Outcome,
      Reports "exprtty" "percentage+1" tokens tree ∧
      Reports "exprtty" "percentage +1" tokens' tree' ∧
      tokens.output ≠ tokens'.output ∧ tree.output = tree'.output := by
  have hs : IsWord "percentage+1" := ⟨by decide, by simp⟩
  have hu : IsWord "percentage +1" := ⟨by decide, by simp⟩
  obtain ⟨tokens, tree, tokens', tree', hreports, hreports', htokens, htree⟩ :=
    command_reports_faithful "exprtty" hs hu
  have hp : parse "percentage+1" = .ok ⟨.binary .add (.identifier "percentage") (.number "1")⟩ := by
    decide +kernel
  have hq : parse "percentage +1" = .ok ⟨.binary .add (.identifier "percentage") (.number "1")⟩ := by
    decide +kernel
  have hok := hreports.tree_ok.mpr ⟨_, hp⟩
  have hok' := hreports'.tree_ok.mpr ⟨_, hq⟩
  have hts : tokenize "percentage+1" = .ok [⟨⟨.identifier, "percentage"⟩, 0, 9⟩,
      ⟨⟨.operator, "+"⟩, 10, 10⟩, ⟨⟨.number, "1"⟩, 11, 11⟩] := by decide +kernel
  have hus : tokenize "percentage +1" = .ok [⟨⟨.identifier, "percentage"⟩, 0, 9⟩,
      ⟨⟨.operator, "+"⟩, 11, 11⟩, ⟨⟨.number, "1"⟩, 12, 12⟩] := by decide +kernel
  refine ⟨hs, hu, tokens, tree, tokens', tree', hreports, hreports', ?_, ?_⟩
  · obtain ⟨ts, us, hts', hus', hiff⟩ :=
      htokens (hreports.tokens_of_tree hok) (hreports'.tokens_of_tree hok')
    obtain rfl := Except.ok.inj (hts.symm.trans hts')
    obtain rfl := Except.ok.inj (hus.symm.trans hus')
    exact fun heq => absurd (hiff.mp heq) (by decide)
  · obtain ⟨ts, us, hts', hus', hiff⟩ := htree hok hok'
    obtain rfl := Except.ok.inj (hts.symm.trans hts')
    obtain rfl := Except.ok.inj (hus.symm.trans hus')
    exact hiff.mpr (by decide)

end ExprView
