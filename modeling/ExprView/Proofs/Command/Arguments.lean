import ExprView.Proofs.Command.Reports

/-!
# What arguments mean

An argument is an option that decides all, a flag for a mode, or a word of the expression. The first
option decides, whatever stands around it. Where there is none, the arguments mean no more than the
last flag and the words with blanks between them.

## Main statements

* `Request.ofArguments_append`: what is known when arguments without options have been read.
* `IsWord.intercalate`: words with blanks between them are a word.
* `arguments_meaning`: what the program does with its arguments.
-/

namespace ExprView

/-! ### Kinds of arguments -/

/-- The argument asks for a mode. -/
def IsFlag (a : String) : Prop := a = "--tokens" ∨ a = "--ast"

instance : DecidablePred IsFlag := fun a => inferInstanceAs (Decidable (a = _ ∨ a = _))

/-- The argument decides what is done, whatever the others are: it asks for help, or it is an option
that the program does not know. -/
def IsOption (a : String) : Prop := a = "-h" ∨ a.startsWith "--" = true ∧ ¬ IsFlag a

instance : DecidablePred IsOption := fun a => inferInstanceAs (Decidable (a = _ ∨ _ ∧ _))

/-- The mode that a flag asks for. -/
def Mode.ofFlag (flag : String) : Mode := if flag = "--tokens" then .tokens else .tree

/-- What is reported on a text if a flag asks for it. -/
def report (flag text : String) : Outcome :=
  if flag = "--tokens" then writeTokens text else writeTree text

/-- The last of the flags among the arguments. -/
def lastFlag? (arguments : List String) : Option String :=
  (arguments.filter fun a => IsFlag a).getLast?

/-- The arguments that are no flags. -/
def wordsOf (arguments : List String) : List String := arguments.filter fun a => ¬ IsFlag a

section kinds
variable {a : String} {rest : List String}

theorem IsFlag.startsWith (h : IsFlag a) : a.startsWith "--" = true := by
  rcases h with rfl | rfl <;> simp [String.startsWith_string_iff]

theorem IsFlag.not_isOption (h : IsFlag a) : ¬ IsOption a := by
  rintro (rfl | ⟨-, hflag⟩)
  · exact absurd h (by decide)
  · exact hflag h

/-- What is neither an option nor a flag is a word. -/
theorem isWord_iff : IsWord a ↔ ¬ IsOption a ∧ ¬ IsFlag a := by
  constructor
  · intro h
    refine ⟨?_, fun hflag => ?_⟩
    · rintro (rfl | ⟨hstart, -⟩)
      · exact h.ne_help rfl
      · exact Bool.false_ne_true (h.not_option.symm.trans hstart)
    · exact Bool.false_ne_true (h.not_option.symm.trans hflag.startsWith)
  · rintro ⟨hoption, hflag⟩
    refine ⟨fun hhelp => hoption (.inl hhelp), ?_⟩
    rw [← Bool.not_eq_true]
    exact fun hstart => hoption (.inr ⟨hstart, hflag⟩)

theorem wordsOf_cons_of_isFlag (h : IsFlag a) : wordsOf (a :: rest) = wordsOf rest := by
  simp [wordsOf, h]

theorem wordsOf_cons_of_not_isFlag (h : ¬ IsFlag a) : wordsOf (a :: rest) = a :: wordsOf rest := by
  simp [wordsOf, h]

theorem lastFlag?_cons_of_isFlag (h : IsFlag a) :
    lastFlag? (a :: rest) = some ((lastFlag? rest).getD a) := by
  simp [lastFlag?, h, List.getLast?_cons]

theorem lastFlag?_cons_of_not_isFlag (h : ¬ IsFlag a) : lastFlag? (a :: rest) = lastFlag? rest := by
  simp [lastFlag?, h]

theorem isFlag_of_lastFlag? {arguments : List String} (h : lastFlag? arguments = some a) :
    IsFlag a := by
  have hmem : a ∈ arguments.filter fun a => IsFlag a := List.mem_of_getLast? h
  exact of_decide_eq_true (List.mem_filter.mp hmem).2

theorem isWord_of_mem_wordsOf {arguments : List String} (h : ∀ a ∈ arguments, ¬ IsOption a) :
    ∀ w ∈ wordsOf arguments, IsWord w := by
  intro w hw
  obtain ⟨hmem, hflag⟩ := List.mem_filter.mp hw
  exact isWord_iff.mpr ⟨h w hmem, of_decide_eq_true hflag⟩

end kinds

/-! ### Words with blanks between them -/

/-- What starts with a word and a blank is a word: no option has a blank among its first characters. -/
theorem IsWord.append_blank {w : String} (h : IsWord w) (rest : String) :
    IsWord (w ++ " " ++ rest) where
  ne_help := by
    intro heq
    have hblank : ' ' ∈ "-h".toList := heq ▸ by simp
    exact absurd hblank (by decide)
  not_option := by
    have hword := h.not_option
    rw [← Bool.not_eq_true, String.startsWith_string_iff] at hword ⊢
    simp only [String.toList_append, List.append_assoc]
    intro hstart
    -- the dashes are in front of the blank
    rcases hw : w.toList with _ | ⟨c, _ | ⟨d, cs⟩⟩ <;> simp [hw] at hstart hword
    exact hword hstart.1 hstart.2

/-- Words with blanks between them are a word. -/
theorem IsWord.intercalate {ws : List String} (h : ∀ w ∈ ws, IsWord w) (hne : ws ≠ []) :
    IsWord (" ".intercalate ws) := by
  cases ws with
  | nil => exact absurd rfl hne
  | cons w ws =>
    obtain ⟨hw, -⟩ := List.forall_mem_cons.mp h
    cases ws with
    | nil => simpa using hw
    | cons v vs =>
      rw [String.intercalate_cons_cons]
      exact hw.append_blank _

/-! ### Reading arguments -/

namespace Request

variable {a : String} {mode : Mode} {ws before rest : List String}

/-- An option decides where it stands. -/
theorem ofArguments_of_isOption (h : IsOption a) :
    ofArguments mode ws (a :: rest) = if a = "-h" ∨ a = "--help" then .help else .unknown a := by
  obtain rfl | ⟨hstart, hflag⟩ := h
  · rw [ofArguments]
    rfl
  · obtain ⟨htokens, htree⟩ := not_or.mp hflag
    rw [ofArguments, if_neg htokens, if_neg htree, if_pos hstart]

/-- A flag asks for its mode, whatever was asked for before. -/
theorem ofArguments_of_isFlag (h : IsFlag a) :
    ofArguments mode ws (a :: rest) = ofArguments (Mode.ofFlag a) ws rest := by
  rcases h with rfl | rfl
  · rw [ofArguments, if_neg (by decide), if_pos rfl]
    rfl
  · rw [ofArguments, if_neg (by decide), if_neg (by decide), if_pos rfl]
    rfl

/-- When arguments without options have been read, the mode is that of the last flag and the words
are behind those that there were. -/
theorem ofArguments_append (h : ∀ a ∈ before, ¬ IsOption a) :
    ofArguments mode ws (before ++ rest) =
      ofArguments (((lastFlag? before).map Mode.ofFlag).getD mode) (ws ++ wordsOf before) rest := by
  induction before generalizing mode ws with
  | nil => simp [lastFlag?, wordsOf]
  | cons a before ih =>
    obtain ⟨ha, hbefore⟩ := List.forall_mem_cons.mp h
    rw [List.cons_append]
    by_cases hflag : IsFlag a
    · rw [ofArguments_of_isFlag hflag, ih hbefore, wordsOf_cons_of_isFlag hflag,
        lastFlag?_cons_of_isFlag hflag]
      cases lastFlag? before <;> rfl
    · rw [(isWord_iff.mpr ⟨ha, hflag⟩).ofArguments_cons, ih hbefore,
        wordsOf_cons_of_not_isFlag hflag, lastFlag?_cons_of_not_isFlag hflag, List.append_assoc]
      rfl

/-- Arguments without options ask for their words to be dealt with in the mode of the last flag. -/
theorem ofArguments_of_forall (h : ∀ a ∈ before, ¬ IsOption a) :
    ofArguments mode [] before =
      .run (((lastFlag? before).map Mode.ofFlag).getD mode) (wordsOf before) := by
  have hread : ofArguments mode [] (before ++ []) =
      ofArguments (((lastFlag? before).map Mode.ofFlag).getD mode) (wordsOf before) [] :=
    ofArguments_append h
  rwa [List.append_nil] at hread

end Request

namespace Action

variable {a flag : String} {arguments : List String}

/-- What the program does where an option decides. -/
theorem ofArguments_of_isOption (name : String) (h : IsOption a) :
    ofArguments name (a :: arguments) = .finish (if a = "-h" ∨ a = "--help" then
        { errors := closedLines (usage name) }
      else refuseArguments name ("Unknown option '" ++ a ++ "'")) := by
  rw [ofArguments, Request.ofArguments_of_isOption h]
  by_cases hhelp : a = "-h" ∨ a = "--help"
  · simp only [if_pos hhelp]
  · simp only [if_neg hhelp]

/-- The first option decides on its own. -/
theorem ofArguments_of_find? (name : String)
    (h : arguments.find? (fun a => IsOption a) = some a) :
    IsOption a ∧ ofArguments name arguments = ofArguments name [a] := by
  obtain ⟨hoption, before, after, rfl, hbefore⟩ := List.find?_eq_some_iff_append.mp h
  have hoption : IsOption a := of_decide_eq_true hoption
  have hbefore : ∀ b ∈ before, ¬ IsOption b := by simpa using hbefore
  refine ⟨hoption, ?_⟩
  rw [ofArguments, ofArguments, Request.ofArguments_append hbefore,
    Request.ofArguments_of_isOption hoption, Request.ofArguments_of_isOption hoption]

/-- Arguments with a flag and without options ask for their words to be reported on. -/
theorem ofArguments_of_flag (name : String) (h : ∀ a ∈ arguments, ¬ IsOption a)
    (hflag : lastFlag? arguments = some flag) :
    ofArguments name arguments =
      .finish (if wordsOf arguments = [] then refuseArguments name "No expression provided"
        else report flag (" ".intercalate (wordsOf arguments))) := by
  rw [ofArguments, Request.ofArguments_of_forall h, hflag]
  rcases isFlag_of_lastFlag? hflag with rfl | rfl <;> cases wordsOf arguments <;> rfl

/-- The last flag and one word ask for the word to be reported on. -/
theorem ofArguments_pair (name : String) {text : String} (hflag : IsFlag flag)
    (htext : IsWord text) : ofArguments name [flag, text] = .finish (report flag text) := by
  obtain ⟨hoption, htextFlag⟩ := isWord_iff.mp htext
  have hno : ∀ a ∈ [flag, text], ¬ IsOption a := by
    simp [hflag.not_isOption, hoption]
  have hlast : lastFlag? [flag, text] = some flag := by
    rw [lastFlag?_cons_of_isFlag hflag, lastFlag?_cons_of_not_isFlag htextFlag]
    rfl
  rw [ofArguments_of_flag name hno hlast, wordsOf_cons_of_isFlag hflag,
    wordsOf_cons_of_not_isFlag htextFlag]
  simp [wordsOf]

end Action

/-- The program does what its arguments say, however they are split. Where there is an option, the
first one alone decides: either the program explains itself, or it refuses the option. Otherwise, if
there is a flag, the program reports on the words as it does if it is given the last flag and a single
word, which is all of them with blanks between them, and refuses the arguments if there are no words.
So neither the places of the flags nor their number matter, nor where the blanks of an expression
separate arguments. -/
theorem arguments_meaning (name : String) (arguments : List String) :
    (∀ a, arguments.find? (fun a => IsOption a) = some a →
      Action.ofArguments name arguments = Action.ofArguments name [a] ∧
      Action.ofArguments name arguments = .finish (if a = "-h" ∨ a = "--help" then
        { status := 0, output := "", errors := closedLines (usage name) }
      else
        { status := 1, output := ""
          errors := closedLines (("Error: Unknown option '" ++ a ++ "'") :: "" :: usage name) })) ∧
    ∀ flag, (∀ a ∈ arguments, ¬ IsOption a) → lastFlag? arguments = some flag →
      (wordsOf arguments ≠ [] → ∃ outcome, Action.ofArguments name arguments = .finish outcome ∧
        Action.ofArguments name [flag, " ".intercalate (wordsOf arguments)] = .finish outcome) ∧
      (wordsOf arguments = [] → Action.ofArguments name arguments = .finish
        { status := 1, output := ""
          errors := closedLines ("Error: No expression provided" :: "" :: usage name) }) ∧
      ∀ others, (∀ a ∈ others, ¬ IsOption a) → lastFlag? others = some flag →
        (wordsOf arguments = [] ↔ wordsOf others = []) →
        " ".intercalate (wordsOf arguments) = " ".intercalate (wordsOf others) →
        Action.ofArguments name arguments = Action.ofArguments name others := by
  constructor
  · intro a hfirst
    obtain ⟨hoption, halone⟩ := Action.ofArguments_of_find? name hfirst
    refine ⟨halone, halone.trans ?_⟩
    rw [Action.ofArguments_of_isOption name hoption, refuseArguments]
    simp only [← String.append_assoc]
    rfl
  · intro flag hno hflag
    have hall := Action.ofArguments_of_flag name hno hflag
    refine ⟨fun hne => ?_, fun hnil => ?_, fun others hno' hflag' hnil htext => ?_⟩
    · have hword : IsWord (" ".intercalate (wordsOf arguments)) :=
        .intercalate (isWord_of_mem_wordsOf hno) hne
      refine ⟨_, ?_, Action.ofArguments_pair name (isFlag_of_lastFlag? hflag) hword⟩
      rw [hall, if_neg hne]
    · rw [hall, if_pos hnil]
      rfl
    · simp only [hall, Action.ofArguments_of_flag name hno' hflag', hnil, htext]

/-- An expression in three arguments with flags between them, the same in two, and an option that is
not known behind a flag and in front of another option. -/
theorem arguments_meaning_dash :
    let arguments := ["1", "--ast", "-", "--tokens", "2"]
    (∀ a ∈ arguments, ¬ IsOption a) ∧ lastFlag? arguments = some "--tokens" ∧
      (∃ outcome, Action.ofArguments programName arguments = .finish outcome ∧
        Action.ofArguments programName ["--tokens", "1 - 2"] = .finish outcome) ∧
      Action.ofArguments programName arguments =
        Action.ofArguments programName ["1 -", "2", "--tokens"] ∧
      Action.ofArguments programName ["1", "--ast", "--no", "-h"] =
        Action.ofArguments programName ["--no"] := by
  intro arguments
  have hno : ∀ a ∈ arguments, ¬ IsOption a := by decide +kernel
  have hno' : ∀ a ∈ ["1 -", "2", "--tokens"], ¬ IsOption a := by decide +kernel
  have hfirst : ["1", "--ast", "--no", "-h"].find? (fun a => IsOption a) = some "--no" := by
    decide +kernel
  obtain ⟨-, hflags⟩ := arguments_meaning programName arguments
  obtain ⟨hone, -, hsame⟩ := hflags "--tokens" hno (by decide)
  obtain ⟨hoption, -⟩ := arguments_meaning programName ["1", "--ast", "--no", "-h"]
  exact ⟨hno, by decide, hone (by decide), hsame _ hno' (by decide) (by decide) (by decide),
    (hoption _ hfirst).1⟩

end ExprView
