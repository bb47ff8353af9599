import DbBench.Library.ShellLiteral

/-
This library says that an argument which is not literal fails to reach its program in some
environment. A byte with a role is a mark. Reading never adds a mark, and it loses one wherever a
byte acts in its role.
-/

namespace CommandLine

/-- The text has this many bytes with a role. -/
def marks (text : Text) : Nat := text.countP fun c => roleOf c ≠ .ordinary

@[simp] theorem marks_nil : marks [] = 0 := rfl

@[simp] theorem marks_append (first second : Text) :
    marks (first ++ second) = marks first + marks second := List.countP_append

theorem marks_cons (c : UInt8) (text : Text) : marks (c :: text) = marks [c] + marks text :=
  marks_append [c] text

/-- An ordinary byte is no mark, and every other byte is one. -/
theorem marks_singleton (c : UInt8) : marks [c] = if roleOf c = .ordinary then 0 else 1 := by
  by_cases ordinary : roleOf c = .ordinary <;> simp [marks, ordinary]

def Piece.bytes : Piece → Text
  | .literal c => [c]
  | .quoted c => [c]
  | _ => []

/-- The bytes that the pieces bring from the text have this many marks. -/
def marksOf (pieces : List Piece) : Nat := marks (pieces.flatMap Piece.bytes)

@[simp] theorem marksOf_nil : marksOf [] = 0 := rfl

@[simp] theorem marksOf_append (first second : List Piece) :
    marksOf (first ++ second) = marksOf first + marksOf second := by
  rw [marksOf, List.flatMap_append, marks_append]
  rfl

/-- Between double quotes a backslash may still come out as itself. -/
def credit : Mode → Nat
  | .escape .double => 1
  | _ => 0

theorem credit_mode (back : Context) : credit back.mode = 0 := by
  cases back <;> rfl

theorem credit_skip (count : Nat) (back : Context) : credit (skip count back) = 0 := by
  cases count with
  | zero => exact credit_mode back
  | succ count => rfl

section
variable (extent : Text → Option Nat)

/-- The text of an expansion brings nothing. -/
theorem expansionStep_marks {back : Context} {c : UInt8} {rest : Text} {pieces : List Piece}
    {mode : Mode} (stepped : expansionStep extent back c rest = .next pieces mode) :
    marksOf pieces + credit mode = 0 := by
  unfold expansionStep at stepped
  split at stepped
  · cases stepped
  · cases stepped
    rw [credit_skip]
    rfl

/-- Outside of quotes, a byte with a role acts in it. A `#` does so at the start of a word only. -/
def Acts (context : Context) (c : UInt8) : Prop :=
  roleOf c ≠ .ordinary ∧ (roleOf c = .hash → context = .start)

theorem bareStep_of_plain {context : Context} {c : UInt8} (plain : ¬ Acts context c)
    (rest : Text) : bareStep extent context c rest = .next [.literal c] .word := by
  cases role : roleOf c with
  | ordinary => simp [bareStep, role]
  | hash =>
      have inside : context ≠ .start := fun start => plain ⟨by simp [role], fun _ => start⟩
      simp [bareStep, role, inside]
  | blank | control | redirection | backslash | singleQuote | doubleQuote | expansion =>
      exact absurd ⟨by simp [role], by simp [role]⟩ plain

/-- Outside of quotes a byte that acts in its role brings nothing. -/
theorem bareStep_acts {context : Context} {c : UInt8} {rest : Text} {pieces : List Piece}
    {mode : Mode} (single : context ≠ .double)
    (stepped : bareStep extent context c rest = .next pieces mode)
    (acts : Acts context c) :
    marksOf pieces + credit mode = 0 := by
  unfold bareStep at stepped
  cases role : roleOf c with
  | ordinary => exact absurd role acts.1
  | control => simp [role] at stepped
  | expansion => exact expansionStep_marks extent (by simpa [role] using stepped)
  | hash =>
      simp only [role, acts.2 role, if_true] at stepped
      cases stepped
      rfl
  | backslash =>
      simp only [role] at stepped
      cases stepped
      cases context with
      | start | word => rfl
      | double => exact absurd rfl single
  | blank | redirection | singleQuote | doubleQuote =>
      simp only [role] at stepped
      cases stepped
      rfl

/-- Outside of quotes a byte brings at most itself. -/
theorem bareStep_marks {context : Context} {c : UInt8} {rest : Text} {pieces : List Piece}
    {mode : Mode} (single : context ≠ .double)
    (stepped : bareStep extent context c rest = .next pieces mode) :
    marksOf pieces + credit mode ≤ marks [c] := by
  by_cases acts : Acts context c
  · rw [bareStep_acts extent single stepped acts]
    exact Nat.zero_le _
  · rw [bareStep_of_plain extent acts] at stepped
    cases stepped
    exact Nat.le_refl _

theorem doubleStep_marks {c : UInt8} {rest : Text} {pieces : List Piece} {mode : Mode}
    (stepped : doubleStep extent c rest = .next pieces mode) :
    marksOf pieces + credit mode ≤ marks [c] := by
  unfold doubleStep at stepped
  have whole := marks_singleton c
  cases role : roleOf c with
  | expansion =>
      rw [expansionStep_marks extent (by simpa only [role] using stepped)]
      exact Nat.zero_le _
  | doubleQuote =>
      simp only [role] at stepped
      cases stepped
      exact Nat.zero_le _
  | backslash =>
      simp only [role] at stepped
      cases stepped
      simp only [role] at whole
      exact Nat.le_of_eq whole.symm
  | blank | control | redirection | singleQuote | hash | ordinary =>
      simp only [role] at stepped
      cases stepped
      exact Nat.le_refl _

theorem escapeStep_marks {back : Context} {c : UInt8} {pieces : List Piece} {mode : Mode}
    (stepped : escapeStep back c = .next pieces mode) :
    marksOf pieces + credit mode ≤ marks [c] + credit (.escape back) := by
  unfold escapeStep at stepped
  split_ifs at stepped with newline double
  · cases stepped
    rw [credit_mode]
    exact Nat.zero_le _
  · subst double
    split at stepped
    all_goals cases stepped
    · exact Nat.le_add_right _ _
    · exact Nat.le_add_right _ _
    · exact Nat.le_add_right _ _
    · -- the backslash comes out as itself, on the credit of its mode
      have both : marksOf [.quoted 92, .quoted c] = 1 + marks [c] := marks_cons 92 [c]
      rw [both, Nat.add_comm 1]
      exact Nat.le_refl _
  · cases stepped
    exact Nat.le_add_right _ _

/-- Every step brings at most the marks that it takes. -/
theorem step_marks {mode next : Mode} {c : UInt8} {rest : Text} {pieces : List Piece}
    (stepped : step extent mode c rest = .next pieces next) :
    marksOf pieces + credit next ≤ marks [c] + credit mode := by
  cases mode with
  | start => exact bareStep_marks extent (by decide) stepped
  | word => exact bareStep_marks extent (by decide) stepped
  | double => exact doubleStep_marks extent stepped
  | single =>
      simp only [step] at stepped
      split_ifs at stepped
      · cases stepped
        exact Nat.zero_le _
      · cases stepped
        exact Nat.le_refl _
  | comment =>
      simp only [step] at stepped
      split_ifs at stepped
      cases stepped
      exact Nat.zero_le _
  | escape back => exact escapeStep_marks stepped
  | redirecting operator =>
      simp only [step] at stepped
      split_ifs at stepped
      · cases stepped
        exact Nat.zero_le _
      · exact bareStep_marks extent (by decide) stepped
  | skipping count back =>
      cases stepped
      rw [credit_skip]
      exact Nat.zero_le _

/-- Reading brings at most the marks of the text. -/
theorem read_marks {mode : Mode} {text left : Text} {pieces : List Piece}
    (done : read extent mode text = some (pieces, left)) :
    marksOf pieces ≤ marks text + credit mode := by
  induction text generalizing mode pieces with
  | nil =>
      cases mode with
      | escape back =>
          cases back with
          | start | word =>
              cases done
              exact Nat.zero_le _
          | double => cases done
      | start | word | comment | redirecting operator =>
          cases done
          exact Nat.zero_le _
      | double | single | skipping count back => cases done
  | cons c text ih =>
      rw [read] at done
      cases stepped : step extent mode c text with
      | stop =>
          rw [stepped] at done
          cases done
          exact Nat.zero_le _
      | fail =>
          rw [stepped] at done
          cases done
      | next first next =>
          rw [stepped] at done
          obtain ⟨⟨more, rest⟩, later, equal⟩ := Option.map_eq_some_iff.mp done
          cases equal
          have here := step_marks extent stepped
          have there := ih later
          show marksOf (first ++ more) ≤ marks (c :: text) + credit mode
          rw [marksOf_append, marks_cons]
          omega

/-- A text that keeps all of its marks outside of quotes has no byte that acts. -/
theorem plain_of_marks {context : Context} (single : context ≠ .double) {text left : Text}
    {pieces : List Piece} (done : read extent context.mode text = some (pieces, left))
    (kept : marks text ≤ marksOf pieces) :
    (∀ c ∈ text, roleOf c = .ordinary ∨ roleOf c = .hash) ∧
      (context = .start → text.head? ≠ some 35) := by
  induction text generalizing context pieces with
  | nil => exact ⟨nofun, fun _ => nofun⟩
  | cons c text ih =>
      have bare : step extent context.mode c text = bareStep extent context c text := by
        cases context with
        | start | word => rfl
        | double => exact absurd rfl single
      rw [read, bare] at done
      rw [marks_cons] at kept
      by_cases acts : Acts context c
      · have mark : marks [c] = 1 := by rw [marks_singleton, if_neg acts.1]
        cases stepped : bareStep extent context c text with
        | stop =>
            rw [stepped] at done
            cases done
            rw [marksOf_nil] at kept
            omega
        | fail =>
            rw [stepped] at done
            cases done
        | next first next =>
            rw [stepped] at done
            obtain ⟨⟨more, rest⟩, later, equal⟩ := Option.map_eq_some_iff.mp done
            cases equal
            have lost := bareStep_acts extent single stepped acts
            have there := read_marks extent later
            simp only [marksOf_append] at kept
            omega
      · rw [bareStep_of_plain extent acts] at done
        obtain ⟨⟨more, rest⟩, later, equal⟩ := Option.map_eq_some_iff.mp done
        cases equal
        have own : marksOf [.literal c] = marks [c] := rfl
        simp only [marksOf_append, own] at kept
        have inside : Context.word ≠ .double := by decide
        obtain ⟨plain, _⟩ := ih inside later (by omega)
        have here : roleOf c = .ordinary ∨ roleOf c = .hash := by
          by_contra neither
          rw [not_or] at neither
          exact acts ⟨neither.1, fun hash => absurd hash neither.2⟩
        refine ⟨?_, fun start first => ?_⟩
        · intro b member
          rcases List.mem_cons.mp member with rfl | member
          · exact here
          · exact plain b member
        · have hash : c = 35 := Option.some.inj first
          subst hash
          exact acts ⟨by decide, fun _ => start⟩

end

def Token.pieces : Token → List Piece
  | .word pieces => pieces
  | _ => []

theorem addPiece_marks (piece : Piece) (tokens : List Token) :
    marksOf ((addPiece piece tokens).flatMap Token.pieces) =
      marksOf [piece] + marksOf (tokens.flatMap Token.pieces) := by
  rw [← marksOf_append]
  cases piece with
  | gap | redirection => rfl
  | literal c | quoted c | quote | expansion text inQuotes =>
      cases tokens with
      | nil => rfl
      | cons token tokens => cases token <;> rfl

/-- The tokens bring what the pieces bring. -/
theorem tokensOf_marks (pieces : List Piece) :
    marksOf ((tokensOf pieces).flatMap Token.pieces) = marksOf pieces := by
  induction pieces with
  | nil => rfl
  | cons piece pieces ih =>
      have whole := addPiece_marks piece (tokensOf pieces)
      rw [ih, ← marksOf_append] at whole
      exact whole

/-- The words bring at most what the tokens bring. -/
theorem wordsOf_marks {redirects : Bool} {tokens : List Token} {words : List (List Piece)}
    (done : wordsOf redirects tokens = some words) :
    marksOf words.flatten ≤ marksOf (tokens.flatMap Token.pieces) := by
  induction tokens generalizing redirects words with
  | nil =>
      unfold wordsOf at done
      split_ifs at done
      cases done
      exact Nat.le_refl _
  | cons token tokens ih =>
      cases token with
      | gap => exact ih done
      | redirection =>
          unfold wordsOf at done
          split_ifs at done
          exact ih done
      | word pieces =>
          rw [List.flatMap_cons, marksOf_append]
          unfold wordsOf at done
          split_ifs at done
          · exact Nat.le_trans (ih done) (Nat.le_add_left _ _)
          · exact Nat.le_trans (ih done) (Nat.le_add_left _ _)
          · obtain ⟨others, later, equal⟩ := Option.map_eq_some_iff.mp done
            cases equal
            rw [List.flatten_cons, marksOf_append]
            exact Nat.add_le_add_left (ih later) _

def Field.text (field : Field) : Text := field.chars.map Prod.fst

def fieldMarks (fields : List Field) : Nat := marks (fields.flatMap Field.text)

theorem fieldMarks_cons (field : Field) (fields : List Field) :
    fieldMarks (field :: fields) = marks field.text + fieldMarks fields := by
  rw [fieldMarks, List.flatMap_cons, marks_append]
  rfl

/-- Joining keeps all bytes of the fields. -/
theorem joinFields_marks (first second : List Field) :
    fieldMarks (joinFields first second) = fieldMarks first + fieldMarks second := by
  have same : (joinFields first second).flatMap Field.text = (first ++ second).flatMap Field.text := by
    induction first with
    | nil => rfl
    | cons field first ih =>
        cases first with
        | nil =>
            cases second with
            | nil => rfl
            | cons next second => simp [joinFields, Field.append, Field.text]
        | cons other first =>
            rw [joinFields, List.flatMap_cons, ih]
            rfl
  rw [fieldMarks, same, List.flatMap_append, marks_append]
  rfl

/-- In a quiet environment nothing outside of the text brings a mark. -/
structure Environment.Quiet (env : Environment) : Prop where
  value : ∀ text inQuotes, fieldMarks (env.value text inQuotes) = 0
  home : ∀ login, env.home login = none
  listed : env.listed = []

theorem sparse_quiet : (sparse none []).Quiet := ⟨fun _ _ => rfl, fun _ => rfl, rfl⟩

/-- The fields of a word bring what its pieces bring. -/
theorem fieldsOf_marks {env : Environment} (quiet : env.Quiet) (word : List Piece) :
    fieldMarks (fieldsOf env word) = marksOf word := by
  induction word with
  | nil => rfl
  | cons piece word ih =>
      have more : fieldsOf env (piece :: word) = joinFields (piece.fields env) (fieldsOf env word) :=
        rfl
      have own : fieldMarks (piece.fields env) = marksOf [piece] := by
        cases piece with
        | expansion text inQuotes => exact quiet.value text inQuotes
        | literal c | quoted c | quote | gap | redirection => rfl
      rw [more, joinFields_marks, own, ih, ← marksOf_append]
      rfl

theorem tilde_quiet {env : Environment} (quiet : env.Quiet) (word : List Piece) : tilde env word = word := by
  unfold tilde
  split
  · split_ifs
    · split
      · rw [quiet.home]
      · rfl
    · rfl
  · rfl

/-- The arguments of a word bring at most what the word brings. -/
theorem wordArguments_marks {env : Environment} (quiet : env.Quiet) (word : List Piece) :
    marks (wordArguments env word).flatten ≤ marksOf word := by
  have kept : ∀ fields : List Field,
      marks ((fields.filter Field.isKept).flatMap (pathnames env)).flatten ≤ fieldMarks fields := by
    intro fields
    induction fields with
    | nil => exact Nat.le_refl _
    | cons field fields ih =>
        rw [fieldMarks_cons, List.filter_cons]
        split_ifs
        · rw [List.flatMap_cons, pathnames_unlisted quiet.listed, List.singleton_append,
            List.flatten_cons, marks_append]
          exact Nat.add_le_add_left ih _
        · exact Nat.le_trans ih (Nat.le_add_left _ _)
  rw [wordArguments, tilde_quiet quiet, ← fieldsOf_marks quiet word]
  exact kept _

theorem arguments_marks {env : Environment} (quiet : env.Quiet) (words : List (List Piece)) :
    marks (words.flatMap (wordArguments env)).flatten ≤ marksOf words.flatten := by
  induction words with
  | nil => exact Nat.le_refl _
  | cons word words ih =>
      rw [List.flatMap_cons, List.flatten_append, marks_append, List.flatten_cons, marksOf_append]
      exact Nat.add_le_add (wordArguments_marks quiet word) ih

/-- An argument that reaches its program in a quiet environment is bare. -/
theorem bare_of_quiet (grammar : Grammar) {env : Environment} (quiet : env.Quiet) {words : List Text}
    (nonempty : words ≠ []) (literal : ∀ word ∈ words, Literal word) {last : Text}
    (given : last ≠ []) (reached : runs grammar env (line words last) = [words ++ [last]]) :
    Bare last := by
  rw [runs_line grammar env literal, runsBehind] at reached
  cases done : read grammar.extent .start last with
  | none =>
      rw [done] at reached
      cases reached
  | some result =>
      obtain ⟨pieces, left⟩ := result
      rw [done] at reached
      cases formed : wordsOf false (tokensOf pieces) with
      | none =>
          simp only [formed] at reached
          cases reached
      | some others =>
          simp only [formed] at reached
          have begun : invocation (words ++ others.flatMap (wordArguments env)) =
              [words ++ others.flatMap (wordArguments env)] := by
            simp [invocation, nonempty]
          rw [begun] at reached
          have same : words ++ others.flatMap (wordArguments env) = words ++ [last] := by
            split_ifs at reached
            · exact List.singleton_inj.mp reached
            · split at reached
              · cases reached
              · exact (List.cons.inj reached).1
          have first := List.append_cancel_left same
          have kept : marks last ≤ marksOf pieces := by
            calc marks last = marks (others.flatMap (wordArguments env)).flatten := by
                  rw [first]
                  simp
              _ ≤ marksOf others.flatten := arguments_marks quiet others
              _ ≤ marksOf ((tokensOf pieces).flatMap Token.pieces) := wordsOf_marks formed
              _ = marksOf pieces := tokensOf_marks pieces
          have start : Context.start ≠ .double := by decide
          obtain ⟨plain, head⟩ := plain_of_marks grammar.extent start done kept
          exact ⟨given, plain, head rfl⟩

/-- The last argument of a line reaches its program in every environment exactly when it is
literal. Otherwise it fails to in an environment that does not list it as a pathname. -/
theorem literal_of_runs (grammar : Grammar) {words : List Text} (nonempty : words ≠ [])
    (literal : ∀ word ∈ words, Literal word) {last : Text} (given : last ≠ [])
    (reached : ∀ env : Environment, last ∉ env.listed →
      runs grammar env (line words last) = [words ++ [last]]) : Literal last := by
  have bare : Bare last := bare_of_quiet grammar sparse_quiet nonempty literal given
    (reached _ (List.not_mem_nil))
  have alone : ∀ env : Environment, last ∉ env.listed → wordArguments env (last.map .literal) = [last] := by
    intro env unlisted
    have whole := reached env unlisted
    rw [runs_bare grammar env nonempty literal bare] at whole
    exact List.append_cancel_left (List.singleton_inj.mp whole)
  have tilde : last.head? ≠ some 126 := by
    intro tilded
    obtain ⟨text, rfl⟩ := List.head?_eq_some_iff.mp tilded
    exact tilde_differs text (alone (sparse (some [47]) []) List.not_mem_nil)
  refine ⟨bare, tilde, ?_⟩
  by_contra special
  have differs : sample (unquoted last) ≠ last := fun same =>
    special (sample_differs _ (same.trans (unquoted_bytes last).symm))
  have matched : (unquoted last).any Element.isSpecial = true := by
    by_contra plain
    rw [Bool.not_eq_true, List.any_eq_false] at plain
    exact special fun element member => Bool.not_eq_true _ ▸ plain element member
  have unlisted : last ∉ (sparse none [sample (unquoted last)]).listed :=
    fun member => differs (List.mem_singleton.mp member).symm
  obtain ⟨marked, own⟩ :=
    wordArguments_bare (sparse none [sample (unquoted last)]) bare.nonempty tilde
  rw [alone _ unlisted] at own
  have replaced : [last] = [sample (unquoted last)] := own.trans (pathnames_sample none marked matched)
  exact differs (List.singleton_inj.mp replaced).symm

end CommandLine
