import DbBench.Library.ShellExpansion

/-
This library says which argument a shell takes literally when it stands unquoted at the end of a
command.
-/

namespace CommandLine

/-- Reading leaves the bytes of the text as they are. -/
structure Bare (text : Text) : Prop where
  nonempty : text ≠ []
  plain : ∀ c ∈ text, roleOf c = .ordinary ∨ roleOf c = .hash
  first : text.head? ≠ some 35

/-- The elements of an unquoted text. -/
def unquoted (text : Text) : List Element := elementsOf 0 (text.map fun c => (c, false))

/-- Neither reading nor an environment changes the text. -/
structure Literal (text : Text) : Prop where
  bare : Bare text
  tilde : text.head? ≠ some 126
  names : ∀ element ∈ unquoted text, element.isSpecial = false

instance (text : Text) : Decidable (Bare text) :=
  decidable_of_iff (text ≠ [] ∧
      text.all (fun c => roleOf c = .ordinary || roleOf c = .hash) ∧ text.head? ≠ some 35)
    ⟨fun ⟨nonempty, plain, first⟩ => ⟨nonempty, by simpa using plain, first⟩,
      fun ⟨nonempty, plain, first⟩ => ⟨nonempty, by simpa using plain, first⟩⟩

instance (text : Text) : Decidable (Literal text) :=
  decidable_of_iff (Bare text ∧ text.head? ≠ some 126 ∧
      (unquoted text).all fun element => !element.isSpecial)
    ⟨fun ⟨bare, tilde, names⟩ => ⟨bare, tilde, by simpa using names⟩,
      fun ⟨bare, tilde, names⟩ => ⟨bare, tilde, by simpa using names⟩⟩

/-- The last argument stands unquoted behind some words. -/
def line (words : List Text) (last : Text) : Text := words.flatMap (· ++ [32]) ++ last

theorem eq_of_hash {c : UInt8} (hash : roleOf c = .hash) : c = 35 := by
  unfold roleOf at hash
  split_ifs at hash
  assumption

section
variable (extent : Text → Option Nat)

/-- Within a word, plain bytes are read as themselves. -/
theorem read_word {text : Text} (plain : ∀ c ∈ text, roleOf c = .ordinary ∨ roleOf c = .hash)
    (rest : Text) : read extent .word (text ++ rest) =
      (read extent .word rest).map fun result => (text.map .literal ++ result.1, result.2) := by
  induction text with
  | nil => simp
  | cons c text ih =>
      have here : step extent .word c (text ++ rest) = .next [.literal c] .word := by
        rcases plain c List.mem_cons_self with ordinary | hash
        · simp [step, bareStep, ordinary]
        · simp [step, bareStep, hash]
      rw [List.cons_append, read, here]
      simp only [ih fun b member => plain b (List.mem_cons_of_mem c member), Option.map_map]
      rfl

/-- A bare text begins a word with all of its bytes. -/
theorem read_bare {text : Text} (bare : Bare text) (rest : Text) :
    read extent .start (text ++ rest) =
      (read extent .word rest).map fun result => (text.map .literal ++ result.1, result.2) := by
  obtain ⟨nonempty, plain, first⟩ := bare
  cases text with
  | nil => exact absurd rfl nonempty
  | cons c text =>
      have here : step extent .start c (text ++ rest) = .next [.literal c] .word := by
        rcases plain c List.mem_cons_self with ordinary | hash
        · simp [step, bareStep, ordinary]
        · exact absurd (congrArg some (eq_of_hash hash)) first
      rw [List.cons_append, read, here]
      simp only [read_word extent fun b member => plain b (List.mem_cons_of_mem c member),
        Option.map_map]
      rfl

/-- A word of the line and the gap behind it. -/
def wordPieces (word : Text) : List Piece := word.map .literal ++ [.gap]

/-- Reading the line reads its bare words and goes on with the last argument. -/
theorem read_line {words : List Text} (bare : ∀ word ∈ words, Bare word) (last : Text) :
    read extent .start (line words last) = (read extent .start last).map fun result =>
      (words.flatMap wordPieces ++ result.1, result.2) := by
  induction words with
  | nil => simp [line]
  | cons word words ih =>
      have blank : read extent .word (32 :: line words last) =
          (read extent .start (line words last)).map fun result => (.gap :: result.1, result.2) := by
        rw [read]
        rfl
      have split : line (word :: words) last = word ++ 32 :: line words last := by
        simp [line]
      rw [split, read_bare extent (bare word List.mem_cons_self), blank,
        ih fun other member => bare other (List.mem_cons_of_mem word member)]
      simp only [Option.map_map]
      congr 1
      funext result
      simp [wordPieces]

end

/-- The pieces of one word form one token, if no further piece adjoins them. -/
theorem tokensOf_word {word : Text} (nonempty : word ≠ []) (pieces : List Piece)
    (apart : ∀ inner tokens, tokensOf pieces ≠ .word inner :: tokens) :
    tokensOf (word.map .literal ++ pieces) = .word (word.map .literal) :: tokensOf pieces := by
  induction word with
  | nil => exact absurd rfl nonempty
  | cons c word ih =>
      have more : tokensOf ((c :: word).map .literal ++ pieces) =
          addPiece (.literal c) (tokensOf (word.map .literal ++ pieces)) := rfl
      rw [more]
      cases word with
      | nil =>
          cases tokens : tokensOf pieces with
          | nil => simp [tokens, addPiece]
          | cons token tokens' =>
              cases token with
              | word inner => exact absurd tokens (apart inner tokens')
              | gap => simp [tokens, addPiece]
              | redirection => simp [tokens, addPiece]
      | cons b word =>
          rw [ih (List.cons_ne_nil b word)]
          rfl

/-- The words of the line come before the words of what follows. -/
theorem wordsOf_line {words : List Text} (bare : ∀ word ∈ words, Bare word)
    (pieces : List Piece) :
    wordsOf false (tokensOf (words.flatMap wordPieces ++ pieces)) =
      (wordsOf false (tokensOf pieces)).map fun others => words.map (·.map .literal) ++ others := by
  induction words with
  | nil => simp
  | cons word words ih =>
      have later := ih fun other member => bare other (List.mem_cons_of_mem word member)
      have split : (word :: words).flatMap wordPieces ++ pieces =
          word.map .literal ++ .gap :: (words.flatMap wordPieces ++ pieces) := by
        simp [wordPieces]
      have gap : tokensOf (.gap :: (words.flatMap wordPieces ++ pieces)) =
          .gap :: tokensOf (words.flatMap wordPieces ++ pieces) := rfl
      have first := tokensOf_word (bare word List.mem_cons_self).nonempty
        (.gap :: (words.flatMap wordPieces ++ pieces)) (fun _ _ => nofun)
      rw [split, first, gap]
      simp only [wordsOf, later, Option.map_map, List.head?_cons]
      rw [if_neg Bool.false_ne_true, if_neg (by simp)]
      rfl

/-- A piece that is no expansion stands for these bytes. -/
def Piece.chars : Piece → Option Pattern
  | .literal c => some [(c, false)]
  | .quoted c => some [(c, true)]
  | .quote => some []
  | _ => none

theorem chars_literal (word : Text) : ∀ piece ∈ word.map Piece.literal, piece.chars ≠ none := by
  intro piece member
  obtain ⟨c, _, rfl⟩ := List.mem_map.mp member
  exact nofun

/-- A word without expansions is one field. -/
theorem fieldsOf_single (env : Environment) {word : List Piece} (nonempty : word ≠ [])
    (single : ∀ piece ∈ word, piece.chars ≠ none) :
    ∃ marked, fieldsOf env word = [⟨word.flatMap fun piece => piece.chars.getD [], marked⟩] := by
  induction word with
  | nil => exact absurd rfl nonempty
  | cons piece word ih =>
      obtain ⟨own, here⟩ : ∃ own, piece.fields env = [⟨piece.chars.getD [], own⟩] := by
        have one := single piece List.mem_cons_self
        cases piece with
        | literal c | quoted c | quote => exact ⟨_, rfl⟩
        | expansion text inQuotes | gap | redirection => exact absurd rfl one
      have more : fieldsOf env (piece :: word) = joinFields (piece.fields env) (fieldsOf env word) :=
        rfl
      cases word with
      | nil =>
          refine ⟨own, ?_⟩
          rw [more, here]
          simp [fieldsOf, joinFields]
      | cons next word =>
          obtain ⟨marked, later⟩ := ih (List.cons_ne_nil next word)
            fun other member => single other (List.mem_cons_of_mem piece member)
          refine ⟨own || marked, ?_⟩
          rw [more, here, later]
          simp [joinFields, Field.append]

/-- A word that does not begin with a tilde has no login name. -/
theorem tilde_bare (env : Environment) {word : Text} (first : word.head? ≠ some 126) :
    tilde env (word.map .literal) = word.map .literal := by
  cases word with
  | nil => rfl
  | cons c word =>
      have other : c ≠ 126 := fun equal => first (congrArg some equal)
      simp [tilde, other]

/-- A bare word that does not begin with a tilde is one field of its own bytes. -/
theorem wordArguments_bare (env : Environment) {word : Text} (nonempty : word ≠ [])
    (first : word.head? ≠ some 126) :
    ∃ marked, wordArguments env (word.map .literal) =
      pathnames env ⟨word.map fun c => (c, false), marked⟩ := by
  obtain ⟨marked, one⟩ := fieldsOf_single env (mt List.map_eq_nil_iff.mp nonempty)
    (chars_literal word)
  refine ⟨marked, ?_⟩
  have chars : (word.map Piece.literal).flatMap (fun piece => piece.chars.getD []) =
      word.map fun c => (c, false) := by
    rw [List.flatMap_map, List.map_eq_flatMap]
    rfl
  rw [wordArguments, tilde_bare env first, one, chars]
  simp [Field.isKept, nonempty]

theorem unquoted_bytes (text : Text) : (text.map fun c => (c, false)).map Prod.fst = text := by
  rw [List.map_map]
  exact List.map_id text

/-- The argument of a literal word is the word itself. -/
theorem Literal.arguments {word : Text} (literal : Literal word) (env : Environment) :
    wordArguments env (word.map .literal) = [word] := by
  obtain ⟨marked, own⟩ := wordArguments_bare env literal.bare.nonempty literal.tilde
  have plain : (elementsOf 0 (word.map fun c => (c, false))).any Element.isSpecial = false := by
    rw [List.any_eq_false]
    intro element member
    rw [literal.names element member]
    exact Bool.false_ne_true
  rw [own, pathnames, plain, unquoted_bytes]
  rfl

/-- Literal words go before the arguments that the shell makes of the rest of the line. -/
theorem runs_line (grammar : Grammar) (env : Environment) {words : List Text}
    (literal : ∀ word ∈ words, Literal word) (last : Text) :
    runs grammar env (line words last) = runsBehind grammar env words last := by
  have own : (words.map (·.map .literal)).flatMap (wordArguments env) = words := by
    induction words with
    | nil => rfl
    | cons word words ih =>
        rw [List.map_cons, List.flatMap_cons, (literal word List.mem_cons_self).arguments env,
          ih fun other member => literal other (List.mem_cons_of_mem word member)]
        rfl
  rw [runs, runsBehind, runsBehind,
    read_line grammar.extent fun word member => (literal word member).bare]
  cases read grammar.extent .start last with
  | none => rfl
  | some result =>
      simp only [Option.map_some, wordsOf_line fun word member => (literal word member).bare]
      cases wordsOf false (tokensOf result.1) with
      | none => rfl
      | some others =>
          simp only [Option.map_some, List.flatMap_append, own, List.nil_append]

/-- The shell goes on with one word when it reads a bare argument. -/
theorem runs_bare (grammar : Grammar) (env : Environment) {words : List Text} (nonempty : words ≠ [])
    (literal : ∀ word ∈ words, Literal word) {last : Text} (bare : Bare last) :
    runs grammar env (line words last) = [words ++ wordArguments env (last.map .literal)] := by
  have pieces : read grammar.extent .start last = some (last.map .literal, []) := by
    have whole := read_bare grammar.extent bare []
    rwa [List.append_nil, read, finish, Option.map_some, Option.map_some, List.append_nil] at whole
  have token : wordsOf false (tokensOf (last.map .literal)) = some [last.map .literal] := by
    have one := tokensOf_word bare.nonempty [] (fun _ _ => nofun)
    rw [List.append_nil] at one
    rw [one]
    rfl
  rw [runs_line grammar env literal, runsBehind, pieces]
  simp [token, invocation, nonempty]

/-- A literal argument reaches the program as it is, in every environment. -/
theorem runs_literal (grammar : Grammar) (env : Environment) {words : List Text} (nonempty : words ≠ [])
    (literal : ∀ word ∈ words, Literal word) {last : Text} (taken : Literal last) :
    runs grammar env (line words last) = [words ++ [last]] := by
  rw [runs_bare grammar env nonempty literal taken.bare, taken.arguments env]

/-- In a sparse environment expansions have no value, every login name has the same home directory,
and a bracket expression stands for every byte. -/
def sparse (home : Option Text) (listed : List Text) : Environment where
  value _ _ := []
  home _ := home
  listed := listed
  collates _ _ := true

/-- Where no pathname can be found, a field stands for itself. -/
theorem pathnames_unlisted {env : Environment} (unlisted : env.listed = []) (field : Field) :
    pathnames env field = [field.chars.map Prod.fst] := by
  simp [pathnames, unlisted]

/-- A login name ends within a text without quotation. -/
theorem loginOf_literal (text : Text) :
    ∃ login rest : Text, loginOf (text.map .literal) = some (login, rest.map .literal) := by
  induction text with
  | nil => exact ⟨[], [], rfl⟩
  | cons c text ih =>
      obtain ⟨login, rest, found⟩ := ih
      by_cases slash : c = 47
      · exact ⟨[], c :: text, by simp [loginOf, slash]⟩
      · exact ⟨c :: login, rest, by simp [loginOf, slash, found]⟩

/-- The home directory `/` replaces a tilde. -/
theorem tilde_differs (text : Text) :
    wordArguments (sparse (some [47]) []) ((126 :: text).map .literal) ≠ [126 :: text] := by
  obtain ⟨login, rest, found⟩ := loginOf_literal text
  have homed : tilde (sparse (some [47]) []) ((126 :: text).map .literal) =
      .quote :: .quoted 47 :: rest.map .literal := by
    simp only [List.map_cons, tilde, found, if_true]
    rfl
  have single : ∀ piece ∈ Piece.quote :: .quoted 47 :: rest.map .literal, piece.chars ≠ none :=
    List.forall_mem_cons.mpr ⟨nofun, List.forall_mem_cons.mpr ⟨nofun, chars_literal rest⟩⟩
  obtain ⟨marked, one⟩ := fieldsOf_single (sparse (some [47]) []) (List.cons_ne_nil _ _) single
  rw [wordArguments, homed, one, List.filter_cons_of_pos rfl, List.filter_nil, List.flatMap_cons,
    List.flatMap_nil, List.append_nil, pathnames_unlisted rfl]
  intro same
  have slash : (47 : UInt8) = 126 := (List.cons.inj (List.singleton_inj.mp same)).1
  exact absurd slash (by decide)

/-- One letter for each special element makes a pathname. -/
def sample : List Element → Text
  | [] => []
  | .char c :: elements => c :: sample elements
  | _ :: elements => 120 :: sample elements

/-- A star may leave everything. -/
theorem mem_starRests (text : Text) : text ∈ starRests text := by
  cases text <;> simp [starRests]

theorem fits_sample (home : Option Text) (listed : List Text) (starts : Bool)
    (elements : List Element) : fits (sparse home listed) starts elements (sample elements) := by
  induction elements generalizing starts with
  | nil => rfl
  | cons element elements ih =>
      cases element with
      | char c => simp [sample, fits, ih]
      | star =>
          have rest : sample elements ∈ starRests (120 :: sample elements) := by
            simp [starRests, mem_starRests]
          simp only [sample, fits, Bool.and_eq_true, List.any_eq_true]
          exact ⟨by simp, sample elements, rest, ih false⟩
      | any => simp [sample, fits, ih]
      | bracket content =>
          have collates : (sparse home listed).collates content 120 = true := rfl
          simp [sample, fits, collates, ih]

/-- A field with a special byte stands for its sample where nothing else can be found. -/
theorem pathnames_sample (home : Option Text) {chars : Pattern} (marked : Bool)
    (special : (elementsOf 0 chars).any Element.isSpecial = true) :
    pathnames (sparse home [sample (elementsOf 0 chars)]) ⟨chars, marked⟩ =
      [sample (elementsOf 0 chars)] := by
  have fit := fits_sample home [sample (elementsOf 0 chars)] true (elementsOf 0 chars)
  have found : (sparse home [sample (elementsOf 0 chars)]).listed.filter
      (fits (sparse home [sample (elementsOf 0 chars)]) true (elementsOf 0 chars)) =
        [sample (elementsOf 0 chars)] := by
    show [sample (elementsOf 0 chars)].filter _ = _
    rw [List.filter_cons_of_pos fit, List.filter_nil]
  rw [pathnames, found, special]
  rfl

/-- A special byte stands where the sample has a letter. -/
theorem sample_differs (chars : Pattern)
    (same : sample (elementsOf 0 chars) = chars.map Prod.fst) :
    ∀ element ∈ elementsOf 0 chars, element.isSpecial = false := by
  induction chars with
  | nil => nofun
  | cons char chars ih =>
      obtain ⟨c, quoted⟩ := char
      -- a char goes on, and a special byte is not the letter of the sample
      have goes : ∀ elements, elements = Element.char c :: elementsOf 0 chars →
          sample elements = c :: chars.map Prod.fst →
          ∀ element ∈ elements, element.isSpecial = false := by
        intro elements own same element member
        rw [own] at same member
        rcases List.mem_cons.mp member with rfl | later
        · rfl
        · exact ih (List.cons.inj same).2 element later
      rw [elementsOf] at same ⊢
      split_ifs at same ⊢ with own star any bracket
      · exact goes _ rfl same
      · have letter : (120 : UInt8) = c := (List.cons.inj same).1
        rw [star] at letter
        exact absurd letter (by decide)
      · have letter : (120 : UInt8) = c := (List.cons.inj same).1
        rw [any] at letter
        exact absurd letter (by decide)
      · cases length : bracketLength .first chars with
        | none =>
            simp only [length] at same ⊢
            exact goes _ rfl same
        | some length' =>
            simp only [length] at same
            have letter : (120 : UInt8) = c := (List.cons.inj same).1
            rw [bracket] at letter
            exact absurd letter (by decide)
      · exact goes _ rfl same

end CommandLine
