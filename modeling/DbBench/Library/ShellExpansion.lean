import DbBench.Library.ShellWords

/-
This library contains what a POSIX shell makes of the words of a command: the tilde, the expansions
with their field splitting, and the pathnames that a field stands for.
-/

namespace CommandLine

/-- A byte of a field remembers whether it was quoted. -/
abbrev Pattern := List (UInt8 × Bool)

/-- An empty field stays only if a quoting mark stood in it. -/
structure Field where
  chars : Pattern
  marked : Bool
  deriving DecidableEq

/-- The environment gives each expansion its value, cut into fields, and a login name its home
directory. It lists the pathnames that can be found, and its locale says which bytes a bracket
expression stands for. -/
structure Environment where
  value : Text → Bool → List Field
  home : Text → Option Text
  listed : List Text
  collates : Pattern → UInt8 → Bool

/-- The login name behind a tilde goes up to a slash and contains no quotation. -/
def loginOf : List Piece → Option (Text × List Piece)
  | [] => some ([], [])
  | .literal c :: rest =>
      if c = 47 then some ([], .literal c :: rest)
      else (loginOf rest).map fun result => (c :: result.1, result.2)
  | _ :: _ => none

def tilde (env : Environment) (word : List Piece) : List Piece :=
  match word with
  | .literal c :: rest =>
      if c = 126 then
        match loginOf rest with
        | some (login, after) =>
            match env.home login with
            | some home => .quote :: home.map .quoted ++ after
            | none => word
        | none => word
      else word
  | _ => word

def Field.append (first second : Field) : Field :=
  ⟨first.chars ++ second.chars, first.marked || second.marked⟩

/-- The last field of one part goes on with the first field of the next. -/
def joinFields : List Field → List Field → List Field
  | [], second => second
  | [field], [] => [field]
  | [field], next :: second => field.append next :: second
  | field :: other :: first, second => field :: joinFields (other :: first) second

def Piece.fields (env : Environment) : Piece → List Field
  | .literal c => [⟨[(c, false)], false⟩]
  | .quoted c => [⟨[(c, true)], true⟩]
  | .quote => [⟨[], true⟩]
  | .expansion text inQuotes => env.value text inQuotes
  | .gap | .redirection => []

def fieldsOf (env : Environment) (word : List Piece) : List Field :=
  word.foldr (fun piece fields => joinFields (piece.fields env) fields) []

/-- The reading of a bracket expression: behind its bracket, behind the mark of a negation, in its
list, behind one more bracket, and in a class with its delimiter. -/
inductive Bracket where
  | first
  | negated
  | list
  | opening
  | named (delimiter : UInt8)
  | ending (delimiter : UInt8)
  deriving DecidableEq

def Bracket.closes (state : Bracket) (c : UInt8) (quoted : Bool) : Bool :=
  (state = .list || state = .opening) && c = 93 && !quoted

def Bracket.next (state : Bracket) (c : UInt8) (quoted : Bool) : Bracket :=
  match state with
  | .named delimiter => if c = delimiter then .ending delimiter else .named delimiter
  | .ending delimiter =>
      if c = 93 && !quoted then .list
      else if c = delimiter then .ending delimiter else .named delimiter
  | .opening =>
      -- `:`, `=` and `.` delimit classes
      if !quoted && (c = 58 || c = 61 || c = 46) then .named c
      else if c = 91 && !quoted then .opening else .list
  | state =>
      if c = 33 && !quoted && state = .first then .negated
      else if c = 91 && !quoted then .opening else .list

/-- The bracket expression has this many bytes before its closing bracket. It contains no slash. -/
def bracketLength (state : Bracket) : Pattern → Option Nat
  | [] => none
  | (c, quoted) :: rest =>
      if c = 47 then none
      else if state.closes c quoted then some 0
      else (bracketLength (state.next c quoted) rest).map (· + 1)

inductive Element where
  | char (c : UInt8)
  | star
  | any
  | bracket (content : Pattern)
  deriving DecidableEq

/-- An unquoted `*`, `?` or bracket expression is special. The number says how many bytes belong to
the last bracket expression still. -/
def elementsOf (skipped : Nat) : Pattern → List Element
  | [] => []
  | (c, quoted) :: rest =>
      match skipped with
      | skipped + 1 => elementsOf skipped rest
      | 0 =>
          if quoted then .char c :: elementsOf 0 rest
          else if c = 42 then .star :: elementsOf 0 rest
          else if c = 63 then .any :: elementsOf 0 rest
          else if c = 91 then
            match bracketLength .first rest with
            | some length => .bracket (rest.take length) :: elementsOf (length + 1) rest
            | none => .char c :: elementsOf 0 rest
          else .char c :: elementsOf 0 rest

def Element.isSpecial : Element → Bool
  | .char _ => false
  | _ => true

/-- The texts that a star leaves. -/
def starRests : Text → List Text
  | [] => [[]]
  | c :: rest => (c :: rest) :: if c = 47 then [] else starRests rest

/-- No special element stands for a slash, or for a dot where a name starts. -/
def fits (env : Environment) (starts : Bool) : List Element → Text → Bool
  | [], text => text.isEmpty
  | .char _ :: _, [] => false
  | .char c :: elements, b :: text => b = c && fits env (c = 47) elements text
  | .star :: elements, text =>
      !(starts && text.head? = some 46) &&
        (starRests text).any fun rest => fits env false elements rest
  | .any :: _, [] => false
  | .any :: elements, b :: text =>
      b ≠ 47 && !(starts && b = 46) && fits env false elements text
  | .bracket _ :: _, [] => false
  | .bracket content :: elements, b :: text =>
      b ≠ 47 && !(starts && b = 46) && env.collates content b && fits env false elements text

/-- A field with a special byte stands for the pathnames that it fits, or for itself where it fits
none. -/
def pathnames (env : Environment) (field : Field) : List Text :=
  let elements := elementsOf 0 field.chars
  let found := env.listed.filter (fits env true elements)
  if elements.any Element.isSpecial && !found.isEmpty then found else [field.chars.map Prod.fst]

def Field.isKept (field : Field) : Bool := !field.chars.isEmpty || field.marked

def wordArguments (env : Environment) (word : List Piece) : List Text :=
  ((fieldsOf env (tilde env word)).filter Field.isKept).flatMap (pathnames env)

/-- The grammar finds the end of an expansion, and it decides what the text behind the first command
runs, or that it is invalid. -/
structure Grammar where
  extent : Text → Option Nat
  later : Text → Environment → Option (List (List Text))

/-- A command without words runs no program. -/
def invocation (arguments : List Text) : List (List Text) :=
  if arguments.isEmpty then [] else [arguments]

/-- These programs run, each with its name and its arguments, when the given words stand before the
text. -/
def runsBehind (grammar : Grammar) (env : Environment) (words : List Text) (text : Text) :
    List (List Text) :=
  match read grammar.extent .start text with
  | none => []
  | some (pieces, left) =>
      match wordsOf false (tokensOf pieces) with
      | none => []
      | some others =>
          let first := invocation (words ++ others.flatMap (wordArguments env))
          if left.isEmpty then first
          else
            match grammar.later left env with
            | none => []
            | some more => first ++ more

/-- A shell that is given the text runs these programs. -/
def runs (grammar : Grammar) (env : Environment) (text : Text) : List (List Text) :=
  runsBehind grammar env [] text

/-- The options of a utility begin with `-`, and `--` ends them. The others name what it works on. -/
def operands : List Text → List Text
  | [] => []
  | argument :: rest =>
      if argument = [45, 45] then rest
      else if argument.head? = some 45 && argument ≠ [45] then operands rest
      else argument :: rest

end CommandLine
