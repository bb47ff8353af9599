import Mathlib.Algebra.BigOperators.Group.List.Basic

/-
This library contains how a POSIX shell cuts the text of a command into words. Where the text of an
expansion ends is a parameter, since the end of a command substitution depends on the whole grammar.
-/

namespace CommandLine

abbrev Text := List UInt8

/-- An unquoted byte has one of these roles. A newline controls the command as `;` does. -/
inductive Role where
  | blank
  | control
  | redirection
  | backslash
  | singleQuote
  | doubleQuote
  | expansion
  | hash
  | ordinary
  deriving DecidableEq

def roleOf (c : UInt8) : Role :=
  if c = 32 ∨ c = 9 then .blank
  -- newline, `&`, `(`, `)`, `;` and `|`
  else if c = 10 ∨ c = 38 ∨ c = 40 ∨ c = 41 ∨ c = 59 ∨ c = 124 then .control
  -- `<` and `>`
  else if c = 60 ∨ c = 62 then .redirection
  else if c = 92 then .backslash
  else if c = 39 then .singleQuote
  else if c = 34 then .doubleQuote
  -- `$` and the backquote
  else if c = 36 ∨ c = 96 then .expansion
  else if c = 35 then .hash
  else .ordinary

/-- Reading turns the text into these pieces. A quoting mark leaves a piece of its own, since it
makes a word of nothing. -/
inductive Piece where
  | literal (c : UInt8)
  | quoted (c : UInt8)
  | quote
  | expansion (text : Text) (inQuotes : Bool)
  | gap
  | redirection
  deriving DecidableEq

/-- A backslash and an expansion return to where they stand. -/
inductive Context where
  | start
  | word
  | double
  deriving DecidableEq

inductive Mode where
  | start
  | word
  | double
  | single
  | comment
  | escape (back : Context)
  | redirecting (operator : Text)
  | skipping (count : Nat) (back : Context)
  deriving DecidableEq

def Context.mode : Context → Mode
  | .start => .start
  | .word => .word
  | .double => .double

/-- One byte leaves some pieces and the next mode, ends the command, or makes it invalid. -/
inductive Step where
  | stop
  | fail
  | next (pieces : List Piece) (mode : Mode)

/-- After its first byte an expansion takes `count` more. -/
def skip (count : Nat) (back : Context) : Mode :=
  match count with
  | 0 => back.mode
  | count + 1 => .skipping count back

section
variable (extent : Text → Option Nat)

/-- An expansion without an end makes the command invalid. -/
def expansionStep (back : Context) (c : UInt8) (rest : Text) : Step :=
  match extent (c :: rest) with
  | none => .fail
  | some count =>
      .next [.expansion ((c :: rest).take (count + 1)) (back = .double)] (skip count back)

/-- Outside of quotes, a `#` begins a comment where no word has begun. -/
def bareStep (context : Context) (c : UInt8) (rest : Text) : Step :=
  match roleOf c with
  | .blank => .next [.gap] .start
  | .control => .stop
  | .redirection => .next [.redirection] (.redirecting [c])
  | .backslash => .next [] (.escape context)
  | .singleQuote => .next [.quote] .single
  | .doubleQuote => .next [.quote] .double
  | .expansion => expansionStep extent .word c rest
  | .hash => if context = .start then .next [] .comment else .next [.literal c] .word
  | .ordinary => .next [.literal c] .word

/-- Between double quotes, expansions and backslashes keep a meaning. -/
def doubleStep (c : UInt8) (rest : Text) : Step :=
  match roleOf c with
  | .doubleQuote => .next [] .word
  | .backslash => .next [] (.escape .double)
  | .expansion => expansionStep extent .double c rest
  | _ => .next [.quoted c] .double

/-- A backslash quotes the next byte and joins two lines. Between double quotes it stands for itself
where the next byte has no meaning there. -/
def escapeStep (back : Context) (c : UInt8) : Step :=
  if c = 10 then .next [] back.mode
  else if back = .double then
    match roleOf c with
    | .backslash | .doubleQuote | .expansion => .next [.quoted c] .double
    | _ => .next [.quoted 92, .quoted c] .double
  else .next [.quoted c] .word

/-- The operators are `<<`, `<&`, `<>`, `<<-`, `>>`, `>&` and `>|` beside the two single bytes. -/
def continues (operator : Text) (c : UInt8) : Bool :=
  operator ++ [c] ∈
    ([[60, 60], [60, 38], [60, 62], [60, 60, 45], [62, 62], [62, 38], [62, 124]] : List Text)

def step (mode : Mode) (c : UInt8) (rest : Text) : Step :=
  match mode with
  | .start => bareStep extent .start c rest
  | .word => bareStep extent .word c rest
  | .double => doubleStep extent c rest
  | .single => if roleOf c = .singleQuote then .next [] .word else .next [.quoted c] .single
  | .comment => if c = 10 then .stop else .next [] .comment
  | .escape back => escapeStep back c
  | .redirecting operator =>
      if continues operator c then .next [] (.redirecting (operator ++ [c]))
      else bareStep extent .start c rest
  | .skipping count back => .next [] (skip count back)

/-- At the end of the text no quotation and no expansion may be open. What a last backslash stands
for is not specified, as with an expansion. -/
def finish : Mode → Option (List Piece)
  | .start | .word | .comment | .redirecting _ => some []
  | .escape .double => none
  | .escape _ => some [.expansion [92] false]
  | .double | .single | .skipping _ _ => none

/-- Reading returns the pieces of the first command and the text that it leaves. -/
def read (mode : Mode) : Text → Option (List Piece × Text)
  | [] => (finish mode).map fun pieces => (pieces, [])
  | c :: rest =>
      match step extent mode c rest with
      | .stop => some ([], c :: rest)
      | .fail => none
      | .next pieces mode =>
          (read mode rest).map fun result => (pieces ++ result.1, result.2)

end

/-- Adjacent pieces form one word. -/
inductive Token where
  | word (pieces : List Piece)
  | gap
  | redirection
  deriving DecidableEq

def addPiece (piece : Piece) (tokens : List Token) : List Token :=
  match piece, tokens with
  | .gap, tokens => .gap :: tokens
  | .redirection, tokens => .redirection :: tokens
  | piece, .word pieces :: tokens => .word (piece :: pieces) :: tokens
  | piece, tokens => .word [piece] :: tokens

def tokensOf (pieces : List Piece) : List Token := pieces.foldr addPiece []

/-- A number of unquoted digits in front of a redirection belongs to it. -/
def Piece.isDigit : Piece → Bool
  | .literal c => 48 ≤ c && c ≤ 57
  | _ => false

/-- The words of a command leave out what its redirections take. A redirection without a target makes
the command invalid. -/
def wordsOf (redirects : Bool) : List Token → Option (List (List Piece))
  | [] => if redirects then none else some []
  | .gap :: tokens => wordsOf redirects tokens
  | .redirection :: tokens => if redirects then none else wordsOf true tokens
  | .word pieces :: tokens =>
      if redirects then wordsOf false tokens
      else if tokens.head? = some .redirection && pieces.all Piece.isDigit then wordsOf false tokens
      else (wordsOf false tokens).map (pieces :: ·)

end CommandLine
