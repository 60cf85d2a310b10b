/-!
The first stage of the source parser: tokens of PHP source. Blanks and comments are no tokens, and
what only matters as "some value" (variables, numbers, raw here-documents) is one token, since
nothing later looks inside it. Texts with interpolation come as a pair of brackets around their
parts, so that the code inside is read like any other. Left out are places in the source, and
whether its numbers and names are well formed.
-/
namespace HandlerIndex.Php

inductive Bracket where
  | paren
  | square
  | brace
  /-- `#[` up to `]` -/
  | attribute
  /-- code inside a text -/
  | interpolation
  /-- a text between double quotes -/
  | quoted
  /-- a command between back quotes -/
  | shell
  | heredoc
  deriving DecidableEq, Repr

inductive Token where
  /-- a name, qualified or not, or a keyword -/
  | word (text : String)
  /-- a value without parts of interest -/
  | operand
  | symbol (text : String)
  /-- the body of a text between single quotes, as written -/
  | literal (body : List Char)
  /-- a plain piece of a text with interpolation, as written -/
  | text (body : List Char)
  | opening (bracket : Bracket)
  | closing (bracket : Bracket)
  /-- the markup between two pieces of code -/
  | markup
  deriving DecidableEq, Repr

inductive Mode where
  | code (braces : Nat)
  | quoted
  | shell
  | heredoc (label : List Char) (atLineStart : Bool)
  deriving DecidableEq, Repr

structure Step where
  tokens : List Token
  modes : List Mode
  rest : List Char

section Characters

-- The four characters beyond ASCII are the no-break space, the zero width space, the word joiner
-- and the byte order mark.
def isSpace (c : Char) : Bool :=
  c == ' ' || (0x09 ≤ c.toNat && c.toNat ≤ 0x0D) ||
    [0xA0, 0x200B, 0x2060, 0xFEFF].contains c.toNat

-- Every character beyond ASCII may stand in a name, those that count as space apart.
def isNameStart (c : Char) : Bool :=
  c.isAlpha || c == '_' || (0x80 ≤ c.toNat && !isSpace c)

def isNameChar (c : Char) : Bool := isNameStart c || c.isDigit

end Characters

section Skipping

def dropTagName : List Char → List Char
  | '=' :: rest => rest
  | p :: h :: q :: rest =>
    if [p, h, q].map Char.toLower = ['p', 'h', 'p'] then rest else p :: h :: q :: rest
  | rest => rest

def skipMarkup : List Char → List Char
  | '<' :: '?' :: rest => dropTagName rest
  | _ :: rest => skipMarkup rest
  | [] => []

def skipLine : List Char → List Char
  | '?' :: '>' :: rest => '?' :: '>' :: rest
  | c :: rest => if c = '\n' ∨ c = '\r' then rest else skipLine rest
  | [] => []

def skipBlock : List Char → List Char
  | '*' :: '/' :: rest => rest
  | _ :: rest => skipBlock rest
  | [] => []

end Skipping

section Literals

def readLiteral : List Char → List Char → Option (List Char × List Char)
  | body, '\\' :: c :: rest => readLiteral (c :: '\\' :: body) rest
  | body, '\'' :: rest => some (body.reverse, rest)
  | body, c :: rest => readLiteral (c :: body) rest
  | _, [] => none

def closeHeredoc (label line : List Char) : Option (List Char) :=
  let line := line.dropWhile fun c => c == ' ' || c == '\t'
  if label.isPrefixOf line then
    match line.drop label.length with
    | [] => some []
    | c :: rest => if isNameChar c then none else some (c :: rest)
  else none

def skipNowdoc (label : List Char) : Bool → List Char → List Char
  | atLineStart, c :: rest =>
    match (if atLineStart then closeHeredoc label (c :: rest) else none) with
    | some after => after
    | none => skipNowdoc label (c == '\n') rest
  | _, [] => []

def heredocLabel? (cs : List Char) : Option (List Char × Bool × List Char) := do
  let cs := cs.dropWhile fun c => c == ' ' || c == '\t'
  let (quote, cs) := match cs with
    | '\'' :: rest => (some '\'', rest)
    | '"' :: rest => (some '"', rest)
    | rest => (none, rest)
  let (label, cs) := cs.span isNameChar
  if !(label.head?.any isNameStart) then none
  let cs ← match quote with
    | some q => if cs.head? = some q then some cs.tail else none
    | none => some cs
  match cs with
  | '\n' :: rest => some (label, quote == some '\'', rest)
  | '\r' :: '\n' :: rest => some (label, quote == some '\'', rest)
  | _ => none

end Literals

section Symbols

def longSymbols : List (List Char) :=
  ["?->", "...", "===", "!==", "<=>", "**=", "<<=", ">>=", "??=", "=>", "->", "::", "==",
    "!=", "<>", "<=", ">=", "++", "--", "+=", "-=", "*=", "/=", ".=", "%=", "&=", "|=", "^=", "&&",
    "||", "??", "<<", ">>", "**"].map String.toList

def readSymbol (cs : List Char) : List Char × List Char :=
  match longSymbols.find? (·.isPrefixOf cs) with
  | some symbol => (symbol, cs.drop symbol.length)
  | none => (cs.take 1, cs.drop 1)

end Symbols

section Steps

def skipNumber (cs : List Char) : List Char :=
  let digits := fun c : Char => c.isAlphanum || c == '_'
  match cs.dropWhile digits with
  | '.' :: c :: rest => if c.isDigit then rest.dropWhile digits else '.' :: c :: rest
  | rest => rest

def openText? (modes : List Mode) : List Char → Option Step
  | '\'' :: rest =>
    match readLiteral [] rest with
    | some (body, rest) => some ⟨[.literal body], modes, rest⟩
    | none => some ⟨[.operand], modes, []⟩
  | '"' :: rest => some ⟨[.opening .quoted], .quoted :: modes, rest⟩
  | '<' :: '<' :: '<' :: rest =>
    match heredocLabel? rest with
    | some (label, true, rest) => some ⟨[.operand], modes, skipNowdoc label true rest⟩
    | some (label, false, rest) => some ⟨[.opening .heredoc], .heredoc label true :: modes, rest⟩
    | none => none
  | _ => none

/-- One step in code. The closing brace that no opening one answers ends an interpolation. -/
def codeStep (braces : Nat) (outer : List Mode) (cs : List Char) : Step :=
  let modes := Mode.code braces :: outer
  match cs with
  | [] => ⟨[], modes, []⟩
  | '?' :: '>' :: rest => ⟨[.markup], modes, skipMarkup rest⟩
  | '/' :: '/' :: rest => ⟨[], modes, skipLine rest⟩
  | '/' :: '*' :: rest => ⟨[], modes, skipBlock rest⟩
  | '#' :: '[' :: rest => ⟨[.opening .attribute], modes, rest⟩
  | '#' :: rest => ⟨[], modes, skipLine rest⟩
  | '\x60' :: rest => ⟨[.opening .shell], .shell :: modes, rest⟩
  | '(' :: rest => ⟨[.opening .paren], modes, rest⟩
  | ')' :: rest => ⟨[.closing .paren], modes, rest⟩
  | '[' :: rest => ⟨[.opening .square], modes, rest⟩
  | ']' :: rest => ⟨[.closing .square], modes, rest⟩
  | '{' :: rest => ⟨[.opening .brace], .code (braces + 1) :: outer, rest⟩
  | '}' :: rest =>
    match braces, outer with
    | 0, _ :: _ => ⟨[.closing .interpolation], outer, rest⟩
    | _, _ => ⟨[.closing .brace], .code (braces - 1) :: outer, rest⟩
  | c :: rest =>
    if isSpace c then ⟨[], modes, rest.dropWhile isSpace⟩
    else
      let text := if c = 'b' ∨ c = 'B' then (openText? modes rest) <|> openText? modes cs
        else openText? modes cs
      match text with
      | some step => step
      | none =>
        if c = '$' ∧ rest.head?.any isNameStart then ⟨[.operand], modes, rest.dropWhile isNameChar⟩
        else if isNameStart c ∨ (c = '\\' ∧ rest.head?.any isNameStart) then
          let (word, rest) := cs.span fun c => isNameChar c || c == '\\'
          ⟨[.word (String.ofList word)], modes, rest⟩
        else if c.isDigit ∨ (c = '.' ∧ rest.head?.any Char.isDigit) then
          ⟨[.operand], modes, skipNumber rest⟩
        else
          let (symbol, rest) := readSymbol cs
          ⟨[.symbol (String.ofList symbol)], modes, rest⟩

/-- One step inside a text with interpolation. `closer` is the character that ends it, if one does,
and `same` is the text's own mode, for a step that does or does not end a line. -/
def textStep (closer : Option Char) (bracket : Bracket) (outer : List Mode) (same : Bool → Mode)
    (cs : List Char) : Step :=
  match cs with
  | '\\' :: c :: rest => ⟨[.text ['\\', c]], same false :: outer, rest⟩
  | '{' :: '$' :: rest => ⟨[.opening .interpolation], .code 0 :: same false :: outer, '$' :: rest⟩
  | '$' :: '{' :: rest => ⟨[.opening .interpolation], .code 0 :: same false :: outer, rest⟩
  | c :: rest =>
    if closer = some c then ⟨[.closing bracket], outer, rest⟩
    else if c = '$' ∧ rest.head?.any isNameStart then
      ⟨[.operand], same false :: outer, rest.dropWhile isNameChar⟩
    else if c = '\n' then ⟨[.text [c]], same true :: outer, rest⟩
    else
      let plain := fun c : Char =>
        c != '\\' && c != '$' && c != '{' && c != '\n' && some c != closer
      let (more, rest) := rest.span plain
      ⟨[.text (c :: more)], same false :: outer, rest⟩
  | [] => ⟨[], same false :: outer, []⟩

def lexStep (modes : List Mode) (cs : List Char) : Step :=
  match modes with
  | [] => ⟨[], [], []⟩
  | .code braces :: outer => codeStep braces outer cs
  | .quoted :: outer => textStep (some '"') .quoted outer (fun _ => .quoted) cs
  | .shell :: outer => textStep (some '\x60') .shell outer (fun _ => .shell) cs
  | .heredoc label atLineStart :: outer =>
    match (if atLineStart then closeHeredoc label cs else none) with
    | some rest => ⟨[.closing .heredoc], outer, rest⟩
    | none => textStep none .heredoc outer (Mode.heredoc label) cs

/-- Steps until the source is used up. Every step takes at least one character, so its length is
enough. -/
def lex : Nat → List Mode → List Char → List Token → List Token
  | 0, _, _, tokens => tokens.reverse
  | _ + 1, _, [], tokens => tokens.reverse
  | fuel + 1, modes, cs, tokens =>
    let step := lexStep modes cs
    lex fuel step.modes step.rest (step.tokens.reverse ++ tokens)

end Steps

def tokenize (source : List Char) : List Token :=
  lex source.length [.code 0] (skipMarkup source) []

end HandlerIndex.Php
