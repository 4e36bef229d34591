import StraightLine.SymbolTable
import StraightLine.Text.Blank
import StraightLine.Text.Decimal
import StraightLine.Text.Lines
import StraightLine.Token

namespace StraightLine

structure ScanError where
  lexeme : String
  line : Nat
  deriving DecidableEq

def ScanError.message (error : ScanError) : String :=
  "unrecognized lexeme `" ++ error.lexeme ++ "` on line " ++ error.line.repr

structure Lexeme where
  text : String
  line : Nat
  deriving DecidableEq

namespace Lexeme

-- The open lexeme, last character first, as the list of the lexemes it closes to.
def close (current : List Char) : List String :=
  if current.isEmpty then [] else [String.ofList current.reverse]

def cut (current : List Char) : List Char → List String
  | [] => close current
  | c :: rest =>
    if c = ';' then close current ++ ";" :: cut [] rest
    else if Text.isBlank c then close current ++ cut [] rest
    else cut (c :: current) rest

-- Lines are numbered from 1.
def ofText (source : String) : List Lexeme :=
  (Text.lines source).zipIdx.flatMap fun (line, index) =>
    (cut [] line).map fun text => ⟨text, index + 1⟩

end Lexeme

namespace Token

def isIdentStart (c : Char) : Bool := c.isAlpha || c = '_'

def isIdentRest (c : Char) : Bool := c.isAlphanum || c = '_'

def isIdentifier : List Char → Bool
  | [] => false
  | c :: rest => isIdentStart c && rest.all isIdentRest

-- The end marker is no lexeme of a source text.
def ofLexeme? (lexeme : String) : Option Token :=
  match Kind.ofLexeme? lexeme with
  | some .eof => none
  | some kind => some (ofKind kind)
  | none =>
    if Text.isDigits lexeme.toList then some ⟨.intConst, lexeme⟩
    else if isIdentifier lexeme.toList then some ⟨.ident, lexeme⟩
    else none

def registerIn (token : Token) (symbols : SymbolTable) : SymbolTable :=
  if token.kind = .ident then symbols.register token.text else symbols

end Token

-- `tokens` are those in front of the failure, if there is one, and in front of the end marker otherwise.
structure Scan where
  tokens : List Token
  symbols : SymbolTable
  failure : Option ScanError

namespace Scan

-- Names go into the table as they are met, so after a failure it holds those in front of the failure.
def ofLexemes (symbols : SymbolTable) : List Lexeme → Scan
  | [] => ⟨[], symbols, none⟩
  | lexeme :: rest =>
    match Token.ofLexeme? lexeme.text with
    | none => ⟨[], symbols, some ⟨lexeme.text, lexeme.line⟩⟩
    | some token =>
      let after := ofLexemes (token.registerIn symbols) rest
      { after with tokens := token :: after.tokens }

def ofText (symbols : SymbolTable) (source : String) : Scan := ofLexemes symbols (Lexeme.ofText source)

def result (scan : Scan) : Except ScanError (List Token) :=
  match scan.failure with
  | some error => .error error
  | none => .ok (scan.tokens ++ [Token.eof])

end Scan
end StraightLine
