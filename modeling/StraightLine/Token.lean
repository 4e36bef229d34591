namespace StraightLine

inductive Token.Kind where
  | int | ret | assign | plus | minus | star | lparen | rparen | semicolon | ident | intConst | eof
  deriving DecidableEq

structure Token where
  kind : Token.Kind
  text : String
  deriving DecidableEq

namespace Token

-- The order in which kinds are listed to the user.
def Kind.all : List Kind :=
  [.int, .ret, .assign, .plus, .minus, .star, .lparen, .rparen, .semicolon, .ident, .intConst, .eof]

def Kind.name : Kind → String
  | .int => "int"
  | .ret => "return"
  | .assign => "="
  | .plus => "+"
  | .minus => "-"
  | .star => "*"
  | .lparen => "("
  | .rparen => ")"
  | .semicolon => "Semicolon"
  | .ident => "id"
  | .intConst => "IntConst"
  | .eof => "$"

-- The kind's name in the listing of parse events.
def Kind.label : Kind → String
  | .int => "Int"
  | .ret => "Return"
  | .assign => "Assign"
  | .plus => "Plus"
  | .minus => "Minus"
  | .star => "Star"
  | .lparen => "LParen"
  | .rparen => "RParen"
  | .semicolon => "Semicolon"
  | .ident => "Id"
  | .intConst => "IntConst"
  | .eof => "Eof"

def Kind.fixed : Kind → Bool
  | .ident | .intConst => false
  | _ => true

def Kind.lexeme : Kind → String
  | .semicolon => ";"
  | kind => kind.name

def Kind.ofName? (name : String) : Option Kind := Kind.all.find? fun kind => kind.name = name

def Kind.ofLexeme? (lexeme : String) : Option Kind :=
  Kind.all.find? fun kind => kind.fixed && decide (kind.lexeme = lexeme)

def ofKind (kind : Kind) : Token := ⟨kind, kind.lexeme⟩

def eof : Token := ofKind .eof

-- Fixed kinds leave the text empty.
def render (token : Token) : String :=
  if token.kind.fixed then "(" ++ token.kind.name ++ ",)"
  else "(" ++ token.kind.name ++ "," ++ token.text ++ ")"

theorem Kind.ofName?_name (kind : Kind) : Kind.ofName? kind.name = some kind := by
  cases kind <;> decide

end Token
end StraightLine
