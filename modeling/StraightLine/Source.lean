import StraightLine.Log
import StraightLine.ParseTree.Reader
import StraightLine.Token.Scan

namespace StraightLine

inductive SourceError where
  | scan (error : ScanError)
  | parse (error : ParseError)
  deriving DecidableEq

namespace SourceError

def parseMessage (detail : String) : String := "Parse error: " ++ detail

def message : SourceError → String
  | .scan error => "Lexical error: " ++ error.message
  | .parse error => parseMessage error.message

-- What lies behind the message, outermost first.
def causes : SourceError → List String
  | .scan error => [error.message]
  | .parse _ => []

end SourceError

def Scan.log (scan : Scan) : List Log.Entry := scan.tokens.map .scanned

structure Source where
  tokens : List Token
  symbols : SymbolTable
  tree : ParseTree

namespace Source

def analyse (text : String) : Logged SourceError Source := do
  let scan := Scan.ofText .empty text
  Logged.record scan.log
  let tokens ← Logged.ofExcept (scan.result.mapError .scan)
  Logged.record [.scannedAll tokens.length]
  let tree ← Logged.ofExcept ((ParseTree.ofTokens tokens).mapError .parse)
  let symbols := tree.declareIn scan.symbols
  Logged.record [.parsed tokens.length symbols.size]
  return ⟨tokens, symbols, tree⟩

end Source
end StraightLine
