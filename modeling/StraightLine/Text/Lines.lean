namespace StraightLine.Text

-- `current` is the line so far, last character first.
def linesFrom (current : List Char) : List Char → List (List Char)
  | [] => if current.isEmpty then [] else [current.reverse]
  | c :: rest =>
    if c = '\n' then
      let line := match current with
        | '\r' :: before => before
        | whole => whole
      line.reverse :: linesFrom [] rest
    else linesFrom (c :: current) rest

-- One carriage return in front of a line feed is dropped with it.
def lines (text : String) : List (List Char) := linesFrom [] text.toList

def unlines (texts : List String) : String :=
  String.join (texts.map (· ++ "\n"))

def hang (margin text : String) : String :=
  ("\n" ++ margin).intercalate (text.splitOn "\n")

end StraightLine.Text
