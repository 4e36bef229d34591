namespace StraightLine.Text.Terminal

-- Where a reader stands: outside all sequences, or in one of those that an escape opens.
inductive Mode where
  | ground
  | escape
  | escapeIntermediate
  | control
  | deviceEntry
  | deviceParameters
  | deviceIntermediate
  | string
  | systemCommand
  deriving DecidableEq

def isSpacing (c : Char) : Bool := c = '\t' || c = '\n' || c = '\x0c' || c = '\r'

-- The end mark of strings is a single byte, here looked for in the bytes of a character.
def endsString (c : Char) : Bool := (String.utf8EncodeChar c).contains 0x9C

def isBetween (low high c : Char) : Bool := low ≤ c && c ≤ high

namespace Mode

-- The sequence that the character after an escape chooses.
def opened (c : Char) : Mode :=
  if c = '[' then .control
  else if c = ']' then .systemCommand
  else if c = 'P' then .deviceEntry
  else if c = 'X' || c = '^' || c = '_' then .string
  else if isBetween ' ' '/' c then .escapeIntermediate
  else if isBetween '0' '~' c then .ground
  else .escape

def next (mode : Mode) (c : Char) : Mode :=
  if c = '\x1b' then .escape
  else if c = '\x18' || c = '\x1a' then .ground
  else match mode with
    | .ground => .ground
    | .escape => opened c
    | .escapeIntermediate => if isBetween '0' '~' c then .ground else .escapeIntermediate
    | .control => if isBetween '@' '~' c then .ground else .control
    | .deviceEntry =>
      if isBetween ' ' '/' c then .deviceIntermediate
      else if isBetween '0' '?' c then .deviceParameters
      else if isBetween '@' '~' c then .string
      else .deviceEntry
    | .deviceParameters =>
      if isBetween ' ' '/' c then .deviceIntermediate
      else if isBetween '<' '~' c then .string
      else .deviceParameters
    | .deviceIntermediate => if isBetween '0' '~' c then .string else .deviceIntermediate
    | .string => if endsString c then .ground else .string
    | .systemCommand => if c = '\x07' then .ground else .systemCommand

-- Spacing shows inside a sequence too, but not inside one that carries text of its own.
def shows (mode : Mode) (c : Char) : Bool :=
  match mode with
  | .ground => isSpacing c || (' ' ≤ c && c ≠ '\x7f')
  | .escape | .escapeIntermediate | .control => isSpacing c
  | _ => false

end Mode

-- Spacing inside a sequence suspends it: text shows again up to a control character, and there the sequence goes on.
structure State where
  mode : Mode
  showing : Bool
  deriving DecidableEq

namespace State

def start : State := ⟨.ground, true⟩

def shows (state : State) (c : Char) : Bool :=
  if state.showing then Mode.ground.shows c else state.mode.shows c

-- A character outside ASCII ends a suspended sequence.
def next (state : State) (c : Char) : State :=
  if state.showing && Mode.ground.shows c then ⟨if '\x7f' < c then .ground else state.mode, true⟩
  else ⟨state.mode.next c, state.mode.shows c⟩

end State

def plainFrom (state : State) : List Char → List Char
  | [] => []
  | c :: rest =>
    if state.shows c then c :: plainFrom (state.next c) rest else plainFrom (state.next c) rest

def plain (text : String) : String := String.ofList (plainFrom .start text.toList)

end StraightLine.Text.Terminal
