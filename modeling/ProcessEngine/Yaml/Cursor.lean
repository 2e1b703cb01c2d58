/-!
# Places in a YAML text

A cursor is a place in a text: its line, its column, and what stands from
there on.  A line ends with a line feed, which stands for every common line
end once `withLineFeeds` has been applied, or with a line or paragraph
separator.  A byte order mark in front of a line takes up a column and means
nothing.
-/

namespace ProcessEngine.Yaml

/-- A space or a tab. -/
def isGap (c : Char) : Bool := c == ' ' || c == '\t'

/-- A line feed or a line or paragraph separator. -/
def isBreak (c : Char) : Bool := c == '\n' || c == '\u2028' || c == '\u2029'

/-- A gap or a line end. -/
def isSpacing (c : Char) : Bool := isGap c || isBreak c

/-- The text with every carriage return, also before a line feed, and every
next-line control as a line feed. -/
def withLineFeeds : List Char → List Char
  | '\r' :: '\n' :: rest => '\n' :: withLineFeeds rest
  | c :: rest => (if c = '\r' ∨ c = '\u0085' then '\n' else c) :: withLineFeeds rest
  | [] => []

/-- A character that may stand in a text. -/
def isAllowed (c : Char) : Bool :=
  let n := c.toNat
  n == 0x9 || n == 0xA || n == 0xD || (decide (0x20 ≤ n ∧ n ≤ 0x7E)) || n == 0x85 ||
    decide (0xA0 ≤ n ∧ n ≤ 0xFFFD) || decide (0x10000 ≤ n)

/-- Whether nothing or a spacing character stands at the front of a text. -/
def startsBlank : List Char → Bool
  | [] => true
  | c :: _ => isSpacing c

/-- Whether one of some characters stands at the front of a text. -/
def startsWith (cs : List Char) (found : List Char) : Bool := found.head?.any (cs.contains ·)

/-- A place in a text. -/
structure Cursor where
  line : Nat
  column : Nat
  /-- The octets of its line before it, in UTF-8. -/
  offset : Nat
  rest : List Char
deriving Repr, DecidableEq

namespace Cursor

/-- The start of a text. -/
def start (text : List Char) : Cursor := ⟨0, 0, 0, text⟩

/-- The place after a character. -/
def pass (here : Cursor) (c : Char) (rest : List Char) : Cursor :=
  if isBreak c then ⟨here.line + 1, 0, 0, rest⟩
  else ⟨here.line, here.column + 1, here.offset + c.utf8Size, rest⟩

/-- The place some characters on. -/
def skip (here : Cursor) : Nat → Cursor
  | 0 => here
  | n + 1 =>
    match here.rest with
    | [] => here
    | c :: rest => (here.pass c rest).skip n

/-- The place from which a given end of the text stands. -/
def upTo (here : Cursor) (rest : List Char) : Cursor := here.skip (here.rest.length - rest.length)

/-- Whether an indicator stands here with a blank behind it. -/
def indicates (here : Cursor) (indicator : Char) : Bool :=
  match here.rest with
  | c :: rest => c == indicator && startsBlank rest
  | [] => false

/-- Whether a document mark stands here, three times its character at the start
of a line. -/
def marks (here : Cursor) (c : Char) : Bool :=
  here.column == 0 && here.rest.take 3 == [c, c, c] && startsBlank (here.rest.drop 3)

/-- Whether a document starts or ends here. -/
def atMark (here : Cursor) : Bool := here.marks '-' || here.marks '.'

/-- The place of the next token, behind gaps, line ends and comments, and
whether a key may start there; the list is what stands from `here` on.  In a
block a key may start on each new line, and where one may start a tab is no
gap. -/
def toToken (flow : Bool) : (keys comment : Bool) → (here : Cursor) → List Char → Cursor × Bool
  | keys, _, here, [] => (here, keys)
  | keys, comment, here, c :: rest =>
    if isBreak c then toToken flow (keys || !flow) false (here.pass c rest) rest
    else if comment || c == ' ' || c == '#' || (c == '\t' && (flow || !keys)) ||
        (c == '\ufeff' && here.column == 0) then
      toToken flow keys (comment || c == '#') (here.pass c rest) rest
    else (here, keys)

end Cursor

end ProcessEngine.Yaml
