import ProcessEngine.Json.Reader
import ProcessEngine.Yaml.Cursor

/-!
# YAML scalars

The texts of plain, quoted and block scalars.  In plain and quoted scalars a
line end with the gaps around it counts as one space, and each further line
end as itself.

The margin of a scalar is the first column behind the column of the block
collection around it, zero if there is none.
-/

namespace ProcessEngine.Yaml

/-- What the spacing between two words stands for. -/
def joined (between : List Char) : List Char :=
  match between.filter isBreak with
  | [] => between
  | ['\n'] => [' ']
  | '\n' :: breaks => breaks
  | breaks => breaks

/-! ## Plain scalars -/

/-- The brackets and the comma of flow collections. -/
def flowMarks : List Char := [',', '[', ']', '\x7b', '\x7d']

/-- A character that starts something else than a plain scalar. -/
def isReserved (c : Char) : Bool :=
  c ∈ ['-', '?', ':', '#', '&', '*', '!', '|', '>', '\'', '"', '%', '@', '\u0060'] ||
    flowMarks.contains c

/-- Whether a plain scalar can start here. -/
def startsPlain (flow : Bool) : List Char → Bool
  | [] => false
  | c :: rest =>
    !(isSpacing c || isReserved c) || (c == '-' && !startsWith [' ', '\t'] rest) ||
      (!flow && (c == '?' || c == ':') && !startsBlank rest)

/-- The word of a plain scalar at the front of a text; `none` where a colon
stands before a mark of a flow collection. -/
def plainWord? (flow : Bool) : List Char → Option (List Char)
  | [] => some []
  | c :: rest =>
    if isSpacing c then some []
    else if flow && c == ':' && startsWith ('?' :: flowMarks) rest then none
    else if (c == ':' && startsBlank rest) || (flow && flowMarks.contains c) then some []
    else (plainWord? flow rest).map (c :: ·)

/-- Whether a tab stands in the margin of a line after the first one. -/
def tabInMargin (margin : Nat) : (further : Bool) → Nat → List Char → Bool
  | _, _, [] => false
  | further, column, c :: rest =>
    if isBreak c then tabInMargin margin true 0 rest
    else (further && decide (column < margin) && c == '\t') ||
      tabInMargin margin further (column + 1) rest

/-- A plain scalar from one of its words on, with what joins the word to those
before it.  The spacing behind the scalar belongs to it; the truth value tells
whether a line ends there.  Each word has a character, which bounds `fuel`. -/
def plainFrom? (flow : Bool) (margin : Nat) :
    Nat → List Char → Bool → Cursor → Option (List Char × Bool × Cursor)
  | 0, _, ended, here => some ([], ended, here)
  | fuel + 1, gap, ended, here =>
    if here.atMark || startsWith ['#'] here.rest then some ([], ended, here)
    else
      match plainWord? flow here.rest with
      | none => none
      | some [] => some ([], ended, here)
      | some word =>
        let after := here.skip word.length
        let between := after.rest.takeWhile isSpacing
        let following := after.skip between.length
        let ended := between.any isBreak
        if tabInMargin margin false after.column between then none
        else if between.isEmpty || (!flow && decide (following.column < margin)) then
          some (gap ++ word, ended, following)
        else
          (plainFrom? flow margin fuel (joined between) ended following).map
            fun (more, ended, place) => (gap ++ word ++ more, ended, place)

/-- A plain scalar, whether a line ends behind it, and the place after it. -/
def plain? (flow : Bool) (margin : Nat) (start : Cursor) : Option (String × Bool × Cursor) :=
  (plainFrom? flow margin (start.rest.length + 1) [] false start).map
    fun (text, ended, place) => (String.ofList text, ended, place)

/-! ## Quoted scalars -/

/-- What a letter stands for after a backslash. -/
def escapeLetter? (c : Char) : Option Char :=
  ([('0', '\x00'), ('a', '\x07'), ('b', '\x08'), ('t', '\t'), ('\t', '\t'), ('n', '\n'),
    ('v', '\x0b'), ('f', '\x0c'), ('r', '\r'), ('e', '\x1b'), (' ', ' '), ('"', '"'),
    ('/', '/'), ('\\', '\\'), ('N', '\u0085'), ('_', '\u00a0'), ('L', '\u2028'),
    ('P', '\u2029')].find? fun entry => entry.1 == c).map Prod.snd

/-- The number of hexadecimal digits after a letter that has some. -/
def escapeWidth? (c : Char) : Option Nat :=
  if c = 'x' then some 2 else if c = 'u' then some 4 else if c = 'U' then some 8 else none

/-- The character that some number of hexadecimal digits gives. -/
def hexChar? (width : Nat) (digits : List Char) : Option Char :=
  match digits.mapM Json.hexValue? with
  | none => none
  | some values =>
    let n := values.foldl (fun n v => n * 16 + v) 0
    if values.length = width ∧ n.isValidChar then some (Char.ofNat n) else none

/-- What an escape stands for and how many characters it takes up, from what
stands behind its backslash.  An escaped line end takes up the spacing after
it, of which further line ends count. -/
def escape? : List Char → Option (List Char × Nat)
  | [] => none
  | c :: rest =>
    if isBreak c then
      let between := rest.takeWhile isSpacing
      some (between.filter isBreak, between.length + 2)
    else
      match escapeWidth? c with
      | some width => (hexChar? width (rest.take width)).map fun c => ([c], width + 2)
      | none => (escapeLetter? c).map fun c => ([c], 2)

/-- What a character that is no spacing stands for in a quoted scalar, and how
many characters it takes up with what belongs to it. -/
def quotedUnit? (quote c : Char) (rest : List Char) : Option (List Char × Nat) :=
  if quote = '"' ∧ c = '\\' then escape? rest
  else if c = quote then some ([c], 2)
  else some ([c], 1)

/-- Whether the closing quote stands at the front of a text; a single quote
inside is written twice. -/
def closesQuoted (quote : Char) : List Char → Bool
  | [] => false
  | c :: rest => c == quote && !(quote == '\'' && rest.head? == some quote)

/-- A quoted scalar from some place inside it, and the place after it.  No
document starts or ends inside. -/
def quotedFrom? (quote : Char) : Nat → Cursor → Option (List Char × Cursor)
  | 0, _ => none
  | fuel + 1, here =>
    if here.atMark then none
    else if closesQuoted quote here.rest then some ([], here.skip 1)
    else
      match here.rest with
      | [] => none
      | c :: rest =>
        if isSpacing c then
          let between := here.rest.takeWhile isSpacing
          (quotedFrom? quote fuel (here.skip between.length)).map
            fun (more, place) => (joined between ++ more, place)
        else
          match quotedUnit? quote c rest with
          | none => none
          | some (unit, size) =>
            (quotedFrom? quote fuel (here.skip size)).map
              fun (more, place) => (unit ++ more, place)

/-- A scalar between quotes, from its opening quote. -/
def quoted? (quote : Char) (start : Cursor) : Option (String × Cursor) :=
  (quotedFrom? quote (start.rest.length + 1) (start.skip 1)).map
    fun (text, place) => (String.ofList text, place)

/-! ## Block scalars -/

/-- What becomes of the line ends after the last line of a block scalar. -/
inductive Chomping where
  /-- None is kept. -/
  | strip
  /-- The first one is kept. -/
  | clip
  /-- All are kept. -/
  | keep
deriving Repr, DecidableEq

/-- The head of a block scalar: how its lines are joined, what becomes of the
last line ends, and its indentation behind the margin where it is given. -/
structure BlockHead where
  folded : Bool
  chomping : Chomping
  indent : Option Nat
deriving Repr, DecidableEq

/-- The head with one of the marks that may follow its first character, each
at most once. -/
def BlockHead.mark? (head : BlockHead) (c : Char) : Option BlockHead :=
  if head.chomping = .clip ∧ c = '+' then some { head with chomping := .keep }
  else if head.chomping = .clip ∧ c = '-' then some { head with chomping := .strip }
  else if head.indent = none ∧ '1' ≤ c ∧ c ≤ '9' then
    some { head with indent := some (c.toNat - '0'.toNat) }
  else none

/-- The marks of a block scalar's head, and what stands behind them. -/
def blockMarks (head : BlockHead) : List Char → BlockHead × List Char
  | [] => (head, [])
  | c :: rest =>
    match head.mark? c with
    | some head => blockMarks head rest
    | none => (head, c :: rest)

/-- Whether a line holds nothing but gaps and a comment. -/
def idle (line : List Char) : Bool :=
  let text := line.dropWhile isGap
  text.isEmpty || text.head? == some '#'

/-- The line ends from some place up to the next line with text, the greatest
column on the way, and the place where the text starts; the list is what stands
from `here` on.  Spaces are passed as far as the indentation goes, or all of
them if it is not known; no tab may stand there. -/
def emptyLines? (indent : Option Nat) (breaks : List Char) (widest : Nat) (here : Cursor) :
    List Char → Option (List Char × Nat × Cursor)
  | [] => some (breaks, max widest here.column, here)
  | c :: rest =>
    let inside := indent.all (decide <| here.column < ·)
    if inside && c == ' ' then emptyLines? indent breaks widest (here.pass c rest) rest
    else if inside && c == '\t' then none
    else if isBreak c then
      emptyLines? indent (breaks ++ [c]) (max widest here.column) (here.pass c rest) rest
    else some (breaks, max widest here.column, here)

/-- What stands behind a line of a block scalar: its own line end, those of the
empty lines after it, and whether the line starts with a gap. -/
structure LineEnd where
  own : List Char
  further : List Char
  gap : Bool

/-- What joins a line with text to what stands before it. -/
def LineEnd.join (before : LineEnd) (folded gap : Bool) : List Char :=
  (if folded && before.own == ['\n'] && !before.gap && !gap then
    if before.further.isEmpty then [' '] else []
  else before.own) ++ before.further

/-- The lines of a block scalar in some column, and the place after them. -/
def blockLines? (folded : Bool) (indent : Nat) :
    Nat → LineEnd → Cursor → Option (List Char × LineEnd × Cursor)
  | 0, before, here => some ([], before, here)
  | fuel + 1, before, here =>
    if here.column ≠ indent ∨ here.rest.isEmpty then some ([], before, here)
    else
      let gap := here.rest.head?.any isGap
      let text := here.rest.takeWhile (!isBreak ·)
      let after := here.skip text.length
      let own := after.rest.take 1
      let next := after.skip 1
      match emptyLines? (some indent) [] 0 next next.rest with
      | none => none
      | some (further, _, place) =>
        (blockLines? folded indent fuel ⟨own, further, gap⟩ place).map
          fun (more, last, place) => (before.join folded gap ++ text ++ more, last, place)

/-- The line ends that are kept after the last line. -/
def Chomping.kept : Chomping → LineEnd → List Char
  | strip, _ => []
  | clip, last => last.own
  | keep, last => last.own ++ last.further

/-- A block scalar, from the character that tells how its lines are joined.
Its indentation, if not given, is that of its first line with text or of a
longer empty line before it. -/
def block? (folded : Bool) (margin : Nat) (start : Cursor) : Option (String × Cursor) :=
  let (head, rest) := blockMarks ⟨folded, .clip, none⟩ (start.rest.drop 1)
  let line := rest.takeWhile (!isBreak ·)
  if idle line then
    let body := (start.upTo rest).skip (line.length + 1)
    let given := head.indent.map fun n => margin - 1 + n
    match emptyLines? given [] 0 body body.rest with
    | none => none
    | some (breaks, widest, place) =>
      let indent := given.getD (max widest (max margin 1))
      (blockLines? folded indent (place.rest.length + 1) ⟨[], breaks, false⟩ place).map
        fun (text, last, place) => (String.ofList (text ++ head.chomping.kept last), place)
  else none

end ProcessEngine.Yaml
