import ProcessEngine.Yaml.Token

/-!
# From text to tokens

The columns of a text decide where its block collections start and end, and a
colon decides afterwards that what stands before it is a key.  `Layout` is what
has to be known of the text read so far: the tokens, the columns of the open
block collections, and for each open flow collection the place where its latest
key may have started.

A place loses its claim to be a key when its line ends or after 1024 octets
of it.  In a block, what starts in the column of the innermost collection
has to be a key.

`Token.listOfText?` gives the tokens of a text.
-/

namespace ProcessEngine.Yaml

/-- A place where a key may have started. -/
structure KeyStart where
  /-- The number of tokens before it. -/
  position : Nat
  line : Nat
  column : Nat
  /-- The octets of its line before it, in UTF-8. -/
  offset : Nat
  required : Bool
deriving Repr, DecidableEq

/-- What is known of the text before a place. -/
structure Layout where
  place : Cursor
  /-- The tokens so far, the latest first. -/
  tokens : List Token
  /-- The first column behind that of the innermost block collection. -/
  margin : Nat
  /-- The margins around it. -/
  margins : List Nat
  /-- Where a key may have started in the innermost collection. -/
  start : Option KeyStart
  /-- The same for the collections around the open flow collections. -/
  starts : List (Option KeyStart)
  /-- Whether a key may start here. -/
  keys : Bool

namespace Layout

/-- The layout at the start of a text. -/
def ofText (text : List Char) : Layout := ⟨.start text, [], 0, [], none, [], true⟩

/-- Whether a flow collection is open. -/
def flow (l : Layout) : Bool := !l.starts.isEmpty

/-- The layout with one more token. -/
def push (l : Layout) (token : Token) : Layout := { l with tokens := token :: l.tokens }

/-- The layout with one more token, which takes up some characters. -/
def take (l : Layout) (size : Nat) (token : Token) : Layout :=
  { l with place := l.place.skip size, tokens := token :: l.tokens }

/-- The layout with a token behind the first `position` ones. -/
def insert (l : Layout) (position : Nat) (token : Token) : Layout :=
  let later := l.tokens.length - position
  { l with tokens := l.tokens.take later ++ token :: l.tokens.drop later }

/-! ## Block collections -/

/-- The layout with the block collections closed that start in some column or
behind it. -/
def closeFrom (column : Nat) : Nat → Layout → Layout
  | 0, l => l
  | n + 1, l =>
    if column < l.margin then
      closeFrom column n
        { l with
          tokens := .blockEnd :: l.tokens
          margin := l.margins.headD 0
          margins := l.margins.drop 1 }
    else l

/-- `closeFrom` unless a flow collection is open. -/
def close (l : Layout) (column : Nat) : Layout :=
  if l.flow then l else l.closeFrom column l.margins.length

/-- The layout with a block collection in some column, unless it is open
already; its token goes behind the first `position` ones. -/
def openBlock (l : Layout) (column position : Nat) (token : Token) : Layout :=
  if !l.flow && decide (l.margin ≤ column) then
    { l.insert position token with margin := column + 1, margins := l.margin :: l.margins }
  else l

/-- The layout with a block collection from here on. -/
def openHere (l : Layout) (token : Token) : Layout :=
  l.openBlock l.place.column l.tokens.length token

/-! ## Keys -/

/-- A place where a key may have started once it is not the latest any more. -/
def settled? : Option KeyStart → Option (Option KeyStart)
  | some start => if start.required then none else some none
  | none => some none

/-- The layout without a key from the latest place. -/
def dropStart? (l : Layout) : Option Layout :=
  (settled? l.start).map fun start => { l with start }

/-- The layout in which a key may have started here. -/
def saveStart? (l : Layout) : Option Layout :=
  if l.keys then
    (settled? l.start).map fun _ =>
      { l with
        start := some ⟨l.tokens.length, l.place.line, l.place.column, l.place.offset,
          !l.flow && l.margin == l.place.column + 1⟩ }
  else some l

/-- A place where a key may have started, seen from a later one. -/
def expired? (here : Cursor) (start : Option KeyStart) : Option (Option KeyStart) :=
  if start.any fun s => decide (s.line < here.line ∨ s.offset + 1024 < here.offset) then
    settled? start
  else some start

/-- The layout with all places checked where keys may have started. -/
def expire? (l : Layout) : Option Layout := do
  let start ← expired? l.place l.start
  let starts ← l.starts.mapM (expired? l.place)
  some { l with start, starts }

/-! ## Tokens -/

/-- A directive or a document mark, which ends all block collections. -/
def takeMark? (l : Layout) (token : Token) (rest : List Char) : Option Layout :=
  (l.close 0).dropStart?.map fun l =>
    { l.push token with place := l.place.upTo rest, keys := false }

/-- The opening bracket of a flow collection. -/
def takeOpening? (l : Layout) (token : Token) : Option Layout :=
  l.saveStart?.map fun l =>
    { l.take 1 token with start := none, starts := l.start :: l.starts, keys := true }

/-- The closing bracket of a flow collection. -/
def takeClosing? (l : Layout) (token : Token) : Option Layout :=
  l.dropStart?.map fun l =>
    { l.take 1 token with start := l.starts.headD none, starts := l.starts.drop 1, keys := false }

/-- A comma. -/
def takeComma? (l : Layout) : Option Layout :=
  l.dropStart?.map fun l => { l.take 1 .comma with keys := true }

/-- The dash of an item. -/
def takeItem? (l : Layout) : Option Layout :=
  if l.flow || l.keys then
    (l.openHere .blockSequence).dropStart?.map fun l => { l.take 1 .item with keys := true }
  else none

/-- The mark of a key. -/
def takeKey? (l : Layout) : Option Layout :=
  if l.flow || l.keys then
    (l.openHere .blockMapping).dropStart?.map fun l => { l.take 1 .key with keys := !l.flow }
  else none

/-- The colon before a value.  Where a key may have started, one did. -/
def takeValue? (l : Layout) : Option Layout :=
  match l.start with
  | some start =>
    let l := (l.insert start.position .key).openBlock start.column start.position .blockMapping
    some { l.take 1 .value with start := none, keys := false }
  | none =>
    if l.flow || l.keys then
      let l := l.openHere .blockMapping
      some { l.take 1 .value with keys := !l.flow }
    else none

/-- A token with which a key may start but not go on on another line. -/
def takeWord? (l : Layout) (read : Reader Token) (text : List Char) : Option Layout := do
  let l ← l.saveStart?
  let (token, rest) ← read text
  some { l.push token with place := l.place.upTo rest, keys := false }

/-- A scalar between quotes. -/
def takeQuoted? (l : Layout) (quote : Char) : Option Layout := do
  let l ← l.saveStart?
  let (text, place) ← quoted? quote l.place
  some { l.push (.scalar .quoted text) with place, keys := false }

/-- A block scalar. -/
def takeBlock? (l : Layout) (style : Style) : Option Layout := do
  let l ← l.dropStart?
  let (text, place) ← block? (style == .folded) l.margin l.place
  some { l.push (.scalar style text) with place, keys := true }

/-- A plain scalar; where its last line ends a key may start. -/
def takePlain? (l : Layout) : Option Layout := do
  let l ← l.saveStart?
  let (text, keys, place) ← plain? l.flow l.margin l.place
  some { l.push (.scalar .plain text) with place, keys }

/-- The layout after the token that starts with some character. -/
def takeToken? (l : Layout) (c : Char) (rest : List Char) : Option Layout :=
  let here := l.place
  let indicated := fun (indicator : Char) => c == indicator && (l.flow || startsBlank rest)
  if here.column = 0 ∧ c = '%' then
    (directive? rest).bind fun (token, rest) => l.takeMark? token rest
  else if here.marks '-' then l.takeMark? .documentStart (rest.drop 2)
  else if here.marks '.' then l.takeMark? .documentEnd (rest.drop 2)
  else if c = '[' then l.takeOpening? .flowSequence
  else if c = '\x7b' then l.takeOpening? .flowMapping
  else if c = ']' then l.takeClosing? .flowSequenceEnd
  else if c = '\x7d' then l.takeClosing? .flowMappingEnd
  else if c = ',' then l.takeComma?
  else if here.indicates '-' then l.takeItem?
  else if indicated '?' then l.takeKey?
  else if indicated ':' then l.takeValue?
  else if c = '*' then
    l.takeWord? (fun cs => (name? cs).map fun (name, rest) => (.reference name, rest)) rest
  else if c = '&' then
    l.takeWord? (fun cs => (name? cs).map fun (name, rest) => (.anchor name, rest)) rest
  else if c = '!' then l.takeWord? (tag? l.flow) (c :: rest)
  else if c = '|' ∧ !l.flow then l.takeBlock? .literal
  else if c = '>' ∧ !l.flow then l.takeBlock? .folded
  else if c = '\'' ∨ c = '"' then l.takeQuoted? c
  else if startsPlain l.flow (c :: rest) then l.takePlain?
  else none

/-- The layout at the next token. -/
def advance? (l : Layout) : Option Layout :=
  let (place, keys) := Cursor.toToken l.flow l.keys false l.place l.place.rest
  ({ l with place, keys } : Layout).expire?.map fun l => l.close (l.place.column + 1)

/-- The tokens of a text from a layout on.  Each token has a character, which
bounds `fuel`. -/
def tokens? : Nat → Layout → Option (List Token)
  | 0, _ => none
  | fuel + 1, l => do
    let l ← l.advance?
    match l.place.rest with
    | [] => (l.close 0).dropStart?.map fun l => l.tokens.reverse
    | c :: rest => do
      let l ← l.takeToken? c rest
      tokens? fuel l

end Layout

/-- The tokens of a text. -/
def Token.listOfText? (text : String) : Option (List Token) :=
  let cs := text.toList
  if cs.all isAllowed then
    let cs := withLineFeeds cs
    (Layout.ofText cs).tokens? (cs.length + 1)
  else none

end ProcessEngine.Yaml
