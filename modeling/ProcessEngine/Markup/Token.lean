import ProcessEngine.Markup.Entity

/-!
# Markup tokens

A document is cut into tags, texts and character data.  Layout around a text
is dropped, and a text of layout only is no token.  Comments, processing
instructions and document types separate texts and are kept as `aside`.

`Document.ofText` gives the tokens up to the first fault and tells whether
there is one: what stands before a fault is still read.  A closing tag has to
carry the full name of the last tag still open; tags that are open at the end
are no fault.
-/

namespace ProcessEngine.Markup

/-- A tag's full name and the text of its attributes. -/
structure Tag where
  name : List Char
  attributes : List Char
deriving Repr, DecidableEq

/-- A piece of a document. -/
inductive Token where
  | opening (tag : Tag)
  | empty (tag : Tag)
  | closing (name : List Char)
  | text (raw : String)
  | data (raw : String)
  | aside
deriving Repr, DecidableEq

/-- The tokens of a document up to its first fault. -/
structure Document where
  tokens : List Token
  sound : Bool
deriving Repr, DecidableEq

/-- The part of a name behind its first colon, or the whole of it. -/
def localName (name : List Char) : List Char :=
  match name.dropWhile (· != ':') with
  | _ :: rest => rest
  | [] => name

/-- The text before and after the first occurrence of a mark. -/
def breakOn (mark : List Char) : List Char → Option (List Char × List Char)
  | [] => none
  | c :: cs =>
    match dropWord? mark (c :: cs) with
    | some rest => some ([], rest)
    | none => (breakOn mark cs).map fun (before, rest) => (c :: before, rest)

/-- The inside of a tag up to the first `>` outside quotes, and the rest;
`open?` is the quote that is still open. -/
def tagBody (open? : Option Char) : List Char → Option (List Char × List Char)
  | [] => none
  | c :: cs =>
    match open? with
    | some mark =>
      (tagBody (if c = mark then none else some mark) cs).map fun (body, rest) =>
        (c :: body, rest)
    | none =>
      if c = '>' then some ([], cs)
      else
        (tagBody (if c = '"' ∨ c = '\'' then some c else none) cs).map fun (body, rest) =>
          (c :: body, rest)

/-- The inside of a document type up to the `>` that balances it, and the
rest. -/
def doctypeBody (depth : Nat) : List Char → Option (List Char × List Char)
  | [] => none
  | c :: cs =>
    if c = '>' ∧ depth = 0 then some ([], cs)
    else
      let depth := if c = '<' then depth + 1 else if c = '>' then depth - 1 else depth
      (doctypeBody depth cs).map fun (body, rest) => (c :: body, rest)

/-- The text after a word in any case of its letters; the word is given in
capitals. -/
def dropWordAnyCase? : List Char → List Char → Option (List Char)
  | [], cs => some cs
  | w :: ws, c :: cs => if w = c.toUpper then dropWordAnyCase? ws cs else none
  | _ :: _, [] => none

/-- A tag from its inside. -/
def Tag.ofBody (body : List Char) : Tag :=
  ⟨body.takeWhile (!Text.isLayout ·), body.dropWhile (!Text.isLayout ·)⟩

/-- The name in a closing tag without the layout behind it; a name of layout
only stays as it is. -/
def closingName (name : List Char) : List Char :=
  if name.all Text.isLayout then name else (name.reverse.dropWhile Text.isLayout).reverse

/-- The token that a tag's inside stands for. -/
def tagToken (body : List Char) : Token :=
  match body with
  | '/' :: name => .closing (closingName name)
  | _ =>
    match body.reverse with
    | '/' :: inner => .empty (.ofBody inner.reverse)
    | _ => .opening (.ofBody body)

/-- The token that starts with `<`, from what follows it. -/
def readMarkup (cs : List Char) : Option (Token × List Char) :=
  match cs with
  | '!' :: '-' :: '-' :: rest =>
    (breakOn ['-', '-', '>'] rest).map fun (_, rest) => (.aside, rest)
  | '!' :: '[' :: rest =>
    match dropWord? ['C', 'D', 'A', 'T', 'A', '['] rest with
    | some rest =>
      (breakOn [']', ']', '>'] rest).map fun (raw, rest) => (.data (String.ofList raw), rest)
    | none => none
  | '!' :: rest =>
    match dropWordAnyCase? ['D', 'O', 'C', 'T', 'Y', 'P', 'E'] rest with
    | some rest =>
      match doctypeBody 0 rest with
      | some (body, rest) => if body.all Text.isLayout then none else some (.aside, rest)
      | none => none
    | none => none
  | '?' :: '>' :: _ => none
  | '?' :: rest => (breakOn ['?', '>'] rest).map fun (_, rest) => (.aside, rest)
  | _ => (tagBody none cs).map fun (body, rest) => (tagToken body, rest)

/-- The names still open after a token, innermost first; `none` for a closing
tag that does not fit. -/
def openNames (names : List (List Char)) : Token → Option (List (List Char))
  | .opening tag => some (tag.name :: names)
  | .closing name =>
    match names with
    | innermost :: names => if innermost = name then some names else none
    | [] => none
  | _ => some names

/-- The tokens of a text with fewer than `fuel` characters. -/
def tokensFrom : Nat → List (List Char) → List Char → Document
  | 0, _, _ => ⟨[], false⟩
  | fuel + 1, names, cs =>
    match skipLayout cs with
    | [] => ⟨[], true⟩
    | c :: rest =>
      if c = '<' then
        match readMarkup rest with
        | none => ⟨[], false⟩
        | some (token, rest) =>
          match openNames names token with
          | none => ⟨[], false⟩
          | some names =>
            let document := tokensFrom fuel names rest
            { document with tokens := token :: document.tokens }
      else
        let text := (c :: rest).takeWhile (· != '<')
        let document := tokensFrom fuel names ((c :: rest).dropWhile (· != '<'))
        let text := (text.reverse.dropWhile Text.isLayout).reverse
        { document with tokens := .text (String.ofList text) :: document.tokens }

/-- The text without a leading byte order mark. -/
def dropByteOrderMark (cs : List Char) : List Char :=
  match cs with
  | '\ufeff' :: rest => rest
  | cs => cs

/-- The tokens of a text. -/
def Document.ofText (text : String) : Document :=
  let cs := text.toList
  tokensFrom (cs.length + 1) [] (dropByteOrderMark cs)

end ProcessEngine.Markup
