import ProcessEngine.Keyed
import ProcessEngine.Yaml.Layout

/-!
# YAML documents

A document is a node: a scalar, a sequence or a mapping, in block form by
indentation or in flow form by brackets.  `Document.ofText?` reads a text with
at most one document.

A node may refer to one with a name.  Names are numbered, and a name that is
given again gets a new number, which is the count of different names given
before; the node with a number is the last one that got it.
-/

namespace ProcessEngine.Yaml

/-- A scalar with its tag. -/
structure Scalar where
  style : Style
  tag : Option Octets
  text : String
deriving Repr, DecidableEq

/-- A node of a document. -/
inductive Node where
  | scalar (s : Scalar)
  /-- The node with a number. -/
  | reference (n : Nat)
  | sequence (items : List Node)
  | mapping (entries : List (Node × Node))

/-- The node that stands where nothing is written. -/
def Node.empty : Node := .scalar ⟨.plain, none, ""⟩

/-- A document and the scalars in it that have a number; a collection with a
number is no scalar. -/
structure Document where
  root : Node
  numbered : List (Nat × Option Scalar)

/-- What is left to read of a document, and what was read before. -/
structure Reading where
  tokens : List Token
  /-- The starts of tags by their handles. -/
  tagStarts : List (Octets × Octets)
  /-- The numbers of names. -/
  names : Keyed Nat
  /-- The scalars with a number, the latest first. -/
  numbered : List (Nat × Option Scalar)

namespace Reading

/-- The reading with other tokens left. -/
def goOn (r : Reading) (tokens : List Token) : Reading := { r with tokens }

/-- The reading with a name for a node. -/
def nameNode (r : Reading) (name : Option String) (node : Option Scalar) : Reading :=
  match name with
  | none => r
  | some name =>
    let n := r.names.length
    { r with names := Keyed.put r.names name n, numbered := (n, node) :: r.numbered }

/-- Whether the next token is one of some. -/
def meets (r : Reading) (tokens : List Token) : Bool := r.tokens.head?.any (tokens.contains ·)

/-- The octets of a tag; the handle has to be known. -/
def wholeTag? (r : Reading) (handle suffix : Octets) : Option Octets :=
  if handle.isEmpty then some suffix
  else (r.tagStarts.lookup handle).map (· ++ suffix)

/-- The name and the tag before a node, each at most once and in any order. -/
def properties? (r : Reading) : Option (Option String × Option Octets × Reading) :=
  match r.tokens with
  | .anchor name :: .tag handle suffix :: rest =>
    (r.wholeTag? handle suffix).map fun tag => (some name, some tag, r.goOn rest)
  | .anchor name :: rest => some (some name, none, r.goOn rest)
  | .tag handle suffix :: .anchor name :: rest =>
    (r.wholeTag? handle suffix).map fun tag => (some name, some tag, r.goOn rest)
  | .tag handle suffix :: rest =>
    (r.wholeTag? handle suffix).map fun tag => (none, some tag, r.goOn rest)
  | _ => some (none, none, r)

end Reading

namespace Node

mutual

/-- A node.  It may be in block form if `block`, and its items may stand in the
column of the mapping around them if `level`.  Nothing at all is a node if it
has a name or a tag. -/
def read? : Nat → (block level : Bool) → Reading → Option (Node × Reading)
  | 0, _, _, _ => none
  | fuel + 1, block, level, r =>
    match r.tokens with
    | .reference name :: rest => (Keyed.get? r.names name).map fun n => (reference n, r.goOn rest)
    | _ =>
      match r.properties? with
      | none => none
      | some (name, tag, r) =>
        let collection := r.nameNode name none
        match level, block, r.tokens with
        | _, _, .scalar style text :: rest =>
          let s : Scalar := ⟨style, tag, text⟩
          some (scalar s, (r.goOn rest).nameNode name (some s))
        | _, _, .flowSequence :: rest =>
          (flowItems? fuel true (collection.goOn rest)).map fun (items, r) => (sequence items, r)
        | _, _, .flowMapping :: rest =>
          (flowEntries? fuel true (collection.goOn rest)).map fun (entries, r) => (mapping entries, r)
        | _, true, .blockSequence :: rest =>
          (blockItems? fuel (collection.goOn rest)).map fun (items, r) => (sequence items, r)
        | _, true, .blockMapping :: rest =>
          (blockEntries? fuel (collection.goOn rest)).map fun (entries, r) => (mapping entries, r)
        | true, _, .item :: _ =>
          (levelItems? fuel collection).map fun (items, r) => (sequence items, r)
        | _, _, _ =>
          if name.isSome || tag.isSome then
            let s : Scalar := ⟨.plain, tag, ""⟩
            some (scalar s, r.nameNode name (some s))
          else none

/-- A node, or nothing before one of some tokens. -/
def readUnless? : Nat → List Token → (block level : Bool) → Reading → Option (Node × Reading)
  | 0, _, _, _, _ => none
  | fuel + 1, tokens, block, level, r =>
    if r.meets tokens then some (empty, r) else read? fuel block level r

/-- The items of a block up to its end. -/
def blockItems? : Nat → Reading → Option (List Node × Reading)
  | 0, _ => none
  | fuel + 1, r =>
    match r.tokens with
    | .item :: rest => do
      let (item, r) ← readUnless? fuel [.item, .blockEnd] true false (r.goOn rest)
      let (items, r) ← blockItems? fuel r
      some (item :: items, r)
    | .blockEnd :: rest => some ([], r.goOn rest)
    | _ => none

/-- The items in the column of a mapping. -/
def levelItems? : Nat → Reading → Option (List Node × Reading)
  | 0, _ => none
  | fuel + 1, r =>
    match r.tokens with
    | .item :: rest => do
      let (item, r) ← readUnless? fuel [.item, .key, .value, .blockEnd] true false (r.goOn rest)
      let (items, r) ← levelItems? fuel r
      some (item :: items, r)
    | _ => some ([], r)

/-- The entries of a block up to its end. -/
def blockEntries? : Nat → Reading → Option (List (Node × Node) × Reading)
  | 0, _ => none
  | fuel + 1, r =>
    match r.tokens with
    | .key :: rest => do
      let (key, r) ← readUnless? fuel [.key, .value, .blockEnd] true true (r.goOn rest)
      let (value, r) ← readValue? fuel [.key, .value, .blockEnd] true r
      let (entries, r) ← blockEntries? fuel r
      some ((key, value) :: entries, r)
    | .blockEnd :: rest => some ([], r.goOn rest)
    | _ => none

/-- A value, which may be left out with its colon or before one of some
tokens. -/
def readValue? : Nat → List Token → (block : Bool) → Reading → Option (Node × Reading)
  | 0, _, _, _ => none
  | fuel + 1, tokens, block, r =>
    match r.tokens with
    | .value :: rest => readUnless? fuel tokens block block (r.goOn rest)
    | _ => some (empty, r)

/-- The items of a flow sequence up to its end.  A key with its value is an
item.  Where the key is left out, the token after its mark does not count. -/
def flowItems? : Nat → (first : Bool) → Reading → Option (List Node × Reading)
  | 0, _, _ => none
  | fuel + 1, first, r =>
    match first, r.tokens with
    | _, .flowSequenceEnd :: rest => some ([], r.goOn rest)
    | false, .comma :: .flowSequenceEnd :: rest => some ([], r.goOn rest)
    | false, .comma :: rest => flowItem? fuel (r.goOn rest)
    | false, _ => none
    | true, _ => flowItem? fuel r

/-- An item of a flow sequence and those after it. -/
def flowItem? : Nat → Reading → Option (List Node × Reading)
  | 0, _ => none
  | fuel + 1, r => do
    let (item, r) ←
      match r.tokens with
      | .key :: rest => do
        let r := r.goOn rest
        let (key, r) ←
          if r.meets [.value, .comma, .flowSequenceEnd] then some (empty, r.goOn (rest.drop 1))
          else read? fuel false false r
        let (value, r) ← readValue? fuel [.comma, .flowSequenceEnd] false r
        some (mapping [(key, value)], r)
      | _ => read? fuel false false r
    let (items, r) ← flowItems? fuel false r
    some (item :: items, r)

/-- The entries of a flow mapping up to its end. -/
def flowEntries? : Nat → (first : Bool) → Reading → Option (List (Node × Node) × Reading)
  | 0, _, _ => none
  | fuel + 1, first, r =>
    match first, r.tokens with
    | _, .flowMappingEnd :: rest => some ([], r.goOn rest)
    | false, .comma :: .flowMappingEnd :: rest => some ([], r.goOn rest)
    | false, .comma :: rest => flowEntry? fuel (r.goOn rest)
    | false, _ => none
    | true, _ => flowEntry? fuel r

/-- An entry of a flow mapping and those after it; without the mark of a key
there is no value. -/
def flowEntry? : Nat → Reading → Option (List (Node × Node) × Reading)
  | 0, _ => none
  | fuel + 1, r => do
    let (entry, r) ←
      match r.tokens with
      | .key :: rest => do
        let (key, r) ←
          readUnless? fuel [.value, .comma, .flowMappingEnd] false false (r.goOn rest)
        let (value, r) ← readValue? fuel [.comma, .flowMappingEnd] false r
        some ((key, value), r)
      | _ => (read? fuel false false r).map fun (key, r) => ((key, empty), r)
    let (entries, r) ← flowEntries? fuel false r
    some (entry :: entries, r)

end

end Node

/-! ## Documents -/

/-- The starts of tags that are known without a directive. -/
def commonTagStarts : List (Octets × Octets) :=
  [(octets "!", octets "!"), (octets "!!", octets "tag:yaml.org,2002:")]

/-- The starts of tags after the directives in front of a document.  A version
may be given once and a handle once, and the version has to be 1.1 or 1.2. -/
def tagStarts? (versioned : Bool) (known : List (Octets × Octets)) :
    List Token → Option (List (Octets × Octets) × List Token)
  | .version major minor :: rest =>
    if !versioned && major == 1 && (minor == 1 || minor == 2) then tagStarts? true known rest
    else none
  | .tagStart handle start :: rest =>
    if (known.lookup handle).isSome then none
    else tagStarts? versioned ((handle, start) :: known) rest
  | .documentStart :: rest => some (known ++ commonTagStarts, rest)
  | _ => none

namespace Token

/-- Whether a token stands in front of a document. -/
def isPreface : Token → Bool
  | version .. | tagStart .. | documentStart => true
  | _ => false

/-- Whether a token cannot stand inside a document. -/
def isOutside (token : Token) : Bool := token.isPreface || token == documentEnd

end Token

namespace Document

/-- The document of some tokens, with known starts of tags; behind it only marks
of its end may follow. -/
def read? (tagStarts : List (Octets × Octets)) (tokens : List Token) : Option Document :=
  match Node.read? (4 * tokens.length + 8) true false ⟨tokens, tagStarts, [], []⟩ with
  | some (root, r) =>
    if r.tokens.all (· == .documentEnd) then some ⟨root, r.numbered⟩ else none
  | none => none

/-- The only document of some tokens; the empty node where there is none. -/
def ofTokens? (tokens : List Token) : Option Document :=
  if tokens.isEmpty then some ⟨.empty, []⟩
  else if tokens.head?.any Token.isPreface then
    match tagStarts? false [] tokens with
    | none => none
    | some (tagStarts, rest) =>
      if rest.head?.all Token.isOutside then
        if rest.all (· == .documentEnd) then some ⟨.empty, []⟩ else none
      else read? tagStarts rest
  else read? commonTagStarts tokens

/-- The only document of a text. -/
def ofText? (text : String) : Option Document := (Token.listOfText? text).bind ofTokens?

end Document

end ProcessEngine.Yaml
