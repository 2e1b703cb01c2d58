import ProcessEngine.Diagram.Basic
import ProcessEngine.Markup.Attribute

/-!
# Processes from markup

`Diagram.ofMarkup` reads the first process of a document.  An `Outline` is
what has been gathered after some of the tokens; `Outline.step` takes the next
one.  Only local names count, so any namespace may be used.

At the end every flow must join two known elements, and an element without
incoming or outgoing texts takes the flows that end or start at it.
-/

namespace ProcessEngine

/-- Why a source is no process. -/
inductive ParseError where
  | notUtf8
  | malformedMarkup
  | badReference
  | noProcess
  | missingAttribute (tag key : String)
  | unknownEndpoint (flow element : String)
deriving Repr, DecidableEq

/-- The text of a parse error. -/
def ParseError.message : ParseError → String
  | notUtf8 => "source is not valid UTF-8"
  | malformedMarkup => "XML error"
  | badReference => "bad attribute or entity"
  | noProcess => "document contains no <process> element"
  | missingAttribute tag key => "<" ++ tag ++ "> is missing attribute '" ++ key ++ "'"
  | unknownEndpoint flow element =>
    "sequence flow '" ++ flow ++ "' references unknown element '" ++ element ++ "'"

/-- The places whose text is collected. -/
inductive TextSlot where
  | incoming
  | outgoing
  | condition
  | timeDuration
deriving Repr, DecidableEq

/-- What has been read of a document: the id and name of its first process,
whether that is still open, the element, flow and text slot that are open, and
all messages, elements and flows that are complete. -/
structure Outline where
  head : Option (String × String)
  inside : Bool
  element : Option Element
  flow : Option SequenceFlow
  slot : Option TextSlot
  messages : List (String × String)
  elements : List Element
  flows : List SequenceFlow
deriving Repr, DecidableEq

namespace Outline

/-- Nothing read yet. -/
def start : Outline := ⟨none, false, none, none, none, [], [], []⟩

/-- An attribute of a tag, `none` where it is absent. -/
def optional (tag : Markup.Tag) (key : String) : Except ParseError (Option String) :=
  match tag.attribute? key with
  | some value => .ok value
  | none => .error .badReference

/-- An attribute of a tag, empty where it is absent. -/
def orEmpty (tag : Markup.Tag) (key : String) : Except ParseError String := do
  let value ← optional tag key
  .ok (value.getD "")

/-- An attribute that has to be there; `what` names the tag in the error. -/
def required (tag : Markup.Tag) (key what : String) : Except ParseError String := do
  let value ← optional tag key
  match value with
  | some value => .ok value
  | none => .error (.missingAttribute what key)

/-- The nonblank parts of a comma-separated list. -/
def splitGroups (groups : String) : List String :=
  ((splitOnComma groups.toList).map fun part => Text.trim (String.ofList part)).filter
    fun part => !part.isEmpty
where
  /-- The parts between commas. -/
  splitOnComma : List Char → List (List Char)
    | [] => [[]]
    | c :: cs =>
      match splitOnComma cs with
      | [] => [[c]]
      | part :: parts => if c = ',' then [] :: part :: parts else (c :: part) :: parts

/-- The tags that close an open text slot. -/
def slotTags : List String := ["incoming", "outgoing", "conditionExpression", "timeDuration"]

/-- The outline after a closing tag. -/
def close (o : Outline) (name : String) : Outline :=
  if name = "process" then { o with inside := false }
  else if name = "sequenceFlow" then
    match o.flow with
    | some f => { o with flow := none, flows := o.flows ++ [f] }
    | none => o
  else if name ∈ slotTags then { o with slot := none }
  else
    match o.element with
    | some e =>
      if ElementKind.ofTag? name = some e.kind then
        { o with element := none, elements := o.elements ++ [e] }
      else o
    | none => o

/-- The open element after a tag inside it, and the text slot that the tag
opens. -/
def openInElement (o : Outline) (e : Element) (name : String) (tag : Markup.Tag)
    (empty : Bool) : Except ParseError Outline :=
  match name with
  | "incoming" => .ok (if empty then o else { o with slot := some .incoming })
  | "outgoing" => .ok (if empty then o else { o with slot := some .outgoing })
  | "timeDuration" => .ok (if empty then o else { o with slot := some .timeDuration })
  | "messageEventDefinition" => do
    let ref ← optional tag "messageRef"
    .ok { o with element := some { e with event := some (.message ref) } }
  | "timerEventDefinition" =>
    .ok { o with element := some { e with event := some (.timer none) } }
  | "linkEventDefinition" => do
    let link ← orEmpty tag "name"
    .ok { o with element := some { e with event := some (.link link) } }
  | "taskDefinition" => do
    let taskType ← optional tag "type"
    .ok { o with element := some { e with taskType } }
  | "assignmentDefinition" => do
    let assignee ← optional tag "assignee"
    let groups ← optional tag "candidateGroups"
    .ok { o with element := some { e with
      assignee := assignee.filter fun a => !Text.allBlank a,
      candidateGroups := (groups.map splitGroups).getD [] } }
  | "input" => do
    let source ← orEmpty tag "source"
    let target ← orEmpty tag "target"
    .ok { o with element := some { e with inputs := e.inputs ++ [⟨source, target⟩] } }
  | "output" => do
    let source ← orEmpty tag "source"
    let target ← orEmpty tag "target"
    .ok { o with element := some { e with outputs := e.outputs ++ [⟨source, target⟩] } }
  | _ => .ok o

/-- A sequence flow from its tag. -/
def readFlow (tag : Markup.Tag) : Except ParseError SequenceFlow := do
  let id ← required tag "id" "sequenceFlow"
  let name ← orEmpty tag "name"
  let source ← required tag "sourceRef" "sequenceFlow"
  let target ← required tag "targetRef" "sequenceFlow"
  .ok { id, name, source, target, conditions := [] }

/-- The outline after a tag inside the process that is no element's. -/
def openInProcess (o : Outline) (name : String) (tag : Markup.Tag) (empty : Bool) :
    Except ParseError Outline :=
  if name = "sequenceFlow" then do
    let f ← readFlow tag
    let o := { o with flow := some f }
    .ok (if empty then o.close name else o)
  else if name = "conditionExpression" then
    match o.flow with
    | some f =>
      let o := { o with flow := some { f with conditions := f.conditions ++ [""] } }
      .ok (if empty then o else { o with slot := some .condition })
    | none => .ok o
  else
    match o.element with
    | some e => o.openInElement e name tag empty
    | none => .ok o

/-- The outline after an opening tag, or an empty one. -/
def openTag (o : Outline) (tag : Markup.Tag) (empty : Bool) : Except ParseError Outline :=
  let name := String.ofList (Markup.localName tag.name)
  if name = "process" then
    match o.head with
    | some _ => .ok o
    | none => do
      let id ← required tag "id" "process"
      let title ← orEmpty tag "name"
      .ok { o with head := some (id, title), inside := !empty }
  else if name = "message" ∧ o.element.isNone then do
    let id ← optional tag "id"
    match id with
    | none => .ok o
    | some id =>
      let title ← orEmpty tag "name"
      .ok { o with messages := o.messages ++ [(id, title)] }
  else if !o.inside then .ok o
  else
    match ElementKind.ofTag? name with
    | some kind =>
      if o.element.isSome then .ok o
      else do
        let id ← required tag "id" "element"
        let title ← orEmpty tag "name"
        let o := { o with element := some (Element.bare id title kind) }
        .ok (if empty then o.close name else o)
    | none => o.openInProcess name tag empty

/-- A text list with something added to its last text. -/
def appendToLast (texts : List String) (more : String) : List String :=
  match texts with
  | [] => []
  | [last] => [last ++ more]
  | first :: rest => first :: appendToLast rest more

/-- The outline after a text in a slot. -/
def pushText (o : Outline) (slot : TextSlot) (text : String) : Outline :=
  match slot with
  | .condition =>
    { o with flow := o.flow.map fun f =>
        { f with conditions := appendToLast f.conditions text } }
  | .incoming =>
    { o with element := o.element.map fun e =>
        { e with incoming := e.incoming ++ [Text.trim text] } }
  | .outgoing =>
    { o with element := o.element.map fun e =>
        { e with outgoing := e.outgoing ++ [Text.trim text] } }
  | .timeDuration =>
    { o with element := o.element.map fun e =>
        match e.event with
        | some (.timer duration) =>
          { e with event := some (.timer (some (duration.getD "" ++ Text.trim text))) }
        | _ => e }

/-- The outline after a token. -/
def step (o : Outline) : Markup.Token → Except ParseError Outline
  | .opening tag => o.openTag tag false
  | .empty tag => o.openTag tag true
  | .closing name => .ok (o.close (String.ofList (Markup.localName name)))
  | .text raw =>
    match o.slot with
    | none => .ok o
    | some slot =>
      match Markup.unescape raw with
      | some text => .ok (o.pushText slot text)
      | none => .error .badReference
  | .data raw =>
    match o.slot with
    | none => .ok o
    | some slot => .ok (o.pushText slot raw)
  | .aside => .ok o

/-- The outline after several tokens. -/
def run (o : Outline) : List Markup.Token → Except ParseError Outline
  | [] => .ok o
  | token :: tokens =>
    match o.step token with
    | .ok o => o.run tokens
    | .error e => .error e

end Outline

/-- A flow with its condition texts unescaped once more, where that succeeds. -/
def SequenceFlow.decoded (f : SequenceFlow) : SequenceFlow :=
  { f with conditions := f.conditions.map fun c => (Markup.unescape c).getD c }

/-- The first end of a flow that is no element's id. -/
def danglingEndpoint? (ids : List String) : List SequenceFlow → Option ParseError
  | [] => none
  | f :: fs =>
    if f.source ∉ ids then some (.unknownEndpoint f.id f.source)
    else if f.target ∉ ids then some (.unknownEndpoint f.id f.target)
    else danglingEndpoint? ids fs

/-- An element with the flows that end or start at it, where it has no texts
of its own for them. -/
def Element.linked (flows : List SequenceFlow) (e : Element) : Element :=
  { e with
    incoming :=
      if e.incoming.isEmpty then
        (flows.filter fun f => f.target == e.id).map SequenceFlow.id
      else e.incoming,
    outgoing :=
      if e.outgoing.isEmpty then
        (flows.filter fun f => f.source == e.id).map SequenceFlow.id
      else e.outgoing }

/-- The process of a finished outline. -/
def Outline.finish (o : Outline) : Except ParseError Diagram :=
  match o.head with
  | none => .error .noProcess
  | some (id, name) =>
    match danglingEndpoint? (o.elements.map Element.id) o.flows with
    | some e => .error e
    | none =>
      .ok { id, name, elements := o.elements.map (Element.linked o.flows),
            flows := o.flows.map SequenceFlow.decoded, messages := Keyed.ofList o.messages }

/-- The process of a document. -/
def Diagram.ofDocument (document : Markup.Document) : Except ParseError Diagram :=
  match Outline.start.run document.tokens with
  | .error e => .error e
  | .ok o => if document.sound then o.finish else .error .malformedMarkup

/-- The process that a source holds. -/
def Diagram.ofMarkup (source : String) : Except ParseError Diagram :=
  Diagram.ofDocument (.ofText source)

end ProcessEngine
