import ProcessEngine.Diagram.Outline
import ProcessEngine.Expr.Message
import ProcessEngine.Time.Duration

/-!
# Engine errors

The causes for which an operation on an engine fails, each with one wording.
-/

namespace ProcessEngine

/-- Why a timer cannot be set. -/
inductive TimerFault where
  | missing
  | unreadable (error : DurationError)
deriving Repr, DecidableEq

/-- The text of a timer fault. -/
def TimerFault.message : TimerFault → String
  | missing => "missing timeDuration"
  | unreadable error => error.message

/-- Why a snapshot cannot be restored. -/
inductive RestoreError where
  | malformed
  | unsupportedVersion (version : Int)
  | notBase64
  | notInflatable
  | checksumMismatch (definitionKey : Int) (expected found : String)
  | unknownDefinition (instanceKey definitionKey : Int)
  | unknownElement (instanceKey : Int) (elementId : String)
  | unknownOrigin (instanceKey originKey : Int)
deriving Repr, DecidableEq

/-- The text of a restore error. -/
def RestoreError.message : RestoreError → String
  | malformed => "malformed snapshot"
  | unsupportedVersion version => "unsupported snapshot version " ++ toString version
  | notBase64 => "definition source is not valid base64"
  | notInflatable => "definition source does not inflate"
  | checksumMismatch key expected found =>
    "checksum mismatch for process key=" ++ toString key ++ ": expected " ++ expected ++
      ", got " ++ found
  | unknownDefinition instanceKey definitionKey =>
    "instance key=" ++ toString instanceKey ++ " refers to unknown process key=" ++
      toString definitionKey
  | unknownElement instanceKey elementId =>
    "instance key=" ++ toString instanceKey ++ " refers to unknown element id='" ++
      elementId ++ "'"
  | unknownOrigin instanceKey originKey =>
    "instance key=" ++ toString instanceKey ++ " refers to unknown origin activity key=" ++
      toString originKey

/-- Why an operation on an engine fails. -/
inductive EngineError where
  | parse (error : ParseError)
  | unreadableFile
  | unknownDefinition (key : Int)
  | unknownDefinitionId (id : String)
  | unknownInstance (key : Int)
  | elementNotFound (id : String)
  | invalidTimer (elementId duration : String) (fault : TimerFault)
  | missingLink (elementId link : String)
  | keysExhausted
  | expression (elementId elementName : String) (cause : ExprError)
  | restore (error : RestoreError)

/-- The text of an engine error. -/
def EngineError.message : EngineError → String
  | parse error => "failed to parse BPMN definition: " ++ error.message
  | unreadableFile => "I/O error"
  | unknownDefinition key => "no process definition with key=" ++ toString key
  | unknownDefinitionId id => "no process definition with id='" ++ id ++ "'"
  | unknownInstance key => "no process instance with key=" ++ toString key
  | elementNotFound id => "element '" ++ id ++ "' not found in process definition"
  | invalidTimer elementId duration fault =>
    "invalid timer duration '" ++ duration ++ "' on element id='" ++ elementId ++ "': " ++
      fault.message
  | missingLink elementId link =>
    "link throw event id='" ++ elementId ++ "' has no matching catch event for link '" ++
      link ++ "'"
  | keysExhausted => "key generation failed: key space exhausted"
  | expression elementId elementName _ =>
    "cannot evaluate expression in element id='" ++ elementId ++ "' name='" ++
      elementName ++ "'"
  | restore error => "restore failed: " ++ error.message

end ProcessEngine
