import ProcessEngine.Engine.Basic
import ProcessEngine.Text.Quoted

/-!
# Engine summary

One line about an engine: its name, how much it holds, and its handlers.
-/

namespace ProcessEngine

/-- A matcher with its argument. -/
def TaskMatcher.text : TaskMatcher → String
  | .id wanted => "Id(" ++ Text.quote wanted ++ ")"
  | .taskType t => "Type(" ++ Text.quote t ++ ")"
  | .assignee a => "Assignee(" ++ Text.quote a ++ ")"
  | .candidateGroups groups => "CandidateGroups(" ++ Text.quoteList groups ++ ")"

/-- The summary of an engine. -/
def Engine.summary (e : Engine) : String :=
  "BpmnEngine \x7b name: " ++ Text.quote e.name ++
    ", definitions: " ++ toString e.definitions.length ++
    ", instances: " ++ toString e.instances.length ++
    ", handlers: [" ++
      String.intercalate ", " (e.registrations.map fun g => g.accepts.text) ++
    "], .. \x7d"

end ProcessEngine
