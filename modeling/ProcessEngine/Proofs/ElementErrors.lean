import ProcessEngine.Interpreter.Drain

/-!
# Errors of elements

Handling an element can fail for want of a key, at an expression of the element,
at the duration of its timer or at its link.  All of these errors but the first
name the element; none tells that an element is missing.

Main statement: `handle_error`, from one lemma for each handler.
-/

namespace ProcessEngine

/-- Why handling an element can fail. -/
inductive EngineError.OfElement (e : Element) : EngineError → Prop
  | keys : OfElement e .keysExhausted
  | expression (cause : ExprError) : OfElement e (.expression e.id e.name cause)
  | timer (duration : String) (fault : TimerFault) :
      OfElement e (.invalidTimer e.id duration fault)
  | link (link : String) : OfElement e (.missingLink e.id link)

theorem EngineError.OfElement.of_keys {e : Element} {error : EngineError}
    (h : error = .keysExhausted) : error.OfElement e :=
  h ▸ .keys

theorem EngineError.OfElement.ne {e : Element} {error : EngineError} (h : error.OfElement e)
    (id : String) : error ≠ .elementNotFound id := by
  rintro rfl
  cases h

namespace Run

section Errors

variable {r : Run} {element : Nat} {e : Element} {origin : Option Nat} {error : EngineError}

theorem openElement_error {state : ActivityState} {continues : Bool}
    (h : (r.openElement element origin state continues).2 = .error error) :
    error = .keysExhausted := by
  unfold openElement at h
  split at h <;> cases h
  rfl

theorem endEvent_error (h : (r.endEvent element e origin).2 = .error error) :
    error.OfElement e := by
  unfold endEvent at h
  split at h
  · rename_i hopen
    cases h
    exact .of_keys (openElement_error (congrArg Prod.snd hopen))
  · dsimp only at h
    split at h <;> cases h

theorem finishJob_error {n : Nat} {attempt : Attempt}
    (h : (r.finishJob e n attempt).2 = .error error) : error.OfElement e := by
  cases attempt <;> cases h
  exact .expression _

theorem handleJob_error (h : (r.handleJob element e origin).2 = .error error) :
    error.OfElement e := by
  unfold handleJob at h
  split at h
  · cases h
    exact .keys
  · split at h
    · cases h
    · split at h
      · split at h
        · cases h
        · exact finishJob_error h
      · cases h

theorem parallelGateway_error {via : Option String}
    (h : (r.parallelGateway element e origin via).2 = .error error) : error.OfElement e := by
  unfold parallelGateway at h
  split at h
  · cases h
    exact .keys
  · dsimp only at h
    generalize hfires : gatewayFires _ _ _ = fires at h
    cases fires <;> cases h

theorem eventBasedGateway_error (h : (r.eventBasedGateway element origin).2 = .error error) :
    error.OfElement e := by
  unfold eventBasedGateway at h
  split at h <;> cases h
  exact .keys

theorem messageCatch_error (h : (r.messageCatch element e origin).2 = .error error) :
    error.OfElement e := by
  unfold messageCatch at h
  split at h
  · cases h
    exact .keys
  · dsimp only at h
    split at h
    · cases h
    · split at h
      · cases h
      · split at h
        · cases h
        · split at h
          · cases h
          · split at h <;> cases h
            exact .expression _

/-- A timer fails for want of a key, or at its duration. -/
theorem openTimer_error {duration : Option String}
    (h : r.openTimer element e duration origin = .error error) :
    error = .keysExhausted ∨ ∃ text fault, error = .invalidTimer e.id text fault := by
  unfold openTimer at h
  split at h
  · cases h
  · split at h
    · rename_i hmillis
      cases h
      unfold timerMillis at hmillis
      dsimp only at hmillis
      split at hmillis
      · cases hmillis
        exact .inr ⟨_, _, rfl⟩
      · split at hmillis <;> cases hmillis
        exact .inr ⟨_, _, rfl⟩
    · split at h <;> cases h
      exact .inl rfl

theorem timerCatch_error {duration : Option String}
    (h : (r.timerCatch element e duration origin).2 = .error error) :
    error = .keysExhausted ∨ ∃ text fault, error = .invalidTimer e.id text fault := by
  unfold timerCatch at h
  split at h
  · rename_i hopen
    cases h
    exact openTimer_error hopen
  · dsimp only at h
    split at h
    · cases h
    · split at h
      · cases h
      · split at h <;> cases h

theorem writeOutputs_error (h : r.writeOutputs e = .error error) : error.OfElement e := by
  unfold writeOutputs at h
  split at h <;> cases h
  exact .expression _

/-- An element that is opened and then writes its outputs, if it can.  Both links are of this
kind; they differ in what they do in the end. -/
def openWriting (r : Run) (element : Nat) (e : Element) (origin : Option Nat) (continues : Bool)
    (rest : Run → Step → Run × Step) : Handled :=
  match r.openElement element origin .completed continues with
  | (r, .error error) => (r, .error error)
  | (r, .ok step) =>
    match r.writeOutputs e with
    | .error error => (r, .error error)
    | .ok r => ((rest r step).1, .ok (rest r step).2)

theorem linkCatch_eq (r : Run) (element : Nat) (e : Element) (origin : Option Nat) :
    r.linkCatch element e origin =
      r.openWriting element e origin true fun r step => (r, step) := rfl

theorem linkThrow_eq {link : String} {target : Nat}
    (h : linkTarget? r.diagram link = some target) :
    r.linkThrow element e link origin = r.openWriting element e origin false fun r step =>
      (r.reportElement e .completed,
        { step with extra := [.enter target (some step.activity) none] }) := by
  rw [linkThrow, h]
  rfl

theorem openWriting_error {continues : Bool} {rest : Run → Step → Run × Step}
    (h : (r.openWriting element e origin continues rest).2 = .error error) :
    error.OfElement e := by
  unfold openWriting at h
  split at h
  · rename_i hopen
    cases h
    exact .of_keys (openElement_error (congrArg Prod.snd hopen))
  · split at h
    · rename_i hwrite
      cases h
      exact writeOutputs_error hwrite
    · cases h

theorem linkThrow_error {link : String}
    (h : (r.linkThrow element e link origin).2 = .error error) : error.OfElement e := by
  cases htarget : linkTarget? r.diagram link with
  | none =>
      rw [linkThrow, htarget] at h
      cases h
      exact .link link
  | some target =>
      rw [linkThrow_eq htarget] at h
      exact openWriting_error h

theorem catchEvent_error (h : (r.catchEvent element e origin).2 = .error error) :
    error.OfElement e := by
  unfold catchEvent at h
  split at h
  · rename_i hbody
    cases h
    have hbody := congrArg Prod.snd hbody
    unfold catchBody at hbody
    split at hbody
    · exact messageCatch_error hbody
    · obtain rfl | ⟨text, fault, rfl⟩ := timerCatch_error hbody
      · exact .keys
      · exact .timer text fault
    · exact openWriting_error (linkCatch_eq .. ▸ hbody)
    · exact .of_keys (openElement_error hbody)
  · cases h

theorem throwEvent_error (h : (r.throwEvent element e origin).2 = .error error) :
    error.OfElement e := by
  unfold throwEvent at h
  split at h
  · exact linkThrow_error h
  · exact .of_keys (openElement_error h)

/-- Handling an element fails for one of the listed reasons. -/
theorem handle_error {via : Option String} (h : (r.handle element e origin via).2 = .error error) :
    error.OfElement e := by
  unfold handle at h
  split at h
  · exact .of_keys (openElement_error h)
  · exact .of_keys (openElement_error h)
  · exact endEvent_error h
  · exact handleJob_error h
  · exact handleJob_error h
  · exact parallelGateway_error h
  · exact eventBasedGateway_error h
  · exact catchEvent_error h
  · exact throwEvent_error h

end Errors

end Run

end ProcessEngine
