import ProcessEngine.Proofs.ElementErrors
import ProcessEngine.Proofs.MappingOutcomes
import ProcessEngine.Proofs.MessageLedger

/-!
# Outputs of events that fail

A link event evaluates its output mappings over the variables of the instance and
writes nothing unless all have values.  A message catch writes its outputs one
after another, over what the message has brought, so those in front of the first
one that fails stay written.

Main statement: `handle_outputs_failed`, on all three kinds of events at which an
output mapping can fail, and on what else they leave.  It is read off
`AllOrNothing` for the links and `Catches` for the messages, each of which tells
all outcomes.  A message catch whose first output fails keeps what the message
brought and nothing else.
-/

namespace ProcessEngine

namespace Run

section Outputs

variable {r : Run} {element : Nat} {e : Element} {origin : Option Nat} {cause : ExprError}

/-! ## Links -/

theorem openElement_same (r : Run) (element : Nat) (origin : Option Nat) (state : ActivityState)
    (continues : Bool) :
    (r.openElement element origin state continues).1.inst.vars = r.inst.vars ∧
      (r.openElement element origin state continues).1.inst.caught = r.inst.caught := by
  unfold openElement
  split
  · exact ⟨rfl, rfl⟩
  · rename_i hopen
    obtain ⟨-, -, rfl⟩ := open?_eq_some hopen
    exact ⟨rfl, rfl⟩

theorem writeOutputs_of_failsAt (h : FailsAt r.inst.vars e.outputs cause) :
    r.writeOutputs e = .error (.expression e.id e.name cause) := by
  rw [writeOutputs, Scope.childOf, propagateOutputs_of_failsAt h]

/-- The outputs of a link are written unless one of them fails. -/
theorem writeOutputs_failed {error : EngineError} (h : r.writeOutputs e = .error error) :
    ∃ cause, error = .expression e.id e.name cause ∧ FailsAt r.inst.vars e.outputs cause := by
  obtain ⟨values, houtputs⟩ | ⟨cause, hfails⟩ := outputs_or_failsAt r.inst.vars e.outputs
  · obtain ⟨scope, hwrite, -⟩ := propagateOutputs_of_outputs r.inst.vars houtputs
    rw [writeOutputs, Scope.childOf, hwrite] at h
    cases h
  · rw [writeOutputs_of_failsAt hfails] at h
    exact ⟨cause, (Except.error.inj h).symm, hfails⟩

/-- A link writes nothing if an output fails, and only then it fails at an expression. -/
structure AllOrNothing (r : Run) (e : Element) (r' : Run) (result : Except EngineError Step) :
    Prop where
  nothing : ∀ cause, FailsAt r.inst.vars e.outputs cause →
    r'.inst.vars = r.inst.vars ∧ ∃ error, result = .error error
  failed : ∀ cause, result = .error (.expression e.id e.name cause) →
    FailsAt r.inst.vars e.outputs cause

theorem openWriting_allOrNothing {r' : Run} {result : Except EngineError Step} {continues : Bool}
    {rest : Run → Step → Run × Step}
    (h : r.openWriting element e origin continues rest = (r', result)) :
    r.AllOrNothing e r' result := by
  unfold openWriting at h
  have hvars := (r.openElement_same element origin .completed continues).1
  split at h
  · rename_i hopen
    rw [hopen] at hvars
    cases h
    refine ⟨fun cause hfails => ⟨hvars, _, rfl⟩, fun cause hcause => ?_⟩
    cases (openElement_error (congrArg Prod.snd hopen)).symm.trans (Except.error.inj hcause)
  · rename_i r₁ step hopen
    rw [hopen] at hvars
    split at h
    · rename_i hwrite
      obtain ⟨first, rfl, hfirst⟩ := writeOutputs_failed hwrite
      cases h
      refine ⟨fun cause hfails => ⟨hvars, _, rfl⟩, fun cause hcause => ?_⟩
      cases hcause
      exact hvars ▸ hfirst
    · rename_i hwrite
      cases h
      refine ⟨fun cause hfails => ?_, fun cause hcause => nomatch hcause⟩
      rw [writeOutputs_of_failsAt (hvars ▸ hfails)] at hwrite
      cases hwrite

theorem linkThrow_allOrNothing {r' : Run} {result : Except EngineError Step} {link : String}
    (h : r.linkThrow element e link origin = (r', result)) : r.AllOrNothing e r' result := by
  cases htarget : linkTarget? r.diagram link with
  | none =>
      rw [linkThrow, htarget] at h
      cases h
      refine ⟨fun cause hfails => ⟨rfl, _, rfl⟩, fun cause hcause => ?_⟩
      cases hcause
  | some target =>
      rw [linkThrow_eq htarget] at h
      exact openWriting_allOrNothing h

/-! ## Messages -/

theorem openSubscription?_same {r₁ : Run} {n : Nat}
    (h : r.openSubscription? element e origin = some (r₁, n)) :
    r₁.inst.vars = r.inst.vars ∧ r₁.inst.caught = r.inst.caught := by
  unfold openSubscription? at h
  split at h
  · cases h
    exact ⟨rfl, rfl⟩
  · obtain ⟨-, -, rfl⟩ := open?_eq_some h
    exact ⟨rfl, rfl⟩

/-- An event is taken up: it is consumed, and its variables and then the outputs are written, as
far as these have values. -/
structure TakesUp (r : Run) (e : Element) (position : Nat) (event : CaughtEvent) (r' : Run)
    (error? : Option ExprError) : Prop where
  caught : r.inst.caught[position]? = some event
  fresh : event.consumed = false
  consumed : r'.inst.caught = (r.inst.consume position).caught
  written : applyMappings (Keyed.putAll r.inst.vars event.vars) e.outputs = (r'.inst.vars, error?)

/-- What a message catch comes to: no event is taken up, or one is and the catch fails just if
an output does. -/
inductive Catches (r : Run) (e : Element) (r' : Run) : Except EngineError Step → Prop
  | nothing {result : Except EngineError Step} (hvars : r'.inst.vars = r.inst.vars)
      (hcaught : r'.inst.caught = r.inst.caught)
      (hresult : ∀ cause, result ≠ .error (.expression e.id e.name cause)) : Catches r e r' result
  | done {position : Nat} {event : CaughtEvent} (step : Step)
      (h : r.TakesUp e position event r' none) : Catches r e r' (.ok step)
  | failed {position : Nat} {event : CaughtEvent} {cause : ExprError}
      (h : r.TakesUp e position event r' (some cause)) :
      Catches r e r' (.error (.expression e.id e.name cause))

theorem receive_takesUp {r' : Run} {position : Nat} {event : CaughtEvent}
    {error? : Option ExprError} {name : String}
    (hfind : r.inst.findUnconsumed? name = some position)
    (hevent : r.inst.caught[position]? = some event)
    (h : r.receive e position event = (r', error?)) : r.TakesUp e position event r' error? := by
  obtain ⟨⟨found, hfound, hfresh, -⟩, -⟩ := Instance.findUnconsumed?_eq_some.mp hfind
  obtain rfl := Option.some.inj (hfound.symm.trans hevent)
  cases h
  exact ⟨hevent, hfresh, rfl, rfl⟩

theorem TakesUp.congr {r₁ r₂ r' : Run} {position : Nat} {event : CaughtEvent}
    {error? : Option ExprError} (h : r₁.TakesUp e position event r₂ error?)
    (hvars : r₁.inst.vars = r.inst.vars) (hcaught : r₁.inst.caught = r.inst.caught)
    (hvars' : r'.inst.vars = r₂.inst.vars) (hcaught' : r'.inst.caught = r₂.inst.caught) :
    r.TakesUp e position event r' error? where
  caught := hcaught ▸ h.caught
  fresh := h.fresh
  consumed := by rw [hcaught', h.consumed, Instance.consume, hcaught, Instance.consume]
  written := by rw [hvars', ← hvars, h.written]

theorem winRace_vars (i : Instance) (origin : Option Nat) (branch : String) :
    (i.winRace origin branch).vars = i.vars := by
  cases origin <;> rfl

theorem messageCatch_catches {r' : Run} {result : Except EngineError Step}
    (h : r.messageCatch element e origin = (r', result)) : r.Catches e r' result := by
  unfold messageCatch at h
  split at h
  · cases h
    exact .nothing rfl rfl fun cause hcause => nomatch hcause
  · rename_i r₁ n hopen
    obtain ⟨hvars, hcaught⟩ := openSubscription?_same hopen
    have hnothing {r₂ : Run} {step : Step} (hvars' : r₂.inst.vars = r₁.inst.vars)
        (hcaught' : r₂.inst.caught = r₁.inst.caught) : r.Catches e r₂ (.ok step) :=
      .nothing (hvars'.trans hvars) (hcaught'.trans hcaught) fun cause hcause => nomatch hcause
    dsimp only at h
    split at h
    · cases h
      exact hnothing rfl rfl
    · split at h
      · cases h
        exact hnothing rfl rfl
      · split at h
        · cases h
          exact hnothing rfl rfl
        · rename_i position hfind
          split at h
          · cases h
            exact hnothing rfl rfl
          · rename_i event hevent
            split at h
            · rename_i r₂ error hreceive
              cases h
              exact .failed ((receive_takesUp hfind hevent hreceive).congr hvars hcaught rfl rfl)
            · rename_i r₂ hreceive
              cases h
              exact .done _ ((receive_takesUp hfind hevent hreceive).congr hvars hcaught
                (winRace_vars ..) (winRace_caught ..))

/-! ## Outputs that fail -/

/-- An output of a message catch fails when an event is consumed: `vars` is what the event brings
over the variables of the instance, and over that what the outputs in front have written. -/
structure Spoils (r : Run) (e : Element) (r' : Run) (position : Nat) (event : CaughtEvent)
    (done : List Mapping) (m : Mapping) (vars : Variables) (cause : ExprError) : Prop where
  message : ∃ ref, e.event = some (.message ref)
  fresh : r.inst.caught[position]? = some event ∧ event.consumed = false
  consumed : r'.inst.hasConsumedAt position = true
  outputs : ∃ rest, e.outputs = done ++ m :: rest
  written : applyMappings (Keyed.putAll r.inst.vars event.vars) done = (vars, none)
  fails : evaluate m.source vars = .error cause

section Spoils

variable {r' : Run} {position : Nat} {event : CaughtEvent} {done : List Mapping} {m : Mapping}
  {vars : Variables}

theorem TakesUp.position_eq {k : Nat} {c : CaughtEvent} {error? : Option ExprError}
    (h : r.TakesUp e position event r' error?) (hc : r.inst.caught[k]? = some c)
    (hfresh : c.consumed = false) (hconsumed : r'.inst.hasConsumedAt k = true) : position = k := by
  rw [Instance.hasConsumedAt, h.consumed] at hconsumed
  obtain ⟨d, hd, hdone⟩ := (Option.any_eq_true _ _).mp hconsumed
  obtain ⟨c', hc', -, hd⟩ := Instance.caught_consume hd
  obtain rfl : c = c' := Option.some.inj (hc.symm.trans hc')
  by_contra hne
  rw [if_neg hne, hfresh] at hd
  rw [hd] at hdone
  cases hdone

theorem TakesUp.exists_spoils (h : r.TakesUp e position event r' (some cause))
    (hmessage : ∃ ref, e.event = some (.message ref)) :
    ∃ done m, r.Spoils e r' position event done m r'.inst.vars cause := by
  obtain ⟨done, m, rest, houtputs, hwritten, hfails⟩ := applyMappings_eq_error.mp h.written
  refine ⟨done, m, hmessage, ⟨h.caught, h.fresh⟩, ?_, ⟨rest, houtputs⟩, hwritten, hfails⟩
  simp [Instance.hasConsumedAt, h.consumed, Instance.consume, h.caught]

theorem Spoils.applied (h : r.Spoils e r' position event done m vars cause) :
    applyMappings (Keyed.putAll r.inst.vars event.vars) e.outputs = (vars, some cause) := by
  obtain ⟨rest, houtputs⟩ := h.outputs
  exact applyMappings_eq_error.mpr ⟨done, m, rest, houtputs, h.written, h.fails⟩

/-- A message catch at which an output fails leaves what was written in front of it. -/
theorem Spoils.of_catches {result : Except EngineError Step}
    (h : r.Spoils e r' position event done m vars cause) (hcatches : r.Catches e r' result) :
    result = .error (.expression e.id e.name cause) ∧ r'.inst.vars = vars := by
  have hwritten {k : Nat} {c : CaughtEvent} {error? : Option ExprError}
      (htakes : r.TakesUp e k c r' error?) : (r'.inst.vars, error?) = (vars, some cause) := by
    obtain rfl := htakes.position_eq h.fresh.1 h.fresh.2 h.consumed
    obtain rfl : c = event := Option.some.inj (htakes.caught.symm.trans h.fresh.1)
    exact htakes.written.symm.trans h.applied
  cases hcatches with
  | nothing _ hcaught =>
      have hconsumed := h.consumed
      rw [Instance.hasConsumedAt, hcaught, h.fresh.1, Option.any_some, h.fresh.2] at hconsumed
      cases hconsumed
  | done step htakes => cases congrArg Prod.snd (hwritten htakes)
  | failed htakes =>
      cases hwritten htakes
      exact ⟨rfl, rfl⟩

theorem Spoils.of_nil (h : r.Spoils e r' position event [] m vars cause) :
    vars = Keyed.putAll r.inst.vars event.vars :=
  (congrArg Prod.fst h.written).symm

/-- Nothing but the targets of the outputs in front differs from what the event brought. -/
theorem Spoils.get? (h : r.Spoils e r' position event done m vars cause) {name : String}
    (hname : name ∉ done.map Mapping.target) :
    Keyed.get? vars name = (Keyed.last? event.vars name).or (Keyed.get? r.inst.vars name) := by
  have hkept := get?_applyMappings (Keyed.putAll r.inst.vars event.vars) hname
  rw [h.written] at hkept
  rw [hkept, Keyed.get?_putAll]

end Spoils

/-! ## All events -/

section Events

variable {r' : Run} {result : Except EngineError Step}

/-- A catch event fails just as what it waits for does. -/
theorem catchEvent_body (h : r.catchEvent element e origin = (r', result)) :
    ∃ body, r.catchBody element e origin = (r', body) ∧
      ∀ error, result = .error error ↔ body = .error error := by
  unfold catchEvent at h
  split at h
  · rename_i hbody
    cases h
    exact ⟨_, hbody, fun error => Iff.rfl⟩
  · rename_i hbody
    cases h
    exact ⟨_, hbody, fun error => by simp⟩

theorem AllOrNothing.congr {body : Except EngineError Step} (h : r.AllOrNothing e r' body)
    (hbody : ∀ error, result = .error error ↔ body = .error error) :
    r.AllOrNothing e r' result where
  nothing cause hfails := by
    obtain ⟨hvars, error, herror⟩ := h.nothing cause hfails
    exact ⟨hvars, error, (hbody error).mpr herror⟩
  failed cause hcause := h.failed cause ((hbody _).mp hcause)

theorem Catches.congr {body : Except EngineError Step} (h : r.Catches e r' body)
    (hbody : ∀ error, result = .error error ↔ body = .error error) : r.Catches e r' result := by
  cases h with
  | nothing hvars hcaught hresult =>
      exact .nothing hvars hcaught fun cause hcause => hresult cause ((hbody _).mp hcause)
  | done step htakes =>
      cases result with
      | ok step => exact .done step htakes
      | error error => cases (hbody error).mp rfl
  | failed htakes =>
      obtain rfl := (hbody _).mpr rfl
      exact .failed htakes

/-- An element that is opened and waits for good. -/
theorem openElement_catches {state : ActivityState} {continues : Bool}
    (h : r.openElement element origin state continues = (r', result)) : r.Catches e r' result := by
  obtain ⟨hvars, hcaught⟩ := r.openElement_same element origin state continues
  rw [h] at hvars hcaught
  refine .nothing hvars hcaught fun cause hcause => ?_
  cases openElement_error ((congrArg Prod.snd h).trans hcause)

theorem handle_of_link {via : Option String} {link : String}
    (hkind : e.kind = .catchEvent ∨ e.kind = .throwEvent) (hevent : e.event = some (.link link))
    (h : r.handle element e origin via = (r', result)) : r.AllOrNothing e r' result := by
  obtain hkind | hkind := hkind <;> simp only [handle, hkind] at h
  · obtain ⟨body, hbody, hsame⟩ := catchEvent_body h
    simp only [catchBody, hevent, linkCatch_eq] at hbody
    exact (openWriting_allOrNothing hbody).congr hsame
  · simp only [throwEvent, Element.linkName?, hevent] at h
    exact linkThrow_allOrNothing h

theorem handle_of_message {via : Option String} {ref : Option String}
    (hkind : e.kind = .catchEvent ∨ e.kind = .throwEvent) (hevent : e.event = some (.message ref))
    (h : r.handle element e origin via = (r', result)) : r.Catches e r' result := by
  obtain hkind | hkind := hkind <;> simp only [handle, hkind] at h
  · obtain ⟨body, hbody, hsame⟩ := catchEvent_body h
    simp only [catchBody, hevent] at hbody
    exact (messageCatch_catches hbody).congr hsame
  · simp only [throwEvent, Element.linkName?, hevent] at h
    exact openElement_catches h

/-- Events without outputs do not fail at one. -/
theorem handle_of_other {via : Option String}
    (hkind : e.kind = .catchEvent ∨ e.kind = .throwEvent)
    (hlink : ∀ link, e.event ≠ some (.link link)) (hmessage : ∀ ref, e.event ≠ some (.message ref))
    (h : r.handle element e origin via = (r', result)) :
    result ≠ .error (.expression e.id e.name cause) := by
  rintro rfl
  obtain hkind | hkind := hkind <;> simp only [handle, hkind] at h
  · obtain ⟨body, hbody, hsame⟩ := catchEvent_body h
    obtain rfl := (hsame _).mp rfl
    unfold catchBody at hbody
    split at hbody
    · rename_i ref hevent
      exact hmessage ref hevent
    · obtain herror | ⟨text, fault, herror⟩ := timerCatch_error (congrArg Prod.snd hbody) <;>
        cases herror
    · rename_i link hevent
      exact hlink link hevent
    · cases openElement_error (congrArg Prod.snd hbody)
  · unfold throwEvent at h
    split at h
    · rename_i link hname
      unfold Element.linkName? at hname
      split at hname
      · rename_i hevent
        exact hlink _ hevent
      · cases hname
    · cases openElement_error (congrArg Prod.snd h)

/-- **What is left of the variables when an output of an event fails.**  A link has written none
of its targets.  A message catch has the variables of the event that it consumed, and over them the
targets of the outputs in front of the one that failed, each evaluated over what was written before
it: it has written no target just if the first output is the one that fails.  In no other way does
an event fail at an expression. -/
theorem handle_outputs_failed {via : Option String}
    (hkind : e.kind = .catchEvent ∨ e.kind = .throwEvent)
    (h : r.handle element e origin via = (r', result)) :
    (∀ link, e.event = some (.link link) → ∀ cause, FailsAt r.inst.vars e.outputs cause →
        r'.inst.vars = r.inst.vars ∧ ∃ error, result = .error error) ∧
      (∀ position event done m vars cause, r.Spoils e r' position event done m vars cause →
        result = .error (.expression e.id e.name cause) ∧ r'.inst.vars = vars ∧
          (done = [] → vars = Keyed.putAll r.inst.vars event.vars) ∧
          ∀ name, name ∉ done.map Mapping.target → Keyed.get? vars name =
            (Keyed.last? event.vars name).or (Keyed.get? r.inst.vars name)) ∧
      ∀ cause, result = .error (.expression e.id e.name cause) →
        (∃ link, e.event = some (.link link) ∧ FailsAt r.inst.vars e.outputs cause) ∨
          ∃ position event done m, r.Spoils e r' position event done m r'.inst.vars cause := by
  refine ⟨fun link hevent => (handle_of_link hkind hevent h).nothing,
    fun position event done m vars cause hspoils => ?_, fun cause hcause => ?_⟩
  · obtain ⟨ref, hevent⟩ := hspoils.message
    obtain ⟨hresult, hvars⟩ := hspoils.of_catches (handle_of_message hkind hevent h)
    refine ⟨hresult, hvars, ?_, fun name hname => hspoils.get? hname⟩
    rintro rfl
    exact hspoils.of_nil
  · by_cases hlink : ∃ link, e.event = some (.link link)
    · obtain ⟨link, hevent⟩ := hlink
      exact .inl ⟨link, hevent, (handle_of_link hkind hevent h).failed cause hcause⟩
    by_cases hmessage : ∃ ref, e.event = some (.message ref)
    · obtain ⟨ref, hevent⟩ := hmessage
      cases handle_of_message hkind hevent h with
      | nothing _ _ hresult => exact absurd hcause (hresult cause)
      | done step _ => cases hcause
      | failed htakes =>
          cases hcause
          exact .inr ⟨_, _, htakes.exists_spoils ⟨ref, hevent⟩⟩
    · exact absurd hcause
        (handle_of_other hkind (not_exists.mp hlink) (not_exists.mp hmessage) h)

end Events

end Outputs

end Run

/-! ## A message catch -/

private def spoiltSource : List String :=
  ["<process id='p'><startEvent id='s'/><intermediateCatchEvent id='c' name='m'>",
    "<messageEventDefinition/><output source='1' target='a'/>",
    "<output source='missing' target='b'/></intermediateCatchEvent>",
    "<sequenceFlow id='1' sourceRef='s' targetRef='c'/></process>"]

private def spoiltCatch : Element :=
  { Element.bare "c" "m" .catchEvent with
    incoming := ["1"], event := some (.message none), outputs := [⟨"1", "a"⟩, ⟨"missing", "b"⟩] }

private def spoiltDiagram : Diagram :=
  { id := "p", name := "",
    elements := [{ Element.bare "s" "" .startEvent with outgoing := ["1"] }, spoiltCatch],
    flows := [⟨"1", "", "s", "c", []⟩], messages := [] }

private theorem ofMarkup_spoiltSource :
    Diagram.ofMarkup (String.join spoiltSource) = .ok spoiltDiagram :=
  Engine.ofMarkup_join (by decide +kernel)

/-- The catch fails at an output, after which the instance has the variables `a` and `x`. -/
private def failsWith (out : Handled) : Bool :=
  match out.2 with
  | .error (.expression id name _) =>
    id == "c" && name == "m" && Keyed.has out.1.inst.vars "a" && Keyed.has out.1.inst.vars "x"
  | _ => false

private theorem exists_of_failsWith {out : Handled} (h : failsWith out = true) :
    ∃ r' cause, out = (r', .error (.expression "c" "m" cause)) ∧
      Keyed.has r'.inst.vars "a" = true := by
  obtain ⟨r', result⟩ := out
  unfold failsWith at h
  split at h
  · rename_i id name cause hresult
    simp only [Bool.and_eq_true, beq_iff_eq] at h
    obtain ⟨⟨⟨rfl, rfl⟩, ha⟩, -⟩ := h
    exact ⟨r', cause, by rw [← hresult], ha⟩
  · cases h

private theorem exists_spoilt :
    ∃ e, Engine.Reachable (· = .default) e ∧ ∃ i, e.instances[0]? = some i ∧
      i.diagram.elements[1]? = some spoiltCatch ∧
      (∀ event ∈ i.caught, Keyed.has (Keyed.putAll i.vars event.vars) "a" = false) ∧
      ∃ r' cause, (e.lend i).handle 1 spoiltCatch none none =
        (r', .error (.expression "c" "m" cause)) ∧ Keyed.has r'.inst.vars "a" = true := by
  obtain ⟨e, hreachable, htest⟩ := Engine.exists_reachable ofMarkup_spoiltSource 100
    [.create 1 [], .publish 2 "m" [("x", .ofInt 1)]]
    (fun e => e.instances[0]?.any fun i =>
      decide (i.diagram.elements[1]? = some spoiltCatch) &&
        i.caught.all (fun event => !Keyed.has (Keyed.putAll i.vars event.vars) "a") &&
        failsWith ((e.lend i).handle 1 spoiltCatch none none)) (by decide +kernel)
  obtain ⟨i, hi, htest⟩ := (Option.any_eq_true _ _).mp htest
  simp only [Bool.and_eq_true, decide_eq_true_eq, List.all_eq_true, Bool.not_eq_true'] at htest
  obtain ⟨⟨helement, hcaught⟩, hfails⟩ := htest
  exact ⟨e, hreachable, i, hi, helement, hcaught, exists_of_failsWith hfails⟩

/-- A message catch whose second output fails: nothing but the target of the first one differs
from what the message brought. -/
theorem handle_outputs_failed_at_message :
    ∃ e, Engine.Reachable (· = .default) e ∧ ∃ i, e.instances[0]? = some i ∧
      i.diagram.elements[1]? = some spoiltCatch ∧ spoiltCatch.kind = .catchEvent ∧
      ∃ r' cause, (e.lend i).handle 1 spoiltCatch none none =
          (r', .error (.expression spoiltCatch.id spoiltCatch.name cause)) ∧
        ∃ event ∈ i.caught, ∀ name, name ≠ "a" → name ≠ "b" → Keyed.get? r'.inst.vars name =
          (Keyed.last? event.vars name).or (Keyed.get? i.vars name) := by
  obtain ⟨e, hreachable, i, hi, helement, -, r', cause, hhandle, -⟩ := exists_spoilt
  refine ⟨e, hreachable, i, hi, helement, rfl, r', cause, hhandle, ?_⟩
  obtain ⟨-, hspoilt, hfailed⟩ := Run.handle_outputs_failed (e := spoiltCatch) (.inl rfl) hhandle
  obtain ⟨link, hlink, -⟩ | ⟨position, event, done, m, hspoils⟩ := hfailed cause rfl
  · cases hlink
  · obtain ⟨-, -, -, hkept⟩ := hspoilt position event done m _ cause hspoils
    refine ⟨event, List.mem_of_getElem? hspoils.fresh.1, fun name ha hb => ?_⟩
    refine hkept name fun hmem => ?_
    obtain ⟨rest, houtputs⟩ := hspoils.outputs
    have htarget : name ∈ spoiltCatch.outputs.map Mapping.target := by
      rw [houtputs, List.map_append]
      exact List.mem_append_left _ hmem
    simp [spoiltCatch, ha, hb] at htarget

/-- The output in front of the one that fails has been written, over neither the variables from
before nor what the message brought. -/
theorem outputs_in_front_stay_written :
    ∃ e, Engine.Reachable (· = .default) e ∧ ∃ i, e.instances[0]? = some i ∧
      i.diagram.elements[1]? = some spoiltCatch ∧
      ∃ r' cause, (e.lend i).handle 1 spoiltCatch none none =
          (r', .error (.expression spoiltCatch.id spoiltCatch.name cause)) ∧
        ∀ event ∈ i.caught, r'.inst.vars ≠ Keyed.putAll i.vars event.vars := by
  obtain ⟨e, hreachable, i, hi, helement, habsent, r', cause, hhandle, hwritten⟩ := exists_spoilt
  refine ⟨e, hreachable, i, hi, helement, r', cause, hhandle, fun event hevent hsame => ?_⟩
  rw [hsame, habsent event hevent] at hwritten
  cases hwritten

end ProcessEngine
