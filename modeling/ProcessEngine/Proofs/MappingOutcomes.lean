import Mathlib.Data.List.Forall2
import ProcessEngine.Scope

/-!
# What mappings write

Mappings are applied in two ways.  Each may see what the ones before it have
written, and then a failure keeps those writes; or all of them are evaluated over
the same variables, and nothing is written unless all have values.  Here each of
the two comes to what a look-up finds afterwards: of several values for a name
the last one counts.

Main statements: `get?_putAll`, and for the mappings that fail
`evaluateMappings_eq_error` and `applyMappings_eq_error`.
-/

namespace ProcessEngine

/-- Whether a result is a certain whole number.  Values have no decidable equality, so fixed
results are found by a test. -/
def isWhole (n : Int) : Except ExprError Json → Bool
  | .ok (.number (.whole m)) => decide (m = n)
  | _ => false

theorem eq_of_isWhole {n : Int} {result : Except ExprError Json} (h : isWhole n result = true) :
    result = .ok (.ofInt n) := by
  unfold isWhole at h
  split at h
  · rw [of_decide_eq_true h, Json.ofInt]
  · cases h

/-! ## Several values -/

namespace Keyed

variable {α : Type}

/-- The last value that some entries give to a key. -/
def last? (entries : List (String × α)) (key : String) : Option α :=
  (entries.reverse.find? fun entry => entry.1 == key).map Prod.snd

/-- **A look-up behind several values** finds the last one of its key, or else what was there
before. -/
theorem get?_putAll (xs : Keyed α) (entries : List (String × α)) (key : String) :
    get? (putAll xs entries) key = (last? entries key).or (get? xs key) := by
  induction entries generalizing xs with
  | nil => rfl
  | cons entry rest ih =>
      change get? (putAll (put xs entry.1 entry.2) rest) key = _
      rw [ih, last?, last?, List.reverse_cons, List.find?_append]
      cases rest.reverse.find? fun entry => entry.1 == key with
      | some later => rfl
      | none =>
          by_cases hkey : entry.1 = key
          · simp [hkey, get?_put_self]
          · simp [hkey, get?_put_of_ne]

end Keyed

/-! ## All at once -/

/-- An entry is the target of a mapping with its value over some variables. -/
def Mapping.Gives (vars : Variables) (m : Mapping) (entry : String × Json) : Prop :=
  entry.1 = m.target ∧ evaluate m.source vars = .ok entry.2

/-- Some mappings have no value over variables, and this is the error of the first of them. -/
def FailsAt (vars : Variables) (ms : List Mapping) (error : ExprError) : Prop :=
  ∃ done m rest, ms = done ++ m :: rest ∧
    (∀ m' ∈ done, ∃ value, evaluate m'.source vars = .ok value) ∧
    evaluate m.source vars = .error error

variable {vars vars' : Variables} {ms : List Mapping} {values : List (String × Json)}
  {error : ExprError}

theorem evaluateMappings_eq_ok :
    evaluateMappings vars ms = .ok values ↔ List.Forall₂ (Mapping.Gives vars) ms values := by
  induction ms generalizing values with
  | nil => simp [evaluateMappings, eq_comm]
  | cons m ms ih =>
      rw [evaluateMappings]
      cases hvalue : evaluate m.source vars with
      | error error =>
          refine iff_of_false (fun h => by cases h) fun h => ?_
          obtain _ | ⟨⟨-, hgives⟩, -⟩ := h
          rw [hvalue] at hgives
          cases hgives
      | ok value =>
          cases hrest : evaluateMappings vars ms with
          | error error =>
              refine iff_of_false (fun h => by cases h) fun h => ?_
              obtain _ | ⟨-, htail⟩ := h
              rw [ih.mpr htail] at hrest
              cases hrest
          | ok rest =>
              constructor
              · intro h
                cases h
                exact .cons ⟨rfl, hvalue⟩ (ih.mp hrest)
              · intro h
                obtain _ | @⟨_, ⟨key, v⟩, _, vs, ⟨hkey, hgives⟩, htail⟩ := h
                rw [ih.mpr htail] at hrest
                rw [hvalue] at hgives
                cases hrest
                cases hgives
                cases hkey
                rfl

theorem evaluateMappings_eq_error :
    evaluateMappings vars ms = .error error ↔ FailsAt vars ms error := by
  induction ms with
  | nil => simp [evaluateMappings, FailsAt]
  | cons m ms ih =>
      rw [evaluateMappings]
      cases hvalue : evaluate m.source vars with
      | error first =>
          constructor
          · intro h
            cases h
            exact ⟨[], m, ms, rfl, by simp, hvalue⟩
          · rintro ⟨_ | ⟨m', done⟩, m₁, rest, heq, hdone, hfail⟩
            · cases heq
              rw [hvalue] at hfail
              cases hfail
              rfl
            · cases heq
              obtain ⟨value, hok⟩ := hdone _ List.mem_cons_self
              rw [hvalue] at hok
              cases hok
      | ok value =>
          have hcons : FailsAt vars ms error ↔ FailsAt vars (m :: ms) error := by
            constructor
            · rintro ⟨done, m₁, rest, rfl, hdone, hfail⟩
              refine ⟨m :: done, m₁, rest, rfl, fun m' hm' => ?_, hfail⟩
              rcases List.mem_cons.mp hm' with rfl | hm'
              · exact ⟨value, hvalue⟩
              · exact hdone m' hm'
            · rintro ⟨_ | ⟨m', done⟩, m₁, rest, heq, hdone, hfail⟩
              · cases heq
                rw [hvalue] at hfail
                cases hfail
              · cases heq
                exact ⟨done, m₁, rest, rfl, fun m' hm' => hdone m' (List.mem_cons_of_mem _ hm'),
                  hfail⟩
          rw [← hcons, ← ih]
          cases hrest : evaluateMappings vars ms <;> simp

theorem parent_propagateAll (scope : Scope) (values : List (String × Json)) :
    (scope.propagateAll values).parent =
      scope.parent.map fun vars => Keyed.putAll vars values := by
  unfold Scope.propagateAll
  induction values generalizing scope with
  | nil => cases scope with | mk vars parent => cases parent <;> rfl
  | cons value values ih =>
      rw [List.foldl_cons, ih, Scope.propagate, Option.map_map]
      rfl

/-- What output mappings give in a scope: their values, or all of the scope if there are none. -/
def Outputs (scope : Variables) (outputs : List Mapping) (values : List (String × Json)) : Prop :=
  if outputs = [] then values = scope
  else List.Forall₂ (Mapping.Gives scope) outputs values

/-- Outputs that have values are written into the parent. -/
theorem propagateOutputs_of_outputs (old : Variables) {outputs : List Mapping}
    (h : Outputs vars outputs values) : ∃ scope : Scope,
      Scope.propagateOutputs ⟨vars, some old⟩ outputs = .ok scope ∧
        scope.parent = some (Keyed.putAll old values) := by
  unfold Outputs at h
  unfold Scope.propagateOutputs
  split at h
  · rename_i hnone
    subst h
    exact ⟨_, if_pos (by simp [hnone]), parent_propagateAll _ _⟩
  · rename_i hsome
    rw [if_neg (by simpa using hsome), evaluateMappings_eq_ok.mpr h]
    exact ⟨_, rfl, parent_propagateAll _ _⟩

/-- Outputs have values, or one of them fails. -/
theorem outputs_or_failsAt (vars : Variables) (outputs : List Mapping) :
    (∃ values, Outputs vars outputs values) ∨ ∃ error, FailsAt vars outputs error := by
  cases outputs with
  | nil => exact .inl ⟨vars, by simp [Outputs]⟩
  | cons m ms =>
      cases hvalues : evaluateMappings vars (m :: ms) with
      | ok values => exact .inl ⟨values, by simpa [Outputs] using evaluateMappings_eq_ok.mp hvalues⟩
      | error error => exact .inr ⟨error, evaluateMappings_eq_error.mp hvalues⟩

theorem FailsAt.ne_nil (h : FailsAt vars ms error) : ms ≠ [] := by
  obtain ⟨done, m, rest, rfl, -⟩ := h
  simp

theorem propagateOutputs_of_failsAt {old : Option Variables} {outputs : List Mapping}
    (h : FailsAt vars outputs error) :
    Scope.propagateOutputs ⟨vars, old⟩ outputs = .error error := by
  rw [Scope.propagateOutputs, if_neg (by simpa using h.ne_nil), evaluateMappings_eq_error.mpr h]

/-! ## One after another -/

/-- The first mapping that fails ends the others: those before it have been written, and it fails
over what they wrote. -/
theorem applyMappings_eq_error :
    applyMappings vars ms = (vars', some error) ↔
      ∃ done m rest, ms = done ++ m :: rest ∧ applyMappings vars done = (vars', none) ∧
        evaluate m.source vars' = .error error := by
  induction ms generalizing vars with
  | nil => simp [applyMappings]
  | cons m ms ih =>
      rw [applyMappings]
      cases hvalue : evaluate m.source vars with
      | error first =>
          constructor
          · intro h
            cases h
            exact ⟨[], m, ms, rfl, rfl, hvalue⟩
          · rintro ⟨_ | ⟨m', done⟩, m₁, rest, heq, hdone, hfail⟩
            · cases heq
              cases hdone
              rw [hvalue] at hfail
              cases hfail
              rfl
            · cases heq
              rw [applyMappings, hvalue] at hdone
              cases hdone
      | ok value =>
          dsimp only
          rw [ih]
          constructor
          · rintro ⟨done, m₁, rest, rfl, hdone, hfail⟩
            exact ⟨m :: done, m₁, rest, rfl, by rw [applyMappings, hvalue]; exact hdone, hfail⟩
          · rintro ⟨_ | ⟨m', done⟩, m₁, rest, heq, hdone, hfail⟩
            · cases heq
              cases hdone
              rw [hvalue] at hfail
              cases hfail
            · cases heq
              rw [applyMappings, hvalue] at hdone
              exact ⟨done, m₁, rest, rfl, hdone, hfail⟩

/-- Mappings change nothing but their targets. -/
theorem get?_applyMappings (vars : Variables) {ms : List Mapping} {name : String}
    (h : name ∉ ms.map Mapping.target) :
    Keyed.get? (applyMappings vars ms).1 name = Keyed.get? vars name := by
  induction ms generalizing vars with
  | nil => rfl
  | cons m ms ih =>
      rw [List.map_cons, List.mem_cons, not_or] at h
      rw [applyMappings]
      cases evaluate m.source vars with
      | error error => rfl
      | ok value =>
          exact (ih _ h.2).trans (Keyed.get?_put_of_ne _ _ (Ne.symm h.1))

end ProcessEngine
