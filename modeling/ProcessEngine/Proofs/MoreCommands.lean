import ProcessEngine.Proofs.DrainSteps
import ProcessEngine.Proofs.EngineOperations

/-!
# More commands than needed

The number of commands that a run may take is there to bound it.  Where it has
sufficed, a greater one comes to the same.

Main statement: `performAll?_mono`.
-/

namespace ProcessEngine

namespace Run

/-- A command that is not a failure is dispatched. -/
theorem drain?_cons {c : Command} (hc : c.isFailure = false) (fuel : Nat) (r : Run)
    (queue : List Command) : drain? (fuel + 1) r (c :: queue) =
      drain? fuel (r.dispatch c).1 (enqueue queue (r.dispatch c).2) := by
  cases c with
  | fail error => cases hc
  | _ => rfl

variable {fuel fuel' : Nat} {r : Run} {out : Run × Option EngineError}

theorem drain?_mono (hfuel : fuel ≤ fuel') {queue : List Command}
    (h : drain? fuel r queue = some out) : drain? fuel' r queue = some out := by
  induction fuel generalizing fuel' r queue with
  | zero =>
      cases queue with
      | nil => cases fuel' <;> exact h
      | cons c queue => cases h
  | succ fuel ih =>
      cases queue with
      | nil => cases fuel' <;> exact h
      | cons c queue =>
          obtain ⟨fuel', rfl⟩ : ∃ k, fuel' = k + 1 := ⟨fuel' - 1, by omega⟩
          cases hc : c.isFailure with
          | true =>
              cases c with
              | fail error => exact h
              | _ => cases hc
          | false =>
              rw [drain?_cons hc] at h
              rw [drain?_cons hc]
              exact ih (by omega) h

theorem start?_mono (hfuel : fuel ≤ fuel') (h : r.start? fuel = some out) :
    r.start? fuel' = some out := by
  unfold start? at h ⊢
  split at h
  · rename_i hend
    rw [if_pos hend, h]
  · rename_i hgo
    rw [if_neg hgo]
    exact drain?_mono hfuel h

end Run

namespace Engine

variable {fuel fuel' : Nat} {e : Engine}

theorem run?_mono (hfuel : fuel ≤ fuel') {key : Int} {out : Engine × Except EngineError Instance}
    (h : e.run? fuel key = some out) : e.run? fuel' key = some out := by
  unfold run? at h ⊢
  cases hfind : e.findIndex? key with
  | none => simpa only [hfind] using h
  | some n =>
      simp only [hfind] at h ⊢
      cases hi : e.instances[n]? with
      | none => simpa only [hi] using h
      | some i =>
          simp only [hi] at h ⊢
          cases hstart : (e.lend i).start? fuel with
          | none => simp [hstart] at h
          | some ran =>
              rw [Run.start?_mono hfuel hstart]
              rwa [hstart] at h

theorem thenRun?_mono (hfuel : fuel ≤ fuel') {created out : Engine × Except EngineError Instance}
    (h : thenRun? fuel created = some out) : thenRun? fuel' created = some out := by
  obtain ⟨e, result⟩ := created
  cases result with
  | error error => exact h
  | ok i => exact run?_mono hfuel h

theorem perform?_mono (hfuel : fuel ≤ fuel') {op : Operation} {out : Engine × Answer}
    (h : e.perform? fuel op = some out) : e.perform? fuel' op = some out := by
  cases op with
  | run key =>
      obtain ⟨ran, hrun, rfl⟩ := Option.map_eq_some_iff.mp h
      rw [perform?, run?_mono hfuel hrun]
      rfl
  | createAndRun definitionKey vars =>
      obtain ⟨ran, hrun, rfl⟩ := Option.map_eq_some_iff.mp h
      rw [perform?, createAndRun?, thenRun?_mono hfuel hrun]
      rfl
  | createAndRunById id vars =>
      obtain ⟨ran, hrun, rfl⟩ := Option.map_eq_some_iff.mp h
      rw [perform?, createAndRunById?, thenRun?_mono hfuel hrun]
      rfl
  | _ => exact h

/-- To do several operations is to do the first and then the others. -/
theorem performAll?_cons {op : Operation} {ops : List Operation} {out : Engine × List Answer} :
    e.performAll? fuel (op :: ops) = some out ↔ ∃ step later, e.perform? fuel op = some step ∧
      step.1.performAll? fuel ops = some later ∧ out = (later.1, step.2 :: later.2) := by
  rw [performAll?]
  cases e.perform? fuel op with
  | none => simp
  | some step =>
      constructor
      · intro h
        obtain ⟨later, hlater, rfl⟩ := Option.map_eq_some_iff.mp h
        exact ⟨step, later, rfl, hlater, rfl⟩
      · rintro ⟨_, later, hstep, hlater, rfl⟩
        cases hstep
        exact Option.map_eq_some_iff.mpr ⟨later, hlater, rfl⟩

/-- **A greater number of commands comes to the same.** -/
theorem performAll?_mono (hfuel : fuel ≤ fuel') {ops : List Operation}
    {out : Engine × List Answer} (h : e.performAll? fuel ops = some out) :
    e.performAll? fuel' ops = some out := by
  induction ops generalizing e out with
  | nil => exact h
  | cons op ops ih =>
      obtain ⟨step, later, hstep, hlater, rfl⟩ := performAll?_cons.mp h
      exact performAll?_cons.mpr ⟨step, later, perform?_mono hfuel hstep, ih hlater, rfl⟩

end Engine

end ProcessEngine
