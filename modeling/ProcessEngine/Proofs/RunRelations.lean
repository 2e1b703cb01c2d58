import ProcessEngine.Proofs.ArenaSoundness

/-!
# Relations that a run keeps

Many laws compare an instance before a run with the same instance after it: what
was there is still there, a supply only shrinks, a state only moves forward.
Such a law is a relation between two moments of a run.  If it is reflexive and
transitive, and if each single change of a visit is an instance of it, then so
is everything that a run does.

Main statement: `Kept.start?`, by which a relation that is `Kept` holds between
the beginning and the end of every run.
-/

namespace ProcessEngine.Run

/-- A relation between two moments of a run, the earlier one first, that every
change keeps.  A visit makes its moves for an element of the diagram. -/
structure Kept (R : Run → Run → Prop) : Prop where
  refl : ∀ r, R r r
  trans : ∀ {r r₁ r₂}, R r r₁ → R r₁ r₂ → R r r₂
  move : ∀ {element : Nat} {e : Element} {origin : Option Nat} {n : Nat} {r r' : Run},
    r.diagram.elements[element]? = some e → Move element e origin n r r' → R r r'
  breaks : ∀ {e : Element} {n : Nat} {r r' : Run}, Breaks e n r r' → R r r'
  settle : ∀ (r : Run) (gateway : Nat), R r (r.modify fun i => i.settleRace gateway)
  audit : ∀ (r : Run) (audit : List AuditEvent), R r { r with audit }
  state : ∀ (r : Run) (state : InstanceState), R r (r.modify fun i => { i with state })

section Kept

variable {R : Run → Run → Prop} {element : Nat} {e : Element} {origin : Option Nat} {n : Nat}
  {r r' : Run}

theorem Kept.moves (hR : Kept R) (he : r.diagram.elements[element]? = some e)
    (h : Moves element e origin n r r') : R r r' := by
  induction h with
  | refl => exact hR.refl r
  | tail hmoves hmove ih =>
      obtain ⟨opened, hgrows⟩ := Moves.exists_grows hmoves
      have hdiagram := hgrows.diagram
      exact hR.trans ih (hR.move (by rw [diagram, hdiagram]; exact he) hmove)

theorem Kept.visits (hR : Kept R) (he : r.diagram.elements[element]? = some e)
    {out : Run × List Command} (h : Visits element e origin r out) : R r out.1 := by
  cases h with
  | failed n error h hbreak => exact hR.trans (hR.moves he h) (hR.breaks hbreak)
  | visited h => exact hR.moves he h

theorem Kept.dispatch (hR : Kept R) (r : Run) (c : Command) : R r (r.dispatch c).1 := by
  have h := dispatch_spec r c
  generalize r.dispatch c = out at h
  cases h with
  | idle => exact hR.refl r
  | flows audit => exact hR.audit r audit
  | stuck => exact hR.refl r
  | enter he h => exact hR.visits he h
  | resume _ he h => exact hR.visits he h
  | settle gateway => exact hR.settle r gateway

theorem Kept.reaches (hR : Kept R) {work next : Work} (h : Reaches work next) :
    R work.1 next.1 := by
  induction h with
  | refl => exact hR.refl _
  | tail _ hnext ih =>
      cases hnext with
      | step r c queue => exact hR.trans ih (hR.dispatch r c)

theorem Kept.finish (hR : Kept R) (r : Run) : R r r.finish := by
  unfold Run.finish
  split
  · exact hR.audit r _
  · exact hR.refl r

theorem Kept.abort (hR : Kept R) (r : Run) : R r r.abort :=
  hR.trans (hR.state r .failed) (hR.audit _ _)

theorem Kept.ends (hR : Kept R) {work : Work} {error? : Option EngineError}
    (h : Ends work r error?) : R work.1 r := by
  cases h with
  | empty h => exact hR.trans (hR.reaches h) (hR.finish _)
  | @failed r₁ c queue error h =>
      exact hR.trans (hR.reaches h) (hR.trans (hR.dispatch r₁ c) (hR.abort _))

/-- **What every change keeps, every run keeps.** -/
theorem Kept.start? (hR : Kept R) {fuel : Nat} {error? : Option EngineError}
    (h : r.start? fuel = some (r', error?)) : R r r' := by
  rcases start?_cases h with ⟨-, rfl, -⟩ | ⟨-, hends⟩
  · exact hR.refl _
  · exact hR.trans (hR.state r .active) (hR.ends hends)

end Kept

end ProcessEngine.Run
