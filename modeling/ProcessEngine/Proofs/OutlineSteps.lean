import ProcessEngine.Diagram.Outline

/-!
# Steps of an outline

What the tokens of a document do to the outline that is built from them.  A
closing tag is told by its name alone: it ends the process, a flow, a text or
the element that is open, if there is any, and by `close_eq_self` it does nothing
just if there is none.
-/

namespace ProcessEngine

/-- A chain succeeds if both of its parts do. -/
theorem bind_eq_ok {ε α β : Type} {x : Except ε α} {f : α → Except ε β} {b : β} :
    x >>= f = .ok b ↔ ∃ a, x = .ok a ∧ f a = .ok b := by
  cases x with
  | error error => simp [bind, Except.bind]
  | ok a => simp [bind, Except.bind]

theorem ElementKind.eq_tag_of_ofTag? {name : String} {kind : ElementKind}
    (h : ElementKind.ofTag? name = some kind) : name = kind.tag := by
  have htag := List.find?_some h
  exact (beq_iff_eq.mp htag).symm

namespace Outline

variable {o : Outline} {name : String}

theorem tag_plain (kind : ElementKind) :
    kind.tag ≠ "process" ∧ kind.tag ≠ "message" ∧ kind.tag ≠ "sequenceFlow" ∧
      kind.tag ≠ "conditionExpression" ∧ kind.tag ∉ slotTags := by
  cases kind <;> decide

theorem close_process (o : Outline) : o.close "process" = { o with inside := false } := rfl

theorem close_sequenceFlow (o : Outline) :
    o.close "sequenceFlow" = { o with flow := none, flows := o.flows ++ o.flow.toList } := by
  obtain ⟨head, inside, element, flow, slot, messages, elements, flows⟩ := o
  cases flow with
  | none => simp [close]
  | some f => rfl

theorem close_of_mem_slotTags (o : Outline) (h : name ∈ slotTags) :
    o.close name = { o with slot := none } := by
  simp only [slotTags, List.mem_cons, List.not_mem_nil, or_false] at h
  obtain rfl | rfl | rfl | rfl := h <;> rfl

/-- Whether the element that is open is ended by a closing tag. -/
def Ends (o : Outline) (name : String) : Prop :=
  ∃ e ∈ o.element, ElementKind.ofTag? name = some e.kind

instance (o : Outline) (name : String) : Decidable (o.Ends name) :=
  inferInstanceAs (Decidable (∃ e ∈ o.element, ElementKind.ofTag? name = some e.kind))

theorem close_of_ends {e : Element} (he : o.element = some e)
    (hkind : ElementKind.ofTag? name = some e.kind) :
    o.close name = { o with element := none, elements := o.elements ++ [e] } := by
  obtain ⟨hprocess, -, hflow, -, hslot⟩ := tag_plain e.kind
  rw [← ElementKind.eq_tag_of_ofTag? hkind] at hprocess hflow hslot
  simp [close, hprocess, hflow, hslot, he, hkind]

theorem close_of_not_ends (hprocess : name ≠ "process") (hflow : name ≠ "sequenceFlow")
    (hslot : name ∉ slotTags) (hends : ¬ o.Ends name) : o.close name = o := by
  rw [close, if_neg hprocess, if_neg hflow, if_neg hslot]
  split
  · rename_i e he
    exact if_neg fun hkind => hends ⟨e, he, hkind⟩
  · rfl

/-- Whether a closing tag ends something that is open. -/
def Closes (o : Outline) (name : String) : Prop :=
  if name = "process" then o.inside = true
  else if name = "sequenceFlow" then o.flow.isSome = true
  else if name ∈ slotTags then o.slot.isSome = true
  else o.Ends name

instance (o : Outline) (name : String) : Decidable (o.Closes name) :=
  inferInstanceAs (Decidable (ite _ _ (ite _ _ (ite _ _ _))))

theorem close_eq_self : o.close name = o ↔ ¬ o.Closes name := by
  by_cases hprocess : name = "process"
  · subst hprocess
    rw [close_process]
    obtain ⟨head, inside, element, flow, slot, messages, elements, flows⟩ := o
    simp [Closes, eq_comm]
  by_cases hflow : name = "sequenceFlow"
  · subst hflow
    rw [close_sequenceFlow]
    obtain ⟨head, inside, element, flow, slot, messages, elements, flows⟩ := o
    cases flow <;> simp [Closes]
  by_cases hslot : name ∈ slotTags
  · rw [close_of_mem_slotTags o hslot]
    obtain ⟨head, inside, element, flow, slot, messages, elements, flows⟩ := o
    cases slot <;> simp [Closes, hprocess, hflow, hslot]
  · rw [Closes, if_neg hprocess, if_neg hflow, if_neg hslot]
    refine ⟨fun hsame hends => ?_, close_of_not_ends hprocess hflow hslot⟩
    obtain ⟨e, he, hkind⟩ := hends
    rw [close_of_ends he hkind] at hsame
    have helement := congrArg Outline.element hsame
    rw [he] at helement
    cases helement

end Outline

end ProcessEngine
