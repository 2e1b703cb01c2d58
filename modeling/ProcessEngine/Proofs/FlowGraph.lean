import Mathlib.Algebra.Order.BigOperators.Group.List
import Mathlib.Algebra.Order.Group.Nat
import Mathlib.Data.Fintype.EquivFin
import Mathlib.Data.List.Chain
import ProcessEngine.Interpreter.Event

/-!
# The graph of a diagram

Flow goes on from an element to the targets of its outgoing flows, and from a
link throw to the catch of its link.  A run can go around a cycle of this graph
for ever, unless the cycle waits: it passes a catch event that takes a message or
a timer for each round.

Where all cycles wait, the elements can be weighed so that one that does not wait
is heavier than all its successors together.  The weights are what bounds a run.

Main statement: `cyclesWait_iff`.
-/

namespace ProcessEngine

/-- A catch event with a message or a timer. -/
def Element.waits (e : Element) : Bool :=
  e.kind == .catchEvent &&
    match e.event with
    | some (.message _) | some (.timer _) => true
    | _ => false

namespace Diagram

/-- The elements that flows lead to, in the order of the flows. -/
def targets (d : Diagram) (flowIds : List String) : List Nat :=
  (d.findFlows flowIds).filterMap fun f => d.findElement? f.target

/-- Where flow can go on from an element: the targets of its flows, or the catch
event of its link; nowhere from an end event. -/
def successors (d : Diagram) (n : Nat) : List Nat :=
  match d.elements[n]? with
  | none => []
  | some e =>
    match e.kind with
    | .endEvent => []
    | .throwEvent => (e.linkName?.bind (Run.linkTarget? d)).toList
    | _ => d.targets e.outgoing

/-- The element at a position is a catch event with a message or a timer. -/
def waitsAt (d : Diagram) (n : Nat) : Bool := d.elements[n]?.any Element.waits

/-- Every cycle passes a catch event with a message or a timer. -/
def CyclesWait (d : Diagram) : Prop :=
  ∀ (n : Nat) (path : List Nat), List.IsChain (fun a b => b ∈ d.successors a) (n :: path ++ [n]) →
    ∃ m ∈ n :: path, d.waitsAt m = true

/-- Flow goes on from one element to another, and the first one does not wait. -/
def Rushes (d : Diagram) (a b : Nat) : Prop := b ∈ d.successors a ∧ d.waitsAt a = false

/-- Every element has a weight, and one that does not wait is heavier than its
successors together, by what a visit can cost besides. -/
structure Weighs (d : Diagram) (w : Nat → Nat) : Prop where
  least : ∀ n, 3 ≤ w n
  rush : ∀ n, d.waitsAt n = false → ((d.successors n).map w).sum + 3 ≤ w n

section Graph

variable {d : Diagram}

theorem successors_eq_targets {n : Nat} {e : Element} (he : d.elements[n]? = some e)
    (hend : e.kind ≠ .endEvent) (hthrow : e.kind ≠ .throwEvent) :
    d.successors n = d.targets e.outgoing := by
  unfold successors
  rw [he]
  cases hkind : e.kind <;> simp_all

theorem successors_eq_link {n : Nat} {e : Element} (he : d.elements[n]? = some e)
    (hthrow : e.kind = .throwEvent) :
    d.successors n = (e.linkName?.bind (Run.linkTarget? d)).toList := by
  unfold successors
  rw [he]
  simp only [hthrow]

/-- Flow goes on from one element of the diagram to another one. -/
theorem lt_of_mem_successors {a b : Nat} (h : b ∈ d.successors a) :
    a < d.elements.length ∧ b < d.elements.length := by
  cases he : d.elements[a]? with
  | none =>
      unfold successors at h
      rw [he] at h
      cases h
  | some e =>
      refine ⟨(List.getElem?_eq_some_iff.mp he).1, ?_⟩
      by_cases hthrow : e.kind = .throwEvent
      · rw [successors_eq_link he hthrow, Option.mem_toList] at h
        obtain ⟨link, -, htarget⟩ := Option.bind_eq_some_iff.mp h
        unfold Run.linkTarget? at htarget
        split at htarget
        · cases htarget
        · exact (List.findIdx?_eq_some_iff_getElem.mp htarget).1
      · by_cases hend : e.kind = .endEvent
        · unfold successors at h
          rw [he] at h
          simp [hend] at h
        · rw [successors_eq_targets he hend hthrow] at h
          obtain ⟨f, -, htarget⟩ := List.mem_filterMap.mp h
          exact (List.findIdx?_eq_some_iff_getElem.mp htarget).1

/-- What stands in a chain before its end leads on. -/
theorem exists_of_isChain {R : Nat → Nat → Prop} {path : List Nat} {last m : Nat}
    (h : List.IsChain R (path ++ [last])) (hm : m ∈ path) : ∃ b, R m b := by
  induction path with
  | nil => cases hm
  | cons first rest ih =>
      rcases List.mem_cons.mp hm with rfl | hm
      · cases rest with
        | nil =>
            simp only [List.cons_append, List.nil_append, List.isChain_cons_cons] at h
            exact ⟨_, h.1⟩
        | cons second rest =>
            simp only [List.cons_append, List.isChain_cons_cons] at h
            exact ⟨_, h.1⟩
      · exact ih h.of_cons hm

/-- A cycle that does not wait is none of a diagram whose cycles wait. -/
theorem CyclesWait.irreflexive (h : d.CyclesWait) (n : Nat) :
    ¬ Relation.TransGen d.Rushes n n := by
  intro hcycle
  obtain ⟨last, hpath, hback⟩ := Relation.TransGen.tail'_iff.mp hcycle
  obtain ⟨path, hchain, hlast⟩ := List.exists_isChain_cons_of_relationReflTransGen hpath
  have hround : List.IsChain d.Rushes (n :: path ++ [n]) := by
    refine List.isChain_append.mpr ⟨hchain, List.isChain_singleton n, fun a ha b hb => ?_⟩
    rw [List.getLast?_eq_some_getLast (List.cons_ne_nil n path), hlast] at ha
    obtain rfl := Option.some.inj ha
    obtain rfl : n = b := by simpa using hb
    exact hback
  obtain ⟨m, hm, hwaits⟩ := h n path (hround.imp fun _ _ hab => hab.1)
  obtain ⟨b, -, hrush⟩ := exists_of_isChain hround hm
  rw [hwaits] at hrush
  cases hrush

/-- From an element on, flow can rush along finitely many elements only. -/
theorem CyclesWait.wellFounded (h : d.CyclesWait) : WellFounded fun b a => d.Rushes a b := by
  -- the positions of the diagram are finitely many
  let N := d.elements.length
  let R : Fin (N + 1) → Fin (N + 1) → Prop := fun b a => Relation.TransGen d.Rushes a b
  have htrans : IsTrans (Fin (N + 1)) R := ⟨fun _ _ _ hab hbc => hbc.trans hab⟩
  have hirrefl : Std.Irrefl R := ⟨fun a ha => h.irreflexive a ha⟩
  have hwf : WellFounded R := Finite.wellFounded_of_trans_of_irrefl R
  let place : Nat → Fin (N + 1) := fun n => ⟨min n N, by omega⟩
  refine Subrelation.wf (fun {b a} hrush => ?_) (InvImage.wf place hwf)
  obtain ⟨ha, hb⟩ := lt_of_mem_successors hrush.1
  have hplace : ∀ n, n < d.elements.length → (place n).val = n := fun n hn => Nat.min_eq_left hn.le
  show Relation.TransGen d.Rushes (place a).val (place b).val
  rw [hplace a ha, hplace b hb]
  exact .single hrush

/-- A weight for each element, from those of the elements to which flow
rushes. -/
theorem CyclesWait.exists_weighs (h : d.CyclesWait) : ∃ w, d.Weighs w := by
  let step : (n : Nat) → ((b : Nat) → d.Rushes n b → Nat) → Nat := fun n weight =>
    if hwaits : d.waitsAt n = false then
      ((d.successors n).attach.map fun b => weight b.1 ⟨b.2, hwaits⟩).sum + 3
    else 3
  let w : Nat → Nat := h.wellFounded.fix step
  have hw : ∀ n, w n = step n fun b _ => w b := fun n => h.wellFounded.fix_eq step n
  refine ⟨w, fun n => ?_, fun n hwaits => ?_⟩
  · rw [hw]
    simp only [step]
    split <;> omega
  · rw [hw]
    simp only [step, dif_pos hwaits]
    rw [List.attach_map_val (l := d.successors n) (f := w)]

/-- Weights that fall along a cycle would fall for ever. -/
theorem Weighs.cyclesWait {w : Nat → Nat} (h : d.Weighs w) : d.CyclesWait := by
  intro n path hchain
  by_contra hnone
  have hfall : ∀ a ∈ n :: path, ∀ b ∈ d.successors a, w b < w a := by
    intro a ha b hb
    have hwaits : d.waitsAt a = false := by
      by_contra hwaits
      exact hnone ⟨a, ha, by simpa using hwaits⟩
    have hle := List.le_sum_of_mem (List.mem_map_of_mem (f := w) hb)
    have hrush := h.rush a hwaits
    omega
  have hround : w n < w n := falls hchain hfall
  omega
where
  falls {first last : Nat} {path : List Nat}
      (hchain : List.IsChain (fun a b => b ∈ d.successors a) (first :: path ++ [last]))
      (hfall : ∀ a ∈ first :: path, ∀ b ∈ d.successors a, w b < w a) : w last < w first := by
    induction path generalizing first with
    | nil =>
        simp only [List.cons_append, List.nil_append, List.isChain_cons_cons] at hchain
        exact hfall first List.mem_cons_self last hchain.1
    | cons second rest ih =>
        simp only [List.cons_append, List.isChain_cons_cons] at hchain
        have hstep := hfall first List.mem_cons_self second hchain.1
        have hrest : w last < w second :=
          ih hchain.2 fun a ha b hb => hfall a (List.mem_cons_of_mem _ ha) b hb
        omega

/-- **All cycles wait exactly where the elements can be weighed.** -/
theorem cyclesWait_iff : d.CyclesWait ↔ ∃ w, d.Weighs w :=
  ⟨fun h => h.exists_weighs, fun ⟨_, h⟩ => h.cyclesWait⟩

end Graph

end Diagram

end ProcessEngine
