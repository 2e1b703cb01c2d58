import ProcessEngine.Proofs.ActivityFrame

/-!
# Activities at home

Several elements of a diagram may have one id.  The first of them is the home
of the id, and an activity that holds nothing but a state may be moved there:
`Instance.homed` does so with all activities up to a position.  No look-up of
the interpreter asks such an activity for more than the id of its element, so
none of them can tell the difference.

Main statements: the look-ups of an instance are those of the homed one, and
its changes commute with `Instance.homed`.
-/

namespace ProcessEngine

/-! ## Lists changed place by place -/

section MapIdx

variable {α : Type} {xs : List α} {f : Nat → α → α}

/-- A search cannot see changes that its test cannot see. -/
theorem findIdx?_mapIdx {p : α → Bool} (h : ∀ n a, p (f n a) = p a) :
    (xs.mapIdx f).findIdx? p = xs.findIdx? p := by
  induction xs generalizing f with
  | nil => rfl
  | cons x xs ih =>
      rw [List.mapIdx_cons, List.findIdx?_cons, List.findIdx?_cons, h]
      split
      · rfl
      · rw [ih fun n a => h (n + 1) a]

theorem any_mapIdx {p : α → Bool} (h : ∀ n a, p (f n a) = p a) :
    (xs.mapIdx f).any p = xs.any p := by
  induction xs generalizing f with
  | nil => rfl
  | cons x xs ih =>
      rw [List.mapIdx_cons, List.any_cons, List.any_cons, h, ih fun n a => h (n + 1) a]

/-- A change at one place may come before or after those at all places. -/
theorem modify_mapIdx {g : α → α} (n : Nat) (h : ∀ a, f n (g a) = g (f n a)) :
    (xs.mapIdx f).modify n g = (xs.modify n g).mapIdx f := by
  refine List.ext_getElem? fun m => ?_
  simp only [List.getElem?_modify, List.getElem?_mapIdx]
  by_cases hm : n = m
  · subst hm
    cases xs[n]? <;> simp [h]
  · simp [hm]

end MapIdx

/-! ## Homes -/

/-- The first element with the id of the element at a position. -/
def Diagram.home (d : Diagram) (n : Nat) : Nat :=
  (d.elements[n]?.bind fun e => d.findElement? e.id).getD n

/-- An element and its home have one id. -/
theorem Diagram.id_home (d : Diagram) (n : Nat) :
    d.elements[d.home n]?.map Element.id = d.elements[n]?.map Element.id := by
  unfold home
  cases he : d.elements[n]? with
  | none => simp [he]
  | some e =>
      cases hfind : d.findElement? e.id with
      | none => simp [hfind, he]
      | some m =>
          obtain ⟨hlt, hid, -⟩ := List.findIdx?_eq_some_iff_getElem.mp hfind
          simpa [hfind, List.getElem?_eq_getElem hlt] using hid

namespace Activity

/-- An activity that holds nothing but a state, moved to the home of its
element. -/
def homed (d : Diagram) (a : Activity) : Activity :=
  if a.body.isElement then { a with element := d.home a.element } else a

variable (d : Diagram) (a : Activity)

@[simp] theorem key_homed : (a.homed d).key = a.key := by
  unfold homed; split <;> rfl

@[simp] theorem origin_homed : (a.homed d).origin = a.origin := by
  unfold homed; split <;> rfl

@[simp] theorem body_homed : (a.homed d).body = a.body := by
  unfold homed; split <;> rfl

/-- A homed activity stands at an element with the id that it had. -/
theorem id_homed :
    d.elements[(a.homed d).element]?.map Element.id = d.elements[a.element]?.map Element.id := by
  unfold homed
  split
  · exact d.id_home a.element
  · rfl

variable {d a}

theorem homed_of_not_isElement (h : a.body.isElement = false) : a.homed d = a := by
  simp [homed, h]

variable (d)

/-- A change that keeps the frame may come before or after moving, if it may do
so where there is only a state. -/
theorem homed_comm {f : Activity → Activity} (hframe : ∀ a, (f a).frame = a.frame)
    (hstate : ∀ key element origin state,
      (f ⟨key, element, origin, .element state⟩).homed d =
        f ((Activity.mk key element origin (.element state)).homed d))
    (a : Activity) : (f a).homed d = f (a.homed d) := by
  cases h : a.body.isElement with
  | false =>
      have hkept := ActivityBody.isElement_eq_of_frame (congrArg Activity.body (hframe a))
      rw [homed_of_not_isElement h, homed_of_not_isElement (hkept.trans h)]
  | true =>
      obtain ⟨key, element, origin, body⟩ := a
      cases body with
      | element state => exact hstate key element origin state
      | _ => cases h

theorem homed_advance (s : ActivityState) (a : Activity) :
    (a.advance s).homed d = (a.homed d).advance s := by
  refine homed_comm d (fun a => a.frame_advance s) (fun key element origin state => ?_) a
  cases state <;> cases s <;> rfl

theorem homed_setTimer (s : TimerState) (a : Activity) :
    (a.setTimer s).homed d = (a.homed d).setTimer s :=
  homed_comm d (fun a => a.frame_setTimer s) (fun _ _ _ _ => rfl) a

theorem homed_recordInbound (flow : String) (a : Activity) :
    (a.recordInbound flow).homed d = (a.homed d).recordInbound flow :=
  homed_comm d (fun a => a.frame_recordInbound flow) (fun _ _ _ _ => rfl) a

theorem homed_winRace (branch : String) (a : Activity) :
    (a.winRace branch).homed d = (a.homed d).winRace branch :=
  homed_comm d (fun a => a.frame_winRace branch) (fun _ _ _ _ => rfl) a

theorem homed_setFailure (reason : String) (a : Activity) :
    (a.setFailure reason).homed d = (a.homed d).setFailure reason :=
  homed_comm d (fun a => a.frame_setFailure reason) (fun _ _ _ _ => rfl) a

theorem homed_settle (a : Activity) : a.settle.homed d = (a.homed d).settle :=
  homed_comm d (fun a => a.frame_settle) (fun _ _ _ _ => rfl) a

end Activity

namespace Instance

/-- The instance with all its activities before a position moved home. -/
def homed (base : Nat) (i : Instance) : Instance :=
  { i with activities := i.activities.mapIdx fun n a => if n < base then a.homed i.diagram else a }

variable (base : Nat) (i : Instance)

@[simp] theorem key_homed : (i.homed base).key = i.key := rfl

@[simp] theorem definition_homed : (i.homed base).definition = i.definition := rfl

@[simp] theorem diagram_homed : (i.homed base).diagram = i.diagram := rfl

@[simp] theorem vars_homed : (i.homed base).vars = i.vars := rfl

@[simp] theorem state_homed : (i.homed base).state = i.state := rfl

@[simp] theorem caught_homed : (i.homed base).caught = i.caught := rfl

@[simp] theorem length_homed : (i.homed base).activities.length = i.activities.length :=
  List.length_mapIdx

/-- Before the first position there is nothing to move. -/
@[simp] theorem homed_zero : i.homed 0 = i := by
  unfold homed
  congr
  exact List.mapIdx_eq_iff.mpr fun n => by simp

theorem getElem?_homed (n : Nat) : (i.homed base).activities[n]? =
    i.activities[n]?.map fun a => if n < base then a.homed i.diagram else a :=
  List.getElem?_mapIdx

/-! ## Looking up -/

section LookUp

variable {α : Type} {p : Activity → Bool} {g : Activity → Option α}

theorem findIdx?_homed (h : ∀ a, p (a.homed i.diagram) = p a) :
    (i.homed base).activities.findIdx? p = i.activities.findIdx? p :=
  findIdx?_mapIdx fun n a => by split <;> simp [h]

theorem any_homed (h : ∀ a, p (a.homed i.diagram) = p a) :
    (i.homed base).activities.any p = i.activities.any p :=
  any_mapIdx fun n a => by split <;> simp [h]

theorem bind_homed (h : ∀ a, g (a.homed i.diagram) = g a) (n : Nat) :
    (i.homed base).activities[n]?.bind g = i.activities[n]?.bind g := by
  rw [getElem?_homed]
  cases i.activities[n]? with
  | none => rfl
  | some a =>
      by_cases hn : n < base
      · simp [hn, h]
      · simp [hn]

theorem positions_homed (h : ∀ a, p (a.homed i.diagram) = p a) :
    (i.homed base).positions p = i.positions p := by
  unfold positions
  rw [length_homed]
  refine List.filter_congr fun n _ => ?_
  rw [getElem?_homed]
  cases i.activities[n]? with
  | none => rfl
  | some a =>
      by_cases hn : n < base
      · simp [hn, h]
      · simp [hn]

end LookUp

@[simp] theorem findOpenJob?_homed (id : String) :
    (i.homed base).findOpenJob? id = i.findOpenJob? id :=
  findIdx?_homed base i fun a => by simp [Activity.isOpenJob, Activity.job?]

@[simp] theorem findOpenSubscription?_homed (id : String) :
    (i.homed base).findOpenSubscription? id = i.findOpenSubscription? id :=
  findIdx?_homed base i fun a => by simp [Activity.isOpenSubscription, Activity.subscription?]

@[simp] theorem findCreatedTimer?_homed (id : String) :
    (i.homed base).findCreatedTimer? id = i.findCreatedTimer? id :=
  findIdx?_homed base i fun a => by simp [Activity.isCreatedTimer, Activity.timer?]

@[simp] theorem findUnconsumed?_homed (name : String) :
    (i.homed base).findUnconsumed? name = i.findUnconsumed? name := rfl

/-- A gateway is found by its position, and stays where it is. -/
@[simp] theorem findActiveGateway?_homed (element : Nat) :
    (i.homed base).findActiveGateway? element = i.findActiveGateway? element := by
  refine findIdx?_homed base i fun a => ?_
  cases h : a.body.isElement with
  | false => rw [Activity.homed_of_not_isElement h]
  | true => cases hb : a.body <;> simp_all [ActivityBody.isElement, Activity.gateway?]

@[simp] theorem hasPendingEvents_homed : (i.homed base).hasPendingEvents = i.hasPendingEvents :=
  any_homed base i fun a => by
    simp [Activity.isOpenSubscription, Activity.subscription?, Activity.isCreatedTimer,
      Activity.timer?]

@[simp] theorem raceAt?_homed (origin : Option Nat) :
    (i.homed base).raceAt? origin = i.raceAt? origin := by
  unfold raceAt?
  congr
  funext n
  exact bind_homed base i (fun a => by simp [Activity.race?]) n

@[simp] theorem raceLost_homed (origin : Option Nat) (branch : String) :
    (i.homed base).raceLost origin branch = i.raceLost origin branch := by
  simp [raceLost]

@[simp] theorem continuations_homed : (i.homed base).continuations = i.continuations := by
  unfold continuations
  rw [positions_homed, positions_homed, positions_homed] <;> intro a <;>
    simp [Activity.job?, Activity.subscription?, Activity.isCreatedTimer, Activity.timer?]

/-! ## Changing -/

variable {i}

/-- A new activity is not moved. -/
theorem push_homed (h : base ≤ i.activities.length) (a : Activity) :
    (i.homed base).push a = (i.push a).homed base := by
  have hnew : ¬ i.activities.length < base := by omega
  simp [push, homed, diagram, hnew]

theorem modifyActivity_homed (n : Nat) {f : Activity → Activity}
    (h : ∀ a, (f a).homed i.diagram = f (a.homed i.diagram)) :
    (i.homed base).modifyActivity n f = (i.modifyActivity n f).homed base := by
  unfold modifyActivity homed
  congr 1
  refine modify_mapIdx n fun a => ?_
  split
  · exact h a
  · rfl

variable (i)

theorem winRace_homed (origin : Option Nat) (branch : String) :
    (i.homed base).winRace origin branch = (i.winRace origin branch).homed base := by
  cases origin with
  | none => rfl
  | some n => exact modifyActivity_homed base n (Activity.homed_winRace i.diagram branch)

theorem settleRace_homed (gateway : Nat) :
    (i.homed base).settleRace gateway = (i.settleRace gateway).homed base := by
  unfold settleRace
  rw [raceAt?_homed]
  split
  · rfl
  · unfold homed
    congr 1
    refine List.ext_getElem? fun n => ?_
    rw [List.getElem?_map, List.getElem?_mapIdx, List.getElem?_mapIdx, List.getElem?_map]
    cases i.activities[n]? with
    | none => rfl
    | some a =>
        by_cases hn : n < base <;> by_cases ha : a.origin = some gateway <;>
          simp [hn, ha, Activity.homed_settle, diagram]

end Instance

end ProcessEngine
