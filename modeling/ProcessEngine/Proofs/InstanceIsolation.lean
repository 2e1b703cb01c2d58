import ProcessEngine.Proofs.ForeignOperations
import ProcessEngine.Proofs.InstanceProgress
import ProcessEngine.Proofs.MoreCommands
import ProcessEngine.Proofs.TwinRuns

/-!
# Instances do not interfere

Instances of an engine share its clock, its handlers and its key source.  The
clock and the handlers are the same whatever other instances do, if handlers are
stateless.  The key source is not: where other instances are run, keys are used
up, and activities get other keys than they would have got.  But nothing that a
run does depends on the value of a key.

So we put two engines side by side in which an instance is the same up to the
keys of its activities.  An operation on another instance in one of them leaves
them side by side, and so does an operation on the instance in both.

Main statement: `instances_apart`.
-/

namespace ProcessEngine

/-- Events that were published in one order and are consumed alike for each name
are the same. -/
theorem caught_eq_of_mailOf {events events' : List CaughtEvent}
    (hpublished : events.map CaughtEvent.published = events'.map CaughtEvent.published)
    (hmail : ∀ name, mailOf name events = mailOf name events') : events = events' := by
  induction events generalizing events' with
  | nil => exact (List.map_eq_nil_iff.mp hpublished.symm).symm
  | cons c cs ih =>
      cases events' with
      | nil => cases hpublished
      | cons d ds =>
          obtain ⟨hhead, htail⟩ := List.cons.inj hpublished
          obtain ⟨name, caughtAt, vars, consumed⟩ := c
          obtain ⟨name', caughtAt', vars', consumed'⟩ := d
          simp only [CaughtEvent.published, CaughtEvent.mk.injEq, and_true] at hhead
          obtain ⟨rfl, rfl, rfl⟩ := hhead
          have hfirst := hmail name
          simp only [mailOf, List.filter_cons, beq_self_eq_true, if_true, List.map_cons,
            List.cons.injEq, Prod.mk.injEq, true_and] at hfirst
          obtain ⟨rfl, -⟩ := hfirst
          have hrest : ∀ other, mailOf other cs = mailOf other ds := by
            intro other
            have hother := hmail other
            by_cases hname : name = other
            · simpa [mailOf, hname] using hother
            · simpa [mailOf, hname] using hother
          rw [ih htail hrest]

namespace Instance

/-- The instance without the keys of its activities. -/
def keyless (i : Instance) : Instance :=
  { i with activities := i.activities.map Activity.keyless }

/-- The activities have their keys in increasing order. -/
def Ascending (i : Instance) : Prop := (i.activities.map Activity.key).Pairwise (· < ·)

variable {i j : Instance}

/-- Instances that are the same but for keys are twins. -/
theorem Twin.of_keyless (h : i.keyless = j.keyless) : i.Twin j := by
  obtain ⟨key, definition, vars, createdAt, state, caught, activities⟩ := i
  obtain ⟨key', definition', vars', createdAt', state', caught', activities'⟩ := j
  simp only [keyless, Instance.mk.injEq] at h
  obtain ⟨rfl, rfl, rfl, rfl, rfl, rfl, hactivities⟩ := h
  exact ⟨rfl, rfl, rfl, rfl, rfl, fun _ => rfl, hactivities⟩

/-- Twins to which the same events were published are the same but for keys. -/
theorem Twin.keyless_eq (h : i.Twin j)
    (hpublished : i.caught.map CaughtEvent.published = j.caught.map CaughtEvent.published) :
    i.keyless = j.keyless := by
  have hcaught := caught_eq_of_mailOf hpublished h.mail
  obtain ⟨hkey, hdefinition, hvars, hcreatedAt, hstate, -, hactivities⟩ := h
  rw [keyless, keyless, hkey, hdefinition, hvars, hcreatedAt, hstate, hcaught, hactivities]

end Instance

/-- The answer without the keys of activities. -/
def Answer.keyless : Answer → Answer
  | .inst i => .inst i.keyless
  | answer => answer

namespace Operation

/-- Whether an operation runs an instance. -/
def runs : Operation → Bool
  | run _ | createAndRun _ _ | createAndRunById _ _ => true
  | _ => false

/-- The second list of operations has fewer operations on instances other than the
one with a key: events that are not published to them, and runs that they are not
given, be it on their own or with their creation. -/
inductive Fewer (key : Int) : List Operation → List Operation → Prop
  | nil : Fewer key [] []
  | keep (op : Operation) {ops ops' : List Operation} (h : Fewer key ops ops') :
      Fewer key (op :: ops) (op :: ops')
  | drop {op : Operation} {other : Int} (hop : op.addressee? = some other) (hother : other ≠ key)
      {ops ops' : List Operation} (h : Fewer key ops ops') : Fewer key (op :: ops) ops'
  | create (definitionKey : Int) (vars : Variables) {ops ops' : List Operation}
      (h : Fewer key ops ops') :
      Fewer key (.createAndRun definitionKey vars :: ops) (.create definitionKey vars :: ops')
  | createById (id : String) (vars : Variables) {ops ops' : List Operation}
      (h : Fewer key ops ops') :
      Fewer key (.createAndRunById id vars :: ops) (.createById id vars :: ops')

/-- To delete all that is addressed to others is one way to have fewer
operations. -/
theorem fewer_filter (key : Int) (ops : List Operation) :
    Fewer key ops (ops.filter fun op => op.addressee?.all fun other => other == key) := by
  induction ops with
  | nil => exact .nil
  | cons op ops ih =>
      rw [List.filter_cons]
      split
      · exact .keep op ih
      · rename_i hop
        cases haddressee : op.addressee? with
        | none => simp [haddressee] at hop
        | some other => exact .drop haddressee (by simpa [haddressee] using hop) ih

end Operation

/-- What is answered to the operations on the instance with a key. -/
def answersTo (key : Int) : List Operation → List Answer → List Answer
  | op :: ops, answer :: answers =>
    if op.addressee? = some key then answer :: answersTo key ops answers
    else answersTo key ops answers
  | _, _ => []

namespace Engine

/-! ## The order of keys -/

section Ascending

variable {e e' : Engine}

/-- A run puts new keys behind the old ones. -/
theorem Sound.start?_ascending (he : e.Sound) {n fuel : Nat} {i : Instance} {r : Run}
    {error? : Option EngineError} (hi : e.instances[n]? = some i)
    (hstart : (e.lend i).start? fuel = some (r, error?)) (hall : i.Ascending) :
    r.inst.Ascending := by
  obtain ⟨opened, hgrows⟩ := Run.start?_grows hstart
  have hkeys : r.inst.activities.map Activity.key = i.activities.map Activity.key ++
      (List.range opened.length).map fun k : Nat => e.keys.next + k :=
    (List.cons.inj hgrows.instance_keys).2
  rw [Instance.Ascending, hkeys]
  refine List.pairwise_append.mpr ⟨hall, ?_, fun a ha b hb => ?_⟩
  · rw [List.pairwise_map]
    refine List.pairwise_lt_range.imp fun hlt => ?_
    omega
  · have hstored : a ∈ e.storedKeys :=
      List.mem_append_right _
        (List.mem_flatMap.mpr ⟨i, List.mem_of_getElem? hi, List.mem_cons_of_mem _ ha⟩)
    have hbehind := (he.behind a hstored).1
    obtain ⟨k, -, rfl⟩ := List.mem_map.mp hb
    omega

theorem Change.ascending (h : Change e e') (he : e.Sound)
    (hall : ∀ i ∈ e.instances, i.Ascending) : ∀ i ∈ e'.instances, i.Ascending := by
  intro j hj
  cases h with
  | load => exact hall j hj
  | create =>
      rcases List.mem_append.mp hj with hj | hj
      · exact hall j hj
      · obtain rfl := List.mem_singleton.mp hj
        exact List.Pairwise.nil
  | publish n name vars =>
      obtain ⟨i, hi, rfl | rfl⟩ := exists_of_mem_modify hj
      · exact hall _ hi
      · exact hall i hi
  | run hi hrun =>
      rcases mem_of_mem_set hj with hj | rfl
      · exact hall j hj
      · exact he.start?_ascending hi hrun (hall _ (List.mem_of_getElem? hi))
  | clock => exact hall j hj
  | register => exact hall j hj

theorem Changes.ascending (h : Changes e e') (he : e.Sound)
    (hall : ∀ i ∈ e.instances, i.Ascending) : ∀ i ∈ e'.instances, i.Ascending := by
  induction h with
  | refl => exact hall
  | tail hbefore hchange ih => exact hchange.ascending (Changes.sound hbefore he) ih

/-- **The keys along an arena increase.** -/
theorem Reachable.ascending {starts : KeySequence → Prop} (h : Reachable starts e) :
    ∀ i ∈ e.instances, i.Ascending := by
  induction h with
  | fresh name now => exact nofun
  | perform h hop ih => exact (perform?_changes hop).ascending h.sound ih
  | restore h hblank _ hparse hrestore ih =>
      rw [restore_eq_rebuild hparse, rebuild_snapshot h.sound hblank] at hrestore
      obtain rfl := Except.ok.inj hrestore
      intro j hj
      obtain ⟨i, hi, rfl⟩ := List.mem_map.mp hj
      have hkeys : i.relinked.activities.map Activity.key = i.activities.map Activity.key := by
        simp only [Instance.relinked, List.map_map]
        rfl
      rw [Instance.Ascending, hkeys]
      exact ih i hi

end Ascending

/-! ## Engines side by side -/

/-- Engines with the same clock and the same stateless handlers, in which the
instance with a key is the same up to the keys of its activities. -/
structure Beside (key : Int) (n : Nat) (e s : Engine) : Prop where
  left : e.Sound
  right : s.Sound
  now : e.now = s.now
  handlers : e.handlers = s.handlers
  stateless : ∀ entry ∈ e.handlers, entry.2.Stateless
  insts : ∃ i j, e.instances[n]? = some i ∧ s.instances[n]? = some j ∧ i.key = key ∧
    i.keyless = j.keyless

/-- The instance with a key has come to an end. -/
def Over (key : Int) (n : Nat) (s : Engine) : Prop :=
  s.Sound ∧ ∃ j, s.instances[n]? = some j ∧ j.key = key ∧ j.state.terminal = true

section Beside

variable {key : Int} {n : Nat} {e s : Engine}

/-- What the engines lend to the instance are runs of twins. -/
theorem Beside.lend (h : Beside key n e s) {i j : Instance} (hij : i.keyless = j.keyless) :
    Run.Twin ⟨s.keys.next - e.keys.next, e.audit, s.audit⟩ (e.lend i) (s.lend j) where
  inst := .of_keyless hij
  keys := by
    show s.keys.next = e.keys.next + (s.keys.next - e.keys.next)
    omega
  handlers := h.handlers
  stateless := h.stateless
  now := h.now
  audit := ⟨[], (List.append_nil _).symm, (List.append_nil _).symm⟩

theorem Over.perform (h : Over key n s) {fuel : Nat} {op : Operation} {out : Engine × Answer}
    (hop : s.perform? fuel op = some out) : Over key n out.1 := by
  obtain ⟨hs, j, hj, rfl, hend⟩ := h
  have hchanges := perform?_changes hop
  obtain ⟨k, hk, hstate, -⟩ := hchanges.ended hj hend
  obtain ⟨k', hk', hevolves⟩ := hchanges.evolves hj
  obtain rfl := Option.some.inj (hk.symm.trans hk')
  exact ⟨hchanges.sound hs, k, hk, hevolves.key, by rw [hstate]; exact hend⟩

/-- An operation that runs no instance but one that is over gives an answer. -/
theorem Over.isSome (h : Over key n s) {op : Operation}
    (hruns : op.runs = true → op = .run key) (fuel : Nat) :
    ∃ out, s.perform? fuel op = some out := by
  cases hop : op.runs with
  | false =>
      cases op with
      | run | createAndRun | createAndRunById => cases hop
      | _ => exact ⟨_, rfl⟩
  | true =>
      obtain rfl := hruns hop
      obtain ⟨hs, j, hj, rfl, hend⟩ := h
      rw [hs.perform?_run hj, Run.start?_of_terminal (r := s.lend j) hend]
      exact ⟨_, rfl⟩

theorem Over.all_isSome (h : Over key n s) {ops : List Operation}
    (hruns : ∀ op ∈ ops, op.runs = true → op = .run key) (fuel : Nat) :
    ∃ out, s.performAll? fuel ops = some out := by
  induction ops generalizing s with
  | nil => exact ⟨_, rfl⟩
  | cons op ops ih =>
      obtain ⟨out, hout⟩ := h.isSome (hruns op List.mem_cons_self) fuel
      obtain ⟨later, hlater⟩ :=
        ih (h.perform hout) fun op hop => hruns op (List.mem_cons_of_mem _ hop)
      exact ⟨_, by rw [performAll?, hout]; simp only [hlater]; rfl⟩

/-- Operations that are not about the instance leave engines side by side, if the
one does the same to clock and handlers as the other. -/
theorem Beside.foreign (h : Beside key n e s) {fuel fuel' : Nat} {op op' : Operation}
    {out out' : Engine × Answer} (hop : op.addressee? ≠ some key)
    (hop' : op'.addressee? ≠ some key) (hclock : ∀ now, op.clock now = op'.clock now)
    (hhandlers : op.handlers = op'.handlers)
    (hstateless : ∀ entry ∈ op.handlers, entry.2.Stateless)
    (hperform : e.perform? fuel op = some out) (hperform' : s.perform? fuel' op' = some out') :
    Beside key n out.1 out'.1 := by
  obtain ⟨i, j, hi, hj, rfl, hij⟩ := h.insts
  have hkey : j.key = i.key := (congrArg Instance.key hij).symm
  obtain ⟨hi', hnow, hbehind⟩ := h.left.perform?_foreign hi hop hperform
  obtain ⟨hj', hnow', hbehind'⟩ := h.right.perform?_foreign hj (hkey ▸ hop') hperform'
  refine ⟨(perform?_changes hperform).sound h.left, (perform?_changes hperform').sound h.right,
    ?_, ?_, fun entry hentry => ?_, i, j, hi', hj', rfl, hij⟩
  · rw [hnow, hnow', h.now, hclock]
  · rw [hbehind, hbehind', h.handlers, hhandlers]
  · rw [hbehind] at hentry
    rcases List.mem_append.mp hentry with hentry | hentry
    · exact h.stateless entry hentry
    · exact hstateless entry hentry

/-- An operation on another instance in the first engine alone. -/
theorem Beside.drop (h : Beside key n e s) {fuel : Nat} {op : Operation} {other : Int}
    {out : Engine × Answer} (hop : op.addressee? = some other) (hother : other ≠ key)
    (hperform : e.perform? fuel op = some out) : Beside key n out.1 s := by
  obtain ⟨i, j, hi, hj, rfl, hij⟩ := h.insts
  have hforeign : op.addressee? ≠ some i.key := by
    rw [hop]
    exact fun heq => hother (Option.some.inj heq)
  obtain ⟨hi', hnow, hhandlers⟩ := h.left.perform?_foreign hi hforeign hperform
  have hquiet : op.clock e.now = e.now ∧ op.handlers = [] := by
    cases op with
    | publish | run => exact ⟨rfl, rfl⟩
    | _ => cases hop
  rw [hquiet.1] at hnow
  rw [hquiet.2, List.append_nil] at hhandlers
  exact ⟨(perform?_changes hperform).sound h.left, h.right, hnow.trans h.now,
    hhandlers.trans h.handlers, hhandlers ▸ h.stateless, i, j, hi', hj, rfl, hij⟩

/-- A run of the instance in both engines. -/
theorem Beside.run (h : Beside key n e s) {fuel fuel' : Nat} (hfuel : fuel < fuel')
    {out : Engine × Answer} (hperform : e.perform? fuel (.run key) = some out)
    (hkeys : out.2 ≠ .error .keysExhausted) :
    ∃ out', s.perform? fuel' (.run key) = some out' ∧
      ((out.2.keyless = out'.2.keyless ∧ Beside key n out.1 out'.1) ∨
        (out'.2 = .error .keysExhausted ∧ Over key n out'.1)) := by
  obtain ⟨i, j, hi, hj, rfl, hij⟩ := h.insts
  have hkey : j.key = i.key := (congrArg Instance.key hij).symm
  have hran := h.left.perform?_run hi fuel
  have hran' := h.right.perform?_run hj fuel'
  rw [hkey] at hran'
  obtain ⟨ran, hstart, rfl⟩ := Option.map_eq_some_iff.mp (hran.symm.trans hperform)
  have hlasts : ran.2 ≠ some .keysExhausted := by
    obtain ⟨r, error?⟩ := ran
    rintro rfl
    exact hkeys rfl
  obtain ⟨ran', hstart', halike⟩ :=
    (h.lend hij).start? (Nat.le_of_lt hfuel) (.inr hfuel) hstart (.inr hlasts)
  rw [hstart', Option.map_some] at hran'
  have hleft := (perform?_changes hperform).sound h.left
  have hright := (perform?_changes hran').sound h.right
  refine ⟨_, hran', ?_⟩
  cases halike with
  | left => exact absurd rfl hlasts
  | right hgap last =>
      -- the second run has failed for want of keys, so the instance is over
      have hgo : j.state.terminal = false := by
        cases hend : j.state.terminal with
        | false => rfl
        | true =>
            rw [Run.start?_of_terminal (r := s.lend j) hend] at hstart'
            cases hstart'
      have hsound := (h.right.instances j (List.mem_of_getElem? hj)).1
      have hfailed := (Run.start?_error_iff hstart' hsound hgo).mp ⟨_, rfl⟩
      obtain ⟨opened, hgrows⟩ := Run.start?_grows hstart'
      exact .inr ⟨rfl, hright, last.inst, getElem?_settle hj last, hgrows.key.trans hkey,
        by rw [hfailed]; rfl⟩
  | @same r r' htwin error? =>
      obtain ⟨opened, hgrows⟩ := Run.start?_grows hstart
      have hcaught : i.caught = j.caught := (congrArg Instance.caught hij :)
      have hkeyless : r.inst.keyless = r'.inst.keyless := htwin.inst.keyless_eq <| calc
        r.inst.caught.map CaughtEvent.published
          = i.caught.map CaughtEvent.published := (Run.kept_consumes.start? hstart).published
        _ = j.caught.map CaughtEvent.published := by rw [hcaught]
        _ = r'.inst.caught.map CaughtEvent.published :=
          (Run.kept_consumes.start? hstart').published.symm
      refine .inl ⟨?_, hleft, hright, h.now, htwin.handlers, htwin.stateless, r.inst, r'.inst,
        getElem?_settle hi r, getElem?_settle hj r', hgrows.key, hkeyless⟩
      cases error? with
      | none => exact congrArg Answer.inst hkeyless
      | some error => rfl

/-- **An operation on the instance does the same in both engines**, unless keys run
out in it. -/
theorem Beside.own (h : Beside key n e s) {fuel fuel' : Nat} (hfuel : fuel < fuel')
    {op : Operation} {out : Engine × Answer} (hop : op.addressee? = some key)
    (hperform : e.perform? fuel op = some out) (hkeys : out.2 ≠ .error .keysExhausted) :
    ∃ out', s.perform? fuel' op = some out' ∧
      ((out.2.keyless = out'.2.keyless ∧ Beside key n out.1 out'.1) ∨
        (out'.2 = .error .keysExhausted ∧ Over key n out'.1)) := by
  cases op with
  | publish addressee name vars =>
      obtain rfl := Option.some.inj hop
      obtain ⟨i, j, hi, hj, rfl, hij⟩ := h.insts
      have hkey : j.key = i.key := (congrArg Instance.key hij).symm
      have hleft := (perform?_changes hperform).sound h.left
      have hperform' := h.right.perform?_publish hj fuel' name vars
      rw [hkey] at hperform'
      have hright := (perform?_changes hperform').sound h.right
      rw [h.left.perform?_publish hi] at hperform
      cases hperform
      refine ⟨_, hperform', .inl ⟨rfl, hleft, hright, h.now, h.handlers, h.stateless,
        i.recordEvent ⟨name, e.now, vars, false⟩, j.recordEvent ⟨name, s.now, vars, false⟩,
        by simp [hi], by simp [hj], rfl, ?_⟩⟩
      rw [h.now]
      exact congrArg (fun i => i.recordEvent ⟨name, s.now, vars, false⟩) hij
  | run addressee =>
      obtain rfl := Option.some.inj hop
      exact h.run hfuel hperform hkeys
  | _ => cases hop

/-! ## Sequences of operations -/

/-- In engines side by side the second list of operations comes to the same for the
instance as the first.  It gives answers if it runs no other instance. -/
def ComesToSame (key : Int) (n fuel fuel' : Nat) (ops ops' : List Operation) : Prop :=
  ∀ ⦃e s : Engine⦄ ⦃out : Engine × List Answer⦄, Beside key n e s →
    e.performAll? fuel ops = some out → .error .keysExhausted ∉ answersTo key ops out.2 →
    ((∀ op ∈ ops', op.runs = true → op = .run key) →
      ∃ out', s.performAll? fuel' ops' = some out') ∧
    ∀ out', s.performAll? fuel' ops' = some out' →
      .error .keysExhausted ∉ answersTo key ops' out'.2 →
      (answersTo key ops out.2).map Answer.keyless =
        (answersTo key ops' out'.2).map Answer.keyless ∧ Beside key n out.1 out'.1

section ComesToSame

variable {fuel fuel' : Nat} {ops ops' : List Operation} {op op' : Operation}

theorem ComesToSame.foreign (h : ComesToSame key n fuel fuel' ops ops')
    (hop : op.addressee? ≠ some key) (hop' : op'.addressee? ≠ some key)
    (hclock : ∀ now, op.clock now = op'.clock now) (hhandlers : op.handlers = op'.handlers)
    (hstateless : ∀ entry ∈ op.handlers, entry.2.Stateless) :
    ComesToSame key n fuel fuel' (op :: ops) (op' :: ops') := by
  intro e s out hbeside hperform hkeys
  obtain ⟨step, later, hstep, hlater, rfl⟩ := performAll?_cons.mp hperform
  simp only [answersTo, if_neg hop] at hkeys ⊢
  have hnext : ∀ {step'}, s.perform? fuel' op' = some step' → Beside key n step.1 step'.1 :=
    fun hstep' => hbeside.foreign hop hop' hclock hhandlers hstateless hstep hstep'
  refine ⟨fun hruns => ?_, fun out' hperform' hkeys' => ?_⟩
  · have hquiet : op'.runs = false := by
      cases hruns' : op'.runs with
      | false => rfl
      | true =>
          rw [hruns op' List.mem_cons_self hruns'] at hop'
          exact absurd rfl hop'
    obtain ⟨step', hstep'⟩ : ∃ step', s.perform? fuel' op' = some step' := by
      cases op' with
      | run | createAndRun | createAndRunById => cases hquiet
      | _ => exact ⟨_, rfl⟩
    obtain ⟨later', hlater'⟩ := (h (hnext hstep') hlater hkeys).1 fun op hop =>
      hruns op (List.mem_cons_of_mem _ hop)
    exact ⟨_, performAll?_cons.mpr ⟨step', later', hstep', hlater', rfl⟩⟩
  · obtain ⟨step', later', hstep', hlater', rfl⟩ := performAll?_cons.mp hperform'
    simp only [answersTo, if_neg hop'] at hkeys' ⊢
    exact (h (hnext hstep') hlater hkeys).2 later' hlater' hkeys'

theorem ComesToSame.drop (h : ComesToSame key n fuel fuel' ops ops') {other : Int}
    (hop : op.addressee? = some other) (hother : other ≠ key) :
    ComesToSame key n fuel fuel' (op :: ops) ops' := by
  intro e s out hbeside hperform hkeys
  obtain ⟨step, later, hstep, hlater, rfl⟩ := performAll?_cons.mp hperform
  have hforeign : ¬ op.addressee? = some key := by
    rw [hop]
    exact fun heq => hother (Option.some.inj heq)
  simp only [answersTo, if_neg hforeign] at hkeys ⊢
  exact h (hbeside.drop hop hother hstep) hlater hkeys

theorem ComesToSame.own (h : ComesToSame key n fuel fuel' ops ops') (hfuel : fuel < fuel')
    (hop : op.addressee? = some key) : ComesToSame key n fuel fuel' (op :: ops) (op :: ops') := by
  intro e s out hbeside hperform hkeys
  obtain ⟨step, later, hstep, hlater, rfl⟩ := performAll?_cons.mp hperform
  simp only [answersTo, if_pos hop, List.mem_cons, not_or] at hkeys
  obtain ⟨step', hstep', ⟨hanswer, hnext⟩ | ⟨hexhausted, hover⟩⟩ :=
    hbeside.own hfuel hop hstep (Ne.symm hkeys.1)
  · obtain ⟨hexists, hsame⟩ := h hnext hlater hkeys.2
    refine ⟨fun hruns => ?_, fun out' hperform' hkeys' => ?_⟩
    · obtain ⟨later', hlater'⟩ := hexists fun op hop => hruns op (List.mem_cons_of_mem _ hop)
      exact ⟨_, performAll?_cons.mpr ⟨step', later', hstep', hlater', rfl⟩⟩
    · obtain ⟨step₁, later', hstep₁, hlater', rfl⟩ := performAll?_cons.mp hperform'
      obtain rfl := Option.some.inj (hstep'.symm.trans hstep₁)
      simp only [answersTo, if_pos hop, List.mem_cons, not_or] at hkeys' ⊢
      obtain ⟨hanswers, hlast⟩ := hsame later' hlater' hkeys'.2
      exact ⟨by rw [List.map_cons, List.map_cons, hanswer, hanswers], hlast⟩
  · -- the instance has failed in the second engine, and nothing more comes of it
    refine ⟨fun hruns => ?_, fun out' hperform' hkeys' => ?_⟩
    · obtain ⟨later', hlater'⟩ :=
        hover.all_isSome (fun op hop => hruns op (List.mem_cons_of_mem _ hop)) fuel'
      exact ⟨_, performAll?_cons.mpr ⟨step', later', hstep', hlater', rfl⟩⟩
    · obtain ⟨step₁, later', hstep₁, -, rfl⟩ := performAll?_cons.mp hperform'
      obtain rfl := Option.some.inj (hstep'.symm.trans hstep₁)
      simp only [answersTo, if_pos hop, List.mem_cons, not_or] at hkeys'
      exact absurd hexhausted.symm hkeys'.1

/-- **Fewer operations on other instances come to the same.** -/
theorem comesToSame_of_fewer (hfuel : fuel < fuel') (h : Operation.Fewer key ops ops')
    (hstateless : ∀ op ∈ ops, ∀ entry ∈ op.handlers, entry.2.Stateless) :
    ComesToSame key n fuel fuel' ops ops' := by
  induction h with
  | nil =>
      intro e s out hbeside hperform _
      cases hperform
      refine ⟨fun _ => ⟨_, rfl⟩, fun out' hperform' _ => ?_⟩
      cases hperform'
      exact ⟨rfl, hbeside⟩
  | keep op h ih =>
      have hrest := ih fun op hop => hstateless op (List.mem_cons_of_mem _ hop)
      by_cases hop : op.addressee? = some key
      · exact hrest.own hfuel hop
      · exact hrest.foreign hop hop (fun _ => rfl) rfl (hstateless op List.mem_cons_self)
  | drop hop hother h ih =>
      exact (ih fun op hop => hstateless op (List.mem_cons_of_mem _ hop)).drop hop hother
  | create definitionKey vars h ih =>
      exact (ih fun op hop => hstateless op (List.mem_cons_of_mem _ hop)).foreign nofun nofun
        (fun _ => rfl) rfl nofun
  | createById id vars h ih =>
      exact (ih fun op hop => hstateless op (List.mem_cons_of_mem _ hop)).foreign nofun nofun
        (fun _ => rfl) rfl nofun

end ComesToSame

end Beside

/-- **Instances do not interfere.**  Take an instance of a reachable engine and some
operations, in which only stateless handlers are registered and keys do not run out
on the instance.  Leave out operations that are addressed to other instances; the
clock is set as before.  If no other instance is run in what is left, it gives answers
within any greater number of commands.  And unless keys run out there, the operations
on the instance are answered as before, and the instance is the same in the end; all
this is up to the keys of activities, which increase along both arenas.  Conversely,
an operation on the instance leaves all definitions and all other instances as they
were. -/
theorem instances_apart {starts : KeySequence → Prop} {e : Engine} (h : Reachable starts e)
    {n : Nat} {i : Instance} (hi : e.instances[n]? = some i)
    (hhandlers : ∀ g ∈ e.registrations, g.handler.Stateless) {fuel : Nat} {ops : List Operation}
    (hregistered : ∀ accepts handler, .register accepts handler ∈ ops → handler.Stateless)
    {out : Engine × List Answer} (hrun : e.performAll? fuel ops = some out)
    (hkeys : .error .keysExhausted ∉ answersTo i.key ops out.2) :
    (∀ ops', Operation.Fewer i.key ops ops' →
      ((∀ op ∈ ops', op.runs = true → op = .run i.key) →
        ∀ fuel', fuel < fuel' → ∃ out', e.performAll? fuel' ops' = some out') ∧
      ∀ fuel' out', e.performAll? fuel' ops' = some out' →
        .error .keysExhausted ∉ answersTo i.key ops' out'.2 →
        (answersTo i.key ops out.2).map Answer.keyless =
          (answersTo i.key ops' out'.2).map Answer.keyless ∧
        ∃ j j', out.1.instances[n]? = some j ∧ out'.1.instances[n]? = some j' ∧
          j.keyless = j'.keyless ∧ j.Ascending ∧ j'.Ascending) ∧
    ∀ op fuel out, op.addressee? = some i.key → e.perform? fuel op = some out →
      out.1.definitions = e.definitions ∧
        ∀ m, m ≠ n → out.1.instances[m]? = e.instances[m]? := by
  have hstateless : ∀ op ∈ ops, ∀ entry ∈ op.handlers, entry.2.Stateless := by
    intro op hop entry hentry
    cases op with
    | register accepts handler =>
        obtain rfl := List.mem_singleton.mp hentry
        exact hregistered accepts handler hop
    | _ => cases hentry
  have hbeside : Beside i.key n e e := by
    refine ⟨h.sound, h.sound, rfl, rfl, fun entry hentry => ?_, i, i, hi, hi, rfl, rfl⟩
    obtain ⟨g, hg, rfl⟩ := List.mem_map.mp hentry
    exact hhandlers g hg
  have hsame : ∀ {fuel' ops'}, fuel < fuel' → Operation.Fewer i.key ops ops' → _ :=
    fun hfuel hfewer => comesToSame_of_fewer hfuel hfewer hstateless hbeside hrun hkeys
  refine ⟨fun ops' hfewer => ⟨fun hruns fuel' hfuel => ?_, fun fuel' out' hrun' hkeys' => ?_⟩,
    fun op fuel out hop hperform => ?_⟩
  · exact (hsame hfuel hfewer).1 hruns
  · have hmore : e.performAll? (fuel + fuel' + 1) ops' = some out' :=
      performAll?_mono (by omega) hrun'
    obtain ⟨hanswers, hlast⟩ := (hsame (by omega) hfewer).2 out' hmore hkeys'
    obtain ⟨j, j', hj, hj', -, hkeyless⟩ := hlast.insts
    exact ⟨hanswers, j, j', hj, hj', hkeyless,
      (h.performAll hrun).ascending j (List.mem_of_getElem? hj),
      (h.performAll hrun').ascending j' (List.mem_of_getElem? hj')⟩
  · exact h.sound.perform?_addressed hi hop hperform

/-- Operations on two errands, with a handler that completes each job at once. -/
private def errands : List Operation :=
  [.register (.id "a") fun _ _ => [.complete], .run 3, .publish 2 "m" [], .publish 3 "m" [],
    .run 2]

/-- What is left where the second errand is neither run nor sent its message. -/
private def firstErrand : List Operation :=
  errands.filter fun op => op.addressee?.all fun other => other == 2

private def keysLast (answers : List Answer) : Bool :=
  answers.all fun answer =>
    match answer with
    | .error .keysExhausted => false
    | _ => true

private theorem not_mem_of_keysLast {answers : List Answer} (h : keysLast answers = true) :
    .error .keysExhausted ∉ answers := fun hmem => by
  cases List.all_eq_true.mp h _ hmem

/-- The first errand comes to the same with other keys. -/
theorem errands_apart :
    ∃ (e : Engine) (i j j' : Instance) (out out' : Engine × List Answer),
      Reachable (· = .default) e ∧ e.instances[0]? = some i ∧ e.instances.length = 2 ∧
      Operation.Fewer i.key errands firstErrand ∧ firstErrand.length + 2 = errands.length ∧
      e.performAll? 100 errands = some out ∧ e.performAll? 101 firstErrand = some out' ∧
      (answersTo i.key errands out.2).map Answer.keyless =
        (answersTo i.key firstErrand out'.2).map Answer.keyless ∧
      out.1.instances[0]? = some j ∧ out'.1.instances[0]? = some j' ∧ j.keyless = j'.keyless ∧
      j.Ascending ∧ j'.Ascending ∧ j.activities.map Activity.key = [7, 8, 9] ∧
      j'.activities.map Activity.key = [4, 5, 6] := by
  obtain ⟨e, hreachable, htest⟩ := exists_reachable ofMarkup_errandSource 100
    [.create 1 [], .create 1 []]
    (fun e => e.registrations.isEmpty && e.instances.length == 2 &&
      e.instances[0]?.any fun i => i.key == 2 &&
        (e.performAll? 100 errands).any fun out => keysLast (answersTo 2 errands out.2) &&
          out.1.instances[0]?.any (fun j => j.activities.map Activity.key == [7, 8, 9]) &&
          (e.performAll? 101 firstErrand).any fun out' =>
            keysLast (answersTo 2 firstErrand out'.2) &&
            out'.1.instances[0]?.any fun j' => j'.activities.map Activity.key == [4, 5, 6])
    (by decide +kernel)
  obtain ⟨hengine, htest⟩ := (Bool.and_eq_true _ _).mp htest
  obtain ⟨i, hi, htest⟩ := (Option.any_eq_true _ _).mp htest
  obtain ⟨hkey, htest⟩ := (Bool.and_eq_true _ _).mp htest
  obtain ⟨out, hrun, htest⟩ := (Option.any_eq_true _ _).mp htest
  obtain ⟨hfull, htest⟩ := (Bool.and_eq_true _ _).mp htest
  obtain ⟨out', hrun', hrest⟩ := (Option.any_eq_true _ _).mp htest
  obtain ⟨hkeys', hfirst⟩ := (Bool.and_eq_true _ _).mp hrest
  obtain ⟨hkeys, hall⟩ := (Bool.and_eq_true _ _).mp hfull
  simp only [Bool.and_eq_true, beq_iff_eq, List.isEmpty_iff] at hengine hkey
  obtain ⟨hnone, hcount⟩ := hengine
  have hhandlers : ∀ g ∈ e.registrations, g.handler.Stateless := by
    rw [hnone]
    exact nofun
  have hregistered : ∀ accepts handler, .register accepts handler ∈ errands →
      handler.Stateless := by
    intro accepts handler hmem
    simp only [errands, List.mem_cons, List.not_mem_nil, or_false, reduceCtorEq,
      Operation.register.injEq] at hmem
    obtain ⟨-, rfl⟩ := hmem
    exact fun _ _ _ _ => rfl
  have hfewer : Operation.Fewer i.key errands firstErrand := hkey ▸ Operation.fewer_filter 2 errands
  rw [← hkey] at hkeys hkeys'
  obtain ⟨hanswers, j, j', hj, hj', hkeyless, hascending, hascending'⟩ :=
    ((instances_apart hreachable hi hhandlers hregistered hrun (not_mem_of_keysLast hkeys)).1
      firstErrand hfewer).2 101 out' hrun' (not_mem_of_keysLast hkeys')
  have hsecond : j.activities.map Activity.key = [7, 8, 9] := by simpa [hj] using hall
  have hfirst : j'.activities.map Activity.key = [4, 5, 6] := by simpa [hj'] using hfirst
  exact ⟨e, i, j, j', out, out', hreachable, hi, hcount, hfewer, rfl, hrun, hrun', hanswers, hj,
    hj', hkeyless, hascending, hascending', hsecond, hfirst⟩

end Engine

end ProcessEngine
