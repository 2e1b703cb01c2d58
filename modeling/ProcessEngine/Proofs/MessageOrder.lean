import ProcessEngine.Proofs.InstanceEnds
import ProcessEngine.Proofs.InstanceProgress
import ProcessEngine.Proofs.TwinRuns

/-!
# The order of messages

A subscription takes the first event of its name that is left, so a run cannot
tell in which order events of different names were published.  Instances to which
the same events were sent, in the same order for each name, are twins, and so are
the runs of them.  Both runs start from the same key source, hence they agree in
the keys of the activities too.

Main statement: `order_of_messages`.
-/

namespace ProcessEngine

/-- An event on its way to an instance. -/
structure Letter where
  sentAt : Instant
  name : String
  vars : Variables

/-- A letter as it arrives. -/
def Letter.event (l : Letter) : CaughtEvent := ⟨l.name, l.sentAt, l.vars, false⟩

/-- What the letters of a name hold, in the order in which they are sent. -/
def lettersOf (name : String) (letters : List Letter) : List Variables :=
  (letters.filter fun l => l.name == name).map Letter.vars

theorem mailOf_letters (name : String) (letters : List Letter) :
    mailOf name (letters.map Letter.event) =
      (lettersOf name letters).map fun vars => (vars, false) := by
  rw [mailOf, lettersOf, List.filter_map, List.map_map, List.map_map]
  rfl

/-- An event without the time at which it was published. -/
def CaughtEvent.content (c : CaughtEvent) : String × Variables × Bool :=
  (c.name, c.vars, c.consumed)

/-- Lists that agree for each name hold the same events. -/
theorem perm_of_mailOf {events events' : List CaughtEvent}
    (h : ∀ name, mailOf name events = mailOf name events') :
    (events.map CaughtEvent.content).Perm (events'.map CaughtEvent.content) := by
  classical
  have hcount : ∀ (cs : List CaughtEvent) (name : String) (mail : Variables × Bool),
      (cs.map CaughtEvent.content).count (name, mail) = (mailOf name cs).count mail := by
    intro cs name mail
    rw [List.count_eq_countP, List.count_eq_countP, mailOf, List.countP_map, List.countP_map,
      List.countP_filter]
    refine List.countP_congr fun c _ => ?_
    simp [CaughtEvent.content, and_comm]
  refine List.perm_iff_count.mpr fun content => ?_
  obtain ⟨name, mail⟩ := content
  rw [hcount, hcount, h]

namespace Instance

/-- Twins with the same keys have the same activities. -/
theorem Twin.activities_eq {i j : Instance} (h : i.Twin j) (hkeys : i.keys = j.keys) :
    i.activities = j.activities := by
  have hkey : i.activities.map Activity.key = j.activities.map Activity.key :=
    (List.cons.inj hkeys).2
  refine List.ext_getElem? fun n => ?_
  have hbody := h.getElem? n
  have hat : i.activities[n]?.map Activity.key = j.activities[n]?.map Activity.key := by
    rw [← List.getElem?_map, ← List.getElem?_map, hkey]
  cases ha : i.activities[n]? with
  | none =>
      rw [ha] at hbody
      exact (Option.map_eq_none_iff.mp hbody.symm).symm
  | some a =>
      cases hb : j.activities[n]? with
      | none => simp [ha, hb] at hbody
      | some b =>
          obtain ⟨key, element, origin, body⟩ := a
          obtain ⟨key', element', origin', body'⟩ := b
          simp only [ha, hb, Option.map_some, Option.some.injEq, Activity.keyless,
            Activity.mk.injEq, true_and] at hbody hat
          obtain ⟨rfl, rfl, rfl⟩ := hbody
          obtain rfl := hat
          rfl

/-- The instance after letters have arrived. -/
def receiveAll (i : Instance) (letters : List Letter) : Instance :=
  { i with caught := i.caught ++ letters.map Letter.event }

/-- The order of letters with different names makes no difference but to the list
of events. -/
theorem twin_receiveAll (i : Instance) {first second : List Letter}
    (h : ∀ name, lettersOf name first = lettersOf name second) :
    (i.receiveAll first).Twin (i.receiveAll second) where
  key := rfl
  definition := rfl
  vars := rfl
  createdAt := rfl
  state := rfl
  mail name := by
    show mailOf name (i.caught ++ _) = mailOf name (i.caught ++ _)
    rw [mailOf_append, mailOf_append, mailOf_letters, mailOf_letters, h]
  activities := rfl

end Instance

/-- Twins that began with the same key source have issued the same keys. -/
theorem Run.Twin.instance_keys {gap : Run.Gap} {r r' s s' : Run} {opened opened' : List Activity}
    (h : Run.Twin gap r s) (hgap : gap.keys = 0) (hkeys : r.inst.keys = s.inst.keys)
    (hgrows : Run.Grows opened r r') (hgrows' : Run.Grows opened' s s')
    (h' : Run.Twin gap r' s') : r'.inst.keys = s'.inst.keys := by
  have hnext := h.keys
  have hnext' := h'.keys
  rw [hgap, Int.add_zero] at hnext hnext'
  have hcount : opened'.length = opened.length := by
    have hissued := hgrows.keys
    have hissued' := hgrows'.keys
    omega
  rw [hgrows.instance_keys, hgrows'.instance_keys, hkeys, hnext, hcount]

namespace Engine

/-- The engine after letters were sent to the instance with a key, one after
another. -/
def post (e : Engine) (key : Int) (letters : List Letter) : Engine :=
  letters.foldl (fun e l => ((e.setClock l.sentAt).publish key l.name l.vars).1) e

variable {e : Engine} {n : Nat} {i : Instance}

/-- What sending letters does to an engine and the instance at a position. -/
structure Posted (e : Engine) (n : Nat) (i : Instance) (e' : Engine) : Prop where
  sound : e'.Sound
  inst : e'.instances[n]? = some i
  keys : e'.keys = e.keys
  registrations : e'.registrations = e.registrations
  audit : e'.audit = e.audit

theorem Sound.post (he : e.Sound) (hi : e.instances[n]? = some i) (letters : List Letter) :
    Posted e n (i.receiveAll letters) (e.post i.key letters) := by
  induction letters generalizing e i with
  | nil =>
      have hnone : i.receiveAll [] = i := by simp [Instance.receiveAll]
      rw [hnone]
      exact ⟨he, hi, rfl, rfl, rfl⟩
  | cons l rest ih =>
      have hclock : (e.setClock l.sentAt).Sound := (Change.clock e l.sentAt).sound he
      have hsent : (e.setClock l.sentAt).publish i.key l.name l.vars =
          ({ e.setClock l.sentAt with
            instances := e.instances.modify n fun i => i.recordEvent l.event }, .ok ()) := by
        have hfind : (e.setClock l.sentAt).findIndex? i.key = some n := hclock.findIndex? hi
        rw [publish, hfind]
        rfl
      have hsound := (publish_changes (e.setClock l.sentAt) i.key l.name l.vars).sound hclock
      rw [hsent] at hsound
      obtain ⟨hsound, hinst, hkeys, hregistrations, haudit⟩ :=
        ih (i := i.recordEvent l.event) hsound (by simp [hi])
      have hlast : (i.recordEvent l.event).receiveAll rest = i.receiveAll (l :: rest) := by
        simp [Instance.receiveAll, Instance.recordEvent]
      rw [hlast] at hinst
      have hpost : e.post i.key (l :: rest) = Engine.post
          { e.setClock l.sentAt with
            instances := e.instances.modify n fun i => i.recordEvent l.event } i.key rest := by
        rw [Engine.post, List.foldl_cons, hsent]
        rfl
      rw [hpost]
      exact ⟨hsound, hinst, hkeys, hregistrations, haudit⟩

/-- What is lent to a run is a twin of what is lent after the same letters in
another order. -/
theorem Sound.twin_lend_post (he : e.Sound) (hi : e.instances[n]? = some i)
    (hhandlers : ∀ g ∈ e.registrations, g.handler.Stateless) {first second : List Letter}
    (hsame : ∀ name, lettersOf name first = lettersOf name second) (now : Instant) :
    Run.Twin ⟨0, e.audit, e.audit⟩
      (((e.post i.key first).setClock now).lend (i.receiveAll first))
      (((e.post i.key second).setClock now).lend (i.receiveAll second)) := by
  have hfirst := he.post hi first
  have hsecond := he.post hi second
  refine ⟨i.twin_receiveAll hsame, ?_, ?_, fun entry hentry => ?_, rfl, [], ?_, ?_⟩
  · show (e.post i.key second).keys.next = (e.post i.key first).keys.next + 0
    rw [hfirst.keys, hsecond.keys, Int.add_zero]
  · show (e.post i.key first).registrations.map _ = (e.post i.key second).registrations.map _
    rw [hfirst.registrations, hsecond.registrations]
  · obtain ⟨g, hg, rfl⟩ := List.mem_map.mp hentry
    change g ∈ (e.post i.key first).registrations at hg
    rw [hfirst.registrations] at hg
    exact hhandlers g hg
  · exact hfirst.audit.trans (List.append_nil _).symm
  · exact hsecond.audit.trans (List.append_nil _).symm

/-- **The order of events with different names.**  Send an instance of a reachable
engine the same events twice, in the same order for each name but in any order and
at any times otherwise, and run it at the same time with the same stateless
handlers.  If one run ends then so does the other, with the same result; state,
variables, activities and reports are the same; and the caught events are the same
ones, each name's in the same order and consumed alike, where they were published
in their own order. -/
theorem order_of_messages {starts : KeySequence → Prop} (h : Reachable starts e)
    (hi : e.instances[n]? = some i) (hhandlers : ∀ g ∈ e.registrations, g.handler.Stateless)
    {first second : List Letter} (hsame : ∀ name, lettersOf name first = lettersOf name second)
    {now : Instant} {fuel : Nat} {out : Engine × Except EngineError Instance}
    (hrun : ((e.post i.key first).setClock now).run? fuel i.key = some out) :
    ∃ out', ((e.post i.key second).setClock now).run? fuel i.key = some out' ∧
      ∃ j j', out.1.instances[n]? = some j ∧ out'.1.instances[n]? = some j' ∧
        ((out.2 = .ok j ∧ out'.2 = .ok j') ∨
          ∃ error, out.2 = .error error ∧ out'.2 = .error error) ∧
        j.state = j'.state ∧ j.vars = j'.vars ∧ j.activities = j'.activities ∧
        out.1.audit = out'.1.audit ∧
        (j.caught.map CaughtEvent.content).Perm (j'.caught.map CaughtEvent.content) ∧
        (∀ name, mailOf name j.caught = mailOf name j'.caught) ∧
        j.caught.map CaughtEvent.published =
          (i.caught ++ first.map Letter.event).map CaughtEvent.published ∧
        j'.caught.map CaughtEvent.published =
          (i.caught ++ second.map Letter.event).map CaughtEvent.published := by
  -- both runs begin at `now` with what the engine lends them
  have hbegin : ∀ letters, ((e.post i.key letters).setClock now).Sound ∧
      ((e.post i.key letters).setClock now).instances[n]? = some (i.receiveAll letters) := by
    intro letters
    have hposted := h.sound.post hi letters
    exact ⟨(Change.clock _ now).sound hposted.sound, hposted.inst⟩
  have hran : ∀ letters, ((e.post i.key letters).setClock now).run? fuel i.key = _ :=
    fun letters => (hbegin letters).1.run?_eq (hbegin letters).2 fuel
  have hbefore := h.sound.twin_lend_post hi hhandlers hsame now
  have hends := (hran first).symm.trans hrun
  obtain ⟨⟨r, error?⟩, hstart, rfl⟩ := Option.map_eq_some_iff.mp hends
  obtain ⟨⟨s, error?'⟩, hstart', halike⟩ :=
    hbefore.start? (Nat.le_refl fuel) (.inl rfl) hstart (.inl rfl)
  have hends' : ((e.post i.key second).setClock now).run? fuel i.key = _ :=
    (hran second).trans (congrArg _ hstart')
  obtain ⟨opened, hgrows⟩ := Run.start?_grows hstart
  obtain ⟨opened', hgrows'⟩ := Run.start?_grows hstart'
  cases halike with
  | left hgap => exact absurd rfl hgap
  | right hgap => exact absurd rfl hgap
  | same htwin =>
      refine ⟨_, hends', r.inst, s.inst, getElem?_settle (hbegin first).2 r,
        getElem?_settle (hbegin second).2 s, ?_, htwin.inst.state, htwin.inst.vars, ?_, ?_,
        perm_of_mailOf htwin.inst.mail, htwin.inst.mail, ?_, ?_⟩
      · cases error? with
        | none => exact .inl ⟨rfl, rfl⟩
        | some error => exact .inr ⟨error, rfl, rfl⟩
      · exact htwin.inst.activities_eq (hbefore.instance_keys rfl rfl hgrows hgrows' htwin)
      · obtain ⟨more, haudit, haudit'⟩ := htwin.audit
        exact haudit.trans haudit'.symm
      · exact (Run.kept_consumes.start? hstart).published
      · exact (Run.kept_consumes.start? hstart').published

/-- A handler that completes every job at once. -/
private def completing : Handler := fun _ _ => [.complete]

/-- A letter that nobody waits for comes before the one that is awaited, or after
it; the errand is done alike. -/
theorem order_of_errand_messages :
    ∃ (e : Engine) (i j j' : Instance) (out out' : Engine × Except EngineError Instance)
      (first second : List Letter), Reachable (· = .default) e ∧ e.instances[0]? = some i ∧
      (∀ g ∈ e.registrations, g.handler.Stateless) ∧ e.registrations.length = 1 ∧
      (∀ name, lettersOf name first = lettersOf name second) ∧
      first.map Letter.name = ["x", "m"] ∧ second.map Letter.name = ["m", "x"] ∧
      ((e.post i.key first).setClock (.ofMillis 5)).run? 100 i.key = some out ∧
      ((e.post i.key second).setClock (.ofMillis 5)).run? 100 i.key = some out' ∧
      out.1.instances[0]? = some j ∧ out'.1.instances[0]? = some j' ∧
      j.activities = j'.activities ∧ out.1.audit = out'.1.audit ∧
      (mailOf "m" j'.caught).map Prod.snd = [true] ∧
      (mailOf "x" j'.caught).map Prod.snd = [false] := by
  obtain ⟨e, hreachable, htest⟩ := exists_reachable ofMarkup_errandSource 100 [.create 1 []]
    (fun e => e.registrations.isEmpty && e.instances[0]?.any fun i => i.key == 2 &&
      ((((e.register (.id "a") completing).post 2
          [⟨.ofMillis 0, "x", []⟩, ⟨.ofMillis 0, "m", []⟩]).setClock (.ofMillis 5)).run? 100 2).any
        fun out => out.1.instances[0]?.any fun j =>
          (mailOf "m" j.caught).map Prod.snd == [true] &&
            (mailOf "x" j.caught).map Prod.snd == [false])
    (by decide +kernel)
  obtain ⟨hnone, htest⟩ := (Bool.and_eq_true _ _).mp htest
  obtain ⟨i, hi, htest⟩ := (Option.any_eq_true _ _).mp htest
  obtain ⟨hkey, htest⟩ := (Bool.and_eq_true _ _).mp htest
  obtain ⟨out, hrun, htest⟩ := (Option.any_eq_true _ _).mp htest
  obtain ⟨j, hj, htest⟩ := (Option.any_eq_true _ _).mp htest
  simp only [Bool.and_eq_true, beq_iff_eq, List.isEmpty_iff] at hnone hkey htest
  obtain ⟨hawaited, hleft⟩ := htest
  rw [← hkey] at hrun
  have hperform : e.perform? 0 (.register (.id "a") completing) =
      some (e.register (.id "a") completing, .done) := rfl
  have hready := hreachable.perform hperform
  have hregistered : (e.register (.id "a") completing).registrations =
      [⟨.id "a", completing, 0⟩] := by rw [register, hnone]; rfl
  have hstateless : ∀ g ∈ (e.register (.id "a") completing).registrations,
      g.handler.Stateless := by
    intro g hg
    rw [hregistered] at hg
    obtain rfl := List.mem_singleton.mp hg
    exact fun _ _ _ _ => rfl
  have hsame : ∀ name,
      lettersOf name [⟨.ofMillis 0, "x", []⟩, ⟨.ofMillis 0, "m", []⟩] =
        lettersOf name [⟨.ofMillis 0, "m", []⟩, ⟨.ofMillis 1, "x", []⟩] := by
    intro name
    by_cases hx : "x" = name
    · subst hx
      rfl
    · by_cases hm : "m" = name <;> simp [lettersOf, hx, hm]
  obtain ⟨out', hrun', j₁, j', hj₁, hj', -, -, -, hactivities, haudit, -, hmail, -, -⟩ :=
    order_of_messages hready hi hstateless hsame hrun
  obtain rfl := Option.some.inj (hj.symm.trans hj₁)
  exact ⟨_, i, j, j', out, out', _, _, hready, hi, hstateless, by rw [hregistered]; rfl, hsame,
    rfl, rfl, hrun, hrun', hj, hj', hactivities, haudit, (hmail "m") ▸ hawaited,
    (hmail "x") ▸ hleft⟩

end Engine

end ProcessEngine
