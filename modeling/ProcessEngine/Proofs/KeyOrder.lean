import ProcessEngine.Proofs.RestoreStability

/-!
# Keys in the order of creation

All keys come from one source that counts upwards, and all of them are stored.
So the keys of an engine increase in the order in which things were created, and
what is created next gets a greater one.  This outlives a snapshot: the engine
that restores it has a key source of its own, which is moved past every key that
is stored, wherever it started.

`Engine.Descends` follows an engine through operations and restores.  Less is
asked of a stored text than to be read back as it was written: variables and
events may have become what they are, as long as the definitions and the
activities have come through.

Main statement: `Descends.keys_ordered`.
-/

namespace ProcessEngine

namespace Engine

/-! ## Engines that come back -/

/-- An engine that stores the same under the same keys. -/
structure SameStore (e stored : Engine) : Prop where
  definitions : stored.definitions = e.definitions
  instances : List.Forall₂ (fun i j : Instance => j.key = i.key ∧
    j.definition = i.definition ∧ j.activities = i.activities) e.instances stored.instances

/-- An engine is replaced by what a text of its snapshot is restored to, with a
key source that starts as `starts` says. -/
def ComesBack (starts : KeySequence → Prop) (e e' : Engine) : Prop :=
  ∃ (stored blank : Engine) (text : String), e.SameStore stored ∧ blank.Blank ∧
    starts blank.keys ∧ Snapshot.parse? text = some stored.snapshot ∧
    blank.restore text = .ok e'

/-- The engines that come about by operations and by coming back. -/
inductive Descends (starts : KeySequence → Prop) : Engine → Prop
  | fresh (name : String) {keys : KeySequence} (now : Instant) (hkeys : starts keys) :
      Descends starts (Engine.fresh name keys now)
  | perform {e : Engine} {fuel : Nat} {op : Operation} {out : Engine × Answer}
      (h : Descends starts e) (hop : e.perform? fuel op = some out) : Descends starts out.1
  | restore {e e' : Engine} (h : Descends starts e) (hback : e.ComesBack starts e') :
      Descends starts e'

section ComesBack

variable {starts : KeySequence → Prop} {e e' stored : Engine}

/-- An engine stores the same as itself. -/
theorem SameStore.refl (e : Engine) : e.SameStore e :=
  ⟨rfl, List.forall₂_same.mpr fun _ _ => ⟨rfl, rfl, rfl⟩⟩

theorem SameStore.storedKeys (h : e.SameStore stored) : stored.storedKeys = e.storedKeys := by
  have hkeys : stored.instances.map Instance.keys = e.instances.map Instance.keys :=
    map_eq_map_of_forall₂ h.instances fun i j hij => by
      rw [Instance.keys, Instance.keys, hij.1, hij.2.2]
  rw [Engine.storedKeys, Engine.storedKeys, h.definitions, List.flatMap_def, List.flatMap_def,
    hkeys]

/-- What is stored is in order, whatever the variables have become. -/
theorem SameStore.sound (h : e.SameStore stored) (he : e.Sound) :
    Sound { stored with keys := e.keys } where
  genuine d hd := he.genuine d (h.definitions ▸ hd)
  instances j hj := by
    obtain ⟨i, hi, hkey, hdefinition, hactivities⟩ := exists_of_forall₂_right h.instances hj
    refine ⟨(he.instances i hi).1.of_eq hkey hdefinition hactivities, ?_⟩
    rw [hdefinition]
    exact h.definitions ▸ (he.instances i hi).2
  nodup := h.storedKeys ▸ he.nodup
  behind key hkey := he.behind key (h.storedKeys ▸ hkey)

/-- **What an engine comes back as.** -/
theorem ComesBack.restored (h : e.ComesBack starts e') (he : e.Sound) : e'.Sound ∧
    e'.definitions = e.definitions ∧ e'.storedKeys = e.storedKeys ∧
    List.Forall₂ (fun i j : Instance => j.key = i.key ∧ j.definition = i.definition ∧
      j.activities = i.relinked.activities) e.instances e'.instances := by
  obtain ⟨stored, blank, text, hsame, hblank, -, hparse, hrestore⟩ := h
  have hstored := hsame.sound he
  -- a snapshot leaves the key source out, so `stored` may take that of `e`
  have hrebuild : blank.rebuild { stored with keys := e.keys }.snapshot = .ok e' :=
    (restore_eq_rebuild hparse).symm.trans hrestore
  refine ⟨hstored.rebuild hblank hrebuild, ?_⟩
  rw [rebuild_snapshot hstored hblank] at hrebuild
  obtain rfl := (Except.ok.inj hrebuild).symm
  refine ⟨hsame.definitions, ?_, ?_⟩
  · rw [← hsame.storedKeys]
    simp [Engine.storedKeys, List.flatMap_map]
  · refine List.forall₂_map_right_iff.mpr (hsame.instances.imp fun i j hij => ?_)
    obtain ⟨hkey, hdefinition, hactivities⟩ := hij
    refine ⟨hkey, hdefinition, ?_⟩
    have hdiagram : j.diagram = i.diagram := congrArg Definition.diagram hdefinition
    have hrelinked : j.relinkedActivity = i.relinkedActivity := by
      funext a
      rw [Instance.relinkedActivity, Instance.relinkedActivity, Instance.elementIdAt,
        Instance.elementIdAt, hdiagram]
    rw [Instance.relinked, Instance.relinked, hactivities, hrelinked]

theorem Descends.sound (h : Descends starts e) : e.Sound := by
  induction h with
  | fresh name now => exact sound_fresh name _ now
  | perform _ hop ih => exact (perform?_changes hop).sound ih
  | restore _ hback ih => exact (hback.restored ih).1

/-- An engine that is reached is one that descends from a fresh one. -/
theorem Reachable.descends (h : Reachable starts e) : Descends starts e := by
  induction h with
  | fresh name now hkeys => exact .fresh name now hkeys
  | perform _ hop ih => exact ih.perform hop
  | @restore e blank e' text _ hblank hkeys hparse hrestore ih =>
      exact ih.restore ⟨e, blank, text, .refl e, hblank, hkeys, hparse, hrestore⟩

theorem Descends.performAll {fuel : Nat} {ops : List Operation} {out : Engine × List Answer}
    (h : Descends starts e) (hops : e.performAll? fuel ops = some out) :
    Descends starts out.1 :=
  performAll?_induction (fun hop h => h.perform hop) hops h

end ComesBack

/-! ## Keys in order -/

/-- The keys of an instance in the order of creation: those of its definition,
the instance and its activities. -/
def keyRow (i : Instance) : List Int := i.definition.key :: i.keys

/-- Keys increase along the definitions, along the instances, and from each
definition to an instance of it and on along its arena. -/
structure Ordered (e : Engine) : Prop where
  definitions : (e.definitions.map Definition.key).Pairwise (· < ·)
  instances : (e.instances.map Instance.key).Pairwise (· < ·)
  arenas : ∀ i ∈ e.instances, (keyRow i).Pairwise (· < ·)

section Ordered

variable {starts : KeySequence → Prop} {e e' : Engine}

/-- Order is a matter of the keys. -/
theorem Ordered.of_keys (h : e.Ordered)
    (hdefinitions : e'.definitions.map Definition.key = e.definitions.map Definition.key)
    (hrows : e'.instances.map keyRow = e.instances.map keyRow) : e'.Ordered := by
  have hkeys : ∀ instances : List Instance, instances.map Instance.key =
      (instances.map keyRow).map fun row => row.tail.headD 0 := by
    intro instances
    rw [List.map_map]
    rfl
  refine ⟨hdefinitions ▸ h.definitions, ?_, fun j hj => ?_⟩
  · rw [hkeys, hrows, ← hkeys]
    exact h.instances
  · obtain ⟨i, hi, hrow⟩ := List.mem_map.mp (hrows ▸ List.mem_map_of_mem hj)
    rw [← hrow]
    exact h.arenas i hi

/-- A key behind all others goes to the end. -/
theorem pairwise_concat {keys : List Int} {next : Int} (h : keys.Pairwise (· < ·))
    (hnext : ∀ key ∈ keys, key < next) : (keys ++ [next]).Pairwise (· < ·) :=
  List.pairwise_append.mpr ⟨h, List.pairwise_singleton _ _, fun a ha b hb => by
    obtain rfl := List.mem_singleton.mp hb
    exact hnext a ha⟩

theorem mem_storedKeys_of_definition {d : Definition} (hd : d ∈ e.definitions) :
    d.key ∈ e.storedKeys :=
  List.mem_append_left _ (List.mem_map_of_mem hd)

theorem mem_storedKeys_of_instance {i : Instance} (hi : i ∈ e.instances) {key : Int}
    (hkey : key ∈ i.keys) : key ∈ e.storedKeys :=
  List.mem_append_right _ (List.mem_flatMap.mpr ⟨i, hi, hkey⟩)

/-- Keys that are counted on increase. -/
theorem pairwise_issued (next : Int) (count : Nat) :
    ((List.range count).map fun k : Nat => next + k).Pairwise (· < ·) := by
  rw [List.pairwise_map]
  exact List.pairwise_lt_range.imp fun hlt => by omega

/-- A run puts new keys behind all that its instance has. -/
theorem Ordered.keyRow_run (h : e.Ordered) (he : e.Sound) {n : Nat} {i : Instance} {r : Run}
    {opened : List Activity} (hi : e.instances[n]? = some i)
    (hgrows : Run.Grows opened (e.lend i) r) : (keyRow r.inst).Pairwise (· < ·) := by
  have hmem := List.mem_of_getElem? hi
  have hrow : keyRow r.inst = keyRow i ++
      (List.range opened.length).map fun k : Nat => e.keys.next + k := by
    rw [keyRow, hgrows.definition, hgrows.instance_keys]
    rfl
  rw [hrow]
  refine List.pairwise_append.mpr ⟨h.arenas i hmem, pairwise_issued _ _, fun a ha b hb => ?_⟩
  have hstored : a ∈ e.storedKeys := by
    rcases List.mem_cons.mp ha with rfl | ha
    · exact mem_storedKeys_of_definition (he.instances i hmem).2
    · exact mem_storedKeys_of_instance hmem ha
  have hbehind := (he.behind a hstored).1
  obtain ⟨k, -, rfl⟩ := List.mem_map.mp hb
  omega

/-- **Every change keeps the keys in order.** -/
theorem Change.ordered (h : Change e e') (he : e.Sound) (ho : e.Ordered) : e'.Ordered := by
  cases h with
  | load =>
      refine ⟨?_, ho.instances, ho.arenas⟩
      simp only [report, List.map_append, List.map_singleton]
      refine pairwise_concat ho.definitions fun key hkey => ?_
      exact (he.behind key (List.mem_append_left _ hkey)).1
  | @create d vars hd hroom =>
      refine ⟨ho.definitions, ?_, fun i hi => ?_⟩
      · simp only [report, List.map_append, List.map_singleton]
        refine pairwise_concat ho.instances fun key hkey => ?_
        obtain ⟨i, hi, rfl⟩ := List.mem_map.mp hkey
        exact (he.behind _ (mem_storedKeys_of_instance hi List.mem_cons_self)).1
      · rcases List.mem_append.mp hi with hi | hi
        · exact ho.arenas i hi
        · obtain rfl := List.mem_singleton.mp hi
          have hlt := (he.behind _ (mem_storedKeys_of_definition hd)).1
          exact List.pairwise_pair.mpr hlt
  | publish n name vars =>
      refine ho.of_keys rfl ?_
      refine List.ext_getElem? fun m => ?_
      simp only [List.getElem?_map, List.getElem?_modify]
      cases e.instances[m]? with
      | none => rfl
      | some i => by_cases hm : n = m <;> simp [hm, keyRow, Instance.keys, Instance.recordEvent]
  | @run n fuel i r error? hi hrun =>
      obtain ⟨opened, hgrows⟩ := Run.start?_grows hrun
      refine ⟨ho.definitions, ?_, fun j hj => ?_⟩
      · have hsame : (e.instances.set n r.inst).map Instance.key =
            e.instances.map Instance.key := by
          refine List.ext_getElem? fun m => ?_
          rw [List.getElem?_map, List.getElem?_map, List.getElem?_set]
          by_cases hm : n = m
          · subst hm
            have hlt := (List.getElem?_eq_some_iff.mp hi).1
            rw [if_pos rfl, if_pos hlt, hi]
            exact congrArg some hgrows.key
          · rw [if_neg hm]
        exact hsame.symm ▸ ho.instances
      · rcases mem_of_mem_set hj with hj | rfl
        · exact ho.arenas j hj
        · exact ho.keyRow_run he hi hgrows
  | clock => exact ⟨ho.definitions, ho.instances, ho.arenas⟩
  | register => exact ⟨ho.definitions, ho.instances, ho.arenas⟩

theorem Changes.ordered (h : Changes e e') (he : e.Sound) (ho : e.Ordered) : e'.Ordered := by
  induction h with
  | refl => exact ho
  | tail hbefore hchange ih => exact hchange.ordered (Changes.sound hbefore he) ih

/-- An engine comes back with its keys in order. -/
theorem ComesBack.ordered (h : e.ComesBack starts e') (he : e.Sound) (ho : e.Ordered) :
    e'.Ordered := by
  obtain ⟨-, hdefinitions, -, hinstances⟩ := h.restored he
  refine ho.of_keys (by rw [hdefinitions]) (map_eq_map_of_forall₂ hinstances fun i j hij => ?_)
  obtain ⟨hkey, hdefinition, hactivities⟩ := hij
  have hkeys : j.keys = i.keys := by
    rw [Instance.keys, hactivities, hkey]
    exact i.keys_relinked
  rw [keyRow, keyRow, hkeys, hdefinition]

theorem Descends.ordered (h : Descends starts e) : e.Ordered := by
  induction h with
  | fresh name now => exact ⟨.nil, .nil, nofun⟩
  | perform h hop ih => exact (perform?_changes hop).ordered h.sound ih
  | restore h hback ih => exact hback.ordered h.sound ih

/-- An origin was created before the activity that it led to. -/
theorem Ordered.origin_lt (ho : e.Ordered) (he : e.Sound) {i : Instance}
    (hi : i ∈ e.instances) {n o : Nat} {a : Activity} (ha : i.activities[n]? = some a)
    (horigin : a.origin = some o) : ∃ b, i.activities[o]? = some b ∧ b.key < a.key := by
  have hlt := (he.instances i hi).1.origin_lt ha horigin
  obtain ⟨hn, rfl⟩ := List.getElem?_eq_some_iff.mp ha
  have hrow := (ho.arenas i hi).of_cons.of_cons
  rw [List.pairwise_map] at hrow
  have ho' : o < i.activities.length := by omega
  exact ⟨i.activities[o], List.getElem?_eq_getElem ho',
    List.pairwise_iff_getElem.mp hrow o n ho' hn hlt⟩

/-! ## Keys of an operation -/

theorem Issued.trans {count count' : Nat} {e'' : Engine} (h : Issued count e e')
    (h' : Issued count' e' e'') : Issued (count + count') e e'' where
  stored := by
    have hnext : ((List.range count').map fun k : Nat => e'.keys.next + k) =
        (List.range count').map fun k : Nat => e.keys.next + (count + k : Nat) := by
      rw [h.keys]
      exact List.map_congr_left fun k _ => by omega
    have hrest := h.stored.append_right
      ((List.range count').map fun k : Nat => e'.keys.next + k)
    refine (h'.stored.trans hrest).trans (.of_eq ?_)
    rw [List.range_add, List.map_append, List.map_map, List.append_assoc, hnext]
    rfl
  keys := by
    have hkeys := h.keys
    have hkeys' := h'.keys
    omega
  room := by
    have hkeys' := h'.keys
    have hroom := h.room
    have hroom' := h'.room
    omega

theorem Changes.issued (h : Changes e e') : ∃ count, Issued count e e' := by
  induction h with
  | refl => exact ⟨0, by simp, by simp, .inl rfl⟩
  | tail _ hchange ih =>
      obtain ⟨count, hissued⟩ := ih
      obtain ⟨count', hissued'⟩ := hchange.issued
      exact ⟨_, hissued.trans hissued'⟩

/-- **An operation issues keys above all that are stored**, whatever it answers,
and none once the keys are used up. -/
theorem Sound.perform?_issued (he : e.Sound) {fuel : Nat} {op : Operation}
    {out : Engine × Answer} (h : e.perform? fuel op = some out) :
    ∃ issued : List Int, out.1.storedKeys.Perm (e.storedKeys ++ issued) ∧
      issued.Pairwise (· < ·) ∧ (∀ old ∈ e.storedKeys, ∀ key ∈ issued, old < key) ∧
      (greatestKey ≤ e.keys.next → issued = []) := by
  obtain ⟨count, hissued⟩ := (perform?_changes h).issued
  refine ⟨_, hissued.stored, pairwise_issued _ _, fun old hold key hkey => ?_, fun hend => ?_⟩
  · have hbehind := (he.behind old hold).1
    obtain ⟨k, -, rfl⟩ := List.mem_map.mp hkey
    omega
  · have hkeys := hissued.keys
    have hroom := hissued.room
    obtain rfl : count = 0 := by omega
    rfl

end Ordered

/-- **Keys are unique and in the order of creation.** -/
theorem Descends.keys_ordered {starts : KeySequence → Prop} {e : Engine}
    (h : Descends starts e) :
    e.storedKeys.Nodup ∧ (e.definitions.map Definition.key).Pairwise (· < ·) ∧
    (e.instances.map Instance.key).Pairwise (· < ·) ∧
    (∀ i ∈ e.instances, i.definition ∈ e.definitions ∧ i.definition.key < i.key ∧
      i.keys.Pairwise (· < ·) ∧
      ∀ a ∈ i.activities, ∀ o, a.origin = some o →
        ∃ b, i.activities[o]? = some b ∧ b.key < a.key) ∧
    (∀ fuel op out, e.perform? fuel op = some out → ∃ issued : List Int,
      out.1.storedKeys.Perm (e.storedKeys ++ issued) ∧ issued.Pairwise (· < ·) ∧
      (∀ old ∈ e.storedKeys, ∀ key ∈ issued, old < key) ∧
      (greatestKey ≤ e.keys.next → issued = [])) ∧
    ∀ e', e.ComesBack starts e' → e'.storedKeys = e.storedKeys ∧
      ∀ key ∈ e.storedKeys, key < e'.keys.next := by
  have he := h.sound
  have ho := h.ordered
  refine ⟨he.nodup, ho.definitions, ho.instances, fun i hi => ?_,
    fun _ _ _ hop => he.perform?_issued hop, fun e' hback => ?_⟩
  · have hrow := List.pairwise_cons.mp (ho.arenas i hi)
    refine ⟨(he.instances i hi).2, hrow.1 _ List.mem_cons_self, hrow.2, fun a ha o horigin => ?_⟩
    obtain ⟨n, hn⟩ := List.getElem?_of_mem ha
    exact ho.origin_lt he hi hn horigin
  · obtain ⟨hsound, -, hkeys, -⟩ := hback.restored he
    exact ⟨hkeys, fun key hkey => (hsound.behind key (hkeys ▸ hkey)).1⟩

/-- Two start events, each of which a run enters. -/
def twoStartsSource : List String :=
  ["<process id='p'>", "<startEvent id='s'/>", "<startEvent id='t'/>", "</process>"]

def twoStartsDiagram : Diagram :=
  { id := "p", name := ""
    elements := [.bare "s" "" .startEvent, .bare "t" "" .startEvent]
    flows := [], messages := [] }

theorem ofMarkup_twoStartsSource :
    Diagram.ofMarkup (String.join twoStartsSource) = .ok twoStartsDiagram :=
  ofMarkup_join (by decide +kernel)

/-- A run obtains a key for the first start event and none for the second one.
What it has added is in order, and nothing is added afterwards. -/
theorem keys_ordered_used_up :
    ∃ e, Descends (· = ⟨greatestKey - 3⟩) e ∧
      e.storedKeys = [greatestKey - 3, greatestKey - 2, greatestKey - 1] ∧
      e.storedKeys.Nodup ∧
      (∀ i ∈ e.instances, i.definition.key < i.key ∧ i.keys.Pairwise (· < ·)) ∧
      ∀ fuel op out, e.perform? fuel op = some out → out.1.storedKeys.Perm e.storedKeys := by
  have hroom : (KeySequence.mk (greatestKey - 3)).next < greatestKey := by decide
  have htest : ((loadedFrom ⟨greatestKey - 3⟩ (String.join twoStartsSource) ""
      twoStartsDiagram).performAll? 5 [.create (greatestKey - 3) [], .run (greatestKey - 2)]).any
      (fun out => out.1.storedKeys == [greatestKey - 3, greatestKey - 2, greatestKey - 1] &&
        out.1.keys.next == greatestKey) = true := by
    decide +kernel
  obtain ⟨out, hops, htest⟩ := (Option.any_eq_true _ _).mp htest
  obtain ⟨hstored, hnext⟩ : out.1.storedKeys =
      [greatestKey - 3, greatestKey - 2, greatestKey - 1] ∧ out.1.keys.next = greatestKey := by
    simpa using htest
  obtain ⟨answer, hload⟩ := perform?_load hroom ofMarkup_twoStartsSource ""
  have hfresh : Descends (· = ⟨greatestKey - 3⟩)
      (Engine.fresh defaultEngineName ⟨greatestKey - 3⟩ (.ofMillis 0)) := .fresh _ _ rfl
  have hdescends := (hfresh.perform hload).performAll hops
  obtain ⟨hnodup, -, -, harenas, hoperations, -⟩ := hdescends.keys_ordered
  refine ⟨out.1, hdescends, hstored, hnodup, fun i hi => ?_, fun fuel op out' hop => ?_⟩
  · exact ⟨(harenas i hi).2.1, (harenas i hi).2.2.1⟩
  · obtain ⟨issued, hperm, -, -, hnone⟩ := hoperations fuel op out' hop
    rw [hnone (by omega), List.append_nil] at hperm
    exact hperm

end Engine

end ProcessEngine
