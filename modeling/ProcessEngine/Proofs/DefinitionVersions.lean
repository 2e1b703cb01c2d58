import ProcessEngine.Proofs.KeyOrder

/-!
# Versions of a definition

The definitions of all ids stand in one list in the order of loading, and only
loading a new source adds to it.  The version of what is added is counted on
from the highest version of its id.  So the definitions of an id have the
versions 1, 2, 3 and so on in the order of the list, until a version would no
longer be a signed 32-bit number, and the highest version is the last one.

Loading asks whether the id has the checksum already, so no two definitions of
an id share one.  A snapshot stores the list as it is.

Main statement: `Descends.versions_numbered`.
-/

namespace ProcessEngine.Engine

/-! ## The highest version -/

/-- Where versions do not fall, the highest one is the last. -/
theorem latestOf_eq_getLast? {ds : List Definition}
    (h : (ds.map Definition.version).Pairwise (· ≤ ·)) : latestOf ds = ds.getLast? := by
  induction ds with
  | nil => rfl
  | cons d rest ih =>
      rw [List.map_cons, List.pairwise_cons] at h
      rw [latestOf, ih h.2]
      cases hlast : rest.getLast? with
      | none =>
          obtain rfl := List.getLast?_eq_none_iff.mp hlast
          rfl
      | some later =>
          have hle : d.version ≤ later.version :=
            h.1 _ (List.mem_map_of_mem (List.mem_of_getLast? hlast))
          rw [List.getLast?_cons, hlast]
          simp [hle]

/-- The versions 1, 2, .. up to a number. -/
def firstVersions (count : Nat) : List Int := (List.range count).map fun k : Nat => (k : Int) + 1

theorem pairwise_firstVersions (count : Nat) : (firstVersions count).Pairwise (· ≤ ·) := by
  rw [firstVersions, List.pairwise_map]
  exact List.pairwise_lt_range.imp fun hlt => by omega

theorem firstVersions_succ (count : Nat) :
    firstVersions (count + 1) = firstVersions count ++ [(count : Int) + 1] := by
  rw [firstVersions, List.range_succ, List.map_append]
  rfl

section Numbered

variable {ds : List Definition} (h : ds.map Definition.version = firstVersions ds.length)

include h

/-- Of definitions that are numbered, the last one has the highest version. -/
theorem latestOf_of_numbered : latestOf ds = ds.getLast? :=
  latestOf_eq_getLast? (h ▸ pairwise_firstVersions _)

/-- Of definitions that are numbered, the last one has their count as version. -/
theorem version_of_getLast? {d : Definition} (hd : ds.getLast? = some d) :
    d.version = ds.length := by
  have hlast : (ds.map Definition.version).getLast? = some d.version := by
    rw [List.getLast?_map, hd]
    rfl
  rw [h] at hlast
  cases hlength : ds.length with
  | zero =>
      rw [hlength] at hlast
      cases hlast
  | succ count =>
      rw [hlength, firstVersions_succ, List.getLast?_concat] at hlast
      have hversion := Option.some.inj hlast
      omega

/-- Numbered definitions are counted on by one, as long as the next number is a
version. -/
theorem nextVersion_of_numbered (hfew : ds.length + 1 < 2 ^ 31) :
    nextVersion ds = (ds.length : Int) + 1 := by
  have hlatest : ((latestOf ds).map Definition.version).getD 0 = ds.length := by
    rw [latestOf_of_numbered h]
    cases hlast : ds.getLast? with
    | none => simp [List.getLast?_eq_none_iff.mp hlast]
    | some d => exact version_of_getLast? h hlast
  rw [nextVersion, hlatest]
  exact Int.bmod_eq_of_le (by omega) (by omega)

end Numbered

/-! ## Versions along a history -/

/-- The definitions of each id are numbered, and have checksums of their own. -/
structure Versioned (e : Engine) : Prop where
  numbered : ∀ id, (e.versionsOf id).length < 2 ^ 31 →
    (e.versionsOf id).map Definition.version = firstVersions (e.versionsOf id).length
  distinct : ∀ id, ((e.versionsOf id).map Definition.checksum).Nodup

section Versioned

variable {starts : KeySequence → Prop} {e e' : Engine}

/-- Versions are a matter of the definitions. -/
theorem Versioned.of_definitions (h : e.Versioned) (hsame : e'.definitions = e.definitions) :
    e'.Versioned := by
  have hversions : e'.versionsOf = e.versionsOf := by
    funext id
    rw [versionsOf, versionsOf, hsame]
  exact ⟨hversions ▸ h.numbered, hversions ▸ h.distinct⟩

/-- A definition that is added is the last of its id, and of no other. -/
theorem versionsOf_concat {d : Definition} (hdefinitions : e'.definitions = e.definitions ++ [d])
    (id : String) :
    e'.versionsOf id = e.versionsOf id ++ if d.id = id then [d] else [] := by
  rw [versionsOf, versionsOf, hdefinitions, List.filter_append]
  by_cases hid : d.id = id <;> simp [hid]

/-- A checksum that the id does not have yet is added under the next number. -/
theorem Versioned.concat (h : e.Versioned) {d : Definition}
    (hdefinitions : e'.definitions = e.definitions ++ [d])
    (hversion : d.version = nextVersion (e.versionsOf d.id))
    (hnew : ∀ c ∈ e.versionsOf d.id, c.checksum ≠ d.checksum) : e'.Versioned := by
  refine ⟨fun id hfew => ?_, fun id => ?_⟩
  · rw [versionsOf_concat hdefinitions] at hfew ⊢
    by_cases hid : d.id = id
    · subst hid
      rw [if_pos rfl, List.length_append, List.length_singleton] at hfew
      have hold := h.numbered d.id (by omega)
      rw [if_pos rfl, List.map_append, List.length_append, List.length_singleton,
        firstVersions_succ, hold, List.map_singleton, hversion, nextVersion_of_numbered hold hfew]
    · rw [if_neg hid, List.append_nil] at hfew ⊢
      exact h.numbered id hfew
  · rw [versionsOf_concat hdefinitions]
    by_cases hid : d.id = id
    · subst hid
      rw [if_pos rfl, List.map_append, List.map_singleton, List.nodup_append]
      refine ⟨h.distinct d.id, List.nodup_singleton _, fun a ha b hb hab => ?_⟩
      obtain ⟨c, hc, rfl⟩ := List.mem_map.mp ha
      obtain rfl := List.mem_singleton.mp hb
      exact hnew c hc hab
    · rw [if_neg hid, List.append_nil]
      exact h.distinct id

theorem mem_versionsOf {id : String} {d : Definition} :
    d ∈ e.versionsOf id ↔ d ∈ e.definitions ∧ d.id = id := by
  simp [versionsOf]

/-- **Every change keeps the versions numbered.** -/
theorem Change.versioned (h : Change e e') (hv : e.Versioned) : e'.Versioned := by
  cases h with
  | @load source diagram resourceName hsource hnew hroom =>
      refine hv.concat (d := e.newDefinition source resourceName diagram) rfl rfl ?_
      intro c hc hsame
      obtain ⟨hmem, hid⟩ := mem_versionsOf.mp hc
      have htest := List.find?_eq_none.mp hnew c hmem
      simp only [newDefinition] at hid hsame
      simp [hid, hsame] at htest
  | create => exact hv.of_definitions rfl
  | publish => exact hv.of_definitions rfl
  | run => exact hv.of_definitions rfl
  | clock => exact hv.of_definitions rfl
  | register => exact hv.of_definitions rfl

theorem Changes.versioned (h : Changes e e') (hv : e.Versioned) : e'.Versioned := by
  induction h with
  | refl => exact hv
  | tail _ hchange ih => exact hchange.versioned ih

theorem Descends.versioned (h : Descends starts e) : e.Versioned := by
  induction h with
  | fresh name now => exact ⟨fun _ _ => rfl, fun _ => List.nodup_nil⟩
  | perform _ hop ih => exact (perform?_changes hop).versioned ih
  | restore h hback ih => exact ih.of_definitions (hback.restored h.sound).2.1

end Versioned

/-! ## Loading and creating -/

section Loading

variable {e : Engine} {source : String} {diagram : Diagram}

/-- A load that fails leaves the engine as it was. -/
theorem load_of_error {resourceName : String} {e' : Engine} {error : EngineError}
    (h : e.load source resourceName = (e', .error error)) : e' = e := by
  unfold load at h
  split at h
  · cases h
    rfl
  · dsimp only at h
    split at h
    · cases h
    · split at h
      · cases h
        rfl
      · cases h

theorem loadBytes_of_error {bytes : ByteArray} {e' : Engine} {error : EngineError}
    (h : e.loadBytes bytes = (e', .error error)) : e' = e := by
  unfold loadBytes at h
  split at h
  · exact load_of_error h
  · cases h
    rfl

theorem loadFile_of_error {name : String} {content : Option String} {e' : Engine}
    {error : EngineError} (h : e.loadFile name content = (e', .error error)) : e' = e := by
  unfold loadFile at h
  split at h
  · exact load_of_error h
  · cases h
    rfl

/-- A source that its id has already is not loaded again. -/
theorem Versioned.load_known (hv : e.Versioned) (hsource : Diagram.ofMarkup source = .ok diagram)
    {d : Definition} (hd : d ∈ e.versionsOf diagram.id)
    (hchecksum : d.checksum = Sha256.ofText source) (resourceName : String) :
    e.load source resourceName = (e, .ok d) := by
  obtain ⟨hmem, hid⟩ := mem_versionsOf.mp hd
  have hfind : e.definitions.find? (fun d => d.id == diagram.id &&
      d.checksum == Sha256.ofText source) = some d := by
    cases hfind : e.definitions.find? (fun d => d.id == diagram.id &&
        d.checksum == Sha256.ofText source) with
    | none => simpa [hid, hchecksum] using List.find?_eq_none.mp hfind d hmem
    | some c =>
        -- what is found has the same checksum, and so is no other version
        obtain ⟨hcid, hcsum⟩ : c.id = diagram.id ∧ c.checksum = Sha256.ofText source := by
          simpa using List.find?_some hfind
        have hc : c ∈ e.versionsOf diagram.id :=
          mem_versionsOf.mpr ⟨List.mem_of_find?_eq_some hfind, hcid⟩
        rw [List.inj_on_of_nodup_map (hv.distinct diagram.id) hc hd (hcsum.trans hchecksum.symm)]
  simp only [load, hsource, hfind]

/-- A source that its id does not have yet is added. -/
theorem load_new (hsource : Diagram.ofMarkup source = .ok diagram)
    (hnew : ∀ d ∈ e.versionsOf diagram.id, d.checksum ≠ Sha256.ofText source)
    (hroom : e.keys.next < greatestKey) (resourceName : String) :
    (e.load source resourceName).2 = .ok (e.newDefinition source resourceName diagram) ∧
      (e.load source resourceName).1.definitions =
        e.definitions ++ [e.newDefinition source resourceName diagram] := by
  have hfind : e.definitions.find? (fun d => d.id == diagram.id &&
      d.checksum == Sha256.ofText source) = none := by
    refine List.find?_eq_none.mpr fun d hd htest => ?_
    obtain ⟨hid, hchecksum⟩ : d.id = diagram.id ∧ d.checksum = Sha256.ofText source := by
      simpa using htest
    exact hnew d (mem_versionsOf.mpr ⟨hd, hid⟩) hchecksum
  have hissue : e.keys.issue = some (e.keys.next, ⟨e.keys.next + 1⟩) := if_pos hroom
  simp only [load, hsource, hfind, hissue]
  exact ⟨rfl, rfl⟩

end Loading

section Creating

variable {e : Engine}

/-- A definition of a sound engine is found and instantiated. -/
theorem Sound.create_ok (he : e.Sound) {d : Definition} (hd : d ∈ e.definitions)
    (hroom : e.keys.next < greatestKey) (vars : Variables) :
    (e.create d.key vars).2 = .ok (Instance.fresh e.keys.next d vars e.now) ∧
      (e.create d.key vars).1.instances =
        e.instances ++ [Instance.fresh e.keys.next d vars e.now] := by
  have hissue : e.keys.issue = some (e.keys.next, ⟨e.keys.next + 1⟩) := if_pos hroom
  simp only [create, findDefinition?, he.find?_definition hd, hissue]
  exact ⟨trivial, rfl⟩

theorem latestOf_eq_none_iff {ds : List Definition} : latestOf ds = none ↔ ds = [] := by
  cases ds with
  | nil => simp [latestOf]
  | cons d rest =>
      rw [latestOf]
      split <;> simp

/-- To create an instance by a key never fails for an id. -/
theorem create_ne_unknownDefinitionId (definitionKey : Int) (vars : Variables) (id : String) :
    (e.create definitionKey vars).2 ≠ .error (.unknownDefinitionId id) := by
  unfold create
  split
  · simp
  · split <;> simp

/-- An id is unknown exactly if it has no version. -/
theorem createById_unknown_iff (id : String) (vars : Variables) :
    (e.createById id vars).2 = .error (.unknownDefinitionId id) ↔ e.versionsOf id = [] := by
  rw [← latestOf_eq_none_iff]
  change _ ↔ e.latest? id = none
  unfold createById
  cases e.latest? id with
  | none => simp
  | some d => simp [create_ne_unknownDefinitionId]

end Creating

/-- **Definitions are versioned.**  As long as an id has fewer versions than
there are version numbers, they are 1, 2, .. in the order of the definitions,
and loading and creating find the one that they are about. -/
theorem Descends.versions_numbered {starts : KeySequence → Prop} {e : Engine}
    (h : Descends starts e) (id : String) (hfew : (e.versionsOf id).length < 2 ^ 31) :
    (e.versionsOf id).map Definition.version =
        ((List.range (e.versionsOf id).length).map fun k : Nat => (k : Int) + 1) ∧
    ((e.versionsOf id).map Definition.checksum).Nodup ∧
    ((e.versionsOf id).map Definition.key).Pairwise (· < ·) ∧
    (∀ source resourceName diagram, Diagram.ofMarkup source = .ok diagram → diagram.id = id →
      (∀ d ∈ e.versionsOf id, d.checksum = Sha256.ofText source →
        e.load source resourceName = (e, .ok d)) ∧
      ((∀ d ∈ e.versionsOf id, d.checksum ≠ Sha256.ofText source) →
        e.keys.next < greatestKey →
        ((e.load source resourceName).1.versionsOf id).length < 2 ^ 31 →
        ∃ d, (e.load source resourceName).2 = .ok d ∧
          (e.load source resourceName).1.definitions = e.definitions ++ [d] ∧ d.id = id ∧
          d.version = (e.versionsOf id).length + 1 ∧ d.checksum = Sha256.ofText source)) ∧
    (∀ source resourceName e' error,
      e.load source resourceName = (e', .error error) → e' = e) ∧
    (∀ bytes e' error, e.loadBytes bytes = (e', .error error) → e' = e) ∧
    (∀ name content e' error, e.loadFile name content = (e', .error error) → e' = e) ∧
    ∀ vars, ((e.createById id vars).2 = .error (.unknownDefinitionId id) ↔
        (e.versionsOf id).length = 0) ∧
      (0 < (e.versionsOf id).length → e.keys.next < greatestKey →
        ∃ d ∈ e.versionsOf id, d.version = (e.versionsOf id).length ∧
          (e.createById id vars).2 = .ok (Instance.fresh e.keys.next d vars e.now) ∧
          (e.createById id vars).1.instances =
            e.instances ++ [Instance.fresh e.keys.next d vars e.now]) := by
  have he := h.sound
  have hv := h.versioned
  have hnumbered := hv.numbered id hfew
  refine ⟨hnumbered, hv.distinct id, ?_, ?_, fun _ _ _ _ => load_of_error,
    fun _ _ _ => loadBytes_of_error, fun _ _ _ _ => loadFile_of_error, fun vars => ⟨?_, ?_⟩⟩
  · have hsublist : ((e.versionsOf id).map Definition.key).Sublist
        (e.definitions.map Definition.key) := List.filter_sublist.map _
    exact h.ordered.definitions.sublist hsublist
  · rintro source resourceName diagram hsource rfl
    refine ⟨fun d hd hchecksum => hv.load_known hsource hd hchecksum resourceName,
      fun hnew hroom hnext => ?_⟩
    obtain ⟨hanswer, hdefinitions⟩ := load_new hsource hnew hroom resourceName
    have hlength : (e.versionsOf diagram.id).length + 1 < 2 ^ 31 := by
      rw [versionsOf_concat hdefinitions, List.length_append] at hnext
      simpa [newDefinition] using hnext
    exact ⟨_, hanswer, hdefinitions, rfl, nextVersion_of_numbered hnumbered hlength, rfl⟩
  · rw [createById_unknown_iff, List.length_eq_zero_iff]
  · intro hsome hroom
    obtain ⟨d, hlast⟩ : ∃ d, (e.versionsOf id).getLast? = some d :=
      ⟨_, List.getLast?_eq_some_getLast (List.ne_nil_of_length_pos hsome)⟩
    have hd := List.mem_of_getLast? hlast
    have hlatest : e.latest? id = some d := (latestOf_of_numbered hnumbered).trans hlast
    obtain ⟨hanswer, hinstances⟩ := he.create_ok (mem_versionsOf.mp hd).1 hroom vars
    refine ⟨d, hd, version_of_getLast? hnumbered hlast, ?_, ?_⟩
    · rw [createById, hlatest]
      exact hanswer
    · rw [createById, hlatest]
      exact hinstances

/-- Two sources of one id are loaded, and the older one again after the newer
one. -/
theorem versions_numbered_reloaded :
    ∃ e, Descends (· = .default) e ∧ (e.versionsOf "p").length = 2 ∧
      (e.versionsOf "p").map Definition.version = [1, 2] ∧
      ((e.versionsOf "p").map Definition.checksum).Nodup ∧
      ∃ d ∈ e.versionsOf "p", d.version = 2 ∧
        (e.createById "p" []).2 = .ok (Instance.fresh e.keys.next d [] e.now) := by
  have htest : ((loaded (String.join twoStartsSource) "" twoStartsDiagram).performAll? 0
      [.load (String.join editedSource) "", .load (String.join twoStartsSource) ""]).any
      (fun out => (out.1.versionsOf "p").length == 2 && out.1.keys.next == 3) = true := by
    decide +kernel
  obtain ⟨out, hops, htest⟩ := (Option.any_eq_true _ _).mp htest
  obtain ⟨hlength, hnext⟩ : (out.1.versionsOf "p").length = 2 ∧ out.1.keys.next = 3 := by
    simpa using htest
  have hloaded : Reachable (· = .default) (loaded (String.join twoStartsSource) ""
      twoStartsDiagram) := reachable_loaded ofMarkup_twoStartsSource (by rfl) ""
  have hdescends := hloaded.descends.performAll hops
  obtain ⟨hversions, hchecksums, -, -, -, -, -, hcreate⟩ :=
    hdescends.versions_numbered "p" (by omega)
  have hroom : out.1.keys.next < greatestKey := by rw [hnext]; decide
  obtain ⟨d, hd, hversion, hanswer, -⟩ := (hcreate []).2 (by omega) hroom
  rw [hlength] at hversions hversion
  exact ⟨out.1, hdescends, hlength, hversions, hchecksums, d, hd, hversion, hanswer⟩

end ProcessEngine.Engine
