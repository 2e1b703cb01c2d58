import Mathlib.Data.Prod.Lex
import ProcessEngine.Task.Handler

/-!
# Which handler is chosen

A task may be asked for by several registrations.  Each kind of matcher has a
rank for each kind of task, and a registration fits with that rank if its
matcher asks for the task.  The choice is the least of these by rank and then by
position: the kinds are tried in the order of their ranks, and within a kind the
first registration wins.

So the choice is made by comparison, and a registration that is added behind all
others wins only by its rank.

Main statement: `resolveHandler?_spec`.
-/

namespace ProcessEngine

/-- What a matcher asks of an element. -/
inductive TaskMatcher.Wants : TaskMatcher → Element → Prop
  | id (e : Element) : Wants (.id e.id) e
  | taskType {t : String} {e : Element} (h : e.taskType = some t) : Wants (.taskType t) e
  | assignee {a : String} {e : Element} (h : e.assignee = some a) : Wants (.assignee a) e
  | candidateGroups {groups : List String} {group : String} {e : Element} (h : group ∈ groups)
      (hcandidate : group ∈ e.candidateGroups) : Wants (.candidateGroups groups) e

/-- The rank of a kind of matcher for a kind of element, where it counts. -/
def MatchKind.rank? : MatchKind → ElementKind → Option Nat
  | .id, _ => some 0
  | .taskType, .serviceTask => some 1
  | .assignee, .userTask => some 1
  | .candidateGroups, .userTask => some 2
  | _, _ => none

section Choice

variable {registrations : List Registration} {r : Registration} {e : Element}
  {kind : MatchKind} {rank position : Nat}

/-- A matcher of a kind at a position that asks for an element. -/
def Asks (registrations : List Registration) (e : Element) (kind : MatchKind) (position : Nat) :
    Prop :=
  ∃ r, registrations[position]? = some r ∧ r.accepts.kind = kind ∧ r.accepts.Wants e

/-- A registration that asks for an element by a matcher of some rank. -/
def Fits (registrations : List Registration) (e : Element) (rank position : Nat) : Prop :=
  ∃ kind : MatchKind, kind.rank? e.kind = some rank ∧ Asks registrations e kind position

/-- The first of the registrations that fit, by rank and then by position. -/
def FitsFirst (registrations : List Registration) (e : Element) (rank position : Nat) : Prop :=
  Fits registrations e rank position ∧ ∀ rank' position',
    Fits registrations e rank' position' → toLex (rank, position) ≤ toLex (rank', position')

/-! ## The two searches -/

theorem TaskMatcher.accepts_iff {m : TaskMatcher} : m.accepts e = true ↔ m.Wants e := by
  constructor
  · intro h
    cases m with
    | id id =>
        cases beq_iff_eq.mp h
        exact .id e
    | taskType t => exact .taskType (beq_iff_eq.mp h)
    | assignee a => exact .assignee (beq_iff_eq.mp h)
    | candidateGroups groups =>
        obtain ⟨group, hgroup, hcandidate⟩ := List.any_eq_true.mp h
        exact .candidateGroups hgroup (of_decide_eq_true hcandidate)
  · rintro (_ | h | h | ⟨h, hcandidate⟩)
    · exact beq_self_eq_true _
    · exact beq_iff_eq.mpr h
    · exact beq_iff_eq.mpr h
    · exact List.any_eq_true.mpr ⟨_, h, decide_eq_true hcandidate⟩

/-- The kinds of matchers are tried by rank. -/
theorem matchOrder_getElem? {task : ElementKind} :
    task.matchOrder[rank]? = some kind ↔ kind.rank? task = some rank := by
  cases task <;> cases kind <;> rcases rank with _ | _ | _ | rank <;>
    simp [ElementKind.matchOrder, MatchKind.rank?]

theorem asks_iff : Asks registrations e kind position ↔
    ∃ h : position < registrations.length,
      ((registrations[position].accepts).kind == kind &&
        (registrations[position].accepts).accepts e) = true := by
  simp [Asks, List.getElem?_eq_some_iff, TaskMatcher.accepts_iff]

theorem findMatcher?_eq_some
    (h : findMatcher? (registrations.map Registration.accepts) e kind = some position) :
    Asks registrations e kind position ∧
      ∀ position', Asks registrations e kind position' → position ≤ position' := by
  rw [findMatcher?, List.findIdx?_map, List.findIdx?_eq_some_iff_getElem] at h
  obtain ⟨hlength, hasks, hfirst⟩ := h
  refine ⟨asks_iff.mpr ⟨hlength, hasks⟩, fun position' hasks' => Nat.le_of_not_lt fun hlt => ?_⟩
  obtain ⟨_, hasks'⟩ := asks_iff.mp hasks'
  exact hfirst position' hlt hasks'

theorem findMatcher?_eq_none
    (h : findMatcher? (registrations.map Registration.accepts) e kind = none) :
    ¬ Asks registrations e kind position := by
  rintro ⟨r, hr, rfl, hwants⟩
  rw [findMatcher?, List.findIdx?_map, List.findIdx?_eq_none_iff] at h
  have hnot := h r (List.mem_of_getElem? hr)
  simp [TaskMatcher.accepts_iff.mpr hwants] at hnot

/-- The registration that is chosen is the first one that fits. -/
theorem fitsFirst_of_resolved (h : resolveHandler? registrations e = some position) :
    ∃ rank, FitsFirst registrations e rank position := by
  obtain ⟨before, kind, after, horder, hfind, hbefore⟩ := List.findSome?_eq_some_iff.mp h
  obtain ⟨hasks, hfirst⟩ := findMatcher?_eq_some hfind
  have hrank : kind.rank? e.kind = some before.length :=
    matchOrder_getElem?.mp (by simp [horder])
  refine ⟨before.length, ⟨kind, hrank, hasks⟩, fun rank' position' ⟨kind', hrank', hasks'⟩ => ?_⟩
  rw [Prod.Lex.toLex_le_toLex]
  have hkind' := matchOrder_getElem?.mpr hrank'
  rcases Nat.lt_trichotomy before.length rank' with hlt | rfl | hlt
  · exact .inl hlt
  · -- the same kind, where the first position is found
    have hkind : kind' = kind := by simpa [horder] using hkind'.symm
    exact .inr ⟨rfl, hfirst position' (hkind ▸ hasks')⟩
  · -- a kind that was tried in vain
    rw [horder, List.getElem?_append_left hlt] at hkind'
    exact absurd hasks' (findMatcher?_eq_none (hbefore kind' (List.mem_of_getElem? hkind')))

theorem not_fits_of_unresolved (h : resolveHandler? registrations e = none) :
    ¬ Fits registrations e rank position := by
  rintro ⟨kind, hrank, hasks⟩
  have hkind := List.mem_of_getElem? (matchOrder_getElem?.mpr hrank)
  exact findMatcher?_eq_none (List.findSome?_eq_none_iff.mp h kind hkind) hasks

/-! ## One more registration -/

theorem FitsFirst.unique {rank' position' : Nat} (h : FitsFirst registrations e rank position)
    (h' : FitsFirst registrations e rank' position') : rank = rank' ∧ position = position' := by
  have heq := le_antisymm (h.2 _ _ h'.1) (h'.2 _ _ h.1)
  exact Prod.mk.inj (toLex_inj.mp heq)

theorem resolveHandler?_eq_some :
    resolveHandler? registrations e = some position ↔
      ∃ rank, FitsFirst registrations e rank position := by
  refine ⟨fitsFirst_of_resolved, fun ⟨rank, hfirst⟩ => ?_⟩
  cases hresolve : resolveHandler? registrations e with
  | none => exact absurd hfirst.1 (not_fits_of_unresolved hresolve)
  | some position' =>
      obtain ⟨rank', hfirst'⟩ := fitsFirst_of_resolved hresolve
      rw [(hfirst'.unique hfirst).2]

theorem resolveHandler?_eq_none :
    resolveHandler? registrations e = none ↔
      ∀ rank position, ¬ Fits registrations e rank position := by
  refine ⟨fun h _ _ => not_fits_of_unresolved h, fun h => ?_⟩
  cases hresolve : resolveHandler? registrations e with
  | none => rfl
  | some position =>
      obtain ⟨rank, hfirst⟩ := fitsFirst_of_resolved hresolve
      exact absurd hfirst.1 (h rank position)

/-- A registration that fits wherever it is put, with its rank. -/
def Registration.FitsAt (r : Registration) (e : Element) (rank : Nat) : Prop :=
  r.accepts.kind.rank? e.kind = some rank ∧ r.accepts.Wants e

theorem Fits.lt_length (h : Fits registrations e rank position) :
    position < registrations.length := by
  obtain ⟨kind, -, r, hr, -⟩ := h
  exact (List.getElem?_eq_some_iff.mp hr).1

/-- A registration has one rank for an element. -/
theorem Fits.rank_unique {rank' : Nat} (h : Fits registrations e rank position)
    (h' : Fits registrations e rank' position) : rank = rank' := by
  obtain ⟨kind, hrank, s, hs, rfl, -⟩ := h
  obtain ⟨kind', hrank', s', hs', rfl, -⟩ := h'
  cases hs.symm.trans hs'
  exact Option.some.inj (hrank.symm.trans hrank')

theorem fits_concat :
    Fits (registrations ++ [r]) e rank position ↔
      Fits registrations e rank position ∨
        position = registrations.length ∧ r.FitsAt e rank := by
  constructor
  · rintro ⟨kind, hrank, s, hs, hkind, hwants⟩
    by_cases hlt : position < registrations.length
    · rw [List.getElem?_append_left hlt] at hs
      exact .inl ⟨kind, hrank, s, hs, hkind, hwants⟩
    · have hbound := (List.getElem?_eq_some_iff.mp hs).1
      rw [List.length_append, List.length_singleton] at hbound
      obtain rfl : position = registrations.length := by omega
      rw [List.getElem?_concat_length] at hs
      cases hs
      exact .inr ⟨rfl, hkind ▸ hrank, hwants⟩
  · rintro (⟨kind, hrank, s, hs, hkind, hwants⟩ | ⟨rfl, hrank, hwants⟩)
    · refine ⟨kind, hrank, s, ?_, hkind, hwants⟩
      rw [List.getElem?_append_left (List.getElem?_eq_some_iff.mp hs).1, hs]
    · exact ⟨_, hrank, r, by simp, rfl, hwants⟩

/-- A registration that is preferred to all of the given ones: it fits, and the one that is chosen
among them, if there is any, comes behind it by its rank. -/
def Outranks (registrations : List Registration) (e : Element) (r : Registration) : Prop :=
  ∃ rank, r.FitsAt e rank ∧
    (resolveHandler? registrations e = none ∨
      ∃ chosen rank', resolveHandler? registrations e = some chosen ∧
        Fits registrations e rank' chosen ∧ rank < rank')

theorem resolveHandler?_of_outranks (h : Outranks registrations e r) :
    resolveHandler? (registrations ++ [r]) e = some registrations.length := by
  obtain ⟨rank, hfits, hprefers⟩ := h
  have hbelow (rank' position' : Nat) (h' : Fits registrations e rank' position') :
      rank < rank' := by
    obtain hnone | ⟨chosen, least, hchosen, hleast, hlt⟩ := hprefers
    · exact absurd h' (not_fits_of_unresolved hnone)
    · obtain ⟨least', hfirst⟩ := fitsFirst_of_resolved hchosen
      obtain rfl := hleast.rank_unique hfirst.1
      obtain hless | ⟨heq, -⟩ := Prod.Lex.toLex_le_toLex.mp (hfirst.2 rank' position' h')
      · exact Nat.lt_trans hlt hless
      · exact hlt.trans_eq heq
  refine resolveHandler?_eq_some.mpr ⟨rank, fits_concat.mpr (.inr ⟨rfl, hfits⟩), ?_⟩
  intro rank' position' hfits'
  rw [Prod.Lex.toLex_le_toLex]
  obtain hold | ⟨rfl, hnew⟩ := fits_concat.mp hfits'
  · exact .inl (hbelow rank' position' hold)
  · exact .inr ⟨Option.some.inj (hfits.1.symm.trans hnew.1), Nat.le_refl _⟩

theorem resolveHandler?_of_not_outranks (h : ¬ Outranks registrations e r) :
    resolveHandler? (registrations ++ [r]) e = resolveHandler? registrations e := by
  cases hresolve : resolveHandler? registrations e with
  | none =>
      refine resolveHandler?_eq_none.mpr fun rank position hfits => ?_
      obtain hold | ⟨-, hnew⟩ := fits_concat.mp hfits
      · exact not_fits_of_unresolved hresolve hold
      · exact h ⟨rank, hnew, .inl hresolve⟩
  | some chosen =>
      obtain ⟨least, hfirst⟩ := fitsFirst_of_resolved hresolve
      refine resolveHandler?_eq_some.mpr ⟨least, fits_concat.mpr (.inl hfirst.1), ?_⟩
      intro rank position hfits
      obtain hold | ⟨rfl, hnew⟩ := fits_concat.mp hfits
      · exact hfirst.2 rank position hold
      · have hle : least ≤ rank := Nat.le_of_not_lt fun hlt =>
          h ⟨rank, hnew, .inr ⟨chosen, least, hresolve, hfirst.1, hlt⟩⟩
        rw [Prod.Lex.toLex_le_toLex]
        obtain hlt | rfl := Nat.lt_or_eq_of_le hle
        · exact .inl hlt
        · exact .inr ⟨rfl, Nat.le_of_lt hfirst.1.lt_length⟩

/-- **Handlers are chosen by a stable order.**  The choice is the registration that fits and is
first by rank and then by position, and there is none just if no registration fits.  One more
registration changes it just if none was chosen before and this one fits, or if it fits and comes
before the chosen one by its rank; then it is chosen itself. -/
theorem resolveHandler?_spec (registrations : List Registration) (e : Element) :
    (∀ position, resolveHandler? registrations e = some position ↔
      ∃ rank, FitsFirst registrations e rank position) ∧
    (resolveHandler? registrations e = none ↔
      ∀ rank position, ¬ Fits registrations e rank position) ∧
    ∀ r : Registration,
      (resolveHandler? (registrations ++ [r]) e = some registrations.length ↔
        Outranks registrations e r) ∧
      (resolveHandler? (registrations ++ [r]) e = resolveHandler? registrations e ↔
        ¬ Outranks registrations e r) := by
  refine ⟨fun position => resolveHandler?_eq_some, resolveHandler?_eq_none, fun r => ?_⟩
  have hnew : resolveHandler? registrations e ≠ some registrations.length := fun hresolve => by
    obtain ⟨rank, hfirst⟩ := fitsFirst_of_resolved hresolve
    exact Nat.lt_irrefl _ hfirst.1.lt_length
  by_cases h : Outranks registrations e r
  · rw [resolveHandler?_of_outranks h]
    exact ⟨iff_of_true rfl h, iff_of_false hnew.symm (not_not.mpr h)⟩
  · rw [resolveHandler?_of_not_outranks h]
    exact ⟨iff_of_false hnew h, iff_of_true rfl h⟩

end Choice

/-- A matcher by task type is outranked by one by id that is registered behind it, and keeps its
rank before a second one of its own kind. -/
example :
    let e : Element := { Element.bare "notify" "" .serviceTask with taskType := some "email" }
    resolveMatcher? [.taskType "email", .id "notify"] e = some 1 ∧
      resolveMatcher? [.taskType "email", .taskType "email"] e = some 0 := by
  decide

end ProcessEngine
