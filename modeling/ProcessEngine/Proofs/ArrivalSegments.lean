import ProcessEngine.Activity

/-!
# Arrivals cut into segments

A parallel gateway gathers the flows that arrive until all declared ones are
there, and then starts again.  Told without activities: the arrivals are cut
greedily, and a segment is closed by the first arrival with which every declared
flow occurs in it.  Only the last segment can be open.

`Gateway.ofSegment` is the gateway that belongs to a segment, and
`Gateway.gather` is what one arrival does to it.

Main statements: `segments_extends` says what one more arrival does to the
segments, and `gather_gathering` that a gateway follows.
-/

namespace ProcessEngine

/-! ## Segments -/

/-- Every declared flow occurs in a segment. -/
def isClosed (declared segment : List String) : Bool :=
  declared.all fun flow => decide (flow ∈ segment)

/-- The segments of arrivals behind a segment that is open. -/
def cut (declared : List String) : List String → List String → List (List String)
  | segment, [] => if segment = [] then [] else [segment]
  | segment, flow :: rest =>
    if isClosed declared (segment ++ [flow]) then
      (segment ++ [flow]) :: cut declared [] rest
    else cut declared (segment ++ [flow]) rest

/-- Arrivals cut greedily: a segment ends with the first arrival that closes
it. -/
def segments (declared arrivals : List String) : List (List String) := cut declared [] arrivals

/-- For each arrival of a segment, whether it closes the segment: only the last
one can. -/
def closingsOf (declared segment : List String) : List Bool :=
  List.replicate (segment.length - 1) false ++ [isClosed declared segment]

/-- For each arrival, whether it closes its segment. -/
def closings (declared arrivals : List String) : List Bool :=
  (segments declared arrivals).flatMap (closingsOf declared)

section Segments

variable {declared segment arrivals : List String} {flow : String}

/-- One more arrival goes to the open segment at the end, or begins a new one. -/
inductive Extends (declared : List String) (flow : String) :
    List (List String) → List (List String) → Prop
  | grow (before : List (List String)) {segment : List String}
      (hbefore : ∀ s ∈ before, isClosed declared s = true)
      (hopen : isClosed declared segment = false) (hsome : segment ≠ []) :
      Extends declared flow (before ++ [segment]) (before ++ [segment ++ [flow]])
  | begin (before : List (List String)) (hbefore : ∀ s ∈ before, isClosed declared s = true) :
      Extends declared flow before (before ++ [[flow]])

theorem Extends.cons {ss ss' : List (List String)} (h : Extends declared flow ss ss')
    (hclosed : isClosed declared segment = true) :
    Extends declared flow (segment :: ss) (segment :: ss') := by
  cases h with
  | grow before hbefore hopen hsome =>
      exact .grow (segment :: before) (List.forall_mem_cons.mpr ⟨hclosed, hbefore⟩) hopen hsome
  | begin _ hbefore =>
      exact .begin (segment :: ss) (List.forall_mem_cons.mpr ⟨hclosed, hbefore⟩)

theorem cut_extends (hopen : segment = [] ∨ isClosed declared segment = false) :
    Extends declared flow (cut declared segment arrivals)
      (cut declared segment (arrivals ++ [flow])) := by
  induction arrivals generalizing segment with
  | nil =>
      have hnext : cut declared segment [flow] = [segment ++ [flow]] := by
        simp only [cut, List.append_eq_nil_iff, List.cons_ne_self, and_false, if_false, if_true]
        split <;> rfl
      rw [List.nil_append, hnext, cut]
      by_cases hsome : segment = []
      · rw [if_pos hsome, hsome]
        exact .begin [] (by simp)
      · rw [if_neg hsome]
        exact .grow [] (by simp) (hopen.resolve_left hsome) hsome
  | cons arrival rest ih =>
      rw [List.cons_append, cut, cut]
      cases hclosed : isClosed declared (segment ++ [arrival]) with
      | true => exact (ih (.inl rfl)).cons hclosed
      | false => exact ih (.inr hclosed)

/-- **What one more arrival does to the segments.** -/
theorem segments_extends (declared arrivals : List String) (flow : String) :
    Extends declared flow (segments declared arrivals) (segments declared (arrivals ++ [flow])) :=
  cut_extends (.inl rfl)

/-- The second arrival goes to the open segment, the fourth begins a new one. -/
example : segments ["1", "2"] ["1", "1", "2", "2"] = [["1", "1", "2"], ["2"]] := by decide

theorem flatten_cut : (cut declared segment arrivals).flatten = segment ++ arrivals := by
  induction arrivals generalizing segment with
  | nil =>
      rw [cut]
      split
      · rename_i hnone
        simp [hnone]
      · simp
  | cons arrival rest ih =>
      rw [cut]
      split <;> simp [ih]

/-- Nothing is lost by cutting. -/
theorem flatten_segments (declared arrivals : List String) :
    (segments declared arrivals).flatten = arrivals := flatten_cut

/-- One more arrival closes the last segment or leaves it open. -/
theorem Extends.closings {ss ss' : List (List String)} (h : Extends declared flow ss ss')
    {last : List String} (hlast : ss'.getLast? = some last) :
    ss'.flatMap (closingsOf declared) =
      ss.flatMap (closingsOf declared) ++ [isClosed declared last] := by
  cases h with
  | @grow before segment _ hopen hsome =>
      obtain rfl : segment ++ [flow] = last := by simpa using hlast
      obtain ⟨n, hlength⟩ := Nat.exists_eq_add_one.mpr (List.length_pos_iff.mpr hsome)
      simp [closingsOf, hlength, hopen, List.replicate_succ']
  | begin =>
      obtain rfl : [flow] = last := by simpa using hlast
      simp [closingsOf]

/-- As many arrivals close a segment as there are closed segments. -/
theorem count_closings (declared arrivals : List String) :
    (closings declared arrivals).count true =
      (segments declared arrivals).countP (isClosed declared) := by
  unfold closings
  induction segments declared arrivals with
  | nil => rfl
  | cons segment rest ih =>
      rw [List.flatMap_cons, List.count_append, ih, List.countP_cons, closingsOf,
        List.count_append, List.count_replicate]
      cases isClosed declared segment <;> simp [Nat.add_comm]

/-- Each closed segment has an arrival through each declared flow. -/
theorem countP_isClosed_le (ss : List (List String)) (hflow : flow ∈ declared) :
    ss.countP (isClosed declared) ≤ ss.flatten.count flow := by
  induction ss with
  | nil => simp
  | cons segment rest ih =>
      rw [List.countP_cons, List.flatten_cons, List.count_append]
      split
      · rename_i hclosed
        have hmem : flow ∈ segment := by simpa using List.all_eq_true.mp hclosed flow hflow
        have hone := List.one_le_count_iff.mpr hmem
        omega
      · omega

theorem cut_eq_singleton (hsome : arrivals ≠ []) (hnodup : (segment ++ arrivals).Nodup)
    (hall : ∀ flow, flow ∈ segment ++ arrivals ↔ flow ∈ declared) :
    cut declared segment arrivals = [segment ++ arrivals] := by
  induction arrivals generalizing segment with
  | nil => exact absurd rfl hsome
  | cons arrival rest ih =>
      have hmove : segment ++ arrival :: rest = segment ++ [arrival] ++ rest := by simp
      rw [hmove] at hnodup hall ⊢
      rw [cut]
      cases rest with
      | nil =>
          have hclosed : isClosed declared (segment ++ [arrival]) = true :=
            List.all_eq_true.mpr fun flow hflow => by
              simpa using (hall flow).mpr hflow
          simp [hclosed, cut]
      | cons next rest =>
          -- the next arrival is declared and has not been there
          have hopen : isClosed declared (segment ++ [arrival]) = false := by
            refine List.all_eq_false.mpr ⟨next, (hall next).mp (by simp), ?_⟩
            have hnew := (List.nodup_append.mp hnodup).2.2
            simpa using fun hmem => hnew next hmem next List.mem_cons_self rfl
          rw [if_neg (by simp [hopen])]
          exact ih (by simp) hnodup hall

/-- If each declared flow arrives once, the arrivals are one segment. -/
theorem segments_eq_singleton (hsome : arrivals ≠ []) (hnodup : arrivals.Nodup)
    (hall : ∀ flow, flow ∈ arrivals ↔ flow ∈ declared) : segments declared arrivals = [arrivals] :=
  cut_eq_singleton hsome hnodup hall

end Segments

/-- What occurs once is kept once. -/
theorem eraseDups_of_nodup {flows : List String} (h : flows.Nodup) : flows.eraseDups = flows := by
  induction flows with
  | nil => rfl
  | cons flow rest ih =>
      obtain ⟨hnew, hrest⟩ := List.nodup_cons.mp h
      have hothers : rest.filter (fun other => !other == flow) = rest :=
        List.filter_eq_self.mpr fun other hother => by
          simpa using fun hsame : other = flow => hnew (hsame ▸ hother)
      rw [List.eraseDups_cons, hothers, ih hrest]

/-! ## The gateway of a segment -/

namespace Gateway

/-- A parallel gateway that has gathered a segment and still waits. -/
def gathering (segment : List String) : Gateway := ⟨.active, true, segment.eraseDups⟩

/-- The gateway that belongs to a segment: complete if the segment is closed,
with each flow of it once, in the order of first arrival. -/
def ofSegment (declared segment : List String) : Gateway :=
  ⟨if isClosed declared segment then .completed else .active, true, segment.eraseDups⟩

/-- Whether the arrival of a flow makes the gateway go on. -/
def firesWith (declared : List String) (g : Gateway) (flow : String) : Bool :=
  (g.record flow).parallel && (g.record flow).allArrived declared

/-- The gateway after the arrival of a flow: complete if it goes on. -/
def gather (declared : List String) (g : Gateway) (flow : String) : Gateway :=
  if g.firesWith declared flow then { g.record flow with state := .completed } else g.record flow

variable {declared segment : List String} {flow : String}

theorem gathering_of_open (h : isClosed declared segment = false) :
    ofSegment declared segment = gathering segment := by
  simp [ofSegment, gathering, h]

theorem record_gathering (segment : List String) (flow : String) :
    (gathering segment).record flow = gathering (segment ++ [flow]) := by
  unfold record record? gathering
  simp only [List.mem_eraseDups, List.eraseDups_append]
  split <;> rename_i hmem <;> simp [List.removeAll, hmem, List.eraseDups_cons]

theorem firesWith_gathering (declared segment : List String) (flow : String) :
    (gathering segment).firesWith declared flow = isClosed declared (segment ++ [flow]) := by
  unfold firesWith
  rw [record_gathering]
  simp [gathering, allArrived, isClosed]

/-- **A gateway that waits becomes that of the longer segment.** -/
theorem gather_gathering (declared segment : List String) (flow : String) :
    (gathering segment).gather declared flow = ofSegment declared (segment ++ [flow]) := by
  unfold gather
  rw [firesWith_gathering, record_gathering, ofSegment, gathering]
  split <;> simp_all

theorem state_ofSegment (declared segment : List String) :
    (ofSegment declared segment).state = .completed ↔ isClosed declared segment = true := by
  unfold ofSegment
  split <;> simp_all

end Gateway

end ProcessEngine
