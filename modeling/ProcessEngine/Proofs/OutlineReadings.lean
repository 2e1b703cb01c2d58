import ProcessEngine.Proofs.OutlineSteps

/-!
# What a document completes

An element stands in the table from the moment its end tag is read, or its tag
if that is empty, and so does a flow.  A document may open elements without
ending them, tell of flows before the elements they join, and nest a tag in
another of its kind, so what it completes is told token by token:
`endedElement?` and `endedFlow?` are what a token ends, and `givenText?` is the
text that it adds to the element which is open.

Main statements: `run_completes`, by induction on the tokens from what one step
completes, `elements_of_ofMarkup` for the tables of a process, and
`joined_of_ofMarkup` for the ends of its flows.
-/

namespace ProcessEngine

namespace Outline

open Markup

variable {o o' : Outline} {token : Token}

/-! ## What one token completes -/

/-- The element of a tag that is closed at once. -/
def emptyElement? (tag : Tag) (kind : ElementKind) : Option Element :=
  match tag.attribute? "id", tag.attribute? "name" with
  | some (some id), some title => some (Element.bare id (title.getD "") kind)
  | _, _ => none

/-- The element that a token completes. -/
def endedElement? (o : Outline) : Token → Option Element
  | .closing name =>
    o.element.filter fun e => ElementKind.ofTag? (String.ofList (localName name)) == some e.kind
  | .empty tag =>
    if o.inside ∧ o.element.isNone then
      (ElementKind.ofTag? (String.ofList (localName tag.name))).bind (emptyElement? tag)
    else none
  | _ => none

/-- The flow that a token completes. -/
def endedFlow? (o : Outline) : Token → Option SequenceFlow
  | .closing name => if String.ofList (localName name) = "sequenceFlow" then o.flow else none
  | .empty tag =>
    if o.inside ∧ String.ofList (localName tag.name) = "sequenceFlow" then
      (readFlow tag).toOption
    else none
  | _ => none

/-- The text that a token gives to a slot. -/
def givenText? (o : Outline) : Token → Option (TextSlot × String)
  | .text raw => o.slot.bind fun slot => (unescape raw).map fun text => (slot, Text.trim text)
  | .data raw => o.slot.map fun slot => (slot, Text.trim raw)
  | _ => none

/-- The texts given to a slot. -/
def textsOf (slot : TextSlot) (texts : List (TextSlot × String)) : List String :=
  (texts.filter fun text => text.1 = slot).map Prod.snd

/-- What becomes of the element that is open: it is a new one without texts, or the one before
with some more texts. -/
def Carries (o o' : Outline) (texts : List (TextSlot × String)) : Prop :=
  ∀ e', o'.element = some e' →
    o.element = none ∧ texts = [] ∧ e'.incoming = [] ∧ e'.outgoing = [] ∨
      ∃ e, o.element = some e ∧ e'.incoming = e.incoming ++ textsOf .incoming texts ∧
        e'.outgoing = e.outgoing ++ textsOf .outgoing texts

theorem Carries.same (h : o'.element = o.element) : Carries o o' [] := by
  intro e' he'
  exact .inr ⟨e', h ▸ he', by simp [textsOf]⟩

/-- What a step does to the tables and to the open element. -/
structure Completes (o : Outline) (element : Option Element) (flow : Option SequenceFlow)
    (texts : List (TextSlot × String)) (o' : Outline) : Prop where
  elements : o'.elements = o.elements ++ element.toList
  flows : o'.flows = o.flows ++ flow.toList
  carries : Carries o o' texts

/-- The open element may change in whatever is no text. -/
theorem Completes.of_element {e e' : Element} {slot : Option TextSlot} (he : o.element = some e)
    (hincoming : e'.incoming = e.incoming) (houtgoing : e'.outgoing = e.outgoing) :
    Completes o none none [] { o with element := some e', slot } where
  elements := (List.append_nil _).symm
  flows := (List.append_nil _).symm
  carries f hf := by
    cases hf
    exact .inr ⟨e, he, by simp [textsOf, hincoming], by simp [textsOf, houtgoing]⟩

theorem Completes.of_eq (helements : o'.elements = o.elements) (hflows : o'.flows = o.flows)
    (helement : o'.element = o.element) : Completes o none none [] o' where
  elements := by rw [helements]; exact (List.append_nil _).symm
  flows := by rw [hflows]; exact (List.append_nil _).symm
  carries := .same helement

theorem openInElement_completes {e : Element} {name : String} {tag : Tag} {empty : Bool}
    (he : o.element = some e) (h : o.openInElement e name tag empty = .ok o') :
    Completes o none none [] o' := by
  unfold openInElement at h
  split at h
  case h_1 | h_2 | h_3 =>
    cases h
    split <;> exact .of_eq rfl rfl rfl
  case h_5 =>
    cases h
    exact .of_element he rfl rfl
  case h_4 | h_6 | h_7 =>
    obtain ⟨value, -, h⟩ := bind_eq_ok.mp h
    cases h
    exact .of_element he rfl rfl
  case h_8 | h_9 | h_10 =>
    obtain ⟨value, -, h⟩ := bind_eq_ok.mp h
    obtain ⟨value', -, h⟩ := bind_eq_ok.mp h
    cases h
    exact .of_element he rfl rfl
  case h_11 =>
    cases h
    exact .of_eq rfl rfl rfl

theorem endedElement?_closing_of_ends {name : List Char} {e : Element} (he : o.element = some e)
    (hkind : ElementKind.ofTag? (String.ofList (localName name)) = some e.kind) :
    o.endedElement? (.closing name) = some e := by
  simp [endedElement?, he, hkind]

theorem endedElement?_closing_of_not_ends {name : List Char}
    (h : ¬ o.Ends (String.ofList (localName name))) : o.endedElement? (.closing name) = none := by
  rw [endedElement?, Option.filter_eq_none_iff]
  intro e he hkind
  exact h ⟨e, he, beq_iff_eq.mp hkind⟩

theorem not_ends {name : String} (o : Outline) (h : ElementKind.ofTag? name = none) :
    ¬ o.Ends name := by
  rintro ⟨e, -, hkind⟩
  rw [h] at hkind
  cases hkind

theorem close_completes (o : Outline) (name : List Char) :
    Completes o (o.endedElement? (.closing name)) (o.endedFlow? (.closing name)) []
      (o.close (String.ofList (localName name))) := by
  have helement (h : ¬ o.Ends (String.ofList (localName name))) :=
    endedElement?_closing_of_not_ends h
  generalize hname : String.ofList (localName name) = name' at helement ⊢
  by_cases hflow : name' = "sequenceFlow"
  · subst hflow
    rw [close_sequenceFlow, helement (o.not_ends rfl), endedFlow?, if_pos hname]
    exact ⟨(List.append_nil _).symm, rfl, .same rfl⟩
  rw [endedFlow?, if_neg (hname ▸ hflow)]
  by_cases hprocess : name' = "process"
  · subst hprocess
    rw [close_process, helement (o.not_ends rfl)]
    exact .of_eq rfl rfl rfl
  by_cases hslot : name' ∈ slotTags
  · rw [close_of_mem_slotTags o hslot, helement]
    · exact .of_eq rfl rfl rfl
    · simp only [slotTags, List.mem_cons, List.not_mem_nil, or_false] at hslot
      obtain rfl | rfl | rfl | rfl := hslot <;> exact o.not_ends rfl
  by_cases hends : o.Ends name'
  · obtain ⟨e, he, hkind⟩ := hends
    rw [close_of_ends he hkind, endedElement?_closing_of_ends he (hname ▸ hkind)]
    exact ⟨rfl, (List.append_nil _).symm, fun e' he' => by cases he'⟩
  · rw [close_of_not_ends hprocess hflow hslot hends, helement hends]
    exact .of_eq rfl rfl rfl

/-- The token of a tag that is empty or opens. -/
def tagOpening (tag : Tag) (empty : Bool) : Token := if empty then .empty tag else .opening tag

theorem openInProcess_completes {name : String} {tag : Tag} {empty : Bool}
    (hname : String.ofList (localName tag.name) = name)
    (hkind : ElementKind.ofTag? name = none) (hinside : o.inside = true)
    (h : o.openInProcess name tag empty = .ok o') :
    Completes o none (o.endedFlow? (tagOpening tag empty)) [] o' := by
  by_cases hflow : name = "sequenceFlow"
  · subst hflow
    obtain ⟨f, hread, h⟩ := bind_eq_ok.mp h
    cases empty with
    | true =>
        cases h
        simp only [if_pos, close_sequenceFlow, tagOpening, endedFlow?, hname, hinside, hread]
        exact ⟨(List.append_nil _).symm, rfl, .same rfl⟩
    | false =>
        cases h
        exact .of_eq rfl rfl rfl
  have hnone : o.endedFlow? (tagOpening tag empty) = none := by
    cases empty <;> simp [tagOpening, endedFlow?, hname, hflow]
  rw [hnone]
  rw [openInProcess, if_neg hflow] at h
  split at h
  · split at h
    · cases h
      split <;> exact .of_eq rfl rfl rfl
    · cases h
      exact .of_eq rfl rfl rfl
  · split at h
    · rename_i e he
      exact openInElement_completes he h
    · cases h
      exact .of_eq rfl rfl rfl

theorem required_eq_ok {tag : Tag} {key what value : String}
    (h : required tag key what = .ok value) : tag.attribute? key = some (some value) := by
  obtain ⟨found, hfound, h⟩ := bind_eq_ok.mp h
  rw [optional] at hfound
  split at hfound
  · rename_i hread
    cases hfound
    cases found with
    | none => cases h
    | some found =>
        cases h
        exact hread
  · cases hfound

theorem orEmpty_eq_ok {tag : Tag} {key value : String} (h : orEmpty tag key = .ok value) :
    ∃ found, tag.attribute? key = some found ∧ found.getD "" = value := by
  obtain ⟨found, hfound, h⟩ := bind_eq_ok.mp h
  rw [optional] at hfound
  split at hfound
  · rename_i hread
    cases hfound
    cases h
    exact ⟨_, hread, rfl⟩
  · cases hfound

/-- An element's tag opens an element, or completes it if the tag is empty. -/
theorem openElement_completes {tag : Tag} {empty : Bool} {kind : ElementKind} {e : Element}
    (hname : String.ofList (localName tag.name) = kind.tag) (hinside : o.inside = true)
    (he : o.element = none) (hread : emptyElement? tag kind = some e) (hkind : e.kind = kind)
    (hbare : e.incoming = [] ∧ e.outgoing = []) :
    Completes o (o.endedElement? (tagOpening tag empty)) none []
      (if empty then { o with element := some e }.close kind.tag
        else { o with element := some e }) := by
  cases empty with
  | true =>
      have hended : o.endedElement? (tagOpening tag true) = some e := by
        simp [tagOpening, endedElement?, hinside, he, hname, ElementKind.ofTag?_tag, hread]
      rw [if_pos rfl, hended,
        close_of_ends (o := { o with element := some e }) rfl (hkind ▸ ElementKind.ofTag?_tag _)]
      exact ⟨rfl, (List.append_nil _).symm, fun e' he' => by cases he'⟩
  | false =>
      refine ⟨(List.append_nil _).symm, (List.append_nil _).symm, fun e' he' => ?_⟩
      cases he'
      exact .inl ⟨he, rfl, hbare⟩

theorem endedElement?_tagOpening {tag : Tag} {empty : Bool}
    (h : o.inside = false ∨ o.element.isSome ∨
      ElementKind.ofTag? (String.ofList (localName tag.name)) = none) :
    o.endedElement? (tagOpening tag empty) = none := by
  cases empty with
  | false => rfl
  | true =>
      simp only [tagOpening, if_true, endedElement?]
      obtain h | h | h := h
      · simp [h]
      · simp [Option.isNone_eq_false_iff.mpr h]
      · simp [h]

theorem endedFlow?_tagOpening {tag : Tag} {empty : Bool}
    (h : o.inside = false ∨ String.ofList (localName tag.name) ≠ "sequenceFlow") :
    o.endedFlow? (tagOpening tag empty) = none := by
  cases empty with
  | false => rfl
  | true =>
      simp only [tagOpening, if_true, endedFlow?]
      obtain h | h := h <;> simp [h]

/-- The tags that are read outside of all elements and flows. -/
def Aside (o : Outline) (name : String) : Prop :=
  name = "process" ∨ (name = "message" ∧ o.element.isNone = true) ∨ o.inside = false

theorem openTag_of_aside {tag : Tag} {empty : Bool}
    (haside : o.Aside (String.ofList (localName tag.name))) (h : o.openTag tag empty = .ok o') :
    Completes o none none [] o' := by
  unfold openTag at h
  dsimp only at h
  split at h
  · split at h
    · cases h
      exact .of_eq rfl rfl rfl
    · obtain ⟨id, -, h⟩ := bind_eq_ok.mp h
      obtain ⟨title, -, h⟩ := bind_eq_ok.mp h
      cases h
      exact .of_eq rfl rfl rfl
  · rename_i hprocess
    split at h
    · obtain ⟨id, -, h⟩ := bind_eq_ok.mp h
      cases id with
      | none =>
          cases h
          exact .of_eq rfl rfl rfl
      | some id =>
          obtain ⟨title, -, h⟩ := bind_eq_ok.mp h
          cases h
          exact .of_eq rfl rfl rfl
    · rename_i hmessage
      have hinside : o.inside = false := (haside.resolve_left hprocess).resolve_left hmessage
      rw [if_pos (by simp [hinside])] at h
      cases h
      exact .of_eq rfl rfl rfl

theorem openTag_of_element {tag : Tag} {empty : Bool} {kind : ElementKind}
    (hname : String.ofList (localName tag.name) = kind.tag) (hinside : o.inside = true)
    (h : o.openTag tag empty = .ok o') :
    Completes o (o.endedElement? (tagOpening tag empty)) none [] o' := by
  obtain ⟨hprocess, hmessage, -⟩ := tag_plain kind
  rw [openTag, hname, if_neg hprocess, if_neg fun h => hmessage h.1,
    if_neg (by simp [hinside])] at h
  simp only [ElementKind.ofTag?_tag] at h
  split at h
  · rename_i he
    cases h
    rw [endedElement?_tagOpening (.inr (.inl he))]
    exact .of_eq rfl rfl rfl
  · rename_i he
    obtain ⟨id, hid, h⟩ := bind_eq_ok.mp h
    obtain ⟨title, htitle, h⟩ := bind_eq_ok.mp h
    obtain ⟨found, hfound, rfl⟩ := orEmpty_eq_ok htitle
    cases h
    refine openElement_completes (e := Element.bare id (found.getD "") kind) hname hinside
      (by simpa using he) ?_ rfl ⟨rfl, rfl⟩
    simp only [emptyElement?, required_eq_ok hid, hfound]

theorem openTag_completes {tag : Tag} (empty : Bool) (h : o.openTag tag empty = .ok o') :
    Completes o (o.endedElement? (tagOpening tag empty)) (o.endedFlow? (tagOpening tag empty)) []
      o' := by
  generalize hname : String.ofList (localName tag.name) = name
  by_cases haside : o.Aside name
  · have hpassed : o.inside = false ∨ ElementKind.ofTag? name = none ∧ name ≠ "sequenceFlow" := by
      obtain rfl | ⟨rfl, -⟩ | hinside := haside
      · exact .inr ⟨rfl, by decide⟩
      · exact .inr ⟨rfl, by decide⟩
      · exact .inl hinside
    rw [endedElement?_tagOpening (hpassed.imp_right fun h => .inr (hname ▸ h.1)),
      endedFlow?_tagOpening (hpassed.imp_right fun h => hname ▸ h.2)]
    exact openTag_of_aside (hname ▸ haside) h
  obtain ⟨hprocess, hmessage, hinside⟩ : name ≠ "process" ∧
      ¬ (name = "message" ∧ o.element.isNone = true) ∧ o.inside = true := by
    simpa only [Aside, not_or, Bool.not_eq_false] using haside
  cases hkind : ElementKind.ofTag? name with
  | some kind =>
      have htag := ElementKind.eq_tag_of_ofTag? hkind
      rw [endedFlow?_tagOpening (.inr (by rw [hname, htag]; exact (tag_plain kind).2.2.1))]
      exact openTag_of_element (hname.trans htag) hinside h
  | none =>
      rw [endedElement?_tagOpening (.inr (.inr (hname ▸ hkind)))]
      refine openInProcess_completes hname hkind hinside ?_
      simpa only [openTag, hname, if_neg hprocess, if_neg hmessage, hinside, hkind,
        Bool.not_true, Bool.false_eq_true, if_false] using h

theorem pushText_completes (o : Outline) (slot : TextSlot) (text : String) :
    Completes o none none [(slot, Text.trim text)] (o.pushText slot text) := by
  cases slot with
  | condition =>
      refine ⟨(List.append_nil _).symm, (List.append_nil _).symm, fun e' he' => ?_⟩
      exact .inr ⟨e', he', by simp [textsOf]⟩
  | incoming | outgoing | timeDuration =>
      refine ⟨(List.append_nil _).symm, (List.append_nil _).symm, fun e' he' => ?_⟩
      obtain ⟨e, he, rfl⟩ := Option.map_eq_some_iff.mp he'
      refine .inr ⟨e, he, ?_⟩
      first
        | exact ⟨rfl, (List.append_nil _).symm⟩
        | exact ⟨(List.append_nil _).symm, rfl⟩
        | split <;> simp [textsOf]

/-- What a step completes. -/
theorem step_completes {token : Token} (h : o.step token = .ok o') :
    Completes o (o.endedElement? token) (o.endedFlow? token) (o.givenText? token).toList o' := by
  cases token with
  | opening tag => exact openTag_completes false h
  | empty tag => exact openTag_completes true h
  | closing name =>
      cases h
      exact o.close_completes name
  | text raw =>
      rw [step] at h
      split at h
      · rename_i hslot
        cases h
        simpa [endedElement?, endedFlow?, givenText?, hslot] using Completes.of_eq rfl rfl rfl
      · rename_i slot hslot
        split at h
        · rename_i text htext
          cases h
          simpa [endedElement?, endedFlow?, givenText?, hslot, htext] using
            o.pushText_completes slot text
        · cases h
  | data raw =>
      rw [step] at h
      split at h
      · rename_i hslot
        cases h
        simpa [endedElement?, endedFlow?, givenText?, hslot] using Completes.of_eq rfl rfl rfl
      · rename_i slot hslot
        cases h
        simpa [endedElement?, endedFlow?, givenText?, hslot] using o.pushText_completes slot raw
  | aside =>
      cases h
      exact .of_eq rfl rfl rfl

/-! ## What several tokens complete -/

/-- The elements that tokens complete, in the order of their ends, each with the texts that were
given to it; `texts` are those given so far to the element that is open. -/
def completedElements (o : Outline) (texts : List (TextSlot × String)) :
    List Token → List (Element × List (TextSlot × String))
  | [] => []
  | token :: tokens =>
    match o.step token with
    | .error _ => []
    | .ok o' =>
      (o.endedElement? token).toList.map (fun e => (e, texts)) ++
        completedElements o'
          (if o'.element.isSome then texts ++ (o.givenText? token).toList else []) tokens

/-- The flows that tokens complete, in the order of their ends. -/
def completedFlows (o : Outline) : List Token → List SequenceFlow
  | [] => []
  | token :: tokens =>
    match o.step token with
    | .error _ => []
    | .ok o' => (o.endedFlow? token).toList ++ completedFlows o' tokens

/-- An element lists the texts that were given to it. -/
def Lists (e : Element) (texts : List (TextSlot × String)) : Prop :=
  e.incoming = textsOf .incoming texts ∧ e.outgoing = textsOf .outgoing texts

/-- The texts are those of the element that is open. -/
def Told (o : Outline) (texts : List (TextSlot × String)) : Prop :=
  (o.element = none → texts = []) ∧ ∀ e, o.element = some e → Lists e texts

theorem textsOf_append (slot : TextSlot) (texts more : List (TextSlot × String)) :
    textsOf slot (texts ++ more) = textsOf slot texts ++ textsOf slot more := by
  simp [textsOf]

theorem Told.carries {texts more : List (TextSlot × String)} (h : o.Told texts)
    (hcarries : o.Carries o' more) :
    o'.Told (if o'.element.isSome then texts ++ more else []) := by
  cases he' : o'.element with
  | none => exact ⟨fun _ => rfl, fun e he => nomatch he'.symm.trans he⟩
  | some e' =>
      refine ⟨fun hnone => (nomatch he'.symm.trans hnone), fun e he => ?_⟩
      obtain rfl : e' = e := Option.some.inj (he'.symm.trans he)
      obtain ⟨hnone, rfl, hbare⟩ | ⟨e, he, hincoming, houtgoing⟩ := hcarries e' he'
      · simpa [Lists, h.1 hnone, textsOf] using hbare
      · obtain ⟨htexts, htexts'⟩ := h.2 e he
        simp only [Lists, Option.isSome_some, if_true, textsOf_append]
        exact ⟨by rw [hincoming, htexts], by rw [houtgoing, htexts']⟩

/-- An element that is completed lists the texts that were given to it. -/
theorem Told.ended {texts : List (TextSlot × String)} (h : o.Told texts) {e : Element}
    (he : o.endedElement? token = some e) : Lists e texts := by
  cases token with
  | closing name => exact h.2 e (Option.eq_some_of_filter_eq_some he)
  | empty tag =>
      simp only [endedElement?] at he
      split at he
      · rename_i hnone
        obtain ⟨kind, -, hread⟩ := Option.bind_eq_some_iff.mp he
        rw [h.1 (Option.isNone_iff_eq_none.mp hnone.2)]
        unfold emptyElement? at hread
        split at hread
        · cases hread
          exact ⟨rfl, rfl⟩
        · cases hread
      · cases he
  | _ => cases he

/-- **What a run completes** stands in the tables, in the order of the ends, and the elements list
the texts that were given to them. -/
theorem run_completes {tokens : List Token} {texts : List (TextSlot × String)}
    (h : o.run tokens = .ok o') (htold : o.Told texts) :
    o'.elements = o.elements ++ (o.completedElements texts tokens).map Prod.fst ∧
      o'.flows = o.flows ++ o.completedFlows tokens ∧
      ∀ told ∈ o.completedElements texts tokens, Lists told.1 told.2 := by
  induction tokens generalizing o texts with
  | nil =>
      cases h
      simp [completedElements, completedFlows]
  | cons token tokens ih =>
      rw [run] at h
      split at h
      · rename_i o₁ hstep
        have hfirst := step_completes hstep
        obtain ⟨helements, hflows, hlists⟩ := ih h (htold.carries hfirst.carries)
        simp only [completedElements, completedFlows, hstep]
        refine ⟨?_, ?_, fun told hmem => ?_⟩
        · rw [helements, hfirst.elements]
          simp [Function.comp_def]
        · rw [hflows, hfirst.flows, List.append_assoc]
        · rcases List.mem_append.mp hmem with hmem | hmem
          · obtain ⟨e, he, rfl⟩ := List.mem_map.mp hmem
            exact htold.ended (Option.mem_toList.mp he)
          · exact hlists told hmem
      · cases h

end Outline

/-! ## The process of a document -/

namespace Diagram

/-- The elements that a source completes, each with the texts that were given to it. -/
def completedElements (source : String) : List (Element × List (TextSlot × String)) :=
  Outline.start.completedElements [] (Markup.Document.ofText source).tokens

/-- The flows that a source completes. -/
def completedFlows (source : String) : List SequenceFlow :=
  Outline.start.completedFlows (Markup.Document.ofText source).tokens

/-- Texts, or what stands for them where there are none. -/
def orElse (texts others : List String) : List String := if texts = [] then others else texts

/-- Both ends of every flow are elements. -/
def Joined (d : Diagram) : Prop :=
  ∀ f ∈ d.flows, (∃ e ∈ d.elements, e.id = f.source) ∧ ∃ e ∈ d.elements, e.id = f.target

end Diagram

theorem ends_of_danglingEndpoint? {ids : List String} {flows : List SequenceFlow}
    (h : danglingEndpoint? ids flows = none) : ∀ f ∈ flows, f.source ∈ ids ∧ f.target ∈ ids := by
  induction flows with
  | nil => simp
  | cons f fs ih =>
      rw [danglingEndpoint?] at h
      split at h
      · cases h
      · rename_i hsource
        split at h
        · cases h
        · rename_i htarget
          intro g hg
          rcases List.mem_cons.mp hg with rfl | hg
          · exact ⟨Decidable.not_not.mp hsource, Decidable.not_not.mp htarget⟩
          · exact ih h g hg

/-- What a process is made of, from the outline at the end of its document. -/
theorem exists_outline_of_ofMarkup {source : String} {d : Diagram}
    (h : Diagram.ofMarkup source = .ok d) :
    ∃ o, Outline.start.run (Markup.Document.ofText source).tokens = .ok o ∧
      danglingEndpoint? (o.elements.map Element.id) o.flows = none ∧
      d.elements = o.elements.map (Element.linked o.flows) ∧
      d.flows = o.flows.map SequenceFlow.decoded := by
  rw [Diagram.ofMarkup, Diagram.ofDocument] at h
  split at h
  · cases h
  · rename_i o hrun
    split at h
    · rw [Outline.finish] at h
      split at h
      · cases h
      · split at h
        · cases h
        · rename_i hends
          cases h
          exact ⟨o, hrun, hends, rfl, rfl⟩
    · cases h

theorem joined_of_ofMarkup {source : String} {d : Diagram} (h : Diagram.ofMarkup source = .ok d) :
    d.Joined := by
  obtain ⟨o, -, hends, helements, hflows⟩ := exists_outline_of_ofMarkup h
  have hid {id : String} (hmem : id ∈ o.elements.map Element.id) : ∃ e ∈ d.elements, e.id = id := by
    obtain ⟨e, he, rfl⟩ := List.mem_map.mp hmem
    exact ⟨e.linked o.flows, helements ▸ List.mem_map_of_mem he, rfl⟩
  intro f hf
  rw [hflows] at hf
  obtain ⟨g, hg, rfl⟩ := List.mem_map.mp hf
  obtain ⟨hsource, htarget⟩ := ends_of_danglingEndpoint? hends g hg
  exact ⟨hid hsource, hid htarget⟩

/-- The ids of the flows that end at an element are the same before and after their conditions
are decoded. -/
theorem map_id_filter_decoded (flows : List SequenceFlow) (p : SequenceFlow → Bool)
    (hp : ∀ f : SequenceFlow, p f.decoded = p f) :
    ((flows.map SequenceFlow.decoded).filter p).map SequenceFlow.id =
      (flows.filter p).map SequenceFlow.id := by
  rw [List.filter_map, List.map_map, funext hp (f := p ∘ SequenceFlow.decoded)]
  rfl

theorem elements_of_ofMarkup {source : String} {d : Diagram}
    (h : Diagram.ofMarkup source = .ok d) :
    d.flows = (Diagram.completedFlows source).map SequenceFlow.decoded ∧
      d.elements = (Diagram.completedElements source).map fun told =>
        { told.1 with
          incoming := Diagram.orElse (Outline.textsOf .incoming told.2)
            ((d.flows.filter fun f => f.target == told.1.id).map SequenceFlow.id),
          outgoing := Diagram.orElse (Outline.textsOf .outgoing told.2)
            ((d.flows.filter fun f => f.source == told.1.id).map SequenceFlow.id) } := by
  obtain ⟨o, hrun, -, helements, hflows⟩ := exists_outline_of_ofMarkup h
  obtain ⟨hcompleted, hflows', hlists⟩ := Outline.run_completes hrun
    (show Outline.start.Told [] from ⟨fun _ => rfl, fun e he => (by cases he)⟩)
  refine ⟨by rw [hflows, hflows']; rfl, ?_⟩
  rw [helements, hcompleted, Outline.start, List.nil_append, List.map_map]
  refine List.map_congr_left fun told htold => ?_
  obtain ⟨hincoming, houtgoing⟩ := hlists told htold
  rw [hflows, map_id_filter_decoded _ _ fun _ => rfl, map_id_filter_decoded _ _ fun _ => rfl,
    ← hincoming, ← houtgoing]
  simp [Element.linked, Diagram.orElse, List.isEmpty_iff]

end ProcessEngine
