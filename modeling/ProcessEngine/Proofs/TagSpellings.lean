import Mathlib.Tactic.MkIffOfInductiveProp
import ProcessEngine.Proofs.MarkupPieces
import ProcessEngine.Proofs.OutlineSteps

/-!
# The two spellings of an empty tag

An empty tag is one token of a document, and a start tag with its end tag are
two.  An outline looks at the emptiness of a tag in one place for each kind of
tag, while an end tag ends whatever is open under its name.  So the two
spellings stand for the same unless the end tag ends something that an earlier
tag has opened: the process, an element of the same kind, a flow outside of the
process, or a text.

Main statements: `Outline.pair_eq_openTag`, by which that is the only
difference, for each tag in each outline, and `Diagram.ofMarkup_tagPair` on two
documents that differ in the spelling of one tag.
-/

namespace ProcessEngine

namespace Outline

variable {o : Outline} {name : String}

/-- Whether a start tag with its end tag ends something that was open before. -/
def EndsOuter (o : Outline) (name : String) : Prop :=
  o.Closes name ∧ (name = "process" → o.head.isSome) ∧ (name = "sequenceFlow" → o.inside = false)

instance (o : Outline) (name : String) : Decidable (o.EndsOuter name) :=
  inferInstanceAs (Decidable (_ ∧ (_ → _) ∧ (_ → _)))

/-- The outline after a start tag with its end tag. -/
def pair (o : Outline) (tag : Markup.Tag) : Except ParseError Outline :=
  (o.openTag tag false).map fun o => o.close (String.ofList (Markup.localName tag.name))

section Pair

variable {tag : Markup.Tag}

/-- A tag that is passed over. -/
theorem pair_of_passed (hname : String.ofList (Markup.localName tag.name) = name)
    (h : o.openTag tag false = .ok o) (h' : o.openTag tag true = .ok o) :
    o.pair tag = o.openTag tag true ↔ ¬ o.Closes name := by
  rw [pair, h, h', hname, ← close_eq_self]
  simp [Except.map]

theorem pair_process (hname : String.ofList (Markup.localName tag.name) = "process") :
    o.pair tag = o.openTag tag true ↔ ¬ o.EndsOuter "process" := by
  cases hhead : o.head with
  | some head =>
      rw [pair_of_passed hname] <;> simp [openTag, hname, hhead, EndsOuter]
  | none =>
      simp only [EndsOuter, hhead, pair, openTag, hname, if_pos]
      cases required tag "id" "process" with
      | error e => simp [Except.map, bind, Except.bind]
      | ok id =>
          cases orEmpty tag "name" <;> simp [Except.map, bind, Except.bind, close_process]

theorem pair_outside (hname : String.ofList (Markup.localName tag.name) = name)
    (hprocess : name ≠ "process") (hmessage : name ≠ "message") (h : o.inside = false) :
    o.pair tag = o.openTag tag true ↔ ¬ o.EndsOuter name := by
  rw [pair_of_passed hname] <;> simp [openTag, hname, hprocess, hmessage, h, EndsOuter]

theorem pair_element {kind : ElementKind}
    (hname : String.ofList (Markup.localName tag.name) = kind.tag) (h : o.inside = true) :
    o.pair tag = o.openTag tag true ↔ ¬ o.EndsOuter kind.tag := by
  obtain ⟨hprocess, hmessage, hflow, -, hslot⟩ := tag_plain kind
  cases he : o.element with
  | some e =>
      rw [pair_of_passed hname] <;>
        simp [openTag, hname, hprocess, hmessage, h, he, hflow, EndsOuter,
          ElementKind.ofTag?_tag]
  | none =>
      have hends : ¬ o.EndsOuter kind.tag := by
        simp [EndsOuter, Closes, hprocess, hflow, hslot, Ends, he]
      refine iff_of_true ?_ hends
      simp only [pair, openTag, hname, hprocess, hmessage, h, he, ElementKind.ofTag?_tag]
      cases required tag "id" "element" with
      | error e => simp [Except.map, bind, Except.bind]
      | ok id =>
          cases orEmpty tag "name" <;> simp [Except.map, bind, Except.bind]

theorem pair_sequenceFlow
    (hname : String.ofList (Markup.localName tag.name) = "sequenceFlow") (h : o.inside = true) :
    o.pair tag = o.openTag tag true ↔ ¬ o.EndsOuter "sequenceFlow" := by
  refine iff_of_true ?_ (by simp [EndsOuter, h])
  have hkind : ElementKind.ofTag? "sequenceFlow" = none := rfl
  simp only [pair, openTag, hname, h, hkind, openInProcess]
  cases readFlow tag <;> simp [Except.map, bind, Except.bind]

theorem pair_slot (hname : String.ofList (Markup.localName tag.name) = name)
    (hslot : name ∈ slotTags) (h : o.inside = true) :
    o.pair tag = o.openTag tag true ↔ ¬ o.EndsOuter name := by
  obtain ⟨head, inside, element, flow, slot, messages, elements, flows⟩ := o
  simp only at h
  subst h
  have hends (o : Outline) : o.EndsOuter name ↔ o.slot.isSome = true := by
    simp only [slotTags, List.mem_cons, List.not_mem_nil, or_false] at hslot
    obtain rfl | rfl | rfl | rfl := hslot <;> simp [EndsOuter, Closes, slotTags]
  rw [pair, hname, hends]
  simp only [slotTags, List.mem_cons, List.not_mem_nil, or_false] at hslot
  obtain rfl | rfl | rfl | rfl := hslot <;> cases element <;> cases flow <;> cases slot <;>
    simp [openTag, hname, openInProcess, openInElement, close, slotTags, Except.map,
      ElementKind.ofTag?, ElementKind.all, ElementKind.tag]

theorem openInElement_same {e : Element} (hslot : name ∉ slotTags) :
    o.openInElement e name tag false = o.openInElement e name tag true := by
  rw [openInElement.eq_def, openInElement.eq_def]
  split <;> first | rfl | exact absurd (by decide) hslot

theorem openTag_same (hname : String.ofList (Markup.localName tag.name) = name)
    (hprocess : name ≠ "process") (hflow : name ≠ "sequenceFlow") (hslot : name ∉ slotTags)
    (hkind : ElementKind.ofTag? name = none) : o.openTag tag false = o.openTag tag true := by
  have hcondition : name ≠ "conditionExpression" := by
    rintro rfl
    exact hslot (by decide)
  simp only [openTag, hname, hkind, openInProcess, if_neg hprocess, if_neg hflow, if_neg hcondition,
    openInElement_same hslot]

theorem pair_other (hname : String.ofList (Markup.localName tag.name) = name)
    (hprocess : name ≠ "process") (hflow : name ≠ "sequenceFlow") (hslot : name ∉ slotTags)
    (hkind : ElementKind.ofTag? name = none) :
    o.pair tag = o.openTag tag true ↔ ¬ o.EndsOuter name := by
  have hends (o : Outline) : ¬ o.Ends name := by
    rintro ⟨e, -, he⟩
    rw [hkind] at he
    cases he
  refine iff_of_true ?_ ?_
  · rw [pair, hname, openTag_same hname hprocess hflow hslot hkind]
    cases o.openTag tag true with
    | error e => rfl
    | ok o => exact congrArg Except.ok (close_of_not_ends hprocess hflow hslot (hends o))
  · simp [EndsOuter, Closes, hprocess, hflow, hslot, hends]

/-- A start tag with its end tag stands for the empty tag, unless its end tag ends something
that was open before. -/
theorem pair_eq_openTag :
    o.pair tag = o.openTag tag true ↔
      ¬ o.EndsOuter (String.ofList (Markup.localName tag.name)) := by
  generalize hname : String.ofList (Markup.localName tag.name) = name
  by_cases hprocess : name = "process"
  · exact hprocess ▸ pair_process (hname.trans hprocess)
  cases hinside : o.inside with
  | false =>
      by_cases hmessage : name = "message"
      · subst hmessage
        exact pair_other hname (by decide) (by decide) (by decide) rfl
      · exact pair_outside hname hprocess hmessage hinside
  | true =>
      by_cases hflow : name = "sequenceFlow"
      · exact hflow ▸ pair_sequenceFlow (hname.trans hflow) hinside
      by_cases hslot : name ∈ slotTags
      · exact pair_slot hname hslot hinside
      cases hkind : ElementKind.ofTag? name with
      | none => exact pair_other hname hprocess hflow hslot hkind
      | some kind =>
          cases ElementKind.eq_tag_of_ofTag? hkind
          exact pair_element hname hinside

end Pair

/-! ## Runs -/

theorem run_append (o : Outline) (tokens more : List Markup.Token) :
    o.run (tokens ++ more) = (o.run tokens).bind fun o => o.run more := by
  induction tokens generalizing o with
  | nil => rfl
  | cons token tokens ih =>
      rw [List.cons_append, run, run]
      cases o.step token with
      | error e => rfl
      | ok o' => exact ih o'

theorem run_pair (o : Outline) (tag : Markup.Tag) (more : List Markup.Token) :
    o.run (.opening tag :: .closing tag.name :: more) = (o.pair tag).bind fun o => o.run more := by
  rw [run, pair, step]
  cases o.openTag tag false with
  | error e => rfl
  | ok o' => rfl

theorem run_empty (o : Outline) (tag : Markup.Tag) (more : List Markup.Token) :
    o.run (.empty tag :: more) = (o.openTag tag true).bind fun o => o.run more := by
  rw [run, step]
  cases o.openTag tag true <;> rfl

/-- The two spellings are read alike between tokens behind which the end tag ends nothing. -/
theorem run_spellings (o : Outline) (tokens : List Markup.Token) (tag : Markup.Tag)
    (more : List Markup.Token)
    (h : ∀ o', o.run tokens = .ok o' →
      ¬ o'.EndsOuter (String.ofList (Markup.localName tag.name))) :
    o.run (tokens ++ .opening tag :: .closing tag.name :: more) =
      o.run (tokens ++ .empty tag :: more) := by
  rw [run_append, run_append]
  cases hrun : o.run tokens with
  | error e => rfl
  | ok o' =>
      change o'.run _ = o'.run _
      rw [run_pair, run_empty, pair_eq_openTag.mpr (h o' hrun)]

end Outline

namespace Markup

/-- A text in which every quote is closed and no `>` stands outside quotes. -/
def Closed (cs : List Char) : Prop := tagBody none (cs ++ ['>']) = some (cs, [])

instance (cs : List Char) : Decidable (Closed cs) := inferInstanceAs (Decidable (_ = _))

/-- A name and the text of attributes as they stand in a start tag. -/
@[mk_iff]
structure Tag.Written (name attributes : List Char) : Prop where
  named : name ≠ []
  first : ∀ c ∈ name.head?, c ≠ '!' ∧ c ≠ '?' ∧ c ≠ '/'
  solid : ∀ c ∈ name, Text.isLayout c = false
  spaced : ∀ c ∈ attributes.head?, Text.isLayout c = true
  name_closed : Closed name
  attributes_closed : Closed attributes
  last : (name ++ attributes).getLast? ≠ some '/'

instance (name attributes : List Char) : Decidable (Tag.Written name attributes) :=
  decidable_of_iff (name ≠ [] ∧ (name.head?.all fun c => c ≠ '!' ∧ c ≠ '?' ∧ c ≠ '/') ∧
      (name.all fun c => !Text.isLayout c) ∧ attributes.head?.all Text.isLayout ∧ Closed name ∧
      Closed attributes ∧ (name ++ attributes).getLast? ≠ some '/')
    (by simp [Tag.written_iff, Option.all_eq_true])

section Written

variable {name attributes : List Char}

theorem tagBody_append_of_closed {open? : Option Char} {cs : List Char}
    (h : tagBody open? (cs ++ ['>']) = some (cs, [])) (more : List Char) :
    tagBody open? (cs ++ more) =
      (tagBody none more).map fun (body, rest) => (cs ++ body, rest) := by
  induction cs generalizing open? with
  | nil =>
      cases open? with
      | some mark => cases h
      | none => simp
  | cons c cs ih =>
      -- the first character leaves the same quote open in both texts
      have hrest (mark? : Option Char)
          (hmap : (tagBody mark? (cs ++ ['>'])).map (fun (body, rest) => (c :: body, rest)) =
            some (c :: cs, [])) :
          (tagBody mark? (cs ++ more)).map (fun (body, rest) => (c :: body, rest)) =
            (tagBody none more).map fun (body, rest) => (c :: cs ++ body, rest) := by
        obtain ⟨⟨body, rest⟩, hbody, heq⟩ := Option.map_eq_some_iff.mp hmap
        cases heq
        rw [ih hbody, Option.map_map]
        rfl
      cases open? with
      | some mark => exact hrest _ h
      | none =>
          by_cases hc : c = '>'
          · simp [Markup.tagBody, hc] at h
          · simp only [List.cons_append, Markup.tagBody, if_neg hc] at h ⊢
            exact hrest _ h

theorem Closed.tagBody {cs : List Char} (h : Closed cs) (more : List Char) :
    tagBody none (cs ++ more) = (tagBody none more).map fun (body, rest) => (cs ++ body, rest) :=
  tagBody_append_of_closed h more

theorem Tag.Written.ofBody (h : Tag.Written name attributes) :
    Tag.ofBody (name ++ attributes) = ⟨name, attributes⟩ := by
  have hname : ∀ c ∈ name, (!Text.isLayout c) = true := fun c hc => by rw [h.solid c hc]; rfl
  rw [Tag.ofBody, List.takeWhile_append_of_pos hname, List.dropWhile_append_of_pos hname]
  cases hattributes : attributes with
  | nil => simp
  | cons c cs =>
      have hc := h.spaced c (by simp [hattributes])
      simp [hc]

theorem Tag.Written.tagToken_empty (h : Tag.Written name attributes) :
    tagToken (name ++ attributes ++ ['/']) = .empty ⟨name, attributes⟩ := by
  obtain ⟨c, cs, rfl⟩ := List.exists_cons_of_ne_nil h.named
  have hc : c ≠ '/' := (h.first c rfl).2.2
  rw [← h.ofBody]
  simp [tagToken, hc]

theorem Tag.Written.tagToken_opening (h : Tag.Written name attributes) :
    tagToken (name ++ attributes) = .opening ⟨name, attributes⟩ := by
  rw [← h.ofBody]
  have hlast := h.last
  obtain ⟨c, cs, rfl⟩ := List.exists_cons_of_ne_nil h.named
  have hc : c ≠ '/' := (h.first c rfl).2.2
  rw [← List.head?_reverse] at hlast
  rw [tagToken.eq_def]
  split
  · rename_i heq
    exact absurd (List.cons.inj heq).1 hc
  · split
    · rename_i inner heq
      rw [heq] at hlast
      exact absurd rfl hlast
    · rfl

theorem Tag.Written.tagToken_closing (h : Tag.Written name attributes) :
    tagToken ('/' :: name) = .closing name := by
  have hlast : name.getLast h.named ∈ name := List.getLast_mem h.named
  have hsolid := h.solid _ hlast
  have hall : name.all Text.isLayout = false := by
    rw [List.all_eq_false]
    exact ⟨_, hlast, by simp [hsolid]⟩
  have hdrop : name.reverse.dropWhile Text.isLayout = name.reverse := by
    obtain ⟨c, cs, hname⟩ := List.exists_cons_of_ne_nil (List.reverse_ne_nil_iff.mpr h.named)
    have hc := h.solid c (List.mem_reverse.mp (by simp [hname]))
    simp [hname, hc]
  simp [tagToken, closingName, hall, hdrop]

theorem Tag.Written.readsMarkup (h : Tag.Written name attributes) {body rest more : List Char}
    (hbody : Markup.tagBody none (name ++ attributes ++ more) = some (body, rest)) :
    ReadsMarkup (name ++ attributes ++ more) (tagToken body) rest := by
  obtain ⟨c, cs, rfl⟩ := List.exists_cons_of_ne_nil h.named
  have hc := h.first c rfl
  exact .tag ⟨hc.1, hc.2.1⟩ hbody

theorem Tag.Written.within_empty (h : Tag.Written name attributes) (names : List (List Char))
    (tail : List Char) :
    Document.within names ('<' :: (name ++ attributes ++ '/' :: '>' :: tail)) =
      (Document.within names tail).after [.empty ⟨name, attributes⟩] := by
  have hbody : Markup.tagBody none (name ++ attributes ++ '/' :: '>' :: tail) =
      some (name ++ attributes ++ ['/'], tail) := by
    rw [List.append_assoc, h.name_closed.tagBody, h.attributes_closed.tagBody]
    simp [Markup.tagBody]
  rw [within_markup _ rfl (h.readsMarkup hbody), h.tagToken_empty]
  rfl

theorem Tag.Written.within_opening (h : Tag.Written name attributes) (names : List (List Char))
    (tail : List Char) :
    Document.within names ('<' :: (name ++ attributes ++ '>' :: tail)) =
      (Document.within (name :: names) tail).after [.opening ⟨name, attributes⟩] := by
  have hbody : Markup.tagBody none (name ++ attributes ++ '>' :: tail) =
      some (name ++ attributes, tail) := by
    rw [List.append_assoc, h.name_closed.tagBody, h.attributes_closed.tagBody]
    simp [Markup.tagBody]
  rw [within_markup _ rfl (h.readsMarkup hbody), h.tagToken_opening]
  rfl

theorem Tag.Written.within_closing (h : Tag.Written name attributes) (names : List (List Char))
    (tail : List Char) :
    Document.within (name :: names) ('<' :: '/' :: (name ++ '>' :: tail)) =
      (Document.within names tail).after [.closing name] := by
  have hbody : Markup.tagBody none ('/' :: (name ++ '>' :: tail)) = some ('/' :: name, tail) := by
    simp [Markup.tagBody, h.name_closed.tagBody]
  rw [within_markup _ rfl (.tag (by decide) hbody), h.tagToken_closing]
  simp [openNames]

theorem Tag.Written.within_pair (h : Tag.Written name attributes) (names : List (List Char))
    (tail : List Char) :
    Document.within names
        ('<' :: (name ++ attributes ++ '>' :: '<' :: '/' :: (name ++ '>' :: tail))) =
      (Document.within names tail).after [.opening ⟨name, attributes⟩, .closing name] := by
  rw [h.within_opening, h.within_closing, Document.after_after]
  rfl

end Written

theorem Document.ofText_eq_within (text : String) :
    Document.ofText text = Document.within [] (dropByteOrderMark text.toList) := by
  refine tokensFrom_eq_of_length_lt _ (Nat.lt_succ_of_le ?_) (Nat.lt_succ_self _)
  rw [dropByteOrderMark.eq_def]
  split
  · rename_i heq
    rw [heq]
    exact Nat.le_succ _
  · exact Nat.le_refl _

theorem dropByteOrderMark_append (cs tail : List Char) :
    dropByteOrderMark (cs ++ '<' :: tail) = dropByteOrderMark cs ++ '<' :: tail := by
  cases cs with
  | nil => rfl
  | cons c cs =>
      by_cases hc : c = '\ufeff'
      · subst hc
        rfl
      · simp [dropByteOrderMark, hc]

/-- An empty tag as it is written. -/
def emptyTag (name attributes : String) : String := "<" ++ name ++ attributes ++ "/>"

/-- A start tag and its end tag with nothing between them. -/
def tagPair (name attributes : String) : String :=
  "<" ++ name ++ attributes ++ "></" ++ name ++ ">"

variable {before name attributes : String} {tokens : List Token}

/-- The tokens of a document with an empty tag in it, and of the one with the pair in its place. -/
theorem ofText_spellings (htag : Tag.Written name.toList attributes.toList)
    (hbefore : Pieces (dropByteOrderMark before.toList) tokens) (after : String) :
    Document.ofText (before ++ tagPair name attributes ++ after) =
        Document.ofText (before ++ emptyTag name attributes ++ after) ∨
      ∃ document : Document,
        Document.ofText (before ++ tagPair name attributes ++ after) = document.after
          (tokens ++ [.opening ⟨name.toList, attributes.toList⟩, .closing name.toList]) ∧
        Document.ofText (before ++ emptyTag name attributes ++ after) =
          document.after (tokens ++ [.empty ⟨name.toList, attributes.toList⟩]) := by
  have hpair : dropByteOrderMark (before ++ tagPair name attributes ++ after).toList =
      dropByteOrderMark before.toList ++ '<' :: (name.toList ++ attributes.toList ++
        '>' :: '<' :: '/' :: (name.toList ++ '>' :: after.toList)) := by
    rw [← dropByteOrderMark_append]
    simp [tagPair]
  have hempty : dropByteOrderMark (before ++ emptyTag name attributes ++ after).toList =
      dropByteOrderMark before.toList ++ '<' :: (name.toList ++ attributes.toList ++
        '/' :: '>' :: after.toList) := by
    rw [← dropByteOrderMark_append]
    simp [emptyTag]
  rw [Document.ofText_eq_within, Document.ofText_eq_within, hpair, hempty]
  obtain ⟨names, hwithin⟩ | ⟨document, hwithin⟩ := within_append hbefore []
  · refine .inr ⟨Document.within names after.toList, ?_, ?_⟩
    · rw [hwithin, htag.within_pair, Document.after_after]
    · rw [hwithin, htag.within_empty, Document.after_after]
  · exact .inl (by rw [hwithin, hwithin])

end Markup

/-- An empty tag and the pair of a start tag and an end tag stand for the same, whatever stands
before and behind them, unless the end tag ends something that was open before the pair. -/
theorem Diagram.ofMarkup_tagPair {before after name attributes : String}
    {tokens : List Markup.Token}
    (htag : Markup.Tag.Written name.toList attributes.toList)
    (hbefore : Markup.Pieces (Markup.dropByteOrderMark before.toList) tokens)
    (hends : ∀ o, Outline.start.run tokens = .ok o →
      ¬ o.EndsOuter (String.ofList (Markup.localName name.toList))) :
    Diagram.ofMarkup (before ++ Markup.tagPair name attributes ++ after) =
      Diagram.ofMarkup (before ++ Markup.emptyTag name attributes ++ after) := by
  rw [Diagram.ofMarkup, Diagram.ofMarkup]
  obtain hsame | ⟨document, hpair, hempty⟩ := Markup.ofText_spellings htag hbefore after
  · rw [hsame]
  · have hrun := Outline.start.run_spellings tokens ⟨name.toList, attributes.toList⟩
      document.tokens hends
    rw [hpair, hempty]
    simp only [Diagram.ofDocument, Markup.Document.after, List.append_assoc, List.cons_append,
      List.nil_append, hrun]

/-! ## Two documents -/

section Documents

private theorem toOption_eq_some {ε α : Type} {x : Except ε α} {a : α}
    (h : x.toOption = some a) : x = .ok a := by
  cases x with
  | error e => cases h
  | ok b =>
      cases h
      rfl

private theorem pieces_ofText {before : String} {tokens : List Markup.Token}
    (h : Markup.Document.ofText before = ⟨tokens, true⟩) :
    Markup.Pieces (Markup.dropByteOrderMark before.toList) tokens :=
  Markup.pieces_of_sound h

private def processTag : Markup.Tag := ⟨['p', 'r', 'o', 'c', 'e', 's', 's'], " id='p'".toList⟩

private def startTag : Markup.Tag :=
  ⟨['s', 't', 'a', 'r', 't', 'E', 'v', 'e', 'n', 't'], " id='s'".toList⟩

private def startOpen : Outline :=
  { Outline.start with
    head := some ("p", ""), inside := true, element := some (Element.bare "s" "" .startEvent) }

/-- An empty list of flows in an element, with a prefix and with a `>` in quotes. -/
theorem ofMarkup_tagPair_outgoing :
    Markup.Tag.Written "b:outgoing".toList " a='>'".toList ∧
      Markup.Pieces (Markup.dropByteOrderMark "<process id='p'><startEvent id='s'>".toList)
        [.opening processTag, .opening startTag] ∧
      Outline.start.run [.opening processTag, .opening startTag] = .ok startOpen ∧
      ¬ startOpen.EndsOuter "outgoing" ∧
      Diagram.ofMarkup ("<process id='p'><startEvent id='s'>" ++
          Markup.tagPair "b:outgoing" " a='>'" ++ "</startEvent></process>") =
        Diagram.ofMarkup ("<process id='p'><startEvent id='s'>" ++
          Markup.emptyTag "b:outgoing" " a='>'" ++ "</startEvent></process>") := by
  have hwritten : Markup.Tag.Written "b:outgoing".toList " a='>'".toList := by decide +kernel
  have hbefore : Markup.Pieces
      (Markup.dropByteOrderMark "<process id='p'><startEvent id='s'>".toList)
      [.opening processTag, .opening startTag] := pieces_ofText (by decide +kernel)
  have hrun : Outline.start.run [.opening processTag, .opening startTag] = .ok startOpen :=
    toOption_eq_some (by decide +kernel)
  have hends : ¬ startOpen.EndsOuter "outgoing" := by decide
  refine ⟨hwritten, hbefore, hrun, hends, Diagram.ofMarkup_tagPair hwritten hbefore ?_⟩
  intro o ho
  cases hrun.symm.trans ho
  exact hends

private def nested : Diagram :=
  { id := "p", name := "", elements := [Element.bare "s" "" .startEvent], flows := [],
    messages := [] }

/-- The end tag of a second process ends the first one, while an empty second process is passed
over: what follows the pair is no longer read. -/
theorem ofMarkup_tagPair_nested :
    Markup.Tag.Written "process".toList " id='q'".toList ∧
      Markup.Pieces (Markup.dropByteOrderMark "<process id='p'>".toList) [.opening processTag] ∧
      Diagram.ofMarkup ("<process id='p'>" ++ Markup.emptyTag "process" " id='q'" ++
        "<startEvent id='s'/></process>") = .ok nested ∧
      Diagram.ofMarkup ("<process id='p'>" ++ Markup.tagPair "process" " id='q'" ++
        "<startEvent id='s'/></process>") = .ok { nested with elements := [] } ∧
      nested ≠ { nested with elements := [] } :=
  ⟨by decide +kernel, pieces_ofText (by decide +kernel), toOption_eq_some (by decide +kernel),
    toOption_eq_some (by decide +kernel), by decide⟩

end Documents

end ProcessEngine
