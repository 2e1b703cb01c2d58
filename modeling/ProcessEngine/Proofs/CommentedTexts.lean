import Mathlib.Data.List.TakeWhile
import ProcessEngine.Proofs.TagSpellings

/-!
# Comments inside a text

A comment divides a text into two.  The reader resolves the references of each
part and hands it to the outline, which deals with it by the slot that is open:
the parts of a condition or of a duration are joined again, so nothing comes of
the comment, as long as it does not stand inside a reference.  A duration loses
the blanks around each part, and these may come from references.  The incoming
and outgoing flows of an element are lists of texts, and there each part becomes
an entry of its own, just as if the tag had been ended and opened again.

Main statement: `Diagram.ofMarkup_comment`.
-/

namespace ProcessEngine

namespace Markup

/-! ## Comments -/

/-- A comment as it is written. -/
def comment (inner : String) : String := "<!--" ++ inner ++ "-->"

theorem breakOn_comment {inner : List Char} (h : ¬ ['-', '-', '>'] <:+: inner)
    (rest : List Char) :
    breakOn ['-', '-', '>'] (inner ++ '-' :: '-' :: '>' :: rest) = some (inner, rest) := by
  induction inner with
  | nil => simp [breakOn, dropWord?]
  | cons c cs ih =>
      have hnone : dropWord? ['-', '-', '>'] (c :: (cs ++ '-' :: '-' :: '>' :: rest)) = none := by
        -- the mark would end in the two dashes of the true end, or lie inside
        rcases cs with _ | ⟨d, _ | ⟨e, cs⟩⟩
        · simp [dropWord?]
        · simp [dropWord?]
        · have hne : ¬ ('-' = c ∧ '-' = d ∧ '>' = e) := by
            rintro ⟨rfl, rfl, rfl⟩
            exact h ⟨[], cs, rfl⟩
          simpa [dropWord?] using hne
      have hcs : ¬ ['-', '-', '>'] <:+: cs := fun hcs => h (List.infix_cons hcs)
      rw [List.cons_append, breakOn, hnone]
      simp [ih hcs]

theorem within_comment {inner : List Char} (h : ¬ ['-', '-', '>'] <:+: inner)
    (names : List (List Char)) (rest : List Char) :
    Document.within names ('<' :: '!' :: '-' :: '-' :: (inner ++ '-' :: '-' :: '>' :: rest)) =
      (Document.within names rest).after [.aside] :=
  within_markup names rfl (.comment (breakOn_comment h rest))

/-! ## References -/

/-- Whether a place between two texts lies inside a reference. -/
def InReference (first second : List Char) : Prop :=
  ∃ before name rest after, first = before ++ '&' :: name ∧ second = rest ++ ';' :: after ∧
    (∀ c ∈ name ++ rest, c ≠ '&' ∧ c ≠ ';') ∧ (reference? (name ++ rest)).isSome = true

section References

variable {first second cs name : List Char}

theorem InReference.append_left (h : InReference first second) (front : List Char) :
    InReference (front ++ first) second := by
  obtain ⟨before, name, rest, after, rfl, hsecond, hname⟩ := h
  exact ⟨front ++ before, name, rest, after, (List.append_assoc ..).symm, hsecond, hname⟩

theorem InReference.append_right (h : InReference first second) (back : List Char) :
    InReference first (second ++ back) := by
  obtain ⟨before, name, rest, after, hfirst, rfl, hname⟩ := h
  exact ⟨before, name, rest, after ++ back, hfirst, List.append_assoc .., hname⟩

/-- Where no reference starts there is none. -/
theorem not_inReference (h : '&' ∉ first) : ¬ InReference first second := by
  rintro ⟨before, name, -, -, rfl, -⟩
  simp at h

/-- A reference that is resolved has been closed. -/
theorem exists_end_of_unescapeFrom {pending : List Char}
    (h : (unescapeFrom (some pending) cs).isSome = true) :
    ∃ rest after, cs = rest ++ ';' :: after ∧ (∀ c ∈ rest, c ≠ '&' ∧ c ≠ ';') ∧
      (reference? (pending.reverse ++ rest)).isSome = true := by
  induction cs generalizing pending with
  | nil => cases h
  | cons c cs ih =>
      rw [unescapeFrom] at h
      split at h
      · cases h
      · rename_i hopen
        split at h
        · rename_i hclose
          subst hclose
          refine ⟨[], cs, rfl, by simp, ?_⟩
          cases hreference : reference? pending.reverse with
          | none => simp [hreference] at h
          | some d => simp [hreference]
        · rename_i hclose
          obtain ⟨rest, after, rfl, hrest, hreference⟩ := ih h
          refine ⟨c :: rest, after, rfl, ?_, by simpa using hreference⟩
          simpa [hopen, hclose] using hrest

/-- What is left of a text in front of which a reference is open; the name is in reverse. -/
def withOpen (pending : Option (List Char)) (cs : List Char) : List Char :=
  match pending with
  | none => cs
  | some name => '&' :: (name.reverse ++ cs)

private theorem map_cons_bind (d : Char) (x y : Option (List Char)) :
    (x.bind fun a => y.map (a ++ ·)).map (d :: ·) =
      (x.map (d :: ·)).bind fun a => y.map (a ++ ·) := by
  cases x <;> cases y <;> rfl

theorem unescapeFrom_append_of {pending : Option (List Char)}
    (hname : ∀ name ∈ pending, ∀ c ∈ name, c ≠ '&' ∧ c ≠ ';')
    (h : ¬ InReference (withOpen pending first) second) :
    unescapeFrom pending (first ++ second) =
      (unescapeFrom pending first).bind fun a => (unescapeFrom none second).map (a ++ ·) := by
  induction first generalizing pending with
  | nil =>
      cases pending with
      | none => simp [unescapeFrom]
      | some name =>
          -- a reference that is still open is not closed by the second text
          rw [List.nil_append, unescapeFrom, if_neg (by simp), Option.bind_none,
            ← Option.not_isSome_iff_eq_none]
          intro hsome
          obtain ⟨rest, after, rfl, hrest, hreference⟩ := exists_end_of_unescapeFrom hsome
          refine h ⟨[], name.reverse, rest, after, by simp [withOpen], rfl, fun c hc => ?_,
            hreference⟩
          obtain hc | hc := List.mem_append.mp hc
          · exact hname name rfl c (List.mem_reverse.mp hc)
          · exact hrest c hc
  | cons c cs ih =>
      have hplain (front : List Char) (hfront : front ++ cs = withOpen pending (c :: cs)) :
          unescapeFrom none (cs ++ second) =
            (unescapeFrom none cs).bind fun a => (unescapeFrom none second).map (a ++ ·) := by
        refine ih (by simp) fun hcs => h ?_
        rw [← hfront]
        exact hcs.append_left front
      cases pending with
      | none =>
          rw [List.cons_append, unescapeFrom, unescapeFrom]
          by_cases hopen : c = '&'
          · subst hopen
            exact ih (by simp) h
          · simp only [if_neg hopen]
            rw [hplain [c] rfl, map_cons_bind]
      | some name =>
          rw [List.cons_append, unescapeFrom, unescapeFrom]
          by_cases hopen : c = '&'
          · simp [hopen]
          by_cases hclose : c = ';'
          · subst hclose
            simp only [if_neg hopen, if_pos]
            cases reference? name.reverse with
            | none => rfl
            | some d =>
                simp only
                rw [hplain ('&' :: (name.reverse ++ [';'])) (by simp [withOpen]), map_cons_bind]
          · simp only [if_neg hopen, if_neg hclose]
            refine ih ?_ (by simpa [withOpen] using h)
            have hname := hname name rfl
            simpa [hopen, hclose] using hname

/-- The references of a text are those of its parts, unless one is divided. -/
theorem unescapeFrom_append (h : ¬ InReference first second) :
    unescapeFrom none (first ++ second) =
      (unescapeFrom none first).bind fun a => (unescapeFrom none second).map (a ++ ·) :=
  unescapeFrom_append_of (by simp) h

theorem unescape_append {first second : String} (h : ¬ InReference first.toList second.toList) :
    unescape (first ++ second) =
      (unescape first).bind fun a => (unescape second).map (a ++ ·) := by
  rw [unescape, unescape, unescape, String.toList_append, unescapeFrom_append h]
  cases unescapeFrom none first.toList <;> cases unescapeFrom none second.toList <;> simp

/-- A text without references stands for itself. -/
theorem unescapeFrom_of_not_mem (h : '&' ∉ cs) : unescapeFrom none cs = some cs := by
  induction cs with
  | nil => rfl
  | cons c cs ih =>
      rw [List.mem_cons, not_or] at h
      rw [unescapeFrom, ih h.2]
      simp [Ne.symm h.1]

end References

/-! ## The parts of a text -/

/-- A text that can be divided by a comment: it holds no markup, and the
comment comes between two characters that are not blank, outside of references. -/
structure Joint (first second : List Char) : Prop where
  first_text : '<' ∉ first
  second_text : '<' ∉ second
  last : ∃ c ∈ first.getLast?, Text.isBlank c = false
  head : ∃ c ∈ second.head?, Text.isBlank c = false
  outside : ¬ InReference first second

section Joints

variable {first second cs rest lead back : List Char}

theorem isLayout_of_not_isBlank {c : Char} (h : Text.isBlank c = false) :
    Text.isLayout c = false := by
  cases hlayout : Text.isLayout c with
  | false => rfl
  | true =>
      rw [Text.isBlank_of_isLayout hlayout] at h
      cases h

/-- The text in front of the next markup is one token, without the layout around it. -/
theorem within_textNode (names : List (List Char)) (hlead : ∀ c ∈ lead, Text.isLayout c = true)
    (hhead : ∃ c ∈ cs.head?, Text.isLayout c = false)
    (hlast : ∃ c ∈ cs.getLast?, Text.isLayout c = false)
    (hback : ∀ c ∈ back, Text.isLayout c = true) (htext : '<' ∉ cs)
    (hrest : ∀ c ∈ rest.head?, c = '<') :
    Document.within names (lead ++ (cs ++ (back ++ rest))) =
      (Document.within names rest).after [.text (String.ofList cs)] := by
  obtain ⟨c, hc, hlayout⟩ := hhead
  obtain ⟨inner, rfl⟩ := List.head?_eq_some_iff.mp hc
  obtain ⟨d, hd, hdlayout⟩ := hlast
  obtain ⟨front, hfront⟩ := List.getLast?_eq_some_iff.mp hd
  have hall : ∀ x ∈ c :: inner ++ back, (x != '<') = true := fun x hx => by
    rw [bne_iff_ne]
    rintro rfl
    obtain hx | hx := List.mem_append.mp hx
    · exact htext hx
    · exact absurd (hback _ hx) (by decide)
  have hend : rest.takeWhile (· != '<') = [] ∧ rest.dropWhile (· != '<') = rest := by
    cases rest with
    | nil => exact ⟨rfl, rfl⟩
    | cons x rest =>
        cases hrest x rfl
        exact ⟨rfl, rfl⟩
  have hskip : skipLayout (lead ++ (c :: inner ++ (back ++ rest))) =
      c :: (inner ++ (back ++ rest)) := by
    rw [skipLayout, List.dropWhile_append_of_pos hlead]
    simp [hlayout]
  have hlist : c :: (inner ++ (back ++ rest)) = c :: inner ++ back ++ rest := by simp
  have htrim : (c :: inner ++ back).reverse.dropWhile Text.isLayout = (c :: inner).reverse := by
    rw [List.reverse_append, List.dropWhile_append_of_pos (by simpa using hback), hfront]
    simp [hdlayout]
  rw [within_text names hskip (bne_iff_ne.mp (hall c (by simp))), hlist,
    List.takeWhile_append_of_pos hall, List.dropWhile_append_of_pos hall, hend.1, hend.2,
    List.append_nil, textToken, htrim, List.reverse_reverse]

/-- The two parts of a divided text without the layout around the whole. -/
structure Parts (first second lead u v back : List Char) : Prop where
  first_eq : first = lead ++ u
  second_eq : second = v ++ back
  lead_layout : ∀ c ∈ lead, Text.isLayout c = true
  back_layout : ∀ c ∈ back, Text.isLayout c = true
  u_head : ∃ c ∈ u.head?, Text.isLayout c = false
  u_last : ∃ c ∈ u.getLast?, Text.isLayout c = false
  v_head : ∃ c ∈ v.head?, Text.isLayout c = false
  v_last : ∃ c ∈ v.getLast?, Text.isLayout c = false

theorem exists_lead (h : ∃ c ∈ cs.getLast?, Text.isLayout c = false) : ∃ lead u, cs = lead ++ u ∧
    (∀ c ∈ lead, Text.isLayout c = true) ∧ (∃ c ∈ u.head?, Text.isLayout c = false) ∧
      ∃ c ∈ u.getLast?, Text.isLayout c = false := by
  obtain ⟨c, hc, hlayout⟩ := h
  obtain ⟨front, rfl⟩ := List.getLast?_eq_some_iff.mp hc
  refine ⟨front.takeWhile Text.isLayout, front.dropWhile Text.isLayout ++ [c], ?_,
    fun d hd => List.mem_takeWhile_imp hd, ?_, c, by simp, hlayout⟩
  · rw [← List.append_assoc, List.takeWhile_append_dropWhile]
  · cases hfront : front.dropWhile Text.isLayout with
    | nil => exact ⟨c, rfl, hlayout⟩
    | cons d inner =>
        refine ⟨d, rfl, ?_⟩
        have hd := List.head_dropWhile_not Text.isLayout (l := front) (by simp [hfront])
        simpa [hfront] using hd

theorem Joint.exists_parts (h : Joint first second) :
    ∃ lead u v back, Parts first second lead u v back := by
  obtain ⟨c, hc, hblank⟩ := h.last
  obtain ⟨lead, u, rfl, hlead, hhead, hlast⟩ :=
    exists_lead ⟨c, hc, isLayout_of_not_isBlank hblank⟩
  obtain ⟨d, hd, hdblank⟩ := h.head
  -- the layout behind a text is that in front of the reversed one
  have hreverse : ∃ d ∈ second.reverse.getLast?, Text.isLayout d = false :=
    ⟨d, by simpa using hd, isLayout_of_not_isBlank hdblank⟩
  obtain ⟨back, v, hv, hback, hvlast, hvhead⟩ := exists_lead hreverse
  refine ⟨lead, u, v.reverse, back.reverse, rfl, ?_, hlead, by simpa using hback, hhead, hlast,
    by simpa using hvhead, by simpa using hvlast⟩
  rw [← List.reverse_append, ← hv, List.reverse_reverse]

section Parts

variable {u v after : List Char} (h : Parts first second lead u v back)
include h

theorem Parts.within_whole (names : List (List Char)) (hfirst : '<' ∉ first)
    (hsecond : '<' ∉ second) (hafter : ∀ c ∈ after.head?, c = '<') :
    Document.within names (first ++ (second ++ after)) =
      (Document.within names after).after [.text (String.ofList (u ++ v))] := by
  obtain ⟨rfl, rfl, hlead, hback, ⟨c, hc, hhead⟩, -, -, ⟨d, hd, hlast⟩⟩ := h
  have htext : '<' ∉ u ++ v := by simp_all
  rw [← within_textNode names hlead ⟨c, by simp_all, hhead⟩ ⟨d, by simp_all, hlast⟩ hback htext
    hafter]
  simp

theorem Parts.within_first (names : List (List Char)) (hfirst : '<' ∉ first) (tail : List Char) :
    Document.within names (first ++ '<' :: tail) =
      (Document.within names ('<' :: tail)).after [.text (String.ofList u)] := by
  obtain ⟨rfl, -, hlead, -, hhead, hlast, -, -⟩ := h
  have htext : '<' ∉ u := by simp_all
  rw [List.append_assoc, ← List.nil_append ('<' :: tail)]
  exact within_textNode names hlead hhead hlast (by simp) htext (by simp)

theorem Parts.within_second (names : List (List Char)) (hsecond : '<' ∉ second)
    (hafter : ∀ c ∈ after.head?, c = '<') :
    Document.within names (second ++ after) =
      (Document.within names after).after [.text (String.ofList v)] := by
  obtain ⟨-, rfl, -, hback, -, -, hhead, hlast⟩ := h
  have htext : '<' ∉ v := by simp_all
  rw [List.append_assoc, ← List.nil_append (v ++ _)]
  exact within_textNode names (by simp) hhead hlast hback htext hafter

theorem Parts.within_comment (names : List (List Char)) (hfirst : '<' ∉ first)
    (hsecond : '<' ∉ second) (hafter : ∀ c ∈ after.head?, c = '<') {inner : List Char}
    (hinner : ¬ ['-', '-', '>'] <:+: inner) :
    Document.within names (first ++ '<' :: '!' :: '-' :: '-' ::
        (inner ++ '-' :: '-' :: '>' :: (second ++ after))) =
      (Document.within names after).after
        [.text (String.ofList u), .aside, .text (String.ofList v)] := by
  rw [h.within_first names hfirst, Markup.within_comment hinner,
    h.within_second names hsecond hafter, Document.after_after, Document.after_after]
  rfl

end Parts

end Joints

/-! ## Documents -/

/-- Whole pieces in front of a text, the last of which is no text. -/
def Leads (cs : List Char) (tokens : List Token) (last : Token) : Prop :=
  ∃ front inner, cs = front ++ '<' :: inner ∧ Pieces front tokens ∧ ReadsMarkup inner last []

theorem Leads.within {cs : List Char} {tokens : List Token} {last : Token}
    (h : Leads cs tokens last) (names : List (List Char)) :
    (∃ names' names'', openNames names' last = some names'' ∧
      ∀ tail, Document.within names (cs ++ tail) =
        (Document.within names'' tail).after (tokens ++ [last])) ∨
      ∃ document, ∀ tail, Document.within names (cs ++ tail) = document := by
  obtain ⟨front, inner, rfl, hfront, hlast⟩ := h
  have hskip (tail : List Char) : skipLayout ('<' :: (inner ++ tail)) = '<' :: (inner ++ tail) :=
    rfl
  have hstep (names' : List (List Char)) (tail : List Char) :=
    within_markup names' (hskip tail) (readMarkup_append hlast tail)
  obtain ⟨names', hwithin⟩ | ⟨document, hwithin⟩ := within_append hfront names
  · cases hnames : openNames names' last with
    | none =>
        refine .inr ⟨Document.after tokens ⟨[], false⟩, fun tail => ?_⟩
        rw [List.append_assoc, List.cons_append, hwithin, hstep, hnames]
    | some names'' =>
        refine .inl ⟨names', names'', hnames, fun tail => ?_⟩
        rw [List.append_assoc, List.cons_append, hwithin, hstep, hnames]
        simp
  · exact .inr ⟨document, fun tail => by rw [List.append_assoc, List.cons_append, hwithin]⟩

theorem dropByteOrderMark_append_of_leads {cs : List Char} {tokens : List Token} {last : Token}
    (h : Leads (dropByteOrderMark cs) tokens last) (tail : List Char) :
    dropByteOrderMark (cs ++ tail) = dropByteOrderMark cs ++ tail := by
  cases cs with
  | nil =>
      obtain ⟨front, inner, hcs, -⟩ := h
      cases front <;> cases hcs
  | cons c cs =>
      by_cases hc : c = '\ufeff'
      · subst hc
        rfl
      · simp [dropByteOrderMark, hc]

theorem dropByteOrderMark_comment {before first second after inner : String}
    {tokens : List Token} {last : Token}
    (h : Leads (dropByteOrderMark before.toList) tokens last) :
    dropByteOrderMark (before ++ first ++ comment inner ++ second ++ after).toList =
      dropByteOrderMark before.toList ++ (first.toList ++ '<' :: '!' :: '-' :: '-' ::
        (inner.toList ++ '-' :: '-' :: '>' :: (second.toList ++ after.toList))) := by
  rw [← dropByteOrderMark_append_of_leads h]
  simp [comment]

/-- The end tag of a text and a start tag that opens it again. -/
def reopening (name attributes : String) : String :=
  "</" ++ name ++ "><" ++ name ++ attributes ++ ">"

section Texts

variable {before first second after inner : String} {tokens : List Token} {last : Token}
  {lead u v back : List Char} (hparts : Parts first.toList second.toList lead u v back)
  (hfirst : '<' ∉ first.toList) (hsecond : '<' ∉ second.toList)
  (hafter : ∀ c ∈ after.toList.head?, c = '<')
  (hinner : ¬ ['-', '-', '>'] <:+: inner.toList)
include hparts hfirst hsecond hafter hinner

/-- The tokens of a document with a comment in a text, and of the one without it. -/
theorem ofText_comment (hbefore : Leads (dropByteOrderMark before.toList) tokens last) :
    Document.ofText (before ++ first ++ comment inner ++ second ++ after) =
        Document.ofText (before ++ first ++ second ++ after) ∨
      ∃ document : Document,
        Document.ofText (before ++ first ++ comment inner ++ second ++ after) = document.after
          (tokens ++ [last] ++ [.text (String.ofList u), .aside, .text (String.ofList v)]) ∧
        Document.ofText (before ++ first ++ second ++ after) =
          document.after (tokens ++ [last] ++ [.text (String.ofList u ++ String.ofList v)]) := by
  have hwhole : dropByteOrderMark (before ++ first ++ second ++ after).toList =
      dropByteOrderMark before.toList ++ (first.toList ++ (second.toList ++ after.toList)) := by
    rw [← dropByteOrderMark_append_of_leads hbefore]
    simp
  rw [Document.ofText_eq_within, Document.ofText_eq_within, dropByteOrderMark_comment hbefore,
    hwhole]
  obtain ⟨-, names, -, hwithin⟩ | ⟨document, hwithin⟩ := hbefore.within []
  · refine .inr ⟨Document.within names after.toList, ?_, ?_⟩
    · rw [hwithin, hparts.within_comment names hfirst hsecond hafter hinner, Document.after_after]
    · rw [hwithin, hparts.within_whole names hfirst hsecond hafter, String.ofList_append,
        Document.after_after]
  · exact .inl (by rw [hwithin, hwithin])

/-- The tokens of a document with a comment in a text, and of the one in which the text is ended
and opened again at this place. -/
theorem ofText_reopening {name attributes : String}
    (htag : Tag.Written name.toList attributes.toList)
    (hbefore : Leads (dropByteOrderMark before.toList) tokens
      (.opening ⟨name.toList, attributes.toList⟩)) :
    Document.ofText (before ++ first ++ comment inner ++ second ++ after) =
        Document.ofText (before ++ first ++ reopening name attributes ++ second ++ after) ∨
      ∃ document : Document,
        Document.ofText (before ++ first ++ comment inner ++ second ++ after) = document.after
          (tokens ++ [.opening ⟨name.toList, attributes.toList⟩, .text (String.ofList u), .aside,
            .text (String.ofList v)]) ∧
        Document.ofText (before ++ first ++ reopening name attributes ++ second ++ after) =
          document.after (tokens ++ [.opening ⟨name.toList, attributes.toList⟩,
            .text (String.ofList u), .closing name.toList,
            .opening ⟨name.toList, attributes.toList⟩, .text (String.ofList v)]) := by
  have hreopening : dropByteOrderMark
        (before ++ first ++ reopening name attributes ++ second ++ after).toList =
      dropByteOrderMark before.toList ++ (first.toList ++ '<' :: '/' :: (name.toList ++ '>' ::
        '<' :: (name.toList ++ attributes.toList ++ '>' ::
          (second.toList ++ after.toList)))) := by
    rw [← dropByteOrderMark_append_of_leads hbefore]
    simp [reopening]
  rw [Document.ofText_eq_within, Document.ofText_eq_within, dropByteOrderMark_comment hbefore,
    hreopening]
  obtain ⟨names, names', hnames, hwithin⟩ | ⟨document, hwithin⟩ := hbefore.within []
  · cases hnames
    refine .inr ⟨Document.within (name.toList :: names) after.toList, ?_, ?_⟩
    · rw [hwithin, hparts.within_comment _ hfirst hsecond hafter hinner]
      simp
    · rw [hwithin, hparts.within_first _ hfirst, htag.within_closing, htag.within_opening,
        hparts.within_second _ hsecond hafter]
      simp
  · exact .inl (by rw [hwithin, hwithin])

end Texts

end Markup

/-! ## Texts in slots -/

section Blanks

variable {drop : Char → Bool} {cs ds lead back : List Char}

theorem Text.stripEnds_between (hlead : ∀ c ∈ lead, drop c = true)
    (hback : ∀ c ∈ back, drop c = true) :
    Text.stripEnds drop (lead ++ (cs ++ back)) = Text.stripEnds drop cs := by
  rw [Text.stripEnds, Text.stripEnds, List.dropWhile_append_of_pos hlead, List.dropWhile_append]
  split
  · rename_i hcs
    rw [List.isEmpty_iff] at hcs
    rw [hcs, List.dropWhile_eq_nil_iff.mpr hback]
  · rw [List.reverse_append, List.dropWhile_append_of_pos (by simpa using hback)]

theorem dropWhile_append_cons {c : Char} (hc : drop c = false) :
    (cs ++ c :: ds).dropWhile drop = cs.dropWhile drop ++ c :: ds := by
  induction cs with
  | nil => simp [hc]
  | cons d cs ih =>
      cases hd : drop d with
      | true => simpa [hd] using ih
      | false => simp [hd]

/-- Texts that meet in characters which are kept are stripped one by one. -/
theorem Text.stripEnds_append (hcs : ∀ c ∈ cs.getLast?, drop c = false)
    (hds : ∀ d ∈ ds.head?, drop d = false) :
    Text.stripEnds drop (cs ++ ds) = Text.stripEnds drop cs ++ Text.stripEnds drop ds := by
  obtain rfl | ⟨front, c, rfl⟩ := cs.eq_nil_or_concat
  · rfl
  cases ds with
  | nil => simp [Text.stripEnds]
  | cons d inner =>
      have hc : drop c = false := hcs c (by simp)
      have hd : drop d = false := hds d rfl
      simp [Text.stripEnds, dropWhile_append_cons, hc, hd]

end Blanks

namespace Outline

variable {o : Outline} {slot : TextSlot} {a b : String}

/-- Whether a slot takes two texts for the one they make together. -/
def JoinsTexts (o : Outline) (slot : TextSlot) (a b : String) : Prop :=
  match slot with
  | .condition => True
  | .incoming | .outgoing => o.element = none
  | .timeDuration =>
    ∀ e ∈ o.element, ∀ duration, e.event = some (.timer duration) →
      Text.trim (a ++ b) = Text.trim a ++ Text.trim b

/-- Texts that meet in characters which are not blank are joined in every slot but those for
flows. -/
theorem joinsTexts_of_not_blank (hslot : slot ≠ .incoming ∧ slot ≠ .outgoing)
    (ha : ∀ c ∈ a.toList.getLast?, Text.isBlank c = false)
    (hb : ∀ c ∈ b.toList.head?, Text.isBlank c = false) : o.JoinsTexts slot a b := by
  cases slot with
  | condition => trivial
  | incoming => exact absurd rfl hslot.1
  | outgoing => exact absurd rfl hslot.2
  | timeDuration =>
      intro _ _ _ _
      simp [Text.trim, Text.stripEnds_append ha hb]

theorem appendToLast_append (texts : List String) (a b : String) :
    appendToLast (appendToLast texts a) b = appendToLast texts (a ++ b) := by
  induction texts with
  | nil => rfl
  | cons text texts ih =>
      cases texts with
      | nil => simp [appendToLast, String.append_assoc]
      | cons next texts =>
          cases hrest : appendToLast (next :: texts) a with
          | nil => cases texts <;> cases hrest
          | cons first rest => simp [appendToLast, ← ih, hrest]

theorem pushText_pushText :
    (o.pushText slot a).pushText slot b = o.pushText slot (a ++ b) ↔ o.JoinsTexts slot a b := by
  obtain ⟨head, inside, element, flow, _, messages, elements, flows⟩ := o
  cases slot with
  | condition => cases flow <;> simp [pushText, JoinsTexts, appendToLast_append]
  | incoming => cases element <;> simp [pushText, JoinsTexts]
  | outgoing => cases element <;> simp [pushText, JoinsTexts]
  | timeDuration =>
      cases element with
      | none => simp [pushText, JoinsTexts]
      | some e =>
          obtain ⟨event, hevent⟩ : ∃ event, event = e.event := ⟨_, rfl⟩
          rcases event with _ | ref | duration | link <;>
            simp [pushText, JoinsTexts, ← hevent, String.append_assoc, eq_comm]

/-- A duration loses a blank that a reference stands for, once a comment follows the reference. -/
example : ¬ JoinsTexts { start with element := some { Element.bare "t" "" .startEvent with
    event := some (.timer none) } } .timeDuration "P " "T5M" := by
  intro h
  exact absurd (h _ rfl none rfl) (by decide)

theorem pushText_slot (o : Outline) (slot : TextSlot) (a : String) :
    (o.pushText slot a).slot = o.slot := by
  cases slot <;> rfl

/-- A comment outside of references makes no difference in a slot that joins its texts. -/
theorem run_parts {first second : String}
    (h : ¬ Markup.InReference first.toList second.toList)
    (hjoins : ∀ slot ∈ o.slot, ∀ a ∈ Markup.unescape first, ∀ b ∈ Markup.unescape second,
      o.JoinsTexts slot a b) (more : List Markup.Token) :
    o.run (.text first :: .aside :: .text second :: more) =
      o.run (.text (first ++ second) :: more) := by
  cases hslot : o.slot with
  | none => simp [run, step, hslot]
  | some slot =>
      have hunescape := Markup.unescape_append h
      cases ha : Markup.unescape first with
      | none =>
          rw [ha, Option.bind_none] at hunescape
          simp [run, step, hslot, ha, hunescape]
      | some a =>
          cases hb : Markup.unescape second with
          | none =>
              rw [ha, hb, Option.bind_some, Option.map_none] at hunescape
              simp [run, step, hslot, ha, hb, hunescape, pushText_slot]
          | some b =>
              rw [ha, hb, Option.bind_some, Option.map_some] at hunescape
              have hpush := pushText_pushText.mpr (hjoins slot hslot a ha b hb)
              simp [run, step, hslot, ha, hb, hunescape, pushText_slot, hpush]

theorem pushText_inside (o : Outline) (slot : TextSlot) (a : String) :
    (o.pushText slot a).inside = o.inside := by
  cases slot <;> rfl

theorem pushText_element_isSome (o : Outline) (slot : TextSlot) (a : String) :
    (o.pushText slot a).element.isSome = o.element.isSome := by
  cases slot <;> simp [pushText]

/-- In an element the tags with a text open a slot and do nothing else. -/
theorem exists_openTag_eq {tag : Markup.Tag}
    (hname : String.ofList (Markup.localName tag.name) ∈
      ["incoming", "outgoing", "timeDuration"]) :
    ∃ slot, ∀ o : Outline, o.inside = true → o.element.isSome = true →
      o.openTag tag false = .ok { o with slot := some slot } := by
  generalize hlocal : String.ofList (Markup.localName tag.name) = name at hname
  simp only [List.mem_cons, List.not_mem_nil, or_false] at hname
  obtain ⟨slot, hopen⟩ : ∃ slot, ∀ (o : Outline) (e : Element),
      o.openInElement e name tag false = .ok { o with slot := some slot } := by
    obtain rfl | rfl | rfl := hname
    · exact ⟨.incoming, fun _ _ => rfl⟩
    · exact ⟨.outgoing, fun _ _ => rfl⟩
    · exact ⟨.timeDuration, fun _ _ => rfl⟩
  have hother : name ≠ "process" ∧ name ≠ "message" ∧ ElementKind.ofTag? name = none ∧
      name ≠ "sequenceFlow" ∧ name ≠ "conditionExpression" := by
    obtain rfl | rfl | rfl := hname <;> decide
  obtain ⟨hprocess, hmessage, hkind, hflow, hcondition⟩ := hother
  refine ⟨slot, fun o hinside helement => ?_⟩
  obtain ⟨e, he⟩ := Option.isSome_iff_exists.mp helement
  simp [openTag, openInProcess, hlocal, hprocess, hmessage, hkind, hflow, hcondition, hinside, he,
    hopen]

/-- In a text of an element, a comment and the two tags that end the text and open it again
stand for the same. -/
theorem run_reopening {tag : Markup.Tag}
    (hname : String.ofList (Markup.localName tag.name) ∈ ["incoming", "outgoing", "timeDuration"])
    (hinside : o.inside = true) (helement : o.element.isSome = true) (first : String)
    (more : List Markup.Token) :
    o.run (.opening tag :: .text first :: .aside :: more) =
      o.run (.opening tag :: .text first :: .closing tag.name :: .opening tag :: more) := by
  obtain ⟨slot, hopen⟩ := exists_openTag_eq hname
  have hslot : String.ofList (Markup.localName tag.name) ∈ slotTags := by
    simp only [List.mem_cons, List.not_mem_nil, or_false] at hname
    obtain hname | hname | hname := hname <;> rw [hname] <;> decide
  have hagain (o' : Outline) (hinside' : o'.inside = true) (helement' : o'.element.isSome = true)
      (hslot' : o'.slot = some slot) :
      (o'.close (String.ofList (Markup.localName tag.name))).openTag tag false = .ok o' := by
    rw [close_of_mem_slotTags o' hslot, hopen { o' with slot := none } hinside' helement', ← hslot']
  simp only [run, step, hopen o hinside helement]
  cases Markup.unescape first with
  | none => rfl
  | some a =>
      have hreopened := hagain ({ o with slot := some slot }.pushText slot a)
        (by rw [pushText_inside, hinside]) (by rw [pushText_element_isSome, helement])
        (by rw [pushText_slot])
      simp only [hreopened]

/-- Layout around the two texts makes no difference to a slot. -/
theorem JoinsTexts.of_layout {lead back : List Char} (hlead : ∀ c ∈ lead, Text.isLayout c = true)
    (hback : ∀ c ∈ back, Text.isLayout c = true)
    (h : o.JoinsTexts slot (String.ofList lead ++ a) (b ++ String.ofList back)) :
    o.JoinsTexts slot a b := by
  have htrim (lead cs back : List Char) (hlead : ∀ c ∈ lead, Text.isLayout c = true)
      (hback : ∀ c ∈ back, Text.isLayout c = true) :
      Text.stripEnds Text.isBlank (lead ++ (cs ++ back)) = Text.stripEnds Text.isBlank cs :=
    Text.stripEnds_between (fun c hc => Text.isBlank_of_isLayout (hlead c hc))
      fun c hc => Text.isBlank_of_isLayout (hback c hc)
  cases slot with
  | condition => trivial
  | incoming => exact h
  | outgoing => exact h
  | timeDuration =>
      intro e he duration hevent
      have hjoined := h e he duration hevent
      have hfirst := htrim lead a.toList [] hlead (by simp)
      have hsecond := htrim [] b.toList back (by simp) hback
      have hwhole := htrim lead (a.toList ++ b.toList) back hlead hback
      simp only [List.append_nil, List.nil_append, List.append_assoc] at hfirst hsecond hwhole
      simpa [Text.trim, hfirst, hsecond, hwhole] using hjoined

end Outline

namespace Markup

variable {first second : String} {lead u v back : List Char}

theorem Parts.unescape_first (h : Parts first.toList second.toList lead u v back) {a : String}
    (ha : unescape (String.ofList u) = some a) :
    unescape first = some (String.ofList lead ++ a) := by
  have hlead : '&' ∉ lead := fun hmem => absurd (h.lead_layout _ hmem) (by decide)
  have hplain : unescape (String.ofList lead) = some (String.ofList lead) := by
    simp [unescape, unescapeFrom_of_not_mem hlead]
  have houtside :
      ¬ InReference (String.ofList lead).toList (String.ofList u).toList :=
    not_inReference (by rwa [String.toList_ofList])
  have hfirst : first = String.ofList lead ++ String.ofList u := by
    rw [← String.ofList_append, ← h.first_eq, String.ofList_toList]
  rw [hfirst, unescape_append houtside, hplain, ha]
  rfl

theorem Parts.unescape_second (h : Parts first.toList second.toList lead u v back) {b : String}
    (hb : unescape (String.ofList v) = some b) :
    unescape second = some (b ++ String.ofList back) := by
  have hback (c : Char) (hc : Text.isLayout c = false) : c ∉ back := fun hmem => by
    rw [h.back_layout c hmem] at hc
    cases hc
  have hplain : unescape (String.ofList back) = some (String.ofList back) := by
    simp [unescape, unescapeFrom_of_not_mem (hback '&' (by decide))]
  have houtside :
      ¬ InReference (String.ofList v).toList (String.ofList back).toList := by
    rintro ⟨-, -, rest, after, -, hsecond, -⟩
    rw [String.toList_ofList] at hsecond
    exact hback ';' (by decide) (by simp [hsecond])
  have hsecond : second = String.ofList v ++ String.ofList back := by
    rw [← String.ofList_append, ← h.second_eq, String.ofList_toList]
  rw [hsecond, unescape_append houtside, hplain, hb]
  rfl

theorem Parts.outside (h : Parts first.toList second.toList lead u v back)
    (houtside : ¬ InReference first.toList second.toList) :
    ¬ InReference (String.ofList u).toList (String.ofList v).toList := by
  rw [h.first_eq, h.second_eq] at houtside
  rw [String.toList_ofList, String.toList_ofList]
  exact fun hparts => houtside ((hparts.append_left lead).append_right back)

end Markup

/-- Documents stand for the same if they go on alike behind the tokens they share. -/
theorem Diagram.ofDocument_congr {tokens middle middle' : List Markup.Token}
    {document : Markup.Document}
    (h : ∀ o, Outline.start.run tokens = .ok o →
      o.run (middle ++ document.tokens) = o.run (middle' ++ document.tokens)) :
    Diagram.ofDocument (document.after (tokens ++ middle)) =
      Diagram.ofDocument (document.after (tokens ++ middle')) := by
  have hrun : Outline.start.run (tokens ++ middle ++ document.tokens) =
      Outline.start.run (tokens ++ middle' ++ document.tokens) := by
    rw [List.append_assoc, List.append_assoc, Outline.run_append, Outline.run_append]
    cases hshared : Outline.start.run tokens with
    | error e => rfl
    | ok o => exact h o hshared
  rw [Diagram.ofDocument, Diagram.ofDocument, Markup.Document.after, Markup.Document.after, hrun]

/-- A comment between two characters of a text that are not blank, outside of references, makes no
difference where the slot that is open joins the two parts.  In the texts of an element it stands
for two tags that end the text and open it again. -/
theorem Diagram.ofMarkup_comment {before first second after inner : String}
    {tokens : List Markup.Token} {last : Markup.Token}
    (hbefore : Markup.Leads (Markup.dropByteOrderMark before.toList) tokens last)
    (hjoint : Markup.Joint first.toList second.toList)
    (hafter : ∀ c ∈ after.toList.head?, c = '<')
    (hinner : ¬ ['-', '-', '>'] <:+: inner.toList) :
    ((∀ o, Outline.start.run (tokens ++ [last]) = .ok o → ∀ slot ∈ o.slot,
        ∀ a ∈ Markup.unescape first, ∀ b ∈ Markup.unescape second, o.JoinsTexts slot a b) →
      Diagram.ofMarkup (before ++ first ++ Markup.comment inner ++ second ++ after) =
        Diagram.ofMarkup (before ++ first ++ second ++ after)) ∧
    ∀ name attributes : String, last = .opening ⟨name.toList, attributes.toList⟩ →
      Markup.Tag.Written name.toList attributes.toList →
      String.ofList (Markup.localName name.toList) ∈ ["incoming", "outgoing", "timeDuration"] →
      (∀ o, Outline.start.run tokens = .ok o → o.inside = true ∧ o.element.isSome = true) →
      Diagram.ofMarkup (before ++ first ++ Markup.comment inner ++ second ++ after) =
        Diagram.ofMarkup
          (before ++ first ++ Markup.reopening name attributes ++ second ++ after) := by
  obtain ⟨lead, u, v, back, hparts⟩ := hjoint.exists_parts
  constructor
  · intro hjoins
    rw [Diagram.ofMarkup, Diagram.ofMarkup]
    obtain hsame | ⟨document, hcomment, hwhole⟩ := Markup.ofText_comment hparts
      hjoint.first_text hjoint.second_text hafter hinner hbefore
    · rw [hsame]
    rw [hcomment, hwhole]
    refine Diagram.ofDocument_congr fun o hrun => ?_
    refine Outline.run_parts (hparts.outside hjoint.outside) ?_ document.tokens
    intro slot hslot a ha b hb
    exact (hjoins o hrun slot hslot _ (hparts.unescape_first ha) _
      (hparts.unescape_second hb)).of_layout hparts.lead_layout hparts.back_layout
  · rintro name attributes rfl htag hname hopen
    rw [Diagram.ofMarkup, Diagram.ofMarkup]
    obtain hsame | ⟨document, hcomment, hreopening⟩ := Markup.ofText_reopening hparts
      hjoint.first_text hjoint.second_text hafter hinner htag hbefore
    · rw [hsame]
    rw [hcomment, hreopening]
    refine Diagram.ofDocument_congr fun o hrun => ?_
    obtain ⟨hinside, helement⟩ := hopen o hrun
    exact Outline.run_reopening hname hinside helement _ _

/-! ## Two documents -/

section Documents

private theorem ok_of_toOption {ε α : Type} {x : Except ε α} {a : α} (h : x.toOption = some a) :
    x = .ok a := by
  cases x with
  | error e => cases h
  | ok b =>
      cases h
      rfl

private def pause : String :=
  "<process id='p'><intermediateCatchEvent id='t'><timerEventDefinition>"

private def pauseEnd : String :=
  "</timeDuration></timerEventDefinition></intermediateCatchEvent></process>"

private def pauseTokens : List Markup.Token :=
  [.opening ⟨"process".toList, " id='p'".toList⟩,
    .opening ⟨"intermediateCatchEvent".toList, " id='t'".toList⟩,
    .opening ⟨"timerEventDefinition".toList, []⟩]

private def pauseOpen : Outline :=
  { Outline.start with
    head := some ("p", ""), inside := true,
    element := some { Element.bare "t" "" .catchEvent with event := some (.timer none) } }

/-- A comment in a duration, between the days and the time. -/
theorem ofMarkup_comment_timeDuration :
    Markup.Leads (Markup.dropByteOrderMark (pause ++ "<timeDuration>").toList) pauseTokens
      (.opening ⟨"timeDuration".toList, "".toList⟩) ∧
    Outline.start.run pauseTokens = .ok pauseOpen ∧
    Diagram.ofMarkup (pause ++ "<timeDuration>" ++ " P1D" ++ Markup.comment " a day " ++ "T5M " ++
        pauseEnd) =
      Diagram.ofMarkup (pause ++ "<timeDuration>" ++ " P1D" ++ "T5M " ++ pauseEnd) ∧
    Diagram.ofMarkup (pause ++ "<timeDuration>" ++ " P1D" ++ Markup.comment " a day " ++ "T5M " ++
        pauseEnd) =
      Diagram.ofMarkup (pause ++ "<timeDuration>" ++ " P1D" ++
        Markup.reopening "timeDuration" "" ++ "T5M " ++ pauseEnd) := by
  have hpieces : Markup.Document.ofText pause = ⟨pauseTokens, true⟩ := by decide +kernel
  have hbefore : Markup.Leads (Markup.dropByteOrderMark (pause ++ "<timeDuration>").toList)
      pauseTokens (.opening ⟨"timeDuration".toList, "".toList⟩) :=
    ⟨pause.toList, "timeDuration>".toList, by decide +kernel, Markup.pieces_of_sound hpieces,
      Markup.readMarkup_eq_some.mp (by decide +kernel)⟩
  have hopen : Outline.start.run pauseTokens = .ok pauseOpen := ok_of_toOption (by decide +kernel)
  have hslot : Outline.start.run
      (pauseTokens ++ [.opening ⟨"timeDuration".toList, "".toList⟩]) =
      .ok { pauseOpen with slot := some .timeDuration } := ok_of_toOption (by decide +kernel)
  have hfirst : Markup.unescape " P1D" = some " P1D" := by decide
  have hsecond : Markup.unescape "T5M " = some "T5M " := by decide
  have hjoint : Markup.Joint " P1D".toList "T5M ".toList :=
    { first_text := by decide
      second_text := by decide
      last := ⟨'D', by decide, by decide⟩
      head := ⟨'T', by decide, by decide⟩
      outside := Markup.not_inReference (by decide) }
  have hend : ∀ c ∈ pauseEnd.toList.head?, c = '<' := by
    intro c hc
    cases hc
    rfl
  have hinner : ¬ ['-', '-', '>'] <:+: " a day ".toList := by decide +kernel
  have hcomment := Diagram.ofMarkup_comment hbefore hjoint hend hinner
  refine ⟨hbefore, hopen, hcomment.1 ?_,
    hcomment.2 "timeDuration" "" rfl (by decide +kernel) (by decide) ?_⟩
  · intro o ho slot hslot' a ha b hb
    cases hslot.symm.trans ho
    cases hslot'
    cases hfirst.symm.trans ha
    cases hsecond.symm.trans hb
    refine Outline.joinsTexts_of_not_blank (by decide) ?_ ?_
    · intro c hc
      cases hc
      rfl
    · intro c hc
      cases hc
      rfl
  · intro o ho
    cases hopen.symm.trans ho
    exact ⟨rfl, rfl⟩

private def fed (incoming : List String) : Diagram :=
  { id := "p", name := "", elements := [{ Element.bare "s" "" .startEvent with incoming }],
    flows := [], messages := [] }

/-- A comment in an incoming flow makes two of it. -/
theorem ofMarkup_comment_incoming :
    Markup.Joint "a".toList "b".toList ∧
    Diagram.ofMarkup ("<process id='p'><startEvent id='s'><incoming>" ++ "a" ++ "b" ++
      "</incoming></startEvent></process>") = .ok (fed ["ab"]) ∧
    Diagram.ofMarkup ("<process id='p'><startEvent id='s'><incoming>" ++ "a" ++
      Markup.comment "x" ++ "b" ++ "</incoming></startEvent></process>") = .ok (fed ["a", "b"]) ∧
    fed ["ab"] ≠ fed ["a", "b"] := by
  refine ⟨?_, ok_of_toOption (by decide +kernel), ok_of_toOption (by decide +kernel), by decide⟩
  exact
    { first_text := by decide
      second_text := by decide
      last := ⟨'a', by decide, by decide⟩
      head := ⟨'b', by decide, by decide⟩
      outside := Markup.not_inReference (by decide) }

end Documents

end ProcessEngine
