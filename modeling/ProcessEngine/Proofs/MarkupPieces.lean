import ProcessEngine.Markup.Token

/-!
# Pieces of markup

The reader of a document takes one piece after another off the front of the
text: a tag, a section, a comment, or the text up to the next piece.  Where a
piece ends does not hang on what stands behind it, so a text of whole pieces is
read in the same way whatever markup follows.

Main statements: `readMarkup_append`, by which a piece is read alike in front of
any text, and `within_append`, by which the reader comes to the end of some
whole pieces or has stopped before, in both cases without a look at what
follows.
-/

namespace ProcessEngine

/-! ## Words -/

section Words

variable {word cs rest : List Char}

theorem length_dropWord? (h : dropWord? word cs = some rest) :
    cs.length = word.length + rest.length := by
  induction word generalizing cs with
  | nil =>
      cases h
      simp
  | cons w word ih =>
      cases cs with
      | nil => cases h
      | cons c cs =>
          rw [dropWord?] at h
          split at h
          · have hlength := ih h
            simp only [List.length_cons]
            omega
          · cases h

theorem dropWord?_append (h : dropWord? word cs = some rest) (more : List Char) :
    dropWord? word (cs ++ more) = some (rest ++ more) := by
  induction word generalizing cs with
  | nil =>
      cases h
      rfl
  | cons w word ih =>
      cases cs with
      | nil => cases h
      | cons c cs =>
          rw [dropWord?] at h
          rw [List.cons_append, dropWord?]
          split at h
          · rename_i hw
            rw [if_pos hw]
            exact ih h
          · cases h

/-- A text that is long enough to show the word does not come to start with it. -/
theorem dropWord?_append_eq_none (h : dropWord? word cs = none)
    (hlength : word.length ≤ cs.length) (more : List Char) :
    dropWord? word (cs ++ more) = none := by
  induction word generalizing cs with
  | nil => cases h
  | cons w word ih =>
      cases cs with
      | nil => simp at hlength
      | cons c cs =>
          rw [dropWord?] at h
          rw [List.cons_append, dropWord?]
          split at h
          · rename_i hw
            rw [if_pos hw]
            exact ih h (by simpa using hlength)
          · rename_i hw
            rw [if_neg hw]

end Words

namespace Markup

section Pieces

variable {cs rest body : List Char}

theorem dropWordAnyCase?_append {word : List Char}
    (h : dropWordAnyCase? word cs = some rest) (more : List Char) :
    dropWordAnyCase? word (cs ++ more) = some (rest ++ more) := by
  induction word generalizing cs with
  | nil =>
      cases h
      rfl
  | cons w word ih =>
      cases cs with
      | nil => cases h
      | cons c cs =>
          rw [dropWordAnyCase?] at h
          rw [List.cons_append, dropWordAnyCase?]
          split at h
          · rename_i hw
            rw [if_pos hw]
            exact ih h
          · cases h

theorem length_le_of_dropWordAnyCase? {word : List Char}
    (h : dropWordAnyCase? word cs = some rest) : rest.length ≤ cs.length := by
  induction word generalizing cs with
  | nil =>
      cases h
      exact Nat.le_refl _
  | cons w word ih =>
      cases cs with
      | nil => cases h
      | cons c cs =>
          rw [dropWordAnyCase?] at h
          split at h
          · exact Nat.le_succ_of_le (ih h)
          · cases h

theorem length_breakOn {mark : List Char} (h : breakOn mark cs = some (body, rest)) :
    mark.length + rest.length ≤ cs.length := by
  induction cs generalizing body with
  | nil => cases h
  | cons c cs ih =>
      rw [breakOn] at h
      split at h
      · rename_i hword
        cases h
        exact Nat.le_of_eq (length_dropWord? hword).symm
      · obtain ⟨⟨before, after⟩, hbreak, heq⟩ := Option.map_eq_some_iff.mp h
        cases heq
        have hlength := ih hbreak
        simp only [List.length_cons]
        omega

theorem breakOn_append {mark : List Char} (h : breakOn mark cs = some (body, rest))
    (more : List Char) : breakOn mark (cs ++ more) = some (body, rest ++ more) := by
  induction cs generalizing body with
  | nil => cases h
  | cons c cs ih =>
      rw [breakOn] at h
      rw [List.cons_append, breakOn, ← List.cons_append]
      split at h
      · rename_i hword
        cases h
        rw [dropWord?_append hword]
      · rename_i hword
        obtain ⟨⟨before, after⟩, hbreak, heq⟩ := Option.map_eq_some_iff.mp h
        cases heq
        -- the mark stands further on, so there is room for it here
        have hlength := length_breakOn hbreak
        rw [dropWord?_append_eq_none hword (by simp only [List.length_cons]; omega)]
        simp only [ih hbreak, Option.map_some]

theorem tagBody_append {open? : Option Char} (h : tagBody open? cs = some (body, rest))
    (more : List Char) : tagBody open? (cs ++ more) = some (body, rest ++ more) := by
  induction cs generalizing open? body with
  | nil => cases h
  | cons c cs ih =>
      cases open? with
      | some mark =>
          obtain ⟨⟨inner, after⟩, hinner, heq⟩ := Option.map_eq_some_iff.mp h
          cases heq
          simp only [List.cons_append, tagBody, ih hinner, Option.map_some]
      | none =>
          by_cases hc : c = '>'
          · subst hc
            cases h
            rfl
          · simp only [tagBody, if_neg hc] at h
            obtain ⟨⟨inner, after⟩, hinner, heq⟩ := Option.map_eq_some_iff.mp h
            cases heq
            simp only [List.cons_append, tagBody, if_neg hc, ih hinner, Option.map_some]

theorem length_lt_of_tagBody {open? : Option Char} (h : tagBody open? cs = some (body, rest)) :
    rest.length < cs.length := by
  induction cs generalizing open? body with
  | nil => cases h
  | cons c cs ih =>
      cases open? with
      | some mark =>
          obtain ⟨⟨inner, after⟩, hinner, heq⟩ := Option.map_eq_some_iff.mp h
          cases heq
          exact Nat.lt_succ_of_lt (ih hinner)
      | none =>
          by_cases hc : c = '>'
          · subst hc
            cases h
            exact Nat.lt_succ_self _
          · simp only [tagBody, if_neg hc] at h
            obtain ⟨⟨inner, after⟩, hinner, heq⟩ := Option.map_eq_some_iff.mp h
            cases heq
            exact Nat.lt_succ_of_lt (ih hinner)

theorem doctypeBody_append {depth : Nat} (h : doctypeBody depth cs = some (body, rest))
    (more : List Char) : doctypeBody depth (cs ++ more) = some (body, rest ++ more) := by
  induction cs generalizing depth body with
  | nil => cases h
  | cons c cs ih =>
      rw [doctypeBody] at h
      rw [List.cons_append, doctypeBody]
      split at h
      · rename_i hc
        cases h
        rw [if_pos hc]
      · rename_i hc
        obtain ⟨⟨inner, after⟩, hinner, heq⟩ := Option.map_eq_some_iff.mp h
        cases heq
        rw [if_neg hc]
        simp only [ih hinner, Option.map_some]

theorem length_lt_of_doctypeBody {depth : Nat} (h : doctypeBody depth cs = some (body, rest)) :
    rest.length < cs.length := by
  induction cs generalizing depth body with
  | nil => cases h
  | cons c cs ih =>
      rw [doctypeBody] at h
      split at h
      · cases h
        exact Nat.lt_succ_self _
      · obtain ⟨⟨inner, after⟩, hinner, heq⟩ := Option.map_eq_some_iff.mp h
        cases heq
        exact Nat.lt_succ_of_lt (ih hinner)

/-! ## One piece -/

/-- What `readMarkup` reads off the front of a text. -/
inductive ReadsMarkup : List Char → Token → List Char → Prop
  | comment {inner cs rest : List Char} (h : breakOn ['-', '-', '>'] cs = some (inner, rest)) :
      ReadsMarkup ('!' :: '-' :: '-' :: cs) .aside rest
  | data {raw cs inner rest : List Char}
      (hword : dropWord? ['C', 'D', 'A', 'T', 'A', '['] cs = some inner)
      (h : breakOn [']', ']', '>'] inner = some (raw, rest)) :
      ReadsMarkup ('!' :: '[' :: cs) (.data (String.ofList raw)) rest
  | doctype {c : Char} {cs inner body rest : List Char} (hc : c ≠ '-' ∧ c ≠ '[')
      (hword : dropWordAnyCase? ['D', 'O', 'C', 'T', 'Y', 'P', 'E'] (c :: cs) = some inner)
      (h : doctypeBody 0 inner = some (body, rest)) (hbody : body.all Text.isLayout = false) :
      ReadsMarkup ('!' :: c :: cs) .aside rest
  | instruction {c : Char} {cs inner rest : List Char} (hc : c ≠ '>')
      (h : breakOn ['?', '>'] (c :: cs) = some (inner, rest)) :
      ReadsMarkup ('?' :: c :: cs) .aside rest
  | tag {c : Char} {cs body rest : List Char} (hc : c ≠ '!' ∧ c ≠ '?')
      (h : tagBody none (c :: cs) = some (body, rest)) : ReadsMarkup (c :: cs) (tagToken body) rest

theorem readMarkup_eq_some {cs rest : List Char} {token : Token} :
    readMarkup cs = some (token, rest) ↔ ReadsMarkup cs token rest := by
  constructor
  · intro h
    rw [readMarkup.eq_def] at h
    split at h
    · obtain ⟨⟨inner, after⟩, hbreak, heq⟩ := Option.map_eq_some_iff.mp h
      cases heq
      exact .comment hbreak
    · split at h
      · rename_i hword
        obtain ⟨⟨raw, after⟩, hbreak, heq⟩ := Option.map_eq_some_iff.mp h
        cases heq
        exact .data hword hbreak
      · cases h
    · rename_i following _ hdata
      split at h
      · rename_i inner hword
        split at h
        · rename_i body after hbody
          split at h
          · cases h
          · rename_i hlayout
            cases h
            cases following with
            | nil => cases hword
            | cons c cs =>
                refine .doctype ⟨?_, ?_⟩ hword hbody (by simpa using hlayout)
                · rintro rfl
                  rw [dropWordAnyCase?, if_neg (by decide)] at hword
                  cases hword
                · rintro rfl
                  exact hdata _ rfl
        · cases h
      · cases h
    · cases h
    · rename_i following hend
      obtain ⟨⟨inner, after⟩, hbreak, heq⟩ := Option.map_eq_some_iff.mp h
      cases heq
      cases following with
      | nil => cases hbreak
      | cons c cs => exact .instruction (fun hc => hend cs (by rw [hc])) hbreak
    · rename_i hcomment hdata hdeclaration hend hinstruction
      obtain ⟨⟨body, after⟩, hbody, heq⟩ := Option.map_eq_some_iff.mp h
      cases heq
      cases cs with
      | nil => cases hbody
      | cons c cs =>
          exact .tag ⟨fun hc => hdeclaration cs (by rw [hc]),
            fun hc => hinstruction cs (by rw [hc])⟩ hbody
  · rintro (h | ⟨hword, h⟩ | ⟨hc, hword, h, hbody⟩ | ⟨hc, h⟩ | ⟨hc, h⟩)
    · simp [readMarkup, h]
    · simp [readMarkup, hword, h]
    · simp [readMarkup, hc.1, hc.2, hword, h, hbody]
    · simp [readMarkup, hc, h]
    · simp [readMarkup, hc, h]

/-- A piece is read alike whatever stands behind it. -/
theorem readMarkup_append {token : Token} (h : ReadsMarkup cs token rest) (more : List Char) :
    ReadsMarkup (cs ++ more) token (rest ++ more) := by
  cases h with
  | comment h => exact .comment (breakOn_append h more)
  | data hword h => exact .data (dropWord?_append hword more) (breakOn_append h more)
  | doctype hc hword h hbody =>
      exact .doctype hc (dropWordAnyCase?_append hword more) (doctypeBody_append h more) hbody
  | instruction hc h => exact .instruction hc (breakOn_append h more)
  | tag hc h => exact .tag hc (tagBody_append h more)

theorem ReadsMarkup.length_lt {token : Token} (h : ReadsMarkup cs token rest) :
    rest.length < cs.length := by
  cases h with
  | comment h =>
      have := length_breakOn h
      simp only [List.length_cons] at this ⊢
      omega
  | data hword h =>
      have := length_dropWord? hword
      have := length_breakOn h
      simp only [List.length_cons] at *
      omega
  | doctype hc hword h hbody =>
      have := length_le_of_dropWordAnyCase? hword
      have := length_lt_of_doctypeBody h
      simp only [List.length_cons] at *
      omega
  | instruction hc h =>
      have := length_breakOn h
      simp only [List.length_cons] at *
      omega
  | tag hc h => exact length_lt_of_tagBody h

end Pieces

/-! ## The rest of a document -/

section Documents

variable {cs : List Char} {names : List (List Char)}

/-- The tokens of a text in which the names are open. -/
def Document.within (names : List (List Char)) (cs : List Char) : Document :=
  tokensFrom (cs.length + 1) names cs

/-- A document behind some more tokens. -/
def Document.after (tokens : List Token) (document : Document) : Document :=
  { document with tokens := tokens ++ document.tokens }

/-- The token of a text between tags. -/
def textToken (raw : List Char) : Token :=
  .text (String.ofList (raw.reverse.dropWhile Text.isLayout).reverse)

theorem length_skipLayout_le (cs : List Char) : (skipLayout cs).length ≤ cs.length :=
  (List.dropWhile_sublist _).length_le

theorem length_dropWhile_lt {c : Char} (inner : List Char) (hc : c ≠ '<') :
    ((c :: inner).dropWhile (· != '<')).length < (c :: inner).length := by
  rw [List.dropWhile_cons_of_pos (by simpa using hc)]
  exact Nat.lt_succ_of_le (List.dropWhile_sublist _).length_le

/-- Fuel beyond the length of the text makes no difference. -/
theorem tokensFrom_eq_of_length_lt {fuel : Nat} (fuel' : Nat) (h : cs.length < fuel)
    (h' : cs.length < fuel') : tokensFrom fuel names cs = tokensFrom fuel' names cs := by
  induction fuel generalizing cs names fuel' with
  | zero => exact absurd h (Nat.not_lt_zero _)
  | succ fuel ih =>
      obtain _ | fuel' := fuel'
      · exact absurd h' (Nat.not_lt_zero _)
      · rw [tokensFrom, tokensFrom]
        have hskip := length_skipLayout_le cs
        cases hrest : skipLayout cs with
        | nil => rfl
        | cons c inner =>
            rw [hrest, List.length_cons] at hskip
            by_cases hc : c = '<'
            · simp only [if_pos hc]
              cases hread : readMarkup inner with
              | none => rfl
              | some piece =>
                  obtain ⟨token, rest⟩ := piece
                  have hlength := (readMarkup_eq_some.mp hread).length_lt
                  cases hnames : openNames names token with
                  | none => simp only [hnames]
                  | some names' =>
                      simp only [hnames]
                      rw [ih fuel' (by omega) (by omega)]
            · have hlength := length_dropWhile_lt inner hc
              rw [List.length_cons] at hlength
              simp only [if_neg hc]
              rw [ih fuel' (by omega) (by omega)]

/-- Layout in front of a text makes no difference. -/
theorem within_congr {cs' : List Char} (h : skipLayout cs = skipLayout cs') :
    Document.within names cs = Document.within names cs' := by
  have hfuel : tokensFrom (cs.length + cs'.length + 1) names cs =
      tokensFrom (cs.length + cs'.length + 1) names cs' := by
    rw [tokensFrom, tokensFrom, h]
  rw [Document.within, Document.within,
    tokensFrom_eq_of_length_lt (cs.length + cs'.length + 1) (by omega) (by omega), hfuel]
  exact tokensFrom_eq_of_length_lt _ (by omega) (by omega)

theorem within_markup (names : List (List Char)) {inner rest : List Char} {token : Token}
    (h : skipLayout cs = '<' :: inner)
    (hread : ReadsMarkup inner token rest) :
    Document.within names cs =
      match openNames names token with
      | none => ⟨[], false⟩
      | some names => (Document.within names rest).after [token] := by
  have hskip := length_skipLayout_le cs
  have hlength := hread.length_lt
  rw [h, List.length_cons] at hskip
  rw [Document.within, tokensFrom, h]
  simp only [if_pos, readMarkup_eq_some.mpr hread]
  cases openNames names token with
  | none => rfl
  | some names' =>
      simp only [Document.within, Document.after, List.singleton_append]
      rw [tokensFrom_eq_of_length_lt (rest.length + 1) (by omega) (by omega)]

theorem within_text (names : List (List Char)) {c : Char} {inner : List Char} (h : skipLayout cs = c :: inner)
    (hc : c ≠ '<') :
    Document.within names cs =
      (Document.within names ((c :: inner).dropWhile (· != '<'))).after
        [textToken ((c :: inner).takeWhile (· != '<'))] := by
  have hskip := length_skipLayout_le cs
  have hlength := length_dropWhile_lt inner hc
  rw [h, List.length_cons] at hskip
  rw [List.length_cons] at hlength
  rw [Document.within, tokensFrom, h]
  simp only [if_neg hc, Document.within, Document.after, List.singleton_append, textToken]
  rw [tokensFrom_eq_of_length_lt
    (((c :: inner).dropWhile (· != '<')).length + 1) (by omega) (by omega)]

/-! ## Whole pieces -/

/-- A text of whole pieces, with the tokens they stand for. -/
inductive Pieces : List Char → List Token → Prop
  | done {cs : List Char} (h : skipLayout cs = []) : Pieces cs []
  | markup {cs inner rest : List Char} {token : Token} {tokens : List Token}
      (h : skipLayout cs = '<' :: inner) (hread : ReadsMarkup inner token rest)
      (hrest : Pieces rest tokens) : Pieces cs (token :: tokens)
  | text {c : Char} {cs inner : List Char} {tokens : List Token}
      (h : skipLayout cs = c :: inner) (hc : c ≠ '<')
      (hrest : Pieces ((c :: inner).dropWhile (· != '<')) tokens) :
      Pieces cs (textToken ((c :: inner).takeWhile (· != '<')) :: tokens)

/-- What is read without a fault consists of whole pieces. -/
theorem pieces_of_sound {fuel : Nat} {tokens : List Token}
    (h : tokensFrom fuel names cs = ⟨tokens, true⟩) : Pieces cs tokens := by
  induction fuel generalizing names cs tokens with
  | zero => simp [tokensFrom] at h
  | succ fuel ih =>
      rw [tokensFrom] at h
      split at h
      · rename_i hrest
        cases h
        exact .done hrest
      · rename_i c inner hrest
        split at h
        · rename_i hc
          subst hc
          split at h
          · cases h
          · rename_i token rest hread
            split at h
            · cases h
            · rename_i names' hnames
              obtain ⟨rfl, hsound⟩ := Document.mk.inj h
              exact .markup hrest (readMarkup_eq_some.mp hread)
                (ih (congrArg (Document.mk _) hsound))
        · rename_i hc
          obtain ⟨rfl, hsound⟩ := Document.mk.inj h
          exact .text hrest hc (ih (congrArg (Document.mk _) hsound))

theorem skipLayout_append (cs tail : List Char) :
    skipLayout (cs ++ '<' :: tail) = skipLayout cs ++ '<' :: tail := by
  induction cs with
  | nil => rfl
  | cons c cs ih =>
      cases hc : Text.isLayout c with
      | true => simpa [skipLayout, List.dropWhile_cons, hc] using ih
      | false => simp [skipLayout, hc]

theorem textEnd_append (cs tail : List Char) :
    (cs ++ '<' :: tail).takeWhile (· != '<') = cs.takeWhile (· != '<') ∧
      (cs ++ '<' :: tail).dropWhile (· != '<') = cs.dropWhile (· != '<') ++ '<' :: tail := by
  induction cs with
  | nil => simp
  | cons c cs ih =>
      by_cases hc : c = '<'
      · simp [hc]
      · simpa [List.takeWhile_cons, List.dropWhile_cons, hc] using ih

@[simp] theorem Document.after_nil (document : Document) : document.after [] = document := rfl

@[simp] theorem Document.after_after (tokens more : List Token) (document : Document) :
    (document.after more).after tokens = document.after (tokens ++ more) := by
  simp [Document.after]

/-- What a text of whole pieces leaves to the reader: it goes on behind them
with some names open, or it has come to a fault among them. -/
theorem within_append {tokens : List Token} (h : Pieces cs tokens)
    (names : List (List Char)) :
    (∃ names', ∀ tail, Document.within names (cs ++ '<' :: tail) =
        (Document.within names' ('<' :: tail)).after tokens) ∨
      ∃ document, ∀ tail, Document.within names (cs ++ '<' :: tail) = document := by
  induction h generalizing names with
  | @done cs h =>
      refine .inl ⟨names, fun tail => ?_⟩
      rw [Document.after_nil]
      exact within_congr (by rw [skipLayout_append, h]; rfl)
  | @markup cs inner rest token tokens h hread hrest ih =>
      have hstep (tail : List Char) := within_markup names
        (skipLayout_append cs tail |>.trans (by rw [h]; rfl))
        (readMarkup_append hread ('<' :: tail))
      cases hnames : openNames names token with
      | none => exact .inr ⟨_, fun tail => by rw [hstep, hnames]⟩
      | some names' =>
          obtain ⟨names'', hrest⟩ | ⟨document, hrest⟩ := ih names'
          · exact .inl ⟨names'', fun tail => by rw [hstep, hnames]; simp [hrest]⟩
          · exact .inr ⟨document.after [token], fun tail => by rw [hstep, hnames]; simp [hrest]⟩
  | @text c cs inner tokens h hc hrest ih =>
      have hstep (tail : List Char) := within_text names
        (skipLayout_append cs tail |>.trans (by rw [h, List.cons_append])) hc
      simp only [← List.cons_append, textEnd_append] at hstep
      obtain ⟨names', hrest⟩ | ⟨document, hrest⟩ := ih names
      · exact .inl ⟨names', fun tail => by rw [hstep, hrest]; simp⟩
      · exact .inr ⟨document.after _, fun tail => by rw [hstep, hrest]⟩

end Documents

end Markup

end ProcessEngine
