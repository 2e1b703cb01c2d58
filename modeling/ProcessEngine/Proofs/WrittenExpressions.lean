import ProcessEngine.Expr.Reader

/-!
# Written expressions

`Expr.write` gives the text of an expression.  Operators stand between single
spaces, and an operand is put into parentheses exactly where its own operator
binds less than its place asks for.  From `or` over `and`, the comparisons,
sums and products to the unary operators the binding grows; a left operand may
be of the level of its operator, a right one may not, and the operands of a
comparison are sums at least.

A writer may choose between two spellings of most operators, between the two
kinds of quotes, and whether a space follows a unary sign.  Every place of the
expression has a `Spelling` of its own.

Main statement: a written expression is `Solid`, so that blanks around it can
be told from it.
-/

namespace ProcessEngine

/-- The choices of a writer at one place of an expression. -/
structure Spelling where
  /-- The sign of an operator instead of its word, and the double sign of
  equality. -/
  sign : Bool
  /-- A space behind a unary sign. -/
  spaced : Bool
  /-- Double quotes where both kinds will do. -/
  double : Bool

/-- How much a connective binds. -/
def Connective.level : Connective → Nat
  | or => 0
  | and => 1

/-- How much an arithmetic operator binds. -/
def Arith.level : Arith → Nat
  | add | sub => 3
  | mul | div | rem => 4

theorem Connective.level_lt (op : Connective) : op.level < 2 := by cases op <;> decide

theorem Arith.level_lt (op : Arith) : 2 < op.level ∧ op.level < 5 := by
  cases op <;> exact ⟨by decide, by decide⟩

/-- A connective as it is written. -/
def Connective.spelled (s : Spelling) : Connective → List Char
  | or => if s.sign then ['|', '|'] else ['o', 'r']
  | and => if s.sign then ['&', '&'] else ['a', 'n', 'd']

/-- A comparison as it is written. -/
def Relation.spelled (s : Spelling) : Relation → List Char
  | eq => if s.sign then ['=', '='] else ['=']
  | ne => ['!', '=']
  | lt => ['<']
  | le => ['<', '=']
  | gt => ['>']
  | ge => ['>', '=']

/-- The sign of an arithmetic operator. -/
def Arith.spelled : Arith → List Char
  | add => ['+']
  | sub => ['-']
  | mul => ['*']
  | div => ['/']
  | rem => ['%']

/-- A step of a path as it is written. -/
def Segment.spelled : Segment → List Char
  | field name => '.' :: name.toList
  | index i => '[' :: (Nat.toDigits 10 i ++ [']'])

/-- The quote around a text: one that does not occur in it. -/
def Spelling.quote (s : Spelling) (text : List Char) : Char :=
  if '"' ∈ text then '\''
  else if '\'' ∈ text then '"'
  else if s.double then '"' else '\''

/-- A value as it is written.  Expressions have no literals for lists, objects
and numbers below zero. -/
def Json.spelled (s : Spelling) : Json → List Char
  | null => ['n', 'u', 'l', 'l']
  | bool true => ['t', 'r', 'u', 'e']
  | bool false => ['f', 'a', 'l', 's', 'e']
  | number (.whole n) => Nat.toDigits 10 n.toNat
  | string text => s.quote text.toList :: (text.toList ++ [s.quote text.toList])
  | number (.float _) | array _ | object _ => []

namespace Expr

/-- How much the outermost operator of an expression binds; a primary has
none. -/
def level : Expr → Nat
  | logic op _ _ => op.level
  | relation _ _ _ => 2
  | arith op _ _ => op.level
  | not _ | neg _ => 5
  | literal _ | path _ _ => 6

/-- The word or sign of negation. -/
def notSpelled (s : Spelling) : List Char :=
  if s.sign then '!' :: (if s.spaced then [' '] else []) else ['n', 'o', 't', ' ']

/-- The sign of the opposite number. -/
def negSpelled (s : Spelling) : List Char := '-' :: (if s.spaced then [' '] else [])

/-- An operand at a place that asks for a level: in parentheses where its own
level is below that. -/
def enclose (least level : Nat) (cs : List Char) : List Char :=
  if level < least then '(' :: (cs ++ [')']) else cs

/-- The text of an expression.  Places are told by the way that leads there:
`false` goes to the left or only operand, `true` to the right one. -/
def write (spell : List Bool → Spelling) : Expr → List Char
  | literal v => v.spelled (spell [])
  | path root steps => root.toList ++ steps.flatMap Segment.spelled
  | not e => notSpelled (spell []) ++ enclose 5 e.level (e.write fun w => spell (false :: w))
  | neg e => negSpelled (spell []) ++ enclose 5 e.level (e.write fun w => spell (false :: w))
  | logic op l r =>
    enclose op.level l.level (l.write fun w => spell (false :: w)) ++
      ' ' :: (op.spelled (spell []) ++
        ' ' :: enclose (op.level + 1) r.level (r.write fun w => spell (true :: w)))
  | relation op l r =>
    enclose 3 l.level (l.write fun w => spell (false :: w)) ++
      ' ' :: (op.spelled (spell []) ++
        ' ' :: enclose 3 r.level (r.write fun w => spell (true :: w)))
  | arith op l r =>
    enclose op.level l.level (l.write fun w => spell (false :: w)) ++
      ' ' :: (op.spelled ++
        ' ' :: enclose (op.level + 1) r.level (r.write fun w => spell (true :: w)))

/-- An ASCII letter or `_`, and then letters, digits and `_`. -/
def IsName (s : String) : Prop :=
  ∃ c cs, s.toList = c :: cs ∧ isNameStart c = true ∧ ∀ x ∈ cs, isNameChar x = true

/-- The words that are no variables. -/
def reserved : List String := ["true", "false", "null", "not", "and", "or"]

end Expr

/-- A value that a literal stands for. -/
def Json.Plain : Json → Prop
  | null | bool _ => True
  | number (.whole n) => 0 ≤ n ∧ n < 2 ^ 63
  | string text => ¬ ('"' ∈ text.toList ∧ '\'' ∈ text.toList)
  | number (.float _) | array _ | object _ => False

/-- A step that can be written in a path. -/
def Segment.Plain : Segment → Prop
  | field name => Expr.IsName name
  | index i => i < 2 ^ 64

/-- An expression whose leaves can be written. -/
def Expr.Plain : Expr → Prop
  | literal v => v.Plain
  | path root steps => IsName root ∧ root ∉ reserved ∧ ∀ step ∈ steps, step.Plain
  | not e | neg e => e.Plain
  | logic _ l r | relation _ l r | arith _ l r => l.Plain ∧ r.Plain

/-! ## Classes of characters -/

namespace Text

theorem isBlank_of_isNameChar {c : Char} (h : Expr.isNameChar c = true) : isBlank c = false := by
  have hrange : 48 ≤ c.toNat ∧ c.toNat ≤ 122 := by
    simp only [Expr.isNameChar, isLetter, isDigit, Bool.or_eq_true, decide_eq_true_eq, beq_iff_eq,
      Char.le_def, UInt32.le_iff_toNat_le] at h
    have hval : c.val.toNat = c.toNat := rfl
    rcases h with ((h | h) | h) | rfl
    all_goals first | (simp at h; omega) | decide
  simp only [isBlank, inRanges, blankRanges, List.any_cons, List.any_nil, Bool.or_false,
    Bool.or_eq_false_iff, decide_eq_false_iff_not]
  omega

theorem isNameChar_of_isNameStart {c : Char} (h : Expr.isNameStart c = true) :
    Expr.isNameChar c = true := by
  simp only [Expr.isNameStart, Expr.isNameChar, Bool.or_eq_true] at h ⊢
  rcases h with h | h
  · exact .inl (.inl h)
  · exact .inr h

theorem isNameChar_of_isDigit {c : Char} (h : isDigit c = true) : Expr.isNameChar c = true := by
  simp [Expr.isNameChar, h]

/-- A decimal digit is one by the library's own test. -/
theorem isDigit_of_mem_toDigits {n : Nat} {c : Char} (h : c ∈ Nat.toDigits 10 n) :
    isDigit c = true := by
  have hdigit := Nat.isDigit_of_mem_toDigits (by decide) (by decide) h
  simpa [Char.isDigit, isDigit, Char.le_def] using hdigit

theorem natOfDigits_toDigits (n : Nat) : natOfDigits (Nat.toDigits 10 n) = n :=
  Nat.ofDigitChars_toDigits (by decide) (by decide)

/-- A text between two characters that stay keeps all that is between blanks. -/
theorem stripEnds_around {drop : Char → Bool} {lead trail cs rest front : List Char} {c d : Char}
    (hlead : ∀ x ∈ lead, drop x = true) (htrail : ∀ x ∈ trail, drop x = true)
    (hhead : cs = c :: rest) (hc : drop c = false) (hlast : cs = front ++ [d])
    (hd : drop d = false) : stripEnds drop (lead ++ (cs ++ trail)) = cs := by
  have hfront : (lead ++ (cs ++ trail)).dropWhile drop = cs ++ trail := by
    rw [hhead, List.dropWhile_append_of_pos hlead, List.cons_append,
      List.dropWhile_cons_of_neg (by simp [hc])]
  have hback : (cs ++ trail).reverse.dropWhile drop = cs.reverse := by
    rw [hlast, List.reverse_append, List.dropWhile_append_of_pos (by simpa using htrail),
      List.reverse_append, List.reverse_singleton, List.singleton_append,
      List.dropWhile_cons_of_neg (by simp [hd])]
  rw [stripEnds, hfront, hback, List.reverse_reverse]

end Text

/-! ## Solid texts -/

/-- A text with no blank at either end, and no `=` in front. -/
structure Solid (cs : List Char) : Prop where
  head : ∃ c rest, cs = c :: rest ∧ Text.isBlank c = false ∧ c ≠ '='
  last : ∃ front c, cs = front ++ [c] ∧ Text.isBlank c = false

namespace Solid

theorem singleton {c : Char} (hblank : Text.isBlank c = false) (hsign : c ≠ '=') : Solid [c] :=
  ⟨⟨c, [], rfl, hblank, hsign⟩, ⟨[], c, rfl, hblank⟩⟩

/-- Between two solid texts there may be anything. -/
theorem around {front back : List Char} (hfront : Solid front) (middle : List Char)
    (hback : Solid back) : Solid (front ++ (middle ++ back)) := by
  obtain ⟨c, rest, rfl, hblank, hsign⟩ := hfront.head
  obtain ⟨init, d, rfl, hlast⟩ := hback.last
  exact ⟨⟨c, rest ++ (middle ++ (init ++ [d])), rfl, hblank, hsign⟩,
    ⟨(c :: rest) ++ (middle ++ init), d, by simp, hlast⟩⟩

theorem append {front back : List Char} (hfront : Solid front) (hback : Solid back) :
    Solid (front ++ back) :=
  hfront.around [] hback

/-- A text of name characters is solid. -/
theorem of_name (cs : List Char) (hne : cs ≠ []) (h : ∀ c ∈ cs, Expr.isNameChar c = true) :
    Solid cs := by
  have hsign : ∀ c ∈ cs, c ≠ '=' := by
    rintro c hc rfl
    exact absurd (h _ hc) (by decide)
  constructor
  · obtain ⟨c, rest, rfl⟩ := List.exists_cons_of_ne_nil hne
    have hmem : c ∈ c :: rest := List.mem_cons_self
    exact ⟨c, rest, rfl, Text.isBlank_of_isNameChar (h c hmem), hsign c hmem⟩
  · refine ⟨cs.dropLast, cs.getLast hne, (List.dropLast_concat_getLast hne).symm, ?_⟩
    exact Text.isBlank_of_isNameChar (h _ (List.getLast_mem hne))

theorem digits (n : Nat) : Solid (Nat.toDigits 10 n) :=
  of_name _ Nat.toDigits_ne_nil fun _ hc =>
    Text.isNameChar_of_isDigit (Text.isDigit_of_mem_toDigits hc)

/-- No layout stands in front of a solid text. -/
theorem skipLayout {cs : List Char} (h : Solid cs) (rest : List Char) :
    skipLayout (cs ++ rest) = cs ++ rest := by
  obtain ⟨c, tail, rfl, hblank, -⟩ := h.head
  cases hlayout : Text.isLayout c with
  | true =>
      rw [Text.isBlank_of_isLayout hlayout] at hblank
      cases hblank
  | false => simp [ProcessEngine.skipLayout, hlayout]

/-- Blanks at the ends are all that a solid text loses. -/
theorem stripEnds {cs lead trail : List Char} (h : Solid cs)
    (hlead : ∀ c ∈ lead, Text.isBlank c = true) (htrail : ∀ c ∈ trail, Text.isBlank c = true) :
    Text.stripEnds Text.isBlank (lead ++ (cs ++ trail)) = cs := by
  obtain ⟨c, rest, hhead, hblank, -⟩ := h.head
  obtain ⟨front, d, hlast, hend⟩ := h.last
  exact Text.stripEnds_around hlead htrail hhead hblank hlast hend

end Solid

namespace Expr

theorem IsName.chars {s : String} (h : IsName s) :
    s.toList ≠ [] ∧ ∀ c ∈ s.toList, isNameChar c = true := by
  obtain ⟨c, cs, hs, hstart, hcs⟩ := h
  rw [hs]
  refine ⟨List.cons_ne_nil c cs, fun x hx => ?_⟩
  rcases List.mem_cons.mp hx with rfl | hx
  · exact Text.isNameChar_of_isNameStart hstart
  · exact hcs x hx

theorem IsName.solid {s : String} (h : IsName s) : Solid s.toList :=
  .of_name s.toList h.chars.1 h.chars.2

theorem solid_enclose {cs : List Char} (h : Solid cs) (least level : Nat) :
    Solid (enclose least level cs) := by
  unfold enclose
  split
  · exact (Solid.singleton (by decide) (by decide)).around cs (.singleton (by decide) (by decide))
  · exact h

end Expr

/-- A written step of a path ends in a name, in a digit or in a bracket. -/
theorem Segment.Plain.solid {step : Segment} (h : step.Plain) : Solid step.spelled := by
  cases step with
  | field name =>
      exact (Solid.singleton (c := '.') (by decide) (by decide)).append (Expr.IsName.solid h)
  | index i =>
      exact (Solid.singleton (by decide) (by decide)).around (Nat.toDigits 10 i)
        (.singleton (by decide) (by decide))

theorem Spelling.quote_cases (s : Spelling) (text : List Char) :
    s.quote text = '"' ∨ s.quote text = '\'' := by
  unfold quote
  split
  · exact .inr rfl
  · split
    · exact .inl rfl
    · split
      · exact .inl rfl
      · exact .inr rfl

/-- The quote around a text does not occur in it, if one of the two does not. -/
theorem Spelling.quote_not_mem {text : List Char} (h : ¬ ('"' ∈ text ∧ '\'' ∈ text))
    (s : Spelling) : s.quote text ∉ text := by
  unfold quote
  by_cases hdouble : '"' ∈ text
  · rw [if_pos hdouble]
    exact fun hsingle => h ⟨hdouble, hsingle⟩
  · rw [if_neg hdouble]
    by_cases hsingle : '\'' ∈ text
    · rw [if_pos hsingle]
      exact hdouble
    · rw [if_neg hsingle]
      split
      · exact hdouble
      · exact hsingle

theorem Json.Plain.solid {v : Json} (h : v.Plain) (s : Spelling) : Solid (v.spelled s) := by
  cases v with
  | null => exact .of_name ['n', 'u', 'l', 'l'] (by decide) (List.all_eq_true.mp rfl)
  | bool b =>
      cases b with
      | true => exact .of_name ['t', 'r', 'u', 'e'] (by decide) (List.all_eq_true.mp rfl)
      | false => exact .of_name ['f', 'a', 'l', 's', 'e'] (by decide) (List.all_eq_true.mp rfl)
  | number n =>
      cases n with
      | whole n => exact .digits n.toNat
      | float x => cases h
  | string text =>
      have hquote : Solid [s.quote text.toList] := by
        rcases s.quote_cases text.toList with hq | hq <;> rw [hq] <;>
          exact .singleton (by decide) (by decide)
      exact hquote.around text.toList hquote
  | array xs => cases h
  | object fields => cases h

/-- **A written expression is solid.** -/
theorem Expr.Plain.solid {e : Expr} (h : e.Plain) (spell : List Bool → Spelling) :
    Solid (e.write spell) := by
  induction e generalizing spell with
  | literal v => exact Json.Plain.solid h (spell [])
  | path root steps =>
      obtain ⟨hroot, -, hsteps⟩ := h
      have hall : ∀ (front : List Char) (more : List Segment), Solid front →
          (∀ step ∈ more, step.Plain) → Solid (front ++ more.flatMap Segment.spelled) := by
        intro front more
        induction more generalizing front with
        | nil =>
            intro hfront _
            simpa using hfront
        | cons step more ih =>
            intro hfront hmore
            have hstep := (hmore step List.mem_cons_self).solid
            rw [List.flatMap_cons, ← List.append_assoc]
            exact ih _ (hfront.append hstep) fun s hs => hmore s (List.mem_cons_of_mem _ hs)
      exact hall _ steps hroot.solid hsteps
  | not e ih =>
      have hoperand := solid_enclose (ih h fun w => spell (false :: w)) 5 e.level
      unfold write notSpelled
      split
      · exact (Solid.singleton (by decide) (by decide)).around _ hoperand
      · have hnot := Solid.of_name ['n', 'o', 't'] (by decide) (List.all_eq_true.mp rfl)
        exact hnot.around [' '] hoperand
  | neg e ih =>
      have hoperand := solid_enclose (ih h fun w => spell (false :: w)) 5 e.level
      exact (Solid.singleton (by decide) (by decide)).around _ hoperand
  | logic op l r ihl ihr =>
      have hl := solid_enclose (ihl h.1 fun w => spell (false :: w)) op.level l.level
      have hr := solid_enclose (ihr h.2 fun w => spell (true :: w)) (op.level + 1) r.level
      have hall := hl.around (' ' :: (op.spelled (spell []) ++ [' '])) hr
      simpa [write] using hall
  | relation op l r ihl ihr =>
      have hl := solid_enclose (ihl h.1 fun w => spell (false :: w)) 3 l.level
      have hr := solid_enclose (ihr h.2 fun w => spell (true :: w)) 3 r.level
      have hall := hl.around (' ' :: (op.spelled (spell []) ++ [' '])) hr
      simpa [write] using hall
  | arith op l r ihl ihr =>
      have hl := solid_enclose (ihl h.1 fun w => spell (false :: w)) op.level l.level
      have hr := solid_enclose (ihr h.2 fun w => spell (true :: w)) (op.level + 1) r.level
      have hall := hl.around (' ' :: (op.spelled ++ [' '])) hr
      simpa [write] using hall

end ProcessEngine
