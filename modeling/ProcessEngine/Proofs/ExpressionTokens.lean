import ProcessEngine.Proofs.WrittenExpressions

/-!
# Tokens of written expressions

Every reader of the expression grammar takes a token, or the text of an
expression, off the front of what it is given and stops there.  It must be known
what may stand behind: `Follows p rest` says that `rest` is at its end, closes a
parenthesis, or goes on with an operator that binds less than level `p`, so that
the readers from level `p` on leave it alone.

Main statements: the operators between their spaces, names, steps of paths,
numbers and quoted texts are read off the front of a text (`joins_*` and
`*_append`), and where a name or another literal stands, all readers that come
before the right one fail (`readUnary_name`, `readUnary_literal`).
-/

namespace ProcessEngine.Expr

/-! ## What stands behind -/

/-- What may stand behind an expression of a level, with nothing in it that
belongs to the expression. -/
inductive Follows (p : Nat) : List Char → Prop
  | nil : Follows p []
  | close (rest : List Char) : Follows p (')' :: rest)
  | logic (op : Connective) (s : Spelling) (h : op.level < p) (rest : List Char) :
      Follows p (' ' :: (op.spelled s ++ ' ' :: rest))
  | relation (op : Relation) (s : Spelling) (h : 2 < p) (rest : List Char) :
      Follows p (' ' :: (op.spelled s ++ ' ' :: rest))
  | arith (op : Arith) (h : op.level < p) (rest : List Char) :
      Follows p (' ' :: (op.spelled ++ ' ' :: rest))

/-- No name goes on here. -/
def Apart (rest : List Char) : Prop := ∀ c tail, rest = c :: tail → isNameChar c = false

theorem Follows.mono {p q : Nat} {rest : List Char} (h : Follows p rest) (hpq : p ≤ q) :
    Follows q rest := by
  cases h with
  | nil => exact .nil
  | close rest => exact .close rest
  | logic op s h rest => exact .logic op s (by omega) rest
  | relation op s h rest => exact .relation op s (by omega) rest
  | arith op h rest => exact .arith op (by omega) rest

/-- A space, a parenthesis or the end: no token goes on there. -/
theorem Follows.cases {p : Nat} {rest : List Char} (h : Follows p rest) :
    rest = [] ∨ ∃ c tail, rest = c :: tail ∧ (c = ' ' ∨ c = ')') := by
  cases h with
  | nil => exact .inl rfl
  | close rest => exact .inr ⟨_, _, rfl, .inr rfl⟩
  | _ => exact .inr ⟨_, _, rfl, .inl rfl⟩

theorem Follows.apart {p : Nat} {rest : List Char} (h : Follows p rest) : Apart rest := by
  rintro c tail rfl
  rcases h.cases with hnil | ⟨d, more, heq, hd⟩
  · cases hnil
  · obtain ⟨rfl, rfl⟩ := List.cons.inj heq
    rcases hd with rfl | rfl <;> decide

/-! ## Operators -/

/-- A text that is read as an operator between two spaces. -/
def Joins {ω : Type} (op : Reader ω) (o : ω) (w : List Char) : Prop :=
  ∀ rest, skipLayout (' ' :: (w ++ ' ' :: rest)) = w ++ ' ' :: rest ∧
    spaced op (w ++ ' ' :: rest) = some (o, skipLayout rest)

/-- The reader of the signs of a connective. -/
def connectiveSign : Connective → Reader Connective
  | .or => orSign
  | .and => andSign

/-- The reader of the signs that bind as much as an arithmetic operator. -/
def arithSign : Arith → Reader Arith
  | .add | .sub => sumSign
  | .mul | .div | .rem => productSign

theorem joins_connective (s : Spelling) (op : Connective) :
    Joins (connectiveSign op) op (op.spelled s) := by
  intro rest
  obtain ⟨sign, _, _⟩ := s
  cases op <;> cases sign <;> exact ⟨rfl, rfl⟩

theorem joins_relation (s : Spelling) (op : Relation) : Joins relationSign op (op.spelled s) := by
  intro rest
  obtain ⟨sign, _, _⟩ := s
  cases sign <;> cases op <;> exact ⟨rfl, rfl⟩

theorem joins_arith (op : Arith) : Joins (arithSign op) op op.spelled := by
  intro rest
  cases op <;> exact ⟨rfl, rfl⟩

section Operators

variable {rest : List Char}

/-- Disjunctions and conjunctions end before what binds less. -/
theorem Follows.connectiveSign {op : Connective} (h : Follows op.level rest) :
    spaced (connectiveSign op) (skipLayout rest) = none := by
  cases op with
  | or =>
      cases h with
      | nil => rfl
      | close rest => rfl
      | logic op s h => cases op <;> exact absurd h (by decide)
      | relation op s h => exact absurd h (by decide)
      | arith op h => cases op <;> exact absurd h (by decide)
  | and =>
      cases h with
      | nil => rfl
      | close rest => rfl
      | logic op s h =>
          obtain ⟨sign, _, _⟩ := s
          cases op with
          | or => cases sign <;> rfl
          | and => exact absurd h (by decide)
      | relation op s h => exact absurd h (by decide)
      | arith op h => cases op <;> exact absurd h (by decide)

theorem Follows.relationSign (h : Follows 2 rest) :
    spaced relationSign (skipLayout rest) = none := by
  cases h with
  | nil => rfl
  | close rest => rfl
  | logic op s h =>
      obtain ⟨sign, _, _⟩ := s
      cases op <;> cases sign <;> rfl
  | relation op s h => exact absurd h (by decide)
  | arith op h => cases op <;> exact absurd h (by decide)

theorem Follows.sumSign (h : Follows 3 rest) : spaced sumSign (skipLayout rest) = none := by
  cases h with
  | nil => rfl
  | close rest => rfl
  | logic op s h =>
      obtain ⟨sign, _, _⟩ := s
      cases op <;> cases sign <;> rfl
  | relation op s h =>
      obtain ⟨sign, _, _⟩ := s
      cases op <;> cases sign <;> rfl
  | arith op h => cases op <;> exact absurd h (by decide)

theorem Follows.productSign (h : Follows 4 rest) :
    spaced productSign (skipLayout rest) = none := by
  cases h with
  | nil => rfl
  | close rest => rfl
  | logic op s h =>
      obtain ⟨sign, _, _⟩ := s
      cases op <;> cases sign <;> rfl
  | relation op s h =>
      obtain ⟨sign, _, _⟩ := s
      cases op <;> cases sign <;> rfl
  | arith op h =>
      cases op with
      | add => rfl
      | sub => rfl
      | _ => exact absurd h (by decide)

/-- Sums and products end before what binds less. -/
theorem Follows.arithSign {op : Arith} (h : Follows op.level rest) :
    spaced (arithSign op) (skipLayout rest) = none := by
  cases op with
  | add | sub => exact h.sumSign
  | mul | div | rem => exact h.productSign

end Operators

/-! ## Tokens -/

/-- A run of characters of a class ends where the next one is not in it. -/
theorem span_append {p : Char → Bool} (cs : List Char) {rest : List Char}
    (hcs : ∀ c ∈ cs, p c = true) (hrest : ∀ c tail, rest = c :: tail → p c = false) :
    (cs ++ rest).takeWhile p = cs ∧ (cs ++ rest).dropWhile p = rest := by
  rw [List.takeWhile_append_of_pos hcs, List.dropWhile_append_of_pos hcs]
  cases rest with
  | nil => exact ⟨List.append_nil cs, rfl⟩
  | cons c tail =>
      have hc : ¬ p c = true := by simp [hrest c tail rfl]
      rw [List.takeWhile_cons_of_neg hc, List.dropWhile_cons_of_neg hc]
      exact ⟨List.append_nil cs, rfl⟩

section Tokens

variable {rest : List Char}

theorem Apart.not_digit (h : Apart rest) (c : Char) (tail : List Char) (heq : rest = c :: tail) :
    Text.isDigit c = false := by
  cases hdigit : Text.isDigit c with
  | false => rfl
  | true =>
      have hchar := h c tail heq
      rw [Text.isNameChar_of_isDigit hdigit] at hchar
      cases hchar

/-- A word is read just where it stands as a whole name. -/
theorem word_append {α : Type} (meaning : α) (hrest : Apart rest) {text name : List Char}
    (htext : ∀ c ∈ text, isNameChar c = true) (hname : ∀ c ∈ name, isNameChar c = true) :
    word text meaning (name ++ rest) = if name = text then some (meaning, rest) else none := by
  induction text generalizing name with
  | nil =>
      cases name with
      | nil =>
          cases rest with
          | nil => rfl
          | cons c tail => simp [word, dropWord?, hrest c tail rfl]
      | cons c cs => simp [word, dropWord?, hname c List.mem_cons_self]
  | cons w ws ih =>
      have hw := htext w List.mem_cons_self
      cases name with
      | nil =>
          cases rest with
          | nil => rfl
          | cons c tail =>
              have hne : w ≠ c := by
                rintro rfl
                rw [hrest w tail rfl] at hw
                cases hw
              simp [word, dropWord?, hne]
      | cons c cs =>
          have hih := ih (fun x hx => htext x (List.mem_cons_of_mem w hx))
            (fun x hx => hname x (List.mem_cons_of_mem c hx))
          by_cases heq : w = c
          · subst heq
            have hdrop : word (w :: ws) meaning (w :: cs ++ rest) =
                word ws meaning (cs ++ rest) := by
              simp [word, dropWord?]
            rw [hdrop, hih]
            simp
          · have hne : ¬ c :: cs = w :: ws := fun hcons => heq (List.cons.inj hcons).1.symm
            simp [word, dropWord?, heq, hne]

theorem readName_append {s : String} (h : IsName s) (hrest : Apart rest) :
    readName (s.toList ++ rest) = some (s, rest) := by
  obtain ⟨c, cs, hs, hstart, hcs⟩ := h
  obtain ⟨htake, hdrop⟩ := span_append cs hcs hrest
  rw [hs, List.cons_append, readName, if_pos hstart, htake, hdrop, ← hs, String.ofList_toList]

/-- What stands behind the first steps of a path cannot go on with a name. -/
theorem Apart.steps (hrest : Apart rest) (steps : List Segment) :
    Apart (steps.flatMap Segment.spelled ++ rest) := by
  cases steps with
  | nil => exact hrest
  | cons step steps =>
      rintro c tail heq
      cases step <;> (obtain ⟨rfl, -⟩ := List.cons.inj heq; decide)

theorem readSegment_append {step : Segment} (h : step.Plain) (hrest : Apart rest) :
    readSegment (step.spelled ++ rest) = some (step, rest) := by
  cases step with
  | field name => simp [Segment.spelled, readSegment, readName_append h hrest]
  | index i =>
      have hclose : ∀ c tail, ']' :: rest = c :: tail → Text.isDigit c = false := by
        rintro c tail heq
        obtain ⟨rfl, -⟩ := List.cons.inj heq
        decide
      obtain ⟨htake, hdrop⟩ := span_append (Nat.toDigits 10 i)
        (fun _ hc => Text.isDigit_of_mem_toDigits hc) hclose
      have hbracket : skipLayout (']' :: rest) = ']' :: rest := rfl
      have hsmall : ¬ 2 ^ 64 ≤ i := Nat.not_le.mpr h
      simp [Segment.spelled, readSegment, (Solid.digits i).skipLayout, Json.readDigits, htake,
        hdrop, hbracket, Text.natOfDigits_toDigits, hsmall]

/-- All the steps of a path are read, if there is fuel for them and nothing that
stands behind is one. -/
theorem readSegments_append (hrest : Apart rest) (hend : readSegment rest = none)
    {steps : List Segment} (h : ∀ step ∈ steps, step.Plain) {fuel : Nat}
    (hfuel : steps.length ≤ fuel) :
    readSegments fuel (steps.flatMap Segment.spelled ++ rest) = (steps, rest) := by
  induction steps generalizing fuel with
  | nil =>
      cases fuel with
      | zero => rfl
      | succ fuel => simp [readSegments, hend]
  | cons step steps ih =>
      cases fuel with
      | zero => cases hfuel
      | succ fuel =>
          have hstep := readSegment_append (h step List.mem_cons_self) (hrest.steps steps)
          have hmore := ih (fun s hs => h s (List.mem_cons_of_mem step hs))
            (Nat.le_of_succ_le_succ hfuel)
          simp [readSegments, hstep, hmore]

theorem length_steps_le (steps : List Segment) :
    steps.length ≤ (steps.flatMap Segment.spelled).length := by
  induction steps with
  | nil => exact Nat.le_refl _
  | cons step steps ih =>
      have hstep : 0 < step.spelled.length := by cases step <;> exact Nat.succ_pos _
      rw [List.flatMap_cons, List.length_append, List.length_cons]
      omega

theorem Follows.readSegment {p : Nat} (h : Follows p rest) : readSegment rest = none := by
  rcases h.cases with rfl | ⟨c, tail, rfl, rfl | rfl⟩ <;> rfl

theorem readPath_append {p : Nat} (hrest : Follows p rest) {root : String} (hroot : IsName root)
    {steps : List Segment} (hsteps : ∀ step ∈ steps, step.Plain) :
    readPath (root.toList ++ (steps.flatMap Segment.spelled ++ rest)) =
      some (.path root steps, rest) := by
  have hfuel : steps.length ≤ (steps.flatMap Segment.spelled ++ rest).length := by
    have hlength := length_steps_le steps
    rw [List.length_append]
    omega
  rw [readPath, readName_append hroot (hrest.apart.steps steps)]
  simp only [readSegments_append hrest.apart hrest.readSegment hsteps hfuel]

/-- The digits of a number are read as it, if no decimal point stands behind. -/
theorem readLiteralNumber_append {p : Nat} (hrest : Follows p rest) {n : Nat} (hn : n < 2 ^ 63) :
    readLiteralNumber (Nat.toDigits 10 n ++ rest) = some (.literal (.ofNat n), rest) := by
  obtain ⟨htake, hdrop⟩ := span_append (Nat.toDigits 10 n)
    (fun _ hc => Text.isDigit_of_mem_toDigits hc) hrest.apart.not_digit
  simp only [readLiteralNumber, Json.readDigits, htake, hdrop, Text.natOfDigits_toDigits, if_pos hn]
  rcases hrest.cases with rfl | ⟨c, tail, rfl, rfl | rfl⟩ <;> simp

theorem readQuoted_append {mark : Char} {text : List Char} (h : mark ∉ text) (rest : List Char) :
    readQuoted mark (mark :: (text ++ mark :: rest)) =
      some (.literal (.string (String.ofList text)), rest) := by
  have htext : ∀ c ∈ text, (c != mark) = true := by
    intro c hc
    refine bne_iff_ne.mpr ?_
    rintro rfl
    exact h hc
  have hmark : ∀ c tail, mark :: rest = c :: tail → (c != mark) = false := by
    rintro c tail heq
    obtain ⟨rfl, -⟩ := List.cons.inj heq
    exact bne_self_eq_false _
  obtain ⟨htake, hdrop⟩ := span_append text htext hmark
  rw [readQuoted, if_pos rfl, hdrop, htake]

end Tokens

/-! ## Primaries -/

theorem orElse_of_some {α : Type} {first second : Reader α} {cs : List Char}
    {answer : α × List Char} (h : first cs = some answer) :
    orElse first second cs = some answer := by
  rw [orElse, h]

theorem orElse_of_none {α : Type} {first second : Reader α} {cs : List Char}
    (h : first cs = none) : orElse first second cs = second cs := by
  rw [orElse, h]

/-- The kinds of literals that are no words fail where a name stands. -/
theorem primary_name {c : Char} (h : isNameStart c = true) (inner : Reader Expr)
    (cs : List Char) :
    readGroup inner (c :: cs) = none ∧ readLiteralNumber (c :: cs) = none ∧
      readQuoted '"' (c :: cs) = none ∧ readQuoted '\'' (c :: cs) = none := by
  have hparen : c ≠ '(' := by rintro rfl; revert h; decide
  have hdouble : c ≠ '"' := by rintro rfl; revert h; decide
  have hsingle : c ≠ '\'' := by rintro rfl; revert h; decide
  have hdigit : Text.isDigit c = false := by
    simp only [isNameStart, Text.isLetter, Bool.or_eq_true, decide_eq_true_eq, beq_iff_eq,
      Char.le_def, UInt32.le_iff_toNat_le] at h
    simp only [Text.isDigit, Char.le_def, UInt32.le_iff_toNat_le, decide_eq_false_iff_not]
    rcases h with (h | h) | rfl
    all_goals first | (simp at h ⊢; omega) | decide
  refine ⟨?_, ?_, if_neg hdouble, if_neg hsingle⟩
  · unfold readGroup
    split
    · rename_i heq
      exact absurd (List.cons.inj heq).1 hparen
    · rfl
  · simp [readLiteralNumber, Json.readDigits, hdigit]

/-- What a primary is where a name stands: one of three words, or a path. -/
def readNamed : Reader Expr :=
  orElse (word ['t', 'r', 'u', 'e'] (.literal (.bool true))) <|
  orElse (word ['f', 'a', 'l', 's', 'e'] (.literal (.bool false))) <|
  orElse (word ['n', 'u', 'l', 'l'] (.literal .null)) readPath

theorem readPrimary_name {name : String} (h : IsName name) (inner : Reader Expr)
    (rest : List Char) :
    readPrimary inner (name.toList ++ rest) = spaced readNamed (name.toList ++ rest) := by
  have hskip := h.solid.skipLayout rest
  obtain ⟨c, cs, hname, hstart, -⟩ := h
  rw [hname] at hskip ⊢
  obtain ⟨hgroup, hnumber, hdouble, hsingle⟩ := primary_name hstart inner (cs ++ rest)
  simp only [readPrimary, spaced, hskip]
  rw [List.cons_append, orElse_of_none hgroup, orElse_of_none hnumber, orElse_of_none hdouble,
    orElse_of_none hsingle]
  rfl

/-- Where neither the word nor a sign of a unary operator stands, a unary
expression is a primary. -/
theorem readUnary_primary {c : Char} {cs : List Char} (hlayout : skipLayout (c :: cs) = c :: cs)
    (hword : word ['n', 'o', 't'] () (c :: cs) = none) (hnot : c ≠ '!') (hneg : c ≠ '-')
    (depth : Nat) :
    readUnary (depth + 1) (c :: cs) = readPrimary (readOr (readUnary depth)) (c :: cs) := by
  have hbang : sign ['!'] () (c :: cs) = none := by simp [sign, dropWord?, Ne.symm hnot]
  have hminus : sign ['-'] () (c :: cs) = none := by simp [sign, dropWord?, Ne.symm hneg]
  have hfirst : spaced (orElse (word ['n', 'o', 't'] ()) (sign ['!'] ())) (c :: cs) = none := by
    rw [spaced, hlayout, orElse_of_none hword, hbang]
  have hsecond : spaced (sign ['-'] ()) (c :: cs) = none := by
    rw [spaced, hlayout, hminus]
  rw [readUnary, orElse_of_none (by rw [readOperator, hfirst]),
    orElse_of_none (by rw [readOperator, hsecond])]

/-- A name is no unary operator. -/
theorem readUnary_name {name : String} (h : IsName name) (hnot : name ≠ "not")
    {rest : List Char} (hrest : Apart rest) (depth : Nat) :
    readUnary (depth + 1) (name.toList ++ rest) = spaced readNamed (name.toList ++ rest) := by
  have hskip := h.solid.skipLayout rest
  have hword : word ['n', 'o', 't'] () (name.toList ++ rest) = none := by
    rw [word_append () hrest (List.all_eq_true.mp rfl) h.chars.2]
    exact if_neg fun heq => hnot (String.toList_injective heq)
  rw [← readPrimary_name h (readOr (readUnary depth))]
  obtain ⟨c, cs, hname, hstart, -⟩ := h
  rw [hname] at hskip hword ⊢
  have hbang : c ≠ '!' := by rintro rfl; revert hstart; decide
  have hminus : c ≠ '-' := by rintro rfl; revert hstart; decide
  exact readUnary_primary hskip hword hbang hminus depth

/-- A literal without a name is read by its first character. -/
theorem readUnary_literal {c : Char} {cs : List Char} (h : Solid (c :: cs))
    (hstart : c ∉ ['n', '!', '-', '(']) (rest : List Char) (depth : Nat) :
    readUnary (depth + 1) (c :: cs ++ rest) =
      spaced (orElse readLiteralNumber (orElse (readQuoted '"') (orElse (readQuoted '\'')
        readNamed))) (c :: cs ++ rest) := by
  have hskip := h.skipLayout rest
  simp only [List.mem_cons, List.not_mem_nil, or_false, not_or] at hstart
  obtain ⟨hn, hbang, hminus, hparen⟩ := hstart
  have hword : word ['n', 'o', 't'] () (c :: (cs ++ rest)) = none := by
    simp [word, dropWord?, Ne.symm hn]
  have hgroup : readGroup (readOr (readUnary depth)) (c :: (cs ++ rest)) = none := by
    unfold readGroup
    split
    · rename_i heq
      exact absurd (List.cons.inj heq).1 hparen
    · rfl
  rw [List.cons_append] at hskip ⊢
  rw [readUnary_primary hskip hword hbang hminus, readPrimary, spaced, spaced, hskip,
    orElse_of_none hgroup]
  rfl

section Leaves

variable {rest : List Char}

theorem readNamed_true (hrest : Apart rest) :
    readNamed ("true".toList ++ rest) = some (.literal (.bool true), rest) :=
  orElse_of_some (word_append _ hrest (List.all_eq_true.mp rfl) (List.all_eq_true.mp rfl))

theorem readNamed_false (hrest : Apart rest) :
    readNamed ("false".toList ++ rest) = some (.literal (.bool false), rest) :=
  (orElse_of_none (word_append _ hrest (List.all_eq_true.mp rfl) (List.all_eq_true.mp rfl))).trans
    (orElse_of_some (word_append _ hrest (List.all_eq_true.mp rfl) (List.all_eq_true.mp rfl)))

theorem readNamed_null (hrest : Apart rest) :
    readNamed ("null".toList ++ rest) = some (.literal .null, rest) :=
  ((orElse_of_none (word_append _ hrest (List.all_eq_true.mp rfl) (List.all_eq_true.mp rfl))).trans
    (orElse_of_none (word_append _ hrest (List.all_eq_true.mp rfl) (List.all_eq_true.mp rfl)))).trans
      (orElse_of_some (word_append _ hrest (List.all_eq_true.mp rfl) (List.all_eq_true.mp rfl)))

/-- A name that is no word of the language starts a path. -/
theorem readNamed_path {name : String} (h : IsName name) (hreserved : name ∉ reserved)
    (hrest : Apart rest) : readNamed (name.toList ++ rest) = readPath (name.toList ++ rest) := by
  have hother : ∀ {α : Type} (meaning : α) {text : String}, text ∈ reserved →
      (∀ c ∈ text.toList, isNameChar c = true) →
      word text.toList meaning (name.toList ++ rest) = none := by
    intro α meaning text htext hchars
    rw [word_append meaning hrest hchars h.chars.2]
    refine if_neg fun heq => hreserved ?_
    rwa [String.toList_injective heq]
  exact (orElse_of_none (hother _ (by decide : "true" ∈ reserved) (List.all_eq_true.mp rfl))).trans
    ((orElse_of_none (hother _ (by decide : "false" ∈ reserved) (List.all_eq_true.mp rfl))).trans
      (orElse_of_none (hother _ (by decide : "null" ∈ reserved) (List.all_eq_true.mp rfl))))

end Leaves

end ProcessEngine.Expr
