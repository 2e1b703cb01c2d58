import ProcessEngine.Proofs.ExpressionTokens

/-!
# Reading what was written

A level of left-grouping operators reads its first operand and then goes round a
loop.  What is carried through an expression that leans to the left is therefore
not its result but the state of this loop (`Chains`): the expression read so far
stands before what is left.  All other levels are told by their result
(`Reads`), and an expression of one level is one of every level below.

Main statements: `readable_write`, by induction on the expression, and from it
`parse_write`.
-/

namespace ProcessEngine.Expr

/-! ## Levels -/

/-- The readers of the levels, from disjunctions to unary expressions. -/
def readerOf (unary : Reader Expr) : Nat → Reader Expr
  | 0 => readOr unary
  | 1 => readAnd unary
  | 2 => readComparison unary
  | 3 => readSum unary
  | 4 => readProduct unary
  | _ => unary

/-- The text of an expression is read by the reader of a level, whatever may
stand behind it there. -/
def Reads (depth p : Nat) (e : Expr) (cs : List Char) : Prop :=
  ∀ rest, Follows p rest → readerOf (readUnary depth) p (cs ++ rest) = some (e, skipLayout rest)

/-- The same on a level of left-grouping operators, up to the loop that takes the
operators of this level behind it. -/
def Chains {ω : Type} (combine : ω → Expr → Expr → Expr) (op : Reader ω) (operand : Reader Expr)
    (p : Nat) (e : Expr) (cs : List Char) : Prop :=
  ∀ rest, Follows (p + 1) rest → ∃ fuel, (skipLayout rest).length ≤ fuel ∧
    readLevel combine op operand (cs ++ rest) =
      some (readChain combine op operand fuel e (skipLayout rest))

section Chains

variable {ω : Type} {combine : ω → Expr → Expr → Expr} {op : Reader ω} {operand : Reader Expr}
  {p : Nat} {e : Expr} {cs : List Char}

/-- The first operand of a chain. -/
theorem Chains.first
    (h : ∀ rest, Follows (p + 1) rest → operand (cs ++ rest) = some (e, skipLayout rest)) :
    Chains combine op operand p e cs := by
  intro rest hrest
  refine ⟨(skipLayout rest).length, Nat.le_refl _, ?_⟩
  rw [readLevel, h rest hrest]

/-- One more operand. -/
theorem Chains.next (h : Chains combine op operand p e cs) {o : ω} {w : List Char}
    (hjoins : Joins op o w) (hbehind : ∀ rest, Follows (p + 1) (' ' :: (w ++ ' ' :: rest)))
    {r : Expr} {ds : List Char} (hsolid : Solid ds)
    (hr : ∀ rest, Follows (p + 1) rest → operand (ds ++ rest) = some (r, skipLayout rest)) :
    Chains combine op operand p (combine o e r) (cs ++ ' ' :: (w ++ ' ' :: ds)) := by
  intro rest hrest
  obtain ⟨fuel, hfuel, hread⟩ := h _ (hbehind (ds ++ rest))
  obtain ⟨hskip, hsign⟩ := hjoins (ds ++ rest)
  have hlength : (w ++ ' ' :: (ds ++ rest)).length ≤ fuel := by rw [← hskip]; exact hfuel
  have hrests : (skipLayout rest).length ≤ rest.length := (List.dropWhile_sublist _).length_le
  simp only [List.length_append, List.length_cons] at hlength
  obtain ⟨more, rfl⟩ : ∃ more, fuel = more + 1 := ⟨fuel - 1, by omega⟩
  refine ⟨more, by omega, ?_⟩
  have hsame : cs ++ ' ' :: (w ++ ' ' :: ds) ++ rest = cs ++ ' ' :: (w ++ ' ' :: (ds ++ rest)) := by
    simp
  rw [hsame, hread, hskip, readChain, hsign, hsolid.skipLayout]
  simp only [hr rest hrest]

/-- The loop ends where no operator of its level stands. -/
theorem readChain_of_none (fuel : Nat) {rest : List Char} (h : spaced op rest = none) :
    readChain combine op operand fuel e rest = (e, rest) := by
  cases fuel with
  | zero => rfl
  | succ fuel => rw [readChain, h]

theorem Chains.closed (h : Chains combine op operand p e cs)
    (hend : ∀ {rest}, Follows p rest → spaced op (skipLayout rest) = none) {rest : List Char}
    (hrest : Follows p rest) :
    readLevel combine op operand (cs ++ rest) = some (e, skipLayout rest) := by
  obtain ⟨fuel, -, hread⟩ := h rest (hrest.mono (Nat.le_succ p))
  rw [hread, readChain_of_none fuel (hend hrest)]

end Chains

section Levels

variable {depth : Nat} {e : Expr} {cs : List Char}

theorem readerOf_connective (unary : Reader Expr) (op : Connective) :
    readerOf unary op.level =
      readLevel .logic (connectiveSign op) (readerOf unary (op.level + 1)) := by
  cases op <;> rfl

theorem readerOf_arith (unary : Reader Expr) (op : Arith) :
    readerOf unary op.level =
      readLevel .arith (arithSign op) (readerOf unary (op.level + 1)) := by
  cases op <;> rfl

/-- The chains of a connective. -/
abbrev LogicChains (depth : Nat) (op : Connective) : Expr → List Char → Prop :=
  Chains .logic (connectiveSign op) (readerOf (readUnary depth) (op.level + 1)) op.level

/-- The chains of an arithmetic operator. -/
abbrev ArithChains (depth : Nat) (op : Arith) : Expr → List Char → Prop :=
  Chains .arith (arithSign op) (readerOf (readUnary depth) (op.level + 1)) op.level

theorem LogicChains.reads (op : Connective) (h : LogicChains depth op e cs) :
    Reads depth op.level e cs := by
  intro rest hrest
  rw [readerOf_connective]
  exact h.closed (fun hbehind => hbehind.connectiveSign) hrest

theorem ArithChains.reads (op : Arith) (h : ArithChains depth op e cs) :
    Reads depth op.level e cs := by
  intro rest hrest
  rw [readerOf_arith]
  exact h.closed (fun hbehind => hbehind.arithSign) hrest

/-- An expression that binds more is also one of the level below. -/
theorem Reads.pred {p : Nat} (hp : p < 5) (h : Reads depth (p + 1) e cs) : Reads depth p e cs := by
  match p, hp with
  | 0, _ => exact LogicChains.reads .or (.first h)
  | 1, _ => exact LogicChains.reads .and (.first h)
  | 2, _ =>
      intro rest hrest
      have hsum : readSum (readUnary depth) (cs ++ rest) = some (e, skipLayout rest) :=
        h rest (hrest.mono (by decide))
      show readOnce .relation relationSign (readSum (readUnary depth)) (cs ++ rest) = _
      simp only [readOnce, hsum, hrest.relationSign]
  | 3, _ => exact ArithChains.reads .add (.first h)
  | 4, _ => exact ArithChains.reads .mul (.first h)

theorem Reads.down {p q : Nat} (h : Reads depth q e cs) (hpq : p ≤ q) (hq : q ≤ 5) :
    Reads depth p e cs := by
  induction q with
  | zero => rwa [Nat.le_zero.mp hpq]
  | succ q ih =>
      rcases Nat.lt_or_eq_of_le hpq with hlt | rfl
      · exact ih (h.pred hq) (Nat.le_of_lt_succ hlt) (Nat.le_of_succ_le hq)
      · exact h

/-- A comparison of two sums. -/
theorem Reads.relation {l r : Expr} {ds : List Char} (hl : Reads depth 3 l cs)
    (hr : Reads depth 3 r ds) (hsolid : Solid ds) (op : Relation) (s : Spelling) :
    Reads depth 2 (.relation op l r) (cs ++ ' ' :: (op.spelled s ++ ' ' :: ds)) := by
  intro rest hrest
  obtain ⟨hskip, hsign⟩ := joins_relation s op (ds ++ rest)
  have hleft : readSum (readUnary depth) (cs ++ ' ' :: (op.spelled s ++ ' ' :: (ds ++ rest))) =
      some (l, op.spelled s ++ ' ' :: (ds ++ rest)) := by
    exact (hl _ (.relation op s (by decide) (ds ++ rest))).trans (by rw [hskip])
  have hright : readSum (readUnary depth) (ds ++ rest) = some (r, skipLayout rest) :=
    hr rest (hrest.mono (by decide))
  have hsame : cs ++ ' ' :: (op.spelled s ++ ' ' :: ds) ++ rest =
      cs ++ ' ' :: (op.spelled s ++ ' ' :: (ds ++ rest)) := by simp
  show readOnce .relation relationSign (readSum (readUnary depth)) _ = _
  rw [hsame, readOnce, hleft]
  simp only [hsign, hsolid.skipLayout, hright]

/-- Parentheses make an operand of any level out of an expression. -/
theorem Reads.group (h : Reads depth 0 e cs) (hsolid : Solid cs) :
    Reads (depth + 1) 5 e ('(' :: (cs ++ [')'])) := by
  intro rest hrest
  have hinner : readOr (readUnary depth) (cs ++ ')' :: rest) = some (e, ')' :: rest) :=
    h _ (.close rest)
  have hspaced : spaced (readOr (readUnary depth)) (cs ++ ')' :: rest) = some (e, ')' :: rest) := by
    rw [spaced, hsolid.skipLayout, hinner]
    rfl
  have hgroup : readGroup (readOr (readUnary depth)) ('(' :: (cs ++ ')' :: rest)) =
      some (e, rest) := by
    rw [readGroup, hspaced]
    rfl
  have hsame : '(' :: (cs ++ [')']) ++ rest = '(' :: (cs ++ ')' :: rest) := by simp
  have hskip : skipLayout ('(' :: (cs ++ ')' :: rest)) = '(' :: (cs ++ ')' :: rest) := rfl
  show readUnary (depth + 1) _ = _
  rw [hsame, readUnary_primary hskip rfl (by decide) (by decide), readPrimary, spaced, hskip,
    orElse_of_some hgroup]

/-- A negation. -/
theorem Reads.not (h : Reads depth 5 e cs) (hsolid : Solid cs) (s : Spelling) :
    Reads (depth + 1) 5 (.not e) (notSpelled s ++ cs) := by
  intro rest hrest
  have hsign : spaced (orElse (word ['n', 'o', 't'] ()) (sign ['!'] ()))
      (notSpelled s ++ (cs ++ rest)) = some ((), skipLayout (cs ++ rest)) := by
    obtain ⟨bang, space, _⟩ := s
    cases bang <;> cases space <;> rfl
  have hoperand : readUnary depth (cs ++ rest) = some (e, skipLayout rest) := h rest hrest
  show readUnary (depth + 1) _ = _
  refine orElse_of_some ?_
  rw [List.append_assoc, readOperator, hsign]
  simp only [hsolid.skipLayout, hoperand, Option.map_some]

/-- An opposite number. -/
theorem Reads.neg (h : Reads depth 5 e cs) (hsolid : Solid cs) (s : Spelling) :
    Reads (depth + 1) 5 (.neg e) (negSpelled s ++ cs) := by
  intro rest hrest
  have hnot : spaced (orElse (word ['n', 'o', 't'] ()) (sign ['!'] ()))
      (negSpelled s ++ (cs ++ rest)) = none := rfl
  have hsign : spaced (sign ['-'] ()) (negSpelled s ++ (cs ++ rest)) =
      some ((), skipLayout (cs ++ rest)) := by
    obtain ⟨_, space, _⟩ := s
    cases space <;> rfl
  have hoperand : readUnary depth (cs ++ rest) = some (e, skipLayout rest) := h rest hrest
  show readUnary (depth + 1) _ = _
  rw [List.append_assoc, readUnary, orElse_of_none (by rw [readOperator, hnot])]
  refine orElse_of_some ?_
  rw [readOperator, hsign]
  simp only [hsolid.skipLayout, hoperand, Option.map_some]

end Levels

/-! ## Literals and paths -/

/-- A name with what belongs to it is read as what `readNamed` makes of it. -/
theorem Reads.named {name : String} (h : IsName name) (hnot : name ≠ "not") {e : Expr}
    (more : List Char) (hmore : ∀ {rest}, Apart rest → Apart (more ++ rest))
    (hread : ∀ {p rest}, Follows p rest →
      readNamed (name.toList ++ (more ++ rest)) = some (e, rest)) (depth : Nat) :
    Reads (depth + 1) 5 e (name.toList ++ more) := by
  intro rest hrest
  show readUnary (depth + 1) _ = _
  rw [List.append_assoc, readUnary_name h hnot (hmore hrest.apart), spaced, h.solid.skipLayout,
    hread hrest]

/-- A literal without a name is read as what the token readers make of it. -/
theorem Reads.literal {e : Expr} {cs : List Char} (h : Solid cs)
    (hstart : ∀ c tail, cs = c :: tail → c ∉ ['n', '!', '-', '('])
    (hread : ∀ {p rest}, Follows p rest →
      orElse readLiteralNumber (orElse (readQuoted '"') (orElse (readQuoted '\'') readNamed))
        (cs ++ rest) = some (e, rest)) (depth : Nat) :
    Reads (depth + 1) 5 e cs := by
  intro rest hrest
  obtain ⟨c, tail, rfl, -, -⟩ := h.head
  show readUnary (depth + 1) _ = _
  rw [readUnary_literal h (hstart c tail rfl), spaced, h.skipLayout, hread hrest]

/-- Where a quote stands there is no number. -/
theorem readLiteralNumber_quote {mark : Char} (hmark : mark = '"' ∨ mark = '\'')
    (cs : List Char) : readLiteralNumber (mark :: cs) = none := by
  have hdigit : Text.isDigit mark = false := by rcases hmark with rfl | rfl <;> rfl
  simp [readLiteralNumber, Json.readDigits, hdigit]

theorem reads_string {text : String} (h : (Json.string text).Plain) (s : Spelling)
    (depth : Nat) :
    Reads (depth + 1) 5 (.literal (.string text)) ((Json.string text).spelled s) := by
  have hmem := s.quote_not_mem h
  refine .literal (Json.Plain.solid h s) ?_ (fun {p rest} hrest => ?_) depth
  · rintro c tail heq
    rw [← (List.cons.inj heq).1]
    rcases s.quote_cases text.toList with hq | hq <;> rw [hq] <;> decide
  · have hread := readQuoted_append hmem rest
    rw [String.ofList_toList] at hread
    have hsame : (Json.string text).spelled s ++ rest =
        s.quote text.toList :: (text.toList ++ s.quote text.toList :: rest) := by
      simp [Json.spelled]
    rw [hsame, orElse_of_none (readLiteralNumber_quote (s.quote_cases _) _)]
    rcases s.quote_cases text.toList with hq | hq
    · rw [hq] at hread ⊢
      exact orElse_of_some hread
    · rw [hq] at hread ⊢
      have hdouble : readQuoted '"' ('\'' :: (text.toList ++ '\'' :: rest)) = none := by
        simp [readQuoted]
      rw [orElse_of_none hdouble]
      exact orElse_of_some hread

theorem reads_value {v : Json} (h : v.Plain) (s : Spelling) (depth : Nat) :
    Reads (depth + 1) 5 (.literal v) (v.spelled s) := by
  cases v with
  | null =>
      have hname : IsName "null" := ⟨'n', ['u', 'l', 'l'], rfl, by decide, List.all_eq_true.mp rfl⟩
      exact .named hname (by decide) [] id
        (fun hrest => readNamed_null hrest.apart) depth
  | bool b =>
      cases b with
      | true =>
          have hname : IsName "true" :=
            ⟨'t', ['r', 'u', 'e'], rfl, by decide, List.all_eq_true.mp rfl⟩
          exact .named hname (by decide) [] id
            (fun hrest => readNamed_true hrest.apart) depth
      | false =>
          have hname : IsName "false" :=
            ⟨'f', ['a', 'l', 's', 'e'], rfl, by decide, List.all_eq_true.mp rfl⟩
          exact .named hname (by decide) [] id
            (fun hrest => readNamed_false hrest.apart) depth
  | number n =>
      cases n with
      | whole n =>
          obtain ⟨hle, hlt⟩ := h
          refine .literal (.digits n.toNat) ?_ (fun hrest => ?_) depth
          · intro c tail heq
            have hdigit : Text.isDigit c = true := by
              refine Text.isDigit_of_mem_toDigits (n := n.toNat) ?_
              rw [heq]
              exact List.mem_cons_self
            simp only [List.mem_cons, List.not_mem_nil, or_false, not_or]
            refine ⟨?_, ?_, ?_, ?_⟩ <;> (rintro rfl; revert hdigit; decide)
          · have hn : n.toNat < 2 ^ 63 := by omega
            have hread := readLiteralNumber_append hrest hn
            have hsame : Json.ofNat n.toNat = .number (.whole n) := by
              rw [Json.ofNat, Int.toNat_of_nonneg hle]
            rw [hsame] at hread
            exact orElse_of_some hread
      | float x => cases h
  | string text => exact reads_string h s depth
  | array xs => cases h
  | object fields => cases h

theorem reads_path {root : String} {steps : List Segment} (h : (path root steps).Plain)
    (depth : Nat) :
    Reads (depth + 1) 5 (.path root steps) (root.toList ++ steps.flatMap Segment.spelled) := by
  obtain ⟨hroot, hreserved, hsteps⟩ := h
  have hnot : root ≠ "not" := by
    rintro rfl
    exact hreserved (by decide)
  refine .named hroot hnot _ (fun hrest => hrest.steps steps) (fun hrest => ?_) depth
  rw [readNamed_path hroot hreserved (hrest.apart.steps steps), readPath_append hrest hroot hsteps]

/-! ## Written expressions -/

/-- What is read of the text of an expression: all of it on the level of the
expression, and its operands up to the last one where this level groups to the
left. -/
structure Readable (depth : Nat) (e : Expr) (cs : List Char) : Prop where
  reads : Reads depth (min e.level 5) e cs
  logic : ∀ op : Connective, op.level = e.level → LogicChains depth op e cs
  arith : ∀ op : Arith, op.level = e.level → ArithChains depth op e cs

namespace Readable

variable {depth : Nat} {e : Expr} {cs : List Char}

/-- Unary expressions and primaries are no chains. -/
theorem of_unary (hlevel : 5 ≤ e.level) (h : Reads depth 5 e cs) : Readable depth e cs where
  reads := by rwa [Nat.min_eq_right hlevel]
  logic op hop := by cases op <;> (simp only [Connective.level] at hop; omega)
  arith op hop := by cases op <;> (simp only [Arith.level] at hop; omega)

/-- An operand is read at a place that asks for a level. -/
theorem enclosed (least : Nat) (h : ∀ {depth}, cs.length < depth → Readable depth e cs)
    (hsolid : Solid cs) (hleast : least ≤ 5) (hdepth : (enclose least e.level cs).length < depth) :
    Reads depth least e (enclose least e.level cs) := by
  unfold enclose at hdepth ⊢
  by_cases hlevel : e.level < least
  · rw [if_pos hlevel] at hdepth ⊢
    simp only [List.length_cons, List.length_append, List.length_nil] at hdepth
    obtain ⟨inner, rfl⟩ : ∃ inner, depth = inner + 1 := ⟨depth - 1, by omega⟩
    have hinner : cs.length < inner := by omega
    have hread : Reads inner 0 e cs := (h hinner).reads.down (Nat.zero_le _) (by omega)
    exact (hread.group hsolid).down hleast (Nat.le_refl 5)
  · rw [if_neg hlevel] at hdepth ⊢
    exact (h hdepth).reads.down (by omega) (by omega)

/-- A left operand of the level of its operator is a chain already; any other
one starts a chain. -/
theorem enclosed_chain {ω : Type} {combine : ω → Expr → Expr → Expr} {sign : Reader ω} {p : Nat}
    (hp : p < 5)
    (hown : p = e.level → cs.length < depth →
      Chains combine sign (readerOf (readUnary depth) (p + 1)) p e cs)
    (h : ∀ {depth}, cs.length < depth → Readable depth e cs) (hsolid : Solid cs)
    (hdepth : (enclose p e.level cs).length < depth) :
    Chains combine sign (readerOf (readUnary depth) (p + 1)) p e (enclose p e.level cs) := by
  by_cases hlevel : p = e.level
  · have hsame : enclose p e.level cs = cs := if_neg (by omega)
    rw [hsame] at hdepth ⊢
    exact hown hlevel hdepth
  · have hsame : enclose p e.level cs = enclose (p + 1) e.level cs := by
      unfold enclose
      by_cases hlt : e.level < p
      · rw [if_pos hlt, if_pos (by omega)]
      · rw [if_neg hlt, if_neg (by omega)]
    rw [hsame] at hdepth ⊢
    exact .first (enclosed (p + 1) h hsolid hp hdepth)

/-- One more operand behind a connective of its level. -/
theorem of_logic {op : Connective} {l r : Expr} {ds : List Char}
    (hl : LogicChains depth op l cs) (hr : Reads depth (op.level + 1) r ds) (hsolid : Solid ds)
    (s : Spelling) : Readable depth (.logic op l r) (cs ++ ' ' :: (op.spelled s ++ ' ' :: ds)) := by
  have hlevel := op.level_lt
  have hchain : LogicChains depth op (.logic op l r) _ := hl.next (joins_connective s op)
    (fun rest => .logic op s (Nat.lt_succ_self _) rest) hsolid hr
  refine ⟨?_, ?_, ?_⟩
  · have hmin : min (Expr.logic op l r).level 5 = op.level :=
      Nat.min_eq_left (by simp [level]; omega)
    rw [hmin]
    exact hchain.reads op
  · intro other hother
    have hsame : other = op := by cases other <;> cases op <;> first | rfl | cases hother
    rwa [hsame]
  · intro other hother
    have hhigh := other.level_lt
    simp only [level] at hother
    omega

/-- One more operand behind an arithmetic operator of its level. -/
theorem of_arith {op : Arith} {l r : Expr} {ds : List Char} (hl : ArithChains depth op l cs)
    (hr : Reads depth (op.level + 1) r ds) (hsolid : Solid ds) :
    Readable depth (.arith op l r) (cs ++ ' ' :: (op.spelled ++ ' ' :: ds)) := by
  have hlevel := op.level_lt
  have hchain : ArithChains depth op (.arith op l r) _ := hl.next (joins_arith op)
    (fun rest => .arith op (Nat.lt_succ_self _) rest) hsolid hr
  refine ⟨?_, ?_, ?_⟩
  · have hmin : min (Expr.arith op l r).level 5 = op.level :=
      Nat.min_eq_left (by simp [level]; omega)
    rw [hmin]
    exact hchain.reads op
  · intro other hother
    have hlow := other.level_lt
    simp only [level] at hother
    omega
  · -- operators of one level have one reader, and so one kind of chain
    intro other hother
    have hreader : arithSign other = arithSign op := by
      cases other <;> cases op <;> first | rfl | cases hother
    have hsame : other.level = op.level := hother
    simp only [ArithChains, hreader, hsame]
    exact hchain

/-- A comparison is no chain. -/
theorem of_relation {op : Relation} {l r : Expr} {ds : List Char} (hl : Reads depth 3 l cs)
    (hr : Reads depth 3 r ds) (hsolid : Solid ds) (s : Spelling) :
    Readable depth (.relation op l r) (cs ++ ' ' :: (op.spelled s ++ ' ' :: ds)) where
  reads := hl.relation hr hsolid op s
  logic other hother := by
    have hlow := other.level_lt
    simp only [level] at hother
    omega
  arith other hother := by
    have hhigh := other.level_lt
    simp only [level] at hother
    omega

end Readable

/-- **A written expression is read as itself**, with as much depth as it has
characters. -/
theorem readable_write {e : Expr} (h : e.Plain) (spell : List Bool → Spelling) {depth : Nat}
    (hdepth : (e.write spell).length < depth) : Readable depth e (e.write spell) := by
  -- induction on the expression; an operand gets less depth only inside parentheses and
  -- behind a unary operator, and its text is shorter there
  induction e generalizing spell depth with
  | literal v =>
      obtain ⟨inner, rfl⟩ : ∃ inner, depth = inner + 1 := ⟨depth - 1, by omega⟩
      exact .of_unary (Nat.le_succ 5) (reads_value h (spell []) inner)
  | path root steps =>
      obtain ⟨inner, rfl⟩ : ∃ inner, depth = inner + 1 := ⟨depth - 1, by omega⟩
      exact .of_unary (Nat.le_succ 5) (reads_path h inner)
  | not e ih =>
      have hplain : e.Plain := h
      have hsolid := hplain.solid fun w => spell (false :: w)
      have hsign : 0 < (notSpelled (spell [])).length := by
        unfold notSpelled
        split <;> exact Nat.succ_pos _
      obtain ⟨inner, rfl⟩ : ∃ inner, depth = inner + 1 := ⟨depth - 1, by omega⟩
      rw [write, List.length_append] at hdepth
      have hoperand := Readable.enclosed 5 (fun hd => ih hplain _ hd) hsolid (Nat.le_refl 5)
        (by omega : _ < inner)
      exact .of_unary (Nat.le_refl 5) (hoperand.not (solid_enclose hsolid 5 e.level) (spell []))
  | neg e ih =>
      have hplain : e.Plain := h
      have hsolid := hplain.solid fun w => spell (false :: w)
      have hsign : 0 < (negSpelled (spell [])).length := Nat.succ_pos _
      obtain ⟨inner, rfl⟩ : ∃ inner, depth = inner + 1 := ⟨depth - 1, by omega⟩
      rw [write, List.length_append] at hdepth
      have hoperand := Readable.enclosed 5 (fun hd => ih hplain _ hd) hsolid (Nat.le_refl 5)
        (by omega : _ < inner)
      exact .of_unary (Nat.le_refl 5) (hoperand.neg (solid_enclose hsolid 5 e.level) (spell []))
  | logic op l r ihl ihr =>
      have hlevel := op.level_lt
      have hrsolid := h.2.solid fun w => spell (true :: w)
      simp only [write, List.length_append, List.length_cons] at hdepth
      have hleft : LogicChains depth op l _ := Readable.enclosed_chain (by omega)
        (fun hop hd => (ihl h.1 _ hd).logic op hop) (fun hd => ihl h.1 _ hd)
        (h.1.solid fun w => spell (false :: w)) (by omega)
      have hright := Readable.enclosed (op.level + 1) (fun hd => ihr h.2 _ hd) hrsolid (by omega)
        (by omega : _ < depth)
      exact .of_logic hleft hright (solid_enclose hrsolid _ _) (spell [])
  | relation op l r ihl ihr =>
      have hrsolid := h.2.solid fun w => spell (true :: w)
      simp only [write, List.length_append, List.length_cons] at hdepth
      have hleft := Readable.enclosed 3 (fun hd => ihl h.1 _ hd)
        (h.1.solid fun w => spell (false :: w)) (by decide) (by omega : _ < depth)
      have hright := Readable.enclosed 3 (fun hd => ihr h.2 _ hd) hrsolid (by decide)
        (by omega : _ < depth)
      exact .of_relation hleft hright (solid_enclose hrsolid _ _) (spell [])
  | arith op l r ihl ihr =>
      have hlevel := op.level_lt
      have hrsolid := h.2.solid fun w => spell (true :: w)
      simp only [write, List.length_append, List.length_cons] at hdepth
      have hleft : ArithChains depth op l _ := Readable.enclosed_chain (by omega)
        (fun hop hd => (ihl h.1 _ hd).arith op hop) (fun hd => ihl h.1 _ hd)
        (h.1.solid fun w => spell (false :: w)) (by omega)
      have hright := Readable.enclosed (op.level + 1) (fun hd => ihr h.2 _ hd) hrsolid (by omega)
        (by omega : _ < depth)
      exact .of_arith hleft hright (solid_enclose hrsolid _ _)

/-! ## Whole texts -/

/-- What is left of a written expression between blanks, marked as an expression
or not. -/
theorem normalizeExpr_write {cs lead gap trail : List Char} (h : Solid cs) (marked : Bool)
    (hlead : ∀ c ∈ lead, Text.isBlank c = true) (hgap : ∀ c ∈ gap, Text.isBlank c = true)
    (htrail : ∀ c ∈ trail, Text.isBlank c = true) :
    normalizeExpr (String.ofList
      (lead ++ ((if marked then '=' :: gap else []) ++ (cs ++ trail)))) = String.ofList cs := by
  unfold normalizeExpr
  rw [String.toList_ofList]
  cases marked with
  | false =>
      have hstrip := h.stripEnds hlead htrail
      obtain ⟨c, rest, rfl, -, hsign⟩ := h.head
      simp only [Bool.false_eq_true, if_false, List.nil_append, hstrip]
      split
      · rename_i heq
        exact absurd (List.cons.inj heq).1 hsign
      · rfl
  | true =>
      obtain ⟨front, d, hlast, hend⟩ := h.last
      have hinner : Text.stripEnds Text.isBlank (gap ++ cs) = cs := by
        have hstrip := h.stripEnds hgap fun c (hc : c ∈ []) => absurd hc List.not_mem_nil
        rwa [List.append_nil] at hstrip
      have hback : '=' :: (gap ++ cs) = ('=' :: (gap ++ front)) ++ [d] := by simp [hlast]
      have houter := Text.stripEnds_around hlead htrail rfl rfl hback hend
      have hsame : lead ++ ('=' :: gap ++ (cs ++ trail)) =
          lead ++ ('=' :: (gap ++ cs) ++ trail) := by simp
      simp only [if_true, hsame, houter, hinner]

theorem readExpr_write {e : Expr} (h : e.Plain) (spell : List Bool → Spelling) :
    readExpr (e.write spell) = some (e, []) := by
  have hskip := (h.solid spell).skipLayout []
  have hread := ((readable_write h spell (Nat.lt_succ_self _)).reads.down (Nat.zero_le _)
    (by omega)) [] .nil
  rw [List.append_nil] at hskip hread
  have hor : readOr (readUnary ((e.write spell).length + 1)) (e.write spell) =
      some (e, skipLayout []) := hread
  rw [readExpr, spaced, hskip, hor]
  rfl

theorem parse_of_readExpr {text : String} {body : List Char} {e : Expr}
    (hbody : (normalizeExpr text).toList = body) (h : readExpr body = some (e, [])) :
    parse text = .ok e := by
  subst hbody
  dsimp only [parse]
  rw [h]

/-- **Reading inverts writing.**  The text of an expression whose leaves can be
written, with either spelling of each operator, between any blanks and with or
without a leading `=`, is parsed to this expression. -/
theorem parse_write {e : Expr} (h : e.Plain) (spell : List Bool → Spelling) (marked : Bool)
    {lead gap trail : List Char} (hblank : ∀ c ∈ lead ++ gap ++ trail, Text.isBlank c = true) :
    parse (String.ofList
      (lead ++ ((if marked then '=' :: gap else []) ++ (e.write spell ++ trail)))) = .ok e := by
  have hlead : ∀ c ∈ lead, Text.isBlank c = true := fun c hc => hblank c (by simp [hc])
  have hgap : ∀ c ∈ gap, Text.isBlank c = true := fun c hc => hblank c (by simp [hc])
  have htrail : ∀ c ∈ trail, Text.isBlank c = true := fun c hc => hblank c (by simp [hc])
  refine parse_of_readExpr ?_ (readExpr_write h spell)
  rw [normalizeExpr_write (h.solid spell) marked hlead hgap htrail, String.toList_ofList]

/-- A condition with operators of every level, written with words at its outermost
places and with signs inside. -/
theorem parse_write_order :
    let e : Expr :=
      .logic .or
        (.logic .and (.not (.path "order" []))
          (.relation .le
            (.arith .mul
              (.arith .sub (.path "a" []) (.arith .add (.literal (.ofNat 1)) (.literal (.ofNat 2))))
              (.neg (.neg (.path "items" [.index 3, .field "not"]))))
            (.literal (.ofNat 9223372036854775807))))
        (.not (.relation .eq (.literal (.string "it's")) (.literal .null)))
    e.Plain ∧
      parse (" =\t! order && (a - (1 + 2)) * - - items[3].not <= 9223372036854775807" ++
        " or not (\"it's\" == null)\n") = .ok e := by
  intro e
  have hpath : (path "items" [.index 3, .field "not"]).Plain := by
    refine ⟨⟨'i', _, rfl, by decide, List.all_eq_true.mp rfl⟩, by decide, fun step hstep => ?_⟩
    simp only [List.mem_cons, List.not_mem_nil, or_false] at hstep
    rcases hstep with rfl | rfl
    · exact (by decide : 3 < 2 ^ 64)
    · exact ⟨'n', _, rfl, by decide, List.all_eq_true.mp rfl⟩
  have htext : (literal (.string "it's")).Plain := by
    show ¬ ('"' ∈ "it's".toList ∧ '\'' ∈ "it's".toList)
    decide
  have hplain : e.Plain :=
    ⟨⟨⟨⟨'o', _, rfl, by decide, List.all_eq_true.mp rfl⟩, by decide, by simp⟩,
      ⟨⟨⟨⟨'a', _, rfl, by decide, List.all_eq_true.mp rfl⟩, by decide, by simp⟩,
        ⟨by decide, by decide⟩, by decide, by decide⟩, hpath⟩, by decide, by decide⟩, htext, trivial⟩
  have hparse := parse_write hplain (fun w => ⟨w ≠ [] ∧ w ≠ [true], true, true⟩) true
    (List.all_eq_true.mp (rfl : ([' '] ++ ['\t'] ++ ['\n']).all Text.isBlank = true))
  have hwritten : String.ofList ([' '] ++ ((if true then '=' :: ['\t'] else []) ++
      (e.write (fun w => ⟨w ≠ [] ∧ w ≠ [true], true, true⟩) ++ ['\n']))) =
      " =\t! order && (a - (1 + 2)) * - - items[3].not <= 9223372036854775807" ++
        " or not (\"it's\" == null)\n" := by decide +kernel
  exact ⟨hplain, hwritten ▸ hparse⟩

end ProcessEngine.Expr
