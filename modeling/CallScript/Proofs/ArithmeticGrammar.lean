import Mathlib.Data.List.DropRight
import Mathlib.Logic.Relation
import CallScript.Arithmetic

/-!
# The grammar of arithmetic

`Arithmetic.evaluate` reads a text character by character and computes on the way. This module says
what it accepts and what it computes without reading: a text is cut into tokens (`lex`), the
grammar is a type of trees (`Tree`),

    sum     := product (('+' | '-') product)*
    product := unary (('*' | '/' | '%') unary)*
    unary   := ['+' | '-'] primary
    primary := '(' sum ')' | literal

and a tree has tokens, a depth of parentheses and a value, if all its literals read as numbers and
nothing in it is divided by zero. A text has the value of the tree with its tokens, if there is one
that is not too deep, and no value otherwise. There is one such tree at most.

Sums and products are chains of operands of one *level*, and the functions that read them differ in
nothing but the level. `read` and `readTail` are these functions with the proofs about lengths
taken off; each equation of theirs (`read_chain`, `readTail_of_symbol` and so on) holds at both
levels. From them

* whatever is read is a tree (`exists_tree_of_read`), by induction on how much text is left;
* every tree is read (`Tree.read_eq`), by induction on the tree. What follows a chain must not go on
  with it, so this is said of a tree with tokens behind it that do not (`Kind.EndsAt`).
-/

namespace CallScript.Arithmetic

/-! ## Tokens -/

/-- A token is a run of digits and points, or any other character that is not blank. -/
inductive Token where
  | literal (digits : List Char)
  | symbol (c : Char)
  deriving DecidableEq

theorem trimStart_cons_length {s rest : List Char} {c : Char}
    (h : Text.trimStart s = c :: rest) : rest.length < s.length := by
  have := Text.length_trimStart_le s
  rw [h, List.length_cons] at this
  omega

theorem suffix_of_trimStart {s rest : List Char} {c : Char} (h : Text.trimStart s = c :: rest) :
    rest <:+ s :=
  (List.suffix_cons c rest).trans (h ▸ List.dropWhile_suffix _)

theorem trimStart_trimStart (s : List Char) :
    Text.trimStart (Text.trimStart s) = Text.trimStart s :=
  List.dropWhile_idempotent _ _

/-- The tokens of a text. Blanks between them are left out, and a run of digits and points is as
long as it can be. -/
def lex (s : List Char) : List Token :=
  match _h : Text.trimStart s with
  | [] => []
  | c :: rest =>
    if isLiteralChar c then
      .literal (c :: rest.takeWhile isLiteralChar) :: lex (rest.dropWhile isLiteralChar)
    else .symbol c :: lex rest
termination_by s.length
decreasing_by
  · have := trimStart_cons_length _h
    have := (List.dropWhile_sublist (l := rest) isLiteralChar).length_le
    omega
  · exact trimStart_cons_length _h

example : lex " 1.5*(2 3".toList =
    [.literal "1.5".toList, .symbol '*', .symbol '(', .literal ['2'], .literal ['3']] := by
  cbv

/-! ## Trees -/

/-- The two levels of operators. -/
inductive Level where
  | sum
  | product

inductive Operator : Level → Type where
  | plus : Operator .sum
  | minus : Operator .sum
  | times : Operator .product
  | divide : Operator .product
  | modulo : Operator .product

/-- What a tree is a tree of: sums and products are chains. -/
inductive Kind where
  | primary
  | unary
  | chain (level : Level)

/-- What is joined by the operators of a level. -/
def Level.operand : Level → Kind
  | .sum => .chain .product
  | .product => .unary

mutual

/-- The grammar of arithmetic: a tree is one way to derive what it is a tree of. -/
inductive Tree : Kind → Type where
  | literal (digits : List Char) : Tree .primary
  | group (inside : Tree (.chain .sum)) : Tree .primary
  | plain (x : Tree .primary) : Tree .unary
  | signed (sign : Operator .sum) (x : Tree .primary) : Tree .unary
  | chain {level : Level} (first : Tree level.operand) (others : Others level) :
      Tree (.chain level)

/-- What follows the first operand of a chain: operators with the operands on their right. -/
inductive Others : Level → Type where
  | none {level : Level} : Others level
  | next {level : Level} (operator : Operator level) (right : Tree level.operand)
      (others : Others level) : Others level

end

namespace Operator

/-- How an operator is written. -/
def symbol : {level : Level} → Operator level → Char
  | _, plus => '+'
  | _, minus => '-'
  | _, times => '*'
  | _, divide => '/'
  | _, modulo => '%'

/-- The value of two numbers that are joined by an operator. -/
def combine? : {level : Level} → Operator level → Float → Float → Option Float
  | _, plus, x, y => some (x + y)
  | _, minus, x, y => some (x - y)
  | _, times, x, y => some (x * y)
  | _, divide, x, y => if y == 0 then none else some (x / y)
  | _, modulo, x, y => if y == 0 then none else some (Number.remainder x y)

/-- The value of a number behind a sign. -/
def sign : Operator .sum → Float → Float
  | plus, x => x
  | minus, x => -x

end Operator

mutual

/-- The tokens that a tree derives. -/
def Tree.tokens : {kind : Kind} → Tree kind → List Token
  | _, .literal digits => [.literal digits]
  | _, .group inside => .symbol '(' :: (inside.tokens ++ [.symbol ')'])
  | _, .plain x => x.tokens
  | _, .signed sign x => .symbol sign.symbol :: x.tokens
  | _, .chain first others => first.tokens ++ others.tokens

def Others.tokens : {level : Level} → Others level → List Token
  | _, .none => []
  | _, .next operator right others =>
    .symbol operator.symbol :: (right.tokens ++ others.tokens)

end

mutual

/-- How deep parentheses nest in a tree. Those side by side do not add up. -/
def Tree.depth : {kind : Kind} → Tree kind → Nat
  | _, .literal _ => 0
  | _, .group inside => inside.depth + 1
  | _, .plain x => x.depth
  | _, .signed _ x => x.depth
  | _, .chain first others => max first.depth others.depth

def Others.depth : {level : Level} → Others level → Nat
  | _, .none => 0
  | _, .next _ right others => max right.depth others.depth

end

mutual

/-- The value of a tree, if its literals are numbers and nothing is divided by zero. -/
def Tree.value? : {kind : Kind} → Tree kind → Option Float
  | _, .literal digits => Number.readDecimal? digits
  | _, .group inside => inside.value?
  | _, .plain x => x.value?
  | _, .signed sign x => x.value?.map sign.sign
  | _, .chain first others => first.value?.bind others.value?

/-- The value of a chain whose value up to here is `x`: each operator joins everything on its left
with the one operand on its right. -/
def Others.value? : {level : Level} → Others level → Float → Option Float
  | _, .none, x => some x
  | _, .next operator right others, x =>
    right.value?.bind fun y => (operator.combine? x y).bind others.value?

end

/-! ## Readers -/

/-- What a reader gives, without the reason why it fails and without the proof that the rest is no
longer than it may be. -/
def outcome {p : List Char → Prop} :
    Except ArithmeticError (Float × { rest : List Char // p rest }) → Option (Float × List Char)
  | .ok (x, rest) => some (x, rest.1)
  | .error _ => none

/-- What is read of a kind of text inside some parentheses, and the text after it. -/
def read : Kind → Nat → List Char → Option (Float × List Char)
  | .primary, nesting, s => outcome (primary nesting s)
  | .unary, nesting, s => outcome (unary nesting s)
  | .chain .product, nesting, s => outcome (product nesting s)
  | .chain .sum, nesting, s => outcome (sum nesting s)

/-- What is read on behind the first operand of a chain, or behind those whose value is `x`. -/
def readTail : Level → Nat → Float → List Char → Option (Float × List Char)
  | .product, nesting, x, s => outcome (productTail nesting x s)
  | .sum, nesting, x, s => outcome (sumTail nesting x s)

variable {kind : Kind} {level : Level} {nesting : Nat} {s rest : List Char} {x y : Float}

theorem outcome_bind {p q : List Char → Prop}
    {r : Except ArithmeticError (Float × { rest : List Char // p rest })}
    {f : Float × { rest : List Char // p rest } →
      Except ArithmeticError (Float × { rest : List Char // q rest })}
    {g : Float × List Char → Option (Float × List Char)}
    (h : ∀ x rest, outcome (f (x, rest)) = g (x, rest.1)) :
    outcome (r.bind f) = (outcome r).bind g := by
  cases r with
  | error _ => rfl
  | ok read => exact h read.1 read.2

theorem outcome_bind_same {p q : List Char → Prop}
    {r : Except ArithmeticError (Float × { rest : List Char // p rest })}
    {f : Float × { rest : List Char // p rest } →
      Except ArithmeticError (Float × { rest : List Char // q rest })}
    (h : ∀ x rest, outcome (f (x, rest)) = some (x, rest.1)) :
    outcome (r.bind f) = outcome r := by
  cases r with
  | error _ => rfl
  | ok read => exact h read.1 read.2

/-- A chain is its first operand and what follows it. -/
theorem read_chain : read (.chain level) nesting s =
    (read level.operand nesting s).bind fun (x, rest) => readTail level nesting x rest := by
  cases level with
  | sum =>
    simp only [read, Level.operand]
    rw [sum]
    exact outcome_bind fun x rest => outcome_bind_same fun _ _ => rfl
  | product =>
    simp only [read, Level.operand]
    rw [product]
    exact outcome_bind fun x rest => outcome_bind_same fun _ _ => rfl

/-- The operators of a product are those of `multiply`. -/
theorem toOption_multiply (operator : Operator .product) (x y : Float) :
    (multiply operator.symbol x y).toOption = operator.combine? x y := by
  cases operator with
  | times => rfl
  | divide =>
    rw [multiply, if_neg (by decide), Operator.combine?]
    split <;> rfl
  | modulo =>
    rw [multiply, if_neg (by decide), Operator.combine?]
    split <;> rfl

/-- A chain goes on at an operator of its level, with the operand behind it. -/
theorem readTail_of_symbol {operator : Operator level}
    (h : Text.trimStart s = operator.symbol :: rest) : readTail level nesting x s =
      (read level.operand nesting rest).bind fun (y, after) =>
        (operator.combine? x y).bind fun z => readTail level nesting z after := by
  cases level with
  | sum =>
    simp only [read, readTail, Level.operand]
    rw [sumTail]
    split
    · next hnil => rw [h] at hnil; cases hnil
    · next c rest' hcons =>
      rw [h] at hcons
      cases hcons
      have hsymbol : (operator.symbol = '+' || operator.symbol = '-') = true := by
        cases operator <;> decide
      rw [if_pos hsymbol]
      refine outcome_bind fun y after => ?_
      have hvalue : operator.combine? x y =
          some (if operator.symbol = '+' then x + y else x - y) := by
        cases operator <;> rfl
      rw [hvalue]
      exact outcome_bind_same fun _ _ => rfl
  | product =>
    simp only [read, readTail, Level.operand]
    rw [productTail]
    split
    · next hnil => rw [h] at hnil; cases hnil
    · next c rest' hcons =>
      rw [h] at hcons
      cases hcons
      have hsymbol : (operator.symbol = '*' || operator.symbol = '/' || operator.symbol = '%') =
          true := by
        cases operator <;> decide
      rw [if_pos hsymbol]
      refine outcome_bind fun y after => ?_
      show outcome ((multiply operator.symbol x y).bind fun z =>
          (productTail nesting z after.1).bind fun w => .ok (w.1, ⟨w.2.1, _⟩)) =
        (operator.combine? x y).bind fun z => outcome (productTail nesting z after.1)
      rw [← toOption_multiply]
      cases multiply operator.symbol x y with
      | error _ => rfl
      | ok z => exact outcome_bind_same fun _ _ => rfl

/-- A chain ends where no operator of its level follows. -/
theorem readTail_of_end
    (h : ∀ operator : Operator level, (Text.trimStart s).head? ≠ some operator.symbol) :
    readTail level nesting x s = some (x, Text.trimStart s) := by
  cases level with
  | sum =>
    rw [readTail, sumTail]
    split
    · next hnil => rw [hnil]; rfl
    · next c rest' hcons =>
      rw [hcons, List.head?_cons] at h
      have hsymbol : ¬(c = '+' || c = '-') = true := by
        simpa [Operator.symbol] using And.intro (h .plus) (h .minus)
      rw [if_neg hsymbol]
      exact congrArg (fun rest => some (x, rest)) hcons.symm
  | product =>
    rw [readTail, productTail]
    split
    · next hnil => rw [hnil]; rfl
    · next c rest' hcons =>
      rw [hcons, List.head?_cons] at h
      have hsymbol : ¬(c = '*' || c = '/' || c = '%') = true := by
        have hnone := And.intro (h .times) (And.intro (h .divide) (h .modulo))
        simpa [Operator.symbol, and_assoc] using hnone
      rw [if_neg hsymbol]
      exact congrArg (fun rest => some (x, rest)) hcons.symm

/-- What follows a closing parenthesis. -/
def afterClose (s : List Char) : Option (List Char) :=
  match Text.trimStart s with
  | c :: rest => if c = ')' then some rest else none
  | [] => none

theorem afterClose_eq_some_iff {after : List Char} :
    afterClose s = some after ↔ Text.trimStart s = ')' :: after := by
  unfold afterClose
  cases Text.trimStart s with
  | nil => simp
  | cons c rest => simp [and_comm]

/-- Behind a parenthesis, a primary is a sum and the parenthesis that closes it. -/
theorem read_primary_of_open (h : Text.trimStart s = '(' :: rest) : read .primary nesting s =
    if nesting = maxNesting then none
    else (read (.chain .sum) (nesting + 1) rest).bind fun (x, after) =>
      (afterClose after).map fun rest => (x, rest) := by
  rw [read, read, primary]
  split
  · next hnil => rw [h] at hnil; cases hnil
  · next c rest' hcons =>
    rw [h] at hcons
    cases hcons
    rw [if_pos rfl]
    by_cases hnesting : nesting = maxNesting
    · rw [if_pos hnesting, if_pos hnesting]
      rfl
    · rw [if_neg hnesting, if_neg hnesting]
      refine outcome_bind fun x after => ?_
      simp only [afterClose]
      split
      · next hnil => rw [hnil]; rfl
      · next d after' hcons =>
        have hclose : (match Text.trimStart after.1 with
            | c :: rest => if c = ')' then some rest else none
            | [] => none) = if d = ')' then some after' else none := by
          rw [hcons]
        rw [hclose]
        by_cases hd : d = ')'
        · rw [if_pos hd, if_pos hd]
          rfl
        · rw [if_neg hd, if_neg hd]
          rfl

/-- Anywhere else, a primary is a literal: the digits and points up to the next other character. -/
theorem read_primary_of_not_open (h : (Text.trimStart s).head? ≠ some '(') :
    read .primary nesting s =
      (Number.readDecimal? ((Text.trimStart s).takeWhile isLiteralChar)).map fun x =>
        (x, (Text.trimStart s).dropWhile isLiteralChar) := by
  rw [read, primary]
  split
  · next hnil =>
    rw [hnil]
    rfl
  · next c rest' hcons =>
    rw [hcons, List.head?_cons] at h
    rw [if_neg fun hc => h (congrArg some hc)]
    refine (outcome_bind_same fun _ _ => rfl).trans ?_
    rw [hcons, literal]
    split
    · next hnil =>
      rw [hnil]
      rfl
    · next d digits hdigits =>
      rw [congrArg Number.readDecimal? hdigits]
      cases Number.readDecimal? (d :: digits) <;> rfl

/-- A primary begins behind the blanks. -/
theorem read_primary_trimStart :
    read .primary nesting (Text.trimStart s) = read .primary nesting s := by
  have htrim := trimStart_trimStart s
  by_cases hopen : (Text.trimStart s).head? = some '('
  · obtain ⟨rest, hrest⟩ := List.head?_eq_some_iff.mp hopen
    rw [read_primary_of_open hrest, read_primary_of_open (htrim.trans hrest)]
  · rw [read_primary_of_not_open hopen, read_primary_of_not_open (htrim.symm ▸ hopen), htrim]

/-- Behind a sign, a unary is a primary. -/
theorem read_unary_of_sign {sign : Operator .sum}
    (h : Text.trimStart s = sign.symbol :: rest) : read .unary nesting s =
      (read .primary nesting rest).map fun (x, after) => (sign.sign x, after) := by
  rw [read, read, unary]
  split
  · next hnil => rw [h] at hnil; cases hnil
  · next c rest' hcons =>
    rw [h] at hcons
    cases hcons
    have hsymbol : (sign.symbol = '-' || sign.symbol = '+') = true := by
      cases sign <;> decide
    rw [if_pos hsymbol, Option.map_eq_bind]
    refine outcome_bind fun x after => ?_
    cases sign <;> rfl

/-- Without a sign, a unary is a primary. -/
theorem read_unary_of_no_sign
    (h : ∀ sign : Operator .sum, (Text.trimStart s).head? ≠ some sign.symbol) :
    read .unary nesting s = read .primary nesting s := by
  rw [← read_primary_trimStart, read, read, unary]
  split
  · next hnil =>
    rw [hnil, primary]
    rfl
  · next c rest' hcons =>
    rw [hcons, List.head?_cons] at h
    have hsymbol : ¬(c = '-' || c = '+') = true := by
      simpa [Operator.symbol] using And.intro (h .minus) (h .plus)
    rw [if_neg hsymbol]
    refine (outcome_bind_same fun _ _ => rfl).trans ?_
    rw [hcons]

/-- Every reader but those of tails takes some of the text. -/
theorem length_lt_of_read (h : read kind nesting s = some (x, rest)) :
    rest.length < s.length := by
  have hstep {r : Step s} (hr : outcome r = some (x, rest)) : rest.length < s.length := by
    cases r with
    | error _ => cases hr
    | ok read => cases hr; exact read.2.2
  match kind, h with
  | .primary, h | .unary, h | .chain .product, h | .chain .sum, h => exact hstep h

/-! ## What the tokens of a text say about its characters -/

theorem lex_of_symbol {c : Char} (h : Text.trimStart s = c :: rest)
    (hc : isLiteralChar c = false) : lex s = .symbol c :: lex rest := by
  rw [lex]
  split
  · next hnil => rw [h] at hnil; cases hnil
  · next hcons =>
    rw [h] at hcons
    cases hcons
    rw [if_neg (by rw [hc]; exact Bool.false_ne_true)]

theorem lex_of_literal {c : Char} (h : Text.trimStart s = c :: rest)
    (hc : isLiteralChar c = true) :
    lex s = .literal ((Text.trimStart s).takeWhile isLiteralChar) ::
      lex ((Text.trimStart s).dropWhile isLiteralChar) := by
  rw [lex]
  split
  · next hnil => rw [h] at hnil; cases hnil
  · next hcons =>
    rw [h] at hcons ⊢
    cases hcons
    rw [if_pos hc, List.takeWhile_cons_of_pos hc, List.dropWhile_cons_of_pos hc]

theorem lex_eq_nil_iff : lex s = [] ↔ Text.trimStart s = [] := by
  rw [lex]
  split
  · next hnil => simp [hnil]
  · next hcons =>
    rw [hcons]
    split <;> simp

theorem lex_trimStart : lex (Text.trimStart s) = lex s := by
  have htrim := trimStart_trimStart s
  cases hs : Text.trimStart s with
  | nil => rw [lex_eq_nil_iff.mpr hs, lex_eq_nil_iff.mpr rfl]
  | cons c rest =>
    rw [hs] at htrim
    cases hc : isLiteralChar c with
    | true => rw [lex_of_literal hs hc, lex_of_literal htrim hc, hs, htrim]
    | false => rw [lex_of_symbol hs hc, lex_of_symbol htrim hc]

/-- A token that is a symbol is the first character that is not blank. -/
theorem of_lex_symbol {c : Char} {tokens : List Token} (h : lex s = .symbol c :: tokens) :
    ∃ rest, Text.trimStart s = c :: rest ∧ lex rest = tokens := by
  cases hs : Text.trimStart s with
  | nil => rw [lex_eq_nil_iff.mpr hs] at h; cases h
  | cons d rest =>
    cases hd : isLiteralChar d with
    | true => rw [lex_of_literal hs hd] at h; cases h
    | false =>
      rw [lex_of_symbol hs hd] at h
      cases h
      exact ⟨rest, rfl, rfl⟩

/-- A token that is a literal is the run of digits and points behind the blanks. -/
theorem of_lex_literal {digits : List Char} {tokens : List Token}
    (h : lex s = .literal digits :: tokens) :
    (∃ c rest, Text.trimStart s = c :: rest ∧ isLiteralChar c = true) ∧
      (Text.trimStart s).takeWhile isLiteralChar = digits ∧
      lex ((Text.trimStart s).dropWhile isLiteralChar) = tokens := by
  cases hs : Text.trimStart s with
  | nil => rw [lex_eq_nil_iff.mpr hs] at h; cases h
  | cons d rest =>
    cases hd : isLiteralChar d with
    | true =>
      rw [lex_of_literal hs hd, hs] at h
      cases h
      exact ⟨⟨d, rest, rfl, hd⟩, rfl, rfl⟩
    | false => rw [lex_of_symbol hs hd] at h; cases h

theorem Operator.isLiteralChar_symbol (operator : Operator level) :
    isLiteralChar operator.symbol = false := by
  cases operator <;> decide

theorem Operator.eq_of_symbol {operator operator' : Operator level}
    (h : operator.symbol = operator'.symbol) : operator = operator' := by
  cases operator <;> cases operator' <;> first | rfl | exact absurd h (by decide)

theorem lex_of_operator {operator : Operator level}
    (h : Text.trimStart s = operator.symbol :: rest) :
    lex s = .symbol operator.symbol :: lex rest :=
  lex_of_symbol h operator.isLiteralChar_symbol

/-! ## Where a chain ends -/

/-- No operator of a level comes next. -/
def Level.EndsAt (level : Level) (tokens : List Token) : Prop :=
  ∀ operator : Operator level, tokens.head? ≠ some (.symbol operator.symbol)

/-- What comes next does not belong to a text of a kind. -/
def Kind.EndsAt : Kind → List Token → Prop
  | .primary, _ | .unary, _ => True
  | .chain .product, tokens => Level.product.EndsAt tokens
  | .chain .sum, tokens => Level.sum.EndsAt tokens ∧ Level.product.EndsAt tokens

variable {after : List Token}

theorem Kind.EndsAt.of_level (h : (Kind.chain level).EndsAt after) : level.EndsAt after := by
  cases level with
  | sum => exact h.1
  | product => exact h

theorem Kind.EndsAt.of_operand (h : (Kind.chain level).EndsAt after) :
    level.operand.EndsAt after := by
  cases level with
  | sum => exact h.2
  | product => trivial

/-- An operand ends where the chain goes on, or where it ends itself. -/
theorem Kind.EndsAt.of_others (h : (Kind.chain level).EndsAt after) (others : Others level) :
    level.operand.EndsAt (others.tokens ++ after) := by
  cases others with
  | none => exact h.of_operand
  | next operator right others =>
    cases level with
    | product => trivial
    | sum =>
      intro operator' hsame
      rw [Others.tokens, List.cons_append, List.head?_cons] at hsame
      cases operator <;> cases operator' <;> exact absurd hsame (by decide)

theorem endsAt_nil : (Kind.chain .sum).EndsAt [] :=
  ⟨fun operator => by simp, fun operator => by simp⟩

theorem endsAt_close : (Kind.chain .sum).EndsAt (.symbol ')' :: after) :=
  ⟨fun operator => by cases operator <;> simp [Operator.symbol],
    fun operator => by cases operator <;> simp [Operator.symbol]⟩

theorem Level.EndsAt.trimStart (h : level.EndsAt (lex s)) (operator : Operator level) :
    (Text.trimStart s).head? ≠ some operator.symbol := by
  intro hhead
  obtain ⟨rest, hrest⟩ := List.head?_eq_some_iff.mp hhead
  refine h operator ?_
  rw [lex_of_operator hrest, List.head?_cons]

/-- No primary begins with a sign. -/
theorem Tree.head?_tokens_primary (tree : Tree .primary) (operator : Operator level) :
    (tree.tokens ++ after).head? ≠ some (.symbol operator.symbol) := by
  cases tree with
  | literal digits => simp [Tree.tokens]
  | group inside =>
    rw [Tree.tokens, List.cons_append, List.head?_cons]
    cases operator <;> decide

/-! ## Every tree is read -/

mutual

/-- A tree that is not too deep and has a value is read where its tokens are, and nothing of what
does not belong to it is. -/
theorem Tree.read_eq {kind : Kind} (tree : Tree kind) {nesting : Nat} {s : List Char}
    {after : List Token} {x : Float} (hlex : lex s = tree.tokens ++ after)
    (hdepth : nesting + tree.depth ≤ maxNesting) (hends : kind.EndsAt after)
    (hvalue : tree.value? = some x) :
    ∃ rest, read kind nesting s = some (x, rest) ∧ lex rest = after := by
  match kind, tree with
  | _, .literal digits =>
    obtain ⟨⟨c, rest, hcons, hc⟩, hdigits, hafter⟩ := of_lex_literal hlex
    have hopen : (Text.trimStart s).head? ≠ some '(' := by
      rw [hcons, List.head?_cons]
      rintro ⟨rfl⟩
      exact absurd hc (by decide)
    refine ⟨_, ?_, hafter⟩
    rw [read_primary_of_not_open hopen, hdigits]
    rw [Tree.value?] at hvalue
    rw [hvalue]
    rfl
  | _, .group inside =>
    rw [Tree.tokens, List.cons_append, List.append_assoc] at hlex
    rw [Tree.depth] at hdepth
    have hdeeper : nesting + 1 + inside.depth ≤ maxNesting := by omega
    obtain ⟨rest, hrest, hinside⟩ := of_lex_symbol hlex
    obtain ⟨rest', hread, hlex'⟩ := inside.read_eq hinside hdeeper endsAt_close hvalue
    obtain ⟨rest'', hclose, hafter⟩ := of_lex_symbol hlex'
    refine ⟨rest'', ?_, hafter⟩
    rw [read_primary_of_open hrest, if_neg (by omega), hread]
    exact congrArg (Option.map _) (afterClose_eq_some_iff.mpr hclose)
  | _, .plain primary =>
    have hsign (sign : Operator .sum) : (Text.trimStart s).head? ≠ some sign.symbol := by
      refine Level.EndsAt.trimStart (fun operator => ?_) sign
      rw [hlex]
      exact primary.head?_tokens_primary operator
    rw [read_unary_of_no_sign hsign]
    exact primary.read_eq hlex hdepth trivial hvalue
  | _, .signed sign primary =>
    obtain ⟨rest, hrest, hprimary⟩ := of_lex_symbol hlex
    obtain ⟨y, hy, rfl⟩ := Option.map_eq_some_iff.mp hvalue
    obtain ⟨rest', hread, hafter⟩ := primary.read_eq hprimary hdepth trivial hy
    refine ⟨rest', ?_, hafter⟩
    rw [read_unary_of_sign hrest, hread]
    rfl
  | .chain level, .chain first others =>
    rw [Tree.tokens, List.append_assoc] at hlex
    rw [Tree.depth] at hdepth
    have hdepth' : nesting + first.depth ≤ maxNesting ∧ nesting + others.depth ≤ maxNesting := by
      omega
    obtain ⟨y, hy, hothers⟩ := Option.bind_eq_some_iff.mp hvalue
    obtain ⟨rest, hread, hrest⟩ := first.read_eq hlex hdepth'.1 (hends.of_others others) hy
    obtain ⟨rest', hread', hafter⟩ := others.readTail_eq hrest hdepth'.2 hends hothers
    refine ⟨rest', ?_, hafter⟩
    rw [read_chain, hread]
    exact hread'

theorem Others.readTail_eq {level : Level} (others : Others level) {nesting : Nat} {s : List Char}
    {after : List Token} {x z : Float} (hlex : lex s = others.tokens ++ after)
    (hdepth : nesting + others.depth ≤ maxNesting) (hends : (Kind.chain level).EndsAt after)
    (hvalue : others.value? x = some z) :
    ∃ rest, readTail level nesting x s = some (z, rest) ∧ lex rest = after := by
  match others with
  | .none =>
    obtain rfl : lex s = after := hlex
    obtain rfl : x = z := Option.some.inj hvalue
    exact ⟨_, readTail_of_end hends.of_level.trimStart, lex_trimStart⟩
  | .next operator right others =>
    rw [Others.tokens, List.cons_append, List.append_assoc] at hlex
    rw [Others.depth] at hdepth
    have hdepth' : nesting + right.depth ≤ maxNesting ∧ nesting + others.depth ≤ maxNesting := by
      omega
    obtain ⟨y, hy, hvalue⟩ := Option.bind_eq_some_iff.mp hvalue
    obtain ⟨w, hw, hothers⟩ := Option.bind_eq_some_iff.mp hvalue
    obtain ⟨rest, hrest, hright⟩ := of_lex_symbol hlex
    obtain ⟨rest', hread, hrest'⟩ :=
      right.read_eq hright hdepth'.1 (hends.of_others others) hy
    obtain ⟨rest'', hread', hafter⟩ := others.readTail_eq hrest' hdepth'.2 hends hothers
    refine ⟨rest'', ?_, hafter⟩
    simp only [readTail_of_symbol hrest, hread, hw, Option.bind_some]
    exact hread'

end

/-! ## Whatever is read is a tree -/

/-- The order in which readers call each other without taking any text. -/
def Kind.rank : Kind → Nat
  | .primary => 0
  | .unary => 1
  | .chain .product => 2
  | .chain .sum => 3

theorem Level.rank_operand (level : Level) : level.operand.rank < (Kind.chain level).rank := by
  cases level <;> decide

mutual

/-- What is read is the text of a tree that is not too deep, with its value, and what is left is the
text after it. -/
theorem exists_tree_of_read {kind : Kind} {nesting : Nat} {s rest : List Char} {x : Float}
    (hnesting : nesting ≤ maxNesting) (h : read kind nesting s = some (x, rest)) :
    rest <:+ s ∧ ∃ tree : Tree kind, lex s = tree.tokens ++ lex rest ∧
      nesting + tree.depth ≤ maxNesting ∧ tree.value? = some x := by
  match kind with
  | .primary =>
    by_cases hopen : (Text.trimStart s).head? = some '('
    · obtain ⟨inner, hinner⟩ := List.head?_eq_some_iff.mp hopen
      rw [read_primary_of_open hinner] at h
      split at h
      · cases h
      · next hdeep =>
        obtain ⟨⟨y, after⟩, hsum, h⟩ := Option.bind_eq_some_iff.mp h
        obtain ⟨_, hafter, hpair⟩ := Option.map_eq_some_iff.mp h
        cases hpair
        have hlt := trimStart_cons_length hinner
        have hclose := afterClose_eq_some_iff.mp hafter
        have hdeeper : nesting + 1 ≤ maxNesting := by omega
        obtain ⟨hsuffix, inside, hlex, hdepth, hvalue⟩ := exists_tree_of_read hdeeper hsum
        refine ⟨?_, .group inside, ?_, ?_, hvalue⟩
        · exact (suffix_of_trimStart hclose).trans (hsuffix.trans (suffix_of_trimStart hinner))
        · rw [lex_of_symbol hinner (by decide), hlex, lex_of_symbol hclose (by decide),
            Tree.tokens, List.cons_append, List.append_assoc, List.singleton_append]
        · rw [Tree.depth]
          omega
    · rw [read_primary_of_not_open hopen] at h
      obtain ⟨y, hy, hpair⟩ := Option.map_eq_some_iff.mp h
      cases hpair
      refine ⟨(List.dropWhile_suffix _).trans (List.dropWhile_suffix _),
        .literal ((Text.trimStart s).takeWhile isLiteralChar), ?_, hnesting, hy⟩
      cases hs : Text.trimStart s with
      | nil => rw [hs] at hy; cases hy
      | cons c rest =>
        cases hc : isLiteralChar c with
        | true => rw [lex_of_literal hs hc, hs]; rfl
        | false =>
          -- There are no digits and points here, and nothing at all is no number.
          rw [hs, List.takeWhile_cons_of_neg (by rw [hc]; exact Bool.false_ne_true)] at hy
          cases hy
  | .unary =>
    by_cases hsign : ∃ sign : Operator .sum, (Text.trimStart s).head? = some sign.symbol
    · obtain ⟨sign, hsign⟩ := hsign
      obtain ⟨inner, hinner⟩ := List.head?_eq_some_iff.mp hsign
      rw [read_unary_of_sign hinner] at h
      obtain ⟨⟨y, after⟩, hprimary, hpair⟩ := Option.map_eq_some_iff.mp h
      cases hpair
      have hlt := trimStart_cons_length hinner
      obtain ⟨hsuffix, primary, hlex, hdepth, hvalue⟩ := exists_tree_of_read hnesting hprimary
      refine ⟨hsuffix.trans (suffix_of_trimStart hinner), .signed sign primary, ?_, hdepth, ?_⟩
      · rw [lex_of_operator hinner, hlex, Tree.tokens, List.cons_append]
      · rw [Tree.value?, hvalue]
        rfl
    · rw [read_unary_of_no_sign fun sign hhead => hsign ⟨sign, hhead⟩] at h
      obtain ⟨hsuffix, primary, hlex, hdepth, hvalue⟩ := exists_tree_of_read hnesting h
      exact ⟨hsuffix, .plain primary, hlex, hdepth, hvalue⟩
  | .chain level =>
    rw [read_chain] at h
    obtain ⟨⟨y, after⟩, hfirst, htail⟩ := Option.bind_eq_some_iff.mp h
    have hlt := length_lt_of_read hfirst
    obtain ⟨hsuffix, first, hlex, hdepth, hvalue⟩ := exists_tree_of_read hnesting hfirst
    obtain ⟨hsuffix', others, hlex', hdepth', hvalue'⟩ :=
      exists_others_of_readTail hnesting htail
    refine ⟨hsuffix'.trans hsuffix, .chain first others, ?_, ?_, ?_⟩
    · rw [hlex, hlex', Tree.tokens, List.append_assoc]
    · rw [Tree.depth]
      omega
    · rw [Tree.value?, hvalue]
      exact hvalue'
termination_by (s.length, kind.rank)
decreasing_by
  · exact Prod.Lex.left _ _ hlt
  · exact Prod.Lex.left _ _ hlt
  · exact Prod.Lex.right _ (by decide)
  · exact Prod.Lex.right _ level.rank_operand
  · exact Prod.Lex.left _ _ hlt

theorem exists_others_of_readTail {level : Level} {nesting : Nat} {s rest : List Char}
    {x z : Float} (hnesting : nesting ≤ maxNesting)
    (h : readTail level nesting x s = some (z, rest)) :
    rest <:+ s ∧ ∃ others : Others level, lex s = others.tokens ++ lex rest ∧
      nesting + others.depth ≤ maxNesting ∧ others.value? x = some z := by
  by_cases hoperator : ∃ operator : Operator level,
    (Text.trimStart s).head? = some operator.symbol
  · obtain ⟨operator, hoperator⟩ := hoperator
    obtain ⟨inner, hinner⟩ := List.head?_eq_some_iff.mp hoperator
    rw [readTail_of_symbol hinner] at h
    obtain ⟨⟨y, after⟩, hright, h⟩ := Option.bind_eq_some_iff.mp h
    obtain ⟨w, hw, htail⟩ := Option.bind_eq_some_iff.mp h
    have hlt := trimStart_cons_length hinner
    have hlt' := length_lt_of_read hright
    obtain ⟨hsuffix, right, hlex, hdepth, hvalue⟩ := exists_tree_of_read hnesting hright
    obtain ⟨hsuffix', others, hlex', hdepth', hvalue'⟩ :=
      exists_others_of_readTail hnesting htail
    refine ⟨hsuffix'.trans (hsuffix.trans (suffix_of_trimStart hinner)),
      .next operator right others, ?_, ?_, ?_⟩
    · rw [lex_of_operator hinner, hlex, hlex', Others.tokens, List.cons_append,
        List.append_assoc]
    · rw [Others.depth]
      omega
    · simp only [Others.value?, hvalue, hw, Option.bind_some]
      exact hvalue'
  · rw [readTail_of_end fun operator hhead => hoperator ⟨operator, hhead⟩] at h
    cases h
    refine ⟨List.dropWhile_suffix _, .none, ?_, hnesting, rfl⟩
    rw [lex_trimStart]
    rfl
termination_by (s.length, 0)
decreasing_by
  · exact Prod.Lex.left _ _ hlt
  · exact Prod.Lex.left _ _ (hlt'.trans hlt)

end

/-! ## Tokens determine their tree -/

mutual

/-- Two trees whose tokens stand at the start of the same tokens are the same one, if neither goes
on behind its own. -/
theorem Tree.eq_of_tokens {kind : Kind} (tree tree' : Tree kind) {after after' : List Token}
    (h : tree.tokens ++ after = tree'.tokens ++ after') (hends : kind.EndsAt after)
    (hends' : kind.EndsAt after') : tree = tree' ∧ after = after' := by
  match kind, tree, tree' with
  | _, .literal digits, .literal digits' =>
    obtain ⟨hdigits, rfl⟩ := List.cons.inj h
    cases hdigits
    exact ⟨rfl, rfl⟩
  | _, .literal digits, .group inside => exact absurd (List.cons.inj h).1 (by simp)
  | _, .group inside, .literal digits => exact absurd (List.cons.inj h).1 (by simp)
  | _, .group inside, .group inside' =>
    simp only [Tree.tokens, List.cons_append, List.append_assoc] at h
    obtain ⟨rfl, hafter⟩ :=
      inside.eq_of_tokens inside' (List.cons.inj h).2 endsAt_close endsAt_close
    exact ⟨rfl, (List.cons.inj hafter).2⟩
  | _, .plain primary, .plain primary' =>
    obtain ⟨rfl, rfl⟩ := primary.eq_of_tokens primary' h trivial trivial
    exact ⟨rfl, rfl⟩
  | _, .plain primary, .signed sign primary' =>
    exact absurd (congrArg List.head? h) (primary.head?_tokens_primary sign)
  | _, .signed sign primary, .plain primary' =>
    exact absurd (congrArg List.head? h.symm) (primary'.head?_tokens_primary sign)
  | _, .signed sign primary, .signed sign' primary' =>
    obtain ⟨hsign, hprimary⟩ := List.cons.inj h
    obtain rfl : sign = sign' := Operator.eq_of_symbol (Token.symbol.inj hsign)
    obtain ⟨rfl, rfl⟩ := primary.eq_of_tokens primary' hprimary trivial trivial
    exact ⟨rfl, rfl⟩
  | .chain level, .chain first others, .chain first' others' =>
    simp only [Tree.tokens, List.append_assoc] at h
    obtain ⟨rfl, hothers⟩ :=
      first.eq_of_tokens first' h (hends.of_others others) (hends'.of_others others')
    obtain ⟨rfl, rfl⟩ := others.eq_of_tokens others' hothers hends hends'
    exact ⟨rfl, rfl⟩

theorem Others.eq_of_tokens {level : Level} (others others' : Others level)
    {after after' : List Token} (h : others.tokens ++ after = others'.tokens ++ after')
    (hends : (Kind.chain level).EndsAt after) (hends' : (Kind.chain level).EndsAt after') :
    others = others' ∧ after = after' := by
  match others, others' with
  | .none, .none => exact ⟨rfl, h⟩
  | .none, .next operator right others =>
    exact absurd (congrArg List.head? h) (hends.of_level operator)
  | .next operator right others, .none =>
    exact absurd (congrArg List.head? h.symm) (hends'.of_level operator)
  | .next operator right others, .next operator' right' others' =>
    simp only [Others.tokens, List.cons_append, List.append_assoc] at h
    obtain ⟨hoperator, hright⟩ := List.cons.inj h
    obtain rfl : operator = operator' := Operator.eq_of_symbol (Token.symbol.inj hoperator)
    obtain ⟨rfl, hothers⟩ :=
      right.eq_of_tokens right' hright (hends.of_others others) (hends'.of_others others')
    obtain ⟨rfl, rfl⟩ := others.eq_of_tokens others' hothers hends hends'
    exact ⟨rfl, rfl⟩

end

/-! ## Turns of the loops -/

/-- One turn of the loop that reads a chain: an operator and the operand on its right are taken from
the text, and the value up to here is joined with that of the operand. -/
def Turn (level : Level) (nesting : Nat) (before after : Float × List Char) : Prop :=
  ∃ (operator : Operator level) (inner : List Char) (y : Float),
    Text.trimStart before.2 = operator.symbol :: inner ∧
    read level.operand nesting inner = some (y, after.2) ∧
    operator.combine? before.1 y = some after.1

theorem Turn.length_lt {before after : Float × List Char} (h : Turn level nesting before after) :
    after.2.length < before.2.length := by
  obtain ⟨operator, inner, y, hinner, hread, -⟩ := h
  exact (length_lt_of_read hread).trans (trimStart_cons_length hinner)

theorem Turn.readTail_eq {before after : Float × List Char}
    (h : Turn level nesting before after) :
    readTail level nesting before.1 before.2 = readTail level nesting after.1 after.2 := by
  obtain ⟨operator, inner, y, hinner, hread, hvalue⟩ := h
  simp only [readTail_of_symbol hinner, hread, hvalue, Option.bind_some]

/-- Each turn takes some of the text. -/
theorem Turn.exists_consumed {before after : Float × List Char} (hnesting : nesting ≤ maxNesting)
    (h : Turn level nesting before after) :
    ∃ consumed, consumed ≠ [] ∧ before.2 = consumed ++ after.2 := by
  have hlt := h.length_lt
  obtain ⟨operator, inner, y, hinner, hread, -⟩ := h
  obtain ⟨hsuffix, -⟩ := exists_tree_of_read hnesting hread
  obtain ⟨consumed, hconsumed⟩ := hsuffix.trans (suffix_of_trimStart hinner)
  refine ⟨consumed, ?_, hconsumed.symm⟩
  rintro rfl
  rw [← hconsumed, List.nil_append] at hlt
  exact Nat.lt_irrefl _ hlt

/-- There is no end of turns without an end. -/
theorem wellFounded_turn (level : Level) (nesting : Nat) :
    WellFounded fun after before => Turn level nesting before after :=
  Subrelation.wf (fun h => Turn.length_lt h) (measure fun p : Float × List Char => p.2.length).wf

/-- The loop makes turns until no operator of its level follows. -/
theorem readTail_eq_some_iff {before : Float × List Char} {z : Float} {rest : List Char} :
    readTail level nesting before.1 before.2 = some (z, rest) ↔
      ∃ last, Relation.ReflTransGen (Turn level nesting) before (z, last) ∧
        (∀ operator : Operator level, (Text.trimStart last).head? ≠ some operator.symbol) ∧
        rest = Text.trimStart last := by
  constructor
  · intro h
    induction before using (wellFounded_turn level nesting).induction with
    | h before ih =>
      by_cases hoperator : ∃ operator : Operator level,
        (Text.trimStart before.2).head? = some operator.symbol
      · obtain ⟨operator, hoperator⟩ := hoperator
        obtain ⟨inner, hinner⟩ := List.head?_eq_some_iff.mp hoperator
        have hread := h
        rw [readTail_of_symbol hinner] at hread
        obtain ⟨⟨y, after⟩, hright, hread⟩ := Option.bind_eq_some_iff.mp hread
        obtain ⟨w, hw, htail⟩ := Option.bind_eq_some_iff.mp hread
        have hturn : Turn level nesting before (w, after) :=
          ⟨operator, inner, y, hinner, hright, hw⟩
        obtain ⟨last, hlast, hend⟩ := ih (w, after) hturn htail
        exact ⟨last, .head hturn hlast, hend⟩
      · have hend (operator : Operator level) :
            (Text.trimStart before.2).head? ≠ some operator.symbol :=
          fun hhead => hoperator ⟨operator, hhead⟩
        rw [readTail_of_end hend] at h
        cases h
        exact ⟨before.2, .refl, hend, rfl⟩
  · rintro ⟨last, hturns, hend, rfl⟩
    induction hturns using Relation.ReflTransGen.head_induction_on with
    | refl => exact readTail_of_end hend
    | head hturn _ ih => rw [hturn.readTail_eq, ih]

/-! ## The value of a text -/

/-- A text has a value if a sum is read from it and nothing but blanks is left. -/
theorem evaluate_eq_ok_iff {s : List Char} {x : Float} :
    evaluate s = .ok x ↔
      ∃ rest, read (.chain .sum) 0 s = some (x, rest) ∧ Text.trimStart rest = [] := by
  rw [evaluate, read]
  cases sum 0 s with
  | error error =>
    constructor
    · intro h
      cases h
    · rintro ⟨rest, h, -⟩
      cases h
  | ok result =>
    obtain ⟨y, rest, hrest⟩ := result
    simp only [bind, Except.bind, outcome]
    cases htrim : Text.trimStart rest with
    | nil =>
      constructor
      · intro h
        cases h
        exact ⟨rest, rfl, htrim⟩
      · rintro ⟨rest', h, -⟩
        cases h
        rfl
    | cons c more =>
      constructor
      · intro h
        cases h
      · rintro ⟨rest', h, hblank⟩
        cases h
        rw [htrim] at hblank
        cases hblank

/-- `evaluate` gives a text the value of the tree with its tokens, if there is one whose parentheses
nest at most 128 deep and which has a value, and an error otherwise. There is at most one tree with
these tokens. The loops that read a chain make turns as long as an operator of their level follows,
and no turn leaves the text as long as it was, so there is a last one. -/
theorem evaluate_grammar (s : List Char) :
    (∀ x, evaluate s = .ok x ↔
      ∃ tree : Tree (.chain .sum), tree.tokens = lex s ∧ tree.depth ≤ 128 ∧
        tree.value? = some x) ∧
    (∀ tree tree' : Tree (.chain .sum), tree.tokens = lex s → tree'.tokens = lex s →
      tree = tree') ∧
    ((∃ error, evaluate s = .error error) ↔
      ∀ tree : Tree (.chain .sum), tree.tokens = lex s → tree.depth ≤ 128 →
        tree.value? = none) ∧
    (∀ level nesting, nesting ≤ 128 → ∀ before after : Float × List Char,
      Turn level nesting before after →
        ∃ consumed, consumed ≠ [] ∧ before.2 = consumed ++ after.2) ∧
    (∀ level nesting, WellFounded fun after before => Turn level nesting before after) ∧
    ∀ level nesting (before : Float × List Char) z rest,
      readTail level nesting before.1 before.2 = some (z, rest) ↔
        ∃ last, Relation.ReflTransGen (Turn level nesting) before (z, last) ∧
          (∀ operator : Operator level, (Text.trimStart last).head? ≠ some operator.symbol) ∧
          rest = Text.trimStart last := by
  have hvalue (x : Float) : evaluate s = .ok x ↔
      ∃ tree : Tree (.chain .sum), tree.tokens = lex s ∧ tree.depth ≤ 128 ∧
        tree.value? = some x := by
    rw [evaluate_eq_ok_iff]
    constructor
    · rintro ⟨rest, hread, hblank⟩
      obtain ⟨-, tree, hlex, hdepth, hvalue⟩ := exists_tree_of_read (Nat.zero_le _) hread
      rw [lex_eq_nil_iff.mpr hblank, List.append_nil] at hlex
      rw [Nat.zero_add] at hdepth
      exact ⟨tree, hlex.symm, hdepth, hvalue⟩
    · rintro ⟨tree, hlex, hdepth, hvalue⟩
      have hall : lex s = tree.tokens ++ [] := by rw [hlex, List.append_nil]
      have hshallow : 0 + tree.depth ≤ maxNesting := by
        rw [Nat.zero_add]
        exact hdepth
      obtain ⟨rest, hread, hrest⟩ := tree.read_eq hall hshallow endsAt_nil hvalue
      exact ⟨rest, hread, lex_eq_nil_iff.mp hrest⟩
  refine ⟨hvalue, ?_, ?_, fun level nesting hnesting before after hturn =>
    hturn.exists_consumed hnesting, wellFounded_turn, fun level nesting before z rest =>
    readTail_eq_some_iff⟩
  · intro tree tree' h h'
    exact (tree.eq_of_tokens tree' (congrArg (· ++ []) (h.trans h'.symm)) endsAt_nil
      endsAt_nil).1
  · constructor
    · rintro ⟨error, herror⟩ tree htokens hdepth
      rw [Option.eq_none_iff_forall_ne_some]
      intro x hx
      rw [(hvalue x).mpr ⟨tree, htokens, hdepth, hx⟩] at herror
      cases herror
    · intro hnone
      cases hresult : evaluate s with
      | error error => exact ⟨error, rfl⟩
      | ok x =>
        obtain ⟨tree, htokens, hdepth, hx⟩ := (hvalue x).mp hresult
        rw [hnone tree htokens hdepth] at hx
        cases hx

end CallScript.Arithmetic
