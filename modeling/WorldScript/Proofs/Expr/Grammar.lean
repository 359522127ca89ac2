import WorldScript.Expr.Parse

/-! # The grammar of expressions

Expressions are built on eight levels. On the five levels of binary operators, a phrase is one of
the next stronger level, or a phrase of its own level, an operator and a phrase of the next stronger
level, so that operators group to the left. Below them are *operands*: a minus or `not` in front of
an operand, or a primary phrase with indices after it. Primary phrases are literals, names, calls
and expressions in parentheses.

A phrase carries its tokens, its tree and its *nesting*: the greatest number of operands that are
nested in one another, through operators in front, brackets and arguments. So no operand of a phrase
of nesting `d` stands inside of more than `d - 1` others.

* `Grammar.Derives`: the phrases of each level.
* `Grammar.Stops`: tokens that cannot continue a phrase of a level. -/

namespace WorldScript.Grammar

/-- The levels of phrases, from the weakest to the strongest. -/
inductive Level
  | or | and | comparison | sum | product | operand | indexed | primary
  deriving DecidableEq, Repr

/-- The level of the operands of a binary operator. -/
def Level.operands? : Level → Option Level
  | or => some and
  | and => some comparison
  | comparison => some sum
  | sum => some product
  | product => some operand
  | _ => none

/-- The binary operators of each level, with their tokens. -/
inductive Operator : Level → Token → BinaryOp → Prop
  | or : Operator .or .or .or
  | and : Operator .and .and .and
  | equal : Operator .comparison .equal .equal
  | unequal : Operator .comparison .unequal .unequal
  | less : Operator .comparison .less .less
  | atMost : Operator .comparison .atMost .atMost
  | greater : Operator .comparison .greater .greater
  | atLeast : Operator .comparison .atLeast .atLeast
  | add : Operator .sum .plus .add
  | sub : Operator .sum .minus .sub
  | mul : Operator .product .star .mul
  | div : Operator .product .slash .div
  | rem : Operator .product .percent .rem

/-- Tokens with the tree that they stand for. -/
structure Phrase where
  tokens : List Token
  tree : Tree
  /-- The greatest number of operands that are nested in one another. -/
  nesting : Nat

/-- The tokens of phrases with commas between them. -/
def Phrase.separated (args : List Phrase) : List Token :=
  [Token.comma].intercalate (args.map Phrase.tokens)

/-- The greatest nesting of some phrases. -/
def Phrase.nestingAll (args : List Phrase) : Nat := (args.map Phrase.nesting).foldr max 0

/-- **The grammar.** -/
inductive Derives : Level → Phrase → Prop
  | stronger {l m : Level} {p : Phrase} : l.operands? = some m → Derives m p → Derives l p
  | binary {l m : Level} {t : Token} {op : BinaryOp} {p q : Phrase} :
    l.operands? = some m → Operator l t op → Derives l p → Derives m q →
    Derives l ⟨p.tokens ++ t :: q.tokens, .binary op p.tree q.tree, max p.nesting q.nesting⟩
  | negate {p : Phrase} : Derives .operand p →
    Derives .operand ⟨.minus :: p.tokens, .unary .negate p.tree, p.nesting + 1⟩
  | not {p : Phrase} : Derives .operand p →
    Derives .operand ⟨.bang :: p.tokens, .unary .not p.tree, p.nesting + 1⟩
  | operand {p : Phrase} : Derives .indexed p →
    Derives .operand ⟨p.tokens, p.tree, p.nesting + 1⟩
  | plain {p : Phrase} : Derives .primary p → Derives .indexed p
  | index {p key : Phrase} : Derives .indexed p → Derives .or key →
    Derives .indexed ⟨p.tokens ++ .openBracket :: key.tokens ++ [.closeBracket],
      .index p.tree key.tree, max p.nesting key.nesting⟩
  | number (n : Float) : Derives .primary ⟨[.number n], .number n, 0⟩
  | text (s : String) : Derives .primary ⟨[.text s], .text s, 0⟩
  | var (name : String) : Derives .primary ⟨[.var name], .var name, 0⟩
  | isTrue {w : String} : Text.lower w = "true" → Derives .primary ⟨[.word w], .boolean true, 0⟩
  | isFalse {w : String} : Text.lower w = "false" → Derives .primary ⟨[.word w], .boolean false, 0⟩
  | name {w : String} : Text.lower w ≠ "true" → Text.lower w ≠ "false" →
    Derives .primary ⟨[.word w], .var w, 0⟩
  | call {w : String} {args : List Phrase} : (∀ p ∈ args, Derives .or p) →
    Derives .primary ⟨.word w :: .openParen :: Phrase.separated args ++ [.closeParen],
      .call w (args.map Phrase.tree), Phrase.nestingAll args⟩
  | parens {p : Phrase} : Derives .or p →
    Derives .primary ⟨.openParen :: p.tokens ++ [.closeParen], p.tree, p.nesting⟩

/-! ### Arguments -/

theorem Phrase.separated_cons (p : Phrase) (args : List Phrase) :
    separated (p :: args) = p.tokens ++ args.flatMap (Token.comma :: Phrase.tokens ·) := by
  induction args generalizing p with
  | nil => simp [separated, List.intercalate]
  | cons q args ih =>
    have hrest := ih q
    simp only [separated, List.intercalate, List.map_cons, List.intersperse_cons_cons,
      List.flatten_cons, List.flatMap_cons] at hrest ⊢
    rw [hrest]
    simp

theorem Phrase.nesting_le_nestingAll {p : Phrase} {args : List Phrase} (h : p ∈ args) :
    p.nesting ≤ nestingAll args := by
  induction args with
  | nil => cases h
  | cons q args ih =>
    simp only [nestingAll, List.map_cons, List.foldr_cons]
    rcases List.mem_cons.mp h with rfl | h
    · exact Nat.le_max_left _ _
    · exact Nat.le_trans (ih h) (Nat.le_max_right _ _)

theorem Phrase.nestingAll_le {args : List Phrase} {d : Nat} (h : ∀ p ∈ args, p.nesting ≤ d) :
    nestingAll args ≤ d := by
  induction args with
  | nil => exact Nat.zero_le d
  | cons q args ih =>
    simp only [nestingAll, List.map_cons, List.foldr_cons]
    have hq : q.nesting ≤ d := h q List.mem_cons_self
    have hrest : nestingAll args ≤ d := ih fun p hp => h p (List.mem_cons_of_mem q hp)
    exact Nat.max_le.mpr ⟨hq, hrest⟩

/-! ### How phrases begin -/

/-- A phrase begins with a token, which closes no argument list; below the operands, it is no
operator either. -/
theorem Derives.exists_head {l : Level} {p : Phrase} (h : Derives l p) :
    ∃ t ts, p.tokens = t :: ts ∧ t ≠ .closeParen ∧
      (l = .indexed ∨ l = .primary → t ≠ .minus ∧ t ≠ .bang) := by
  induction h with
  | stronger hl _ ih =>
    obtain ⟨t, ts, hp, ht, -⟩ := ih
    refine ⟨t, ts, hp, ht, ?_⟩
    rintro (rfl | rfl) <;> cases hl
  | binary hl _ _ _ ih =>
    obtain ⟨t, ts, hp, ht, -⟩ := ih
    refine ⟨t, ts ++ _, by rw [hp]; rfl, ht, ?_⟩
    rintro (rfl | rfl) <;> cases hl
  | index _ _ ih =>
    obtain ⟨t, ts, hp, ht, hfirst⟩ := ih
    exact ⟨t, _, by rw [hp]; rfl, ht, fun _ => hfirst (Or.inl rfl)⟩
  | plain _ ih =>
    obtain ⟨t, ts, hp, ht, hfirst⟩ := ih
    exact ⟨t, ts, hp, ht, fun _ => hfirst (Or.inr rfl)⟩
  | operand _ ih =>
    obtain ⟨t, ts, hp, ht, -⟩ := ih
    exact ⟨t, ts, hp, ht, by simp⟩
  | _ => exact ⟨_, _, rfl, by simp, by simp⟩

/-! ### What can follow a phrase -/

/-- The place of a level in the order of strength. -/
def Level.strength : Level → Nat
  | or => 0
  | and => 1
  | comparison => 2
  | sum => 3
  | product => 4
  | operand => 5
  | indexed => 6
  | primary => 7

/-- The strongest level at which a token continues the phrase before it. An open parenthesis makes a
call of a word. -/
def continues? : Token → Option Level
  | .or => some .or
  | .and => some .and
  | .equal => some .comparison
  | .unequal => some .comparison
  | .less => some .comparison
  | .atMost => some .comparison
  | .greater => some .comparison
  | .atLeast => some .comparison
  | .plus => some .sum
  | .minus => some .sum
  | .star => some .product
  | .slash => some .product
  | .percent => some .product
  | .openBracket => some .indexed
  | .openParen => some .primary
  | _ => none

/-- The first of the tokens, if there is one, does not continue a phrase of the level. -/
def Stops (l : Level) (rest : List Token) : Prop :=
  ∀ t ts m, rest = t :: ts → continues? t = some m → m.strength < l.strength

theorem stops_nil (l : Level) : Stops l [] := by
  intro t ts m h
  cases h

theorem stops_cons {l : Level} {t : Token} (ts : List Token)
    (h : ∀ m, continues? t = some m → m.strength < l.strength) : Stops l (t :: ts) := by
  rintro t' ts' m heq hm
  cases heq
  exact h m hm

theorem Stops.mono {l m : Level} {rest : List Token} (h : Stops l rest)
    (hlm : l.strength ≤ m.strength) : Stops m rest := by
  intro t ts k heq hk
  have hless := h t ts k heq hk
  omega

theorem Level.strength_of_operands? {l m : Level} (h : l.operands? = some m) :
    m.strength = l.strength + 1 := by
  cases l <;> cases h <;> rfl

theorem Operator.continues?_eq {l : Level} {t : Token} {op : BinaryOp} (h : Operator l t op) :
    continues? t = some l := by
  cases h <;> rfl

/-- An operator does not continue its operands. -/
theorem Operator.stops {l m : Level} {t : Token} {op : BinaryOp} (h : Operator l t op)
    (hl : l.operands? = some m) (ts : List Token) : Stops m (t :: ts) := by
  refine stops_cons ts fun k hk => ?_
  rw [h.continues?_eq, Option.some.injEq] at hk
  subst hk
  have hstrength := Level.strength_of_operands? hl
  omega

end WorldScript.Grammar
