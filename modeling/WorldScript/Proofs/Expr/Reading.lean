import WorldScript.Proofs.Expr.Grammar
import WorldScript.Proofs.Expr.Typed

/-! # Reading expressions is deriving them

Each level of the grammar has a reader, with a budget of nesting. What a reader takes from the front
of some tokens is a phrase of its level, nested no deeper than the budget and with a tree that is
not too tall. Conversely a reader takes all of such a phrase, provided that the tokens after it do
not continue it.

* `Grammar.operand_sound`, `Grammar.sound_of_operand`: what is read is a phrase.
* `Grammar.Derives.taken`: phrases are read.
* `Tree.ofTokens_eq_ok_iff`: the trees of whole lists of tokens. -/

namespace WorldScript.Grammar

open WorldScript.Tree (Reader bounded chain chainAfter expression indexed indicesAfter
  argumentsAfter arguments primary maxDepth)

/-! ### Readers by level -/

namespace Level

/-- The operators that a reader of the level looks for. -/
def op? : Level → Token → Option BinaryOp
  | or => Tree.orOp?
  | and => Tree.andOp?
  | comparison => Tree.comparisonOp?
  | sum => Tree.sumOp?
  | product => Tree.productOp?
  | _ => fun _ => none

theorem op?_eq_some_iff {l : Level} {t : Token} {op : BinaryOp} :
    l.op? t = some op ↔ Operator l t op := by
  constructor
  · intro h
    cases l <;> cases t <;> cases h <;> constructor
  · intro h
    cases h <;> rfl

/-- The reader of a level. Below the operands, the budget is that of the expressions inside. -/
def reader (budget : Nat) : Level → Reader Tree
  | or => expression (Tree.operand budget)
  | and => chain Tree.andOp? (chain Tree.comparisonOp? (chain Tree.sumOp?
      (chain Tree.productOp? (Tree.operand budget))))
  | comparison => chain Tree.comparisonOp? (chain Tree.sumOp?
      (chain Tree.productOp? (Tree.operand budget)))
  | sum => chain Tree.sumOp? (chain Tree.productOp? (Tree.operand budget))
  | product => chain Tree.productOp? (Tree.operand budget)
  | operand => Tree.operand budget
  | indexed => Tree.indexed (expression (Tree.operand budget))
  | primary => Tree.primary (expression (Tree.operand budget))

theorem reader_eq_chain {l m : Level} (h : l.operands? = some m) (budget : Nat) :
    l.reader budget = chain l.op? (m.reader budget) := by
  cases l <;> cases h <;> rfl

end Level

section Readers

variable {r : Reader Tree} {n : Nat} {ts : List Token}

theorem argumentsAfter_of_ne (h : ∀ us, ts ≠ .comma :: us) :
    argumentsAfter r n ts = .ok ([], ts) := by
  unfold argumentsAfter
  split
  · exact absurd rfl (h _)
  · rfl

theorem indicesAfter_of_ne {e : Tree} (h : ∀ us, ts ≠ .openBracket :: us) :
    indicesAfter r n e ts = .ok (e, ts) := by
  unfold indicesAfter
  split
  · exact absurd rfl (h _)
  · rfl

/-- Arguments are a first one and those after it, unless the list is closed at once. -/
theorem arguments_eq_ok_iff (h : ∀ us, ts ≠ .closeParen :: us) {es : List Tree}
    {rest : List Token} :
    arguments r ts = .ok (es, rest) ↔ ∃ first afterFirst others, r ts = .ok (first, afterFirst) ∧
      argumentsAfter r afterFirst.length afterFirst = .ok (others, rest) ∧
      first :: others = es := by
  unfold arguments
  split
  · exact absurd rfl (h _)
  · simp only [bind_eq_ok_iff, pure_eq_ok_iff, Prod.exists, Prod.mk.injEq]
    constructor
    · rintro ⟨first, afterFirst, hfirst, others, _, hothers, hes, rfl⟩
      exact ⟨first, afterFirst, others, hfirst, hothers, hes⟩
    · rintro ⟨first, afterFirst, others, hfirst, hothers, hes⟩
      exact ⟨first, afterFirst, hfirst, others, rest, hothers, hes, rfl⟩

theorem primary_word_of_ne {w : String} (h : ∀ us, ts ≠ .openParen :: us) :
    primary r (.word w :: ts) = .ok (Tree.ofWord w, ts) := by
  cases ts with
  | nil => rfl
  | cons t us =>
    cases t with
    | openParen => exact absurd rfl (h us)
    | _ => rfl

end Readers

/-! ### What is read is a phrase -/

/-- What the reader takes is a phrase of the level, within the bounds. -/
def Sound (l : Level) (budget : Nat) (r : Reader Tree) : Prop :=
  ∀ ts e rest, r ts = .ok (e, rest) → ∃ used d, ts = used ++ rest ∧ Derives l ⟨used, e, d⟩ ∧
    d ≤ budget ∧ e.height ≤ maxDepth

theorem bounded_eq_ok_iff {e e' : Tree} : bounded e = .ok e' ↔ e = e' ∧ e.height ≤ maxDepth := by
  unfold bounded
  split
  · rename_i h
    simp
    omega
  · rename_i h
    simp
    omega

section Sound

variable {l m : Level} {budget : Nat} {r : Reader Tree}

theorem Sound.chainAfter (hr : Sound m budget r) (hl : l.operands? = some m) {n : Nat}
    {left : Phrase} (hleft : Derives l left) (hnesting : left.nesting ≤ budget)
    (hheight : left.tree.height ≤ maxDepth) {ts : List Token} {e : Tree} {rest : List Token}
    (h : chainAfter l.op? r n left.tree ts = .ok (e, rest)) :
    ∃ used d, left.tokens ++ ts = used ++ rest ∧ Derives l ⟨used, e, d⟩ ∧ d ≤ budget ∧
      e.height ≤ maxDepth := by
  induction n generalizing left ts with
  | zero =>
    cases h
    exact ⟨left.tokens, left.nesting, rfl, hleft, hnesting, hheight⟩
  | succ n ih =>
    cases ts with
    | nil =>
      cases h
      exact ⟨left.tokens, left.nesting, rfl, hleft, hnesting, hheight⟩
    | cons t ts =>
      simp only [Tree.chainAfter] at h
      split at h
      · cases h
        exact ⟨left.tokens, left.nesting, rfl, hleft, hnesting, hheight⟩
      · rename_i op hop
        simp only [bind_eq_ok_iff] at h
        obtain ⟨⟨right, afterRight⟩, hright, both, hboth, h⟩ := h
        obtain ⟨rfl, hbothHeight⟩ := bounded_eq_ok_iff.mp hboth
        obtain ⟨used, d, rfl, hderives, hd, -⟩ := hr ts right afterRight hright
        -- the left operand of what follows is everything so far
        have hbinary := Derives.binary hl (Level.op?_eq_some_iff.mp hop) hleft hderives
        obtain ⟨used', d', htokens, hresult⟩ :=
          ih hbinary (Nat.max_le.mpr ⟨hnesting, hd⟩) hbothHeight h
        refine ⟨used', d', ?_, hresult⟩
        rw [← htokens]
        simp

theorem Sound.chain (hr : Sound m budget r) (hl : l.operands? = some m) :
    Sound l budget (chain l.op? r) := by
  intro ts e rest h
  simp only [Tree.chain, bind_eq_ok_iff] at h
  obtain ⟨⟨left, afterLeft⟩, hleft, h⟩ := h
  obtain ⟨used, d, rfl, hderives, hd, hheight⟩ := hr ts left afterLeft hleft
  exact hr.chainAfter hl (.stronger hl hderives) hd hheight h

/-- Soundness goes from operands up to whole expressions. -/
theorem sound_of_operand (h : Sound .operand budget (Tree.operand budget)) :
    Sound .or budget (expression (Tree.operand budget)) := by
  have hproduct : Sound .product budget _ := h.chain rfl
  have hsum : Sound .sum budget _ := hproduct.chain rfl
  have hcomparison : Sound .comparison budget _ := hsum.chain rfl
  have hand : Sound .and budget _ := hcomparison.chain rfl
  exact hand.chain rfl

/-- The arguments that are read are phrases. -/
theorem Sound.argumentsAfter (hr : Sound .or budget r) {n : Nat} {ts : List Token}
    {es : List Tree} {rest : List Token} (h : argumentsAfter r n ts = .ok (es, rest)) :
    ∃ args : List Phrase, ts = args.flatMap (Token.comma :: Phrase.tokens ·) ++ rest ∧
      es = args.map Phrase.tree ∧ ∀ p ∈ args, Derives .or p ∧ p.nesting ≤ budget := by
  induction n generalizing ts es with
  | zero =>
    cases h
    exact ⟨[], rfl, rfl, by simp⟩
  | succ n ih =>
    by_cases hcomma : ∃ us, ts = .comma :: us
    · obtain ⟨us, rfl⟩ := hcomma
      simp only [Tree.argumentsAfter, bind_eq_ok_iff, pure_eq_ok_iff] at h
      obtain ⟨⟨first, afterFirst⟩, hfirst, ⟨others, afterOthers⟩, hothers, heq⟩ := h
      cases heq
      obtain ⟨used, d, rfl, hderives, hd, -⟩ := hr us first afterFirst hfirst
      obtain ⟨args, htokens, rfl, hargs⟩ := ih hothers
      dsimp only at htokens
      refine ⟨⟨used, first, d⟩ :: args, ?_, rfl, ?_⟩
      · simp [htokens]
      · intro p hp
        rcases List.mem_cons.mp hp with rfl | hp
        · exact ⟨hderives, hd⟩
        · exact hargs p hp
    · rw [argumentsAfter_of_ne fun us hus => hcomma ⟨us, hus⟩] at h
      cases h
      exact ⟨[], rfl, rfl, by simp⟩

/-- The arguments that are read are phrases. -/
theorem Sound.arguments (hr : Sound .or budget r) {ts : List Token} {es : List Tree}
    {rest : List Token} (h : arguments r ts = .ok (es, rest)) :
    ∃ args : List Phrase, ts = Phrase.separated args ++ rest ∧ es = args.map Phrase.tree ∧
      ∀ p ∈ args, Derives .or p ∧ p.nesting ≤ budget := by
  by_cases hclose : ∃ us, ts = .closeParen :: us
  · obtain ⟨us, rfl⟩ := hclose
    cases h
    exact ⟨[], rfl, rfl, by simp⟩
  · rw [arguments_eq_ok_iff fun us hus => hclose ⟨us, hus⟩] at h
    obtain ⟨first, afterFirst, others, hfirst, hothers, rfl⟩ := h
    obtain ⟨used, d, rfl, hderives, hd, -⟩ := hr ts first afterFirst hfirst
    obtain ⟨args, htokens, rfl, hargs⟩ := hr.argumentsAfter hothers
    refine ⟨⟨used, first, d⟩ :: args, ?_, rfl, ?_⟩
    · rw [Phrase.separated_cons, List.append_assoc, ← htokens]
    · intro p hp
      rcases List.mem_cons.mp hp with rfl | hp
      · exact ⟨hderives, hd⟩
      · exact hargs p hp

/-- A tree of height one is not too tall. -/
theorem one_le_maxDepth : 1 ≤ maxDepth := by decide

theorem ofWord_derives (w : String) : Derives .primary ⟨[.word w], Tree.ofWord w, 0⟩ ∧
    (Tree.ofWord w).height ≤ maxDepth := by
  unfold Tree.ofWord
  by_cases htrue : Text.lower w = "true"
  · simp only [if_pos htrue]
    exact ⟨.isTrue htrue, one_le_maxDepth⟩
  · by_cases hfalse : Text.lower w = "false"
    · simp only [if_neg htrue, if_pos hfalse]
      exact ⟨.isFalse hfalse, one_le_maxDepth⟩
    · simp only [if_neg htrue, if_neg hfalse]
      exact ⟨.name htrue hfalse, one_le_maxDepth⟩

theorem Sound.primary (hr : Sound .or budget r) : Sound .primary budget (primary r) := by
  intro ts e rest h
  unfold Tree.primary at h
  split at h
  · cases h
    exact ⟨_, 0, rfl, .number _, Nat.zero_le _, one_le_maxDepth⟩
  · cases h
    exact ⟨_, 0, rfl, .text _, Nat.zero_le _, one_le_maxDepth⟩
  · cases h
    exact ⟨_, 0, rfl, .var _, Nat.zero_le _, one_le_maxDepth⟩
  · -- a call
    simp only [bind_eq_ok_iff] at h
    obtain ⟨⟨es, afterArguments⟩, hargs, h⟩ := h
    obtain ⟨args, rfl, rfl, hall⟩ := hr.arguments hargs
    split at h
    · rename_i afterClose hclose
      dsimp only at hclose
      simp only [bind_eq_ok_iff, pure_eq_ok_iff] at h
      obtain ⟨call, hcall, heq⟩ := h
      obtain ⟨rfl, hheight⟩ := bounded_eq_ok_iff.mp hcall
      cases heq
      refine ⟨_, _, ?_, .call fun p hp => (hall p hp).1,
        Phrase.nestingAll_le fun p hp => (hall p hp).2, hheight⟩
      rw [hclose]
      simp
    · cases h
  · -- a word that is not called
    cases h
    obtain ⟨hword, hheight⟩ := ofWord_derives _
    exact ⟨_, 0, rfl, hword, Nat.zero_le _, hheight⟩
  · -- parentheses
    simp only [bind_eq_ok_iff] at h
    obtain ⟨⟨inside, afterInside⟩, hinside, h⟩ := h
    obtain ⟨used, d, rfl, hderives, hd, hheight⟩ := hr _ inside afterInside hinside
    split at h
    · rename_i afterClose hclose
      dsimp only at hclose
      rw [pure_eq_ok_iff] at h
      cases h
      exact ⟨_, d, by simp [hclose], .parens hderives, hd, hheight⟩
    · cases h
  · cases h
  · cases h
  · cases h

theorem Sound.indicesAfter (hr : Sound .or budget r) {n : Nat} {target : Phrase}
    (htarget : Derives .indexed target) (hnesting : target.nesting ≤ budget)
    (hheight : target.tree.height ≤ maxDepth) {ts : List Token} {e : Tree} {rest : List Token}
    (h : indicesAfter r n target.tree ts = .ok (e, rest)) :
    ∃ used d, target.tokens ++ ts = used ++ rest ∧ Derives .indexed ⟨used, e, d⟩ ∧ d ≤ budget ∧
      e.height ≤ maxDepth := by
  induction n generalizing target ts with
  | zero =>
    cases h
    exact ⟨target.tokens, target.nesting, rfl, htarget, hnesting, hheight⟩
  | succ n ih =>
    by_cases hopen : ∃ us, ts = .openBracket :: us
    · obtain ⟨us, rfl⟩ := hopen
      simp only [Tree.indicesAfter, bind_eq_ok_iff] at h
      obtain ⟨⟨key, afterKey⟩, hkey, h⟩ := h
      obtain ⟨used, d, rfl, hderives, hd, -⟩ := hr us key afterKey hkey
      split at h
      · rename_i afterClose hclose
        dsimp only at hclose
        simp only [bind_eq_ok_iff] at h
        obtain ⟨both, hboth, h⟩ := h
        obtain ⟨rfl, hbothHeight⟩ := bounded_eq_ok_iff.mp hboth
        obtain ⟨used', d', htokens, hresult⟩ :=
          ih (.index htarget hderives) (Nat.max_le.mpr ⟨hnesting, hd⟩) hbothHeight h
        refine ⟨used', d', ?_, hresult⟩
        rw [← htokens, hclose]
        simp
      · cases h
    · rw [indicesAfter_of_ne fun us hus => hopen ⟨us, hus⟩] at h
      cases h
      exact ⟨target.tokens, target.nesting, rfl, htarget, hnesting, hheight⟩

theorem Sound.indexed (hr : Sound .or budget r) : Sound .indexed budget (indexed r) := by
  intro ts e rest h
  simp only [Tree.indexed, bind_eq_ok_iff] at h
  obtain ⟨⟨target, afterTarget⟩, htarget, h⟩ := h
  obtain ⟨used, d, rfl, hderives, hd, hheight⟩ := hr.primary ts target afterTarget htarget
  exact hr.indicesAfter (.plain hderives) hd hheight h

end Sound

/-- The token is an operator that stands in front of an operand and takes one unit of the budget. -/
def Fronts (t : Token) (op : UnaryOp) : Prop :=
  ∀ budget ts e rest, Tree.operand (budget + 1) (t :: ts) = .ok (e, rest) ↔
    ∃ inside, Tree.operand budget ts = .ok (inside, rest) ∧ e = .unary op inside ∧
      (Tree.unary op inside).height ≤ maxDepth

/-- What follows the operator is read, and then the tree that both make is. -/
theorem read_bounded_iff {r : Reader Tree} {make : Tree → Tree} {ts : List Token} {e : Tree}
    {rest : List Token} :
    (r ts >>= fun p => bounded (make p.1) >>= fun whole => pure (whole, p.2)) = .ok (e, rest) ↔
      ∃ inside, r ts = .ok (inside, rest) ∧ e = make inside ∧ (make inside).height ≤ maxDepth := by
  simp only [bind_eq_ok_iff, pure_eq_ok_iff, bounded_eq_ok_iff, Prod.exists, Prod.mk.injEq]
  constructor
  · rintro ⟨inside, _, hinside, _, ⟨rfl, hheight⟩, rfl, rfl⟩
    exact ⟨inside, hinside, rfl, hheight⟩
  · rintro ⟨inside, hinside, rfl, hheight⟩
    exact ⟨inside, rest, hinside, make inside, ⟨rfl, hheight⟩, rfl, rfl⟩

theorem fronts_minus : Fronts .minus .negate := fun _ _ _ _ => read_bounded_iff

theorem fronts_bang : Fronts .bang .not := fun _ _ _ _ => read_bounded_iff

/-- An operand that no operator stands in front of. -/
theorem operand_eq_indexed (budget : Nat) {ts : List Token} (hminus : ∀ us, ts ≠ .minus :: us)
    (hbang : ∀ us, ts ≠ .bang :: us) :
    Tree.operand (budget + 1) ts = indexed (expression (Tree.operand budget)) ts := by
  cases ts with
  | nil => rfl
  | cons t us =>
    cases t with
    | minus => exact absurd rfl (hminus us)
    | bang => exact absurd rfl (hbang us)
    | _ => rfl

theorem operand_sound (budget : Nat) : Sound .operand budget (Tree.operand budget) := by
  induction budget with
  | zero =>
    intro ts e rest h
    cases h
  | succ budget ih =>
    intro ts e rest h
    by_cases hminus : ∃ us, ts = .minus :: us
    · obtain ⟨us, rfl⟩ := hminus
      obtain ⟨inside, hinside, rfl, hheight⟩ := (fronts_minus budget us e rest).mp h
      obtain ⟨used, d, rfl, hderives, hd, -⟩ := ih us inside rest hinside
      exact ⟨_, d + 1, rfl, .negate hderives, Nat.succ_le_succ hd, hheight⟩
    by_cases hbang : ∃ us, ts = .bang :: us
    · obtain ⟨us, rfl⟩ := hbang
      obtain ⟨inside, hinside, rfl, hheight⟩ := (fronts_bang budget us e rest).mp h
      obtain ⟨used, d, rfl, hderives, hd, -⟩ := ih us inside rest hinside
      exact ⟨_, d + 1, rfl, .not hderives, Nat.succ_le_succ hd, hheight⟩
    rw [operand_eq_indexed budget (fun us h => hminus ⟨us, h⟩) fun us h => hbang ⟨us, h⟩] at h
    obtain ⟨used, d, rfl, hderives, hd, hheight⟩ :=
      (sound_of_operand ih).indexed ts e rest h
    exact ⟨used, d + 1, rfl, .operand hderives, Nat.succ_le_succ hd, hheight⟩

/-! ### Phrases are read -/

namespace Level

/-- The level of the last part of a phrase. -/
def lastPart : Level → Level
  | or => and
  | and => comparison
  | comparison => sum
  | sum => product
  | product => operand
  | operand => indexed
  | _ => primary

theorem strength_le_lastPart (l : Level) : l.strength ≤ l.lastPart.strength := by
  cases l <;> decide

theorem lastPart_of_operands? {l m : Level} (h : l.operands? = some m) : l.lastPart = m := by
  cases l <;> cases h <;> rfl

/-- What the reader of a level does when it has read a phrase: it looks for at most `n` more
operators, or indices. -/
def goOn (budget : Nat) (l : Level) (n : Nat) (e : Tree) : Reader Tree :=
  match l.operands? with
  | some m => chainAfter l.op? (m.reader budget) n e
  | none =>
    if l = indexed then indicesAfter (expression (Tree.operand budget)) n e
    else fun rest => .ok (e, rest)

theorem goOn_of_operands? {l m : Level} (h : l.operands? = some m) (budget n : Nat) (e : Tree) :
    l.goOn budget n e = chainAfter l.op? (m.reader budget) n e := by
  unfold goOn
  rw [h]

theorem chainAfter_of_stops {l : Level} {r : Reader Tree} {n : Nat} {e : Tree} {rest : List Token}
    (h : Stops l rest) : chainAfter l.op? r n e rest = .ok (e, rest) := by
  cases n with
  | zero => rfl
  | succ n =>
    cases rest with
    | nil => rfl
    | cons t ts =>
      have hnone : l.op? t = none := by
        rw [Option.eq_none_iff_forall_ne_some]
        intro op hop
        have hless := h t ts l rfl (op?_eq_some_iff.mp hop).continues?_eq
        omega
      rw [Tree.chainAfter, hnone]

theorem ne_openBracket_of_stops {rest : List Token} (h : Stops indexed rest) (us : List Token) :
    rest ≠ .openBracket :: us := by
  rintro rfl
  exact Nat.lt_irrefl _ (h _ _ indexed rfl rfl)

theorem ne_openParen_of_stops {rest : List Token} (h : Stops primary rest) (us : List Token) :
    rest ≠ .openParen :: us := by
  rintro rfl
  exact Nat.lt_irrefl _ (h _ _ primary rfl rfl)

/-- There is nothing more to be read where the phrase cannot go on. -/
theorem goOn_of_stops {l : Level} {rest : List Token} (h : Stops l rest) (budget n : Nat)
    (e : Tree) : l.goOn budget n e rest = .ok (e, rest) := by
  cases l with
  | operand => rfl
  | primary => rfl
  | indexed => exact indicesAfter_of_ne (ne_openBracket_of_stops h)
  | _ => exact chainAfter_of_stops h

end Level

/-- With a budget for its nesting, the reader of the level takes the phrase and goes on after it, if
the tokens there do not continue its last part. -/
def Taken (l : Level) (p : Phrase) : Prop :=
  ∀ budget rest, p.nesting ≤ budget → p.tree.height ≤ maxDepth → Stops l.lastPart rest →
    ∃ n, rest.length ≤ n ∧ l.reader budget (p.tokens ++ rest) = l.goOn budget n p.tree rest

theorem Taken.read {l : Level} {p : Phrase} (h : Taken l p) {budget : Nat} {rest : List Token}
    (hnesting : p.nesting ≤ budget) (hheight : p.tree.height ≤ maxDepth) (hrest : Stops l rest) :
    l.reader budget (p.tokens ++ rest) = .ok (p.tree, rest) := by
  obtain ⟨n, -, hread⟩ := h budget rest hnesting hheight (hrest.mono l.strength_le_lastPart)
  rw [hread, Level.goOn_of_stops hrest]

theorem bounded_of_le {e : Tree} (h : e.height ≤ maxDepth) : bounded e = .ok e :=
  bounded_eq_ok_iff.mpr ⟨rfl, h⟩

theorem height_le_heightAll {e : Tree} {es : List Tree} (h : e ∈ es) :
    e.height ≤ Tree.heightAll es := by
  induction es with
  | nil => cases h
  | cons f es ih =>
    simp only [Tree.heightAll]
    rcases List.mem_cons.mp h with rfl | h
    · exact Nat.le_max_left _ _
    · exact Nat.le_trans (ih h) (Nat.le_max_right _ _)

/-- A token that continues nothing. -/
theorem stops_of_continues? {t : Token} (h : continues? t = none) (l : Level) (ts : List Token) :
    Stops l (t :: ts) := by
  refine stops_cons ts fun m hm => ?_
  rw [h] at hm
  cases hm

section Taken

variable {l m : Level} {p q : Phrase}

theorem Taken.stronger (hl : l.operands? = some m) (h : Taken m p) : Taken l p := by
  intro budget rest hnesting hheight hrest
  rw [Level.lastPart_of_operands? hl] at hrest
  refine ⟨rest.length, Nat.le_refl _, ?_⟩
  rw [Level.reader_eq_chain hl, Level.goOn_of_operands? hl, chain,
    h.read hnesting hheight hrest]
  rfl

theorem Taken.binary {t : Token} {op : BinaryOp} (hl : l.operands? = some m)
    (hop : Operator l t op) (hp : Taken l p) (hq : Taken m q) :
    Taken l ⟨p.tokens ++ t :: q.tokens, .binary op p.tree q.tree, max p.nesting q.nesting⟩ := by
  intro budget rest hnesting hheight hrest
  have hboth := bounded_of_le hheight
  rw [Level.lastPart_of_operands? hl] at hrest
  simp only [Tree.height] at hnesting hheight ⊢
  have hstop : Stops l.lastPart (t :: (q.tokens ++ rest)) := by
    rw [Level.lastPart_of_operands? hl]
    exact hop.stops hl _
  obtain ⟨n, hn, hread⟩ := hp budget (t :: (q.tokens ++ rest)) (by omega) (by omega) hstop
  simp only [List.length_cons, List.length_append] at hn
  -- one of the operators that may still come is this one
  obtain ⟨k, rfl⟩ : ∃ k, n = k + 1 := ⟨n - 1, by omega⟩
  refine ⟨k, by omega, ?_⟩
  have hright : m.reader budget (q.tokens ++ rest) = .ok (q.tree, rest) :=
    hq.read (by omega) (by omega) hrest
  have htokens : p.tokens ++ t :: q.tokens ++ rest = p.tokens ++ (t :: (q.tokens ++ rest)) := by
    simp
  rw [htokens, hread, Level.goOn_of_operands? hl, Level.goOn_of_operands? hl, chainAfter,
    Level.op?_eq_some_iff.mpr hop]
  simp only [hright, hboth, bind, Except.bind]

theorem Taken.prefixed {t : Token} {op : UnaryOp} (ht : Fronts t op) (h : Taken .operand p) :
    Taken .operand ⟨t :: p.tokens, .unary op p.tree, p.nesting + 1⟩ := by
  intro budget rest hnesting hheight hrest
  have htall := hheight
  simp only [Tree.height] at hnesting hheight ⊢
  obtain ⟨b, rfl⟩ : ∃ b, budget = b + 1 := ⟨budget - 1, by omega⟩
  obtain ⟨n, -, hread⟩ := h b rest (by omega) (by omega) hrest
  refine ⟨rest.length, Nat.le_refl _, ?_⟩
  exact (ht b _ _ rest).mpr ⟨p.tree, hread, rfl, htall⟩

theorem Taken.operand (hp : Derives .indexed p) (h : Taken .indexed p) :
    Taken .operand ⟨p.tokens, p.tree, p.nesting + 1⟩ := by
  intro budget rest hnesting hheight hrest
  simp only at hnesting hheight ⊢
  obtain ⟨b, rfl⟩ : ∃ b, budget = b + 1 := ⟨budget - 1, by omega⟩
  obtain ⟨t, ts, htokens, -, hfirst⟩ := hp.exists_head
  obtain ⟨hminus, hbang⟩ := hfirst (Or.inl rfl)
  refine ⟨rest.length, Nat.le_refl _, ?_⟩
  have hindexed : Level.indexed.reader b (p.tokens ++ rest) = .ok (p.tree, rest) :=
    h.read (by omega) hheight hrest
  rw [htokens] at hindexed ⊢
  show Tree.operand (b + 1) (t :: ts ++ rest) = _
  rw [operand_eq_indexed b (by simp [hminus]) (by simp [hbang])]
  exact hindexed

theorem Taken.plain (h : Taken .primary p) : Taken .indexed p := by
  intro budget rest hnesting hheight hrest
  refine ⟨rest.length, Nat.le_refl _, ?_⟩
  have hprimary : primary (expression (Tree.operand budget)) (p.tokens ++ rest) =
      .ok (p.tree, rest) := h.read hnesting hheight hrest
  show indexed (expression (Tree.operand budget)) (p.tokens ++ rest) = _
  rw [indexed, hprimary]
  rfl

theorem Taken.index {key : Phrase} (hp : Taken .indexed p) (hkey : Taken .or key) :
    Taken .indexed ⟨p.tokens ++ .openBracket :: key.tokens ++ [.closeBracket],
      .index p.tree key.tree, max p.nesting key.nesting⟩ := by
  intro budget rest hnesting hheight hrest
  have hboth := bounded_of_le hheight
  simp only [Tree.height] at hnesting hheight ⊢
  have hstop : Stops Level.indexed.lastPart
      (.openBracket :: (key.tokens ++ .closeBracket :: rest)) := by
    refine stops_cons _ fun m hm => ?_
    cases hm
    decide
  obtain ⟨n, hn, hread⟩ := hp budget (.openBracket :: (key.tokens ++ .closeBracket :: rest))
    (by omega) (by omega) hstop
  simp only [List.length_cons, List.length_append] at hn
  obtain ⟨k, rfl⟩ : ∃ k, n = k + 1 := ⟨n - 1, by omega⟩
  refine ⟨k, by omega, ?_⟩
  have hinside : expression (Tree.operand budget) (key.tokens ++ .closeBracket :: rest) =
      .ok (key.tree, .closeBracket :: rest) :=
    hkey.read (by omega) (by omega) (stops_of_continues? rfl _ _)
  have htokens : p.tokens ++ .openBracket :: key.tokens ++ [.closeBracket] ++ rest =
      p.tokens ++ (.openBracket :: (key.tokens ++ .closeBracket :: rest)) := by
    simp
  rw [htokens, hread]
  show indicesAfter (expression (Tree.operand budget)) (k + 1) p.tree
    (.openBracket :: (key.tokens ++ .closeBracket :: rest)) = _
  simp only [indicesAfter, hinside, hboth, bind, Except.bind]
  rfl

theorem Taken.word {w : String} {e : Tree} (he : Tree.ofWord w = e) :
    Taken .primary ⟨[.word w], e, 0⟩ := by
  intro budget rest _ _ hrest
  refine ⟨rest.length, Nat.le_refl _, ?_⟩
  show primary (expression (Tree.operand budget)) (.word w :: rest) = .ok (e, rest)
  rw [primary_word_of_ne (Level.ne_openParen_of_stops hrest), he]

theorem Taken.parens (h : Taken .or p) :
    Taken .primary ⟨.openParen :: p.tokens ++ [.closeParen], p.tree, p.nesting⟩ := by
  intro budget rest hnesting hheight hrest
  have hinside : expression (Tree.operand budget) (p.tokens ++ .closeParen :: rest) =
      .ok (p.tree, .closeParen :: rest) :=
    h.read hnesting hheight (stops_of_continues? rfl _ _)
  refine ⟨rest.length, Nat.le_refl _, ?_⟩
  show primary (expression (Tree.operand budget)) (.openParen :: p.tokens ++ [.closeParen] ++ rest) =
    .ok (p.tree, rest)
  have htokens : Token.openParen :: p.tokens ++ [.closeParen] ++ rest =
      .openParen :: (p.tokens ++ .closeParen :: rest) := by
    simp
  rw [htokens]
  simp only [primary, hinside, bind, Except.bind]
  rfl

end Taken

/-! ### Arguments are read -/

section Arguments

variable {r : Reader Tree} {args : List Phrase} {rest : List Token}

/-- The reader takes the phrase, up to a comma or a closing parenthesis. -/
def TakesArgument (r : Reader Tree) (p : Phrase) : Prop :=
  ∀ rest, Stops .or rest → r (p.tokens ++ rest) = .ok (p.tree, rest)

theorem stops_after_argument (args : List Phrase) (rest : List Token) :
    Stops .or (args.flatMap (Token.comma :: Phrase.tokens ·) ++ .closeParen :: rest) := by
  cases args with
  | nil => exact stops_of_continues? rfl _ _
  | cons p args => exact stops_of_continues? rfl _ _

theorem argumentsAfter_of_takes (h : ∀ p ∈ args, TakesArgument r p) {n : Nat}
    (hn : args.length ≤ n) :
    argumentsAfter r n (args.flatMap (Token.comma :: Phrase.tokens ·) ++ .closeParen :: rest) =
      .ok (args.map Phrase.tree, .closeParen :: rest) := by
  induction args generalizing n with
  | nil => exact argumentsAfter_of_ne fun us hus => by cases hus
  | cons p args ih =>
    simp only [List.length_cons] at hn
    obtain ⟨k, rfl⟩ : ∃ k, n = k + 1 := ⟨n - 1, by omega⟩
    have hfirst := h p List.mem_cons_self _ (stops_after_argument args rest)
    have hothers := ih (fun q hq => h q (List.mem_cons_of_mem p hq)) (by omega : args.length ≤ k)
    simp only [List.flatMap_cons, List.cons_append, List.append_assoc, argumentsAfter, hfirst,
      hothers, bind, Except.bind, List.map_cons]
    rfl

theorem length_le_separated (args : List Phrase) (rest : List Token) :
    args.length ≤ (args.flatMap (Token.comma :: Phrase.tokens ·) ++ rest).length := by
  induction args with
  | nil => exact Nat.zero_le _
  | cons p args ih =>
    simp only [List.flatMap_cons, List.length_append, List.length_cons] at ih ⊢
    omega

theorem arguments_of_takes (h : ∀ p ∈ args, TakesArgument r p)
    (hhead : ∀ p ∈ args, ∃ t ts, p.tokens = t :: ts ∧ t ≠ .closeParen) :
    arguments r (Phrase.separated args ++ .closeParen :: rest) =
      .ok (args.map Phrase.tree, .closeParen :: rest) := by
  cases args with
  | nil => rfl
  | cons p args =>
    obtain ⟨t, ts, htokens, ht⟩ := hhead p List.mem_cons_self
    rw [Phrase.separated_cons, List.append_assoc, arguments_eq_ok_iff]
    · refine ⟨p.tree, _, args.map Phrase.tree,
        h p List.mem_cons_self _ (stops_after_argument args rest), ?_, rfl⟩
      exact argumentsAfter_of_takes (fun q hq => h q (List.mem_cons_of_mem p hq))
        (length_le_separated args _)
    · intro us hus
      rw [htokens] at hus
      cases hus
      exact ht rfl

theorem Taken.call {w : String} (hargs : ∀ p ∈ args, Derives .or p)
    (h : ∀ p ∈ args, Taken .or p) :
    Taken .primary ⟨.word w :: .openParen :: Phrase.separated args ++ [.closeParen],
      .call w (args.map Phrase.tree), Phrase.nestingAll args⟩ := by
  intro budget rest hnesting hheight hrest
  have hcall := bounded_of_le hheight
  simp only [Tree.height] at hnesting hheight
  have htakes : ∀ p ∈ args, TakesArgument (expression (Tree.operand budget)) p := by
    intro p hp rest hstop
    have hdeep := Phrase.nesting_le_nestingAll hp
    have htall := height_le_heightAll (List.mem_map_of_mem (f := Phrase.tree) hp)
    exact (h p hp).read (by omega) (by omega) hstop
  have hhead : ∀ p ∈ args, ∃ t ts, p.tokens = t :: ts ∧ t ≠ .closeParen := by
    intro p hp
    obtain ⟨t, ts, htokens, ht, -⟩ := (hargs p hp).exists_head
    exact ⟨t, ts, htokens, ht⟩
  have hread : arguments (expression (Tree.operand budget))
      (Phrase.separated args ++ .closeParen :: rest) =
        .ok (args.map Phrase.tree, .closeParen :: rest) := arguments_of_takes htakes hhead
  refine ⟨rest.length, Nat.le_refl _, ?_⟩
  have htokens : Token.word w :: .openParen :: Phrase.separated args ++ [.closeParen] ++ rest =
      .word w :: .openParen :: (Phrase.separated args ++ .closeParen :: rest) := by
    simp
  show primary (expression (Tree.operand budget))
    (.word w :: .openParen :: Phrase.separated args ++ [.closeParen] ++ rest) =
      .ok (.call w (args.map Phrase.tree), rest)
  rw [htokens]
  simp only [primary, hread, hcall, bind, Except.bind]
  rfl

end Arguments

/-- Every phrase is taken by the reader of its level. -/
theorem Derives.taken {l : Level} {p : Phrase} (h : Derives l p) : Taken l p := by
  induction h with
  | stronger hl _ ih => exact ih.stronger hl
  | binary hl hop _ _ ihp ihq => exact .binary hl hop ihp ihq
  | negate _ ih => exact ih.prefixed fronts_minus
  | not _ ih => exact ih.prefixed fronts_bang
  | operand hp ih => exact ih.operand hp
  | plain _ ih => exact ih.plain
  | index _ _ ihp ihkey => exact ihp.index ihkey
  | number n => exact fun _ rest _ _ _ => ⟨rest.length, Nat.le_refl _, rfl⟩
  | text s => exact fun _ rest _ _ _ => ⟨rest.length, Nat.le_refl _, rfl⟩
  | var name => exact fun _ rest _ _ _ => ⟨rest.length, Nat.le_refl _, rfl⟩
  | isTrue hw => exact .word (by simp [Tree.ofWord, hw])
  | isFalse hw => exact .word (by simp [Tree.ofWord, hw])
  | name htrue hfalse => exact .word (by simp [Tree.ofWord, htrue, hfalse])
  | call hargs ih => exact .call hargs ih
  | parens _ ih => exact ih.parens

end WorldScript.Grammar

namespace WorldScript.Tree

open Grammar (Derives)

/-- **The reader accepts its grammar and nothing else.** A list of tokens is read as a tree exactly
if the tokens derive that tree as a phrase of the weakest level, with operands nested no deeper than
the greatest depth, and the tree is not taller than that either. -/
theorem ofTokens_eq_ok_iff (ts : List Token) (e : Tree) :
    ofTokens ts = .ok e ↔ (∃ d ≤ maxDepth, Derives .or ⟨ts, e, d⟩) ∧ e.height ≤ maxDepth := by
  constructor
  · intro h
    simp only [ofTokens, bind_eq_ok_iff] at h
    obtain ⟨⟨t, rest⟩, hread, h⟩ := h
    obtain ⟨used, d, htokens, hderives, hd, hheight⟩ :=
      Grammar.sound_of_operand (Grammar.operand_sound maxDepth) ts t rest hread
    split at h
    · rename_i hrest
      dsimp only at hrest
      subst hrest
      rw [pure_eq_ok_iff] at h
      subst h
      rw [List.append_nil] at htokens
      subst htokens
      exact ⟨⟨d, hd, hderives⟩, hheight⟩
    · cases h
    · cases h
  · rintro ⟨⟨d, hd, hderives⟩, hheight⟩
    have hread : expression (operand maxDepth) (ts ++ []) = .ok (e, []) :=
      hderives.taken.read hd hheight (Grammar.stops_nil _)
    rw [List.append_nil] at hread
    simp only [ofTokens, hread, bind, Except.bind]
    rfl

end WorldScript.Tree
