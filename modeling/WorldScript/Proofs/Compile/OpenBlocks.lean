import WorldScript.Proofs.Compile.Blame
import WorldScript.Proofs.Compile.Continuation
import WorldScript.Proofs.Statement.Blocks

/-! # Sources that end too early

Lines are scanned for the blocks that they leave open: a line closes the innermost open block if it
is the `end` of that block, and opens one if it has the form for it. The scan knows nothing of
expressions, types and names.

If some lines compile, then the open blocks of a part in front decide what becomes of that part. If
there is none, the part compiles to the statements that it has of the whole. Otherwise it is refused,
and blamed is the line that opened the innermost open block.

* `Tracks next`: a statement leaves the open blocks as it found them, and if it lacks an end, it is
  that of the innermost open block.
* `compileNext_tracks`: this holds of the compiler.
* `compileAll_truncated`: the two cases. -/

namespace WorldScript

open Statement (lineCounts)

/-- A block that was opened: its kind, and the number of the line that opened it. -/
structure OpenBlock where
  kind : BlockKind
  line : Nat
  deriving DecidableEq, Repr

namespace OpenBlock

/-- The block that a line opens. -/
def ofLine? (line : Line) : Option OpenBlock :=
  ((LineForm.read? line.text.toList).bind LineForm.opens?).map (⟨·, line.number⟩)

/-- The line is the end of the block. -/
def endsWith (block : OpenBlock) (line : Line) : Bool :=
  LineForm.isEnd block.kind.word line.text.toList

/-- The open blocks after a line, the innermost first. -/
def after (blocks : List OpenBlock) (line : Line) : List OpenBlock :=
  if blocks.head?.any (·.endsWith line) then blocks.tail else (ofLine? line).toList ++ blocks

end OpenBlock

/-- The open blocks after some lines, with those that were open before. -/
def openAfter (blocks : List OpenBlock) (lines : List Line) : List OpenBlock :=
  lines.foldl OpenBlock.after blocks

/-- The blocks that some lines leave open, the innermost first. -/
def openBlocks (lines : List Line) : List OpenBlock := openAfter [] lines

theorem openAfter_cons (blocks : List OpenBlock) (line : Line) (lines : List Line) :
    openAfter blocks (line :: lines) = openAfter (OpenBlock.after blocks line) lines := rfl

theorem openAfter_append (blocks : List OpenBlock) (first second : List Line) :
    openAfter blocks (first ++ second) = openAfter (openAfter blocks first) second :=
  List.foldl_append

/-! ### Single lines -/

namespace OpenBlock

theorem after_of_endsWith {block : OpenBlock} {line : Line} (h : block.endsWith line = true)
    (outer : List OpenBlock) : after (block :: outer) line = outer := by
  simp [after, h]

/-- A line between two parts of a statement neither opens nor closes a block. -/
theorem after_of_divider {block : OpenBlock} {line : Line} (hend : block.endsWith line = false)
    (hopens : (LineForm.read? line.text.toList).bind LineForm.opens? = none)
    (outer : List OpenBlock) : after (block :: outer) line = block :: outer := by
  simp [after, ofLine?, hend, hopens]

/-- The first line of a statement closes no block, and opens the one that its form says. -/
theorem after_of_read {line : Line} {form : LineForm}
    (h : LineForm.read? line.text.toList = some form) (hform : form ≠ .separator)
    (blocks : List OpenBlock) :
    after blocks line = (form.opens?.map (⟨·, line.number⟩)).toList ++ blocks := by
  have hend : blocks.head?.any (·.endsWith line) = false := by
    cases blocks with
    | nil => rfl
    | cons block outer => exact LineForm.isEnd_eq_false h hform block.kind
  rw [after, hend, if_neg Bool.false_ne_true, ofLine?, h, Option.bind_some]

end OpenBlock

/-- The keyword of the block that a head asks for. -/
def Head.word? : Head → Option String
  | leaf _ _ => none
  | block word _ _ _ => some word
  | arms _ => some "if"
  | sections _ => some "switch"

/-- A head asks for the block that the form of its line opens. -/
theorem Head.word?_of_ofForm {ctx : Context} {room : Bool} {scope : Scope} {line : Line}
    {form : LineForm} {head : Head} (h : ofForm ctx room scope line form = .ok head) :
    form ≠ .separator ∧ head.word? = form.opens?.map BlockKind.word := by
  have hleaf : ∀ {s : Compile Statement}, ofLeaf scope s = .ok head → head.word? = none := by
    intro s hs
    obtain ⟨statement, after, rfl⟩ := eq_leaf_of_ofLeaf hs
    rfl
  cases form with
  | separator => exact absurd h failAt_ne_ok
  | declare name type initial =>
    simp only [ofForm, bind_eq_ok_iff, pure_eq_ok_iff] at h
    obtain ⟨_, _, rfl⟩ := h
    exact ⟨by simp, rfl⟩
  | ifChain test =>
    simp only [ofForm, bind_eq_ok_iff, pure_eq_ok_iff] at h
    obtain ⟨_, _, _, _, rfl⟩ := h
    exact ⟨by simp, rfl⟩
  | forCount name count =>
    simp only [ofForm, bind_eq_ok_iff, pure_eq_ok_iff] at h
    obtain ⟨_, _, _, _, _, _, rfl⟩ := h
    exact ⟨by simp, rfl⟩
  | forEach name items =>
    simp only [ofForm, bind_eq_ok_iff] at h
    obtain ⟨_, _, _, _, _, _, h⟩ := h
    split at h
    · simp only [bind_eq_ok_iff, pure_eq_ok_iff] at h
      obtain ⟨_, _, rfl⟩ := h
      exact ⟨by simp, rfl⟩
    · exact absurd h failAt_ne_ok
  | whileLoop test =>
    simp only [ofForm, bind_eq_ok_iff, pure_eq_ok_iff] at h
    obtain ⟨_, _, _, _, rfl⟩ := h
    exact ⟨by simp, rfl⟩
  | switch value =>
    simp only [ofForm, bind_eq_ok_iff, pure_eq_ok_iff] at h
    obtain ⟨_, _, _, _, rfl⟩ := h
    exact ⟨by simp, rfl⟩
  | delay duration =>
    simp only [ofForm, bind_eq_ok_iff, pure_eq_ok_iff] at h
    obtain ⟨_, _, _, _, rfl⟩ := h
    exact ⟨by simp, rfl⟩
  | _ => exact ⟨by simp, hleaf h⟩

section OfLine

variable {ctx : Context} {room : Bool} {scope : Scope} {line : Line} {head : Head}

theorem Head.after_of_word? (h : ofLine ctx room scope line = .ok head) :
    ∃ kind? : Option BlockKind, head.word? = kind?.map BlockKind.word ∧ ∀ blocks,
      OpenBlock.after blocks line = (kind?.map (⟨·, line.number⟩)).toList ++ blocks := by
  unfold ofLine at h
  split at h
  · exact absurd h failAt_ne_ok
  · rename_i form hread
    obtain ⟨hform, hword⟩ := word?_of_ofForm h
    exact ⟨form.opens?, hword, OpenBlock.after_of_read hread hform⟩

/-- The line of a statement without a block leaves the open blocks as they were. -/
theorem Head.after_of_word?_none (h : ofLine ctx room scope line = .ok head)
    (hword : head.word? = none) (blocks : List OpenBlock) :
    OpenBlock.after blocks line = blocks := by
  obtain ⟨kind?, hkind, hafter⟩ := after_of_word? h
  cases kind? with
  | none => exact hafter blocks
  | some kind =>
    rw [hkind] at hword
    cases hword

/-- The line of a head opens the block that the head asks for. -/
theorem Head.after_of_word?_some (h : ofLine ctx room scope line = .ok head) {word : String}
    (hword : head.word? = some word) :
    ∃ block : OpenBlock, block.line = line.number ∧ block.kind.word = word ∧ ∀ blocks,
      OpenBlock.after blocks line = block :: blocks := by
  obtain ⟨kind?, hkind, hafter⟩ := after_of_word? h
  rw [hkind] at hword
  cases kind? with
  | none => cases hword
  | some kind =>
    cases hword
    exact ⟨⟨kind, line.number⟩, rfl, rfl, hafter⟩

end OfLine

/-! ### Blocks -/

/-- The lines leave the open blocks as they were. -/
def Balanced (lines : List Line) : Prop := ∀ blocks, openAfter blocks lines = blocks

/-- The lines close a block of the keyword, and no other. -/
def Closes (word : String) (lines : List Line) : Prop :=
  ∀ block outer, block.kind.word = word → openAfter (block :: outer) lines = outer

/-- If a block has no end, then it is the innermost of the open ones. -/
def Blames (blocks : List OpenBlock) (e : CompileError) : Prop :=
  ∀ word, e.fault = .unterminated word →
    ∃ block outer, blocks = block :: outer ∧ block.line = e.line ∧ block.kind.word = word

theorem Balanced.nil : Balanced [] := fun _ => rfl

theorem Balanced.append {first second : List Line} (hfirst : Balanced first)
    (hsecond : Balanced second) : Balanced (first ++ second) := by
  intro blocks
  rw [openAfter_append, hfirst, hsecond]

theorem Blames.of_onLine {α : Type} {n : Nat} {r : Compile α} {e : CompileError} (hr : OnLine n r)
    (h : r = .error e) (blocks : List OpenBlock) : Blames blocks e := by
  intro word hword
  have hlacks := (hr e h).2
  rw [hword] at hlacks
  cases hlacks

theorem Blames.unterminated (block : OpenBlock) (outer : List OpenBlock) :
    Blames (block :: outer) ⟨block.line, .unterminated block.kind.word⟩ := by
  rintro word ⟨⟩
  exact ⟨block, outer, rfl, rfl, rfl⟩

/-- Statements leave the open blocks as they were, and an end that is missing is that of the
innermost open block. -/
structure Tracks (next : Next) : Prop where
  ok {scope : Scope} {lines : List Line} {step : Step} : next scope lines = .ok step →
    ∃ taken, lines = taken ++ step.remaining ∧ Balanced taken
  error {scope : Scope} {lines : List Line} {e : CompileError} : next scope lines = .error e →
    ∀ blocks, Blames (openAfter blocks lines) e

namespace Tracks

variable {next : Next} {scope : Scope} {lines : List Line} {e : CompileError} {block : OpenBlock}

theorem readWithin_ok (htracks : Tracks next) {isEnd : List Char → Bool} {n : Nat} {b : Block}
    (h : Block.readWithin next isEnd e n scope lines = .ok b) :
    ∃ body, lines = body ++ b.terminator :: b.remaining ∧ Balanced body ∧
      isEnd b.terminator.text.toList = true := by
  induction n generalizing scope lines b with
  | zero => cases lines <;> simp [Block.readWithin] at h
  | succ n ih =>
    cases lines with
    | nil => simp [Block.readWithin] at h
    | cons line rest =>
      simp only [Block.readWithin] at h
      split at h
      · cases h
        exact ⟨[], rfl, .nil, ‹_›⟩
      · simp only [bind_eq_ok_iff, pure_eq_ok_iff] at h
        obtain ⟨step, hstep, more, hmore, rfl⟩ := h
        obtain ⟨taken, hlines, htaken⟩ := htracks.ok hstep
        obtain ⟨body, hrest, hbody, hend⟩ := ih hmore
        refine ⟨taken ++ body, ?_, htaken.append hbody, hend⟩
        rw [hlines, hrest, List.append_assoc]

theorem readWithin_error (htracks : Tracks next) (hnext : Measured next)
    {isEnd : List Char → Bool} {n : Nat} (hn : lines.length < n)
    (h : Block.readWithin next isEnd ⟨block.line, .unterminated block.kind.word⟩ n scope lines =
      .error e) (outer : List OpenBlock) : Blames (openAfter (block :: outer) lines) e := by
  induction n generalizing scope lines with
  | zero => cases hn
  | succ n ih =>
    cases lines with
    | nil =>
      cases h
      exact .unterminated block outer
    | cons line rest =>
      simp only [Block.readWithin] at h
      split at h
      · cases h
      · rcases bind_eq_error_iff.mp h with hstep | ⟨step, hstep, h⟩
        · exact htracks.error hstep _
        · rcases bind_eq_error_iff.mp h with hmore | ⟨more, _, h⟩
          · obtain ⟨taken, hlines, htaken⟩ := htracks.ok hstep
            have hlength := (hnext _ _ _ hstep).length_lt
            rw [hlines, openAfter_append, htaken]
            exact ih (by omega) hmore
          · cases h

theorem read_ok (htracks : Tracks next) {isEnd : List Char → Bool} {word : String} {opening : Nat}
    {b : Block} (h : Block.read next isEnd word opening scope lines = .ok b) :
    ∃ body, lines = body ++ b.terminator :: b.remaining ∧ Balanced body ∧
      isEnd b.terminator.text.toList = true :=
  htracks.readWithin_ok h

theorem read_error (htracks : Tracks next) (hnext : Measured next) {isEnd : List Char → Bool}
    {word : String} (hword : block.kind.word = word)
    (h : Block.read next isEnd word block.line scope lines = .error e)
    (outer : List OpenBlock) : Blames (openAfter (block :: outer) lines) e := by
  subst hword
  exact htracks.readWithin_error hnext (Nat.lt_succ_self _) h outer

end Tracks

/-! ### Dividers -/

/-- The open blocks after a divider of the innermost one. -/
def Divider.after (block : OpenBlock) (outer : List OpenBlock) : Divider → List OpenBlock
  | finish => outer
  | guard _ => block :: outer
  | last => block :: outer

theorem Divider.after_of_ofArm {ctx : Context} {scope : Scope} {line : Line} {divider : Divider}
    {block : OpenBlock} (hline : LineForm.isArmEnd line.text.toList = true)
    (h : ofArm ctx scope line = .ok divider) (hword : block.kind.word = "if")
    (outer : List OpenBlock) :
    OpenBlock.after (block :: outer) line = divider.after block outer := by
  have hopens := LineForm.opens?_of_isArmEnd hline
  have hends : block.endsWith line = LineForm.isEnd "if" line.text.toList := by
    rw [OpenBlock.endsWith, hword]
  unfold ofArm at h
  split at h
  · rename_i hend
    cases h
    exact OpenBlock.after_of_endsWith (hends.trans hend) outer
  · rename_i hend
    have hstays := OpenBlock.after_of_divider (hends.trans (Bool.eq_false_iff.mpr hend)) hopens outer
    split at h
    · simp only [bind_eq_ok_iff, pure_eq_ok_iff] at h
      obtain ⟨_, _, rfl⟩ := h
      exact hstays
    · cases h
      exact hstays

theorem Divider.after_of_ofSection {ctx : Context} {scope : Scope} {type : Ty} {line : Line}
    {divider : Divider} {block : OpenBlock} (h : ofSection ctx scope type line = .ok divider)
    (hword : block.kind.word = "switch") (outer : List OpenBlock) :
    OpenBlock.after (block :: outer) line = divider.after block outer := by
  have hends : block.endsWith line = LineForm.isEnd "switch" line.text.toList := by
    rw [OpenBlock.endsWith, hword]
  unfold ofSection at h
  split at h
  · rename_i hend
    cases h
    exact OpenBlock.after_of_endsWith (hends.trans hend) outer
  · rename_i hend
    have hstays : LineForm.isSectionEnd line.text.toList = true →
        OpenBlock.after (block :: outer) line = block :: outer := fun hline =>
      OpenBlock.after_of_divider (hends.trans (Bool.eq_false_iff.mpr hend))
        (LineForm.opens?_of_isSectionEnd hline) outer
    split at h
    · rename_i hcase
      simp only [bind_eq_ok_iff, pure_eq_ok_iff] at h
      obtain ⟨_, _, rfl⟩ := h
      exact hstays (by simp [LineForm.isSectionEnd, hcase])
    · split at h
      · rename_i hdefault
        cases h
        exact hstays (by simp [LineForm.isSectionEnd, hdefault])
      · exact absurd h failAt_ne_ok

theorem endsWith_of_checkEnd {word : String} {fault : CompileFault} {line : Line} {u : Unit}
    (h : checkEnd word fault line = .ok u) {block : OpenBlock} (hword : block.kind.word = word) :
    block.endsWith line = true := by
  unfold checkEnd at h
  split at h
  · subst hword
    assumption
  · exact absurd h failAt_ne_ok

theorem Closes.cons_terminator {word : String} {body : List Line} (hbody : Balanced body)
    {line : Line} (hline : ∀ block : OpenBlock, block.kind.word = word →
      block.endsWith line = true) : Closes word (body ++ [line]) := by
  intro block outer hword
  rw [openAfter_append, hbody]
  exact OpenBlock.after_of_endsWith (hline block hword) outer

namespace Tracks

variable {next : Next} {ctx : Context} {scope : Scope} {lines : List Line} {e : CompileError}
  {block : OpenBlock}

/-! ### `if` -/

theorem chain_ok (htracks : Tracks next) {opening n line : Nat} {test : Checked} {chain : Chain}
    (h : Chain.readWithin ctx next opening scope n line test lines = .ok chain) :
    ∃ body, lines = body ++ chain.remaining ∧ Closes "if" body := by
  induction n generalizing line test lines chain with
  | zero => exact absurd h failAt_ne_ok
  | succ n ih =>
    rw [Chain.readWithin_cons, bind_eq_ok_iff] at h
    obtain ⟨arm, harm, h⟩ := h
    rw [bind_eq_ok_iff] at h
    obtain ⟨divider, hdivider, h⟩ := h
    obtain ⟨body, hlines, hbody, hend⟩ := htracks.read_ok harm
    have hafter : ∀ {block : OpenBlock} (outer : List OpenBlock), block.kind.word = "if" →
        openAfter (block :: outer) (body ++ [arm.terminator]) = divider.after block outer := by
      intro block outer hword
      rw [openAfter_append, hbody]
      exact Divider.after_of_ofArm hend hdivider hword outer
    rw [hlines]
    cases divider with
    | finish =>
      cases h
      exact ⟨body ++ [arm.terminator], (List.append_cons ..), fun block outer => hafter outer⟩
    | guard test =>
      simp only [Chain.afterArm, bind_eq_ok_iff, pure_eq_ok_iff] at h
      obtain ⟨more, hmore, rfl⟩ := h
      obtain ⟨others, hothers, hcloses⟩ := ih hmore
      refine ⟨body ++ [arm.terminator] ++ others, ?_, ?_⟩
      · rw [hothers]
        simp
      · intro block outer hword
        rw [openAfter_append, hafter outer hword]
        exact hcloses block outer hword
    | last =>
      simp only [Chain.afterArm, bind_eq_ok_iff, pure_eq_ok_iff] at h
      obtain ⟨last, hlast, _, hcheck, rfl⟩ := h
      obtain ⟨others, hothers, hbalanced, -⟩ := htracks.read_ok hlast
      have hcloses := Closes.cons_terminator hbalanced fun block => endsWith_of_checkEnd hcheck
      refine ⟨body ++ [arm.terminator] ++ (others ++ [last.terminator]), ?_, ?_⟩
      · rw [hothers]
        simp
      · intro block outer hword
        rw [openAfter_append, hafter outer hword]
        exact hcloses block outer hword

theorem chain_error (htracks : Tracks next) (hnext : Measured next) {n line : Nat} {test : Checked}
    (hword : block.kind.word = "if") (hn : lines.length < n)
    (h : Chain.readWithin ctx next block.line scope n line test lines = .error e)
    (outer : List OpenBlock) : Blames (openAfter (block :: outer) lines) e := by
  induction n generalizing line test lines with
  | zero => cases hn
  | succ n ih =>
    rw [Chain.readWithin_cons] at h
    rcases bind_eq_error_iff.mp h with harm | ⟨arm, harm, h⟩
    · exact htracks.read_error hnext hword harm outer
    rcases bind_eq_error_iff.mp h with hdivider | ⟨divider, hdivider, h⟩
    · exact .of_onLine (Divider.ofArm_onLine ctx scope _) hdivider _
    obtain ⟨body, hlines, hbody, hend⟩ := htracks.read_ok harm
    have hlength := hnext.length_read_lt harm
    have hafter : openAfter (block :: outer) lines =
        openAfter (divider.after block outer) arm.remaining := by
      rw [hlines, openAfter_append, hbody, openAfter_cons,
        Divider.after_of_ofArm hend hdivider hword]
    rw [hafter]
    cases divider with
    | finish => cases h
    | guard test =>
      rcases bind_eq_error_iff.mp h with hmore | ⟨more, _, h⟩
      · exact ih (by omega) hmore
      · cases h
    | last =>
      rcases bind_eq_error_iff.mp h with hlast | ⟨last, _, h⟩
      · exact htracks.read_error hnext hword hlast outer
      rcases bind_eq_error_iff.mp h with hcheck | ⟨_, _, h⟩
      · exact .of_onLine (checkEnd_onLine "if" (.afterElse _) rfl _) hcheck _
      · cases h

/-! ### `switch` -/

theorem cases_ok (htracks : Tracks next) {opening n : Nat} {type : Ty} {cases : Cases}
    (h : Cases.readWithin ctx next opening scope type n lines = .ok cases) :
    ∃ body, lines = body ++ cases.remaining ∧ Closes "switch" body := by
  induction n generalizing lines cases with
  | zero => cases lines <;> exact absurd h failAt_ne_ok
  | succ n ih =>
    cases lines with
    | nil => exact absurd h failAt_ne_ok
    | cons line rest =>
      rw [Cases.readWithin_cons, bind_eq_ok_iff] at h
      obtain ⟨divider, hdivider, h⟩ := h
      cases divider with
      | finish =>
        cases h
        exact ⟨[line], rfl, fun block outer hword => Divider.after_of_ofSection hdivider hword outer⟩
      | guard value =>
        simp only [Cases.fromDivider, bind_eq_ok_iff, pure_eq_ok_iff] at h
        obtain ⟨b, hb, more, hmore, rfl⟩ := h
        obtain ⟨body, hrest, hbody, -⟩ := htracks.read_ok hb
        obtain ⟨others, hothers, hcloses⟩ := ih hmore
        refine ⟨line :: body ++ others, ?_, ?_⟩
        · rw [hrest, hothers]
          simp
        · intro block outer hword
          rw [List.cons_append, openAfter_cons, Divider.after_of_ofSection hdivider hword,
            openAfter_append, hbody]
          exact hcloses block outer hword
      | last =>
        simp only [Cases.fromDivider, bind_eq_ok_iff, pure_eq_ok_iff] at h
        obtain ⟨b, hb, _, hcheck, rfl⟩ := h
        obtain ⟨body, hrest, hbody, -⟩ := htracks.read_ok hb
        have hcloses := Closes.cons_terminator hbody fun block => endsWith_of_checkEnd hcheck
        refine ⟨line :: (body ++ [b.terminator]), ?_, ?_⟩
        · rw [hrest]
          simp
        · intro block outer hword
          rw [openAfter_cons, Divider.after_of_ofSection hdivider hword]
          exact hcloses block outer hword

theorem cases_error (htracks : Tracks next) (hnext : Measured next) {n : Nat} {type : Ty}
    (hword : block.kind.word = "switch") (hn : lines.length < n)
    (h : Cases.readWithin ctx next block.line scope type n lines = .error e)
    (outer : List OpenBlock) : Blames (openAfter (block :: outer) lines) e := by
  induction n generalizing lines with
  | zero => cases hn
  | succ n ih =>
    cases lines with
    | nil =>
      cases h
      exact hword ▸ .unterminated block outer
    | cons line rest =>
      rw [Cases.readWithin_cons] at h
      rcases bind_eq_error_iff.mp h with hdivider | ⟨divider, hdivider, h⟩
      · exact .of_onLine (Divider.ofSection_onLine ctx scope type line) hdivider _
      rw [openAfter_cons, Divider.after_of_ofSection hdivider hword]
      cases divider with
      | finish => cases h
      | guard value =>
        rcases bind_eq_error_iff.mp h with hb | ⟨b, hb, h⟩
        · exact htracks.read_error hnext hword hb outer
        rcases bind_eq_error_iff.mp h with hmore | ⟨more, _, h⟩
        · obtain ⟨body, hrest, hbody, -⟩ := htracks.read_ok hb
          have hlength := congrArg List.length hrest
          simp only [List.length_cons, List.length_append] at hn hlength
          have hless : (b.terminator :: b.remaining).length < n := by
            simp only [List.length_cons]
            omega
          have hblames := ih hless hmore
          rw [hrest, openAfter_append]
          exact hbody _ ▸ hblames
        · cases h
      | last =>
        rcases bind_eq_error_iff.mp h with hb | ⟨b, hb, h⟩
        · exact htracks.read_error hnext hword hb outer
        rcases bind_eq_error_iff.mp h with hcheck | ⟨_, _, h⟩
        · exact .of_onLine (checkEnd_onLine "switch" .defaultNotLast rfl _) hcheck _
        · cases h

/-! ### Statements -/

theorem head_ok {next : Context → Next} (htracks : ∀ inside, Tracks (next inside)) {room : Bool}
    {line : Line} {rest : List Line} {head : Head} (hhead : Head.ofLine ctx room scope line = .ok head)
    {step : Step} (h : head.read ctx next scope line rest = .ok step) :
    ∃ taken, line :: rest = taken ++ step.remaining ∧ Balanced taken := by
  -- what is left to show once the lines are known that close the block
  have hcloses : ∀ {word : String} {body : List Line}, head.word? = some word →
      rest = body ++ step.remaining → Closes word body →
      ∃ taken, line :: rest = taken ++ step.remaining ∧ Balanced taken := by
    intro word body hword hrest hbody
    obtain ⟨block, -, hkind, hafter⟩ := Head.after_of_word?_some hhead hword
    refine ⟨line :: body, by rw [hrest, List.cons_append], fun blocks => ?_⟩
    rw [openAfter_cons, hafter]
    exact hbody block blocks hkind
  cases head with
  | leaf statement after =>
    cases h
    exact ⟨[line], rfl, fun blocks => Head.after_of_word?_none hhead rfl blocks⟩
  | block word inside bodyScope make =>
    simp only [Head.read, bind_eq_ok_iff, pure_eq_ok_iff] at h
    obtain ⟨b, hb, rfl⟩ := h
    obtain ⟨body, hrest, hbody, hend⟩ := (htracks inside).read_ok hb
    refine hcloses rfl (hrest.trans (List.append_cons ..)) (.cons_terminator hbody ?_)
    rintro block rfl
    exact hend
  | arms test =>
    simp only [Head.read, bind_eq_ok_iff, pure_eq_ok_iff] at h
    obtain ⟨chain, hchain, rfl⟩ := h
    obtain ⟨body, hrest, hbody⟩ := (htracks ctx).chain_ok hchain
    exact hcloses rfl hrest hbody
  | sections value =>
    simp only [Head.read, bind_eq_ok_iff, pure_eq_ok_iff] at h
    obtain ⟨cases, hcases, rfl⟩ := h
    obtain ⟨body, hrest, hbody⟩ := (htracks ctx.switching).cases_ok hcases
    exact hcloses rfl hrest hbody

theorem head_error {next : Context → Next} (htracks : ∀ inside, Tracks (next inside))
    (hnext : ∀ inside, Measured (next inside)) {room : Bool} {line : Line} {rest : List Line}
    {head : Head} (hhead : Head.ofLine ctx room scope line = .ok head)
    (h : head.read ctx next scope line rest = .error e) (blocks : List OpenBlock) :
    Blames (openAfter blocks (line :: rest)) e := by
  have hopens : ∀ {word : String}, head.word? = some word → ∃ block : OpenBlock,
      block.line = line.number ∧ block.kind.word = word ∧
        openAfter blocks (line :: rest) = openAfter (block :: blocks) rest := by
    intro word hword
    obtain ⟨block, hline, hkind, hafter⟩ := Head.after_of_word?_some hhead hword
    exact ⟨block, hline, hkind, by rw [openAfter_cons, hafter]⟩
  cases head with
  | leaf statement after => cases h
  | block word inside bodyScope make =>
    obtain ⟨block, hline, hkind, hafter⟩ := hopens rfl
    rw [hafter]
    rcases bind_eq_error_iff.mp h with hb | ⟨b, _, h⟩
    · rw [← hline] at hb
      exact (htracks inside).read_error (hnext inside) hkind hb blocks
    · cases h
  | arms test =>
    obtain ⟨block, hline, hkind, hafter⟩ := hopens rfl
    rw [hafter]
    rcases bind_eq_error_iff.mp h with hchain | ⟨chain, _, h⟩
    · rw [← hline] at hchain
      exact (htracks ctx).chain_error (hnext ctx) hkind (Nat.lt_succ_self _) hchain blocks
    · cases h
  | sections value =>
    obtain ⟨block, hline, hkind, hafter⟩ := hopens rfl
    rw [hafter]
    rcases bind_eq_error_iff.mp h with hcases | ⟨cases, _, h⟩
    · rw [← hline] at hcases
      exact (htracks ctx.switching).cases_error (hnext ctx.switching) hkind (Nat.lt_succ_self _)
        hcases blocks
    · cases h

end Tracks

/-- **The compiler follows the open blocks.** By induction on the budget: the statements of a block
are compiled with less of it. -/
theorem compileNext_tracks (budget : Nat) (ctx : Context) : Tracks (compileNext budget ctx) := by
  have hnil : ∀ budget ctx scope, compileNext budget ctx scope [] = failAt 0 .endOfSource := by
    rintro ⟨⟩ ctx scope <;> rfl
  induction budget using Nat.strongRecOn generalizing ctx with
  | ind budget ih =>
    have hinside : 0 < budget → ∀ inside, Tracks (compileNext (budget - 1) inside) :=
      fun hpos inside => ih (budget - 1) (by omega) inside
    have hnext := compileNext_madeOf (budget - 1)
    constructor
    · intro scope lines step h
      cases lines with
      | nil => exact absurd (hnil budget ctx scope ▸ h) failAt_ne_ok
      | cons line rest =>
        rw [compileNext_cons, bind_eq_ok_iff] at h
        obtain ⟨head, hhead, h⟩ := h
        rcases Nat.eq_zero_or_pos budget with rfl | hpos
        · obtain ⟨s, after, rfl⟩ := Head.eq_leaf_of_ofLine hhead
          cases h
          exact ⟨[line], rfl, fun blocks => Head.after_of_word?_none hhead rfl blocks⟩
        · exact Tracks.head_ok (hinside hpos) hhead h
    · intro scope lines e h blocks
      cases lines with
      | nil =>
        rw [hnil] at h
        cases h
        exact nofun
      | cons line rest =>
        rw [compileNext_cons] at h
        rcases bind_eq_error_iff.mp h with hhead | ⟨head, hhead, h⟩
        · exact .of_onLine (Head.ofLine_onLine ctx _ scope line) hhead _
        rcases Nat.eq_zero_or_pos budget with rfl | hpos
        · obtain ⟨s, after, rfl⟩ := Head.eq_leaf_of_ofLine hhead
          cases h
        · exact Tracks.head_error (hinside hpos) hnext hhead h blocks

/-! ### Sequences -/

section Sequences

variable {budget : Nat} {ctx : Context} {scope : Scope} {lines : List Line}

theorem compileAll_balanced {statements : List Statement}
    (h : compileAll budget ctx scope lines = .ok statements) :
    Balanced lines ∧ lineCounts statements = lines.length := by
  induction scope, lines using compileAll_induction budget ctx generalizing statements with
  | hnil scope =>
    cases h
    exact ⟨.nil, by simp [lineCounts]⟩
  | hcons scope line rest ih =>
    rw [compileAll_cons, bind_eq_ok_iff] at h
    obtain ⟨step, hstep, h⟩ := h
    rw [map_eq_pure_bind, bind_eq_ok_iff] at h
    obtain ⟨more, hmore, hstatements⟩ := h
    obtain rfl := pure_eq_ok_iff.mp hstatements
    obtain ⟨hremaining, hcounts⟩ := ih step hstep hmore
    obtain ⟨taken, hlines, htaken⟩ := (compileNext_tracks budget ctx).ok hstep
    refine ⟨hlines ▸ htaken.append hremaining, ?_⟩
    obtain ⟨front, last, hfront, hcount, -⟩ := compileNext_madeOf _ _ _ _ _ hstep
    rw [hfront, lineCounts, hcounts, ← hcount]
    simp only [List.length_append, List.length_cons]
    omega

theorem compileAll_blames {e : CompileError} (h : compileAll budget ctx scope lines = .error e)
    (blocks : List OpenBlock) : Blames (openAfter blocks lines) e := by
  induction scope, lines using compileAll_induction budget ctx with
  | hnil scope => cases h
  | hcons scope line rest ih =>
    rw [compileAll_cons] at h
    rcases bind_eq_error_iff.mp h with hstep | ⟨step, hstep, h⟩
    · exact (compileNext_tracks budget ctx).error hstep blocks
    · rw [map_eq_pure_bind] at h
      rcases bind_eq_error_iff.mp h with hmore | ⟨more, _, h⟩
      · obtain ⟨taken, hlines, htaken⟩ := (compileNext_tracks budget ctx).ok hstep
        rw [hlines, openAfter_append, htaken]
        exact ih step hstep hmore
      · cases h

/-- A failure stays as it is when lines are added, unless a block was not closed. -/
theorem compileAll_append_error {e : CompileError}
    (h : compileAll budget ctx scope lines = .error e)
    (he : ∀ word, e.fault ≠ .unterminated word) (extra : List Line) :
    compileAll budget ctx scope (lines ++ extra) = .error e := by
  induction scope, lines using compileAll_induction budget ctx with
  | hnil scope => cases h
  | hcons scope line rest ih =>
    rw [compileAll_cons] at h
    rw [List.cons_append, compileAll_cons, ← List.cons_append]
    rcases bind_eq_error_iff.mp h with hstep | ⟨step, hstep, h⟩
    · rw [compileNext_append_error (List.cons_ne_nil line rest) hstep he]
      rfl
    · rw [map_eq_pure_bind] at h
      rcases bind_eq_error_iff.mp h with hmore | ⟨more, _, h⟩
      · rw [compileNext_append hstep, ok_bind]
        simp only [Step.before]
        rw [ih step hstep hmore]
        rfl
      · cases h

/-- **Sources that end too early are blamed on the innermost open block.** Take some lines that
compile, and some of them from the start. If no block is open after these, they compile to the
statements that take them up. Otherwise they are refused, with the line that opened the innermost
open block: for an arm that of the `if`, for a section that of the `switch`. -/
theorem compileAll_truncated {part : List Line} {statements : List Statement}
    (h : compileAll budget ctx scope lines = .ok statements) (hpart : part <+: lines) :
    (openBlocks part = [] → ∃ n, compileAll budget ctx scope part = .ok (statements.take n) ∧
      lineCounts (statements.take n) = part.length) ∧
    ∀ block outer, openBlocks part = block :: outer →
      compileAll budget ctx scope part =
        .error ⟨block.line, .unterminated block.kind.word⟩ ∧
      (CompileFault.unterminated block.kind.word).message =
        "unterminated " ++ block.kind.word ++ " block: missing 'end " ++ block.kind.word ++ "'" := by
  obtain ⟨extra, rfl⟩ := hpart
  cases hcompiled : compileAll budget ctx scope part with
  | ok first =>
    obtain ⟨hbalanced, hcounts⟩ := compileAll_balanced hcompiled
    have hopen : openBlocks part = [] := hbalanced []
    rw [compileAll_append hcompiled, map_eq_pure_bind, bind_eq_ok_iff] at h
    obtain ⟨more, _, hstatements⟩ := h
    obtain rfl := pure_eq_ok_iff.mp hstatements
    refine ⟨fun _ => ⟨first.length, ?_⟩, ?_⟩
    · rw [List.take_left]
      exact ⟨rfl, hcounts⟩
    · intro block outer hblock
      rw [hopen] at hblock
      cases hblock
  | error e =>
    -- no other failure would have been mended by the lines that are missing
    have hword : ∃ word, e.fault = .unterminated word := by
      by_contra hnot
      rw [compileAll_append_error hcompiled fun word hword => hnot ⟨word, hword⟩] at h
      cases h
    obtain ⟨word, hfault⟩ := hword
    obtain ⟨block, outer, hopen, hline, hkind⟩ := compileAll_blames hcompiled [] word hfault
    have herror : e = ⟨block.line, .unterminated block.kind.word⟩ := by
      rw [hline, hkind, ← hfault]
    have hopen : openBlocks part = block :: outer := hopen
    refine ⟨?_, ?_⟩
    · intro hnone
      rw [hopen] at hnone
      cases hnone
    · intro block' outer' hblock
      rw [hopen] at hblock
      cases hblock
      exact ⟨congrArg Except.error herror, rfl⟩

end Sequences

/-- A loop with an `if` inside, in whose `else` there is a `switch`. -/
def Source.countAround : List Line :=
  Source.lines ("var n as number\nfor (i : 3)\nif (n > 1)\nn = 0\nelse\nswitch (n)\ncase (1)\n" ++
    "n += 2\ndefault\nn += i\nend switch\nend if\nend for\nn = 7")

theorem compileAll_truncated_countAround :
    ∃ statements, compileAll 3 .plain .empty Source.countAround = .ok statements ∧
      (openBlocks (Source.countAround.take 13) = [] ∧
        ∃ n, compileAll 3 .plain .empty (Source.countAround.take 13) = .ok (statements.take n) ∧
          lineCounts (statements.take n) = (Source.countAround.take 13).length) ∧
      openBlocks (Source.countAround.take 8) = [⟨.switch, 6⟩, ⟨.ifChain, 3⟩, ⟨.forCount, 2⟩] ∧
      compileAll 3 .plain .empty (Source.countAround.take 8) =
        .error ⟨6, .unterminated "switch"⟩ := by
  have hok : (compileAll 3 .plain .empty Source.countAround).isOk = true := by decide +kernel
  have hclosed : openBlocks (Source.countAround.take 13) = [] := by decide +kernel
  have hopen : openBlocks (Source.countAround.take 8) =
      [⟨.switch, 6⟩, ⟨.ifChain, 3⟩, ⟨.forCount, 2⟩] := by decide +kernel
  obtain ⟨statements, h⟩ := exists_eq_ok_of_isOk hok
  exact ⟨statements, h, ⟨hclosed, (compileAll_truncated h (List.take_prefix 13 _)).1 hclosed⟩,
    hopen, ((compileAll_truncated h (List.take_prefix 8 _)).2 _ _ hopen).1⟩

end WorldScript
