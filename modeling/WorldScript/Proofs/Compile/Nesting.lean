import WorldScript.Proofs.Compile.Continuation

/-! # Settings only restrict

What compiles under some settings compiles to the same under others, or it is refused for its
nesting. A limit on the nesting of blocks refuses a source if and only if its blocks are nested
deeper than that, and blames the first block that is. That jumps are no longer checked changes
nothing.

* `Statement.nesting`: how deep the blocks of a statement are nested.
* `Statement.opened d`: the lines of the block statements with exactly `d` blocks around them.
* `capped limit deep a`: the result `a`, or the blame for the first line that is too deep.
* `compileNext_capped`: what becomes of a compiled statement under other settings.
* `compileSequence_settings`: what becomes of a source. -/

namespace WorldScript

namespace Statement

/-! ### Nesting -/

mutual

/-- How deep the blocks of a statement are nested. All arms of an `if` and all sections of a
`switch` are on one level. -/
def nesting : Statement → Nat
  | forCount _ _ _ body => nestings body + 1
  | forEach _ _ _ _ body => nestings body + 1
  | whileLoop _ _ body => nestings body + 1
  | delay _ _ body => nestings body + 1
  | ifChain _ arms otherwise => max (sectionsNesting arms) (lastNesting otherwise) + 1
  | switch _ _ cases otherwise => max (sectionsNesting cases) (lastNesting otherwise) + 1
  | _ => 0

/-- How deep the blocks of a sequence are nested. -/
def nestings : List Statement → Nat
  | [] => 0
  | s :: rest => max (nesting s) (nestings rest)

/-- How deep the blocks in guarded parts are nested. -/
def sectionsNesting : List Section → Nat
  | [] => 0
  | .mk _ _ body :: rest => max (nestings body) (sectionsNesting rest)

/-- How deep the blocks in the part without a guard are nested. -/
def lastNesting : Option (List Statement) → Nat
  | none => 0
  | some body => nestings body

end

theorem nestings_le_iff {l : List Statement} {d : Nat} :
    nestings l ≤ d ↔ ∀ s ∈ l, nesting s ≤ d := by
  induction l with
  | nil => simp [nestings]
  | cons s rest ih => rw [nestings, Nat.max_le, ih, List.forall_mem_cons]

/-- The parts of an `if` or a `switch` are on one level. -/
theorem parts_le_iff {sections : List Section} {last : Option (List Statement)} {d : Nat} :
    max (sectionsNesting sections) (lastNesting last) ≤ d ↔
      ∀ body ∈ sections.map Section.body ++ last.toList, nestings body ≤ d := by
  have hsections : sectionsNesting sections ≤ d ↔
      ∀ body ∈ sections.map Section.body, nestings body ≤ d := by
    induction sections with
    | nil => simp [sectionsNesting]
    | cons s rest ih =>
      obtain ⟨line, test, body⟩ := s
      rw [sectionsNesting, Nat.max_le, ih, List.map_cons, List.forall_mem_cons]
      rfl
  have hlast : lastNesting last ≤ d ↔ ∀ body ∈ last.toList, nestings body ≤ d := by
    cases last <;> simp [lastNesting]
  rw [Nat.max_le, hsections, hlast, List.forall_mem_append]

/-- The line of a statement that opens a block. -/
def blockLine? : Statement → Option Nat
  | ifChain line _ _ => some line
  | forCount line _ _ _ => some line
  | forEach line _ _ _ _ => some line
  | whileLoop line _ _ => some line
  | switch line _ _ _ => some line
  | delay line _ _ => some line
  | _ => none

theorem nesting_eq_zero_iff {s : Statement} : nesting s = 0 ↔ s.blockLine? = none := by
  cases s <;> simp [nesting, blockLine?]

theorem nesting_le_succ_iff {s : Statement} {d : Nat} :
    nesting s ≤ d + 1 ↔ ∀ body ∈ s.blocks, nestings body ≤ d := by
  cases s with
  | ifChain line arms otherwise =>
    rw [nesting, Nat.add_le_add_iff_right]
    exact parts_le_iff
  | switch line value cases otherwise =>
    rw [nesting, Nat.add_le_add_iff_right]
    exact parts_le_iff
  | _ => simp [nesting, blocks]

/-! ### Levels -/

/-- The lines of the statements that open a block and have exactly `d` blocks around them, in the
order of the source. -/
def opened : Nat → Statement → List Nat
  | 0, s => s.blockLine?.toList
  | d + 1, s => s.blocks.flatMap fun body => body.flatMap (opened d)

/-- The same for a sequence. -/
def openedAll (d : Nat) (l : List Statement) : List Nat := l.flatMap (opened d)

theorem opened_succ (d : Nat) (s : Statement) :
    opened (d + 1) s = s.blocks.flatMap (openedAll d) := rfl

theorem openedAll_cons (d : Nat) (s : Statement) (rest : List Statement) :
    openedAll d (s :: rest) = opened d s ++ openedAll d rest := List.flatMap_cons

/-- There are blocks on a level if and only if the nesting is deeper. -/
theorem opened_eq_nil_iff {d : Nat} {s : Statement} : opened d s = [] ↔ nesting s ≤ d := by
  induction d generalizing s with
  | zero => rw [Nat.le_zero, nesting_eq_zero_iff, opened, Option.toList_eq_nil_iff]
  | succ d ih =>
    simp only [opened, List.flatMap_eq_nil_iff, ih]
    rw [nesting_le_succ_iff]
    simp only [nestings_le_iff]

theorem openedAll_eq_nil_iff {d : Nat} {l : List Statement} :
    openedAll d l = [] ↔ nestings l ≤ d := by
  rw [openedAll, List.flatMap_eq_nil_iff, nestings_le_iff]
  exact forall₂_congr fun s _ => opened_eq_nil_iff

/-- The statement opens no block. -/
def IsLeaf (s : Statement) : Prop := s.blockLine? = none

theorem IsLeaf.opened {s : Statement} (h : s.IsLeaf) (d : Nat) : opened d s = [] := by
  rw [opened_eq_nil_iff, nesting_eq_zero_iff.mpr h]
  exact Nat.zero_le d

end Statement

open Statement (opened openedAll opened_succ openedAll_cons)

/-! ### Results that may be too deep -/

/-- The result, unless there are blocks that are too deep: then the first of them is to blame. -/
def capped {α : Type} (limit : Nat) (deep : List Nat) (a : α) : Compile α :=
  match deep with
  | [] => .ok a
  | line :: _ => failAt line (.tooDeep limit)

section Capped

variable {α β : Type} {limit : Nat} {deep more : List Nat} {a : α} {b : β}

theorem capped_bind {k : α → Compile β} (h : k a = capped limit more b) :
    capped limit deep a >>= k = capped limit (deep ++ more) b := by
  cases deep with
  | nil => exact h
  | cons line rest => rfl

theorem capped_bind_ok {k : α → Compile β} (h : k a = .ok b) :
    capped limit deep a >>= k = capped limit deep b := by
  cases deep with
  | nil => exact h
  | cons line rest => rfl

theorem deep_eq_nil_of_capped {a' : α} (h : capped limit deep a = .ok a') : deep = [] := by
  cases deep with
  | nil => rfl
  | cons line rest => exact absurd h failAt_ne_ok

end Capped

/-! ### Heads -/

/-- The context under other settings. -/
def Context.withSettings (settings : Settings) (ctx : Context) : Context :=
  { ctx with settings := settings }

namespace Head

/-- The head under other settings. -/
def withSettings (settings : Settings) : Head → Head
  | block word inside scope make => block word (inside.withSettings settings) scope make
  | head => head

/-- The block that the head asks for, by the line of the head. -/
def opened (line : Nat) : Head → List Nat
  | leaf _ _ => []
  | _ => [line]

/-- What is made of the head opens the block that it asks for on the line, and no other. -/
def Made (settings : Settings) (line : Nat) : Head → Prop
  | leaf s _ => s.IsLeaf
  | block _ inside _ make => inside.settings = settings ∧
    ∀ body, (make body).blockLine? = some line ∧ (make body).blocks = [body]
  | _ => True

end Head

/-! ### Statements of one line -/

/-- What comes out, if anything, has the property. -/
def Ensures {α : Type} (P : α → Prop) (r : Compile α) : Prop := ∀ a, r = .ok a → P a

namespace Ensures

variable {α β : Type} {P : β → Prop}

theorem pure {b : β} (h : P b) : Ensures P (Pure.pure b) := by
  rintro _ ⟨⟩
  exact h

theorem failAt (line : Nat) (fault : CompileFault) : Ensures P (WorldScript.failAt line fault) :=
  fun _ h => absurd h failAt_ne_ok

theorem bind {x : Compile α} {k : α → Compile β} (h : ∀ a, Ensures P (k a)) :
    Ensures P (x >>= k) := by
  intro b hb
  obtain ⟨a, -, hb⟩ := bind_eq_ok_iff.mp hb
  exact h a b hb

end Ensures

namespace Leaf

/-! The kind of statement that a line becomes is known before it is compiled. -/

variable (ctx : Context) (scope : Scope) (n : Nat) {P : Statement → Prop}

theorem declare_ensures (h : ∀ name type e, P (.declare n name type e)) (name type : List Char)
    (initial : Option (List Char)) :
    Ensures (fun r => P r.1) (declare ctx scope n name type initial) := by
  refine .bind fun _ => ?_
  split
  · exact .failAt _ _
  · split
    · exact .failAt _ _
    · split
      · exact .pure (h _ _ _)
      · exact .bind fun _ => .pure (h _ _ _)

theorem compound_ensures (h : ∀ name op e, P (.compound n name op e)) (name : List Char)
    (op : CompoundOp) (value : List Char) : Ensures P (compound ctx scope n name op value) := by
  refine .bind fun _ => .bind fun _ => ?_
  -- with and without an element type
  split
  all_goals
    refine .bind fun _ => ?_
    dsimp only
    split
    · exact .failAt _ _
    · exact .failAt _ _
    · exact .pure (h _ _ _)

theorem breakOut_ensures (h : P .breakOut) : Ensures P (breakOut ctx n) := by
  unfold breakOut
  split
  · exact .failAt _ _
  · exact .pure h

theorem continueOn_ensures (h : P .continueOn) : Ensures P (continueOn ctx n) := by
  unfold continueOn
  split
  · exact .failAt _ _
  · exact .pure h

theorem returnWith_ensures (h : ∀ e, P (.returnWith n e)) (value : Option (List Char)) :
    Ensures P (returnWith ctx scope n value) := by
  unfold returnWith
  split
  · split
    · exact .failAt _ _
    · split
      · exact .failAt _ _
      · exact .bind fun _ => .pure (h _)
  · split
    · exact .failAt _ _
    · exact .pure (h _)

theorem addItem_ensures (h : ∀ name change, P (.change n name change)) (name : List Char)
    (key : Option (List Char)) (item : List Char) :
    Ensures P (addItem ctx scope n name key item) := by
  cases key with
  | none => exact .bind fun _ => .bind fun _ => .bind fun _ => .pure (h _ _)
  | some key => exact .bind fun _ => .bind fun _ => .bind fun _ => .bind fun _ => .pure (h _ _)

end Leaf

/-- What is made of a head opens the block that it asks for. -/
theorem Head.ofForm_made (ctx : Context) (room : Bool) (scope : Scope) (line : Line)
    (form : LineForm) :
    Ensures (Head.Made ctx.settings line.number) (ofForm ctx room scope line form) := by
  have hleaf : ∀ {s : Compile Statement}, Ensures Statement.IsLeaf s →
      Ensures (Head.Made ctx.settings line.number) (ofLeaf scope s) := by
    intro s hs head hhead
    obtain ⟨statement, hstatement, hhead⟩ := bind_eq_ok_iff.mp hhead
    obtain rfl := pure_eq_ok_iff.mp hhead
    exact hs statement hstatement
  cases form with
  | declare name type initial =>
    intro head hhead
    obtain ⟨⟨s, t⟩, hs, hhead⟩ := bind_eq_ok_iff.mp hhead
    obtain rfl := pure_eq_ok_iff.mp hhead
    exact Leaf.declare_ensures ctx scope line.number (P := Statement.IsLeaf) (fun _ _ _ => rfl) name
      type initial (s, t) hs
  | ifChain test => exact .bind fun _ => .bind fun _ => .pure trivial
  | forCount name count =>
    exact .bind fun _ => .bind fun _ => .bind fun _ => .pure ⟨rfl, fun _ => ⟨rfl, rfl⟩⟩
  | forEach name items =>
    refine .bind fun _ => .bind fun _ => .bind fun _ => ?_
    dsimp only
    split
    · exact .bind fun _ => .pure ⟨rfl, fun _ => ⟨rfl, rfl⟩⟩
    · exact .failAt _ _
  | whileLoop test => exact .bind fun _ => .bind fun _ => .pure ⟨rfl, fun _ => ⟨rfl, rfl⟩⟩
  | switch value => exact .bind fun _ => .bind fun _ => .pure trivial
  | delay duration => exact .bind fun _ => .bind fun _ => .pure ⟨rfl, fun _ => ⟨rfl, rfl⟩⟩
  | breakOut => exact hleaf (Leaf.breakOut_ensures ctx _ rfl)
  | continueOn => exact hleaf (Leaf.continueOn_ensures ctx _ rfl)
  | returnWith value => exact hleaf (Leaf.returnWith_ensures ctx scope _ (fun _ => rfl) value)
  | addItem name key item =>
    exact hleaf (Leaf.addItem_ensures ctx scope _ (fun _ _ => rfl) name key item)
  | addRange name items => exact hleaf (.bind fun _ => .bind fun _ => .pure rfl)
  | removeItem name item => exact hleaf (.bind fun _ => .bind fun _ => .bind fun _ => .pure rfl)
  | removeAt name index => exact hleaf (.bind fun _ => .bind fun _ => .pure rfl)
  | clearItems name => exact hleaf (.bind fun _ => .pure rfl)
  | setItem name key item =>
    exact hleaf (.bind fun _ => .bind fun _ => .bind fun _ => .bind fun _ => .pure rfl)
  | removeKey name key => exact hleaf (.bind fun _ => .bind fun _ => .pure rfl)
  | separator => exact .failAt _ _
  | compound name op value =>
    exact hleaf (Leaf.compound_ensures ctx scope _ (fun _ _ _ => rfl) name op value)
  | assign name value => exact hleaf (.bind fun _ => .bind fun _ => .pure rfl)
  | call => exact hleaf (.bind fun _ => .pure rfl)

/-! ### Heads under other settings -/

section Settings

variable (settings : Settings) (ctx : Context) (scope : Scope) (n : Nat)

theorem expression_withSettings (text : List Char) :
    (ctx.withSettings settings).expression scope n text = ctx.expression scope n text := by
  rw [Context.expression, Context.expression]
  rfl

theorem typed_withSettings (role : Role) (expected : Ty) (text : List Char) :
    (ctx.withSettings settings).typed scope n role expected text =
      ctx.typed scope n role expected text := by
  rw [Context.typed, Context.typed, expression_withSettings]

theorem ofArm_withSettings (line : Line) :
    Divider.ofArm (ctx.withSettings settings) scope line = Divider.ofArm ctx scope line := by
  simp only [Divider.ofArm, typed_withSettings]

theorem ofSection_withSettings (type : Ty) (line : Line) :
    Divider.ofSection (ctx.withSettings settings) scope type line =
      Divider.ofSection ctx scope type line := by
  simp only [Divider.ofSection, Cases.caseValue, expression_withSettings]

end Settings

/-- The settings check jumps only if the others do. -/
def Settings.Relaxes (settings others : Settings) : Prop :=
  settings.strictJumps = true → others.strictJumps = true

section Jumps

variable {settings : Settings} {ctx : Context} (hjumps : settings.Relaxes ctx.settings) {n : Nat}
  {s : Statement}

include hjumps

theorem breakOut_withSettings (h : Leaf.breakOut ctx n = .ok s) :
    Leaf.breakOut (ctx.withSettings settings) n = .ok s := by
  unfold Leaf.breakOut at h ⊢
  split at h
  · exact absurd h failAt_ne_ok
  · rename_i hallowed
    rw [if_neg, h]
    simp only [Context.withSettings, Bool.and_eq_true] at hallowed ⊢
    exact fun hstray => hallowed ⟨⟨hjumps hstray.1.1, hstray.1.2⟩, hstray.2⟩

theorem continueOn_withSettings (h : Leaf.continueOn ctx n = .ok s) :
    Leaf.continueOn (ctx.withSettings settings) n = .ok s := by
  unfold Leaf.continueOn at h ⊢
  split at h
  · exact absurd h failAt_ne_ok
  · rename_i hallowed
    rw [if_neg, h]
    simp only [Context.withSettings, Bool.and_eq_true] at hallowed ⊢
    exact fun hstray => hallowed ⟨hjumps hstray.1, hstray.2⟩

end Jumps

/-- A head is the same under other settings, if there is room for its block. -/
theorem Head.ofForm_withSettings {ctx : Context} {room : Bool} {scope : Scope} {line : Line}
    {form : LineForm} {head : Head} (h : ofForm ctx room scope line form = .ok head)
    {settings : Settings} (hjumps : settings.Relaxes ctx.settings) (room' : Bool) :
    ofForm (ctx.withSettings settings) room' scope line form =
      capped settings.maxNesting (if room' then [] else head.opened line.number)
        (head.withSettings settings) := by
  have hleaf : ∀ {s s' : Compile Statement}, ofLeaf scope s = .ok head →
      (∀ statement, s = .ok statement → s' = .ok statement) →
      ofLeaf scope s' =
        capped settings.maxNesting (if room' then [] else head.opened line.number)
          (head.withSettings settings) := by
    intro s s' hs hs'
    obtain ⟨statement, hstatement, hhead⟩ := bind_eq_ok_iff.mp hs
    obtain rfl := pure_eq_ok_iff.mp hhead
    rw [hs' statement hstatement]
    cases room' <;> rfl
  have hroom : ∀ (k : Unit → Compile Head), k () = .ok (head.withSettings settings) →
      head.opened line.number = [line.number] →
      checkRoom room' settings.maxNesting line.number >>= k =
        capped settings.maxNesting (if room' then [] else head.opened line.number)
          (head.withSettings settings) := by
    intro k hk hopened
    rw [hopened]
    cases room' with
    | true => exact hk
    | false => rfl
  cases form with
  | declare name type initial =>
    simp only [ofForm, Leaf.declare, typed_withSettings] at h ⊢
    rw [h]
    simp only [bind_eq_ok_iff, pure_eq_ok_iff] at h
    obtain ⟨_, _, rfl⟩ := h
    cases room' <;> rfl
  | ifChain test =>
    simp only [ofForm, bind_eq_ok_iff, pure_eq_ok_iff] at h
    obtain ⟨_, _, test, htest, rfl⟩ := h
    refine hroom _ ?_ rfl
    rw [typed_withSettings, htest]
    rfl
  | forCount name count =>
    simp only [ofForm, bind_eq_ok_iff, pure_eq_ok_iff] at h
    obtain ⟨_, hname, _, _, count, hcount, rfl⟩ := h
    simp only [ofForm, hname, ok_bind]
    refine hroom _ ?_ rfl
    rw [typed_withSettings, hcount]
    rfl
  | forEach name items =>
    simp only [ofForm, bind_eq_ok_iff] at h
    obtain ⟨_, hname, _, _, collection, hcollection, h⟩ := h
    have hhead : head.opened line.number = [line.number] ∧
        (if collection.plainType.contains .collection then
          stripAt line.number collection.plainType .collection >>= fun element =>
            pure (block "foreach" (ctx.withSettings settings).looping
              (scope.add (String.ofList name) element)
              (.forEach line.number (Text.lower (String.ofList name)) element collection))
        else failAt line.number (.notCollection (String.ofList (Text.trim items))
          collection.plainType)) = .ok (head.withSettings settings) := by
      split at h
      · rename_i hcontains
        simp only [bind_eq_ok_iff, pure_eq_ok_iff] at h
        obtain ⟨element, helement, rfl⟩ := h
        rw [if_pos hcontains, helement]
        exact ⟨rfl, rfl⟩
      · exact absurd h failAt_ne_ok
    simp only [ofForm, hname, ok_bind]
    refine hroom _ ?_ hhead.1
    rw [expression_withSettings, hcollection, ok_bind]
    exact hhead.2
  | whileLoop test =>
    simp only [ofForm, bind_eq_ok_iff, pure_eq_ok_iff] at h
    obtain ⟨_, _, test, htest, rfl⟩ := h
    refine hroom _ ?_ rfl
    rw [typed_withSettings, htest]
    rfl
  | switch value =>
    simp only [ofForm, bind_eq_ok_iff, pure_eq_ok_iff] at h
    obtain ⟨_, _, value, hvalue, rfl⟩ := h
    refine hroom _ ?_ rfl
    rw [expression_withSettings, hvalue]
    rfl
  | delay duration =>
    simp only [ofForm, bind_eq_ok_iff, pure_eq_ok_iff] at h
    obtain ⟨_, _, duration, hduration, rfl⟩ := h
    refine hroom _ ?_ rfl
    rw [typed_withSettings, hduration]
    rfl
  | breakOut => exact hleaf h fun _ => breakOut_withSettings hjumps
  | continueOn => exact hleaf h fun _ => continueOn_withSettings hjumps
  | separator => exact absurd h failAt_ne_ok
  | clearItems name => exact hleaf h fun _ hs => hs
  | returnWith value =>
    refine hleaf h fun _ hs => ?_
    simp only [Leaf.returnWith, typed_withSettings] at hs ⊢
    exact hs
  | _ =>
    -- nothing but expressions depends on the context
    refine hleaf h fun _ hs => ?_
    simp only [Leaf.addItem, Leaf.addRange, Leaf.removeItem, Leaf.removeAt, Leaf.setItem,
      Leaf.removeKey, Leaf.compound, Leaf.assign, Leaf.call, typed_withSettings,
      expression_withSettings] at hs ⊢
    exact hs

theorem Head.ofLine_withSettings {ctx : Context} {room : Bool} {scope : Scope} {line : Line}
    {head : Head} (h : ofLine ctx room scope line = .ok head) {settings : Settings}
    (hjumps : settings.Relaxes ctx.settings) (room' : Bool) :
    ofLine (ctx.withSettings settings) room' scope line =
      capped settings.maxNesting (if room' then [] else head.opened line.number)
        (head.withSettings settings) ∧ head.Made ctx.settings line.number := by
  unfold ofLine at h ⊢
  split at h
  · exact absurd h failAt_ne_ok
  · rename_i form _
    exact ⟨ofForm_withSettings h hjumps room', ofForm_made ctx room scope line form head h⟩

/-! ### Blocks under other settings -/

/-- The blocks in the parts of an `if` or a `switch`, by their lines. -/
def openedParts (d : Nat) (sections : List Section) (last : Option (List Statement)) : List Nat :=
  (sections.map Section.body ++ last.toList).flatMap (openedAll d)

theorem openedParts_cons (d line : Nat) (test : Checked) (body : List Statement)
    (sections : List Section) (last : Option (List Statement)) :
    openedParts d (.mk line test body :: sections) last =
      openedAll d body ++ openedParts d sections last := by
  simp only [openedParts, List.map_cons, List.cons_append, List.flatMap_cons, Section.body]

theorem openedParts_last (d : Nat) (body : List Statement) :
    openedParts d [] (some body) = openedAll d body := by
  simp [openedParts]

/-- What the one compiles, the other compiles to the same, unless there are blocks on the level. -/
def Caps (limit d : Nat) (next next' : Next) : Prop :=
  ∀ scope lines step, next scope lines = .ok step →
    next' scope lines = capped limit (opened d step.statement) step

namespace Caps

variable {limit d : Nat} {next next' : Next} {scope : Scope} {lines : List Line}

theorem readWithin (hnext : Caps limit d next next') {isEnd : List Char → Bool} {e : CompileError}
    {n : Nat} {block : Block} (h : Block.readWithin next isEnd e n scope lines = .ok block) :
    Block.readWithin next' isEnd e n scope lines =
      capped limit (openedAll d block.statements) block := by
  induction n generalizing scope lines block with
  | zero => cases lines <;> simp [Block.readWithin] at h
  | succ n ih =>
    cases lines with
    | nil => simp [Block.readWithin] at h
    | cons line rest =>
      simp only [Block.readWithin] at h ⊢
      split at h
      · rename_i hend
        rw [if_pos hend]
        cases h
        rfl
      · rename_i hend
        simp only [bind_eq_ok_iff, pure_eq_ok_iff] at h
        obtain ⟨step, hstep, more, hmore, rfl⟩ := h
        rw [if_neg hend, hnext _ _ _ hstep, openedAll_cons]
        refine capped_bind ?_
        rw [ih hmore]
        exact capped_bind_ok rfl

theorem read (hnext : Caps limit d next next') {isEnd : List Char → Bool} {word : String}
    {opening : Nat} {block : Block}
    (h : Block.read next isEnd word opening scope lines = .ok block) :
    Block.read next' isEnd word opening scope lines =
      capped limit (openedAll d block.statements) block :=
  hnext.readWithin h

theorem chain (hnext : Caps limit d next next') {ctx : Context} {settings : Settings}
    {opening n line : Nat} {test : Checked} {chain : Chain}
    (h : Chain.readWithin ctx next opening scope n line test lines = .ok chain) :
    Chain.readWithin (ctx.withSettings settings) next' opening scope n line test lines =
      capped limit (openedParts d chain.arms chain.otherwise) chain := by
  induction n generalizing line test lines chain with
  | zero => exact absurd h failAt_ne_ok
  | succ n ih =>
    rw [Chain.readWithin_cons, bind_eq_ok_iff] at h
    obtain ⟨block, hblock, h⟩ := h
    rw [bind_eq_ok_iff] at h
    obtain ⟨divider, hdivider, h⟩ := h
    rw [Chain.readWithin_cons, hnext.read hblock]
    have harm : ∀ {arms : List Section} {last : Option (List Statement)} {c : Chain},
        Chain.afterArm next' opening scope
            (Chain.readWithin (ctx.withSettings settings) next' opening scope n)
            (.mk line test block.statements) block divider =
          capped limit (openedParts d arms last) c →
        (capped limit (openedAll d block.statements) block >>= fun block =>
          Divider.ofArm (ctx.withSettings settings) scope block.terminator >>=
            Chain.afterArm next' opening scope
              (Chain.readWithin (ctx.withSettings settings) next' opening scope n)
              (.mk line test block.statements) block) =
          capped limit (openedParts d (.mk line test block.statements :: arms) last) c := by
      intro arms last c hafter
      rw [openedParts_cons]
      refine capped_bind ?_
      rw [ofArm_withSettings, hdivider, ok_bind, hafter]
    cases divider with
    | finish =>
      cases h
      exact harm rfl
    | guard test =>
      simp only [Chain.afterArm, bind_eq_ok_iff, pure_eq_ok_iff] at h
      obtain ⟨more, hmore, rfl⟩ := h
      refine harm ?_
      simp only [Chain.afterArm]
      rw [ih hmore]
      exact capped_bind_ok rfl
    | last =>
      simp only [Chain.afterArm, bind_eq_ok_iff, pure_eq_ok_iff] at h
      obtain ⟨last, hlast, _, hcheck, rfl⟩ := h
      refine harm ?_
      simp only [Chain.afterArm]
      rw [hnext.read hlast, openedParts_last]
      refine capped_bind_ok ?_
      rw [hcheck]
      rfl

theorem cases (hnext : Caps limit d next next') {ctx : Context} {settings : Settings}
    {opening n : Nat} {type : Ty} {cases : Cases}
    (h : Cases.readWithin ctx next opening scope type n lines = .ok cases) :
    Cases.readWithin (ctx.withSettings settings) next' opening scope type n lines =
      capped limit (openedParts d cases.cases cases.otherwise) cases := by
  induction n generalizing lines cases with
  | zero => cases lines <;> exact absurd h failAt_ne_ok
  | succ n ih =>
    cases lines with
    | nil => exact absurd h failAt_ne_ok
    | cons line rest =>
      rw [Cases.readWithin_cons, bind_eq_ok_iff] at h
      obtain ⟨divider, hdivider, h⟩ := h
      rw [Cases.readWithin_cons, ofSection_withSettings, hdivider, ok_bind]
      cases divider with
      | finish =>
        cases h
        rfl
      | guard value =>
        simp only [Cases.fromDivider, bind_eq_ok_iff, pure_eq_ok_iff] at h
        obtain ⟨block, hblock, more, hmore, rfl⟩ := h
        simp only [Cases.fromDivider]
        rw [hnext.read hblock, openedParts_cons]
        refine capped_bind ?_
        rw [ih hmore]
        exact capped_bind_ok rfl
      | last =>
        simp only [Cases.fromDivider, bind_eq_ok_iff, pure_eq_ok_iff] at h
        obtain ⟨block, hblock, _, hcheck, rfl⟩ := h
        simp only [Cases.fromDivider]
        rw [hnext.read hblock, openedParts_last]
        refine capped_bind_ok ?_
        rw [hcheck]
        rfl

end Caps

/-! ### Statements under other settings -/

/-- The statement of a head opens what the head asks for. -/
theorem Head.opened_of_read {ctx : Context} {next : Context → Next} {scope : Scope} {line : Line}
    {rest : List Line} {head : Head} {settings : Settings} (hmade : head.Made settings line.number)
    {step : Step} (h : head.read ctx next scope line rest = .ok step) :
    Statement.opened 0 step.statement = head.opened line.number := by
  cases head with
  | leaf s after =>
    cases h
    exact Statement.IsLeaf.opened hmade 0
  | block word inside bodyScope make =>
    simp only [read, bind_eq_ok_iff, pure_eq_ok_iff] at h
    obtain ⟨block, _, rfl⟩ := h
    exact congrArg Option.toList (hmade.2 block.statements).1
  | arms test =>
    simp only [read, bind_eq_ok_iff, pure_eq_ok_iff] at h
    obtain ⟨chain, _, rfl⟩ := h
    rfl
  | sections value =>
    simp only [read, bind_eq_ok_iff, pure_eq_ok_iff] at h
    obtain ⟨cases, _, rfl⟩ := h
    rfl

/-- What a head asks for, one level further inside. -/
theorem Head.read_withSettings {ctx : Context} {next next' : Context → Next} {scope : Scope}
    {line : Line} {rest : List Line} {head : Head} {settings : Settings} {limit d : Nat}
    (hmade : head.Made ctx.settings line.number)
    (hnext : ∀ inside : Context, inside.settings = ctx.settings →
      Caps limit d (next inside) (next' (inside.withSettings settings)))
    {step : Step} (h : head.read ctx next scope line rest = .ok step) :
    (head.withSettings settings).read (ctx.withSettings settings) next' scope line rest =
      capped limit (Statement.opened (d + 1) step.statement) step := by
  cases head with
  | leaf s after =>
    cases h
    rw [Statement.IsLeaf.opened hmade]
    rfl
  | block word inside bodyScope make =>
    simp only [read, bind_eq_ok_iff, pure_eq_ok_iff] at h
    obtain ⟨block, hblock, rfl⟩ := h
    have hopened : Statement.opened (d + 1) (make block.statements) =
        openedAll d block.statements := by
      rw [opened_succ, (hmade.2 _).2, List.flatMap_singleton]
    simp only [withSettings, read, Block.readEnd]
    rw [(hnext inside hmade.1).read hblock, ← hopened]
    exact capped_bind_ok rfl
  | arms test =>
    simp only [read, bind_eq_ok_iff, pure_eq_ok_iff] at h
    obtain ⟨chain, hchain, rfl⟩ := h
    simp only [withSettings, read, Chain.read]
    rw [(hnext ctx rfl).chain hchain]
    exact capped_bind_ok rfl
  | sections value =>
    simp only [read, bind_eq_ok_iff, pure_eq_ok_iff] at h
    obtain ⟨cases, hcases, rfl⟩ := h
    have hinside : next' (ctx.withSettings settings).switching =
      next' (ctx.switching.withSettings settings) := rfl
    simp only [withSettings, read, Cases.read]
    rw [hinside, (hnext ctx.switching rfl).cases hcases]
    exact capped_bind_ok rfl

/-- **A statement under other settings.** It is the same, or there are blocks for which no budget is
left. By induction on the budget under the old settings, since that is where the statement is known
to compile. -/
theorem compileNext_capped {settings : Settings} (budget d : Nat) {ctx : Context}
    (hjumps : settings.Relaxes ctx.settings) :
    Caps settings.maxNesting d (compileNext budget ctx)
      (compileNext d (ctx.withSettings settings)) := by
  induction budget using Nat.strongRecOn generalizing d ctx with
  | ind budget ih =>
    intro scope lines step h
    cases lines with
    | nil => cases budget <;> exact absurd h failAt_ne_ok
    | cons line rest =>
      rw [compileNext_cons, bind_eq_ok_iff] at h
      obtain ⟨head, hhead, h⟩ := h
      obtain ⟨hcapped, hmade⟩ := Head.ofLine_withSettings hhead hjumps (hasRoom d)
      rw [compileNext_cons, hcapped]
      cases d with
      | zero =>
        rw [Head.opened_of_read hmade h]
        cases head with
        | leaf s after => exact h
        | block word inside bodyScope make => rfl
        | arms test => rfl
        | sections value => rfl
      | succ d =>
        rcases Nat.eq_zero_or_pos budget with rfl | hpos
        · obtain ⟨s, after, rfl⟩ := Head.eq_leaf_of_ofLine hhead
          cases h
          rw [Statement.IsLeaf.opened hmade]
          rfl
        · refine Head.read_withSettings hmade (fun inside hinside => ?_) h
          exact ih (budget - 1) (by omega) d (hinside ▸ hjumps)

theorem compileAll_capped (settings : Settings) {budget : Nat} (d : Nat) {ctx : Context}
    (hjumps : settings.Relaxes ctx.settings) {scope : Scope} {lines : List Line}
    {statements : List Statement} (h : compileAll budget ctx scope lines = .ok statements) :
    compileAll d (ctx.withSettings settings) scope lines =
      capped settings.maxNesting (openedAll d statements) statements := by
  induction scope, lines using compileAll_induction budget ctx generalizing statements with
  | hnil scope =>
    cases h
    rfl
  | hcons scope line rest ih =>
    rw [compileAll_cons, bind_eq_ok_iff] at h
    obtain ⟨step, hstep, h⟩ := h
    rw [map_eq_pure_bind, bind_eq_ok_iff] at h
    obtain ⟨more, hmore, hstatements⟩ := h
    obtain rfl := pure_eq_ok_iff.mp hstatements
    rw [compileAll_cons, compileNext_capped budget d hjumps _ _ _ hstep, openedAll_cons]
    refine capped_bind ?_
    rw [ih step hstep hmore, map_eq_pure_bind]
    exact capped_bind_ok rfl

/-- The settings with another limit on the nesting. -/
def Settings.withLimit (settings : Settings) (limit : Nat) : Settings :=
  { settings with maxNesting := limit }

/-- The settings without a check of jumps. -/
def Settings.withoutJumps (settings : Settings) : Settings := { settings with strictJumps := false }

/-- **Settings only restrict.** Take lines that compile under some settings. With another limit on
the nesting they compile to the same statements, if the blocks of these are nested no deeper than
that. Otherwise they are refused, and blamed is the first block that has as many blocks around it as
the limit allows. Without a check of jumps they compile to the same statements. -/
theorem compileSequence_settings {ctx : Context} {scope : Scope} {lines : List Line}
    {statements : List Statement} (h : compileSequence ctx scope lines = .ok statements) :
    (∀ limit, Statement.nestings statements ≤ limit →
      compileSequence (ctx.withSettings (ctx.settings.withLimit limit)) scope lines =
        .ok statements) ∧
    (∀ limit, limit < Statement.nestings statements → ∃ line,
      (openedAll limit statements).head? = some line ∧
      compileSequence (ctx.withSettings (ctx.settings.withLimit limit)) scope lines =
        .error ⟨line, .tooDeep limit⟩ ∧
      (CompileFault.tooDeep limit).message = "blocks nested deeper than " ++ toString limit) ∧
    compileSequence (ctx.withSettings ctx.settings.withoutJumps) scope lines = .ok statements := by
  rw [compileSequence_eq] at h
  have hlimit : ∀ limit,
      compileSequence (ctx.withSettings (ctx.settings.withLimit limit)) scope lines =
        capped limit (openedAll limit statements) statements := fun limit =>
    compileAll_capped (ctx.settings.withLimit limit) limit id h
  refine ⟨?_, ?_, ?_⟩
  · intro limit hle
    rw [hlimit, Statement.openedAll_eq_nil_iff.mpr hle]
    rfl
  · intro limit hlt
    have hopened : openedAll limit statements ≠ [] := fun hnil =>
      absurd (Statement.openedAll_eq_nil_iff.mp hnil) (Nat.not_le.mpr hlt)
    obtain ⟨line, others, hline⟩ := List.exists_cons_of_ne_nil hopened
    refine ⟨line, by rw [hline]; rfl, ?_, rfl⟩
    rw [hlimit, hline]
    rfl
  · -- the limit is the same, so it is known that no block is too deep for it
    have hsame : compileAll ctx.settings.maxNesting ctx scope lines =
        capped ctx.settings.maxNesting (openedAll ctx.settings.maxNesting statements) statements :=
      compileAll_capped ctx.settings _ id h
    have hdeep := deep_eq_nil_of_capped (hsame.symm.trans h)
    have hjumps : ctx.settings.withoutJumps.Relaxes ctx.settings := nofun
    refine (compileAll_capped _ ctx.settings.maxNesting hjumps h).trans ?_
    rw [hdeep]
    rfl

/-- A loop in which two blocks are on the second level, and one on the third. -/
def Source.countInside : List Line :=
  Source.lines ("var n as number\nwhile (n < 3)\nn += 1\nif (n > 1)\nbreak\nelseif (n > 0)\n" ++
    "delay (n)\nn = 0\nend delay\nend if\nif (true)\nend if\nend while")

theorem compileSequence_settings_countInside :
    ∃ statements, compileSequence .plain .empty Source.countInside = .ok statements ∧
      Statement.nestings statements = 3 ∧ openedAll 1 statements = [4, 11] ∧
      compileSequence (Context.plain.withSettings (Context.plain.settings.withLimit 3)) .empty
        Source.countInside = .ok statements ∧
      compileSequence (Context.plain.withSettings (Context.plain.settings.withLimit 1)) .empty
        Source.countInside = .error ⟨4, .tooDeep 1⟩ ∧
      compileSequence (Context.plain.withSettings Context.plain.settings.withoutJumps) .empty
        Source.countInside = .ok statements := by
  have hmeasures : (compileSequence .plain .empty Source.countInside).toOption.map
      (fun t => (Statement.nestings t, openedAll 1 t)) = some (3, [4, 11]) := by
    decide +kernel
  cases h : compileSequence .plain .empty Source.countInside with
  | error e =>
    rw [h] at hmeasures
    cases hmeasures
  | ok statements =>
    rw [h] at hmeasures
    have hboth := Option.some.inj hmeasures
    have hnesting : Statement.nestings statements = 3 := congrArg Prod.fst hboth
    have hopened : openedAll 1 statements = [4, 11] := congrArg Prod.snd hboth
    obtain ⟨hsame, hdeep, hjumps⟩ := compileSequence_settings h
    obtain ⟨line, hline, herror, -⟩ := hdeep 1 (by omega)
    rw [hopened] at hline
    cases hline
    exact ⟨statements, rfl, hnesting, hopened, hsame 3 (by omega), herror, hjumps⟩

end WorldScript
