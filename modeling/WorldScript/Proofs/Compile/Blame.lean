import WorldScript.Proofs.Compile.Heads

/-! # Which line is to blame

What the compiler finds wrong with a single line is blamed on that line. That a block has no end is
never found on a line: it is found where the lines run out.

* `OnLine n r`: the computation fails on line `n` or not at all, and not for want of lines.
* `Head.ofLine_onLine`, `Divider.ofArm_onLine`, `Divider.ofSection_onLine`: heads and dividers. -/

namespace WorldScript

/-- The fault is that there are no more lines. -/
def CompileFault.lacksLines : CompileFault → Bool
  | endOfSource => true
  | unterminated _ => true
  | _ => false

/-- A failure is blamed on the line, and is not that there are no more lines. -/
def OnLine {α : Type} (n : Nat) (r : Compile α) : Prop :=
  ∀ e, r = .error e → e.line = n ∧ e.fault.lacksLines = false

namespace OnLine

variable {α β : Type} {n : Nat}

theorem ok (a : α) : OnLine n (.ok a) := nofun

theorem pure (a : α) : OnLine n (Pure.pure a : Compile α) := nofun

theorem failAt {fault : CompileFault} (h : fault.lacksLines = false) :
    OnLine n (WorldScript.failAt n fault : Compile α) := by
  rintro e ⟨⟩
  exact ⟨rfl, h⟩

theorem bind {x : Compile α} {k : α → Compile β} (hx : OnLine n x) (hk : ∀ a, OnLine n (k a)) :
    OnLine n (x >>= k) := by
  cases x with
  | ok a => exact hk a
  | error e =>
    intro e' h
    cases h
    exact hx e rfl

theorem map {x : Compile α} (hx : OnLine n x) (f : α → β) : OnLine n (f <$> x) := by
  rw [map_eq_pure_bind]
  exact hx.bind fun a => pure _

end OnLine

/-! ### Pieces of lines -/

section Pieces

variable (ctx : Context) (scope : Scope) (n : Nat)

theorem expression_onLine (text : List Char) : OnLine n (ctx.expression scope n text) := by
  unfold Context.expression
  split
  · exact .ok _
  · exact .failAt rfl

theorem typed_onLine (role : Role) (expected : Ty) (text : List Char) :
    OnLine n (ctx.typed scope n role expected text) := by
  refine (expression_onLine ctx scope n text).bind fun e => ?_
  split
  · exact .pure _
  · exact .failAt rfl

theorem stripAt_onLine (type flag : Ty) : OnLine n (stripAt n type flag) := by
  unfold stripAt
  split
  · exact .ok _
  · exact .failAt rfl

theorem checkNewName_onLine (name : String) : OnLine n (checkNewName scope n name) := by
  unfold checkNewName
  split
  · exact .failAt rfl
  · split
    · exact .failAt rfl
    · split
      · exact .failAt rfl
      · exact .ok _

theorem lookupAt_onLine (name : String) : OnLine n (lookupAt scope n name) := by
  unfold lookupAt
  split
  · exact .ok _
  · exact .failAt rfl

theorem checkRoom_onLine (room : Bool) (limit : Nat) : OnLine n (checkRoom room limit n) := by
  unfold checkRoom
  split
  · exact .ok _
  · exact .failAt rfl

theorem target_onLine (shapes : List Ty) (wanted name : String) :
    OnLine n (Leaf.target scope n shapes wanted name) := by
  refine (lookupAt_onLine scope n name).bind fun type => ?_
  dsimp only
  split
  · exact .pure _
  · exact .failAt rfl

theorem caseValue_onLine (type : Ty) (text : List Char) :
    OnLine n (Cases.caseValue ctx scope n type text) := by
  refine (expression_onLine ctx scope n text).bind fun value => ?_
  split
  · exact .pure _
  · exact .failAt rfl

end Pieces

/-! ### Statements of one line -/

namespace Leaf

variable (ctx : Context) (scope : Scope) (n : Nat)

theorem declare_onLine (name type : List Char) (initial : Option (List Char)) :
    OnLine n (declare ctx scope n name type initial) := by
  refine (checkNewName_onLine scope n _).bind fun _ => ?_
  split
  · exact .failAt rfl
  · split
    · exact .failAt rfl
    · split
      · exact .pure _
      · exact (typed_onLine ctx scope n _ _ _).bind fun value => .pure _

theorem assign_onLine (name value : List Char) : OnLine n (assign ctx scope n name value) := by
  refine (lookupAt_onLine scope n _).bind fun type => ?_
  exact (typed_onLine ctx scope n _ _ _).bind fun value => .pure _

theorem compound_onLine (name : List Char) (op : CompoundOp) (value : List Char) :
    OnLine n (compound ctx scope n name op value) := by
  refine (lookupAt_onLine scope n _).bind fun type => ?_
  refine (expression_onLine ctx scope n _).bind fun value => ?_
  -- with and without an element type
  split
  · refine ((stripAt_onLine n _ _).map some).bind fun _ => ?_
    dsimp only
    split
    · exact .failAt rfl
    · exact .failAt rfl
    · exact .pure _
  · refine (OnLine.pure _).bind fun _ => ?_
    dsimp only
    split
    · exact .failAt rfl
    · exact .failAt rfl
    · exact .pure _

theorem breakOut_onLine : OnLine n (breakOut ctx n) := by
  unfold breakOut
  split
  · exact .failAt rfl
  · exact .ok _

theorem continueOn_onLine : OnLine n (continueOn ctx n) := by
  unfold continueOn
  split
  · exact .failAt rfl
  · exact .ok _

theorem returnWith_onLine (value : Option (List Char)) :
    OnLine n (returnWith ctx scope n value) := by
  unfold returnWith
  split
  · split
    · exact .failAt rfl
    · split
      · exact .failAt rfl
      · exact (typed_onLine ctx scope n _ _ _).bind fun value => .pure _
  · split
    · exact .failAt rfl
    · exact .ok _

theorem addItem_onLine (name : List Char) (key : Option (List Char)) (item : List Char) :
    OnLine n (addItem ctx scope n name key item) := by
  cases key with
  | none =>
    refine (target_onLine scope n _ _ _).bind fun type => ?_
    refine (stripAt_onLine n _ _).bind fun element => ?_
    exact (typed_onLine ctx scope n _ _ _).bind fun item => .pure _
  | some key =>
    refine (target_onLine scope n _ _ _).bind fun type => ?_
    refine (typed_onLine ctx scope n _ _ _).bind fun key => ?_
    refine (stripAt_onLine n _ _).bind fun element => ?_
    exact (typed_onLine ctx scope n _ _ _).bind fun item => .pure _

theorem addRange_onLine (name items : List Char) : OnLine n (addRange ctx scope n name items) := by
  refine (target_onLine scope n _ _ _).bind fun type => ?_
  exact (typed_onLine ctx scope n _ _ _).bind fun items => .pure _

theorem removeItem_onLine (name item : List Char) :
    OnLine n (removeItem ctx scope n name item) := by
  refine (target_onLine scope n _ _ _).bind fun type => ?_
  refine (stripAt_onLine n _ _).bind fun element => ?_
  exact (typed_onLine ctx scope n _ _ _).bind fun item => .pure _

theorem removeAt_onLine (name index : List Char) : OnLine n (removeAt ctx scope n name index) := by
  refine (target_onLine scope n _ _ _).bind fun type => ?_
  exact (typed_onLine ctx scope n _ _ _).bind fun index => .pure _

theorem clearItems_onLine (name : List Char) : OnLine n (clearItems scope n name) :=
  (target_onLine scope n _ _ _).bind fun _ => .pure _

theorem setItem_onLine (name key item : List Char) :
    OnLine n (setItem ctx scope n name key item) := by
  refine (target_onLine scope n _ _ _).bind fun type => ?_
  refine (typed_onLine ctx scope n _ _ _).bind fun key => ?_
  refine (stripAt_onLine n _ _).bind fun element => ?_
  exact (typed_onLine ctx scope n _ _ _).bind fun item => .pure _

theorem removeKey_onLine (name key : List Char) : OnLine n (removeKey ctx scope n name key) := by
  refine (target_onLine scope n _ _ _).bind fun type => ?_
  exact (typed_onLine ctx scope n _ _ _).bind fun key => .pure _

theorem call_onLine (text : List Char) : OnLine n (call ctx scope n text) :=
  (expression_onLine ctx scope n text).bind fun _ => .pure _

end Leaf

/-! ### Heads and dividers -/

theorem Head.ofForm_onLine (ctx : Context) (room : Bool) (scope : Scope) (line : Line)
    (form : LineForm) : OnLine line.number (ofForm ctx room scope line form) := by
  have hleaf : ∀ {s : Compile Statement}, OnLine line.number s →
      OnLine line.number (ofLeaf scope s) := fun hs => hs.bind fun s => .pure _
  have hroom : ∀ {α : Type} {k : Unit → Compile α}, OnLine line.number (k ()) →
      OnLine line.number (checkRoom room ctx.settings.maxNesting line.number >>= k) :=
    fun hk => (checkRoom_onLine line.number room _).bind fun _ => hk
  cases form with
  | declare name type initial =>
    exact (Leaf.declare_onLine ctx scope line.number name type initial).bind fun _ => .pure _
  | ifChain test => exact hroom ((typed_onLine ctx scope _ _ _ _).bind fun test => .pure _)
  | forCount name count =>
    refine (checkNewName_onLine scope _ _).bind fun _ => hroom ?_
    exact (typed_onLine ctx scope _ _ _ _).bind fun count => .pure _
  | forEach name items =>
    refine (checkNewName_onLine scope _ _).bind fun _ => hroom ?_
    refine (expression_onLine ctx scope _ _).bind fun collection => ?_
    dsimp only
    split
    · exact (stripAt_onLine _ _ _).bind fun element => .pure _
    · exact .failAt rfl
  | whileLoop test => exact hroom ((typed_onLine ctx scope _ _ _ _).bind fun test => .pure _)
  | switch value => exact hroom ((expression_onLine ctx scope _ _).bind fun value => .pure _)
  | delay duration => exact hroom ((typed_onLine ctx scope _ _ _ _).bind fun test => .pure _)
  | breakOut => exact hleaf (Leaf.breakOut_onLine ctx _)
  | continueOn => exact hleaf (Leaf.continueOn_onLine ctx _)
  | returnWith value => exact hleaf (Leaf.returnWith_onLine ctx scope _ value)
  | addItem name key item => exact hleaf (Leaf.addItem_onLine ctx scope _ name key item)
  | addRange name items => exact hleaf (Leaf.addRange_onLine ctx scope _ name items)
  | removeItem name item => exact hleaf (Leaf.removeItem_onLine ctx scope _ name item)
  | removeAt name index => exact hleaf (Leaf.removeAt_onLine ctx scope _ name index)
  | clearItems name => exact hleaf (Leaf.clearItems_onLine scope _ name)
  | setItem name key item => exact hleaf (Leaf.setItem_onLine ctx scope _ name key item)
  | removeKey name key => exact hleaf (Leaf.removeKey_onLine ctx scope _ name key)
  | separator => exact .failAt rfl
  | compound name op value => exact hleaf (Leaf.compound_onLine ctx scope _ name op value)
  | assign name value => exact hleaf (Leaf.assign_onLine ctx scope _ name value)
  | call => exact hleaf (Leaf.call_onLine ctx scope _ _)

theorem Head.ofLine_onLine (ctx : Context) (room : Bool) (scope : Scope) (line : Line) :
    OnLine line.number (ofLine ctx room scope line) := by
  unfold ofLine
  split
  · exact .failAt rfl
  · exact ofForm_onLine ctx room scope line _

theorem Divider.ofArm_onLine (ctx : Context) (scope : Scope) (line : Line) :
    OnLine line.number (ofArm ctx scope line) := by
  unfold ofArm
  split
  · exact .ok _
  · split
    · exact (typed_onLine ctx scope _ _ _ _).bind fun test => .pure _
    · exact .ok _

theorem Divider.ofSection_onLine (ctx : Context) (scope : Scope) (type : Ty) (line : Line) :
    OnLine line.number (ofSection ctx scope type line) := by
  unfold ofSection
  split
  · exact .ok _
  · split
    · exact (caseValue_onLine ctx scope _ _ _).bind fun value => .pure _
    · split
      · exact .ok _
      · exact .failAt rfl

theorem checkEnd_onLine (word : String) (fault : CompileFault)
    (hfault : fault.lacksLines = false) (line : Line) :
    OnLine line.number (checkEnd word fault line) := by
  unfold checkEnd
  split
  · exact .ok _
  · exact .failAt hfault

end WorldScript
