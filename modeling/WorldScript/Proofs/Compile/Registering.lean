import WorldScript.Library.Host
import WorldScript.Library.Standard
import WorldScript.Program.Basic
import WorldScript.Proofs.Compile.Correspondence

/-! # Libraries that grow

Functions are registered one after another, and of the functions of one name the first that accepts
the arguments is called. So a function that is registered later never takes a call away from one
that was there before, whatever its name and its parameters are: what was accepted stays accepted,
and every call means the same function. Only what was refused may come to be accepted.

* `Library.Grows`: the functions of one library come first in another.
* `Library.Grows.resolve`: a call that has a meaning keeps it.
* `Tree.check_grows`: an expression that has a type keeps it, with all its calls.
* `Definition.compile_registerAll`: the same for programs. -/

namespace WorldScript

namespace Library

variable {l l' : Library}

/-- The library with several more functions, registered one after another. -/
def registerAll (l : Library) (more : List Function) : Library := more.foldl register l

/-- The second library begins with the functions of the first, in their order. -/
def Grows (l l' : Library) : Prop := l.functions <+: l'.functions

theorem grows_register (l : Library) (f : Function) : l.Grows (l.register f) :=
  List.prefix_append ..

theorem grows_registerAll (l : Library) (more : List Function) : l.Grows (l.registerAll more) := by
  induction more generalizing l with
  | nil => exact List.prefix_refl _
  | cons f more ih => exact (l.grows_register f).trans (ih (l.register f))

/-- Overloads come after those that were there. -/
theorem Grows.overloads (h : l.Grows l') (name : String) :
    l.overloads name <+: l'.overloads name := h.filter _

/-- A call means the first overload that accepts the argument types. -/
theorem resolve_eq_ok_iff {name : String} {types : List Ty} {f : Function} :
    l.resolve name types = .ok f ↔ (l.overloads name).find? (·.accepts types) = some f := by
  unfold resolve
  cases l.overloads name with
  | nil => simp
  | cons g gs =>
    simp only
    cases (g :: gs).find? (·.accepts types) with
    | none => simp
    | some g => simp

/-- A call keeps its meaning. -/
theorem Grows.resolve (h : l.Grows l') {name : String} {types : List Ty} {f : Function}
    (hf : l.resolve name types = .ok f) : l'.resolve name types = .ok f := by
  rw [resolve_eq_ok_iff] at hf ⊢
  obtain ⟨more, hmore⟩ := h.overloads name
  rw [← hmore, List.find?_append, hf, Option.some_or]

end Library

/-! ### Expressions -/

namespace Tree

variable {lib lib' : Library} {scope : Scope}

mutual

/-- An expression that has a type has the same with more functions, and so do all its parts. -/
theorem check_grows (h : lib.Grows lib') : ∀ {t : Tree} {e : Checked},
    t.check lib scope = .ok e → t.check lib' scope = .ok e
  | number n, e, he => by simpa only [check] using he
  | text s, e, he => by simpa only [check] using he
  | boolean b, e, he => by simpa only [check] using he
  | var name, e, he => by simpa only [check] using he
  | unary op t, e, he => by
    simp only [check, bind_eq_ok_iff] at he ⊢
    obtain ⟨operand, hoperand, he⟩ := he
    exact ⟨operand, check_grows h hoperand, he⟩
  | binary op l r, e, he => by
    simp only [check, bind_eq_ok_iff] at he ⊢
    obtain ⟨left, hleft, right, hright, he⟩ := he
    exact ⟨left, check_grows h hleft, right, check_grows h hright, he⟩
  | index t k, e, he => by
    simp only [check, bind_eq_ok_iff] at he ⊢
    obtain ⟨target, htarget, key, hkey, he⟩ := he
    exact ⟨target, check_grows h htarget, key, check_grows h hkey, he⟩
  | call name args, e, he => by
    simp only [check, bind_eq_ok_iff] at he ⊢
    obtain ⟨arguments, harguments, he⟩ := he
    refine ⟨arguments, checkAll_grows h harguments, ?_⟩
    -- the arguments have the same types, so the same overload is the first to accept them
    cases hf : lib.resolve name (arguments.map (·.type)) with
    | error err =>
      rw [hf] at he
      cases he
    | ok f =>
      rw [hf] at he
      rw [h.resolve hf]
      exact he

theorem checkAll_grows (h : lib.Grows lib') : ∀ {ts : List Tree} {es : List Checked},
    checkAll lib scope ts = .ok es → checkAll lib' scope ts = .ok es
  | [], es, hes => by simpa only [checkAll] using hes
  | t :: ts, es, hes => by
    simp only [checkAll, bind_eq_ok_iff] at hes ⊢
    obtain ⟨e, he, es', hes', hes⟩ := hes
    exact ⟨e, check_grows h he, es', checkAll_grows h hes', hes⟩

end

end Tree

theorem Checked.ofText_grows {lib lib' : Library} (h : lib.Grows lib') {scope : Scope} {s : String}
    {e : Checked} (he : ofText lib scope s = .ok e) : ofText lib' scope s = .ok e := by
  obtain ⟨t, hread, hcheck⟩ := ofText_eq_ok_iff.mp he
  exact ofText_eq_ok_iff.mpr ⟨t, hread, Tree.check_grows h hcheck⟩

/-! ### Statements -/

/-- The context with another library. -/
def Context.withLibrary (lib : Library) (ctx : Context) : Context := { ctx with library := lib }

namespace Correspondence

/-- The second run has a library that has grown. Nothing is claimed of what the first refuses. -/
def registering : Correspondence where
  context ctx ctx' := ∃ lib, ctx.library.Grows lib ∧ ctx' = ctx.withLibrary lib
  line := Eq
  extra := []
  error _ _ := True
  excused _ := True

namespace Registering

variable {α β : Type}

theorem bind {W : β → β → Prop} {x x' : Compile α} {k k' : α → Compile β}
    (h : registering.Agree Eq x x') (hk : ∀ a, registering.Agree W (k a) (k' a)) :
    registering.Agree W (x >>= k) (x' >>= k') := by
  refine h.bind ?_
  rintro a _ _ _ rfl
  exact hk a

/-- What does not look at the library. -/
theorem same (x : Compile α) : registering.Agree Eq x x :=
  .refl (fun _ => trivial) (fun _ => rfl) x

theorem leaf_agree {scope : Scope} {x x' : Compile Statement} (hx : registering.Agree Eq x x') :
    registering.Agree registering.Heads (Head.ofLeaf scope x) (Head.ofLeaf scope x') :=
  bind hx fun s => .ok (.leaf s scope)

section Lines

variable {ctx : Context} {lib : Library} (h : ctx.library.Grows lib) {scope : Scope} {n : Nat}

include h

theorem expression_agree (text : List Char) :
    registering.Agree Eq (ctx.expression scope n text)
      ((ctx.withLibrary lib).expression scope n text) := by
  unfold Context.expression
  cases he : Checked.ofText ctx.library scope (String.ofList (Text.trim text)) with
  | error err => exact .excused trivial
  | ok e =>
    rw [show (ctx.withLibrary lib).library = lib from rfl, Checked.ofText_grows h he]
    exact .ok rfl

theorem typed_agree (role : Role) (expected : Ty) (text : List Char) :
    registering.Agree Eq (ctx.typed scope n role expected text)
      ((ctx.withLibrary lib).typed scope n role expected text) :=
  bind (expression_agree h text) fun _ => same _

theorem caseValue_agree (type : Ty) (text : List Char) :
    registering.Agree Eq (Cases.caseValue ctx scope n type text)
      (Cases.caseValue (ctx.withLibrary lib) scope n type text) :=
  bind (expression_agree h text) fun _ => same _

theorem declare_agree (name type : List Char) (initial : Option (List Char)) :
    registering.Agree Eq (Leaf.declare ctx scope n name type initial)
      (Leaf.declare (ctx.withLibrary lib) scope n name type initial) := by
  refine bind (same _) fun _ => ?_
  cases Ty.read (String.ofList type) with
  | error err => exact same _
  | ok t =>
    simp only
    split
    · exact same _
    · cases initial with
      | none => exact same _
      | some text => exact bind (typed_agree h _ _ _) fun _ => same _

theorem returnWith_agree (value : Option (List Char)) :
    registering.Agree Eq (Leaf.returnWith ctx scope n value)
      (Leaf.returnWith (ctx.withLibrary lib) scope n value) := by
  cases value with
  | none => exact same _
  | some text =>
    simp only [Leaf.returnWith]
    by_cases hdelay : ctx.inDelay = true
    · rw [if_pos hdelay]
      exact .excused trivial
    · rw [if_neg hdelay, if_neg (show ¬ (ctx.withLibrary lib).inDelay = true from hdelay)]
      by_cases hvoid : ctx.returns.isVoid = true
      · rw [if_pos hvoid]
        exact .excused trivial
      · rw [if_neg hvoid, if_neg (show ¬ (ctx.withLibrary lib).returns.isVoid = true from hvoid)]
        exact bind (typed_agree h _ _ _) fun _ => same _

theorem addItem_agree (name : List Char) (key : Option (List Char)) (item : List Char) :
    registering.Agree Eq (Leaf.addItem ctx scope n name key item)
      (Leaf.addItem (ctx.withLibrary lib) scope n name key item) := by
  cases key with
  | none =>
    refine bind (same _) fun type => bind (same _) fun element => ?_
    exact bind (typed_agree h _ _ _) fun _ => same _
  | some key =>
    refine bind (same _) fun type => bind (typed_agree h _ _ _) fun k => ?_
    exact bind (same _) fun element => bind (typed_agree h _ _ _) fun _ => same _

theorem ofForm_agree (room : Bool) (line : Line) (form : LineForm) :
    registering.Agree registering.Heads (Head.ofForm ctx room scope line form)
      (Head.ofForm (ctx.withLibrary lib) room scope line form) := by
  cases form with
  | declare name type initial =>
    exact bind (declare_agree h name type initial) fun found => .ok (.leaf _ _)
  | ifChain test =>
    exact bind (same _) fun _ => bind (typed_agree h _ _ _) fun test => .ok (.arms test)
  | forCount name count =>
    refine bind (same _) fun _ => bind (same _) fun _ => ?_
    exact bind (typed_agree h _ _ _) fun count => .ok (.block _ _ _ ⟨lib, h, rfl⟩)
  | forEach name items =>
    refine bind (same _) fun _ => bind (same _) fun _ => ?_
    refine bind (expression_agree h _) fun collection => ?_
    dsimp only
    split
    · exact bind (same _) fun element => .ok (.block _ _ _ ⟨lib, h, rfl⟩)
    · exact .excused trivial
  | whileLoop test =>
    refine bind (same _) fun _ => ?_
    exact bind (typed_agree h _ _ _) fun test => .ok (.block _ _ _ ⟨lib, h, rfl⟩)
  | switch value =>
    exact bind (same _) fun _ => bind (expression_agree h _) fun value => .ok (.sections value)
  | delay duration =>
    refine bind (same _) fun _ => ?_
    exact bind (typed_agree h _ _ _) fun duration => .ok (.block _ _ _ ⟨lib, h, rfl⟩)
  | separator => exact .excused trivial
  | breakOut => exact leaf_agree (same _)
  | continueOn => exact leaf_agree (same _)
  | returnWith value => exact leaf_agree (returnWith_agree h value)
  | addItem name key item => exact leaf_agree (addItem_agree h name key item)
  | addRange name items =>
    exact leaf_agree (bind (same _) fun _ => bind (typed_agree h _ _ _) fun _ => same _)
  | removeItem name item =>
    refine leaf_agree (bind (same _) fun type => bind (same _) fun element => ?_)
    exact bind (typed_agree h _ _ _) fun _ => same _
  | removeAt name index =>
    exact leaf_agree (bind (same _) fun _ => bind (typed_agree h _ _ _) fun _ => same _)
  | clearItems name => exact leaf_agree (same _)
  | setItem name key item =>
    refine leaf_agree (bind (same _) fun type => bind (typed_agree h _ _ _) fun key => ?_)
    exact bind (same _) fun element => bind (typed_agree h _ _ _) fun _ => same _
  | removeKey name key =>
    exact leaf_agree (bind (same _) fun _ => bind (typed_agree h _ _ _) fun _ => same _)
  | compound name op value =>
    exact leaf_agree (bind (same _) fun type => bind (expression_agree h _) fun _ => same _)
  | assign name value =>
    exact leaf_agree (bind (same _) fun type => bind (typed_agree h _ _ _) fun _ => same _)
  | call => exact leaf_agree (bind (expression_agree h _) fun _ => same _)

theorem ofLine_agree (room : Bool) (line : Line) :
    registering.Agree registering.Heads (Head.ofLine ctx room scope line)
      (Head.ofLine (ctx.withLibrary lib) room scope line) := by
  unfold Head.ofLine
  cases LineForm.read? line.text.toList with
  | none => exact .excused trivial
  | some form => exact ofForm_agree h room line form

theorem ofArm_agree (line : Line) :
    registering.Agree Eq (Divider.ofArm ctx scope line)
      (Divider.ofArm (ctx.withLibrary lib) scope line) := by
  unfold Divider.ofArm
  split
  · exact same _
  · cases LineForm.elseIf? line.text.toList with
    | none => exact same _
    | some test => exact bind (typed_agree h _ _ _) fun _ => same _

theorem ofSection_agree (type : Ty) (line : Line) :
    registering.Agree Eq (Divider.ofSection ctx scope type line)
      (Divider.ofSection (ctx.withLibrary lib) scope type line) := by
  unfold Divider.ofSection
  split
  · exact same _
  · cases LineForm.case? line.text.toList with
    | none => exact same _
    | some value => exact bind (caseValue_agree h _ _) fun _ => same _

end Lines

end Registering

theorem registering_fair : registering.Fair :=
  .of_eq id
    (fun ⟨lib, h, heq⟩ => ⟨lib, h, congrArg Context.switching heq⟩)
    (fun ⟨_, h, heq⟩ room _ line => heq ▸ Registering.ofLine_agree h room line)
    (fun ⟨_, h, heq⟩ _ line => heq ▸ Registering.ofArm_agree h line)
    (fun ⟨_, h, heq⟩ _ type line => heq ▸ Registering.ofSection_agree h type line)
    (fun _ => trivial) (Or.inl rfl)

end Correspondence

open Correspondence (registering registering_fair)

theorem compileBody_grows (ctx : Context) {lib : Library} (h : ctx.library.Grows lib)
    (scope : Scope) (lines : List Line) :
    registering.Agree Eq (compileBody ctx scope lines)
      (compileBody (ctx.withLibrary lib) scope lines) := by
  refine Correspondence.Registering.bind ?_ fun statements => Correspondence.Registering.same _
  exact registering_fair.compileWithin rfl ctx.settings.maxNesting ⟨lib, h, rfl⟩ scope
    (List.forall₂_same.mpr fun _ _ => rfl) (Nat.le_refl _) (Nat.le_refl _)

namespace Definition

/-- A program that is accepted is the same program with more functions. -/
theorem compile_grows {lib lib' : Library} (h : lib.Grows lib') {settings : Settings}
    {d : Definition} {p : Program} (hp : d.compile lib settings = .ok p) :
    d.compile lib' settings = .ok p := by
  have hagree : registering.Agree Eq (d.compile lib settings) (d.compile lib' settings) := by
    refine Correspondence.Registering.bind (Correspondence.Registering.same _) fun scope => ?_
    refine Correspondence.Registering.bind ?_ fun body => Correspondence.Registering.same _
    exact compileBody_grows ⟨lib, settings, d.returns, false, false, false⟩ h scope _
  rw [hp] at hagree
  obtain ⟨_, hp', rfl⟩ := hagree.exists_ok
  exact hp'

/-- **Registering functions changes nothing that is accepted.** A program that compiles with some
library compiles to the same statements once more functions are registered, be their names new or
not; and an expression that is accepted in some scope is the same expression, with the same function
in every call. -/
theorem compile_registerAll (lib : Library) (more : List Function) :
    (∀ settings d p, compile lib settings d = .ok p →
      compile (lib.registerAll more) settings d = .ok p) ∧
    ∀ scope t e, Tree.check lib scope t = .ok e →
      Tree.check (lib.registerAll more) scope t = .ok e := by
  have hgrows := lib.grows_registerAll more
  exact ⟨fun _ _ _ => compile_grows hgrows, fun _ _ _ => Tree.check_grows hgrows⟩

/-- A program that joins two texts, the first of which is the answer of a call. -/
def joined : Definition where
  name := "joined"
  returns := .text
  parameters := [("n", .number)]
  source := "return totext(@n) + @n"

/-- Functions of a host. The first would make a sum of the two, if the call were its own. -/
def hostFunctions : List Function :=
  [.constant "ToText" [.number] .number (.ok (.number 0)), .note "say" .text]

theorem compile_registerAll_joined :
    (∃ p, compile .standard {} joined = .ok p ∧
      compile (Library.standard.registerAll hostFunctions) {} joined = .ok p) ∧
    ∃ e, Tree.check .standard .empty (.call "totext" [.number 1]) = .ok e ∧
      Tree.check (Library.standard.registerAll hostFunctions) .empty (.call "totext" [.number 1]) =
        .ok e := by
  have hkept := compile_registerAll .standard hostFunctions
  constructor
  · have hok : (compile .standard {} joined).isOk = true := by decide +kernel
    obtain ⟨p, hp⟩ := exists_eq_ok_of_isOk hok
    exact ⟨p, hp, hkept.1 {} joined p hp⟩
  · have hok : (Tree.check .standard .empty (.call "totext" [.number 1])).isOk = true := by
      decide +kernel
    obtain ⟨e, he⟩ := exists_eq_ok_of_isOk hok
    exact ⟨e, he, hkept.2 .empty _ e he⟩

end Definition

end WorldScript
