import Mathlib.Data.List.Forall2
import WorldScript.Proofs.Run.Invariant
import WorldScript.Proofs.Run.Stores

/-! # The values of variables suit their types

What has to be kept in a run is that the values of all variables suit their types: of the variables
in every frame, and of those that delayed blocks have taken along, since these share their cells.
Only a statement that stores elements can spoil this, and only for another variable with the same
cell; `StoresWell` says that it does not.

* `Machine.Sound`: the invariant.
* `Machine.Sound.step`: what a statement can do at once.
* `Machine.Sound.declare` and the like: what the statements without blocks do. -/

namespace WorldScript

open Space (Agrees)

/-- A moment from which on a run is looked at: the blocks of the program that waited then, and the
number of tasks that the queue had. -/
structure Watch where
  waiting : DelayedBlock → Prop
  tasks : Nat

namespace Machine

/-- The tasks in the queue, if there is one. -/
def tasks (m : Machine) : List (Task DelayedBlock) :=
  match m.queue with
  | none => []
  | some q => q.tasks

/-- A block of the program that waits: it waited then, or has come to the queue since. -/
def Waits (o : Watch) (m : Machine) (b : DelayedBlock) : Prop :=
  o.waiting b ∨ ∃ t ∈ m.tasks.drop o.tasks, t.payload = b

/-- A variable of the state, in whatever frame, or of a block that waits. -/
def Binds (o : Watch) (m : Machine) (key : String) (var : Variable) : Prop :=
  m.vars.Holds key var ∨ ∃ b, m.Waits o b ∧ b.vars.Holds key var

/-- The values of all variables suit their types, and all blocks that wait are of the given sort. -/
structure Sound (fits : BitVec 14 → Value → Prop) (Own : DelayedBlock → Prop) (o : Watch)
    (m : Machine) : Prop where
  tasks : o.tasks ≤ m.tasks.length
  suits : ∀ {key var}, m.Binds o key var → Suits fits m.world.heap var.type var.value
  own : ∀ {b}, m.Waits o b → Own b

/-- What the next statement stores fits every variable that has the cell, if it fits the expression
that it comes from. -/
def StoresWell (fits : BitVec 14 → Value → Prop) (o : Watch) (s : Statement) (m : Machine) : Prop :=
  ∀ e target added, m.Stores s e target added → ∀ key var, m.Binds o key var → var.value = target →
    ∀ x ∈ added, fits e.type.kinds x → fits var.type.kinds x

variable {fits : BitVec 14 → Value → Prop} {Own : DelayedBlock → Prop} {o : Watch}
  {m m' : Machine} {key name : String} {var : Variable} {b : DelayedBlock} {v target : Value}

/-! ### Steps that keep the invariant -/

theorem waits_congr (hqueue : m'.queue = m.queue) : m'.Waits o b ↔ m.Waits o b := by
  unfold Waits tasks
  rw [hqueue]

theorem binds_congr (hvars : m'.vars = m.vars) (hqueue : m'.queue = m.queue) :
    m'.Binds o key var ↔ m.Binds o key var := by
  unfold Binds Waits tasks
  rw [hvars, hqueue]

namespace Sound

theorem visible (hm : m.Sound fits Own o) : m.vars.Suits fits m.world.heap :=
  fun _ _ hget => hm.suits (Or.inl (Space.holds_of_get? hget))

/-- All that a statement can do at once, but delay a block: some elements come into a cell, and some
variables get other values. -/
theorem step (hm : m.Sound fits Own o) (hqueue : m'.queue = m.queue) {added : List Value}
    (hadds : m.world.heap.Adds m'.world.heap target added)
    (hadded : ∀ key var, m.Binds o key var → var.value = target →
      ∀ x ∈ added, fits var.type.kinds x)
    (hvars : ∀ key var, m'.vars.Holds key var →
      m.vars.Holds key var ∨ Suits fits m'.world.heap var.type var.value) :
    m'.Sound fits Own o := by
  have hold : ∀ {key var}, m.Binds o key var → Suits fits m'.world.heap var.type var.value :=
    fun hbinds => (hm.suits hbinds).adds hadds (hadded _ _ hbinds)
  refine ⟨?_, ?_, fun hwaits => hm.own ((waits_congr hqueue).mp hwaits)⟩
  · unfold Machine.tasks
    rw [hqueue]
    exact hm.tasks
  · rintro key var (hholds | ⟨b, hwaits, hholds⟩)
    · rcases hvars key var hholds with hholds | hsuits
      · exact hold (Or.inl hholds)
      · exact hsuits
    · exact hold (Or.inr ⟨b, (waits_congr hqueue).mp hwaits, hholds⟩)

theorem adds (hm : m.Sound fits Own o) {h : Heap} {added : List Value}
    (hadds : m.world.heap.Adds h target added)
    (hadded : ∀ key var, m.Binds o key var → var.value = target →
      ∀ x ∈ added, fits var.type.kinds x) : (m.withHeap h).Sound fits Own o :=
  hm.step rfl hadds hadded fun _ _ hholds => Or.inl hholds

/-- Some variables get other values. -/
theorem withVars (hm : m.Sound fits Own o) {vars : Space}
    (hvars : ∀ key var, vars.Holds key var →
      m.vars.Holds key var ∨ Suits fits m.world.heap var.type var.value) :
    { m with vars }.Sound fits Own o :=
  hm.step rfl (Heap.Keeps.refl _) (fun _ _ _ _ x hx => by cases hx) hvars

theorem set? (hm : m.Sound fits Own o) {type : Ty} {vars : Space}
    (htype : m.vars.type? name = some type) (hv : Suits fits m.world.heap type v)
    (hset : m.vars.set? name v = some vars) : { m with vars }.Sound fits Own o := by
  refine hm.withVars ?_
  intro key var hholds
  rcases hholds.of_set? hset with ⟨-, htype', hvalue⟩ | hholds
  · rw [htype] at htype'
    cases htype'
    exact Or.inr (hvalue ▸ hv)
  · exact Or.inl hholds

theorem declare? (hm : m.Sound fits Own o) {type : Ty} {vars : Space}
    (hv : Suits fits m.world.heap type v) (hdeclare : m.vars.declare? name type v = some vars) :
    { m with vars }.Sound fits Own o := by
  refine hm.withVars ?_
  intro key var hholds
  rcases hholds.of_declare? hdeclare with ⟨-, rfl⟩ | hholds
  · exact Or.inr hv
  · exact Or.inl hholds

/-- A block is delayed. -/
theorem delay (hm : m.Sound fits Own o) {q : Queue DelayedBlock} (hqueue : m.queue = some q)
    {body : List Statement} (hown : Own (m.suspend body)) (n : Nat) (description : String) :
    { m with queue := some (q.schedule n description (m.suspend body)) }.Sound fits Own o := by
  have htasks : m.tasks = q.tasks := by
    unfold Machine.tasks
    rw [hqueue]
  have hcount := hm.tasks
  rw [htasks] at hcount
  have hwaits : ∀ {b}, Waits o
      { m with queue := some (q.schedule n description (m.suspend body)) } b →
      m.Waits o b ∨ b = m.suspend body := by
    rintro b (hbefore | ⟨t, ht, rfl⟩)
    · exact Or.inl (Or.inl hbefore)
    · have ht' : t ∈ (q.tasks ++
          [(⟨q.lastId + 1, description, q.now + n, m.suspend body⟩ : Task DelayedBlock)]).drop
          o.tasks := ht
      rw [List.drop_append_of_le_length hcount, List.mem_append] at ht'
      rcases ht' with hold | hnew
      · rw [← htasks] at hold
        exact Or.inl (Or.inr ⟨t, hold, rfl⟩)
      · rw [List.mem_singleton.mp hnew]
        exact Or.inr rfl
  constructor
  · show o.tasks ≤ (q.tasks ++ [_]).length
    rw [List.length_append]
    omega
  · rintro key var (hholds | ⟨b, hb, hholds⟩)
    · exact hm.suits (Or.inl hholds)
    · rcases hwaits hb with hb | rfl
      · exact hm.suits (Or.inr ⟨b, hb, hholds⟩)
      · exact hm.suits (Or.inl (Space.Holds.of_snapshot hholds))
  · intro b hb
    rcases hwaits hb with hb | rfl
    · exact hm.own hb
    · exact hown

end Sound

/-! ### Expressions -/

variable (hf : Fitting fits) {slot : Option Ty} {p : Place}
  (hlib : p.context.library.Sound fits) {e : Checked} {line : Nat}

/-- The state after some expressions: the same variables and tasks, and still sound. -/
structure Evaluated (fits : BitVec 14 → Value → Prop) (Own : DelayedBlock → Prop) (o : Watch)
    (m m' : Machine) : Prop where
  sound : m'.Sound fits Own o
  keeps : m.world.heap.Keeps m'.world.heap
  vars : m'.vars = m.vars
  queue : m'.queue = m.queue
  program : m'.program = m.program

theorem Evaluated.trans {m'' : Machine} (h₁ : m.Evaluated fits Own o m')
    (h₂ : m'.Evaluated fits Own o m'') : m.Evaluated fits Own o m'' :=
  ⟨h₂.sound, h₁.keeps.trans h₂.keeps, h₂.vars.trans h₁.vars, h₂.queue.trans h₁.queue,
    h₂.program.trans h₁.program⟩

theorem Sound.store (hm : m.Sound fits Own o) {type : Ty} (htype : m.vars.type? name = some type)
    (hv : Suits fits m.world.heap type v) : (m.store line name v).2.Sound fits Own o := by
  refine store_cases (P := fun ending => ending.2.Sound fits Own o) ?_ ?_
  · intro vars hset
    exact hm.set? htype hv hset
  · intro _
    exact hm

theorem Sound.introduce (hm : m.Sound fits Own o) {type : Ty}
    (hv : Suits fits m.world.heap type v) : (m.introduce line name type v).2.Sound fits Own o := by
  unfold Machine.introduce
  split
  · rename_i vars hdeclare
    exact hm.declare? hv hdeclare
  · exact hm

include hf hlib

theorem Sound.eval (hm : m.Sound fits Own o) (hagrees : Agrees slot p.scope m.vars)
    (he : e.Typed p.context.library p.scope) {r : Except EvalError Value}
    (heval : m.eval e = (r, m')) :
    m.Evaluated fits Own o m' ∧ ∀ v, r = .ok v → Suits fits m'.world.heap e.type v := by
  have hyields := Checked.eval_yields hf.toCoherent hlib e he m.world (hm.visible.supplies hagrees)
  have hr : (m.eval e).1 = r := congrArg Prod.fst heval
  have hm' : (m.eval e).2 = m' := congrArg Prod.snd heval
  subst hr hm'
  obtain ⟨hkeeps, hvalue⟩ := hyields
  refine ⟨⟨?_, hkeeps, rfl, rfl, rfl⟩, hvalue⟩
  exact hm.step rfl hkeeps (fun _ _ _ _ x hx => by cases hx) fun _ _ hholds => Or.inl hholds

/-- The values of some expressions suit the types of these. -/
theorem Sound.values (hm : m.Sound fits Own o) (hagrees : Agrees slot p.scope m.vars)
    {es : List Checked} (hes : ∀ e ∈ es, e.Typed p.context.library p.scope)
    {r : Except EvalError (List Value)} (hvalues : m.values es = (r, m')) :
    m.Evaluated fits Own o m' ∧
      ∀ vs, r = .ok vs → List.Forall₂ (fun e v => Suits fits m'.world.heap e.type v) es vs := by
  induction es generalizing m r with
  | nil =>
    cases hvalues
    refine ⟨⟨hm, .refl _, rfl, rfl, rfl⟩, ?_⟩
    rintro vs ⟨⟩
    exact .nil
  | cons e es ih =>
    have hmore := fun e' he' => hes e' (List.mem_cons_of_mem _ he')
    simp only [Machine.values] at hvalues
    split at hvalues
    · rename_i heval
      cases hvalues
      exact ⟨(hm.eval hf hlib hagrees (hes e List.mem_cons_self) heval).1, fun _ h => by cases h⟩
    · rename_i v m₁ heval
      obtain ⟨h₁, hv⟩ := hm.eval hf hlib hagrees (hes e List.mem_cons_self) heval
      have hagrees₁ : Agrees slot p.scope m₁.vars := by
        rw [h₁.vars]
        exact hagrees
      split at hvalues
      · rename_i hrest
        cases hvalues
        obtain ⟨h₂, -⟩ := ih h₁.sound hagrees₁ hmore hrest
        exact ⟨h₁.trans h₂, fun _ h => by cases h⟩
      · rename_i vs m₂ hrest
        cases hvalues
        obtain ⟨h₂, hvs⟩ := ih h₁.sound hagrees₁ hmore hrest
        refine ⟨h₁.trans h₂, ?_⟩
        rintro vs' ⟨⟩
        exact .cons ((hv v rfl).keeps h₂.keeps) (hvs vs rfl)

/-- A statement that begins with an expression. -/
theorem Sound.withValue (hm : m.Sound fits Own o) (hagrees : Agrees slot p.scope m.vars)
    (he : e.Typed p.context.library p.scope) {go : Value → Machine → Ending}
    (hgo : ∀ v m', m.eval e = (.ok v, m') → m.Evaluated fits Own o m' →
      Suits fits m'.world.heap e.type v → (go v m').2.Sound fits Own o) :
    (m.withValue line e go).2.Sound fits Own o := by
  refine withValue_cases (P := fun ending => ending.2.Sound fits Own o) ?_ ?_
  · intro v m' heval
    obtain ⟨h₁, hv⟩ := hm.eval hf hlib hagrees he heval
    exact hgo v m' heval h₁ (hv v rfl)
  · intro err m' heval
    exact (hm.eval hf hlib hagrees he heval).1.sound

/-! ### Statements without blocks -/

theorem Sound.declare (hm : m.Sound fits Own o) (hagrees : Agrees slot p.scope m.vars) {type : Ty}
    {initial : Option Checked} (htype : type.Simple)
    (hinitial : ∀ e, initial = some e → p.Takes type e) :
    (m.declare line name type initial).2.Sound fits Own o := by
  cases initial with
  | none =>
    have hm' : (m.withHeap (m.world.heap.initial type).2).Sound fits Own o :=
      hm.adds (m.world.heap.keeps_initial type) fun _ _ _ _ x hx => by cases hx
    exact hm'.introduce (hf.suits_initial m.world.heap htype)
  | some e =>
    obtain ⟨he, haccepts⟩ := hinitial e rfl
    refine hm.withValue hf hlib hagrees he ?_
    intro v m' _ h₁ hv
    exact h₁.sound.introduce (hf.suits_of_accepts haccepts hv)

theorem Sound.assign (hm : m.Sound fits Own o) (hagrees : Agrees slot p.scope m.vars) {type : Ty}
    (hlookup : p.scope.lookup name = some type) (he : p.Takes type e) :
    (m.assign line name e).2.Sound fits Own o := by
  refine hm.withValue hf hlib hagrees he.1 ?_
  intro v m' _ h₁ hv
  have htype : m'.vars.type? name = some type := by
    rw [h₁.vars]
    exact hagrees.type?_of_lookup hlookup
  exact h₁.sound.store htype (hf.suits_of_accepts he.2 hv)

omit hf hlib in
/-- The value of a visible variable suits its type. -/
theorem Sound.value? (hm : m.Sound fits Own o) {type : Ty} (htype : m.vars.type? name = some type)
    (hv : m.vars.value? name = some v) : Suits fits m.world.heap type v := by
  obtain ⟨old, hget⟩ := Space.get?_of_type? htype
  rw [Space.value?, hget] at hv
  cases hv
  exact hm.visible name _ hget

omit hf hlib in
/-- Elements that are stored fit all variables that have the cell. -/
theorem Evaluated.fits_of_stores (h₁ : m.Evaluated fits Own o m') {s : Statement}
    (hstores : m.StoresWell fits o s) {added : List Value} (hs : m.Stores s e target added)
    {x : Value} (hx : x ∈ added) (hfits : fits e.type.kinds x) (hbinds : m'.Binds o key var)
    (hvalue : var.value = target) : fits var.type.kinds x :=
  hstores e target added hs key var ((binds_congr h₁.vars h₁.queue).mp hbinds) hvalue x hx hfits

omit hf hlib in
/-- What a compound assignment adds to a collection, if it is not a collection, is an element. -/
theorem fits_of_compoundTakes? {type : Ty} {h : Heap} {operand : Value} (hshape : type.shape = 1)
    (htakes : Leaf.compoundTakes? .add type type.compoundElement e.type = some true)
    (hoperand : Suits fits h e.type operand) (hne : ∀ c, operand = .collection c → False) :
    fits e.type.kinds operand := by
  have hcontains : type.contains .collection = true := by
    rw [Ty.contains_collection_iff, hshape]
    rfl
  rw [Ty.compoundElement, if_pos hcontains] at htakes
  simp only [Leaf.compoundTakes?, Option.some.injEq, Bool.or_eq_true] at htakes
  rcases htakes with helement | hrange
  · have hplain : type.shape ^^^ 1 = e.type.shape := Ty.shape_eq_of_accepts helement
    rw [hshape] at hplain
    exact hoperand.plain hplain.symm
  · have hsame := Ty.shape_eq_of_accepts hrange
    rw [hshape, ← hoperand.shape] at hsame
    obtain ⟨c, rfl⟩ := Value.shape_eq_one hsame.symm
    exact absurd rfl (hne c)

theorem Sound.compound (hm : m.Sound fits Own o) (hagrees : Agrees slot p.scope m.vars) {type : Ty}
    {op : CompoundOp} (hlookup : p.scope.lookup name = some type)
    (he : e.Typed p.context.library p.scope)
    (htakes : Leaf.compoundTakes? op type type.compoundElement e.type = some true)
    (hstores : m.StoresWell fits o (.compound line name op e)) :
    (m.compound line name op e).2.Sound fits Own o := by
  refine hm.withValue hf hlib hagrees he ?_
  intro operand m' heval h₁ hoperand
  have htype : m'.vars.type? name = some type := by
    rw [h₁.vars]
    exact hagrees.type?_of_lookup hlookup
  refine withVariable_cases (P := fun ending => ending.2.Sound fits Own o) ?_ fun _ => h₁.sound
  intro current hcurrent
  have hsuits := h₁.sound.value? htype hcurrent
  dsimp only
  split
  · split
    · refine h₁.sound.store htype (hf.suits_plain hsuits.shape.symm ?_)
      exact hf.anyNumber _ (hsuits.plain hsuits.shape.symm)
    · exact h₁.sound
  · refine h₁.sound.store htype (hf.suits_plain hsuits.shape.symm ?_)
    exact hf.anyText _ (hsuits.plain hsuits.shape.symm)
  · refine h₁.sound.adds (m'.world.heap.adds_append _ _) fun key var hbinds hvalue x hx => ?_
    exact h₁.fits_of_stores hstores (.compound heval hcurrent) hx (hoperand.elements x hx) hbinds
      hvalue
  · rename_i cell hne
    refine h₁.sound.adds (m'.world.heap.adds_append cell [operand]) ?_
    intro key var hbinds hvalue x hx
    have hfits := fits_of_compoundTakes? hsuits.shape.symm htakes hoperand hne
    rw [← List.mem_singleton.mp hx] at hfits
    rw [← Heap.spread_of_ne hne] at hx
    exact h₁.fits_of_stores hstores (.compound heval hcurrent) hx hfits hbinds hvalue
  · rename_i cell
    have hadds := m'.world.heap.adds_eraseFirst cell operand
    exact h₁.sound.adds hadds fun _ _ _ _ x hx => by cases hx
  · exact h₁.sound

theorem Sound.returnWith (hm : m.Sound fits Own o) (hagrees : Agrees slot p.scope m.vars)
    (hserves : p.Serves slot) {value : Option Checked}
    (hs : (Statement.returnWith line value).WellPlaced p) :
    (m.returnWith line value).2.Sound fits Own o := by
  cases value with
  | none => exact hm
  | some e =>
    obtain ⟨-, hvoid, he, haccepts⟩ := hs
    refine hm.withValue hf hlib hagrees he ?_
    intro v m' _ h₁ hv
    have htype : m'.vars.type? Name.returnSlot = some p.context.returns := by
      rw [h₁.vars, hagrees.types, if_pos Space.lower_returnSlot, hserves hvoid]
    split
    · rename_i vars hset
      exact h₁.sound.set? htype (hf.suits_of_accepts haccepts hv) hset
    · exact h₁.sound

theorem Sound.delayBlock (hm : m.Sound fits Own o) (hagrees : Agrees slot p.scope m.vars)
    (he : e.Typed p.context.library p.scope) {body : List Statement} (hown : Own (m.suspend body)) :
    (m.delay line e body).2.Sound fits Own o := by
  refine hm.withValue hf hlib hagrees he ?_
  intro v m' _ h₁ hv
  dsimp only
  split
  · split
    · split
      · exact h₁.sound
      · rename_i q hqueue
        have hsuspend : m'.suspend body = m.suspend body := by
          unfold suspend
          rw [h₁.vars, h₁.program]
        exact h₁.sound.delay hqueue (hsuspend ▸ hown) _ _
    · exact h₁.sound
  · exact h₁.sound

omit hf hlib in
/-- What a change puts into a cell fits the kinds of the expression that it comes from. -/
theorem fits_of_added {c : Change} {type : Ty} (hc : c.WellPlaced p type) {h : Heap}
    {vs : List Value} (hvs : List.Forall₂ (fun e v => Suits fits h e.type v) c.expressions vs)
    {x : Value} (hx : x ∈ c.added h vs) : ∃ e, c.stored? = some e ∧ fits e.type.kinds x := by
  have hplain : ∀ {e : Checked} {v : Value}, Suits fits h e.type v → p.Takes type.base e →
      fits e.type.kinds v :=
    fun hv htakes => hv.plain (Ty.shape_eq_of_accepts htakes.2).symm
  cases c with
  | add item =>
    obtain _ | ⟨hv, _ | _⟩ := hvs
    rw [List.mem_singleton.mp hx]
    exact ⟨item, rfl, hplain hv hc.2⟩
  | addKeyed k item =>
    obtain _ | ⟨-, _ | ⟨hv, _ | _⟩⟩ := hvs
    rw [List.mem_singleton.mp hx]
    exact ⟨item, rfl, hplain hv hc.2.2⟩
  | addRange items =>
    obtain _ | ⟨hv, _ | _⟩ := hvs
    exact ⟨items, rfl, hv.elements x hx⟩
  | set k item =>
    obtain _ | ⟨-, _ | ⟨hv, _ | _⟩⟩ := hvs
    rw [List.mem_singleton.mp hx]
    rcases hc with hc | hc
    · exact ⟨item, rfl, hplain hv hc.2.2⟩
    · exact ⟨item, rfl, hplain hv hc.2.2⟩
  | _ => cases hx

theorem Sound.change (hm : m.Sound fits Own o) (hagrees : Agrees slot p.scope m.vars) {type : Ty}
    {c : Change} (hlookup : p.scope.lookup name = some type) (hc : c.WellPlaced p type)
    (hstores : m.StoresWell fits o (.change line name c)) :
    (m.change line name c).2.Sound fits Own o := by
  unfold Machine.change
  split
  · rename_i hvalues
    exact (hm.values hf hlib hagrees hc.typed hvalues).1.sound
  · rename_i vs m' hvalues
    obtain ⟨h₁, hvs⟩ := hm.values hf hlib hagrees hc.typed hvalues
    have htype : m'.vars.type? name = some type := by
      rw [h₁.vars]
      exact hagrees.type?_of_lookup hlookup
    refine withVariable_cases (P := fun ending => ending.2.Sound fits Own o) ?_ fun _ => h₁.sound
    intro target htarget
    have hsuits := h₁.sound.value? htype htarget
    refine applyChange_adds (P := fun ending => ending.2.Sound fits Own o) ?_ ?_ fun _ => h₁.sound
    · intro h hadds
      refine h₁.sound.adds hadds ?_
      intro key var hbinds hvalue x hx
      obtain ⟨e, hstored, hfits⟩ := fits_of_added hc (hvs vs rfl) hx
      exact h₁.fits_of_stores hstores (.change hstored hvalues htarget) hx hfits hbinds hvalue
    · rintro cell i rfl
      have hnew := h₁.sound.adds (m'.world.heap.keeps_newList
        ((m'.world.heap.lists.get cell).eraseIdx i)) fun _ _ _ _ x hx => by cases hx
      refine hnew.store htype ?_
      refine Coherent.suits_newList hsuits.shape.symm ?_
      intro x hx
      exact hsuits.elements x (List.mem_of_mem_eraseIdx hx)

omit hf hlib

/-! ### Blocks -/

theorem Sound.push (hm : m.Sound fits Own o) : { m with vars := m.vars.push }.Sound fits Own o :=
  hm.withVars fun _ _ hholds => Or.inl hholds.of_push

theorem Sound.pop (hm : m.Sound fits Own o) : { m with vars := m.vars.pop }.Sound fits Own o :=
  hm.withVars fun _ _ hholds => Or.inl hholds.of_pop

/-- A block begins, with a variable whose value suits its type if it has one. -/
theorem Sound.open? (hm : m.Sound fits Own o) {e : Entry} {inside : Machine}
    (hbinding : ∀ name type v, e.binding = some (name, type, v) → Suits fits m.world.heap type v)
    (hopen : e.open? m = some inside) : inside.Sound fits Own o := by
  unfold Entry.open? at hopen
  split at hopen
  · cases hopen
    exact hm.push
  · rename_i name type v hsome
    simp only [Option.map_eq_some_iff] at hopen
    obtain ⟨vars, hdeclare, rfl⟩ := hopen
    exact hm.push.declare? (hbinding name type v hsome) hdeclare

end Machine

end WorldScript
