import WorldScript.Proofs.Program.Session

/-! # Values conform to types

A value conforms to a type if it has the shape of the type, and all that is plain in it is of one of
the kinds of the type. Variables that have the same cell can differ in their types, since a
collection of numbers is let in where one of anything is wanted. What is stored by way of the one
need not be what the other one may hold, and nothing looks at this. It is the only way in which
values come not to conform.

* `Program.values_conform`: the statement for all states of a session.
* `Program.aliased_answer_not_conforms`: a program that stores a text in a collection of numbers. -/

namespace WorldScript

/-! ### Kinds of plain values -/

namespace Value

/-- The value is plain and of one of the kinds. Null goes with all sets of kinds, but for numbers
only, texts only and truth values only; an entity may be of several kinds, and all of them count. -/
def OfKinds (kinds : BitVec 14) : Value → Prop
  | null => kinds ≠ Ty.number.kinds ∧ kinds ≠ Ty.text.kinds ∧ kinds ≠ Ty.boolean.kinds
  | number _ => kinds &&& Ty.number.kinds ≠ 0
  | text _ => kinds &&& Ty.text.kinds ≠ 0
  | boolean _ => kinds &&& Ty.boolean.kinds ≠ 0
  | entity e => e.kind.kinds &&& ~~~kinds = 0
  | collection _ | dictionary _ | groups _ => False

instance (kinds : BitVec 14) : (v : Value) → Decidable (v.OfKinds kinds)
  | null => inferInstanceAs (Decidable (_ ≠ _ ∧ _ ≠ _ ∧ _ ≠ _))
  | number _ | text _ | boolean _ => inferInstanceAs (Decidable (_ ≠ _))
  | entity _ => inferInstanceAs (Decidable (_ = _))
  | collection _ | dictionary _ | groups _ => inferInstanceAs (Decidable False)

end Value

section Bits

variable {n : Nat} {a b c : BitVec n}

theorem and_eq_of_and_not (h : a &&& ~~~b = 0#n) : a &&& b = a := by
  ext i hi
  have hbit := congrArg (fun x => x.getLsbD i) h
  simp at hbit ⊢
  grind

theorem and_not_trans (hab : a &&& ~~~b = 0#n) (hbc : b &&& ~~~c = 0#n) : a &&& ~~~c = 0#n := by
  rw [← and_eq_of_and_not hab, BitVec.and_assoc, hbc, BitVec.and_zero]

/-- A larger set meets what a smaller one meets. -/
theorem and_ne_of_and_not (hab : a &&& ~~~b = 0#n) (hne : a &&& c ≠ 0#n) : b &&& c ≠ 0#n := by
  intro h
  rw [← and_eq_of_and_not hab, BitVec.and_assoc, h, BitVec.and_zero] at hne
  exact hne rfl

/-- The only set in a set of one flag is that set itself. -/
theorem eq_twoPow_of_and_not {i : Nat} (ha : a ≠ 0#n) (h : a &&& ~~~BitVec.twoPow n i = 0#n) :
    a = BitVec.twoPow n i := by
  have hand := and_eq_of_and_not h
  rw [BitVec.and_twoPow] at hand
  split at hand
  · exact hand.symm
  · exact absurd hand.symm ha

end Bits

theorem kinds_fitting : Fitting Value.OfKinds where
  plain {k v} h := by
    cases v with
    | collection => exact h.elim
    | dictionary => exact h.elim
    | groups => exact h.elim
    | _ => rfl
  number _ := (by decide : Ty.number.kinds &&& Ty.number.kinds ≠ 0)
  text _ := (by decide : Ty.text.kinds &&& Ty.text.kinds ≠ 0)
  boolean _ := (by decide : Ty.boolean.kinds &&& Ty.boolean.kinds ≠ 0)
  entity e := by
    show e.kind.kinds &&& ~~~e.kind.kinds = 0
    simp
  null hnumber htext hboolean := ⟨hnumber, htext, hboolean⟩
  anyNumber _ h := h
  anyText _ h := h
  widen {t u v} haccepts h := by
    rcases Ty.kinds_of_accepts haccepts with heq | ⟨-, hne, hsub⟩
    · rw [heq]
      exact h
    · cases v with
      | null =>
        -- a type of one kind accepts no other type
        have honly : ∀ i, t.kinds = BitVec.twoPow 14 i → u.kinds = t.kinds := by
          intro i ht
          rw [ht] at hsub ⊢
          exact eq_twoPow_of_and_not hne hsub
        obtain ⟨hnumber, htext, hboolean⟩ := h
        refine ⟨?_, ?_, ?_⟩
        · exact fun ht => hnumber ((honly 1 ht).trans ht)
        · exact fun ht => htext ((honly 2 ht).trans ht)
        · exact fun ht => hboolean ((honly 3 ht).trans ht)
      | number => exact and_ne_of_and_not hsub h
      | text => exact and_ne_of_and_not hsub h
      | boolean => exact and_ne_of_and_not hsub h
      | entity e => exact and_not_trans h hsub
      | _ => exact h.elim

/-! ### Types and values -/

/-- The value has the shape of the type; it is of one of the kinds if that is plain, and so are all
elements. -/
def Heap.Conforms (h : Heap) (t : Ty) (v : Value) : Prop :=
  v.shape = t.shape ∧ (t.shape = 0 → v.OfKinds t.kinds) ∧ ∀ x ∈ h.elements v, x.OfKinds t.kinds

instance (h : Heap) (t : Ty) (v : Value) : Decidable (h.Conforms t v) :=
  inferInstanceAs (Decidable (_ ∧ (_ → _) ∧ ∀ x ∈ _, _))

theorem Suits.conforms {h : Heap} {t : Ty} {v : Value} (hs : Suits Value.OfKinds h t v) :
    h.Conforms t v := ⟨hs.shape, hs.plain, hs.elements⟩

namespace Machine

/-- The values of all variables conform to their types. -/
def Conforms (m : Machine) : Prop :=
  ∀ key var, m.vars.Holds key var → m.world.heap.Conforms var.type var.value

theorem Sound.conforms {Own : DelayedBlock → Prop} {o : Watch} {m : Machine}
    (hm : m.Sound Value.OfKinds Own o) : m.Conforms :=
  fun _ _ hholds => (hm.suits (Or.inl hholds)).conforms

/-- What the next statement stores can be held by every variable that has the cell. This is in
question only for variables whose type would not take the expression that it comes from. -/
def SharesWell (o : Watch) (s : Statement) (m : Machine) : Prop :=
  ∀ e target added, m.Stores s e target added → ∀ key var, m.Binds o key var → var.value = target →
    var.type.base.accepts e.type.base = false → ∀ x ∈ added, x.OfKinds var.type.kinds

theorem SharesWell.storesWell {o : Watch} {s : Statement} {m : Machine} (h : m.SharesWell o s) :
    m.StoresWell Value.OfKinds o s := by
  intro e target added hstores key var hbinds hvalue x hx hfits
  cases haccepts : var.type.base.accepts e.type.base with
  | true => exact kinds_fitting.widen (t := var.type.base) (u := e.type.base) haccepts hfits
  | false => exact h e target added hstores key var hbinds hvalue haccepts x hx

end Machine

/-! ### Sessions -/

/-- In all states of a session the values of variables conform to their types, and so does the
answer of a run. The condition is that no statement stores an element in a cell that another
variable has whose type cannot hold it. -/
theorem Program.values_conform {settings : Settings} {d : Definition} {p : Program}
    (h : d.compile .standard settings = .ok p) (hparameters : ∀ q ∈ d.parameters, q.2.Simple)
    (hreturns : d.returns.Simple) {waiting : DelayedBlock → Prop} {w : World}
    (hsession : p.Session Machine.SharesWell waiting w) {l : List Statement}
    {m : Machine} (hbegins : p.Begins waiting w l m) {limit : Nat}
    (hshares : ∀ place, SafeFrom (Machine.SharesWell (m.watch waiting)) limit ⟨place, l, m⟩) :
    (∀ place Q, Point.Leads limit ⟨place, l, m⟩ Q → Q.machine.Conforms) ∧
    (∀ signal m', Statement.runAll limit l m = some (signal, m') → m'.Conforms) ∧
    ∀ arguments queue outcome v, l = p.body → p.start arguments queue w = .ok m →
      p.run limit arguments queue w = some outcome → outcome.answer = .ok v →
      p.returns.isVoid = false → outcome.world.heap.Conforms p.returns v := by
  obtain ⟨scope, hp⟩ := Definition.compiled h
  have hregular : d.Regular Value.OfKinds .standard settings p scope :=
    ⟨hp, Library.standard_sound kinds_fitting, kinds_fitting, hparameters, hreturns⟩
  have hend : ∀ signal m', Statement.runAll limit l m = some (signal, m') →
      m'.Sound Value.OfKinds (p.Owns Value.OfKinds (Source.lines d.source)) (m.watch waiting) :=
    fun signal m' hrun =>
      hregular.sound_of_runAll Machine.SharesWell.storesWell hsession hbegins hshares hrun
  refine ⟨?_, fun signal m' hrun => (hend signal m' hrun).conforms, ?_⟩
  · intro place Q hleads
    obtain ⟨q, hgood⟩ :=
      hregular.good_of_leads Machine.SharesWell.storesWell hsession hbegins hshares hleads
    exact hgood.inv.conforms
  · rintro arguments queue outcome v rfl hstart hrun hanswer hvoid
    obtain ⟨m₁, signal, m', hstart', hbody, -, rfl, hworld⟩ := run_eq_some hrun hanswer
    rw [hstart] at hstart'
    cases hstart'
    -- the answer is the value of the slot, which has the type of the answer
    have hslot : m'.vars.type? Name.returnSlot = some p.returns := by
      rw [slot_of_runAll hp hstart hbody, slot, if_neg (by rw [hvoid]; exact Bool.false_ne_true)]
    obtain ⟨value, hget⟩ := Space.get?_of_type? hslot
    have hvalue : m'.vars.value? Name.returnSlot = some value := by
      rw [Space.value?, hget]
      rfl
    rw [hworld, hvalue]
    exact ((hend signal m' hbody).value? hslot hvalue).conforms

/-! ### Runs without blocks -/

namespace Statement

/-- All statements of a run pass a check, each in the state in which it runs. A statement with
blocks does not pass. -/
def passAll (check : Statement → Machine → Bool) : List Statement → Machine → Bool
  | [], _ => true
  | s :: rest, m =>
    check s m &&
      match s.start m with
      | .ended (.normal, m') => passAll check rest m'
      | .ended _ => true
      | .turns _ _ => false

theorem safeFrom_of_passAll {check : Statement → Machine → Bool} {Safe : Statement → Machine → Prop}
    (hcheck : ∀ s m, check s m = true → Safe s m) {limit : Nat} {l : List Statement} {m : Machine}
    (h : passAll check l m = true) (place : Place) : SafeFrom Safe limit ⟨place, l, m⟩ := by
  induction l generalizing m place with
  | nil =>
    intro q s rest m' hleads
    rcases hleads.cases_head with heq | ⟨Q, hstep, -⟩
    · cases heq
    · cases hstep
  | cons s rest ih =>
    rw [passAll, Bool.and_eq_true] at h
    intro q s' rest' m' hleads
    rcases hleads.cases_head with heq | ⟨Q, hstep, hleads⟩
    · cases heq
      exact hcheck s m h.1
    · have hrest := h.2
      cases hstep with
      | past hrun =>
        rw [run_eq] at hrun
        cases hstart : s.start m with
        | ended ending =>
          rw [hstart] at hrun hrest
          cases hrun
          exact ih hrest _ q s' rest' m' hleads
        | turns stage m₀ =>
          rw [hstart] at hrest
          cases hrest
      | into henters =>
        obtain ⟨stage, stage', m₁, m₂, ⟨first, m₀, hstart, -⟩, -⟩ := henters
        rw [hstart] at hrest
        cases hrest

/-- The expression from which the elements come that a statement stores. -/
def stored? : Statement → Option Checked
  | change _ _ c => c.stored?
  | compound _ _ .add e => some e
  | _ => none

/-- The types of all variables take what the statement stores, and no block waits. -/
def takenByAll (s : Statement) (m : Machine) : Bool :=
  m.queue.isNone &&
    s.stored?.all fun e =>
      m.vars.frames.all fun f => f.entries.all fun entry => entry.2.type.base.accepts e.type.base

theorem sharesWell_of_takenByAll {s : Statement} {m : Machine} (h : s.takenByAll m = true)
    {o : Watch} (ho : ∀ b, ¬ o.waiting b) : m.SharesWell o s := by
  simp only [takenByAll, Bool.and_eq_true, Option.isNone_iff_eq_none] at h
  obtain ⟨hqueue, hall⟩ := h
  intro e target added hstores key var hbinds _ hrefuses
  have hstored : s.stored? = some e := by
    cases hstores with
    | change hc => exact hc
    | compound => rfl
  rw [hstored, Option.all_some] at hall
  rcases hbinds with ⟨f, hf, hfind⟩ | ⟨b, hwaits | ⟨t, ht, -⟩, -⟩
  · have hframe := List.all_eq_true.mp hall f hf
    have hentry := List.all_eq_true.mp hframe (key, var) (mem_of_lookup hfind)
    rw [hrefuses] at hentry
    cases hentry
  · exact absurd hwaits (ho b)
  · rw [Machine.tasks, hqueue] at ht
    cases List.drop_nil ▸ ht

end Statement

/-! ### Two names for one collection -/

/-- A program in which a collection has a second name with a wider type, by way of which a text is
stored. The word is that for the type of the elements. -/
def Definition.aliased (word : String) (type : Ty) : Definition where
  name := "aliased"
  returns := type ||| .collection
  parameters := []
  source := "var n as " ++ word ++ " collection\n" ++
    "var a as anything collection = @n\nadditem a 'x'\nreturn @n"

/-- The program and its first state, with the outcome and the answer of its run. -/
def Definition.answered? (d : Definition) : Option (Program × Machine × Outcome × Value) :=
  match d.started? [] .empty with
  | none => none
  | some (p, m) =>
    match p.run 0 [] none .empty with
    | none => none
    | some outcome =>
      match outcome.answer with
      | .ok v => some (p, m, outcome, v)
      | .error _ => none

theorem Definition.answered?_eq_some {d : Definition} {p : Program} {m : Machine}
    {outcome : Outcome} {v : Value} (h : d.answered? = some (p, m, outcome, v)) :
    d.compile .standard {} = .ok p ∧ p.start [] none .empty = .ok m ∧
      p.run 0 [] none .empty = some outcome ∧ outcome.answer = .ok v := by
  unfold answered? at h
  split at h
  · cases h
  · rename_i hsome
    split at h
    · cases h
    · rename_i hrun
      split at h
      · rename_i hanswer
        cases h
        obtain ⟨hp, hstart⟩ := started?_eq_some hsome
        exact ⟨hp, hstart, hrun, hanswer⟩
      · cases h

/-- A collection of numbers comes to hold a text. -/
theorem Program.aliased_answer_not_conforms :
    ∃ p outcome v, (Definition.aliased "number" .number).compile .standard {} = .ok p ∧
      p.run 0 [] none .empty = some outcome ∧ outcome.answer = .ok v ∧
      ¬ outcome.world.heap.Conforms (Ty.number ||| Ty.collection) v := by
  have hcheck : (Definition.aliased "number" .number).answered?.any (fun (_, _, outcome, v) =>
      ¬ outcome.world.heap.Conforms (Ty.number ||| Ty.collection) v) = true := by
    decide +kernel
  obtain ⟨⟨p, m, outcome, v⟩, hsome, hv⟩ := (Option.any_eq_true _ _).mp hcheck
  obtain ⟨hp, -, hrun, hanswer⟩ := Definition.answered?_eq_some hsome
  exact ⟨p, outcome, v, hp, hrun, hanswer, of_decide_eq_true hv⟩

/-- With texts in the place of numbers the condition is met. -/
theorem Program.values_conform_aliased :
    ∃ p outcome v, (Definition.aliased "text" .text).compile .standard {} = .ok p ∧
      p.run 0 [] none .empty = some outcome ∧ outcome.answer = .ok v ∧
      outcome.world.heap.Conforms p.returns v := by
  have hcheck : (Definition.aliased "text" .text).answered?.any (fun (p, m, _, _) =>
      Statement.passAll Statement.takenByAll p.body m) = true := by
    decide +kernel
  obtain ⟨⟨p, m, outcome, v⟩, hsome, hpass⟩ := (Option.any_eq_true _ _).mp hcheck
  obtain ⟨hp, hstart, hrun, hanswer⟩ := Definition.answered?_eq_some hsome
  have hbegins : p.Begins (fun _ => False) .empty p.body m :=
    .body (fun _ hv => by cases hv) hstart
  have hshares : ∀ place, SafeFrom (Machine.SharesWell (m.watch fun _ => False)) 0
      ⟨place, p.body, m⟩ :=
    Statement.safeFrom_of_passAll
      (fun _ _ h => Statement.sharesWell_of_takenByAll h fun _ hwaits => hwaits) hpass
  have hvoid : p.returns.isVoid = false := by
    obtain ⟨scope, hcompiled⟩ := Definition.compiled hp
    rw [hcompiled.returns]
    rfl
  refine ⟨p, outcome, v, hp, hrun, hanswer, ?_⟩
  have hconform := values_conform hp (by decide) (by decide) (.new .empty) hbegins hshares
  exact hconform.2.2 [] none outcome v rfl hstart hrun hanswer hvoid

end WorldScript
