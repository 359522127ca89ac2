import WorldScript.Program.Run
import WorldScript.Proofs.Run.Commute

/-! # Locality of execution

A run depends on the heap, and changes it, only where its variables reach. So the same program in
two heaps that agree there does the same, up to the addresses of new cells, and all other cells stay
as they are.

* `Surroundings.SameEffects`: what two runs have left behind is the same.
* `Statement.runAll_local`, `Program.run_local`: a run of statements, and of a program, in two
  worlds.
* `execution_local`: these, together with blocks that wait, and repeated runs of a program. -/

namespace WorldScript

variable {p : Pairing} {left right h h' : Heap}

/-! ### Arguments -/

namespace Ty

theorem plainMismatch?_joins (expected : Ty) {v v' : Value} (hv : p.Joins v v') :
    expected.plainMismatch? v' = expected.plainMismatch? v := by
  unfold plainMismatch?
  rw [hv.isNull, hv.type]

theorem findSome?_plainMismatch? (expected : Ty) {items items' : List Value}
    (hitems : List.Forall₂ (p.At h) items items') :
    items'.findSome? expected.plainMismatch? = items.findSome? expected.plainMismatch? := by
  induction hitems with
  | nil => rfl
  | cons hx _ ih =>
    rw [List.findSome?_cons, List.findSome?_cons, plainMismatch?_joins expected hx.1, ih]

theorem elementsIn?_alike (hh : Heap.Alike p left right h h') (shape : Ty) {v v' : Value}
    (hv : p.At h v v') :
    Option.Rel (List.Forall₂ (p.At h)) (shape.elementsIn? h v) (shape.elementsIn? h' v') := by
  cases hv.1 with
  | plain hplain =>
    cases v with
    | collection c => cases hplain
    | dictionary c => cases hplain
    | groups c => cases hplain
    | _ => exact .none
  | collection _ =>
    simp only [elementsIn?]
    split
    · exact .some (hh.list hv)
    · exact .none
  | dictionary _ =>
    simp only [elementsIn?]
    split
    · exact .some (List.rel_map (fun _ _ he => he.2) (hh.dict hv))
    · exact .none
  | groups _ =>
    simp only [elementsIn?]
    split
    · exact .some (List.rel_flatMap (hh.group hv) fun _ _ he => he.2)
    · exact .none

/-- What is wrong with an argument is the same for joined ones. -/
theorem mismatch?_alike (hh : Heap.Alike p left right h h') (expected : Ty) {v v' : Value}
    (hv : p.At h v v') : expected.mismatch? h' v' = expected.mismatch? h v := by
  unfold mismatch?
  rcases expected.element with fault | _ | element
  · rfl
  · exact congrArg Except.ok (plainMismatch?_joins _ hv.1)
  · rcases rel_eq_or (elementsIn?_alike hh expected.structural hv) with
      ⟨h₁, h₂⟩ | ⟨items, items', h₁, h₂, hitems⟩
    · rw [h₁, h₂, hv.1.type]
      rfl
    · rw [h₁, h₂]
      exact congrArg (fun t : Option Ty => Except.ok (t.map (· ||| expected.structural)))
        (findSome?_plainMismatch? element hitems)

end Ty

namespace Space

theorem Alike.declare?_getD {R : Value → Value → Prop} {s s' : Space} (hs : s.Alike R s')
    (name : String) (type : Ty) {v v' : Value} (hv : R v v') :
    ((s.declare? name type v).getD s).Alike R ((s'.declare? name type v').getD s') := by
  rcases rel_eq_or (hs.declare? name type hv) with ⟨h₁, h₂⟩ | ⟨_, _, h₁, h₂, hdeclared⟩
  · rw [h₁, h₂]
    exact hs
  · rw [h₁, h₂]
    exact hdeclared

end Space

namespace Program

theorem bindAll_alike (hh : Heap.Alike p left right h h') (program : String)
    {l : List ((String × Ty) × Value)} (hl : ∀ e ∈ l, p.At h e.2 e.2) {vars vars' : Space}
    (hvars : vars.Alike (p.At h) vars') :
    Agree (Space.Alike (p.At h)) (bindAll program h l vars) (bindAll program h' l vars') := by
  induction l generalizing vars vars' with
  | nil => exact .ok hvars
  | cons e rest ih =>
    obtain ⟨⟨name, type⟩, v⟩ := e
    obtain ⟨hv, hrest⟩ := List.forall_mem_cons.mp hl
    unfold bindAll
    rw [Ty.mismatch?_alike hh type hv]
    rcases type.mismatch? h v with fault | _ | actual
    · exact .error _
    · exact ih hrest (hvars.declare?_getD name type hv)
    · exact .error _

theorem bindArguments_alike (hh : Heap.Alike p left right h h') (program : Program)
    {args : List Value} (hargs : ∀ v ∈ args, p.At h v v) :
    Agree (fun r r' => Heap.Alike p left right r.2 r'.2 ∧ h.Grows r.2 ∧ r.1.Alike (p.At r.2) r'.1)
      (program.bindArguments args h) (program.bindArguments args h') := by
  have hpairs : ∀ e ∈ program.parameters.zip args, p.At h e.2 e.2 :=
    fun e he => hargs e.2 (List.of_mem_zip he).2
  unfold bindArguments
  split
  · exact .error _
  · refine (bindAll_alike hh program.name hpairs Space.alike_empty).bind fun vars vars' hvars => ?_
    split
    · exact .ok ⟨hh, .refl h, hvars⟩
    · obtain ⟨hh₁, hv⟩ := hh.initial program.returns
      have hgrows := (Heap.keeps_initial h program.returns).grows
      have hvars₁ := hvars.imp fun _ _ hx => hx.mono hgrows
      exact .ok ⟨hh₁, hgrows, hvars₁.declare?_getD _ _ hv⟩

end Program

/-! ### What a run leaves behind -/

/-- What a run finds besides its variables: the world, and the queue for its delayed blocks. -/
structure Surroundings where
  world : World
  queue : Option (Queue DelayedBlock)

/-- The surroundings of a running program. -/
def Machine.around (m : Machine) : Surroundings := ⟨m.world, m.queue⟩

/-- The surroundings after a run. -/
def Outcome.around (o : Outcome) : Surroundings := ⟨o.world, o.queue⟩

namespace Surroundings

/-- The cells that are reached from the roots, with themselves, and the next cells, in the order in
which they will come. -/
def pairing (s s' : Surroundings) (roots : List Value) : Pairing :=
  .upToNew s.world.heap s'.world.heap roots

/-- One run has led from `s` to `t` and another one from `s'` to `t'`. They have done the same to
what is reached from the roots, and nothing to anything else. -/
structure SameEffects (roots : List Value) (s s' t t' : Surroundings) : Prop where
  /-- Of the cells that were reached, and the new ones, the same exist and hold the same. -/
  cells : ∀ v v', (s.pairing s' roots).Joins v v' →
    (t.world.heap.Live v ↔ t'.world.heap.Live v') ∧
    (t.world.heap.Live v → (s.pairing s' roots).Hold t.world.heap t'.world.heap v v')
  /-- The same tasks have been added to the queues. -/
  tasks : ∃ l l', List.Forall₂ (RequestAlike (s.pairing s' roots).Joins) l l' ∧
    t.queue = s.queue.map (·.scheduleAll l) ∧ t'.queue = s'.queue.map (·.scheduleAll l')
  /-- Nothing has ceased to exist. -/
  grows : s.world.heap.Grows t.world.heap
  /-- The cells that are not reached are as they were. -/
  frame : ∀ v, s.world.heap.Live v → ¬ s.world.heap.Reaches roots v →
    s.world.heap.SameCell t.world.heap v
  frame' : ∀ v, s'.world.heap.Live v → ¬ s'.world.heap.Reaches roots v →
    s'.world.heap.SameCell t'.world.heap v
  notes : t.world.notes = s.world.notes
  notes' : t'.world.notes = s'.world.notes

variable {roots : List Value} {s s' t t' : Surroundings}

theorem sameEffects_of_alike (hagree : s.world.heap.AgreeOn s'.world.heap roots)
    (hworld : World.Alike (s.pairing s' roots) s.world s'.world t.world t'.world)
    (hgrows : s.world.heap.Grows t.world.heap)
    (htasks : ∃ l l', List.Forall₂ (RequestAlike (s.pairing s' roots).Joins) l l' ∧
      t.queue = s.queue.map (·.scheduleAll l) ∧ t'.queue = s'.queue.map (·.scheduleAll l')) :
    SameEffects roots s s' t t' where
  cells _ _ hv := ⟨hworld.heap.live_iff hv, fun hlive => hworld.heap.hold ⟨hv, hlive⟩⟩
  tasks := htasks
  grows := hgrows
  frame _ hlive hv := hworld.heap.frame_left hlive hv
  frame' _ hlive hv := hworld.heap.frame_right hlive fun hreached =>
    hv (hagree.reaches_iff.mpr hreached)
  notes := hworld.notes
  notes' := hworld.notes'

/-- What others reach, who share nothing with the roots, is the same after a run. -/
theorem SameEffects.agreeOn (heffects : SameEffects roots s s' t t') {others : List Value}
    (hothers : s.world.heap.AgreeOn s.world.heap others)
    (hunshared : s.world.heap.Unshared roots others) :
    s.world.heap.AgreeOn t.world.heap others :=
  hothers.of_unshared hunshared heffects.grows heffects.frame

end Surroundings

/-! ### Whole runs -/

open Surroundings (SameEffects sameEffects_of_alike)

/-- Two ends of runs from the same variables: the same signal, the same variables in the end, and
the same effects. -/
def Machine.SameEnding (m m' : Machine) (e e' : Ending) : Prop :=
  e'.1 = e.1 ∧ e.2.vars.Alike (m.around.pairing m'.around m.vars.values).Joins e'.2.vars ∧
    SameEffects m.vars.values m.around m'.around e.2.around e'.2.around

/-- A sequence of statements does the same in heaps that agree on what its variables reach. -/
theorem Statement.runAll_local {l : List Statement} (hl : AllStandard l) (limit : Nat)
    {m : Machine} (hagree : m.world.heap.AgreeOn h' m.vars.values) :
    Option.Rel (m.SameEnding (m.withHeap h')) (runAll limit l m)
      (runAll limit l (m.withHeap h')) := by
  have halike := Machine.alike_of_agree m (m.withHeap h') rfl rfl rfl hagree
  refine rel_imp (runAll_alike _ _ _ limit hl halike) fun e e' hends => ?_
  exact ⟨hends.signal, hends.alike.vars.imp fun _ _ hv => hv.1,
    sameEffects_of_alike hagree hends.alike.world hends.grows hends.alike.requests⟩

namespace Program

variable {limit : Nat} {program : Program} {args : List Value} {s s' : Surroundings}

/-- Two outcomes of runs on the same arguments: the same answer, and the same effects. -/
def SameOutcome (args : List Value) (s s' : Surroundings) (o o' : Outcome) : Prop :=
  Agree (s.pairing s' args).Joins o.answer o'.answer ∧ SameEffects args s s' o.around o'.around

theorem answerOf_alike (signal : Signal) {vars vars' : Space}
    (hvars : vars.Alike (p.At h) vars') :
    Agree p.Joins (answerOf signal vars) (answerOf signal vars') := by
  have hanswer : p.Joins ((vars.value? Name.returnSlot).getD .null)
      ((vars'.value? Name.returnSlot).getD .null) := by
    rcases rel_eq_or (hvars.value? Name.returnSlot) with ⟨h₁, h₂⟩ | ⟨_, _, h₁, h₂, hv⟩
    · rw [h₁, h₂]
      exact .plain rfl
    · rw [h₁, h₂]
      exact hv.1
  cases signal with
  | failed e => exact .error _
  | _ => exact .ok hanswer

/-- The states in which the body of a program begins, on the same arguments. -/
theorem start_alike (hagree : s.world.heap.AgreeOn s'.world.heap args)
    (hqueue : s'.queue.isSome = s.queue.isSome) :
    Agree (fun m m' => Machine.Alike (s.pairing s' args) ⟨s.world, .empty, s.queue, program.name⟩
        ⟨s'.world, .empty, s'.queue, program.name⟩ m m' ∧ s.world.heap.Grows m.world.heap)
      (program.start args s.queue s.world) (program.start args s'.queue s'.world) := by
  have hargs : ∀ v ∈ args, (s.pairing s' args).At s.world.heap v v :=
    fun v hv => hagree.at (.root hv)
  refine (bindArguments_alike hagree.alike program hargs).bind ?_
  rintro ⟨vars, h⟩ ⟨vars', h'⟩ ⟨hh, hgrows, hvars⟩
  exact .ok ⟨⟨⟨hh, rfl, rfl⟩, hvars, rfl, hqueue, [], [], .nil, scheduleAll_nothing _,
    scheduleAll_nothing _⟩, hgrows⟩

/-- A program runs alike in worlds that agree on what its arguments reach. -/
theorem run_local (hbody : Statement.AllStandard program.body)
    (hagree : s.world.heap.AgreeOn s'.world.heap args)
    (hqueue : s'.queue.isSome = s.queue.isSome) (limit : Nat) :
    Option.Rel (SameOutcome args s s') (program.run limit args s.queue s.world)
      (program.run limit args s'.queue s'.world) := by
  unfold run
  rcases (start_alike hagree hqueue).eq_or with ⟨m, m', h₁, h₂, hm, hgrows⟩ | ⟨e, h₁, h₂⟩
  · rw [h₁, h₂]
    refine rel_map (Statement.runAll_alike _ _ _ limit hbody hm) fun e e' hends => ?_
    obtain ⟨signal, m₁⟩ := e
    obtain ⟨_, m₁'⟩ := e'
    obtain rfl := hends.signal
    exact ⟨answerOf_alike _ hends.alike.vars, sameEffects_of_alike hagree hends.alike.world
      (hgrows.trans hends.grows) hends.alike.requests⟩
  · rw [h₁, h₂]
    refine .some ⟨.error _, sameEffects_of_alike hagree ⟨hagree.alike, rfl, rfl⟩ (.refl _) ?_⟩
    exact ⟨[], [], .nil, scheduleAll_nothing _, scheduleAll_nothing _⟩

/-- Runs a program on some lists of arguments, one after the other. -/
def runEach (limit : Nat) (program : Program) : List (List Value) → Surroundings →
    Option Surroundings
  | [], s => some s
  | args :: rest, s =>
    (program.run limit args s.queue s.world).bind fun o => runEach limit program rest o.around

/-- After one run, others who share nothing with its arguments reach the same as before. -/
theorem agreeOn_of_run (hbody : Statement.AllStandard program.body)
    (hargs : s.world.heap.AgreeOn s.world.heap args) {others : List Value}
    (hothers : s.world.heap.AgreeOn s.world.heap others)
    (hunshared : s.world.heap.Unshared args others) {o : Outcome}
    (hrun : program.run limit args s.queue s.world = some o) :
    s.world.heap.AgreeOn o.world.heap others ∧ o.queue.isSome = s.queue.isSome := by
  have hself := run_local hbody hargs rfl limit
  rw [hrun] at hself
  cases hself with
  | some ho =>
    obtain ⟨requests, -, -, hqueue, -⟩ := ho.2.tasks
    refine ⟨ho.2.agreeOn hothers hunshared, ?_⟩
    rw [show o.queue = s.queue.map (·.scheduleAll requests) from hqueue, Option.isSome_map]

/-- After any number of runs, too: by induction on the runs, where those that are still to come
share nothing in the new heap either. -/
theorem agreeOn_of_runEach (hbody : Statement.AllStandard program.body)
    {earlier : List (List Value)}
    (hlive : ∀ l ∈ earlier ++ [args], s.world.heap.AgreeOn s.world.heap l)
    (hunshared : (earlier ++ [args]).Pairwise s.world.heap.Unshared) {t : Surroundings}
    (hrun : runEach limit program earlier s = some t) :
    s.world.heap.AgreeOn t.world.heap args ∧ t.queue.isSome = s.queue.isSome := by
  induction earlier generalizing s with
  | nil =>
    cases hrun
    exact ⟨hlive args (List.mem_singleton.mpr rfl), rfl⟩
  | cons first rest ih =>
    obtain ⟨o, ho, hrest⟩ := Option.bind_eq_some_iff.mp hrun
    obtain ⟨hfirst, hlater⟩ := List.forall_mem_cons.mp hlive
    obtain ⟨hunfirst, hunlater⟩ := List.pairwise_cons.mp hunshared
    have hagree : ∀ l ∈ rest ++ [args], s.world.heap.AgreeOn o.world.heap l ∧
        o.queue.isSome = s.queue.isSome :=
      fun l hl => agreeOn_of_run hbody hfirst (hlater l hl) (hunfirst l hl) ho
    have hun : (rest ++ [args]).Pairwise o.world.heap.Unshared := by
      refine hunlater.imp_of_mem fun hl hl' hshare v hv hv' => ?_
      exact hshare v ((hagree _ hl).1.reaches_iff.mp hv) ((hagree _ hl').1.reaches_iff.mp hv')
    obtain ⟨hargs, hqueue⟩ := ih (fun l hl => (hagree l hl).1.right) hun hrest
    obtain ⟨hargs₁, hqueue₁⟩ := hagree args (List.mem_append_right rest List.mem_cons_self)
    exact ⟨hargs₁.trans hargs, hqueue.trans hqueue₁⟩

end Program

/-- **Locality of execution.** A sequence of statements that calls functions of the standard library
only does the same in two heaps that agree on what is reached from its variables, and leaves all
other cells alone. Two blocks that share nothing can run in either order. And a run of a program
does the same after other runs of it as without them, if no two of them share anything. -/
theorem execution_local (limit : Nat) :
    (∀ l m h', Statement.AllStandard l → m.world.heap.AgreeOn h' m.vars.values →
      Option.Rel (m.SameEnding (m.withHeap h')) (Statement.runAll limit l m)
        (Statement.runAll limit l (m.withHeap h'))) ∧
    (∀ (t₁ t₂ : Task DelayedBlock) q (w : World), w.heap.Closed →
      (∀ t ∈ [t₁, t₂], Statement.AllStandard t.payload.body ∧
        ∀ v ∈ t.payload.vars.values, w.heap.Live v) →
      w.heap.Unshared t₁.payload.vars.values t₂.payload.vars.values →
      Option.Rel (fun r r' => w.heap.SameUpTo r.2.heap r'.2.heap)
        (DelayedBlock.fireBoth limit t₁ t₂ q w) (DelayedBlock.fireBoth limit t₂ t₁ q w)) ∧
    ∀ (program : Program) earlier args (s t : Surroundings),
      Statement.AllStandard program.body → s.world.heap.Closed →
      (∀ l ∈ earlier ++ [args], ∀ v ∈ l, s.world.heap.Live v) →
      (earlier ++ [args]).Pairwise s.world.heap.Unshared →
      program.runEach limit earlier s = some t →
      Option.Rel (Program.SameOutcome args s t) (program.run limit args s.queue s.world)
        (program.run limit args t.queue t.world) := by
  refine ⟨fun l m h' hl hagree => Statement.runAll_local hl limit hagree, ?_, ?_⟩
  · intro t₁ t₂ q w hclosed hblocks hunshared
    obtain ⟨h₁, hlive₁⟩ := hblocks t₁ List.mem_cons_self
    obtain ⟨h₂, hlive₂⟩ := hblocks t₂ (List.mem_cons_of_mem _ List.mem_cons_self)
    exact DelayedBlock.fireBoth_comm h₁ h₂ hclosed hlive₁ hlive₂ hunshared
  · intro program earlier args s t hbody hclosed hlive hunshared hrun
    have hself := fun l hl => hclosed.agreeOn (hlive l hl)
    obtain ⟨hagree, hqueue⟩ := Program.agreeOn_of_runEach hbody hself hunshared hrun
    exact Program.run_local hbody hagree hqueue limit

/-! ### A program that appends -/

/-- Makes a new collection, and adds an item to the given one. -/
def appending : Program :=
  ⟨"append", .void, [("xs", .collection ||| .text)],
    [.declare 1 "ys" (.collection ||| .text) none,
      .change 2 "xs" (.add (.literal (.text "a")))]⟩

/-- Two collections, of which the first one is empty. -/
def twoLists (items : List Value) : Heap := ⟨⟨#[[], items]⟩, .empty, .empty⟩

/-- The parameter of the program, with a collection for it. -/
def appendingTo (c : Nat) : Space := ⟨⟨[("xs", ⟨.collection ||| .text, .collection c⟩)]⟩, []⟩

/-- The state in which the body begins, for the first collection. -/
def appendingFirst : Machine := ⟨⟨twoLists [], []⟩, appendingTo 0, none, "append"⟩

/-- The body of the program as a block that waits. -/
def appendingLater (c : Nat) : Task DelayedBlock :=
  ⟨c + 1, "append", 0, "append", appending.body, appendingTo c⟩

theorem allStandard_appending : Statement.AllStandard appending.body := by
  intro s hs e he
  rcases hs with _ | (_ | (_ | _) | ⟨hb, _⟩) | ⟨hb, _⟩
  · cases he
  · rw [List.mem_singleton.mp he]
    trivial
  · cases hb
  · cases hb

theorem elements_twoLists (v : Value) : (twoLists []).elements v = [] := by
  cases v with
  | collection c => rcases c with _ | _ | c <;> rfl
  | _ => rfl

theorem reaches_twoLists {roots : List Value} {v : Value} (hv : (twoLists []).Reaches roots v) :
    v ∈ roots := by
  cases hv with
  | root hroot => exact hroot
  | element _ hx =>
    rw [elements_twoLists] at hx
    cases hx

theorem agreeOn_twoLists (items : List Value) :
    (twoLists []).AgreeOn (twoLists items) (appendingTo 0).values := by
  intro v hv
  rw [List.mem_singleton.mp (reaches_twoLists hv)]
  exact ⟨Nat.zero_lt_two, Nat.zero_lt_two, rfl⟩

theorem closed_twoLists : (twoLists []).Closed := by
  intro v _ x hx
  rw [elements_twoLists] at hx
  cases hx

theorem unshared_twoLists : (twoLists []).Unshared [.collection 0] [.collection 1] := by
  intro v hv hv'
  rw [List.mem_singleton.mp (reaches_twoLists hv)] at hv'
  cases List.mem_singleton.mp (reaches_twoLists hv')

theorem live_twoLists {c : Nat} (hc : c < 2) :
    ∀ v ∈ [Value.collection c], (twoLists []).Live v := by
  intro v hv
  rw [List.mem_singleton.mp hv]
  exact hc

/-- The program does the same to the first collection, whatever the second one holds. It can wait
for both, and run in either order. And it does the same to the second one after the first one. -/
theorem execution_local_appending :
    (∀ items, Option.Rel (appendingFirst.SameEnding (appendingFirst.withHeap (twoLists items)))
      (Statement.runAll 1 appending.body appendingFirst)
      (Statement.runAll 1 appending.body (appendingFirst.withHeap (twoLists items)))) ∧
    (∀ q, Option.Rel (fun r r' => (twoLists []).SameUpTo r.2.heap r'.2.heap)
      (DelayedBlock.fireBoth 1 (appendingLater 0) (appendingLater 1) q ⟨twoLists [], []⟩)
      (DelayedBlock.fireBoth 1 (appendingLater 1) (appendingLater 0) q ⟨twoLists [], []⟩)) ∧
    ∃ t, appending.runEach 1 [[.collection 0]] ⟨⟨twoLists [], []⟩, none⟩ = some t ∧
      Option.Rel (Program.SameOutcome [.collection 1] ⟨⟨twoLists [], []⟩, none⟩ t)
        (appending.run 1 [.collection 1] none ⟨twoLists [], []⟩)
        (appending.run 1 [.collection 1] t.queue t.world) := by
  obtain ⟨hruns, hblocks, hrepeated⟩ := execution_local 1
  refine ⟨fun items => ?_, fun q => ?_, ?_⟩
  · exact hruns _ appendingFirst _ allStandard_appending (agreeOn_twoLists items)
  · refine hblocks _ _ q ⟨twoLists [], []⟩ closed_twoLists ?_ unshared_twoLists
    exact List.forall_mem_cons.mpr ⟨⟨allStandard_appending, live_twoLists Nat.zero_lt_two⟩,
      List.forall_mem_singleton.mpr ⟨allStandard_appending, live_twoLists Nat.one_lt_two⟩⟩
  · have hends : (appending.runEach 1 [[.collection 0]] ⟨⟨twoLists [], []⟩, none⟩).isSome := by
      decide +kernel
    obtain ⟨t, ht⟩ := Option.isSome_iff_exists.mp hends
    refine ⟨t, ht, hrepeated _ _ _ ⟨⟨twoLists [], []⟩, none⟩ t allStandard_appending
      closed_twoLists ?_ (List.pairwise_pair.mpr unshared_twoLists) ht⟩
    exact List.forall_mem_cons.mpr ⟨live_twoLists Nat.zero_lt_two,
      List.forall_mem_singleton.mpr (live_twoLists Nat.one_lt_two)⟩

end WorldScript
