import WorldScript.Proofs.Program.Visits
import WorldScript.Proofs.Run.Soundness

/-! # Sessions

A program can be run any number of times, and the blocks that it delays run later, each in the world
of its time. A *session* is a history of such runs. Between them the world may change, as other
programs do their work; only the cells that waiting blocks have a hold of are left alone. A
condition on the statements of all runs is carried along, as not every statement keeps every
invariant.

* `Program.Session`: the blocks that wait and the world, after some runs.
* `Definition.Regular.resting`: what waits is sound.
* `Definition.Regular.good_of_leads`: so every run begins in a sound state, and keeps it. -/

namespace WorldScript

open Space (Agrees)

/-- The moment at which a run begins. -/
def Machine.watch (m : Machine) (waiting : DelayedBlock → Prop) : Watch := ⟨waiting, m.tasks.length⟩

namespace Program

/-- The statements and the state with which a run begins: the body of the program, with arguments
that are let in and exist, or a block that waits. -/
inductive Begins (p : Program) (waiting : DelayedBlock → Prop) (w : World) :
    List Statement → Machine → Prop
  | body {arguments : List Value} {queue : Option (Queue DelayedBlock)} {m : Machine} :
    (∀ v ∈ arguments, w.heap.Live v) → p.start arguments queue w = .ok m →
    Begins p waiting w p.body m
  | block {b : DelayedBlock} (q : Queue DelayedBlock) :
    waiting b → Begins p waiting w b.body (b.start q w)

/-- The blocks that wait and the world, after some runs all of whose statements were allowed. -/
inductive Session (p : Program) (Allowed : Watch → Statement → Machine → Prop) :
    (DelayedBlock → Prop) → World → Prop
  | new (w : World) : Session p Allowed (fun _ => False) w
  /-- A run has come to an end. -/
  | ran {waiting : DelayedBlock → Prop} {w : World} {l : List Statement} {m m' : Machine}
    {limit : Nat} {signal : Signal} :
    Session p Allowed waiting w → p.Begins waiting w l m →
    (∀ place, SafeFrom (Allowed (m.watch waiting)) limit ⟨place, l, m⟩) →
    Statement.runAll limit l m = some (signal, m') →
    Session p Allowed (m'.Waits (m.watch waiting)) m'.world
  /-- Some blocks wait no longer, and the world has changed, but not the cells of those that do. -/
  | meanwhile {waiting waiting' : DelayedBlock → Prop} {w w' : World} :
    Session p Allowed waiting w → (∀ b, waiting' b → waiting b) →
    (∀ b key var, waiting' b → b.vars.Holds key var →
      w'.heap.Live var.value ∧ w'.heap.elements var.value = w.heap.elements var.value) →
    Session p Allowed waiting' w'

end Program

/-! ### Arguments -/

namespace Program

variable {fits : BitVec 14 → Value → Prop} (hf : Fitting fits)

include hf

theorem bindAll_suits {program : String} {h : Heap} {parameters : List (String × Ty)}
    {arguments : List Value} {vars vars' : Space} (hsimple : ∀ q ∈ parameters, q.2.Simple)
    (hlive : ∀ v ∈ arguments, h.Live v)
    (hbind : bindAll program h (parameters.zip arguments) vars = .ok vars')
    (hvars : ∀ key var, vars.Holds key var → Suits fits h var.type var.value) :
    ∀ key var, vars'.Holds key var → Suits fits h var.type var.value := by
  induction parameters generalizing arguments vars with
  | nil =>
    cases hbind
    exact hvars
  | cons parameter rest ih =>
    obtain ⟨name, type⟩ := parameter
    cases arguments with
    | nil =>
      cases hbind
      exact hvars
    | cons v more =>
      obtain ⟨hmismatch, hbind⟩ := bindAll_cons hbind
      have hv : Suits fits h type v := hf.suits_argument (hsimple _ List.mem_cons_self)
        (hlive v List.mem_cons_self) hmismatch
      refine ih (fun q hq => hsimple q (List.mem_cons_of_mem _ hq))
        (fun x hx => hlive x (List.mem_cons_of_mem _ hx)) hbind ?_
      intro key var hholds
      cases hdeclare : vars.declare? name type v with
      | none =>
        rw [hdeclare] at hholds
        exact hvars key var hholds
      | some bound =>
        rw [hdeclare] at hholds
        rcases hholds.of_declare? hdeclare with ⟨-, rfl⟩ | hholds
        · exact hv
        · exact hvars key var hholds

/-- The variables with which a run of the body begins suit their types. -/
theorem start_suits {p : Program} (hparameters : ∀ q ∈ p.parameters, q.2.Simple)
    (hreturns : p.returns.Simple) {arguments : List Value} {queue : Option (Queue DelayedBlock)}
    {w : World} {m : Machine} (hlive : ∀ v ∈ arguments, w.heap.Live v)
    (hstart : p.start arguments queue w = .ok m) :
    ∀ key var, m.vars.Holds key var → Suits fits m.world.heap var.type var.value := by
  obtain ⟨vars, heap, hbind, rfl⟩ := start_eq_ok hstart
  obtain ⟨-, bound, hbound, hslot⟩ := bindArguments_eq_ok hbind
  have hsuits := bindAll_suits hf hparameters hlive hbound
    fun _ _ h => absurd h Space.not_holds_empty
  rcases hslot with ⟨-, rfl, rfl⟩ | ⟨-, rfl, rfl⟩
  · exact hsuits
  · intro key var hholds
    have hold : ∀ key var, bound.Holds key var →
        Suits fits (w.heap.initial p.returns).2 var.type var.value :=
      fun key var h => (hsuits key var h).keeps (w.heap.keeps_initial _)
    cases hdeclare : bound.declare? Name.returnSlot p.returns (w.heap.initial p.returns).1 with
    | none =>
      rw [hdeclare] at hholds
      exact hold key var hholds
    | some vars =>
      rw [hdeclare] at hholds
      rcases hholds.of_declare? hdeclare with ⟨-, rfl⟩ | hholds
      · exact hf.suits_initial w.heap hreturns
      · exact hold key var hholds

omit hf

/-- Nothing comes into an old cell when a run begins. -/
theorem start_keeps {p : Program} {arguments : List Value} {queue : Option (Queue DelayedBlock)}
    {w : World} {m : Machine} (hstart : p.start arguments queue w = .ok m) :
    w.heap.Keeps m.world.heap := by
  obtain ⟨vars, heap, hbind, rfl⟩ := start_eq_ok hstart
  obtain ⟨-, bound, -, hslot⟩ := bindArguments_eq_ok hbind
  rcases hslot with ⟨-, -, rfl⟩ | ⟨-, rfl, -⟩
  · exact .refl _
  · exact w.heap.keeps_initial _

end Program

/-! ### Sound sessions -/

/-- A statement that was compiled with a library whose functions keep to their types. -/
def Supported (fits : BitVec 14 → Value → Prop) (lines : List Line) (slot : Option Ty) (q : Place)
    (s : Statement) : Prop := Compiled lines slot q s ∧ q.context.library.Sound fits

/-- The blocks that wait belong to the program, and their variables suit their types. -/
structure Resting (fits : BitVec 14 → Value → Prop) (Own waiting : DelayedBlock → Prop)
    (w : World) : Prop where
  own : ∀ {b}, waiting b → Own b
  suits : ∀ {b key var}, waiting b → b.vars.Holds key var →
    Suits fits w.heap var.type var.value

theorem Machine.waits_watch {m : Machine} {waiting : DelayedBlock → Prop} {b : DelayedBlock} :
    m.Waits (m.watch waiting) b ↔ waiting b := by
  simp [Waits, watch]

theorem Machine.Sound.resting {fits : BitVec 14 → Value → Prop} {Own : DelayedBlock → Prop}
    {o : Watch} {m : Machine} (hm : m.Sound fits Own o) : Resting fits Own (m.Waits o) m.world :=
  ⟨hm.own, fun hwaits hholds => hm.suits (Or.inr ⟨_, hwaits, hholds⟩)⟩

/-- A state is sound at the beginning of a run if what waits is, and its own variables suit their
types. -/
theorem Machine.sound_watch {fits : BitVec 14 → Value → Prop} {Own waiting : DelayedBlock → Prop}
    {w : World} {m : Machine} (hrest : Resting fits Own waiting w)
    (hkeeps : w.heap.Keeps m.world.heap)
    (hvars : ∀ key var, m.vars.Holds key var → Suits fits m.world.heap var.type var.value) :
    m.Sound fits Own (m.watch waiting) := by
  refine ⟨Nat.le_refl _, ?_, fun hwaits => hrest.own (waits_watch.mp hwaits)⟩
  rintro key var (hholds | ⟨b, hwaits, hholds⟩)
  · exact hvars key var hholds
  · exact (hrest.suits (waits_watch.mp hwaits) hholds).keeps hkeeps

namespace Program

/-- The block belongs to the program that was compiled from the lines. -/
def Owns (fits : BitVec 14 → Value → Prop) (lines : List Line) (p : Program) (b : DelayedBlock) :
    Prop := b.Belongs (Supported fits lines p.slot) p.slot

/-- The point is one of the program, and its state is sound. -/
def GoodAt (fits : BitVec 14 → Value → Prop) (lines : List Line) (p : Program) (o : Watch)
    (Q : Point) : Prop :=
  Kept.Good (Supported fits lines p.slot) p.slot (Machine.Sound fits (p.Owns fits lines) o) Q

theorem kept (fits : BitVec 14 → Value → Prop) (hf : Fitting fits) (lines : List Line) (p : Program)
    (o : Watch) :
    Kept (Supported fits lines p.slot) p.slot (fun s m => m.StoresWell fits o s)
      (Statement.ItemsFit fits) (Machine.Sound fits (p.Owns fits lines) o) :=
  kept_sound hf (fun h => ⟨h.1.1.wellPlaced, h.1.2, h.2⟩) o

end Program

/-- A compiled program whose types have at most one shape each, with a library whose functions keep
to their types. -/
structure Definition.Regular (fits : BitVec 14 → Value → Prop) (library : Library)
    (settings : Settings) (d : Definition) (p : Program) (scope : Scope) : Prop where
  compiled : d.Compiled library settings p scope
  library : library.Sound fits
  fitting : Fitting fits
  parameters : ∀ q ∈ d.parameters, q.2.Simple
  returns : d.returns.Simple

namespace Definition.Regular

variable {fits : BitVec 14 → Value → Prop} {library : Library} {settings : Settings}
  {d : Definition} {p : Program} {scope : Scope} (hp : d.Regular fits library settings p scope)
  {Allowed : Watch → Statement → Machine → Prop}
  (hallowed : ∀ {o s m}, Allowed o s m → m.StoresWell fits o s)
  {waiting : DelayedBlock → Prop} {w : World} {l : List Statement} {m : Machine} {limit : Nat}

include hp

theorem everywhere : Everywhere (Supported fits (Source.lines d.source) p.slot)
    ⟨d.context library settings, scope⟩ p.body := by
  refine hp.compiled.everywhere.and (everywhere_of_place (fun _ h => h) ?_ hp.library _)
  intro q s hq
  cases s <;> exact hq

/-- A run begins in a sound state, at some place of the program, if what waits is sound. -/
theorem good_of_begins (hrest : Resting fits (p.Owns fits (Source.lines d.source)) waiting w)
    (hbegins : p.Begins waiting w l m) :
    ∃ place, p.GoodAt fits (Source.lines d.source) (m.watch waiting) ⟨place, l, m⟩ := by
  cases hbegins with
  | body hlive hstart =>
    refine ⟨_, hp.everywhere, Program.start_agrees hp.compiled hstart, ?_⟩
    refine Machine.sound_watch hrest (Program.start_keeps hstart) ?_
    refine Program.start_suits hp.fitting ?_ (hp.compiled.returns ▸ hp.returns) hlive hstart
    intro q hq
    rw [hp.compiled.parameters] at hq
    obtain ⟨parameter, hmem, rfl⟩ := List.mem_map.mp hq
    exact hp.parameters parameter hmem
  | @block b q hwaits =>
    obtain ⟨place, hall, hagrees⟩ := hrest.own hwaits
    refine ⟨place, hall, hagrees, ?_⟩
    exact Machine.sound_watch hrest (.refl _) fun key var hholds => hrest.suits hwaits hholds

include hallowed

/-- What waits in a session is sound. -/
theorem resting (hsession : p.Session Allowed waiting w) :
    Resting fits (p.Owns fits (Source.lines d.source)) waiting w := by
  induction hsession with
  | new w => exact ⟨False.elim, fun h => h.elim⟩
  | ran _ hbegins hsafe hrun ih =>
    obtain ⟨place, hgood⟩ := hp.good_of_begins ih hbegins
    have hstores := (hsafe place).mono fun _ _ h => hallowed h
    exact ((p.kept fits hp.fitting _ _).runAll hgood.everywhere hgood.agrees hgood.inv hstores
      hrun).resting
  | meanwhile _ hstill hcells ih =>
    refine ⟨fun h => ih.own (hstill _ h), ?_⟩
    intro b key var hwaits hholds
    obtain ⟨hlive, helements⟩ := hcells b key var hwaits hholds
    have hsuits := ih.suits (hstill b hwaits) hholds
    refine ⟨hsuits.shape, hsuits.plain, hlive, ?_⟩
    rw [helements]
    exact hsuits.elements

/-- Every run of a session begins in a sound state. -/
theorem good (hsession : p.Session Allowed waiting w) (hbegins : p.Begins waiting w l m) :
    ∃ place, p.GoodAt fits (Source.lines d.source) (m.watch waiting) ⟨place, l, m⟩ :=
  hp.good_of_begins (hp.resting hallowed hsession) hbegins

/-- All points of a run of a session are sound. -/
theorem good_of_leads (hsession : p.Session Allowed waiting w) (hbegins : p.Begins waiting w l m)
    (hsafe : ∀ place, SafeFrom (Allowed (m.watch waiting)) limit ⟨place, l, m⟩) {place : Place}
    {Q : Point} (hleads : Point.Leads limit ⟨place, l, m⟩ Q) :
    ∃ q, p.GoodAt fits (Source.lines d.source) (m.watch waiting) ⟨q, Q.rest, Q.machine⟩ := by
  obtain ⟨place', hgood⟩ := hp.good hallowed hsession hbegins
  obtain ⟨q, hleads'⟩ := Point.leads_elsewhere place' hleads
  have hstores := (hsafe place').mono fun _ _ h => hallowed h
  exact ⟨q, (p.kept fits hp.fitting _ _).leads hgood hstores hleads'⟩

/-- The state at the end of a run of a session is sound. -/
theorem sound_of_runAll (hsession : p.Session Allowed waiting w) (hbegins : p.Begins waiting w l m)
    (hsafe : ∀ place, SafeFrom (Allowed (m.watch waiting)) limit ⟨place, l, m⟩) {signal : Signal}
    {m' : Machine} (hrun : Statement.runAll limit l m = some (signal, m')) :
    m'.Sound fits (p.Owns fits (Source.lines d.source)) (m.watch waiting) := by
  obtain ⟨place, hgood⟩ := hp.good hallowed hsession hbegins
  have hstores := (hsafe place).mono fun _ _ h => hallowed h
  exact (p.kept fits hp.fitting _ _).runAll hgood.everywhere hgood.agrees hgood.inv hstores hrun

end Definition.Regular

end WorldScript
