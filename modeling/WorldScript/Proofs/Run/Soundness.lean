import WorldScript.Proofs.Run.Faults
import WorldScript.Proofs.Run.Suits

/-! # Runs keep values that suit their types

Every statement keeps the values of all variables suited to their types, if it stores well. A loop
over the items of a collection has read the items before its first round, so what is done to the
collection meanwhile does not matter.

* `kept_sound`: the invariant is kept by all statements that store well, hence by runs. -/

namespace WorldScript

open Space (Agrees)

/-- A block that belongs to the program: its statements are of the given sort, and it has the
variables of its scope. -/
def DelayedBlock.Belongs (P : Place → Statement → Prop) (slot : Option Ty) (b : DelayedBlock) :
    Prop := ∃ q, Everywhere P q b.body ∧ Agrees slot q.scope b.vars

/-- The items that are left to a loop fit the kinds of its variable. -/
def Statement.ItemsFit (fits : BitVec 14 → Value → Prop) : Statement → Stage → Prop
  | forEach _ _ element _ _, .items items => element.shape = 0 ∧ ∀ x ∈ items, fits element.kinds x
  | _, _ => True

namespace Statement

variable {fits : BitVec 14 → Value → Prop} (hf : Fitting fits) {Own : DelayedBlock → Prop}
  {o : Watch} {slot : Option Ty} {p : Place} (hlib : p.context.library.Sound fits) {s : Statement}
  {m m' : Machine} {stage : Stage} (hs : s.WellPlaced p) (hagrees : Agrees slot p.scope m.vars)
  (hm : m.Sound fits Own o)

include hf hlib

theorem Chooses.sound {otherwise : Option (List Statement)} {l : List Section} {turn : Turn}
    (h : Chooses stage otherwise l m turn)
    (htests : ∀ test ∈ l.map Section.test, test.Typed p.context.library p.scope)
    (hagrees : Agrees slot p.scope m.vars) (hm : m.Sound fits Own o) :
    (Turn.machine turn).Sound fits Own o := by
  induction h with
  | fails heval => exact (hm.eval hf hlib hagrees (htests _ List.mem_cons_self) heval).1.sound
  | refuses heval => exact (hm.eval hf hlib hagrees (htests _ List.mem_cons_self) heval).1.sound
  | takes heval => exact (hm.eval hf hlib hagrees (htests _ List.mem_cons_self) heval).1.sound
  | skips heval _ ih =>
    have h₁ := (hm.eval hf hlib hagrees (htests _ List.mem_cons_self) heval).1
    refine ih (fun test htest => htests test (List.mem_cons_of_mem _ htest)) ?_ h₁.sound
    rw [h₁.vars]
    exact hagrees
  | left => exact hm
  | nothing => exact hm

include hs hagrees hm

/-- A turn keeps the invariant, up to the block that it runs. -/
theorem turn_sound (stage : Stage) : (Turn.machine (s.turn stage m)).Sound fits Own o := by
  have hturn := s.turnsTo_turn stage m
  generalize s.turn stage m = turn at hturn
  cases hturn with
  | choice hchooses => exact hchooses.sound hf hlib (s.tests_eq ▸ hs.tests_typed) hagrees hm
  | _ => exact hm

/-- The beginning of a statement keeps the invariant, if the statement stores well. -/
theorem start_sound (hserves : p.Serves slot) (hstores : m.StoresWell fits o s)
    (hown : ∀ line duration body, s = .delay line duration body → Own (m.suspend body))
    {ending : Ending} (hstart : s.start m = .ended ending) : ending.2.Sound fits Own o := by
  cases s with
  | declare line name type initial =>
    cases hstart
    exact hm.declare hf hlib hagrees hs.2.2.1 hs.2.2.2
  | assign line name value =>
    cases hstart
    obtain ⟨type, hlookup, hvalue⟩ := hs
    exact hm.assign hf hlib hagrees hlookup hvalue
  | compound line name op value =>
    cases hstart
    obtain ⟨type, hlookup, hvalue, htakes⟩ := hs
    exact hm.compound hf hlib hagrees hlookup hvalue htakes hstores
  | returnWith line value =>
    cases hstart
    exact hm.returnWith hf hlib hagrees hserves hs
  | change line name c =>
    cases hstart
    obtain ⟨type, hlookup, hc⟩ := hs
    exact hm.change hf hlib hagrees hlookup hc hstores
  | call line e =>
    cases hstart
    exact hm.withValue hf hlib hagrees hs fun _ _ _ h₁ _ => h₁.sound
  | delay line duration body =>
    cases hstart
    exact hm.delayBlock hf hlib hagrees hs.1 (hown line duration body rfl)
  | breakOut =>
    cases hstart
    exact hm
  | continueOn =>
    cases hstart
    exact hm
  | ifChain line arms otherwise => cases hstart
  | whileLoop line test body => cases hstart
  | forCount line name count body =>
    simp only [start] at hstart
    split at hstart
    · cases hstart
    all_goals
      rename_i heval
      cases hstart
      exact (hm.eval hf hlib hagrees hs.2.1 heval).1.sound
  | forEach line name element items body =>
    simp only [start] at hstart
    split at hstart
    · cases hstart
    all_goals
      rename_i heval
      cases hstart
      exact (hm.eval hf hlib hagrees hs.2.1 heval).1.sound
  | switch line value cases otherwise =>
    simp only [start] at hstart
    split at hstart
    · cases hstart
    · rename_i heval
      cases hstart
      exact (hm.eval hf hlib hagrees hs.1 heval).1.sound

/-- A statement that goes on to its turns keeps the invariant, and the items of a loop fit. -/
theorem begun_sound {stage : Stage} (hstart : s.start m = .turns stage m') :
    m'.Sound fits Own o ∧ s.ItemsFit fits stage := by
  cases s with
  | ifChain line arms otherwise =>
    cases hstart
    exact ⟨hm, trivial⟩
  | whileLoop line test body =>
    cases hstart
    exact ⟨hm, trivial⟩
  | forCount line name count body =>
    simp only [start] at hstart
    split at hstart
    · rename_i heval
      cases hstart
      exact ⟨(hm.eval hf hlib hagrees hs.2.1 heval).1.sound, trivial⟩
    · cases hstart
    · cases hstart
  | forEach line name element items body =>
    obtain ⟨-, hitems, hcontains, rfl⟩ := hs
    simp only [start] at hstart
    split at hstart
    · rename_i c m' heval
      cases hstart
      obtain ⟨h₁, hv⟩ := hm.eval hf hlib hagrees hitems heval
      have hsuits := hv _ rfl
      refine ⟨h₁.sound, ?_, ?_⟩
      · show items.type.shape ^^^ 1 = 0
        rw [← hsuits.shape, Value.shape]
        decide
      · intro x hx
        have hkinds : (items.plainType ^^^ .collection).kinds = items.type.kinds := by
          simp [Checked.plainType, Ty.unmarked, Ty.collection]
        rw [hkinds]
        exact hsuits.elements x hx
    · cases hstart
    · cases hstart
  | switch line value cases otherwise =>
    simp only [start] at hstart
    split at hstart
    · rename_i heval
      cases hstart
      exact ⟨(hm.eval hf hlib hagrees hs.1 heval).1.sound, trivial⟩
    · cases hstart
  | _ => cases hstart

omit hs hagrees hm hlib in
/-- The variable that the block of a turn begins with has a value that suits its type, and the items
that are left fit. -/
theorem block_suits {e : Entry} {stage' : Stage} (hready : s.ItemsFit fits stage)
    (hturn : s.turn stage m = .block e stage' m') :
    s.ItemsFit fits stage' ∧
      ∀ h name type v, e.binding = some (name, type, v) → Suits fits h type v := by
  have hturns := s.turnsTo_turn stage m
  rw [hturn] at hturns
  cases hturns with
  | choice hchooses =>
    obtain ⟨hbinding, rfl, -⟩ := hchooses.block
    refine ⟨hready, fun h name type v hsome => ?_⟩
    rw [hbinding] at hsome
    cases hsome
  | number =>
    refine ⟨trivial, ?_⟩
    rintro h name type v ⟨⟩
    exact hf.suits_number _
  | item =>
    obtain ⟨hshape, hfits⟩ := hready
    refine ⟨⟨hshape, fun x hx => hfits x (List.mem_cons_of_mem _ hx)⟩, ?_⟩
    rintro h name type v ⟨⟩
    exact hf.suits_plain hshape (hfits _ List.mem_cons_self)

end Statement

/-- All statements of the given sort that store well keep the invariant. -/
theorem kept_sound {fits : BitVec 14 → Value → Prop} (hf : Fitting fits)
    {P : Place → Statement → Prop} {slot : Option Ty}
    (hP : ∀ {p s}, P p s → s.WellPlaced p ∧ p.Serves slot ∧ p.context.library.Sound fits)
    (o : Watch) :
    Kept P slot (fun s m => m.StoresWell fits o s) (Statement.ItemsFit fits)
      (Machine.Sound fits (DelayedBlock.Belongs P slot) o) where
  placed h := (hP h).1
  ended := by
    intro p s rest m signal m' hall hagrees hm hstores hstart
    obtain ⟨hs, hserves, hlib⟩ := hP hall.head
    refine Statement.start_sound hf hlib hs hagrees hm hserves hstores ?_ hstart
    rintro line duration body rfl
    exact ⟨_, hall.block (List.mem_singleton_self _), hagrees.snapshot⟩
  begun := by
    intro p s m stage m' h hagrees hm hstart
    obtain ⟨hs, -, hlib⟩ := hP h
    exact Statement.begun_sound hf hlib hs hagrees hm hstart
  last := by
    intro p s m stage signal m' h hagrees hm _ hturn
    obtain ⟨hs, -, hlib⟩ := hP h
    have hsound := Statement.turn_sound hf hlib hs hagrees hm stage
    rw [hturn] at hsound
    exact hsound
  block := by
    intro p s m stage e stage' m' h hagrees hm hready hturn
    obtain ⟨hs, -, hlib⟩ := hP h
    have hsound := Statement.turn_sound hf hlib hs hagrees hm stage
    rw [hturn] at hsound
    obtain ⟨hready', hbinding⟩ := Statement.block_suits hf hready hturn
    exact ⟨hsound, hready', fun inside hopen => hsound.open? (hbinding _) hopen⟩
  pop hm := hm.pop

end WorldScript
