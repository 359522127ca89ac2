import WorldScript.Proofs.Program.Session
import WorldScript.Proofs.Run.Faults

/-! # Structures hold plain values only

The types of a program speak of one shape at most, and so do its values: a structure never comes to
be an element of another one. The value of a variable has the shape of its type, so that statements
which need a collection always find one, and no comparison of elements looks into a cell.

* `Program.cells_flat`: the statement for all states of a session. -/

namespace WorldScript

open Space (Agrees)

/-! ### Plain values fit -/

theorem plain_fitting : Fitting fun _ v => v.shape = 0 where
  plain h := h
  number _ := rfl
  text _ := rfl
  boolean _ := rfl
  entity _ := rfl
  null _ _ _ := rfl
  anyNumber _ _ := rfl
  anyText _ _ := rfl
  widen _ h := h

theorem Machine.storesWell_plain (o : Watch) (s : Statement) (m : Machine) :
    m.StoresWell (fun _ v => v.shape = 0) o s := fun _ _ _ _ _ _ _ _ _ _ hx => hx

/-- Every variable has a value of its type's shape, and all elements of structures are plain. -/
def Machine.Flat (m : Machine) : Prop :=
  ∀ key var, m.vars.Holds key var →
    var.value.shape = var.type.shape ∧ ∀ x ∈ m.world.heap.elements var.value, x.shape = 0

theorem Machine.Sound.flat {Own : DelayedBlock → Prop} {o : Watch} {m : Machine}
    (hm : m.Sound (fun _ v => v.shape = 0) Own o) : m.Flat := by
  intro key var hholds
  have hsuits := hm.suits (Or.inl hholds)
  exact ⟨hsuits.shape, hsuits.elements⟩

/-! ### Faults of shape -/

/-- The error is that a value does not have the shape it must have. -/
def RunError.IsShapeFault : RunError → Prop
  | .atLine _ (.notCollection _) => True
  | .atLine _ (.notRange _) => True
  | .atLine _ (.cannotChange _ _) => True
  | _ => False

theorem RunError.IsShapeFault.of_line {line line' : Nat} {fault : RunFault}
    (h : (RunError.atLine line fault).IsShapeFault) :
    (RunError.atLine line' fault).IsShapeFault := by
  cases fault <;> exact h

namespace Machine

variable {fits : BitVec 14 → Value → Prop} {m m' : Machine} {line : Nat} {name : String}
  {e : Checked} {p : Place}

/-- A change finds a target of the shape that it needs. -/
theorem applyChange_shaped {c : Change} {type : Ty} (hc : c.WellPlaced p type) {h : Heap}
    {target : Value} (htarget : Suits fits h type target) {vs : List Value}
    (hvs : List.Forall₂ (fun e v => Suits fits h e.type v) c.expressions vs) :
    Avoids RunError.IsShapeFault (m.applyChange line name c target vs) := by
  have hshape := htarget.shape
  have hkey {key : Value} {go : String → Machine} :
      Avoids RunError.IsShapeFault (m.require line (m.keyText key) fun k => (go k).done) :=
    avoids_require_keyText (fun _ hf => hf) fun _ => avoids_done _
  cases c with
  | add item =>
    obtain _ | ⟨hv, _ | _⟩ := hvs
    obtain ⟨cell, rfl⟩ := Value.shape_eq_one (hshape.trans hc.1)
    exact avoids_done _
  | addKeyed k item =>
    obtain _ | ⟨-, _ | ⟨hv, _ | _⟩⟩ := hvs
    obtain ⟨cell, rfl⟩ := Value.shape_eq_four (hshape.trans hc.1)
    exact hkey
  | addRange items =>
    obtain _ | ⟨hv, _ | _⟩ := hvs
    obtain ⟨cell, rfl⟩ := Value.shape_eq_one (hshape.trans hc.1)
    have hitems := Ty.shape_eq_of_accepts hc.2.2
    obtain ⟨more, rfl⟩ := Value.shape_eq_one (hv.shape.trans (hitems.symm.trans hc.1))
    exact avoids_done _
  | remove item =>
    obtain _ | ⟨hv, _ | _⟩ := hvs
    obtain ⟨cell, rfl⟩ := Value.shape_eq_one (hshape.trans hc.1)
    exact avoids_done _
  | removeAt index =>
    obtain _ | ⟨hv, _ | _⟩ := hvs
    obtain ⟨cell, rfl⟩ := Value.shape_eq_one (hshape.trans hc.1)
    refine avoids_require_place (fun _ hf => hf) (fun _ hf => hf) fun i => ?_
    exact store_cases (fun _ _ => avoids_done _) fun _ => avoids_fail fun hf => hf
  | clear =>
    rcases hc with h1 | h2 | h4
    · obtain ⟨cell, rfl⟩ := Value.shape_eq_one (hshape.trans h1)
      exact avoids_done _
    · obtain ⟨cell, rfl⟩ := Value.shape_eq_two (hshape.trans h2)
      exact avoids_done _
    · obtain ⟨cell, rfl⟩ := Value.shape_eq_four (hshape.trans h4)
      exact avoids_done _
  | set k item =>
    obtain _ | ⟨-, _ | ⟨hv, _ | _⟩⟩ := hvs
    rcases hc with hc | hc
    · obtain ⟨cell, rfl⟩ := Value.shape_eq_two (hshape.trans hc.1)
      exact hkey
    · obtain ⟨cell, rfl⟩ := Value.shape_eq_one (hshape.trans hc.1)
      exact avoids_require_place (fun _ hf => hf) (fun _ hf => hf) fun _ => avoids_done _
  | removeKey key =>
    obtain _ | ⟨hv, _ | _⟩ := hvs
    rcases hc.1 with h2 | h4
    · obtain ⟨cell, rfl⟩ := Value.shape_eq_two (hshape.trans h2)
      exact hkey
    · obtain ⟨cell, rfl⟩ := Value.shape_eq_four (hshape.trans h4)
      exact hkey

end Machine

namespace Statement

/-- The collection from which a statement removes an item, and the expression of the item. -/
def removed? : Statement → Option (String × Checked)
  | change _ name (.remove e) => some (name, e)
  | compound _ name .sub e => some (name, e)
  | _ => none

variable {fits : BitVec 14 → Value → Prop} (hf : Fitting fits) {Own : DelayedBlock → Prop}
  {o : Watch} {slot : Option Ty} {p : Place} (hlib : p.context.library.Sound fits) {s : Statement}
  {m : Machine} (hs : s.WellPlaced p) (hagrees : Agrees slot p.scope m.vars)
  (hm : m.Sound fits Own o)

include hf hlib hs hagrees hm

/-- The beginning of a statement finds values of the shapes that it needs. -/
theorem not_shapeFault_of_fails {line : Nat} {fault : RunFault} (hfails : s.Fails m fault) :
    ¬ (RunError.atLine line fault).IsShapeFault := by
  cases hfails with
  | change hvalues htarget happly =>
    obtain ⟨type, hlookup, hc⟩ := hs
    obtain ⟨h₁, hvs⟩ := hm.values hf hlib hagrees hc.typed hvalues
    have htype := hagrees.type?_of_lookup hlookup
    rw [← h₁.vars] at htype
    have hshaped := Machine.applyChange_shaped hc (h₁.sound.value? htype htarget) (hvs _ rfl) _ happly
    exact fun hf => hshaped hf.of_line
  | items heval hne =>
    -- the value has the shape of its type, which is that of a collection
    obtain ⟨-, hitems, hcontains, -⟩ := hs
    obtain ⟨-, hv⟩ := hm.eval hf hlib hagrees hitems heval
    have hsuits := (hv _ rfl).unmarked
    have hshape := hsuits.simple.contains_collection.mp hcontains
    obtain ⟨c, rfl⟩ := Value.shape_eq_one (hsuits.shape.trans hshape)
    exact absurd rfl (hne c)
  | _ => exact fun hf => hf

/-- What a statement itself signals is never a fault of shape. -/
theorem raises_shaped {limit : Nat} {signal : Signal} (hraises : s.Raises limit m signal) :
    signal.Avoids RunError.IsShapeFault := by
  refine raises_avoids (fun ending => start_avoids ?_) ?_ ?_ hraises
  · exact fun line fault => not_shapeFault_of_fails hf hlib hs hagrees hm
  · intro stage m₁ ending _ hturn
    exact turn_avoids (fun _ _ hf => hf) (fun _ _ _ _ _ _ _ _ hf => hf) hturn
  · rintro stage m₁ e stage' m₂ - - - err herr
    unfold Entry.refuse at herr
    split at herr
    · cases herr
    · cases herr
      exact fun hf => hf

/-! ### Removals -/

/-- An item that is removed from a collection is plain, and so are the items of the collection. -/
theorem removed_plain {name : String} {e : Checked} (hremoved : s.removed? = some (name, e))
    {v : Value} {m' : Machine} (heval : m.eval e = (.ok v, m')) {c : Nat}
    (hc : m'.vars.value? name = some (.collection c)) :
    ∀ x ∈ v :: m'.world.heap.lists.get c, x.shape = 0 := by
  obtain ⟨type, hlookup, he, hitem⟩ : ∃ type, p.scope.lookup name = some type ∧
      e.Typed p.context.library p.scope ∧ (type.shape = 1 → e.type.shape = 0) := by
    unfold removed? at hremoved
    split at hremoved
    · cases hremoved
      obtain ⟨type, hlookup, -, he, haccepts⟩ := hs
      exact ⟨type, hlookup, he, fun _ => (Ty.shape_eq_of_accepts haccepts).symm⟩
    · cases hremoved
      obtain ⟨type, hlookup, he, htakes⟩ := hs
      refine ⟨type, hlookup, he, fun hshape => ?_⟩
      have hcontains : type.contains .collection = true := by
        rw [Ty.contains_collection_iff, hshape]
        rfl
      rw [Ty.compoundElement, if_pos hcontains] at htakes
      have helement : type.shape ^^^ 1 = e.type.shape :=
        Ty.shape_eq_of_accepts (Option.some.inj htakes)
      rw [← helement, hshape]
      decide
    · cases hremoved
  obtain ⟨h₁, hv⟩ := hm.eval hf hlib hagrees he heval
  have htype : m'.vars.type? name = some type := by
    rw [h₁.vars]
    exact hagrees.type?_of_lookup hlookup
  have hcell := h₁.sound.value? htype hc
  intro x hx
  rcases List.mem_cons.mp hx with rfl | hx
  · exact (hv x rfl).shape.trans (hitem hcell.shape.symm)
  · exact hf.plain (hcell.elements x hx)

end Statement

/-! ### Sessions -/

variable {settings : Settings} {d : Definition} {p : Program}

/-- Removing the item from the items does not depend on any cell, nor does the text of one of
them. -/
def Heap.RemovesAlone (h : Heap) (v : Value) (items : List Value) : Prop :=
  ∀ h' : Heap, h'.eraseFirst v items = h.eraseFirst v items ∧
    ∀ x ∈ v :: items, h'.render x = h.render x

theorem Heap.removesAlone_of_plain {h : Heap} {v : Value} {items : List Value}
    (hplain : ∀ x ∈ v :: items, x.shape = 0) : h.RemovesAlone v items := by
  intro h'
  refine ⟨?_, fun x hx => render_of_plain (hplain x hx) h' h⟩
  exact eraseFirst_of_plain (fun x hx => hplain x (List.mem_cons_of_mem _ hx)) h' h v

/-- In all states of a session, variables have values of the shapes of their types and the elements
of structures are plain. Hence a removal compares its item without a look at a cell, and no run
fails because a value is not a collection, or not one that a statement can change. -/
theorem Program.cells_flat (h : d.compile .standard settings = .ok p)
    (hparameters : ∀ q ∈ d.parameters, q.2.Simple) (hreturns : d.returns.Simple)
    {waiting : DelayedBlock → Prop} {w : World}
    (hsession : p.Session (fun _ _ _ => True) waiting w) {l : List Statement} {m : Machine}
    (hbegins : p.Begins waiting w l m) (limit : Nat) :
    (∀ place Q, Point.Leads limit ⟨place, l, m⟩ Q →
      Q.machine.Flat ∧
      ∀ s rest name e v m₁ c, Q.rest = s :: rest → s.removed? = some (name, e) →
        Q.machine.eval e = (.ok v, m₁) → m₁.vars.value? name = some (.collection c) →
        m₁.world.heap.RemovesAlone v (m₁.world.heap.lists.get c)) ∧
    ∀ signal m', Statement.runAll limit l m = some (signal, m') →
      m'.Flat ∧ ∀ e, signal = .failed e → ¬ e.IsShapeFault := by
  obtain ⟨scope, hp⟩ := Definition.compiled h
  have hregular : d.Regular (fun _ v => v.shape = 0) .standard settings p scope :=
    ⟨hp, Library.standard_sound plain_fitting, plain_fitting, hparameters, hreturns⟩
  have hstores : ∀ {o s m}, True → Machine.StoresWell (fun _ v => v.shape = 0) o s m :=
    fun _ => Machine.storesWell_plain _ _ _
  have hsafe : ∀ place, SafeFrom (fun _ _ => True) limit ⟨place, l, m⟩ :=
    fun _ _ _ _ _ _ => trivial
  refine ⟨?_, ?_⟩
  · intro place Q hleads
    obtain ⟨q, hgood⟩ := hregular.good_of_leads hstores hsession hbegins hsafe hleads
    refine ⟨hgood.inv.flat, ?_⟩
    intro s rest name e v m₁ c hrest hremoved heval hc
    have hall := hgood.everywhere
    rw [hrest] at hall
    have hs := hall.head
    exact Heap.removesAlone_of_plain (Statement.removed_plain plain_fitting hs.2 hs.1.1.wellPlaced
      hgood.agrees hgood.inv hremoved heval hc)
  · intro signal m' hrun
    refine ⟨(hregular.sound_of_runAll hstores hsession hbegins hsafe hrun).flat, ?_⟩
    rintro e rfl
    obtain ⟨place, -⟩ := hregular.good hstores hsession hbegins
    obtain ⟨q, s, rest, m₁, hleads, hraises⟩ :=
      Statement.exists_raises limit l place m _ m' (fun hf => by cases hf) hrun
    obtain ⟨q', hgood⟩ := hregular.good_of_leads hstores hsession hbegins hsafe hleads
    have hs := hgood.everywhere.head
    exact Statement.raises_shaped plain_fitting hs.2 hs.1.1.wellPlaced hgood.agrees hgood.inv
      hraises e rfl

/-- A program that adds to a collection, removes from it and reads it. -/
def Definition.replaceItem : Definition where
  name := "replace"
  returns := .text ||| .collection
  parameters := [("items", .text ||| .collection)]
  source := "additem items 'b'\nremoveitem items 'a'\n" ++
    "foreach (x in @items)\nitems += @x\nend foreach\nreturn @items"

theorem Program.cells_flat_replaceItem :
    ∃ p m, Definition.replaceItem.compile .standard {} = .ok p ∧
      p.start [.collection 0] none .oneList = .ok m ∧ m.Flat ∧
      ∀ limit signal m', Statement.runAll limit p.body m = some (signal, m') →
        m'.Flat ∧ ∀ e, signal = .failed e → ¬ e.IsShapeFault := by
  have hstarts : (Definition.replaceItem.started? [.collection 0] .oneList).isSome = true := by
    decide +kernel
  obtain ⟨⟨p, m⟩, hsome⟩ := Option.isSome_iff_exists.mp hstarts
  obtain ⟨hp, hm⟩ := Definition.started?_eq_some hsome
  have hbegins : p.Begins (fun _ => False) .oneList p.body m := by
    refine .body ?_ hm
    intro v hv
    rw [List.mem_singleton.mp hv]
    exact Nat.zero_lt_one
  have hflat := cells_flat hp (by decide) (by decide) (.new .oneList) hbegins
  refine ⟨p, m, hp, hm, ?_, fun limit => (hflat limit).2⟩
  exact ((hflat 0).1 ⟨Definition.replaceItem.context .standard {}, .empty⟩ _ .refl).1

end WorldScript
