import WorldScript.Compile.Basic
import WorldScript.Proofs.Compile.Place
import WorldScript.Proofs.Statement.Forms

/-! # Statements with a key

In `additem name[key] item` and `setitem name[key] = item` the key ends at the first closing
bracket, other than at its start, after which the line goes on as it does after a key: with a blank,
or with an equals sign. What the bracket closes is not looked at. So the key is cut too early if a
bracket of this sort stands inside of it, be it the end of an index or a part of a text; what is
left of the key is never an expression, and the line is refused. Every other key is taken as it was
written.

* `LineForm.exists_cutBefore`: the first place of a form.
* `Keyed.Splits`: the keys that are cut too early.
* `Keyed.compileNext_line`: what becomes of a line with a key. -/

namespace WorldScript

namespace LineForm

/-- A text with a rest of the given form is cut, no later than before this rest. -/
theorem exists_cutBefore {form : List Char → Option (List Char)} {a b : List Char} (ha : a ≠ [])
    (hb : (form b).isSome = true) :
    ∃ a' b' v, a ++ b = a' ++ b' ∧ a' ≠ [] ∧ a'.length ≤ a.length ∧ form b' = some v ∧
      cutBefore form (a ++ b) = (a', some v) := by
  induction a with
  | nil => exact absurd rfl ha
  | cons c a ih =>
    cases hrest : form (a ++ b) with
    | some v => exact ⟨[c], a ++ b, v, rfl, by simp, by simp, hrest, by simp [cutBefore, hrest]⟩
    | none =>
      have hne : a ≠ [] := by
        rintro rfl
        rw [List.nil_append] at hrest
        simp [hrest] at hb
      obtain ⟨a', b', v, hab, ha', hlength, hv, hcut⟩ := ih hne
      refine ⟨c :: a', b', v, by simp [hab], by simp, by simpa using hlength, hv, ?_⟩
      simp [cutBefore, hrest, hcut]

end LineForm

/-- The statements with a key. -/
inductive Keyed
  /-- `additem name[key] item` -/
  | add
  /-- `setitem name[key] = item` -/
  | set

namespace Keyed

open Text LineForm

/-- The line with the name, the key and the item that are put in it. -/
def line (name key item : String) : Keyed → String
  | add => "additem " ++ name ++ "[" ++ key ++ "] " ++ item
  | set => "setitem " ++ name ++ "[" ++ key ++ "] = " ++ item

/-- The form of the line when it is cut into these pieces. -/
def form (name key item : List Char) : Keyed → LineForm
  | add => .addItem name (some key) item
  | set => .setItem name key item

/-- The change that the line stands for. -/
def change (key item : Checked) : Keyed → Change
  | add => .addKeyed key item
  | set => .set key item

/-- The shapes of the variables that can be changed in this way. -/
def shapes : Keyed → List Ty
  | add => [.groups]
  | set => [.dictionary, .collection]

/-- The keys of a shape: numbers for a collection, otherwise texts. -/
def keyType (shape : Ty) : Ty := if shape = .collection then .number else .text

/-- The text goes on as a line does after a key. -/
def goesOn (s : List Char) : Keyed → Bool
  | add => s.head?.any isBlank
  | set => (trimLeft s).head? == some '='

/-- Inside of the key, a bracket is closed and the text goes on as after a key. -/
def Splits (kind : Keyed) (key : List Char) : Prop :=
  ∃ a b, a ≠ [] ∧ key = a ++ ']' :: b ∧ kind.goesOn b = true

/-- It is enough to look at every place of the key. -/
theorem splits_iff (kind : Keyed) (key : List Char) :
    kind.Splits key ↔ ∃ i ∈ List.range key.length,
      i ≠ 0 ∧ key[i]? = some ']' ∧ kind.goesOn (key.drop (i + 1)) = true := by
  constructor
  · rintro ⟨a, b, ha, rfl, hgoes⟩
    refine ⟨a.length, by simp, by simpa using ha, by simp, ?_⟩
    rw [← List.drop_drop, List.drop_left]
    exact hgoes
  · rintro ⟨i, hi, hpos, hbracket, hgoes⟩
    have hlt := List.mem_range.mp hi
    refine ⟨key.take i, key.drop (i + 1), ?_, ?_, hgoes⟩
    · intro hnil
      have hlength := congrArg List.length hnil
      rw [List.length_take, List.length_nil] at hlength
      omega
    · obtain ⟨_, hget⟩ := List.getElem?_eq_some_iff.mp hbracket
      rw [← hget, List.getElem_cons_drop, List.take_append_drop]

instance (kind : Keyed) (key : List Char) : Decidable (kind.Splits key) :=
  decidable_of_iff' _ (splits_iff kind key)

/-- How the item after a key is read. -/
def after? : Keyed → List Char → Option (List Char)
  | add => operand?
  | set => afterEquals?

/-- The line after the key and its bracket. -/
def tail (item : List Char) : Keyed → List Char
  | add => ' ' :: item
  | set => ' ' :: '=' :: ' ' :: item

/-- The item that is cut out of the line. -/
def cutItem (item : List Char) : Keyed → List Char
  | add => item
  | set => ' ' :: item

variable (kind : Keyed)

/-! ### Where the key ends -/

theorem after?_tail {item : List Char} (hne : item ≠ []) (hitem : trimLeft item = item) :
    kind.after? (kind.tail item) = some (kind.cutItem item) := by
  cases kind with
  | add => exact operand?_value hne hitem
  | set => rfl

/-- In a text that does not end with a blank, what follows decides nothing. -/
theorem isSome_after? {b : List Char} (hb : b ≠ [] → trimLeft b ≠ []) (u : List Char) :
    (kind.after? (b ++ ']' :: u)).isSome = kind.goesOn b := by
  cases b with
  | nil => cases kind <;> rfl
  | cons c b =>
    have hne := hb (by simp)
    have htrim := trimLeft_append_of_ne_nil hne (']' :: u)
    obtain ⟨d, r, hd⟩ := List.exists_cons_of_ne_nil hne
    cases kind with
    | add =>
      simp only [after?, operand?, afterBlanks?, List.cons_append, goesOn, List.head?_cons,
        Option.any_some]
      split
      · rename_i hblank
        rw [← List.cons_append, htrim, hd]
        simp [nonempty?, hblank]
      · rename_i hblank
        simpa using hblank
    | set =>
      rw [after?, afterEquals?, goesOn, htrim, hd, List.cons_append, List.head?_cons]
      split
      · rename_i heq
        cases heq
        simp [nonempty?]
      · rename_i hother
        have hd' : d ≠ '=' := by
          rintro rfl
          exact hother _ rfl
        simp [hd']

variable {key item : List Char}

/-- A key without a bracket of this sort is taken as a whole. -/
theorem cutBefore_of_not_splits (hkey : trim key = key) (hne : key ≠ []) (hitem : item ≠ [])
    (hstart : trimLeft item = item) (hsplits : ¬ kind.Splits key) :
    cutBefore (afterBracket? kind.after?) (key ++ ']' :: kind.tail item) =
      (key, some (kind.cutItem item)) := by
  refine cutBefore_append hne (kind.after?_tail hitem hstart) fun a b hab ha hb => ?_
  cases b with
  | nil => exact absurd rfl hb
  | cons c b =>
    by_cases hc : c = ']'
    · subst hc
      have hend : b ≠ [] → trimLeft b ≠ [] := by
        refine trimLeft_ne_nil_of_trim (s := key) (a := a ++ [']']) ?_
        rw [hkey, hab]
        simp
      have hsome := kind.isSome_after? hend (kind.tail item)
      have hgoes : kind.goesOn b = false := by
        rw [Bool.eq_false_iff]
        exact fun hgoes => hsplits ⟨a, b, ha, hab, hgoes⟩
      rw [hgoes, Option.isSome_eq_false_iff, Option.isNone_iff_eq_none] at hsome
      exact hsome
    · unfold afterBracket?
      split
      · rename_i heq
        exact absurd (List.cons.inj heq).1 hc
      · rfl

/-- A key with such a bracket is cut at a bracket inside of it. -/
theorem cutBefore_of_splits (hkey : trim key = key) (hsplits : kind.Splits key) (u : List Char) :
    ∃ a b v, a ≠ [] ∧ key = a ++ ']' :: b ∧
      cutBefore (afterBracket? kind.after?) (key ++ ']' :: u) = (a, some v) := by
  obtain ⟨a, b, ha, hab, hgoes⟩ := hsplits
  have hend : b ≠ [] → trimLeft b ≠ [] := by
    refine trimLeft_ne_nil_of_trim (s := key) (a := a ++ [']']) ?_
    rw [hkey, hab]
    simp
  have hsome : (afterBracket? kind.after? (']' :: (b ++ ']' :: u))).isSome = true :=
    (kind.isSome_after? hend u).trans hgoes
  obtain ⟨a', b', v, heq, ha', hlength, hv, hcut⟩ := exists_cutBefore ha hsome
  have hall : key ++ ']' :: u = a ++ ']' :: (b ++ ']' :: u) := by
    rw [hab]
    simp
  rw [← hall] at heq hcut
  -- the cut is no later than the bracket, so it is inside of the key
  rcases List.append_eq_append_iff.mp heq with ⟨t, rfl, -⟩ | ⟨t, rfl, ht⟩
  · rw [List.length_append, hab, List.length_append, List.length_cons] at hlength
    omega
  · cases t with
    | nil =>
      rw [List.append_nil] at hab
      rw [hab, List.length_append, List.length_cons] at hlength
      omega
    | cons c t =>
      have hc : c = ']' := by
        rw [ht] at hv
        unfold afterBracket? at hv
        split at hv
        · rename_i hbracket
          exact (List.cons.inj hbracket).1
        · cases hv
      exact ⟨a', t, v, ha', by rw [hc], hcut⟩

/-! ### The line -/

section Line

variable {name : String} (hname : Name.isValid name = true) {s a c : List Char}

theorem afterKey?_of_cutBefore (h : cutBefore (afterBracket? kind.after?) s = (a, some c)) :
    afterKey? kind.after? ('[' :: s) = some (a, c) := by
  have hopen : trimLeft ('[' :: s) = '[' :: s := rfl
  simp only [afterKey?, hopen, h]

include hname

theorem addItem?_line (h : afterKey? add.after? ('[' :: s) = some (a, c)) :
    addItem? ("additem ".toList ++ (name.toList ++ '[' :: s)) =
      some (.addItem name.toList (some a) c) := by
  have hword : afterKeyword? "additem" ("additem ".toList ++ (name.toList ++ '[' :: s)) =
      some (trimLeft (name.toList ++ '[' :: s)) := rfl
  rw [trimLeft_name hname] at hword
  unfold after? at h
  simp only [addItem?, hword, Option.bind_eq_bind, Option.bind_some,
    target?_name hname (show isNameChar '[' = false by decide), h]

theorem setItem?_line (h : afterKey? set.after? ('[' :: s) = some (a, c)) :
    setItem? ("setitem ".toList ++ (name.toList ++ '[' :: s)) =
      some (.setItem name.toList a c) := by
  have hword : afterKeyword? "setitem" ("setitem ".toList ++ (name.toList ++ '[' :: s)) =
      some (trimLeft (name.toList ++ '[' :: s)) := rfl
  rw [trimLeft_name hname] at hword
  unfold after? at h
  simp only [setItem?, hword, Option.bind_eq_bind, Option.bind_some,
    target?_name hname (show isNameChar '[' = false by decide), h]
  rfl

/-- The form of a line, given where its key is cut. -/
theorem read?_line {k v : String}
    (h : cutBefore (afterBracket? kind.after?) (k.toList ++ ']' :: kind.tail v.toList) =
      (a, some c)) :
    read? (kind.line name k v).toList = some (kind.form name.toList a c) := by
  have hkey := kind.afterKey?_of_cutBefore h
  cases kind
  all_goals simp only [line, String.toList_append, List.append_assoc]
  case add => exact (FirstBy.of_take 10 rfl rfl (addItem?_line hname hkey)).read?
  case set => exact (FirstBy.of_take 15 rfl rfl (setItem?_line hname hkey)).read?

end Line

/-! ### The statement -/

section Statement

variable {scope : Scope} {name : String} {type shape : Ty} (htype : scope.lookup name = some type)
  (hshape : type.structural = shape)

theorem stripAt_structural (n : Nat) (hshape : type.structural = shape) :
    stripAt n type.unmarked shape = .ok type.base := by
  have hstrip : type.unmarked.strip shape = .ok type.base := by
    subst hshape
    exact Ty.strip_of_structural_eq rfl
  simp only [stripAt, hstrip]

include htype hshape

theorem target_of_lookup (n : Nat) {shapes : List Ty} (hmem : shape ∈ shapes) (wanted : String) :
    Leaf.target scope n shapes wanted name = .ok type.unmarked := by
  have hcontains : shapes.contains type.unmarked.structural = true := by
    rw [List.contains_iff_mem]
    exact hshape ▸ hmem
  simp only [Leaf.target, lookupAt, htype, bind, Except.bind, hcontains, if_true]
  rfl

/-- The statement of a line is made of its key and its item, in this order. -/
theorem compileForm_form (hkind : shape ∈ kind.shapes) (ctx : Context)
    (inner : Context → Option Next) (l : Line) (rest : List Line) (key item : List Char) :
    compileForm ctx inner scope l rest (kind.form name.toList key item) =
      Step.single scope l rest (do
        let k ← ctx.typed scope l.number .key (keyType shape) key
        let v ← ctx.typed scope l.number .item type.base item
        return .change l.number (Text.lower name) (kind.change k v)) := by
  have hstrip := stripAt_structural l.number hshape
  cases kind with
  | add =>
    have htarget : Leaf.target scope l.number [.groups] "a collection dictionary" name =
        .ok type.unmarked := target_of_lookup htype hshape l.number hkind _
    cases List.mem_singleton.mp hkind
    simp only [form, compileForm, Leaf.addItem, String.ofList_toList, htarget, hstrip, bind,
      Except.bind]
    rfl
  | set =>
    have htarget : Leaf.target scope l.number [.dictionary, .collection]
        "a dictionary or collection" name = .ok type.unmarked :=
      target_of_lookup htype hshape l.number hkind _
    have hshapes : shape = .dictionary ∨ shape = .collection := by simpa [shapes] using hkind
    rcases hshapes with rfl | rfl
    · have hcontains : type.unmarked.contains .dictionary = true := by
        have hbits := Ty.structural_eq_dictionary_iff.mp hshape
        simp [Ty.contains_dictionary_iff, Ty.unmarked, hbits]
      simp only [form, compileForm, Leaf.setItem, String.ofList_toList, htarget, hstrip, bind,
        Except.bind, hcontains, if_true]
      rfl
    · have hcontains : type.unmarked.contains .dictionary = false := by
        have hbits := Ty.structural_eq_collection_iff.mp hshape
        rw [Bool.eq_false_iff, ne_eq, Ty.contains_dictionary_iff]
        simp [Ty.unmarked, hbits]
      simp only [form, compileForm, Leaf.setItem, String.ofList_toList, htarget, hstrip, bind,
        Except.bind, hcontains, Bool.false_eq_true, if_false]
      rfl

/-- The statement at the start of some lines, given where the key of the first one is cut. -/
theorem compileNext_of_cutBefore (hname : Name.isValid name = true) (hkind : shape ∈ kind.shapes)
    {key item : String} {a c : List Char}
    (h : cutBefore (afterBracket? kind.after?) (key.toList ++ ']' :: kind.tail item.toList) =
      (a, some c)) (budget : Nat) (ctx : Context) (n : Nat) (rest : List Line) :
    compileNext budget ctx scope (⟨n, kind.line name key item⟩ :: rest) =
      Step.single scope ⟨n, kind.line name key item⟩ rest (do
        let k ← ctx.typed scope n .key (keyType shape) a
        let v ← ctx.typed scope n .item type.base c
        return .change n (Text.lower name) (kind.change k v)) := by
  have hform := kind.compileForm_form htype hshape hkind ctx
  cases budget with
  | zero => simp only [compileNext, compileLine, kind.read?_line hname h, hform]
  | succ budget => simp only [compileNext, compileLine, kind.read?_line hname h, hform]

end Statement

theorem typed_of_ofText {ctx : Context} {scope : Scope} {n : Nat} {role : Role} {expected : Ty}
    {text : List Char} {s : String} {e : Checked} (htext : trim text = s.toList)
    (he : Checked.ofText ctx.library scope s = .ok e) (hexpected : expected.accepts e.type = true) :
    ctx.typed scope n role expected text = .ok e := by
  simp only [Context.typed, Context.expression, htext, String.ofList_toList, he, bind, Except.bind,
    hexpected, if_true]
  rfl

theorem typed_of_read {ctx : Context} {scope : Scope} {n : Nat} {role : Role} {expected : Ty}
    {text : List Char} {fault : Tree.ReadError}
    (h : Tree.read (String.ofList (trim text)) = .error fault) :
    ctx.typed scope n role expected text = .error ⟨n, .expression (.read fault)⟩ := by
  simp only [Context.typed, Context.expression, Checked.ofText, h, bind, Except.bind]
  rfl

/-- **Lines with a key.** Take a variable with keys, and a key and an item that are accepted for
it. The line that is made of them becomes the change with exactly these two expressions, unless the
key splits; then it is refused, since what is cut off as the key is no expression. -/
theorem compileNext_line (budget : Nat) (ctx : Context) {scope : Scope} (name key item : String)
    {type shape : Ty} {k v : Checked} (hname : Name.isValid name = true)
    (htype : scope.lookup name = some type) (hshape : type.structural = shape)
    (hkind : shape ∈ kind.shapes) (hkey : Checked.ofText ctx.library scope key = .ok k)
    (hkeyTrim : trim key.toList = key.toList) (hkeyType : (keyType shape).accepts k.type = true)
    (hitem : Checked.ofText ctx.library scope item = .ok v)
    (hitemTrim : trim item.toList = item.toList) (hitemType : type.base.accepts v.type = true)
    (n : Nat) (rest : List Line) :
    (¬ kind.Splits key.toList →
      compileNext budget ctx scope (⟨n, kind.line name key item⟩ :: rest) =
        .ok ⟨.change n (Text.lower name) (kind.change k v), rest, scope, n⟩) ∧
    (kind.Splits key.toList → ∃ fault,
      compileNext budget ctx scope (⟨n, kind.line name key item⟩ :: rest) =
        .error ⟨n, .expression (.read fault)⟩) := by
  obtain ⟨c, r, hkeyStart, -⟩ := Checked.ofText_starts hkey hkeyTrim
  obtain ⟨c', r', hitemStart, -⟩ := Checked.ofText_starts hitem hitemTrim
  constructor
  · intro hsplits
    have hcut := kind.cutBefore_of_not_splits hkeyTrim (by simp [hkeyStart])
      (by simp [hitemStart]) (trimLeft_of_trim hitemTrim) hsplits
    have hcutItem : trim (kind.cutItem item.toList) = item.toList := by
      cases kind <;> exact hitemTrim
    rw [kind.compileNext_of_cutBefore htype hshape hname hkind hcut,
      typed_of_ofText hkeyTrim hkey hkeyType, typed_of_ofText hcutItem hitem hitemType]
    rfl
  · intro hsplits
    obtain ⟨a, b, w, ha, hab, hcut⟩ :=
      kind.cutBefore_of_splits hkeyTrim hsplits (kind.tail item.toList)
    obtain ⟨t, ht⟩ := Checked.read_of_ofText hkey
    rw [← String.ofList_toList (s := key), hab] at ht
    cases hread : Tree.read (String.ofList (trim a)) with
    | ok t' => exact absurd hread (Tree.not_read_of_closeBracket ht t')
    | error fault =>
      refine ⟨fault, ?_⟩
      rw [kind.compileNext_of_cutBefore htype hshape hname hkind hcut, typed_of_read hread]
      rfl

/-- One variable, with groups of texts. -/
def groupScope : Scope := Scope.empty.add "g" (.text ||| .groups)

/-- A bracket in a text splits the key if a blank follows it, and does no harm otherwise. -/
theorem compileNext_line_brackets :
    compileNext 0 ⟨.standard, {}, .void, false, false, false⟩ groupScope
      [⟨1, "additem g['a]b'] 'v'"⟩] =
        .ok ⟨.change 1 "g" (.addKeyed (.literal (.text "a]b")) (.literal (.text "v"))), [],
          groupScope, 1⟩ ∧
    ∃ fault, compileNext 0 ⟨.standard, {}, .void, false, false, false⟩ groupScope
      [⟨1, "additem g['a] b'] 'v'"⟩] = .error ⟨1, .expression (.read fault)⟩ := by
  have htype : groupScope.lookup "g" = some (.text ||| .groups) := Scope.lookup_add_self _ _ _
  exact ⟨(compileNext_line add 0 _ "g" "'a]b'" "'v'" (by decide) htype rfl (by decide) rfl
      (by decide) (by decide) rfl (by decide) (by decide) 1 []).1 (by decide),
    (compileNext_line add 0 _ "g" "'a] b'" "'v'" (by decide) htype rfl (by decide) rfl
      (by decide) (by decide) rfl (by decide) (by decide) 1 []).2 (by decide)⟩

end Keyed

end WorldScript
