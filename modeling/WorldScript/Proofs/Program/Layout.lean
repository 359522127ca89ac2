import WorldScript.Library.Standard
import WorldScript.Proofs.Compile.Renumber

/-! # The layout of a source

Blank lines, comments, the blanks around a line and the way in which lines end make no difference to
a program: two sources whose significant lines have the same texts compile to the same tree, or are
refused with the same fault. Only the numbers of the lines differ, and they differ alike everywhere.

* `Source.Corresponds s t f`: `f` takes the number of each significant line of `s` to the number of
  the line of `t` in its place.
* `Source.Relaid`: the lines of two sources differ in layout only.
* `Definition.compile_of_same_texts`: the statement for programs. -/

namespace WorldScript

namespace Source

/-- The texts of the significant lines of a source. -/
def texts (source : String) : List String := (lines source).map (·.text)

/-- The numbers of the significant lines of a source. -/
def numbers (source : String) : List Nat := (lines source).map (·.number)

/-- The function takes the number of each significant line of the first source to the number of the
line of the second source that stands in its place, and `0` to `0`. -/
def Corresponds (s t : String) (f : Nat → Nat) : Prop := f 0 = 0 ∧ (numbers s).map f = numbers t

/-! ### Numbers of lines -/

theorem le_number_of_mem_significant {raw : List (List Char)} {n : Nat} {l : Line}
    (h : l ∈ significant n raw) : n ≤ l.number := by
  induction raw generalizing n with
  | nil => cases h
  | cons line rest ih =>
    rw [significant] at h
    split at h
    · exact Nat.le_of_succ_le (ih h)
    · rcases List.mem_cons.mp h with rfl | h
      · exact Nat.le_refl n
      · exact Nat.le_of_succ_le (ih h)

theorem nodup_significant (raw : List (List Char)) (n : Nat) :
    ((significant n raw).map (·.number)).Nodup := by
  induction raw generalizing n with
  | nil => exact List.nodup_nil
  | cons line rest ih =>
    rw [significant]
    split
    · exact ih (n + 1)
    · refine List.nodup_cons.mpr ⟨?_, ih (n + 1)⟩
      intro hmem
      obtain ⟨l, hl, hnumber⟩ := List.mem_map.mp hmem
      have hle : n + 1 ≤ l.number := le_number_of_mem_significant hl
      have hnumber' : l.number = n := hnumber
      omega

/-- No significant line has the number `0`. -/
theorem zero_not_mem_numbers (s : String) : 0 ∉ numbers s := by
  intro hmem
  obtain ⟨l, hl, hnumber⟩ := List.mem_map.mp hmem
  have hle : 1 ≤ l.number := le_number_of_mem_significant hl
  have hnumber' : l.number = 0 := hnumber
  omega

/-- Distinct numbers other than `0` can be taken to any others, with `0` left alone. -/
theorem exists_map_eq {a b : List Nat} (hnodup : a.Nodup) (hzero : 0 ∉ a)
    (hlength : a.length = b.length) : ∃ f : Nat → Nat, f 0 = 0 ∧ a.map f = b := by
  induction a generalizing b with
  | nil =>
    refine ⟨id, rfl, ?_⟩
    rw [List.eq_nil_of_length_eq_zero hlength.symm]
    rfl
  | cons x a ih =>
    cases b with
    | nil => cases hlength
    | cons y b =>
      obtain ⟨hx, hnodup⟩ := List.nodup_cons.mp hnodup
      obtain ⟨f, hf0, hf⟩ := ih hnodup (fun h => hzero (List.mem_cons_of_mem _ h))
        (Nat.succ.inj hlength)
      refine ⟨fun n => if n = x then y else f n, ?_, ?_⟩
      · have hne : 0 ≠ x := fun h => hzero (h ▸ List.mem_cons_self)
        exact (if_neg hne).trans hf0
      · rw [List.map_cons, if_pos rfl, ← hf]
        congr 1
        refine List.map_congr_left fun n hn => ?_
        have hne : n ≠ x := fun h => hx (h ▸ hn)
        exact if_neg hne

theorem exists_corresponds {s t : String} (h : texts s = texts t) : ∃ f, Corresponds s t f := by
  refine exists_map_eq (nodup_significant _ 1) (zero_not_mem_numbers s) ?_
  have hlength := congrArg List.length h
  simpa only [texts, numbers, List.length_map] using hlength

/-- Lines are given by their numbers and their texts. -/
theorem lines_ext {a b : List Line} (hnumbers : a.map (·.number) = b.map (·.number))
    (htexts : a.map (·.text) = b.map (·.text)) : a = b := by
  induction a generalizing b with
  | nil => exact (List.map_eq_nil_iff.mp hnumbers.symm).symm
  | cons x a ih =>
    cases b with
    | nil => cases hnumbers
    | cons y b =>
      obtain ⟨n, s⟩ := x
      obtain ⟨n', s'⟩ := y
      obtain ⟨hn, hnumbers⟩ := List.cons.inj hnumbers
      obtain ⟨hs, htexts⟩ := List.cons.inj htexts
      rw [ih hnumbers htexts]
      congr

theorem lines_renumber {s t : String} {f : Nat → Nat} (h : texts s = texts t)
    (hf : Corresponds s t f) : (lines s).map (Line.renumber f) = lines t := by
  refine lines_ext ?_ ?_
  · rw [List.map_map]
    exact (List.map_map.symm.trans hf.2 :)
  · rw [List.map_map]
    exact h

/-! ### Edits of the layout -/

/-- The lines of two sources differ in layout only: lines that are blank or comments are left out
of either, and the others differ in the blanks around them. -/
inductive Relaid : List (List Char) → List (List Char) → Prop
  | nil : Relaid [] []
  | keep {a b : List Char} {s t : List (List Char)} :
    Text.trim a = Text.trim b → Relaid s t → Relaid (a :: s) (b :: t)
  | left {a : List Char} {s t : List (List Char)} :
    isIgnorable a = true → Relaid s t → Relaid (a :: s) t
  | right {b : List Char} {s t : List (List Char)} :
    isIgnorable b = true → Relaid s t → Relaid s (b :: t)

theorem isIgnorable_congr {a b : List Char} (h : Text.trim a = Text.trim b) :
    isIgnorable a = isIgnorable b := by
  unfold isIgnorable
  rw [h]

theorem Relaid.texts {s t : List (List Char)} (h : Relaid s t) (n k : Nat) :
    (significant n s).map (·.text) = (significant k t).map (·.text) := by
  induction h generalizing n k with
  | nil => rfl
  | keep htrim _ ih =>
    rw [significant, significant, isIgnorable_congr htrim]
    split
    · exact ih (n + 1) (k + 1)
    · rw [List.map_cons, List.map_cons, ih (n + 1) (k + 1), htrim]
  | left ha _ ih =>
    rw [significant, if_pos ha]
    exact ih (n + 1) k
  | right hb _ ih =>
    rw [significant, if_pos hb]
    exact ih n (k + 1)

theorem Relaid.refl (s : List (List Char)) : Relaid s s := by
  induction s with
  | nil => exact .nil
  | cons a s ih => exact .keep rfl ih

/-- Lines that are changed one by one, but not what is inside of the blanks around them. -/
theorem relaid_map {g g' : List Char → List Char} (h : ∀ l, Text.trim (g l) = Text.trim (g' l))
    (s rest : List (List Char)) : Relaid (s.map g ++ rest) (s.map g' ++ rest) := by
  induction s with
  | nil => exact .refl rest
  | cons a s ih => exact .keep (h a) ih

end Source

/-! ### Line endings -/

namespace Text

theorem splitLines_newline (s : List Char) : splitLines ('\n' :: s) = [] :: splitLines s := rfl

theorem splitLines_cons {c : Char} (hc : c ≠ '\n') {s l : List Char} {ls : List (List Char)}
    (h : splitLines s = l :: ls) : splitLines (c :: s) = (c :: l) :: ls := by
  simp only [splitLines, List.foldr_cons, List.cons.injEq] at h ⊢
  simp only [lineStep, if_neg hc, h.1, h.2, and_self]

theorem exists_splitLines (s : List Char) : ∃ ended last, splitLines s = ended ++ [last] := by
  have hne : splitLines s ≠ [] := List.cons_ne_nil _ _
  exact ⟨_, _, (List.dropLast_concat_getLast hne).symm⟩

/-- A carriage return before every line feed. -/
def addReturns (s : List Char) : List Char :=
  s.flatMap fun c => if c = '\n' then ['\r', '\n'] else [c]

/-- All lines but the last get a carriage return. -/
theorem splitLines_addReturns (s : List Char) : ∃ ended last,
    splitLines s = ended ++ [last] ∧
      splitLines (addReturns s) = ended.map (· ++ ['\r']) ++ [last] := by
  induction s with
  | nil => exact ⟨[], [], rfl, rfl⟩
  | cons c s ih =>
    obtain ⟨ended, last, hs, hreturns⟩ := ih
    by_cases hc : c = '\n'
    · subst hc
      refine ⟨[] :: ended, last, ?_, ?_⟩
      · rw [splitLines_newline, hs]
        rfl
      · have hnew : addReturns ('\n' :: s) = '\r' :: '\n' :: addReturns s := rfl
        rw [hnew, splitLines_cons (by decide) (splitLines_newline _), hreturns]
        rfl
    · have hnew : addReturns (c :: s) = c :: addReturns s := by
        simp only [addReturns, List.flatMap_cons, if_neg hc, List.cons_append, List.nil_append]
      rw [hnew]
      cases ended with
      | nil => exact ⟨[], c :: last, splitLines_cons hc hs, splitLines_cons hc hreturns⟩
      | cons l ended =>
        exact ⟨(c :: l) :: ended, last, splitLines_cons hc hs, splitLines_cons hc hreturns⟩

theorem lines_eq {s last : List Char} {ended : List (List Char)}
    (h : splitLines s = ended ++ [last]) :
    lines s = ended.map dropReturn ++ if last.isEmpty then [] else [last] := by
  unfold lines
  rw [h, List.reverse_append]
  simp

theorem dropReturn_append (l : List Char) : dropReturn (l ++ ['\r']) = l := by
  simp [dropReturn]

theorem trim_append_blank {c : Char} (hc : isBlank c = true) (s : List Char) :
    trim (s ++ [c]) = trim s := by
  unfold trim trimLeft
  rw [List.dropWhile_append]
  split
  · rename_i hs
    rw [List.isEmpty_iff.mp hs, List.dropWhile_cons_of_pos hc, List.dropWhile_nil]
  · unfold trimRight
    rw [List.reverse_append, List.reverse_singleton, List.singleton_append,
      List.dropWhile_cons_of_pos hc]

theorem trim_dropReturn (l : List Char) : trim (dropReturn l) = trim l := by
  unfold dropReturn
  split
  · rename_i hlast
    obtain ⟨start, rfl⟩ := List.getLast?_eq_some_iff.mp hlast
    rw [List.dropLast_concat, trim_append_blank (by decide)]
  · rfl

end Text

namespace Source

/-- The source with a carriage return before every line feed. -/
def withReturns (s : String) : String := String.ofList (Text.addReturns s.toList)

/-- Other line endings are a matter of layout. -/
theorem relaid_withReturns (s : String) :
    Relaid (Text.lines s.toList) (Text.lines (withReturns s).toList) := by
  obtain ⟨ended, last, hs, hreturns⟩ := Text.splitLines_addReturns s.toList
  rw [withReturns, String.toList_ofList, Text.lines_eq hs, Text.lines_eq hreturns, List.map_map]
  refine relaid_map (fun l => ?_) ended _
  rw [Text.trim_dropReturn, Function.comp_apply, Text.dropReturn_append]

end Source

/-! ### Programs -/

/-- The program with other line numbers. -/
def Program.renumber (f : Nat → Nat) (p : Program) : Program :=
  { p with body := Statement.renumberAll f p.body }

namespace Definition

/-- Parameters have no lines. -/
theorem renumber_addParameters {f : Nat → Nat} (h0 : f 0 = 0) (scope : Scope)
    (parameters : List (String × Ty)) :
    Compile.renumber f id (addParameters scope parameters) = addParameters scope parameters := by
  induction parameters generalizing scope with
  | nil => rfl
  | cons p rest ih =>
    rw [addParameters]
    split
    · rw [Compile.renumber_failAt, h0]
    · exact ih _

theorem compile_renumber {f : Nat → Nat} (h0 : f 0 = 0) (library : Library) (settings : Settings)
    (d : Definition) {t : String}
    (ht : (Source.lines d.source).map (Line.renumber f) = Source.lines t) :
    compile library settings { d with source := t } =
      Compile.renumber f (Program.renumber f) (compile library settings d) := by
  simp only [compile]
  rw [← ht, Compile.renumber_bind_id, renumber_addParameters h0]
  congr 1
  funext scope
  rw [compileBody_renumber h0]
  refine (Compile.renumber_bind fun body => ?_).symm
  rfl

/-- **Layout does not matter.** If the significant lines of two sources have the same texts, there
is a correspondence of their line numbers, and each such correspondence turns the result for the
first source, be it a program or an error, into the result for the second. The significant lines
have the same texts after any edit of the layout, such as another way to end lines. -/
theorem compile_of_same_texts (library : Library) (settings : Settings) (d : Definition) :
    (∀ t, Source.texts d.source = Source.texts t →
      (∃ f, Source.Corresponds d.source t f) ∧
      ∀ f, Source.Corresponds d.source t f →
        compile library settings { d with source := t } =
          Compile.renumber f (Program.renumber f) (compile library settings d)) ∧
    (∀ t, Source.Relaid (Text.lines d.source.toList) (Text.lines t.toList) →
      Source.texts d.source = Source.texts t) ∧
    Source.Relaid (Text.lines d.source.toList)
      (Text.lines (Source.withReturns d.source).toList) := by
  refine ⟨fun t ht => ⟨Source.exists_corresponds ht, fun f hf => ?_⟩, fun t h => h.texts 1 1,
    Source.relaid_withReturns d.source⟩
  exact compile_renumber hf.1 library settings d (Source.lines_renumber ht hf)

/-- A loop with a declaration in it. -/
def countToThree : Definition :=
  ⟨"count", .void, [], "for (i : 3)\nvar x as number = @i\nend for"⟩

/-- The source of the loop with comments, a blank line, indentation and other line endings. -/
def countToThreeRelaid : String :=
  "// count\r\n\r\n  for (i : 3)\r\n# twice\r\n\tvar x as number = @i  \r\nend for"

theorem compile_of_same_texts_countToThree :
    Source.texts countToThree.source = Source.texts countToThreeRelaid ∧
    ∃ f, f 1 = 3 ∧ f 2 = 5 ∧ f 3 = 6 ∧
      compile .standard {} { countToThree with source := countToThreeRelaid } =
        Compile.renumber f (Program.renumber f) (compile .standard {} countToThree) := by
  have htexts : Source.texts countToThree.source = Source.texts countToThreeRelaid := by
    decide +kernel
  have hnumbers : Source.numbers countToThree.source = [1, 2, 3] := by decide +kernel
  have hnumbers' : Source.numbers countToThreeRelaid = [3, 5, 6] := by decide +kernel
  obtain ⟨⟨f, hf⟩, hall⟩ := (compile_of_same_texts .standard {} countToThree).1 _ htexts
  have hmap := hf.2
  rw [hnumbers, hnumbers'] at hmap
  simp only [List.map_cons, List.map_nil, List.cons.injEq, and_true] at hmap
  exact ⟨htexts, f, hmap.1, hmap.2.1, hmap.2.2, hall f hf⟩

end Definition

end WorldScript
