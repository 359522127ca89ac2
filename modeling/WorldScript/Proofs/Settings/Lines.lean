import Mathlib.Data.List.TakeWhile
import WorldScript.Proofs.Program.Layout
import WorldScript.Settings

/-! # The lines of a settings text

A line of a settings text is silent (blank or a comment), assigns a value to a setting, or is
refused. Which of the three depends on the line alone, not on the lines around it, so a refused line
may as well not be there.

* `Settings.Names raw key value`: the line has the form `key = value`.
* `Settings.Refused raw`: the line is not silent and gives no setting a value that it can have.
* `Settings.Outcome`, `Settings.outcome_applyLine`: all that one line can do.
* `Settings.mem_reported_iff`: the numbers in the errors are those of the refused lines.
* `Settings.applyLines_refill`: with blanks in place of the refused lines, the settings are the same
  and nothing is reported.
* `Settings.settled_applyLines`: a setting has the value on the last accepted line that names it. -/

namespace WorldScript

namespace Text

/-! ### Lines that are put together again -/

theorem newline_not_mem_splitLines (s : List Char) : ∀ l ∈ splitLines s, '\n' ∉ l := by
  induction s with
  | nil => simp [splitLines]
  | cons c s ih =>
    by_cases hc : c = '\n'
    · subst hc
      rw [splitLines_newline]
      exact List.forall_mem_cons.mpr ⟨List.not_mem_nil, ih⟩
    · obtain ⟨l, ls, hs⟩ : ∃ l ls, splitLines s = l :: ls := ⟨_, _, rfl⟩
      rw [hs] at ih
      obtain ⟨hl, hls⟩ := List.forall_mem_cons.mp ih
      rw [splitLines_cons hc hs]
      refine List.forall_mem_cons.mpr ⟨?_, hls⟩
      exact List.not_mem_cons_of_ne_of_not_mem (Ne.symm hc) hl

/-- A line without a line feed in front of a text extends its first line. -/
theorem splitLines_append {a : List Char} (ha : '\n' ∉ a) {s l : List Char} {ls : List (List Char)}
    (h : splitLines s = l :: ls) : splitLines (a ++ s) = (a ++ l) :: ls := by
  induction a with
  | nil => exact h
  | cons c a ih =>
    have hc : c ≠ '\n' := (List.ne_of_not_mem_cons ha).symm
    exact splitLines_cons hc (ih (List.not_mem_of_not_mem_cons ha))

theorem splitLines_intercalate {a : List Char} {ls : List (List Char)}
    (h : ∀ l ∈ a :: ls, '\n' ∉ l) : splitLines (['\n'].intercalate (a :: ls)) = a :: ls := by
  induction ls generalizing a with
  | nil =>
    have ha : '\n' ∉ a := h a List.mem_cons_self
    simpa [List.intercalate] using splitLines_append ha (s := []) rfl
  | cons b ls ih =>
    obtain ⟨ha, hls⟩ := List.forall_mem_cons.mp h
    have hjoin : ['\n'].intercalate (a :: b :: ls) = a ++ '\n' :: ['\n'].intercalate (b :: ls) := by
      simp [List.intercalate]
    have hrest : splitLines ('\n' :: ['\n'].intercalate (b :: ls)) = [] :: b :: ls := by
      rw [splitLines_newline, ih hls]
    rw [hjoin, splitLines_append ha hrest, List.append_nil]

/-- A text of blanks has nothing inside of them. -/
theorem trim_eq_nil {s : List Char} (h : ∀ c ∈ s, isBlank c = true) : trim s = [] := by
  have hleft : trimLeft s = [] := List.dropWhile_eq_nil_iff.mpr h
  rw [trim, hleft]
  rfl

end Text

namespace Settings

/-! ### What a line says -/

/-- The line is blank or a comment. -/
def isSilent (raw : List Char) : Bool :=
  match (Text.trim raw).head? with
  | none => true
  | some c => c = ';' || c = '#'

/-- The line is not silent and has the form `key = value`: `key` is the folded text before the first
equals sign and `value` the text after it, both without the blanks around them. -/
def Names (raw : List Char) (key value : String) : Prop :=
  isSilent raw = false ∧ ∃ before after, Text.trim raw = before ++ '=' :: after ∧ '=' ∉ before ∧
    Text.lower (String.ofList (Text.trim before)) = key ∧ String.ofList (Text.trim after) = value

/-- The line gives the nesting a number that it can have. -/
def GivesNesting (raw : List Char) (n : Nat) : Prop :=
  ∃ value, Names raw "max_nesting_depth" value ∧ readCount? value.toList = some n ∧
    1 ≤ n ∧ n ≤ nestingLimit

/-- The line turns strict jumps on or off. -/
def GivesJumps (raw : List Char) (b : Bool) : Prop :=
  ∃ value, Names raw "strict_jumps" value ∧ readSwitch? value = some b

/-- The line is neither blank nor a comment, and gives no setting a value that it can have. -/
def Refused (raw : List Char) : Prop :=
  isSilent raw = false ∧ (∀ n, ¬ GivesNesting raw n) ∧ ∀ b, ¬ GivesJumps raw b

theorem takeWhile_before {before after : List Char} (h : '=' ∉ before) :
    (before ++ '=' :: after).takeWhile (· ≠ '=') = before := by
  rw [List.takeWhile_append_of_pos, List.takeWhile_cons_of_neg (by simp), List.append_nil]
  intro c hc
  exact decide_eq_true fun heq => h (heq ▸ hc)

theorem dropWhile_before {before after : List Char} (h : '=' ∉ before) :
    (before ++ '=' :: after).dropWhile (· ≠ '=') = '=' :: after := by
  rw [List.dropWhile_append_of_pos, List.dropWhile_cons_of_neg (by simp)]
  intro c hc
  exact decide_eq_true fun heq => h (heq ▸ hc)

theorem applyLine_of_silent {raw : List Char} (h : isSilent raw = true) (s : Settings) :
    s.applyLine (Text.trim raw) = .ok s := by
  unfold isSilent at h
  unfold applyLine
  split
  · rfl
  · rename_i c r hraw
    rw [hraw] at h
    exact if_pos h

/-- A line of the form `key = value` is an assignment. -/
theorem applyLine_of_names {raw : List Char} {key value : String} (h : Names raw key value) :
    ∃ name, Text.lower name = key ∧
      ∀ s : Settings, s.applyLine (Text.trim raw) = s.assign name value := by
  obtain ⟨hloud, before, after, hraw, hbefore, hkey, hvalue⟩ := h
  refine ⟨_, hkey, fun s => ?_⟩
  unfold isSilent at hloud
  unfold applyLine
  split
  · rename_i hnil
    rw [hnil] at hraw
    simp at hraw
  · rename_i c r hcons
    rw [hcons] at hloud
    rw [if_neg (by simpa using hloud), hraw, dropWhile_before hbefore,
      takeWhile_before hbefore, ← hvalue]

/-- A line that is not silent has the form `key = value`, or no equals sign and is an error. -/
theorem names_or_error {raw : List Char} (h : isSilent raw = false) :
    (∃ key value, Names raw key value) ∨
      (∀ key value, ¬ Names raw key value) ∧
        ∀ s : Settings, ∃ f, s.applyLine (Text.trim raw) = .error f := by
  by_cases heq : '=' ∈ Text.trim raw
  · obtain ⟨before, after, hbefore, hraw⟩ := List.eq_append_cons_of_mem heq
    exact .inl ⟨_, _, h, before, after, hbefore, hraw, rfl, rfl⟩
  · refine .inr ⟨?_, fun s => ?_⟩
    · rintro key value ⟨-, before, after, hraw, -⟩
      exact heq (hraw ▸ List.mem_append_right _ List.mem_cons_self)
    · have hdrop : (Text.trim raw).dropWhile (· ≠ '=') = [] := by
        refine List.dropWhile_eq_nil_iff.mpr fun c hc => ?_
        exact decide_eq_true fun hc' => heq (hc' ▸ hc)
      unfold isSilent at h
      unfold applyLine
      split
      · rename_i hnil
        rw [hnil] at h
        cases h
      · rename_i c r hcons
        rw [hcons] at h
        rw [if_neg (by simpa using h), hdrop]
        exact ⟨_, rfl⟩

theorem Names.unique {raw : List Char} {key key' value value' : String} (h : Names raw key value)
    (h' : Names raw key' value') : key = key' ∧ value = value' := by
  obtain ⟨-, before, after, hraw, hbefore, rfl, rfl⟩ := h
  obtain ⟨-, before', after', hraw', hbefore', rfl, rfl⟩ := h'
  rw [hraw] at hraw'
  have hb := congrArg (List.takeWhile (· ≠ '=')) hraw'
  have ha := congrArg (List.dropWhile (· ≠ '=')) hraw'
  rw [takeWhile_before hbefore, takeWhile_before hbefore'] at hb
  rw [dropWhile_before hbefore, dropWhile_before hbefore', List.cons.injEq] at ha
  exact ⟨by rw [hb], by rw [ha.2]⟩

/-! ### What a line does -/

/-- All that one line can do to the settings. -/
inductive Outcome (s : Settings) (raw : List Char) : Except Fault Settings → Prop
  | silent : isSilent raw = true → Outcome s raw (.ok s)
  | nesting {n : Nat} : GivesNesting raw n → Outcome s raw (.ok { s with maxNesting := n })
  | jumps {b : Bool} : GivesJumps raw b → Outcome s raw (.ok { s with strictJumps := b })
  | refused {f : Fault} : Refused raw → Outcome s raw (.error f)

section Assign
variable {raw : List Char} {name key value : String} (hnames : Names raw key value)
  (hkey : Text.lower name = key)
include hnames hkey

theorem outcome_assign_nesting (h : key = "max_nesting_depth") (s : Settings) :
    Outcome s raw (s.assign name value) := by
  subst h
  have hjumps : ∀ b, ¬ GivesJumps raw b := by
    rintro b ⟨value', hnames', -⟩
    exact absurd (hnames.unique hnames').1 (by decide)
  have hnesting : ∀ n, GivesNesting raw n → readCount? value.toList = some n ∧
      1 ≤ n ∧ n ≤ nestingLimit := by
    rintro n ⟨value', hnames', hgiven⟩
    rw [(hnames.unique hnames').2]
    exact hgiven
  rw [assign, hkey]
  cases hcount : readCount? value.toList with
  | none =>
    refine .refused ⟨hnames.1, fun n hn => ?_, hjumps⟩
    rw [hcount] at hnesting
    cases (hnesting n hn).1
  | some n =>
    by_cases hrange : 1 ≤ n ∧ n ≤ nestingLimit
    · have hgiven : GivesNesting raw n := ⟨value, hnames, hcount, hrange⟩
      simpa [hrange.1, hrange.2] using Outcome.nesting hgiven
    · have hrefused : Refused raw := by
        refine ⟨hnames.1, fun m hm => ?_, hjumps⟩
        obtain ⟨hm, hmrange⟩ := hnesting m hm
        obtain rfl := Option.some.inj (hcount.symm.trans hm)
        exact hrange hmrange
      simpa [hrange] using Outcome.refused hrefused

theorem outcome_assign_jumps (h : key = "strict_jumps") (s : Settings) :
    Outcome s raw (s.assign name value) := by
  subst h
  rw [assign, hkey]
  cases hswitch : readSwitch? value with
  | none =>
    refine .refused ⟨hnames.1, ?_, ?_⟩
    · rintro n ⟨value', hnames', -⟩
      exact absurd (hnames.unique hnames').1 (by decide)
    · rintro b ⟨value', hnames', hgiven⟩
      rw [← (hnames.unique hnames').2, hswitch] at hgiven
      cases hgiven
  | some b => exact .jumps ⟨value, hnames, hswitch⟩

theorem outcome_assign_unknown (h : key ≠ "max_nesting_depth") (h' : key ≠ "strict_jumps")
    (s : Settings) : Outcome s raw (s.assign name value) := by
  have hrefused : Refused raw := by
    refine ⟨hnames.1, ?_, ?_⟩
    · rintro n ⟨value', hnames', -⟩
      exact h (hnames.unique hnames').1
    · rintro b ⟨value', hnames', -⟩
      exact h' (hnames.unique hnames').1
  rw [assign, hkey]
  simpa [h, h'] using Outcome.refused hrefused

end Assign

theorem outcome_applyLine (s : Settings) (raw : List Char) :
    Outcome s raw (s.applyLine (Text.trim raw)) := by
  cases hsilent : isSilent raw with
  | true =>
    rw [applyLine_of_silent hsilent]
    exact .silent hsilent
  | false =>
    rcases names_or_error hsilent with ⟨key, value, hnames⟩ | ⟨hnone, herror⟩
    · obtain ⟨name, hkey, happly⟩ := applyLine_of_names hnames
      rw [happly]
      by_cases hn : key = "max_nesting_depth"
      · exact outcome_assign_nesting hnames hkey hn s
      by_cases hj : key = "strict_jumps"
      · exact outcome_assign_jumps hnames hkey hj s
      exact outcome_assign_unknown hnames hkey hn hj s
    · obtain ⟨f, hf⟩ := herror s
      rw [hf]
      refine .refused ⟨hsilent, ?_, ?_⟩
      · rintro n ⟨value, hnames, -⟩
        exact hnone _ _ hnames
      · rintro b ⟨value, hnames, -⟩
        exact hnone _ _ hnames

theorem Outcome.refused_of_error {s : Settings} {raw : List Char} {f : Fault}
    (h : Outcome s raw (.error f)) : Refused raw := by
  cases h with
  | refused h => exact h

theorem Outcome.not_refused {s s' : Settings} {raw : List Char} (h : Outcome s raw (.ok s')) :
    ¬ Refused raw := by
  rintro ⟨hloud, hnesting, hjumps⟩
  cases h with
  | silent h => exact absurd (h.symm.trans hloud) (by decide)
  | nesting h => exact hnesting _ h
  | jumps h => exact hjumps _ h

/-- The nesting is one that a text can ask for. -/
def InRange (s : Settings) : Prop := 1 ≤ s.maxNesting ∧ s.maxNesting ≤ nestingLimit

theorem Outcome.inRange {s s' : Settings} {raw : List Char} (h : Outcome s raw (.ok s'))
    (hs : s.InRange) : s'.InRange := by
  cases h with
  | silent => exact hs
  | nesting h =>
    obtain ⟨-, -, -, hrange⟩ := h
    exact hrange
  | jumps => exact hs

/-- An accepted line that names the setting gives it the value that it reads, and no other accepted
line changes it. -/
structure Tracks {α : Type} (key : String) (read? : String → Option α) (get : Settings → α) :
    Prop where
  named {s s' : Settings} {raw : List Char} {value : String} :
    Outcome s raw (.ok s') → Names raw key value → read? value = some (get s')
  other {s s' : Settings} {raw : List Char} :
    Outcome s raw (.ok s') → (∀ value, ¬ Names raw key value) → get s' = get s

theorem tracks_maxNesting :
    Tracks "max_nesting_depth" (fun value => readCount? value.toList) maxNesting where
  named h hnames := by
    cases h with
    | silent h => exact absurd (h.symm.trans hnames.1) (by decide)
    | nesting h =>
      obtain ⟨value, hnames', hcount, -⟩ := h
      rw [(hnames.unique hnames').2, hcount]
    | jumps h =>
      obtain ⟨value, hnames', -⟩ := h
      exact absurd (hnames.unique hnames').1 (by decide)
  other h hnone := by
    cases h with
    | silent => rfl
    | nesting h =>
      obtain ⟨value, hnames, -⟩ := h
      exact absurd hnames (hnone value)
    | jumps => rfl

theorem tracks_strictJumps : Tracks "strict_jumps" readSwitch? strictJumps where
  named h hnames := by
    cases h with
    | silent h => exact absurd (h.symm.trans hnames.1) (by decide)
    | nesting h =>
      obtain ⟨value, hnames', -⟩ := h
      exact absurd (hnames.unique hnames').1 (by decide)
    | jumps h =>
      obtain ⟨value, hnames', hswitch⟩ := h
      rw [(hnames.unique hnames').2, hswitch]
  other h hnone := by
    cases h with
    | silent => rfl
    | nesting => rfl
    | jumps h =>
      obtain ⟨value, hnames, -⟩ := h
      exact absurd hnames (hnone value)

/-! ### What the lines do together -/

/-- The numbers of the lines that are reported, in the order of the errors. -/
def reported (s : Settings) (n : Nat) (lines : List (List Char)) : List Nat :=
  (s.applyLines n lines).2.map (·.line)

section Cons
variable {s s' : Settings} {raw : List Char} {f : Fault} (n : Nat) (rest : List (List Char))

theorem applyLines_cons_ok (h : s.applyLine (Text.trim raw) = .ok s') :
    s.applyLines n (raw :: rest) = s'.applyLines (n + 1) rest := by
  rw [applyLines, h]

theorem applyLines_cons_error (h : s.applyLine (Text.trim raw) = .error f) :
    s.applyLines n (raw :: rest) =
      ((s.applyLines (n + 1) rest).1, ⟨n, f⟩ :: (s.applyLines (n + 1) rest).2) := by
  rw [applyLines, h]

theorem reported_cons_ok (h : s.applyLine (Text.trim raw) = .ok s') :
    s.reported n (raw :: rest) = s'.reported (n + 1) rest := by
  rw [reported, applyLines_cons_ok n rest h, reported]

theorem reported_cons_error (h : s.applyLine (Text.trim raw) = .error f) :
    s.reported n (raw :: rest) = n :: s.reported (n + 1) rest := by
  rw [reported, applyLines_cons_error n rest h, reported, List.map_cons]

end Cons

/-- The reported lines are the refused ones. -/
theorem mem_reported_iff {lines : List (List Char)} {s : Settings} {n k : Nat} :
    k ∈ s.reported n lines ↔ ∃ i raw, lines[i]? = some raw ∧ k = n + i ∧ Refused raw := by
  induction lines generalizing s n with
  | nil => simp [reported, applyLines]
  | cons raw rest ih =>
    -- an index into all lines is the first one or an index into the rest
    have hsplit : (∃ i l, (raw :: rest)[i]? = some l ∧ k = n + i ∧ Refused l) ↔
        (k = n ∧ Refused raw) ∨ ∃ i l, rest[i]? = some l ∧ k = n + 1 + i ∧ Refused l := by
      constructor
      · rintro ⟨i, l, hl, hk, hrefused⟩
        cases i with
        | zero =>
          obtain rfl := Option.some.inj hl
          exact .inl ⟨hk, hrefused⟩
        | succ i => exact .inr ⟨i, l, hl, by omega, hrefused⟩
      · rintro (⟨hk, hrefused⟩ | ⟨i, l, hl, hk, hrefused⟩)
        · exact ⟨0, raw, rfl, hk, hrefused⟩
        · exact ⟨i + 1, l, hl, by omega, hrefused⟩
    rw [hsplit]
    have hout := outcome_applyLine s raw
    cases hline : s.applyLine (Text.trim raw) with
    | ok s' =>
      rw [hline] at hout
      rw [reported_cons_ok n rest hline, ih]
      exact (or_iff_right fun h => hout.not_refused h.2).symm
    | error f =>
      rw [hline] at hout
      rw [reported_cons_error n rest hline, List.mem_cons, ih]
      exact or_congr_left (and_iff_left hout.refused_of_error).symm

theorem le_of_mem_reported {lines : List (List Char)} {s : Settings} {n k : Nat}
    (h : k ∈ s.reported n lines) : n ≤ k := by
  obtain ⟨i, raw, -, rfl, -⟩ := mem_reported_iff.mp h
  exact Nat.le_add_right n i

theorem not_mem_reported_succ {lines : List (List Char)} {s : Settings} {n : Nat} :
    n ∉ s.reported (n + 1) lines :=
  fun h => Nat.not_succ_le_self n (le_of_mem_reported h)

theorem pairwise_reported (lines : List (List Char)) (s : Settings) (n : Nat) :
    (s.reported n lines).Pairwise (· < ·) := by
  induction lines generalizing s n with
  | nil => exact .nil
  | cons raw rest ih =>
    cases hline : s.applyLine (Text.trim raw) with
    | ok s' =>
      rw [reported_cons_ok n rest hline]
      exact ih s' (n + 1)
    | error f =>
      rw [reported_cons_error n rest hline]
      exact List.pairwise_cons.mpr ⟨fun k hk => le_of_mem_reported hk, ih s (n + 1)⟩

theorem inRange_applyLines (lines : List (List Char)) {s : Settings} (n : Nat) (hs : s.InRange) :
    (s.applyLines n lines).1.InRange := by
  induction lines generalizing s n with
  | nil => exact hs
  | cons raw rest ih =>
    have hout := outcome_applyLine s raw
    cases hline : s.applyLine (Text.trim raw) with
    | ok s' =>
      rw [hline] at hout
      rw [applyLines_cons_ok n rest hline]
      exact ih (n + 1) (hout.inRange hs)
    | error f =>
      rw [applyLines_cons_error n rest hline]
      exact ih (n + 1) hs

/-! ### Refused lines replaced by blank ones -/

/-- The lines, of which the first has the number `n`, with other ones in place of those whose
numbers are listed. -/
def refill (fill : Nat → List Char) (numbers : List Nat) (n : Nat) :
    List (List Char) → List (List Char)
  | [] => []
  | raw :: rest => (if n ∈ numbers then fill n else raw) :: refill fill numbers (n + 1) rest

theorem refill_congr (fill : Nat → List Char) {a b : List Nat} {n : Nat}
    (h : ∀ k, n ≤ k → (k ∈ a ↔ k ∈ b)) (lines : List (List Char)) :
    refill fill a n lines = refill fill b n lines := by
  induction lines generalizing n with
  | nil => rfl
  | cons raw rest ih =>
    rw [refill, refill, ih fun k hk => h k (Nat.le_of_succ_le hk)]
    simp only [h n (Nat.le_refl n)]

/-- With silent lines in place of the refused ones, the settings are the same and nothing is
reported. -/
theorem applyLines_refill {fill : Nat → List Char} (hfill : ∀ k, isSilent (fill k) = true)
    (lines : List (List Char)) (s : Settings) (n : Nat) :
    s.applyLines n (refill fill (s.reported n lines) n lines) = ((s.applyLines n lines).1, []) := by
  induction lines generalizing s n with
  | nil => rfl
  | cons raw rest ih =>
    cases hline : s.applyLine (Text.trim raw) with
    | ok s' =>
      rw [reported_cons_ok n rest hline, refill, if_neg not_mem_reported_succ,
        applyLines_cons_ok n _ hline, applyLines_cons_ok n _ hline, ih]
    | error f =>
      have hrest : refill fill (n :: s.reported (n + 1) rest) (n + 1) rest =
          refill fill (s.reported (n + 1) rest) (n + 1) rest := by
        refine refill_congr fill (fun k hk => ?_) rest
        have hne : k ≠ n := by omega
        simp only [List.mem_cons, hne, false_or]
      rw [reported_cons_error n rest hline, refill, if_pos List.mem_cons_self, hrest,
        applyLines_cons_ok n _ (applyLine_of_silent (hfill n) s), ih,
        applyLines_cons_error n rest hline]

/-! ### The last accepted line -/

/-- The value `x` of a setting comes from the last line that names the setting and is not reported,
or is the value at the start and all lines that name the setting are reported. The first line has
the number `n`. -/
inductive Settled {α : Type} (lines : List (List Char)) (n : Nat) (numbers : List Nat)
    (key : String) (read? : String → Option α) (start x : α) : Prop
  | given (i : Nat) (raw : List Char) (value : String) (hline : lines[i]? = some raw)
    (hnames : Names raw key value) (haccepted : n + i ∉ numbers) (hread : read? value = some x)
    (hlast : ∀ j raw' value', i < j → lines[j]? = some raw' → Names raw' key value' →
      n + j ∈ numbers)
  | untouched (hx : x = start)
    (hnone : ∀ j raw' value', lines[j]? = some raw' → Names raw' key value' → n + j ∈ numbers)

section Settled
variable {α : Type} {key : String} {read? : String → Option α} {start start' x : α}
  {raw : List Char} {rest : List (List Char)} {n : Nat} {numbers : List Nat}

/-- An accepted line in front of others: it counts if none of them does. -/
theorem Settled.cons_accepted (hn : n ∉ numbers)
    (hnamed : ∀ value, Names raw key value → read? value = some start')
    (hother : (∀ value, ¬ Names raw key value) → start' = start)
    (h : Settled rest (n + 1) numbers key read? start' x) :
    Settled (raw :: rest) n numbers key read? start x := by
  cases h with
  | given i line value hline hnames haccepted hread hlast =>
    refine .given (i + 1) line value hline hnames ?_ hread ?_
    · rwa [Nat.add_right_comm n 1 i] at haccepted
    · intro j raw' value' hj hraw' hnames'
      cases j with
      | zero => omega
      | succ j =>
        rw [← Nat.add_assoc, Nat.add_right_comm]
        exact hlast j raw' value' (Nat.lt_of_succ_lt_succ hj) hraw' hnames'
  | untouched hx hnone =>
    have hrest : ∀ j raw' value', rest[j]? = some raw' → Names raw' key value' →
        n + (j + 1) ∈ numbers := by
      intro j raw' value' hraw' hnames'
      rw [← Nat.add_assoc, Nat.add_right_comm]
      exact hnone j raw' value' hraw' hnames'
    by_cases hnames : ∃ value, Names raw key value
    · obtain ⟨value, hnames⟩ := hnames
      refine .given 0 raw value rfl hnames hn (by rw [hx, hnamed value hnames]) ?_
      intro j raw' value' hj hraw' hnames'
      cases j with
      | zero => omega
      | succ j => exact hrest j raw' value' hraw' hnames'
    · have hnames' : ∀ value, ¬ Names raw key value := fun value h => hnames ⟨value, h⟩
      refine .untouched (hx.trans (hother hnames')) ?_
      intro j raw' value' hraw' hnamed'
      cases j with
      | zero =>
        obtain rfl := Option.some.inj hraw'
        exact absurd hnamed' (hnames' value')
      | succ j => exact hrest j raw' value' hraw' hnamed'

/-- A reported line in front of others makes no difference. -/
theorem Settled.cons_reported (h : Settled rest (n + 1) numbers key read? start x) :
    Settled (raw :: rest) n (n :: numbers) key read? start x := by
  cases h with
  | given i line value hline hnames haccepted hread hlast =>
    refine .given (i + 1) line value hline hnames ?_ hread ?_
    · rw [Nat.add_right_comm n 1 i] at haccepted
      exact List.not_mem_cons_of_ne_of_not_mem (by omega) haccepted
    · intro j raw' value' hj hraw' hnames'
      cases j with
      | zero => omega
      | succ j =>
        rw [← Nat.add_assoc, Nat.add_right_comm]
        exact List.mem_cons_of_mem _
          (hlast j raw' value' (Nat.lt_of_succ_lt_succ hj) hraw' hnames')
  | untouched hx hnone =>
    refine .untouched hx ?_
    intro j raw' value' hraw' hnames'
    cases j with
    | zero => exact List.mem_cons_self
    | succ j =>
      rw [← Nat.add_assoc, Nat.add_right_comm]
      exact List.mem_cons_of_mem _ (hnone j raw' value' hraw' hnames')

theorem settled_applyLines {get : Settings → α} (h : Tracks key read? get)
    (lines : List (List Char)) (s : Settings) (n : Nat) :
    Settled lines n (s.reported n lines) key read? (get s) (get (s.applyLines n lines).1) := by
  induction lines generalizing s n with
  | nil => exact .untouched rfl fun j raw' value' hraw' => by simp at hraw'
  | cons raw rest ih =>
    have hout := outcome_applyLine s raw
    cases hline : s.applyLine (Text.trim raw) with
    | ok s' =>
      rw [hline] at hout
      rw [reported_cons_ok n rest hline, applyLines_cons_ok n rest hline]
      exact .cons_accepted not_mem_reported_succ (fun value => h.named hout) (h.other hout)
        (ih s' (n + 1))
    | error f =>
      rw [reported_cons_error n rest hline, applyLines_cons_error n rest hline]
      exact (ih s (n + 1)).cons_reported

end Settled

/-! ### Texts -/

/-- Where the lines end is of no importance. -/
theorem applyLines_lines (s : List Char) (start : Settings) (n : Nat) :
    start.applyLines n (Text.lines s) = start.applyLines n (Text.splitLines s) := by
  obtain ⟨ended, last, hsplit⟩ := Text.exists_splitLines s
  rw [Text.lines_eq hsplit, hsplit]
  clear hsplit
  induction ended generalizing start n with
  | nil =>
    cases last with
    | nil => rfl
    | cons c last => rfl
  | cons raw ended ih =>
    simp only [List.map_cons, List.cons_append, applyLines, Text.trim_dropReturn, ih]

/-- The text with other lines in place of those whose numbers are listed. -/
def replaceLines (fill : Nat → List Char) (numbers : List Nat) (s : String) : String :=
  String.ofList (['\n'].intercalate (refill fill numbers 1 (Text.splitLines s.toList)))

theorem mem_refill {fill : Nat → List Char} {numbers : List Nat} {n : Nat}
    {lines : List (List Char)} {l : List Char} (h : l ∈ refill fill numbers n lines) :
    l ∈ lines ∨ ∃ k, l = fill k := by
  induction lines generalizing n with
  | nil => cases h
  | cons raw rest ih =>
    rw [refill] at h
    rcases List.mem_cons.mp h with rfl | h
    · split
      · exact .inr ⟨n, rfl⟩
      · exact .inl List.mem_cons_self
    · exact (ih h).imp_left (List.mem_cons_of_mem raw)

theorem splitLines_replaceLines {fill : Nat → List Char} (hfill : ∀ k, '\n' ∉ fill k)
    (numbers : List Nat) (s : String) :
    Text.splitLines (replaceLines fill numbers s).toList =
      refill fill numbers 1 (Text.splitLines s.toList) := by
  have hlines : ∀ l ∈ refill fill numbers 1 (Text.splitLines s.toList), '\n' ∉ l := by
    intro l hl
    rcases mem_refill hl with hl | ⟨k, rfl⟩
    · exact Text.newline_not_mem_splitLines s.toList l hl
    · exact hfill k
  rw [replaceLines, String.toList_ofList]
  exact Text.splitLines_intercalate hlines

theorem isSilent_of_blank {l : List Char} (h : ∀ c ∈ l, Text.isBlank c = true) :
    isSilent l = true := by
  rw [isSilent, Text.trim_eq_nil h]
  rfl

theorem read_replaceLines {fill : Nat → List Char}
    (hfill : ∀ k, ∀ c ∈ fill k, Text.isBlank c = true ∧ c ≠ '\n') (s : String) :
    read (replaceLines fill ((read s).2.map (·.line)) s) = ((read s).1, []) := by
  have hsilent : ∀ k, isSilent (fill k) = true := fun k =>
    isSilent_of_blank fun c hc => (hfill k c hc).1
  have hnewline : ∀ k, '\n' ∉ fill k := fun k h => (hfill k _ h).2 rfl
  rw [read, applyLines_lines, splitLines_replaceLines hnewline, read, applyLines_lines]
  exact applyLines_refill hsilent _ _ 1

/-- **Refused lines are isolated.** Of the settings and errors that a text gives, the nesting is in
its range. The errors are in the order of the lines, and the lines that they name are exactly those
that are refused: neither blank nor a comment, and without a value that a setting can have. With
blank lines in their place the settings are the same and there is no error. Each setting has the
value on the last line that names it and is not reported, or else its default. -/
theorem read_isolates_refused (s : String) (fill : Nat → List Char)
    (hfill : ∀ k, ∀ c ∈ fill k, Text.isBlank c = true ∧ c ≠ '\n') (settings : Settings)
    (errors : List Error) (hread : read s = (settings, errors)) :
    (1 ≤ settings.maxNesting ∧ settings.maxNesting ≤ nestingLimit) ∧
    (errors.map (·.line)).Pairwise (· < ·) ∧
    (∀ k, k ∈ errors.map (·.line) ↔
      ∃ i raw, (Text.lines s.toList)[i]? = some raw ∧ k = 1 + i ∧ Refused raw) ∧
    read (replaceLines fill (errors.map (·.line)) s) = (settings, []) ∧
    Settled (Text.lines s.toList) 1 (errors.map (·.line)) "max_nesting_depth"
      (fun value => readCount? value.toList) 32 settings.maxNesting ∧
    Settled (Text.lines s.toList) 1 (errors.map (·.line)) "strict_jumps" readSwitch? true
      settings.strictJumps := by
  have hsettings : (read s).1 = settings := by rw [hread]
  have herrors : (read s).2 = errors := by rw [hread]
  subst hsettings herrors
  have hdefault : ({} : Settings).InRange := ⟨by decide, by decide⟩
  exact ⟨inRange_applyLines _ 1 hdefault, pairwise_reported _ _ 1, fun k => mem_reported_iff,
    read_replaceLines hfill s, settled_applyLines tracks_maxNesting _ {} 1,
    settled_applyLines tracks_strictJumps _ {} 1⟩

/-- A text with three lines that are refused, two of them after one that counts. -/
def mixedText : String :=
  "\n".intercalate ["Max_Nesting_Depth = 5", "? what", "max_nesting_depth = 0", "; note",
    "strict_jumps = off\r", "strict_jumps = 2"]

theorem read_isolates_refused_mixedText :
    read mixedText = (⟨5, false⟩,
      [⟨2, .notAssignment "? what"⟩, ⟨3, .nestingOutOfRange⟩, ⟨6, .jumpsNotSwitch "2"⟩]) ∧
    read (replaceLines (fun _ => [' ', '\r']) [2, 3, 6] mixedText) = (⟨5, false⟩, []) ∧
    Settled (Text.lines mixedText.toList) 1 [2, 3, 6] "max_nesting_depth"
      (fun value => readCount? value.toList) 32 5 ∧
    Settled (Text.lines mixedText.toList) 1 [2, 3, 6] "strict_jumps" readSwitch? true false := by
  have hread : read mixedText = (⟨5, false⟩,
      [⟨2, .notAssignment "? what"⟩, ⟨3, .nestingOutOfRange⟩, ⟨6, .jumpsNotSwitch "2"⟩]) := by
    decide +kernel
  have hfill : ∀ c ∈ [' ', '\r'], Text.isBlank c = true ∧ c ≠ '\n' :=
    List.forall_mem_cons.mpr ⟨by decide, List.forall_mem_singleton.mpr (by decide)⟩
  obtain ⟨-, -, -, hreplaced, hsettled⟩ :=
    read_isolates_refused mixedText (fun _ => [' ', '\r']) (fun _ => hfill) _ _ hread
  exact ⟨hread, hreplaced, hsettled⟩

end Settings

end WorldScript
