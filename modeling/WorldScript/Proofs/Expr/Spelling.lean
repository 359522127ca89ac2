import WorldScript.Proofs.Text.Spelling

/-! # Other spellings of an expression

An expression in lower case, its text literals apart, is read as before with the names in lower
case, and names are resolved without regard to their case. So the spelling of an expression does not
matter: it is resolved to the same, or fails in both spellings.

* `Folds f x y`: `y` succeeds with the image of what `x` gives, or both fail.
* `Token.scan_fold`, `Tree.ofTokens_folded`, `Tree.check_folded`: the stages.
* `Checked.ofText_fold`: an expression and its spelling in lower case.
* `Token.Scans.closed`: a text that is cut into tokens ends outside of literals. -/

namespace WorldScript

open Text.Quoting (outside)

/-- The second succeeds with the image of what the first gives, or both fail. -/
inductive Folds {ε α β : Type} (f : α → β) : Except ε α → Except ε β → Prop
  | ok (a : α) : Folds f (.ok a) (.ok (f a))
  | error (e e' : ε) : Folds f (.error e) (.error e')

theorem Folds.bind {ε α β γ δ : Type} {f : α → β} {g : γ → δ} {x : Except ε α} {y : Except ε β}
    {k : α → Except ε γ} {k' : β → Except ε δ} (h : Folds f x y)
    (hk : ∀ a, Folds g (k a) (k' (f a))) : Folds g (x >>= k) (y >>= k') := by
  cases h with
  | ok a => exact hk a
  | error e e' => exact .error e e'

theorem Folds.refl {ε α : Type} (x : Except ε α) : Folds id x x := by
  cases x with
  | ok a => exact .ok a
  | error e => exact .error e e

/-- Two computations that end as a third one does. -/
theorem Folds.joined {ε α : Type} {x y z : Except ε α} (hx : Folds id x z) (hy : Folds id y z) :
    Folds id x y := by
  cases hx with
  | ok a =>
    cases hy with
    | ok b => exact .ok _
  | error e e' =>
    cases hy with
    | error e'' => exact .error _ _

/-! ### Tokens -/

namespace Token

open Text

/-- The token with its name in lower case. -/
def folded : Token → Token
  | word s => word (lower s)
  | var s => var (lower s)
  | t => t

/-- A run of characters at the start, none of them a quote. -/
theorem span_fold {f : Char → Bool} (hf : ∀ c, f c.toLower = f c) (hdouble : f '"' = false)
    (hsingle : f '\'' = false) (s : List Char) :
    (outside.fold s).takeWhile f = (s.takeWhile f).map Char.toLower ∧
      (outside.fold s).dropWhile f = outside.fold (s.dropWhile f) := by
  induction s with
  | nil => exact ⟨rfl, rfl⟩
  | cons c s ih =>
    rw [Quoting.fold, List.takeWhile_cons, List.takeWhile_cons, List.dropWhile_cons,
      List.dropWhile_cons, Quoting.foldChar, hf]
    split
    · rename_i hc
      rw [Quoting.next_outside (isQuote_eq_false hdouble hsingle hc), List.map_cons, ih.1, ih.2]
      exact ⟨rfl, rfl⟩
    · exact ⟨rfl, rfl⟩

theorem trimLeft_fold (s : List Char) : trimLeft (outside.fold s) = outside.fold (trimLeft s) :=
  (span_fold isBlank_toLower rfl rfl s).2

theorem isDigit_toLower : ∀ c : Char, c.toLower.isDigit = c.isDigit := apply_toLower (by decide)

theorem isAlpha_toLower : ∀ c : Char, c.toLower.isAlpha = c.isAlpha := apply_toLower (by decide)

theorem isWordChar_toLower : ∀ c : Char, isWordChar c.toLower = isWordChar c :=
  apply_toLower (by decide)

theorem toLower_of_not_isAlpha {c : Char} (h : c.isAlpha = false) : c.toLower = c :=
  (eq_iff_of_toLower (toLower_toLower c) h).mpr rfl

theorem fold_cons {c : Char} (h : isQuote c = false) (s : List Char) :
    outside.fold (c :: s) = c.toLower :: outside.fold s := by
  rw [Quoting.fold, Quoting.next_outside h]
  rfl

/-- A text literal keeps its letters. -/
theorem scanText?_fold {quote : Char} (s : List Char) :
    scanText? quote ((Quoting.inside quote).fold s) =
      (scanText? quote s).map (Prod.map id outside.fold) := by
  induction hn : s.length using Nat.strongRecOn generalizing s with
  | ind n ih =>
    cases s with
    | nil => rfl
    | cons c s =>
      simp only [List.length_cons] at hn
      by_cases hc : c = '\\'
      · subst hc
        cases s with
        | nil => rfl
        | cons d s =>
          have hfold : (Quoting.inside quote).fold ('\\' :: d :: s) =
              '\\' :: d :: (Quoting.inside quote).fold s := rfl
          simp only [List.length_cons] at hn
          rw [hfold, scanText?, scanText?, ih s.length (by omega) s rfl, Option.map_map,
            Option.map_map]
          rfl
      · rw [Quoting.fold, Quoting.foldChar, Quoting.next, if_neg hc]
        · rw [scanText?_cons hc, scanText?_cons hc]
          split
          · rfl
          · rw [ih s.length (by omega) s rfl, Option.map_map, Option.map_map]
            rfl
        · simp

theorem isAlpha_of_isDigit {c : Char} (h : c.isDigit = true) : c.isAlpha = false := by
  rw [Bool.eq_false_iff]
  intro halpha
  have hrange := isAlpha_range halpha
  simp only [Char.isDigit, Bool.and_eq_true, decide_eq_true_eq, UInt32.le_iff_toNat_le] at h
  have hupper : c.toNat ≤ 57 := h.2
  omega

theorem digits_fold (s : List Char) :
    (outside.fold s).takeWhile Char.isDigit = s.takeWhile Char.isDigit := by
  rw [(span_fold isDigit_toLower rfl rfl s).1]
  refine (List.map_congr_left fun c hc => ?_).trans (List.map_id _)
  exact toLower_of_not_isAlpha (isAlpha_of_isDigit (List.mem_takeWhile_imp hc))

theorem scanNumber_fold (s : List Char) :
    scanNumber (outside.fold s) = Prod.map id outside.fold (scanNumber s) := by
  unfold scanNumber
  rw [digits_fold, (span_fold isDigit_toLower rfl rfl s).2]
  cases s.dropWhile Char.isDigit with
  | nil => rfl
  | cons c r =>
    by_cases hc : c = '.'
    · subst hc
      cases r with
      | nil => rfl
      | cons d r =>
        have hfold : outside.fold ('.' :: d :: r) =
            '.' :: d.toLower :: (outside.next d).fold r := rfl
        rw [hfold]
        simp only [isDigit_toLower]
        split
        · have hrest : d.toLower :: (outside.next d).fold r = outside.fold (d :: r) := rfl
          rw [hrest, digits_fold, (span_fold isDigit_toLower rfl rfl _).2]
          rfl
        · rfl
    · have hlower : c.toLower ≠ '.' := fun h => hc ((eq_iff_of_toLower h (by decide)).mpr rfl)
      rw [Quoting.fold, Quoting.foldChar]
      split
      · rename_i heq
        exact absurd (List.cons.inj heq).1 hlower
      · split
        · rename_i heq
          exact absurd (List.cons.inj heq).1 hc
        · rfl

theorem followedBy_fold {x : Char} (hx : x.isAlpha = false) (hquote : isQuote x = false)
    {long short : Token} (hlong : long.folded = long) (hshort : short.folded = short)
    (s : List Char) :
    followedBy x long short (outside.fold s) =
      Prod.map folded outside.fold (followedBy x long short s) := by
  cases s with
  | nil => exact congrArg (·, []) hshort.symm
  | cons d s =>
    have hd : d.toLower = x ↔ d = x := eq_iff_of_toLower (toLower_toLower d) hx
    rw [Quoting.fold, Quoting.foldChar, followedBy, followedBy]
    by_cases heq : d = x
    · rw [if_pos (hd.mpr heq), if_pos heq, heq, Quoting.next_outside hquote]
      exact congrArg (·, _) hlong.symm
    · rw [if_neg (mt hd.mp heq), if_neg heq]
      exact congrArg (·, _) hshort.symm

theorem ofWord_folded (w : List Char) :
    ofWord (String.ofList (w.map Char.toLower)) = (ofWord (String.ofList w)).folded := by
  have hlower : String.ofList (w.map Char.toLower) = lower (String.ofList w) := by
    rw [lower, String.toList_ofList]
  rw [hlower, ofWord, ofWord, lower_lower]
  split
  · rfl
  · split
    · rfl
    · split
      · rfl
      · rfl

/-- A quote starts a literal. -/
theorem scanOne_of_isQuote {c : Char} (h : isQuote c = true) (s : List Char) :
    scanOne c s = (scanText? c s).elim (.error .unterminatedText)
      fun found => .ok (text (String.ofList found.1), found.2) := by
  simp only [isQuote, Bool.or_eq_true, decide_eq_true_eq] at h
  rcases h with rfl | rfl
  · cases hfound : scanText? '"' s <;> simp [scanOne, hfound]
  · cases hfound : scanText? '\'' s <;> simp [scanOne, hfound]

theorem scanOne_of_isDigit {c : Char} (h : c.isDigit = true) (s : List Char) :
    scanOne c s = .ok (Prod.map number id (scanNumber (c :: s))) := by
  unfold scanOne
  rw [if_pos h]
  rfl

theorem scanOne_at (s : List Char) :
    scanOne '@' s = if s.takeWhile isWordChar = [] then .error .missingName
      else .ok (var (String.ofList (s.takeWhile isWordChar)), s.dropWhile isWordChar) := by
  cases hname : s.takeWhile isWordChar <;> simp [scanOne, hname]

/-- The first token of a text in lower case. -/
theorem scanOne_fold (c : Char) (s : List Char) :
    scanOne c.toLower ((outside.next c).fold s) =
      (scanOne c s).map (Prod.map folded outside.fold) := by
  by_cases hquote : isQuote c = true
  · have hlower : c.toLower = c := by
      simp only [isQuote, Bool.or_eq_true, decide_eq_true_eq] at hquote
      rcases hquote with rfl | rfl <;> rfl
    have hnext : outside.next c = .inside c := by simp [Quoting.next, hquote]
    rw [hlower, hnext, scanOne_of_isQuote hquote, scanOne_of_isQuote hquote, scanText?_fold]
    cases scanText? c s <;> rfl
  have hnext := Quoting.next_outside (Bool.eq_false_iff.mpr hquote)
  obtain ⟨htake, hdrop⟩ := span_fold isWordChar_toLower rfl rfl s
  rw [hnext]
  by_cases hdigit : c.isDigit = true
  · have hfold : outside.fold (c :: s) = c.toLower :: outside.fold s :=
      fold_cons (Bool.eq_false_iff.mpr hquote) s
    rw [scanOne_of_isDigit (isDigit_toLower c ▸ hdigit), scanOne_of_isDigit hdigit, ← hfold,
      scanNumber_fold]
    rfl
  by_cases halpha : c.isAlpha = true
  · rw [scanOne_of_isAlpha halpha, scanOne_of_isAlpha (isAlpha_toLower c ▸ halpha), htake, hdrop,
      ← List.map_cons, ofWord_folded]
    rfl
  rw [toLower_of_not_isAlpha (Bool.eq_false_iff.mpr halpha)]
  by_cases hat : c = '@'
  · subst hat
    rw [scanOne_at, scanOne_at, htake, hdrop]
    simp only [List.map_eq_nil_iff]
    split
    · rfl
    · simp only [Except.map, Prod.map, folded, lower, String.toList_ofList]
  · have hsigns : ¬ (decide (c = '"') || decide (c = '\'')) = true := hquote
    unfold scanOne
    simp only [if_neg hdigit, if_neg hsigns, if_neg hat, if_neg halpha]
    split
    case h_6 | h_7 | h_8 | h_9 | h_10 | h_11 =>
      exact congrArg Except.ok (followedBy_fold (by decide) (by decide) rfl rfl s)
    all_goals rfl

theorem scanFirst_fold (n : Nat) (s : List Char) :
    scanFirst n (outside.fold s) = (scanFirst n s).map (List.map folded) := by
  induction n generalizing s with
  | zero => rfl
  | succ n ih =>
    rw [scanFirst, scanFirst, trimLeft_fold]
    cases trimLeft s with
    | nil => rfl
    | cons c rest =>
      simp only [Quoting.fold, Quoting.foldChar, scanOne_fold]
      cases scanOne c rest with
      | error e => rfl
      | ok found =>
        cases hrest : scanFirst n found.2 <;>
          simp [bind, Except.bind, pure, Except.pure, Except.map, Prod.map, ih, hrest]

/-- A text in lower case is cut into the same tokens, in lower case. -/
theorem scan_fold (s : String) :
    scan (String.ofList (outside.fold s.toList)) = (scan s).map (List.map folded) := by
  rw [scan, scan, String.toList_ofList, Quoting.length_fold, scanFirst_fold]

/-! ### Where tokens end -/

theorem after_dropWhile {f : Char → Bool} (hdouble : f '"' = false) (hsingle : f '\'' = false)
    (s : List Char) : outside.after (s.dropWhile f) = outside.after s := by
  have hclosed : Closed (s.takeWhile f) :=
    .of_forall hdouble hsingle fun c hc => List.mem_takeWhile_imp hc
  rw [← List.takeWhile_append_dropWhile (p := f) (l := s), Quoting.after_append, hclosed,
    List.takeWhile_append_dropWhile]

theorem after_of_scanText? {quote : Char} {s text r : List Char}
    (h : scanText? quote s = some (text, r)) :
    (Quoting.inside quote).after s = outside.after r := by
  induction hn : s.length using Nat.strongRecOn generalizing s text with
  | ind n ih =>
    cases s with
    | nil => cases h
    | cons c s =>
      simp only [List.length_cons] at hn
      by_cases hc : c = '\\'
      · subst hc
        cases s with
        | nil => cases h
        | cons d s =>
          simp only [List.length_cons] at hn
          rw [scanText?] at h
          obtain ⟨⟨text', r'⟩, hfound, heq⟩ := Option.map_eq_some_iff.mp h
          cases heq
          rw [← ih s.length (by omega) hfound rfl]
          rfl
      · rw [scanText?_cons hc] at h
        rw [Quoting.after_cons, Quoting.next, if_neg hc]
        split at h
        · rename_i heq
          cases h
          rw [if_pos heq]
        · rename_i hne
          obtain ⟨⟨text', r'⟩, hfound, heq⟩ := Option.map_eq_some_iff.mp h
          cases heq
          rw [if_neg hne]
          exact ih s.length (by omega) hfound rfl

theorem after_scanNumber (s : List Char) :
    outside.after (scanNumber s).2 = outside.after s := by
  have hdigits := after_dropWhile (f := Char.isDigit) rfl rfl
  rw [← hdigits s]
  unfold scanNumber
  cases s.dropWhile Char.isDigit with
  | nil => rfl
  | cons c r =>
    dsimp only
    split
    · rename_i d rest heq
      cases heq
      split
      · exact hdigits (d :: rest)
      · rfl
    · rfl

theorem after_followedBy {x : Char} (hquote : isQuote x = false) (long short : Token)
    (s : List Char) : outside.after (followedBy x long short s).2 = outside.after s := by
  cases s with
  | nil => rfl
  | cons d s =>
    rw [followedBy]
    split
    · subst x
      rw [Quoting.after_cons, Quoting.next_outside hquote]
    · rfl

/-- Every token ends outside of literals. -/
theorem after_of_scanOne {c : Char} {s r : List Char} {t : Token} (h : scanOne c s = .ok (t, r)) :
    outside.after (c :: s) = outside.after r := by
  by_cases hquote : isQuote c = true
  · have hnext : outside.next c = .inside c := by simp [Quoting.next, hquote]
    rw [Quoting.after_cons, hnext]
    rw [scanOne_of_isQuote hquote] at h
    cases hfound : scanText? c s with
    | none =>
      rw [hfound] at h
      cases h
    | some found =>
      rw [hfound] at h
      cases h
      exact after_of_scanText? hfound
  have hnext := Quoting.next_outside (Bool.eq_false_iff.mpr hquote)
  by_cases hdigit : c.isDigit = true
  · rw [scanOne_of_isDigit hdigit] at h
    have hr : (scanNumber (c :: s)).2 = r := congrArg Prod.snd (Except.ok.inj h)
    rw [← hr, after_scanNumber]
  rw [Quoting.after_cons, hnext]
  have hdrop := after_dropWhile (f := isWordChar) rfl rfl s
  by_cases halpha : c.isAlpha = true
  · rw [scanOne_of_isAlpha halpha] at h
    have hr : s.dropWhile isWordChar = r := congrArg Prod.snd (Except.ok.inj h)
    rw [← hr, hdrop]
  by_cases hat : c = '@'
  · subst hat
    rw [scanOne_at] at h
    split at h
    · cases h
    · cases h
      exact hdrop.symm
  · have hsigns : ¬ (decide (c = '"') || decide (c = '\'')) = true := hquote
    unfold scanOne at h
    simp only [if_neg hdigit, if_neg hsigns, if_neg hat, if_neg halpha] at h
    split at h
    case h_6 | h_7 | h_8 | h_9 | h_10 | h_11 =>
      have hr : (followedBy _ _ _ s).2 = r := congrArg Prod.snd (Except.ok.inj h)
      rw [← hr]
      exact (after_followedBy (by decide) _ _ s).symm
    all_goals
      cases h
      rfl

/-- A text that is cut into tokens ends outside of literals. -/
theorem Scans.closed {s : List Char} {ts : List Token} (h : Scans s ts) : Closed s := by
  have htrim : ∀ u : List Char, outside.after u = outside.after (trimLeft u) := fun u =>
    (after_dropWhile rfl rfl u).symm
  induction h with
  | nil hnil => rw [Closed, htrim, hnil]; rfl
  | cons hcons hone _ ih =>
    rw [Closed, htrim, hcons, after_of_scanOne hone]
    exact ih

end Token

/-! ### Trees -/

namespace Tree

mutual

/-- The tree with its names in lower case. -/
def folded : Tree → Tree
  | number n => number n
  | text s => text s
  | boolean b => boolean b
  | var name => var (Text.lower name)
  | unary op t => unary op (folded t)
  | binary op l r => binary op (folded l) (folded r)
  | index t k => index (folded t) (folded k)
  | call name args => call (Text.lower name) (foldedAll args)

/-- Trees with their names in lower case. -/
def foldedAll : List Tree → List Tree
  | [] => []
  | t :: ts => folded t :: foldedAll ts

end

mutual

theorem height_folded : ∀ t : Tree, (folded t).height = t.height
  | number _ => rfl
  | text _ => rfl
  | boolean _ => rfl
  | var _ => rfl
  | unary _ t => by rw [folded, height, height, height_folded t]
  | binary _ l r => by rw [folded, height, height, height_folded l, height_folded r]
  | index t k => by rw [folded, height, height, height_folded t, height_folded k]
  | call _ args => by rw [folded, height, height, heightAll_folded args]

theorem heightAll_folded : ∀ ts : List Tree, heightAll (foldedAll ts) = heightAll ts
  | [] => rfl
  | t :: ts => by rw [foldedAll, heightAll, heightAll, height_folded t, heightAll_folded ts]

end

/-- The reader gives the same of tokens in lower case, in lower case. -/
def Commutes {α : Type} (f : α → α) (read : Reader α) : Prop :=
  ∀ ts, Folds (Prod.map f (List.map Token.folded)) (read ts) (read (ts.map Token.folded))

theorem bounded_folded (t : Tree) : Folds folded (bounded t) (bounded t.folded) := by
  unfold bounded
  rw [height_folded]
  split
  · exact .error _ _
  · exact .ok t

section Readers

variable {inner : Reader Tree} (hinner : Commutes folded inner)

include hinner

theorem chainAfter_folded {op? : Token → Option BinaryOp} (hop : ∀ t, op? t.folded = op? t)
    (n : Nat) (left : Tree) (ts : List Token) :
    Folds (Prod.map folded (List.map Token.folded)) (chainAfter op? inner n left ts)
      (chainAfter op? inner n left.folded (ts.map Token.folded)) := by
  induction n generalizing left ts with
  | zero => exact .ok (left, ts)
  | succ n ih =>
    cases ts with
    | nil => exact .ok (left, [])
    | cons t ts =>
      simp only [List.map_cons, chainAfter, hop]
      split
      · exact .ok (left, t :: ts)
      · rename_i op _
        refine (hinner ts).bind fun found => ?_
        refine (bounded_folded (.binary op left found.1)).bind fun both => ?_
        exact ih both found.2

theorem chain_folded {op? : Token → Option BinaryOp} (hop : ∀ t, op? t.folded = op? t) :
    Commutes folded (chain op? inner) := by
  intro ts
  refine (hinner ts).bind fun found => ?_
  have hlength : (Prod.map folded (List.map Token.folded) found).2.length = found.2.length :=
    List.length_map _
  simp only [hlength]
  exact chainAfter_folded hinner hop found.2.length found.1 found.2

theorem expression_folded : Commutes folded (expression inner) := by
  have hor : ∀ t : Token, orOp? t.folded = orOp? t := fun t => by cases t <;> rfl
  have hand : ∀ t : Token, andOp? t.folded = andOp? t := fun t => by cases t <;> rfl
  have hcompare : ∀ t : Token, comparisonOp? t.folded = comparisonOp? t := fun t => by
    cases t <;> rfl
  have hsum : ∀ t : Token, sumOp? t.folded = sumOp? t := fun t => by cases t <;> rfl
  have hproduct : ∀ t : Token, productOp? t.folded = productOp? t := fun t => by cases t <;> rfl
  exact chain_folded (chain_folded (chain_folded (chain_folded (chain_folded hinner hproduct) hsum)
    hcompare) hand) hor

theorem indicesAfter_folded (n : Nat) (target : Tree) (ts : List Token) :
    Folds (Prod.map folded (List.map Token.folded)) (indicesAfter inner n target ts)
      (indicesAfter inner n target.folded (ts.map Token.folded)) := by
  induction n generalizing target ts with
  | zero => exact .ok (target, ts)
  | succ n ih =>
    cases ts with
    | nil => exact .ok (target, [])
    | cons t ts =>
      cases t with
      | openBracket =>
        refine (hinner ts).bind fun found => ?_
        obtain ⟨key, rest⟩ := found
        cases rest with
        | nil => exact .error _ _
        | cons u rest =>
          cases u with
          | closeBracket => exact (bounded_folded (.index target key)).bind fun both => ih both rest
          | _ => exact .error _ _
      | _ => exact .ok (target, _ :: ts)

theorem argumentsAfter_folded (n : Nat) :
    Commutes foldedAll (argumentsAfter inner n) := by
  induction n with
  | zero => exact fun ts => .ok ([], ts)
  | succ n ih =>
    intro ts
    cases ts with
    | nil => exact .ok ([], [])
    | cons t ts =>
      cases t with
      | comma =>
        refine (hinner ts).bind fun found => ?_
        exact (ih found.2).bind fun others => .ok (found.1 :: others.1, others.2)
      | _ => exact .ok ([], _ :: ts)

theorem arguments_folded : Commutes foldedAll (arguments inner) := by
  have hfirst : ∀ ts : List Token, Folds (Prod.map foldedAll (List.map Token.folded))
      (inner ts >>= fun found => argumentsAfter inner found.2.length found.2 >>= fun others =>
        pure (found.1 :: others.1, others.2))
      (inner (ts.map Token.folded) >>= fun found =>
        argumentsAfter inner found.2.length found.2 >>= fun others =>
          pure (found.1 :: others.1, others.2)) := by
    intro ts
    refine (hinner ts).bind fun found => ?_
    have hlength : (Prod.map folded (List.map Token.folded) found).2.length = found.2.length :=
      List.length_map _
    rw [hlength]
    exact (argumentsAfter_folded hinner found.2.length found.2).bind fun others =>
      .ok (found.1 :: others.1, others.2)
  intro ts
  cases ts with
  | nil => exact hfirst []
  | cons t ts =>
    cases t with
    | closeParen => exact .ok ([], .closeParen :: ts)
    | _ => exact hfirst (_ :: ts)

omit hinner in
theorem ofWord_folded (w : String) : ofWord (Text.lower w) = (ofWord w).folded := by
  unfold ofWord
  dsimp only
  rw [Text.lower_lower]
  split
  · rfl
  · split
    · rfl
    · rfl

theorem primary_folded : Commutes folded (primary inner) := by
  intro ts
  cases ts with
  | nil => exact .error _ _
  | cons t ts =>
    cases t with
    | number n => exact .ok (Tree.number n, ts)
    | text s => exact .ok (Tree.text s, ts)
    | var name => exact .ok (Tree.var name, ts)
    | openParen =>
      refine (hinner ts).bind fun found => ?_
      obtain ⟨t, rest⟩ := found
      cases rest with
      | nil => exact .error _ _
      | cons u rest =>
        cases u with
        | closeParen => exact .ok (t, rest)
        | _ => exact .error _ _
    | word w =>
      have hword : ∀ ts : List Token, Folds (Prod.map folded (List.map Token.folded))
          (.ok (ofWord w, ts) : Except ReadError _)
          (.ok (ofWord (Text.lower w), ts.map Token.folded)) := by
        intro ts
        rw [ofWord_folded]
        exact .ok (ofWord w, ts)
      cases ts with
      | nil => exact hword []
      | cons u ts =>
        cases u with
        | openParen =>
          refine (arguments_folded hinner ts).bind fun found => ?_
          obtain ⟨args, rest⟩ := found
          cases rest with
          | nil => exact .error _ _
          | cons v rest =>
            cases v with
            | closeParen => exact (bounded_folded (.call w args)).bind fun t => .ok (t, rest)
            | _ => exact .error _ _
        | _ => exact hword (_ :: ts)
    | _ => exact .error _ _

theorem indexed_folded : Commutes folded (indexed inner) := by
  intro ts
  refine (primary_folded hinner ts).bind fun found => ?_
  have hlength : (Prod.map folded (List.map Token.folded) found).2.length = found.2.length :=
    List.length_map _
  simp only [hlength]
  exact indicesAfter_folded hinner found.2.length found.1 found.2

end Readers

theorem operand_folded (budget : Nat) : Commutes folded (operand budget) := by
  induction budget with
  | zero => exact fun ts => .error _ _
  | succ budget ih =>
    intro ts
    cases ts with
    | nil => exact indexed_folded (expression_folded ih) []
    | cons t ts =>
      cases t with
      | minus =>
        exact (ih ts).bind fun found =>
          (bounded_folded (.unary .negate found.1)).bind fun t => .ok (t, found.2)
      | bang =>
        exact (ih ts).bind fun found =>
          (bounded_folded (.unary .not found.1)).bind fun t => .ok (t, found.2)
      | _ => exact indexed_folded (expression_folded ih) (_ :: ts)

/-- Tokens in lower case are read as the tree in lower case. -/
theorem ofTokens_folded (ts : List Token) :
    Folds folded (ofTokens ts) (ofTokens (ts.map Token.folded)) := by
  refine (expression_folded (operand_folded maxDepth) ts).bind fun found => ?_
  obtain ⟨t, rest⟩ := found
  cases rest with
  | nil => exact .ok t
  | cons u rest =>
    cases u with
    | _ => exact .error _ _

theorem read_fold (s : String) :
    Folds folded (read s) (read (String.ofList (outside.fold s.toList))) := by
  unfold read
  rw [Token.scan_fold]
  cases Token.scan s with
  | error e => exact .error _ _
  | ok ts => exact ofTokens_folded ts

/-! ### Names -/

section Check

variable (lib : Library) (scope : Scope)

theorem resolve_lower (name : String) (types : List Ty) :
    Folds id (lib.resolve name types) (lib.resolve (Text.lower name) types) := by
  unfold Library.resolve Library.overloads
  rw [Text.lower_lower]
  split
  · exact .error _ _
  · split
    · exact .ok _
    · exact .error _ _

mutual

/-- Names are resolved without regard to their case. -/
theorem check_folded : ∀ t : Tree, Folds id (check lib scope t) (check lib scope t.folded)
  | number n => .ok _
  | text s => .ok _
  | boolean b => .ok _
  | var name => by
    simp only [folded, check, Scope.lookup, Text.lower_lower]
    split
    · exact .ok _
    · exact .error _ _
  | unary op t => (check_folded t).bind fun t => Folds.refl _
  | binary op l r => (check_folded l).bind fun l => (check_folded r).bind fun r => Folds.refl _
  | index t k => (check_folded t).bind fun t => (check_folded k).bind fun k => Folds.refl _
  | call name args => by
    refine (checkAll_folded args).bind fun args => ?_
    have hresolve := resolve_lower lib name (args.map (·.type))
    dsimp only [id]
    generalize lib.resolve name (args.map (·.type)) = x at hresolve ⊢
    generalize lib.resolve (Text.lower name) (args.map (·.type)) = y at hresolve ⊢
    cases hresolve with
    | ok f => exact .ok (Checked.call f args)
    | error e e' => exact .error _ _

theorem checkAll_folded : ∀ ts : List Tree,
    Folds id (checkAll lib scope ts) (checkAll lib scope (foldedAll ts))
  | [] => .ok []
  | t :: ts => (check_folded t).bind fun t => (checkAll_folded ts).bind fun ts => .ok (t :: ts)

end

end Check

end Tree

/-- **The spelling of an expression does not matter.** In lower case, its literals apart, it is
resolved to the same, or fails as well. -/
theorem Checked.ofText_fold (lib : Library) (scope : Scope) (s : String) :
    Folds id (ofText lib scope s) (ofText lib scope (String.ofList (outside.fold s.toList))) := by
  have hread := Tree.read_fold s
  unfold ofText
  generalize Tree.read s = x at hread ⊢
  generalize Tree.read (String.ofList (outside.fold s.toList)) = y at hread ⊢
  cases hread with
  | error e e' => exact .error _ _
  | ok t =>
    have hcheck := Tree.check_folded lib scope t
    dsimp only
    generalize t.check lib scope = x at hcheck ⊢
    generalize t.folded.check lib scope = y at hcheck ⊢
    cases hcheck with
    | ok e => exact .ok e
    | error e e' => exact .error _ _

/-- Two spellings of an expression are resolved to the same, or both fail. -/
theorem Checked.ofText_respelled (lib : Library) (scope : Scope) {s t : List Char}
    (h : Text.Respelled outside True s t) :
    Folds id (ofText lib scope (String.ofList s)) (ofText lib scope (String.ofList t)) := by
  have hs := ofText_fold lib scope (String.ofList s)
  have ht := ofText_fold lib scope (String.ofList t)
  rw [String.toList_ofList] at hs ht
  rw [h.same trivial] at hs
  exact hs.joined ht

theorem Checked.closed_of_ofText {lib : Library} {scope : Scope} {s : String} {e : Checked}
    (h : ofText lib scope s = .ok e) : Text.Closed s.toList := by
  obtain ⟨t, ht⟩ := read_of_ofText h
  obtain ⟨ts, hts, -⟩ := Tree.read_eq_ok ht
  exact hts.closed

end WorldScript
