import BarReplay.Proofs.Rule.Rules

namespace BarReplay.Rule.Parser

open Decimal

variable {β γ : Type}

-- Wherever in the text the cursor of a reader stands, an answer leaves it further on, and not past
-- the end.
def Advances (read : (s : List Char) → Step β s) (text : List Char) : Prop :=
  ∀ p ≤ text.length, ∀ x r, read (text.drop p) = .ok (x, r) →
    ∃ q, r.1 = text.drop q ∧ p < q ∧ q ≤ text.length

-- What is read is a front of the text, so the rest of it is the text behind a further cursor.
theorem Reads.advances {read : (s : List Char) → Step β s} {L : Language β}
    (h : ∀ s, Reads (read s) L s) (text : List Char) : Advances read text := by
  intro p hp x r hread
  obtain ⟨ts, u, -, -, -, hfront⟩ := (h _).sound x r hread
  have hlength : (text.drop p).length = u.length + r.1.length :=
    (congrArg List.length hfront).trans List.length_append
  have hdrop : (text.drop p).length = text.length - p := List.length_drop
  have hshorter := r.2
  refine ⟨p + u.length, ?_, by omega, by omega⟩
  calc r.1 = (u ++ r.1).drop u.length := (List.drop_left ..).symm
    _ = (text.drop p).drop u.length := by rw [← hfront]
    _ = text.drop (p + u.length) := List.drop_drop

-- Reading that may be given up, which is another thing than failing.
abbrev Limited (β : Type) := ExceptT Failure Option β

namespace Limited

-- Steps that are not given up and do what others do, one after another, do what those do.
theorem bind_eq_some {x : Limited β} {p : Except Failure β} {f : β → Limited γ}
    {g : β → Except Failure γ} (hx : x.run = some p)
    (hf : ∀ a, p = .ok a → (f a).run = some (g a)) : (x >>= f).run = some (p >>= g) := by
  rw [ExceptT.run_bind, hx]
  cases p with
  | error e => rfl
  | ok a => exact hf a rfl

theorem lift_bind_eq_some {p : Except Failure β} {f : β → Limited γ} {g : β → Except Failure γ}
    (hf : ∀ a, p = .ok a → (f a).run = some (g a)) :
    ((liftM p : Limited β) >>= f).run = some (p >>= g) :=
  bind_eq_some rfl hf

end Limited

-- The shortest word of a rule has two characters.
theorem takeWord_length_two {t : List Char} {w : RuleWord}
    (hw : RuleWord.ofText? (takeWord t).1 = some w) : (takeWord t).2.length + 2 ≤ t.length := by
  have hword : 2 ≤ w.text.toList.length := by
    cases w with
    | comparison c => cases c <;> decide
    | _ => decide
  rw [← text_of_ofText? hw, takeWord, String.toList_ofList] at hword
  have hsplit := congrArg List.length (List.takeWhile_append_dropWhile (p := isWordChar) (l := t))
  rw [List.length_append] at hsplit
  dsimp only [takeWord]
  omega

theorem takeWord_skipBlank_shorter {s : List Char} {w : RuleWord}
    (hw : RuleWord.ofText? (takeWord (skipBlank s)).1 = some w) :
    (takeWord (skipBlank s)).2.length < s.length := by
  have hword := takeWord_length_two hw
  have hblank := skipBlank_length s
  omega

-- What is left, by how much shorter it is.
def Rest.of {s : List Char} (r : List Char) (h : r.length + 1 ≤ s.length) : Rest s :=
  ⟨r, h⟩

variable {α : Type} [Numeral α] (passes : Nat) (inner : (s : List Char) → Limited (Rule α × Rest s))

-- The rules after the first of a list, each of them read by `inner`, in so many passes.
def furtherWithin : Nat → (s : List Char) → Limited (List (Rule α) × Rest s)
  | 0, _ => none
  | passes + 1, s =>
    have ht : (skipBlank s).length ≤ s.length := skipBlank_length s
    match h : skipBlank s with
    | ')' :: r => pure ([], .of r (Nat.le_trans (Nat.le_of_eq (congrArg List.length h.symm)) ht))
    | _ => do
      let ⟨s1, h1⟩ ← expect ',' s
      let (r, ⟨s2, h2⟩) ← inner s1
      let (rs, ⟨s3, h3⟩) ← furtherWithin passes s2
      pure (r :: rs, .of s3 (Nat.succ_le_of_lt <| Nat.lt_trans h3 <| Nat.lt_trans h2 h1))

-- A rule, those in its brackets read by `inner`.
def ruleWith (s : List Char) : Limited (Rule α × Rest s) :=
  let t := skipBlank s
  match hw : RuleWord.ofText? (takeWord t).1 with
  | none => throw ⟨.expectedRule (found t), t⟩
  | some w => do
    have hr : (takeWord t).2.length < s.length := takeWord_skipBlank_shorter hw
    let ⟨s1, h1⟩ ← expect '(' (takeWord t).2
    match w with
    | .comparison c =>
      let (left, ⟨s2, h2⟩) ← operand s1
      let ⟨s3, h3⟩ ← expect ',' s2
      let (right, ⟨s4, h4⟩) ← operand s3
      let ⟨s5, h5⟩ ← expect ')' s4
      pure (.compare c left right,
        .of s5 (Nat.lt_trans h5 <| Nat.lt_trans h4 <| Nat.lt_trans h3 <|
          Nat.lt_trans h2 <| Nat.lt_trans h1 hr))
    | .between =>
      let (o, ⟨s2, h2⟩) ← operand s1
      let ⟨s3, h3⟩ ← expect ',' s2
      let (lower, ⟨s4, h4⟩) ← number s3
      let ⟨s5, h5⟩ ← expect ',' s4
      let (upper, ⟨s6, h6⟩) ← number s5
      let ⟨s7, h7⟩ ← expect ')' s6
      pure (.between o lower upper,
        .of s7 (Nat.lt_trans h7 <| Nat.lt_trans h6 <| Nat.lt_trans h5 <| Nat.lt_trans h4 <|
          Nat.lt_trans h3 <| Nat.lt_trans h2 <| Nat.lt_trans h1 hr))
    | .not =>
      let (r, ⟨s2, h2⟩) ← inner s1
      let ⟨s3, h3⟩ ← expect ')' s2
      pure (.not r, .of s3 (Nat.lt_trans h3 <| Nat.lt_trans h2 <| Nat.lt_trans h1 hr))
    | .consecutive =>
      let (r, ⟨s2, h2⟩) ← inner s1
      let ⟨s3, h3⟩ ← expect ',' s2
      let (n, ⟨s4, h4⟩) ← integer s3
      let ⟨s5, h5⟩ ← expect ')' s4
      pure (.consecutive r n,
        .of s5 (Nat.lt_trans h5 <| Nat.lt_trans h4 <| Nat.lt_trans h3 <|
          Nat.lt_trans h2 <| Nat.lt_trans h1 hr))
    | .anyOf =>
      let (r, ⟨s2, h2⟩) ← inner s1
      let ⟨s3, h3⟩ ← expect ',' s2
      let (n, ⟨s4, h4⟩) ← integer s3
      let ⟨s5, h5⟩ ← expect ')' s4
      pure (.anyOf r n,
        .of s5 (Nat.lt_trans h5 <| Nat.lt_trans h4 <| Nat.lt_trans h3 <|
          Nat.lt_trans h2 <| Nat.lt_trans h1 hr))
    | .all =>
      let (r, ⟨s2, h2⟩) ← inner s1
      let (rs, ⟨s3, h3⟩) ← furtherWithin inner passes s2
      if rs.isEmpty then throw ⟨.fewRules .all, s⟩
      else pure (.all (r :: rs),
        .of s3 (Nat.lt_trans h3 <| Nat.lt_trans h2 <| Nat.lt_trans h1 hr))
    | .any =>
      let (r, ⟨s2, h2⟩) ← inner s1
      let (rs, ⟨s3, h3⟩) ← furtherWithin inner passes s2
      if rs.isEmpty then throw ⟨.fewRules .any, s⟩
      else pure (.any (r :: rs),
        .of s3 (Nat.lt_trans h3 <| Nat.lt_trans h2 <| Nat.lt_trans h1 hr))

-- Reading a rule that is given up when rules are more than `depth` deep in its brackets, or when a
-- list of them takes more than `passes` passes.
def ruleWithin : Nat → (s : List Char) → Limited (Rule α × Rest s)
  | 0 => ruleWith passes fun _ => none
  | depth + 1 => ruleWith passes (ruleWithin depth)

variable {passes inner} {s : List Char}

-- The passes of a list are enough if they are more than its characters: each of them that is not
-- the last takes a comma away.
theorem furtherWithin_eq_some (hpasses : s.length < passes)
    (hinner : ∀ t : List Char, t.length < s.length → (inner t).run = some (rule t)) :
    (furtherWithin inner passes s).run = some (furtherRules s) := by
  induction passes generalizing s with
  | zero => exact absurd hpasses (Nat.not_lt_zero _)
  | succ passes ih =>
    rw [furtherRules]
    dsimp only
    split
    · rename_i r hr
      rw [furtherWithin]
      dsimp only
      split
      · rename_i r' hr'
        cases hr.symm.trans hr'
        rfl
      · rename_i hne
        exact absurd hr (hne r)
    · rename_i hne
      rw [furtherWithin]
      dsimp only
      split
      · rename_i r hr
        exact absurd hr (hne r)
      · apply Limited.lift_bind_eq_some
        intro s1 _
        apply Limited.bind_eq_some (hinner _ s1.2)
        rintro ⟨r, s2, h2⟩ _
        have h1 := s1.2
        apply Limited.bind_eq_some (ih (s := s2) (by omega) fun t ht => hinner t (by omega))
        exact fun _ _ => rfl

-- A rule is read if those in its brackets are: they stand behind its word and a bracket.
theorem ruleWith_eq_some (hpasses : s.length ≤ passes)
    (hinner : ∀ t : List Char, t.length + 3 ≤ s.length → (inner t).run = some (rule t)) :
    (ruleWith passes inner s).run = some (rule s) := by
  have hlift {β γ : Type} {p : Except Failure β} {f : β → Limited γ} {g : β → Except Failure γ}
      (hf : ∀ a, (f a).run = some (g a)) : ((liftM p : Limited β) >>= f).run = some (p >>= g) :=
    Limited.lift_bind_eq_some fun a _ => hf a
  have hfurther (t : List Char) (ht : t.length + 3 ≤ s.length) :
      (furtherWithin inner passes t).run = some (furtherRules t) :=
    furtherWithin_eq_some (by omega) fun u hu => hinner u (by omega)
  rw [rule]
  dsimp only
  split
  · rename_i hnone
    rw [ruleWith]
    dsimp only
    split
    · rfl
    · rename_i hw
      cases hnone.symm.trans hw
  · rename_i w hw
    rw [ruleWith]
    dsimp only
    split
    · rename_i hnone
      cases hnone.symm.trans hw
    · rename_i w' hw'
      cases hw.symm.trans hw'
      have hlength := takeWord_length_two hw
      have hs := skipBlank_length s
      apply hlift
      intro s1
      have h1 := s1.2
      cases w with
      | comparison c =>
        exact hlift fun l => hlift fun s3 => hlift fun r => hlift fun s5 => rfl
      | between =>
        exact hlift fun o => hlift fun s3 => hlift fun l => hlift fun s5 => hlift fun u =>
          hlift fun s7 => rfl
      | not =>
        apply Limited.bind_eq_some (hinner s1.1 (by omega))
        exact fun r _ => hlift fun s3 => rfl
      | consecutive | anyOf =>
        apply Limited.bind_eq_some (hinner s1.1 (by omega))
        exact fun r _ => hlift fun s3 => hlift fun n => hlift fun s5 => rfl
      | all | any =>
        apply Limited.bind_eq_some (hinner s1.1 (by omega))
        rintro ⟨r, s2, h2⟩ _
        apply Limited.bind_eq_some (hfurther s2 (by omega))
        intro rs _
        dsimp only
        split <;> rfl

-- A rule in brackets is three characters shorter than the rule around it, which bounds the depth.
theorem ruleWithin_eq_some {depth : Nat} (hdepth : s.length < 3 * (depth + 1))
    (hpasses : s.length ≤ passes) :
    (ruleWithin passes depth s).run = some (rule (α := α) s) := by
  induction depth generalizing s with
  | zero => exact ruleWith_eq_some hpasses fun t ht => absurd ht (by omega)
  | succ depth ih => exact ruleWith_eq_some hpasses fun t ht => ih (by omega) (by omega)

-- One character more, and the rule in the brackets is one too many for a depth of zero.
example : (ruleWithin (α := Float) 4 0 "OR(".toList).run.isNone = true ∧
    (ruleWithin (α := Float) 4 0 "OR".toList).run.isSome = true := by
  decide

-- What the readers of rule text do at any cursor of it, on malformed text as on other text: an
-- answer moves the cursor forward and not past the end. No list of rules takes more passes than
-- the text has characters, and rules are not in one another's brackets more than a third as deep.
theorem cursor_advances (text : List Char) :
    Advances (rule (α := Float)) text ∧ Advances (operand (α := Float)) text ∧
    Advances (number (α := Float)) text ∧ Advances integer text ∧
    ∀ p, (ruleWithin text.length (text.length / 3) (text.drop p)).run =
      some (rule (α := Float) (text.drop p)) := by
  refine ⟨Reads.advances rule_reads text, Reads.advances operand_reads text,
    Reads.advances number_reads text, Reads.advances integer_reads text, fun p => ?_⟩
  have hlength : (text.drop p).length ≤ text.length := (List.drop_sublist p text).length_le
  exact ruleWithin_eq_some (by omega) hlength

end BarReplay.Rule.Parser
