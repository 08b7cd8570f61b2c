import BarReplay.Proofs.Rule.Operands

namespace BarReplay.Rule.Parser

open Decimal Grammar Indicator Text

variable {s t u r : List Char} {ts : List Token}

-- The words of rules.

theorem ofText?_text (w : RuleWord) : RuleWord.ofText? w.text = some w := by
  cases w with
  | comparison c => cases c <;> decide
  | _ => decide

theorem text_of_ofText? {text : String} {w : RuleWord} (h : RuleWord.ofText? text = some w) :
    text = w.text := by
  have hw := List.find?_some (p := fun w : RuleWord => decide (w.text = text)) h
  exact (of_decide_eq_true hw).symm

theorem isWordChar_of_rule (w : RuleWord) : ∀ c ∈ w.text.toList, isWordChar c = true := by
  refine List.all_eq_true.1 ?_
  cases w with
  | comparison c => cases c <;> decide
  | _ => decide

theorem solid_of_rule (w : RuleWord) : Solid (.word w.text) := by
  have hne : w.text.toList ≠ [] := by
    cases w with
    | comparison c => cases c <;> decide
    | _ => decide
  obtain ⟨c, cs, hcs⟩ := List.exists_cons_of_ne_nil hne
  exact word_solid hcs (isWordChar_of_rule w c (hcs ▸ List.mem_cons_self))

theorem takeWord_of_rule (ht : Bare t) {w : RuleWord} (hu : Spaced (.word w.text :: .mark '(' :: ts) u)
    (hs : t = u ++ r) (hr : Stops r) : (takeWord t).1 = w.text := by
  obtain ⟨v, hv, hfront⟩ := ht.front (solid_of_rule w) hu hs
  rw [hfront]
  refine takeWord_of_stops (isWordChar_of_rule w) (.of_spaced hv ?_ hr)
  rintro _ ⟨⟩
  exact ⟨'(', rfl, by decide⟩

theorem operandForm_close : OperandForm [.word "close"] (.price .close : Operand Float) :=
  .word (w := .price .close) (by decide) .price

theorem ruleForm_inhabited : ∃ ts, ∃ r : Rule Float, RuleForm ts r :=
  ⟨_, _, .call (.compare (c := .above) operandForm_close operandForm_close)⟩

def Language.rule : Language (Rule Float) where
  form := RuleForm
  inhabited := ruleForm_inhabited

def Language.arguments (w : RuleWord) : Language (Rule Float) where
  form := ArgumentForm w
  inhabited := by
    obtain ⟨ts, r, hr⟩ := ruleForm_inhabited
    obtain ⟨xs, x, hx⟩ := Language.number.inhabited
    cases w with
    | comparison c => exact ⟨_, _, .compare operandForm_close operandForm_close⟩
    | between => exact ⟨_, _, .between operandForm_close hx hx⟩
    | all => exact ⟨_, _, .all (.more hr (.one hr)) (by simp)⟩
    | any => exact ⟨_, _, .any (.more hr (.one hr)) (by simp)⟩
    | not => exact ⟨_, _, .not hr⟩
    | consecutive => exact ⟨_, _, .consecutive hr integerForm_one⟩
    | anyOf => exact ⟨_, _, .anyOf hr integerForm_one⟩

-- What stands in the brackets of each word, or of the two that are alike.

def Language.compared (c : Comparison) : Language (Rule Float) :=
  .upTo ',' .operand fun l => .upTo ')' .operand fun r => .pure (.compare c l r)

theorem Language.compared_form {c : Comparison} {r : Rule Float} :
    (compared c).form ts r ↔ ArgumentForm (.comparison c) ts r := by
  constructor
  · intro h
    obtain ⟨ls, _, l, rfl, hl, h⟩ := upTo_form.1 h
    obtain ⟨rs, r, rfl, hr, rfl⟩ := upTo_pure_form.1 h
    exact .compare hl hr
  · rintro ⟨⟩
    rename_i hl hr
    exact upTo_form.2 ⟨_, _, _, rfl, hl, upTo_pure_form.2 ⟨_, _, rfl, hr, rfl⟩⟩

def Language.between : Language (Rule Float) :=
  .upTo ',' .operand fun o => .upTo ',' .number fun l => .upTo ')' .number fun u =>
    .pure (.between o l u)

theorem Language.between_form {r : Rule Float} :
    Language.between.form ts r ↔ ArgumentForm .between ts r := by
  constructor
  · intro h
    obtain ⟨os, _, o, rfl, ho, h⟩ := upTo_form.1 h
    obtain ⟨ls, _, l, rfl, hl, h⟩ := upTo_form.1 h
    obtain ⟨us, u, rfl, hu, rfl⟩ := upTo_pure_form.1 h
    exact .between ho hl hu
  · rintro ⟨⟩
    rename_i ho hl hu
    exact upTo_form.2 ⟨_, _, _, rfl, ho, upTo_form.2 ⟨_, _, _, rfl, hl,
      upTo_pure_form.2 ⟨_, _, rfl, hu, rfl⟩⟩⟩

def Language.not : Language (Rule Float) :=
  .upTo ')' .rule fun r => .pure (.not r)

theorem Language.not_form {r : Rule Float} : Language.not.form ts r ↔ ArgumentForm .not ts r := by
  constructor
  · intro h
    obtain ⟨rs, r, rfl, hr, rfl⟩ := upTo_pure_form.1 h
    exact .not hr
  · rintro ⟨⟩
    rename_i hr
    exact upTo_pure_form.2 ⟨_, _, rfl, hr, rfl⟩

-- A rule and a number of bars.
def Language.counted (g : Rule Float → Nat → Rule Float) : Language (Rule Float) :=
  .upTo ',' .rule fun r => .upTo ')' .integer fun n => .pure (g r n)

theorem Language.counted_form {g : Rule Float → Nat → Rule Float} {r : Rule Float} :
    (counted g).form ts r ↔ ∃ us ns r' n, ts = us ++ .mark ',' :: (ns ++ [.mark ')']) ∧
      RuleForm us r' ∧ IntegerForm ns n ∧ r = g r' n := by
  constructor
  · intro h
    obtain ⟨us, _, r, rfl, hr, h⟩ := upTo_form.1 h
    obtain ⟨ns, n, rfl, hn, rfl⟩ := upTo_pure_form.1 h
    exact ⟨us, ns, r, n, rfl, hr, hn, rfl⟩
  · rintro ⟨us, ns, r, n, rfl, hr, hn, rfl⟩
    exact upTo_form.2 ⟨us, _, r, rfl, hr, upTo_pure_form.2 ⟨ns, n, rfl, hn, rfl⟩⟩

theorem Language.consecutive_form {r : Rule Float} :
    (counted .consecutive).form ts r ↔ ArgumentForm .consecutive ts r := by
  refine counted_form.trans ⟨?_, ?_⟩
  · rintro ⟨us, ns, r, n, rfl, hr, hn, rfl⟩
    exact .consecutive hr hn
  · rintro ⟨⟩
    rename_i hr hn
    exact ⟨_, _, _, _, rfl, hr, hn, rfl⟩

theorem Language.anyOf_form {r : Rule Float} :
    (counted .anyOf).form ts r ↔ ArgumentForm .anyOf ts r := by
  refine counted_form.trans ⟨?_, ?_⟩
  · rintro ⟨us, ns, r, n, rfl, hr, hn, rfl⟩
    exact .anyOf hr hn
  · rintro ⟨⟩
    rename_i hr hn
    exact ⟨_, _, _, _, rfl, hr, hn, rfl⟩

-- What follows the first of several rules.
def Language.further : Language (List (Rule Float)) where
  form ts rs := (ts = [.mark ')'] ∧ rs = []) ∨
    ∃ us, ts = .mark ',' :: (us ++ [.mark ')']) ∧ RulesForm us rs
  inhabited := ⟨_, _, .inl ⟨rfl, rfl⟩⟩

-- What follows it if there is a second one.
def Language.second : Language (List (Rule Float)) :=
  Language.further.keep (fun rs => ¬ rs.isEmpty = true) <| by
    obtain ⟨ts, r, hr⟩ := ruleForm_inhabited
    exact ⟨_, [r], .inr ⟨ts, rfl, .one hr⟩, by simp⟩

theorem rulesForm_ne_nil {rs : List (Rule Float)} (h : RulesForm ts rs) : rs ≠ [] := by
  cases h <;> simp

-- Two rules or more.
def Language.several (g : List (Rule Float) → Rule Float) : Language (Rule Float) :=
  .bind .rule fun r => .map (fun rs => g (r :: rs)) .second

theorem Language.several_form {r : Rule Float} {g : List (Rule Float) → Rule Float} :
    (several g).form ts r ↔
      ∃ us rs, ts = us ++ [.mark ')'] ∧ RulesForm us rs ∧ 2 ≤ rs.length ∧ r = g rs := by
  constructor
  · rintro ⟨us, _, r, rfl, hr, rs, ⟨⟨rfl, rfl⟩ | ⟨vs, rfl, hvs⟩, hne⟩, rfl⟩
    · exact absurd rfl hne
    · refine ⟨us ++ .mark ',' :: vs, r :: rs, by simp, .more hr hvs, ?_, rfl⟩
      have := List.length_pos_iff.2 (rulesForm_ne_nil hvs)
      simp only [List.length_cons]
      omega
  · rintro ⟨us, rs, rfl, hrs, htwo, rfl⟩
    cases hrs with
    | one hr => exact absurd htwo (by simp)
    | @more ts us _ _ hr hrs =>
      exact ⟨ts, .mark ',' :: (us ++ [.mark ')']), _, by simp, hr, _,
        ⟨.inr ⟨us, rfl, hrs⟩, by simpa using rulesForm_ne_nil hrs⟩, rfl⟩

theorem Language.all_form {r : Rule Float} : (several .all).form ts r ↔ ArgumentForm .all ts r := by
  refine several_form.trans ⟨?_, ?_⟩
  · rintro ⟨us, rs, rfl, hrs, htwo, rfl⟩
    exact .all hrs htwo
  · rintro ⟨⟩
    rename_i hrs htwo
    exact ⟨_, _, rfl, hrs, htwo, rfl⟩

theorem Language.any_form {r : Rule Float} : (several .any).form ts r ↔ ArgumentForm .any ts r := by
  refine several_form.trans ⟨?_, ?_⟩
  · rintro ⟨us, rs, rfl, hrs, htwo, rfl⟩
    exact .any hrs htwo
  · rintro ⟨⟩
    rename_i hrs htwo
    exact ⟨_, _, rfl, hrs, htwo, rfl⟩

theorem further_mark {rs : List (Rule Float)} (h : Language.further.form ts rs) :
    ∃ c us, ts = .mark c :: us ∧ Apart c := by
  obtain ⟨rfl, -⟩ | ⟨us, rfl, -⟩ := h
  · exact ⟨')', _, rfl, by decide⟩
  · exact ⟨',', _, rfl, by decide⟩

theorem ruleForm_solid {r : Rule Float} (h : RuleForm ts r) :
    ∃ token us, ts = token :: us ∧ Solid token := by
  cases h with
  | call h => exact ⟨_, _, rfl, solid_of_rule _⟩

-- A step of the recursion reads its language if the steps behind it do.
variable (hrule : ∀ t : List Char, t.length < s.length → Reads (rule t) .rule t)
  (hfurther : ∀ t : List Char, t.length < s.length → Reads (furtherRules t) .further t)

include hrule hfurther

theorem furtherRules_step : Reads (furtherRules s) .further s := by
  rw [furtherRules]
  dsimp only
  split
  · rename_i q hq
    have hlt : q.length < s.length := by
      have := skipBlank_length s
      rw [hq] at this
      exact this
    have hread : Reads (expect ')' s >>= fun y => .ok (([] : List (Rule Float)), y)) _ s :=
      .mark (by decide) fun y => .pure
    rw [expect_eq_ok_iff (q := ⟨q, hlt⟩).2 hq] at hread
    refine hread.narrow ?_ ?_
    · rintro ts rs ⟨_, rfl, rfl, rfl⟩
      exact .inl ⟨rfl, rfl⟩
    · rintro ts rs u r (⟨rfl, rfl⟩ | ⟨us, rfl, -⟩) hu hs -
      · exact ⟨[], rfl, rfl, rfl⟩
      · obtain ⟨v, -, hv⟩ := skipBlank_of_spaced (mark_solid (c := ',') (by decide)) hu hs
        cases hq.symm.trans hv
  · rename_i hq
    refine Reads.narrow (L := .mark ',' (.bind .rule fun r => .map (r :: ·) .further))
      (.mark (by decide) fun s1 => .bind (hrule _ s1.2) (fun r s2 =>
        (hfurther _ (Nat.lt_trans s2.2 s1.2)).map fun _ h => Nat.lt_trans h (Nat.lt_trans s2.2 s1.2))
        ?_) ?_ ?_
    · rintro r ts _ ⟨rs, hrs, rfl⟩
      exact further_mark hrs
    · rintro ts _ ⟨_, rfl, us, vs, r, rfl, hr, rs, hrs, rfl⟩
      obtain ⟨rfl, rfl⟩ | ⟨ws, rfl, hws⟩ := hrs
      · exact .inr ⟨us, rfl, .one hr⟩
      · exact .inr ⟨us ++ .mark ',' :: ws, by simp, .more hr hws⟩
    · rintro ts rs u r (⟨rfl, rfl⟩ | ⟨us, rfl, hrs⟩) hu hs -
      · obtain ⟨v, -, hv⟩ := skipBlank_of_spaced (mark_solid (c := ')') (by decide)) hu hs
        exact absurd hv (hq (v ++ r))
      · cases hrs with
        | one hr => exact ⟨_, rfl, us, _, _, rfl, hr, [], .inl ⟨rfl, rfl⟩, rfl⟩
        | @more ts us _ _ hr hrs =>
          exact ⟨_, rfl, ts, .mark ',' :: (us ++ [.mark ')']), _, by simp, hr, _,
            .inr ⟨us, rfl, hrs⟩, rfl⟩

omit hrule in
theorem second_reads {e : Failure} (he : ∀ n, e.cause ≠ .longInteger n) {t : List Char}
    (ht : t.length < s.length) :
    Reads (furtherRules t >>= fun y => if y.1.isEmpty = true then .error e else .ok y) .second t := by
  refine .keep (R := fun rs : List (Rule Float) => rs.isEmpty = true) (hfurther t ht) he _ ?_
  rintro ts cs us rs (⟨h, -⟩ | ⟨vs, -, h⟩)
  · have hmem : Token.integer cs ∈ ts ++ .integer cs :: us := by simp
    rw [h] at hmem
    cases List.mem_singleton.1 hmem
  · simpa using rulesForm_ne_nil h

-- The rules in the brackets of a conjunction or a disjunction, at least two of them.
theorem several_reads {g : List (Rule Float) → Rule Float} {e : Failure}
    (he : ∀ n, e.cause ≠ .longInteger n) {s1 : List Char} (h1 : s1.length < s.length) :
    Reads (do
      let (r, s2) ← rule s1
      let (rs, s3) ← furtherRules s2.1
      if rs.isEmpty then .error e
      else .ok (g (r :: rs), (⟨s3.1, Nat.lt_trans s3.2 (Nat.lt_trans s2.2 h1)⟩ : Rest s)))
      (.several g) s1 := by
  refine .bind (hrule s1 h1) (fun r s2 => ?_) ?_
  · have h2 := Nat.lt_trans s2.2 h1
    exact .keptMap (R := fun rs : List (Rule Float) => rs.isEmpty = true) (g := fun rs => g (r :: rs))
      (second_reads hfurther he h2) fun _ h => Nat.lt_trans h h2
  · rintro r ts _ ⟨rs, hrs, rfl⟩
    exact further_mark hrs.1

omit hfurther in
theorem counted_reads {g : Rule Float → Nat → Rule Float} {s1 : List Char}
    (h1 : s1.length < s.length) :
    Reads (do
      let (r, s2) ← rule s1
      let s3 ← expect ',' s2.1
      let (n, s4) ← integer s3.1
      let s5 ← expect ')' s4.1
      .ok (g r n, (⟨s5.1, Nat.lt_trans s5.2 (Nat.lt_trans s4.2 (Nat.lt_trans s3.2
        (Nat.lt_trans s2.2 h1)))⟩ : Rest s)))
      (.counted g) s1 := by
  refine .upTo (hrule s1 h1) (fun r s2 => .mark (by decide) fun s3 => ?_) (by decide)
  exact .upTo (integer_reads _) (fun n s4 => .mark (by decide) fun s5 => .pure) (by decide)

theorem rule_step : Reads (rule s) .rule s := by
  refine .skip ?_ fun ts r h => ruleForm_solid h
  have ht := bare_skipBlank s
  rw [rule]
  dsimp only
  split
  · rename_i hw
    refine .error (by intro n h; cases h) fun ts o u r h hu hs hr => ?_
    cases h with
    | call h =>
      rw [takeWord_of_rule ht hu hs hr, ofText?_text] at hw
      cases hw
  · rename_i w hw
    have htext := text_of_ofText? hw
    have hne : (takeWord (skipBlank s)).1 ≠ "" := ofText?_rule_ne (hw ▸ rfl)
    have hlength := Nat.lt_of_lt_of_le (takeWord_length_lt hne) (skipBlank_length s)
    refine Reads.narrow (L := .word _ (.mark '(' (.arguments w)))
      (Reads.word ht hne (Reads.mark (by decide) fun s1 => ?_)) ?_ ?_
    · have h1 := Nat.lt_trans s1.2 hlength
      cases w with
      | comparison c =>
        refine Reads.congr (L := .compared c) ?_ fun ts r => Language.compared_form
        refine .upTo (operand_reads _) (fun l s2 => .mark (by decide) fun s3 => ?_) (by decide)
        exact .upTo (operand_reads _) (fun r s4 => .mark (by decide) fun s5 => .pure) (by decide)
      | between =>
        refine Reads.congr (L := .between) ?_ fun ts r => Language.between_form
        refine .upTo (operand_reads _) (fun o s2 => .mark (by decide) fun s3 => ?_) (by decide)
        refine .upTo (number_reads _) (fun l s4 => .mark (by decide) fun s5 => ?_) (by decide)
        exact .upTo (number_reads _) (fun u s6 => .mark (by decide) fun s7 => .pure) (by decide)
      | not =>
        refine Reads.congr (L := .not) ?_ fun ts r => Language.not_form
        exact .upTo (hrule _ h1) (fun r s2 => .mark (by decide) fun s3 => .pure) (by decide)
      | consecutive =>
        exact (counted_reads hrule h1).congr fun ts r => Language.consecutive_form
      | anyOf =>
        exact (counted_reads hrule h1).congr fun ts r => Language.anyOf_form
      | all =>
        refine (several_reads hrule hfurther ?_ h1).congr fun ts r => Language.all_form
        exact fun n h => by cases h
      | any =>
        refine (several_reads hrule hfurther ?_ h1).congr fun ts r => Language.any_form
        exact fun n h => by cases h
    · rintro ts r ⟨_, rfl, us, rfl, hr⟩
      rw [htext]
      exact .call hr
    · intro ts r' u r h hu hs hr
      cases h with
      | @call w' us _ h =>
        have hsame := takeWord_of_rule ht hu hs hr
        rw [hsame] at hw
        cases (ofText?_text w').symm.trans hw
        exact ⟨_, hsame ▸ rfl, us, rfl, h⟩

omit hrule hfurther in
theorem rules_read (n : Nat) (s : List Char) (hn : s.length < n) :
    Reads (rule s) .rule s ∧ Reads (furtherRules s) .further s := by
  induction n generalizing s with
  | zero => exact absurd hn (Nat.not_lt_zero _)
  | succ n ih =>
    have hrule (t : List Char) (ht : t.length < s.length) := (ih t (by omega)).1
    have hfurther (t : List Char) (ht : t.length < s.length) := (ih t (by omega)).2
    exact ⟨rule_step hrule hfurther, furtherRules_step hrule hfurther⟩

omit hrule hfurther in
theorem rule_reads (s : List Char) : Reads (rule s) .rule s :=
  (rules_read (s.length + 1) s (Nat.lt_succ_self _)).1

end BarReplay.Rule.Parser
