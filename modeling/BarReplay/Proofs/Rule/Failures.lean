import BarReplay.Proofs.Rule.Stuck

namespace BarReplay.Rule.Parser

open Decimal Grammar Indicator Text

variable {β γ δ : Type} {aside : Failure → Prop} {s t : List Char} {f : Failure}

-- A calculation with what has been read adds no failure.
theorem Halts.map {p : Except Failure δ} {L : Language β} {M : Language γ} {ε : Type} {g : δ → ε}
    (hp : Halts aside p L s) (h : ∀ ts x, L.form ts x → ∃ y, M.form ts y) :
    Halts aside (p >>= fun y => .ok (g y)) M s := by
  intro f hf
  obtain hf | ⟨y, -, hf⟩ := except_bind_eq_error.1 hf
  · exact hp.mono h f hf
  · cases hf

-- A step that refuses some values, and then a mark with what stands behind it.
theorem Halts.upToKept {P : List Char → Prop} {c : Char} {R : β → Prop} [DecidablePred R]
    {p : Except Failure (β × { r : List Char // P r })} {L : Language β} {M : β → Language γ}
    {f : β × { r : List Char // P r } → Except Failure δ} {e : Failure}
    (hread : Reads (p >>= fun y => if R y.1 then .error e else .ok y) L s)
    (hp : Halts aside (p >>= fun y => if R y.1 then .error e else .ok y) L s)
    (hf : ∀ x r, Halts aside (f (x, r)) (.mark c (M x)) r.1) (hbrief : ∀ x, (M x).Brief) :
    Halts aside (p >>= fun y => if R y.1 then .error e else f y) (.upTo c L M) s := by
  rw [Reads.bind_refuse]
  exact .upTo hread hp hf hbrief

namespace Language.Brief

theorem pure (x : β) : (Language.pure x).Brief :=
  ⟨[], x, ⟨rfl, rfl⟩, by simp [Short]⟩

theorem mark {c : Char} {L : Language β} (h : L.Brief) : (Language.mark c L).Brief :=
  let ⟨ts, x, hts, hshort⟩ := h
  ⟨.mark c :: ts, x, ⟨ts, rfl, hts⟩, by simpa [Short] using hshort⟩

theorem map {g : β → γ} {L : Language β} (h : L.Brief) : (L.map g).Brief :=
  let ⟨ts, x, hts, hshort⟩ := h
  ⟨ts, g x, ⟨x, hts, rfl⟩, hshort⟩

theorem bind {L : Language β} {M : β → Language γ} (h : L.Brief) (h' : ∀ x, (M x).Brief) :
    (L.bind M).Brief := by
  obtain ⟨ts, x, hts, hshort⟩ := h
  obtain ⟨us, y, hus, hshort'⟩ := h' x
  exact ⟨ts ++ us, y, ⟨ts, us, x, rfl, hts, hus⟩, Short.append.2 ⟨hshort, hshort'⟩⟩

theorem upTo {c : Char} {L : Language β} {M : β → Language γ} (h : L.Brief)
    (h' : ∀ x, (M x).Brief) : (Language.upTo c L M).Brief :=
  h.bind fun x => (h' x).mark

theorem integer : Language.integer.Brief :=
  ⟨_, _, integerForm_one, by simp [Short]; decide⟩

theorem multiplier : Language.multiplier.Brief := by
  obtain ⟨ts, x, h⟩ := Language.multiplier.inhabited
  obtain ⟨cs, c, rest, rfl, -⟩ := numberForm_solid h.1
  exact ⟨_, x, h, by simp [Short]⟩

theorem number : Language.number.Brief :=
  let ⟨ts, x, h, hshort⟩ := multiplier
  ⟨ts, x, h.1, hshort⟩

theorem operand : Language.operand.Brief :=
  ⟨_, _, operandForm_close, by simp [Short]⟩

theorem rule : Language.rule.Brief :=
  ⟨_, _, .call (.compare (c := .above) operandForm_close operandForm_close), by simp [Short]⟩

theorem second : Language.second.Brief := by
  obtain ⟨ts, r, hr, hshort⟩ := rule
  exact ⟨_, [r], ⟨.inr ⟨ts, rfl, .one hr⟩, by simp⟩, by simpa [Short] using hshort⟩

theorem further : Language.further.Brief :=
  let ⟨ts, rs, h, hshort⟩ := second
  ⟨ts, rs, h.1, hshort⟩

theorem arguments (w : RuleWord) : (Language.arguments w).Brief := by
  obtain ⟨ts, r, hr, hshort⟩ := rule
  obtain ⟨ns, n, hn, hshort'⟩ := integer
  obtain ⟨xs, x, hx, hshort''⟩ := number
  cases w with
  | comparison c =>
    exact ⟨_, _, .compare operandForm_close operandForm_close, by simp [Short]⟩
  | between => exact ⟨_, _, .between operandForm_close hx hx, by simpa [Short] using hshort''⟩
  | all => exact ⟨_, _, .all (.more hr (.one hr)) (by simp), by simpa [Short] using hshort⟩
  | any => exact ⟨_, _, .any (.more hr (.one hr)) (by simp), by simpa [Short] using hshort⟩
  | not => exact ⟨_, _, .not hr, by simpa [Short] using hshort⟩
  | consecutive =>
    exact ⟨_, _, .consecutive hr hn, Short.append.2 ⟨hshort, by simpa [Short] using hshort'⟩⟩
  | anyOf => exact ⟨_, _, .anyOf hr hn, Short.append.2 ⟨hshort, by simpa [Short] using hshort'⟩⟩

end Language.Brief

theorem integer_prompt (h : integer s = .error f) : f.Prompt s := by
  unfold integer at h
  split at h
  · rename_i hspan
    cases h
    exact ⟨rfl, id, rfl, by rw [hspan]⟩
  · rename_i d ds r hspan
    split at h
    · rename_i hlimit
      cases h
      refine ⟨rfl, id, ?_, hlimit⟩
      rw [hspan]
    · split at h
      · rename_i hzero
        cases h
        refine ⟨rfl, id, ?_⟩
        simp only [ParseCause.FoundIn, hspan]
        exact ⟨by simp, by omega⟩
      · cases h

theorem number_prompt (h : number (α := Float) s = .error f) : f.Prompt s := by
  unfold number at h
  split at h
  · rename_i hscan
    cases h
    exact ⟨rfl, id, rfl, hscan⟩
  · rename_i l r hscan
    dsimp only at h
    split at h
    · cases h
    · rename_i hfinite
      cases h
      exact ⟨rfl, id, l, r, hscan, Bool.not_eq_true _ ▸ hfinite⟩

-- A step that fails only at its first token.
theorem Halts.of_prompt {p : Except Failure δ} {L : Language β} (hbrief : L.Brief)
    (h : ∀ f, p = .error f → f.Prompt s) : Halts aside p L s :=
  fun f hf => .inr (.first hbrief (h f hf))

theorem integer_halts (s : List Char) : Halts aside (integer s) .integer s :=
  .of_prompt .integer fun _ => integer_prompt

theorem number_halts (s : List Char) : Halts aside (number (α := Float) s) .number s :=
  .of_prompt .number fun _ => number_prompt

theorem period_halts (s : List Char) : Halts aside (period s) .period s := by
  refine .mark (.upTo .integer .pure) fun s1 => ?_
  exact .upTo (integer_reads _) (integer_halts _) (fun n s2 => .mark (.pure n) fun s3 => .ok) .pure

theorem twoPeriods_halts (s : List Char) : Halts aside (twoPeriods s) .twoPeriods s := by
  have hlast (m : Nat) : (Language.upTo ')' .integer fun n => .pure (m, n)).Brief :=
    .upTo .integer fun n => .pure (m, n)
  refine .mark (.upTo .integer hlast) fun s1 => ?_
  refine .upTo (integer_reads _) (integer_halts _) (fun m s2 => .mark (hlast m) fun s3 => ?_) hlast
  exact .upTo (integer_reads _) (integer_halts _) (fun n s4 => .mark (.pure _) fun s5 => .ok)
    fun n => .pure (m, n)

theorem threePeriods_halts (s : List Char) : Halts aside (threePeriods s) .threePeriods s := by
  have hlast (l m : Nat) : (Language.upTo ')' .integer fun n => .pure (l, m, n)).Brief :=
    .upTo .integer fun n => .pure (l, m, n)
  have hlater (l : Nat) : (Language.upTo ',' .integer fun m =>
      .upTo ')' .integer fun n => .pure (l, m, n)).Brief := .upTo .integer (hlast l)
  refine .mark (.upTo .integer hlater) fun s1 => ?_
  refine .upTo (integer_reads _) (integer_halts _) (fun l s2 => .mark (hlater l) fun s3 => ?_)
    hlater
  refine .upTo (integer_reads _) (integer_halts _) (fun m s4 => .mark (hlast l m) fun s5 => ?_)
    (hlast l)
  exact .upTo (integer_reads _) (integer_halts _) (fun n s6 => .mark (.pure _) fun s7 => .ok)
    fun n => .pure (l, m, n)

-- A negative multiplier is reported where the reading of the number began.
theorem multiplier_halts (s : List Char) :
    Halts aside
      (number s >>= fun y => if y.1 < (0 : Float) then .error ⟨.negativeMultiplier, s⟩ else .ok y)
      .multiplier s := by
  intro f hf
  obtain hf | ⟨⟨x, r⟩, hx, hf⟩ := except_bind_eq_error.1 hf
  · exact .inr (.first Language.Brief.multiplier (number_prompt hf))
  · dsimp only at hf
    split at hf
    · rename_i hnegative
      cases hf
      obtain ⟨l, hscan, rfl, -⟩ := number_eq_ok_iff.1 hx
      exact .inr (.late Language.Brief.multiplier trivial rfl ⟨l, _, hscan, hnegative⟩)
    · cases hf

theorem periodAndMultiplier_halts (s : List Char) :
    Halts aside (periodAndMultiplier (α := Float) s) .periodAndMultiplier s := by
  have hlast (n : Nat) : (Language.upTo ')' .multiplier fun m => .pure (n, m)).Brief :=
    .upTo .multiplier fun m => .pure (n, m)
  refine .mark (.upTo .integer hlast) fun s1 => ?_
  refine .upTo (integer_reads _) (integer_halts _) (fun n s2 => .mark (hlast n) fun s3 => ?_) hlast
  exact .upToKept (R := fun m : Float => m < 0) (multiplier_reads _) (multiplier_halts _)
    (fun m s4 => .mark (.pure _) fun s5 => .ok) fun m => .pure (n, m)

theorem operandAfter_halts {text : String} {w : OperandWord} (h : (text, w) ∈ OperandWord.table)
    (start s : List Char) : Halts aside (operandAfter (α := Float) start (some w) s) (.parameters h) s := by
  cases w with
  | price | obv | vwap => exact .ok
  | windowed w =>
    refine (period_halts s).map fun ts n hperiod => ?_
    obtain ⟨ns, rfl, hn⟩ := Language.period_form.1 hperiod
    exact ⟨_, .windowed hn⟩
  | part k f =>
    obtain rfl | rfl | rfl | rfl := kind_of_part h
    · refine (threePeriods_halts s).map fun ts ⟨l, m, n⟩ hperiods => ?_
      obtain ⟨ls, ms, ns, rfl, hl, hm, hn⟩ := Language.threePeriods_form.1 hperiods
      exact ⟨_, .macd hl hm hn⟩
    · refine (twoPeriods_halts s).map fun ts ⟨m, n⟩ hperiods => ?_
      obtain ⟨ms, ns, rfl, hm, hn⟩ := Language.twoPeriods_form.1 hperiods
      exact ⟨_, .stochastic hm hn⟩
    · refine (periodAndMultiplier_halts s).map fun ts ⟨n, x⟩ hboth => ?_
      obtain ⟨ns, xs, rfl, hn, hx, hsign⟩ := Language.periodAndMultiplier_form.1 hboth
      exact ⟨_, .bollinger hn hx hsign⟩
    · exact .ok

theorem operand_halts (s : List Char) : Halts aside (operand (α := Float) s) .operand s := by
  unfold operand
  dsimp only
  change Halts aside (if beginsNumber (skipBlank s) = true then _ else _) _ _
  split
  · refine Halts.map (L := .number) (M := .operand)
      (.of_prompt .number fun f hf => ?_) fun ts x hx => ⟨_, .constant hx⟩
    obtain ⟨hfront, hearly, hfound⟩ := number_prompt hf
    exact ⟨hfront.trans (bare_skipBlank s), hearly, hfound⟩
  · rename_i hnumber
    split
    · rename_i hw
      obtain ⟨w, hw⟩ := Option.isSome_iff_exists.1 hw
      have hmem := mem_of_ofText? hw
      simp only [hw]
      refine Halts.mono (L := .word _ (.parameters hmem)) (.word rfl ?_) ?_
      · exact (operandAfter_halts hmem _ _).map fun ts o ho => ⟨o, ho⟩
      · rintro ts o ⟨us, rfl, ho⟩
        exact ⟨o, .word hmem ho⟩
    · rename_i hw
      refine .of_prompt .operand fun f hf => ?_
      cases hf
      exact ⟨rfl, id, rfl, Bool.not_eq_true _ ▸ hnumber, Option.not_isSome_iff_eq_none.1 hw⟩

theorem compared_halts {c : Comparison} {s1 : List Char} (h1 : s1.length < s.length) :
    Halts aside (do
      let (l, s2) ← operand (α := Float) s1
      let s3 ← expect ',' s2.1
      let (r, s4) ← operand (α := Float) s3.1
      let s5 ← expect ')' s4.1
      .ok (Rule.compare c l r, (⟨s5.1, Nat.lt_trans s5.2 (Nat.lt_trans s4.2 (Nat.lt_trans s3.2
        (Nat.lt_trans s2.2 h1)))⟩ : Rest s)))
      (.compared c) s1 := by
  have hlast (l : Operand Float) :
      (Language.upTo ')' .operand fun r => .pure (Rule.compare c l r)).Brief :=
    .upTo .operand fun r => .pure _
  refine .upTo (operand_reads _) (operand_halts _) (fun l s2 => .mark (hlast l) fun s3 => ?_) hlast
  exact .upTo (operand_reads _) (operand_halts _) (fun r s4 => .mark (.pure _) fun s5 => .ok)
    fun r => .pure _

theorem between_halts {s1 : List Char} (h1 : s1.length < s.length) :
    Halts aside (do
      let (o, s2) ← operand (α := Float) s1
      let s3 ← expect ',' s2.1
      let (l, s4) ← number (α := Float) s3.1
      let s5 ← expect ',' s4.1
      let (u, s6) ← number (α := Float) s5.1
      let s7 ← expect ')' s6.1
      .ok (Rule.between o l u, (⟨s7.1, Nat.lt_trans s7.2 (Nat.lt_trans s6.2 (Nat.lt_trans s5.2
        (Nat.lt_trans s4.2 (Nat.lt_trans s3.2 (Nat.lt_trans s2.2 h1)))))⟩ : Rest s)))
      .between s1 := by
  have hlast (o : Operand Float) (l : Float) :
      (Language.upTo ')' .number fun u => .pure (Rule.between o l u)).Brief :=
    .upTo .number fun u => .pure _
  have hlater (o : Operand Float) : (Language.upTo ',' .number fun l =>
      .upTo ')' .number fun u => .pure (Rule.between o l u)).Brief := .upTo .number (hlast o)
  refine .upTo (operand_reads _) (operand_halts _) (fun o s2 => .mark (hlater o) fun s3 => ?_)
    hlater
  refine .upTo (number_reads _) (number_halts _) (fun l s4 => .mark (hlast o l) fun s5 => ?_)
    (hlast o)
  exact .upTo (number_reads _) (number_halts _) (fun u s6 => .mark (.pure _) fun s7 => .ok)
    fun u => .pure _

-- A step of the recursion gives up where it should if the steps behind it do.
section Recursion

variable (hrule : ∀ t : List Char, t.length < s.length → ∀ aside,
    Halts aside (rule (α := Float) t) .rule t)
  (hfurther : ∀ t : List Char, t.length < s.length → ∀ aside,
    Halts aside (furtherRules (α := Float) t) .second t)

include hrule

theorem counted_halts {g : Rule Float → Nat → Rule Float} {s1 : List Char}
    (h1 : s1.length < s.length) :
    Halts aside (do
      let (r, s2) ← rule s1
      let s3 ← expect ',' s2.1
      let (n, s4) ← integer s3.1
      let s5 ← expect ')' s4.1
      .ok (g r n, (⟨s5.1, Nat.lt_trans s5.2 (Nat.lt_trans s4.2 (Nat.lt_trans s3.2
        (Nat.lt_trans s2.2 h1)))⟩ : Rest s)))
      (.counted g) s1 := by
  have hlast (r : Rule Float) : (Language.upTo ')' .integer fun n => .pure (g r n)).Brief :=
    .upTo .integer fun n => .pure (g r n)
  refine .upTo (rule_reads s1) (hrule s1 h1 aside) (fun r s2 => .mark (hlast r) fun s3 => ?_) hlast
  exact .upTo (integer_reads _) (integer_halts _) (fun n s4 => .mark (.pure _) fun s5 => .ok)
    fun n => .pure (g r n)

include hfurther

-- Further rules only fail behind a comma or in its place, so there is one that can be read.
theorem furtherRules_halts_step : Halts aside (furtherRules (α := Float) s) .second s := by
  have hmap (r : Rule Float) : (Language.map (r :: ·) .further).Brief := .map .further
  rw [furtherRules]
  dsimp only
  split
  · exact .ok
  · refine Halts.mono (L := .mark ',' (.bind .rule fun r => .map (r :: ·) .further))
      (.mark (.bind .rule hmap) fun s1 => .bind (rule_reads _) (hrule _ s1.2 aside)
        (fun r s2 => ?_) hmap) ?_
    · exact (hfurther _ (Nat.lt_trans s2.2 s1.2) aside).map fun ts rs hrs => ⟨_, rs, hrs.1, rfl⟩
    · rintro ts _ ⟨_, rfl, us, vs, r, rfl, hr, rs, hrs, rfl⟩
      refine ⟨r :: rs, ?_, by simp⟩
      obtain ⟨rfl, rfl⟩ | ⟨ws, rfl, hws⟩ := hrs
      · exact .inr ⟨us, rfl, .one hr⟩
      · exact .inr ⟨us ++ .mark ',' :: ws, by simp, .more hr hws⟩

-- A conjunction or a disjunction with one rule fails at its own word.
theorem several_halts {g : List (Rule Float) → Rule Float} {e : Failure} {s1 : List Char}
    (h1 : s1.length < s.length) :
    Halts (· = e) (do
      let (r, s2) ← rule s1
      let (rs, s3) ← furtherRules s2.1
      if rs.isEmpty then .error e
      else .ok (g (r :: rs), (⟨s3.1, Nat.lt_trans s3.2 (Nat.lt_trans s2.2 h1)⟩ : Rest s)))
      (.several g) s1 := by
  have hmap (r : Rule Float) : (Language.map (fun rs => g (r :: rs)) .second).Brief := .map .second
  refine .bind (rule_reads s1) (hrule s1 h1 _) (fun r s2 => ?_) hmap
  intro f hf
  obtain hf | ⟨⟨rs, s3⟩, -, hf⟩ := except_bind_eq_error.1 hf
  · refine (hfurther _ (Nat.lt_trans s2.2 h1) (· = e) f hf).imp_right fun hstuck => ?_
    exact hstuck.mono fun ts rs hrs => ⟨_, rs, hrs, rfl⟩
  · dsimp only at hf
    split at hf
    · cases hf
      exact .inl rfl
    · cases hf

theorem rule_halts_step : Halts aside (rule (α := Float) s) .rule s := by
  rw [rule]
  dsimp only
  split
  · rename_i hw
    refine .of_prompt .rule fun f hf => ?_
    cases hf
    exact ⟨rfl, id, rfl, hw⟩
  · rename_i w hw
    intro f hf
    have htext := text_of_ofText? hw
    have hne : (takeWord (skipBlank s)).1 ≠ "" := ofText?_rule_ne (hw ▸ rfl)
    have hlength := Nat.lt_of_lt_of_le (takeWord_length_lt hne) (skipBlank_length s)
    -- the check for a second rule belongs to the word in front of everything that is read here
    have hbody : f = ⟨.fewRules w, s⟩ ∨
        Stuck (Language.word (takeWord (skipBlank s)).1 (.mark '(' (.arguments w))).form s f := by
      refine (?_ : Halts (· = ⟨.fewRules w, s⟩) _ _ s) f hf
      refine Halts.word rfl (Halts.mark ?_ fun s1 => ?_)
      · exact .arguments w
      · have h1 := Nat.lt_trans s1.2 hlength
        cases w with
        | comparison c =>
          exact (compared_halts h1).mono fun ts r h => ⟨r, Language.compared_form.1 h⟩
        | between =>
          exact (between_halts h1).mono fun ts r h => ⟨r, Language.between_form.1 h⟩
        | not =>
          refine Halts.mono (L := .not) ?_ fun ts r h => ⟨r, Language.not_form.1 h⟩
          exact .upTo (rule_reads _) (hrule _ h1 _) (fun r s2 => .mark (.pure _) fun s3 => .ok)
            fun r => .pure _
        | consecutive =>
          exact (counted_halts hrule h1).mono fun ts r h => ⟨r, Language.consecutive_form.1 h⟩
        | anyOf =>
          exact (counted_halts hrule h1).mono fun ts r h => ⟨r, Language.anyOf_form.1 h⟩
        | all =>
          exact (several_halts hrule hfurther h1).mono fun ts r h => ⟨r, Language.all_form.1 h⟩
        | any =>
          exact (several_halts hrule hfurther h1).mono fun ts r h => ⟨r, Language.any_form.1 h⟩
    refine .inr ?_
    obtain rfl | hstuck := hbody
    · exact .late Language.Brief.rule trivial rfl htext
    · refine hstuck.mono ?_
      rintro ts r ⟨_, rfl, us, rfl, hr⟩
      rw [htext]
      exact ⟨r, .call hr⟩

end Recursion

theorem rules_halt (n : Nat) (s : List Char) (hn : s.length < n) (aside : Failure → Prop) :
    Halts aside (rule (α := Float) s) .rule s ∧
      Halts aside (furtherRules (α := Float) s) .second s := by
  induction n generalizing s aside with
  | zero => exact absurd hn (Nat.not_lt_zero _)
  | succ n ih =>
    have hrule (t : List Char) (ht : t.length < s.length) (aside : Failure → Prop) :=
      (ih t (by omega) aside).1
    have hfurther (t : List Char) (ht : t.length < s.length) (aside : Failure → Prop) :=
      (ih t (by omega) aside).2
    exact ⟨rule_halts_step hrule hfurther, furtherRules_halts_step hrule hfurther⟩

theorem rule_stuck (h : rule (α := Float) s = .error f) :
    Stuck (RuleForm : List Token → Rule Float → Prop) s f :=
  ((rules_halt (s.length + 1) s (Nat.lt_succ_self _) fun _ => False).1 f h).resolve_left id

-- Whatever fails in a text stands behind what a rule may begin with.
theorem whole_stuck (h : whole (α := Float) s = .error f) :
    Stuck (RuleForm : List Token → Rule Float → Prop) s f := by
  obtain h | ⟨⟨r, t⟩, hread, h⟩ := except_bind_eq_error.1 h
  · exact rule_stuck h
  · obtain ⟨ts, u, hform, hshort, hu, hs⟩ := (rule_reads s).sound r t hread
    obtain ⟨blanks, ht, hblank⟩ := exists_blanks t.1
    have hbare := bare_skipBlank t.1
    dsimp only at h
    split at h
    · cases h
    · rename_i hrest
      cases h
      refine ⟨ts, [], r, u, blanks, (List.append_nil ts).symm ▸ hform, by simp [Short], ⟨hu, hshort⟩,
        ?_, hs.trans (congrArg (u ++ ·) ht)⟩
      refine ⟨hblank, False.elim, fun _ => hbare, ?_⟩
      rw [show skipBlank (skipBlank t.1) = skipBlank t.1 from hbare]
      exact ⟨rfl, hrest⟩

end BarReplay.Rule.Parser
