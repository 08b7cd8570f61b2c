import BarReplay.Proofs.Rule.Tokens

namespace BarReplay.Rule.Parser

open Decimal Grammar Indicator Text

variable {β γ : Type} {P Q : List Char → Prop} {s : List Char}

-- What stands in front of a mark, and what stands behind it.
def Language.upTo (c : Char) (L : Language β) (M : β → Language γ) : Language γ :=
  L.bind fun x => .mark c (M x)

theorem Language.upTo_form {c : Char} {L : Language β} {M : β → Language γ} {ts : List Token}
    {y : γ} : (upTo c L M).form ts y ↔
      ∃ us vs x, ts = us ++ .mark c :: vs ∧ L.form us x ∧ (M x).form vs y := by
  constructor
  · rintro ⟨us, _, x, rfl, hx, vs, rfl, hy⟩
    exact ⟨us, vs, x, rfl, hx, hy⟩
  · rintro ⟨us, vs, x, rfl, hx, hy⟩
    exact ⟨us, _, x, rfl, hx, vs, rfl, hy⟩

-- The last of several, with the mark that closes them.
theorem Language.upTo_pure_form {c : Char} {L : Language β} {f : β → γ} {ts : List Token} {y : γ} :
    (upTo c L fun x => .pure (f x)).form ts y ↔
      ∃ us x, ts = us ++ [.mark c] ∧ L.form us x ∧ y = f x := by
  rw [upTo_form]
  constructor
  · rintro ⟨us, _, x, rfl, hx, rfl, rfl⟩
    exact ⟨us, x, rfl, hx, rfl⟩
  · rintro ⟨us, x, rfl, hx, rfl⟩
    exact ⟨us, [], x, rfl, hx, rfl, rfl⟩

-- Only what stands for some values.
def Language.keep (L : Language β) (keep : β → Prop) (h : ∃ ts x, L.form ts x ∧ keep x) :
    Language β where
  form ts x := L.form ts x ∧ keep x
  inhabited := h

namespace Reads

theorem upTo {c : Char} {p : Except Failure (β × { r : List Char // P r })} {L : Language β}
    {M : β → Language γ}
    {f : β × { r : List Char // P r } → Except Failure (γ × { r : List Char // Q r })}
    (hp : Reads p L s) (hf : ∀ x r, Reads (f (x, r)) (.mark c (M x)) r.1) (hc : Apart c) :
    Reads (p >>= f) (.upTo c L M) s :=
  .bind hp hf fun _ _ _ ⟨us, h, _⟩ => ⟨c, us, h, hc⟩

-- A step that refuses some values. None of these has an integer in its text.
theorem keep {p : Except Failure (β × { r : List Char // P r })} {L : Language β}
    {R : β → Prop} [DecidablePred R] {e : Failure} (hp : Reads p L s)
    (he : ∀ n, e.cause ≠ .longInteger n) (h : ∃ ts x, L.form ts x ∧ ¬ R x)
    (hinteger : ∀ ts cs us x, L.form (ts ++ .integer cs :: us) x → ¬ R x) :
    Reads (p >>= fun y => if R y.1 then .error e else .ok y)
      (L.keep (fun x => ¬ R x) h) s where
  sound x r hx := by
    obtain ⟨y, hy, hx⟩ := except_bind_eq_ok.1 hx
    split at hx
    · cases hx
    · rename_i hkeep
      cases hx
      obtain ⟨ts, u, hts, hrest⟩ := hp.sound x r hy
      exact ⟨ts, u, ⟨hts, hkeep⟩, hrest⟩
  complete ts x u r hform hu hs hr := by
    obtain ⟨q, hx, hq⟩ | ⟨hshort, hlong⟩ := hp.complete ts x u r hform.1 hu hs hr
    · refine .inl ⟨q, except_bind_eq_ok.2 ⟨_, hx, ?_⟩, hq⟩
      rw [if_neg hform.2]
    · exact .inr ⟨hshort, hlong.bind _⟩
  long hlong := by
    obtain hlong | ⟨y, -, f, n, hf, hn⟩ := hlong.of_bind
    · obtain ⟨cs, ⟨front, ds, rest, ⟨ts, cs', us, x, body, blanks, hform, hdue⟩, hs⟩, hlimit⟩ :=
        hp.long hlong
      exact ⟨cs, ⟨front, ds, rest, ⟨ts, cs', us, x, body, blanks,
        ⟨hform, hinteger _ _ _ _ hform⟩, hdue⟩, hs⟩, hlimit⟩
    · split at hf
      · cases hf
        exact absurd hn (he n)
      · cases hf

theorem bind_refuse {p : Except Failure β} {R : β → Prop} [DecidablePred R] {e : Failure}
    (f : β → Except Failure γ) :
    (p >>= fun y => if R y then .error e else f y) =
      (p >>= fun y => if R y then .error e else .ok y) >>= f := by
  cases p with
  | error e' => rfl
  | ok y =>
    change (if R y then Except.error e else f y) = (if R y then Except.error e else .ok y) >>= f
    split <;> rfl

theorem upToKept {c : Char} {p : Except Failure (β × { r : List Char // P r })} {L : Language β}
    {M : β → Language γ} {R : β → Prop} [DecidablePred R] {e : Failure}
    {f : β × { r : List Char // P r } → Except Failure (γ × { r : List Char // Q r })}
    (hp : Reads (p >>= fun y => if R y.1 then .error e else .ok y) L s)
    (hf : ∀ x r, Reads (f (x, r)) (.mark c (M x)) r.1) (hc : Apart c) :
    Reads (p >>= fun y => if R y.1 then .error e else f y) (.upTo c L M) s := by
  rw [bind_refuse]
  exact hp.upTo hf hc

theorem keptMap {p : Except Failure (β × { r : List Char // P r })} {L : Language β} {R : β → Prop}
    [DecidablePred R] {e : Failure} {g : β → γ}
    (hp : Reads (p >>= fun y => if R y.1 then .error e else .ok y) L s) (h : ∀ r, P r → Q r) :
    Reads (p >>= fun y => if R y.1 then .error e
      else .ok (g y.1, (⟨y.2.1, h _ y.2.2⟩ : { r // Q r }))) (L.map g) s := by
  rw [bind_refuse]
  exact hp.map h

-- A language may be put in the place of another one with the same spellings at the text.
theorem narrow {p : Except Failure (β × { r : List Char // P r })} {L M : Language β}
    (hp : Reads p L s) (hLM : ∀ ts x, L.form ts x → M.form ts x)
    (hML : ∀ ts x u r, M.form ts x → Spaced ts u → s = u ++ r → Stops r → L.form ts x) :
    Reads p M s where
  sound x r hx := by
    obtain ⟨ts, u, hts, hrest⟩ := hp.sound x r hx
    exact ⟨ts, u, hLM ts x hts, hrest⟩
  complete ts x u r hform hu hs hr :=
    hp.complete ts x u r (hML ts x u r hform hu hs hr) hu hs hr
  long hlong := (hp.long hlong).extend .nil fun us x hx => ⟨[], x, by simpa using hLM us x hx⟩

-- A failure is right where nothing is spelled.
theorem error {L : Language β} {e : Failure} (he : ∀ n, e.cause ≠ .longInteger n)
    (h : ∀ ts x u r, L.form ts x → Spaced ts u → s = u ++ r → Stops r → False) :
    Reads (.error e : Except Failure (β × { r : List Char // P r })) L s where
  sound x r hx := by cases hx
  complete ts x u r hform hu hs hr := (h ts x u r hform hu hs hr).elim
  long hlong := by
    obtain ⟨f, n, hf, hn⟩ := hlong
    cases hf
    exact absurd hn (he n)

end Reads

def Language.period : Language Nat :=
  .mark '(' (.upTo ')' .integer .pure)

theorem Language.period_form {ts : List Token} {n : Nat} :
    period.form ts n ↔ ∃ ns, ts = .mark '(' :: (ns ++ [.mark ')']) ∧ IntegerForm ns n := by
  constructor
  · rintro ⟨_, rfl, hn⟩
    obtain ⟨ns, n, rfl, hn, rfl⟩ := upTo_pure_form.1 hn
    exact ⟨ns, rfl, hn⟩
  · rintro ⟨ns, rfl, hn⟩
    exact ⟨_, rfl, upTo_pure_form.2 ⟨ns, n, rfl, hn, rfl⟩⟩

theorem period_reads (s : List Char) : Reads (period s) .period s := by
  refine .mark (by decide) fun s1 => ?_
  refine .upTo (integer_reads _) (fun n s2 => ?_) (by decide)
  exact .mark (by decide) fun s3 => .pure

def Language.twoPeriods : Language (Nat × Nat) :=
  .mark '(' (.upTo ',' .integer fun m => .upTo ')' .integer fun n => .pure (m, n))

theorem Language.twoPeriods_form {ts : List Token} {m n : Nat} :
    twoPeriods.form ts (m, n) ↔ ∃ ms ns, ts = .mark '(' :: (ms ++ .mark ',' :: (ns ++ [.mark ')'])) ∧
      IntegerForm ms m ∧ IntegerForm ns n := by
  constructor
  · rintro ⟨_, rfl, h⟩
    obtain ⟨ms, _, m, rfl, hm, h⟩ := upTo_form.1 h
    obtain ⟨ns, n, rfl, hn, ⟨⟩⟩ := upTo_pure_form.1 h
    exact ⟨ms, ns, rfl, hm, hn⟩
  · rintro ⟨ms, ns, rfl, hm, hn⟩
    exact ⟨_, rfl, upTo_form.2 ⟨ms, _, m, rfl, hm, upTo_pure_form.2 ⟨ns, n, rfl, hn, rfl⟩⟩⟩

theorem twoPeriods_reads (s : List Char) : Reads (twoPeriods s) .twoPeriods s := by
  refine .mark (by decide) fun s1 => ?_
  refine .upTo (integer_reads _) (fun m s2 => ?_) (by decide)
  refine .mark (by decide) fun s3 => ?_
  refine .upTo (integer_reads _) (fun n s4 => ?_) (by decide)
  exact .mark (by decide) fun s5 => .pure

def Language.threePeriods : Language (Nat × Nat × Nat) :=
  .mark '(' (.upTo ',' .integer fun l =>
    .upTo ',' .integer fun m => .upTo ')' .integer fun n => .pure (l, m, n))

theorem Language.threePeriods_form {ts : List Token} {l m n : Nat} :
    threePeriods.form ts (l, m, n) ↔ ∃ ls ms ns,
      ts = .mark '(' :: (ls ++ .mark ',' :: (ms ++ .mark ',' :: (ns ++ [.mark ')']))) ∧
      IntegerForm ls l ∧ IntegerForm ms m ∧ IntegerForm ns n := by
  constructor
  · rintro ⟨_, rfl, h⟩
    obtain ⟨ls, _, l, rfl, hl, h⟩ := upTo_form.1 h
    obtain ⟨ms, _, m, rfl, hm, h⟩ := upTo_form.1 h
    obtain ⟨ns, n, rfl, hn, ⟨⟩⟩ := upTo_pure_form.1 h
    exact ⟨ls, ms, ns, rfl, hl, hm, hn⟩
  · rintro ⟨ls, ms, ns, rfl, hl, hm, hn⟩
    exact ⟨_, rfl, upTo_form.2 ⟨ls, _, l, rfl, hl, upTo_form.2 ⟨ms, _, m, rfl, hm,
      upTo_pure_form.2 ⟨ns, n, rfl, hn, rfl⟩⟩⟩⟩

theorem threePeriods_reads (s : List Char) : Reads (threePeriods s) .threePeriods s := by
  refine .mark (by decide) fun s1 => ?_
  refine .upTo (integer_reads _) (fun l s2 => ?_) (by decide)
  refine .mark (by decide) fun s3 => ?_
  refine .upTo (integer_reads _) (fun m s4 => ?_) (by decide)
  refine .mark (by decide) fun s5 => ?_
  refine .upTo (integer_reads _) (fun n s6 => ?_) (by decide)
  exact .mark (by decide) fun s7 => .pure

def Language.multiplier : Language Float :=
  Language.number.keep (fun x => ¬ x < 0) <| by
    have hzero : Digits ['0'] [0] := rfl
    exact ⟨_, _, .written (.positive (.whole hzero (by decide)) .absent) isFinite_zero,
      by decide⟩

def Language.periodAndMultiplier : Language (Nat × Float) :=
  .mark '(' (.upTo ',' .integer fun n => .upTo ')' .multiplier fun m => .pure (n, m))

theorem Language.periodAndMultiplier_form {ts : List Token} {n : Nat} {x : Float} :
    periodAndMultiplier.form ts (n, x) ↔ ∃ ns xs,
      ts = .mark '(' :: (ns ++ .mark ',' :: (xs ++ [.mark ')'])) ∧
      IntegerForm ns n ∧ NumberForm xs x ∧ ¬ x < 0 := by
  constructor
  · rintro ⟨_, rfl, h⟩
    obtain ⟨ns, _, n, rfl, hn, h⟩ := upTo_form.1 h
    obtain ⟨xs, x, rfl, ⟨hx, hsign⟩, ⟨⟩⟩ := upTo_pure_form.1 h
    exact ⟨ns, xs, rfl, hn, hx, hsign⟩
  · rintro ⟨ns, xs, rfl, hn, hx, hsign⟩
    exact ⟨_, rfl, upTo_form.2 ⟨ns, _, n, rfl, hn, upTo_pure_form.2 ⟨xs, x, rfl, ⟨hx, hsign⟩, rfl⟩⟩⟩

theorem numberForm_integer_free {ts us : List Token} {cs : List Char} {x : Float}
    (h : NumberForm (ts ++ .integer cs :: us) x) : False := by
  generalize hts : ts ++ Token.integer cs :: us = vs at h
  cases h with
  | written =>
    have hmem : Token.integer cs ∈ ts ++ Token.integer cs :: us := by simp
    rw [hts] at hmem
    cases List.mem_singleton.1 hmem

theorem multiplier_reads (s : List Char) :
    Reads (number s >>= fun y => if y.1 < (0 : Float) then .error ⟨.negativeMultiplier, s⟩ else .ok y)
      .multiplier s := by
  refine .keep (R := fun m : Float => m < 0) (number_reads s) ?_ _ ?_
  · intro n h
    cases h
  · intro ts cs us x h
    exact (numberForm_integer_free h).elim

theorem periodAndMultiplier_reads (s : List Char) :
    Reads (periodAndMultiplier s) .periodAndMultiplier s := by
  refine .mark (by decide) fun s1 => ?_
  refine .upTo (integer_reads _) (fun n s2 => ?_) (by decide)
  refine .mark (by decide) fun s3 => ?_
  refine .upToKept (R := fun m : Float => m < 0) (multiplier_reads _) (fun m s4 => ?_) (by decide)
  exact .mark (by decide) fun s5 => .pure

end BarReplay.Rule.Parser
