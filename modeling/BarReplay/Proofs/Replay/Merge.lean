import BarReplay.Proofs.Replay.TradeLog
import BarReplay.Replay.Merge
import Mathlib.Data.List.Nodup

namespace BarReplay

variable {α : Type}

namespace Portfolio

-- The equity that a portfolio has at the end of a day: that of its latest point by then, and the
-- initial capital before there is one.
def equityBy (p : Portfolio α) (day : Date) : α :=
  ((p.curve.filter (·.date ≤ day)).getLast?.map (·.equity)).getD p.initialCapital

-- The equity that it has when the day begins.
def equityBefore (p : Portfolio α) (day : Date) : α :=
  ((p.curve.filter (·.date < day)).getLast?.map (·.equity)).getD p.initialCapital

-- Each point of the curve is later than those before it.
def Increasing (p : Portfolio α) : Prop :=
  p.curve.Pairwise fun x y => x.date < y.date

-- In a curve with increasing dates the point of a day follows all that are earlier.
theorem filter_le_eq_append {curve : List (EquityPoint α)}
    (h : curve.Pairwise fun x y => x.date < y.date) (day : Date) :
    curve.filter (·.date ≤ day) = curve.filter (·.date < day) ++ curve.filter (·.date == day) := by
  induction curve with
  | nil => rfl
  | cons x curve ih =>
    obtain ⟨hx, hcurve⟩ := List.pairwise_cons.1 h
    by_cases hday : x.date < day
    · have hne : (x.date == day) = false := by simpa using ne_of_lt hday
      simp only [hday, hday.le, hne, decide_true, Bool.false_eq_true, not_false_eq_true,
        List.filter_cons_of_pos, List.filter_cons_of_neg, ih hcurve, List.cons_append]
    · -- nothing is earlier from here on
      have hnone : (x :: curve).filter (·.date < day) = [] := by
        refine List.filter_eq_nil_iff.2 fun y hy => ?_
        have hxy : x.date ≤ y.date := by
          cases List.mem_cons.1 hy with
          | inl hyx => rw [hyx]
          | inr hy => exact (hx y hy).le
        simpa using (not_lt.1 hday).trans hxy
      rw [hnone, List.nil_append]
      refine List.filter_congr fun y hy => ?_
      have hyday : ¬ y.date < day := by
        simpa using List.filter_eq_nil_iff.1 hnone y hy
      simp only [Bool.beq_eq_decide_eq, decide_eq_decide]
      exact ⟨fun hle => le_antisymm hle (not_lt.1 hyday), fun heq => heq.le⟩

theorem equityOn?_eq (curve : List (EquityPoint α)) (day : Date) :
    Merge.equityOn? curve day = (curve.filter (·.date == day)).getLast?.map (·.equity) := by
  rw [Merge.equityOn?, ← List.head?_filter, List.filter_reverse, List.head?_reverse]

-- A day begins with the equity of before, and the point of the day replaces it.
theorem equityBy_eq {p : Portfolio α} (h : p.Increasing) (day : Date) :
    p.equityBy day = (Merge.equityOn? p.curve day).getD (p.equityBefore day) := by
  rw [equityOn?_eq, equityBy, equityBefore, filter_le_eq_append h, List.getLast?_append]
  cases (p.curve.filter (·.date == day)).getLast? <;> rfl

-- Between two days without a point in between the equity stays as it is.
theorem equityBefore_eq {p : Portfolio α} {day next : Date} (hnext : day < next)
    (hgap : ∀ x ∈ p.curve, x.date ≤ day ∨ next ≤ x.date) :
    p.equityBefore next = p.equityBy day := by
  have hfilter : p.curve.filter (·.date < next) = p.curve.filter (·.date ≤ day) := by
    refine List.filter_congr fun x hx => decide_eq_decide.2 ?_
    cases hgap x hx with
    | inl hle => exact iff_of_true (hle.trans_lt hnext) hle
    | inr hle => exact iff_of_false hle.not_gt (hnext.trans_le hle).not_ge
  rw [equityBefore, hfilter, equityBy]

theorem equityBefore_of_none {p : Portfolio α} {day : Date} (h : ∀ x ∈ p.curve, day ≤ x.date) :
    p.equityBefore day = p.initialCapital := by
  have hnone : p.curve.filter (·.date < day) = [] :=
    List.filter_eq_nil_iff.2 fun x hx => by simpa using h x hx
  rw [equityBefore, hnone]
  rfl

theorem equityBy_of_all {p : Portfolio α} {day : Date} (h : ∀ x ∈ p.curve, x.date ≤ day) :
    p.equityBy day = p.finalEquity := by
  have hall : p.curve.filter (·.date ≤ day) = p.curve :=
    List.filter_eq_self.2 fun x hx => by simpa using h x hx
  rw [equityBy, hall, finalEquity]
  cases p.curve.getLast? <;> rfl

-- What matters of a day is which points it comes after.
theorem equityBy_congr {p : Portfolio α} {day other : Date}
    (h : ∀ x ∈ p.curve, x.date ≤ day ↔ x.date ≤ other) : p.equityBy day = p.equityBy other := by
  have hfilter : p.curve.filter (·.date ≤ day) = p.curve.filter (·.date ≤ other) :=
    List.filter_congr fun x hx => decide_eq_decide.2 (h x hx)
  rw [equityBy, hfilter, equityBy]

end Portfolio

namespace Merge

open Amount Portfolio

section Curves

theorem addCurves_cons [Amount α] (ps : List (Portfolio α)) (day : Date) (days : List Date)
    (carried : Portfolio α → α) :
    addCurves (ps.map fun p => (p.curve, carried p)) (day :: days) =
      ⟨day, sum (ps.map fun p => (equityOn? p.curve day).getD (carried p))⟩ ::
        addCurves (ps.map fun p => (p.curve, (equityOn? p.curve day).getD (carried p))) days := by
  rw [addCurves]
  simp only [List.map_map]
  rfl

-- Adding up from some day on gives each day the sum of what the portfolios have by then, provided
-- that what is carried into the first day is what they have when it begins.
theorem addCurves_eq [Amount α] {ps : List (Portfolio α)} {days : List Date}
    {carried : Portfolio α → α} (hps : ∀ p ∈ ps, p.Increasing) (hdays : days.Pairwise (· < ·))
    (hcover : ∀ p ∈ ps, ∀ x ∈ p.curve, x.date ∈ days ∨ ∀ d ∈ days, x.date < d)
    (hcarried : ∀ p ∈ ps, ∀ d ∈ days.head?, carried p = p.equityBefore d) :
    addCurves (ps.map fun p => (p.curve, carried p)) days =
      days.map fun d => ⟨d, sum (ps.map fun p => p.equityBy d)⟩ := by
  induction days generalizing carried with
  | nil => rfl
  | cons day days ih =>
    obtain ⟨hday, hdays⟩ := List.pairwise_cons.1 hdays
    have hstep : ∀ p ∈ ps, (equityOn? p.curve day).getD (carried p) = p.equityBy day := by
      intro p hp
      rw [equityBy_eq (hps p hp), ← hcarried p hp day rfl]
    have hlater : ∀ p ∈ ps, ∀ x ∈ p.curve, x.date ∈ days ∨ ∀ d ∈ days, x.date < d := by
      intro p hp x hx
      cases hcover p hp x hx with
      | inr hbefore => exact .inr fun d hd => hbefore d (List.mem_cons_of_mem _ hd)
      | inl hmem =>
        cases List.mem_cons.1 hmem with
        | inl heq => exact .inr fun d hd => heq ▸ hday d hd
        | inr hmem => exact .inl hmem
    -- a point that is later than the day belongs to one of the days to come
    have hnext : ∀ p ∈ ps, ∀ d ∈ days.head?, p.equityBy day = p.equityBefore d := by
      intro p hp d hd
      obtain ⟨rest, rfl⟩ := List.head?_eq_some_iff.1 hd
      refine (equityBefore_eq (hday d List.mem_cons_self) fun x hx => ?_).symm
      cases hcover p hp x hx with
      | inr hbefore => exact .inl (hbefore day List.mem_cons_self).le
      | inl hmem =>
        rcases List.mem_cons.1 hmem with heq | hmem
        · exact .inl heq.le
        · rcases List.mem_cons.1 hmem with heq | hmem
          · exact .inr heq.ge
          · exact .inr ((List.pairwise_cons.1 hdays).1 _ hmem).le
    have hcurves : (ps.map fun p => (p.curve, (equityOn? p.curve day).getD (carried p))) =
        ps.map fun p => (p.curve, p.equityBy day) :=
      List.map_congr_left fun p hp => congrArg _ (hstep p hp)
    rw [addCurves_cons, List.map_congr_left hstep, hcurves, ih hdays hlater hnext, List.map_cons]

-- The curve of several portfolios together, over all of their dates.
def totalCurve [Amount α] (ps : List (Portfolio α)) : List (EquityPoint α) :=
  addCurves (ps.map fun p => (p.curve, p.initialCapital))
    (sortDates (ps.flatMap fun p => p.curve.map (·.date)))

variable {ps : List (Portfolio α)}

theorem mem_days {p : Portfolio α} (hp : p ∈ ps) {x : EquityPoint α} (hx : x ∈ p.curve) :
    x.date ∈ sortDates (ps.flatMap fun p => p.curve.map (·.date)) :=
  (mem_sortDates _).2 (List.mem_flatMap.2 ⟨p, hp, List.mem_map_of_mem hx⟩)

theorem totalCurve_eq [Amount α] (hps : ∀ p ∈ ps, p.Increasing) :
    totalCurve ps = (sortDates (ps.flatMap fun p => p.curve.map (·.date))).map
      fun d => ⟨d, sum (ps.map fun p => p.equityBy d)⟩ := by
  have hsorted := sortDates_pairwise (ps.flatMap fun p => p.curve.map (·.date))
  refine addCurves_eq hps hsorted (fun p hp x hx => .inl (mem_days hp hx)) fun p hp d hd => ?_
  obtain ⟨rest, hdays⟩ := List.head?_eq_some_iff.1 hd
  refine (equityBefore_of_none fun x hx => ?_).symm
  have hx := mem_days hp hx
  rw [hdays] at hx hsorted
  rcases List.mem_cons.1 hx with heq | hx
  · exact heq.ge
  · exact ((List.pairwise_cons.1 hsorted).1 _ hx).le

theorem totalCurve_dates [Amount α] (hps : ∀ p ∈ ps, p.Increasing) :
    (totalCurve ps).map (·.date) = sortDates (ps.flatMap fun p => p.curve.map (·.date)) := by
  rw [totalCurve_eq hps, List.map_map]
  exact List.map_id _

-- The curve of the whole gives the sum of what the parts have on every day, also on days that it
-- has no point for.
theorem equityBy_totalCurve [Amount α] {p : Portfolio α} (hps : ∀ q ∈ ps, q.Increasing) (hcurve : p.curve = totalCurve ps)
    (hinitial : p.initialCapital = sum (ps.map (·.initialCapital))) (day : Date) :
    p.equityBy day = sum (ps.map (·.equityBy day)) := by
  obtain ⟨days, hdays⟩ : ∃ days, days = sortDates (ps.flatMap fun p => p.curve.map (·.date)) :=
    ⟨_, rfl⟩
  have hsorted : days.Pairwise (· < ·) := hdays ▸ sortDates_pairwise _
  have hmem : ∀ q ∈ ps, ∀ x ∈ q.curve, x.date ∈ days := fun q hq x hx => hdays ▸ mem_days hq hx
  have hfilter : p.curve.filter (·.date ≤ day) =
      (days.filter (· ≤ day)).map fun d => ⟨d, sum (ps.map fun q => q.equityBy d)⟩ := by
    rw [hcurve, totalCurve_eq hps, ← hdays, List.filter_map]
    rfl
  rw [equityBy, hfilter, List.getLast?_map, Option.map_map]
  cases hlast : (days.filter (· ≤ day)).getLast? with
  | none =>
    -- no part has a point by then
    rw [List.getLast?_eq_none_iff, List.filter_eq_nil_iff] at hlast
    have hparts : ∀ q ∈ ps, q.equityBy day = q.initialCapital := by
      intro q hq
      have hnone : q.curve.filter (·.date ≤ day) = [] :=
        List.filter_eq_nil_iff.2 fun x hx => hlast _ (hmem q hq x hx)
      rw [equityBy, hnone]
      rfl
    rw [Option.map_none, Option.getD_none, hinitial, List.map_congr_left hparts]
  | some d =>
    obtain ⟨earlier, hsplit⟩ := List.getLast?_eq_some_iff.1 hlast
    have hd : d ≤ day := by
      have hd : d ∈ days.filter (· ≤ day) := by simp [hsplit]
      simpa using (List.mem_filter.1 hd).2
    have hlatest : ∀ e ∈ days, e ≤ day → e ≤ d := by
      intro e he heday
      have he : e ∈ earlier ++ [d] := hsplit ▸ List.mem_filter.2 ⟨he, by simpa using heday⟩
      have hearlier := hsplit ▸ hsorted.filter (· ≤ day)
      rcases List.mem_append.1 he with he | he
      · exact ((List.pairwise_append.1 hearlier).2.2 e he d List.mem_cons_self).le
      · exact (List.mem_singleton.1 he).le
    have hparts : ∀ q ∈ ps, q.equityBy d = q.equityBy day := fun q hq =>
      equityBy_congr fun x hx => ⟨fun h => h.trans hd, hlatest _ (hmem q hq x hx)⟩
    rw [Option.map_some, Option.getD_some]
    exact congrArg sum (List.map_congr_left hparts)

theorem exists_latest (days : List Date) : ∃ day, ∀ d ∈ days, d ≤ day := by
  induction days with
  | nil => exact ⟨⟨1, 1, 1, by decide, by decide, by decide⟩, List.forall_mem_nil _⟩
  | cons d days ih =>
    obtain ⟨day, hday⟩ := ih
    refine ⟨max d day, List.forall_mem_cons.2 ⟨le_max_left d day, fun e he => ?_⟩⟩
    exact (hday e he).trans (le_max_right d day)

-- The curve of the whole ends with the sum of what the curves of the parts end with.
theorem finalEquity_of_totalCurve [Amount α] {p : Portfolio α} (hps : ∀ p ∈ ps, p.Increasing)
    (hcurve : p.curve = totalCurve ps)
    (hinitial : p.initialCapital = sum (ps.map (·.initialCapital))) :
    p.finalEquity = sum (ps.map (·.finalEquity)) := by
  obtain ⟨day, hday⟩ := exists_latest (sortDates (ps.flatMap fun p => p.curve.map (·.date)))
  have hparts : ∀ q ∈ ps, q.equityBy day = q.finalEquity := fun q hq =>
    equityBy_of_all fun x hx => hday _ (mem_days hq hx)
  have hwhole : p.equityBy day = p.finalEquity := by
    refine equityBy_of_all fun x hx => hday _ ?_
    rw [← totalCurve_dates hps, ← hcurve]
    exact List.mem_map_of_mem hx
  rw [← hwhole, equityBy_totalCurve hps hcurve hinitial, List.map_congr_left hparts]

end Curves

section Trades

variable (trades : List (ClosedTrade α))

theorem exitLe_trans (a b c : ClosedTrade α) (hab : decide (a.exitDate ≤ b.exitDate) = true)
    (hbc : decide (b.exitDate ≤ c.exitDate) = true) : decide (a.exitDate ≤ c.exitDate) = true :=
  decide_eq_true (le_trans (of_decide_eq_true hab) (of_decide_eq_true hbc))

theorem exitLe_total (a b : ClosedTrade α) :
    (decide (a.exitDate ≤ b.exitDate) || decide (b.exitDate ≤ a.exitDate)) = true := by
  simpa only [Bool.or_eq_true, decide_eq_true_eq] using le_total a.exitDate b.exitDate

theorem sortTrades_pairwise :
    (sortTrades trades).Pairwise fun t u => t.exitDate ≤ u.exitDate :=
  (List.pairwise_mergeSort exitLe_trans exitLe_total trades).imp of_decide_eq_true

-- Trades that are closed on the same day stay in order.
theorem sortTrades_filter (day : Date) :
    (sortTrades trades).filter (·.exitDate == day) = trades.filter (·.exitDate == day) := by
  rw [sortTrades, ← mergeSort_filter exitLe_trans exitLe_total]
  refine List.mergeSort_of_pairwise (List.pairwise_of_forall_mem_list ?_)
  intro t ht u hu
  have ht : t.exitDate = day := by simpa using (List.mem_filter.1 ht).2
  have hu : u.exitDate = day := by simpa using (List.mem_filter.1 hu).2
  exact decide_eq_true (ht.trans hu.symm).le

end Trades

-- What has been seen is left out, and so is what is seen again later on.
theorem distinct_from (seen codes : List String) :
    codes.foldl (fun seen c => if seen.contains c then seen else seen ++ [c]) seen =
      seen ++ (codes.filter (· ∉ seen)).eraseDups := by
  induction codes generalizing seen with
  | nil => simp
  | cons c codes ih =>
    rw [List.foldl_cons, ih]
    by_cases hc : c ∈ seen
    · rw [if_pos (List.contains_iff_mem.2 hc), List.filter_cons_of_neg (by simpa using hc)]
    · have hrest : codes.filter (· ∉ seen ++ [c]) =
          (codes.filter (· ∉ seen)).filter fun b => !b == c := by
        rw [List.filter_filter]
        refine List.filter_congr fun b _ => ?_
        simp [Bool.and_comm, Bool.beq_eq_decide_eq]
      rw [if_neg (mt List.contains_iff_mem.1 hc), List.filter_cons_of_pos (by simpa using hc),
        List.eraseDups_cons, hrest, List.append_assoc, List.singleton_append]

theorem distinct_eq_eraseDups (codes : List String) : distinct codes = codes.eraseDups := by
  exact (distinct_from [] codes).trans (by simp)

theorem nodup_foldl_distinct {seen : List String} (hseen : seen.Nodup) (codes : List String) :
    (codes.foldl (fun seen c => if seen.contains c then seen else seen ++ [c]) seen).Nodup := by
  induction codes generalizing seen with
  | nil => exact hseen
  | cons c codes ih =>
    rw [List.foldl_cons]
    apply ih
    by_cases hc : c ∈ seen
    · rwa [if_pos (List.contains_iff_mem.2 hc)]
    · rw [if_neg (mt List.contains_iff_mem.1 hc), ← List.concat_eq_append]
      exact hseen.concat hc

theorem nodup_distinct (codes : List String) : (distinct codes).Nodup :=
  nodup_foldl_distinct List.nodup_nil codes

section Positions

variable {held ps : List (Position α)}

-- Positions of different instruments are all added.
theorem addPositions_of_nodup (h : ((held ++ ps).map Position.code).Nodup) :
    addPositions held ps = .ok (held ++ ps) := by
  induction ps generalizing held with
  | nil => rw [addPositions, List.append_nil]
  | cons p ps ih =>
    have hnew : held.any (·.code == p.code) ≠ true := by
      intro hany
      obtain ⟨q, hq, hcode⟩ := List.any_eq_true.1 hany
      rw [List.map_append, List.map_cons, List.nodup_middle] at h
      refine (List.nodup_cons.1 h).1 (List.mem_append_left _ (List.mem_map.2 ⟨q, hq, ?_⟩))
      simpa using hcode
    rw [List.append_cons] at h
    rw [addPositions, if_neg hnew, ih h, ← List.append_cons]

-- Adding stops at the first position of an instrument that is held already.
theorem exists_of_addPositions_error {e : MergeError} (h : addPositions held ps = .error e) :
    ∃ before p after, ps = before ++ p :: after ∧ e = .openTwice p.code ∧
      ∃ q ∈ held ++ before, q.code = p.code := by
  induction ps generalizing held with
  | nil => cases h
  | cons p ps ih =>
    rw [addPositions] at h
    split at h
    · rename_i hany
      cases h
      obtain ⟨q, hq, hcode⟩ := List.any_eq_true.1 hany
      exact ⟨[], p, ps, rfl, rfl, q, by simpa using hq, by simpa using hcode⟩
    · obtain ⟨before, r, after, rfl, rfl, q, hq, hcode⟩ := ih h
      exact ⟨p :: before, r, after, rfl, rfl, q, by simpa using hq, hcode⟩

theorem nodup_of_addPositions_ok {r : List (Position α)} (hheld : (held.map Position.code).Nodup)
    (h : addPositions held ps = .ok r) : ((held ++ ps).map Position.code).Nodup := by
  induction ps generalizing held with
  | nil => simpa using hheld
  | cons p ps ih =>
    rw [addPositions] at h
    split at h
    · cases h
    · rename_i hany
      rw [List.append_cons]
      refine ih ?_ h
      rw [List.map_append, List.map_singleton, List.nodup_middle, List.append_nil, List.nodup_cons]
      refine ⟨fun hmem => hany ?_, hheld⟩
      obtain ⟨q, hq, hcode⟩ := List.mem_map.1 hmem
      exact List.any_eq_true.2 ⟨q, hq, by simpa using hcode⟩

end Positions

end Merge

namespace Result

-- An instrument is open in two of the results.
def HeldTwice (results : List (Result α)) (code : String) : Prop :=
  ∃ r s, [r, s].Sublist results ∧ r.portfolio.holds code = true ∧ s.portfolio.holds code = true

variable {results : List (Result α)}

theorem holds_iff {p : Portfolio α} {code : String} :
    p.holds code = true ↔ ∃ pos ∈ p.positions, pos.code = code := by
  rw [← Bool.not_eq_false, Portfolio.holds_eq_false_iff, not_not, List.mem_map]

-- An instrument is open in two of the results just if two of all positions belong to it.
theorem pairwise_positions_iff (hsingle : ∀ r ∈ results, r.portfolio.Single) (code : String) :
    (results.flatMap (·.portfolio.positions)).Pairwise
        (fun p q => ¬ (p.code = code ∧ q.code = code)) ↔ ¬ HeldTwice results code := by
  have hown : ∀ r ∈ results, r.portfolio.positions.Pairwise
      fun p q => ¬ (p.code = code ∧ q.code = code) := fun r hr =>
    (List.pairwise_map.1 (hsingle r hr)).imp fun hne h => hne (h.1.trans h.2.symm)
  rw [List.pairwise_flatMap, and_iff_right hown, List.pairwise_iff_forall_sublist]
  constructor
  · rintro h ⟨r, s, hrs, hr, hs⟩
    obtain ⟨p, hp, hpcode⟩ := holds_iff.1 hr
    obtain ⟨q, hq, hqcode⟩ := holds_iff.1 hs
    exact h hrs p hp q hq ⟨hpcode, hqcode⟩
  · rintro h r s hrs p hp q hq ⟨hpcode, hqcode⟩
    exact h ⟨r, s, hrs, holds_iff.2 ⟨p, hp, hpcode⟩, holds_iff.2 ⟨q, hq, hqcode⟩⟩

theorem nodup_positions_iff (hsingle : ∀ r ∈ results, r.portfolio.Single) :
    ((results.flatMap (·.portfolio.positions)).map Position.code).Nodup ↔
      ∀ code, ¬ HeldTwice results code := by
  rw [List.Nodup, List.pairwise_map]
  constructor
  · intro h code
    exact (pairwise_positions_iff hsingle code).1
      (h.imp fun hne hcode => hne (hcode.1.trans hcode.2.symm))
  · intro h
    rw [List.pairwise_iff_forall_sublist]
    intro p q hpq hcode
    exact List.pairwise_iff_forall_sublist.1 ((pairwise_positions_iff hsingle q.code).2 (h q.code))
      hpq ⟨hcode, rfl⟩

-- What the result of putting results together says of them.
structure Sums [Amount α] (results : List (Result α)) (m : Result α) : Prop where
  dates : (m.portfolio.curve.map (·.date)).Pairwise (· < ·)
  mem_dates : ∀ d, d ∈ m.portfolio.curve.map (·.date) ↔
    ∃ r ∈ results, d ∈ r.portfolio.curve.map (·.date)
  equity : ∀ x ∈ m.portfolio.curve,
    x.equity = Amount.sum (results.map fun r => r.portfolio.equityBy x.date)
  cash : m.portfolio.cash = Amount.sum (results.map (·.portfolio.cash))
  initialCapital : m.portfolio.initialCapital =
    Amount.sum (results.map (·.portfolio.initialCapital))
  finalEquity : m.portfolio.finalEquity = Amount.sum (results.map (·.portfolio.finalEquity))
  trades : m.portfolio.trades.Perm (results.flatMap (·.portfolio.trades))
  exits : m.portfolio.trades.Pairwise fun t u => t.exitDate ≤ u.exitDate
  ties : ∀ d, m.portfolio.trades.filter (·.exitDate == d) =
    (results.flatMap (·.portfolio.trades)).filter (·.exitDate == d)
  positions : m.portfolio.positions = results.flatMap (·.portfolio.positions)
  single : m.portfolio.Single
  codes : m.codes = (results.flatMap (·.codes)).eraseDups

-- Putting results together fails just if adding their positions does.
theorem merge_cons [Amount α] (first : Result α) (rest : List (Result α)) :
    merge (first :: rest) =
      (Merge.addPositions [] ((first :: rest).flatMap (·.portfolio.positions))).map fun positions =>
        { strategy := first.strategy
          settings := first.settings
          portfolio :=
            { initialCapital := Amount.sum ((first :: rest).map (·.portfolio.initialCapital))
              cash := Amount.sum ((first :: rest).map (·.portfolio.cash))
              positions := positions
              trades := Merge.sortTrades ((first :: rest).flatMap (·.portfolio.trades))
              curve := Merge.totalCurve ((first :: rest).map (·.portfolio)) }
          codes := Merge.distinct ((first :: rest).flatMap (·.codes))
          exchange := first.exchange
          skipped := (first :: rest).flatMap (·.skipped) } := by
  simp only [merge, List.flatMap_map, List.map_map, Merge.totalCurve]
  rfl

-- Results that hold no instrument twice are put together.
theorem exists_merge [Amount α] (hne : results ≠ [])
    (hsingle : ∀ r ∈ results, r.portfolio.Single)
    (hcurves : ∀ r ∈ results, r.portfolio.Increasing) (hapart : ∀ code, ¬ HeldTwice results code) :
    ∃ m, merge results = .ok m ∧ Sums results m := by
  obtain ⟨first, rest, rfl⟩ := List.exists_cons_of_ne_nil hne
  have hnodup := (nodup_positions_iff hsingle).2 hapart
  have hps : ∀ p ∈ (first :: rest).map (·.portfolio), p.Increasing := List.forall_mem_map.2 hcurves
  have hadd : Merge.addPositions [] ((first :: rest).flatMap (·.portfolio.positions)) =
      .ok ((first :: rest).flatMap (·.portfolio.positions)) :=
    Merge.addPositions_of_nodup hnodup
  have hdates := Merge.totalCurve_dates hps
  rw [merge_cons, hadd]
  refine ⟨_, rfl, ?_⟩
  constructor
  case dates => exact hdates ▸ sortDates_pairwise _
  case mem_dates =>
    intro d
    refine (iff_of_eq (congrArg (d ∈ ·) hdates)).trans ?_
    rw [mem_sortDates, List.flatMap_map, List.mem_flatMap]
  case equity =>
    intro x hx
    rw [Merge.totalCurve_eq hps] at hx
    obtain ⟨d, -, rfl⟩ := List.mem_map.1 hx
    rw [List.map_map]
    rfl
  case cash => rfl
  case initialCapital => rfl
  case finalEquity =>
    refine (Merge.finalEquity_of_totalCurve hps rfl ?_).trans ?_
    · rw [List.map_map]
      rfl
    · rw [List.map_map]
      rfl
  case trades => exact List.mergeSort_perm _ _
  case exits => exact Merge.sortTrades_pairwise _
  case ties => exact Merge.sortTrades_filter _
  case positions => rfl
  case single => exact hnodup
  case codes => exact Merge.distinct_eq_eraseDups _

-- Results that hold an instrument twice are refused, with the name of such an instrument.
theorem merge_of_heldTwice [Amount α] (hsingle : ∀ r ∈ results, r.portfolio.Single)
    {code : String} (h : HeldTwice results code) :
    ∃ named, merge results = .error (.openTwice named) ∧ HeldTwice results named := by
  cases results with
  | nil =>
    obtain ⟨r, s, hsub, -⟩ := h
    cases hsub
  | cons first rest =>
    rw [merge_cons]
    cases hadd : Merge.addPositions [] ((first :: rest).flatMap (·.portfolio.positions)) with
    | ok ps =>
      have hnone : (([] : List (Position α)).map Position.code).Nodup := List.nodup_nil
      have hnodup := Merge.nodup_of_addPositions_ok hnone hadd
      exact absurd h ((nodup_positions_iff hsingle).1 hnodup code)
    | error e =>
      obtain ⟨before, p, after, hsplit, rfl, q, hq, hcode⟩ :=
        Merge.exists_of_addPositions_error hadd
      refine ⟨p.code, rfl, ?_⟩
      by_contra hnot
      have hpairwise := (pairwise_positions_iff hsingle p.code).2 hnot
      rw [hsplit, List.pairwise_append] at hpairwise
      exact hpairwise.2.2 q hq p List.mem_cons_self ⟨hcode, rfl⟩

-- Results of portfolios that hold each instrument once, with increasing curves, are put together
-- without loss: the curve of the whole is on all of their days and adds up what each has by then,
-- money is added up, trades are put in order of exit and positions side by side. Nothing is put
-- together of no results, nor of two that hold the same instrument.
theorem merge_conserves [Amount α] (results : List (Result α))
    (hsingle : ∀ r ∈ results, r.portfolio.Single) :
    (results ≠ [] → (∀ r ∈ results, r.portfolio.Increasing) →
        (∀ code, ¬ HeldTwice results code) → ∃ m, merge results = .ok m ∧ Sums results m) ∧
      (results = [] → merge results = .error .noResults) ∧
      ∀ code, HeldTwice results code →
        ∃ named, merge results = .error (.openTwice named) ∧ HeldTwice results named := by
  refine ⟨fun hne hcurves hapart => exists_merge hne hsingle hcurves hapart, ?_,
    fun code h => merge_of_heldTwice hsingle h⟩
  rintro rfl
  rfl

section Funds

open Engine

-- A fund that holds ten shares of an instrument, with a curve in March.
def fund (code : String) (capital : Float) (curve : List (EquityPoint Float))
    (exits : List Date) : Result Float where
  strategy := aroundTen
  settings := withShorts
  portfolio :=
    { initialCapital := capital
      cash := capital
      positions := [⟨code, "X", 10, 2, march 19 (by decide), 0, 0, 0⟩]
      trades := exits.map fun day => ⟨code, "X", 1, 2, 3, march 18 (by decide), day, 1⟩
      curve := curve }
  codes := [code, "ZZZ"]
  exchange := "X"
  skipped := []

-- One curve has a gap, one starts late and ends early, and one has no points.
def funds : List (Result Float) :=
  [fund "AAA" 100 [⟨march 19 (by decide), 110⟩, ⟨march 21 (by decide), 120⟩]
      [march 20 (by decide), march 21 (by decide)],
    fund "BBB" 50 [⟨march 20 (by decide), 55⟩] [march 20 (by decide)],
    fund "CCC" 7 [] []]

theorem merge_conserves_funds :
    funds ≠ [] ∧ (∀ r ∈ funds, r.portfolio.Single) ∧ (∀ r ∈ funds, r.portfolio.Increasing) ∧
      (∀ code, ¬ HeldTwice funds code) ∧
      ∃ m, merge funds = .ok m ∧ m.codes = ["AAA", "ZZZ", "BBB", "CCC"] ∧
        (m.portfolio.trades.filter (·.exitDate == march 20 (by decide))).map (·.code) =
          ["AAA", "BBB"] ∧
        m.portfolio.finalEquity = 182 ∧
        m.portfolio.curve.map (fun x => (x.date, x.equity)) =
          [(march 19 (by decide), 167), (march 20 (by decide), 172),
            (march 21 (by decide), 182)] := by
  have hsingle : ∀ r ∈ funds, r.portfolio.Single := by
    unfold Portfolio.Single
    decide
  have hcurves : ∀ r ∈ funds, r.portfolio.Increasing := by
    unfold Portfolio.Increasing
    decide
  have hapart : ∀ code, ¬ HeldTwice funds code := (nodup_positions_iff hsingle).1 (by decide)
  have hne : funds ≠ [] := List.cons_ne_nil _ _
  obtain ⟨m, hm, hsums⟩ := (merge_conserves funds hsingle).1 hne hcurves hapart
  have hdays : m.portfolio.curve.map (·.date) =
      [march 19 (by decide), march 20 (by decide), march 21 (by decide)] := by
    refine increasing_ext hsums.dates (by decide) fun d => (hsums.mem_dates d).trans ?_
    simp [funds, fund]
    tauto
  have hcurve : m.portfolio.curve.map (fun x => (x.date, x.equity)) =
      (m.portfolio.curve.map (·.date)).map fun d =>
        (d, Amount.sum (funds.map fun r => r.portfolio.equityBy d)) := by
    rw [List.map_map]
    exact List.map_congr_left fun x hx => Prod.ext rfl (hsums.equity x hx)
  refine ⟨hne, hsingle, hcurves, hapart, m, hm, hsums.codes, ?_, ?_, ?_⟩
  · rw [hsums.ties]
    decide
  · rw [hsums.finalEquity]
    decide +kernel
  · rw [hcurve, hdays]
    decide +kernel

end Funds

end Result

end BarReplay
