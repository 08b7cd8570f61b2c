import BarReplay.Proofs.Decimal.Zeros
import BarReplay.Proofs.Replay.Failures
import BarReplay.Proofs.Replay.Merge

namespace BarReplay

variable {α : Type}

namespace Portfolio

theorem equityBy_of_mem {p : Portfolio α} (hp : p.Increasing) {x : EquityPoint α}
    (hx : x ∈ p.curve) : p.equityBy x.date = x.equity := by
  obtain ⟨before, after, hcurve⟩ := List.append_of_mem hx
  rw [Increasing, hcurve, List.pairwise_append, List.pairwise_cons] at hp
  have hafter : after.filter (·.date ≤ x.date) = [] :=
    List.filter_eq_nil_iff.2 fun y hy => by simpa using hp.2.1.1 y hy
  rw [equityBy, hcurve, List.filter_append, List.filter_cons_of_pos (by simp), hafter,
    List.getLast?_concat]
  rfl

end Portfolio

namespace Merge

open Amount Portfolio

section Sums

theorem sum_singleton_alike (x : Float) : Double.Alike (sum [x]) x :=
  Double.Alike.zero_add x

theorem foldl_alike {x y : Float} (h : Double.Alike x y) (zs : List Float) :
    Double.Alike (zs.foldl (· + ·) x) (zs.foldl (· + ·) y) := by
  induction zs generalizing x y with
  | nil => exact h
  | cons z zs ih => exact ih (h.add_right z)

-- Adding goes on from the sum of a first part.
theorem sum_regroup (xs ys : List Float) :
    Double.Alike (sum (sum xs :: ys)) (sum (xs ++ ys)) := by
  have hfirst := foldl_alike (Double.Alike.zero_add (sum xs)) ys
  unfold sum at hfirst ⊢
  rwa [List.foldl_append]

end Sums

section Curves

variable [Amount α] {ps : List (Portfolio α)} {p : Portfolio α}

-- A single curve is not changed, except that its amounts are added to nothing.
theorem totalCurve_singleton (hp : p.Increasing) :
    totalCurve [p] = p.curve.map fun x => ⟨x.date, sum [x.equity]⟩ := by
  have hdates : sortDates ([p].flatMap fun p => p.curve.map (·.date)) = p.curve.map (·.date) := by
    refine increasing_ext (sortDates_pairwise _) (List.pairwise_map.2 hp) fun d => ?_
    rw [mem_sortDates, List.flatMap_singleton]
  rw [totalCurve_eq (List.forall_mem_singleton.2 hp), hdates, List.map_map]
  refine List.map_congr_left fun x hx => ?_
  simp only [Function.comp_apply, List.map_cons, List.map_nil, equityBy_of_mem hp hx]

theorem increasing_of_totalCurve (hps : ∀ q ∈ ps, q.Increasing) (hcurve : p.curve = totalCurve ps) :
    p.Increasing := by
  have hsorted := sortDates_pairwise (ps.flatMap fun p => p.curve.map (·.date))
  rw [← totalCurve_dates hps, ← hcurve] at hsorted
  exact List.pairwise_map.1 hsorted

theorem sortDates_append (days more : List Date) :
    sortDates (sortDates days ++ more) = sortDates (days ++ more) := by
  refine increasing_ext (sortDates_pairwise _) (sortDates_pairwise _) fun d => ?_
  simp only [mem_sortDates, List.mem_append]

-- A whole stands for its parts when further curves are added to it.
theorem totalCurve_regroup {ps more : List (Portfolio Float)} {p : Portfolio Float}
    (hps : ∀ q ∈ ps, q.Increasing) (hmore : ∀ q ∈ more, q.Increasing)
    (hcurve : p.curve = totalCurve ps)
    (hinitial : p.initialCapital = sum (ps.map (·.initialCapital))) :
    List.Forall₂ (fun x y => x.date = y.date ∧ Double.Alike x.equity y.equity)
      (totalCurve (p :: more)) (totalCurve (ps ++ more)) := by
  have hp : p.Increasing := increasing_of_totalCurve hps hcurve
  have hdays : sortDates ((p :: more).flatMap fun q => q.curve.map (·.date)) =
      sortDates ((ps ++ more).flatMap fun q => q.curve.map (·.date)) := by
    rw [List.flatMap_cons, List.flatMap_append, hcurve, totalCurve_dates hps, sortDates_append]
  rw [totalCurve_eq (List.forall_mem_cons.2 ⟨hp, hmore⟩),
    totalCurve_eq (List.forall_mem_append.2 ⟨hps, hmore⟩), hdays, List.forall₂_map_left_iff,
    List.forall₂_map_right_iff, List.forall₂_same]
  intro d _
  refine ⟨rfl, ?_⟩
  rw [List.map_cons, List.map_append, equityBy_totalCurve hps hcurve hinitial]
  exact sum_regroup _ _

end Curves

section Trades

variable (trades more : List (ClosedTrade α))

-- Sorting a part beforehand makes no difference.
theorem sortTrades_append : sortTrades (sortTrades trades ++ more) = sortTrades (trades ++ more) := by
  apply eq_of_ordered (sortTrades_pairwise _) (sortTrades_pairwise _)
  intro day
  rw [sortTrades_filter, sortTrades_filter, List.filter_append, List.filter_append,
    sortTrades_filter]

theorem sortTrades_of_ordered {trades : List (ClosedTrade α)}
    (h : trades.Pairwise fun t u => t.exitDate ≤ u.exitDate) : sortTrades trades = trades :=
  List.mergeSort_of_pairwise (h.imp decide_eq_true)

end Trades

section Codes

theorem distinct_of_nodup {codes : List String} (h : codes.Nodup) : distinct codes = codes := by
  rw [distinct_eq_eraseDups]
  induction codes with
  | nil => rfl
  | cons c codes ih =>
    obtain ⟨hc, hcodes⟩ := List.nodup_cons.1 h
    have hrest : codes.filter (fun b => !b == c) = codes := by
      refine List.filter_eq_self.2 fun b hb => ?_
      have hne : b ≠ c := fun heq => hc (heq ▸ hb)
      simpa using hne
    rw [List.eraseDups_cons, hrest, ih hcodes]

theorem distinct_distinct_append (codes more : List String) :
    distinct (distinct codes ++ more) = distinct (codes ++ more) := by
  have htwice : distinct (distinct codes) = distinct codes := distinct_of_nodup (nodup_distinct codes)
  unfold distinct at htwice ⊢
  rw [List.foldl_append, htwice, List.foldl_append]

end Codes

section Positions

variable {held ps : List (Position α)}

theorem eq_of_addPositions_ok {r : List (Position α)} (h : addPositions held ps = .ok r) :
    r = held ++ ps := by
  induction ps generalizing held with
  | nil =>
    cases h
    exact (List.append_nil r).symm
  | cons p ps ih =>
    rw [addPositions] at h
    split at h
    · cases h
    · rw [ih h, ← List.append_cons]

theorem addPositions_append (held ps more : List (Position α)) :
    addPositions held (ps ++ more) = addPositions held ps >>= fun r => addPositions r more := by
  induction ps generalizing held with
  | nil => rfl
  | cons p ps ih =>
    rw [List.cons_append, addPositions, addPositions]
    split
    · rfl
    · exact ih _

end Positions

end Merge

namespace Engine

-- What a run returns is in order as it stands.
theorem alone_of_run [Amount α] {settings : Settings α} {s : Strategy α}
    {instruments : List (Instrument α)} {days : Option (List Date)} {r : Result α}
    (h : run settings s instruments days = .ok r) :
    r.portfolio.Increasing ∧
      (r.portfolio.trades.Pairwise fun t u => t.exitDate ≤ u.exitDate) ∧
      r.codes.Nodup ∧ r.portfolio.Single := by
  obtain ⟨hdates, hincreasing⟩ := dates_of_run h
  have hcurve : r.portfolio.Increasing := by
    rw [← hdates] at hincreasing
    exact List.pairwise_map.1 hincreasing
  obtain ⟨hcodes, p, hp, rfl⟩ := (run_eq_ok_iff _ _ _).1 h
  obtain ⟨-, hdays, -⟩ := replay_dates hp
  have hlog : Chronicle settings.execution instruments p :=
    chronicle_of_replay hcodes hdays (.new _) (fun day _ => .new day _ _) hp
  exact ⟨hcurve, hlog.ordered, hcodes, hlog.single⟩

end Engine

namespace Result

open Amount

-- What results make up together if no instrument is open in two of them.
def together [Amount α] (first : Result α) (rest : List (Result α)) : Result α where
  strategy := first.strategy
  settings := first.settings
  portfolio :=
    { initialCapital := sum ((first :: rest).map (·.portfolio.initialCapital))
      cash := sum ((first :: rest).map (·.portfolio.cash))
      positions := (first :: rest).flatMap (·.portfolio.positions)
      trades := Merge.sortTrades ((first :: rest).flatMap (·.portfolio.trades))
      curve := Merge.totalCurve ((first :: rest).map (·.portfolio)) }
  codes := Merge.distinct ((first :: rest).flatMap (·.codes))
  exchange := first.exchange
  skipped := (first :: rest).flatMap (·.skipped)

theorem merge_eq_together [Amount α] (first : Result α) (rest : List (Result α)) :
    merge (first :: rest) =
      (Merge.addPositions [] ((first :: rest).flatMap (·.portfolio.positions))).map
        fun _ => together first rest := by
  rw [merge_cons]
  cases hadd : Merge.addPositions [] ((first :: rest).flatMap (·.portfolio.positions)) with
  | error e => rfl
  | ok positions =>
    rw [Merge.eq_of_addPositions_ok hadd]
    rfl

-- Two results that tell the same, except that one may have a zero with another sign.
structure Agrees (r s : Result Float) : Prop where
  strategy : r.strategy = s.strategy
  settings : r.settings = s.settings
  initialCapital : Double.Alike r.portfolio.initialCapital s.portfolio.initialCapital
  cash : Double.Alike r.portfolio.cash s.portfolio.cash
  positions : r.portfolio.positions = s.portfolio.positions
  trades : r.portfolio.trades = s.portfolio.trades
  curve : List.Forall₂ (fun x y => x.date = y.date ∧ Double.Alike x.equity y.equity)
    r.portfolio.curve s.portfolio.curve
  codes : r.codes = s.codes
  exchange : r.exchange = s.exchange
  skipped : r.skipped = s.skipped

theorem together_regroup {first : Result Float} {rest more : List (Result Float)}
    (hcurves : ∀ r ∈ first :: rest ++ more, r.portfolio.Increasing) :
    Agrees (together (together first rest) more) (together first (rest ++ more)) := by
  constructor
  case strategy => rfl
  case settings => rfl
  case initialCapital =>
    have hsum := Merge.sum_regroup ((first :: rest).map (·.portfolio.initialCapital))
      (more.map (·.portfolio.initialCapital))
    rwa [← List.map_append] at hsum
  case cash =>
    have hsum := Merge.sum_regroup ((first :: rest).map (·.portfolio.cash))
      (more.map (·.portfolio.cash))
    rwa [← List.map_append] at hsum
  case positions => simp [together]
  case trades =>
    have hsort := Merge.sortTrades_append ((first :: rest).flatMap (·.portfolio.trades))
      (more.flatMap (·.portfolio.trades))
    rwa [← List.flatMap_append] at hsort
  case curve =>
    obtain ⟨hfirst, hmore⟩ := List.forall_mem_append.1 hcurves
    have hinitial : (together first rest).portfolio.initialCapital =
        sum (((first :: rest).map (·.portfolio)).map (·.initialCapital)) := by
      rw [List.map_map]
      rfl
    have hcurve := Merge.totalCurve_regroup (List.forall_mem_map.2 hfirst)
      (List.forall_mem_map.2 hmore) (p := (together first rest).portfolio) rfl hinitial
    rwa [← List.map_append] at hcurve
  case codes =>
    have hcodes := Merge.distinct_distinct_append ((first :: rest).flatMap (·.codes))
      (more.flatMap (·.codes))
    rwa [← List.flatMap_append] at hcodes
  case exchange => rfl
  case skipped => simp [together]

-- A result that stands alone is as it should be already: its curve increases, its trades are in
-- order of exit, and no code is listed twice.
theorem together_alone {r : Result Float} (hcurve : r.portfolio.Increasing)
    (htrades : r.portfolio.trades.Pairwise fun t u => t.exitDate ≤ u.exitDate)
    (hcodes : r.codes.Nodup) : Agrees (together r []) r := by
  constructor
  case strategy => rfl
  case settings => rfl
  case initialCapital => exact Merge.sum_singleton_alike _
  case cash => exact Merge.sum_singleton_alike _
  case positions => exact List.flatMap_singleton _ _
  case trades =>
    have hflat : [r].flatMap (·.portfolio.trades) = r.portfolio.trades := List.flatMap_singleton _ _
    exact (congrArg _ hflat).trans (Merge.sortTrades_of_ordered htrades)
  case curve =>
    have htotal : (together r []).portfolio.curve = _ := Merge.totalCurve_singleton hcurve
    rw [htotal, List.forall₂_map_left_iff, List.forall₂_same]
    exact fun x _ => ⟨rfl, Merge.sum_singleton_alike _⟩
  case codes =>
    have hflat : [r].flatMap (·.codes) = r.codes := List.flatMap_singleton _ _
    exact (congrArg _ hflat).trans (Merge.distinct_of_nodup hcodes)
  case exchange => rfl
  case skipped => exact List.flatMap_singleton _ _

-- Whether results are put together in groups or not, their positions are added in one order.
theorem merge_append [Amount α] (first : Result α) (rest more : List (Result α)) :
    merge (first :: (rest ++ more)) =
      (Merge.addPositions [] ((first :: rest).flatMap (·.portfolio.positions)) >>= fun held =>
        Merge.addPositions held (more.flatMap (·.portfolio.positions))).map
          fun _ => together first (rest ++ more) := by
  rw [merge_eq_together, ← List.cons_append, List.flatMap_append, Merge.addPositions_append]

theorem merge_group [Amount α] (first : Result α) (rest more : List (Result α)) :
    (merge (first :: rest) >>= fun m => merge (m :: more)) =
      (Merge.addPositions [] ((first :: rest).flatMap (·.portfolio.positions)) >>= fun held =>
        Merge.addPositions held (more.flatMap (·.portfolio.positions))).map
          fun _ => together (together first rest) more := by
  rw [merge_eq_together]
  cases hadd : Merge.addPositions [] ((first :: rest).flatMap (·.portfolio.positions)) with
  | error e => rfl
  | ok held =>
    have hwhole : (together first rest).portfolio.positions =
        (first :: rest).flatMap (·.portfolio.positions) := rfl
    have hgroup : merge (together first rest :: more) =
        (Merge.addPositions held (more.flatMap (·.portfolio.positions))).map
          fun _ => together (together first rest) more := by
      rw [merge_eq_together, List.flatMap_cons, hwhole, Merge.addPositions_append, hadd]
      rfl
    exact hgroup

-- Results can be put together in groups: a first group that has been put together stands for its
-- members when further results are added. Either way the same instrument is refused, or both ways
-- tell the same. The result of a run that is put together with nothing else stays as it is.
theorem merge_regroups :
    (∀ results more : List (Result Float), results ≠ [] →
      (∀ r ∈ results ++ more, r.portfolio.Increasing) →
        (∃ e, (merge results >>= fun m => merge (m :: more)) = .error e ∧
          merge (results ++ more) = .error e) ∨
        ∃ m n, (merge results >>= fun m => merge (m :: more)) = .ok m ∧
          merge (results ++ more) = .ok n ∧ Agrees m n) ∧
    ∀ (settings : Settings Float) (s : Strategy Float) (instruments : List (Instrument Float))
      (days : Option (List Date)) (r : Result Float),
      Engine.run settings s instruments days = .ok r → ∃ m, merge [r] = .ok m ∧ Agrees m r := by
  constructor
  · intro results more hne hcurves
    obtain ⟨first, rest, rfl⟩ := List.exists_cons_of_ne_nil hne
    rw [merge_group, List.cons_append, merge_append]
    cases Merge.addPositions [] ((first :: rest).flatMap (·.portfolio.positions)) >>= fun held =>
        Merge.addPositions held (more.flatMap (·.portfolio.positions)) with
    | error e => exact .inl ⟨e, rfl, rfl⟩
    | ok positions => exact .inr ⟨_, _, rfl, rfl, together_regroup hcurves⟩
  · intro settings s instruments days r h
    obtain ⟨hcurve, htrades, hcodes, hsingle⟩ := Engine.alone_of_run h
    have hadd : Merge.addPositions [] ([r].flatMap (·.portfolio.positions)) = .ok _ :=
      Merge.addPositions_of_nodup (by rwa [List.nil_append, List.flatMap_singleton])
    refine ⟨together r [], ?_, together_alone hcurve htrades hcodes⟩
    rw [merge_eq_together, hadd]
    rfl

-- Two funds and then a third, and a run. A fund that comes back is refused.
theorem merge_regroups_funds :
    funds.take 2 ≠ [] ∧ (∀ r ∈ funds.take 2 ++ funds.drop 2, r.portfolio.Increasing) ∧
      (∃ m n, (merge (funds.take 2) >>= fun m => merge (m :: funds.drop 2)) = .ok m ∧
        merge funds = .ok n ∧ Agrees m n) ∧
      (merge funds >>= fun m => merge (m :: funds)) = .error (.openTwice "AAA") ∧
      ∃ r, Engine.run Engine.withShorts Engine.aroundTen Engine.whipsaw (some Engine.threeDays) =
        .ok r ∧ ∃ m, merge [r] = .ok m ∧ Agrees m r := by
  have hcurves : ∀ r ∈ funds, r.portfolio.Increasing := by
    unfold Portfolio.Increasing
    decide
  have hne : funds ≠ [] := List.cons_ne_nil _ _
  have hgroup : funds.take 2 ≠ [] := List.cons_ne_nil _ _
  obtain ⟨hregroups, halone⟩ := merge_regroups
  refine ⟨hgroup, hcurves, ?_, ?_, ?_⟩
  · have hok : (merge funds).isOk = true := by decide
    rcases hregroups (funds.take 2) (funds.drop 2) hgroup hcurves with ⟨e, -, he⟩ | h
    · have he : merge funds = .error e := he
      rw [he] at hok
      cases hok
    · exact h
  · have htwice : (merge (funds ++ funds)).map (fun _ => ()) = .error (.openTwice "AAA") := by
      decide
    rcases hregroups funds funds hne (List.forall_mem_append.2 ⟨hcurves, hcurves⟩) with
      ⟨e, hgrouped, he⟩ | ⟨m, n, -, hn, -⟩
    · rw [he] at htwice
      have hcode : e = .openTwice "AAA" := Except.error.inj htwice
      rw [hgrouped, hcode]
    · rw [hn] at htwice
      cases htwice
  · obtain ⟨r, hrun, -⟩ := Engine.whipsaw_run
    exact ⟨r, hrun, halone _ _ _ _ r hrun⟩

end Result

end BarReplay
