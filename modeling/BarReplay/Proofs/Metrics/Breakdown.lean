import Mathlib.Algebra.Order.BigOperators.Group.List
import Mathlib.Data.List.Induction
import Mathlib.Data.Rat.Floor
import Mathlib.Order.Bounds.Basic
import Mathlib.Tactic.Linarith
import BarReplay.Metrics.TradeStats
import BarReplay.Proofs.Amount.Order
import BarReplay.Proofs.Replay.Merge

namespace BarReplay

section Instruments

variable {α : Type} {trades : List (ClosedTrade α)}

-- The codes of trades, each once, in the order of their first trades.
def tradedCodes (trades : List (ClosedTrade α)) : List String :=
  (trades.map (·.code)).eraseDups

theorem mem_tradedCodes {code : String} :
    code ∈ tradedCodes trades ↔ ∃ t ∈ trades, t.code = code := by
  rw [tradedCodes, List.mem_eraseDups, List.mem_map]

theorem nodup_tradedCodes (trades : List (ClosedTrade α)) : (tradedCodes trades).Nodup := by
  rw [tradedCodes, ← Merge.distinct_eq_eraseDups]
  exact Merge.nodup_distinct _

theorem tradedCodes_concat (trades : List (ClosedTrade α)) (t : ClosedTrade α) :
    tradedCodes (trades ++ [t]) =
      if t.code ∈ tradedCodes trades then tradedCodes trades
      else tradedCodes trades ++ [t.code] := by
  simp only [tradedCodes, ← Merge.distinct_eq_eraseDups, Merge.distinct, List.map_append,
    List.map_singleton, List.foldl_append, List.foldl_cons, List.foldl_nil, List.contains_iff_mem]

theorem codes_collect (t : ClosedTrade α) (buckets : List (Bucket α)) :
    (collect t buckets).map (·.first.code) =
      if t.code ∈ buckets.map (·.first.code) then buckets.map (·.first.code)
      else buckets.map (·.first.code) ++ [t.code] := by
  induction buckets with
  | nil => rfl
  | cons b buckets ih =>
    unfold collect
    by_cases hsame : b.first.code = t.code
    · simp [hsame]
    · have hother : ¬ t.code = b.first.code := fun h => hsame h.symm
      rw [if_neg (by simpa using hsame), List.map_cons, ih, List.map_cons]
      simp only [List.mem_cons, hother, false_or]
      split <;> rfl

-- A trade leaves the buckets of other codes as they are, and comes last in the bucket of its code.
theorem mem_collect {t : ClosedTrade α} {buckets : List (Bucket α)} {b : Bucket α}
    (hcodes : (buckets.map (·.first.code)).Nodup) (hb : b ∈ collect t buckets) :
    (b ∈ buckets ∧ b.first.code ≠ t.code) ∨
      (∃ b' ∈ buckets, b'.first.code = t.code ∧ b = ⟨b'.first, b'.later ++ [t]⟩) ∨
      (t.code ∉ buckets.map (·.first.code) ∧ b = ⟨t, []⟩) := by
  induction buckets with
  | nil => exact .inr (.inr ⟨List.not_mem_nil, List.mem_singleton.1 hb⟩)
  | cons b' buckets ih =>
    rw [List.map_cons, List.nodup_cons] at hcodes
    obtain ⟨hfirst, hcodes⟩ := hcodes
    unfold collect at hb
    by_cases hsame : b'.first.code = t.code
    · rw [if_pos (by simpa using hsame)] at hb
      rcases List.mem_cons.1 hb with rfl | hb
      · exact .inr (.inl ⟨b', List.mem_cons_self, hsame, rfl⟩)
      · refine .inl ⟨List.mem_cons_of_mem _ hb, fun h => hfirst ?_⟩
        exact hsame ▸ h ▸ List.mem_map_of_mem hb
    · rw [if_neg (by simpa using hsame)] at hb
      rcases List.mem_cons.1 hb with rfl | hb
      · exact .inl ⟨List.mem_cons_self, hsame⟩
      · obtain ⟨hmem, hne⟩ | ⟨b'', hmem, heq, rfl⟩ | ⟨hnew, rfl⟩ := ih hcodes hb
        · exact .inl ⟨List.mem_cons_of_mem _ hmem, hne⟩
        · exact .inr (.inl ⟨b'', List.mem_cons_of_mem _ hmem, heq, rfl⟩)
        · refine .inr (.inr ⟨?_, rfl⟩)
          rw [List.map_cons, List.mem_cons, not_or]
          exact ⟨fun h => hsame h.symm, hnew⟩

-- Buckets that hold the trades of each code, in the order of the first trades.
structure Sorts (trades : List (ClosedTrade α)) (buckets : List (Bucket α)) : Prop where
  codes : buckets.map (·.first.code) = tradedCodes trades
  trades : ∀ b ∈ buckets, b.trades = trades.filter (·.code == b.first.code)

theorem Sorts.collect {buckets : List (Bucket α)} (h : Sorts trades buckets)
    (t : ClosedTrade α) : Sorts (trades ++ [t]) (collect t buckets) where
  codes := by rw [codes_collect, h.codes, tradedCodes_concat]
  trades b hb := by
    have hnodup : (buckets.map (·.first.code)).Nodup := h.codes ▸ nodup_tradedCodes trades
    rw [List.filter_append]
    obtain ⟨hmem, hne⟩ | ⟨b', hmem, heq, rfl⟩ | ⟨hnew, rfl⟩ := mem_collect hnodup hb
    · have hother : [t].filter (·.code == b.first.code) = [] := by
        simpa using fun h => hne h.symm
      rw [hother, List.append_nil]
      exact h.trades b hmem
    · have hown : [t].filter (·.code == b'.first.code) = [t] := by simp [heq]
      rw [hown, ← h.trades b' hmem]
      rfl
    · have hnone : trades.filter (·.code == t.code) = [] := by
        refine List.filter_eq_nil_iff.2 fun u hu heq => hnew ?_
        rw [h.codes]
        exact mem_tradedCodes.2 ⟨u, hu, beq_iff_eq.1 heq⟩
      have hown : [t].filter (·.code == t.code) = [t] := by simp
      rw [hnone, hown]
      rfl

theorem sorts_bucketsOf (trades : List (ClosedTrade α)) : Sorts trades (bucketsOf trades) := by
  induction trades using List.reverseRecOn with
  | nil => exact ⟨rfl, fun b hb => absurd hb List.not_mem_nil⟩
  | append_singleton trades t ih =>
    rw [bucketsOf, List.foldl_append]
    exact ih.collect t

theorem flatMap_filter_perm {codes : List String} (hcodes : codes.Nodup)
    (htrades : ∀ t ∈ trades, t.code ∈ codes) :
    (codes.flatMap fun code => trades.filter (·.code == code)).Perm trades := by
  induction codes generalizing trades with
  | nil =>
    cases trades with
    | nil => exact .nil
    | cons t trades => exact absurd (htrades t List.mem_cons_self) List.not_mem_nil
  | cons code codes ih =>
    obtain ⟨hcode, hcodes⟩ := List.nodup_cons.1 hcodes
    have hlater : ∀ t ∈ trades.filter (fun t => !t.code == code), t.code ∈ codes := by
      intro t ht
      obtain ⟨ht, hne⟩ := List.mem_filter.1 ht
      rcases List.mem_cons.1 (htrades t ht) with heq | hmem
      · simp [heq] at hne
      · exact hmem
    -- leaving out one instrument takes nothing from the others
    have hothers : (codes.flatMap fun other =>
        (trades.filter fun t => !t.code == code).filter (·.code == other)) =
          codes.flatMap fun other => trades.filter (·.code == other) := by
      refine List.flatMap_congr fun other hother => ?_
      rw [List.filter_filter]
      refine List.filter_congr fun t _ => ?_
      by_cases heq : t.code = other
      · have hne : other ≠ code := fun h => hcode (h ▸ hother)
        simp [heq, hne]
      · simp [heq]
    have hrest := ih hcodes hlater
    rw [hothers] at hrest
    rw [List.flatMap_cons]
    exact (hrest.append_left _).trans (List.filter_append_perm _ trades)

-- One instrument after the other, every trade comes up once.
theorem perm_of_instruments (trades : List (ClosedTrade α)) :
    ((tradedCodes trades).flatMap fun code => trades.filter (·.code == code)).Perm trades := by
  apply flatMap_filter_perm (nodup_tradedCodes trades)
  intro t ht
  exact mem_tradedCodes.2 ⟨t, ht, rfl⟩

end Instruments

section Largest

open Amount TradeStats

variable {α : Type} [Amount α] {xs : List α} {x z : α}

-- Each further amount is compared with the largest so far.
theorem isGreatest_larger {proper : α → Prop} (ho : TotallyOrdered proper) {s : Set α}
    (hs : ∀ y ∈ s, proper y) (hz : proper z) (h : IsGreatest s x) :
    IsGreatest (insert z s) (larger x z) := by
  have hx := hs x h.1
  unfold larger
  by_cases hlt : x < z
  · rw [if_pos hlt]
    refine ⟨Set.mem_insert _ _, fun y hy => ?_⟩
    rcases Set.mem_insert_iff.1 hy with rfl | hy
    · exact ho.le_refl hz
    · exact ho.le_trans (hs y hy) hx hz (h.2 hy) (ho.le_of_lt hx hz hlt)
  · rw [if_neg hlt]
    refine ⟨Set.mem_insert_of_mem _ h.1, fun y hy => ?_⟩
    rcases Set.mem_insert_iff.1 hy with rfl | hy
    · exact (ho.not_lt_iff hx hz).1 hlt
    · exact h.2 hy

theorem isGreatest_maximum {proper : α → Prop} (ho : TotallyOrdered proper)
    (hxs : ∀ y ∈ x :: xs, proper y) : IsGreatest {y | y ∈ x :: xs} (maximum x xs) := by
  induction xs using List.reverseRecOn with
  | nil =>
    refine ⟨List.mem_singleton_self x, fun y hy => ?_⟩
    rw [List.mem_singleton.1 hy]
    exact ho.le_refl (hxs x List.mem_cons_self)
  | append_singleton xs z ih =>
    rw [← List.cons_append] at hxs ⊢
    obtain ⟨hxs, hz⟩ := List.forall_mem_append.1 hxs
    have hset : {y | y ∈ x :: xs ++ [z]} = insert z {y | y ∈ x :: xs} := by
      ext y
      exact List.mem_append.trans (or_comm.trans (or_congr_left List.mem_singleton))
    rw [hset, maximum, List.foldl_append]
    exact isGreatest_larger ho hxs (hz z (List.mem_singleton_self z)) (ih hxs)

theorem isGreatest_of_ne {proper : α → Prop} (ho : TotallyOrdered proper)
    (hproper : ∀ y ∈ xs, proper y) (hxs : xs ≠ []) : IsGreatest {y | y ∈ xs} (largest xs) := by
  cases xs with
  | nil => exact absurd rfl hxs
  | cons x xs => exact isGreatest_maximum ho hproper

-- The largest of amounts that are not below zero; zero is no larger than any of them.
theorem isGreatest_largest (hsides : Sides α) (hxs : ∀ x ∈ xs, FromZero x) :
    IsGreatest (insert 0 {x | x ∈ xs}) (largest xs) := by
  have hzero : FromZero (0 : α) := .inl rfl
  by_cases hnone : xs = []
  · subst hnone
    refine ⟨Set.mem_insert _ _, fun y hy => ?_⟩
    rcases Set.mem_insert_iff.1 hy with rfl | hy
    · exact hsides.ordered.le_refl hzero
    · exact absurd hy List.not_mem_nil
  · have hgreatest := isGreatest_of_ne hsides.ordered hxs hnone
    refine ⟨Set.mem_insert_of_mem _ hgreatest.1, fun y hy => ?_⟩
    rcases Set.mem_insert_iff.1 hy with rfl | hy
    · rcases hxs _ hgreatest.1 with heq | hpos
      · rw [heq]
        exact hsides.ordered.le_refl hzero
      · exact hsides.ordered.le_of_lt hzero (.inr hpos) hpos
    · exact hgreatest.2 hy

theorem fromZero_of_mem {s : Set α} (hs : ∀ y ∈ s, FromZero y) (hx : x ∈ insert 0 s) :
    FromZero x := by
  rcases Set.mem_insert_iff.1 hx with hzero | hx
  · exact .inl hzero
  · exact hs x hx

theorem fromZero_largest (hsides : Sides α) (hxs : ∀ x ∈ xs, FromZero x) :
    FromZero (largest xs) :=
  fromZero_of_mem hxs (isGreatest_largest hsides hxs).1

theorem isGreatest_unique (hsides : Sides α) {s : Set α} (hs : ∀ y ∈ s, FromZero y)
    (hx : IsGreatest (insert 0 s) x) (hz : IsGreatest (insert 0 s) z) : x = z :=
  hsides.antisymm (fromZero_of_mem hs hx.1) (fromZero_of_mem hs hz.1) (hz.2 hx.1) (hx.2 hz.1)

theorem largest_perm (hsides : Sides α) {ys : List α} (hxs : ∀ x ∈ xs, FromZero x)
    (h : xs.Perm ys) : largest xs = largest ys := by
  have hset : {x | x ∈ ys} = {x | x ∈ xs} := Set.ext fun _ => h.symm.mem_iff
  have hys := isGreatest_largest hsides fun y hy => hxs y (h.mem_iff.2 hy)
  exact isGreatest_unique (s := {x | x ∈ xs}) hsides hxs (isGreatest_largest hsides hxs)
    (hset ▸ hys)

-- The largest of all is the largest of the largest.
theorem largest_flatMap (hsides : Sides α) {codes : List String} {f : String → List α}
    (hf : ∀ c, ∀ x ∈ f c, FromZero x) :
    largest (codes.flatMap f) = largest (codes.map fun c => largest (f c)) := by
  have hall : ∀ x ∈ codes.flatMap f, FromZero x := by
    intro x hx
    obtain ⟨c, -, hx⟩ := List.mem_flatMap.1 hx
    exact hf c x hx
  have hmost : ∀ x ∈ codes.map fun c => largest (f c), FromZero x := by
    intro x hx
    obtain ⟨c, -, rfl⟩ := List.mem_map.1 hx
    exact fromZero_largest hsides (hf c)
  obtain ⟨hmem, hupper⟩ := isGreatest_largest hsides hmost
  apply isGreatest_unique (s := {x | x ∈ codes.flatMap f}) hsides hall
    (isGreatest_largest hsides hall)
  constructor
  · rcases Set.mem_insert_iff.1 hmem with hzero | hmem
    · exact Set.mem_insert_iff.2 (.inl hzero)
    · obtain ⟨c, hc, heq⟩ := List.mem_map.1 hmem
      rw [← heq]
      rcases Set.mem_insert_iff.1 (isGreatest_largest hsides (hf c)).1 with hzero | hmem
      · exact Set.mem_insert_iff.2 (.inl hzero)
      · exact Set.mem_insert_of_mem _ (List.mem_flatMap.2 ⟨c, hc, hmem⟩)
  · intro x hx
    rcases Set.mem_insert_iff.1 hx with rfl | hx
    · exact hupper (Set.mem_insert _ _)
    · obtain ⟨c, hc, hx⟩ := List.mem_flatMap.1 hx
      have hown := (isGreatest_largest hsides (hf c)).2 (Set.mem_insert_of_mem _ hx)
      have hentry : largest (f c) ∈ codes.map fun c => largest (f c) :=
        List.mem_map.2 ⟨c, hc, rfl⟩
      have htop := hupper (Set.mem_insert_of_mem _ hentry)
      exact hsides.ordered.le_trans (hf c x hx) (fromZero_largest hsides (hf c))
        (fromZero_largest hsides hmost) hown htop

end Largest

namespace TradeStats

variable {α : Type} [Amount α] {trades others : List (ClosedTrade α)}

theorem wins_perm (h : trades.Perm others) : (wins trades).Perm (wins others) :=
  (h.map _).filter _

theorem losses_perm (h : trades.Perm others) : (losses trades).Perm (losses others) :=
  ((h.map _).filter _).map _

theorem wins_of_instruments (trades : List (ClosedTrade α)) :
    ((tradedCodes trades).flatMap fun code => wins (trades.filter (·.code == code))).Perm
      (wins trades) := by
  have hperm := wins_perm (perm_of_instruments trades)
  unfold wins at hperm ⊢
  rwa [List.map_flatMap, List.filter_flatMap] at hperm

theorem losses_of_instruments (trades : List (ClosedTrade α)) :
    ((tradedCodes trades).flatMap fun code => losses (trades.filter (·.code == code))).Perm
      (losses trades) := by
  have hperm := losses_perm (perm_of_instruments trades)
  unfold losses at hperm ⊢
  rwa [List.map_flatMap, List.filter_flatMap, List.map_flatMap] at hperm

theorem pos_of_mem_wins {x : α} (hx : x ∈ wins trades) : 0 < x := by
  obtain ⟨-, hpos⟩ := List.mem_filter.1 hx
  exact of_decide_eq_true hpos

theorem pos_of_mem_losses (hsides : Sides α) {x : α} (hx : x ∈ losses trades) : 0 < x := by
  obtain ⟨y, hy, rfl⟩ := List.mem_map.1 hx
  obtain ⟨-, hneg⟩ := List.mem_filter.1 hy
  exact hsides.neg_pos (of_decide_eq_true hneg)

theorem profitFactorOf_eq_unbounded_iff {profit loss : α} :
    profitFactorOf profit loss = .unbounded ↔ 0 < profit ∧ ¬ 0 < loss := by
  unfold profitFactorOf
  by_cases hloss : 0 < loss
  · simp [hloss]
  · by_cases hprofit : 0 < profit
    · simp [hloss, hprofit]
    · simp [hloss, hprofit]

theorem wins_eq_nil_iff : wins trades = [] ↔ ∀ t ∈ trades, ¬ 0 < t.pnl := by
  simp [wins, List.filter_eq_nil_iff]

theorem losses_eq_nil_iff : losses trades = [] ↔ ∀ t ∈ trades, ¬ t.pnl < 0 := by
  simp [losses, List.filter_eq_nil_iff]

-- No trade is both a win and a loss.
theorem wins_add_losses_le (hsides : Sides α) (trades : List (ClosedTrade α)) :
    (wins trades).length + (losses trades).length ≤ trades.length := by
  have hwins : (wins trades).length = (trades.map (·.pnl)).countP (0 < ·) :=
    List.countP_eq_length_filter.symm
  have hlosses : (losses trades).length = (trades.map (·.pnl)).countP (· < 0) := by
    rw [losses, List.length_map, List.countP_eq_length_filter]
  have hdisjoint : (trades.map (·.pnl)).countP (· < 0) ≤
      (trades.map (·.pnl)).countP fun x => ¬ decide (0 < x) = true := by
    refine List.countP_mono_left fun x _ hneg => decide_eq_true fun hpos => ?_
    exact hsides.not_neg (of_decide_eq_true hpos) (of_decide_eq_true hneg)
  have hall := List.length_eq_countP_add_countP (fun x : α => decide (0 < x)) (l := trades.map (·.pnl))
  rw [List.length_map] at hall
  omega

theorem counted (hsides : Sides α) (trades : List (ClosedTrade α)) :
    (TradeStats.of trades).winning + (TradeStats.of trades).losing +
      (TradeStats.of trades).breakeven = (TradeStats.of trades).total := by
  have hle := wins_add_losses_le hsides trades
  change (wins trades).length + (losses trades).length +
    (trades.length - (wins trades).length - (losses trades).length) = trades.length
  omega

end TradeStats

-- What the entries of the instruments say about all trades.
structure Partitions {α : Type} [Amount α] (trades : List (ClosedTrade α))
    (entries : List (InstrumentStats α)) : Prop where
  -- one for each code, in the order of the first trades
  codes : entries.map (·.code) = (trades.map (·.code)).eraseDups
  stats : ∀ e ∈ entries, e.stats = TradeStats.of (trades.filter (·.code == e.code))
  exchange : ∀ e ∈ entries, ∃ t, trades.find? (·.code == e.code) = some t ∧
    e.exchange = t.exchange
  -- the counts add up
  total : (entries.map (·.stats.total)).sum = (TradeStats.of trades).total
  winning : (entries.map (·.stats.winning)).sum = (TradeStats.of trades).winning
  losing : (entries.map (·.stats.losing)).sum = (TradeStats.of trades).losing
  breakeven : (entries.map (·.stats.breakeven)).sum = (TradeStats.of trades).breakeven
  counted : (TradeStats.of trades).winning + (TradeStats.of trades).losing +
    (TradeStats.of trades).breakeven = (TradeStats.of trades).total
  largestWin : entries ≠ [] →
    IsGreatest {x | ∃ e ∈ entries, e.stats.largestWin = x} (TradeStats.of trades).largestWin
  largestLoss : entries ≠ [] →
    IsGreatest {x | ∃ e ∈ entries, e.stats.largestLoss = x} (TradeStats.of trades).largestLoss

section Entries

open TradeStats

variable {α : Type} [Amount α]

theorem sum_of_instruments {M β : Type} [AddCommMonoid M] {codes : List String}
    {f : String → List β} {xs : List β} (h : (codes.flatMap f).Perm xs) (g : β → M) :
    (codes.map fun code => ((f code).map g).sum).sum = (xs.map g).sum := by
  rw [← (h.map g).sum_eq, List.map_flatMap, List.flatMap_def, List.sum_flatten, List.map_map]
  rfl

theorem length_of_instruments {β : Type} {codes : List String} {f : String → List β} {xs : List β}
    (h : (codes.flatMap f).Perm xs) : (codes.map fun code => (f code).length).sum = xs.length := by
  rw [← h.length_eq, List.length_flatMap]

-- What is reported of one instrument.
def InstrumentStats.of (trades : List (ClosedTrade α)) (code : String) : InstrumentStats α :=
  let own := trades.filter (·.code == code)
  ⟨code, (own.head?.map (·.exchange)).getD "", TradeStats.of own⟩

-- The buckets that are filled trade by trade hold what a search for each code finds.
theorem breakdown_eq (trades : List (ClosedTrade α)) :
    breakdown trades = (tradedCodes trades).map (InstrumentStats.of trades) := by
  have hsorts := sorts_bucketsOf trades
  rw [← hsorts.codes, List.map_map]
  refine List.map_congr_left fun b hb => ?_
  have hown := hsorts.trades b hb
  rw [Function.comp_apply, InstrumentStats.of, ← hown]
  rfl

theorem mem_breakdown {trades : List (ClosedTrade α)} {e : InstrumentStats α} :
    e ∈ breakdown trades ↔ ∃ code ∈ tradedCodes trades, InstrumentStats.of trades code = e := by
  rw [breakdown_eq]
  exact List.mem_map

theorem isGreatest_of_instruments (hsides : Sides α) {trades : List (ClosedTrade α)}
    {f : String → List α} {xs : List α} (h : ((tradedCodes trades).flatMap f).Perm xs)
    (hf : ∀ code, ∀ x ∈ f code, 0 < x) {stat : TradeStats α → α}
    (hstat : ∀ code, stat (InstrumentStats.of trades code).stats = largest (f code))
    (hentries : breakdown trades ≠ []) :
    IsGreatest {x | ∃ e ∈ breakdown trades, stat e.stats = x} (largest xs) := by
  have hxs : ∀ x ∈ xs, FromZero x := by
    intro x hx
    obtain ⟨code, -, hx⟩ := List.mem_flatMap.1 (h.mem_iff.2 hx)
    exact .inr (hf code x hx)
  have heach : ∀ x ∈ (tradedCodes trades).map fun code => largest (f code), FromZero x := by
    intro x hx
    obtain ⟨code, -, rfl⟩ := List.mem_map.1 hx
    exact fromZero_largest hsides fun x hx => .inr (hf code x hx)
  have hset : {x | ∃ e ∈ breakdown trades, stat e.stats = x} =
      {x | x ∈ (tradedCodes trades).map fun code => largest (f code)} := by
    ext x
    constructor
    · rintro ⟨e, he, rfl⟩
      obtain ⟨code, hcode, rfl⟩ := mem_breakdown.1 he
      exact List.mem_map.2 ⟨code, hcode, (hstat code).symm⟩
    · intro hx
      obtain ⟨code, hcode, rfl⟩ := List.mem_map.1 hx
      exact ⟨InstrumentStats.of trades code, mem_breakdown.2 ⟨code, hcode, rfl⟩, hstat code⟩
  rw [breakdown_eq] at hentries
  have hcodes : tradedCodes trades ≠ [] := mt List.map_eq_nil_iff.2 hentries
  rw [hset, largest_perm hsides hxs h.symm,
    largest_flatMap hsides fun code x hx => .inr (hf code x hx)]
  exact isGreatest_of_ne hsides.ordered heach (mt List.map_eq_nil_iff.1 hcodes)

theorem exchange_of_mem_breakdown {trades : List (ClosedTrade α)} {e : InstrumentStats α}
    (he : e ∈ breakdown trades) :
    ∃ t, trades.find? (·.code == e.code) = some t ∧ e.exchange = t.exchange := by
  obtain ⟨code, hcode, rfl⟩ := mem_breakdown.1 he
  obtain ⟨t, ht, hown⟩ := mem_tradedCodes.1 hcode
  have hfound : (trades.find? (·.code == code)).isSome :=
    List.find?_isSome.2 ⟨t, ht, beq_iff_eq.2 hown⟩
  obtain ⟨first, hfirst⟩ := Option.isSome_iff_exists.1 hfound
  refine ⟨first, hfirst, ?_⟩
  change ((trades.filter (·.code == code)).head?.map (·.exchange)).getD "" = first.exchange
  rw [List.head?_filter, hfirst]
  rfl

theorem breakeven_of_instruments (hsides : Sides α) (trades : List (ClosedTrade α)) :
    ((breakdown trades).map (·.stats.breakeven)).sum = (TradeStats.of trades).breakeven := by
  have htotal := length_of_instruments (perm_of_instruments trades)
  have hwinning := length_of_instruments (wins_of_instruments trades)
  have hlosing := length_of_instruments (losses_of_instruments trades)
  have heach : ((tradedCodes trades).map fun code => (trades.filter (·.code == code)).length) =
      (tradedCodes trades).map fun code => (wins (trades.filter (·.code == code))).length +
        (losses (trades.filter (·.code == code))).length +
        (TradeStats.of (trades.filter (·.code == code))).breakeven :=
    List.map_congr_left fun code _ => (counted hsides _).symm
  rw [heach, List.sum_map_add, List.sum_map_add, hwinning, hlosing] at htotal
  have hall := counted hsides trades
  rw [breakdown_eq, List.map_map]
  change ((tradedCodes trades).map fun code =>
    (TradeStats.of (trades.filter (·.code == code))).breakeven).sum = _
  change (wins trades).length + (losses trades).length + _ = trades.length at hall
  omega

theorem partitions_breakdown (hsides : Sides α) (trades : List (ClosedTrade α)) :
    Partitions trades (breakdown trades) where
  codes := by
    rw [breakdown_eq, List.map_map]
    exact List.map_id _
  stats e he := by
    obtain ⟨code, -, rfl⟩ := mem_breakdown.1 he
    rfl
  exchange _ he := exchange_of_mem_breakdown he
  total := by
    rw [breakdown_eq, List.map_map]
    exact length_of_instruments (perm_of_instruments trades)
  winning := by
    rw [breakdown_eq, List.map_map]
    exact length_of_instruments (wins_of_instruments trades)
  losing := by
    rw [breakdown_eq, List.map_map]
    exact length_of_instruments (losses_of_instruments trades)
  breakeven := breakeven_of_instruments hsides trades
  counted := counted hsides trades
  largestWin := isGreatest_of_instruments hsides (wins_of_instruments trades)
    (fun _ _ => pos_of_mem_wins) fun _ => rfl
  largestLoss := isGreatest_of_instruments hsides (losses_of_instruments trades)
    (fun _ _ => pos_of_mem_losses hsides) fun _ => rfl

end Entries

section Exact

open TradeStats

variable {K : Type} [Field K] [LinearOrder K] [FloorRing K] [Roots K]
  {trades others : List (ClosedTrade K)}

-- What is won and what is lost make up the profit.
theorem sum_pnl (trades : List (ClosedTrade K)) :
    (trades.map (·.pnl)).sum = (wins trades).sum - (losses trades).sum := by
  unfold wins losses
  induction trades with
  | nil => simp
  | cons t trades ih =>
    rw [List.map_cons, List.sum_cons, ih, List.filter_cons, List.filter_cons]
    rcases lt_trichotomy t.pnl 0 with hneg | hzero | hpos
    · have hwin : ¬ 0 < t.pnl := hneg.not_gt
      rw [if_neg (by simpa using hwin), if_pos (by simpa using hneg), List.map_cons, List.sum_cons]
      ring
    · rw [hzero, if_neg (by simp), if_neg (by simp), zero_add]
    · have hloss : ¬ t.pnl < 0 := hpos.not_gt
      rw [if_pos (by simpa using hpos), if_neg (by simpa using hloss), List.sum_cons]
      ring

theorem count_mul_meanOf (xs : List K) :
    (xs.length : K) * meanOf (Amount.sum xs) xs.length = xs.sum := by
  unfold meanOf
  rw [Amount.sum_eq, Amount.whole_exact]
  by_cases hnone : xs.length = 0
  · rw [List.length_eq_zero_iff.1 hnone]
    simp
  · rw [if_neg hnone]
    exact mul_div_cancel₀ _ (Nat.cast_ne_zero.2 hnone)

theorem totalPnl_eq (trades : List (ClosedTrade K)) :
    (TradeStats.of trades).totalPnl =
      (TradeStats.of trades).winning * (TradeStats.of trades).averageWin -
        (TradeStats.of trades).losing * (TradeStats.of trades).averageLoss := by
  dsimp only [TradeStats.of]
  rw [count_mul_meanOf, count_mul_meanOf, Amount.sum_eq]
  exact sum_pnl trades

theorem totalPnl_of_instruments (trades : List (ClosedTrade K)) :
    ((breakdown trades).map (·.stats.totalPnl)).sum = (TradeStats.of trades).totalPnl := by
  have hsum := sum_of_instruments (perm_of_instruments trades) (·.pnl)
  rw [breakdown_eq, List.map_map]
  dsimp only [TradeStats.of]
  rw [Amount.sum_eq, ← hsum]
  refine congrArg List.sum (List.map_congr_left fun code _ => ?_)
  exact Amount.sum_eq _

variable [IsStrictOrderedRing K]

theorem winRate_mem_Icc (trades : List (ClosedTrade K)) :
    (TradeStats.of trades).winRate ∈ Set.Icc 0 1 := by
  have hrate : (TradeStats.of trades).winRate =
      if trades.length = 0 then (0 : K) else (wins trades).length / trades.length :=
    congrArg (fun count : K => if trades.length = 0 then 0 else count / trades.length)
      (Int.cast_natCast _)
  rw [hrate]
  by_cases hnone : trades.length = 0
  · rw [if_pos hnone]
    exact ⟨le_rfl, zero_le_one⟩
  · have hle := wins_add_losses_le Sides.exact trades
    have hcount : ((wins trades).length : K) ≤ trades.length := Nat.cast_le.2 (by omega)
    rw [if_neg hnone]
    exact ⟨by positivity, div_le_one_of_le₀ hcount (Nat.cast_nonneg _)⟩

theorem meanOf_le_largest {xs : List K} (hxs : ∀ x ∈ xs, 0 < x) :
    meanOf (Amount.sum xs) xs.length ≤ largest xs := by
  by_cases hnone : xs = []
  · subst hnone
    exact le_rfl
  · have hpos : 0 < xs.length := List.length_pos_of_ne_nil hnone
    have hmost := (isGreatest_of_ne TotallyOrdered.exact (fun _ _ => trivial) hnone).2
    have hsum := List.sum_le_card_nsmul xs (largest xs) fun x hx => hmost hx
    rw [nsmul_eq_mul, ← count_mul_meanOf] at hsum
    exact le_of_mul_le_mul_left hsum (Nat.cast_pos.2 hpos)

theorem sum_pos_iff {xs : List K} (hxs : ∀ x ∈ xs, 0 < x) : 0 < Amount.sum xs ↔ xs ≠ [] := by
  rw [Amount.sum_eq]
  constructor
  · rintro h rfl
    exact lt_irrefl _ h
  · exact List.sum_pos xs hxs

-- Gains that no loss stands against know no bound.
theorem profitFactor_eq_unbounded_iff (trades : List (ClosedTrade K)) :
    (TradeStats.of trades).profitFactor = .unbounded ↔
      (∃ t ∈ trades, 0 < t.pnl) ∧ ∀ t ∈ trades, ¬ t.pnl < 0 := by
  have hprofit : 0 < Amount.sum (wins trades) ↔ ∃ t ∈ trades, 0 < t.pnl := by
    rw [sum_pos_iff fun _ hx => pos_of_mem_wins hx, Ne, wins_eq_nil_iff]
    push Not
    exact Iff.rfl
  have hloss : ¬ 0 < Amount.sum (losses trades) ↔ ∀ t ∈ trades, ¬ t.pnl < 0 := by
    rw [sum_pos_iff fun _ hx => pos_of_mem_losses Sides.exact hx, not_not, losses_eq_nil_iff]
  rw [← hprofit, ← hloss]
  exact profitFactorOf_eq_unbounded_iff

theorem of_perm (h : trades.Perm others) : TradeStats.of others = TradeStats.of trades := by
  have hwins := wins_perm h
  have hlosses := losses_perm h
  have hpnl := (h.map (·.pnl)).sum_eq
  have hdays : trades.foldl (fun days t => days + t.holdingDays) 0 =
      others.foldl (fun days t => days + t.holdingDays) 0 :=
    h.foldl_eq' (fun t _ u _ days => Int.add_right_comm days t.holdingDays u.holdingDays) 0
  have hlargestWin : largest (wins trades) = largest (wins others) :=
    largest_perm Sides.exact (fun _ hx => .inr (pos_of_mem_wins hx)) hwins
  have hlargestLoss : largest (losses trades) = largest (losses others) :=
    largest_perm Sides.exact (fun _ hx => .inr (pos_of_mem_losses Sides.exact hx)) hlosses
  simp only [TradeStats.of, Amount.sum_eq, h.length_eq, hwins.length_eq, hlosses.length_eq,
    hwins.sum_eq, hlosses.sum_eq, hpnl, hlargestWin, hlargestLoss, hdays]

-- What the statistics of any trades say about each other.
structure Consistent (trades : List (ClosedTrade K)) (s : TradeStats K) : Prop where
  totalPnl : s.totalPnl = s.winning * s.averageWin - s.losing * s.averageLoss
  winRate : s.winRate ∈ Set.Icc 0 1
  averageWin : s.averageWin ≤ s.largestWin
  averageLoss : s.averageLoss ≤ s.largestLoss
  profitFactor : s.profitFactor = .unbounded ↔
    (∃ t ∈ trades, 0 < t.pnl) ∧ ∀ t ∈ trades, ¬ t.pnl < 0

theorem consistent_of (trades : List (ClosedTrade K)) : Consistent trades (TradeStats.of trades) where
  totalPnl := totalPnl_eq trades
  winRate := winRate_mem_Icc trades
  averageWin := meanOf_le_largest fun _ hx => pos_of_mem_wins hx
  averageLoss := meanOf_le_largest fun _ hx => pos_of_mem_losses Sides.exact hx
  profitFactor := profitFactor_eq_unbounded_iff trades

-- The instruments divide the trades among them, for doubles too. In exact arithmetic their profits
-- make up the profit, the statistics fit together, and the order of the trades does not matter.
theorem breakdown_partitions :
    (∀ trades : List (ClosedTrade K), Partitions trades (breakdown trades) ∧
      ((breakdown trades).map (·.stats.totalPnl)).sum = (TradeStats.of trades).totalPnl ∧
      Consistent trades (TradeStats.of trades) ∧
      ∀ others, trades.Perm others → TradeStats.of others = TradeStats.of trades) ∧
    ∀ trades : List (ClosedTrade Float), Partitions trades (breakdown trades) := by
  refine ⟨fun trades => ⟨?_, ?_, ?_, fun others h => of_perm h⟩, fun trades => ?_⟩
  · exact partitions_breakdown Sides.exact trades
  · exact totalPnl_of_instruments trades
  · exact consistent_of trades
  · exact partitions_breakdown Sides.doubles trades

end Exact

section Rational

attribute [local instance] Roots.untaken

-- A share that is bought on one day and sold on the next.
def tradeOf (code : String) (pnl : ℚ) : ClosedTrade ℚ where
  code := code
  exchange := "X"
  quantity := 1
  entryPrice := 100
  exitPrice := 100 + pnl
  entryDate := ⟨2015, 8, 4, by decide, by decide, by decide⟩
  exitDate := ⟨2015, 8, 5, by decide, by decide, by decide⟩
  pnl := pnl

-- Three instruments in turns: one with a loss only, one without any.
def turns : List (ClosedTrade ℚ) :=
  [tradeOf "BBB" (-30), tradeOf "AAA" 40, tradeOf "BBB" (-10), tradeOf "CCC" 0, tradeOf "AAA" 50]

theorem breakdown_partitions_turns :
    turns.Perm turns.reverse ∧ Partitions turns (breakdown turns) ∧
      (breakdown turns).map (fun e => (e.code, e.stats.winning, e.stats.losing, e.stats.breakeven)) =
        [("BBB", 0, 2, 0), ("AAA", 2, 0, 0), ("CCC", 0, 0, 1)] ∧
      Consistent turns (TradeStats.of turns) ∧ (TradeStats.of turns).averageWin = 45 ∧
      (TradeStats.of turns).largestWin = 50 ∧ (TradeStats.of turns).largestLoss = 30 ∧
      TradeStats.of turns.reverse = TradeStats.of turns := by
  have hperm : turns.Perm turns.reverse := (List.reverse_perm turns).symm
  obtain ⟨hpartitions, -, hconsistent, hreversed⟩ := breakdown_partitions.1 turns
  exact ⟨hperm, hpartitions, by decide +kernel, hconsistent, by decide +kernel, by decide +kernel,
    by decide, hreversed _ hperm⟩

end Rational

end BarReplay
