import Mathlib.Data.List.Perm.Basic
import BarReplay.Proofs.Portfolio.Ledger
import BarReplay.Proofs.Portfolio.Sizing

namespace BarReplay

-- A position is due if it has a price, and this stops it or takes its profit.
def Position.isDue {α : Type} [Amount α] (prices : PriceMap α) (pos : Position α) : Bool :=
  (prices.lookup pos.code).any fun price => pos.stops price || pos.takes price

theorem Position.isDue_eq_true_iff {α : Type} [Amount α] {prices : PriceMap α}
    {pos : Position α} :
    pos.isDue prices = true ↔ ∃ price, prices.lookup pos.code = some price ∧
      (pos.stops price = true ∨ pos.takes price = true) := by
  simp only [isDue, Option.any_eq_true, Bool.or_eq_true]

namespace Portfolio

open Portfolio.Action

section Sweep

variable {α : Type} [Amount α] {prices : PriceMap α} {day : Date} {e : Execution α} {p q : Portfolio α}

-- The portfolio after some positions have been closed, with their trades and what they returned.
def settled (p : Portfolio α) (closed : List (Position α)) (results : List (ClosedTrade α × α)) :
    Portfolio α :=
  { p with
    cash := results.foldl (fun cash result => cash + result.2) p.cash
    positions := p.positions.filter fun pos => pos.code ∉ closed.map Position.code
    trades := p.trades ++ results.map Prod.fst }

-- A position is closed at its own price.
def SettlesAt (prices : PriceMap α) (day : Date) (e : Execution α) (pos : Position α)
    (result : ClosedTrade α × α) : Prop :=
  ∃ price, prices.lookup pos.code = some price ∧ settle pos price day e = .ok result

theorem triggered_eq (p : Portfolio α) (prices : PriceMap α) :
    triggered p prices = (p.positions.filter (Position.isDue prices)).filterMap fun pos =>
      (prices.lookup pos.code).map (pos.code, ·) := by
  rw [triggered, List.filterMap_filter]
  congr 1
  funext pos
  cases hprice : prices.lookup pos.code with
  | none => simp [Position.isDue, hprice]
  | some price => simp [Position.isDue, hprice]

theorem settled_nil (p : Portfolio α) : p.settled [] [] = p := by
  simp [settled]

theorem settled_cons (p : Portfolio α) (pos : Position α) (closed : List (Position α))
    (result : ClosedTrade α × α) (results : List (ClosedTrade α × α)) :
    p.settled (pos :: closed) (result :: results) =
      ((p.without pos.code).credit result.1 result.2).settled closed results := by
  simp only [settled, credit, without, List.filter_filter, List.foldl_cons, List.map_cons,
    List.append_assoc, List.singleton_append]
  congr 2
  funext x
  rw [Bool.eq_iff_iff]
  simp [and_comm]

theorem settlesAt_iff {pos : Position α} {price : α} (hprice : prices.lookup pos.code = some price)
    (result : ClosedTrade α × α) :
    SettlesAt prices day e pos result ↔ settle pos price day e = .ok result := by
  simp [SettlesAt, hprice]

-- Exits from some of the positions, one after the other, close these and only these. Each of them
-- leaves a portfolio that still holds the rest.
theorem exits_eq_ok_iff {due : List (Position α)} {u : PUnit} (hs : p.Single)
    (hdue : due.Sublist p.positions) (hpriced : ∀ pos ∈ due, (prices.lookup pos.code).isSome) :
    on (forIn (due.filterMap fun pos => (prices.lookup pos.code).map (pos.code, ·)) PUnit.unit
      fun (x : String × α) _ => do
        let _ ← exit x.1 x.2 day e
        return ForInStep.yield PUnit.unit) p = (.ok u, q) ↔
      ∃ results, List.Forall₂ (SettlesAt prices day e) due results ∧
        q = p.settled due results := by
  induction due generalizing p with
  | nil =>
    simp [settled_nil, eq_comm]
  | cons pos due ih =>
    obtain ⟨price, hprice⟩ := Option.isSome_iff_exists.1 (hpriced pos List.mem_cons_self)
    have hheld : p.position? pos.code = some pos :=
      hs.position?_eq (hdue.subset List.mem_cons_self)
    rw [List.filterMap_cons, hprice]
    simp only [Option.map_some, List.forIn_cons, bind_assoc, pure_bind]
    rw [on_bind, exit_on, hheld]
    simp only [List.forall₂_cons_left_iff, settlesAt_iff hprice]
    cases hsettle : settle pos price day e with
    | error f => exact iff_of_false (by simp) (by simp)
    | ok result =>
      have hsingle : ((p.without pos.code).credit result.1 result.2).Single := hs.without pos.code
      refine (ih hsingle (hs.sublist_without hdue) fun x hx =>
        hpriced x (List.mem_cons_of_mem _ hx)).trans ?_
      constructor
      · rintro ⟨results, hresults, rfl⟩
        exact ⟨_, ⟨result, results, rfl, hresults, rfl⟩, (settled_cons ..).symm⟩
      · rintro ⟨_, ⟨_, results, hresult, hresults, rfl⟩, rfl⟩
        cases hresult
        exact ⟨results, hresults, settled_cons ..⟩

theorem priced_of_due (prices : PriceMap α) (positions : List (Position α)) :
    ∀ pos ∈ positions.filter (Position.isDue prices), (prices.lookup pos.code).isSome := by
  intro pos hpos
  obtain ⟨price, hprice, -⟩ := Position.isDue_eq_true_iff.1 (List.mem_filter.1 hpos).2
  exact Option.isSome_of_eq_some hprice

-- A sweep that ends well has closed what was due.
theorem sweep_eq_ok_iff {n : Nat} (hs : p.Single) :
    on (sweep prices day e) p = (.ok n, q) ↔
      n = (p.positions.filter (Position.isDue prices)).length ∧
        ∃ results, List.Forall₂ (SettlesAt prices day e)
            (p.positions.filter (Position.isDue prices)) results ∧
          q = p.settled (p.positions.filter (Position.isDue prices)) results := by
  have hlength : (triggered p prices).length =
      (p.positions.filter (Position.isDue prices)).length := by
    rw [triggered_eq, List.length_filterMap_eq_countP, List.countP_eq_length]
    exact fun pos hpos => by simpa using priced_of_due prices _ pos hpos
  have hpriced := priced_of_due prices p.positions
  rw [sweep, on_get_bind, on_bind_eq_ok, hlength, triggered_eq]
  constructor
  · rintro ⟨_, _, hloop, h⟩
    cases h
    exact ⟨rfl, (exits_eq_ok_iff hs List.filter_sublist hpriced).1 hloop⟩
  · rintro ⟨rfl, hresults⟩
    exact ⟨⟨⟩, q, (exits_eq_ok_iff hs List.filter_sublist hpriced).2 hresults, rfl⟩

-- What is left is what was not due: no other position has the code of one that was.
theorem settled_positions (hs : p.Single) (prices : PriceMap α)
    (results : List (ClosedTrade α × α)) :
    (p.settled (p.positions.filter (Position.isDue prices)) results).positions =
      p.positions.filter (fun pos => !pos.isDue prices) := by
  refine List.filter_congr fun pos hpos => ?_
  rw [Bool.eq_iff_iff, decide_eq_true_iff, Bool.not_eq_true']
  rw [← Bool.not_eq_true]
  refine not_congr ⟨fun hcode => ?_, fun hdue => ?_⟩
  · obtain ⟨other, hother, hcode⟩ := List.mem_map.1 hcode
    obtain ⟨hmem, hdue⟩ := List.mem_filter.1 hother
    exact List.inj_on_of_nodup_map hs hmem hpos hcode ▸ hdue
  · exact List.mem_map_of_mem (List.mem_filter.2 ⟨hpos, hdue⟩)

-- Where nothing is due, a sweep does nothing.
theorem sweep_none (h : ∀ pos ∈ p.positions, pos.isDue prices = false) :
    on (sweep prices day e) p = (.ok 0, p) := by
  have hnone : triggered p prices = [] := by
    rw [triggered_eq, List.filter_eq_nil_iff.2 fun pos hpos => Bool.not_eq_true _ ▸ h pos hpos]
    rfl
  rw [sweep, on_get_bind, hnone]
  rfl

end Sweep

section Exact

variable {K : Type} [Field K] [LinearOrder K] [FloorRing K] [Roots K] {prices : PriceMap K}

theorem settles_exact (day : Date) (e : Execution K) {due : List (Position K)}
    (hpriced : ∀ pos ∈ due, (prices.lookup pos.code).isSome) :
    ∃ results, List.Forall₂ (SettlesAt prices day e) due results := by
  induction due with
  | nil => exact ⟨[], .nil⟩
  | cons pos due ih =>
    obtain ⟨results, hresults⟩ := ih fun x hx => hpriced x (List.mem_cons_of_mem _ hx)
    obtain ⟨price, hprice⟩ := Option.isSome_iff_exists.1 (hpriced pos List.mem_cons_self)
    obtain ⟨trade, returned, hsettle, -⟩ := settle_exact pos price day e
    exact ⟨(trade, returned) :: results, .cons ⟨price, hprice, hsettle⟩ hresults⟩

-- In exact arithmetic the order of the positions does not matter, except for that of the trades.
theorem sweep_perm {p : Portfolio K} (hs : p.Single) {positions : List (Position K)}
    (hperm : positions.Perm p.positions) (prices : PriceMap K) (day : Date) (e : Execution K) :
    ∃ n q q', on (sweep prices day e) p = (.ok n, q) ∧
      on (sweep prices day e) { p with positions := positions } = (.ok n, q') ∧
      q'.cash = q.cash ∧ q'.positions.Perm q.positions ∧ q'.trades.Perm q.trades := by
  have hs' : ({ p with positions := positions } : Portfolio K).Single :=
    (hperm.map Position.code).nodup_iff.2 hs
  have hdue := hperm.filter (Position.isDue prices)
  obtain ⟨results, hresults⟩ := settles_exact day e (priced_of_due prices p.positions)
  obtain ⟨results', hresults', hsame⟩ := List.perm_comp_forall₂ hdue hresults
  refine ⟨_, _, _, (sweep_eq_ok_iff hs).2 ⟨rfl, results, hresults, rfl⟩,
    (sweep_eq_ok_iff hs').2 ⟨hdue.length_eq.symm, results', hresults', rfl⟩, ?_, ?_, ?_⟩
  · exact hsame.foldl_eq' (fun x _ y _ cash => add_right_comm cash x.2 y.2) p.cash
  · rw [settled_positions hs, settled_positions hs']
    exact hperm.filter _
  · exact (hsame.map Prod.fst).append_left p.trades

end Exact

-- A sweep that ends well closes every position that is due, once and at its own price, in the
-- order in which they were opened, and keeps all others as they are. Another one at the same
-- prices finds nothing. In exact arithmetic a sweep ends well, and where the positions were opened
-- in another order, the trades are only made in another order.
theorem sweep_closes_what_is_due {α K : Type} [Amount α] [Field K] [LinearOrder K] [FloorRing K]
    [Roots K] :
    (∀ (p q : Portfolio α) (prices : PriceMap α) (day : Date) (e : Execution α) (n : Nat),
      p.Single → on (sweep prices day e) p = (.ok n, q) →
        n = (p.positions.filter fun pos => pos.isDue prices).length ∧
        q.positions = p.positions.filter (fun pos => !pos.isDue prices) ∧
        (∃ results : List (ClosedTrade α × α),
          List.Forall₂ (fun pos result => ∃ price, prices.lookup pos.code = some price ∧
              settle pos price day e = .ok result ∧ Closing e day price pos result.1)
            (p.positions.filter fun pos => pos.isDue prices) results ∧
          q.trades = p.trades ++ results.map Prod.fst ∧
          q.cash = results.foldl (fun cash result => cash + result.2) p.cash) ∧
        q.curve = p.curve ∧ q.initialCapital = p.initialCapital ∧
        ∀ later e', on (sweep prices later e') q = (.ok 0, q)) ∧
    ∀ (p : Portfolio K) (positions : List (Position K)) (prices : PriceMap K) (day : Date)
      (e : Execution K), p.Single → positions.Perm p.positions →
        ∃ n q q', on (sweep prices day e) p = (.ok n, q) ∧
          on (sweep prices day e) { p with positions := positions } = (.ok n, q') ∧
          q'.cash = q.cash ∧ q'.positions.Perm q.positions ∧ q'.trades.Perm q.trades := by
  refine ⟨fun p q prices day e n hs h => ?_, fun p positions prices day e hs hperm =>
    sweep_perm hs hperm prices day e⟩
  obtain ⟨rfl, results, hresults, rfl⟩ := (sweep_eq_ok_iff hs).1 h
  have hpositions := settled_positions hs prices results
  refine ⟨rfl, hpositions, ⟨results, hresults.imp fun pos result hsettles => ?_, rfl, rfl⟩, rfl,
    rfl, fun later e' => sweep_none fun pos hpos => ?_⟩
  · obtain ⟨price, hprice, hsettle⟩ := hsettles
    exact ⟨price, hprice, hsettle, closing_of_settle hsettle⟩
  · rw [hpositions] at hpos
    simpa using (List.mem_filter.1 hpos).2

section Rational

attribute [local instance] Roots.untaken

def holding (code : String) (quantity : Int) (entryPrice stopLoss takeProfit : ℚ) : Position ℚ :=
  ⟨code, "X", quantity, entryPrice, someDay, stopLoss, takeProfit, 1⟩

-- A long that is stopped, one without a price, a short that takes its profit, and one that stays.
def mixed : Portfolio ℚ where
  initialCapital := 1000
  cash := 100
  positions :=
    [holding "AAA" 10 30 27 0, holding "BBB" 10 30 27 0, holding "CCC" (-5) 20 0 18,
      holding "DDD" (-5) 20 22 18]
  trades := []
  curve := []

theorem sweep_closes_what_is_due_mixed :
    let prices : PriceMap ℚ := [("AAA", 25), ("CCC", 18), ("DDD", 21)]
    let sweeping := sweep prices nextDay ⟨1, 0, 0, true⟩
    ∃ q q', on sweeping mixed = (.ok 2, q) ∧ q.positions.map Position.code = ["BBB", "DDD"] ∧
      on sweeping q = (.ok 0, q) ∧
      on sweeping { mixed with positions := mixed.positions.reverse } = (.ok 2, q') ∧
      q'.cash = q.cash ∧ q'.trades.Perm q.trades := by
  intro prices sweeping
  have hsingle : mixed.Single := by
    rw [Single]
    decide
  obtain ⟨hexact, hperm⟩ := sweep_closes_what_is_due (α := ℚ) (K := ℚ)
  obtain ⟨n, q, q', hq, hq', hcash, -, htrades⟩ := hperm mixed _ prices nextDay
    ⟨1, 0, 0, true⟩ hsingle (List.reverse_perm _)
  obtain ⟨hn, hpositions, -, -, -, hagain⟩ := hexact _ _ _ _ _ _ hsingle hq
  obtain rfl : n = 2 := hn.trans (by decide)
  refine ⟨q, q', hq, ?_, hagain _ _, hq', hcash, htrades⟩
  rw [hpositions]
  decide

end Rational

end Portfolio

end BarReplay
