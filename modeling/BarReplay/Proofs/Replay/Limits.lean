import BarReplay.Proofs.Replay.TradeLog

namespace BarReplay

variable {α : Type}

-- What a trade has from the position that it closes.
structure Lot (α : Type) where
  code : String
  exchange : String
  quantity : Int
  entryPrice : α
  entryDate : Date

def Position.lot (pos : Position α) : Lot α :=
  ⟨pos.code, pos.exchange, pos.quantity, pos.entryPrice, pos.entryDate⟩

def ClosedTrade.lot (t : ClosedTrade α) : Lot α :=
  ⟨t.code, t.exchange, t.quantity, t.entryPrice, t.entryDate⟩

namespace Portfolio

-- Every lot that a portfolio has or has had.
def lots (p : Portfolio α) : List (Lot α) :=
  p.positions.map Position.lot ++ p.trades.map ClosedTrade.lot

theorem Closing.lot_eq [Amount α] {e : Execution α} {day : Date} {price : α} {pos : Position α}
    {t : ClosedTrade α} (h : Closing e day price pos t) : t.lot = pos.lot := by
  simp only [ClosedTrade.lot, Position.lot, h.code, h.exchange, h.quantity, h.entryPrice,
    h.entryDate]

end Portfolio

namespace Engine

open Portfolio Action

variable [Amount α] {settings : Settings α} {s : Strategy α} {instruments : List (Instrument α)}

-- What holds of every lot of a run: it is not empty, belongs to an instrument, and is short
-- only if that is allowed and asked for.
structure Admitted (settings : Settings α) (s : Strategy α) (instruments : List (Instrument α))
    (lot : Lot α) : Prop where
  quantity : lot.quantity ≠ 0
  entryPrice : 0 < lot.entryPrice
  listed : ∃ i ∈ instruments, i.code = lot.code ∧ i.exchange = lot.exchange
  short : lot.quantity < 0 → settings.allowShorting = true ∧ s.entryShort.isSome = true

theorem Opens.admitted {day : Date} {i : Instrument α} {p q : Portfolio α} {pos : Position α}
    (h : Opens settings s instruments day i p pos q) : Admitted settings s instruments pos.lot := by
  cases h with
  | @intro bar side pos cost fee listed quoted room allowed filled =>
    obtain ⟨-, hfill, quantity, -, -, hq, -, -, -, -, rfl⟩ := order_filled filled
    refine ⟨?_, hfill, ⟨i, listed, rfl, rfl⟩, fun hneg => ?_⟩
    · cases side <;> simp only [Position.lot, opened, Side.signed] <;> omega
    · cases side with
      | long => simp only [Position.lot, opened, Side.signed] at hneg; omega
      | short => exact allowed rfl

-- The limits of a run: `fills` are the positions opened so far.
structure Within (settings : Settings α) (s : Strategy α) (instruments : List (Instrument α))
    (fills : List (Position α)) (p : Portfolio α) : Prop where
  single : p.Single
  room : (p.positions.length : Int) ≤ max 0 s.maxPositions
  admitted : ∀ pos ∈ fills, Admitted settings s instruments pos.lot
  lots : (fills.map Position.lot).Perm p.lots

theorem Within.new (settings : Settings α) (s : Strategy α) (instruments : List (Instrument α))
    (capital : α) : Within settings s instruments [] (Portfolio.new capital) where
  single := List.nodup_nil
  room := by simp [Portfolio.new]
  admitted := by simp
  lots := .nil

theorem Within.close {fills : List (Position α)} {p q : Portfolio α} {day : Date} {code : String}
    (hp : Within settings s instruments fills p)
    (h : Closes settings.execution instruments day code p q) :
    Within settings s instruments fills q := by
  cases h with
  | @intro i bar pos trade returned listed named quoted held settled =>
    have hperm := (hp.single.perm held).map Position.lot
    refine ⟨hp.single.without code, ?_, hp.admitted, hp.lots.trans ?_⟩
    · have hle : (p.without code).positions.length ≤ p.positions.length := List.length_filter_le ..
      have hroom := hp.room
      simp only [credit]
      omega
    · -- the lot goes from the positions to the trades
      have hlot : trade.lot = pos.lot := (closing_of_settle settled).lot_eq
      simp only [Portfolio.lots, credit, List.map_append, List.map_cons, List.map_nil, hlot]
      refine (hperm.append_right _).trans ?_
      rw [List.map_cons, List.cons_append, ← List.append_assoc]
      exact (List.perm_append_singleton _ _).symm

theorem Within.enter {fills : List (Position α)} {p q : Portfolio α} {day : Date}
    {i : Instrument α} {pos : Position α} (hp : Within settings s instruments fills p)
    (h : Opens settings s instruments day i p pos q) :
    Within settings s instruments (fills ++ [pos]) q where
  single := by
    cases h with
    | intro listed quoted room allowed filled =>
      obtain ⟨hfree, -, -, -, -, -, -, -, -, -, rfl⟩ := order_filled filled
      exact hp.single.append hfree
  room := by
    cases h with
    | intro listed quoted room allowed filled =>
      simp only [book, List.length_append, List.length_singleton]
      omega
  admitted := by
    simp only [List.mem_append, List.mem_singleton]
    rintro x (hx | rfl)
    · exact hp.admitted x hx
    · exact h.admitted
  lots := by
    cases h with
    | intro listed quoted room allowed filled =>
      simp only [Portfolio.lots, book, List.map_append, List.map_cons, List.map_nil]
      refine (hp.lots.append_right _).trans ?_
      rw [Portfolio.lots, List.append_assoc, List.append_assoc]
      exact List.perm_append_comm.append_left _

theorem Within.change {fills more : List (Position α)} {p q : Portfolio α}
    (hp : Within settings s instruments fills p) (h : Change settings s instruments p more q) :
    Within settings s instruments (fills ++ more) q := by
  cases h with
  | close h => exact (List.append_nil fills).symm ▸ hp.close h
  | enter h => exact hp.enter h
  | mark curve => exact (List.append_nil fills).symm ▸ ⟨hp.single, hp.room, hp.admitted, hp.lots⟩

theorem Within.changes {fills more : List (Position α)} {p q : Portfolio α}
    (hp : Within settings s instruments fills p) (h : Changes settings s instruments p more q) :
    Within settings s instruments (fills ++ more) q := by
  induction h with
  | refl => exact (List.append_nil fills).symm ▸ hp
  | tail _ last ih => exact List.append_assoc fills _ _ ▸ ih.change last

-- After every stage of a run the limits of positions hold, and every position that has been
-- opened is either held or closed.
theorem limits_hold_at_every_stage (settings : Settings α) (s : Strategy α)
    (instruments : List (Instrument α)) (days : Option (List Date)) :
    replay settings s instruments (days.getD (calendar instruments)) =
        performAll settings s (stages instruments days) >>= (fun _ => pure ()) ∧
      (∀ r, run settings s instruments days = .ok r → ∃ fills,
        on (performAll settings s (stages instruments days)) (.new settings.initialCapital) =
          (.ok fills, r.portfolio)) ∧
      ∀ done rest fills p, stages instruments days = done ++ rest →
        on (performAll settings s done) (.new settings.initialCapital) = (.ok fills, p) →
        (p.positions.length : Int) ≤ max 0 s.maxPositions ∧
        (p.positions.map fun pos => pos.code).Nodup ∧
        (∀ pos ∈ p.positions, p.position? pos.code = some pos ∧
          (∃ i ∈ instruments, i.code = pos.code ∧ i.exchange = pos.exchange) ∧
          pos.quantity ≠ 0 ∧ 0 < pos.entryPrice) ∧
        ((∃ pos ∈ p.positions, pos.quantity < 0) ∨ (∃ t ∈ p.trades, t.quantity < 0) →
          settings.allowShorting = true ∧ s.entryShort.isSome = true) ∧
        fills.length = p.positions.length + p.trades.length ∧
        (fills.map Position.lot).Perm
          (p.positions.map Position.lot ++ p.trades.map ClosedTrade.lot) := by
  refine ⟨replay_eq_performAll .., fun r hr => performAll_of_run settings s hr, ?_⟩
  intro done rest fills p hsplit h
  have hstages : ∀ stage ∈ done, ∃ day, stage ∈ stagesOf instruments day := by
    intro stage hstage
    have hmem : stage ∈ stages instruments days := hsplit ▸ List.mem_append_left _ hstage
    obtain ⟨day, -, hday⟩ := List.mem_flatMap.1 hmem
    exact ⟨day, hday⟩
  have hwithin : Within settings s instruments fills p :=
    (Within.new settings s instruments _).changes (performAll_changes hstages h)
  have hadmitted : ∀ lot ∈ p.lots, Admitted settings s instruments lot := by
    intro lot hlot
    obtain ⟨pos, hpos, rfl⟩ := List.mem_map.1 (hwithin.lots.mem_iff.2 hlot)
    exact hwithin.admitted pos hpos
  have hheld : ∀ pos ∈ p.positions, Admitted settings s instruments pos.lot := fun pos hpos =>
    hadmitted _ (List.mem_append_left _ (List.mem_map_of_mem hpos))
  have hclosed : ∀ t ∈ p.trades, Admitted settings s instruments t.lot := fun t ht =>
    hadmitted _ (List.mem_append_right _ (List.mem_map_of_mem ht))
  refine ⟨hwithin.room, hwithin.single, fun pos hpos => ?_, ?_, ?_, hwithin.lots⟩
  · have hpos' := hheld pos hpos
    exact ⟨hwithin.single.position?_eq hpos, hpos'.listed, hpos'.quantity, hpos'.entryPrice⟩
  · rintro (⟨pos, hpos, hneg⟩ | ⟨t, ht, hneg⟩)
    · exact (hheld pos hpos).short hneg
    · exact (hclosed t ht).short hneg
  · simpa [Portfolio.lots] using hwithin.lots.length_eq

-- After the second instrument's visit on the second day, a short is held and a long is closed.
theorem limits_hold_whipsaw :
    ∃ fills p, on (performAll withShorts aroundTen
        ((stages whipsaw (some threeDays)).take 7)) (.new (withShorts : Settings Float).initialCapital) =
          (.ok fills, p) ∧
      fills.map (·.quantity) = [4125, -4868] ∧ p.positions.length = 1 ∧
      fills.length = p.positions.length + p.trades.length := by
  have hseen : (fun x : Except Failure (List (Position Float)) × Portfolio Float =>
      (x.1.toOption.map fun fills => fills.map (·.quantity), x.2.positions.length))
        (on (performAll withShorts aroundTen ((stages whipsaw (some threeDays)).take 7))
          (.new (withShorts : Settings Float).initialCapital)) = (some [4125, -4868], 1) := by
    decide +kernel
  cases hstages : on (performAll withShorts aroundTen ((stages whipsaw (some threeDays)).take 7))
      (.new (withShorts : Settings Float).initialCapital) with
  | mk ending p =>
    rw [hstages] at hseen
    obtain ⟨hfills, hpositions⟩ := Prod.mk.inj hseen
    cases ending with
    | error f => cases hfills
    | ok fills =>
      obtain ⟨-, -, -, -, hcount, -⟩ := (limits_hold_at_every_stage withShorts aroundTen whipsaw
        (some threeDays)).2.2 _ _ fills p (List.take_append_drop 7 _).symm hstages
      exact ⟨fills, p, rfl, Option.some.inj hfills, hpositions, hcount⟩

end Engine

end BarReplay
