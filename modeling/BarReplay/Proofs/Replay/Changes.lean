import BarReplay.Proofs.Replay.Calendar
import BarReplay.Proofs.Replay.Stages
import Mathlib.Logic.Relation

namespace BarReplay

variable {α : Type}

-- The bar of an instrument on a day, the last of several.
def Instrument.barOn? (i : Instrument α) (day : Date) : Option (Bar α) :=
  (i.indexOf? day).bind (i.bars[·]?)

theorem Instrument.barOn?_eq_some_iff {i : Instrument α} {day : Date} {b : Bar α} :
    i.barOn? day = some b ↔ ∃ k, i.indexOf? day = some k ∧ i.bars[k]? = some b :=
  Option.bind_eq_some_iff

theorem Instrument.date_of_barOn? {i : Instrument α} {day : Date} {b : Bar α}
    (h : i.barOn? day = some b) : b.date = day := by
  obtain ⟨k, hk, hb⟩ := barOn?_eq_some_iff.1 h
  obtain ⟨c, hc, hdate, -⟩ := indexOf?_eq_some_iff.1 hk
  obtain rfl : c = b := Option.some.inj (hc.symm.trans hb)
  exact hdate

variable [Amount α]

namespace Engine

open Portfolio Action

-- A position is closed at the close of the day of its instrument.
inductive Closes (e : Execution α) (instruments : List (Instrument α)) (day : Date)
    (code : String) (p : Portfolio α) : Portfolio α → Prop where
  | intro {i : Instrument α} {bar : Bar α} {pos : Position α} {trade : ClosedTrade α}
      {returned : α} (listed : i ∈ instruments) (named : i.code = code)
      (quoted : i.barOn? day = some bar) (held : p.position? code = some pos)
      (settled : settle pos bar.close day e = .ok (trade, returned)) :
      Closes e instruments day code p ((p.without code).credit trade returned)

-- Positions are closed one after the other.
abbrev Clears (e : Execution α) (instruments : List (Instrument α)) (day : Date) :
    Portfolio α → Portfolio α → Prop :=
  Relation.ReflTransGen fun p q => ∃ code, Closes e instruments day code p q

-- A position is opened in an instrument at the close of its day. There is room for it, and a
-- short is allowed and asked for.
inductive Opens (settings : Settings α) (s : Strategy α) (instruments : List (Instrument α))
    (day : Date) (i : Instrument α) (p : Portfolio α) : Position α → Portfolio α → Prop where
  | intro {bar : Bar α} {side : Side} {pos : Position α} {cost fee : α}
      (listed : i ∈ instruments) (quoted : i.barOn? day = some bar)
      (room : (p.positions.length : Int) < s.maxPositions)
      (allowed : side = .short → settings.allowShorting = true ∧ s.entryShort.isSome = true)
      (filled : order p i.code i.exchange (side.entryPrice settings.execution bar.close) day s
        settings.execution side = .ok (.filled pos cost fee)) :
      Opens settings s instruments day i p pos (p.book (.filled pos cost fee))

variable {settings : Settings α} {s : Strategy α} {instruments : List (Instrument α)}
  {day : Date} {p q : Portfolio α} {fills : List (Position α)}

omit [Amount α] in
theorem bar_of_mem_today {x : Instrument α × Nat × α} (h : x ∈ today instruments day) :
    x.1 ∈ instruments ∧ ∃ bar, x.1.barOn? day = some bar ∧ bar.close = x.2.2 := by
  obtain ⟨i, hi, h⟩ := List.mem_filterMap.1 h
  obtain ⟨k, hk, h⟩ := Option.bind_eq_some_iff.1 h
  obtain ⟨bar, hbar, h⟩ := Option.bind_eq_some_iff.1 h
  cases h
  exact ⟨hi, bar, Instrument.barOn?_eq_some_iff.2 ⟨k, hk, hbar⟩, rfl⟩

omit [Amount α] in
theorem bar_of_lookup {code : String} {price : α}
    (h : (prices (today instruments day)).lookup code = some price) :
    ∃ i ∈ instruments, i.code = code ∧ ∃ bar, i.barOn? day = some bar ∧ bar.close = price := by
  obtain ⟨front, back, hsplit, -⟩ := List.lookup_eq_some_iff.1 h
  have hmem : (code, price) ∈ prices (today instruments day) := by simp [hsplit]
  obtain ⟨x, hx, hcode⟩ := List.mem_map.1 hmem
  obtain ⟨hi, bar, hbar, hclose⟩ := bar_of_mem_today hx
  cases hcode
  exact ⟨x.1, hi, rfl, bar, hbar, hclose⟩

-- A loop of exits only closes positions.
theorem exits_ok {due : List (String × α)} {e : Execution α} {n : PUnit}
    (hdue : ∀ x ∈ due, ∃ i ∈ instruments, i.code = x.1 ∧
      ∃ bar, i.barOn? day = some bar ∧ bar.close = x.2)
    (h : on (forIn due PUnit.unit fun (x : String × α) _ => do
      let _ ← exit x.1 x.2 day e
      return ForInStep.yield PUnit.unit) p = (.ok n, q)) :
    Clears e instruments day p q := by
  induction due generalizing p with
  | nil =>
    cases h
    exact .refl
  | cons x due ih =>
    rw [List.forIn_cons, bind_assoc] at h
    obtain ⟨_, r, hexit, h⟩ := on_bind_eq_ok.1 h
    rw [pure_bind] at h
    have hrest := ih (fun y hy => hdue y (List.mem_cons_of_mem _ hy)) h
    cases exit_ok hexit with
    | inl hsame => exact hsame ▸ hrest
    | inr hclosed =>
      obtain ⟨pos, trade, returned, hpos, hsettle, rfl⟩ := hclosed
      obtain ⟨i, hi, hcode, bar, hbar, hclose⟩ := hdue x List.mem_cons_self
      exact .head ⟨x.1, hi, hcode, hbar, hpos, hclose ▸ hsettle⟩ hrest

-- A sweep at the closes of the day only closes positions.
theorem sweep_changes
    (h : on ((Stage.sweep (prices (today instruments day)) day).perform settings s) p =
      (.ok fills, q)) :
    fills = [] ∧ Clears settings.execution instruments day p q := by
  obtain ⟨_, _, hsweep, h⟩ := on_bind_eq_ok.1 h
  cases h
  rw [Portfolio.sweep, on_get_bind] at hsweep
  obtain ⟨_, _, hexits, hsweep⟩ := on_bind_eq_ok.1 hsweep
  cases hsweep
  refine ⟨rfl, exits_ok (fun x hx => ?_) hexits⟩
  obtain ⟨pos, -, hdue⟩ := List.mem_filterMap.1 hx
  cases hprice : (prices (today instruments day)).lookup pos.code with
  | none =>
    rw [hprice] at hdue
    cases hdue
  | some price =>
    simp only [hprice, Option.ite_none_right_eq_some, Option.some.injEq] at hdue
    obtain ⟨-, rfl⟩ := hdue
    exact bar_of_lookup hprice

theorem closeIfDue_changes {i : Instrument α} {index : Nat} {bar : Bar α} (hi : i ∈ instruments)
    (hbar : i.barOn? day = some bar)
    (h : on (closeIfDue settings s day i index bar.close) p = (.ok (), q)) :
    q = p ∨ Closes settings.execution instruments day i.code p q := by
  rw [closeIfDue, on_get_bind] at h
  split at h
  · rw [on_ite] at h
    split at h
    · obtain ⟨_, _, hexit, h⟩ := on_bind_eq_ok.1 h
      cases h
      obtain hsame | ⟨pos, trade, returned, hpos, hsettle, rfl⟩ := exit_ok hexit
      · exact .inl hsame
      · exact .inr ⟨hi, rfl, hbar, hpos, hsettle⟩
    · cases h
      exact .inl rfl
  · cases h
    exact .inl rfl

theorem entrySide?_short {allow : Bool} {chart : Chart α} {index : Nat}
    (h : entrySide? s allow chart index = some .short) :
    allow = true ∧ s.entryShort.isSome = true := by
  unfold entrySide? at h
  split at h
  · cases h
  · split at h
    · rename_i r hr
      split at h
      · rename_i hallow
        exact ⟨(Bool.and_eq_true_iff.1 hallow).1, by rw [hr]; rfl⟩
      · cases h
    · cases h

theorem openings_changes {i : Instrument α} {index : Nat} {bar : Bar α} (hi : i ∈ instruments)
    (hbar : i.barOn? day = some bar)
    (h : on (openings settings s day i index bar.close) p = (.ok fills, q)) :
    fills = [] ∧ q = p ∨ ∃ pos, fills = [pos] ∧ Opens settings s instruments day i p pos q := by
  rw [openings, on_get_bind, on_ite] at h
  split at h
  · rename_i hroom
    have hroom := of_decide_eq_true (Bool.and_eq_true_iff.1 hroom).2
    split at h
    · rename_i side hside
      obtain ⟨entry, r, henter, h⟩ := on_bind_eq_ok.1 h
      cases h
      obtain ⟨horder, rfl⟩ := enter_ok henter
      cases entry with
      | rejected reason => exact .inl ⟨rfl, rfl⟩
      | filled pos cost fee =>
        refine .inr ⟨pos, rfl, hi, hbar, hroom, ?_, (quotedOrder_filled horder).2⟩
        rintro rfl
        exact entrySide?_short hside
    · cases h
      exact .inl ⟨rfl, rfl⟩
  · cases h
    exact .inl ⟨rfl, rfl⟩

-- A visit closes the position in its instrument or leaves it, and then opens one or does not.
theorem visit_changes {x : Instrument α × Nat × α} (hx : x ∈ today instruments day)
    (h : on ((Stage.visit day x.1 x.2.1 x.2.2).perform settings s) p = (.ok fills, q)) :
    ∃ r, (r = p ∨ Closes settings.execution instruments day x.1.code p r) ∧
      (fills = [] ∧ q = r ∨
        ∃ pos, fills = [pos] ∧ Opens settings s instruments day x.1 r pos q) := by
  obtain ⟨hi, bar, hbar, hclose⟩ := bar_of_mem_today hx
  obtain ⟨_, r, hexit, hentry⟩ := on_bind_eq_ok.1 h
  rw [← hclose] at hexit hentry
  exact ⟨r, closeIfDue_changes hi hbar hexit, openings_changes hi hbar hentry⟩

-- What closing and opening preserve, all visits of a day do. The invariant may speak of the
-- instruments that are still to come.
theorem visits_invariant {I : List (Instrument α × Nat × α) → Portfolio α → Prop}
    (hclose : ∀ {x rest p q}, I (x :: rest) p →
      Closes settings.execution instruments day x.1.code p q → I (x :: rest) q)
    (hopen : ∀ {x rest pos p q}, I (x :: rest) p →
      Opens settings s instruments day x.1 p pos q → I rest q)
    (hpass : ∀ {x rest p}, I (x :: rest) p → I rest p)
    {trading : List (Instrument α × Nat × α)} (htrading : ∀ x ∈ trading, x ∈ today instruments day)
    (hp : I trading p) (h : on (performAll settings s (visits trading day)) p = (.ok fills, q)) :
    I [] q := by
  induction trading generalizing p fills with
  | nil =>
    cases h
    exact hp
  | cons x trading ih =>
    obtain ⟨first, rest, r, hfirst, hrest, -⟩ := performAll_cons_eq_ok.1 h
    obtain ⟨m, hexit, hentry⟩ := visit_changes (htrading x List.mem_cons_self) hfirst
    have hm : I (x :: trading) m := by
      obtain rfl | hexit := hexit
      · exact hp
      · exact hclose hp hexit
    have hr : I trading r := by
      obtain ⟨-, rfl⟩ | ⟨pos, -, hentry⟩ := hentry
      · exact hpass hm
      · exact hopen hm hentry
    exact ih (fun y hy => htrading y (List.mem_cons_of_mem _ hy)) hr hrest

-- A record that ends well puts a later day behind the curve.
theorem record_changes {quotes : PriceMap α}
    (h : on ((Stage.record quotes day).perform settings s) p = (.ok fills, q)) :
    fills = [] ∧ ∃ equity, p.equity quotes = .ok equity ∧
      (∀ last, p.curve.getLast? = some last → last.date < day) ∧
      q = { p with curve := p.curve ++ [EquityPoint.mk day equity] } := by
  rw [Stage.perform, on_get_bind] at h
  cases hequity : p.equity quotes with
  | error f =>
    rw [hequity, on_calculated_bind] at h
    cases h
  | ok equity =>
    rw [hequity, on_calculated_bind] at h
    obtain ⟨_, _, hrecord, h⟩ := on_bind_eq_ok.1 h
    cases h
    rw [record_on] at hrecord
    refine ⟨rfl, equity, rfl, ?_⟩
    cases hlast : p.curve.getLast? with
    | none =>
      rw [hlast] at hrecord
      cases hrecord
      exact ⟨by simp, rfl⟩
    | some last =>
      simp only [hlast] at hrecord
      split at hrecord
      · cases hrecord
      · rename_i hlater
        cases hrecord
        refine ⟨fun _ h => ?_, rfl⟩
        cases h
        exact not_le.1 hlater

-- All that can happen to a portfolio in a run, with the positions that are opened.
inductive Change (settings : Settings α) (s : Strategy α) (instruments : List (Instrument α))
    (p : Portfolio α) : List (Position α) → Portfolio α → Prop where
  | close {day : Date} {code : String} {q : Portfolio α}
      (h : Closes settings.execution instruments day code p q) :
      Change settings s instruments p [] q
  | enter {day : Date} {i : Instrument α} {pos : Position α} {q : Portfolio α}
      (h : Opens settings s instruments day i p pos q) :
      Change settings s instruments p [pos] q
  | mark (curve : List (EquityPoint α)) :
      Change settings s instruments p [] { p with curve := curve }

inductive Changes (settings : Settings α) (s : Strategy α) (instruments : List (Instrument α))
    (p : Portfolio α) : List (Position α) → Portfolio α → Prop where
  | refl : Changes settings s instruments p [] p
  | tail {fills more : List (Position α)} {q r : Portfolio α}
      (front : Changes settings s instruments p fills q)
      (last : Change settings s instruments q more r) :
      Changes settings s instruments p (fills ++ more) r

namespace Changes

theorem single (h : Change settings s instruments p fills q) :
    Changes settings s instruments p fills q :=
  .tail .refl h

theorem trans {more : List (Position α)} {r : Portfolio α}
    (h : Changes settings s instruments p fills q)
    (h' : Changes settings s instruments q more r) :
    Changes settings s instruments p (fills ++ more) r := by
  induction h' with
  | refl => exact (List.append_nil fills).symm ▸ h
  | tail _ last ih => exact List.append_assoc fills _ _ ▸ ih.tail last

theorem of_clears (h : Clears settings.execution instruments day p q) :
    Changes settings s instruments p [] q := by
  induction h with
  | refl => exact .refl
  | tail _ hclose ih => exact ih.tail (.close hclose.choose_spec)

end Changes

-- A stage of a day that ends well is made of such changes.
theorem perform_changes {stage : Stage α} (hstage : stage ∈ stagesOf instruments day)
    (h : on (stage.perform settings s) p = (.ok fills, q)) :
    Changes settings s instruments p fills q := by
  simp only [stagesOf, List.mem_cons, List.mem_append, List.not_mem_nil, or_false] at hstage
  obtain rfl | hvisit | rfl := hstage
  · obtain ⟨rfl, hclears⟩ := sweep_changes h
    exact .of_clears hclears
  · obtain ⟨x, hx, rfl⟩ := List.mem_map.1 hvisit
    obtain ⟨r, hclose, hopen⟩ := visit_changes hx h
    have hfront : Changes settings s instruments p [] r := by
      obtain rfl | hclose := hclose
      · exact .refl
      · exact .single (.close hclose)
    obtain ⟨rfl, rfl⟩ | ⟨pos, rfl, hopen⟩ := hopen
    · exact hfront
    · exact hfront.tail (.enter hopen)
  · obtain ⟨rfl, equity, -, -, rfl⟩ := record_changes h
    exact .single (.mark _)

theorem performAll_changes {stages : List (Stage α)}
    (hstages : ∀ stage ∈ stages, ∃ day, stage ∈ stagesOf instruments day)
    (h : on (performAll settings s stages) p = (.ok fills, q)) :
    Changes settings s instruments p fills q := by
  induction stages generalizing p fills with
  | nil =>
    cases h
    exact .refl
  | cons stage stages ih =>
    obtain ⟨first, rest, r, hfirst, hrest, rfl⟩ := performAll_cons_eq_ok.1 h
    obtain ⟨day, hday⟩ := hstages stage List.mem_cons_self
    exact (perform_changes hday hfirst).trans
      (ih (fun x hx => hstages x (List.mem_cons_of_mem _ hx)) hrest)

end Engine

end BarReplay
