import BarReplay.Config.Load
import BarReplay.Proofs.Decimal.Order
import BarReplay.Proofs.Rule.Parsing

namespace BarReplay.Config

open Decimal Rule.Grammar Text

variable {β γ : Type} {s : Source}

namespace Source

-- What a source has under a key: the default where there is no text, and what the text says
-- where there is one.
def Gives (s : Source) (read : String → Option β) (sect key : String) (default value : β) : Prop :=
  match s.filled? sect key with
  | none => value = default
  | some raw => read (strip raw) = some value

def GivesDate (s : Source) (key : String) (d : Date) : Prop :=
  ∃ raw, s.filled? "backtest" key = some raw ∧
    Calendar.Item.parse? Calendar.isoDate (strip raw) = some d

def GivesRule (s : Source) (key : String) (r? : Option (Rule Float)) : Prop :=
  match s.filled? "strategy" key with
  | none => r? = none
  | some text => ∃ r, Rule.parse text = .ok r ∧ r? = some r

-- A text that stands for a number and names none.
def GivesNoNumber (s : Source) (sect key : String) : Prop :=
  ∃ raw, s.filled? sect key = some raw ∧ NamesNoNumber (strip raw)

end Source

-- Settings as a source has them.
structure SettingsFrom (s : Source) (c : Settings Float) : Prop where
  startDate : ∃ d, c.startDate = some d ∧ s.GivesDate "start_date" d
  endDate : ∃ d, c.endDate = some d ∧ s.GivesDate "end_date" d
  initialCapital : s.Gives readFloat? "backtest" "initial_capital"
    (Settings.standard : Settings Float).initialCapital c.initialCapital
  commissionPerTrade : s.Gives readFloat? "backtest" "commission_per_trade"
    (Settings.standard : Settings Float).commissionPerTrade c.commissionPerTrade
  commissionPct : s.Gives readFloat? "backtest" "commission_pct"
    (Settings.standard : Settings Float).commissionPct c.commissionPct
  slippagePct : s.Gives readFloat? "backtest" "slippage_pct"
    (Settings.standard : Settings Float).slippagePct c.slippagePct
  allowShorting : s.Gives readBool? "backtest" "allow_shorting"
    (Settings.standard : Settings Float).allowShorting c.allowShorting
  riskFreeRate : s.Gives readFloat? "backtest" "risk_free_rate"
    (Settings.standard : Settings Float).riskFreeRate c.riskFreeRate

-- The ranges of the settings. What is no number is not refused where a check refuses what is out
-- of range, and is refused where a check asks for what is in it.
structure SettingsInRange (s : Source) (c : Settings Float) : Prop where
  dates : ∃ start last, c.startDate = some start ∧ c.endDate = some last ∧ start < last
  initialCapital : 0 < c.initialCapital ∨ s.GivesNoNumber "backtest" "initial_capital"
  commissionPerTrade :
    0 ≤ c.commissionPerTrade ∨ s.GivesNoNumber "backtest" "commission_per_trade"
  commissionPct : 0 ≤ c.commissionPct ∨ s.GivesNoNumber "backtest" "commission_pct"
  slippagePct : 0 ≤ c.slippagePct ∨ s.GivesNoNumber "backtest" "slippage_pct"
  riskFreeRate : 0 ≤ c.riskFreeRate ∧ c.riskFreeRate < 1

structure StrategyFrom (s : Source) (t : Strategy Float) : Prop where
  name : t.name = s.label "name" "Unnamed"
  description : t.description = s.label "description" ""
  entryLong : s.GivesRule "entry_long" (some t.entryLong)
  exitLong : s.GivesRule "exit_long" (some t.exitLong)
  entryShort : s.GivesRule "entry_short" t.entryShort
  exitShort : s.GivesRule "exit_short" t.exitShort
  positionSize : s.Gives readFloat? "strategy" "position_size" 0.25 t.positionSize
  stopLoss : s.Gives readFloat? "strategy" "stop_loss" 0 t.stopLossPct
  takeProfit : s.Gives readFloat? "strategy" "take_profit" 0 t.takeProfitPct
  maxPositions : s.Gives readInt? "strategy" "max_positions" 1 t.maxPositions

structure StrategyInRange (s : Source) (t : Strategy Float) : Prop where
  positionSize : 0 < t.positionSize ∧ t.positionSize ≤ 1
  stopLoss : 0 ≤ t.stopLossPct ∨ s.GivesNoNumber "strategy" "stop_loss"
  takeProfit : 0 ≤ t.takeProfitPct ∨ s.GivesNoNumber "strategy" "take_profit"
  maxPositions : 1 ≤ t.maxPositions

def requiredKeys : List (String × String) :=
  [("backtest", "start_date"), ("backtest", "end_date"), ("strategy", "entry_long"),
    ("strategy", "exit_long")]

-- The keys whose numbers must not be negative.
def unsignedKeys : List (String × String) :=
  [("backtest", "commission_per_trade"), ("backtest", "commission_pct"),
    ("backtest", "slippage_pct"), ("strategy", "stop_loss"), ("strategy", "take_profit")]

def numberKeys : List (String × String) :=
  unsignedKeys ++
    [("backtest", "initial_capital"), ("backtest", "risk_free_rate"), ("strategy", "position_size")]

def ruleKeys : List String :=
  ["entry_long", "exit_long", "entry_short", "exit_short"]

-- What can be wrong with a text under a key: it is not of its kind, or out of range.
inductive Unfit : String → String → String → Reason → Prop
  | date {key raw : String} (hkey : ("backtest", key) ∈ requiredKeys)
      (hread : Calendar.Item.parse? Calendar.isoDate (strip raw) = none) :
      Unfit "backtest" key raw (.dateFormat key)
  | number {sect key raw : String} (hkey : (sect, key) ∈ numberKeys)
      (hread : readFloat? (strip raw) = none) : Unfit sect key raw (.expectedNumber raw)
  | boolean {raw : String} (hread : readBool? (strip raw) = none) :
      Unfit "backtest" "allow_shorting" raw (.expectedBoolean raw)
  | integer {raw : String} (hread : readInt? (strip raw) = none) :
      Unfit "strategy" "max_positions" raw (.expectedInteger raw)
  | notPositive {raw : String} {x : Float} (hread : readFloat? (strip raw) = some x)
      (hrange : x ≤ 0) :
      Unfit "backtest" "initial_capital" raw (.notPositive "initial_capital")
  | negative {sect key raw : String} {x : Float} (hkey : (sect, key) ∈ unsignedKeys)
      (hread : readFloat? (strip raw) = some x) (hrange : x < 0) :
      Unfit sect key raw (.negative key)
  | rate {raw : String} {x : Float} (hread : readFloat? (strip raw) = some x)
      (hrange : ¬ (0 ≤ x ∧ x < 1)) : Unfit "backtest" "risk_free_rate" raw .rateRange
  | size {raw : String} {x : Float} (hread : readFloat? (strip raw) = some x)
      (hrange : ¬ (0 < x ∧ x ≤ 1)) : Unfit "strategy" "position_size" raw .sizeRange
  | positions {raw : String} {n : Int} (hread : readInt? (strip raw) = some n)
      (hrange : ¬ 1 ≤ n) : Unfit "strategy" "max_positions" raw .fewPositions

-- The errors that a section of a source can be refused with. A text of a rule fails for the
-- length of an integer only if it has one that is too long.
inductive Blames (s : Source) : String → Error → Prop
  | missing {sect key : String} (hkey : (sect, key) ∈ requiredKeys)
      (hnone : s.filled? sect key = none) : Blames s sect (.missing sect key)
  | unfit {sect key raw : String} {reason : Reason} (htext : s.filled? sect key = some raw)
      (hunfit : Unfit sect key raw reason) : Blames s sect (.invalid sect key reason)
  | dateOrder {start last : Date} (hstart : s.GivesDate "start_date" start)
      (hlast : s.GivesDate "end_date" last) (horder : ¬ start < last) :
      Blames s "backtest" (.invalid "backtest" "start_date" .dateOrder)
  | rule {key text : String} {e : Rule.ParseError} (hkey : key ∈ ruleKeys)
      (htext : s.filled? "strategy" key = some text)
      (hparse : Rule.parse (α := Float) text = .error e)
      (hlong : ∀ n, e.cause = .longInteger n →
        ∃ cs, IntegerLiteral (RuleForm : List Token → Rule Float → Prop) text.toList cs ∧
          digitLimit < cs.length) :
      Blames s "strategy" (.rule (e.withKey key))

namespace Source

theorem lookup_eq_ok_iff {read : String → Option β} {reason : String → Reason} {sect key : String}
    {default x : β} :
    s.lookup read reason sect key default = .ok x ↔ s.Gives read sect key default x := by
  unfold lookup Gives
  cases s.filled? sect key with
  | none => simp [eq_comm]
  | some raw => cases h : read (strip raw) <;> simp [h]

theorem require_eq_ok_iff {sect key t : String} :
    s.require sect key = .ok t ↔ ∃ raw, s.filled? sect key = some raw ∧ strip raw = t := by
  unfold require
  cases s.filled? sect key <;> simp

theorem date_eq_ok_iff {key : String} {d : Date} : s.date key = .ok d ↔ s.GivesDate key d := by
  unfold date GivesDate
  simp only [except_bind_eq_ok, require_eq_ok_iff]
  constructor
  · rintro ⟨_, ⟨raw, htext, rfl⟩, h⟩
    split at h
    · rename_i hread
      cases h
      exact ⟨raw, htext, hread⟩
    · cases h
  · rintro ⟨raw, htext, hread⟩
    exact ⟨_, ⟨raw, htext, rfl⟩, by rw [hread]⟩

theorem rule?_eq_ok_iff {key : String} {r? : Option (Rule Float)} :
    s.rule? key = .ok r? ↔ s.GivesRule key r? := by
  unfold rule? GivesRule
  cases s.filled? "strategy" key with
  | none => simp [eq_comm]
  | some text => cases h : Rule.parse (α := Float) text <;> simp [h, eq_comm]

theorem rule_eq_ok_iff {key : String} {r : Rule Float} :
    s.rule key = .ok r ↔ s.GivesRule key (some r) := by
  rw [← rule?_eq_ok_iff, rule]
  cases s.rule? key with
  | error e => simp [Bind.bind, Except.bind]
  | ok r? => cases r? <;> simp [Bind.bind, Except.bind]

-- What a default does not have comes from a text.
theorem Gives.text {read : String → Option β} {sect key : String} {default x : β} {P : β → Prop}
    (h : s.Gives read sect key default x) (hdefault : ¬ P default) (hx : P x) :
    ∃ raw, s.filled? sect key = some raw ∧ read (strip raw) = some x := by
  unfold Gives at h
  cases hraw : s.filled? sect key with
  | none =>
    rw [hraw] at h
    exact absurd (h ▸ hx) hdefault
  | some raw =>
    rw [hraw] at h
    exact ⟨raw, rfl, h⟩

theorem Gives.isNaN_iff {sect key : String} {default x : Float}
    (h : s.Gives readFloat? sect key default x) (hdefault : default.isNaN = false) :
    x.isNaN = true ↔ s.GivesNoNumber sect key := by
  constructor
  · intro hx
    obtain ⟨raw, hraw, hread⟩ :=
      h.text (P := fun y => y.isNaN = true) (by rw [hdefault]; decide) hx
    exact ⟨raw, hraw, namesNoNumber_of_isNaN hread hx⟩
  · rintro ⟨raw, hraw, hname⟩
    rw [Gives, hraw] at h
    dsimp only at h
    rw [readFloat?_of_namesNoNumber hname] at h
    cases h
    decide

theorem isNaN_zero : (0 : Float).isNaN = false := by
  decide

-- What a check that refuses a range lets through.
theorem Gives.not_negative_iff {sect key : String} {default x : Float}
    (h : s.Gives readFloat? sect key default x) (hdefault : default.isNaN = false) :
    (!decide (x < 0)) = true ↔ 0 ≤ x ∨ s.GivesNoNumber sect key := by
  rw [Bool.not_eq_true', decide_eq_false_iff_not, Double.not_lt_iff, h.isNaN_iff hdefault,
    isNaN_zero]
  simp

theorem Gives.positive_iff {sect key : String} {default x : Float}
    (h : s.Gives readFloat? sect key default x) (hdefault : default.isNaN = false) :
    (!decide (x ≤ 0)) = true ↔ 0 < x ∨ s.GivesNoNumber sect key := by
  rw [Bool.not_eq_true', decide_eq_false_iff_not, Double.not_le_iff, h.isNaN_iff hdefault,
    isNaN_zero]
  simp

end Source

-- A check refuses exactly what does not meet its condition.
theorem check_eq_ok_iff {condition : Bool} {sect key : String} {reason : Reason} {u : Unit} :
    check condition sect key reason = .ok u ↔ condition = true := by
  unfold check
  cases condition <;> simp

theorem isNaN_standard :
    (Settings.standard : Settings Float).initialCapital.isNaN = false ∧
    (Settings.standard : Settings Float).commissionPerTrade.isNaN = false ∧
    (Settings.standard : Settings Float).commissionPct.isNaN = false ∧
    (Settings.standard : Settings Float).slippagePct.isNaN = false := by
  decide

-- Settings are loaded exactly where every key gives a value and every value passes its check.
theorem loadSettings_eq_ok_iff {c : Settings Float} :
    loadSettings s = .ok c ↔ SettingsFrom s c ∧ SettingsInRange s c := by
  obtain ⟨hcapital', hflat', hpct', hslippage'⟩ := isNaN_standard
  unfold loadSettings
  simp only [except_bind_eq_ok, Source.date_eq_ok_iff, Source.float, Source.bool,
    Source.lookup_eq_ok_iff, checkNotNegative, check_eq_ok_iff]
  constructor
  · rintro ⟨start, hstart, last, hlast, -, hdates, capital, hcapital, flat, hflat, pct, hpct,
      slippage, hslippage, shorting, hshorting, rate, hrate, -, hpositive, -, hflat0, -, hpct0, -,
      hslippage0, -, hrange, h⟩
    cases h
    refine ⟨⟨⟨start, rfl, hstart⟩, ⟨last, rfl, hlast⟩, hcapital, hflat, hpct, hslippage, hshorting,
      hrate⟩, ?_⟩
    rw [hcapital.positive_iff hcapital'] at hpositive
    rw [hflat.not_negative_iff hflat'] at hflat0
    rw [hpct.not_negative_iff hpct'] at hpct0
    rw [hslippage.not_negative_iff hslippage'] at hslippage0
    exact ⟨⟨start, last, rfl, rfl, of_decide_eq_true hdates⟩, hpositive, hflat0, hpct0, hslippage0,
      by simpa using hrange⟩
  · rintro ⟨⟨⟨start, hstart, hstart'⟩, ⟨last, hlast, hlast'⟩, hcapital, hflat, hpct, hslippage,
      hshorting, hrate⟩, ⟨⟨start', last', hstart'', hlast'', hdates⟩, hpositive, hflat0, hpct0,
      hslippage0, hrange⟩⟩
    obtain rfl := Option.some.inj (hstart.symm.trans hstart'')
    obtain rfl := Option.some.inj (hlast.symm.trans hlast'')
    refine ⟨start, hstart', last, hlast', (), decide_eq_true hdates, _, hcapital, _, hflat, _, hpct,
      _, hslippage, _, hshorting, _, hrate, (), (hcapital.positive_iff hcapital').2 hpositive, (),
      (hflat.not_negative_iff hflat').2 hflat0, (), (hpct.not_negative_iff hpct').2 hpct0, (),
      (hslippage.not_negative_iff hslippage').2 hslippage0, (), by simpa using hrange, ?_⟩
    rw [← hstart, ← hlast]
    rfl

theorem loadStrategy_eq_ok_iff {t : Strategy Float} :
    loadStrategy s = .ok t ↔ StrategyFrom s t ∧ StrategyInRange s t := by
  unfold loadStrategy
  simp only [except_bind_eq_ok, Source.float, Source.int, Source.lookup_eq_ok_iff,
    Source.rule_eq_ok_iff, Source.rule?_eq_ok_iff, checkNotNegative, check_eq_ok_iff]
  constructor
  · rintro ⟨size, hsize, -, hrange, stop, hstop, -, hstop0, take, htake, -, htake0, positions,
      hpositions, -, hleast, entryLong, hentryLong, exitLong, hexitLong, entryShort, hentryShort,
      exitShort, hexitShort, h⟩
    cases h
    rw [hstop.not_negative_iff Source.isNaN_zero] at hstop0
    rw [htake.not_negative_iff Source.isNaN_zero] at htake0
    exact ⟨⟨rfl, rfl, hentryLong, hexitLong, hentryShort, hexitShort, hsize, hstop, htake,
      hpositions⟩, ⟨by simpa using hrange, hstop0, htake0, of_decide_eq_true hleast⟩⟩
  · rintro ⟨⟨hname, hdescription, hentryLong, hexitLong, hentryShort, hexitShort, hsize, hstop,
      htake, hpositions⟩, ⟨hrange, hstop0, htake0, hleast⟩⟩
    refine ⟨_, hsize, (), by simpa using hrange, _, hstop, (),
      (hstop.not_negative_iff Source.isNaN_zero).2 hstop0, _, htake, (),
      (htake.not_negative_iff Source.isNaN_zero).2 htake0, _, hpositions, (),
      decide_eq_true hleast, _, hentryLong, _, hexitLong, _, hentryShort, _, hexitShort, ?_⟩
    rw [← hname, ← hdescription]
    rfl

-- A step that fails only with what a section can be blamed for.
def Blamed (s : Source) (sect : String) (r : Except Error β) : Prop :=
  ∀ e, r = .error e → Blames s sect e

namespace Blamed

variable {sect key : String}

theorem bind {r : Except Error β} {f : β → Except Error γ} (hr : Blamed s sect r)
    (hf : ∀ x, r = .ok x → Blamed s sect (f x)) : Blamed s sect (r >>= f) := by
  intro e h
  obtain h | ⟨x, hx, h⟩ := except_bind_eq_error.1 h
  · exact hr e h
  · exact hf x hx e h

theorem pure (x : β) : Blamed s sect (Pure.pure x : Except Error β) := by
  intro e h
  cases h

theorem lookup {read : String → Option β} {reason : String → Reason} {default : β}
    (h : ∀ raw, read (strip raw) = none → Unfit sect key raw (reason raw)) :
    Blamed s sect (s.lookup read reason sect key default) := by
  intro e he
  unfold Source.lookup at he
  split at he
  · cases he
  · rename_i raw htext
    split at he
    · cases he
    · rename_i hread
      cases he
      exact .unfit htext (h raw hread)

-- A default passes its check, so what does not pass is a text.
theorem check {read : String → Option β} {why : String → Reason} {default x : β}
    {reason : Reason} (passes : β → Bool) (hx : s.lookup read why sect key default = .ok x)
    (hdefault : passes default = true)
    (h : ∀ raw, read (strip raw) = some x → ¬ passes x = true → Unfit sect key raw reason) :
    Blamed s sect (check (passes x) sect key reason) := by
  intro e he
  unfold Config.check at he
  split at he
  · cases he
  · rename_i hfail
    cases he
    obtain ⟨raw, htext, hread⟩ := (Source.lookup_eq_ok_iff.1 hx).text
      (P := fun y => ¬ passes y = true) (not_not_intro hdefault) hfail
    exact .unfit htext (h raw hread hfail)

theorem number {default : Float} (hkey : (sect, key) ∈ numberKeys) :
    Blamed s sect (s.float sect key default) :=
  .lookup fun _ => .number hkey

theorem notNegative {default x : Float} (hkey : (sect, key) ∈ unsignedKeys)
    (hx : s.float sect key default = .ok x) (hdefault : (!decide (default < 0)) = true) :
    Blamed s sect (checkNotNegative sect key x) :=
  .check (fun y => !decide (y < 0)) hx hdefault fun _ hread hfail =>
    .negative hkey hread (by simpa using hfail)

theorem require (hkey : (sect, key) ∈ requiredKeys) : Blamed s sect (s.require sect key) := by
  intro e he
  unfold Source.require at he
  split at he
  · cases he
  · rename_i hnone
    cases he
    exact .missing hkey hnone

theorem date (hkey : ("backtest", key) ∈ requiredKeys) : Blamed s "backtest" (s.date key) := by
  refine .bind (.require hkey) fun t ht => ?_
  obtain ⟨raw, htext, rfl⟩ := Source.require_eq_ok_iff.1 ht
  intro e he
  split at he
  · cases he
  · rename_i hread
    cases he
    exact .unfit htext (.date hkey hread)

theorem rule? (hkey : key ∈ ruleKeys) : Blamed s "strategy" (s.rule? key) := by
  intro e he
  unfold Source.rule? at he
  split at he
  · cases he
  · rename_i text htext
    split at he
    · cases he
    · rename_i e' hparse
      cases he
      exact .rule hkey htext hparse fun _ => Rule.longAt_of_parse hparse

theorem rule (hkey : key ∈ ruleKeys) (hrequired : ("strategy", key) ∈ requiredKeys) :
    Blamed s "strategy" (s.rule key) := by
  refine .bind (.rule? hkey) fun r? hr => ?_
  intro e he
  cases r? with
  | some r => cases he
  | none =>
    cases he
    refine .missing hrequired ?_
    have hgives := Source.rule?_eq_ok_iff.1 hr
    unfold Source.GivesRule at hgives
    cases htext : s.filled? "strategy" key with
    | none => rfl
    | some text =>
      rw [htext] at hgives
      obtain ⟨r, -, h⟩ := hgives
      cases h

end Blamed

theorem loadSettings_blamed : Blamed s "backtest" (loadSettings s) := by
  refine .bind (.date (by decide)) fun start hstart => ?_
  refine .bind (.date (by decide)) fun last hlast => ?_
  refine .bind ?_ fun _ _ => ?_
  · intro e he
    unfold check at he
    split at he
    · cases he
    · rename_i horder
      cases he
      exact .dateOrder (Source.date_eq_ok_iff.1 hstart) (Source.date_eq_ok_iff.1 hlast)
        (by simpa using horder)
  refine .bind (.number (by decide)) fun capital hcapital => ?_
  refine .bind (.number (by decide)) fun flat hflat => ?_
  refine .bind (.number (by decide)) fun pct hpct => ?_
  refine .bind (.number (by decide)) fun slippage hslippage => ?_
  refine .bind (.lookup fun _ => .boolean) fun shorting _ => ?_
  refine .bind (.number (by decide)) fun rate hrate => ?_
  refine .bind (.check (fun x => !decide (x ≤ 0)) hcapital (by decide)
    fun _ hread hfail => .notPositive hread (by simpa using hfail)) fun _ _ => ?_
  refine .bind (.notNegative (by decide) hflat (by decide)) fun _ _ => ?_
  refine .bind (.notNegative (by decide) hpct (by decide)) fun _ _ => ?_
  refine .bind (.notNegative (by decide) hslippage (by decide)) fun _ _ => ?_
  refine .bind (.check (fun x => decide (0 ≤ x) && decide (x < 1)) hrate (by decide)
    fun _ hread hfail => .rate hread (by simpa using hfail)) fun _ _ => ?_
  exact .pure _

theorem loadStrategy_blamed : Blamed s "strategy" (loadStrategy s) := by
  refine .bind (.number (by decide)) fun size hsize => ?_
  refine .bind (.check (fun x => decide (0 < x) && decide (x ≤ 1)) hsize (by decide)
    fun _ hread hfail => .size hread (by simpa using hfail)) fun _ _ => ?_
  refine .bind (.number (by decide)) fun stop hstop => ?_
  refine .bind (.notNegative (by decide) hstop (by decide)) fun _ _ => ?_
  refine .bind (.number (by decide)) fun take htake => ?_
  refine .bind (.notNegative (by decide) htake (by decide)) fun _ _ => ?_
  refine .bind (.lookup fun _ => .integer) fun positions hpositions => ?_
  refine .bind (.check (fun n => decide (1 ≤ n)) hpositions (by decide)
    fun _ hread hfail => .positions hread (by simpa using hfail)) fun _ _ => ?_
  refine .bind (.rule (by decide) (by decide)) fun _ _ => ?_
  refine .bind (.rule (by decide) (by decide)) fun _ _ => ?_
  refine .bind (.rule? (by decide)) fun _ _ => ?_
  refine .bind (.rule? (by decide)) fun _ _ => ?_
  exact .pure _

-- What is loaded is what the source says, the defaults standing only where it says nothing, and
-- it is in range, but for the texts that name no number where a check refuses what is out of
-- range. What is not loaded is refused for what is missing, unreadable or out of range.
theorem loads_in_range (s : Source) :
    (∀ c, loadSettings s = .ok c ↔ SettingsFrom s c ∧ SettingsInRange s c) ∧
    (∀ e, loadSettings s = .error e → Blames s "backtest" e) ∧
    (∀ t, loadStrategy s = .ok t ↔ StrategyFrom s t ∧ StrategyInRange s t) ∧
    ∀ e, loadStrategy s = .error e → Blames s "strategy" e :=
  ⟨fun _ => loadSettings_eq_ok_iff, loadSettings_blamed, fun _ => loadStrategy_eq_ok_iff,
    loadStrategy_blamed⟩

-- A source with the days of a run and one more text.
def yearWith (sect key text : String) : Source := fun sect' key' =>
  if sect' = "backtest" ∧ key' = "start_date" then some "2020-01-01"
  else if sect' = "backtest" ∧ key' = "end_date" then some "2021-01-01"
  else if sect' = sect ∧ key' = key then some text
  else none

theorem loads_in_range_costs :
    (∃ c, loadSettings (yearWith "backtest" "commission_pct" "1_0e-2") = .ok c ∧
      SettingsInRange (yearWith "backtest" "commission_pct" "1_0e-2") c) ∧
    (∃ e, loadSettings (yearWith "backtest" "commission_pct" "-0.1") = .error e ∧
      Blames (yearWith "backtest" "commission_pct" "-0.1") "backtest" e) ∧
    ∃ e, loadStrategy (yearWith "strategy" "position_size" "nan") = .error e ∧
      Blames (yearWith "strategy" "position_size" "nan") "strategy" e := by
  refine ⟨?_, ?_, ?_⟩
  · have hok : (loadSettings (yearWith "backtest" "commission_pct" "1_0e-2")).isOk = true := by
      decide
    have hload := except_eq_ok_getD hok Settings.standard
    exact ⟨_, hload, (((loads_in_range _).1 _).1 hload).2⟩
  · obtain ⟨e, he⟩ := except_eq_error_of_isOk
      (r := loadSettings (yearWith "backtest" "commission_pct" "-0.1")) (by decide)
    exact ⟨e, he, (loads_in_range _).2.1 e he⟩
  · obtain ⟨e, he⟩ := except_eq_error_of_isOk
      (r := loadStrategy (yearWith "strategy" "position_size" "nan")) (by decide)
    exact ⟨e, he, (loads_in_range _).2.2.2 e he⟩

-- A capital that is no number is neither refused nor positive.
theorem capital_no_number :
    ∃ c, loadSettings (yearWith "backtest" "initial_capital" "nan") = .ok c ∧
      ¬ 0 < c.initialCapital := by
  have hok : (loadSettings (yearWith "backtest" "initial_capital" "nan")).isOk = true := by
    decide
  exact ⟨_, except_eq_ok_getD hok Settings.standard, by decide⟩

end BarReplay.Config
