import BarReplay.CommandLine.Run
import BarReplay.Machine
import BarReplay.Proofs.Market.Fetching
import BarReplay.Proofs.Replay.Failures
import BarReplay.Proofs.Universe.Partition

namespace BarReplay.CommandLine

open Universe

section Stages

variable {m : Type → Type} [Monad m] {w : World m} {o : BacktestOptions}

-- What a backtest has read before it asks for bars.
structure Request (m : Type → Type) where
  settings : Settings Float
  strategy : Strategy Float
  codes : List String
  exchange : String
  source : BarSource Float (ExceptT Stop m)

-- What the settings say, with the strategy from a source of its own.
def requestOf (w : World m) (o : BacktestOptions) (config strategySource : Config.Source) :
    Action m (Request m) := do
  let settings ← settled .ofConfig (Config.loadSettings config)
  let strategy ← readStrategy strategySource
  let codes ← settled .ofConfig (Config.resolveCodes config o.code)
  let exchange ←
    match o.exchange with
    | some e => pure (Text.upper e)
    | none => settled .ofConfig (Config.loadExchange config)
  let source ← settled id (barSource w o config)
  return ⟨settings, strategy, codes, exchange, source⟩

def prepare (w : World m) (o : BacktestOptions) : Action m (Request m) := do
  let config ← readConfig w (← textOf .config o.config)
  match o.strategy with
  | some name => requestOf w o config (← readConfig w name)
  | none => requestOf w o config config

namespace Request

def validated (r : Request m) : Action m (Except Universe.Error (Validation Float)) :=
  Universe.validate r.source r.codes r.exchange r.settings.startDate r.settings.endDate minimumBars

end Request

-- What a dry run prints.
def plan (strategy : Strategy Float) (settings : Settings Float) (exchange : String)
    (v : Validation Float) : String :=
  lines (["Strategy:    " ++ strategy.name,
    "Period:      " ++ dateText settings.startDate ++ " to " ++ dateText settings.endDate,
    "Instruments: " ++ ", ".intercalate v.codes ++ " (" ++ exchange ++ ")"] ++
    v.skipped.map (fun s => "Skipped:     " ++ s.describe) ++ ["Configuration OK"])

-- Reports on a finished run, in a file if one is asked for.
def deliver (w : World m) (output : Option String) (text : String) : Action m String := do
  match output with
  | none => return lines [text]
  | some name =>
    let written ← ExceptT.lift (w.files.write (FilePath.ofText name) (lines [text]))
    settled (fun e => .abort (.file e)) written
    return ""

variable [LawfulMonad m]

theorem backtest_dry (w : World m) (o : BacktestOptions) :
    backtest w { o with dryRun := true } = (do
      let r ← prepare w o
      let v ← settled .ofUniverse (← r.validated)
      return plan r.strategy r.settings r.exchange v) := by
  obtain ⟨config, strategy, dataDir, yahoo, code, exchange, output, dryRun⟩ := o
  unfold backtest prepare requestOf Request.validated
  cases strategy <;> cases exchange <;> simp only [bind_assoc, pure_bind] <;> rfl

theorem backtest_real (w : World m) (o : BacktestOptions) :
    backtest w { o with dryRun := false } = (do
      let r ← prepare w o
      let result ← settled .ofRun
        (← runUniverse r.source r.settings r.strategy r.codes r.exchange)
      let metrics ← settled (fun f => .abort (.arithmetic f))
        (result.portfolio.performance w.statistics result.settings.riskFreeRate)
      let text ← settled (fun f => .abort (.arithmetic f)) (Report.text result metrics)
      deliver w o.output text) := by
  obtain ⟨config, strategy, dataDir, yahoo, code, exchange, output, dryRun⟩ := o
  unfold backtest prepare requestOf deliver
  cases strategy <;> cases exchange <;> simp only [bind_assoc, pure_bind] <;> rfl

theorem runUniverse_bind {β : Type} (r : Request m)
    (f : Except UniverseRunError (Result Float) → Action m β) :
    (runUniverse r.source r.settings r.strategy r.codes r.exchange >>= f) =
      r.validated >>= fun x => f (match x with
        | .error e => .error (.universe e)
        | .ok v => v.run r.settings r.strategy) := by
  unfold runUniverse Request.validated
  rw [bind_assoc]
  congr 1
  funext x
  cases x with
  | error e => exact pure_bind _ _
  | ok v => exact pure_bind _ _

end Stages

theorem except_mapError_eq_error {ε ε' β : Type} {f : ε → ε'} {r : Except ε β} {e : ε'} :
    r.mapError f = .error e ↔ ∃ e', r = .error e' ∧ f e' = e := by
  cases r <;> simp [Except.mapError]

section Endings

-- A command that stops with a message sets a status other than zero.
def Stop.Signals : Stop → Prop
  | .failure _ exitCode _ => exitCode ≠ 0
  | .abort _ => True

variable {σ β γ : Type} {P : β → Prop} {Q : γ → Prop}

def on (a : Action (StateM σ) β) (s : σ) : Except Stop β × σ :=
  a.run.run s

theorem on_bind (a : Action (StateM σ) β) (f : β → Action (StateM σ) γ) (s : σ) :
    on (a >>= f) s =
      match on a s with
      | (.ok x, t) => on (f x) t
      | (.error e, t) => (.error e, t) := by
  unfold on
  rw [ExceptT.run_bind, StateT.run_bind]
  change (match (a.run.run s) with | (p, t) => _) = _
  rcases a.run.run s with ⟨_ | _, t⟩ <;> rfl

theorem on_lift (a : StateM σ β) (s : σ) :
    on (ExceptT.lift a) s = (.ok (a.run s).1, (a.run s).2) :=
  rfl

theorem on_settled_bind {ε : Type} (stop : ε → Stop) (r : Except ε β)
    (f : β → Action (StateM σ) γ) (s : σ) :
    on (settled stop r >>= f) s =
      match r with
      | .ok x => on (f x) s
      | .error e => (.error (stop e), s) := by
  cases r <;> rfl

-- An action gives values of a kind if it does not stop, and signals if it does.
def Ends (P : β → Prop) (a : Action (StateM σ) β) : Prop :=
  ∀ s, match (on a s).1 with
    | .ok x => P x
    | .error e => e.Signals

namespace Ends

theorem pure {x : β} (h : P x) : Ends P (Pure.pure x : Action (StateM σ) β) :=
  fun _ => h

theorem throw {e : Stop} (h : e.Signals) : Ends P (MonadExcept.throw e : Action (StateM σ) β) :=
  fun _ => h

theorem bind {a : Action (StateM σ) β} {f : β → Action (StateM σ) γ} (ha : Ends P a)
    (hf : ∀ x, P x → Ends Q (f x)) : Ends Q (a >>= f) := by
  intro s
  have ha := ha s
  rw [on_bind]
  revert ha
  rcases on a s with ⟨_ | x, t⟩
  · exact id
  · exact fun hx => hf x hx t

theorem lift (a : StateM σ β) : Ends (fun _ => True) (ExceptT.lift a) :=
  fun _ => trivial

theorem settled_ok {ε : Type} {stop : ε → Stop} {x : β} (h : P x) :
    Ends P (settled stop (.ok x) : Action (StateM σ) β) :=
  fun _ => h

theorem settled_error {ε : Type} {stop : ε → Stop} {e : ε} (h : (stop e).Signals) :
    Ends P (settled stop (.error e) : Action (StateM σ) β) :=
  fun _ => h

theorem settled {ε : Type} {stop : ε → Stop} (h : ∀ e, (stop e).Signals) (r : Except ε β) :
    Ends (fun _ => True) (CommandLine.settled stop r : Action (StateM σ) β) := by
  cases r with
  | error e => exact .settled_error (h e)
  | ok x => exact .settled_ok trivial

theorem aborting {ε : Type} (f : ε → Abort) (r : Except ε β) :
    Ends (fun _ => True)
      (CommandLine.settled (fun e => .abort (f e)) r : Action (StateM σ) β) := by
  apply Ends.settled
  exact fun _ => trivial

theorem adapt {ε : Type} (f : ε → Abort) (a : ExceptT ε (StateM σ) β) :
    Ends (fun _ => True) (ExceptT.adapt (fun e => Stop.abort (f e)) a) := by
  intro s
  change match ((fun p : Except ε β × σ => (p.1.mapError fun e => Stop.abort (f e), p.2))
    (a.run.run s)).1 with
    | .ok _ => True
    | .error e => e.Signals
  rcases a.run.run s with ⟨_ | _, t⟩ <;> trivial

theorem mapM {a : γ → Action (StateM σ) β} (ha : ∀ x, Ends (fun _ => True) (a x)) (xs : List γ) :
    Ends (fun _ => True) (xs.mapM a) := by
  induction xs with
  | nil => exact .pure trivial
  | cons x xs ih =>
    rw [List.mapM_cons]
    exact .bind (ha x) fun _ _ => .bind ih fun _ _ => .pure trivial

end Ends

theorem signals_ofConfig (e : Config.Error) : (Stop.ofConfig e).Signals := by
  cases e with
  | rule e =>
    unfold Stop.ofConfig
    dsimp only
    split
    · trivial
    · exact Nat.succ_ne_zero 3
  | _ => exact Nat.succ_ne_zero 1

-- The source of a request stops with nothing to say.
def Request.Answers (r : Request (StateM σ)) : Prop :=
  ∀ code exchange first last, Ends (fun _ => True) (r.source code exchange first last)

section Preparation

variable (w : World (StateM σ)) (o : BacktestOptions)

theorem readConfig_ends (name : String) : Ends (fun _ => True) (readConfig w name) := by
  unfold readConfig
  refine .bind (.lift _) fun found _ => ?_
  refine .bind (.aborting .file found) fun found _ => ?_
  dsimp only
  split
  · exact .bind (P := fun _ => False) (.throw (Nat.succ_ne_zero 1)) fun _ h => h.elim
  · refine .bind (.lift _) fun bytes _ => ?_
    refine .bind (.aborting .file bytes) fun bytes _ => ?_
    refine .bind (.aborting .encoding _) fun text _ => ?_
    split
    · exact .pure trivial
    · rename_i e _
      exact .throw (by cases e <;> exact Nat.succ_ne_zero _)

theorem readStrategy_ends (s : Config.Source) :
    Ends (fun _ => True) (readStrategy s : Action (StateM σ) (Strategy Float)) := by
  unfold readStrategy
  split
  · exact .pure trivial
  · rename_i e _
    have he := signals_ofConfig e
    split
    · rename_i hstop
      rw [hstop] at he
      exact .throw he
    · exact .throw he

-- A source of bars has nothing to say about what it cannot answer for.
theorem barSource_ends (s : Config.Source) :
    Ends (fun source : BarSource Float (ExceptT Stop (StateM σ)) =>
      ∀ code exchange first last, Ends (fun _ => True) (source code exchange first last))
      (settled id (barSource w o s) : Action (StateM σ) _) := by
  unfold barSource
  split
  · refine .settled_ok ?_
    intro code exchange first last
    dsimp only
    exact .adapt Abort.charts _
  · split
    · exact .settled_error (signals_ofConfig _)
    · refine .settled_ok ?_
      intro code exchange first last
      dsimp only
      exact .adapt Abort.bars _

theorem requestOf_ends (config strategySource : Config.Source) :
    Ends (fun r : Request (StateM σ) => r.Answers) (requestOf w o config strategySource) := by
  unfold requestOf
  refine .bind (.settled signals_ofConfig _) fun settings _ => ?_
  refine .bind (readStrategy_ends _) fun strategy _ => ?_
  refine .bind (.settled signals_ofConfig _) fun codes _ => ?_
  dsimp only
  split
  · refine .bind (P := fun _ => True) (.pure trivial) fun exchange _ => ?_
    exact .bind (barSource_ends w o config) fun source hsource => .pure hsource
  · refine .bind (.settled signals_ofConfig _) fun exchange _ => ?_
    exact .bind (barSource_ends w o config) fun source hsource => .pure hsource

theorem prepare_ends : Ends (fun r : Request (StateM σ) => r.Answers) (prepare w o) := by
  have htext (key : Key) (text : Option String) :
      Ends (fun _ => True) (textOf key text : Action (StateM σ) String) := by
    cases text with
    | none => exact .throw trivial
    | some text => exact .pure trivial
  unfold prepare
  refine .bind (htext _ _) fun name _ => ?_
  refine .bind (readConfig_ends w name) fun config _ => ?_
  split
  · exact .bind (readConfig_ends w _) fun source _ => requestOf_ends w o config source
  · exact requestOf_ends w o config config

end Preparation

-- A validation admits no instrument twice.
theorem Request.validated_ends {r : Request (StateM σ)} (hr : r.Answers) :
    Ends (fun x => ∀ v, x = .ok v → v.codes.Nodup) r.validated := by
  unfold Request.validated
  by_cases hcodes : r.codes = []
  · unfold Universe.validate
    rw [if_pos (by simp [hcodes])]
    exact .pure nofun
  cases hfirst : r.settings.startDate with
  | none =>
    unfold Universe.validate
    rw [if_neg (by simpa using hcodes)]
    exact .pure nofun
  | some first =>
    cases hlast : r.settings.endDate with
    | none =>
      unfold Universe.validate
      rw [if_neg (by simpa using hcodes)]
      exact .pure nofun
    | some last =>
      rw [validate_eq r.source hcodes, ← bind_pure_comp]
      refine .bind (.mapM (fun code => hr code r.exchange first last) r.codes) fun answers _ => ?_
      exact .pure fun v hv => verdict_codes_nodup hv

theorem signals_ofUniverse (e : Universe.Error) : (Stop.ofUniverse e).Signals := by
  cases e <;> exact Nat.succ_ne_zero _

end Endings

-- A run over what a validation admits fails at its numbers only: codes are not repeated, and the
-- calendar increases.
theorem run_eq_error {v : Validation Float} (hcodes : v.codes.Nodup) {settings : Settings Float}
    {strategy : Strategy Float} {e : UniverseRunError} (h : v.run settings strategy = .error e) :
    ∃ f, e = .engine (.step (.arithmetic f)) := by
  unfold Validation.run at h
  obtain h | ⟨instruments, hinstruments, h⟩ := except_bind_eq_error.1 h
  · obtain ⟨f, -, rfl⟩ := except_mapError_eq_error.1 h
    exact ⟨f, rfl⟩
  obtain h | ⟨result, -, h⟩ := except_bind_eq_error.1 h
  · obtain ⟨e, hrun, rfl⟩ := except_mapError_eq_error.1 h
    have hbuilt := instruments_of_admitted (except_mapError_eq_ok.1 hinstruments)
    have hsame : instruments.map (·.code) = v.codes := by
      simpa [List.map_map, Function.comp_def, Validation.codes] using
        congrArg (List.map Prod.fst) hbuilt
    have hviolation := Engine.not_violation_of_increasing none (calendar_pairwise instruments) hrun
    cases e with
    | duplicateCodes codes =>
      obtain ⟨hrepeated, -⟩ | ⟨-, _, _, -, hstep⟩ := Engine.run_eq_error_iff.1 hrun
      · exact absurd (hsame ▸ hcodes) hrepeated
      · cases hstep
    | step e =>
      obtain ⟨f, rfl⟩ := not_not.1 hviolation
      exact ⟨f, rfl⟩
  · cases h

-- The same world, but for what becomes of a file that is written.
def World.writing {m : Type → Type} (w : World m)
    (write : FilePath → String → m (Except FileError Unit)) : World m :=
  { w with files := { w.files with write := write } }

-- How a command ends.
def ending : Except Stop String → Except Abort Outcome
  | .ok out => .ok ⟨0, out, ""⟩
  | .error (.failure message exitCode context) =>
    .ok ⟨exitCode, "", lines (context.toList ++ ["error: " ++ message])⟩
  | .error (.abort cause) => .error cause

variable {σ : Type} {w : World (StateM σ)} {o : BacktestOptions} {s s' : σ}

theorem run_backtest (w : World (StateM σ)) (o : BacktestOptions) (s : σ) :
    (Command.run w (.backtest o)).run s =
      (ending (on (backtest w o) s).1, (on (backtest w o) s).2) := by
  change ((backtest w o).run >>= _).run s = _
  rw [StateT.run_bind]
  unfold on
  change (match (backtest w o).run.run s with | (p, t) => _) = _
  rcases (backtest w o).run.run s with ⟨e | out, t⟩
  · cases e <;> rfl
  · rfl

theorem exitCode_of_signals {e : Stop} (he : e.Signals) {outcome : Outcome}
    (h : ending (.error e) = .ok outcome) : outcome.exitCode ≠ 0 := by
  cases e with
  | failure message exitCode context =>
    cases h
    exact he
  | abort cause => cases h

theorem prepare_writing (write : FilePath → String → StateM σ (Except FileError Unit)) :
    prepare (w.writing write) o = prepare w o :=
  rfl

-- What a backtest does when its request is known: a dry run and a real run ask for the same bars.
theorem on_dry {r : Request (StateM σ)} {t : σ} (h : on (prepare w o) s = (.ok r, t)) :
    on (backtest w { o with dryRun := true }) s =
      match on r.validated t with
      | (.error e, t) => (.error e, t)
      | (.ok (.error e), t) => (.error (.ofUniverse e), t)
      | (.ok (.ok v), t) => (.ok (plan r.strategy r.settings r.exchange v), t) := by
  rw [backtest_dry, on_bind, h]
  dsimp only
  rw [on_bind]
  rcases on r.validated t with ⟨_ | _ | _, t⟩ <;> rfl

theorem on_real {r : Request (StateM σ)} {t : σ} (h : on (prepare w o) s = (.ok r, t)) :
    on (backtest w { o with dryRun := false }) s =
      match on r.validated t with
      | (.error e, t) => (.error e, t)
      | (.ok (.error e), t) => (.error (.ofUniverse e), t)
      | (.ok (.ok v), t) =>
        match v.run r.settings r.strategy with
        | .error e => (.error (.ofRun e), t)
        | .ok result =>
          match result.portfolio.performance w.statistics result.settings.riskFreeRate >>=
            Report.text result with
          | .error f => (.error (.abort (.arithmetic f)), t)
          | .ok text => on (deliver w o.output text) t := by
  rw [backtest_real, on_bind, h]
  dsimp only
  rw [runUniverse_bind, on_bind]
  rcases on r.validated t with ⟨_ | e | v, t⟩
  · rfl
  · rfl
  · dsimp only
    rw [on_settled_bind]
    rcases v.run r.settings r.strategy with e | result
    · rfl
    · dsimp only
      rw [on_settled_bind]
      rcases result.portfolio.performance w.statistics result.settings.riskFreeRate with f | metrics
      · rfl
      · have hbind : (Except.ok metrics >>= Report.text result) = Report.text result metrics := rfl
        dsimp only
        rw [on_settled_bind, hbind]
        rcases Report.text result metrics with f | text <;> rfl

-- The report on a result that is delivered: printed, or in a file if that can be written.
inductive Delivered (w : World (StateM σ)) (text : String) (s : σ) :
    Option String → Except Abort Outcome × σ → Prop where
  | printed : Delivered w text s none (.ok ⟨0, lines [text], ""⟩, s)
  | written {name : String} {t : σ}
    (h : (w.files.write (FilePath.ofText name) (lines [text])).run s = (.ok (), t)) :
    Delivered w text s (some name) (.ok ⟨0, "", ""⟩, t)
  | failed {name : String} {e : FileError} {t : σ}
    (h : (w.files.write (FilePath.ofText name) (lines [text])).run s = (.error e, t)) :
    Delivered w text s (some name) (.error (.file e), t)

theorem delivered (w : World (StateM σ)) (output : Option String) (text : String) (s : σ) :
    Delivered w text s output
      (ending (on (deliver w output text) s).1, (on (deliver w output text) s).2) := by
  cases output with
  | none => exact .printed
  | some name =>
    have hon : on (deliver w (some name) text) s =
        match (w.files.write (FilePath.ofText name) (lines [text])).run s with
        | (.ok (), t) => (.ok "", t)
        | (.error e, t) => (.error (.abort (.file e)), t) := by
      change on (ExceptT.lift (w.files.write (FilePath.ofText name) (lines [text])) >>= _) s = _
      rw [on_bind, on_lift]
      dsimp only
      rw [on_settled_bind]
      rcases (w.files.write (FilePath.ofText name) (lines [text])).run s with ⟨_ | _, t⟩ <;> rfl
    rw [hon]
    rcases hwrite : (w.files.write (FilePath.ofText name) (lines [text])).run s with ⟨e | _, t⟩
    · exact .failed hwrite
    · exact .written hwrite

-- A dry run that fails and a real run that fails in the same way end alike.
theorem fails_alike {e : Stop} (he : e.Signals) {s' t : σ} {outcome : Outcome}
    (hdry : (Command.run w (.backtest { o with dryRun := true })).run s = (.ok outcome, s'))
    (hfails : on (backtest w { o with dryRun := true }) s = (.error e, t))
    (hreal : ∀ write, on (backtest (w.writing write) { o with dryRun := false }) s =
      (.error e, t)) :
    outcome.exitCode ≠ 0 ∧ ∀ write,
      (Command.run (w.writing write) (.backtest { o with dryRun := false })).run s =
        (.ok outcome, s') := by
  rw [run_backtest, hfails] at hdry
  refine ⟨exitCode_of_signals he (congrArg Prod.fst hdry), fun write => ?_⟩
  rw [run_backtest, hreal write]
  exact hdry

-- With instruments, a real run ends with its report unless a number is too large.
theorem real_of_validated {r : Request (StateM σ)} {v : Validation Float} {t t' : σ}
    (hprepare : on (prepare w o) s = (.ok r, t)) (hvalidate : on r.validated t = (.ok (.ok v), t'))
    (hcodes : v.codes.Nodup) :
    (∃ f, (Command.run w (.backtest { o with dryRun := false })).run s =
        (.error (.arithmetic f), t')) ∨
      ∃ result text, v.run r.settings r.strategy = .ok result ∧
        (result.portfolio.performance w.statistics result.settings.riskFreeRate >>=
          Report.text result) = .ok text ∧
        Delivered w text t' o.output
          ((Command.run w (.backtest { o with dryRun := false })).run s) := by
  have hreal := on_real hprepare
  rw [hvalidate] at hreal
  dsimp only at hreal
  rw [run_backtest]
  cases hrun : v.run r.settings r.strategy with
  | error e =>
    obtain ⟨f, rfl⟩ := run_eq_error hcodes hrun
    rw [hrun] at hreal
    exact .inl ⟨f, by rw [hreal]; rfl⟩
  | ok result =>
    rw [hrun] at hreal
    dsimp only at hreal
    cases hreport : result.portfolio.performance w.statistics result.settings.riskFreeRate >>=
        Report.text result with
    | error f =>
      rw [hreport] at hreal
      exact .inl ⟨f, by rw [hreal]; rfl⟩
    | ok text =>
      rw [hreport] at hreal
      refine .inr ⟨result, text, rfl, hreport, ?_⟩
      rw [hreal]
      exact delivered w o.output text _

section Still

-- What a backtest asks for where the files stand still.

variable {β γ : Type} {files : FileAccess Id}

theorem lift_pure (x : β) : (ExceptT.lift (pure x) : Action (StateM σ) β) = pure x :=
  rfl

theorem settled_of_ok {ε : Type} (stop : ε → Stop) (x : β) :
    (settled stop (.ok x) : Action (StateM σ) β) = pure x :=
  rfl

-- A text without carriage returns is left as it is.
theorem unifyLineEnds_eq {text : List Char} (h : ∀ c ∈ text, c ≠ '\r') :
    unifyLineEnds text = text := by
  induction text with
  | nil => rfl
  | cons c text ih =>
    obtain ⟨hc, htext⟩ := List.forall_mem_cons.1 h
    rw [unifyLineEnds, ih htext]
    · exact fun _ h _ => hc h
    · exact hc

theorem readConfig_eq (hfiles : w.files = files.lifted) {name : String} {bytes : List UInt8}
    {text : List Char} {ini : Config.Ini} (hhas : files.has (FilePath.ofText name) = .ok true)
    (hread : files.read (FilePath.ofText name) = .ok bytes)
    (htext : Text.Utf8.decode bytes = .ok text)
    (hini : Config.Ini.load (String.ofList (unifyLineEnds text)) = .ok ini) :
    readConfig w name = pure ini.source := by
  have hfound : w.files.has (FilePath.ofText name) = pure (.ok true) := by
    rw [hfiles, ← hhas]
    rfl
  have hcontent : w.files.read (FilePath.ofText name) = pure (.ok bytes) := by
    rw [hfiles, ← hread]
    rfl
  unfold readConfig
  simp only [hfound, hcontent, htext, hini, lift_pure, settled_of_ok, pure_bind, Bool.not_true,
    Bool.false_eq_true, if_false]

-- With the strategy among the settings.
theorem prepare_eq {name : String} {config : Config.Source} {settings : Settings Float}
    {strategy : Strategy Float} {codes : List String} {exchange : String}
    {source : BarSource Float (ExceptT Stop (StateM σ))} (hname : o.config = some name)
    (hone : o.strategy = none) (hconfig : readConfig w name = pure config)
    (hsettings : Config.loadSettings config = .ok settings)
    (hstrategy : Config.loadStrategy config = .ok strategy)
    (hcodes : Config.resolveCodes config o.code = .ok codes) (hgiven : o.exchange = none)
    (hexchange : Config.loadExchange config = .ok exchange)
    (hsource : barSource w o config = .ok source) :
    prepare w o = pure ⟨settings, strategy, codes, exchange, source⟩ := by
  unfold prepare
  simp only [hname, hone, textOf, hconfig, pure_bind]
  unfold requestOf readStrategy
  simp only [hsettings, hstrategy, hcodes, hgiven, hexchange, hsource, settled_of_ok, pure_bind]

theorem barSource_eq {dir : String} (hfiles : w.files = files.lifted) (config : Config.Source)
    (hdisk : o.yahoo = false) (hdir : o.dataDir = some dir) (hfilled : dir.isEmpty = false) :
    barSource w o config = .ok fun code exchange start last =>
      settled (fun e => .abort (.bars e))
        ((BarDirectory.mk (FilePath.ofText dir)).fetch files code exchange start last) := by
  unfold barSource
  simp only [hdisk, hdir, Bool.false_eq_true, if_false, hfiles, Option.orElse_some,
    Option.filter_some, hfilled, Bool.not_false, if_true, BarDirectory.source_lifted]
  rfl

theorem mapM_eq_pure {f : γ → Action (StateM σ) β} {g : γ → β} {xs : List γ}
    (h : ∀ x ∈ xs, f x = pure (g x)) : xs.mapM f = pure (xs.map g) := by
  induction xs with
  | nil => rfl
  | cons x xs ih =>
    obtain ⟨hx, hxs⟩ := List.forall_mem_cons.1 h
    rw [List.mapM_cons, hx, pure_bind, ih hxs, pure_bind, List.map_cons]

theorem Request.validated_eq {r : Request (StateM σ)} {first last : Date}
    {answers : String → Answer Float} (hcodes : r.codes ≠ [])
    (hfirst : r.settings.startDate = some first) (hlast : r.settings.endDate = some last)
    (hanswers : ∀ code ∈ r.codes, r.source code r.exchange first last = pure (answers code)) :
    r.validated = pure (verdict r.exchange minimumBars r.codes (r.codes.map answers)) := by
  unfold Request.validated
  rw [hfirst, hlast, validate_eq r.source hcodes, mapM_eq_pure hanswers, map_pure]

end Still

-- A dry run says how the real run from the same state ends. If the dry run fails, so does the real
-- run, with the same message and status and without writing anything, whatever that would do. If
-- it does not, the real run goes over the instruments that the dry run names and leaves out those
-- that it skips; all that can stop it are numbers that are too large and a report that cannot be
-- written.
theorem dry_run_predicts (w : World (StateM σ)) (o : BacktestOptions) (s s' : σ) (outcome : Outcome)
    (hdry : (Command.run w (.backtest { o with dryRun := true })).run s = (.ok outcome, s')) :
    if outcome.exitCode = 0 then
      ∃ strategy settings exchange v,
        outcome = ⟨0, plan strategy settings exchange v, ""⟩ ∧
        (∀ result, v.run settings strategy = .ok result →
          result.codes = v.codes ∧ result.skipped = v.skipped) ∧
        ((∃ f, (Command.run w (.backtest { o with dryRun := false })).run s =
            (.error (.arithmetic f), s')) ∨
          ∃ result text, v.run settings strategy = .ok result ∧
            (result.portfolio.performance w.statistics result.settings.riskFreeRate >>=
              Report.text result) = .ok text ∧
            Delivered w text s' o.output
              ((Command.run w (.backtest { o with dryRun := false })).run s))
    else
      ∀ write, (Command.run (w.writing write) (.backtest { o with dryRun := false })).run s =
        (.ok outcome, s') := by
  have hprepared := prepare_ends w o s
  rcases hprepare : on (prepare w o) s with ⟨e | r, t⟩
  · rw [hprepare] at hprepared
    have hfails : on (backtest w { o with dryRun := true }) s = (.error e, t) := by
      rw [backtest_dry, on_bind, hprepare]
    obtain ⟨hcode, hreal⟩ := fails_alike hprepared hdry hfails fun write => by
      rw [backtest_real, on_bind, prepare_writing, hprepare]
    rw [if_neg hcode]
    exact hreal
  rw [hprepare] at hprepared
  have hvalidated := Request.validated_ends hprepared t
  have hdryRun := on_dry hprepare
  have hrealRun (write) := on_real (w := w.writing write) hprepare
  rcases hvalidate : on r.validated t with ⟨e | e | v, t'⟩
  · rw [hvalidate] at hvalidated hdryRun
    obtain ⟨hcode, hreal⟩ := fails_alike hvalidated hdry hdryRun fun write => by
      rw [hrealRun, hvalidate]
    rw [if_neg hcode]
    exact hreal
  · rw [hvalidate] at hdryRun
    obtain ⟨hcode, hreal⟩ := fails_alike (signals_ofUniverse e) hdry hdryRun fun write => by
      rw [hrealRun, hvalidate]
    rw [if_neg hcode]
    exact hreal
  · rw [hvalidate] at hvalidated hdryRun
    rw [run_backtest, hdryRun] at hdry
    cases hdry
    rw [if_pos rfl]
    refine ⟨r.strategy, r.settings, r.exchange, v, rfl, fun result hrun => ?_,
      real_of_validated hprepare hvalidate (hvalidated v rfl)⟩
    obtain ⟨hcodes, hskipped, -⟩ := v.of_run hrun
    exact ⟨hcodes, hskipped⟩

section Ruin

-- Settings for June, with a strategy that puts everything into an instrument and gets out below
-- one.
def ruinText : String :=
  "[backtest]\nstart_date = 2024-06-01\nend_date = 2024-06-30\nexchange = X\ncodes = AAA,BBB\n" ++
    "[strategy]\nname = Ruin\nentry_long = ABOVE(close, 0)\nexit_long = BELOW(close, 1)\n" ++
    "position_size = 1\n"

def ruinIni : Config.Ini where
  defaults := []
  sections :=
    [("backtest", [("start_date", "2024-06-01"), ("end_date", "2024-06-30"), ("exchange", "X"),
        ("codes", "AAA,BBB")]),
      ("strategy", [("name", "Ruin"), ("entry_long", "ABOVE(close, 0)"),
        ("exit_long", "BELOW(close, 1)"), ("position_size", "1")])]

theorem load_ruinText : Config.Ini.load ruinText = .ok ruinIni :=
  except_eq_ok_iff_toOption.2 (by decide +kernel)

def juneDays : List Date :=
  List.ofFn fun k : Fin 30 => june (k + 1) (by omega)

theorem juneDays_increasing : juneDays.Pairwise (· < ·) := by
  decide +kernel

-- An instrument that is worth nothing after the first day.
def ruinBars (days : List Date) : List (Bar Float) :=
  days.map fun day =>
    let price : Float := if day.day = 1 then 1 else 0
    ⟨day, price, price, price, price, 0⟩

def ruinRows (days : List Date) : List (List String) :=
  BarFile.priceColumns :: days.map fun day =>
    let price := if day.day = 1 then "1" else "0"
    [day.iso, price, price, price, price]

def ruinFile (days : List Date) : List UInt8 :=
  Text.Utf8.bytesOf ((ruinRows days).flatMap Csv.line)

-- A disk with these settings, thirty bars of one instrument and two of another one.
def ruinContent? (path : FilePath) : Option (List UInt8) :=
  match path.names with
  | ["ruin.ini"] => some (Text.Utf8.bytesOf ruinText.toList)
  | ["data", "AAA_X.csv"] => some (ruinFile juneDays)
  | ["data", "BBB_X.csv"] => some (ruinFile (juneDays.take 2))
  | _ => none

def ruinDisk : FileAccess Id where
  has path := .ok (ruinContent? path).isSome
  read path := (ruinContent? path).elim (.error (.missing path)) .ok
  list _ := .ok []
  write _ _ := .ok ()

theorem ruinDisk_of_content {path : FilePath} {bytes : List UInt8}
    (h : ruinContent? path = some bytes) :
    ruinDisk.has path = .ok true ∧ ruinDisk.read path = .ok bytes := by
  simp [ruinDisk, h]

def ruinWorld : World (StateM Unit) :=
  ⟨ruinDisk.lifted, fun _ _ => pure .null, Machine.statistics⟩

def ruinOptions (code : Option String) : BacktestOptions where
  config := some "ruin.ini"
  strategy := none
  dataDir := some "data"
  yahoo := false
  code := code
  exchange := none
  output := none
  dryRun := true

theorem readConfig_ruin : readConfig ruinWorld "ruin.ini" = pure ruinIni.source := by
  have hpath : FilePath.ofText "ruin.ini" = ⟨"", ["ruin.ini"]⟩ := by decide +kernel
  have hplain : ∀ c ∈ ruinText.toList, c.toNat < 0x80 ∧ c ≠ '\r' := by
    have hall : ruinText.toList.all (fun c => decide (c.toNat < 0x80 ∧ c ≠ '\r')) = true := by
      decide +kernel
    simpa only [List.all_eq_true, decide_eq_true_eq] using hall
  obtain ⟨hbytes, hchars⟩ := Text.Utf8.bytesOf_ascii fun c hc => (hplain c hc).1
  have hfiles : ruinWorld.files = ruinDisk.lifted := rfl
  have hcontent : ruinContent? (FilePath.ofText "ruin.ini") =
      some (Text.Utf8.bytesOf ruinText.toList) := by
    rw [hpath]
    rfl
  obtain ⟨hhas, hread⟩ := ruinDisk_of_content hcontent
  refine readConfig_eq hfiles hhas hread (Text.Utf8.decode_ascii hbytes) ?_
  rw [hchars, unifyLineEnds_eq fun c hc => (hplain c hc).2, String.ofList_toList, load_ruinText]

theorem ruinRows_plain : ∀ row ∈ ruinRows juneDays, 1 < row.length ∧ ∀ field ∈ row,
    field.toList.length ≤ Csv.fieldLimit ∧
      ∀ c ∈ field.toList, c ∉ Csv.marks ∧ c.toNat < 0x80 := by
  have hall : (ruinRows juneDays).all (fun row => decide (1 < row.length) &&
      row.all fun field => decide (field.toList.length ≤ Csv.fieldLimit) &&
        field.toList.all fun c => decide (c ∉ Csv.marks ∧ c.toNat < 0x80)) = true := by
    decide +kernel
  simpa only [List.all_eq_true, Bool.and_eq_true, decide_eq_true_eq] using hall

theorem holds_ruinFile {days : List Date} (hdays : days ⊆ juneDays) :
    BarFile.Holds (ruinFile days) (ruinBars days) := by
  have hrows : ruinRows days ⊆ ruinRows juneDays :=
    List.cons_subset_cons _ (List.map_subset _ hdays)
  have hplain := fun row hrow => ruinRows_plain row (hrows hrow)
  refine BarFile.holds_lines
    (fun row hrow => ⟨fun field hfield c hc => (((hplain row hrow).2 field hfield).2 c hc).1,
      fun field hfield => ((hplain row hrow).2 field hfield).1⟩)
    (fun row hrow field hfield c hc => (((hplain row hrow).2 field hfield).2 c hc).2)
    (fun row hrow => (hplain row hrow).1) ?_
  rw [ruinBars, List.forall₂_map_left_iff, List.forall₂_map_right_iff, List.forall₂_same]
  intro day _
  by_cases hfirst : day.day = 1
  · have hone : Decimal.readFloat? "1" = some 1 := by decide +kernel
    simp only [hfirst, if_true]
    exact BarFile.bar_of_row day hone hone hone hone
  · have hzero : Decimal.readFloat? "0" = some 0 := by decide +kernel
    simp only [hfirst, if_false]
    exact BarFile.bar_of_row day hzero hzero hzero hzero

theorem sortBars_ruinBars {days : List Date} (hdays : days.Sublist juneDays) :
    sortBars (ruinBars days) = ruinBars days := by
  refine List.mergeSort_of_pairwise (List.pairwise_map.2 ?_)
  exact (juneDays_increasing.sublist hdays).imp fun h => decide_eq_true (le_of_lt h)

def juneStart : Date := june 1 (by decide)

def juneEnd : Date := june 30 (by decide)

theorem fetch_ruin {code : String} {days : List Date} (hdays : days.Sublist juneDays)
    (hsome : days ≠ [])
    (hcontent : ruinContent? (BarDirectory.data.path code "X") = some (ruinFile days)) :
    BarDirectory.data.fetch ruinDisk code "X" juneStart juneEnd = .ok (.ok (ruinBars days)) := by
  have hwithin : ∀ day ∈ juneDays, juneStart ≤ day ∧ day ≤ juneEnd := by decide +kernel
  obtain ⟨hhas, hread⟩ := ruinDisk_of_content hcontent
  refine BarDirectory.fetched_iff.2
    ⟨hhas, ruinFile days, ruinBars days, hread, holds_ruinFile hdays.subset, ?_, ?_⟩
  · simpa [ruinBars] using hsome
  · rw [sortBars_ruinBars hdays]
    refine (List.filter_eq_self.2 fun b hb => ?_).symm
    obtain ⟨day, hday, rfl⟩ := List.mem_map.1 hb
    exact decide_eq_true (hwithin day (hdays.subset hday))

def ruinAnswer (code : String) : Answer Float :=
  .ok (ruinBars (if code = "AAA" then juneDays else juneDays.take 2))

def ruinSettings : Settings Float :=
  (Config.loadSettings ruinIni.source).toOption.get (by decide +kernel)

def ruinStrategy : Strategy Float :=
  (Config.loadStrategy ruinIni.source).toOption.get (by decide +kernel)

def ruinRequest (codes : List String) : Request (StateM Unit) where
  settings := ruinSettings
  strategy := ruinStrategy
  codes := codes
  exchange := "X"
  source code exchange start last :=
    settled (fun e => .abort (.bars e))
      (BarDirectory.data.fetch ruinDisk code exchange start last)

section Requests

variable {code : Option String} {codes : List String}

theorem prepare_ruin (hcodes : Config.resolveCodes ruinIni.source code = .ok codes) :
    prepare ruinWorld (ruinOptions code) = pure (ruinRequest codes) := by
  have hdata : FilePath.ofText "data" = ⟨"", ["data"]⟩ := by decide +kernel
  have hfiles : ruinWorld.files = ruinDisk.lifted := rfl
  have hdir : (ruinOptions code).dataDir = some "data" := rfl
  refine prepare_eq rfl rfl readConfig_ruin
    (except_eq_ok_iff_toOption.2 (Option.some_get _).symm)
    (except_eq_ok_iff_toOption.2 (Option.some_get _).symm) hcodes rfl
    (except_eq_ok_iff_toOption.2 (by decide +kernel)) ?_
  rw [barSource_eq hfiles _ rfl hdir rfl, hdata]
  rfl

theorem validated_ruin (hcodes : codes ≠ []) (hknown : codes ⊆ ["AAA", "BBB"]) :
    (ruinRequest codes).validated =
      pure (verdict "X" minimumBars codes (codes.map ruinAnswer)) := by
  have hpaths : BarDirectory.data.path "AAA" "X" = ⟨"", ["data", "AAA_X.csv"]⟩ ∧
      BarDirectory.data.path "BBB" "X" = ⟨"", ["data", "BBB_X.csv"]⟩ := by
    decide +kernel
  have hfetch : ∀ code ∈ ["AAA", "BBB"],
      BarDirectory.data.fetch ruinDisk code "X" juneStart juneEnd = .ok (ruinAnswer code) := by
    refine List.forall_mem_cons.2 ⟨?_, List.forall_mem_singleton.2 ?_⟩
    · exact fetch_ruin (List.Sublist.refl _) (by decide) (by rw [hpaths.1]; rfl)
    · exact fetch_ruin (List.take_sublist 2 _) (by decide) (by rw [hpaths.2]; rfl)
  have hdates : ruinSettings.startDate = some juneStart ∧ ruinSettings.endDate = some juneEnd := by
    decide +kernel
  refine Request.validated_eq hcodes hdates.1 hdates.2 fun code hcode => ?_
  change settled _ (BarDirectory.data.fetch ruinDisk code "X" juneStart juneEnd) = _
  rw [hfetch code (hknown hcode)]
  rfl

end Requests

-- One instrument is left and the other one is not.
def ruinValidation : Validation Float where
  exchange := "X"
  admitted := [("AAA", ruinBars juneDays)]
  skipped := [⟨"BBB", .insufficientBars, 2, "", minimumBars⟩]

theorem on_validated_ruin :
    on (prepare ruinWorld (ruinOptions none)) () = (.ok (ruinRequest ["AAA", "BBB"]), ()) ∧
      on (ruinRequest ["AAA", "BBB"]).validated () = (.ok (.ok ruinValidation), ()) := by
  have hcodes : Config.resolveCodes ruinIni.source none = .ok ["AAA", "BBB"] :=
    except_eq_ok_iff_toOption.2 (by decide +kernel)
  rw [prepare_ruin hcodes, validated_ruin (by decide) (List.Subset.refl _)]
  exact ⟨rfl, rfl⟩

def ruinInstrument : Instrument Float :=
  ⟨"AAA", "X", ⟨ruinBars juneDays, []⟩⟩

theorem calendar_ruin : calendar [ruinInstrument] = juneDays := by
  refine increasing_ext (calendar_pairwise _) juneDays_increasing fun d => ?_
  simp [mem_calendar, ruinInstrument, Instrument.bars, ruinBars]

-- That nothing is left makes a report as well as anything else.
theorem run_ruin : ∃ result text,
    ruinValidation.run ruinSettings ruinStrategy = .ok result ∧
    (result.portfolio.performance Machine.statistics result.settings.riskFreeRate >>=
      Report.text result) = .ok text := by
  have hbuilt : Instrument.ofBars "AAA" "X" (ruinBars juneDays) (some ruinStrategy) [] =
      .ok ruinInstrument := by
    have hnone : ruinStrategy.indicators.isEmpty = true := by decide +kernel
    unfold Instrument.ofBars
    rw [sortBars_ruinBars (List.Sublist.refl _), Option.map_some, Option.getD_some,
      List.isEmpty_iff.1 hnone]
    rfl
  have hseen : ((Engine.run ruinSettings ruinStrategy [ruinInstrument]
      (some juneDays)).toOption.any fun r =>
        (r.portfolio.performance Machine.statistics r.settings.riskFreeRate >>=
          Report.text { r with skipped := ruinValidation.skipped }).isOk) = true := by
    decide +kernel
  have hdays : Engine.run ruinSettings ruinStrategy [ruinInstrument] (some juneDays) =
      Engine.run ruinSettings ruinStrategy [ruinInstrument] none := by
    rw [← calendar_ruin]
    rfl
  rw [hdays] at hseen
  cases hrun : Engine.run ruinSettings ruinStrategy [ruinInstrument] none with
  | error e =>
    rw [hrun] at hseen
    cases hseen
  | ok r =>
    rw [hrun] at hseen
    refine ⟨{ r with skipped := ruinValidation.skipped }, _, ?_, except_eq_ok_getD hseen ""⟩
    refine (ruinValidation.run_eq_ok_iff).2 ⟨[ruinInstrument], r, ?_, hrun, rfl⟩
    change (do
      return (← Instrument.ofBars "AAA" "X" (ruinBars juneDays) (some ruinStrategy) []) ::
        (← pure [])) = _
    rw [hbuilt]
    rfl

def ruinPlan : String :=
  "Strategy:    Ruin\nPeriod:      2024-06-01 to 2024-06-30\nInstruments: AAA (X)\n" ++
    "Skipped:     BBB: only 2 bars (minimum 30)\nConfiguration OK\n"

theorem dry_ruin :
    (Command.run ruinWorld (.backtest (ruinOptions none))).run () =
      (.ok ⟨0, ruinPlan, ""⟩, ()) := by
  obtain ⟨hprepare, hvalidated⟩ := on_validated_ruin
  have hplan : plan ruinStrategy ruinSettings "X" ruinValidation = ruinPlan := by decide +kernel
  have hdry := on_dry hprepare
  rw [hvalidated] at hdry
  change on (backtest ruinWorld (ruinOptions none)) () =
    (.ok (plan ruinStrategy ruinSettings "X" ruinValidation), ()) at hdry
  rw [run_backtest, hdry, hplan]
  rfl

theorem real_ruin : ∃ text,
    (Command.run ruinWorld (.backtest { ruinOptions none with dryRun := false })).run () =
      (.ok ⟨0, lines [text], ""⟩, ()) := by
  obtain ⟨hprepare, hvalidated⟩ := on_validated_ruin
  obtain ⟨result, text, hrun, htext⟩ := run_ruin
  have hreal := on_real hprepare
  rw [hvalidated] at hreal
  have hruns : ruinValidation.run (ruinRequest ["AAA", "BBB"]).settings
      (ruinRequest ["AAA", "BBB"]).strategy = .ok result := hrun
  have htext : (result.portfolio.performance ruinWorld.statistics result.settings.riskFreeRate >>=
      Report.text result) = .ok text := htext
  simp only [hruns, htext] at hreal
  refine ⟨text, ?_⟩
  rw [run_backtest, hreal]
  rfl

def ruinRefusal : Outcome :=
  ⟨5, "", "error: insufficient data: no instrument on X has 30 or more bars\n"⟩

theorem dry_refused :
    (Command.run ruinWorld (.backtest (ruinOptions (some "BBB")))).run () =
      (.ok ruinRefusal, ()) := by
  have hcodes : Config.resolveCodes ruinIni.source (some "BBB") = .ok ["BBB"] :=
    except_eq_ok_iff_toOption.2 (by decide +kernel)
  have hprepare : on (prepare ruinWorld (ruinOptions (some "BBB"))) () =
      (.ok (ruinRequest ["BBB"]), ()) := by
    rw [prepare_ruin hcodes]
    rfl
  have hvalidated : on (ruinRequest ["BBB"]).validated () =
      (.ok (.error (.allInsufficient "X" minimumBars ruinValidation.skipped)), ()) := by
    rw [validated_ruin (by decide) (by decide)]
    rfl
  have herr : lines ["error: " ++
      (Universe.Error.allInsufficient "X" minimumBars ruinValidation.skipped).message] =
      ruinRefusal.err := by
    decide +kernel
  have hdry := on_dry hprepare
  rw [hvalidated] at hdry
  rw [run_backtest]
  change on (backtest ruinWorld (ruinOptions (some "BBB"))) () = _ at hdry
  rw [hdry]
  exact congrArg (fun err => (Except.ok (⟨5, "", err⟩ : Outcome), ())) herr

-- The dry run names the instrument that the real run goes over and the one that it leaves out.
-- With that one only, both refuse to run.
theorem dry_run_predicts_ruin :
    (Command.run ruinWorld (.backtest (ruinOptions none))).run () =
      (.ok ⟨0, ruinPlan, ""⟩, ()) ∧
    (∃ strategy settings exchange v result text, ruinPlan = plan strategy settings exchange v ∧
      v.run settings strategy = .ok result ∧ result.codes = v.codes ∧ result.skipped = v.skipped ∧
      (Command.run ruinWorld (.backtest { ruinOptions none with dryRun := false })).run () =
        (.ok ⟨0, lines [text], ""⟩, ())) ∧
    (Command.run ruinWorld (.backtest (ruinOptions (some "BBB")))).run () =
      (.ok ruinRefusal, ()) ∧
    ∀ write, (Command.run (ruinWorld.writing write)
      (.backtest { ruinOptions (some "BBB") with dryRun := false })).run () =
        (.ok ruinRefusal, ()) := by
  have hruns := dry_run_predicts ruinWorld (ruinOptions none) () () _ dry_ruin
  have hrefused := dry_run_predicts ruinWorld (ruinOptions (some "BBB")) () () _ dry_refused
  rw [if_pos rfl] at hruns
  rw [if_neg (by decide)] at hrefused
  refine ⟨dry_ruin, ?_, dry_refused, hrefused⟩
  obtain ⟨strategy, settings, exchange, v, hplan, hsame, hends⟩ := hruns
  obtain ⟨f, hfails⟩ | ⟨result, text, hrun, -, hdelivered⟩ := hends
  · obtain ⟨text, hreal⟩ := real_ruin
    rw [hreal] at hfails
    cases hfails
  · obtain ⟨hcodes, hskipped⟩ := hsame result hrun
    refine ⟨strategy, settings, exchange, v, result, text, congrArg Outcome.out hplan, hrun,
      hcodes, hskipped, ?_⟩
    revert hdelivered
    generalize (Command.run ruinWorld (.backtest { ruinOptions none with dryRun := false })).run ()
      = ended
    intro hdelivered
    change Delivered ruinWorld text () none ended at hdelivered
    cases hdelivered
    rfl

end Ruin

end BarReplay.CommandLine
