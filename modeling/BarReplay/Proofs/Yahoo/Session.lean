import BarReplay.Yahoo.Client

namespace BarReplay.Yahoo

-- What a client does with the net, with the answer where it asks for one.
inductive Event where
  | clearCookies
  | get (url : String) (parameters : Option Parameters) (answer : Except String Response)
  | sleep (seconds : Int)

-- Whether a chart is asked for. The pages of a handshake are asked for without parameters.
def Event.asksChart : Event → Bool
  | .get _ (some _) _ => true
  | _ => false

-- What the net answers to a request after what has happened before.
abbrev Script := List Event → String → Option Parameters → Except String Response

-- Whether an answer is asked for.
def Event.asks : Event → Bool
  | .get .. => true
  | _ => false

-- Answers that are given one after the other.
def inTurn (answers : List (Except String Response)) : Script := fun log _ _ =>
  answers[log.countP Event.asks]?.getD (.error "no answer")

-- A net that answers by a script, and keeps what happens.
def scripted (script : Script) : Net (StateM (List Event)) where
  get url parameters := modifyGet fun log =>
    (script log url parameters, log ++ [.get url parameters (script log url parameters)])
  clearCookies := modify (· ++ [.clearCookies])
  sleep seconds := modify (· ++ [.sleep seconds])

-- What is done with a crumb and with the net.
abbrev Session (ε β : Type) := ExceptT ε (StateT Crumb (StateM (List Event))) β

namespace Session

variable {ε β γ : Type} {crumb : Crumb} {log : List Event}

-- What a session comes to when it is begun with a crumb and after some events.
def on (a : Session ε β) (crumb : Crumb) (log : List Event) :
    Except ε β × Crumb × List Event :=
  let ((outcome, crumb), log) := (a.run.run crumb).run log
  (outcome, crumb, log)

@[simp] theorem on_pure (x : β) : on (pure x : Session ε β) crumb log = (.ok x, crumb, log) := rfl

@[simp] theorem on_throw (e : ε) :
    on (throw e : Session ε β) crumb log = (.error e, crumb, log) := rfl

theorem on_bind (a : Session ε β) (f : β → Session ε γ) :
    on (a >>= f) crumb log =
      match on a crumb log with
      | (.ok x, crumb, log) => on (f x) crumb log
      | (.error e, crumb, log) => (.error e, crumb, log) := by
  change (match (match (a.run.run crumb).run log with
      | ((outcome, crumb), log) => ((ExceptT.bindCont (m := StateT Crumb (StateM (List Event)))
        f outcome).run crumb).run log) with
    | ((outcome, crumb), log) => (outcome, crumb, log)) = _
  simp only [on]
  obtain ⟨⟨outcome, crumb'⟩, log'⟩ := (a.run.run crumb).run log
  cases outcome <;> rfl

-- A session whose outcome is looked at does not fail.
theorem on_lift_run {ε' : Type} (a : Session ε' β) :
    on (ExceptT.lift a.run : Session ε (Except ε' β)) crumb log =
      (.ok (on a crumb log).1, (on a crumb log).2.1, (on a crumb log).2.2) :=
  rfl

theorem on_lift_run_bind {ε' : Type} (a : Session ε' β) (f : Except ε' β → Session ε γ) :
    on (ExceptT.lift a.run >>= f) crumb log =
      on (f (on a crumb log).1) (on a crumb log).2.1 (on a crumb log).2.2 := by
  rw [on_bind]
  rfl

-- Questions that are all answered, one after the other, each from where the one before it left.
inductive Answers (ask : γ → Session ε β) :
    List γ → Crumb → List Event → List β → Crumb → List Event → Prop
  | nil {crumb : Crumb} {log : List Event} : Answers ask [] crumb log [] crumb log
  | cons {x : γ} {xs : List γ} {y : β} {ys : List β} {crumb crumb' crumb'' : Crumb}
      {log log' log'' : List Event} (h : on (ask x) crumb log = (.ok y, crumb', log'))
      (hrest : Answers ask xs crumb' log' ys crumb'' log'') :
    Answers ask (x :: xs) crumb log (y :: ys) crumb'' log''

-- Questions are asked up to the first that fails.
theorem on_mapM (ask : γ → Session ε β) (xs : List γ) (crumb : Crumb) (log : List Event) :
    (∃ ys crumb' log', Answers ask xs crumb log ys crumb' log' ∧
      on (xs.mapM ask) crumb log = (.ok ys, crumb', log')) ∨
    ∃ front x rest ys crumb' log' e crumb'' log'', xs = front ++ x :: rest ∧
      Answers ask front crumb log ys crumb' log' ∧
      on (ask x) crumb' log' = (.error e, crumb'', log'') ∧
      on (xs.mapM ask) crumb log = (.error e, crumb'', log'') := by
  induction xs generalizing crumb log with
  | nil => exact .inl ⟨[], crumb, log, .nil, rfl⟩
  | cons x xs ih =>
    rw [List.mapM_cons, on_bind]
    obtain ⟨⟨outcome, crumb', log'⟩, hx⟩ : ∃ r, on (ask x) crumb log = r := ⟨_, rfl⟩
    rw [hx]
    cases outcome with
    | error e => exact .inr ⟨[], x, xs, [], crumb, log, e, crumb', log', rfl, .nil, hx, rfl⟩
    | ok y =>
      dsimp only
      rw [on_bind]
      obtain ⟨ys, crumb'', log'', hrest, hrun⟩ |
        ⟨front, x', rest, ys, c, l, e, crumb'', log'', rfl, hfront, hx', hrun⟩ := ih crumb' log'
      · refine .inl ⟨y :: ys, crumb'', log'', .cons hx hrest, ?_⟩
        rw [hrun]
        rfl
      · refine .inr ⟨x :: front, x', rest, y :: ys, c, l, e, crumb'', log'', rfl, .cons hx hfront,
          hx', ?_⟩
        rw [hrun]

end Session

end BarReplay.Yahoo
