import BarReplay.Machine
import BarReplay.Proofs.Yahoo.Transport

namespace BarReplay

-- A member that is put is the first of its name.
theorem Json.lookup_put (members : List (String × Json)) (name : String) (value : Json) :
    (put members name value).lookup name = some value := by
  unfold put
  by_cases hany : members.any (·.1 == name) = true
  · rw [if_pos hany]
    induction members with
    | nil => cases hany
    | cons m members ih =>
      by_cases hname : m.1 = name
      · simp [hname]
      · rw [List.any_cons, beq_false_of_ne hname, Bool.false_or] at hany
        rw [List.map_cons, if_neg (by simpa using hname), List.lookup_cons,
          beq_false_of_ne (Ne.symm hname)]
        exact ih hany
  · rw [if_neg hany]
    induction members with
    | nil => simp
    | cons m members ih =>
      rw [List.any_cons, Bool.or_eq_true, not_or, beq_iff_eq] at hany
      rw [List.cons_append, List.lookup_cons, beq_false_of_ne (Ne.symm hany.1)]
      exact ih hany.2

namespace Yahoo

open Session

-- The crumb that a page of the handshake hands over.
def Event.crumb? : Event → Option String
  | .get page none (.ok r) => if page ∈ Client.crumbPages then Client.crumb? r else none
  | _ => none

-- The crumb that belongs to the cookies after an event.
def Event.issue (crumb : Crumb) : Event → Crumb
  | .clearCookies => none
  | e => e.crumb?.or crumb

-- Whether an event is one of a handshake.
def Event.handshakes : Event → Bool
  | .clearCookies => true
  | .get _ none _ => true
  | _ => false

-- The crumb that was handed over last.
def obtained (log : List Event) : Crumb :=
  log.foldl (fun crumb e => e.crumb?.or crumb) none

-- The crumb that was handed over last among those since the cookies were last cleared.
def issued (log : List Event) : Crumb :=
  log.foldl Event.issue none

-- The last handshake has failed.
def Spoiled (log : List Event) : Prop :=
  ∃ before hands e after, log = before ++ hands ++ after ∧
    Client.Handshake hands (.error e) ∧ ∀ event ∈ after, event.handshakes = false

-- The parameters hold the crumb that was handed over last. It belongs to the cookies unless the
-- last handshake has failed.
def Carries (log : List Event) (parameters : Parameters) : Prop :=
  ∃ text, parameters.lookup "crumb" = some (.text text) ∧ obtained log = some text ∧
    (issued log = some text ∨ Spoiled log)

section Logs

variable {log events : List Event} {e : Event}

theorem obtained_concat (log : List Event) (e : Event) :
    obtained (log ++ [e]) = e.crumb?.or (obtained log) := by
  simp [obtained]

theorem issued_concat (log : List Event) (e : Event) :
    issued (log ++ [e]) = e.issue (issued log) := by
  simp [issued]

theorem Event.crumb?_page (page : String) (r : Response) :
    Event.crumb? (.get page none (.ok r)) =
      if page ∈ Client.crumbPages then Client.crumb? r else none :=
  rfl

theorem Event.issue_page (crumb : Crumb) (page : String) (answer : Except String Response) :
    Event.issue crumb (.get page none answer) = (Event.crumb? (.get page none answer)).or crumb :=
  rfl

theorem Event.crumb?_eq_none (h : e.handshakes = false) : e.crumb? = none := by
  cases e with
  | clearCookies => cases h
  | sleep seconds => rfl
  | get url parameters answer =>
    cases parameters with
    | none => cases h
    | some parameters => rfl

theorem Event.issue_eq_self (h : e.handshakes = false) (crumb : Crumb) : e.issue crumb = crumb := by
  cases e with
  | clearCookies => cases h
  | sleep seconds => rfl
  | get url parameters answer => rw [issue, crumb?_eq_none h, Option.none_or]; nofun

-- What is not of a handshake changes neither crumb.
theorem issued_append (h : ∀ e ∈ events, e.handshakes = false) :
    issued (log ++ events) = issued log := by
  induction events generalizing log with
  | nil => rw [List.append_nil]
  | cons e events ih =>
    obtain ⟨he, hevents⟩ := List.forall_mem_cons.1 h
    rw [List.append_cons, ih hevents, issued_concat, Event.issue_eq_self he]

theorem Spoiled.concat (h : Spoiled log) (he : e.handshakes = false) : Spoiled (log ++ [e]) := by
  obtain ⟨before, hands, cause, after, rfl, hhands, hafter⟩ := h
  refine ⟨before, hands, cause, after ++ [e], by rw [List.append_assoc _ after], hhands, ?_⟩
  exact List.forall_mem_append.2 ⟨hafter, List.forall_mem_singleton.2 he⟩

end Logs

namespace Client

section Handshakes

variable {log events : List Event} {pages : List String} {outcome : Except Error String}

theorem Hunt.crumbs (h : Hunt pages events outcome) (hpages : ∀ page ∈ pages, page ∈ crumbPages) :
    obtained (log ++ events) = renew (obtained log) outcome ∧
      issued (log ++ events) = renew (issued log) outcome := by
  induction h generalizing log with
  | nowhere => simp [renew]
  | unanswered =>
    rw [obtained_concat, issued_concat]
    exact ⟨rfl, rfl⟩
  | @found page _ r text hcrumb =>
    have hpage : page ∈ crumbPages := hpages page List.mem_cons_self
    rw [obtained_concat, issued_concat, Event.issue_page, Event.crumb?_page, if_pos hpage, hcrumb]
    exact ⟨rfl, rfl⟩
  | @next page pages r events outcome hcrumb hrest ih =>
    have hpage : page ∈ crumbPages := hpages page List.mem_cons_self
    have hlog := @ih (log ++ [.get page none (.ok r)]) fun page hpage =>
      hpages page (List.mem_cons_of_mem _ hpage)
    rw [obtained_concat, issued_concat, Event.issue_page, Event.crumb?_page, if_pos hpage, hcrumb,
      Option.none_or, Option.none_or] at hlog
    rwa [List.append_cons]

-- The crumb of a handshake belongs to its cookies. A handshake that fails leaves none that does.
theorem Handshake.crumbs (h : Handshake events outcome) :
    obtained (log ++ events) = renew (obtained log) outcome ∧
      issued (log ++ events) = renew none outcome := by
  cases h with
  | unanswered => simp [obtained, issued, Event.crumb?, Event.issue, renew]
  | @answered r events _ hhunt =>
    have hpage : "https://fc.yahoo.com" ∉ crumbPages := by decide
    have hobtained : obtained (log ++ [.clearCookies] ++
        [.get "https://fc.yahoo.com" none (.ok r)]) = obtained log := by
      rw [obtained_concat, obtained_concat, Event.crumb?_page, if_neg hpage]
      rfl
    have hissued : issued (log ++ [.clearCookies] ++
        [.get "https://fc.yahoo.com" none (.ok r)]) = none := by
      rw [issued_concat, issued_concat, Event.issue_page, Event.crumb?_page, if_neg hpage]
      rfl
    rw [List.append_cons, List.append_cons, ← hobtained, ← hissued]
    exact hhunt.crumbs fun page hpage => hpage

end Handshakes

end Client

theorem Spoiled.issued_eq_none {log : List Event} (h : Spoiled log) : issued log = none := by
  obtain ⟨before, hands, e, after, rfl, hhands, hafter⟩ := h
  rw [issued_append hafter]
  exact hhands.crumbs.2

-- What a client and the net are like between any two events.
structure Sound (crumb : Crumb) (log : List Event) : Prop where
  held : crumb = obtained log
  fresh : issued log = obtained log ∨ Spoiled log
  sent : ∀ n url parameters answer, log[n]? = some (.get url (some parameters) answer) →
    Carries (log.take n) parameters

namespace Sound

variable {crumb : Crumb} {log events : List Event}

theorem start : Sound none [] :=
  ⟨rfl, .inl rfl, fun _ _ _ _ h => nomatch h⟩

theorem sent_append (h : Sound crumb log)
    (hevents : ∀ n url parameters answer, events[n]? = some (.get url (some parameters) answer) →
      Carries (log ++ events.take n) parameters) :
    ∀ n url parameters answer, (log ++ events)[n]? = some (.get url (some parameters) answer) →
      Carries ((log ++ events).take n) parameters := by
  intro n url parameters answer hget
  by_cases hn : n < log.length
  · rw [List.getElem?_append_left hn] at hget
    rw [List.take_append_of_le_length (Nat.le_of_lt hn)]
    exact h.sent n url parameters answer hget
  · rw [List.getElem?_append_right (Nat.le_of_not_lt hn)] at hget
    rw [List.take_append, List.take_of_length_le (Nat.le_of_not_lt hn)]
    exact hevents _ url parameters answer hget

-- Where no chart is asked for, what was sent is what was sent before.
theorem sent_append_pages (h : Sound crumb log) (hevents : ∀ e ∈ events, e.asksChart = false) :
    ∀ n url parameters answer, (log ++ events)[n]? = some (.get url (some parameters) answer) →
      Carries ((log ++ events).take n) parameters := by
  refine h.sent_append fun n url parameters answer hget => ?_
  have hchart := hevents _ (List.mem_of_getElem? hget)
  cases hchart

theorem renewed {text : String} (h : Sound crumb log)
    (hhands : Client.Handshake events (.ok text)) : Sound (some text) (log ++ events) :=
  ⟨hhands.crumbs.1.symm, .inl (hhands.crumbs.2.trans hhands.crumbs.1.symm),
    h.sent_append_pages hhands.asksChart⟩

theorem shutOut {e : Error} (h : Sound crumb log)
    (hhands : Client.Handshake events (.error e)) : Sound crumb (log ++ events) :=
  ⟨h.held.trans hhands.crumbs.1.symm,
    .inr ⟨log, events, e, [], (List.append_nil _).symm, hhands, List.forall_mem_nil _⟩,
    h.sent_append_pages hhands.asksChart⟩

-- An event apart from the handshakes leaves both crumbs.
theorem between {e : Event} (h : Sound crumb log) (he : e.handshakes = false)
    (hsent : ∀ url parameters answer, e = .get url (some parameters) answer →
      Carries log parameters) : Sound crumb (log ++ [e]) where
  held := by rw [obtained_concat, Event.crumb?_eq_none he, Option.none_or, h.held]
  fresh := by
    rw [obtained_concat, Event.crumb?_eq_none he, Option.none_or, issued_concat,
      Event.issue_eq_self he]
    exact h.fresh.imp id fun hspoiled => hspoiled.concat he
  sent := by
    refine h.sent_append fun n url parameters answer hget => ?_
    cases n with
    | zero =>
      rw [List.take_zero, List.append_nil]
      exact hsent url parameters answer (Option.some.inj hget)
    | succ n => cases hget

theorem slept (h : Sound crumb log) (seconds : Int) : Sound crumb (log ++ [.sleep seconds]) :=
  h.between rfl nofun

-- A request with the crumb that is held.
theorem asked {text url : String} {parameters : Parameters} (h : Sound (some text) log)
    (hlookup : parameters.lookup "crumb" = some (.text text))
    (answer : Except String Response) :
    Sound (some text) (log ++ [.get url (some parameters) answer]) := by
  refine h.between rfl fun url' parameters' answer' heq => ?_
  cases heq
  exact ⟨text, hlookup, h.held.symm, h.fresh.imp (fun hissued => hissued.trans h.held.symm) id⟩

end Sound

namespace Client

theorem lookup_withCrumb (parameters : Parameters) (text : String) :
    (withCrumb parameters (some text)).lookup "crumb" = some (.text text) :=
  Json.lookup_put parameters "crumb" (.text text)

theorem Tries.sound {client : Client} {ticker url text : String} {parameters : Parameters}
    {last : Option Int} {number left : Nat} {crumb crumb' : Crumb} {log events : List Event}
    {outcome : Except Error Json}
    (h : Tries client ticker url parameters last number left crumb events outcome crumb')
    (hsound : Sound crumb log) (hcrumb : crumb = some text)
    (hlookup : parameters.lookup "crumb" = some (.text text)) : Sound crumb' (log ++ events) := by
  induction h generalizing log text with
  | exhausted => rwa [List.append_nil]
  | unanswered =>
    subst hcrumb
    exact hsound.asked hlookup _
  | shutOut hstatus hhands =>
    subst hcrumb
    rw [List.append_cons]
    exact (hsound.asked hlookup _).shutOut hhands
  | letIn hstatus hhands hrest ih =>
    subst hcrumb
    rw [List.cons_append, List.append_cons, ← List.append_assoc]
    exact ih ((hsound.asked hlookup _).renewed hhands) rfl (lookup_withCrumb _ _)
  | unknown =>
    subst hcrumb
    exact hsound.asked hlookup _
  | waited hstatus hrest ih =>
    subst hcrumb
    rw [List.append_cons, List.append_cons]
    exact ih ((hsound.asked hlookup _).slept _) rfl hlookup
  | settled =>
    subst hcrumb
    exact hsound.asked hlookup _

theorem Call.sound {client : Client} {ticker : String} {parameters : Parameters}
    {crumb crumb' : Crumb} {log events : List Event} {outcome : Except Error Json}
    (h : Call client ticker parameters crumb events outcome crumb') (hsound : Sound crumb log) :
    Sound crumb' (log ++ events) := by
  cases h with
  | shutOut hcrumb hhands => exact hsound.shutOut hhands
  | letIn hcrumb hhands hrest =>
    rw [← List.append_assoc]
    exact hrest.sound (hsound.renewed hhands) rfl (lookup_withCrumb _ _)
  | known hcrumb hrest =>
    cases crumb with
    | none => exact absurd rfl hcrumb
    | some text => exact hrest.sound hsound rfl (lookup_withCrumb _ _)

-- A call that others may follow, whatever it comes to.
def called (client : Client) (script : Script) (chart : String × Parameters) :
    Session Empty (Except Error Json) :=
  ExceptT.lift (client.chart (scripted script) chart.1 chart.2).run

theorem sound_answers {client : Client} {script : Script} {asked : List (String × Parameters)}
    {outcomes : List (Except Error Json)} {crumb crumb' : Crumb} {log log' : List Event}
    (h : Answers (called client script) asked crumb log outcomes crumb' log')
    (hsound : Sound crumb log) : Sound crumb' log' := by
  induction h with
  | nil => exact hsound
  | @cons x xs y ys crumb crumb' crumb'' log log' log'' h hrest ih =>
    obtain ⟨events, outcome, crumb₁, hcall, hrun⟩ := on_chart script crumb log client x.1 x.2
    rw [called, on_lift_run, hrun] at h
    cases h
    exact ih (hcall.sound hsound)

-- Calls that a client makes one after the other. A chart is asked for with the crumb that was
-- obtained last, and so never before a handshake has given one. The crumb belongs to the cookies
-- unless the last handshake has failed: that one has taken the cookies and has left the crumb.
theorem crumb_of_cookies_unless_spoiled (client : Client) (script : Script)
    (asked : List (String × Parameters)) : ∃ outcomes crumb log,
    on (asked.mapM (called client script)) none [] = (.ok outcomes, crumb, log) ∧
    crumb = obtained log ∧
    ∀ n url parameters answer, log[n]? = some (.get url (some parameters) answer) →
      ∃ text, parameters.lookup "crumb" = some (.text text) ∧
        obtained (log.take n) = some text ∧
        (issued (log.take n) = some text ↔ ¬ Spoiled (log.take n)) := by
  obtain ⟨outcomes, crumb, log, hanswers, hrun⟩ |
    ⟨_, _, _, _, _, _, e, _⟩ := on_mapM (called client script) asked none []
  · have hsound := sound_answers hanswers .start
    refine ⟨outcomes, crumb, log, hrun, hsound.held, fun n url parameters answer hget => ?_⟩
    obtain ⟨text, hlookup, hobtained, hissued⟩ := hsound.sent n url parameters answer hget
    refine ⟨text, hlookup, hobtained, fun hissued hspoiled => ?_, hissued.resolve_right⟩
    rw [hspoiled.issued_eq_none] at hissued
    cases hissued
  · exact e.elim

-- A crumb, a refusal with a handshake that breaks down, and an answer to the call after that.
def spoiling : Script :=
  inTurn [.ok ⟨200, "", ""⟩, .ok ⟨200, "abc", ""⟩, .ok ⟨401, "", ""⟩, .error "boom",
    .ok ⟨404, "", ""⟩]

theorem crumb_of_cookies_unless_spoiled_refusal : ∃ outcomes crumb log url,
    on ([("BHP.AX", []), ("BHP.AX", [])].mapM (called (standard Machine.reader) spoiling)) none [] =
      (.ok outcomes, crumb, log) ∧
    log[3]? = some (.get url (some [("crumb", .text "abc")]) (.ok ⟨401, "", ""⟩)) ∧
    (issued (log.take 3) = some "abc" ↔ ¬ Spoiled (log.take 3)) := by
  obtain ⟨outcomes, crumb, log, hrun, -, hsent⟩ :=
    crumb_of_cookies_unless_spoiled (standard Machine.reader) spoiling
      [("BHP.AX", []), ("BHP.AX", [])]
  have hlog : (on ([("BHP.AX", []), ("BHP.AX", [])].mapM
      (called (standard Machine.reader) spoiling)) none []).2.2[3]? =
        some (.get "https://query1.finance.yahoo.com/v8/finance/chart/BHP.AX"
          (some [("crumb", .text "abc")]) (.ok ⟨401, "", ""⟩)) := rfl
  rw [hrun] at hlog
  obtain ⟨text, htext, -, hissued⟩ := hsent 3 _ _ _ hlog
  cases htext
  exact ⟨outcomes, crumb, log, _, hrun, hlog, hissued⟩

-- The second call asks with the crumb of the first, though its cookies have been cleared.
theorem crumb_outlives_cookies : ∃ outcomes crumb log url,
    on ([("BHP.AX", []), ("BHP.AX", [])].mapM (called (standard Machine.reader) spoiling)) none [] =
      (.ok outcomes, crumb, log) ∧
    log[6]? = some (.get url (some [("crumb", .text "abc")]) (.ok ⟨404, "", ""⟩)) ∧
    issued (log.take 6) = none :=
  ⟨_, _, _, _, rfl, rfl, rfl⟩

end Client

end Yahoo

end BarReplay
