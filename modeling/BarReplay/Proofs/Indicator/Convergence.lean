import BarReplay.Proofs.Indicator.Smoothing

namespace BarReplay.Indicator

open Amount

variable {α : Type} [Amount α]

-- What an exponential average of a period comes to with the last of some values.
def smoothed (period : Nat) (k : α) (xs : List α) : α :=
  (SeededAverage.after period (SeededAverage.exponential k) xs).average

-- Averages of the closes over two periods, subtracted.
def lineAfter (fast slow : Nat) (f g : α) (shown : List (Bar α)) : α :=
  smoothed fast f (shown.map Bar.close) - smoothed slow g (shown.map Bar.close)

-- The line at each bar, from that one on that makes up both periods.
def linesAfter (fast slow : Nat) (f g : α) (shown : List (Bar α)) : List α :=
  onBeginnings (max fast slow) (lineAfter fast slow f g) shown

-- The average of the lines is zero until there are as many as its period says.
theorem average_after_of_lt {period : Nat} {blend : α → α → α} {xs : List α}
    (h : xs.length < period) : (SeededAverage.after period blend xs).average = 0 := by
  cases xs using List.reverseRecOn with
  | nil => rfl
  | append_singleton xs x =>
    rw [List.length_append, List.length_singleton] at h
    rw [SeededAverage.after_concat, SeededAverage.push, SeededAverage.after_seen, if_pos h]

-- What one more line does to an average of the lines.
theorem after_line {signal : Nat} (hsignal : 1 ≤ signal) (k : α) {lines : List α}
    {third : SeededAverage α}
    (hthird : third = .after signal (SeededAverage.exponential k) lines) (line : α) :
    SeededAverage.after signal (SeededAverage.exponential k) (lines ++ [line]) =
      if lines.length < signal - 1 then ⟨lines.length + 1, third.total + line, 0⟩
      else if lines.length = signal - 1 then
        ⟨lines.length + 1, third.total + line, (third.total + line) / whole signal⟩
      else ⟨lines.length + 1, third.total, line * k + third.average * (1 - k)⟩ := by
  have hbelow : lines.length + 1 < signal ↔ lines.length < signal - 1 := by omega
  have hfull : lines.length + 1 = signal ↔ lines.length = signal - 1 := by omega
  rw [SeededAverage.after_concat, ← hthird, SeededAverage.push, hthird, SeededAverage.after_seen]
  simp only [hbelow, hfull, SeededAverage.exponential]

-- A convergence keeps two averages of the closes, and what a third one of the lines would keep.
theorem convergence_tells {fast slow signal : Nat} (hfast : 1 ≤ fast) (hsignal : 1 ≤ signal)
    {f g k : α} (hf : SeededAverage.fraction fast = .ok f)
    (hg : SeededAverage.fraction slow = .ok g) (hk : SeededAverage.fraction signal = .ok k) :
    (convergence fast slow signal : Study α _).Tells
      (fun shown state =>
        let third := SeededAverage.after signal (SeededAverage.exponential k)
          (linesAfter fast slow f g shown)
        state = ⟨f, g, k,
          .after fast (SeededAverage.exponential f) (shown.map Bar.close),
          .after slow (SeededAverage.exponential g) (shown.map Bar.close),
          third.total, third.average⟩)
      fun shown reading => max fast slow ≤ shown.length →
        let line := lineAfter fast slow f g shown
        let lines := linesAfter fast slow f g shown
        reading.get? .line = some line ∧ (signal ≤ lines.length →
          reading = .macd line (smoothed signal k lines) (line - smoothed signal k lines)) where
  start h := by
    simp only [convergence, hf, hg, hk] at h
    cases h
    simp only [linesAfter]
    rw [onBeginnings_eq_nil (by rw [List.length_nil]; omega)]
    rfl
  step {shown b state next valid reading} hstate h := by
    have hlength : (shown ++ [b]).length = shown.length + 1 := by
      rw [List.length_append, List.length_singleton]
    have hcloses : (shown ++ [b]).map Bar.close = shown.map Bar.close ++ [b.close] := by
      rw [List.map_append, List.map_singleton]
    have hindex : (Moment.mk shown.reverse b).index = shown.length := List.length_reverse
    have hcount : (linesAfter fast slow f g shown).length = shown.length + 1 - max fast slow :=
      onBeginnings_length _ _ _
    rw [hstate] at h
    simp only [convergence, hindex, ← SeededAverage.after_concat, ← hcloses] at h
    by_cases hthere : shown.length < max fast slow - 1
    · rw [if_pos hthere] at h
      cases h
      refine ⟨?_, fun hfull => absurd hfull (by omega)⟩
      simp only [linesAfter]
      rw [onBeginnings_eq_nil (by omega), onBeginnings_eq_nil (by omega)]
    -- the line of this bar is behind those before it
    have hlines : linesAfter fast slow f g (shown ++ [b]) =
        linesAfter fast slow f g shown ++ [lineAfter fast slow f g (shown ++ [b])] :=
      onBeginnings_concat (by omega) b
    have hpush : SeededAverage.after signal (SeededAverage.exponential k)
        (linesAfter fast slow f g shown ++ [lineAfter fast slow f g (shown ++ [b])]) = _ :=
      after_line hsignal k rfl _
    rw [← hlines] at hpush
    rw [if_neg hthere] at h
    by_cases hseeding : shown.length < max fast slow - 1 + signal - 1
    · rw [if_pos hseeding] at h
      rw [if_pos (by omega)] at hpush
      have hunset : (SeededAverage.after signal (SeededAverage.exponential k)
          (linesAfter fast slow f g shown)).average = 0 := average_after_of_lt (by omega)
      rw [hunset] at h
      cases h
      refine ⟨by simp only [hpush]; rfl, fun _ => ⟨rfl, fun hfull => absurd hfull ?_⟩⟩
      rw [hlines, List.length_append, List.length_singleton]
      omega
    · rw [if_neg hseeding] at h
      by_cases hseeded : shown.length = max fast slow - 1 + signal - 1
      · rw [if_pos hseeded] at h
        rw [if_neg (by omega), if_pos (by omega)] at hpush
        cases h
        refine ⟨by simp only [hpush]; rfl, fun _ => ⟨rfl, fun _ => ?_⟩⟩
        simp only [smoothed, hpush]
        rfl
      · rw [if_neg hseeded] at h
        rw [if_neg (by omega), if_neg (by omega)] at hpush
        cases h
        refine ⟨by simp only [hpush]; rfl, fun _ => ⟨rfl, fun _ => ?_⟩⟩
        simp only [smoothed, hpush]
        rfl

-- Only a period that is too large for an amount is in the way of an average, whatever the bars are.
theorem exists_exponentialAverage_iff (period : Nat) (bars : List (Bar α)) :
    (∃ series, (Spec.windowed .ema period).series bars = .ok series) ↔
      ∃ k : α, SeededAverage.fraction period = .ok k := by
  rw [Spec.exists_series_iff]
  refine (Study.exists_run_iff (s := exponentialAverage period) (fun _ _ => ⟨_, rfl⟩) bars).trans ?_
  constructor
  · rintro ⟨state, h⟩
    obtain ⟨k, hk, -⟩ := except_bind_eq_ok.1 h
    exact ⟨k, hk⟩
  · rintro ⟨k, hk⟩
    exact ⟨_, except_bind_eq_ok.2 ⟨k, hk, rfl⟩⟩

theorem exists_convergence_iff (fast slow signal : Nat) (bars : List (Bar α)) :
    (∃ series, (Spec.macd fast slow signal).series bars = .ok series) ↔
      ∀ period ∈ [fast, slow, signal], ∃ k : α, SeededAverage.fraction period = .ok k := by
  rw [Spec.exists_series_iff]
  refine (Study.exists_run_iff (convergence_answers fast slow signal) bars).trans ?_
  rw [List.forall_mem_cons, List.forall_mem_cons, List.forall_mem_singleton]
  constructor
  · rintro ⟨state, h⟩
    obtain ⟨f, hf, h⟩ := except_bind_eq_ok.1 h
    obtain ⟨g, hg, h⟩ := except_bind_eq_ok.1 h
    obtain ⟨k, hk, -⟩ := except_bind_eq_ok.1 h
    exact ⟨⟨f, hf⟩, ⟨g, hg⟩, k, hk⟩
  · rintro ⟨⟨f, hf⟩, ⟨g, hg⟩, k, hk⟩
    exact ⟨_, except_bind_eq_ok.2 ⟨f, hf, except_bind_eq_ok.2 ⟨g, hg,
      except_bind_eq_ok.2 ⟨k, hk, rfl⟩⟩⟩⟩

theorem exponentialAverage_valueAt? {period : Nat} (hperiod : 1 ≤ period) {k : α}
    (hk : SeededAverage.fraction period = .ok k) {bars : List (Bar α)} {series : Series α}
    (h : (Spec.windowed .ema period).series bars = .ok series) {i : Nat} (hfull : period ≤ i + 1)
    (hi : i < bars.length) :
    series.valueAt? i .value = some (smoothed period k ((bars.take (i + 1)).map Bar.close)) := by
  obtain ⟨points, hpoints, h⟩ := except_bind_eq_ok.1 h
  cases h
  obtain ⟨p, hp⟩ := (Spec.exists_point_iff _ hpoints i).2 hi
  have hvalid : p.valid = true := by
    refine (Spec.points_warmUp (.windowed .ema period) hperiod hpoints hp).1.2 ?_
    change period - 1 ≤ i
    omega
  have hreading := (exponentialAverage_tells hk).run hpoints hp
  rw [Series.valueAt?_of_point ⟨_, points⟩ hp, if_pos hvalid, hreading]
  rfl

-- Bars with other closes.
def withCloses (bars : List (Bar α)) (closes : List α) : List (Bar α) :=
  List.zipWith (fun b close => { b with close }) bars closes

omit [Amount α] in
theorem map_close_withCloses {bars : List (Bar α)} {closes : List α}
    (h : closes.length = bars.length) : (withCloses bars closes).map Bar.close = closes := by
  induction bars generalizing closes with
  | nil => exact (List.eq_nil_of_length_eq_zero h).symm
  | cons b bars ih =>
    cases closes with
    | nil => rfl
    | cons close closes => exact congrArg (close :: ·) (ih (Nat.succ.inj h))

-- What a convergence says at a bar, in terms of averages of the closes and of the lines up to it.
theorem convergence_reading {fast slow signal : Nat} (hfast : 1 ≤ fast)
    (hsignal : 1 ≤ signal) {f g k : α} (hf : SeededAverage.fraction fast = .ok f)
    (hg : SeededAverage.fraction slow = .ok g) (hk : SeededAverage.fraction signal = .ok k) {bars : List (Bar α)} {points : List (Point α)}
    (h : (convergence fast slow signal).run bars = .ok points) {i : Nat} {p : Point α}
    (hp : points[i]? = some p) (hthere : max fast slow ≤ i + 1) :
    let line := lineAfter fast slow f g (bars.take (i + 1))
    let lines := (linesAfter fast slow f g bars).take (i + 2 - max fast slow)
    p.reading.get? .line = some line ∧ (max fast slow + signal ≤ i + 2 →
      p.reading = .macd line (smoothed signal k lines) (line - smoothed signal k lines)) := by
  intro line lines
  have hi := (Spec.exists_point_iff (.macd fast slow signal) h i).1 ⟨p, hp⟩
  have hlength : (bars.take (i + 1)).length = i + 1 := List.length_take_of_le hi
  have htells := (convergence_tells hfast hsignal hf hg hk).run h hp (hthere.trans hlength.ge)
  have hlines : linesAfter fast slow f g (bars.take (i + 1)) = lines := onBeginnings_take bars _
  rw [hlines] at htells
  refine ⟨htells.1, fun hfull => htells.2 ?_⟩
  rw [List.length_take, linesAfter, onBeginnings_length]
  omega

-- The average of some lines, read as many bars earlier as there are bars in front of the lines.
theorem signalAverage_valueAt? {signal : Nat} (hsignal : 1 ≤ signal) {k : α}
    (hk : SeededAverage.fraction signal = .ok k) {bars : List (Bar α)} {n : Nat} {lines : List α}
    (hlines : lines.length = (bars.drop n).length) {series : Series α}
    (h : (Spec.windowed .ema signal).series (withCloses (bars.drop n) lines) = .ok series) {i : Nat}
    (hfull : n + (signal - 1) ≤ i) (hi : i < bars.length) :
    series.valueAt? (i - n : Nat) .value = some (smoothed signal k (lines.take (i + 1 - n))) := by
  have hcloses := map_close_withCloses hlines
  have hlength : (withCloses (bars.drop n) lines).length = bars.length - n := by
    rw [← List.length_map (f := Bar.close), hcloses, hlines, List.length_drop]
  rw [exponentialAverage_valueAt? hsignal hk h (by omega) (by omega), List.map_take, hcloses,
    show i - n + 1 = i + 1 - n by omega]

-- A convergence has a series over some bars if the three averages have. Where both averages of
-- the closes can be read, its line is their difference. Its signal is the average of these lines,
-- which is read as many bars earlier as there are bars without a line, and its histogram is what
-- the line is above the signal.
theorem convergence_of_averages {fast slow signal : Nat} (hfast : 1 ≤ fast) (hslow : 1 ≤ slow)
    (hsignal : 1 ≤ signal) (bars : List (Bar α)) :
    ((∃ series, (Spec.macd fast slow signal).series bars = .ok series) ↔
      ∀ period ∈ [fast, slow, signal],
        ∃ average, (Spec.windowed .ema period).series bars = .ok average) ∧
    ∀ series, (Spec.macd fast slow signal).series bars = .ok series →
      ∃ fastAverage slowAverage signalAverage lines,
        (Spec.windowed .ema fast).series bars = .ok fastAverage ∧
        (Spec.windowed .ema slow).series bars = .ok slowAverage ∧
        (series.points.drop (max fast slow - 1)).map (·.reading.get? .line) = lines.map some ∧
        (Spec.windowed .ema signal).series
          (withCloses (bars.drop (max fast slow - 1)) lines) = .ok signalAverage ∧
        (∀ i, max fast slow - 1 ≤ i → i < bars.length → ∃ p f g,
          series.points[i]? = some p ∧ fastAverage.valueAt? i .value = some f ∧
          slowAverage.valueAt? i .value = some g ∧ p.reading.get? .line = some (f - g)) ∧
        ∀ i p, series.points[i]? = some p →
          (p.valid = true ↔ max fast slow - 1 + (signal - 1) ≤ i) ∧
          (p.valid = true → ∃ line s, p.reading = .macd line s (line - s) ∧
            signalAverage.valueAt? (i - (max fast slow - 1) : Nat) .value = some s) := by
  constructor
  · simp only [exists_convergence_iff, exists_exponentialAverage_iff]
  intro series h
  obtain ⟨⟨f, hf⟩, hrest⟩ := List.forall_mem_cons.1 ((exists_convergence_iff _ _ _ _).1 ⟨series, h⟩)
  obtain ⟨⟨g, hg⟩, hrest⟩ := List.forall_mem_cons.1 hrest
  obtain ⟨k, hk⟩ := List.forall_mem_singleton.1 hrest
  obtain ⟨points, hpoints, h⟩ := except_bind_eq_ok.1 h
  cases h
  obtain ⟨fastAverage, hfastAverage⟩ := (exists_exponentialAverage_iff fast bars).2 ⟨f, hf⟩
  obtain ⟨slowAverage, hslowAverage⟩ := (exists_exponentialAverage_iff slow bars).2 ⟨g, hg⟩
  let lines := linesAfter fast slow f g bars
  have hlines : lines.length = (bars.drop (max fast slow - 1)).length := by
    rw [show lines = onBeginnings _ _ bars from rfl, onBeginnings_length, List.length_drop]
    omega
  obtain ⟨signalAverage, hsignalAverage⟩ := (exists_exponentialAverage_iff signal
    (withCloses (bars.drop (max fast slow - 1)) lines)).2 ⟨k, hk⟩
  refine ⟨fastAverage, slowAverage, signalAverage, lines, hfastAverage, hslowAverage, ?_,
    hsignalAverage, fun i hthere hi => ?_, fun i p hp => ?_⟩
  · refine Study.column_eq (Spec.points_length _ hpoints) (by omega) fun i p hp hthere => ?_
    exact (convergence_reading hfast hsignal hf hg hk hpoints hp hthere).1
  · obtain ⟨p, hp⟩ := (Spec.exists_point_iff _ hpoints i).2 hi
    exact ⟨p, _, _, hp, exponentialAverage_valueAt? hfast hf hfastAverage (by omega) hi,
      exponentialAverage_valueAt? hslow hg hslowAverage (by omega) hi,
      (convergence_reading hfast hsignal hf hg hk hpoints hp (by omega)).1⟩
  · have hvalid : p.valid = true ↔ max fast slow - 1 + (signal - 1) ≤ i := by
      rw [((Spec.macd fast slow signal).points_warmUp ⟨hfast, hslow, hsignal⟩ hpoints hp).1]
      change max fast slow + signal - 2 ≤ i ↔ _
      omega
    refine ⟨hvalid, fun hthere => ?_⟩
    have hwarm := hvalid.1 hthere
    have hreading := (convergence_reading hfast hsignal hf hg hk hpoints hp (by omega)).2 (by omega)
    have hi := (Spec.exists_point_iff _ hpoints i).1 ⟨p, hp⟩
    have hindex : i + 1 - (max fast slow - 1) = i + 2 - max fast slow := by omega
    refine ⟨_, _, hreading, ?_⟩
    rw [signalAverage_valueAt? hsignal hk hlines hsignalAverage hwarm hi, hindex]

-- The fast average is the longer one, and the signal is there with the second line.
theorem convergence_of_averages_climb : 1 ≤ 3 ∧ 1 ≤ 1 ∧ 1 ≤ 2 ∧
    (∀ period ∈ [3, 1, 2], ∃ average : Series Float,
      (Spec.windowed .ema period).series climb = .ok average) ∧
    ∃ series p f g s, (Spec.macd 3 1 2).series climb = .ok series ∧
      series.points[3]? = some p ∧ p.valid = true ∧
      (Spec.windowed .ema 3).Gives climb 3 .value f ∧
      (Spec.windowed .ema 1).Gives climb 3 .value g ∧
      p.reading = .macd (f - g) s (f - g - s) := by
  have hfractions : ∀ period ∈ [3, 1, 2],
      (SeededAverage.fraction period : Except Fault Float).isOk = true := by decide
  have haverages : ∀ period ∈ [3, 1, 2], ∃ average : Series Float,
      (Spec.windowed .ema period).series climb = .ok average := fun period hperiod =>
    (exists_exponentialAverage_iff period climb).2
      ⟨_, except_eq_ok_getD (hfractions period hperiod) 0⟩
  have h := @convergence_of_averages Float _ 3 1 2 (by decide) (by decide) (by decide) climb
  obtain ⟨series, hseries⟩ := h.1.2 haverages
  obtain ⟨fastAverage, slowAverage, signalAverage, lines, hfast, hslow, -, -, hline, hvalid⟩ :=
    h.2 series hseries
  obtain ⟨p, f, g, hp, hf, hg, hread⟩ := hline 3 (by decide) (by decide)
  have hthere : p.valid = true := (hvalid 3 p hp).1.2 (by decide)
  obtain ⟨line, s, hreading, -⟩ := (hvalid 3 p hp).2 hthere
  rw [hreading] at hread
  cases hread
  exact ⟨by decide, by decide, by decide, haverages, series, p, f, g, s, hseries, hp, hthere,
    ⟨fastAverage, hfast, hf⟩, ⟨slowAverage, hslow, hg⟩, hreading⟩

end BarReplay.Indicator
