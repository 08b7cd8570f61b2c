import BarReplay.Proofs.Except
import BarReplay.Proofs.Rule.Grammar
import BarReplay.Proofs.Text.Classes

namespace BarReplay.Rule.Parser

open Decimal Grammar Text

-- A character that no word and no numeral goes on with.
def Apart (c : Char) : Prop :=
  isWordChar c = false ∧ decimalDigit? c = none ∧ c ≠ '.'

instance (c : Char) : Decidable (Apart c) :=
  inferInstanceAs (Decidable (_ ∧ _))

-- What may follow a word or a numeral without becoming part of it.
def Stops (s : List Char) : Prop :=
  ∀ c ∈ s.head?, Apart c

theorem apart_of_isBlank {c : Char} (h : isBlank c = true) : Apart c := by
  refine ⟨isWordChar_of_isBlank h, decimalDigit?_of_isBlank h, ?_⟩
  rintro rfl
  exact absurd h (by decide)

theorem Stops.noDigit {s : List Char} (h : Stops s) : NoDigit s :=
  fun c hc => (h c hc).2.1

theorem Stops.literal {s : List Char} (h : Stops s) : Literal.Ends s := by
  intro c hc
  obtain ⟨hword, hdigit, hpoint⟩ := h c hc
  refine ⟨hdigit, hpoint, ?_, ?_⟩
  · rintro rfl
    exact absurd hword (by decide)
  · rintro rfl
    exact absurd hword (by decide)

theorem Stops.of_blanks {blanks s : List Char} (hblank : ∀ c ∈ blanks, isBlank c = true)
    (hs : Stops s) : Stops (blanks ++ s) := by
  cases blanks with
  | nil => exact hs
  | cons b blanks =>
    intro c hc
    cases Option.mem_some.1 hc
    exact apart_of_isBlank (hblank _ List.mem_cons_self)

-- Tokens that begin with a mark are not part of what stands in front of them.
theorem Stops.of_spaced {ts : List Token} {u s : List Char} (h : Spaced ts u)
    (hmark : ∀ t ∈ ts.head?, ∃ c, t = .mark c ∧ Apart c) (hs : Stops s) : Stops (u ++ s) := by
  cases h with
  | nil => exact hs
  | cons hblank h =>
    obtain ⟨c, rfl, hc⟩ := hmark _ rfl
    rw [List.append_assoc]
    refine .of_blanks hblank fun d hd => ?_
    cases Option.mem_some.1 hd
    exact hc

-- No integer token has more digits than are read.
def Short (ts : List Token) : Prop :=
  ∀ cs, .integer cs ∈ ts → cs.length ≤ digitLimit

theorem Short.append {ts us : List Token} : Short (ts ++ us) ↔ Short ts ∧ Short us := by
  simp only [Short, List.mem_append]
  exact ⟨fun h => ⟨fun cs hcs => h cs (.inl hcs), fun cs hcs => h cs (.inr hcs)⟩,
    fun h cs hcs => hcs.elim (h.1 cs) (h.2 cs)⟩

-- White space in front is skipped, and nothing else.

theorem skipBlank_blanks {blanks s : List Char} (hblank : ∀ c ∈ blanks, isBlank c = true) :
    skipBlank (blanks ++ s) = skipBlank s := by
  unfold skipBlank
  rw [List.dropWhile_append_of_pos hblank]

theorem skipBlank_cons {c : Char} {s : List Char} (hc : isBlank c = false) :
    skipBlank (c :: s) = c :: s := by
  rw [skipBlank, List.dropWhile_cons, hc]
  rfl

-- A token that does not begin with white space.
def Solid (t : Token) : Prop :=
  ∃ c cs, t.chars = c :: cs ∧ isBlank c = false

theorem mark_solid {c : Char} (hc : isBlank c = false) : Solid (.mark c) :=
  ⟨c, [], rfl, hc⟩

theorem skipBlank_of_spaced {token : Token} {ts : List Token} {s u r : List Char}
    (htoken : Solid token) (h : Spaced (token :: ts) u) (hs : s = u ++ r) :
    ∃ v, Spaced ts v ∧ skipBlank s = token.chars ++ (v ++ r) := by
  obtain ⟨c, cs, hchars, hc⟩ := htoken
  cases h with
  | @cons blanks _ _ v hblank hv =>
    refine ⟨v, hv, ?_⟩
    rw [hs, List.append_assoc, List.append_assoc, skipBlank_blanks hblank, hchars,
      List.cons_append]
    exact skipBlank_cons hc

theorem exists_blanks (s : List Char) :
    ∃ blanks, s = blanks ++ skipBlank s ∧ ∀ c ∈ blanks, isBlank c = true :=
  ⟨s.takeWhile isBlank, List.takeWhile_append_dropWhile.symm, List.all_eq_true.1 List.all_takeWhile⟩

-- A set of token lists that stand for values. It is not empty, so that a text cut off in it can
-- be completed.
structure Language (β : Type) where
  form : List Token → β → Prop
  inhabited : ∃ ts x, form ts x

variable {β γ : Type}

namespace Language

def pure (x : β) : Language β where
  form ts y := ts = [] ∧ y = x
  inhabited := ⟨[], x, rfl, rfl⟩

def mark (c : Char) (L : Language β) : Language β where
  form ts y := ∃ us, ts = .mark c :: us ∧ L.form us y
  inhabited :=
    let ⟨us, y, h⟩ := L.inhabited
    ⟨.mark c :: us, y, us, rfl, h⟩

def bind (L : Language β) (M : β → Language γ) : Language γ where
  form ts y := ∃ us vs x, ts = us ++ vs ∧ L.form us x ∧ (M x).form vs y
  inhabited :=
    let ⟨us, x, h⟩ := L.inhabited
    let ⟨vs, y, h'⟩ := (M x).inhabited
    ⟨us ++ vs, y, us, vs, x, rfl, h, h'⟩

def map (f : β → γ) (L : Language β) : Language γ where
  form ts y := ∃ x, L.form ts x ∧ y = f x
  inhabited :=
    let ⟨ts, x, h⟩ := L.inhabited
    ⟨ts, f x, x, h, rfl⟩

end Language

variable {P Q : List Char → Prop} {s : List Char}

-- Where reading got stuck at an integer with too many digits.
def LongAt (form : List Token → β → Prop) (s : List Char) : Prop :=
  ∃ cs, IntegerLiteral form s cs ∧ digitLimit < cs.length

-- Tokens in front of a form and behind it do not take the integer away.
theorem LongAt.extend {form : List Token → β → Prop} {form' : List Token → γ → Prop}
    {ts : List Token} {u : List Char} (hlong : LongAt form s) (hspaced : Spaced ts u)
    (h : ∀ us x, form us x → ∃ vs y, form' (ts ++ us ++ vs) y) : LongAt form' (u ++ s) := by
  obtain ⟨cs, ⟨front, ds, rest, ⟨vs, cs', ws, x, body, blanks, hform, hbody, hblank, rfl⟩, rfl,
    hdigits, hrest⟩, hlimit⟩ := hlong
  obtain ⟨more, y, hform⟩ := h _ x hform
  refine ⟨cs, ⟨u ++ (body ++ blanks), ds, rest, ⟨ts ++ vs, cs', ws ++ more, y, u ++ body, blanks,
    ?_, hspaced.append hbody, hblank, ?_⟩, ?_, hdigits, hrest⟩, hlimit⟩
  · simpa using hform
  · rw [List.append_assoc]
  · simp only [List.append_assoc]

-- Reading that was given up for the length of an integer.
def TooLong (p : Except Failure β) : Prop :=
  ∃ f n, p = .error f ∧ f.cause = .longInteger n

theorem TooLong.bind {p : Except Failure β} (h : TooLong p) (f : β → Except Failure γ) :
    TooLong (p >>= f) := by
  obtain ⟨e, n, rfl, hn⟩ := h
  exact ⟨e, n, rfl, hn⟩

theorem TooLong.of_bind {p : Except Failure β} {f : β → Except Failure γ} (h : TooLong (p >>= f)) :
    TooLong p ∨ ∃ x, p = .ok x ∧ TooLong (f x) := by
  obtain ⟨e, n, he, hn⟩ := h
  cases p with
  | error e' =>
    cases he
    exact .inl ⟨e, n, rfl, hn⟩
  | ok x => exact .inr ⟨x, rfl, e, n, he, hn⟩

-- A step reads a language at a text: what it answers is spelled by what it took away, it reads
-- whatever is spelled there unless an integer is too long, and if it fails for that there is one.
structure Reads (p : Except Failure (β × { r : List Char // P r })) (L : Language β)
    (s : List Char) : Prop where
  sound : ∀ x r, p = .ok (x, r) →
    ∃ ts u, L.form ts x ∧ Short ts ∧ Spaced ts u ∧ s = u ++ r.1
  complete : ∀ ts x u r, L.form ts x → Spaced ts u → s = u ++ r → Stops r →
    (∃ q, p = .ok (x, q) ∧ q.1 = r) ∨ ¬ Short ts ∧ TooLong p
  long : TooLong p → LongAt L.form s

namespace Reads

theorem pure {x : β} {h : P s} : Reads (.ok (x, ⟨s, h⟩)) (.pure x) s where
  sound y r hr := by
    cases hr
    exact ⟨[], [], ⟨rfl, rfl⟩, by simp [Short], .nil, rfl⟩
  complete ts y u r hform hspaced hs _ := by
    obtain ⟨rfl, rfl⟩ := hform
    cases hspaced
    exact .inl ⟨_, rfl, hs⟩
  long hlong := by
    obtain ⟨f, n, hf, -⟩ := hlong
    cases hf

theorem congr {p : Except Failure (β × { r : List Char // P r })} {L M : Language β}
    (hp : Reads p L s) (h : ∀ ts x, L.form ts x ↔ M.form ts x) : Reads p M s := by
  have hLM : L.form = M.form := funext fun ts => funext fun x => propext (h ts x)
  exact ⟨hLM ▸ hp.sound, hLM ▸ hp.complete, hLM ▸ hp.long⟩

theorem map {p : Except Failure (β × { r : List Char // P r })} {L : Language β} {g : β → γ}
    (hp : Reads p L s) (h : ∀ r, P r → Q r) :
    Reads (p >>= fun y => .ok (g y.1, (⟨y.2.1, h _ y.2.2⟩ : { r // Q r }))) (L.map g) s where
  sound x r hr := by
    obtain ⟨⟨y, q⟩, hy, heq⟩ := except_bind_eq_ok.1 hr
    cases heq
    obtain ⟨ts, u, hform, hshort, hspaced, hs⟩ := hp.sound y q hy
    exact ⟨ts, u, ⟨y, hform, rfl⟩, hshort, hspaced, hs⟩
  complete ts x u r hform hspaced hs hr := by
    obtain ⟨y, hform, rfl⟩ := hform
    obtain ⟨q, hy, hq⟩ | ⟨hshort, hlong⟩ := hp.complete ts y u r hform hspaced hs hr
    · exact .inl ⟨_, except_bind_eq_ok.2 ⟨_, hy, rfl⟩, hq⟩
    · exact .inr ⟨hshort, hlong.bind _⟩
  long hlong := by
    obtain hlong | ⟨y, -, f, n, hf, -⟩ := hlong.of_bind
    · exact (hp.long hlong).extend .nil fun us x hx => ⟨[], g x, x, by simpa using hx, rfl⟩
    · cases hf

-- One step after another, if what the second one reads begins with a mark.
theorem bind {p : Except Failure (β × { r : List Char // P r })} {L : Language β}
    {f : β × { r : List Char // P r } → Except Failure (γ × { r : List Char // Q r })}
    {M : β → Language γ} (hp : Reads p L s) (hf : ∀ x r, Reads (f (x, r)) (M x) r.1)
    (hmark : ∀ x ts y, (M x).form ts y → ∃ c us, ts = .mark c :: us ∧ Apart c) :
    Reads (p >>= f) (L.bind M) s where
  sound y r hr := by
    obtain ⟨⟨x, q⟩, hx, hy⟩ := except_bind_eq_ok.1 hr
    obtain ⟨ts, u, hts, hshort, hu, hs⟩ := hp.sound x q hx
    obtain ⟨us, v, hus, hshort', hv, hq⟩ := (hf x q).sound y r hy
    refine ⟨ts ++ us, u ++ v, ⟨ts, us, x, rfl, hts, hus⟩, Short.append.2 ⟨hshort, hshort'⟩,
      hu.append hv, ?_⟩
    rw [hs, hq, List.append_assoc]
  complete ts y w r hform hw hs hr := by
    obtain ⟨us, vs, x, rfl, hus, hvs⟩ := hform
    obtain ⟨u, v, rfl, hu, hv⟩ := hw.split
    obtain ⟨c, vs', rfl, hc⟩ := hmark x vs y hvs
    have hstops : Stops (v ++ r) := .of_spaced hv (by rintro _ ⟨⟩; exact ⟨c, rfl, hc⟩) hr
    obtain ⟨q, hx, hq⟩ | ⟨hshort, hlong⟩ :=
      hp.complete us x u (v ++ r) hus hu (by rw [hs, List.append_assoc]) hstops
    · obtain ⟨t, hy, ht⟩ | ⟨hshort, hlong⟩ := (hf x q).complete _ y v r hvs hv hq hr
      · exact .inl ⟨t, except_bind_eq_ok.2 ⟨_, hx, hy⟩, ht⟩
      · exact .inr ⟨fun h => hshort (Short.append.1 h).2, hx ▸ hlong⟩
    · exact .inr ⟨fun h => hshort (Short.append.1 h).1, hlong.bind f⟩
  long hlong := by
    obtain hlong | ⟨⟨x, q⟩, hx, hlong⟩ := hlong.of_bind
    · refine (hp.long hlong).extend .nil fun us x hus => ?_
      obtain ⟨vs, y, hvs⟩ := (M x).inhabited
      exact ⟨vs, y, us, vs, x, rfl, hus, hvs⟩
    · obtain ⟨ts, u, hts, -, hu, hs⟩ := hp.sound x q hx
      rw [hs]
      exact ((hf x q).long hlong).extend hu fun us y hus =>
        ⟨[], y, ts, us, x, by simp, hts, hus⟩

end Reads

theorem expect_eq_ok_iff {c : Char} {q : Rest s} : expect c s = .ok q ↔ skipBlank s = c :: q.1 := by
  unfold expect
  dsimp only
  split
  · rename_i h
    rw [h]
    exact ⟨fun h => (nomatch h), fun h => (nomatch h)⟩
  · rename_i d r h
    split
    · rename_i hd
      constructor
      · intro hq
        cases hq
        exact hd ▸ h
      · intro hq
        exact congrArg Except.ok (Subtype.ext (List.cons.inj (h.symm.trans hq)).2)
    · rename_i hd
      exact ⟨fun hq => (nomatch hq), fun hq => absurd (List.cons.inj (h.symm.trans hq)).1 hd⟩

theorem not_tooLong_expect {c : Char} : ¬ TooLong (expect c s) := by
  rintro ⟨f, n, hf, hn⟩
  unfold expect at hf
  split at hf
  · cases hf
    cases hn
  · split at hf
    · cases hf
    · cases hf
      cases hn

-- A mark, and then what stands behind it.
theorem Reads.mark {c : Char} (hc : isBlank c = false)
    {f : Rest s → Except Failure (β × { r : List Char // P r })} {L : Language β}
    (hf : ∀ r, Reads (f r) L r.1) : Reads (expect c s >>= f) (.mark c L) s where
  sound x r hr := by
    obtain ⟨q, hq, hx⟩ := except_bind_eq_ok.1 hr
    obtain ⟨blanks, hs, hblank⟩ := exists_blanks s
    obtain ⟨ts, u, hts, hshort, hu, hrest⟩ := (hf q).sound x r hx
    refine ⟨.mark c :: ts, blanks ++ ([c] ++ u), ⟨ts, rfl, hts⟩, ?_, .cons hblank hu, ?_⟩
    · simpa [Short] using hshort
    · rw [expect_eq_ok_iff.1 hq, hrest] at hs
      simpa using hs
  complete ts x w r hform hw hs hr := by
    obtain ⟨us, rfl, hus⟩ := hform
    obtain ⟨u, hu, hfront⟩ := skipBlank_of_spaced (mark_solid hc) hw hs
    have hlt : (u ++ r).length < s.length := by
      have := skipBlank_length s
      rw [hfront] at this
      exact this
    have hexpect : expect c s = .ok ⟨u ++ r, hlt⟩ := expect_eq_ok_iff.2 hfront
    obtain ⟨t, hx, ht⟩ | ⟨hshort, hlong⟩ := (hf ⟨u ++ r, hlt⟩).complete us x u r hus hu rfl hr
    · exact .inl ⟨t, except_bind_eq_ok.2 ⟨_, hexpect, hx⟩, ht⟩
    · exact .inr ⟨fun h => hshort fun cs hcs => h cs (List.mem_cons_of_mem _ hcs), hexpect ▸ hlong⟩
  long hlong := by
    obtain hlong | ⟨q, hq, hlong⟩ := hlong.of_bind
    · exact absurd hlong not_tooLong_expect
    · obtain ⟨blanks, hs, hblank⟩ := exists_blanks s
      have hspaced : Spaced [.mark c] (blanks ++ ([c] ++ [])) := .cons hblank .nil
      rw [hs, expect_eq_ok_iff.1 hq, ← List.singleton_append, ← List.append_assoc,
        ← List.append_nil [c]]
      exact ((hf q).long hlong).extend hspaced fun us x hus => ⟨[], x, us, by simp, hus⟩

end BarReplay.Rule.Parser
