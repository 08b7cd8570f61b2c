import BarReplay.Proofs.Rule.Recognition

namespace BarReplay.Rule.Parser

open Grammar Text

variable {β : Type} {P : List Char → Prop} {s : List Char}

-- A text without white space in front.
def Bare (t : List Char) : Prop :=
  skipBlank t = t

theorem bare_skipBlank (s : List Char) : Bare (skipBlank s) := by
  induction s with
  | nil => rfl
  | cons c s ih =>
    cases hc : isBlank c with
    | true =>
      rw [show skipBlank (c :: s) = skipBlank s by simp [skipBlank, hc]]
      exact ih
    | false =>
      rw [skipBlank_cons hc]
      exact skipBlank_cons hc

theorem Bare.front {t u r : List Char} {token : Token} {us : List Token} (ht : Bare t)
    (htoken : Solid token) (h : Spaced (token :: us) u) (hs : t = u ++ r) :
    ∃ v, Spaced us v ∧ t = token.chars ++ (v ++ r) := by
  obtain ⟨v, hv, hskip⟩ := skipBlank_of_spaced htoken h hs
  exact ⟨v, hv, ht.symm.trans hskip⟩

-- Skipping white space in front of a token changes nothing.
theorem Reads.skip {p : Except Failure (β × { r : List Char // P r })} {L : Language β}
    (hp : Reads p L (skipBlank s))
    (hL : ∀ ts x, L.form ts x → ∃ token us, ts = token :: us ∧ Solid token) : Reads p L s where
  sound x r hx := by
    obtain ⟨blanks, hs, hblank⟩ := exists_blanks s
    obtain ⟨ts, u, hts, hshort, hu, hskip⟩ := hp.sound x r hx
    obtain ⟨token, us, rfl, -⟩ := hL ts x hts
    cases hu with
    | @cons inner _ _ v hinner hv =>
      refine ⟨_, (blanks ++ inner) ++ (token.chars ++ v), hts, hshort, .cons ?_ hv, ?_⟩
      · exact fun c hc => (List.mem_append.1 hc).elim (hblank c) (hinner c)
      · rw [List.append_assoc, List.append_assoc, ← List.append_assoc inner, ← hskip, ← hs]
  complete ts x u r hform hu hs hr := by
    obtain ⟨token, us, rfl, c, cs, hchars, hc⟩ := hL ts x hform
    cases hu with
    | @cons blanks _ _ v hblank hv =>
      refine hp.complete _ x ([] ++ (token.chars ++ v)) r hform (.cons (by simp) hv) ?_ hr
      rw [hs, List.append_assoc, skipBlank_blanks hblank, hchars]
      exact skipBlank_cons hc
  long hlong := by
    obtain ⟨blanks, hs, hblank⟩ := exists_blanks s
    obtain ⟨cs, ⟨front, ds, rest, ⟨ts, cs', us, x, body, inner, hform, hbody, hinner, rfl⟩, hskip,
      hdigits⟩, hlimit⟩ := hp.long hlong
    refine ⟨cs, ⟨blanks ++ (body ++ inner), ds, rest, ?_, ?_, hdigits⟩, hlimit⟩
    · cases hbody with
      | nil =>
        refine ⟨[], cs', us, x, [], blanks ++ inner, hform, .nil, ?_, rfl⟩
        exact fun c hc => (List.mem_append.1 hc).elim (hblank c) (hinner c)
      | @cons outer token ts v houter hv =>
        refine ⟨_, cs', us, x, (blanks ++ outer) ++ (token.chars ++ v), inner, hform, .cons ?_ hv,
          hinner, ?_⟩
        · exact fun c hc => (List.mem_append.1 hc).elim (hblank c) (houter c)
        · simp only [List.append_assoc]
    · rw [List.append_assoc, ← hskip, ← hs]

-- A word, and then what stands behind it.
def Language.word (w : String) (L : Language β) : Language β where
  form ts x := ∃ us, ts = .word w :: us ∧ L.form us x
  inhabited :=
    let ⟨us, x, h⟩ := L.inhabited
    ⟨.word w :: us, x, us, rfl, h⟩

theorem takeWord_append (t : List Char) : t = (takeWord t).1.toList ++ (takeWord t).2 := by
  simp [takeWord, List.takeWhile_append_dropWhile]

theorem word_solid {w : String} {c : Char} {cs : List Char} (hw : w.toList = c :: cs)
    (hc : isWordChar c = true) : Solid (.word w) := by
  refine ⟨c, cs, hw, ?_⟩
  cases hblank : isBlank c with
  | false => rfl
  | true => cases hc.symm.trans (isWordChar_of_isBlank hblank)

-- The first character of the word in front belongs to the word.
theorem takeWord_solid {t : List Char} (h : (takeWord t).1 ≠ "") :
    Solid (.word (takeWord t).1) := by
  cases t with
  | nil => exact absurd rfl h
  | cons c t =>
    cases hc : isWordChar c with
    | true =>
      have hfront : (takeWord (c :: t)).1.toList = c :: t.takeWhile isWordChar := by
        simp [takeWord, hc]
      exact word_solid hfront hc
    | false => exact absurd (by simp [takeWord, hc]) h

theorem Reads.word {t : List Char} {p : Except Failure (β × { r : List Char // P r })}
    {L : Language β} (ht : Bare t) (hw : (takeWord t).1 ≠ "") (hp : Reads p L (takeWord t).2) :
    Reads p (.word (takeWord t).1 L) t where
  sound x r hx := by
    obtain ⟨ts, u, hts, hshort, hu, hs⟩ := hp.sound x r hx
    refine ⟨_, [] ++ ((takeWord t).1.toList ++ u), ⟨ts, rfl, hts⟩, ?_, .cons (by simp) hu, ?_⟩
    · simpa [Short] using hshort
    · rw [List.nil_append, List.append_assoc, ← hs]
      exact takeWord_append t
  complete ts x u r hform hu hs hr := by
    obtain ⟨us, rfl, hus⟩ := hform
    obtain ⟨v, hv, hfront⟩ := ht.front (takeWord_solid hw) hu hs
    have hrest := List.append_cancel_left ((takeWord_append t).symm.trans hfront)
    obtain hread | ⟨hshort, hlong⟩ := hp.complete us x v r hus hv hrest hr
    · exact .inl hread
    · exact .inr ⟨fun h => hshort fun cs hcs => h cs (List.mem_cons_of_mem _ hcs), hlong⟩
  long hlong := by
    have hspaced : Spaced [.word (takeWord t).1] ([] ++ ((takeWord t).1.toList ++ [])) :=
      .cons (by simp) .nil
    have hlong : LongAt (Language.word (takeWord t).1 L).form
        ([] ++ ((takeWord t).1.toList ++ []) ++ (takeWord t).2) :=
      (hp.long hlong).extend hspaced fun us x hus => ⟨[], x, us, by simp, hus⟩
    rw [List.nil_append, List.append_nil, ← takeWord_append] at hlong
    exact hlong

-- A word is read to its end.
theorem takeWord_of_stops {w : String} (hw : ∀ c ∈ w.toList, isWordChar c = true) {r : List Char}
    (hr : Stops r) : (takeWord (w.toList ++ r)).1 = w := by
  have hnone : r.takeWhile isWordChar = [] := by
    cases r with
    | nil => rfl
    | cons c r => rw [List.takeWhile_cons, (hr c rfl).1, if_neg Bool.false_ne_true]
  rw [takeWord, List.takeWhile_append_of_pos hw, hnone, List.append_nil, String.ofList_toList]

end BarReplay.Rule.Parser
