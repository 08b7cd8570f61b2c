namespace BarReplay

-- A calculation after another one succeeds only if both do.
theorem except_bind_eq_ok {ε β γ : Type} {r : Except ε β} {f : β → Except ε γ} {y : γ} :
    (r >>= f) = .ok y ↔ ∃ x, r = .ok x ∧ f x = .ok y := by
  cases r with
  | error e => exact ⟨fun h => (nomatch h), fun ⟨_, h, _⟩ => (nomatch h)⟩
  | ok x => exact ⟨fun h => ⟨x, rfl, h⟩, fun ⟨_, h, hf⟩ => Except.ok.inj h ▸ hf⟩

-- It fails where the first one fails, or where the second one does.
theorem except_bind_eq_error {ε β γ : Type} {r : Except ε β} {f : β → Except ε γ} {e : ε} :
    (r >>= f) = .error e ↔ r = .error e ∨ ∃ x, r = .ok x ∧ f x = .error e := by
  cases r with
  | error e' =>
    refine ⟨fun h => .inl (Except.error.inj h ▸ rfl), ?_⟩
    rintro (h | ⟨_, h, _⟩)
    · exact Except.error.inj h ▸ rfl
    · cases h
  | ok x =>
    refine ⟨fun h => .inr ⟨x, rfl, h⟩, ?_⟩
    rintro (h | ⟨_, h, hf⟩)
    · cases h
    · exact Except.ok.inj h ▸ hf

theorem except_eq_ok_getD {ε β : Type} {r : Except ε β} (h : r.isOk = true) (y : β) :
    r = .ok (r.toOption.getD y) := by
  cases r with
  | error e => cases h
  | ok x => rfl

theorem except_eq_ok_iff_toOption {ε β : Type} {r : Except ε β} {x : β} :
    r = .ok x ↔ r.toOption = some x := by
  cases r <;> simp [Except.toOption]

theorem except_eq_error_of_isOk {ε β : Type} {r : Except ε β} (h : r.isOk = false) :
    ∃ e, r = .error e := by
  cases r with
  | error e => exact ⟨e, rfl⟩
  | ok x => cases h

-- A failure with a property that can be tested.
theorem except_exists_error {ε β : Type} {r : Except ε β} {p : ε → Bool}
    (h : (match r with | .error e => p e | .ok _ => false) = true) :
    ∃ e, r = .error e ∧ p e = true := by
  cases r with
  | error e => exact ⟨e, rfl, h⟩
  | ok x => cases h

end BarReplay
