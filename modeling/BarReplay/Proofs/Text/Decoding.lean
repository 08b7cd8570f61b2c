import BarReplay.Text.Utf8

namespace BarReplay.Text.Utf8

theorem blocks_flatten {β : Type} (size : Nat) (xs : List β) : (blocks size xs).flatten = xs := by
  fun_induction blocks size xs with
  | case1 => rfl
  | case2 x rest ih =>
    rw [List.flatten_cons, ih, List.cons_append, List.take_append_drop]

-- The character of a byte that is one by itself.
def charOf (b : UInt8) : Char :=
  Char.ofNat b.toNat

-- The bytes of characters that are one byte each.
def bytesOf (cs : List Char) : List UInt8 :=
  cs.map fun c => UInt8.ofNat c.toNat

theorem bytesOf_ascii {cs : List Char} (h : ∀ c ∈ cs, c.toNat < 0x80) :
    (∀ b ∈ bytesOf cs, b.toNat < 0x80) ∧ (bytesOf cs).map charOf = cs := by
  have hbyte : ∀ c ∈ cs, (UInt8.ofNat c.toNat).toNat = c.toNat := fun c hc =>
    Nat.mod_eq_of_lt (by have := h c hc; omega)
  constructor
  · intro b hb
    obtain ⟨c, hc, rfl⟩ := List.mem_map.1 hb
    rw [hbyte c hc]
    exact h c hc
  · rw [bytesOf, List.map_map]
    refine (List.map_congr_left fun c hc => ?_).trans (List.map_id cs)
    rw [Function.comp_apply, charOf, hbyte c hc, Char.ofNat_toNat, id]

variable {bytes : List UInt8}

theorem foldlM_step_ascii (h : ∀ b ∈ bytes, b.toNat < 0x80) (text : List Char) (position : Nat) :
    bytes.foldlM State.step ⟨text, none, position⟩ =
      .ok ⟨(bytes.map charOf).reverse ++ text, none, position + bytes.length⟩ := by
  induction bytes generalizing text position with
  | nil => rfl
  | cons b bytes ih =>
    obtain ⟨hb, hbytes⟩ := List.forall_mem_cons.1 h
    have hstep : State.step ⟨text, none, position⟩ b =
        .ok ⟨charOf b :: text, none, position + 1⟩ := by
      rw [State.step]
      exact if_pos hb
    rw [List.foldlM_cons, hstep]
    refine (ih hbytes _ _).trans ?_
    rw [List.map_cons, List.reverse_cons, List.append_assoc, List.length_cons, Nat.add_assoc,
      Nat.add_comm 1]
    rfl

theorem decodeOpen_ascii (h : ∀ b ∈ bytes, b.toNat < 0x80) (text : List Char) :
    decodeOpen text bytes = .ok ((bytes.map charOf).reverse ++ text, []) := by
  rw [decodeOpen, foldlM_step_ascii h]
  simp

theorem decodeBlocks_ascii {parts : List (List UInt8)}
    (h : ∀ part ∈ parts, ∀ b ∈ part, b.toNat < 0x80) (text : List Char) :
    decodeBlocks text [] parts = ⟨text.reverse ++ parts.flatten.map charOf, none⟩ := by
  induction parts generalizing text with
  | nil => simp [decodeBlocks, State.finish]
  | cons part parts ih =>
    obtain ⟨hpart, hparts⟩ := List.forall_mem_cons.1 h
    rw [decodeBlocks, List.nil_append, decodeOpen_ascii hpart]
    dsimp only
    rw [ih hparts]
    simp

theorem decode_ascii (h : ∀ b ∈ bytes, b.toNat < 0x80) : decode bytes = .ok (bytes.map charOf) := by
  rw [decode, foldlM_step_ascii h, List.append_nil]
  exact congrArg Except.ok (List.reverse_reverse _)

-- Bytes that are characters by themselves are decoded one by one, wherever the blocks end.
theorem decodeStream_ascii (h : ∀ b ∈ bytes, b.toNat < 0x80) :
    decodeStream bytes = ⟨bytes.map charOf, none⟩ := by
  have hparts : ∀ part ∈ blocks 8191 bytes, ∀ b ∈ part, b.toNat < 0x80 := by
    intro part hpart b hb
    exact h b (blocks_flatten 8191 bytes ▸ List.mem_flatten_of_mem hpart hb)
  rw [decodeStream, decodeBlocks_ascii hparts, blocks_flatten]
  rfl

end BarReplay.Text.Utf8
