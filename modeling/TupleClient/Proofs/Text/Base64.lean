import TupleClient.Proofs.FirstFault
import TupleClient.Text.Base64

/-!
Base 64 as it is written, and that it is read back: the text of any bytes denotes these bytes. What
a text denotes has no more than three bytes for each group of four symbols.
-/
namespace TupleClient.Base64

def alphabet : String := "ABCDEFGHIJKLMNOPQRSTUVWXYZabcdefghijklmnopqrstuvwxyz0123456789+/"

def symbol (n : Nat) : UInt8 := (Bytes.ofText alphabet).getD n padding

/-- Writes bytes in groups of three, the last one filled up. -/
def encode : Bytes → Bytes
  | [] => []
  | [a] => [symbol (a.toNat / 4), symbol (a.toNat % 4 * 16), padding, padding]
  | [a, b] =>
    [symbol (a.toNat / 4), symbol (a.toNat % 4 * 16 + b.toNat / 16), symbol (b.toNat % 16 * 4),
      padding]
  | a :: b :: c :: rest =>
    symbol (a.toNat / 4) :: symbol (a.toNat % 4 * 16 + b.toNat / 16) ::
      symbol (b.toNat % 16 * 4 + c.toNat / 64) :: symbol (c.toNat % 64) :: encode rest

theorem sextet?_symbol : ∀ n < 64, sextet? (symbol n) = some n := by decide

theorem symbol_ne_padding {n : Nat} (h : n < 64) : symbol n ≠ padding := by
  intro heq
  have hread := sextet?_symbol n h
  rw [heq] at hread
  cases hread

theorem length_encode (bs : Bytes) : (encode bs).length = 4 * ((bs.length + 2) / 3) := by
  fun_induction encode bs with
  | case1 => rfl
  | case2 => simp
  | case3 => simp
  | case4 a b c rest ih =>
    simp only [List.length_cons, ih]
    omega

theorem symbol_range : ∀ n < 64, 0x2b ≤ (symbol n).toNat ∧ (symbol n).toNat ≤ 0x7a := by decide

theorem encode_range {bs : Bytes} : ∀ b ∈ encode bs, 0x2b ≤ b.toNat ∧ b.toNat ≤ 0x7a := by
  have hpadding : 0x2b ≤ padding.toNat ∧ padding.toNat ≤ 0x7a := by decide
  fun_induction encode bs with
  | case1 => exact nofun
  | case2 a =>
    have ha := a.toNat_lt
    simp only [List.forall_mem_cons]
    exact ⟨symbol_range _ (by omega), symbol_range _ (by omega), hpadding, hpadding, nofun⟩
  | case3 a b =>
    have ha := a.toNat_lt
    have hb := b.toNat_lt
    simp only [List.forall_mem_cons]
    exact ⟨symbol_range _ (by omega), symbol_range _ (by omega), symbol_range _ (by omega),
      hpadding, nofun⟩
  | case4 a b c rest ih =>
    have ha := a.toNat_lt
    have hb := b.toNat_lt
    have hc := c.toNat_lt
    simp only [List.forall_mem_cons]
    exact ⟨symbol_range _ (by omega), symbol_range _ (by omega), symbol_range _ (by omega),
      symbol_range _ (by omega), ih⟩

/-- Three bytes come back from the four symbols they are written as. -/
theorem tailBytes_of_bytes (a b c : UInt8) :
    tailBytes [a.toNat / 4, a.toNat % 4 * 16 + b.toNat / 16, b.toNat % 16 * 4 + c.toNat / 64,
      c.toNat % 64] = ([a, b, c], 0) := by
  have ha := a.toNat_lt
  have hb := b.toNat_lt
  have hc := c.toNat_lt
  simp only [tailBytes, Prod.mk.injEq, List.cons.injEq, ← UInt8.toNat_inj, UInt8.toNat_ofNat',
    and_true]
  omega

section

variable {offset n : Nat} {sextets : List Nat} {last : UInt8} {rest : Bytes}

theorem tailSymbols_symbol (h : n < 64) :
    tailSymbols offset (symbol n :: rest) sextets last 0 =
      tailSymbols offset rest (n :: sextets) (symbol n) 0 := by
  simp [tailSymbols, symbol_ne_padding h, sextet?_symbol n h]

theorem tailSymbols_padding {pads : Nat} (h : 2 ≤ sextets.length + pads) :
    tailSymbols offset (padding :: rest) sextets last pads =
      tailSymbols offset rest sextets last (pads + 1) := by
  rw [tailSymbols]
  simp only [if_true, if_neg (Nat.not_lt.2 h)]

end

/-- A last group that is filled up as it has to be, and has no bits left over. -/
theorem tail_eq_ok {offset pads : Nat} {symbols : Bytes} {sextets : List Nat} {last : UInt8}
    {bytes : Bytes} (hread : tailSymbols offset symbols [] 0 0 = .ok (sextets, last, pads))
    (hlength : 2 ≤ sextets.length) (hfull : (pads + sextets.length) % 4 = 0)
    (hbytes : tailBytes sextets = (bytes, 0)) : tail offset symbols = .ok bytes := by
  simp only [tail, hread, bind, Except.bind, hbytes]
  rw [if_neg (fun h => by omega), if_neg (by omega), if_neg (by omega)]

theorem tail_encode_one (offset : Nat) (a : UInt8) : tail offset (encode [a]) = .ok [a] := by
  have ha := a.toNat_lt
  have hread : tailSymbols offset (encode [a]) [] 0 0 =
      .ok ([a.toNat / 4, a.toNat % 4 * 16], symbol (a.toNat % 4 * 16), 2) := by
    rw [encode, tailSymbols_symbol (by omega), tailSymbols_symbol (by omega),
      tailSymbols_padding (by simp), tailSymbols_padding (by simp)]
    rfl
  refine tail_eq_ok hread (by simp) (by simp) ?_
  simp only [tailBytes, Prod.mk.injEq, List.cons.injEq, ← UInt8.toNat_inj, UInt8.toNat_ofNat',
    and_true]
  omega

theorem tail_encode_two (offset : Nat) (a b : UInt8) :
    tail offset (encode [a, b]) = .ok [a, b] := by
  have ha := a.toNat_lt
  have hb := b.toNat_lt
  have hread : tailSymbols offset (encode [a, b]) [] 0 0 =
      .ok ([a.toNat / 4, a.toNat % 4 * 16 + b.toNat / 16, b.toNat % 16 * 4],
        symbol (b.toNat % 16 * 4), 1) := by
    rw [encode, tailSymbols_symbol (by omega), tailSymbols_symbol (by omega),
      tailSymbols_symbol (by omega), tailSymbols_padding (by simp)]
    rfl
  refine tail_eq_ok hread (by simp) (by simp) ?_
  simp only [tailBytes, Prod.mk.injEq, List.cons.injEq, ← UInt8.toNat_inj, UInt8.toNat_ofNat',
    and_true]
  omega

theorem tail_encode_three (offset : Nat) (a b c : UInt8) :
    tail offset (encode [a, b, c]) = .ok [a, b, c] := by
  have ha := a.toNat_lt
  have hb := b.toNat_lt
  have hc := c.toNat_lt
  have hread : tailSymbols offset (encode [a, b, c]) [] 0 0 =
      .ok ([a.toNat / 4, a.toNat % 4 * 16 + b.toNat / 16, b.toNat % 16 * 4 + c.toNat / 64,
        c.toNat % 64], symbol (c.toNat % 64), 0) := by
    rw [encode, tailSymbols_symbol (by omega), tailSymbols_symbol (by omega),
      tailSymbols_symbol (by omega), tailSymbols_symbol (by omega)]
    rfl
  exact tail_eq_ok hread (by simp) (by simp) (tailBytes_of_bytes a b c)

theorem group_symbols (offset : Nat) (a b c : UInt8) :
    group offset (symbol (a.toNat / 4)) (symbol (a.toNat % 4 * 16 + b.toNat / 16))
      (symbol (b.toNat % 16 * 4 + c.toNat / 64)) (symbol (c.toNat % 64)) = .ok [a, b, c] := by
  have ha := a.toNat_lt
  have hb := b.toNat_lt
  have hc := c.toNat_lt
  rw [group, sextet?_symbol _ (by omega), sextet?_symbol _ (by omega),
    sextet?_symbol _ (by omega), sextet?_symbol _ (by omega)]
  exact congrArg (fun x : Bytes × Nat => Except.ok x.1) (tailBytes_of_bytes a b c)

theorem groups_encode (offset : Nat) (bs : Bytes) : groups offset (encode bs) = .ok bs := by
  fun_induction encode bs generalizing offset with
  | case1 => rfl
  | case2 a => exact tail_encode_one offset a
  | case3 a b => exact tail_encode_two offset a b
  | case4 a b c rest ih =>
    -- The last group is read as such even where it is full.
    cases hrest : encode rest with
    | nil =>
      have hnil : rest = [] := by
        have := length_encode rest
        rw [hrest, List.length_nil] at this
        exact List.length_eq_zero_iff.1 (by omega)
      rw [hnil]
      exact tail_encode_three offset a b c
    | cons e more =>
      rw [groups, group_symbols, ← hrest, ih]
      rfl

theorem decode_encode (bs : Bytes) : decode (encode bs) = .ok bs := by
  have hlength := length_encode bs
  unfold decode
  split
  · rw [if_neg (fun h => by omega)]
    exact groups_encode 0 bs
  · rename_i hlast
    have hnil := List.getLast?_eq_none_iff.1 hlast
    rw [hnil, List.length_nil] at hlength
    rw [List.length_eq_zero_iff.1 (show bs.length = 0 by omega)]

/-! The other way round there are no more bytes than fit. -/

theorem length_tailBytes_le (sextets : List Nat) : (tailBytes sextets).1.length ≤ 3 := by
  unfold tailBytes
  split <;> simp

theorem length_group_le {offset : Nat} {a b c d : UInt8} {bytes : Bytes}
    (h : group offset a b c d = .ok bytes) : bytes.length ≤ 3 := by
  unfold group at h
  split at h
  · cases h
    exact length_tailBytes_le _
  all_goals cases h

theorem length_tail_le {offset : Nat} {symbols bytes : Bytes}
    (h : tail offset symbols = .ok bytes) : bytes.length ≤ 3 * ((symbols.length + 3) / 4) := by
  cases symbols with
  | nil =>
    cases h
    simp
  | cons b bs =>
    simp only [tail, bind, bind_eq_ok_iff] at h
    obtain ⟨⟨sextets, last, pads⟩, -, h⟩ := h
    have hle := length_tailBytes_le sextets
    simp only at h
    split at h
    · cases h
    split at h
    · cases h
    split at h
    · cases h
    cases h
    simp only [List.length_cons]
    omega

theorem length_groups_le {offset : Nat} {symbols bytes : Bytes}
    (h : groups offset symbols = .ok bytes) : bytes.length ≤ 3 * ((symbols.length + 3) / 4) := by
  fun_induction groups offset symbols generalizing bytes with
  | case1 offset a b c d e rest ih =>
    simp only [bind, bind_eq_ok_iff] at h
    obtain ⟨first, hfirst, more, hmore, h⟩ := h
    cases h
    have hthree := length_group_le hfirst
    have hrest := ih hmore
    simp only [List.length_append, List.length_cons] at hrest ⊢
    omega
  | case2 => exact length_tail_le h

theorem length_decode_le {symbols bytes : Bytes} (h : decode symbols = .ok bytes) :
    bytes.length ≤ 3 * ((symbols.length + 3) / 4) := by
  unfold decode at h
  split at h
  · split at h
    · cases h
    · exact length_groups_le h
  · cases h
    simp

end TupleClient.Base64
