import Mathlib.Data.Nat.Basic
import Mathlib.Tactic.Ring
import TupleClient.Wire.Decoding

/-!
Numbers of a fixed width survive being written and read back, whatever follows them.
-/
namespace TupleClient.Bytes

theorem limit_succ (width : Nat) : limit (width + 1) = 256 * limit width := by
  simp only [limit, Nat.pow_eq, Nat.pow_succ]
  exact Nat.mul_comm _ _

theorem limit_pos (width : Nat) : 0 < limit width := Nat.pow_pos (by decide)

theorem toNatFrom_eq (high : Nat) (bs : Bytes) :
    toNatFrom high bs = high * limit bs.length + bs.toNat := by
  induction bs generalizing high with
  | nil => simp [toNatFrom, toNat, limit]
  | cons b bs ih =>
    have h0 : toNat (b :: bs) = (256 * 0 + b.toNat) * limit bs.length + toNat bs := ih _
    rw [toNatFrom, ih, h0, List.length_cons, limit_succ]
    ring

theorem toNat_cons (b : UInt8) (bs : Bytes) :
    toNat (b :: bs) = b.toNat * limit bs.length + bs.toNat := by
  have h := toNatFrom_eq (256 * 0 + b.toNat) bs
  simpa [toNat, toNatFrom] using h

/-- Only the last `width` digits are kept. -/
theorem toNat_ofNat_mod (width n : Nat) : toNat (ofNat width n) = n % limit width := by
  induction width generalizing n with
  | zero => simp [ofNat, toNat, toNatFrom, limit, Nat.mod_one]
  | succ width ih =>
    have hdigit : (UInt8.ofNat (n / limit width)).toNat = n / limit width % 256 := by
      simp [UInt8.toNat_ofNat']
    rw [ofNat, toNat_cons, ih, hdigit, length_ofNat, limit_succ, Nat.mul_comm 256,
      Nat.mod_mul, Nat.mul_comm (limit width), Nat.add_comm]

theorem toNat_ofNat {width n : Nat} (h : n < limit width) : toNat (ofNat width n) = n := by
  rw [toNat_ofNat_mod, Nat.mod_eq_of_lt h]

theorem ofInt_of_nonneg {width : Nat} {i : Int} (h0 : 0 ≤ i) (h : i < limit width) :
    ofInt width i = ofNat width i.toNat := by
  rw [ofInt, Int.emod_eq_of_lt h0 h]

theorem toNat_ofInt_of_neg {width : Nat} {i : Int} (h0 : i < 0) (h : -(limit width : Int) ≤ i) :
    ((ofInt width i).toNat : Int) = i + limit width := by
  have hpos := limit_pos width
  have hmod : i % (limit width : Int) = i + limit width := by
    rw [← Int.add_emod_right, Int.emod_eq_of_lt (by omega) (by omega)]
  have hlt : (i + limit width).toNat < limit width := by omega
  rw [ofInt, hmod, toNat_ofNat hlt]
  omega

theorem toInt_ofInt {width : Nat} {i : Int} (hlo : -(limit width : Int) ≤ 2 * i)
    (hhi : 2 * i < limit width) : toInt (ofInt width i) = i := by
  simp only [toInt, length_ofInt]
  by_cases h0 : 0 ≤ i
  · have hn : (ofInt width i).toNat = i.toNat := by
      rw [ofInt_of_nonneg h0 (by omega), toNat_ofNat (by omega)]
    rw [if_pos (by omega), hn]
    omega
  · have hn : ((ofInt width i).toNat : Int) = i + limit width :=
      toNat_ofInt_of_neg (by omega) (by omega)
    rw [if_neg (by omega), hn]
    omega

theorem toNat_lt_limit (bs : Bytes) : bs.toNat < limit bs.length := by
  induction bs with
  | nil => decide
  | cons b bs ih =>
    have hb := b.toNat_lt
    rw [toNat_cons, List.length_cons, limit_succ]
    calc b.toNat * limit bs.length + toNat bs < (b.toNat + 1) * limit bs.length := by
          rw [Nat.add_mul, Nat.one_mul]
          exact Nat.add_lt_add_left ih _
      _ ≤ 256 * limit bs.length := Nat.mul_le_mul_right _ hb

theorem ofNat_toNat_mod (bs : Bytes) (high : Nat) :
    ofNat bs.length (high * limit bs.length + bs.toNat) = bs := by
  induction bs generalizing high with
  | nil => rfl
  | cons b bs ih =>
    have hlt := toNat_lt_limit bs
    have hpos := limit_pos bs.length
    have hsum : high * limit (bs.length + 1) + (b.toNat * limit bs.length + toNat bs) =
        (high * 256 + b.toNat) * limit bs.length + toNat bs := by
      rw [limit_succ]
      ring
    have hdigit : ((high * 256 + b.toNat) * limit bs.length + toNat bs) / limit bs.length =
        high * 256 + b.toNat := by
      rw [Nat.mul_comm, Nat.mul_add_div hpos, Nat.div_eq_of_lt hlt, Nat.add_zero]
    have hbyte : UInt8.ofNat (high * 256 + b.toNat) = b := by
      apply UInt8.toNat_inj.1
      have hb := b.toNat_lt
      rw [UInt8.toNat_ofNat']
      omega
    rw [toNat_cons, List.length_cons, hsum, ofNat, hdigit, hbyte, ih]

theorem ofNat_toNat (bs : Bytes) : ofNat bs.length bs.toNat = bs := by
  have h := ofNat_toNat_mod bs 0
  rwa [Nat.zero_mul, Nat.zero_add] at h

theorem toInt_bounds (bs : Bytes) :
    -(limit bs.length : Int) ≤ 2 * bs.toInt ∧ 2 * bs.toInt < limit bs.length := by
  have hlt := toNat_lt_limit bs
  unfold toInt
  split <;> omega

theorem ofInt_toInt (bs : Bytes) : ofInt bs.length bs.toInt = bs := by
  have hlt := toNat_lt_limit bs
  have hmod : bs.toInt % (limit bs.length : Int) = bs.toNat := by
    unfold toInt
    split
    · exact Int.emod_eq_of_lt (by omega) (by omega)
    · rw [← Int.add_emod_right, Int.sub_add_cancel]
      exact Int.emod_eq_of_lt (by omega) (by omega)
  rw [ofInt, hmod, Int.toNat_natCast, ofNat_toNat]

theorem ofText_of_toText? {bs : Bytes} {s : String} (h : bs.toText? = some s) : ofText s = bs := by
  unfold toText? String.fromUTF8? at h
  split at h
  · cases h
    simp [ofText, String.toUTF8, String.fromUTF8]
  · cases h

theorem split?_append (bs rest : Bytes) : split? bs.length (bs ++ rest) = some (bs, rest) := by
  simp [split?_eq]

theorem split?_eq_some {n : Nat} {bs taken rest : Bytes} (h : split? n bs = some (taken, rest)) :
    bs = taken ++ rest ∧ taken.length = n := by
  rw [split?_eq] at h
  split at h
  · rename_i hn
    obtain ⟨rfl, rfl⟩ := Prod.mk.inj (Option.some.inj h)
    exact ⟨(List.take_append_drop n bs).symm, List.length_take_of_le hn⟩
  · cases h

theorem split?_more {n : Nat} {bs taken rest : Bytes} (h : split? n bs = some (taken, rest))
    (more : Bytes) : split? n (bs ++ more) = some (taken, rest ++ more) := by
  obtain ⟨rfl, rfl⟩ := split?_eq_some h
  rw [List.append_assoc, split?_append]

end TupleClient.Bytes

namespace TupleClient.Wire

theorem take_append (bs rest : Bytes) : take bs.length (bs ++ rest) = .ok (bs, rest) := by
  simp [take, Bytes.split?_append]

theorem take_of_length {n : Nat} {bs : Bytes} (h : bs.length = n) (rest : Bytes) :
    take n (bs ++ rest) = .ok (bs, rest) := by
  rw [← h, take_append]

theorem take_eq_ok {n : Nat} {bs xs rest : Bytes} (h : take n bs = .ok (xs, rest)) :
    bs = xs ++ rest ∧ xs.length = n := by
  unfold take at h
  split at h
  · rename_i split hsplit
    cases h
    exact Bytes.split?_eq_some hsplit
  · cases h

theorem readNat_append {width n : Nat} (h : n < Bytes.limit width) (rest : Bytes) :
    readNat width (Bytes.ofNat width n ++ rest) = .ok (n, rest) := by
  rw [readNat, take_of_length (Bytes.length_ofNat width n)]
  simp only [bind, Except.bind, Bytes.toNat_ofNat h]

theorem ensure_of_le {n : Nat} {bs : Bytes} (h : n ≤ bs.length) : ensure n bs = .ok () := by
  simp [ensure, Bytes.hasAtLeast_eq, h]

end TupleClient.Wire
