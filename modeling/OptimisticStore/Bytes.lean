import OptimisticStore.Inspect

/-! Keys, values and raw rows are finite byte strings, ordered byte by byte with a proper
initial part first. A number is kept in a cell of fixed width, most significant byte first;
among numbers that fit, the order of the cells is the order of the numbers. -/

namespace OptimisticStore

abbrev Bytes := List UInt8

namespace Bytes

instance : Std.LawfulOrderLT Bytes := inferInstance

def inspect (b : Bytes) : String := Inspect.sequence (b.map fun x => x.toNat.repr)

/-- How many numbers `width` digits to base 256 can hold. -/
def capacity : (width : Nat) → Nat
  | 0 => 1
  | width + 1 => capacity width * 256

@[simp] theorem capacity_zero : capacity 0 = 1 := rfl

theorem capacity_succ (width : Nat) : capacity (width + 1) = capacity width * 256 := rfl

theorem capacity_pos (width : Nat) : 0 < capacity width := by
  induction width with
  | zero => exact Nat.one_pos
  | succ width ih => exact Nat.mul_pos ih (by decide)

/-- The `width` low digits of `n` to base 256, most significant first. -/
def ofNat : (width n : Nat) → Bytes
  | 0, _ => []
  | width + 1, n => UInt8.ofNat (n / capacity width) :: ofNat width n

def toNat (b : Bytes) : Nat := b.foldl (fun n x => n * 256 + x.toNat) 0

@[simp] theorem length_ofNat (width n : Nat) : (ofNat width n).length = width := by
  induction width with
  | zero => rfl
  | succ width ih => simp [ofNat, ih]

private theorem foldl_digits (b : Bytes) (n : Nat) :
    b.foldl (fun n x => n * 256 + x.toNat) n = n * capacity b.length + toNat b := by
  induction b generalizing n with
  | nil => simp [toNat]
  | cons x b ih =>
    have alone : toNat (x :: b) = x.toNat * capacity b.length + toNat b := by
      simpa [toNat] using ih (0 * 256 + x.toNat)
    rw [List.foldl_cons, ih, alone, List.length_cons, capacity_succ, Nat.add_mul, Nat.mul_assoc,
      Nat.mul_comm (capacity b.length) 256]
    omega

theorem toNat_cons (x : UInt8) (b : Bytes) :
    toNat (x :: b) = x.toNat * capacity b.length + toNat b := by
  rw [toNat, List.foldl_cons, foldl_digits]
  simp

theorem toNat_lt (b : Bytes) : toNat b < capacity b.length := by
  induction b with
  | nil => simp [toNat]
  | cons x b ih =>
    have hx : x.toNat + 1 ≤ 256 := x.toNat_lt
    have h := Nat.mul_le_mul_right (capacity b.length) hx
    rw [Nat.add_mul] at h
    rw [toNat_cons, List.length_cons, capacity_succ, Nat.mul_comm (capacity b.length) 256]
    omega

theorem toNat_ofNat (width n : Nat) : toNat (ofNat width n) = n % capacity width := by
  induction width with
  | zero => simp [ofNat, toNat, Nat.mod_one]
  | succ width ih =>
    rw [ofNat, toNat_cons, length_ofNat, ih, capacity_succ, Nat.mod_mul, UInt8.toNat_ofNat']
    rw [Nat.mul_comm (capacity width), Nat.add_comm]

theorem ofNat_mul_add (width k n : Nat) :
    ofNat width (k * capacity width + n) = ofNat width n := by
  induction width generalizing k with
  | zero => rfl
  | succ width ih =>
    have split : k * capacity (width + 1) = k * 256 * capacity width := by
      rw [capacity_succ, Nat.mul_comm (capacity width), Nat.mul_assoc]
    rw [split, ofNat, ofNat, ih, Nat.add_comm, Nat.add_mul_div_right _ _ (capacity_pos _)]
    congr 1
    apply UInt8.toNat_inj.1
    simp [UInt8.toNat_ofNat']

theorem ofNat_toNat (b : Bytes) : ofNat b.length (toNat b) = b := by
  induction b with
  | nil => rfl
  | cons x b ih =>
    have hb := toNat_lt b
    have pos : 0 < capacity b.length := capacity_pos _
    rw [toNat_cons, List.length_cons, ofNat, ofNat_mul_add, ih]
    congr 1
    apply UInt8.toNat_inj.1
    rw [UInt8.toNat_ofNat', Nat.add_comm, Nat.add_mul_div_right _ _ pos, Nat.div_eq_of_lt hb]
    simp

theorem toNat_ofNat_of_lt {width n : Nat} (h : n < capacity width) : toNat (ofNat width n) = n := by
  rw [toNat_ofNat, Nat.mod_eq_of_lt h]

/-- Numbers that fit compare as their cells do. -/
theorem ofNat_lt_ofNat_iff {width m n : Nat} (hm : m < capacity width) (hn : n < capacity width) :
    ofNat width m < ofNat width n ↔ m < n := by
  induction width generalizing m n with
  | zero => simp at hm hn; simp [ofNat, hm, hn]
  | succ width ih =>
    have pos : 0 < capacity width := capacity_pos _
    rw [capacity_succ] at hm hn
    have head {k : Nat} (hk : k < capacity width * 256) :
        (UInt8.ofNat (k / capacity width)).toNat = k / capacity width := by
      rw [UInt8.toNat_ofNat', Nat.mod_eq_of_lt ((Nat.div_lt_iff_lt_mul pos).2 (by omega))]
    have tail (k : Nat) : ofNat width k = ofNat width (k % capacity width) := by
      conv => lhs; rw [← Nat.div_add_mod' k (capacity width)]
      exact ofNat_mul_add ..
    have hmod (k : Nat) : k % capacity width < capacity width := Nat.mod_lt _ pos
    rw [ofNat, ofNat, List.cons_lt_cons_iff, UInt8.lt_iff_toNat_lt, ← UInt8.toNat_inj,
      head hm, head hn, tail m, tail n, ih (hmod m) (hmod n)]
    have em := Nat.div_add_mod' m (capacity width)
    have en := Nat.div_add_mod' n (capacity width)
    constructor
    · rintro (lt | ⟨eq, lt⟩)
      · have := Nat.mul_le_mul_right (capacity width) lt
        have := hmod m
        rw [Nat.succ_mul] at *
        omega
      · rw [eq] at em
        omega
    · intro lt
      rcases Nat.lt_trichotomy (m / capacity width) (n / capacity width) with h | h | h
      · exact .inl h
      · rw [h] at em
        exact .inr ⟨h, by omega⟩
      · have := Nat.div_le_div_right (c := capacity width) (Nat.le_of_lt lt)
        omega

end Bytes
end OptimisticStore
