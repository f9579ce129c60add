import Mathlib.Order.Defs.LinearOrder
import Mathlib.Order.Lattice

/-!
# 32-bit words as a program uses them

The order on `UInt32`, the saturating and checked operations of a language
with fixed-width integers, and the little- and big-endian byte forms.  Every
operation comes with the equation that sends it to `Nat`, where `omega` takes
over.
-/

namespace Word

instance instLinearOrderUInt32 : LinearOrder UInt32 where
  le_refl _ := UInt32.le_refl _
  le_trans _ _ _ := UInt32.le_trans
  le_antisymm _ _ := UInt32.le_antisymm
  le_total := UInt32.le_total
  lt_iff_le_not_ge a b := by
    rw [UInt32.lt_iff_toNat_lt, UInt32.le_iff_toNat_le, UInt32.le_iff_toNat_le]
    omega
  toDecidableLE := inferInstance

/-- The largest 32-bit value. -/
def U32_MAX : UInt32 := 4294967295

theorem toNat_le_max (a : UInt32) : a.toNat ≤ 4294967295 := by
  have h := a.toNat_lt
  omega

/-! ## Saturating and checked arithmetic -/

def satAdd (a b : UInt32) : UInt32 :=
  if a.toNat + b.toNat ≤ 4294967295 then a + b else U32_MAX

def satSub (a b : UInt32) : UInt32 :=
  if b ≤ a then a - b else 0

def checkedAdd (a b : UInt32) : Option UInt32 :=
  if a.toNat + b.toNat ≤ 4294967295 then some (a + b) else none

def checkedSub (a b : UInt32) : Option UInt32 :=
  if b ≤ a then some (a - b) else none

theorem toNat_satAdd (a b : UInt32) :
    (satAdd a b).toNat = min (a.toNat + b.toNat) 4294967295 := by
  unfold satAdd
  split
  · rw [UInt32.toNat_add]
    omega
  · have hmax : U32_MAX.toNat = 4294967295 := by decide
    omega

theorem toNat_satSub (a b : UInt32) : (satSub a b).toNat = a.toNat - b.toNat := by
  unfold satSub
  split
  · rename_i h
    exact UInt32.toNat_sub_of_le _ _ h
  · rename_i h
    have hlt : a.toNat < b.toNat := UInt32.lt_iff_toNat_lt.mp (lt_of_not_ge h)
    simp only [UInt32.toNat_zero]
    omega

theorem checkedAdd_eq_some {a b c : UInt32} :
    checkedAdd a b = some c ↔ c.toNat = a.toNat + b.toNat := by
  unfold checkedAdd
  split
  · rename_i h
    have hadd : (a + b).toNat = a.toNat + b.toNat := by
      rw [UInt32.toNat_add]
      omega
    rw [Option.some.injEq, ← UInt32.toNat_inj, hadd]
    exact eq_comm
  · rename_i h
    have hc := toNat_le_max c
    constructor
    · intro hnone
      cases hnone
    · intro hsum
      omega

theorem checkedSub_eq_some {a b c : UInt32} :
    checkedSub a b = some c ↔ b.toNat + c.toNat = a.toNat := by
  unfold checkedSub
  split
  · rename_i h
    have hsub := UInt32.toNat_sub_of_le _ _ h
    have hle := UInt32.le_iff_toNat_le.mp h
    rw [Option.some.injEq, ← UInt32.toNat_inj, hsub]
    omega
  · rename_i h
    have hlt : a.toNat < b.toNat := UInt32.lt_iff_toNat_lt.mp (lt_of_not_ge h)
    constructor
    · intro hnone
      cases hnone
    · intro hsum
      omega

/-- Nothing lies strictly between a word and its saturating successor. -/
theorem satAdd_one_le_iff {a b : UInt32} (hmax : a ≠ U32_MAX) : satAdd a 1 ≤ b ↔ a < b := by
  have hne : a.toNat ≠ 4294967295 := by
    intro h
    exact hmax (UInt32.toNat_inj.mp h)
  have ha := toNat_le_max a
  have h1 : (1 : UInt32).toNat = 1 := by decide
  rw [UInt32.le_iff_toNat_le, toNat_satAdd, UInt32.lt_iff_toNat_lt, h1]
  omega

/-! ## Byte forms -/

/-- `u32::from_le_bytes`. -/
def ofLe (b0 b1 b2 b3 : UInt8) : UInt32 :=
  UInt32.ofNat (b0.toNat + 256 * b1.toNat + 65536 * b2.toNat + 16777216 * b3.toNat)

/-- `u32::to_le_bytes`. -/
def toLe (x : UInt32) : List UInt8 :=
  [UInt8.ofNat x.toNat, UInt8.ofNat (x.toNat / 256), UInt8.ofNat (x.toNat / 65536),
    UInt8.ofNat (x.toNat / 16777216)]

/-- `u32::from_be_bytes`. -/
def ofBe (b0 b1 b2 b3 : UInt8) : UInt32 := ofLe b3 b2 b1 b0

/-- `u32::to_be_bytes`. -/
def toBe (x : UInt32) : List UInt8 := (toLe x).reverse

theorem toNat_ofLe (b0 b1 b2 b3 : UInt8) :
    (ofLe b0 b1 b2 b3).toNat =
      b0.toNat + 256 * b1.toNat + 65536 * b2.toNat + 16777216 * b3.toNat := by
  have h0 := b0.toNat_lt
  have h1 := b1.toNat_lt
  have h2 := b2.toNat_lt
  have h3 := b3.toNat_lt
  unfold ofLe
  rw [UInt32.toNat_ofNat']
  omega

/-- Writing a word and reading it back. -/
theorem ofLe_toLe (x : UInt32) :
    ∀ b0 b1 b2 b3, toLe x = [b0, b1, b2, b3] → ofLe b0 b1 b2 b3 = x := by
  intro b0 b1 b2 b3 h
  simp only [toLe, List.cons.injEq, and_true] at h
  obtain ⟨rfl, rfl, rfl, rfl⟩ := h
  have hx := x.toNat_lt
  rw [← UInt32.toNat_inj, toNat_ofLe]
  simp only [UInt8.toNat_ofNat']
  omega

/-- Reading four bytes and writing them back. -/
theorem toLe_ofLe (b0 b1 b2 b3 : UInt8) : toLe (ofLe b0 b1 b2 b3) = [b0, b1, b2, b3] := by
  have h0 := b0.toNat_lt
  have h1 := b1.toNat_lt
  have h2 := b2.toNat_lt
  have h3 := b3.toNat_lt
  simp only [toLe, toNat_ofLe, List.cons.injEq, and_true]
  refine ⟨?_, ?_, ?_, ?_⟩ <;>
  · rw [← UInt8.toNat_inj, UInt8.toNat_ofNat']
    omega

theorem toBe_ofBe (b0 b1 b2 b3 : UInt8) : toBe (ofBe b0 b1 b2 b3) = [b0, b1, b2, b3] := by
  rw [toBe, ofBe, toLe_ofLe]
  rfl

theorem exists_toBe (x : UInt32) : ∃ b0 b1 b2 b3, toBe x = [b0, b1, b2, b3] ∧ ofBe b0 b1 b2 b3 = x :=
  ⟨_, _, _, _, rfl, ofLe_toLe x _ _ _ _ rfl⟩

/-! ## Byte forms of any width -/

/-- The value of little-endian bytes. -/
def leValue : List UInt8 → Nat
  | [] => 0
  | b :: bs => b.toNat + 256 * leValue bs

/-- The `width` little-endian bytes of `n`. -/
def leBytes : Nat → Nat → List UInt8
  | 0, _ => []
  | width + 1, n => UInt8.ofNat n :: leBytes width (n / 256)

/-- How many values `width` bytes can tell apart. -/
def leRange : Nat → Nat
  | 0 => 1
  | width + 1 => 256 * leRange width

@[simp] theorem length_leBytes (width : Nat) : ∀ n, (leBytes width n).length = width := by
  induction width with
  | zero => intro n; rfl
  | succ width ih =>
    intro n
    rw [leBytes, List.length_cons, ih]

theorem leValue_leBytes (width : Nat) : ∀ {n : Nat}, n < leRange width → leValue (leBytes width n) = n := by
  induction width with
  | zero =>
    intro n hn
    exact (Nat.lt_one_iff.mp hn).symm
  | succ width ih =>
    intro n hn
    rw [leRange] at hn
    rw [leBytes, leValue, ih (by omega), UInt8.toNat_ofNat']
    omega

end Word
