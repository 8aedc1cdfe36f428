import Mathlib.Data.List.Basic
import Mathlib.Data.Nat.ModEq
import Mathlib.Tactic.Common
import Mathlib.Tactic.Ring

/-!
# Byte memories

A memory gives every address a byte.  The file has block reads and writes with their frame lemmas,
little-endian 32-bit words, and the arithmetic of addressing a memory of `c` bytes by an absolute
cursor modulo `c`: cursors less than `c` apart address different bytes, and a block that does not
cross the end of the memory is addressed contiguously.
-/

namespace ByteMemory

/-- A byte for every address. -/
abbrev Memory := ℕ → UInt8

/-- The `n` bytes from address `a`. -/
def read (m : Memory) (a n : ℕ) : List UInt8 := (List.range n).map fun i => m (a + i)

/-- Overwrite the bytes from address `a` by `bs`. -/
def write (m : Memory) (a : ℕ) (bs : List UInt8) : Memory := fun x =>
  if a ≤ x then (bs[x - a]?).getD (m x) else m x

@[simp] theorem length_read (m : Memory) (a n : ℕ) : (read m a n).length = n := by
  simp [read]

theorem write_apply_of_lt (m : Memory) {a x : ℕ} (bs : List UInt8) (h : x < a) :
    write m a bs x = m x := by
  simp [write, Nat.not_le.2 h]

theorem write_apply_of_ge (m : Memory) {a x : ℕ} (bs : List UInt8) (h : a + bs.length ≤ x) :
    write m a bs x = m x := by
  have hlen : bs.length ≤ x - a := by omega
  simp [write, List.getElem?_eq_none hlen]

theorem write_apply_add (m : Memory) (a i : ℕ) (bs : List UInt8) (h : i < bs.length) :
    write m a bs (a + i) = bs[i] := by
  simp [write, h]

/-- A write changes only the addresses of its block. -/
theorem write_apply_of_ne (m : Memory) {a x : ℕ} (bs : List UInt8)
    (h : ∀ i, i < bs.length → x ≠ a + i) : write m a bs x = m x := by
  by_cases hx : a ≤ x ∧ x < a + bs.length
  · exact absurd (by omega) (h (x - a) (by omega))
  · by_cases hlt : x < a
    · exact write_apply_of_lt m bs hlt
    · exact write_apply_of_ge m bs (by omega)

theorem read_congr {m m' : Memory} {a n : ℕ} (h : ∀ i, i < n → m' (a + i) = m (a + i)) :
    read m' a n = read m a n := by
  apply List.map_congr_left
  intro i hi
  exact h i (List.mem_range.1 hi)

theorem read_write_self (m : Memory) (a : ℕ) (bs : List UInt8) :
    read (write m a bs) a bs.length = bs := by
  apply List.ext_getElem
  · simp
  · intro i _ hi
    simp only [read, List.getElem_map, List.getElem_range]
    exact write_apply_add m a i bs hi

/-! ## Little-endian words -/

/-- The four bytes of a 32-bit word, least significant first. -/
def le32 (n : ℕ) : List UInt8 :=
  [UInt8.ofNat n, UInt8.ofNat (n / 2 ^ 8), UInt8.ofNat (n / 2 ^ 16), UInt8.ofNat (n / 2 ^ 24)]

/-- The word at address `a`. -/
def readWord (m : Memory) (a : ℕ) : ℕ :=
  (m a).toNat + (m (a + 1)).toNat * 2 ^ 8 + (m (a + 2)).toNat * 2 ^ 16 + (m (a + 3)).toNat * 2 ^ 24

@[simp] theorem length_le32 (n : ℕ) : (le32 n).length = 4 := rfl

theorem readWord_lt (m : Memory) (a : ℕ) : readWord m a < 2 ^ 32 := by
  have h0 := (m a).toNat_lt
  have h1 := (m (a + 1)).toNat_lt
  have h2 := (m (a + 2)).toNat_lt
  have h3 := (m (a + 3)).toNat_lt
  unfold readWord
  omega

theorem readWord_congr {m m' : Memory} {a : ℕ} (h : ∀ i, i < 4 → m' (a + i) = m (a + i)) :
    readWord m' a = readWord m a := by
  have h0 := h 0 (by decide)
  have h1 := h 1 (by decide)
  have h2 := h 2 (by decide)
  have h3 := h 3 (by decide)
  simp only [Nat.add_zero] at h0
  simp only [readWord, h0, h1, h2, h3]

/-- A stored word reads back. -/
theorem readWord_write_le32 (m : Memory) (a : ℕ) {n : ℕ} (h : n < 2 ^ 32) :
    readWord (write m a (le32 n)) a = n := by
  have e0 : write m a (le32 n) a = UInt8.ofNat n := write_apply_add m a 0 (le32 n) (by simp)
  have e1 : write m a (le32 n) (a + 1) = UInt8.ofNat (n / 2 ^ 8) :=
    write_apply_add m a 1 (le32 n) (by simp)
  have e2 : write m a (le32 n) (a + 2) = UInt8.ofNat (n / 2 ^ 16) :=
    write_apply_add m a 2 (le32 n) (by simp)
  have e3 : write m a (le32 n) (a + 3) = UInt8.ofNat (n / 2 ^ 24) :=
    write_apply_add m a 3 (le32 n) (by simp)
  rw [readWord, e0, e1, e2, e3]
  simp only [UInt8.toNat_ofNat']
  omega

theorem readWord_write_disjoint (m : Memory) {a b : ℕ} (bs : List UInt8)
    (h : b + 4 ≤ a ∨ a + bs.length ≤ b) : readWord (write m a bs) b = readWord m b := by
  apply readWord_congr
  intro i hi
  rcases h with h | h
  · exact write_apply_of_lt m bs (by omega)
  · exact write_apply_of_ge m bs (by omega)

/-! ## Circular addressing -/

/-- Different cursors less than `c` apart address different bytes. -/
theorem mod_ne_mod_of_lt {c x y : ℕ} (hxy : x < y) (hc : y < x + c) : x % c ≠ y % c := by
  intro h
  have hd : c ∣ y - x := (Nat.modEq_iff_dvd' hxy.le).1 h
  have := Nat.le_of_dvd (by omega) hd
  omega

/-- Inside a block that does not cross the end of the memory, addresses are contiguous. -/
theorem add_mod_of_lt {c x i : ℕ} (h : x % c + i < c) : (x + i) % c = x % c + i := by
  rw [Nat.add_mod, Nat.mod_eq_of_lt (show i < c by omega), Nat.mod_eq_of_lt h]

/-- The cursor at the end of the current lap addresses the start of the memory. -/
theorem add_sub_mod {c : ℕ} (hc : 0 < c) (x : ℕ) : (x + (c - x % c)) % c = 0 := by
  have hlt := Nat.mod_lt x hc
  have hx := Nat.div_add_mod x c
  have e : x + (c - x % c) = c * (x / c + 1) := by
    rw [Nat.mul_add, Nat.mul_one]
    omega
  rw [e]
  exact Nat.mul_mod_right c _

end ByteMemory
