import Mathlib.Data.Vector.Basic
import Mathlib.Tactic

set_option autoImplicit false

/-!
# Fixed-width byte strings

Big-endian and little-endian integers of a given width, blocks of a given length, and the buffer
operations a codec is written with.
-/
namespace Mst5Client.ByteOrder

abbrev Bytes := List UInt8

abbrev Block (n : ℕ) := List.Vector UInt8 n

def beBytes : ℕ → ℕ → Bytes
  | 0, _ => []
  | k + 1, n => UInt8.ofNat (n / 256 ^ k) :: beBytes k n

def leBytes (k n : ℕ) : Bytes := (beBytes k n).reverse

def ofBe (bs : Bytes) : ℕ := bs.foldl (fun n b => n * 256 + b.toNat) 0

@[simp] theorem beBytes_length (k n : ℕ) : (beBytes k n).length = k := by
  induction k with
  | zero => rfl
  | succ k ih => simp [beBytes, ih]

@[simp] theorem block_length {n : ℕ} (b : Block n) : b.toList.length = n := b.toList_length

theorem foldl_shift (bs : Bytes) (a : ℕ) :
    bs.foldl (fun n b => n * 256 + b.toNat) a = a * 256 ^ bs.length + ofBe bs := by
  induction bs generalizing a with
  | nil => simp [ofBe]
  | cons b bs ih =>
    have hb := ih b.toNat
    simp only [ofBe, List.foldl_cons, List.length_cons, Nat.zero_mul, Nat.zero_add] at hb ⊢
    rw [ih, hb, ofBe]
    ring

theorem ofBe_cons (b : UInt8) (bs : Bytes) :
    ofBe (b :: bs) = b.toNat * 256 ^ bs.length + ofBe bs := by
  have h := foldl_shift bs b.toNat
  simpa only [ofBe, List.foldl_cons, Nat.zero_mul, Nat.zero_add] using h

theorem ofBe_lt (bs : Bytes) : ofBe bs < 256 ^ bs.length := by
  induction bs with
  | nil => simp [ofBe]
  | cons b bs ih =>
    rw [ofBe_cons, List.length_cons, pow_succ]
    have hb : b.toNat < 256 := b.toNat_lt
    have hm := Nat.mul_le_mul_right (256 ^ bs.length) (Nat.le_of_lt_succ hb)
    have hs : 255 * 256 ^ bs.length + 256 ^ bs.length = 256 ^ bs.length * 256 := by ring
    omega

theorem ofBe_beBytes (k n : ℕ) : ofBe (beBytes k n) = n % 256 ^ k := by
  induction k with
  | zero => simp [beBytes, ofBe, Nat.mod_one]
  | succ k ih =>
    rw [beBytes, ofBe_cons, beBytes_length, ih]
    have hb : (UInt8.ofNat (n / 256 ^ k)).toNat = n / 256 ^ k % 256 := by simp
    rw [hb, pow_succ, Nat.mod_mul]
    ring

theorem ofBe_beBytes_of_lt {k n : ℕ} (h : n < 256 ^ k) : ofBe (beBytes k n) = n := by
  rw [ofBe_beBytes, Nat.mod_eq_of_lt h]

theorem beBytes_mod (k n : ℕ) : beBytes k (n % 256 ^ k) = beBytes k n := by
  induction k generalizing n with
  | zero => rfl
  | succ k ih =>
    have hlow : n % 256 ^ (k + 1) % 256 ^ k = n % 256 ^ k :=
      Nat.mod_mod_of_dvd n (pow_dvd_pow 256 (Nat.le_succ k))
    have hhigh : n % 256 ^ (k + 1) / 256 ^ k = n / 256 ^ k % 256 := by
      rw [pow_succ, Nat.mod_mul_right_div_self]
    rw [beBytes, beBytes, ← ih (n % 256 ^ (k + 1)), hlow, ih, hhigh]
    congr 1
    apply UInt8.toNat_inj.mp
    simp

theorem beBytes_ofBe (bs : Bytes) : beBytes bs.length (ofBe bs) = bs := by
  induction bs with
  | nil => rfl
  | cons b bs ih =>
    have hlt := ofBe_lt bs
    have hpos : 0 < 256 ^ bs.length := by positivity
    have hhigh : ofBe (b :: bs) / 256 ^ bs.length = b.toNat := by
      rw [ofBe_cons, Nat.add_comm, Nat.add_mul_div_right _ _ hpos, Nat.div_eq_of_lt hlt]
      omega
    have hlow : ofBe (b :: bs) % 256 ^ bs.length = ofBe bs := by
      rw [ofBe_cons, Nat.mul_add_mod_of_lt hlt]
    rw [List.length_cons, beBytes, hhigh, ← beBytes_mod, hlow, ih]
    simp

theorem beBytes_injective {k m n : ℕ} (hm : m < 256 ^ k) (hn : n < 256 ^ k)
    (h : beBytes k m = beBytes k n) : m = n := by
  rw [← ofBe_beBytes_of_lt hm, h, ofBe_beBytes_of_lt hn]

theorem leBytes_injective {k m n : ℕ} (hm : m < 256 ^ k) (hn : n < 256 ^ k)
    (h : leBytes k m = leBytes k n) : m = n :=
  beBytes_injective hm hn (List.reverse_injective h)

def copyAt (buffer : Bytes) (offset : ℕ) (source : Bytes) : Bytes :=
  buffer.take offset ++ source ++ buffer.drop (offset + source.length)

def clear (_ : Bytes) : Bytes := []

def resize (buffer : Bytes) (n : ℕ) : Bytes :=
  buffer.take n ++ List.replicate (n - buffer.length) 0

@[simp] theorem resize_length (buffer : Bytes) (n : ℕ) : (resize buffer n).length = n := by
  simp only [resize, List.length_append, List.length_take, List.length_replicate]
  omega

def blockOf (n : ℕ) (bs : Bytes) : Block n := ⟨resize bs n, resize_length bs n⟩

theorem toList_blockOf {n : ℕ} {bs : Bytes} (h : bs.length = n) : (blockOf n bs).toList = bs := by
  change resize bs n = bs
  rw [resize, List.take_of_length_le h.le, h, Nat.sub_self, List.replicate_zero, List.append_nil]

theorem blockOf_toList {n : ℕ} (b : Block n) : blockOf n b.toList = b := by
  apply List.Vector.toList_injective
  rw [toList_blockOf (block_length b)]

end Mst5Client.ByteOrder
