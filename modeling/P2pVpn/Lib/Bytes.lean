/-
# Numbers in digits and bytes

Numbers as big-endian digits and bytes.  Numbers that fit are the values of their bytes
(`fromBeBytes_toBeBytes`), so they are told apart by their digits and bytes (`beDigits_inj`,
`toBeBytes_inj`), and strings of one length by the number they spell (`fromBeBytes_inj`).
-/
import Mathlib.Algebra.Order.Ring.Nat
import Mathlib.Data.List.Basic
import Mathlib.Data.List.Induction

namespace P2pVpn.Lib

/-- The last `count` digits of a number, the most significant first. -/
def beDigits (base count value : ℕ) : List ℕ :=
  (List.range count).map fun i => value / base ^ (count - 1 - i) % base

/-- The last `count` bytes of a number, the most significant first. -/
def toBeBytes (count value : ℕ) : List UInt8 :=
  (List.range count).map fun i => UInt8.ofNat (value / 256 ^ (count - 1 - i))

/-- The number with the given bytes, the most significant first. -/
def fromBeBytes (bytes : List UInt8) : ℕ := bytes.foldl (fun acc byte => acc * 256 + byte.toNat) 0

/-- The bytes from one place up to another. -/
def slice (start stop : ℕ) (bytes : List UInt8) : List UInt8 := (bytes.take stop).drop start

/-! ## Digits -/

@[simp] lemma length_beDigits (base count value : ℕ) : (beDigits base count value).length = count := by
  simp [beDigits]

lemma lt_of_mem_beDigits {base count value digit : ℕ} (hbase : 0 < base)
    (h : digit ∈ beDigits base count value) : digit < base := by
  obtain ⟨i, -, rfl⟩ := List.mem_map.mp h
  exact Nat.mod_lt _ hbase

lemma beDigits_succ (base count value : ℕ) :
    beDigits base (count + 1) value = beDigits base count (value / base) ++ [value % base] := by
  unfold beDigits
  rw [List.range_succ, List.map_append]
  congr 1
  · refine List.map_congr_left fun i hi => ?_
    have hlt := List.mem_range.mp hi
    rw [Nat.div_div_eq_div_mul, ← Nat.pow_succ', show count + 1 - 1 - i = count - 1 - i + 1 by omega]
  · simp

/-- A number that fits is the value of its digits. -/
lemma foldl_beDigits {base count value : ℕ} (h : value < base ^ count) :
    (beDigits base count value).foldl (fun acc digit => acc * base + digit) 0 = value := by
  induction count generalizing value with
  | zero =>
    rw [Nat.pow_zero] at h
    obtain rfl : value = 0 := by omega
    rfl
  | succ count ih =>
    rw [Nat.pow_succ'] at h
    rw [beDigits_succ, List.foldl_append, ih (Nat.div_lt_of_lt_mul h), List.foldl_cons,
      List.foldl_nil, Nat.div_add_mod']

/-- Numbers that fit are told apart by their digits. -/
lemma beDigits_inj {base count a b : ℕ} (ha : a < base ^ count)
    (hb : b < base ^ count) (h : beDigits base count a = beDigits base count b) : a = b := by
  rw [← foldl_beDigits ha, h, foldl_beDigits hb]

/-! ## Bytes -/

@[simp] lemma length_toBeBytes (count value : ℕ) : (toBeBytes count value).length = count := by
  simp [toBeBytes]

/-- A number that fits is read back from its bytes. -/
lemma fromBeBytes_toBeBytes {count value : ℕ} (h : value < 256 ^ count) :
    fromBeBytes (toBeBytes count value) = value := by
  have hdigits : (toBeBytes count value).map UInt8.toNat = beDigits 256 count value := by
    simp [beDigits, toBeBytes]
  have hvalue := foldl_beDigits h
  rwa [← hdigits, List.foldl_map] at hvalue

/-- Numbers that fit are told apart by their bytes. -/
lemma fromBeBytes_concat (bytes : List UInt8) (byte : UInt8) :
    fromBeBytes (bytes ++ [byte]) = fromBeBytes bytes * 256 + byte.toNat := by
  simp [fromBeBytes]

lemma fromBeBytes_lt (bytes : List UInt8) : fromBeBytes bytes < 256 ^ bytes.length := by
  induction bytes using List.reverseRecOn with
  | nil => exact Nat.one_pos
  | append_singleton bytes byte ih =>
    have hbyte := byte.toNat_lt
    rw [fromBeBytes_concat, List.length_append, List.length_singleton, Nat.pow_succ]
    omega

/-- Strings of one length are told apart by the number they spell. -/
lemma fromBeBytes_inj {a b : List UInt8} (hlength : a.length = b.length)
    (h : fromBeBytes a = fromBeBytes b) : a = b := by
  induction a using List.reverseRecOn generalizing b with
  | nil => exact (List.length_eq_zero_iff.mp hlength.symm).symm
  | append_singleton a x ih =>
    rcases List.eq_nil_or_concat b with rfl | ⟨b, y, rfl⟩
    · simp at hlength
    · have hx := x.toNat_lt
      have hy := y.toNat_lt
      rw [List.concat_eq_append] at h hlength ⊢
      rw [fromBeBytes_concat, fromBeBytes_concat] at h
      rw [ih (by simpa using hlength) (by omega), UInt8.toNat_inj.mp (by omega : x.toNat = y.toNat)]

lemma toBeBytes_inj {count a b : ℕ} (ha : a < 256 ^ count) (hb : b < 256 ^ count)
    (h : toBeBytes count a = toBeBytes count b) : a = b := by
  rw [← fromBeBytes_toBeBytes ha, h, fromBeBytes_toBeBytes hb]

/-! Words are read back from their bytes. -/

@[simp] lemma uint16_fromBeBytes (n : UInt16) :
    UInt16.ofNat (fromBeBytes (toBeBytes 2 n.toNat)) = n := by
  have hlt : n.toNat < 256 ^ 2 := n.toNat_lt
  rw [fromBeBytes_toBeBytes hlt, UInt16.ofNat_toNat]

@[simp] lemma uint32_fromBeBytes (n : UInt32) :
    UInt32.ofNat (fromBeBytes (toBeBytes 4 n.toNat)) = n := by
  have hlt : n.toNat < 256 ^ 4 := n.toNat_lt
  rw [fromBeBytes_toBeBytes hlt, UInt32.ofNat_toNat]

@[simp] lemma uint64_fromBeBytes (n : UInt64) :
    UInt64.ofNat (fromBeBytes (toBeBytes 8 n.toNat)) = n := by
  have hlt : n.toNat < 256 ^ 8 := n.toNat_lt
  rw [fromBeBytes_toBeBytes hlt, UInt64.ofNat_toNat]

lemma slice_append {start stop : ℕ} {before bytes : List UInt8} (after : List UInt8)
    (hstart : before.length = start) (hstop : start + bytes.length = stop) :
    slice start stop (before ++ (bytes ++ after)) = bytes := by
  subst hstart hstop
  rw [slice, ← List.append_assoc, ← List.length_append, List.take_left, List.drop_left]

/-- A string ends where a mark that it does not have comes first. -/
lemma append_cons_inj {α : Type} {a a' b b' : List α} {mark : α} (ha : mark ∉ a) (ha' : mark ∉ a')
    (h : a ++ mark :: b = a' ++ mark :: b') : a = a' ∧ b = b' := by
  induction a generalizing a' with
  | nil =>
    cases a' with
    | nil => exact ⟨rfl, (List.cons.inj h).2⟩
    | cons byte a' => exact absurd (List.mem_cons.mpr (.inl (List.cons.inj h).1)) ha'
  | cons byte a ih =>
    cases a' with
    | nil => exact absurd (List.mem_cons.mpr (.inl (List.cons.inj h).1.symm)) ha
    | cons byte' a' =>
      obtain ⟨rfl, hrest⟩ := List.cons.inj h
      obtain ⟨rfl, rfl⟩ := ih (fun hm => ha (List.mem_cons_of_mem _ hm))
        (fun hm => ha' (List.mem_cons_of_mem _ hm)) hrest
      exact ⟨rfl, rfl⟩

end P2pVpn.Lib
