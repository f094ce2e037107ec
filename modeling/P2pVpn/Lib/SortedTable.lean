/-
# Sorted tables

A list whose entries are strictly increasing in a key serves as a table: entries are found by
binary search, and an entry is put in by replacing the one with its key or by inserting it where
the search ended.  The search is the halving loop of the standard library; on a sorted list it
splits the list at the key (`binarySearch_cases`), and everything about tables follows from that.
`forWithLast` is the loop that checks a list for being such a table.
-/
import Mathlib.Data.List.Basic
import Mathlib.Order.Basic
import P2pVpn.Lib.Except

namespace P2pVpn.Lib

variable {α κ : Type} [LinearOrder κ]

section Definitions

variable (key : α → κ)

/-- The halving loop: the position at which a search for `x` among `size` entries from `base`
on ends.  `fuel` bounds the number of turns. -/
def searchFrom (l : List α) (x : κ) : (fuel base size : ℕ) → ℕ
  | 0, base, _ => base
  | fuel + 1, base, size =>
      if size ≤ 1 then base
      else
        searchFrom l x fuel (if (l[base + size / 2]?).any (fun a => x < key a) then base
          else base + size / 2) (size - size / 2)

/-- `slice::binary_search_by`: the position of the entry with key `x`, or the position where such
an entry belongs. -/
def binarySearch (l : List α) (x : κ) : Except ℕ ℕ :=
  match l[searchFrom key l x l.length 0 l.length]? with
  | none => .error 0
  | some a =>
      if key a = x then .ok (searchFrom key l x l.length 0 l.length)
      else if key a < x then .error (searchFrom key l x l.length 0 l.length + 1)
      else .error (searchFrom key l x l.length 0 l.length)

/-- The entry with a given key. -/
def lookup (l : List α) (x : κ) : Option α :=
  match binarySearch key l x with
  | .ok index => l[index]?
  | .error _ => none

/-- Put an entry into a table; `combine` decides about an entry that has its key already. -/
def upsert (combine : α → α → α) (l : List α) (a : α) : List α :=
  match binarySearch key l (key a) with
  | .ok index => l.modify index fun old => combine old a
  | .error index => l.insertIdx index a

/-- The keys increase. -/
def Sorted (l : List α) : Prop := l.Pairwise fun a b => key a < key b

/-- A loop over a list whose body sees the key of the entry before. -/
def forWithLast {ε : Type} (body : Option κ → α → Except ε Unit) :
    Option κ → List α → Except ε Unit
  | _, [] => .ok ()
  | last, a :: rest => do
      body last a
      forWithLast body (some (key a)) rest

end Definitions

variable {key : α → κ} {l : List α}

/-- A loop whose body checks each entry and that its key is greater than the one before accepts
exactly the sorted lists of good entries. -/
lemma forWithLast_eq_ok {ε : Type} {body : Option κ → α → Except ε Unit} {P : α → Prop}
    (hbody : ∀ last a, body last a = .ok () ↔ P a ∧ ∀ x ∈ last, x < key a) {last : Option κ} :
    forWithLast key body last l = .ok () ↔
      (∀ a ∈ l, P a) ∧ Sorted key l ∧ ∀ x ∈ last, ∀ a ∈ l, x < key a := by
  induction l generalizing last with
  | nil => simp [forWithLast, Sorted]
  | cons a rest ih =>
    rw [forWithLast, bind_eq_ok]
    constructor
    · rintro ⟨⟨⟩, ha, hrest⟩
      obtain ⟨hP, hlast⟩ := (hbody last a).mp ha
      obtain ⟨hall, hsorted, hfirst⟩ := ih.mp hrest
      have hlt : ∀ b ∈ rest, key a < key b := hfirst (key a) rfl
      refine ⟨List.forall_mem_cons.mpr ⟨hP, hall⟩, List.pairwise_cons.mpr ⟨hlt, hsorted⟩, ?_⟩
      intro x hx
      exact List.forall_mem_cons.mpr ⟨hlast x hx, fun b hb => (hlast x hx).trans (hlt b hb)⟩
    · rintro ⟨hall, hsorted, hfirst⟩
      obtain ⟨hP, hall⟩ := List.forall_mem_cons.mp hall
      obtain ⟨hlt, hsorted⟩ := List.pairwise_cons.mp hsorted
      refine ⟨(), (hbody last a).mpr ⟨hP, fun x hx => hfirst x hx a List.mem_cons_self⟩, ?_⟩
      refine ih.mpr ⟨hall, hsorted, fun x hx => ?_⟩
      obtain rfl : key a = x := by simpa using hx
      exact hlt

/-! ## Sorted lists -/

/-- Keys of a sorted list do not repeat. -/
lemma Sorted.nodup_map (hl : Sorted key l) : (l.map key).Nodup :=
  List.pairwise_map.mpr (hl.imp fun h => h.ne)

/-- Sorted lists with the same entries are equal. -/
lemma Sorted.ext (hl : Sorted key l) {l' : List α} (hl' : Sorted key l')
    (h : ∀ a, a ∈ l ↔ a ∈ l') : l = l' := by
  have hnodup : ∀ {l : List α}, Sorted key l → l.Nodup := fun hl =>
    hl.imp fun hlt heq => hlt.ne (congrArg key heq)
  have hperm : l.Perm l' := (List.perm_ext_iff_of_nodup (hnodup hl) (hnodup hl')).mpr h
  exact hperm.eq_of_pairwise (fun _ _ _ _ hab hba => absurd hab hba.asymm) hl hl'

/-! ## The search -/

lemma Sorted.key_lt (hl : Sorted key l) {i j : ℕ} {a b : α} (ha : l[i]? = some a)
    (hb : l[j]? = some b) (hij : i < j) : key a < key b := by
  obtain ⟨hi, rfl⟩ := List.getElem?_eq_some_iff.mp ha
  obtain ⟨hj, rfl⟩ := List.getElem?_eq_some_iff.mp hb
  exact List.pairwise_iff_getElem.mp hl i j hi hj hij

/-- What the halving loop keeps: entries beyond the window are greater than `x`, and the entry at
the start of the window is not, unless the window still starts at the beginning. -/
structure SearchWindow (key : α → κ) (l : List α) (x : κ) (base size : ℕ) : Prop where
  size_pos : 0 < size
  le_length : base + size ≤ l.length
  low : base = 0 ∨ ∃ a, l[base]? = some a ∧ key a ≤ x
  high : ∀ j a, base + size ≤ j → l[j]? = some a → x < key a

lemma SearchWindow.searchFrom (hl : Sorted key l) {x : κ} {fuel base size : ℕ}
    (hfuel : size ≤ fuel) (h : SearchWindow key l x base size) :
    SearchWindow key l x (searchFrom key l x fuel base size) 1 := by
  induction fuel generalizing base size with
  | zero => exact absurd h.size_pos (by omega)
  | succ fuel ih =>
    unfold Lib.searchFrom
    split
    · rename_i hsize
      obtain rfl : size = 1 := by have := h.size_pos; omega
      exact h
    · rename_i hsize
      have hmid : base + size / 2 < l.length := by have := h.le_length; omega
      refine ih (by omega) ?_
      have hget : l[base + size / 2]? = some l[base + size / 2] := List.getElem?_eq_getElem hmid
      rw [hget, Option.any_some]
      by_cases hlt : x < key l[base + size / 2]
      · rw [if_pos (decide_eq_true hlt)]
        refine ⟨by omega, by have := h.le_length; omega, h.low, fun j a hj ha => ?_⟩
        rcases Nat.lt_or_ge (base + size / 2) j with hj' | hj'
        · exact hlt.trans (hl.key_lt hget ha hj')
        · obtain rfl : j = base + size / 2 := by omega
          obtain rfl := Option.some.inj (hget.symm.trans ha)
          exact hlt
      · rw [if_neg (by simpa using hlt)]
        refine ⟨by omega, by have := h.le_length; omega, Or.inr ⟨_, hget, not_lt.mp hlt⟩, ?_⟩
        intro j a hj ha
        exact h.high j a (by omega) ha

/-- Where the loop ends: a table around the entry it ends at. -/
lemma SearchWindow.split (hl : Sorted key l) {x : κ} {base : ℕ} (h : SearchWindow key l x base 1) :
    ∃ before a after, l = before ++ a :: after ∧ before.length = base ∧ l[base]? = some a ∧
      (key a ≤ x → ∀ b ∈ before, key b < x) ∧ (x < key a → before = []) ∧
      ∀ b ∈ after, x < key b := by
  have hlt : base < l.length := by have := h.le_length; omega
  have hget : l[base]? = some l[base] := List.getElem?_eq_getElem hlt
  have hlength : (l.take base).length = base := List.length_take_of_le (Nat.le_of_lt hlt)
  refine ⟨l.take base, l[base], l.drop (base + 1), ?_, hlength, hget, ?_, ?_, ?_⟩
  · rw [List.getElem_cons_drop, List.take_append_drop]
  · intro hle b hb
    obtain ⟨i, hi⟩ := List.mem_iff_getElem?.mp hb
    rw [List.getElem?_take] at hi
    split at hi
    · rename_i hib
      exact (hl.key_lt hi hget hib).trans_le hle
    · cases hi
  · intro hlt
    rcases h.low with rfl | ⟨a, ha, hle⟩
    · rfl
    · obtain rfl := Option.some.inj (hget.symm.trans ha)
      exact absurd hlt (not_lt.mpr hle)
  · intro b hb
    obtain ⟨i, hi⟩ := List.mem_iff_getElem?.mp hb
    rw [List.getElem?_drop] at hi
    exact h.high _ b (by omega) hi

/-- **The search splits the table at the key.** -/
lemma binarySearch_cases (hl : Sorted key l) (x : κ) :
    (∃ before a after, l = before ++ a :: after ∧ key a = x ∧
      binarySearch key l x = .ok before.length) ∨
    ∃ before after, l = before ++ after ∧ (∀ a ∈ before, key a < x) ∧ (∀ a ∈ after, x < key a) ∧
      binarySearch key l x = .error before.length := by
  rcases Nat.eq_zero_or_pos l.length with hzero | hpos
  · obtain rfl := List.length_eq_zero_iff.mp hzero
    exact Or.inr ⟨[], [], rfl, by simp, by simp, rfl⟩
  have hwindow : SearchWindow key l x 0 l.length := by
    refine ⟨hpos, by omega, Or.inl rfl, fun j a hj ha => ?_⟩
    have := (List.getElem?_eq_some_iff.mp ha).1
    omega
  obtain ⟨before, a, after, hsplit, hlength, hget, hbelow, hfirst, habove⟩ :=
    (hwindow.searchFrom hl (Nat.le_refl _)).split hl
  have hsearch : binarySearch key l x
      = if key a = x then .ok before.length
        else if key a < x then .error (before.length + 1) else .error before.length := by
    rw [binarySearch, hget, hlength]
  rcases lt_trichotomy (key a) x with hlt | heq | hgt
  · refine Or.inr ⟨before ++ [a], after, by rw [hsplit]; simp, ?_, habove, ?_⟩
    · intro b hb
      rcases List.mem_append.mp hb with hb | hb
      · exact hbelow hlt.le b hb
      · rwa [List.mem_singleton.mp hb]
    · rw [hsearch, if_neg hlt.ne, if_pos hlt, List.length_append, List.length_singleton]
  · exact Or.inl ⟨before, a, after, hsplit, heq, by rw [hsearch, if_pos heq]⟩
  · obtain rfl := hfirst hgt
    refine Or.inr ⟨[], a :: after, hsplit, by simp, ?_, ?_⟩
    · intro b hb
      rcases List.mem_cons.mp hb with rfl | hb
      · exact hgt
      · exact habove b hb
    · rw [hsearch, if_neg hgt.ne', if_neg hgt.not_gt]

/-! ## Reading and writing -/

lemma lookup_eq_some_iff (hl : Sorted key l) {x : κ} {a : α} :
    lookup key l x = some a ↔ a ∈ l ∧ key a = x := by
  rcases binarySearch_cases hl x with ⟨before, b, after, rfl, rfl, hsearch⟩ |
    ⟨before, after, rfl, hbefore, hafter, hsearch⟩
  · have hb : lookup key (before ++ b :: after) (key b) = some b := by
      simp [lookup, hsearch]
    rw [hb, Option.some.injEq]
    constructor
    · rintro rfl
      exact ⟨by simp, rfl⟩
    · rintro ⟨ha, hkey⟩
      -- Another entry with this key would stand before or after `b`.
      obtain ⟨-, hcons, hcross⟩ := List.pairwise_append.mp hl
      rcases List.mem_append.mp ha with ha | ha
      · exact absurd hkey (hcross a ha b List.mem_cons_self).ne
      · rcases List.mem_cons.mp ha with rfl | ha
        · rfl
        · exact absurd hkey ((List.pairwise_cons.mp hcons).1 a ha).ne'
  · have hnone : lookup key (before ++ after) x = none := by simp [lookup, hsearch]
    rw [hnone]
    refine ⟨fun h => absurd h (by simp), ?_⟩
    rintro ⟨ha, rfl⟩
    rcases List.mem_append.mp ha with ha | ha
    · exact absurd rfl (hbefore a ha).ne
    · exact absurd rfl (hafter a ha).ne

lemma lookup_eq_none_iff (hl : Sorted key l) {x : κ} :
    lookup key l x = none ↔ ∀ a ∈ l, key a ≠ x := by
  rw [Option.eq_none_iff_forall_ne_some]
  simp only [ne_eq, lookup_eq_some_iff hl, not_and]

lemma modify_length_append (before after : List α) (a : α) (f : α → α) :
    (before ++ a :: after).modify before.length f = before ++ f a :: after := by
  induction before with
  | nil => rfl
  | cons b before ih => exact congrArg (b :: ·) ih

lemma insertIdx_length_append (before after : List α) (a : α) :
    (before ++ after).insertIdx before.length a = before ++ a :: after := by
  induction before with
  | nil => simp
  | cons b before ih => simpa using ih

section Upsert

variable {combine : α → α → α} {a : α}

/-- What putting an entry into a table does: it takes the place of the one with its key, or goes
between the smaller and the greater ones. -/
lemma upsert_cases (hl : Sorted key l) :
    (∃ before old after, l = before ++ old :: after ∧ key old = key a ∧
      upsert key combine l a = before ++ combine old a :: after) ∨
    ∃ before after, l = before ++ after ∧ (∀ b ∈ before, key b < key a) ∧
      (∀ b ∈ after, key a < key b) ∧ upsert key combine l a = before ++ a :: after := by
  rcases binarySearch_cases hl (key a) with ⟨before, old, after, rfl, hkey, hsearch⟩ |
    ⟨before, after, rfl, hbefore, hafter, hsearch⟩
  · refine Or.inl ⟨before, old, after, rfl, hkey, ?_⟩
    rw [upsert, hsearch]
    exact modify_length_append before after old _
  · refine Or.inr ⟨before, after, rfl, hbefore, hafter, ?_⟩
    rw [upsert, hsearch]
    exact insertIdx_length_append before after a

/-- A table stays sorted when entries keep their keys. -/
lemma Sorted.upsert (hcombine : ∀ old, key old = key a → key (combine old a) = key a)
    (hl : Sorted key l) : Sorted key (upsert key combine l a) := by
  rcases @upsert_cases _ _ _ key l combine a hl with ⟨before, old, after, rfl, hkey, h⟩ |
    ⟨before, after, rfl, hbefore, hafter, h⟩
  · rw [h]
    have hnew : key (combine old a) = key old := (hcombine old hkey).trans hkey.symm
    obtain ⟨hb, hcons, hcross⟩ := List.pairwise_append.mp hl
    obtain ⟨hold, hafter⟩ := List.pairwise_cons.mp hcons
    refine List.pairwise_append.mpr ⟨hb, List.pairwise_cons.mpr ⟨?_, hafter⟩, ?_⟩
    · exact fun c hc => hnew.trans_lt (hold c hc)
    · intro b hb c hc
      rcases List.mem_cons.mp hc with rfl | hc
      · exact (hcross b hb old List.mem_cons_self).trans_eq hnew.symm
      · exact hcross b hb c (List.mem_cons_of_mem old hc)
  · rw [h]
    obtain ⟨hb, ha, hcross⟩ := List.pairwise_append.mp hl
    refine List.pairwise_append.mpr ⟨hb, List.pairwise_cons.mpr ⟨hafter, ha⟩, ?_⟩
    intro b hb c hc
    rcases List.mem_cons.mp hc with rfl | hc
    · exact hbefore b hb
    · exact hcross b hb c hc

end Upsert

end P2pVpn.Lib
