/-
# Hash maps as finite maps

A hash map of the program is a finite map: two hash maps are equal when they hold the same
entries, and nothing else about them can be observed, except the order in which they hand
their entries out.  That order is unspecified, so an iteration is described by an arbitrary
enumeration of the keys (`KeyOrder`), and every result about an iteration is proved for all
of them.
-/
import Mathlib.Algebra.Group.Action.Defs
import Mathlib.Algebra.Order.BigOperators.Group.Multiset
import Mathlib.Algebra.Order.Ring.Nat
import Mathlib.Data.Finmap
import Mathlib.Data.List.Sort

namespace P2pVpn.Lib

/-- A hash map with keys in `κ` and values in `ν`. -/
structure HashMap (κ ν : Type) where
  table : Finmap fun _ : κ => ν

namespace HashMap

variable {κ ν μ : Type}

instance : EmptyCollection (HashMap κ ν) := ⟨⟨∅⟩⟩

instance [DecidableEq κ] [DecidableEq ν] : DecidableEq (HashMap κ ν) := fun s t =>
  decidable_of_iff (s.table = t.table) ⟨fun h => by cases s; cases t; exact congrArg _ h,
    fun h => by rw [h]⟩

/-- The keys of a hash map. -/
def keys (s : HashMap κ ν) : Finset κ := s.table.keys

variable (f : ν → μ)

/-- Apply a function to every value of a hash map. -/
def mapValues (s : HashMap κ ν) : HashMap κ μ where
  table.entries := s.table.entries.map fun e => ⟨e.1, f e.2⟩
  table.nodupKeys := by
    rw [← Multiset.nodup_keys, Multiset.keys, Multiset.map_map]
    exact Multiset.nodup_keys.mpr s.table.nodupKeys

variable [DecidableEq κ] {s : HashMap κ ν} {k : κ} {v : ν}

/-- The value stored under a key. -/
def get? (s : HashMap κ ν) (k : κ) : Option ν := s.table.lookup k

/-- Store a value under a key, over the one that is there. -/
def insert (s : HashMap κ ν) (k : κ) (v : ν) : HashMap κ ν := ⟨s.table.insert k v⟩

/-- `entry(key).or_insert(value)`: insert unless the key is already present. -/
def orInsert (s : HashMap κ ν) (k : κ) (v : ν) : HashMap κ ν :=
  if (s.get? k).isSome then s else s.insert k v

/-- Drop a key with its value. -/
def remove (s : HashMap κ ν) (k : κ) : HashMap κ ν := ⟨s.table.erase k⟩

/-- Keep the entries whose value passes a test. -/
def retain (p : ν → Bool) (s : HashMap κ ν) : HashMap κ ν where
  table.entries := s.table.entries.filter fun e => p e.2
  table.nodupKeys := Multiset.nodup_keys.mp (Multiset.nodup_of_le
    (Multiset.map_le_map (Multiset.filter_le _ _)) (Multiset.nodup_keys.mpr s.table.nodupKeys))

/-- Keep the entries whose key passes a test. -/
def retainKeys (p : κ → Bool) (s : HashMap κ ν) : HashMap κ ν where
  table.entries := s.table.entries.filter fun e => p e.1
  table.nodupKeys := Multiset.nodup_keys.mp (Multiset.nodup_of_le
    (Multiset.map_le_map (Multiset.filter_le _ _)) (Multiset.nodup_keys.mpr s.table.nodupKeys))

/-- The sum of a weight over all values. -/
def total (f : ν → ℕ) (s : HashMap κ ν) : ℕ := (s.table.entries.map fun e => f e.2).sum

/-! ## Looking up -/

@[ext] lemma ext_get? {t : HashMap κ ν} (h : ∀ k, s.get? k = t.get? k) : s = t := by
  cases s
  cases t
  exact congrArg HashMap.mk (Finmap.ext_lookup h)

@[simp] lemma get?_empty (k : κ) : (∅ : HashMap κ ν).get? k = none := Finmap.lookup_empty k

lemma get?_insert (s : HashMap κ ν) (a k : κ) (v : ν) :
    (s.insert a v).get? k = if k = a then some v else s.get? k := by
  unfold get? insert
  by_cases h : k = a
  · subst h
    rw [Finmap.lookup_insert, if_pos rfl]
  · rw [Finmap.lookup_insert_of_ne s.table h, if_neg h]

@[simp] lemma get?_insert_self (s : HashMap κ ν) (k : κ) (v : ν) :
    (s.insert k v).get? k = some v := by
  rw [get?_insert, if_pos rfl]

lemma get?_insert_of_ne (s : HashMap κ ν) {a : κ} (h : k ≠ a) (v : ν) :
    (s.insert a v).get? k = s.get? k := by
  rw [get?_insert, if_neg h]

@[simp] lemma get?_mapValues (s : HashMap κ ν) (k : κ) :
    (s.mapValues f).get? k = (s.get? k).map f := by
  ext b
  unfold get?
  rw [← Option.mem_def, Finmap.mem_lookup_iff, ← Option.mem_def, Option.mem_map]
  constructor
  · intro h
    obtain ⟨e, he, heq⟩ := Multiset.mem_map.mp h
    obtain ⟨k', v⟩ := e
    obtain ⟨rfl, rfl⟩ : k' = k ∧ f v = b := by simpa using heq
    exact ⟨v, Finmap.mem_lookup_iff.mpr he, rfl⟩
  · rintro ⟨v, hv, rfl⟩
    exact Multiset.mem_map.mpr ⟨⟨k, v⟩, Finmap.mem_lookup_iff.mp hv, rfl⟩

lemma get?_orInsert (s : HashMap κ ν) (a k : κ) (v : ν) :
    (s.orInsert a v).get? k = if k = a then some ((s.get? a).getD v) else s.get? k := by
  unfold orInsert
  by_cases hk : k = a
  · subst hk
    cases h : s.get? k <;> simp [h]
  · rw [if_neg hk]
    split
    · rfl
    · rw [get?_insert_of_ne s hk]

lemma get?_remove (s : HashMap κ ν) (a k : κ) :
    (s.remove a).get? k = if k = a then none else s.get? k := by
  unfold get? remove
  by_cases h : k = a
  · subst h
    rw [Finmap.lookup_erase, if_pos rfl]
  · rw [Finmap.lookup_erase_ne h, if_neg h]

@[simp] lemma get?_retain (p : ν → Bool) (s : HashMap κ ν) (k : κ) :
    (s.retain p).get? k = (s.get? k).filter p := by
  ext v
  unfold get? retain
  rw [← Option.mem_def, Finmap.mem_lookup_iff, Multiset.mem_filter, ← Finmap.mem_lookup_iff,
    Option.mem_def, Option.filter_eq_some_iff]

@[simp] lemma get?_retainKeys (p : κ → Bool) (s : HashMap κ ν) (k : κ) :
    (s.retainKeys p).get? k = if p k then s.get? k else none := by
  ext v
  unfold get? retainKeys
  rw [← Option.mem_def, Finmap.mem_lookup_iff, Multiset.mem_filter, ← Finmap.mem_lookup_iff,
    Option.mem_def]
  split_ifs with h <;> simp [h]

lemma mem_keys : k ∈ s.keys ↔ ∃ v, s.get? k = some v :=
  Finmap.mem_keys.trans Finmap.mem_iff

lemma remove_eq_self (h : s.get? k = none) : s.remove k = s := by
  ext1 a
  rw [get?_remove]
  split_ifs with heq
  · rw [heq, h]
  · rfl

lemma insert_comm (s : HashMap κ ν) {a b : κ} (hne : a ≠ b) (v w : ν) :
    (s.insert a v).insert b w = (s.insert b w).insert a v := by
  ext1 k
  simp only [get?_insert]
  split_ifs with hb ha
  · exact absurd (ha.symm.trans hb) hne
  · rfl
  · rfl
  · rfl

lemma insert_insert (s : HashMap κ ν) (a : κ) (v w : ν) : (s.insert a v).insert a w = s.insert a w := by
  ext1 k
  simp only [get?_insert]
  split_ifs <;> rfl

/-! ## Inserting one after another -/

/-- The value under a key after some insertions is one of the inserted values, or the one before. -/
lemma get?_foldl_insert (pairs : List (κ × ν)) (s : HashMap κ ν) (k : κ) :
    (∃ v, (k, v) ∈ pairs ∧ (pairs.foldl (fun s pair => s.insert pair.1 pair.2) s).get? k = some v) ∨
      (∀ v, (k, v) ∉ pairs) ∧
        (pairs.foldl (fun s pair => s.insert pair.1 pair.2) s).get? k = s.get? k := by
  induction pairs generalizing s with
  | nil => exact .inr ⟨fun _ => List.not_mem_nil, rfl⟩
  | cons pair pairs ih =>
    rw [List.foldl_cons]
    rcases ih (s.insert pair.1 pair.2) with ⟨v, hmem, hget⟩ | ⟨hnot, hget⟩
    · exact .inl ⟨v, List.mem_cons_of_mem _ hmem, hget⟩
    · rw [get?_insert] at hget
      by_cases hk : k = pair.1
      · rw [if_pos hk] at hget
        exact .inl ⟨pair.2, hk ▸ List.mem_cons_self, hget⟩
      · rw [if_neg hk] at hget
        refine .inr ⟨fun v hmem => ?_, hget⟩
        rcases List.mem_cons.mp hmem with rfl | hmem
        · exact hk rfl
        · exact hnot v hmem

/-! ## Counting keys -/

omit [DecidableEq κ] in
@[simp] lemma keys_empty : (∅ : HashMap κ ν).keys = ∅ := Finmap.keys_empty

lemma keys_remove (s : HashMap κ ν) (k : κ) : (s.remove k).keys = s.keys.erase k := by
  ext a
  rw [Finset.mem_erase, mem_keys, mem_keys, get?_remove]
  by_cases h : a = k <;> simp [h]

lemma keys_mapValues (s : HashMap κ ν) : (s.mapValues f).keys = s.keys := by
  ext k
  simp [mem_keys]

lemma keys_retainKeys (q : κ → Bool) (s : HashMap κ ν) :
    (s.retainKeys q).keys = s.keys.filter (q ·) := by
  ext a
  rw [Finset.mem_filter, mem_keys, mem_keys, get?_retainKeys]
  by_cases h : q a <;> simp [h]

lemma keys_insert (s : HashMap κ ν) (k : κ) (v : ν) : (s.insert k v).keys = Insert.insert k s.keys := by
  ext a
  rw [Finset.mem_insert, mem_keys, mem_keys, get?_insert]
  by_cases h : a = k <;> simp [h]

/-- A key that is new needs room. -/
lemma card_keys_insert_le (v : ν) {n : ℕ} (hcard : s.keys.card ≤ n)
    (hroom : s.get? k = none → s.keys.card < n) : (s.insert k v).keys.card ≤ n := by
  rw [keys_insert]
  cases hget : s.get? k with
  | none => exact (Finset.card_insert_le _ _).trans (hroom hget)
  | some w =>
    rw [Finset.insert_eq_of_mem (mem_keys.mpr ⟨w, hget⟩)]
    exact hcard

lemma card_keys_remove_lt (h : s.get? k = some v) : (s.remove k).keys.card < s.keys.card := by
  rw [keys_remove]
  exact Finset.card_erase_lt_of_mem (mem_keys.mpr ⟨v, h⟩)

lemma card_keys_retain_le (p : ν → Bool) (s : HashMap κ ν) :
    (s.retain p).keys.card ≤ s.keys.card := by
  refine Finset.card_le_card fun k hk => ?_
  obtain ⟨v, hv⟩ := mem_keys.mp hk
  rw [get?_retain, Option.filter_eq_some_iff] at hv
  exact mem_keys.mpr ⟨v, hv.1⟩

/-! ## Changing all values -/

@[simp] lemma mapValues_empty : (∅ : HashMap κ ν).mapValues f = ∅ := by
  ext k
  simp

lemma mapValues_insert (s : HashMap κ ν) (a : κ) (v : ν) :
    (s.insert a v).mapValues f = (s.mapValues f).insert a (f v) := by
  ext k : 1
  rw [get?_mapValues, get?_insert, get?_insert, get?_mapValues]
  split <;> rfl

lemma mapValues_mapValues {ξ : Type} (g : μ → ξ) (s : HashMap κ ν) :
    (s.mapValues f).mapValues g = s.mapValues (g ∘ f) := by
  ext k : 1
  simp

lemma mapValues_orInsert (s : HashMap κ ν) (a : κ) (v : ν) :
    (s.orInsert a v).mapValues f = (s.mapValues f).orInsert a (f v) := by
  ext k : 1
  rw [get?_mapValues, get?_orInsert, get?_orInsert, get?_mapValues, get?_mapValues]
  split
  · cases s.get? a <;> rfl
  · rfl

/-! ## Weights -/

lemma total_insert (f : ν → ℕ) (h : s.get? k = none) (v : ν) :
    (s.insert k v).total f = f v + s.total f := by
  have hnew : k ∉ s.table := Finmap.lookup_eq_none.mp h
  unfold total insert
  rw [Finmap.entries_insert_of_notMem hnew, Multiset.map_cons, Multiset.sum_cons]

lemma total_remove (f : ν → ℕ) (h : s.get? k = some v) :
    s.total f = f v + (s.remove k).total f := by
  have hback : (s.remove k).insert k v = s := by
    ext a : 1
    rw [get?_insert, get?_remove]
    split_ifs with ha
    · rw [ha, h]
    · rfl
  have hnew : (s.remove k).get? k = none := by rw [get?_remove, if_pos rfl]
  rw [← total_insert f hnew v, hback]

/-- Storing over a value exchanges its weight. -/
lemma total_replace (f : ν → ℕ) (h : s.get? k = some v) (w : ν) :
    (s.insert k w).total f + f v = s.total f + f w := by
  have hnew : (s.remove k).get? k = none := by rw [get?_remove, if_pos rfl]
  have hover : s.insert k w = (s.remove k).insert k w := by
    ext a : 1
    rw [get?_insert, get?_insert, get?_remove]
    split_ifs <;> rfl
  rw [hover, total_insert f hnew, total_remove f h]
  omega

omit [DecidableEq κ] in
lemma total_mapValues (f : μ → ℕ) (g : ν → μ) (s : HashMap κ ν) :
    (s.mapValues g).total f = s.total fun v => f (g v) := by
  unfold total mapValues
  rw [Multiset.map_map]
  rfl

omit [DecidableEq κ] in
lemma total_add (f g : ν → ℕ) (s : HashMap κ ν) :
    s.total (fun v => f v + g v) = s.total f + s.total g :=
  Multiset.sum_map_add

omit [DecidableEq κ] in
lemma total_le_total {f g : ν → ℕ} (h : ∀ v, f v ≤ g v) (s : HashMap κ ν) : s.total f ≤ s.total g :=
  Multiset.sum_map_le_sum_map _ _ fun e _ => h e.2

omit [DecidableEq κ] in
/-- Every entry counted once. -/
lemma total_one (s : HashMap κ ν) : s.total (fun _ => 1) = s.keys.card := by
  unfold total
  rw [Multiset.map_const', Multiset.sum_replicate, smul_eq_mul, mul_one]
  exact (Multiset.card_map _ _).symm

lemma total_eq_zero {f : ν → ℕ} (h : ∀ k v, s.get? k = some v → f v = 0) : s.total f = 0 := by
  refine Multiset.sum_eq_zero fun x hx => ?_
  obtain ⟨⟨k, v⟩, he, rfl⟩ := Multiset.mem_map.mp hx
  exact h k v (Finmap.mem_lookup_iff.mpr he)

omit [DecidableEq κ] in
lemma total_retain (f : ν → ℕ) (p : ν → Bool) (s : HashMap κ ν) :
    s.total f = (s.retain p).total f + (s.retain fun v => !p v).total f := by
  unfold total retain
  conv_lhs => rw [← Multiset.filter_add_not (fun e => p e.2 = true) s.table.entries]
  rw [Multiset.map_add, Multiset.sum_add]
  simp

end HashMap

/-! ## Iteration -/

/-- The order in which a hash table hands out its keys: some enumeration of every finite set
of keys, each key exactly once. -/
structure KeyOrder (κ : Type) where
  /-- The keys of a table, in the order of the iteration. -/
  enumerate : Finset κ → List κ
  nodup : ∀ s, (enumerate s).Nodup
  mem_iff : ∀ s x, x ∈ enumerate s ↔ x ∈ s

namespace KeyOrder

variable {κ : Type}

/-- The iteration in the order of a number that tells the keys apart. -/
def sortedBy {α : Type} [LinearOrder α] (number : κ → α) (hnumber : Function.Injective number) :
    KeyOrder κ where
  enumerate := fun s => Quot.liftOn s.val (List.insertionSort (number · ≤ number ·)) fun l l' h =>
    have : IsTrans κ (number · ≤ number ·) := ⟨fun _ _ _ => le_trans⟩
    have : Std.Total fun a b : κ => number a ≤ number b := ⟨fun _ _ => le_total _ _⟩
    List.Perm.eq_of_pairwise (fun _ _ _ _ hab hba => hnumber (le_antisymm hab hba))
      (List.pairwise_insertionSort _ l) (List.pairwise_insertionSort _ l')
      ((List.perm_insertionSort _ l).trans (h.trans (List.perm_insertionSort _ l').symm))
  nodup := by
    rintro ⟨⟨l⟩, hl⟩
    exact (List.perm_insertionSort _ l).nodup_iff.mpr hl
  mem_iff := by
    rintro ⟨⟨l⟩, hl⟩ x
    exact (List.perm_insertionSort _ l).mem_iff

/-- The iteration in increasing key order. -/
def sorted [LinearOrder κ] : KeyOrder κ := sortedBy id Function.injective_id

/-- The iteration that comes to a key last. -/
def comingLast [DecidableEq κ] (o : KeyOrder κ) (last : κ) : KeyOrder κ where
  enumerate s := if last ∈ s then o.enumerate (s.erase last) ++ [last] else o.enumerate s
  nodup s := by
    split_ifs
    · refine List.nodup_append.mpr ⟨o.nodup _, List.nodup_singleton _, fun k hk k' hk' => ?_⟩
      rw [List.mem_singleton.mp hk']
      exact Finset.ne_of_mem_erase ((o.mem_iff _ _).mp hk)
    · exact o.nodup s
  mem_iff s k := by
    split_ifs with hlast
    · rw [List.mem_append, o.mem_iff, Finset.mem_erase, List.mem_singleton]
      by_cases hk : k = last
      · simp [hk, hlast]
      · simp [hk]
    · exact o.mem_iff s k

/-- Any two iterations of one table are permutations of each other. -/
lemma perm (o o' : KeyOrder κ) (s : Finset κ) : (o.enumerate s).Perm (o'.enumerate s) :=
  (List.perm_ext_iff_of_nodup (o.nodup s) (o'.nodup s)).mpr fun x => by
    rw [o.mem_iff, o'.mem_iff]

variable {ν μ : Type} [DecidableEq κ] (o o' : KeyOrder κ)

/-- The entries of a hash map, in the order of the iteration. -/
def entries (s : HashMap κ ν) : List (κ × ν) :=
  (o.enumerate s.keys).filterMap fun k => (s.get? k).map (k, ·)

variable {o} {s : HashMap κ ν} {k : κ} {v : ν}

@[simp] lemma mem_entries : (k, v) ∈ o.entries s ↔ s.get? k = some v := by
  simp only [entries, List.mem_filterMap, o.mem_iff, HashMap.mem_keys]
  constructor
  · rintro ⟨k', -, h⟩
    obtain ⟨v', hv', heq⟩ := Option.map_eq_some_iff.mp h
    obtain ⟨rfl, rfl⟩ := Prod.mk.injEq .. ▸ heq
    exact hv'
  · intro h
    exact ⟨k, ⟨v, h⟩, by simp [h]⟩

lemma entries_comingLast (h : s.get? k = some v) :
    ∃ before, (o.comingLast k).entries s = before ++ [(k, v)] := by
  have hmem : k ∈ s.keys := HashMap.mem_keys.mpr ⟨v, h⟩
  refine ⟨(o.enumerate (s.keys.erase k)).filterMap fun k => (s.get? k).map (k, ·), ?_⟩
  simp [entries, comingLast, hmem, h]

/-- No two entries have one key. -/
lemma entries_pairwise (s : HashMap κ ν) : (o.entries s).Pairwise fun a b => a.1 ≠ b.1 := by
  refine List.Pairwise.filterMap _ ?_ (o.nodup s.keys)
  intro k k' hne a ha b hb
  obtain ⟨v, -, rfl⟩ := Option.map_eq_some_iff.mp ha
  obtain ⟨v', -, rfl⟩ := Option.map_eq_some_iff.mp hb
  exact hne

lemma entries_perm (s : HashMap κ ν) : (o.entries s).Perm (o'.entries s) :=
  (o.perm o' s.keys).filterMap _

lemma entries_mapValues (f : ν → μ) (s : HashMap κ ν) :
    o.entries (s.mapValues f) = (o.entries s).map fun e => (e.1, f e.2) := by
  have hkeys : (s.mapValues f).keys = s.keys := by
    ext k
    rw [HashMap.mem_keys, HashMap.mem_keys]
    simp
  simp only [entries, hkeys, List.map_filterMap]
  congr 1
  funext k
  cases h : s.get? k <;> simp [h]

end KeyOrder

end P2pVpn.Lib
