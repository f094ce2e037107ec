/-
# The latest version of each key

Values have a key and a version.  A list holds the latest values of a collection (`Latest`) if its keys
differ and every value of the collection is in the list, or older than a value of its key in the list.  Such a
list grows with the collection, one value at a time, and it is determined by the collection up to its order
(`Latest.mem_iff`, `Latest.eq_of_sorted`): nothing is lost by forgetting older values, even if two of
them had the same version.
-/
import P2pVpn.Lib.FirstMatch
import P2pVpn.Lib.HashMap
import P2pVpn.Lib.StableSort

namespace P2pVpn.Lib

variable {α κ ρ : Type} (key : α → κ) [LinearOrder ρ] (version : α → ρ)

/-- A value says no more than another one. -/
def CoveredBy (a b : α) : Prop := key b = key a ∧ (version a < version b ∨ a = b)

/-- The list holds the latest values of a collection. -/
structure Latest (S : α → Prop) (l : List α) : Prop where
  nodup : (l.map key).Nodup
  subset : ∀ a ∈ l, S a
  covers : ∀ a, S a → ∃ b ∈ l, CoveredBy key version a b

variable {key version}

lemma CoveredBy.refl (a : α) : CoveredBy key version a a := ⟨rfl, .inr rfl⟩

lemma CoveredBy.trans {a b c : α} (h : CoveredBy key version a b) (h' : CoveredBy key version b c) :
    CoveredBy key version a c := by
  refine ⟨h'.1.trans h.1, ?_⟩
  rcases h.2 with hlt | rfl
  · rcases h'.2 with hlt' | rfl
    · exact .inl (hlt.trans hlt')
    · exact .inl hlt
  · exact h'.2

namespace Latest

variable {S : α → Prop} {l l' : List α}

lemma empty : Latest key version (fun _ => False) [] := ⟨List.nodup_nil, nofun, nofun⟩

section

variable (h : Latest key version S l)
include h

lemma congr {S' : α → Prop} (hiff : ∀ a, S a ↔ S' a) :
    Latest key version S' l :=
  ⟨h.nodup, fun a ha => (hiff a).mp (h.subset a ha), fun a ha => h.covers a ((hiff a).mpr ha)⟩

lemma perm (hperm : l'.Perm l) : Latest key version S l' :=
  ⟨(hperm.map key).nodup_iff.mpr h.nodup, fun a ha => h.subset a (hperm.mem_iff.mp ha), fun a ha => by
    obtain ⟨b, hb, hcovered⟩ := h.covers a ha
    exact ⟨b, hperm.mem_iff.mpr hb, hcovered⟩⟩

/-- The latest values of the latest values. -/
lemma trans (h' : Latest key version (· ∈ l) l') : Latest key version S l' :=
  ⟨h'.nodup, fun a ha => h.subset a (h'.subset a ha), fun a ha => by
    obtain ⟨b, hb, hcovered⟩ := h.covers a ha
    obtain ⟨c, hc, hcovered'⟩ := h'.covers b hb
    exact ⟨c, hc, hcovered.trans hcovered'⟩⟩

/-- Values that are covered change nothing. -/
lemma keep_all {values : List α} (hcovered : ∀ a ∈ values, ∃ b ∈ l, CoveredBy key version a b) :
    Latest key version (fun c => S c ∨ c ∈ values) l :=
  ⟨h.nodup, fun c hc => .inl (h.subset c hc), fun c hc => by
    rcases hc with hc | hc
    · exact h.covers c hc
    · exact hcovered c hc⟩

lemma keep {a b : α} (hb : b ∈ l) (hcovered : CoveredBy key version a b) :
    Latest key version (fun c => S c ∨ c = a) l := by
  have hkept : Latest key version (fun c => S c ∨ c ∈ [a]) l :=
    h.keep_all fun c hc => by
      rw [List.mem_singleton] at hc
      exact ⟨b, hb, hc ▸ hcovered⟩
  simpa using hkept

/-- The first value of a key. -/
lemma append {a : α} (hnew : ∀ b ∈ l, key b ≠ key a) :
    Latest key version (fun c => S c ∨ c = a) (l ++ [a]) := by
  refine ⟨?_, fun c hc => ?_, fun c hc => ?_⟩
  · rw [List.map_append, List.nodup_append]
    refine ⟨h.nodup, List.nodup_singleton _, ?_⟩
    simpa using hnew
  · rcases List.mem_append.mp hc with hc | hc
    · exact .inl (h.subset c hc)
    · exact .inr (List.mem_singleton.mp hc)
  · rcases hc with hc | rfl
    · obtain ⟨b, hb, hcovered⟩ := h.covers c hc
      exact ⟨b, List.mem_append_left _ hb, hcovered⟩
    · exact ⟨c, List.mem_append_right _ List.mem_cons_self, .refl c⟩

/-- A newer value of a key takes the place of the one in the list. -/
lemma replace [DecidableEq κ] {a b : α} (hb : b ∈ l) (hcovered : CoveredBy key version b a) :
    Latest key version (fun c => S c ∨ c = a) (modifyFirst (fun c => key c = key a) (fun _ => a) l) := by
  have hmap : modifyFirst (fun c => key c = key a) (fun _ => a) l =
      l.map fun c => if key c = key a then a else c :=
    modifyFirst_eq_map (fun _ => rfl) h.nodup
  have hkeys : (l.map fun c => if key c = key a then a else c).map key = l.map key := by
    rw [List.map_map]
    refine List.map_congr_left fun c _ => ?_
    dsimp only [Function.comp_apply]
    split_ifs with hc
    · exact hc.symm
    · rfl
  have hmem : a ∈ l.map fun c => if key c = key a then a else c :=
    List.mem_map.mpr ⟨b, hb, if_pos hcovered.1.symm⟩
  rw [hmap]
  refine ⟨by rw [hkeys]; exact h.nodup, fun c hc => ?_, fun c hc => ?_⟩
  · obtain ⟨d, hd, rfl⟩ := List.mem_map.mp hc
    split_ifs
    · exact .inr rfl
    · exact .inl (h.subset d hd)
  · rcases hc with hc | rfl
    · obtain ⟨d, hd, hcovered'⟩ := h.covers c hc
      by_cases hkey : key d = key a
      · obtain rfl := List.inj_on_of_nodup_map h.nodup hd hb (hkey.trans hcovered.1)
        exact ⟨a, hmem, hcovered'.trans hcovered⟩
      · exact ⟨d, List.mem_map.mpr ⟨d, hd, if_neg hkey⟩, hcovered'⟩
    · exact ⟨c, hmem, .refl c⟩

/-- The list holds exactly the values of the highest version of their key. -/
lemma mem_iff (a : α) :
    a ∈ l ↔ S a ∧ ∀ b, S b → key b = key a → version b ≤ version a := by
  constructor
  · intro ha
    refine ⟨h.subset a ha, fun b hb hkey => ?_⟩
    obtain ⟨c, hc, hcovered⟩ := h.covers b hb
    obtain rfl := List.inj_on_of_nodup_map h.nodup hc ha (hcovered.1.trans hkey)
    rcases hcovered.2 with hlt | rfl
    · exact hlt.le
    · exact le_rfl
  · rintro ⟨ha, hhighest⟩
    obtain ⟨b, hb, hkey, hlt | rfl⟩ := h.covers a ha
    · exact absurd (hhighest b (h.subset b hb) hkey) (not_le.mpr hlt)
    · exact hb

/-- Two sorted lists that hold the latest values of one collection are the same. -/
lemma eq_of_sorted [LinearOrder κ] (h' : Latest key version S l')
    (hsorted : l.Pairwise fun a b => key a ≤ key b) (hsorted' : l'.Pairwise fun a b => key a ≤ key b) :
    l = l' := by
  have hmem : ∀ a, a ∈ l ↔ a ∈ l' := fun a => (h.mem_iff a).trans (h'.mem_iff a).symm
  have hperm : l.Perm l' :=
    (List.perm_ext_iff_of_nodup (List.Nodup.of_map key h.nodup) (List.Nodup.of_map key h'.nodup)).mpr hmem
  refine hperm.eq_of_pairwise (fun a b ha hb hle hle' => ?_) hsorted hsorted'
  exact List.inj_on_of_nodup_map h.nodup ha ((hmem b).mpr hb) (le_antisymm hle hle')

end

end Latest

/-! ## A table of the latest values -/

section Table

variable [DecidableEq κ]

/-- The table holds the latest values of a collection, under their keys. -/
structure LatestIn (key : α → κ) (version : α → ρ) (S : α → Prop) (table : HashMap κ α) : Prop where
  subset : ∀ k a, table.get? k = some a → key a = k ∧ S a
  covers : ∀ a, S a → ∃ b, table.get? (key a) = some b ∧ CoveredBy key version a b

namespace LatestIn

variable {S : α → Prop} {table : HashMap κ α}

lemma empty : LatestIn key version (fun _ => False) (∅ : HashMap κ α) := ⟨by simp, nofun⟩

lemma keep (h : LatestIn key version S table) {a b : α} (hb : table.get? (key a) = some b)
    (hcovered : CoveredBy key version a b) : LatestIn key version (fun c => S c ∨ c = a) table :=
  ⟨fun k c hc => ⟨(h.subset k c hc).1, .inl (h.subset k c hc).2⟩, fun c hc => by
    rcases hc with hc | rfl
    · exact h.covers c hc
    · exact ⟨b, hb, hcovered⟩⟩

/-- The first value of a key, or a newer one. -/
lemma insert (h : LatestIn key version S table) {a : α}
    (hnewer : ∀ b, table.get? (key a) = some b → CoveredBy key version b a) :
    LatestIn key version (fun c => S c ∨ c = a) (table.insert (key a) a) := by
  refine ⟨fun k c hc => ?_, fun c hc => ?_⟩
  · rw [HashMap.get?_insert] at hc
    split_ifs at hc with hk
    · obtain rfl := Option.some.inj hc
      exact ⟨hk.symm, .inr rfl⟩
    · exact ⟨(h.subset k c hc).1, .inl (h.subset k c hc).2⟩
  · rcases hc with hc | rfl
    · obtain ⟨b, hb, hcovered⟩ := h.covers c hc
      by_cases hk : key c = key a
      · rw [hk] at hb ⊢
        exact ⟨a, HashMap.get?_insert_self _ _ _, hcovered.trans (hnewer b hb)⟩
      · exact ⟨b, by rwa [HashMap.get?_insert_of_ne _ hk], hcovered⟩
    · exact ⟨c, HashMap.get?_insert_self _ _ _, .refl c⟩

/-- The values of the table, in any order. -/
lemma values (h : LatestIn key version S table) (order : KeyOrder κ) :
    Latest key version S ((order.entries table).map Prod.snd) := by
  refine ⟨?_, fun a ha => ?_, fun a ha => ?_⟩
  · rw [List.map_map]
    refine List.pairwise_map.mpr ((order.entries_pairwise table).imp_of_mem fun {a b} ha hb hne => ?_)
    rw [Function.comp_apply, Function.comp_apply, (h.subset _ _ (KeyOrder.mem_entries.mp ha)).1,
      (h.subset _ _ (KeyOrder.mem_entries.mp hb)).1]
    exact hne
  · obtain ⟨entry, hentry, rfl⟩ := List.mem_map.mp ha
    exact (h.subset _ _ (KeyOrder.mem_entries.mp hentry)).2
  · obtain ⟨b, hb, hcovered⟩ := h.covers a ha
    exact ⟨b, List.mem_map.mpr ⟨(key a, b), KeyOrder.mem_entries.mpr hb, rfl⟩, hcovered⟩

end LatestIn

end Table

end P2pVpn.Lib
