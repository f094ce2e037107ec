/-
# The first entry that fits

Changing the first entry of a list that fits a condition.  In a list whose entries have different
keys, changing the first entry with a key is changing the entry with that key
(`modifyFirst_eq_map`).
-/
import Mathlib.Algebra.Order.Ring.Nat
import Mathlib.Data.List.Basic
import Mathlib.Data.List.Nodup

namespace P2pVpn.Lib

variable {α κ : Type}

/-- Change the first entry that fits. -/
def modifyFirst (fits : α → Bool) (change : α → α) : List α → List α
  | [] => []
  | entry :: rest => if fits entry then change entry :: rest else entry :: modifyFirst fits change rest

variable [DecidableEq κ] {key : α → κ} {k : κ} {change : α → α}

lemma modifyFirst_eq_map {fits : α → Bool} (hfits : ∀ entry, fits entry = decide (key entry = k))
    {entries : List α} (hnodup : (entries.map key).Nodup) :
    modifyFirst fits change entries =
      entries.map fun entry => if key entry = k then change entry else entry := by
  induction entries with
  | nil => rfl
  | cons entry rest ih =>
    rw [List.map_cons, List.nodup_cons] at hnodup
    rw [modifyFirst, hfits, List.map_cons]
    by_cases hkey : key entry = k
    · have hrest : rest.map (fun entry => if key entry = k then change entry else entry) = rest := by
        refine (List.map_congr_left fun other hother => if_neg fun hsame => ?_).trans (List.map_id rest)
        exact hnodup.1 (hkey.trans hsame.symm ▸ List.mem_map_of_mem hother)
      rw [hrest]
      simp [hkey]
    · rw [ih hnodup.2]
      simp [hkey]

omit [DecidableEq κ] in
lemma map_key_modifyFirst (hkeep : ∀ entry, key (change entry) = key entry) (fits : α → Bool)
    (entries : List α) : (modifyFirst fits change entries).map key = entries.map key := by
  induction entries with
  | nil => rfl
  | cons entry entries ih =>
    rw [modifyFirst]
    split
    · rw [List.map_cons, List.map_cons, hkeep]
    · rw [List.map_cons, List.map_cons, ih]

/-- The entry of a key is the one that is found. -/
lemma find?_key_of_mem {entries : List α} (hnodup : (entries.map key).Nodup) {entry : α}
    (hmem : entry ∈ entries) :
    entries.find? (fun other => decide (key other = key entry)) = some entry := by
  induction entries with
  | nil => exact absurd hmem List.not_mem_nil
  | cons first rest ih =>
    rw [List.map_cons, List.nodup_cons] at hnodup
    rw [List.find?_cons]
    rcases List.mem_cons.mp hmem with rfl | hrest
    · simp
    · have hne : key first ≠ key entry := fun heq => hnodup.1 (heq ▸ List.mem_map_of_mem hrest)
      simpa [hne] using ih hnodup.2 hrest

/-- A change that keeps the keys. -/
lemma map_key_map_ite (hkeep : ∀ entry, key (change entry) = key entry) (entries : List α) :
    (entries.map fun entry => if key entry = k then change entry else entry).map key =
      entries.map key := by
  rw [List.map_map]
  refine List.map_congr_left fun entry _ => ?_
  dsimp only [Function.comp_apply]
  split_ifs
  · exact hkeep entry
  · rfl

/-- Looking for a key after the entry of a key was changed. -/
lemma find?_map_ite (hkeep : ∀ entry, key (change entry) = key entry) (entries : List α) (k' : κ) :
    (entries.map fun entry => if key entry = k then change entry else entry).find?
        (fun entry => decide (key entry = k')) =
      (entries.find? fun entry => decide (key entry = k')).map
        fun entry => if k' = k then change entry else entry := by
  induction entries with
  | nil => rfl
  | cons entry rest ih =>
    have hkey : key (if key entry = k then change entry else entry) = key entry := by
      split_ifs
      · exact hkeep entry
      · rfl
    rw [List.map_cons, List.find?_cons, List.find?_cons, hkey, ih]
    by_cases hfound : key entry = k'
    · simp [hfound]
    · simp [hfound]

end P2pVpn.Lib
