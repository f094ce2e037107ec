/-
# The latest record of every relationship

The version check is a single pass that remembers a record of the highest version of every
relationship.  It fails on a record that differs from the one it remembers under the same version
(`latest_succeeds_iff`), and represents every relationship of the list (`exists_latest`).
-/
import P2pVpn.Membership.Ledger

namespace P2pVpn.Membership

open Lib

variable {records : List SignedMembershipRecord}

/-- Two records of one relationship with one version. -/
def sameVersion (left right : SignedMembershipRecord) : Bool :=
  relationship left = relationship right ∧
    left.payload.recordVersion = right.payload.recordVersion

lemma sameVersion_iff {left right : SignedMembershipRecord} :
    sameVersion left right ↔ relationship left = relationship right ∧
      left.payload.recordVersion = right.payload.recordVersion := by
  simp [sameVersion]

lemma sameVersion_comm {left right : SignedMembershipRecord} :
    sameVersion left right ↔ sameVersion right left := by
  rw [sameVersion_iff, sameVersion_iff, eq_comm, @eq_comm _ left.payload.recordVersion]

/-- No two different records of one relationship have one version. -/
def ConflictFree (records : List SignedMembershipRecord) : Prop :=
  ∀ left ∈ records, ∀ right ∈ records, sameVersion left right → left = right

instance (records : List SignedMembershipRecord) : Decidable (ConflictFree records) :=
  inferInstanceAs (Decidable (∀ left ∈ records, ∀ right ∈ records,
    sameVersion left right → left = right))

/-- Two different records of one relationship and version. -/
def Equivocal (left right : SignedMembershipRecord) : Prop := sameVersion left right ∧ left ≠ right

/-- Nothing of the relationship of a record has a higher version. -/
def NewestAfter (before : List SignedMembershipRecord) (record : SignedMembershipRecord) : Prop :=
  ∀ r ∈ before, relationship r = relationship record →
    r.payload.recordVersion ≤ record.payload.recordVersion

/-- Some record comes after one that it contradicts, and before anything newer. -/
def ExposedEquivocation (records : List SignedMembershipRecord) : Prop :=
  ∃ before record after, records = before ++ record :: after ∧
    (∃ r ∈ before, Equivocal r record) ∧ NewestAfter before record

lemma not_conflictFree_of_exposed (h : ExposedEquivocation records) : ¬ ConflictFree records := by
  obtain ⟨before, record, after, rfl, ⟨r, hr, hsame, hne⟩, -⟩ := h
  intro hfree
  exact hne (hfree r (by simp [hr]) record (by simp) hsame)

/-! ## What the pass remembers -/

section Pass

variable {latest latest' : HashMap (String × String) (Fin records.length)}
  {done todo : List (Fin records.length)} {index : Fin records.length}

/-- What is known of a relationship after a part of the list: nothing of it came, or a record of its
highest version, and every other record of that version is the same one. -/
def KnowsOf (records : List SignedMembershipRecord) (done : List (Fin records.length))
    (key : String × String) : Option (Fin records.length) → Prop
  | none => ∀ i ∈ done, relationship (records.get i) ≠ key
  | some m => m ∈ done ∧ relationship (records.get m) = key ∧
      ∀ i ∈ done, relationship (records.get i) = key →
        (records.get i).payload.recordVersion < (records.get m).payload.recordVersion ∨
          records.get i = records.get m

/-- What the pass remembers of all relationships. -/
def Remembers (records : List SignedMembershipRecord) (done : List (Fin records.length))
    (latest : HashMap (String × String) (Fin records.length)) : Prop :=
  ∀ key, KnowsOf records done key (latest.get? key)

/-- The step refuses exactly a record that exposes an equivocation. -/
lemma noteLatest_succeeds_iff (h : Remembers records done latest) :
    (∃ latest', noteLatest records latest index = .ok latest') ↔
      ¬ ((∃ r ∈ done.map records.get, Equivocal r (records.get index)) ∧
        NewestAfter (done.map records.get) (records.get index)) := by
  have hknown := h (relationship (records.get index))
  simp only [noteLatest]
  split
  · rename_i habsent
    rw [habsent] at hknown
    refine ⟨fun _ hexposed => ?_, fun _ => ⟨_, rfl⟩⟩
    obtain ⟨⟨_, hmem, hsame, -⟩, -⟩ := hexposed
    obtain ⟨i, hi, rfl⟩ := List.mem_map.mp hmem
    exact hknown i hi (sameVersion_iff.mp hsame).1
  · rename_i m hpresent
    rw [hpresent] at hknown
    obtain ⟨hm, hkey, hhighest⟩ := hknown
    have hbound : ∀ i ∈ done, relationship (records.get i) = relationship (records.get index) →
        (records.get i).payload.recordVersion ≤ (records.get m).payload.recordVersion := by
      intro i hi hrel
      rcases hhighest i hi hrel with hlt | heq
      · exact hlt.le
      · rw [heq]
    split
    · -- the record is newer than everything before it
      rename_i hnewer
      refine ⟨fun _ hexposed => ?_, fun _ => ⟨_, rfl⟩⟩
      obtain ⟨⟨_, hmem, hsame, -⟩, -⟩ := hexposed
      obtain ⟨i, hi, rfl⟩ := List.mem_map.mp hmem
      obtain ⟨hrel, hversion⟩ := sameVersion_iff.mp hsame
      exact absurd (hversion ▸ hbound i hi hrel) (not_le.mpr hnewer)
    · rename_i hnotNewer
      split
      · -- it contradicts the one that is remembered
        rename_i hconflict
        refine ⟨?_, fun hnot => (hnot ⟨⟨records.get m, ?_, ?_, ?_⟩, ?_⟩).elim⟩
        · rintro ⟨_, hok⟩
          cases hok
        · exact List.mem_map.mpr ⟨m, hm, rfl⟩
        · exact sameVersion_iff.mpr ⟨hkey, hconflict.1.symm⟩
        · exact fun heq => hconflict.2 heq.symm
        · intro r hmem hrel
          obtain ⟨i, hi, rfl⟩ := List.mem_map.mp hmem
          exact (hbound i hi hrel).trans hconflict.1.ge
      · rename_i hconflict
        refine ⟨fun _ hexposed => ?_, fun _ => ⟨_, rfl⟩⟩
        obtain ⟨⟨_, hmem, hsame, hne⟩, hnewest⟩ := hexposed
        obtain ⟨i, hi, rfl⟩ := List.mem_map.mp hmem
        obtain ⟨hrel, hversion⟩ := sameVersion_iff.mp hsame
        -- nothing is newer, so the one that is remembered has the version of the record
        have hle := hnewest (records.get m) (List.mem_map.mpr ⟨m, hm, rfl⟩) hkey
        have heq : (records.get index).payload.recordVersion = (records.get m).payload.recordVersion :=
          le_antisymm (not_lt.mp hnotNewer) hle
        have hindex : records.get index = records.get m := not_not.mp fun hne' => hconflict ⟨heq, hne'⟩
        rcases hhighest i hi hrel with hlt | hsameRecord
        · exact absurd (hversion.trans heq) hlt.ne
        · exact hne (hsameRecord.trans hindex.symm)

lemma remembers_of_noteLatest (h : Remembers records done latest)
    (hstep : noteLatest records latest index = .ok latest') :
    Remembers records (done ++ [index]) latest' := by
  intro key
  have hknown := h key
  by_cases hkey : relationship (records.get index) = key
  · subst hkey
    cases hbefore : latest.get? (relationship (records.get index)) with
    | none =>
      simp only [noteLatest, hbefore] at hstep
      obtain rfl := Except.ok.inj hstep
      rw [HashMap.get?_insert_self]
      simp only [hbefore, KnowsOf] at hknown ⊢
      grind
    | some m =>
      simp only [noteLatest, hbefore] at hstep
      split_ifs at hstep with hnewer hconflict
      · obtain rfl := Except.ok.inj hstep
        rw [HashMap.get?_insert_self]
        simp only [hbefore, KnowsOf] at hknown ⊢
        grind
      · obtain rfl := Except.ok.inj hstep
        simp only [hbefore, KnowsOf] at hknown ⊢
        grind
  · -- the other relationships are as before
    have hother : latest'.get? key = latest.get? key := by
      simp only [noteLatest] at hstep
      split at hstep
      · obtain rfl := Except.ok.inj hstep
        exact HashMap.get?_insert_of_ne _ (Ne.symm hkey) _
      · split_ifs at hstep
        · obtain rfl := Except.ok.inj hstep
          exact HashMap.get?_insert_of_ne _ (Ne.symm hkey) _
        · rw [Except.ok.inj hstep]
    rw [hother]
    cases hbefore : latest.get? key <;> simp only [hbefore, KnowsOf] at hknown ⊢ <;> grind

lemma remembers_of_foldlM (h : Remembers records done latest)
    (hfold : todo.foldlM (noteLatest records) latest = .ok latest') :
    Remembers records (done ++ todo) latest' := by
  induction todo generalizing done latest with
  | nil =>
    rw [List.foldlM_nil, pure_eq_ok] at hfold
    rwa [hfold, List.append_nil]
  | cons first rest ih =>
    obtain ⟨next, hnext, hrest⟩ := bind_eq_ok.mp hfold
    rw [List.append_cons]
    exact ih (remembers_of_noteLatest h hnext) hrest

/-- The pass over the rest of the list. -/
lemma foldlM_noteLatest_succeeds_iff (h : Remembers records done latest) :
    (∃ latest', todo.foldlM (noteLatest records) latest = .ok latest') ↔
      ∀ before index after, todo = before ++ index :: after →
        ¬ ((∃ r ∈ (done ++ before).map records.get, Equivocal r (records.get index)) ∧
          NewestAfter ((done ++ before).map records.get) (records.get index)) := by
  induction todo generalizing done latest with
  | nil =>
    refine ⟨fun _ before index after hsplit => ?_, fun _ => ⟨latest, rfl⟩⟩
    simp at hsplit
  | cons first rest ih =>
    simp only [List.foldlM_cons, bind_eq_ok]
    constructor
    · rintro ⟨final, next, hnext, hrest⟩ before index after hsplit
      cases before with
      | nil =>
        obtain ⟨rfl, rfl⟩ := List.cons.inj hsplit
        rw [List.append_nil]
        exact (noteLatest_succeeds_iff h).mp ⟨next, hnext⟩
      | cons b before =>
        obtain ⟨rfl, rfl⟩ := List.cons.inj hsplit
        have hlater := (ih (remembers_of_noteLatest h hnext)).mp ⟨final, hrest⟩ before index after rfl
        rwa [List.append_assoc] at hlater
    · intro hclear
      have hfirst := hclear [] first rest rfl
      rw [List.append_nil] at hfirst
      obtain ⟨next, hnext⟩ := (noteLatest_succeeds_iff h).mpr hfirst
      obtain ⟨final, hfinal⟩ := (ih (remembers_of_noteLatest h hnext)).mpr
        fun before index after hsplit => by
          have hlater := hclear (first :: before) index after (by rw [hsplit]; rfl)
          rwa [List.append_assoc]
      exact ⟨final, next, hnext, hfinal⟩

end Pass

lemma remembers_nil : Remembers records [] ∅ := fun _ _ hi => absurd hi List.not_mem_nil

/-- The version check succeeds exactly when no equivocation is exposed. -/
lemma latest_succeeds_iff :
    (∃ indices, latestMembershipRecordIndices records = .ok indices) ↔
      ¬ ExposedEquivocation records := by
  have hpass : (∃ latest, (List.finRange records.length).foldlM (noteLatest records) ∅ = .ok latest) ↔ _ :=
    foldlM_noteLatest_succeeds_iff remembers_nil
  have hresult : (∃ indices, latestMembershipRecordIndices records = .ok indices) ↔
      ∃ latest, (List.finRange records.length).foldlM (noteLatest records) ∅ = .ok latest := by
    simp only [latestMembershipRecordIndices, bind_eq_ok]
    constructor
    · rintro ⟨_, latest, hlatest, -⟩
      exact ⟨latest, hlatest⟩
    · rintro ⟨latest, hlatest⟩
      exact ⟨_, latest, hlatest, rfl⟩
  rw [hresult, hpass]
  constructor
  · rintro hclear ⟨before, record, after, hsplit, hexposed⟩
    -- the same split, of the indices
    rw [← List.map_get_finRange records] at hsplit
    obtain ⟨indices, rest, hindices, rfl, hrest⟩ := List.map_eq_append_iff.mp hsplit
    obtain ⟨index, rest', rfl, rfl, -⟩ := List.map_eq_cons_iff.mp hrest
    exact hclear indices index rest' hindices hexposed
  · intro hnot before index after hsplit hexposed
    refine hnot ⟨before.map records.get, records.get index, after.map records.get, ?_, hexposed⟩
    conv_lhs => rw [← List.map_get_finRange records, hsplit]
    simp

/-- A conflict-free list passes the version check. -/
lemma latest_ok_of_conflictFree (h : ConflictFree records) :
    ∃ indices, latestMembershipRecordIndices records = .ok indices :=
  latest_succeeds_iff.mpr fun hexposed => not_conflictFree_of_exposed hexposed h

/-- Every relationship of the list is represented among the latest records. -/
lemma exists_latest {indices : List (Fin records.length)}
    (h : latestMembershipRecordIndices records = .ok indices) (index : Fin records.length) :
    ∃ j ∈ indices, relationship (records.get j) = relationship (records.get index) := by
  simp only [latestMembershipRecordIndices, bind_eq_ok, pure_eq_ok] at h
  obtain ⟨latest, hfold, rfl⟩ := h
  have hknown := remembers_of_foldlM remembers_nil hfold (relationship (records.get index))
  cases hget : latest.get? (relationship (records.get index)) with
  | none =>
    rw [hget] at hknown
    exact absurd rfl (hknown index (List.mem_finRange index))
  | some j =>
    rw [hget] at hknown
    obtain ⟨-, hrel, -⟩ := hknown
    refine ⟨j, List.mem_filter.mpr ⟨List.mem_finRange j, ?_⟩, hrel⟩
    rw [hrel, hget]
    simp

end P2pVpn.Membership
