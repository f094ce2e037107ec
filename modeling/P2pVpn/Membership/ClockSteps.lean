/-
# The clock as a run of steps

`clockReplay` as the list of its steps: at every second memberships run out, and then the records
of the second are accepted one by one (`clockReplay_eq_runSteps`).  No record is accepted twice
(`nodup_accepted`), so what an evaluation remembers as the authoriser of a record is the record its
issuer's state rested on when it was accepted (`eventAuthorizers_runSteps`).
-/
import P2pVpn.Membership.Clock
import P2pVpn.Membership.Dominance

namespace P2pVpn.Membership

open Lib

section Clock

variable {ι : Type} [DecidableEq ι] (record : ι → SignedMembershipRecord)
  (trustedRoots : Finset String)

/-- The steps of the seconds before `t`. -/
def clockSteps (group : ℕ → List ι) : ℕ → List (LedgerStep ι)
  | 0 => []
  | t + 1 =>
      clockSteps group t ++ .expire t ::
        (acceptedInSecond record trustedRoots (runSteps record (clockSteps group t)) t
          (group t)).map .accept

end Clock

variable {ι : Type} [DecidableEq ι] {record : ι → SignedMembershipRecord}
  {trustedRoots : Finset String} {group : ℕ → List ι}

/-! ## The clock as a run of steps -/

lemma runSteps_append_expire (steps : List (LedgerStep ι)) (t : ℕ) (l : List ι) :
    runSteps record (steps ++ .expire t :: l.map .accept)
      = l.foldl (acceptRecord record) (expireGroup record (runSteps record steps) t) := by
  simp only [runSteps, List.foldl_append, List.foldl_cons, List.foldl_map, runStep]

lemma runSteps_clockSteps_succ (t : ℕ) :
    runSteps record (clockSteps record trustedRoots group (t + 1))
      = evaluateSecond record trustedRoots
          (runSteps record (clockSteps record trustedRoots group t)) t (group t) := by
  rw [clockSteps, runSteps_append_expire, evaluateSecond_eq_foldl]

lemma clockReplay_eq_runSteps (t : ℕ) :
    clockReplay record trustedRoots group t
      = runSteps record (clockSteps record trustedRoots group (t + 1)) := by
  induction t with
  | zero => rw [runSteps_clockSteps_succ]; rfl
  | succ t ih => rw [runSteps_clockSteps_succ, ← ih]; rfl

/-- The steps of one second among all. -/
lemma clockSteps_of_lt {t now : ℕ} (h : t < now) :
    ∃ more, clockSteps record trustedRoots group now
      = clockSteps record trustedRoots group t ++ .expire t ::
        (acceptedInSecond record trustedRoots
          (runSteps record (clockSteps record trustedRoots group t)) t (group t)).map .accept ++
        more := by
  induction now with
  | zero => exact absurd h (Nat.not_lt_zero t)
  | succ now ih =>
    rcases Nat.lt_succ_iff_lt_or_eq.mp h with h | rfl
    · obtain ⟨more, hmore⟩ := ih h
      rw [clockSteps, hmore, List.append_assoc]
      exact ⟨_, rfl⟩
    · exact ⟨[], by rw [clockSteps, List.append_nil]⟩

omit [DecidableEq ι] in
lemma filterMap_accepted?_map (l : List ι) :
    (l.map LedgerStep.accept).filterMap LedgerStep.accepted? = l := by
  rw [List.filterMap_map]
  exact List.filterMap_some

lemma accepted_clockSteps_succ (t : ℕ) :
    (clockSteps record trustedRoots group (t + 1)).filterMap LedgerStep.accepted?
      = (clockSteps record trustedRoots group t).filterMap LedgerStep.accepted? ++
        acceptedInSecond record trustedRoots
          (runSteps record (clockSteps record trustedRoots group t)) t (group t) := by
  rw [clockSteps, List.filterMap_append, List.filterMap_cons_none rfl, filterMap_accepted?_map]

/-- A record is accepted in one of the seconds. -/
lemma exists_second_of_accepted_clockSteps {now : ℕ} {i : ι}
    (h : i ∈ (clockSteps record trustedRoots group now).filterMap LedgerStep.accepted?) :
    ∃ t < now, i ∈ acceptedInSecond record trustedRoots
      (runSteps record (clockSteps record trustedRoots group t)) t (group t) := by
  induction now with
  | zero => simp [clockSteps] at h
  | succ now ih =>
    rw [accepted_clockSteps_succ, List.mem_append] at h
    rcases h with h | h
    · obtain ⟨t, ht, hi⟩ := ih h
      exact ⟨t, ht.trans (Nat.lt_succ_self now), hi⟩
    · exact ⟨now, Nat.lt_succ_self now, h⟩

lemma nodup_acceptedInSecond {g : List ι} (hg : g.Nodup) (e : MembershipLedgerEvaluation ι)
    (t : ℕ) : (acceptedInSecond record trustedRoots e t g).Nodup := by
  unfold acceptedInSecond
  refine List.nodup_append.mpr ⟨?_, (hg.filter _).filter _, ?_⟩
  · exact ((settleLog_perm _ _ _).nodup_iff.mpr (hg.filter _)).of_append_left
  · rintro i hi j hj rfl
    exact (mem_group_of_mem_settleLog hi).2 (mem_authorizedRevocations.mp hj).2.1

/-- What the groups of a clock are: the records of each second, each once. -/
structure ClockGroups (record : ι → SignedMembershipRecord) (group : ℕ → List ι) : Prop where
  nodup : ∀ t, (group t).Nodup
  issued : ∀ t, ∀ i ∈ group t, (record i).payload.issuedAtUnixSeconds = t
  unexpired : ∀ t, ∀ i ∈ group t, (record i).isExpiredAt t = false

/-- The clock accepts no record twice. -/
lemma ClockGroups.nodup_clockSteps (h : ClockGroups record group) (now : ℕ) :
    ((clockSteps record trustedRoots group now).filterMap LedgerStep.accepted?).Nodup := by
  induction now with
  | zero => exact List.nodup_nil
  | succ now ih =>
    rw [accepted_clockSteps_succ]
    refine List.nodup_append.mpr ⟨ih, nodup_acceptedInSecond (h.nodup now) _ _, ?_⟩
    rintro i hi j hj rfl
    obtain ⟨t, ht, hit⟩ := exists_second_of_accepted_clockSteps hi
    have ht' := h.issued t i (mem_group_of_mem_acceptedInSecond hit)
    have hnow := h.issued now i (mem_group_of_mem_acceptedInSecond hj)
    omega

/-! ## Remembered authorisers -/

lemma eventAuthorizers_acceptRecord (e : MembershipLedgerEvaluation ι) (index : ι) :
    (acceptRecord record e index).eventAuthorizers = e.eventAuthorizers.insert index
      ((e.states.get? (record index).payload.issuerPeer).map (·.recordIndex)) := by
  unfold acceptRecord
  split <;> rfl

/-- **Remembered authorisers.**  What an evaluation remembers as the authoriser of a record is the
record its issuer's state rested on when it was accepted. -/
theorem eventAuthorizers_runSteps {a b : List (LedgerStep ι)} {i : ι}
    (hnodup : ((a ++ .accept i :: b).filterMap LedgerStep.accepted?).Nodup) :
    (runSteps record (a ++ .accept i :: b)).eventAuthorizers.get? i
      = some (((runSteps record a).states.get? (record i).payload.issuerPeer).map (·.recordIndex)) := by
  induction b using List.reverseRecOn with
  | nil =>
    rw [runSteps_concat, runStep, eventAuthorizers_acceptRecord, HashMap.get?_insert_self]
  | append_singleton b step ih =>
    have hsplit : a ++ .accept i :: (b ++ [step]) = (a ++ .accept i :: b) ++ [step] := by simp
    rw [hsplit, List.filterMap_append] at hnodup
    rw [hsplit, runSteps_concat, ← ih hnodup.of_append_left]
    cases step with
    | expire now => rfl
    | accept j =>
      have hne : i ≠ j := by
        rintro rfl
        refine (List.nodup_append.mp hnodup).2.2 i ?_ i (by simp [LedgerStep.accepted?]) rfl
        exact List.mem_filterMap.mpr ⟨.accept i, by simp, rfl⟩
      rw [runStep, eventAuthorizers_acceptRecord, HashMap.get?_insert_of_ne _ hne]

/-! ## The clock of a history -/

section History

variable {records : List SignedMembershipRecord}

omit [DecidableEq ι] in
lemma clockGroups_issuedInSecond {l : List ι} (hl : l.Nodup)
    (hexpiry : ∀ i ∈ l, (record i).isExpiredAt (record i).payload.issuedAtUnixSeconds = false) :
    ClockGroups record (issuedInSecond record l) := by
  refine ⟨fun t => ?_, fun t i hi => (mem_issuedInSecond.mp hi).2, fun t i hi => ?_⟩
  · exact (List.perm_insertionSort _ _).nodup_iff.mpr (hl.filter _)
  · obtain ⟨hmem, rfl⟩ := mem_issuedInSecond.mp hi
    exact hexpiry i hmem

/-- No record of a valid history is accepted twice. -/
lemma nodup_accepted (hvalid : ∀ r ∈ records, ValidPayload r.payload)
    (trustedRoots : Finset String) (now : ℕ) :
    (evaluateOrdered records.get trustedRoots (orderedIndices records now) now).accepted.Nodup := by
  rw [evaluateOrdered_indices_eq_clockReplay hvalid, clockReplay_eq_runSteps, runSteps_accepted]
  exact (clockGroups_issuedInSecond (List.nodup_finRange _) fun i _ =>
    not_isExpiredAt_issue (hvalid _ (List.get_mem ..))).nodup_clockSteps _

end History

end P2pVpn.Membership
