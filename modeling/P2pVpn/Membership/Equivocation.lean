/-
# Equivocation

An issuer equivocates when it signs two different records of one relationship under one version.  The
version check remembers the highest version of every relationship only, so two such records are noticed
when the second one arrives before anything newer.  This file says exactly which equivocations the
check of a history notices (`equivocation_detected_iff`).
-/
import P2pVpn.Membership.History
import P2pVpn.Membership.Sample

namespace P2pVpn.Membership

open Lib

variable {T K : Type} [DecidableEq T] {records : List SignedMembershipRecord}

/-- **Which equivocations a history check notices.**  For records that are fine one by one, the check
succeeds exactly on the lists without equivocation if and only if an equivocation in the list, if
there is one, is exposed: some record contradicts an earlier one, with nothing newer of their
relationship before it. -/
theorem equivocation_detected_iff (env : Platform T K) {networkName : String}
    (hlength : records.length ≤ maxMembershipRecords)
    (hrecords : ∀ r ∈ records, validateRecord env networkName r = .ok ()) :
    (validateMembershipRecordHistory env records networkName = .ok () ↔ ConflictFree records) ↔
      (¬ ConflictFree records → ExposedEquivocation records) := by
  have hvalid : validateMembershipRecordHistory env records networkName = .ok () ↔
      ¬ ExposedEquivocation records := by
    rw [validateHistory_eq_ok, latest_succeeds_iff]
    exact ⟨fun h => h.2.2, fun h => ⟨hlength, hrecords, h⟩⟩
  rw [hvalid]
  constructor
  · intro hiff hconflict
    by_contra hnot
    exact hconflict (hiff.mp hnot)
  · intro hexposed
    refine ⟨fun hnot => ?_, fun hfree hexp => not_conflictFree_of_exposed hexp hfree⟩
    by_contra hconflict
    exact hnot (hexposed hconflict)

/-- `A` grants `B` membership twice under one version. -/
def sampleEquivocation : List SignedMembershipRecord :=
  [sampleGrant .A .B 1 1 10 none "A1", sampleGrant .A .B 1 1 12 none "A2"]

/-- This is noticed, also if a newer grant follows. -/
theorem sample_equivocation_detected :
    validateMembershipRecordHistory samplePlatform
        (sampleEquivocation ++ [sampleGrant .A .B 1 2 11 none "A3"]) "lab" = .ok () ↔
      ConflictFree (sampleEquivocation ++ [sampleGrant .A .B 1 2 11 none "A3"]) := by
  refine (equivocation_detected_iff samplePlatform (by decide +kernel) (by decide +kernel)).mpr
    fun _ => ?_
  refine ⟨[sampleGrant .A .B 1 1 10 none "A1"], sampleGrant .A .B 1 1 12 none "A2",
    [sampleGrant .A .B 1 2 11 none "A3"], rfl, ⟨_, List.mem_singleton_self _, ?_, ?_⟩, ?_⟩
  · decide +kernel
  · decide +kernel
  · unfold NewestAfter
    decide +kernel

/-- If the newer grant stands between the two, then the history is accepted. -/
theorem equivocation_hidden_by_newer_version :
    let records := [sampleGrant .A .B 1 1 10 none "A1", sampleGrant .A .B 1 2 11 none "A3",
      sampleGrant .A .B 1 1 12 none "A2"]
    records.length ≤ maxMembershipRecords ∧
      (∀ r ∈ records, validateRecord samplePlatform "lab" r = .ok ()) ∧
      validateMembershipRecordHistory samplePlatform records "lab" = .ok () ∧
      ¬ ConflictFree records := by
  decide +kernel

end P2pVpn.Membership
