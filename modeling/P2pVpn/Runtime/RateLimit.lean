/-
# Rate limiting of packets and requests

A bucket holds at most `limit` tokens; an admitted call takes one, and the time since the last
refill is turned back into tokens, rounded down.  A refill restarts the clock, so what is left
over of the elapsed time is not carried to the next one.  `PeerRateLimiters` keeps one bucket
for each peer and `GlobalRateLimiter` one for all callers.

Times are nanoseconds.  The upper bound on what is admitted (`window_bound`) holds for every
limit.  Whether callers that keep to the limit are always admitted depends on the limit:
nothing is left over when it is a multiple of the nanoseconds in a second
(`divisible_admits`), a limit of one or two is too small for the loss to matter
(`small_admits`), and for every other limit a periodic caller is refused (`drain_refuses`).
-/
import P2pVpn.Lib.Arrivals
import P2pVpn.Lib.HashMap
import P2pVpn.Lib.Units
import Mathlib.Tactic.Linarith

namespace P2pVpn.RateLimit

open P2pVpn.Lib

structure PacketRateBucket where
  tokens : ℕ
  refilledAt : ℕ
  deriving DecidableEq, Repr

/-- The tokens an elapsed time is worth, in saturating 64-bit arithmetic. -/
def refillFor (elapsed limit : ℕ) : ℕ :=
  min (min (elapsed / nanosPerSecond * limit) u64Max
    + min (elapsed % nanosPerSecond * limit) u64Max / nanosPerSecond) u64Max

/-- The first half of `take_rate_limit_token`: the refill. -/
def PacketRateBucket.refilled (bucket : PacketRateBucket) (limit now : ℕ) : PacketRateBucket :=
  let refill := refillFor (now - bucket.refilledAt) limit
  if 0 < refill then
    { tokens := min (min (bucket.tokens + min refill u32Max) u32Max) limit
      refilledAt := now }
  else bucket

/-- `take_rate_limit_token`. -/
def takeRateLimitToken (bucket : PacketRateBucket) (limit now : ℕ) : Bool × PacketRateBucket :=
  let bucket := bucket.refilled limit now
  if bucket.tokens = 0 then (false, bucket)
  else (true, { bucket with tokens := bucket.tokens - 1 })

structure PeerRateLimiters (Peer : Type) where
  limitPerSecond : ℕ
  buckets : HashMap Peer PacketRateBucket

structure GlobalRateLimiter where
  limitPerSecond : ℕ
  bucket : PacketRateBucket

section Peers

variable {Peer : Type} [DecidableEq Peer]

namespace PeerRateLimiters

def new (limitPerSecond : ℕ) : PeerRateLimiters Peer where
  limitPerSecond := max limitPerSecond 1
  buckets := ∅

def allow (limiters : PeerRateLimiters Peer) (peer : Peer) (now : ℕ) :
    Bool × PeerRateLimiters Peer :=
  let limit := limiters.limitPerSecond
  let bucket := (limiters.buckets.get? peer).getD { tokens := limit, refilledAt := now }
  let taken := takeRateLimitToken bucket limit now
  (taken.1, { limiters with buckets := limiters.buckets.insert peer taken.2 })

def remove (limiters : PeerRateLimiters Peer) (peer : Peer) : PeerRateLimiters Peer :=
  { limiters with buckets := limiters.buckets.remove peer }

end PeerRateLimiters

/-- A call on the limiters of all peers. -/
inductive LimiterCall (Peer : Type) where
  | allow (peer : Peer) (now : ℕ)
  | remove (peer : Peer)
  deriving DecidableEq

/-- The times at which one peer calls `allow`. -/
def callTimes (peer : Peer) : List (LimiterCall Peer) → List ℕ
  | [] => []
  | .allow caller now :: calls =>
    if caller = peer then now :: callTimes peer calls else callTimes peer calls
  | .remove _ :: calls => callTimes peer calls

/-- The answers one peer gets in a run of calls of all peers, with their times. -/
def PeerRateLimiters.answers (peer : Peer) :
    PeerRateLimiters Peer → List (LimiterCall Peer) → List (ℕ × Bool)
  | _, [] => []
  | limiters, .allow caller now :: calls =>
    let taken := limiters.allow caller now
    if caller = peer then (now, taken.1) :: answers peer taken.2 calls
    else answers peer taken.2 calls
  | limiters, .remove gone :: calls => answers peer (limiters.remove gone) calls

end Peers

namespace GlobalRateLimiter

def new (limitPerSecond now : ℕ) : GlobalRateLimiter where
  limitPerSecond := max limitPerSecond 1
  bucket := { tokens := max limitPerSecond 1, refilledAt := now }

def allow (limiter : GlobalRateLimiter) (now : ℕ) : Bool × GlobalRateLimiter :=
  let taken := takeRateLimitToken limiter.bucket limiter.limitPerSecond now
  (taken.1, { limiter with bucket := taken.2 })

/-- The answers to a sequence of calls, with their times. -/
def answers : GlobalRateLimiter → List ℕ → List (ℕ × Bool)
  | _, [] => []
  | limiter, now :: times => (now, (limiter.allow now).1) :: answers (limiter.allow now).2 times

end GlobalRateLimiter

/-- The number of admitted calls in the closed interval `[start, start + span]`. -/
def admittedWithin (answers : List (ℕ × Bool)) (start span : ℕ) : ℕ :=
  answers.countP fun answer => decide (start ≤ answer.1 ∧ answer.1 ≤ start + span) && answer.2

/-! ## One bucket -/

/-- The answers of one bucket to a sequence of calls, with their times. -/
def takeAll (limit : ℕ) : PacketRateBucket → List ℕ → List (ℕ × Bool)
  | _, [] => []
  | bucket, now :: times =>
    (now, (takeRateLimitToken bucket limit now).1)
      :: takeAll limit (takeRateLimitToken bucket limit now).2 times

lemma refillFor_eq_min (elapsed limit : ℕ) (hlimit : limit ≤ u32Max) :
    refillFor elapsed limit = min (elapsed * limit / nanosPerSecond) u64Max := by
  have hsub : elapsed % nanosPerSecond * limit ≤ u64Max := by
    have hlt : elapsed % nanosPerSecond < nanosPerSecond := Nat.mod_lt _ (by decide)
    calc elapsed % nanosPerSecond * limit
        ≤ nanosPerSecond * u32Max := Nat.mul_le_mul hlt.le hlimit
      _ ≤ u64Max := by decide
  have hwhole : elapsed * limit / nanosPerSecond =
      elapsed / nanosPerSecond * limit + elapsed % nanosPerSecond * limit / nanosPerSecond := by
    have hsplit : elapsed * limit =
        elapsed % nanosPerSecond * limit + elapsed / nanosPerSecond * limit * nanosPerSecond := by
      calc elapsed * limit
          = (nanosPerSecond * (elapsed / nanosPerSecond) + elapsed % nanosPerSecond) * limit := by
            rw [Nat.div_add_mod]
        _ = _ := by ring
    rw [hsplit, Nat.add_mul_div_right _ _ (by decide), Nat.add_comm]
  unfold refillFor
  rw [min_eq_left hsub, hwhole]
  generalize elapsed / nanosPerSecond * limit = whole
  generalize elapsed % nanosPerSecond * limit / nanosPerSecond = part
  omega

variable {limit now : ℕ} {bucket : PacketRateBucket} {times : List ℕ}

/-- Without a whole token nothing changes; otherwise the bucket is refilled up to the limit.
None of the saturating operations can be noticed. -/
lemma refilled_eq (bucket : PacketRateBucket) (hlimit : limit ≤ u32Max) (now : ℕ) :
    bucket.refilled limit now =
      if 0 < (now - bucket.refilledAt) * limit / nanosPerSecond then
        { tokens := min (bucket.tokens + (now - bucket.refilledAt) * limit / nanosPerSecond) limit
          refilledAt := now }
      else bucket := by
  unfold PacketRateBucket.refilled
  rw [refillFor_eq_min _ _ hlimit]
  have hwide : u32Max ≤ u64Max := by decide
  have hpos : 0 < u32Max := by decide
  generalize (now - bucket.refilledAt) * limit / nanosPerSecond = refill
  rcases Nat.eq_zero_or_pos refill with rfl | hrefill
  · rfl
  · have hsome : 0 < min refill u64Max := by omega
    have htokens : min (min (bucket.tokens + min (min refill u64Max) u32Max) u32Max) limit =
        min (bucket.tokens + refill) limit := by omega
    dsimp only
    rw [if_pos hrefill, if_pos hsome, htokens]

lemma take_of_empty (h : (bucket.refilled limit now).tokens = 0) :
    takeRateLimitToken bucket limit now = (false, bucket.refilled limit now) :=
  if_pos h

lemma take_of_pos (h : 0 < (bucket.refilled limit now).tokens) :
    takeRateLimitToken bucket limit now =
      (true, { bucket.refilled limit now with
        tokens := (bucket.refilled limit now).tokens - 1 }) :=
  if_neg h.ne'

section Bucket

variable {limit : ℕ} (hlimit : limit ≤ u32Max) (bucket : PacketRateBucket) (now : ℕ)

include hlimit

lemma refilled_tokens_le (h : bucket.tokens ≤ limit) :
    (bucket.refilled limit now).tokens ≤ limit := by
  rw [refilled_eq bucket hlimit]
  split_ifs
  · exact Nat.min_le_right _ _
  · exact h

lemma refilled_of_same_time (h : bucket.refilledAt = now) : bucket.refilled limit now = bucket := by
  rw [refilled_eq bucket hlimit, h, Nat.sub_self, Nat.zero_mul, Nat.zero_div]
  rfl

lemma refilled_refilled :
    (bucket.refilled limit now).refilled limit now = bucket.refilled limit now := by
  by_cases h : 0 < (now - bucket.refilledAt) * limit / nanosPerSecond
  · refine refilled_of_same_time hlimit _ now ?_
    rw [refilled_eq bucket hlimit, if_pos h]
  · have hsame : bucket.refilled limit now = bucket := by rw [refilled_eq bucket hlimit, if_neg h]
    rw [hsame, hsame]

/-- The first call sees the refilled bucket anyway. -/
lemma takeAll_refilled (times : List ℕ) :
    takeAll limit (bucket.refilled limit now) (now :: times) = takeAll limit bucket (now :: times) := by
  have htake : takeRateLimitToken (bucket.refilled limit now) limit now =
      takeRateLimitToken bucket limit now := by
    unfold takeRateLimitToken
    rw [refilled_refilled hlimit]
  unfold takeAll
  rw [htake]

/-- A refill never gives more than the elapsed time is worth. -/
lemma refilled_worth {deadline : ℕ} (hdeadline : now ≤ deadline) :
    (bucket.refilled limit now).tokens * nanosPerSecond
        + limit * (deadline - (bucket.refilled limit now).refilledAt)
      ≤ bucket.tokens * nanosPerSecond + limit * (deadline - bucket.refilledAt) := by
  rw [refilled_eq bucket hlimit]
  split_ifs with h
  · have hsince : bucket.refilledAt ≤ now := by
      by_contra hlate
      rw [Nat.sub_eq_zero_of_le (by omega), Nat.zero_mul, Nat.zero_div] at h
      exact absurd h (lt_irrefl 0)
    have hworth : (now - bucket.refilledAt) * limit / nanosPerSecond * nanosPerSecond
        ≤ (now - bucket.refilledAt) * limit := Nat.div_mul_le_self _ _
    have hsplit : limit * (deadline - bucket.refilledAt) =
        (now - bucket.refilledAt) * limit + limit * (deadline - now) := by
      have : deadline - bucket.refilledAt = (now - bucket.refilledAt) + (deadline - now) := by omega
      rw [this]
      ring
    have hmin := Nat.mul_le_mul_right nanosPerSecond (Nat.min_le_left
      (bucket.tokens + (now - bucket.refilledAt) * limit / nanosPerSecond) limit)
    rw [Nat.add_mul] at hmin
    dsimp only
    omega
  · exact le_rfl

end Bucket

/-! ## What is admitted in an interval -/

lemma takeAll_times (limit : ℕ) (bucket : PacketRateBucket) (times : List ℕ) :
    (takeAll limit bucket times).map Prod.fst = times := by
  induction times generalizing bucket with
  | nil => rfl
  | cons now times ih =>
    unfold takeAll
    rw [List.map_cons, ih]

lemma time_mem_of_mem_takeAll {answer : ℕ × Bool} (h : answer ∈ takeAll limit bucket times) :
    answer.1 ∈ times := by
  rw [← takeAll_times limit bucket times]
  exact List.mem_map_of_mem h

/-- Up to a deadline a bucket admits at most its tokens and what the time until then is worth. -/
lemma admitted_until_le (hlimit : limit ≤ u32Max) (deadline : ℕ) (hsorted : times.Pairwise (· ≤ ·))
    (bucket : PacketRateBucket) :
    (takeAll limit bucket times).countP (fun answer => decide (answer.1 ≤ deadline) && answer.2)
        * nanosPerSecond
      ≤ bucket.tokens * nanosPerSecond + limit * (deadline - bucket.refilledAt) := by
  induction times generalizing bucket with
  | nil => simp [takeAll]
  | cons now times ih =>
    obtain ⟨hfirst, hrest⟩ := List.pairwise_cons.mp hsorted
    by_cases hnow : now ≤ deadline
    · have hworth := refilled_worth hlimit bucket now hnow
      unfold takeAll
      rcases Nat.eq_zero_or_pos (bucket.refilled limit now).tokens with hempty | hpos
      · have hnext := ih hrest (bucket.refilled limit now)
        rw [take_of_empty hempty, List.countP_cons_of_neg (by simp)]
        dsimp only
        omega
      · have hnext := ih hrest { bucket.refilled limit now with
          tokens := (bucket.refilled limit now).tokens - 1 }
        have htoken : ((bucket.refilled limit now).tokens - 1) * nanosPerSecond + nanosPerSecond =
            (bucket.refilled limit now).tokens * nanosPerSecond := by
          rw [← Nat.succ_mul, Nat.succ_eq_add_one, Nat.sub_add_cancel hpos]
        rw [take_of_pos hpos, List.countP_cons_of_pos (by simpa using hnow), Nat.succ_mul]
        dsimp only at hnext ⊢
        omega
    · -- every later call is past the deadline as well
      have hnone : (takeAll limit bucket (now :: times)).countP
          (fun answer => decide (answer.1 ≤ deadline) && answer.2) = 0 := by
        refine List.countP_eq_zero.mpr fun answer hanswer => ?_
        have hlate : now ≤ answer.1 := by
          rcases List.mem_cons.mp (time_mem_of_mem_takeAll hanswer) with heq | hmem
          · exact heq.ge
          · exact hfirst _ hmem
        simp only [Bool.and_eq_true, decide_eq_true_eq]
        omega
      rw [hnone, Nat.zero_mul]
      exact Nat.zero_le _

/-- In an interval of length `span` at most `limit * (span + 1 s) + 1` calls are admitted. -/
lemma window_bound (hlimit : limit ≤ u32Max) (start span : ℕ) (hsorted : times.Pairwise (· ≤ ·))
    (bucket : PacketRateBucket) (htokens : bucket.tokens ≤ limit) :
    admittedWithin (takeAll limit bucket times) start span * nanosPerSecond
      ≤ limit * (span + nanosPerSecond) + nanosPerSecond := by
  induction times generalizing bucket with
  | nil => simp [takeAll, admittedWithin]
  | cons now times ih =>
    obtain ⟨hfirst, hrest⟩ := List.pairwise_cons.mp hsorted
    by_cases hnow : now < start
    · have hskip : admittedWithin (takeAll limit bucket (now :: times)) start span =
          admittedWithin (takeAll limit (takeRateLimitToken bucket limit now).2 times) start span := by
        rw [takeAll, admittedWithin, List.countP_cons_of_neg (by simp [hnow.not_ge]), admittedWithin]
      rw [hskip]
      refine ih hrest _ ?_
      have hle := refilled_tokens_le hlimit bucket now htokens
      rcases Nat.eq_zero_or_pos (bucket.refilled limit now).tokens with hempty | hpos
      · rw [take_of_empty hempty]
        exact hle
      · rw [take_of_pos hpos]
        exact (Nat.sub_le _ _).trans hle
    · -- the first call of the interval: less than one token's time lies before it
      have hclose : limit * (start + span - (bucket.refilled limit now).refilledAt)
          ≤ limit * span + nanosPerSecond := by
        rw [refilled_eq bucket hlimit]
        split_ifs with hrefill
        · refine (Nat.mul_le_mul_left limit (?_ : _ ≤ span)).trans (Nat.le_add_right _ _)
          dsimp only
          omega
        · have hnone : (now - bucket.refilledAt) * limit < nanosPerSecond :=
            (Nat.div_eq_zero_iff_lt (by decide)).mp (Nat.eq_zero_of_not_pos hrefill)
          calc limit * (start + span - bucket.refilledAt)
              ≤ limit * (span + (now - bucket.refilledAt)) :=
                Nat.mul_le_mul_left limit (by omega)
            _ = limit * span + (now - bucket.refilledAt) * limit := by ring
            _ ≤ limit * span + nanosPerSecond := by omega
      have hall := admitted_until_le hlimit (start + span) hsorted (bucket.refilled limit now)
      have hfull := Nat.mul_le_mul_right nanosPerSecond
        (refilled_tokens_le hlimit bucket now htokens)
      rw [takeAll_refilled hlimit] at hall
      have hcount : admittedWithin (takeAll limit bucket (now :: times)) start span ≤
          (takeAll limit bucket (now :: times)).countP
            (fun answer => decide (answer.1 ≤ start + span) && answer.2) := by
        refine List.countP_mono_left fun answer _ hanswer => ?_
        simp only [Bool.and_eq_true, decide_eq_true_eq] at hanswer ⊢
        exact ⟨hanswer.1.2, hanswer.2⟩
      have hscaled := Nat.mul_le_mul_right nanosPerSecond hcount
      rw [Nat.mul_add]
      omega

/-! ## Callers that keep to the limit -/

/-- Every call of a sequence is admitted. -/
def Admits (limit : ℕ) (bucket : PacketRateBucket) (times : List ℕ) : Prop :=
  ∀ answer ∈ takeAll limit bucket times, answer.2 = true

lemma admits_cons :
    Admits limit bucket (now :: times) ↔ (takeRateLimitToken bucket limit now).1 = true ∧
      Admits limit (takeRateLimitToken bucket limit now).2 times := by
  unfold Admits
  rw [takeAll, List.forall_mem_cons]

/-- A property of the bucket and of the calls answered so far that every conforming call keeps
and that makes it admitted is all it takes. -/
lemma admits_of_invariant (hlimit : limit ≤ u32Max) (holds : List ℕ → PacketRateBucket → Prop)
    (hstep : ∀ past bucket now, holds past bucket → (∀ t ∈ past, t ≤ now) →
      bucket.refilledAt ≤ now → Conforms limit nanosPerSecond (past ++ [now]) →
      0 < (bucket.refilled limit now).tokens ∧
        holds (past ++ [now]) (takeRateLimitToken bucket limit now).2) (past : List ℕ)
    (hholds : holds past bucket) (hsorted : (past ++ times).Pairwise (· ≤ ·))
    (hlater : ∀ t ∈ times, bucket.refilledAt ≤ t)
    (hconforms : Conforms limit nanosPerSecond (past ++ times)) :
    Admits limit bucket times := by
  induction times generalizing past bucket with
  | nil => exact fun answer hanswer => absurd hanswer List.not_mem_nil
  | cons now times ih =>
    have hsplit : past ++ now :: times = (past ++ [now]) ++ times := by simp
    have hpast : ∀ t ∈ past, t ≤ now := fun t ht =>
      (List.pairwise_append.mp hsorted).2.2 t ht now List.mem_cons_self
    have hnow := hlater now List.mem_cons_self
    obtain ⟨hpos, hnext⟩ := hstep past bucket now hholds hpast hnow
      (hconforms.of_sublist (by rw [hsplit]; exact List.sublist_append_left _ _))
    rw [hsplit] at hsorted hconforms
    have hclock : ∀ t ∈ times, (takeRateLimitToken bucket limit now).2.refilledAt ≤ t := by
      intro t ht
      have hle : now ≤ t := (List.pairwise_append.mp hsorted).2.2 now (by simp) t ht
      rw [take_of_pos hpos]
      dsimp only
      rw [refilled_eq bucket hlimit]
      split_ifs
      · exact hle
      · exact hnow.trans hle
    exact admits_cons.mpr ⟨by rw [take_of_pos hpos], ih _ hnext hsorted hclock hconforms⟩

/-- Calls from a time on, all of them up to now, as arrivals of a window. -/
lemma countP_add_one_eq_arrivals {past : List ℕ} {since : ℕ} (hpast : ∀ t ∈ past, t ≤ now)
    (hsince : since ≤ now) :
    past.countP (fun t => decide (since ≤ t)) + 1 =
      arrivals (past ++ [now]) since (now - since + 1) := by
  rw [arrivals_append]
  congr 1
  · refine List.countP_congr fun t ht => ?_
    have hle := hpast t ht
    simp only [decide_eq_true_eq]
    omega
  · unfold arrivals
    rw [List.countP_singleton, if_pos (by simp; omega)]

/-- With a limit of one or two, every refill fills the bucket: a conforming caller does not call
often enough in between. -/
lemma small_admits (hone : 1 ≤ limit) (hsmall : limit ≤ 2) (hfull : bucket.tokens = limit)
    (hsorted : times.Pairwise (· ≤ ·)) (hlater : ∀ t ∈ times, bucket.refilledAt ≤ t)
    (hconforms : Conforms limit nanosPerSecond times) :
    Admits limit bucket times := by
  have hlimit : limit ≤ u32Max := hsmall.trans (by decide)
  -- the tokens and the calls since the last refill add up to the limit
  refine admits_of_invariant hlimit
    (fun past bucket => limit ≤ bucket.tokens
      + past.countP fun t => decide (bucket.refilledAt ≤ t)) ?_ [] (by simp [hfull])
    hsorted hlater hconforms
  intro past bucket now hheld hpast hnow hconforms
  have hcalls := countP_add_one_eq_arrivals hpast hnow
  by_cases hrefill : 0 < (now - bucket.refilledAt) * limit / nanosPerSecond
  · have htokens : (bucket.refilled limit now).tokens = limit := by
      rw [refilled_eq bucket hlimit, if_pos hrefill]
      refine Nat.min_eq_right ?_
      by_cases hsecond : now - bucket.refilledAt < nanosPerSecond
      · have hwindow : arrivals (past ++ [now]) bucket.refilledAt (now - bucket.refilledAt + 1)
            ≤ limit := (arrivals_mono hsecond).trans (hconforms _)
        omega
      · have hmuch : limit ≤ (now - bucket.refilledAt) * limit / nanosPerSecond := by
          rw [Nat.le_div_iff_mul_le (by decide), Nat.mul_comm]
          exact Nat.mul_le_mul_right limit (not_lt.mp hsecond)
        omega
    have hclock : (bucket.refilled limit now).refilledAt = now := by
      rw [refilled_eq bucket hlimit, if_pos hrefill]
    have hpos : 0 < (bucket.refilled limit now).tokens := by omega
    refine ⟨hpos, ?_⟩
    rw [take_of_pos hpos, List.countP_append, List.countP_singleton, if_pos (by simp [hclock])]
    dsimp only
    omega
  · have hsame : bucket.refilled limit now = bucket := by rw [refilled_eq bucket hlimit, if_neg hrefill]
    have hsecond : now - bucket.refilledAt < nanosPerSecond := by
      have hnone : (now - bucket.refilledAt) * limit < nanosPerSecond :=
        (Nat.div_eq_zero_iff_lt (by decide)).mp (Nat.eq_zero_of_not_pos hrefill)
      exact (Nat.le_mul_of_pos_right _ hone).trans_lt hnone
    have hwindow : arrivals (past ++ [now]) bucket.refilledAt (now - bucket.refilledAt + 1) ≤ limit :=
      (arrivals_mono hsecond).trans (hconforms _)
    have hpos : 0 < bucket.tokens := by omega
    have hpos' : 0 < (bucket.refilled limit now).tokens := by rwa [hsame]
    refine ⟨hpos', ?_⟩
    rw [take_of_pos hpos', hsame, List.countP_append, List.countP_singleton,
      if_pos (by simpa using hnow)]
    dsimp only
    omega

/-- When every nanosecond is worth a whole number of tokens, nothing is lost: the missing tokens
are those of a stretch of calls, less what its time was worth. -/
lemma divisible_admits (hone : 1 ≤ limit) (hlimit : limit ≤ u32Max) (hdvd : nanosPerSecond ∣ limit)
    (hfull : bucket.tokens = limit) (hsorted : times.Pairwise (· ≤ ·))
    (hlater : ∀ t ∈ times, bucket.refilledAt ≤ t) (hconforms : Conforms limit nanosPerSecond times) :
    Admits limit bucket times := by
  obtain ⟨each, heach⟩ := hdvd
  have heachPos : 0 < each := by
    by_contra hzero
    rw [Nat.eq_zero_of_not_pos hzero, Nat.mul_zero] at heach
    omega
  refine admits_of_invariant hlimit
    (fun past bucket => ∃ since ≤ bucket.refilledAt,
      limit + each * (bucket.refilledAt - since) ≤
        bucket.tokens + past.countP fun t => decide (since ≤ t)) ?_ []
    ⟨bucket.refilledAt, le_rfl, by simp [hfull]⟩ hsorted hlater hconforms
  rintro past bucket now ⟨since, hsince, hheld⟩ hpast hnow hconforms
  have hexact : (now - bucket.refilledAt) * limit / nanosPerSecond =
      each * (now - bucket.refilledAt) := by
    rw [heach, Nat.mul_comm nanosPerSecond, ← Nat.mul_assoc, Nat.mul_div_cancel _ (by decide),
      Nat.mul_comm]
  have hsame : ¬ 0 < each * (now - bucket.refilledAt) → bucket.refilledAt = now := by
    intro hnone
    have hzero : now - bucket.refilledAt = 0 := by
      by_contra hne
      exact hnone (Nat.mul_pos heachPos (Nat.pos_of_ne_zero hne))
    omega
  -- the refilled bucket, and a stretch that accounts for what it still lacks
  have hclock : (bucket.refilled limit now).refilledAt = now := by
    rw [refilled_eq bucket hlimit, hexact]
    split_ifs with h
    · rfl
    · exact hsame h
  have hstretch : ∃ since ≤ now, limit + each * (now - since) ≤
      (bucket.refilled limit now).tokens + past.countP fun t => decide (since ≤ t) := by
    rw [refilled_eq bucket hlimit, hexact]
    split_ifs with h
    · dsimp only
      rcases Nat.le_total limit (bucket.tokens + each * (now - bucket.refilledAt))
        with hfilled | hshort
      · refine ⟨now, le_rfl, ?_⟩
        rw [Nat.min_eq_right hfilled, Nat.sub_self, Nat.mul_zero]
        omega
      · refine ⟨since, hsince.trans hnow, ?_⟩
        have hsplit : each * (now - since) =
            each * (now - bucket.refilledAt) + each * (bucket.refilledAt - since) := by
          rw [← Nat.mul_add]
          congr 1
          omega
        rw [Nat.min_eq_left hshort, hsplit]
        omega
    · rw [← hsame h]
      exact ⟨since, hsince, hheld⟩
  obtain ⟨since, hsince, hheld⟩ := hstretch
  have hcalls := countP_add_one_eq_arrivals hpast hsince
  have hpos : 0 < (bucket.refilled limit now).tokens := by
    have hmost := hconforms.arrivals_le (by decide) since (now - since)
    have hworth : ((now - since) / nanosPerSecond + 1) * limit ≤ limit + each * (now - since) := by
      have hle := Nat.mul_le_mul_left each (Nat.div_mul_le_self (now - since) nanosPerSecond)
      calc ((now - since) / nanosPerSecond + 1) * limit
          = limit + each * ((now - since) / nanosPerSecond * nanosPerSecond) := by
            rw [heach]
            ring
        _ ≤ _ := Nat.add_le_add_left hle _
    omega
  refine ⟨hpos, since, ?_, ?_⟩
  · rw [take_of_pos hpos]
    dsimp only
    rwa [hclock]
  · rw [take_of_pos hpos, List.countP_append, List.countP_singleton,
      if_pos (by simpa using hsince)]
    dsimp only
    rw [hclock]
    omega

/-! ## A caller that keeps to the limit and is refused -/

/-- The bucket after a sequence of calls. -/
def bucketAfter (limit : ℕ) (bucket : PacketRateBucket) (times : List ℕ) : PacketRateBucket :=
  times.foldl (fun bucket now => (takeRateLimitToken bucket limit now).2) bucket

lemma takeAll_append (limit : ℕ) (bucket : PacketRateBucket) (times more : List ℕ) :
    takeAll limit bucket (times ++ more) =
      takeAll limit bucket times ++ takeAll limit (bucketAfter limit bucket times) more := by
  induction times generalizing bucket with
  | nil => rfl
  | cons now times ih =>
    rw [List.cons_append, takeAll, takeAll, ih, List.cons_append]
    rfl

lemma admits_append {more : List ℕ} :
    Admits limit bucket (times ++ more) ↔
      Admits limit bucket times ∧ Admits limit (bucketAfter limit bucket times) more := by
  unfold Admits
  rw [takeAll_append, List.forall_mem_append]

/-- Every second one call less than the limit at its start, and one more a gap later. -/
def lossyCalls (limit gap : ℕ) : ℕ → ℕ → List ℕ
  | _, 0 => []
  | second, seconds + 1 =>
    List.replicate (limit - 1) (second * nanosPerSecond)
      ++ (second * nanosPerSecond + gap) :: lossyCalls limit gap (second + 1) seconds

lemma le_of_mem_lossyCalls {gap second seconds t : ℕ} (h : t ∈ lossyCalls limit gap second seconds) :
    second * nanosPerSecond ≤ t := by
  induction seconds generalizing second with
  | zero => exact absurd h List.not_mem_nil
  | succ seconds ih =>
    rw [lossyCalls, List.mem_append, List.mem_cons] at h
    rcases h with hburst | rfl | hlater
    · exact (List.eq_of_mem_replicate hburst).ge
    · exact Nat.le_add_right _ _
    · have := ih hlater
      rw [Nat.succ_mul] at this
      omega

lemma lossyCalls_sorted {gap : ℕ} (hgap : gap < nanosPerSecond) (second seconds : ℕ) :
    (lossyCalls limit gap second seconds).Pairwise (· ≤ ·) := by
  induction seconds generalizing second with
  | zero => exact List.Pairwise.nil
  | succ seconds ih =>
    have hafter : ∀ t ∈ lossyCalls limit gap (second + 1) seconds,
        second * nanosPerSecond + gap ≤ t := by
      intro t ht
      have := le_of_mem_lossyCalls ht
      rw [Nat.succ_mul] at this
      omega
    rw [lossyCalls]
    refine List.pairwise_append.mpr ⟨List.pairwise_replicate_of_refl, ?_, ?_⟩
    · exact List.pairwise_cons.mpr ⟨hafter, ih (second + 1)⟩
    · intro t ht u hu
      rw [List.eq_of_mem_replicate ht]
      rcases List.mem_cons.mp hu with rfl | hmem
      · exact Nat.le_add_right _ _
      · exact (Nat.le_add_right _ _).trans (hafter u hmem)

/-- The calls of one kind, one a second. -/
def grid (offset second seconds : ℕ) : List ℕ :=
  (List.range' second seconds).map fun i => i * nanosPerSecond + offset

lemma grid_conforms (offset second seconds : ℕ) :
    Conforms 1 nanosPerSecond (grid offset second seconds) := by
  refine conforms_one_of_spaced (List.pairwise_map.mpr ?_)
  have hordered : (List.range' second seconds).Pairwise (· < ·) := List.pairwise_lt_range'
  refine hordered.imp fun {i j} hlt => ?_
  have hmul := Nat.mul_le_mul_right nanosPerSecond (Nat.succ_le_of_lt hlt)
  rw [Nat.succ_mul] at hmul
  omega

lemma arrivals_lossyCalls (limit gap second seconds start span : ℕ) :
    arrivals (lossyCalls limit gap second seconds) start span =
      (limit - 1) * arrivals (grid 0 second seconds) start span
        + arrivals (grid gap second seconds) start span := by
  induction seconds generalizing second with
  | zero => simp [lossyCalls, grid, arrivals]
  | succ seconds ih =>
    have hcons : ∀ offset, grid offset second (seconds + 1) =
        [second * nanosPerSecond + offset] ++ grid offset (second + 1) seconds := fun _ => rfl
    have hburst : arrivals (List.replicate (limit - 1) (second * nanosPerSecond)) start span =
        (limit - 1) * arrivals [second * nanosPerSecond + 0] start span := by
      unfold arrivals
      rw [List.countP_replicate, List.countP_singleton, Nat.add_zero]
      split_ifs <;> simp
    rw [lossyCalls, ← List.singleton_append, arrivals_append, arrivals_append, ih, hcons, hcons,
      arrivals_append, arrivals_append, hburst]
    ring

lemma lossyCalls_conforms (hone : 1 ≤ limit) (gap second seconds : ℕ) :
    Conforms limit nanosPerSecond (lossyCalls limit gap second seconds) := by
  intro start
  have hburst := Nat.mul_le_mul_left (limit - 1) (grid_conforms 0 second seconds start)
  have hsingle := grid_conforms gap second seconds start
  rw [arrivals_lossyCalls]
  omega

/-- An admitted call: what the bucket has afterwards. -/
lemma admitted_step (hlimit : limit ≤ u32Max) (h : (takeRateLimitToken bucket limit now).1 = true) :
    (takeRateLimitToken bucket limit now).2.tokens + 1
        ≤ bucket.tokens + (now - bucket.refilledAt) * limit / nanosPerSecond ∧
      (nanosPerSecond ≤ (now - bucket.refilledAt) * limit ∨ bucket.refilledAt = now →
        (takeRateLimitToken bucket limit now).2.refilledAt = now) := by
  have hpos : 0 < (bucket.refilled limit now).tokens := by
    by_contra hempty
    rw [take_of_empty (Nat.eq_zero_of_not_pos hempty)] at h
    exact absurd h Bool.false_ne_true
  rw [take_of_pos hpos]
  dsimp only
  rw [refilled_eq bucket hlimit] at hpos ⊢
  split_ifs at hpos ⊢ with hrefill
  · dsimp only at hpos ⊢
    exact ⟨by omega, fun _ => rfl⟩
  · refine ⟨(Nat.sub_add_cancel hpos).le.trans (Nat.le_add_right _ _), ?_⟩
    rintro (hlong | hsame)
    · exact absurd (Nat.div_pos hlong (by decide)) hrefill
    · exact hsame

/-- Calls at the time of the last refill only take tokens. -/
lemma admitted_burst (hlimit : limit ≤ u32Max) (calls : ℕ) (hclock : bucket.refilledAt = now)
    (h : Admits limit bucket (List.replicate calls now)) :
    (bucketAfter limit bucket (List.replicate calls now)).tokens + calls ≤ bucket.tokens ∧
      (bucketAfter limit bucket (List.replicate calls now)).refilledAt = now := by
  induction calls generalizing bucket with
  | zero => exact ⟨le_rfl, hclock⟩
  | succ calls ih =>
    rw [List.replicate_succ, admits_cons] at h
    obtain ⟨htokens, hnext⟩ := admitted_step hlimit h.1
    rw [hclock, Nat.sub_self, Nat.zero_mul, Nat.zero_div] at htokens
    obtain ⟨hle, hafter⟩ := ih (hnext (.inr hclock)) h.2
    rw [List.replicate_succ, bucketAfter, List.foldl_cons, ← bucketAfter]
    exact ⟨by omega, hafter⟩

/-- A gap whose time is not worth a whole number of tokens loses one token a second. -/
lemma worth_of_lossy_gap {gap : ℕ} (hgap : gap < nanosPerSecond)
    (hlossy : ¬ nanosPerSecond ∣ gap * limit) :
    (nanosPerSecond - gap) * limit / nanosPerSecond + gap * limit / nanosPerSecond + 1 = limit := by
  have hpos : 0 < nanosPerSecond := by decide
  have hrest := Nat.mod_lt (gap * limit) hpos
  have hnone : gap * limit % nanosPerSecond ≠ 0 := fun h => hlossy (Nat.dvd_of_mod_eq_zero h)
  have hsplit := Nat.div_add_mod (gap * limit) nanosPerSecond
  have hle : gap * limit / nanosPerSecond + 1 ≤ limit := by
    have hmul : gap * limit < limit * nanosPerSecond := by
      rw [Nat.mul_comm limit]
      refine Nat.mul_lt_mul_of_pos_right hgap (Nat.pos_of_ne_zero fun hzero => hnone ?_)
      rw [hzero, Nat.mul_zero, Nat.zero_mod]
    exact Nat.succ_le_of_lt ((Nat.div_lt_iff_lt_mul hpos).mpr hmul)
  obtain ⟨others, hothers⟩ := Nat.exists_eq_add_of_le hle
  generalize gap * limit / nanosPerSecond = whole at *
  generalize hrem : gap * limit % nanosPerSecond = rest at *
  have hvalue : (nanosPerSecond - gap) * limit =
      (nanosPerSecond - rest) + nanosPerSecond * others := by
    rw [Nat.sub_mul, ← hsplit, hothers, Nat.mul_add, Nat.mul_add]
    omega
  rw [hvalue, Nat.add_mul_div_left _ _ hpos, Nat.div_eq_of_lt (by omega)]
  omega

/-- While the caller is admitted, every second leaves one token less. -/
lemma drained {gap : ℕ} (hlimit : limit ≤ u32Max) (htwo : 2 ≤ limit) (hgap : gap < nanosPerSecond)
    (hlossy : ¬ nanosPerSecond ∣ gap * limit) (hlow : nanosPerSecond ≤ gap * limit)
    (hhigh : nanosPerSecond ≤ (nanosPerSecond - gap) * limit) (second seconds : ℕ)
    (hclock : bucket.refilledAt = second * nanosPerSecond + gap)
    (h : Admits limit bucket (lossyCalls limit gap (second + 1) seconds)) :
    seconds ≤ bucket.tokens := by
  induction seconds generalizing second bucket with
  | zero => exact Nat.zero_le _
  | succ seconds ih =>
    have hsince : (second + 1) * nanosPerSecond - bucket.refilledAt = nanosPerSecond - gap := by
      rw [hclock, Nat.succ_mul]
      omega
    have hburst : limit - 1 = (limit - 2) + 1 := by omega
    rw [lossyCalls, hburst, List.replicate_succ, List.cons_append, admits_cons, admits_append,
      admits_cons] at h
    -- the first call of the second, the others with it, and the one after the gap
    obtain ⟨hadmitFirst, hadmitOthers, hadmitLast, hadmitRest⟩ := h
    obtain ⟨hfirst, hfirstClock⟩ := admitted_step hlimit hadmitFirst
    rw [hsince] at hfirst hfirstClock
    obtain ⟨hothers, hothersClock⟩ := admitted_burst hlimit (limit - 2) (hfirstClock (.inl hhigh))
      hadmitOthers
    obtain ⟨hlast, hlastClock⟩ := admitted_step hlimit hadmitLast
    rw [hothersClock, Nat.add_sub_cancel_left] at hlast hlastClock
    have hrest := ih (second + 1) (hlastClock (.inl hlow)) hadmitRest
    have hworth := worth_of_lossy_gap hgap hlossy
    omega

/-- Above two, a limit that is no multiple of the nanoseconds in a second has a lossy gap. -/
lemma exists_lossy_gap (hthree : 3 ≤ limit) (hdvd : ¬ nanosPerSecond ∣ limit) :
    ∃ gap < nanosPerSecond, ¬ nanosPerSecond ∣ gap * limit ∧ nanosPerSecond ≤ gap * limit ∧
      nanosPerSecond ≤ (nanosPerSecond - gap) * limit := by
  have htwo : 2 ≤ nanosPerSecond := by decide
  generalize nanosPerSecond = second at *
  rcases Nat.lt_or_ge limit second with hlow | hhigh
  · refine ⟨second / limit + 1, ?_⟩
    have hsplit := Nat.div_add_mod second limit
    have hrest := Nat.mod_lt second (show 0 < limit by omega)
    have hworth : (second / limit + 1) * limit = second - second % limit + limit := by
      rw [Nat.add_mul, one_mul, Nat.mul_comm]
      omega
    have hthird := Nat.mul_le_mul_left second hthree
    have hgap : second / limit + 1 < second := by
      by_contra hlarge
      have := Nat.mul_le_mul_right limit (not_lt.mp hlarge)
      omega
    refine ⟨hgap, ?_, ?_, ?_⟩
    · rw [hworth]
      intro hmultiple
      obtain ⟨times, htimes⟩ := hmultiple
      -- strictly between one and two seconds
      rcases times with _ | _ | times
      · omega
      · omega
      · have := Nat.mul_le_mul_left second (show 2 ≤ times + 1 + 1 by omega)
        omega
    · omega
    · rw [Nat.sub_mul]
      omega
  · refine ⟨1, by omega, by rwa [one_mul], by rwa [one_mul], ?_⟩
    have := Nat.mul_le_mul_left (second - 1) (show 2 ≤ limit by omega)
    omega

/-- A caller that keeps to such a limit and is refused within as many seconds as the limit. -/
lemma drain_refuses (hlimit : limit ≤ u32Max) (hunfair : ¬ (limit ≤ 2 ∨ nanosPerSecond ∣ limit)) :
    ∃ first times, (first :: times).Pairwise (· ≤ ·) ∧
      Conforms limit nanosPerSecond (first :: times) ∧
      ¬ Admits limit { tokens := limit, refilledAt := first } (first :: times) := by
  obtain ⟨hlarge, hdvd⟩ := not_or.mp hunfair
  obtain ⟨gap, hgap, hlossy, hlow, hhigh⟩ := exists_lossy_gap (by omega) hdvd
  have hwhole : lossyCalls limit gap 0 (limit + 1) =
      List.replicate (limit - 1) (0 * nanosPerSecond)
        ++ (0 * nanosPerSecond + gap) :: lossyCalls limit gap 1 limit := rfl
  have hsub : (gap :: lossyCalls limit gap 1 limit).Sublist (lossyCalls limit gap 0 (limit + 1)) := by
    rw [hwhole, Nat.zero_mul, Nat.zero_add]
    exact List.sublist_append_right _ _
  refine ⟨gap, lossyCalls limit gap 1 limit, (lossyCalls_sorted hgap 0 (limit + 1)).sublist hsub,
    (lossyCalls_conforms (by omega) gap 0 (limit + 1)).of_sublist hsub, fun hadmits => ?_⟩
  rw [admits_cons] at hadmits
  obtain ⟨htokens, hclock⟩ := admitted_step hlimit hadmits.1
  dsimp only at htokens
  rw [Nat.sub_self, Nat.zero_mul, Nat.zero_div] at htokens
  have hclock := (hclock (.inr rfl)).trans (show gap = 0 * nanosPerSecond + gap by omega)
  have hdrained := drained hlimit (by omega) hgap hlossy hlow hhigh 0 limit hclock hadmits.2
  omega

/-! ## The limiters -/

section Limiters

variable {Peer : Type} [DecidableEq Peer]
  {calls : List (LimiterCall Peer)}

/-- The answers to a peer are those of its bucket; without one it gets a full one at its first call. -/
lemma PeerRateLimiters.answers_eq {peer : Peer} (hkept : LimiterCall.remove peer ∉ calls)
    (limiters : PeerRateLimiters Peer) :
    limiters.answers peer calls = takeAll limiters.limitPerSecond
      ((limiters.buckets.get? peer).getD
        { tokens := limiters.limitPerSecond, refilledAt := (callTimes peer calls).headD 0 })
      (callTimes peer calls) := by
  induction calls generalizing limiters with
  | nil => rfl
  | cons call calls ih =>
    have hrest : LimiterCall.remove peer ∉ calls := fun h => hkept (List.mem_cons_of_mem _ h)
    cases call with
    | allow caller now =>
      rw [answers, callTimes]
      by_cases hcaller : caller = peer
      · subst hcaller
        simp only [if_true, ih hrest, takeAll, allow, HashMap.get?_insert_self, Option.getD_some,
          List.headD_cons]
      · simp only [if_neg hcaller, ih hrest, allow, HashMap.get?_insert_of_ne _ (Ne.symm hcaller)]
    | remove gone =>
      have hne : peer ≠ gone := by
        rintro rfl
        exact hkept List.mem_cons_self
      simp only [answers, callTimes, ih hrest, remove, HashMap.get?_remove, if_neg hne]

lemma callTimes_map_allow (peer : Peer) (times : List ℕ) :
    callTimes peer (times.map (LimiterCall.allow peer)) = times := by
  induction times with
  | nil => rfl
  | cons now times ih => rw [List.map_cons, callTimes, if_pos rfl, ih]

/-- A run of calls in which one peer calls at non-decreasing times and is never removed.  The
limiters may have served other peers before, or this one until it was removed. -/
structure PeerRun (limit : ℕ) (peer : Peer) (limiters : PeerRateLimiters Peer)
    (calls : List (LimiterCall Peer)) : Prop where
  limit_eq : limiters.limitPerSecond = limit
  absent : limiters.buckets.get? peer = none
  kept : LimiterCall.remove peer ∉ calls
  ordered : (callTimes peer calls).Pairwise (· ≤ ·)

lemma PeerRun.answers_eq {peer : Peer} {limiters : PeerRateLimiters Peer}
    (run : PeerRun limit peer limiters calls) :
    limiters.answers peer calls = takeAll limit
      { tokens := limit, refilledAt := (callTimes peer calls).headD 0 } (callTimes peer calls) := by
  rw [PeerRateLimiters.answers_eq run.kept, run.absent, run.limit_eq, Option.getD_none]

end Limiters

lemma GlobalRateLimiter.answers_eq (limiter : GlobalRateLimiter) (times : List ℕ) :
    limiter.answers times = takeAll limiter.limitPerSecond limiter.bucket times := by
  induction times generalizing limiter with
  | nil => rfl
  | cons now times ih =>
    rw [GlobalRateLimiter.answers, takeAll, ih]
    rfl

lemma GlobalRateLimiter.answers_new (hone : 1 ≤ limit) (created : ℕ) (times : List ℕ) :
    (GlobalRateLimiter.new limit created).answers times =
      takeAll limit { tokens := limit, refilledAt := created } times := by
  rw [GlobalRateLimiter.answers_eq, GlobalRateLimiter.new, Nat.max_eq_left hone]

lemma fair_admits (hone : 1 ≤ limit) (hlimit : limit ≤ u32Max)
    (hfair : limit ≤ 2 ∨ nanosPerSecond ∣ limit) {created : ℕ} (hsorted : times.Pairwise (· ≤ ·))
    (hlater : ∀ t ∈ times, created ≤ t) (hconforms : Conforms limit nanosPerSecond times) :
    Admits limit { tokens := limit, refilledAt := created } times := by
  rcases hfair with hsmall | hdvd
  · exact small_admits hone hsmall rfl hsorted hlater hconforms
  · exact divisible_admits hone hlimit hdvd rfl hsorted hlater hconforms

lemma headD_le_of_sorted (hsorted : times.Pairwise (· ≤ ·)) : ∀ t ∈ times, times.headD 0 ≤ t := by
  cases times with
  | nil => exact fun t ht => absurd ht List.not_mem_nil
  | cons first times =>
    exact List.forall_mem_cons.mpr ⟨le_rfl, (List.pairwise_cons.mp hsorted).1⟩

/-- **Rate limiting is sound for every limit, and fair to conforming callers for some.**  In every
interval of length `span` at most `limit * (span + 1 s) + 1` calls are admitted, for one peer
whatever the others do and for the global limiter.  A caller that never makes more than `limit`
calls in a half-open second is always admitted exactly when the limit is at most two or a
multiple of the nanoseconds in a second: for every other limit what a refill rounds away is
missing in the end. -/
theorem rate_limit_sound_and_fair_iff {Peer : Type} [DecidableEq Peer] (peer : Peer) (limit : ℕ)
    (hone : 1 ≤ limit) (hlimit : limit ≤ u32Max) :
    (∀ (limiters : PeerRateLimiters Peer) (calls : List (LimiterCall Peer)),
      PeerRun limit peer limiters calls → ∀ start span,
        admittedWithin (limiters.answers peer calls) start span * nanosPerSecond
          ≤ limit * (span + nanosPerSecond) + nanosPerSecond) ∧
    (∀ (created : ℕ) (times : List ℕ), (created :: times).Pairwise (· ≤ ·) → ∀ start span,
      admittedWithin ((GlobalRateLimiter.new limit created).answers times) start span
          * nanosPerSecond
        ≤ limit * (span + nanosPerSecond) + nanosPerSecond) ∧
    ((∀ (limiters : PeerRateLimiters Peer) (calls : List (LimiterCall Peer)),
      PeerRun limit peer limiters calls → Conforms limit nanosPerSecond (callTimes peer calls) →
        ∀ answer ∈ limiters.answers peer calls, answer.2 = true) ↔
      limit ≤ 2 ∨ nanosPerSecond ∣ limit) ∧
    ((∀ (created : ℕ) (times : List ℕ), (created :: times).Pairwise (· ≤ ·) →
      Conforms limit nanosPerSecond times →
        ∀ answer ∈ (GlobalRateLimiter.new limit created).answers times, answer.2 = true) ↔
      limit ≤ 2 ∨ nanosPerSecond ∣ limit) := by
  refine ⟨?_, ?_, ⟨?_, ?_⟩, ⟨?_, ?_⟩⟩
  · intro limiters calls run start span
    rw [run.answers_eq]
    exact window_bound hlimit start span run.ordered _ le_rfl
  · intro created times hsorted start span
    rw [GlobalRateLimiter.answers_new hone]
    exact window_bound hlimit start span (List.pairwise_cons.mp hsorted).2 _ le_rfl
  · intro hall
    by_contra hunfair
    obtain ⟨first, times, hsorted, hconforms, hrefused⟩ := drain_refuses hlimit hunfair
    have run : PeerRun limit peer (PeerRateLimiters.new limit)
        ((first :: times).map (LimiterCall.allow peer)) :=
      ⟨Nat.max_eq_left hone, HashMap.get?_empty peer, by simp,
        by rwa [callTimes_map_allow]⟩
    have hadmits := hall _ _ run (by rwa [callTimes_map_allow])
    rw [run.answers_eq, callTimes_map_allow] at hadmits
    exact hrefused hadmits
  · intro hfair limiters calls run hconforms
    rw [run.answers_eq]
    exact fair_admits hone hlimit hfair run.ordered (headD_le_of_sorted run.ordered) hconforms
  · intro hall
    by_contra hunfair
    obtain ⟨first, times, hsorted, hconforms, hrefused⟩ := drain_refuses hlimit hunfair
    have hadmits := hall first (first :: times)
      (List.pairwise_cons.mpr ⟨List.forall_mem_cons.mpr
        ⟨le_rfl, (List.pairwise_cons.mp hsorted).1⟩, hsorted⟩) hconforms
    rw [GlobalRateLimiter.answers_new hone] at hadmits
    exact hrefused hadmits
  · intro hfair created times hsorted hconforms
    obtain ⟨hlater, hsorted⟩ := List.pairwise_cons.mp hsorted
    rw [GlobalRateLimiter.answers_new hone]
    exact fair_admits hone hlimit hfair hsorted hlater hconforms

/-- Two requests a second are fair.  Four, the default limit of pairing requests, are not. -/
theorem two_requests_fair_four_not :
    (∀ (limiters : PeerRateLimiters Unit) (calls : List (LimiterCall Unit)),
      PeerRun 2 () limiters calls → Conforms 2 nanosPerSecond (callTimes () calls) →
        ∀ answer ∈ limiters.answers () calls, answer.2 = true) ∧
    ¬ ∀ (limiters : PeerRateLimiters Unit) (calls : List (LimiterCall Unit)),
      PeerRun 4 () limiters calls → Conforms 4 nanosPerSecond (callTimes () calls) →
        ∀ answer ∈ limiters.answers () calls, answer.2 = true := by
  have htwo := (rate_limit_sound_and_fair_iff () 2 (by decide) (by decide)).2.2.1
  have hfour := (rate_limit_sound_and_fair_iff () 4 (by decide) (by decide)).2.2.1
  exact ⟨htwo.mpr (.inl le_rfl), fun hall => absurd (hfour.mp hall) (by decide)⟩

/-- Three calls in every half-open second, and the tenth is refused. -/
theorem conforming_peer_refused :
    let times := [0, 600000000, 990000000, 1000000000, 1600000000, 1990000000, 2000000000,
      2600000000, 2990000000, 3000000000]
    let calls := times.map (LimiterCall.allow ())
    PeerRun 3 () (PeerRateLimiters.new 3) calls ∧
      Conforms 3 nanosPerSecond (callTimes () calls) ∧
      (3000000000, false) ∈ (PeerRateLimiters.new 3).answers () calls := by
  intro times calls
  have run : PeerRun 3 () (PeerRateLimiters.new 3) calls :=
    ⟨rfl, HashMap.get?_empty (), by decide, by decide⟩
  refine ⟨run, conforms_of_starts (by decide), ?_⟩
  rw [run.answers_eq]
  decide +kernel

end P2pVpn.RateLimit
