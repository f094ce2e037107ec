/-
# Reading back what was written

The text of an address is read back as that address (`parseIpAddr_text`), and the text of an address
block as that block (`parseCidr_text`).  Decimal octets and hexadecimal groups are read digit by
digit; the text of an IPv6 address leaves out a run of zeros, which `longestZeros` finds and
`readIpv6` fills in again.
-/
import Mathlib.Tactic.IntervalCases
import P2pVpn.Net.Cidr

namespace P2pVpn.Net

/-! ## Numbers -/

variable {rest input : List Char}

section Digits

variable {radix : ℕ}

section

variable (hradix : radix ≤ 16)
include hradix

lemma toDigit_eq_filter (c : Char) :
    toDigit radix c = (toDigit 16 c).filter (· < radix) := by
  have hbelow : (fun d => decide (d < radix)) = fun d => decide (d < 16) && decide (d < radix) := by
    funext d
    rw [Bool.eq_iff_iff, Bool.and_eq_true, decide_eq_true_eq, decide_eq_true_eq]
    omega
  simp only [toDigit]
  rw [Option.filter_filter, hbelow]

lemma toDigit_digitChar {d : ℕ} (hd : d < radix) :
    toDigit radix d.digitChar = some d := by
  have hall : ∀ d < 16, toDigit 16 d.digitChar = some d := by decide
  rw [toDigit_eq_filter hradix, hall d (by omega)]
  simp [hd]

/-- The digits of a number are digits, and spell it. -/
lemma toDigits_spell (hone : 1 < radix) (n : ℕ) :
    (∀ c ∈ Nat.toDigits radix n, (toDigit radix c).isSome) ∧
      ((Nat.toDigits radix n).filterMap (toDigit radix)).foldl (fun acc d => acc * radix + d) 0
        = n := by
  induction n using Nat.strong_induction_on with
  | h n ih =>
    rcases lt_or_ge n radix with hn | hn
    · rw [Nat.toDigits_of_lt_base hn]
      simp [toDigit_digitChar hradix hn]
    · obtain ⟨hdigits, hvalue⟩ := ih (n / radix) (Nat.div_lt_self (by omega) hone)
      have hlast := toDigit_digitChar hradix (Nat.mod_lt n (by omega : radix > 0))
      rw [Nat.toDigits_of_base_le hone hn]
      constructor
      · intro c hc
        rcases List.mem_append.mp hc with hc | hc
        · exact hdigits c hc
        · rw [List.mem_singleton.mp hc, hlast]
          rfl
      · rw [List.filterMap_append, List.foldl_append, hvalue]
        simp only [List.filterMap_cons, hlast, List.filterMap_nil, List.foldl_cons, List.foldl_nil]
        exact Nat.div_add_mod' n radix

lemma notMem_toDigits (hone : 1 < radix) {c : Char}
    (hc : toDigit radix c = none) (n : ℕ) : c ∉ Nat.toDigits radix n := by
  intro hmem
  have hdigit := (toDigits_spell hradix hone n).1 c hmem
  rw [hc] at hdigit
  cases hdigit

/-- Only the number zero starts with the digit zero. -/
lemma eq_zero_of_head?_toDigits (hone : 1 < radix) {n : ℕ}
    (h : (Nat.toDigits radix n).head? = some '0') : n = 0 := by
  induction n using Nat.strong_induction_on with
  | h n ih =>
    rcases lt_or_ge n radix with hn | hn
    · rw [Nat.toDigits_of_lt_base hn, List.head?_cons, Option.some.injEq] at h
      have hdigit := toDigit_digitChar hradix hn
      have hzero : toDigit radix '0' = some 0 := toDigit_digitChar hradix (by omega : 0 < radix)
      rw [h, hzero] at hdigit
      exact (Option.some.inj hdigit).symm
    · rw [Nat.toDigits_of_base_le hone hn, List.head?_append_of_ne_nil _ Nat.toDigits_ne_nil] at h
      have hzero := ih (n / radix) (Nat.div_lt_self (by omega) hone) h
      have hpos := Nat.div_pos hn (by omega)
      omega

end

/-- The text does not go on with a digit. -/
def EndsNumber (radix : ℕ) (rest : List Char) : Prop := ∀ c ∈ rest.head?, toDigit radix c = none

lemma takeWhile_toDigits (hradix : radix ≤ 16) (hone : 1 < radix) (n : ℕ)
    (hrest : EndsNumber radix rest) :
    (Nat.toDigits radix n ++ rest).takeWhile (fun c => (toDigit radix c).isSome)
      = Nat.toDigits radix n := by
  rw [List.takeWhile_append_of_pos (toDigits_spell hradix hone n).1]
  cases rest with
  | nil => simp
  | cons c rest =>
    rw [List.takeWhile_cons_of_neg (by simp [hrest c rfl]), List.append_nil]

/-- A number is read back, up to the character after its digits. -/
lemma readNumber_toDigits (hradix : radix ≤ 16) (hone : 1 < radix) {n maxDigits maxValue : ℕ}
    (hpos : 0 < maxDigits) (hdigits : n < radix ^ maxDigits) (hvalue : n ≤ maxValue)
    (allowZeroPrefix : Bool) (hrest : EndsNumber radix rest) :
    readNumber radix maxDigits maxValue allowZeroPrefix (Nat.toDigits radix n ++ rest)
      = some (n, rest) := by
  have hlength := (Nat.length_toDigits_le_iff hone hpos).mpr hdigits
  have hzero : ¬ (¬ allowZeroPrefix ∧ (Nat.toDigits radix n).head? = some '0' ∧
      1 < (Nat.toDigits radix n).length) := by
    rintro ⟨-, hhead, hlong⟩
    rw [eq_zero_of_head?_toDigits hradix hone hhead, Nat.toDigits_zero] at hlong
    exact absurd hlong (by decide)
  unfold readNumber
  simp only [takeWhile_toDigits hradix hone n hrest, (toDigits_spell hradix hone n).2]
  rw [if_neg (by simp only [Nat.toDigits_ne_nil, or_false]; omega), if_neg hzero,
    if_neg (by omega), List.drop_left]

lemma EndsNumber.decimal (h : EndsNumber 16 rest) : EndsNumber 10 rest := by
  intro c hc
  rw [toDigit_eq_filter (by decide), h c hc]
  rfl

lemma endsNumber_colon (rest : List Char) : EndsNumber 16 (':' :: rest) := by
  rintro c ⟨⟩
  decide

lemma readNumber_eq_none (hrest : EndsNumber radix rest) (maxDigits maxValue : ℕ)
    (allowZeroPrefix : Bool) :
    readNumber radix maxDigits maxValue allowZeroPrefix rest = none := by
  have hnil : rest.takeWhile (fun c => (toDigit radix c).isSome) = [] := by
    cases rest with
    | nil => rfl
    | cons c rest => exact List.takeWhile_cons_of_neg (by simp [hrest c rfl])
  simp [readNumber, hnil]

lemma readNumber_suffix {maxDigits maxValue value : ℕ} {allowZeroPrefix : Bool}
    (h : readNumber radix maxDigits maxValue allowZeroPrefix input = some (value, rest)) :
    rest <:+ input := by
  simp only [readNumber] at h
  split_ifs at h
  obtain ⟨-, rfl⟩ := Prod.mk.inj (Option.some.inj h)
  exact List.drop_suffix _ _

end Digits

/-! ## IPv4 addresses -/

lemma toList_ipv4Text (bits : ℕ) :
    (ipv4Text bits).toList = Nat.toDigits 10 (bits / 16777216 % 256) ++
      '.' :: (Nat.toDigits 10 (bits / 65536 % 256) ++
        '.' :: (Nat.toDigits 10 (bits / 256 % 256) ++ '.' :: Nat.toDigits 10 (bits % 256))) := by
  simp [ipv4Text]

lemma readNumber_octet {n : ℕ} (hn : n < 256) (hrest : EndsNumber 10 rest) :
    readNumber 10 3 255 false (Nat.toDigits 10 n ++ rest) = some (n, rest) :=
  readNumber_toDigits (by decide) (by decide) (by decide) (by omega) (by omega) false hrest

lemma endsNumber_dot (rest : List Char) : EndsNumber 10 ('.' :: rest) := by
  rintro c ⟨⟩
  decide

lemma readIpv4_text {bits : ℕ} (hbits : bits < 2 ^ 32) (hrest : EndsNumber 10 rest) :
    readIpv4 ((ipv4Text bits).toList ++ rest) = some (BitVec.ofNat 32 bits, rest) := by
  have hoctet : ∀ n, n % 256 < 256 := fun n => Nat.mod_lt n (by decide)
  have hsplit : ((bits / 16777216 % 256 * 256 + bits / 65536 % 256) * 256 + bits / 256 % 256) * 256
      + bits % 256 = bits := by
    omega
  rw [toList_ipv4Text]
  simp only [readIpv4, List.append_assoc, List.cons_append,
    readNumber_octet (hoctet _) (endsNumber_dot _), readNumber_octet (hoctet _) hrest,
    readSeparator, Option.bind_eq_bind, Option.bind_some, if_true, hsplit]
  rfl

lemma readIpv4_eq_none_of_endsNumber (h : EndsNumber 10 input) : readIpv4 input = none := by
  rw [readIpv4, readNumber_eq_none h]
  rfl

/-- What has no dot is no IPv4 address. -/
lemma readIpv4_eq_none (h : '.' ∉ input) : readIpv4 input = none := by
  unfold readIpv4
  cases hnumber : readNumber 10 3 255 false input with
  | none => rfl
  | some read =>
    obtain ⟨value, rest⟩ := read
    have hdot : '.' ∉ rest := fun hmem => h ((readNumber_suffix hnumber).subset hmem)
    have hseparator : readSeparator '.' false rest = none := by
      cases rest with
      | nil => rfl
      | cons c rest =>
        refine if_neg ?_
        rintro rfl
        exact hdot List.mem_cons_self
    simp [hseparator]

/-! ## Groups -/

/-- Groups in hexadecimal, with the separators before them. -/
def groupChars : (first : Bool) → List ℕ → List Char
  | _, [] => []
  | true, group :: groups => Nat.toDigits 16 group ++ groupChars false groups
  | false, group :: groups => ':' :: (Nat.toDigits 16 group ++ groupChars false groups)

lemma toList_groupsText (groups : List ℕ) :
    (groupsText groups).toList = groupChars true groups := by
  have hrest : ∀ group groups, List.intercalate [':'] ((group :: groups).map (Nat.toDigits 16))
      = Nat.toDigits 16 group ++ groupChars false groups := by
    intro group groups
    induction groups generalizing group with
    | nil => simp [List.intercalate, groupChars]
    | cons next groups ih =>
      have := ih next
      simp_all [List.intercalate, groupChars]
  cases groups with
  | nil => rfl
  | cons group groups =>
    rw [groupsText, String.toList_intercalate, List.map_map]
    exact (congrArg (List.intercalate [':']) (List.map_congr_left fun g _ => by simp)).trans
      (hrest group groups)

lemma notMem_groupChars {c : Char} (hdigit : toDigit 16 c = none) (hcolon : c ≠ ':') (first : Bool)
    (groups : List ℕ) : c ∉ groupChars first groups := by
  have hdigits : ∀ n, c ∉ Nat.toDigits 16 n := fun n => notMem_toDigits (by decide) (by decide) hdigit n
  induction groups generalizing first with
  | nil => simp [groupChars]
  | cons group groups ih => cases first <;> simp [groupChars, hdigits, ih, hcolon]

lemma dot_notMem_groupChars (first : Bool) (groups : List ℕ) : '.' ∉ groupChars first groups :=
  notMem_groupChars (by decide) (by decide) first groups

/-- The text does not go on with a part of an address. -/
structure EndsAddress (rest : List Char) : Prop where
  endsNumber : EndsNumber 16 rest
  colon : rest.head? ≠ some ':'
  dot : '.' ∉ rest

lemma endsAddress_nil : EndsAddress [] := ⟨nofun, nofun, nofun⟩

/-- Reading groups ends here: at the end of the address or before the sign for left out zeros. -/
def EndsGroups (rest : List Char) : Prop := EndsAddress rest ∨ ∃ more, rest = ':' :: ':' :: more

lemma EndsGroups.endsNumber (h : EndsGroups rest) : EndsNumber 16 rest := by
  rcases h with h | ⟨more, rfl⟩
  · exact h.endsNumber
  · exact endsNumber_colon _

/-- Without a dot in the text, the branch for embedded IPv4 addresses is not taken. -/
lemma readGroups_succ {limit : ℕ} {first : Bool} (h : '.' ∉ input) :
    readGroups (limit + 1) first input =
      match readSeparator ':' first input >>= readNumber 16 4 65535 true with
      | none => ([], false, input)
      | some (group, rest) =>
          (group :: (readGroups limit false rest).1, (readGroups limit false rest).2.1,
            (readGroups limit false rest).2.2) := by
  have hnone : (if 1 ≤ limit then readSeparator ':' first input >>= readIpv4 else none) = none := by
    split
    · cases hseparator : readSeparator ':' first input with
      | none => rfl
      | some rest =>
        refine readIpv4_eq_none fun hmem => h ?_
        unfold readSeparator at hseparator
        split at hseparator
        · rwa [Option.some.inj hseparator]
        · split at hseparator
          · exact List.mem_cons_of_mem _ (Option.some.inj hseparator ▸ hmem)
          · cases hseparator
        · cases hseparator
    · rfl
  cases hread : readSeparator ':' first input >>= readNumber 16 4 65535 true with
  | none => simp only [readGroups, hnone, hread]
  | some read => simp only [readGroups, hnone, hread]

lemma readGroups_end {limit : ℕ} {first : Bool} (hend : EndsGroups rest) (hdot : '.' ∉ rest) :
    readGroups limit first rest = ([], false, rest) := by
  cases limit with
  | zero => rfl
  | succ limit =>
    rw [readGroups_succ hdot]
    have hnone : readSeparator ':' first rest >>= readNumber 16 4 65535 true = none := by
      cases first with
      | true => exact readNumber_eq_none hend.endsNumber 4 65535 true
      | false =>
        rcases hend with hend | ⟨more, rfl⟩
        · have hseparator : readSeparator ':' false rest = none := by
            cases rest with
            | nil => rfl
            | cons c rest => exact if_neg fun hc => hend.colon (congrArg some hc)
          rw [hseparator]
          rfl
        · exact readNumber_eq_none (endsNumber_colon more) 4 65535 true
    rw [hnone]

/-- Groups are read back. -/
lemma readGroups_groupChars {groups : List ℕ} (hgroups : ∀ g ∈ groups, g < 65536) {limit : ℕ}
    (hlimit : groups.length ≤ limit) (first : Bool) (hend : EndsGroups rest) (hdot : '.' ∉ rest) :
    readGroups limit first (groupChars first groups ++ rest) = (groups, false, rest) := by
  induction groups generalizing limit first with
  | nil => exact readGroups_end hend hdot
  | cons group groups ih =>
    obtain ⟨hgroup, hgroups⟩ := List.forall_mem_cons.mp hgroups
    obtain ⟨limit, rfl⟩ : ∃ k, limit = k + 1 := ⟨limit - 1, by simp at hlimit; omega⟩
    have hafter : EndsNumber 16 (groupChars false groups ++ rest) := by
      cases groups with
      | nil => exact hend.endsNumber
      | cons next groups => exact endsNumber_colon _
    have hnumber : readNumber 16 4 65535 true
        (Nat.toDigits 16 group ++ (groupChars false groups ++ rest))
        = some (group, groupChars false groups ++ rest) :=
      readNumber_toDigits (by decide) (by decide) (by decide) (by omega) (by omega) true hafter
    rw [readGroups_succ (by simp [dot_notMem_groupChars, hdot])]
    have hread : readSeparator ':' first (groupChars first (group :: groups) ++ rest)
        >>= readNumber 16 4 65535 true = some (group, groupChars false groups ++ rest) := by
      cases first <;> simpa [groupChars, readSeparator] using hnumber
    rw [hread]
    simp only [ih hgroups (by simpa using hlimit) false]

/-! ## The run of zeros -/

/-- A run of zeros, by its start and length. -/
def ZeroRun (groups : List ℕ) (run : ℕ × ℕ) : Prop :=
  ∃ before after, groups = before ++ List.replicate run.2 0 ++ after ∧ before.length = run.1

/-- What the loop over the groups has found: a run among them, and a run that ends them. -/
structure ZerosFound (groups : List ℕ) (longest current : ℕ × ℕ) : Prop where
  longest : ZeroRun groups longest
  current : current.2 ≠ 0 →
    ∃ before, groups = before ++ List.replicate current.2 0 ∧ before.length = current.1

lemma zeroRun_longestZeros (groups : List ℕ) : ZeroRun groups (longestZeros groups) := by
  suffices h : ∀ (todo done : List ℕ) (found : (ℕ × ℕ) × (ℕ × ℕ)),
      ZerosFound done found.1 found.2 →
      ZeroRun (done ++ todo) ((todo.zipIdx done.length).foldl
        (fun found entry =>
          if entry.1 = 0 then
            let current : ℕ × ℕ := (if found.2.2 = 0 then entry.2 else found.2.1, found.2.2 + 1)
            (if current.2 > found.1.2 then current else found.1, current)
          else (found.1, (0, 0))) found).1 from
    h groups [] ((0, 0), (0, 0)) ⟨⟨[], [], rfl, rfl⟩, fun h => absurd rfl h⟩
  intro todo
  -- the groups are consumed one by one, and each step keeps what has been found
  induction todo with
  | nil =>
    intro done found hfound
    simpa using hfound.longest
  | cons group todo ih =>
    intro done found hfound
    rw [List.zipIdx_cons, List.foldl_cons, List.append_cons]
    have hlength : done.length + 1 = (done ++ [group]).length := by simp
    rw [hlength]
    refine ih (done ++ [group]) _ ?_
    have hlongest : ZeroRun (done ++ [group]) found.1 := by
      obtain ⟨before, after, hdone, hbefore⟩ := hfound.longest
      exact ⟨before, after ++ [group], by rw [hdone]; simp, hbefore⟩
    by_cases hzero : group = 0
    · have hcurrent : ∃ before, done ++ [group]
          = before ++ List.replicate (found.2.2 + 1) 0 ∧
          before.length = if found.2.2 = 0 then done.length else found.2.1 := by
        by_cases hnone : found.2.2 = 0
        · exact ⟨done, by simp [hnone, hzero], by simp [hnone]⟩
        · obtain ⟨before, hdone, hbefore⟩ := hfound.current hnone
          refine ⟨before, ?_, by simp [hnone, hbefore]⟩
          rw [hdone, hzero, List.append_assoc, ← List.replicate_succ']
      simp only [hzero, if_true] at hcurrent hlongest ⊢
      refine ⟨?_, fun _ => hcurrent⟩
      split
      · obtain ⟨before, hdone, hbefore⟩ := hcurrent
        exact ⟨before, [], by rw [hdone, List.append_nil], hbefore⟩
      · exact hlongest
    · simp only [hzero, if_false]
      exact ⟨hlongest, fun h => absurd rfl h⟩

/-! ## IPv6 addresses -/

lemma length_toGroups (bits : BitVec 128) : (toGroups bits).length = 8 := by simp [toGroups]

lemma lt_of_mem_toGroups {bits : BitVec 128} {group : ℕ} (h : group ∈ toGroups bits) :
    group < 65536 := by
  obtain ⟨i, -, rfl⟩ := List.mem_map.mp h
  exact Nat.mod_lt _ (by decide)

lemma ofGroups_toGroups (bits : BitVec 128) : ofGroups (toGroups bits) = bits := by
  apply BitVec.eq_of_toNat_eq
  have hlt := bits.isLt
  have hrange : List.range 8 = [0, 1, 2, 3, 4, 5, 6, 7] := rfl
  simp only [ofGroups, toGroups, hrange, List.map_cons, List.map_nil, List.foldl_cons,
    List.foldl_nil, BitVec.toNat_ofNat]
  norm_num
  omega

section Ipv6

variable {rest : List Char} (hrest : EndsAddress rest)
include hrest

/-- Eight groups are read back as the address. -/
lemma readIpv6_groupChars (bits : BitVec 128) :
    readIpv6 (groupChars true (toGroups bits) ++ rest) = some (bits, rest) := by
  have hread : readGroups 8 true (groupChars true (toGroups bits) ++ rest)
      = (toGroups bits, false, rest) :=
    readGroups_groupChars (fun _ hg => lt_of_mem_toGroups hg) (length_toGroups bits).le true
      (Or.inl hrest) hrest.dot
  simp only [readIpv6, hread, length_toGroups, if_true, ofGroups_toGroups]

/-- A run of zeros that was left out is filled in. -/
lemma readIpv6_leftOut {bits : BitVec 128} {before after : List ℕ} {len : ℕ} (hlen : 0 < len)
    (hgroups : toGroups bits = before ++ List.replicate len 0 ++ after) :
    readIpv6 (groupChars true before ++ ':' :: ':' :: (groupChars true after ++ rest))
      = some (bits, rest) := by
  have hlength := length_toGroups bits
  rw [hgroups, List.length_append, List.length_append, List.length_replicate] at hlength
  have hmem : ∀ g ∈ before ++ List.replicate len 0 ++ after, g < 65536 :=
    hgroups ▸ fun g hg => lt_of_mem_toGroups hg
  have hbefore : readGroups 8 true
      (groupChars true before ++ ':' :: ':' :: (groupChars true after ++ rest))
      = (before, false, ':' :: ':' :: (groupChars true after ++ rest)) :=
    readGroups_groupChars (fun g hg => hmem g (by simp [hg])) (by omega) true (Or.inr ⟨_, rfl⟩)
      (by simp [dot_notMem_groupChars, hrest.dot])
  have hafter : readGroups (7 - before.length) true (groupChars true after ++ rest)
      = (after, false, rest) :=
    readGroups_groupChars (fun g hg => hmem g (by simp [hg])) (by omega) true (Or.inl hrest)
      hrest.dot
  have hzeros : 8 - before.length - after.length = len := by omega
  simp only [readIpv6, hbefore, hafter, hzeros]
  rw [if_neg (by omega), if_neg (by simp), ← hgroups, ofGroups_toGroups]

/-- An IPv4-mapped address is read back: five groups of zeros that were left out, the mark of such
addresses, and the embedded address as two groups. -/
lemma readIpv6_mapped {bits : BitVec 128} (hmapped : bits.toNat / 4294967296 = 65535) :
    readIpv6 (':' :: ':' :: 'f' :: 'f' :: 'f' :: 'f' :: ':' ::
      ((ipv4Text (bits.toNat % 4294967296)).toList ++ rest)) = some (bits, rest) := by
  set embedded := bits.toNat % 4294967296 with hembedded
  have hlt : embedded < 2 ^ 32 := Nat.mod_lt _ (by decide)
  have hv4 := readIpv4_text hlt hrest.endsNumber.decimal
  generalize (ipv4Text embedded).toList ++ rest = text at hv4 ⊢
  have hlast : readGroups 6 false (':' :: text)
      = ([embedded / 65536, embedded % 65536], true, rest) := by
    have hmod : (BitVec.ofNat 32 embedded).toNat = embedded := by
      rw [BitVec.toNat_ofNat, Nat.mod_eq_of_lt hlt]
    rw [readGroups]
    simp only [readSeparator, if_true, Option.bind_eq_bind, Option.bind_some, hv4,
      if_pos (by decide : 1 ≤ 5), hmod]
  have hmark : readGroups 7 true ('f' :: 'f' :: 'f' :: 'f' :: ':' :: text)
      = ([65535, embedded / 65536, embedded % 65536], true, rest) := by
    have hletter : EndsNumber 10 ('f' :: 'f' :: 'f' :: 'f' :: ':' :: text) := by
      rintro c ⟨⟩
      decide
    have hnumber : readNumber 16 4 65535 true ('f' :: 'f' :: 'f' :: 'f' :: ':' :: text)
        = some (65535, ':' :: text) :=
      readNumber_toDigits (n := 65535) (by decide) (by decide) (by decide) (by decide) le_rfl true
        (endsNumber_colon _)
    rw [readGroups]
    simp only [readSeparator, Option.bind_eq_bind, Option.bind_some, hnumber, hlast,
      readIpv4_eq_none_of_endsNumber hletter, ite_self]
  have hstart : readGroups 8 true (':' :: ':' :: 'f' :: 'f' :: 'f' :: 'f' :: ':' :: text)
      = ([], false, ':' :: ':' :: 'f' :: 'f' :: 'f' :: 'f' :: ':' :: text) := by
    rw [readGroups]
    simp only [readSeparator, Option.bind_eq_bind, Option.bind_some,
      readNumber_eq_none (endsNumber_colon _),
      readIpv4_eq_none_of_endsNumber (endsNumber_colon _).decimal, ite_self]
  have hvalue : ofGroups ([0, 0, 0, 0, 0] ++ [65535, embedded / 65536, embedded % 65536]) = bits := by
    apply BitVec.eq_of_toNat_eq
    simp only [ofGroups, List.cons_append, List.nil_append, List.foldl_cons, List.foldl_nil,
      BitVec.toNat_ofNat]
    have := bits.isLt
    omega
  simp only [readIpv6, hstart, List.length_nil, hmark]
  rw [if_neg (by decide), if_neg (by simp)]
  exact congrArg (fun value => some (value, rest)) hvalue

/-- The text of an IPv6 address is not read as an IPv4 address, but as what it is. -/
lemma readIpv6_text (bits : BitVec 128) :
    readIpv4 ((IpAddr.v6 bits).text.toList ++ rest) = none ∧
      readIpv6 ((IpAddr.v6 bits).text.toList ++ rest) = some (bits, rest) := by
  have hrun := zeroRun_longestZeros (toGroups bits)
  simp only [IpAddr.text]
  generalize longestZeros (toGroups bits) = run at hrun ⊢
  obtain ⟨before, after, hgroups, hbefore⟩ := hrun
  split
  · rename_i hmapped
    have hmark : "::ffff:".toList = [':', ':', 'f', 'f', 'f', 'f', ':'] := rfl
    rw [String.toList_append, hmark]
    exact ⟨readIpv4_eq_none_of_endsNumber (endsNumber_colon _).decimal,
      readIpv6_mapped hrest hmapped⟩
  · split
    · rename_i hlen
      have htake : (toGroups bits).take run.1 = before := by
        rw [hgroups, List.append_assoc]
        exact List.take_left' hbefore
      have hdrop : (toGroups bits).drop (run.1 + run.2) = after := by
        rw [hgroups]
        exact List.drop_left' (by simp [hbefore])
      have hsign : "::".toList = [':', ':'] := rfl
      rw [htake, hdrop, String.toList_append, String.toList_append, hsign, toList_groupsText,
        toList_groupsText, List.append_assoc, List.append_assoc]
      refine ⟨readIpv4_eq_none ?_, readIpv6_leftOut hrest (by omega) hgroups⟩
      simp [dot_notMem_groupChars, hrest.dot]
    · rw [toList_groupsText]
      exact ⟨readIpv4_eq_none (by simp [dot_notMem_groupChars, hrest.dot]),
        readIpv6_groupChars hrest bits⟩

end Ipv6

/-! ## Addresses and blocks -/

/-- **The text of an address** is read back as that address. -/
theorem parseIpAddr_text (address : IpAddr) : parseIpAddr address.text.toList = some address := by
  cases address with
  | v4 bits =>
    have hread : readIpv4 ((ipv4Text bits.toNat).toList ++ []) = some (BitVec.ofNat 32 bits.toNat, []) :=
      readIpv4_text bits.isLt nofun
    rw [List.append_nil, BitVec.ofNat_toNat, BitVec.setWidth_eq] at hread
    simp only [parseIpAddr, IpAddr.text, hread, if_true]
  | v6 bits =>
    obtain ⟨hv4, hv6⟩ := readIpv6_text endsAddress_nil bits
    rw [List.append_nil] at hv4 hv6
    simp only [parseIpAddr, hv4, hv6, if_true]

/-- The text of an address has digits, dots and colons, and nothing else. -/
lemma notMem_text {c : Char} (hdigit : toDigit 16 c = none) (hdot : c ≠ '.') (hcolon : c ≠ ':')
    (address : IpAddr) : c ∉ address.text.toList := by
  have hgroups : ∀ groups, c ∉ (groupsText groups).toList := by
    intro groups
    rw [toList_groupsText]
    exact notMem_groupChars hdigit hcolon true groups
  have hdecimal : toDigit 10 c = none := by
    rw [toDigit_eq_filter (by decide), hdigit]
    rfl
  have hoctets : ∀ bits, c ∉ (ipv4Text bits).toList := by
    intro bits
    have hdigits : ∀ n, c ∉ Nat.toDigits 10 n := notMem_toDigits (by decide) (by decide) hdecimal
    simp [toList_ipv4Text, hdigits, hdot]
  cases address with
  | v4 bits => exact hoctets bits.toNat
  | v6 bits =>
    have hf : c ≠ 'f' := by
      rintro rfl
      exact absurd hdigit (by decide)
    simp only [IpAddr.text]
    split
    · have hmark : "::ffff:".toList = [':', ':', 'f', 'f', 'f', 'f', ':'] := rfl
      simp [String.toList_append, hmark, hoctets, hf, hcolon]
    · split
      · simp [hgroups, hcolon]
      · exact hgroups _

/-- An address has no slash in its text. -/
lemma slash_notMem_text (address : IpAddr) : '/' ∉ address.text.toList :=
  notMem_text (by decide) (by decide) (by decide) address

lemma parseU8_toString {n : ℕ} (hn : n ≤ 255) : parseU8 (toString n).toList = some n := by
  obtain ⟨hdigits, hvalue⟩ := toDigits_spell (by decide : 10 ≤ 16) (by decide) n
  have hplus : ∀ rest, Nat.toDigits 10 n ≠ '+' :: rest := by
    intro rest h
    have hmem : '+' ∈ Nat.toDigits 10 n := h ▸ List.mem_cons_self
    exact notMem_toDigits (by decide) (by decide) (by decide) n hmem
  have hall : (Nat.toDigits 10 n).all (fun c => (toDigit 10 c).isSome) = true :=
    List.all_eq_true.mpr hdigits
  rw [Nat.toString_eq_ofList_toDigits, String.toList_ofList]
  unfold parseU8
  split
  · rename_i rest h
    exact absurd h (hplus rest)
  · simp only [Nat.toDigits_ne_nil, hall, hvalue, not_true_eq_false, or_self, if_false, if_pos hn]

/-- The block with its host bits cleared. -/
def IpCidr.normalized (cidr : IpCidr) : IpCidr where
  address := normalizeAddress cidr.address cidr.prefixLen
  prefixLen := cidr.prefixLen
  prefixLen_le := by
    have hle := cidr.prefixLen_le
    cases haddress : cidr.address <;> rw [haddress] at hle <;> exact hle

lemma IpCidr.prefixLen_le_255 (cidr : IpCidr) : cidr.prefixLen ≤ 255 := by
  refine cidr.prefixLen_le.trans ?_
  cases cidr.address
  · exact (by decide : 32 ≤ 255)
  · exact (by decide : 128 ≤ 255)

/-- The text of an address block is read as the block with its host bits cleared. -/
lemma parseCidr_text_normalized (cidr : IpCidr) :
    parseCidr (cidr.address.text ++ "/" ++ toString cidr.prefixLen) = .ok cidr.normalized := by
  have hlist : (cidr.address.text ++ "/" ++ toString cidr.prefixLen).toList
      = cidr.address.text.toList ++ '/' :: (toString cidr.prefixLen).toList := by
    simp
  have hbefore : ∀ c ∈ cidr.address.text.toList, decide (c ≠ '/') = true := by
    intro c hc
    refine decide_eq_true ?_
    rintro rfl
    exact slash_notMem_text _ hc
  simp only [parseCidr, hlist, List.takeWhile_append_of_pos hbefore,
    List.dropWhile_append_of_pos hbefore]
  rw [List.takeWhile_cons_of_neg (by simp), List.dropWhile_cons_of_neg (by simp), List.append_nil]
  have hfits : cidr.prefixLen ≤ (normalizeAddress cidr.address cidr.prefixLen).width :=
    cidr.normalized.prefixLen_le
  simp only [parseIpAddr_text, parseU8_toString cidr.prefixLen_le_255, IpCidr.new, dif_pos hfits]
  rfl

/-- **The text of an address block** is read back as that block. -/
theorem parseCidr_text {cidr : IpCidr}
    (hcidr : normalizeAddress cidr.address cidr.prefixLen = cidr.address) :
    parseCidr (cidr.address.text ++ "/" ++ toString cidr.prefixLen) = .ok cidr := by
  rw [parseCidr_text_normalized]
  obtain ⟨address, prefixLen, hle⟩ := cidr
  simp only [IpCidr.normalized, hcidr]

lemma normalizeAddress_normalizeAddress (address : IpAddr) (prefixLen : ℕ) :
    normalizeAddress (normalizeAddress address prefixLen) prefixLen
      = normalizeAddress address prefixLen := by
  cases address <;> simp [normalizeAddress, BitVec.and_assoc]

/-- The host bits of a block that was read are clear. -/
lemma normalizeAddress_of_parseCidr {input : String} {cidr : IpCidr}
    (h : parseCidr input = .ok cidr) :
    normalizeAddress cidr.address cidr.prefixLen = cidr.address := by
  simp only [parseCidr] at h
  split at h
  · cases h
  · split at h
    · cases h
    · split at h
      · cases h
      · split at h
        · cases h
        · rename_i hnew
          obtain rfl := Except.ok.inj h
          unfold IpCidr.new at hnew
          split at hnew
          · obtain rfl := Except.ok.inj hnew
            exact normalizeAddress_normalizeAddress _ _
          · cases hnew

end P2pVpn.Net
