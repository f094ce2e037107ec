/-
# Computations that may fail

Inversion rules for `Except`: a computation that ends well ended well at every step.
-/
import Mathlib.Algebra.Order.Ring.Nat
import Mathlib.Data.List.Basic
import Mathlib.Data.List.Perm.Basic

namespace P2pVpn.Lib

variable {ε α β σ : Type}
  {f : α → Except ε β} {x : Except ε α} {a : α} {l : List α} {bs : List β}

lemma bind_eq_ok {b : β} : x >>= f = .ok b ↔ ∃ a, x = .ok a ∧ f a = .ok b := by
  cases x with
  | error e => simp [bind, Except.bind]
  | ok a => simp [bind, Except.bind]

lemma pure_eq_ok {b : α} : (pure a : Except ε α) = .ok b ↔ b = a := by
  simp [pure, Except.pure, eq_comm]

lemma exists_unit_iff {p : Unit → Prop} : (∃ u, p u) ↔ p () :=
  ⟨fun ⟨_, h⟩ => h, fun h => ⟨(), h⟩⟩

lemma map_fst_eq_ok {x : Except ε (α × β)} : Prod.fst <$> x = .ok a ↔ ∃ b, x = .ok (a, b) := by
  cases x with
  | error e => simp [Functor.map, Except.map]
  | ok p =>
    obtain ⟨p, q⟩ := p
    simp [Functor.map, Except.map, Prod.ext_iff]

/-- Translating errors does not change when a computation ends well. -/
lemma mapError_eq_ok_iff {ε' : Type} {f : ε → ε'} : x.mapError f = .ok a ↔ x = .ok a := by
  cases x <;> simp [Except.mapError]

lemma toOption_eq_some_iff : x.toOption = some a ↔ x = .ok a := by
  cases x <;> simp [Except.toOption]

/-- To see that a computation ends well, and what its value is like, by evaluating it. -/
lemma exists_ok_of_any {p : α → Bool} (h : x.toOption.any p = true) :
    ∃ a, x = .ok a ∧ p a = true := by
  cases x with
  | error e => cases h
  | ok a => exact ⟨a, rfl, h⟩

/-- An early return: fail with `e` when the condition holds. -/
def refuseIf (c : Prop) [Decidable c] (e : ε) : Except ε Unit := if c then .error e else .ok ()

lemma refuseIf_eq_ok {c : Prop} [Decidable c] {e : ε} {u : Unit} : refuseIf c e = .ok u ↔ ¬ c := by
  unfold refuseIf
  split <;> simp_all

/-! ### Errors that do not occur -/

/-- A check over a list passes exactly when it passes on every element. -/
lemma forM_eq_ok {f : α → Except ε Unit} {u : Unit} : l.forM f = .ok u ↔ ∀ a ∈ l, f a = .ok () := by
  induction l with
  | nil => simp [pure, Except.pure]
  | cons a l ih =>
    rw [show (a :: l).forM f = (f a >>= fun _ => l.forM f) from rfl, bind_eq_ok]
    constructor
    · rintro ⟨_, ha, hl⟩ b hb
      rcases List.mem_cons.mp hb with rfl | hb
      · exact ha
      · exact ih.mp hl b hb
    · intro h
      exact ⟨(), h a List.mem_cons_self, ih.mpr fun b hb => h b (List.mem_cons_of_mem a hb)⟩

lemma foldlM_cons_eq_ok {f : σ → α → Except ε σ} {s s' : σ} :
    (a :: l).foldlM f s = .ok s' ↔ ∃ t, f s a = .ok t ∧ l.foldlM f t = .ok s' := by
  rw [List.foldlM_cons, bind_eq_ok]

/-- A property that every successful step keeps holds after a successful fold. -/
lemma foldlM_invariant {f : σ → α → Except ε σ} {P : σ → Prop}
    (hstep : ∀ a ∈ l, ∀ s s', P s → f s a = .ok s' → P s') {s s' : σ} (hs : P s)
    (h : l.foldlM f s = .ok s') : P s' := by
  induction l generalizing s with
  | nil =>
    obtain rfl : s = s' := by simpa [pure, Except.pure] using h
    exact hs
  | cons a l ih =>
    obtain ⟨t, ht, hl⟩ := foldlM_cons_eq_ok.mp h
    exact ih (fun b hb => hstep b (List.mem_cons_of_mem a hb))
      (hstep a List.mem_cons_self s t hs ht) hl

/-- A fold succeeds when every step from a state with the invariant does. -/
lemma foldlM_succeeds {f : σ → α → Except ε σ} {P : σ → Prop}
    (hstep : ∀ a ∈ l, ∀ s, P s → ∃ s', f s a = .ok s' ∧ P s') {s : σ} (hs : P s) :
    ∃ s', l.foldlM f s = .ok s' := by
  induction l generalizing s with
  | nil => exact ⟨s, rfl⟩
  | cons a l ih =>
    obtain ⟨t, ht, hP⟩ := hstep a List.mem_cons_self s hs
    obtain ⟨s', hs'⟩ := ih (fun b hb => hstep b (List.mem_cons_of_mem a hb)) hP
    exact ⟨s', foldlM_cons_eq_ok.mpr ⟨t, ht, hs'⟩⟩

/-- A fold that ends well took every element well. -/
lemma exists_step_of_foldlM {f : σ → α → Except ε σ} {s s' : σ} (h : l.foldlM f s = .ok s')
    (ha : a ∈ l) : ∃ t t', f t a = .ok t' := by
  induction l generalizing s with
  | nil => cases ha
  | cons b l ih =>
    obtain ⟨t, ht, hl⟩ := foldlM_cons_eq_ok.mp h
    rcases List.mem_cons.mp ha with rfl | ha
    · exact ⟨s, t, ht⟩
    · exact ih hl ha

/-- A fold over a permuted list ends in the same state, if steps may change places. -/
lemma foldlM_perm {f : σ → α → Except ε σ} {R : α → α → Prop} (hsymm : ∀ a b, R a b → R b a)
    (hcomm : ∀ a b, R a b → ∀ s t u, f s a = .ok t → f t b = .ok u →
      ∃ t', f s b = .ok t' ∧ f t' a = .ok u) {l' : List α} (hperm : l.Perm l')
    (hpairs : l.Pairwise R) {s s' : σ} (h : l.foldlM f s = .ok s') : l'.foldlM f s = .ok s' := by
  induction hperm generalizing s with
  | nil => exact h
  | cons a _ ih =>
    obtain ⟨t, ht, hl⟩ := foldlM_cons_eq_ok.mp h
    exact foldlM_cons_eq_ok.mpr ⟨t, ht, ih (List.pairwise_cons.mp hpairs).2 hl⟩
  | swap a b l =>
    obtain ⟨t, ht, hl⟩ := foldlM_cons_eq_ok.mp h
    obtain ⟨u, hu, hl⟩ := foldlM_cons_eq_ok.mp hl
    obtain ⟨t', ht', hu'⟩ := hcomm b a ((List.pairwise_cons.mp hpairs).1 a List.mem_cons_self) s t u ht hu
    exact foldlM_cons_eq_ok.mpr ⟨t', ht', foldlM_cons_eq_ok.mpr ⟨u, hu', hl⟩⟩
  | trans hfirst _ ih ih' =>
    exact ih' ((hfirst.pairwise_iff fun {a b} => hsymm a b).mp hpairs) (ih hpairs h)

/-! ## Mapping -/

lemma mapM_cons_eq_ok :
    (a :: l).mapM f = .ok bs ↔ ∃ b rest, f a = .ok b ∧ l.mapM f = .ok rest ∧ bs = b :: rest := by
  rw [List.mapM_cons, bind_eq_ok]
  constructor
  · rintro ⟨b, hb, hrest⟩
    obtain ⟨rest, hrest, hbs⟩ := bind_eq_ok.mp hrest
    exact ⟨b, rest, hb, hrest, (Except.ok.inj hbs).symm⟩
  · rintro ⟨b, rest, hb, hrest, rfl⟩
    exact ⟨b, hb, bind_eq_ok.mpr ⟨rest, hrest, rfl⟩⟩

lemma mapM_succeeds (h : ∀ a ∈ l, ∃ b, f a = .ok b) : ∃ bs, l.mapM f = .ok bs := by
  induction l with
  | nil => exact ⟨[], rfl⟩
  | cons a l ih =>
    obtain ⟨b, hb⟩ := h a List.mem_cons_self
    obtain ⟨bs, hbs⟩ := ih fun x hx => h x (List.mem_cons_of_mem a hx)
    exact ⟨b :: bs, mapM_cons_eq_ok.mpr ⟨b, bs, hb, hbs, rfl⟩⟩

/-- Every element was mapped. -/
lemma exists_mem_of_mapM (h : l.mapM f = .ok bs) (ha : a ∈ l) : ∃ b ∈ bs, f a = .ok b := by
  induction l generalizing bs with
  | nil => cases ha
  | cons a' l ih =>
    obtain ⟨b', rest, hb', hrest, rfl⟩ := mapM_cons_eq_ok.mp h
    rcases List.mem_cons.mp ha with rfl | ha
    · exact ⟨b', List.mem_cons_self, hb'⟩
    · obtain ⟨b, hb, hfa⟩ := ih hrest ha
      exact ⟨b, List.mem_cons_of_mem b' hb, hfa⟩

lemma exists_of_mem_mapM (h : l.mapM f = .ok bs) {b : β} (hb : b ∈ bs) : ∃ a ∈ l, f a = .ok b := by
  induction l generalizing bs with
  | nil =>
    obtain rfl : [] = bs := by simpa [pure, Except.pure] using h
    simp at hb
  | cons a l ih =>
    obtain ⟨b', rest, hb', hrest, rfl⟩ := mapM_cons_eq_ok.mp h
    rcases List.mem_cons.mp hb with rfl | hb
    · exact ⟨a, List.mem_cons_self, hb'⟩
    · obtain ⟨x, hx, hfx⟩ := ih hrest hb
      exact ⟨x, List.mem_cons_of_mem a hx, hfx⟩

/-- What is the same before and after a mapping, element by element. -/
lemma map_eq_of_mapM {γ : Type} {g : β → γ} {g' : α → γ} (h : l.mapM f = .ok bs)
    (hg : ∀ a ∈ l, ∀ b, f a = .ok b → g b = g' a) :
    bs.map g = l.map g' := by
  induction l generalizing bs with
  | nil =>
    obtain rfl : [] = bs := by simpa [pure, Except.pure] using h
    rfl
  | cons a l ih =>
    obtain ⟨b, rest, hb, hrest, rfl⟩ := mapM_cons_eq_ok.mp h
    rw [List.map_cons, List.map_cons, hg a List.mem_cons_self b hb,
      ih hrest fun x hx => hg x (List.mem_cons_of_mem a hx)]

/-- Mapping a permuted list gives a permuted result. -/
lemma mapM_perm {l' : List α} (h : l.Perm l') (hbs : l.mapM f = .ok bs) :
    ∃ bs', l'.mapM f = .ok bs' ∧ bs.Perm bs' := by
  induction h generalizing bs with
  | nil => exact ⟨bs, hbs, List.Perm.refl _⟩
  | cons a _ ih =>
    obtain ⟨b, rest, hb, hrest, rfl⟩ := mapM_cons_eq_ok.mp hbs
    obtain ⟨rest', hrest', hperm⟩ := ih hrest
    exact ⟨b :: rest', mapM_cons_eq_ok.mpr ⟨b, rest', hb, hrest', rfl⟩, hperm.cons b⟩
  | swap a a' l =>
    obtain ⟨b, rest, hb, hrest, rfl⟩ := mapM_cons_eq_ok.mp hbs
    obtain ⟨b', rest', hb', hrest', rfl⟩ := mapM_cons_eq_ok.mp hrest
    exact ⟨b' :: b :: rest', mapM_cons_eq_ok.mpr ⟨b', b :: rest', hb',
      mapM_cons_eq_ok.mpr ⟨b, rest', hb, hrest', rfl⟩, rfl⟩, List.Perm.swap ..⟩
  | trans _ _ ih ih' =>
    obtain ⟨cs, hcs, hperm⟩ := ih hbs
    obtain ⟨ds, hds, hperm'⟩ := ih' hcs
    exact ⟨ds, hds, hperm.trans hperm'⟩

end P2pVpn.Lib
