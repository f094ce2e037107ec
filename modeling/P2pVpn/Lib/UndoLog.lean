/-
# Undo logs

A list of commands, each with a command that undoes it.  A command and its undoing touch one key of
the state only, and the undoing brings that key back to what it was at the start, whatever has
happened to it since.  Then a part of the commands is taken back by the undoings in reverse order,
even if several of them touch the same key (`view_undo`).
-/
import Mathlib.Algebra.Order.Ring.Nat
import Mathlib.Data.List.Basic

namespace P2pVpn.Lib

variable {σ κ ν γ ε : Type}

/-- The commands one after the other, whether they succeed or not. -/
def runAll (execute : γ → σ → Except ε Unit × σ) (commands : List γ) (s : σ) : σ :=
  commands.foldl (fun s command => (execute command s).2) s

/-- A command that touches a key of the state only and brings it back to what it was at the start, in
states with an invariant. -/
structure Resets (view : σ → κ → ν) (inv : σ → Prop) (execute : γ → σ → Except ε Unit × σ) (start : σ)
    (key : κ) (command : γ) : Prop where
  keeps : ∀ s, inv s → inv (execute command s).2
  restores : ∀ s, inv s → view (execute command s).2 key = view start key
  frame : ∀ s k, k ≠ key → view (execute command s).2 k = view s k

/-- A command and its undoing, which touch a key of the state, in states with an invariant. -/
structure Undoes (view : σ → κ → ν) (inv : σ → Prop) (execute : γ → σ → Except ε Unit × σ) (start : σ)
    (key : κ) (command undo : γ) : Prop where
  keeps : ∀ s, inv s → inv (execute command s).2 ∧ inv (execute undo s).2
  frame : ∀ s k, k ≠ key → view (execute command s).2 k = view s k
  restores : ∀ s, inv s → view (execute undo s).2 key = view start key
  undo_frame : ∀ s k, k ≠ key → view (execute undo s).2 k = view s k

variable {view : σ → κ → ν} {inv : σ → Prop} {execute : γ → σ → Except ε Unit × σ} {start : σ} {k : κ}

/-- What the commands do to a key: nothing, or one of them touches it. -/
lemma view_runAll {steps : List (γ × γ)}
    (h : ∀ step ∈ steps, ∃ key, Undoes view inv execute start key step.1 step.2) {s : σ}
    (hs : view s k = view start k) :
    view (runAll execute (steps.map Prod.fst) s) k = view start k ∨
      ∃ step ∈ steps, Undoes view inv execute start k step.1 step.2 := by
  induction steps generalizing s with
  | nil => exact Or.inl hs
  | cons step steps ih =>
    obtain ⟨key, hkey⟩ := h step List.mem_cons_self
    by_cases hk : k = key
    · subst hk
      exact Or.inr ⟨step, List.mem_cons_self, hkey⟩
    · rcases ih (fun step' hstep' => h step' (List.mem_cons_of_mem _ hstep'))
        ((hkey.frame s k hk).trans hs) with hkept | ⟨step', hstep', hundoes⟩
      · exact Or.inl hkept
      · exact Or.inr ⟨step', List.mem_cons_of_mem _ hstep', hundoes⟩

lemma Undoes.resets {key : κ} {command undo : γ}
    (h : Undoes view inv execute start key command undo) :
    Resets view inv execute start key undo :=
  ⟨fun s hs => (h.keeps s hs).2, h.restores, h.undo_frame⟩

/-- A key is as at the start after commands that bring keys back, if it was before or if one of them
touches it. -/
lemma view_runAll_resets {commands : List γ}
    (h : ∀ command ∈ commands, ∃ key, Resets view inv execute start key command) {s : σ}
    (hinv : inv s)
    (hs : view s k = view start k ∨
      ∃ command ∈ commands, Resets view inv execute start k command) :
    view (runAll execute commands s) k = view start k := by
  induction commands generalizing s with
  | nil =>
    rcases hs with hs | ⟨command, hcommand, -⟩
    · exact hs
    · cases hcommand
  | cons command commands ih =>
    obtain ⟨key, hkey⟩ := h command List.mem_cons_self
    refine ih (fun c hc => h c (List.mem_cons_of_mem _ hc)) (hkey.keeps s hinv) ?_
    by_cases hk : k = key
    · subst hk
      exact Or.inl (hkey.restores s hinv)
    · rcases hs with hs | ⟨other, hother, hresets⟩
      · exact Or.inl ((hkey.frame s k hk).trans hs)
      · rcases List.mem_cons.mp hother with rfl | hother
        · exact Or.inl (hresets.restores s hinv)
        · exact Or.inr ⟨other, hother, hresets⟩

lemma inv_runAll {commands : List γ} (h : ∀ command ∈ commands, ∀ s, inv s → inv (execute command s).2)
    {s : σ} (hinv : inv s) : inv (runAll execute commands s) := by
  induction commands generalizing s with
  | nil => exact hinv
  | cons command commands ih =>
    exact ih (fun c hc => h c (List.mem_cons_of_mem _ hc)) (h command List.mem_cons_self s hinv)

/-- Undoing what was done keeps the invariant and brings every key back. -/
theorem view_undo {steps : List (γ × γ)} (hinv : inv start)
    (h : ∀ step ∈ steps, ∃ key, Undoes view inv execute start key step.1 step.2) :
    inv (runAll execute (steps.map Prod.snd).reverse (runAll execute (steps.map Prod.fst) start)) ∧
      ∀ k, view (runAll execute (steps.map Prod.snd).reverse
        (runAll execute (steps.map Prod.fst) start)) k = view start k := by
  have hdone : inv (runAll execute (steps.map Prod.fst) start) := by
    refine inv_runAll (fun command hcommand s hs => ?_) hinv
    obtain ⟨step, hstep, rfl⟩ := List.mem_map.mp hcommand
    obtain ⟨key, hkey⟩ := h step hstep
    exact (hkey.keeps s hs).1
  constructor
  · refine inv_runAll (fun command hcommand s hs => ?_) hdone
    obtain ⟨step, hstep, rfl⟩ := List.mem_map.mp (List.mem_reverse.mp hcommand)
    obtain ⟨key, hkey⟩ := h step hstep
    exact (hkey.keeps s hs).2
  · intro k
    refine view_runAll_resets (fun command hcommand => ?_) hdone ?_
    · obtain ⟨step, hstep, rfl⟩ := List.mem_map.mp (List.mem_reverse.mp hcommand)
      obtain ⟨key, hkey⟩ := h step hstep
      exact ⟨key, hkey.resets⟩
    · refine (view_runAll h rfl).imp id fun ⟨step, hstep, hundoes⟩ => ?_
      exact ⟨step.2, List.mem_reverse.mpr (List.mem_map.mpr ⟨step, hstep, rfl⟩), hundoes.resets⟩

end P2pVpn.Lib
