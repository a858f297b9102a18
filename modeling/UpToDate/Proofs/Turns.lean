import Mathlib.Logic.Function.Basic
import UpToDate.Script

namespace UpToDate.Script

variable {ι σ ε α ν ω : Type}

def value? : Script σ ε α → Option α
  | done a => some a
  | _ => none

theorem value?_eq_some_iff {x : Script σ ε α} {a : α} : x.value? = some a ↔ x = .done a := by
  cases x <;> simp [value?]

/-- Scripts at work on one state: what remains of each, the state, and who has ended with what, the
last one first. -/
structure Crew (ι σ α : Type) where
  rest : ι → Script σ Empty α
  state : σ
  ended : List (ι × α)

namespace Crew

variable [DecidableEq ι]

def start (x : ι → Script σ Empty α) (s : σ) : Crew ι σ α := ⟨x, s, []⟩

def turn (c : Crew ι σ α) (i : ι) : Crew ι σ α :=
  match c.rest i with
  | .step f next =>
    let x := next (f c.state).1
    ⟨Function.update c.rest i x, (f c.state).2, (x.value?.map (i, ·)).toList ++ c.ended⟩
  | _ => c

def run (c : Crew ι σ α) (order : List ι) : Crew ι σ α := order.foldl turn c

theorem turn_cases (c : Crew ι σ α) (i : ι) :
    c.turn i = c ∨ ∃ (β : Type) (f : σ → β × σ) (next : β → Script σ Empty α),
      c.rest i = .step f next ∧
      c.turn i = ⟨Function.update c.rest i (next (f c.state).1), (f c.state).2,
        ((next (f c.state).1).value?.map (i, ·)).toList ++ c.ended⟩ := by
  unfold turn
  split
  · next f next h => exact .inr ⟨_, f, next, h, rfl⟩
  · exact .inl rfl

/-- What holds at first and is kept by every turn holds in every order of turns. -/
theorem run_induction {P : Crew ι σ α → Prop} {c : Crew ι σ α} (h : P c)
    (hturn : ∀ c i, P c → P (c.turn i)) (order : List ι) : P (c.run order) := by
  induction order generalizing c with
  | nil => exact h
  | cons i order ih => exact ih (hturn c i h)

theorem mem_ended_iff {x : ι → Script σ Empty α} {s : σ} (hx : ∀ i, (x i).value? = none)
    (order : List ι) {i : ι} {a : α} : (i, a) ∈ ((start x s).run order).ended ↔
      ((start x s).run order).rest i = .done a := by
  simp only [← value?_eq_some_iff]
  revert i a
  refine run_induction (P := fun c ↦ ∀ {i a}, (i, a) ∈ c.ended ↔ (c.rest i).value? = some a)
    ?_ ?_ order
  · intro i a
    change (i, a) ∈ [] ↔ (x i).value? = some a
    simp [hx i]
  · intro c j hc i a
    rcases turn_cases c j with hsame | ⟨β, f, next, hrest, hturn⟩
    · rw [hsame]
      exact hc
    · rw [hturn]
      dsimp only
      rw [List.mem_append, hc]
      by_cases hij : i = j
      · -- the script had a step left, so it had not ended
        subst hij
        rw [Function.update_self, hrest]
        simp [value?]
      · rw [Function.update_of_ne hij]
        simp [Ne.symm hij]

end Crew

section Accounts

/-- An account of what scripts may do on one state. -/
structure Account (ι σ α ν ω : Type) where
  /-- A view tells of a state. -/
  sees : ν → σ → Prop
  /-- What a turn of a script may do to the view, and the value if it ends with the turn. -/
  does : ι → ν → ν → Option α → Prop
  /-- The part of the view that only one script changes. -/
  own : ι → ν → ω
  /-- What a script may leave of its own when it ends with a value. -/
  leaves : ι → ω → α → Prop
  own_eq : ∀ {i j : ι} {v v' : ν} {a : Option α}, i ≠ j → does i v v' a → own j v' = own j v

namespace Account

variable (A : Account ι σ α ν ω)

/-- Every turn of what remains of a script does what it may do, whatever becomes of the rest of the
view in between. -/
def Admits (i : ι) : ω → Script σ Empty α → Prop
  | x, .done a => A.leaves i x a
  | x, .step f next => ∀ v s, A.sees v s → A.own i v = x →
    ∃ v', A.sees v' (f s).2 ∧ A.does i v v' (next (f s).1).value? ∧
      Admits i (A.own i v') (next (f s).1)
  | _, .log _ _ => True

def Allows (i : ι) (v : ν) (s : σ) (y : Script σ Empty α) : Prop :=
  ∃ v', A.sees v' s ∧ A.does i v v' y.value? ∧ A.Admits i (A.own i v') y

variable {A} in
theorem admits_step {β : Type} {f : σ → β × σ} {next : β → Script σ Empty α} {i : ι} {x : ω}
    (h : ∀ v s, A.sees v s → A.own i v = x → A.Allows i v (f s).2 (next (f s).1)) :
    A.Admits i x (.step f next) :=
  h

/-- What scripts have done to a view by turns, and who has ended with what, the last one first. -/
inductive Story (v₀ : ν) : List (ι × α) → ν → Prop
  | start : Story v₀ [] v₀
  | turn {l : List (ι × α)} {v v' : ν} {i : ι} {a : Option α} : Story v₀ l v →
      A.does i v v' a → Story v₀ ((a.map (i, ·)).toList ++ l) v'

/-- A view of what a crew has come to: a story leads to it, and all that remains is admitted. -/
structure Tells (v₀ : ν) (c : Crew ι σ α) (v : ν) : Prop where
  story : A.Story v₀ c.ended v
  sees : A.sees v c.state
  admits : ∀ i, A.Admits i (A.own i v) (c.rest i)

variable {A} [DecidableEq ι] {v₀ : ν}

theorem Tells.turn {c : Crew ι σ α} {v : ν} (h : A.Tells v₀ c v) (i : ι) :
    ∃ v', A.Tells v₀ (c.turn i) v' := by
  rcases c.turn_cases i with hsame | ⟨β, f, next, hrest, hturn⟩
  · exact ⟨v, hsame.symm ▸ h⟩
  · have hadmits := h.admits i
    rw [hrest] at hadmits
    obtain ⟨v', hsees, hdoes, hnext⟩ := hadmits v c.state h.sees rfl
    refine ⟨v', ?_⟩
    rw [hturn]
    refine ⟨h.story.turn hdoes, hsees, fun j ↦ ?_⟩
    dsimp only
    by_cases hij : j = i
    · rw [hij, Function.update_self]
      exact hnext
    · rw [Function.update_of_ne hij, A.own_eq (Ne.symm hij) hdoes]
      exact h.admits j

theorem exists_tells {x : ι → Script σ Empty α} {s : σ} (hsees : A.sees v₀ s)
    (hx : ∀ i, A.Admits i (A.own i v₀) (x i)) (order : List ι) :
    ∃ v, A.Tells v₀ ((Crew.start x s).run order) v :=
  Crew.run_induction (P := fun c ↦ ∃ v, A.Tells v₀ c v) ⟨v₀, .start, hsees, hx⟩
    (fun _ i h ↦ h.elim fun _ hv ↦ hv.turn i) order

end Account

end Accounts

end UpToDate.Script
