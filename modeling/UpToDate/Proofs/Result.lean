namespace UpToDate

variable {ε α β σ : Type}

instance decidableEqResult [DecidableEq ε] [DecidableEq α] : DecidableEq (Except ε α)
  | .ok a, .ok b => decidable_of_iff (a = b) ⟨congrArg Except.ok, Except.ok.inj⟩
  | .error e, .error f => decidable_of_iff (e = f) ⟨congrArg Except.error, Except.error.inj⟩
  | .ok _, .error _ => isFalse nofun
  | .error _, .ok _ => isFalse nofun

theorem eq_ok_of_toOption {x : Except ε α} {a : α} (h : x.toOption = some a) :
    x = .ok a := by
  cases x with
  | error e => cases h
  | ok b => exact congrArg Except.ok (Option.some.inj h)

theorem forM_eq_ok_iff {f : α → Except ε Unit} {l : List α} :
    l.forM f = .ok () ↔ ∀ a ∈ l, f a = .ok () := by
  induction l with
  | nil => simp [List.forM, pure, Except.pure]
  | cons a l ih =>
    rw [List.forall_mem_cons, ← ih, List.forM]
    cases f a <;> simp [bind, Except.bind]

theorem exists_foldlM_iff {f : σ → α → Except ε σ} {P : α → Prop}
    (h : ∀ s a, (∃ s', f s a = .ok s') ↔ P a) (l : List α) (s : σ) :
    (∃ s', l.foldlM f s = .ok s') ↔ ∀ a ∈ l, P a := by
  induction l generalizing s with
  | nil => simp [pure, Except.pure]
  | cons a l ih =>
    rw [List.foldlM_cons, List.forall_mem_cons, ← h s a]
    cases hs : f s a with
    | error e => simp [bind, Except.bind]
    | ok s' => simpa [bind, Except.bind] using ih s'

section Faults

def fault? : Except ε α → Option ε
  | .ok _ => none
  | .error e => some e

theorem fault?_eq_none_iff {x : Except ε α} : fault? x = none ↔ ∃ a, x = .ok a := by
  cases x <;> simp [fault?]

theorem fault?_eq_some_iff {x : Except ε α} {e : ε} : fault? x = some e ↔ x = .error e := by
  cases x <;> simp [fault?]

theorem fault?_bind {x : Except ε α} {f : α → Except ε β} {o : Option ε}
    (h : ∀ a, fault? (f a) = o) : fault? (x >>= f) = (fault? x).or o := by
  cases x with
  | error e => rfl
  | ok a => exact h a

theorem fault?_return {x : Except ε α} {f : α → β} :
    fault? (do return f (← x) : Except ε β) = fault? x := by
  cases x <;> rfl

theorem fault?_mapError {φ : Type} {x : Except ε α} {f : ε → φ} :
    fault? (x.mapError f) = (fault? x).map f := by
  cases x <;> rfl

theorem eq_error_iff_of_fault? {φ : Type} {x : Except ε α} {y : Except φ β} {f : φ → ε}
    (h : fault? x = (fault? y).map f) (e : ε) : x = .error e ↔ ∃ r, y = .error r ∧ e = f r := by
  rw [← fault?_eq_some_iff, h, Option.map_eq_some_iff]
  exact exists_congr fun r ↦ and_congr fault?_eq_some_iff eq_comm

theorem fault?_foldlM {f : σ → α → Except ε σ} {g : α → Option ε}
    (h : ∀ s a, fault? (f s a) = g a) (l : List α) (s : σ) :
    fault? (l.foldlM f s) = l.findSome? g := by
  induction l generalizing s with
  | nil => rfl
  | cons a l ih =>
    rw [List.foldlM_cons, fault?_bind ih, h, List.findSome?_cons]
    cases g a <;> rfl

theorem fault?_forM {f : α → Except ε Unit} (l : List α) :
    fault? (l.forM f) = l.findSome? fun a ↦ fault? (f a) := by
  induction l with
  | nil => rfl
  | cons a l ih =>
    rw [List.forM, fault?_bind fun _ ↦ ih, List.findSome?_cons]
    cases fault? (f a) <;> rfl

end Faults

theorem bind_eq_ok_iff {x : Except ε α} {f : α → Except ε β} {b : β} :
    x >>= f = .ok b ↔ ∃ a, x = .ok a ∧ f a = .ok b := by
  cases x <;> simp [bind, Except.bind]

theorem mapError_eq_ok_iff {φ : Type} {x : Except ε α} {f : ε → φ} {a : α} :
    x.mapError f = .ok a ↔ x = .ok a := by
  cases x with
  | error e => constructor <;> intro h <;> cases h
  | ok b => constructor <;> intro h <;> cases h <;> rfl

theorem guard_eq_ok_iff {c : Prop} [Decidable c] {e : ε} {x : Except ε α} {a : α} :
    (if c then (throw e >>= fun _ : Unit ↦ x) else x) = .ok a ↔ ¬c ∧ x = .ok a := by
  split
  · next h => simp [h, throw, throwThe, MonadExceptOf.throw, bind, Except.bind]
  · next h => simp [h]

end UpToDate
