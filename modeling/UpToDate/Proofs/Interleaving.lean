import UpToDate.Script

namespace UpToDate.Script

variable {σ ε α β γ φ : Type}

/-- Two scripts on one state, step by step in some order, up to the values they end with. -/
inductive Interleaving : Script σ ε α → Script σ ε β → σ → α → β → σ → Prop
  | done (a : α) (b : β) (s : σ) : Interleaving (.done a) (.done b) s a b s
  | stepLeft {γ : Type} {f : σ → γ × σ} {next : γ → Script σ ε α} {y : Script σ ε β} {s t : σ}
      {a : α} {b : β} : Interleaving (next (f s).1) y (f s).2 a b t →
      Interleaving (.step f next) y s a b t
  | stepRight {γ : Type} {f : σ → γ × σ} {next : γ → Script σ ε β} {x : Script σ ε α} {s t : σ}
      {a : α} {b : β} : Interleaving x (next (f s).1) (f s).2 a b t →
      Interleaving x (.step f next) s a b t
  | logLeft {e : ε} {x : Script σ ε α} {y : Script σ ε β} {s t : σ} {a : α} {b : β} :
      Interleaving x y s a b t → Interleaving (.log e x) y s a b t
  | logRight {e : ε} {x : Script σ ε α} {y : Script σ ε β} {s t : σ} {a : α} {b : β} :
      Interleaving x y s a b t → Interleaving x (.log e y) s a b t

section Sequences

theorem interleaving_done (a : α) (y : Script σ ε β) (s : σ) :
    Interleaving (.done a) y s a (y.run s).value (y.run s).state := by
  induction y generalizing s with
  | done b => exact .done a b s
  | step f next ih => exact .stepRight (ih _ _)
  | log e next ih => exact .logRight (ih s)

theorem interleaving_run (x : Script σ ε α) (y : Script σ ε β) (s : σ) :
    Interleaving x y s (x.run s).value (y.run (x.run s).state).value
      (y.run (x.run s).state).state := by
  induction x generalizing s with
  | done a => exact interleaving_done a y s
  | step f next ih => exact .stepLeft (ih _ _)
  | log e next ih => exact .logLeft (ih s)

theorem Interleaving.symm {x : Script σ ε α} {y : Script σ ε β} {s t : σ} {a : α} {b : β}
    (h : Interleaving x y s a b t) : Interleaving y x s b a t := by
  induction h with
  | done a b s => exact .done b a s
  | stepLeft _ ih => exact .stepRight ih
  | stepRight _ ih => exact .stepLeft ih
  | logLeft _ ih => exact .logRight ih
  | logRight _ ih => exact .logLeft ih

end Sequences

section Following

/-- What a script does in a state that it shares with another one. `Rel s u t` relates its own state
`s` when it runs alone and that of the other, `u`, to the shared state `t`: every step gives the
same in both of its states and keeps the relation. -/
inductive Follows (Rel : σ → σ → σ → Prop) : Script σ ε α → σ → Prop
  | done (a : α) (s : σ) : Follows Rel (.done a) s
  | step {γ : Type} {f : σ → γ × σ} {next : γ → Script σ ε α} {s : σ} :
      (∀ u t, Rel s u t → (f t).1 = (f s).1 ∧ Rel (f s).2 u (f t).2) →
      Follows Rel (next (f s).1) (f s).2 → Follows Rel (.step f next) s
  | log {e : ε} {x : Script σ ε α} {s : σ} : Follows Rel x s → Follows Rel (.log e x) s

variable {Rel : σ → σ → σ → Prop}

theorem Follows.bind {x : Script σ ε α} {k : α → Script σ ε β} {s : σ} (h : Follows Rel x s)
    (hk : Follows Rel (k (x.run s).value) (x.run s).state) : Follows Rel (x.bind k) s := by
  induction h with
  | done a s => exact hk
  | step hf _ ih => exact .step hf (ih hk)
  | log _ ih => exact .log (ih hk)

/-- In every order two scripts that follow end as they do alone, in a state that is related to those
in which they end alone. -/
theorem Interleaving.eq_run {x : Script σ ε α} {y : Script σ ε β} {s₁ s₂ t t' : σ} {a : α} {b : β}
    (h : Interleaving x y t a b t') (ht : Rel s₁ s₂ t) (hx : Follows Rel x s₁)
    (hy : Follows (fun u s t ↦ Rel s u t) y s₂) :
    a = (x.run s₁).value ∧ b = (y.run s₂).value ∧ Rel (x.run s₁).state (y.run s₂).state t' := by
  -- on the order of the steps: whoever takes the next one keeps the relation and goes on following
  induction h generalizing s₁ s₂ with
  | done a b t => exact ⟨rfl, rfl, ht⟩
  | stepLeft _ ih =>
    cases hx with
    | step hf hnext =>
      obtain ⟨hanswer, hrel⟩ := hf s₂ _ ht
      rw [hanswer] at ih
      exact ih hrel hnext hy
  | stepRight _ ih =>
    cases hy with
    | step hf hnext =>
      obtain ⟨hanswer, hrel⟩ := hf s₁ _ ht
      rw [hanswer] at ih
      exact ih hrel hx hnext
  | logLeft _ ih =>
    cases hx with
    | log hx => exact ih ht hx hy
  | logRight _ ih =>
    cases hy with
    | log hy => exact ih ht hx hy

section Faults

variable {x : ExceptT φ (Script σ ε) α} {s : σ} {Q R : Except φ α → σ → Prop}

/-- A script that may fail follows, and ends alone with a value and a state that satisfy a
condition. -/
structure FollowsTo (Rel : σ → σ → σ → Prop) (x : ExceptT φ (Script σ ε) α) (s : σ)
    (Q : Except φ α → σ → Prop) : Prop where
  follows : Follows Rel x.run s
  holds : Q (x.run.run s).value (x.run.run s).state

theorem FollowsTo.mono (h : FollowsTo Rel x s R) (hR : ∀ v t, R v t → Q v t) :
    FollowsTo Rel x s Q :=
  ⟨h.follows, hR _ _ h.holds⟩

theorem followsTo_pure {a : α} (h : Q (.ok a) s) : FollowsTo (ε := ε) Rel (pure a) s Q :=
  ⟨.done _ _, h⟩

theorem followsTo_throw {e : φ} (h : Q (.error e) s) : FollowsTo (ε := ε) Rel (throw e) s Q :=
  ⟨.done _ _, h⟩

theorem followsTo_emit {e : ε} {Q : Except φ Unit → σ → Prop} (h : Q (.ok ()) s) :
    FollowsTo Rel (ExceptT.lift (emit e)) s Q :=
  ⟨.log (.done _ _), h⟩

theorem followsTo_act {ψ : Type} {f : σ → Except ψ α × σ} {g : ψ → φ}
    (hf : ∀ u t, Rel s u t → (f t).1 = (f s).1 ∧ Rel (f s).2 u (f t).2)
    (h : Q ((f s).1.mapError g) (f s).2) :
    FollowsTo (ε := ε) Rel (ExceptT.mk do return (← act f).mapError g) s Q :=
  ⟨.step hf (.done _ _), h⟩

theorem FollowsTo.andThen {ψ : Type} {k : Except φ α → ExceptT ψ (Script σ ε) β}
    {Q : Except ψ β → σ → Prop} (h : FollowsTo Rel x s R)
    (hk : ∀ v t, R v t → FollowsTo Rel (k v) t Q) :
    FollowsTo Rel (ExceptT.mk (x.run.bind fun v ↦ (k v).run)) s Q := by
  have hlast := hk _ _ h.holds
  refine ⟨h.follows.bind hlast.follows, ?_⟩
  dsimp only [ExceptT.run_mk]
  rw [run_bind]
  exact hlast.holds

theorem FollowsTo.mapError {ψ : Type} {g : φ → ψ} {Q : Except ψ α → σ → Prop}
    (h : FollowsTo Rel x s fun v t ↦ Q (v.mapError g) t) :
    FollowsTo Rel (ExceptT.mk do return (← x.run).mapError g) s Q :=
  h.andThen (k := fun v ↦ ExceptT.mk (.done (v.mapError g))) fun _ _ hv ↦ ⟨.done _ _, hv⟩

theorem FollowsTo.bind {f : α → ExceptT φ (Script σ ε) β} {Q : Except φ β → σ → Prop}
    (h : FollowsTo Rel x s R) (hok : ∀ a t, R (.ok a) t → FollowsTo Rel (f a) t Q)
    (herr : ∀ e t, R (.error e) t → Q (.error e) t) : FollowsTo Rel (x >>= f) s Q := by
  refine h.andThen (k := fun v ↦ ExceptT.mk (ExceptT.bindCont f v)) fun v t hv ↦ ?_
  cases v with
  | ok a => exact hok a t hv
  | error e => exact followsTo_throw (herr e t hv)

theorem FollowsTo.tryCatch {handle : φ → ExceptT φ (Script σ ε) α} (h : FollowsTo Rel x s R)
    (hok : ∀ a t, R (.ok a) t → Q (.ok a) t)
    (herr : ∀ e t, R (.error e) t → FollowsTo Rel (handle e) t Q) :
    FollowsTo Rel (MonadExcept.tryCatch x handle) s Q := by
  have hrun : MonadExcept.tryCatch x handle = ExceptT.mk (x.run.bind fun v ↦
      (MonadExcept.tryCatch (ExceptT.mk (.done v)) handle : ExceptT φ (Script σ ε) α).run) := rfl
  rw [hrun]
  refine h.andThen fun v t hv ↦ ?_
  cases v with
  | ok a => exact followsTo_pure (hok a t hv)
  | error e => exact herr e t hv

end Faults

end Following

end UpToDate.Script
