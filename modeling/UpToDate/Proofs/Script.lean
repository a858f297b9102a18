import UpToDate.Script

namespace UpToDate.Script

variable {σ ε α β φ : Type} {x : ExceptT φ (Script σ ε) α} {s : σ}
  {Q R : Except φ α → σ → List ε → Prop}

/-- A script that may fail, run alone from a state, ends with a value, a state and events that
satisfy a condition. -/
structure Ends (x : ExceptT φ (Script σ ε) α) (s : σ) (Q : Except φ α → σ → List ε → Prop) :
    Prop where
  holds : Q (x.run.run s).value (x.run.run s).state (x.run.run s).events

theorem Ends.mono (h : Ends x s R) (hR : ∀ v t es, R v t es → Q v t es) : Ends x s Q :=
  ⟨hR _ _ _ h.holds⟩

theorem Ends.exists_result (h : Ends x s Q) :
    ∃ v t es, x.run.run s = ⟨v, t, es⟩ ∧ Q v t es :=
  ⟨_, _, _, rfl, h.holds⟩

theorem ends_pure {a : α} (h : Q (.ok a) s []) : Ends (pure a) s Q := ⟨h⟩

theorem ends_throw {e : φ} (h : Q (.error e) s []) : Ends (throw e) s Q := ⟨h⟩

theorem ends_act {ψ : Type} {f : σ → Except ψ α × σ} {g : ψ → φ}
    (h : Q ((f s).1.mapError g) (f s).2 []) :
    Ends (ExceptT.mk do return (← act f).mapError g) s Q :=
  ⟨h⟩

theorem Ends.bind {f : α → ExceptT φ (Script σ ε) β} {Q : Except φ β → σ → List ε → Prop}
    (h : Ends x s R)
    (hok : ∀ a t es, R (.ok a) t es → Ends (f a) t fun v u es' ↦ Q v u (es ++ es'))
    (herr : ∀ e t es, R (.error e) t es → Q (.error e) t es) : Ends (x >>= f) s Q := by
  have hrun : (x >>= f).run.run s = (x.run.bind (ExceptT.bindCont f)).run s := rfl
  have hx := h.holds
  constructor
  rw [hrun, run_bind]
  generalize x.run.run s = o at hx ⊢
  obtain ⟨v, t, es⟩ := o
  cases v with
  | ok a => exact (hok a t es hx).holds
  | error e =>
    change Q (.error e) t (es ++ [])
    rw [List.append_nil]
    exact herr e t es hx

theorem Ends.tryCatch {handle : φ → ExceptT φ (Script σ ε) α} (h : Ends x s R)
    (hok : ∀ a t es, R (.ok a) t es → Q (.ok a) t es)
    (herr : ∀ e t es, R (.error e) t es →
      Ends (handle e) t fun v u es' ↦ Q v u (es ++ es')) :
    Ends (MonadExcept.tryCatch x handle) s Q := by
  obtain ⟨k, hkok, hkerr, hrun⟩ : ∃ k, (∀ a, k (.ok a) = .done (.ok a)) ∧
      (∀ e, k (.error e) = (handle e).run) ∧
      (MonadExcept.tryCatch x handle).run.run s = (x.run.bind k).run s :=
    ⟨_, fun _ ↦ rfl, fun _ ↦ rfl, rfl⟩
  have hx := h.holds
  constructor
  rw [hrun, run_bind]
  generalize x.run.run s = o at hx ⊢
  obtain ⟨v, t, es⟩ := o
  cases v with
  | ok a =>
    change Q ((k (.ok a)).run t).value ((k (.ok a)).run t).state (es ++ ((k (.ok a)).run t).events)
    rw [hkok, run, List.append_nil]
    exact hok a t es hx
  | error e =>
    change Q ((k (.error e)).run t).value ((k (.error e)).run t).state
      (es ++ ((k (.error e)).run t).events)
    rw [hkerr]
    exact (herr e t es hx).holds

section Silence

def Silent (x : ExceptT φ (Script σ ε) α) : Prop := ∀ s, Ends x s fun _ _ es ↦ es = []

theorem silent_pure (a : α) : Silent (pure a : ExceptT φ (Script σ ε) α) := fun _ ↦ ends_pure rfl

theorem silent_throw (e : φ) : Silent (throw e : ExceptT φ (Script σ ε) α) :=
  fun _ ↦ ends_throw rfl

theorem silent_act {ψ : Type} (f : σ → Except ψ α × σ) (g : ψ → φ) :
    Silent (ε := ε) (ExceptT.mk do return (← act f).mapError g) :=
  fun _ ↦ ends_act rfl

theorem Silent.bind {f : α → ExceptT φ (Script σ ε) β} (h : Silent x) (hf : ∀ a, Silent (f a)) :
    Silent (x >>= f) := by
  intro s
  refine (h s).bind ?_ ?_
  · rintro a t es rfl
    exact hf a t
  · rintro e t es rfl
    rfl

theorem Silent.tryCatch {handle : φ → ExceptT φ (Script σ ε) α} (h : Silent x)
    (hh : ∀ e, Silent (handle e)) : Silent (MonadExcept.tryCatch x handle) := by
  intro s
  refine (h s).tryCatch ?_ ?_
  · rintro a t es rfl
    rfl
  · rintro e t es rfl
    exact hh e t

theorem Silent.exists_result (h : Silent x) (s : σ) : ∃ v t, x.run.run s = ⟨v, t, []⟩ := by
  obtain ⟨v, t, es, hrun, rfl⟩ := (h s).exists_result
  exact ⟨v, t, hrun⟩

end Silence

section Exactly

variable {t u : σ} {l m : List ε} {v : Except φ β} {f : α → ExceptT φ (Script σ ε) β}

theorem run_bind_of_ok {a : α} (h : x.run.run s = ⟨.ok a, t, l⟩)
    (h' : (f a).run.run t = ⟨v, u, m⟩) : (x >>= f).run.run s = ⟨v, u, l ++ m⟩ := by
  have hrun : (x >>= f).run.run s = (x.run.bind (ExceptT.bindCont f)).run s := rfl
  rw [hrun, run_bind, h]
  change (⟨((f a).run.run t).value, ((f a).run.run t).state, l ++ ((f a).run.run t).events⟩ :
    Result σ ε (Except φ β)) = _
  rw [h']

theorem run_bind_of_error {e : φ} (h : x.run.run s = ⟨.error e, t, l⟩) :
    (x >>= f).run.run s = ⟨.error e, t, l⟩ := by
  have hrun : (x >>= f).run.run s = (x.run.bind (ExceptT.bindCont f)).run s := rfl
  rw [hrun, run_bind, h]
  change (⟨.error e, t, l ++ []⟩ : Result σ ε (Except φ β)) = _
  rw [List.append_nil]

theorem Ends.run_eq {w : Except φ α} (h : Ends x s fun v u es ↦ v = w ∧ u = t ∧ es = l) :
    x.run.run s = ⟨w, t, l⟩ := by
  obtain ⟨v, u, es, hrun, rfl, rfl, rfl⟩ := h.exists_result
  exact hrun

theorem run_tryCatch_of_ok {a : α} {handle : φ → ExceptT φ (Script σ ε) α}
    (h : x.run.run s = ⟨.ok a, t, l⟩) :
    (MonadExcept.tryCatch x handle).run.run s = ⟨.ok a, t, l⟩ := by
  have hx : Ends x s fun v u es ↦ v = .ok a ∧ u = t ∧ es = l := by
    constructor
    rw [h]
    exact ⟨rfl, rfl, rfl⟩
  exact (hx.tryCatch (fun _ _ _ hsame ↦ hsame) (by rintro e u es ⟨⟨⟩, -⟩)).run_eq

theorem exists_run_of_bind {b : β} (h : (x >>= f).run.run s = ⟨.ok b, u, m⟩) :
    ∃ a t l l', x.run.run s = ⟨.ok a, t, l⟩ ∧ (f a).run.run t = ⟨.ok b, u, l'⟩ := by
  rcases hx : x.run.run s with ⟨v, t, l⟩
  cases v with
  | error e =>
    rw [run_bind_of_error hx] at h
    cases h
  | ok a =>
    rw [run_bind_of_ok hx rfl] at h
    obtain ⟨hvalue, hstate, -⟩ := Result.mk.inj h
    exact ⟨a, t, l, _, rfl, by rw [← hvalue, ← hstate]⟩

theorem exists_run_of_tryCatch {a : α} {handle : φ → ExceptT φ (Script σ ε) α}
    (h : (MonadExcept.tryCatch x handle).run.run s = ⟨.ok a, u, m⟩) :
    x.run.run s = ⟨.ok a, u, m⟩ ∨
      ∃ e t l l', x.run.run s = ⟨.error e, t, l⟩ ∧ (handle e).run.run t = ⟨.ok a, u, l'⟩ := by
  rcases hx : x.run.run s with ⟨v, t, l⟩
  cases v with
  | ok b =>
    rw [run_tryCatch_of_ok hx] at h
    exact .inl h
  | error e =>
    have hends : Ends (MonadExcept.tryCatch x handle) s fun v u _ ↦
        v = ((handle e).run.run t).value ∧ u = ((handle e).run.run t).state := by
      refine Ends.tryCatch (R := fun v u es ↦ (⟨v, u, es⟩ : Result σ ε _) = x.run.run s) ⟨rfl⟩ ?_ ?_
      · intro b t' es hb
        rw [hx] at hb
        cases hb
      · intro e' t' es he
        rw [hx] at he
        cases he
        exact ⟨rfl, rfl⟩
    have hsame := hends.holds
    rw [h] at hsame
    obtain ⟨hvalue, hstate⟩ : .ok a = ((handle e).run.run t).value ∧
      u = ((handle e).run.run t).state := hsame
    exact .inr ⟨e, t, l, _, rfl, by rw [hvalue, hstate]⟩

end Exactly

end UpToDate.Script
