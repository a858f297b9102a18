import UpToDate.Proofs.Script

namespace UpToDate.Script

variable {σ ε α β φ : Type}

def moments : Script σ ε α → σ → List (ε × σ)
  | done _, _ => []
  | step f next, s => (next (f s).1).moments (f s).2
  | log e next, s => (e, s) :: next.moments s

theorem map_fst_moments (x : Script σ ε α) (s : σ) :
    (x.moments s).map Prod.fst = (x.run s).events := by
  induction x generalizing s with
  | done a => rfl
  | step f next ih => exact ih _ _
  | log e next ih =>
    rw [moments, List.map_cons, ih]
    rfl

theorem moments_bind (x : Script σ ε α) (k : α → Script σ ε β) (s : σ) :
    (x.bind k).moments s = x.moments s ++ (k (x.run s).value).moments (x.run s).state := by
  induction x generalizing s with
  | done a => rfl
  | step f next ih => exact ih _ _
  | log e next ih =>
    rw [bind, moments, moments, ih]
    rfl

/-- A script that may fail, run alone from a state, ends with a value and a state after some
moments. -/
structure Goes (x : ExceptT φ (Script σ ε) α) (s : σ) (v : Except φ α) (t : σ)
    (l : List (ε × σ)) : Prop where
  value_eq : (x.run.run s).value = v
  state_eq : (x.run.run s).state = t
  moments_eq : x.run.moments s = l

variable {x : ExceptT φ (Script σ ε) α} {f : α → ExceptT φ (Script σ ε) β} {s t u : σ}
  {l m : List (ε × σ)}

theorem Goes.run_eq {v : Except φ α} (h : Goes x s v t l) :
    x.run.run s = ⟨v, t, l.map Prod.fst⟩ := by
  rw [← h.value_eq, ← h.state_eq, ← h.moments_eq, map_fst_moments]

theorem goes_of_run_eq {v : Except φ α} (h : x.run.run s = ⟨v, t, []⟩) : Goes x s v t [] := by
  have hnone := map_fst_moments x.run s
  rw [h] at hnone
  exact ⟨congrArg Result.value h, congrArg Result.state h, List.map_eq_nil_iff.1 hnone⟩

theorem goes_pure (a : α) (s : σ) : Goes (pure a : ExceptT φ (Script σ ε) α) s (.ok a) s [] :=
  ⟨rfl, rfl, rfl⟩

theorem Goes.bind_ok {a : α} {v : Except φ β} (h : Goes x s (.ok a) t l) (h' : Goes (f a) t v u m) :
    Goes (x >>= f) s v u (l ++ m) := by
  have hmoments : (x >>= f).run.moments s = (x.run.bind (ExceptT.bindCont f)).moments s := rfl
  have hrun := run_bind_of_ok h.run_eq h'.run_eq
  refine ⟨congrArg Result.value hrun, congrArg Result.state hrun, ?_⟩
  rw [hmoments, moments_bind, h.moments_eq, h.value_eq, h.state_eq]
  exact congrArg (l ++ ·) h'.moments_eq

theorem Goes.bind_error {e : φ} (h : Goes x s (.error e) t l) :
    Goes (x >>= f) s (.error e) t l := by
  have hmoments : (x >>= f).run.moments s = (x.run.bind (ExceptT.bindCont f)).moments s := rfl
  have hrun := run_bind_of_error (f := f) h.run_eq
  refine ⟨congrArg Result.value hrun, congrArg Result.state hrun, ?_⟩
  rw [hmoments, moments_bind, h.moments_eq, h.value_eq]
  exact List.append_nil l

end UpToDate.Script
