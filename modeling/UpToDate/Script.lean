namespace UpToDate

/-- A program over states `σ` that logs events `ε` and ends with a value. -/
inductive Script (σ ε α : Type) : Type 1
  | done (a : α)
  | step {β : Type} (change : σ → β × σ) (next : β → Script σ ε α)
  | log (e : ε) (next : Script σ ε α)

structure Script.Result (σ ε α : Type) where
  value : α
  state : σ
  events : List ε
  deriving DecidableEq

namespace Script

variable {σ ε α β γ : Type}

def bind : Script σ ε α → (α → Script σ ε β) → Script σ ε β
  | done a, k => k a
  | step f next, k => step f fun b ↦ (next b).bind k
  | log e next, k => log e (next.bind k)

instance : Monad (Script σ ε) where
  pure := done
  bind := bind

@[simp] theorem bind_done (x : Script σ ε α) : x.bind done = x := by
  induction x with
  | done a => rfl
  | step f next ih => simp [bind, ih]
  | log e next ih => simp [bind, ih]

theorem bind_assoc (x : Script σ ε α) (k : α → Script σ ε β) (l : β → Script σ ε γ) :
    (x.bind k).bind l = x.bind fun a ↦ (k a).bind l := by
  induction x with
  | done a => rfl
  | step f next ih => simp [bind, ih]
  | log e next ih => simp [bind, ih]

instance : LawfulMonad (Script σ ε) :=
  LawfulMonad.mk' _ bind_done (fun _ _ ↦ rfl) bind_assoc

def act (f : σ → α × σ) : Script σ ε α := step f done

/-- A step that only looks at the state. -/
def look (f : σ → α) : Script σ ε α := act fun s ↦ (f s, s)

/-- A step that changes the state or fails and leaves it. -/
def attempt {φ : Type} (f : σ → Except φ σ) : Script σ ε (Except φ Unit) :=
  act fun s ↦
    match f s with
    | .ok s => (.ok (), s)
    | .error e => (.error e, s)

def emit (e : ε) : Script σ ε Unit := log e (done ())

def run : Script σ ε α → σ → Result σ ε α
  | done a, s => ⟨a, s, []⟩
  | step f next, s => (next (f s).1).run (f s).2
  | log e next, s =>
    let o := next.run s
    { o with events := e :: o.events }

theorem run_bind (x : Script σ ε α) (k : α → Script σ ε β) (s : σ) :
    (x.bind k).run s =
      let o := x.run s
      let p := (k o.value).run o.state
      { p with events := o.events ++ p.events } := by
  induction x generalizing s with
  | done a => rfl
  | step f next ih => simp [bind, run, ih]
  | log e next ih => simp [bind, run, ih]

end Script

end UpToDate
