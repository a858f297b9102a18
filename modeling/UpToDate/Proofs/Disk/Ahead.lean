import UpToDate.Proofs.Disk.Named
import UpToDate.Proofs.Result

namespace UpToDate.Disk

variable {d d' d'' : Disk} {dir : Path} {p q r : Place}

section Places

theorem concat_ne {s t : String} (h : s ≠ t) : q ++ [s] ≠ r ++ [t] := by
  intro he
  have hnames := (List.append_inj' he rfl).2
  exact h (List.cons.inj hnames).1

/-- What stood at a place stands there, or a directory where nothing stood. -/
def GrowsAt (d d' : Disk) (p : Place) : Prop :=
  d'.node? p = d.node? p ∨ d.node? p = none ∧ d'.node? p = some .directory

theorem Grows.growsAt (h : d.Grows d') (p : Place) : d.GrowsAt d' p := h p

theorem GrowsAt.keeps (h : d.GrowsAt d' p) {n : Node} (hp : d.node? p = some n) :
    d'.node? p = some n := by
  rcases h with he | ⟨hnone, -⟩
  · rw [he, hp]
  · rw [hnone] at hp
    cases hp

theorem GrowsAt.trans (h : d.GrowsAt d' p) (h' : d'.GrowsAt d'' p) : d.GrowsAt d'' p := by
  rcases h with he | ⟨hnone, hnew⟩
  · rw [GrowsAt, ← he]
    exact h'
  · exact .inr ⟨hnone, h'.keeps hnew⟩

theorem growsAt_of_eq (h : d'.node? p = d.node? p) : d.GrowsAt d' p := .inl h

theorem GrowsAt.link_iff (h : d.GrowsAt d' p) {target : Path} :
    d'.node? p = some (.link target) ↔ d.node? p = some (.link target) := by
  constructor
  · intro hp
    rcases h with he | ⟨-, hnew⟩
    · rw [← he, hp]
    · rw [hnew] at hp
      cases hp
  · exact h.keeps

end Places

section Homes

/-- What stands at a place once directories are made where nothing stands. -/
def ahead (d : Disk) (p : Place) : Option Node := some ((d.node? p).getD .directory)

theorem ahead_eq_some_iff {n : Node} :
    d.ahead p = some n ↔ d.node? p = some n ∨ d.node? p = none ∧ n = .directory := by
  rw [ahead, Option.some.injEq]
  cases d.node? p with
  | none => simp [eq_comm]
  | some m => simp

theorem Grows.ahead_eq (h : d.Grows d') : d'.ahead = d.ahead := by
  funext p
  rcases h p with he | ⟨hnone, hnew⟩
  · rw [ahead, ahead, he]
  · rw [ahead, ahead, hnone, hnew]
    rfl

/-- The place that a path leads to once the directories are made that it lacks. -/
def Home (d : Disk) (dir : Path) (q : Place) : Prop :=
  ∃ n, Way d.ahead linkLimit (startAt [] dir) (Path.stepsToName dir) (some q) n

theorem Leads.home (h : d.Leads dir q) : d.Home dir q := by
  obtain ⟨n, hn⟩ := h
  exact ⟨n, hn.mono fun p x _ hx ↦ ahead_eq_some_iff.2 (.inl hx)⟩

theorem Grows.home_iff (h : d.Grows d') : d'.Home dir q ↔ d.Home dir q := by
  rw [Home, Home, h.ahead_eq]

theorem home_iff_of_enter {m : Nat} (h : (enter d.ahead linkLimit (startAt [] dir)
    (Path.stepsToName dir)).toOption = some (some q, m)) : d.Home dir r ↔ r = q := by
  have henter := eq_ok_of_toOption h
  constructor
  · rintro ⟨n, hn⟩
    cases (enter_of_way hn).symm.trans henter
    rfl
  · rintro rfl
    exact ⟨m, way_of_enter henter⟩

theorem node?_below_eq_none (h : d.node? q ≠ some .directory) (s : String) :
    d.node? (q ++ [s]) = none := by
  rw [Option.eq_none_iff_forall_ne_some]
  intro n hn
  exact h (parent_of_node? hn).1

end Homes

end UpToDate.Disk
