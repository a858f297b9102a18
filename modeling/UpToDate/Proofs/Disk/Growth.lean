import UpToDate.Proofs.Disk.Routes

namespace UpToDate.Disk

/-- The second disk is the first one with some more directories. -/
def Grows (d d' : Disk) : Prop :=
  ∀ p, d'.node? p = d.node? p ∨ d.node? p = none ∧ d'.node? p = some .directory

variable {d d' d'' : Disk}

theorem Grows.refl (d : Disk) : d.Grows d := fun _ ↦ .inl rfl

theorem Grows.keeps (h : d.Grows d') {p : Place} {n : Node} (hp : d.node? p = some n) :
    d'.node? p = some n := by
  rcases h p with he | ⟨hnone, -⟩
  · rw [he, hp]
  · rw [hnone] at hp
    cases hp

theorem Grows.trans (h : d.Grows d') (h' : d'.Grows d'') : d.Grows d'' := by
  intro p
  rcases h p with he | ⟨hnone, hnew⟩
  · rw [← he]
    exact h' p
  · exact .inr ⟨hnone, h'.keeps hnew⟩

theorem grows_put {q : Place} {s : String} (hq : d.node? q = some .directory)
    (hfree : d.node? (q ++ [s]) = none) : d.Grows (d.put q s .directory) := by
  by_cases hs : Folder.isName s
  · intro p
    rw [node?_put hq hs (by simp [hfree]) .directory p]
    split
    · next hp => exact .inr ⟨hp ▸ hfree, rfl⟩
    · exact .inl rfl
  · rw [put, dif_neg hs]
    exact .refl d

theorem grows_makeDirectory {p : Path} (h : d.makeDirectory p = .ok d') : d.Grows d' := by
  rw [makeDirectory] at h
  cases hp : d.locateName p with
  | error e => rw [hp] at h; cases h
  | ok spot =>
    have hsound := locateName_sound hp
    rw [hp] at h
    cases spot with
    | found q n => cases h
    | root => cases h
    | free q s =>
      cases h
      exact grows_put hsound.1 hsound.2

theorem grows_makeUpTo (n : Nat) (p : Path) (d : Disk) : d.Grows (makeUpTo n p d).2 := by
  induction n generalizing p d with
  | zero => exact .refl d
  | succ n ih =>
    rw [makeUpTo]
    split
    · exact .refl d
    · next up _ =>
      split
      · next hd => exact grows_makeDirectory hd
      · have hup := ih up d
        split
        · next he => rwa [he] at hup
        · next d₁ he =>
          rw [he] at hup
          split
          · next hd => exact hup.trans (grows_makeDirectory hd)
          · exact hup
      · exact .refl d

theorem grows_makeDirectories (d : Disk) (p : Path) : d.Grows (d.makeDirectories p).2 :=
  grows_makeUpTo p.length p d

theorem Grows.way_new (hg : d.Grows d') {n m : Nat} {here r : Option Place} {l : List String}
    (h : Way d'.node? n here l r m) (hl : ".." ∉ l) {q : Place} (hhere : here = some q)
    (hq : d.node? q = none) : ∃ p, r = some p ∧ d.node? p = none := by
  induction h generalizing q with
  | arrive n here => exact ⟨q, hhere, hq⟩
  | stay _ _ ih => exact ih (fun hmem ↦ hl (List.mem_cons_of_mem _ hmem)) hhere hq
  | back => simp at hl
  | @down _ _ p _ s _ _ _ _ _ _ _ ih =>
    cases hhere
    have hbelow : d.node? (p ++ [s]) = none := by
      rw [Option.eq_none_iff_forall_ne_some]
      intro x hx
      have hdir := (parent_of_node? hx).1
      rw [hq] at hdir
      cases hdir
    exact ih (fun hmem ↦ hl (List.mem_cons_of_mem _ hmem)) rfl hbelow
  | @link _ _ p _ s _ target _ _ _ _ hlink _ _ _ =>
    cases hhere
    rcases hg (p ++ [s]) with he | ⟨-, hdir⟩
    · rw [hlink] at he
      have hdir := (parent_of_node? he.symm).1
      rw [hq] at hdir
      cases hdir
    · rw [hlink] at hdir
      cases hdir

theorem Grows.way_old_or_new (hg : d.Grows d')
    (hlinks : ∀ p target, d.node? p = some (.link target) → ".." ∉ Path.steps target) {n m : Nat}
    {here r : Option Place} {l : List String} (h : Way d'.node? n here l r m) (hl : ".." ∉ l) :
    Way d.node? n here l r m ∨ ∃ p, r = some p ∧ d.node? p = none := by
  induction h with
  | arrive n here => exact .inl (.arrive n here)
  | stay hs _ ih => exact (ih fun hmem ↦ hl (List.mem_cons_of_mem _ hmem)).imp_left (.stay hs)
  | back => simp at hl
  | down hempty hdot hup hsize hdir hrest ih =>
    have htail := fun hmem ↦ hl (List.mem_cons_of_mem _ hmem)
    rcases hg _ with he | ⟨hnone, -⟩
    · rw [hdir] at he
      exact (ih htail).imp_left (.down hempty hdot hup hsize he.symm)
    · exact .inr (hg.way_new hrest htail rfl hnone)
  | link hempty hdot hup hsize hlink htarget _ ih =>
    have htail := fun hmem ↦ hl (List.mem_cons_of_mem _ hmem)
    rcases hg _ with he | ⟨-, hdir⟩
    · rw [hlink] at he
      refine (ih fun hmem ↦ ?_).imp_left (.link hempty hdot hup hsize he.symm htarget)
      rcases List.mem_append.1 hmem with hmem | hmem
      · exact hlinks _ _ he.symm hmem
      · exact htail hmem
    · rw [hlink] at hdir
      cases hdir

end UpToDate.Disk
