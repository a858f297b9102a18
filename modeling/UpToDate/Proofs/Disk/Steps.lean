import UpToDate.Proofs.Disk.Looks

namespace UpToDate.Disk

variable {look : Place → Option Node} {p q : Place} {s : String} {l l' : List String} {n m : Nat}
  {here r : Option Place}

section Ways

theorem Way.trans {k : Nat} {r' : Option Place} (h : Way look n here l r m)
    (h' : Way look m r l' r' k) : Way look n here (l ++ l') r' k := by
  induction h with
  | arrive n here => exact h'
  | stay hs _ ih => exact .stay hs (ih h')
  | back hne _ ih => exact .back hne (ih h')
  | down hempty hdot hup hsize hdir _ ih => exact .down hempty hdot hup hsize hdir (ih h')
  | link hempty hdot hup hsize hlink htarget _ ih =>
    rw [List.append_assoc] at ih
    exact .link hempty hdot hup hsize hlink htarget (ih h')

theorem Way.looks (h : Way look n here l r m) (h' : Looks look m r l' p) :
    Looks look n here (l ++ l') p := by
  induction h with
  | arrive n here => exact h'
  | stay hs _ ih => exact .stay hs (ih h')
  | back hne _ ih => exact .back hne (ih h')
  | down hempty hdot hup hsize hdir _ ih => exact .down hempty hdot hup hsize hdir (ih h')
  | link hempty hdot hup hsize hlink htarget _ ih =>
    rw [List.append_assoc] at ih
    exact .link hempty hdot hup hsize hlink htarget (ih h')

theorem way_of_dots (h : ∀ s ∈ l, s = ".") (n : Nat) (here : Option Place) :
    Way look n here l here n := by
  induction l with
  | nil => exact .arrive n here
  | cons s l ih =>
    obtain ⟨hs, hl⟩ := List.forall_mem_cons.1 h
    exact .stay (.inr hs) (ih hl)

end Ways

section Routes

variable {aim : Aim}

section Names

variable (hempty : s ≠ "") (hdot : s ≠ ".") (hup : s ≠ "..")
include hempty hdot hup

theorem route_missing (hsize : s.utf8ByteSize ≤ Folder.nameLimit) (hnone : look (q ++ [s]) = none) :
    route look .name n (some q) (s :: l) =
      if l = [] then .ok (.free q s) else .error .notFound := by
  rw [route_cons hempty hdot hup]
  simp [Nat.not_lt.2 hsize, hnone]

variable (haim : aim ≠ .file) (hsize : s.utf8ByteSize ≤ Folder.nameLimit)
include haim hsize

theorem route_down (hdir : look (q ++ [s]) = some .directory) :
    route look aim n (some q) (s :: l) = route look aim n (some (q ++ [s])) l := by
  rw [route_cons hempty hdot hup]
  simp [haim, Nat.not_lt.2 hsize, hdir]

theorem route_link {target : Path} (hlink : look (q ++ [s]) = some (.link target))
    (htarget : target.isEmpty = false) (hrest : l ≠ [] ∨ aim ≠ .name) :
    route look aim (n + 1) (some q) (s :: l) =
      route look aim n (startAt q target) (Path.steps target ++ l) := by
  have hnot : ¬(l = [] ∧ aim = .name) := fun h ↦ hrest.elim (· h.1) (· h.2)
  rw [route_cons hempty hdot hup]
  simp [haim, Nat.not_lt.2 hsize, hlink, hnot, routeFrom, htarget]

end Names

theorem route_of_way (h : Way look n here l r m) (hl : l' ≠ []) :
    route look .name n here (l ++ l') = route look .name m r l' := by
  induction h with
  | arrive n here => rfl
  | stay hs _ ih => exact (route_stay hs).trans ih
  | back hne _ ih =>
    rw [List.cons_append, route_up, if_neg hne]
    exact ih
  | down hempty hdot hup hsize hdir _ ih =>
    exact (route_down hempty hdot hup (by decide) hsize hdir).trans ih
  | link hempty hdot hup hsize hlink htarget _ ih =>
    rw [List.append_assoc] at ih
    exact (route_link hempty hdot hup (by decide) hsize hlink htarget (.inl (by simp [hl]))).trans ih

theorem route_content_of_way (h : Way look n here l r m) :
    route look .content n here l = .ok (r.elim .root (.found · .directory)) := by
  induction h with
  | arrive n here => exact route_nil
  | stay hs _ ih => exact (route_stay hs).trans ih
  | back hne _ ih => rwa [route_up, if_neg hne]
  | down hempty hdot hup hsize hdir _ ih =>
    exact (route_down hempty hdot hup (by decide) hsize hdir).trans ih
  | link hempty hdot hup hsize hlink htarget _ ih =>
    exact (route_link hempty hdot hup (by decide) hsize hlink htarget (.inr (by decide))).trans ih

theorem route_name_of_way (h : Way look n here l r m) :
    ∃ spot, route look .name n here l = .ok spot ∧ ∀ q s, spot ≠ .free q s := by
  induction h with
  | arrive n here =>
    refine ⟨_, route_nil, ?_⟩
    cases here <;> simp
  | stay hs _ ih => rwa [route_stay hs]
  | back hne _ ih => rwa [route_up, if_neg hne]
  | down hempty hdot hup hsize hdir _ ih =>
    rwa [route_down hempty hdot hup (by decide) hsize hdir]
  | @link n m q r s rest target hempty hdot hup hsize hlink htarget _ ih =>
    cases rest with
    | nil =>
      refine ⟨.found (q ++ [s]) (.link target), ?_, by simp⟩
      rw [route_cons hempty hdot hup]
      simp [Nat.not_lt.2 hsize, hlink]
    | cons x rest =>
      rwa [route_link hempty hdot hup (by decide) hsize hlink htarget
        (.inl (List.cons_ne_nil x rest))]

theorem cases_of_route_free (h : route look .name n here l = .ok (.free q s)) :
    ∃ l₁ m, l = l₁ ++ [s] ∧ Way look n here l₁ (some q) m ∧ look (q ++ [s]) = none ∧
      s ≠ "" ∧ s ≠ "." ∧ s ≠ ".." ∧ s.utf8ByteSize ≤ Folder.nameLimit := by
  induction n, here, l using steps_induction look with
  | nil n here =>
    rw [route_nil] at h
    cases here <;> cases h
  | stay n here t l ht ih =>
    rw [route_stay ht] at h
    obtain ⟨l₁, m, rfl, hway, hfree⟩ := ih h
    exact ⟨t :: l₁, m, rfl, .stay ht hway, hfree⟩
  | up n here l ih =>
    rw [route_up] at h
    split at h
    · cases h
    next hne =>
    obtain ⟨l₁, m, rfl, hway, hfree⟩ := ih hne h
    exact ⟨".." :: l₁, m, rfl, .back hne hway, hfree⟩
  | name n here t l hempty hdot hup hdown hlink =>
    rw [route_cons hempty hdot hup, if_neg (by simp)] at h
    split at h
    · cases h
    next hlim =>
    have hsize := Nat.not_lt.1 hlim
    cases here with
    | none => cases h
    | some p =>
      dsimp only at h
      split at h
      · next hnone =>
        split at h
        · next hl =>
          cases h
          exact ⟨[], n, by rw [hl, List.nil_append], .arrive _ _, hnone, hempty, hdot, hup, hsize⟩
        · cases h
      · next hdir =>
        obtain ⟨l₁, m, rfl, hway, hfree⟩ := hdown p rfl hdir h
        exact ⟨t :: l₁, m, rfl, .down hempty hdot hup hsize hdir hway, hfree⟩
      · split at h <;> cases h
      · next target hn =>
        split at h
        · cases h
        next hl =>
        cases n with
        | zero => cases h
        | succ n =>
          rw [routeFrom] at h
          split at h
          · cases h
          next htarget =>
          obtain ⟨l₁, m, hsteps, hway, hfree⟩ := hlink p target n rfl hn rfl h
          -- the last step is one of those that come after the link
          rcases List.eq_nil_or_concat l with rfl | ⟨l₂, x, rfl⟩
          · exact absurd rfl hl
          · rw [List.concat_eq_append, ← List.append_assoc] at hsteps
            obtain ⟨rfl, hx⟩ := List.append_inj' hsteps rfl
            cases hx
            refine ⟨t :: l₂, m, by rw [List.concat_eq_append, List.cons_append], ?_, hfree⟩
            exact .link hempty hdot hup hsize hn (by simpa using htarget) hway

theorem route_append_of_error {e : Fault} (h : route look .name n here l = .error e) :
    route look .name n here (l ++ l') = .error e := by
  induction n, here, l using steps_induction look with
  | nil n here =>
    rw [route_nil] at h
    cases h
  | stay n here t l ht ih =>
    rw [route_stay ht] at h
    rw [List.cons_append, route_stay ht, ih h]
  | up n here l ih =>
    rw [route_up] at h
    rw [List.cons_append, route_up]
    split at h
    · next htop => rw [if_pos htop, h]
    · next hne => rw [if_neg hne, ih hne h]
  | name n here t l hempty hdot hup hdown hlink =>
    rw [route_cons hempty hdot hup, if_neg (by simp)] at h
    rw [List.cons_append, route_cons hempty hdot hup, if_neg (by simp)]
    split at h
    · next hlim => rw [if_pos hlim, h]
    next hlim =>
    rw [if_neg hlim]
    cases here with
    | none => exact h
    | some p =>
      dsimp only at h ⊢
      split at h
      · split at h
        · cases h
        · next hl => rw [← h, if_neg (by simp [hl])]
      · next hdir => exact hdown p rfl hdir h
      · split at h
        · cases h
        · next hl => rw [← h, if_neg (by simp [hl])]
      · next target hn =>
        split at h
        · cases h
        next hl =>
        have hlonger : ¬(decide (l ++ l' = []) && decide (Aim.name = .name)) = true := by
          simp only [decide_true, Bool.and_true, decide_eq_true_eq] at hl ⊢
          simp [hl]
        rw [if_neg hlonger]
        cases n with
        | zero => exact h
        | succ n =>
          rw [routeFrom] at h ⊢
          split at h
          · next htarget => rw [if_pos htarget, h]
          · next htarget => rw [if_neg htarget, ← List.append_assoc, hlink p target n rfl hn rfl h]

end Routes

end UpToDate.Disk
