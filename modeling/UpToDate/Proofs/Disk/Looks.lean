import UpToDate.Proofs.Disk.Ahead

namespace UpToDate.Disk

open UpToDate.Path (IsStep)

variable {d d' : Disk} {dir : Path} {p q : Place} {s : String} {l : List String} {n : Nat}
  {here : Option Place}

section Looking

/-- The places of the names that steps go down to. -/
inductive Looks (look : Place → Option Node) : Nat → Option Place → List String → Place → Prop
  | here {n : Nat} {q : Place} {s : String} {rest : List String} :
      s ≠ "" → s ≠ "." → s ≠ ".." → s.utf8ByteSize ≤ Folder.nameLimit →
      Looks look n (some q) (s :: rest) (q ++ [s])
  | stay {n : Nat} {here : Option Place} {s : String} {rest : List String} {p : Place} :
      s = "" ∨ s = "." → Looks look n here rest p → Looks look n here (s :: rest) p
  | back {n : Nat} {here : Option Place} {rest : List String} {p : Place} :
      here ≠ some [] → Looks look n (here.map List.dropLast) rest p →
      Looks look n here (".." :: rest) p
  | down {n : Nat} {q : Place} {s : String} {rest : List String} {p : Place} :
      s ≠ "" → s ≠ "." → s ≠ ".." → s.utf8ByteSize ≤ Folder.nameLimit →
      look (q ++ [s]) = some .directory → Looks look n (some (q ++ [s])) rest p →
      Looks look n (some q) (s :: rest) p
  | link {n : Nat} {q : Place} {s : String} {rest : List String} {target : Path} {p : Place} :
      s ≠ "" → s ≠ "." → s ≠ ".." → s.utf8ByteSize ≤ Folder.nameLimit →
      look (q ++ [s]) = some (.link target) → target.isEmpty = false →
      Looks look n (startAt q target) (Path.steps target ++ rest) p →
      Looks look (n + 1) (some q) (s :: rest) p

/-- The places that the system looks at on the way to a directory, those included that it would look
at if the directories were there that are missing. -/
def OnTheWay (d : Disk) (dir : Path) (p : Place) : Prop :=
  Looks d.ahead linkLimit (startAt [] dir) (Path.stepsToName dir) p

theorem Grows.onTheWay_eq (h : d.Grows d') : d'.OnTheWay dir = d.OnTheWay dir := by
  funext p
  rw [OnTheWay, OnTheWay, h.ahead_eq]

theorem Looks.append {look : Place → Option Node} {here : Option Place} {l : List String}
    (h : Looks look n here l p) (l' : List String) : Looks look n here (l ++ l') p := by
  induction h with
  | here hempty hdot hup hsize => exact .here hempty hdot hup hsize
  | stay hs _ ih => exact .stay hs ih
  | back hne _ ih => exact .back hne ih
  | down hempty hdot hup hsize hdir _ ih => exact .down hempty hdot hup hsize hdir ih
  | link hempty hdot hup hsize hlink htarget _ ih =>
    rw [List.append_assoc] at ih
    exact .link hempty hdot hup hsize hlink htarget ih

theorem Looks.of_slash {look : Place → Option Node} (h : Looks look n here (l ++ [""]) p) :
    Looks look n here l p := by
  generalize hsteps : l ++ [""] = steps at h
  induction h generalizing l with
  | here hempty hdot hup hsize =>
    cases l with
    | nil =>
      cases hsteps
      exact absurd rfl hempty
    | cons x l =>
      cases hsteps
      exact .here hempty hdot hup hsize
  | stay hs h ih =>
    cases l with
    | nil =>
      cases hsteps
      exact h
    | cons x l =>
      cases hsteps
      exact .stay hs (ih rfl)
  | back hne _ ih =>
    cases l with
    | nil => simp at hsteps
    | cons x l =>
      cases hsteps
      exact .back hne (ih rfl)
  | down hempty hdot hup hsize hdir _ ih =>
    cases l with
    | nil =>
      cases hsteps
      exact absurd rfl hempty
    | cons x l =>
      cases hsteps
      exact .down hempty hdot hup hsize hdir (ih rfl)
  | link hempty hdot hup hsize hlink htarget _ ih =>
    cases l with
    | nil =>
      cases hsteps
      exact absurd rfl hempty
    | cons x l =>
      cases hsteps
      exact .link hempty hdot hup hsize hlink htarget (ih (List.append_assoc _ _ _))

theorem Looks.of_name {look : Place → Option Node} (hs : IsStep s)
    (h : Looks look n here (l ++ [s]) p)
    (hlink : ∀ q m, Way look n here l (some q) m → ∀ target, look (q ++ [s]) ≠ some (.link target)) :
    Looks look n here l p ∨ ∃ q m, Way look n here l (some q) m ∧ p = q ++ [s] := by
  generalize hsteps : l ++ [s] = steps at h
  induction h generalizing l with
  | @here n q t rest hempty hdot hup hsize =>
    cases l with
    | nil =>
      cases hsteps
      exact .inr ⟨q, n, .arrive _ _, rfl⟩
    | cons x l =>
      cases hsteps
      exact .inl (.here hempty hdot hup hsize)
  | @stay n here t rest p ht h ih =>
    cases l with
    | nil =>
      cases hsteps
      exact absurd ht (not_or.2 ⟨hs.ne_empty, hs.ne_dot⟩)
    | cons x l =>
      cases hsteps
      refine (ih (fun q m hway ↦ hlink q m (.stay ht hway)) rfl).imp (.stay ht) ?_
      rintro ⟨q, m, hway, rfl⟩
      exact ⟨q, m, .stay ht hway, rfl⟩
  | back hne h ih =>
    cases l with
    | nil =>
      cases hsteps
      exact absurd rfl hs.ne_up
    | cons x l =>
      cases hsteps
      refine (ih (fun q m hway ↦ hlink q m (.back hne hway)) rfl).imp (.back hne) ?_
      rintro ⟨q, m, hway, rfl⟩
      exact ⟨q, m, .back hne hway, rfl⟩
  | down hempty hdot hup hsize hdir h ih =>
    cases l with
    | nil =>
      cases hsteps
      cases h
    | cons x l =>
      cases hsteps
      refine (ih (fun q m hway ↦ hlink q m (.down hempty hdot hup hsize hdir hway)) rfl).imp
        (.down hempty hdot hup hsize hdir) ?_
      rintro ⟨q, m, hway, rfl⟩
      exact ⟨q, m, .down hempty hdot hup hsize hdir hway, rfl⟩
  | link hempty hdot hup hsize htarget hne h ih =>
    cases l with
    | nil =>
      cases hsteps
      exact absurd htarget (hlink _ _ (.arrive _ _) _)
    | cons x l =>
      cases hsteps
      refine (ih (fun q m hway ↦ hlink q m (.link hempty hdot hup hsize htarget hne hway))
        (List.append_assoc _ _ _)).imp (.link hempty hdot hup hsize htarget hne) ?_
      rintro ⟨q, m, hway, rfl⟩
      exact ⟨q, m, .link hempty hdot hup hsize htarget hne hway, rfl⟩

end Looking

section Congruence

variable {look look' : Place → Option Node} (h : ∀ p, Looks look n here l p → look' p = look p)
include h

theorem Looks.congr (hp : Looks look n here l p) : Looks look' n here l p := by
  induction hp with
  | here hempty hdot hup hsize => exact .here hempty hdot hup hsize
  | stay hs _ ih => exact .stay hs (ih fun p hp ↦ h p (.stay hs hp))
  | back hne _ ih => exact .back hne (ih fun p hp ↦ h p (.back hne hp))
  | down hempty hdot hup hsize hdir _ ih =>
    have hsame := h _ (.here hempty hdot hup hsize)
    exact .down hempty hdot hup hsize (hsame.trans hdir)
      (ih fun p hp ↦ h p (.down hempty hdot hup hsize hdir hp))
  | link hempty hdot hup hsize hlink htarget _ ih =>
    have hsame := h _ (.here hempty hdot hup hsize)
    exact .link hempty hdot hup hsize (hsame.trans hlink) htarget
      (ih fun p hp ↦ h p (.link hempty hdot hup hsize hlink htarget hp))

theorem Looks.of_congr (hp : Looks look' n here l p) : Looks look n here l p := by
  induction hp with
  | here hempty hdot hup hsize => exact .here hempty hdot hup hsize
  | stay hs _ ih => exact .stay hs (ih fun p hp ↦ h p (.stay hs hp))
  | back hne _ ih => exact .back hne (ih fun p hp ↦ h p (.back hne hp))
  | down hempty hdot hup hsize hdir _ ih =>
    have hsame := (h _ (.here hempty hdot hup hsize)).symm.trans hdir
    exact .down hempty hdot hup hsize hsame
      (ih fun p hp ↦ h p (.down hempty hdot hup hsize hsame hp))
  | link hempty hdot hup hsize hlink htarget _ ih =>
    have hsame := (h _ (.here hempty hdot hup hsize)).symm.trans hlink
    exact .link hempty hdot hup hsize hsame htarget
      (ih fun p hp ↦ h p (.link hempty hdot hup hsize hsame htarget hp))

theorem Way.congr {m : Nat} {r : Option Place} (hway : Way look n here l r m) :
    Way look' n here l r m := by
  induction hway with
  | arrive n here => exact .arrive n here
  | stay hs _ ih => exact .stay hs (ih fun p hp ↦ h p (.stay hs hp))
  | back hne _ ih => exact .back hne (ih fun p hp ↦ h p (.back hne hp))
  | down hempty hdot hup hsize hdir _ ih =>
    have hsame := h _ (.here hempty hdot hup hsize)
    exact .down hempty hdot hup hsize (hsame.trans hdir)
      (ih fun p hp ↦ h p (.down hempty hdot hup hsize hdir hp))
  | link hempty hdot hup hsize hlink htarget _ ih =>
    have hsame := h _ (.here hempty hdot hup hsize)
    exact .link hempty hdot hup hsize (hsame.trans hlink) htarget
      (ih fun p hp ↦ h p (.link hempty hdot hup hsize hlink htarget hp))

end Congruence

theorem Looks.ahead (h : Looks d.node? n here l p) : Looks d.ahead n here l p := by
  induction h with
  | here hempty hdot hup hsize => exact .here hempty hdot hup hsize
  | stay hs _ ih => exact .stay hs ih
  | back hne _ ih => exact .back hne ih
  | down hempty hdot hup hsize hdir _ ih =>
    exact .down hempty hdot hup hsize (ahead_eq_some_iff.2 (.inl hdir)) ih
  | link hempty hdot hup hsize hlink htarget _ ih =>
    exact .link hempty hdot hup hsize (ahead_eq_some_iff.2 (.inl hlink)) htarget ih

section Agreeing

theorem route_congr (aim : Aim) (n : Nat) (here : Option Place) (steps : List String)
    (h : ∀ p, Looks d.ahead n here steps p → d'.node? p = d.node? p) :
    route d'.node? aim n here steps = route d.node? aim n here steps := by
  induction n, here, steps using steps_induction d.node? with
  | nil n here => rw [route_nil, route_nil]
  | stay n here s l hs ih =>
    rw [route_stay hs, route_stay hs]
    exact ih fun p hp ↦ h p (.stay hs hp)
  | up n here l ih =>
    rw [route_up, route_up]
    split
    · rfl
    · next hne => exact ih hne fun p hp ↦ h p (.back hne hp)
  | name n here s l hempty hdot hup hdown hlink =>
    rw [route_cons hempty hdot hup, route_cons hempty hdot hup]
    split
    · rfl
    split
    · rfl
    next hlim =>
    have hsize := Nat.not_lt.1 hlim
    cases here with
    | none => rfl
    | some q =>
      dsimp only
      -- the place of the name is looked at, so the same stands there on both
      rw [h _ (.here hempty hdot hup hsize)]
      split
      · rfl
      · next hdir =>
        refine hdown q rfl hdir fun p hp ↦ h p ?_
        exact .down hempty hdot hup hsize (ahead_eq_some_iff.2 (.inl hdir)) hp
      · rfl
      · next target hn =>
        split
        · rfl
        cases n with
        | zero => rfl
        | succ n =>
          rw [routeFrom, routeFrom]
          split
          · rfl
          next htarget =>
          refine hlink q target n rfl hn rfl fun p hp ↦ h p ?_
          exact .link hempty hdot hup hsize (ahead_eq_some_iff.2 (.inl hn)) (by simpa using htarget) hp
theorem Way.solid {m : Nat} {r : Option Place} (hway : Way d.node? n here l r m)
    (h : Looks d.ahead n here l p) :
    d.node? p = some .directory ∨ ∃ target, d.node? p = some (.link target) := by
  induction hway with
  | arrive n here => cases h
  | stay hs _ ih =>
    cases h with
    | here hempty hdot => exact absurd hs (not_or.2 ⟨hempty, hdot⟩)
    | stay _ h => exact ih h
    | back => exact absurd hs (by decide)
    | down hempty hdot => exact absurd hs (not_or.2 ⟨hempty, hdot⟩)
    | link hempty hdot => exact absurd hs (not_or.2 ⟨hempty, hdot⟩)
  | back hne _ ih =>
    cases h with
    | here _ _ hup => exact absurd rfl hup
    | stay hs => exact absurd hs (by decide)
    | back _ h => exact ih h
    | down _ _ hup => exact absurd rfl hup
    | link _ _ hup => exact absurd rfl hup
  | down hempty hdot hup hsize hdir _ ih =>
    cases h with
    | here => exact .inl hdir
    | stay hs => exact absurd hs (not_or.2 ⟨hempty, hdot⟩)
    | back => exact absurd rfl hup
    | down _ _ _ _ _ h => exact ih h
    | link _ _ _ _ hlink =>
      cases (ahead_eq_some_iff.2 (.inl hdir)).symm.trans hlink
  | link hempty hdot hup hsize hlink htarget _ ih =>
    cases h with
    | here => exact .inr ⟨_, hlink⟩
    | stay hs => exact absurd hs (not_or.2 ⟨hempty, hdot⟩)
    | back => exact absurd rfl hup
    | down _ _ _ _ hdir =>
      cases (ahead_eq_some_iff.2 (.inl hlink)).symm.trans hdir
    | link _ _ _ _ hlink' _ h =>
      cases (ahead_eq_some_iff.2 (.inl hlink)).symm.trans hlink'
      exact ih h

end Agreeing

section Places

variable (h : ∀ p, d.OnTheWay dir p → d'.ahead p = d.ahead p)
include h

theorem onTheWay_eq : d'.OnTheWay dir = d.OnTheWay dir :=
  funext fun _ ↦ propext ⟨Looks.of_congr h, Looks.congr h⟩

theorem home_eq : d'.Home dir = d.Home dir := by
  funext q
  apply propext
  constructor
  · rintro ⟨n, hn⟩
    exact ⟨n, hn.congr fun p hp ↦ (h p (Looks.of_congr h hp)).symm⟩
  · rintro ⟨n, hn⟩
    exact ⟨n, hn.congr h⟩

end Places

section Locating

variable (h : ∀ p, d.OnTheWay dir p → d'.node? p = d.node? p)
include h

theorem Leads.congr (hq : d.Leads dir q) : d'.Leads dir q := by
  obtain ⟨n, hn⟩ := hq
  exact ⟨n, hn.congr fun p hp ↦ h p hp.ahead⟩

theorem locateName_congr : d'.locateName dir = d.locateName dir := by
  rw [locateName_eq, locateName_eq]
  exact congrArg (checkPath dir >>= ·) (funext fun _ ↦ route_congr _ _ _ _ h)

theorem isDirectory_congr : d'.isDirectory dir = d.isDirectory dir := by
  have hsteps (p : Place) (hp : Looks d.ahead linkLimit (startAt [] dir) (Path.steps dir) p) :
      d'.node? p = d.node? p := by
    refine h p ?_
    rw [Path.steps] at hp
    split at hp
    · exact hp.of_slash
    · rwa [List.append_nil] at hp
  have hlocate : d'.locate .content dir = d.locate .content dir := by
    rw [locate_eq, locate_eq]
    exact congrArg (checkPath dir >>= ·) (funext fun _ ↦ route_congr _ _ _ _ hsteps)
  rw [isDirectory, isDirectory, stat, stat, hlocate]

theorem locate_congr (hs : IsStep s)
    (hlink : ∀ q, d.Home dir q → ∀ target, d.node? (q ++ [s]) ≠ some (.link target))
    (hname : ∀ q, d.Home dir q → d'.node? (q ++ [s]) = d.node? (q ++ [s])) (aim : Aim) :
    d'.locate aim (Path.join dir s) = d.locate aim (Path.join dir s) := by
  have hagree (p : Place) (hp : Looks d.ahead linkLimit (startAt [] dir)
      (Path.stepsToName dir ++ [s]) p) : d'.node? p = d.node? p := by
    have hfree (q : Place) (m : Nat)
        (hway : Way d.ahead linkLimit (startAt [] dir) (Path.stepsToName dir) (some q) m)
        (target : Path) : d.ahead (q ++ [s]) ≠ some (.link target) := by
      intro ha
      rcases ahead_eq_some_iff.1 ha with hn | ⟨-, hn⟩
      · exact hlink q ⟨m, hway⟩ target hn
      · cases hn
    rcases hp.of_name hs hfree with hp | ⟨q, m, hway, rfl⟩
    · exact h p hp
    · exact hname q ⟨m, hway⟩
  rw [locate_eq, locate_eq, Path.steps_join hs, startAt_join hs]
  exact congrArg (checkPath (Path.join dir s) >>= ·) (funext fun _ ↦ route_congr _ _ _ _ hagree)

end Locating

end UpToDate.Disk
