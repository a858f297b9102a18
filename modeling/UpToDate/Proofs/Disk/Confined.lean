import UpToDate.Proofs.Disk.Making

namespace UpToDate.Disk

variable {d d' t : Disk} {dir up : Path} {p q : Place} {s : String} {n : Nat}
  {r : Except Fault Unit}

section Confining

variable {α β : Type} {seen changed seen' changed' : Place → Prop} {f : Disk → α × Disk}

/-- Two disks change to others alike, and only at some places. -/
structure Alike (changed : Place → Prop) (d d' t t' : Disk) : Prop where
  inside : ∀ p, changed p → t'.node? p = d'.node? p
  outside : ∀ p, ¬changed p → t'.node? p = t.node? p ∧ d'.node? p = d.node? p

theorem alike_of_agree (h : ∀ p, changed p → t.node? p = d.node? p) : Alike changed d d t t :=
  ⟨h, fun _ _ ↦ ⟨rfl, rfl⟩⟩

theorem Alike.trans {d₁ t₁ t' : Disk} (h : Alike changed d d₁ t t₁)
    (h' : Alike changed d₁ d' t₁ t') : Alike changed d d' t t' := by
  refine ⟨h'.inside, fun p hp ↦ ?_⟩
  obtain ⟨ht, hd⟩ := h.outside p hp
  obtain ⟨ht', hd'⟩ := h'.outside p hp
  exact ⟨ht'.trans ht, hd'.trans hd⟩

theorem Alike.agree {t' : Disk} (h : Alike changed d d' t t')
    (hagree : ∀ p, seen p → t.node? p = d.node? p) :
    ∀ p, seen p → t'.node? p = d'.node? p := by
  intro p hp
  by_cases hc : changed p
  · exact h.inside p hc
  · obtain ⟨ht, hd⟩ := h.outside p hc
    rw [ht, hd, hagree p hp]

theorem Alike.mono {t' : Disk} (h : Alike changed d d' t t')
    (hchanged : ∀ p, changed p → changed' p) (hagree : ∀ p, changed' p → t.node? p = d.node? p) :
    Alike changed' d d' t t' :=
  ⟨h.agree hagree, fun p hp ↦ h.outside p fun hc ↦ hp (hchanged p hc)⟩

/-- Wherever the same stands at the places that a step sees on a disk, it gives what it gives there
and changes the same places in the same way. -/
def Confined (seen changed : Place → Prop) (f : Disk → α × Disk) (d : Disk) : Prop :=
  ∀ t : Disk, (∀ p, seen p → t.node? p = d.node? p) →
    (f t).1 = (f d).1 ∧ Alike changed d (f d).2 t (f t).2

theorem Confined.node?_eq (h : Confined seen changed f d) (hp : ¬changed p) :
    (f d).2.node? p = d.node? p :=
  ((h d fun _ _ ↦ rfl).2.outside p hp).2

theorem Confined.mono (h : Confined seen changed f d) (hseen : ∀ p, seen p → seen' p)
    (hchanged : ∀ p, changed p → changed' p) (hsub : ∀ p, changed' p → seen' p) :
    Confined seen' changed' f d := by
  intro t ht
  obtain ⟨hanswer, halike⟩ := h t fun p hp ↦ ht p (hseen p hp)
  exact ⟨hanswer, halike.mono hchanged fun p hp ↦ ht p (hsub p hp)⟩

theorem Confined.map (h : Confined seen changed f d) (g : α → β) :
    Confined seen changed (fun d ↦ (g (f d).1, (f d).2)) d := by
  intro t ht
  obtain ⟨hanswer, halike⟩ := h t ht
  exact ⟨congrArg g hanswer, halike⟩

theorem Confined.andThen {g : α → Disk → β × Disk} (h : Confined seen changed f d)
    (hg : Confined seen changed (g (f d).1) (f d).2) :
    Confined seen changed (fun d ↦ g (f d).1 (f d).2) d := by
  intro t ht
  obtain ⟨hanswer, halike⟩ := h t ht
  obtain ⟨hanswer', halike'⟩ := hg (f t).2 (halike.agree ht)
  rw [← hanswer] at hanswer' halike'
  dsimp only
  rw [← hanswer]
  exact ⟨hanswer', halike.trans halike'⟩

end Confining

section Making

theorem OnTheWay.of_isParent (hparent : Path.IsParent up dir) (h : d.OnTheWay up p) :
    d.OnTheWay dir p := by
  obtain ⟨a, s, b, hsteps, -⟩ := hparent.steps
  rw [OnTheWay, hsteps, startAt, ← hparent.absolute]
  exact Looks.append h _

theorem Free.onTheWay (h : d.Free dir q s) : d.OnTheWay dir (q ++ [s]) := by
  obtain ⟨l, m, hsteps, hway⟩ := h.way
  obtain ⟨⟨⟨⟨⟨hempty, hdot⟩, hup⟩, -⟩, -⟩, hsize⟩ := by simpa [Folder.isName] using h.isName
  have hahead : Way d.ahead linkLimit (startAt [] dir) l (some q) m :=
    hway.mono fun p x _ hx ↦ ahead_eq_some_iff.2 (.inl hx)
  rw [OnTheWay, hsteps]
  exact hahead.looks (.here hempty hdot hup hsize)

section Agreeing

variable (h : ∀ p, d.OnTheWay dir p → t.node? p = d.node? p)
include h

theorem makeDirectory_congr_of_error {e : Fault} (hmake : d.makeDirectory dir = .error e) :
    t.makeDirectory dir = .error e := by
  rw [makeDirectory, locateName_congr h]
  rw [makeDirectory] at hmake
  cases hspot : d.locateName dir with
  | error e' =>
    rw [hspot] at hmake
    exact hmake
  | ok spot =>
    rw [hspot] at hmake
    cases spot with
    | found q n => exact hmake
    | root => exact hmake
    | free q s => cases hmake

theorem settle_congr (e : Fault) : t.settle dir e = d.settle dir e := by
  rw [settle, settle, isDirectory_congr h]

theorem exists_makeDirectory_congr (hmake : d.makeDirectory dir = .ok d') :
    ∃ t', t.makeDirectory dir = .ok t' ∧ Alike (d.OnTheWay dir) d d' t t' := by
  obtain ⟨q, s, hfree, rfl⟩ := exists_free_of_makeDirectory hmake
  have hlocate : t.locateName dir = .ok (.free q s) := by
    rw [locateName_congr h, hfree.locateName]
  have hmake' : t.makeDirectory dir = .ok (t.put q s .directory) := by
    rw [makeDirectory, hlocate]
    rfl
  obtain ⟨q', s', hfree', hput⟩ := exists_free_of_makeDirectory hmake'
  cases hlocate.symm.trans hfree'.locateName
  refine ⟨_, hmake', ⟨fun p hp ↦ ?_, fun p hp ↦ ?_⟩⟩
  · rw [hfree.node?_put, hfree'.node?_put, h p hp]
  · have hne : p ≠ q ++ [s] := by
      rintro rfl
      exact hp hfree.onTheWay
    rw [hfree.node?_put, hfree'.node?_put, if_neg hne, if_neg hne]
    exact ⟨rfl, rfl⟩

end Agreeing

theorem Makes.congr (hmakes : Makes n dir d r d')
    (h : ∀ p, d.OnTheWay dir p → t.node? p = d.node? p) :
    ∃ t', Makes n dir t r t' ∧ Alike (d.OnTheWay dir) d d' t t' := by
  -- what happens on the way to the parent happens on the way to the path
  have hparents {n : Nat} {p up : Path} {d d₁ t : Disk} {r : Except Fault Unit}
      (hparent : Path.parent? p = some up) (hmake : d.makeDirectory p = .error .notFound)
      (hmakes : Makes n up d r d₁) (h : ∀ q, d.OnTheWay p q → t.node? q = d.node? q)
      (ih : ∀ {t : Disk}, (∀ q, d.OnTheWay up q → t.node? q = d.node? q) →
        ∃ t₁, Makes n up t r t₁ ∧ Alike (d.OnTheWay up) d d₁ t t₁) :
      ∃ t₁, Makes n up t r t₁ ∧ Alike (d.OnTheWay p) d d₁ t t₁ ∧
        d₁.OnTheWay p = d.OnTheWay p ∧ ∀ q, d₁.OnTheWay p q → t₁.node? q = d₁.node? q := by
    have hwiden (q : Place) (hq : d.OnTheWay up q) : d.OnTheWay p q :=
      hq.of_isParent (isParent_of_notFound hparent hmake).1
    obtain ⟨t₁, hmakes', halike⟩ := ih fun q hq ↦ h q (hwiden q hq)
    have hway : d₁.OnTheWay p = d.OnTheWay p := hmakes.grows.onTheWay_eq
    have hwide := halike.mono hwiden h
    rw [hway]
    exact ⟨t₁, hmakes', hwide, rfl, hwide.agree h⟩
  induction hmakes generalizing t with
  | zero p d => exact ⟨t, .zero p t, alike_of_agree h⟩
  | top hparent => exact ⟨t, .top hparent, alike_of_agree h⟩
  | made hparent hmake =>
    obtain ⟨t', hmake', halike⟩ := exists_makeDirectory_congr h hmake
    exact ⟨t', .made hparent hmake', halike⟩
  | settled hparent hmake he =>
    refine ⟨t, ?_, alike_of_agree h⟩
    rw [← settle_congr h]
    exact .settled hparent (makeDirectory_congr_of_error h hmake) he
  | stuck hparent hmake hmakes ih =>
    obtain ⟨t₁, hmakes', halike, -, -⟩ := hparents hparent hmake hmakes h ih
    exact ⟨t₁, .stuck hparent (makeDirectory_congr_of_error h hmake) hmakes', halike⟩
  | madeAfter hparent hmake hmakes hmake' ih =>
    obtain ⟨t₁, hmakes', halike, hway, hagree⟩ := hparents hparent hmake hmakes h ih
    obtain ⟨t', hmade, halike'⟩ := exists_makeDirectory_congr hagree hmake'
    rw [hway] at halike'
    exact ⟨t', .madeAfter hparent (makeDirectory_congr_of_error h hmake) hmakes' hmade,
      halike.trans halike'⟩
  | settledAfter hparent hmake hmakes hmake' ih =>
    obtain ⟨t₁, hmakes', halike, -, hagree⟩ := hparents hparent hmake hmakes h ih
    refine ⟨t₁, ?_, halike⟩
    rw [← settle_congr hagree]
    exact .settledAfter hparent (makeDirectory_congr_of_error h hmake) hmakes'
      (makeDirectory_congr_of_error hagree hmake')

theorem confined_makeDirectories (d : Disk) (dir : Path) :
    Confined (d.OnTheWay dir) (d.OnTheWay dir) (·.makeDirectories dir) d := by
  intro t ht
  obtain ⟨t', hmakes, halike⟩ := (makes_makeDirectories d dir).congr ht
  have heq : t.makeDirectories dir = ((d.makeDirectories dir).1, t') := hmakes.eq
  dsimp only
  rw [heq]
  exact ⟨rfl, halike⟩

end Making

end UpToDate.Disk
