import UpToDate.Proofs.Disk.Entries

namespace UpToDate.Disk

variable {d k s u t t' : Disk} {dir : Path} {own other seen changed : Place → Prop} {p q : Place}
  {names : String → Prop}

section Relation

/-- The second disk is the first one but for some places. -/
def Beside (own : Place → Prop) (d s : Disk) : Prop := ∀ p, ¬own p → s.node? p = d.node? p

/-- How a shared disk `t` comes from two disks that were the same at first: each is the first disk
`d`, or the one with the common directory `k`, but for places of its own. -/
structure Shared (d k : Disk) (own other : Place → Prop) (s u t : Disk) : Prop where
  mine : ∀ p, own p → t.node? p = s.node? p
  theirs : ∀ p, other p → t.node? p = u.node? p
  rest : ∀ p, ¬own p → ¬other p → t.node? p = (s.node? p).or (u.node? p)
  left : Beside own d s ∨ Beside own k s
  right : Beside other d u ∨ Beside other k u

theorem Grows.or_eq (h : d.Grows k) (p : Place) :
    (d.node? p).or (k.node? p) = k.node? p ∧ (k.node? p).or (d.node? p) = k.node? p := by
  rcases h p with he | ⟨hnone, -⟩
  · simp [he]
  · simp [hnone]

theorem shared_refl (d k : Disk) (own other : Place → Prop) : Shared d k own other d d d where
  mine _ _ := rfl
  theirs _ _ := rfl
  rest _ _ _ := Option.or_self.symm
  left := .inl fun _ _ ↦ rfl
  right := .inl fun _ _ ↦ rfl

theorem Shared.symm (hgrows : d.Grows k) (h : Shared d k own other s u t) :
    Shared d k other own u s t := by
  refine ⟨h.theirs, h.mine, fun p hother hown ↦ ?_, h.right, h.left⟩
  rw [h.rest p hown hother]
  obtain ⟨hdk, hkd⟩ := hgrows.or_eq p
  rcases h.left with hs | hs <;> rcases h.right with hu | hu <;>
    rw [hs p hown, hu p hother] <;> simp only [hdk, hkd]

theorem Shared.unique (h : Shared d k own other s u t) (h' : Shared d k own other s u t') :
    t = t' := by
  refine ext_node? fun p ↦ ?_
  by_cases hown : own p
  · rw [h.mine p hown, h'.mine p hown]
  · by_cases hother : other p
    · rw [h.theirs p hother, h'.theirs p hother]
    · rw [h.rest p hown hother, h'.rest p hown hother]

theorem Shared.agree (h : Shared d k own other s u t) (hother : ¬other p)
    (hk : k.node? p = d.node? p) : t.node? p = s.node? p := by
  by_cases hown : own p
  · exact h.mine p hown
  · have hs : s.node? p = d.node? p :=
      h.left.elim (fun hs ↦ hs p hown) fun hs ↦ (hs p hown).trans hk
    have hu : u.node? p = d.node? p :=
      h.right.elim (fun hu ↦ hu p hother) fun hu ↦ (hu p hother).trans hk
    rw [h.rest p hown hother, hs, hu, Option.or_self]

theorem Shared.agree_of_made (h : Shared d k own other s u t) (hgrows : d.Grows k)
    (hs : Beside own k s) (hother : ¬other p) : t.node? p = s.node? p := by
  by_cases hown : own p
  · exact h.mine p hown
  · rw [h.rest p hown hother, hs p hown]
    rcases h.right with hu | hu
    · rw [hu p hother, (hgrows.or_eq p).2]
    · rw [hu p hother, Option.or_self]

theorem Confined.beside {α : Type} {f : Disk → α × Disk} (hf : Confined seen changed f s)
    (hchanged : ∀ p, changed p → own p) (h : Beside own d s) : Beside own d (f s).2 := by
  intro p hp
  rw [hf.node?_eq fun hc ↦ hp (hchanged p hc), h p hp]

theorem Shared.step {α : Type} {f : Disk → α × Disk} (h : Shared d k own other s u t)
    (hapart : ∀ p, own p → ¬other p) (hf : Confined seen changed f s)
    (hchanged : ∀ p, changed p → own p) (hagree : ∀ p, seen p → t.node? p = s.node? p) :
    (f t).1 = (f s).1 ∧ Shared d k own other (f s).2 u (f t).2 := by
  obtain ⟨hanswer, halike⟩ := hf t hagree
  have hout (p : Place) (hp : ¬own p) :
      (f t).2.node? p = t.node? p ∧ (f s).2.node? p = s.node? p :=
    halike.outside p fun hc ↦ hp (hchanged p hc)
  refine ⟨hanswer, halike.agree h.mine, fun p hp ↦ ?_, fun p hown hother ↦ ?_, ?_, h.right⟩
  · rw [(hout p fun hown ↦ hapart p hown hp).1, h.theirs p hp]
  · rw [(hout p hown).1, (hout p hown).2, h.rest p hown hother]
  · exact h.left.imp (hf.beside hchanged) (hf.beside hchanged)

end Relation

section Common

theorem Direct.made (h : d.Direct dir)
    (ht : (∀ p, d.OnTheWay dir p → t.node? p = d.node? p) ∨
      ∀ p, d.OnTheWay dir p → t.node? p = (d.makeDirectories dir).2.node? p) :
    (t.makeDirectories dir).1 = (d.makeDirectories dir).1 ∧
      (∀ p, d.OnTheWay dir p →
        (t.makeDirectories dir).2.node? p = (d.makeDirectories dir).2.node? p) ∧
      ∀ p, ¬d.OnTheWay dir p → (t.makeDirectories dir).2.node? p = t.node? p := by
  rcases ht with ht | ht
  · obtain ⟨hanswer, halike⟩ := confined_makeDirectories d dir t ht
    exact ⟨hanswer, halike.inside, fun p hp ↦ (halike.outside p hp).1⟩
  · have hconfined := confined_makeDirectories (d.makeDirectories dir).2 dir
    rw [(grows_makeDirectories d dir).onTheWay_eq] at hconfined
    obtain ⟨hanswer, halike⟩ := hconfined t ht
    dsimp only at hanswer halike
    rw [h.makeDirectories_again] at hanswer halike
    exact ⟨hanswer, halike.inside, fun p hp ↦ (halike.outside p hp).1⟩

/-- On the way to the common directory nobody has places of his own: there the shared disk is as at
first or as it is once the directory is made. -/
theorem Shared.common_cases {way : Place → Prop} (hgrows : d.Grows k)
    (h : Shared d k own other s u t) (hown : ∀ p, way p → ¬own p) (hother : ∀ p, way p → ¬other p) :
    (∀ p, way p → t.node? p = d.node? p) ∨ ∀ p, way p → t.node? p = k.node? p := by
  rcases h.left with hs | hs
  · refine h.right.imp (fun hu p hp ↦ ?_) fun hu p hp ↦ ?_
    · rw [h.rest p (hown p hp) (hother p hp), hs p (hown p hp), hu p (hother p hp),
        Option.or_self]
    · rw [h.rest p (hown p hp) (hother p hp), hs p (hown p hp), hu p (hother p hp),
        (hgrows.or_eq p).1]
  · refine .inr fun p hp ↦ ?_
    rw [h.agree_of_made hgrows hs (hother p hp), hs p (hown p hp)]

/-- What a step sees and changes is apart from a directory: making the directory does not change
what is seen, nothing in it is seen, and nothing on the way to it is changed. -/
structure Apart (d : Disk) (dir : Path) (seen changed : Place → Prop) : Prop where
  sub : ∀ p, changed p → seen p
  made : ∀ p, seen p → (d.makeDirectories dir).2.node? p = d.node? p
  names : ∀ q s, d.Home dir q → ¬seen (q ++ [s])
  way : ∀ p, changed p → ¬d.OnTheWay dir p

def Own (d : Disk) (dir : Path) (changed : Place → Prop) (names : String → Prop) (p : Place) :
    Prop :=
  changed p ∨ d.Entry dir names p

/-- One of two that share a disk: what it sees and changes is apart from the common directory and
from the places of the other one, who has none on the way to the directory. -/
structure Separate (d : Disk) (dir : Path) (seen changed : Place → Prop) (names : String → Prop)
    (other : Place → Prop) : Prop where
  direct : d.Direct dir
  apart : d.Apart dir seen changed
  unlinked : d.Unlinked dir names
  seen_other : ∀ p, seen p → ¬other p
  own_other : ∀ p, d.Own dir changed names p → ¬other p
  other_way : ∀ p, other p → ¬d.OnTheWay dir p

def Shares (d : Disk) (dir : Path) (changed : Place → Prop) (names : String → Prop)
    (other : Place → Prop) : Disk → Disk → Disk → Prop :=
  Shared d (d.makeDirectories dir).2 (d.Own dir changed names) other

variable (h : d.Separate dir seen changed names other)
include h

theorem Separate.own_way (hp : d.Own dir changed names p) : ¬d.OnTheWay dir p :=
  hp.elim (h.apart.way p) And.right

theorem Separate.step {α : Type} {f : Disk → α × Disk}
    (ht : d.Shares dir changed names other s u t) (hf : Confined seen changed f s) :
    (f t).1 = (f s).1 ∧ d.Shares dir changed names other (f s).2 u (f t).2 := by
  refine Shared.step ht h.own_other hf (fun p hp ↦ .inl hp) fun p hp ↦ ?_
  exact Shared.agree ht (h.seen_other p hp) (h.apart.made p hp)

section Making

variable (hs : Beside (d.Own dir changed names) d s)
include hs

theorem Separate.made : (s.makeDirectories dir).1 = (d.makeDirectories dir).1 ∧
    (∀ p, d.OnTheWay dir p →
      (s.makeDirectories dir).2.node? p = (d.makeDirectories dir).2.node? p) ∧
    ∀ p, ¬d.OnTheWay dir p → (s.makeDirectories dir).2.node? p = s.node? p :=
  h.direct.made (.inl fun p hp ↦ hs p fun hown ↦ h.own_way hown hp)

theorem Separate.beside_makeDirectories :
    Beside (d.Own dir changed names) (d.makeDirectories dir).2 (s.makeDirectories dir).2 := by
  obtain ⟨-, hin, hout⟩ := h.made hs
  intro p hp
  by_cases hway : d.OnTheWay dir p
  · exact hin p hway
  · rw [hout p hway, hs p hp]
    exact ((confined_makeDirectories d dir).node?_eq hway).symm

/-- The one who makes the common directory last finds it as if nobody else had made it. -/
theorem Separate.step_makeDirectories (ht : d.Shares dir changed names other s u t) :
    (t.makeDirectories dir).1 = (s.makeDirectories dir).1 ∧
      d.Shares dir changed names other (s.makeDirectories dir).2 u (t.makeDirectories dir).2 := by
  have hgrows := grows_makeDirectories d dir
  obtain ⟨hanswer, hin, hout⟩ := h.made hs
  obtain ⟨hanswer', hin', hout'⟩ := h.direct.made (Shared.common_cases hgrows ht
    (fun p hp hown ↦ h.own_way hown hp) fun p hp hother ↦ h.other_way p hother hp)
  refine ⟨hanswer'.trans hanswer.symm, fun p hp ↦ ?_, fun p hp ↦ ?_, fun p hown hother ↦ ?_,
    .inr (h.beside_makeDirectories hs), ht.right⟩
  · rw [hout p (h.own_way hp), hout' p (h.own_way hp), ht.mine p hp]
  · rw [hout' p (h.other_way p hp), ht.theirs p hp]
  · -- on the way both disks are now as the directory is made, whoever made it
    by_cases hway : d.OnTheWay dir p
    · rw [hin p hway, hin' p hway]
      rcases ht.right with hu | hu
      · rw [hu p hother, (hgrows.or_eq p).2]
      · rw [hu p hother, Option.or_self]
    · rw [hout p hway, hout' p hway, ht.rest p hown hother]

end Making

section Made

variable (hs : Beside (d.Own dir changed names) (d.makeDirectories dir).2 s)
include hs

theorem Separate.ahead_eq (hp : d.OnTheWay dir p) : s.ahead p = d.ahead p := by
  have hsame := hs p fun hown ↦ h.own_way hown hp
  rw [← (grows_makeDirectories d dir).ahead_eq, ahead, ahead, hsame]

theorem Separate.step_made {α : Type} {f : Disk → α × Disk}
    (ht : d.Shares dir changed names other s u t)
    (hf : Confined (s.Around dir names) (s.Entry dir names) f s) : ((f t).1 = (f s).1 ∧
      d.Shares dir changed names other (f s).2 u (f t).2) ∧
      Beside (d.Own dir changed names) (d.makeDirectories dir).2 (f s).2 := by
  have hahead (p : Place) (hp : d.OnTheWay dir p) := h.ahead_eq hs hp
  rw [around_eq hahead, entry_eq hahead] at hf
  refine ⟨Shared.step ht h.own_other hf (fun p hp ↦ .inr hp) fun p hp ↦ ?_,
    hf.beside (fun p hp ↦ .inr hp) hs⟩
  by_cases hway : d.OnTheWay dir p
  · exact Shared.agree_of_made ht (grows_makeDirectories d dir) hs
      fun hother ↦ h.other_way p hother hway
  · exact ht.mine p (.inr ⟨hp.resolve_left hway, hway⟩)

end Made

theorem Separate.unlinked_makeDirectories (hs : Beside changed d s) :
    (s.makeDirectories dir).2.Unlinked dir names := by
  have hahead (p : Place) (hp : d.OnTheWay dir p) : s.ahead p = d.ahead p := by
    rw [ahead, ahead, hs p fun hc ↦ h.apart.way p hc hp]
  refine (grows_makeDirectories s dir).unlinked fun p hp target hn ↦ ?_
  rw [named_eq hahead] at hp
  refine h.unlinked p hp target ?_
  rwa [← hs p]
  obtain ⟨q, s, hq, -, rfl⟩ := hp
  exact fun hc ↦ h.apart.names q s hq (h.apart.sub _ hc)

end Common

end UpToDate.Disk
