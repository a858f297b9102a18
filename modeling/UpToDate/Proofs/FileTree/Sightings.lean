import UpToDate.Proofs.FileTree.Visit

namespace UpToDate

/-- What is seen of an entry. A directory has no content. -/
structure Sighting where
  leaf : Nat
  relative : String
  content : Option Bytes
  deriving DecidableEq

def Disk.contentAt (d : Disk) (p : Path) : Option Bytes :=
  match d.stat p with
  | .ok (.file b) => some b
  | _ => none

/-- What visiting the leaves of a tree sees, in the order of the visit. -/
def FileTree.sightings (t : FileTree) (d : Disk) : List Sighting :=
  t.leaves.zipIdx.flatMap fun (l, i) ↦
    (l.visit .fails d).entries.map fun e ↦ ⟨i, e.relative, d.contentAt e.path⟩

variable {t : FileTree} {d : Disk} {x y : Sighting}

theorem path_of_tells {e : Entry} {base : Path} (h : e.Tells d base) :
    e.path = Path.join base e.relative := by
  obtain ⟨n, -, he⟩ := h
  rw [he]
  cases n <;> rfl

theorem mem_sightings : x ∈ t.sightings d ↔ ∃ l, t.leaves[x.leaf]? = some l ∧
    ∃ e ∈ (l.visit .fails d).entries, x.relative = e.relative ∧
      x.content = d.contentAt e.path := by
  rw [FileTree.sightings, List.mem_flatMap]
  constructor
  · rintro ⟨⟨l, i⟩, hl, hx⟩
    obtain ⟨e, he, rfl⟩ := List.mem_map.1 hx
    exact ⟨l, List.mem_zipIdx_iff_getElem?.1 hl, e, he, rfl, rfl⟩
  · rintro ⟨l, hl, e, he, hrelative, hcontent⟩
    refine ⟨(l, x.leaf), List.mem_zipIdx_iff_getElem?.2 hl, List.mem_map.2 ⟨e, he, ?_⟩⟩
    rw [← hrelative, ← hcontent]

theorem FileTree.Pure.sighting_unique (h : t.Pure) (hx : x ∈ t.sightings d)
    (hy : y ∈ t.sightings d) (hleaf : x.leaf = y.leaf) (hrelative : x.relative = y.relative) :
    x = y := by
  obtain ⟨l, hl, e, he, hxr, hxc⟩ := mem_sightings.1 hx
  obtain ⟨l', hl', e', he', hyr, hyc⟩ := mem_sightings.1 hy
  obtain rfl : l = l' := by
    rw [hleaf] at hl
    exact Option.some.inj (hl.symm.trans hl')
  have hsees := (h l (List.mem_of_getElem? hl)).sees_visit .fails d
  have hpath := path_of_tells (hsees.entries e he)
  have hpath' := path_of_tells (hsees.entries e' he')
  have hcontent : x.content = y.content := by
    rw [hxc, hyc, hpath, hpath', ← hxr, ← hyr, hrelative]
  obtain ⟨i, r, c⟩ := x
  obtain ⟨i', r', c'⟩ := y
  simp_all

theorem FileTree.Pure.sightings_eq (h : t.Pure) {u : Unit}
    (hok : (t.visit .fails d).result = .ok u) :
    (t.sightings d).map (fun x ↦ (x.relative, x.content)) =
      (t.visit .fails d).entries.map fun e ↦ (e.relative, d.contentAt e.path) := by
  have hentries : (t.visit .fails d).entries =
      t.leaves.flatMap fun l ↦ (l.visit .fails d).entries :=
    Report.entries_each (fun l hl ↦ ((h l hl).sees_visit .fails d).disk) hok
  have hseen : (t.sightings d).map (fun x ↦ (x.relative, x.content)) =
      t.leaves.zipIdx.flatMap fun p ↦
        (p.1.visit .fails d).entries.map fun e ↦ (e.relative, d.contentAt e.path) := by
    rw [FileTree.sightings, List.map_flatMap]
    simp only [List.map_map]
    rfl
  have hleaves (g : Leaf → List (String × Option Bytes)) :
      t.leaves.zipIdx.flatMap (fun p ↦ g p.1) = t.leaves.flatMap g := by
    rw [← List.flatMap_map, List.zipIdx_map_fst]
  rw [hseen, hentries, List.map_flatMap]
  exact hleaves fun l ↦ (l.visit .fails d).entries.map fun e ↦ (e.relative, d.contentAt e.path)

end UpToDate
