import UpToDate.Proofs.Disk.Making
import UpToDate.Proofs.Execution.Stages

namespace UpToDate

namespace Disk

variable {d d' : Disk} {dir : Path} {n : Nat} {r : Except Fault Unit}

theorem checkPath_of_isDirectory (h : d.isDirectory dir = true) : checkPath dir = .ok () := by
  rw [Disk.isDirectory, stat, locate] at h
  cases hcheck : checkPath dir with
  | ok _ => rfl
  | error e =>
    rw [hcheck] at h
    cases h

theorem Enters.mono (h : d.Enters dir) (hgrows : d.Grows d') : d'.Enters dir := by
  obtain ⟨r, m, hway⟩ := h
  exact ⟨r, m, hway.mono hgrows.keep⟩

/-- A directory is at a path. The system finds it if it takes the path, and it takes all paths that
have a parent; the empty path and names of the root have none. -/
structure Provides (d : Disk) (dir : Path) : Prop where
  enters : d.Enters dir
  isDirectory : checkPath dir = .ok () → d.isDirectory dir = true
  isTaken : Path.parent? dir ≠ none → checkPath dir = .ok ()

theorem provides_of_isDirectory (h : d.isDirectory dir = true) : d.Provides dir :=
  ⟨enters_of_isDirectory h, fun _ ↦ h, fun _ ↦ checkPath_of_isDirectory h⟩

theorem provides_of_enters (h : d.Enters dir) (hcheck : checkPath dir = .ok ()) :
    d.Provides dir :=
  provides_of_isDirectory (h.isDirectory hcheck)

theorem provides_of_parent?_eq_none (h : Path.parent? dir = none) : d.Provides dir := by
  have henters : d.Enters dir := by
    rcases Path.parent?_cases dir with ⟨-, hdots⟩ | ⟨up, hup, -⟩
    · exact enters_of_dots hdots
    · cases h.symm.trans hup
  exact ⟨henters, henters.isDirectory, fun hne ↦ absurd h hne⟩

theorem Provides.mono (h : d.Provides dir) (hgrows : d.Grows d') : d'.Provides dir :=
  ⟨h.enters.mono hgrows, (h.enters.mono hgrows).isDirectory, h.isTaken⟩

theorem Makes.provides (h : Makes n dir d r d') (hn : dir.length ≤ n) (hr : r = .ok ()) :
    d'.Provides dir := by
  cases h with
  | zero =>
    have hempty : dir = "" := String.length_eq_zero_iff.1 (Nat.le_zero.1 hn)
    exact provides_of_parent?_eq_none (hempty ▸ rfl)
  | top hparent => exact provides_of_parent?_eq_none hparent
  | made _ hmake =>
    exact provides_of_enters (new_of_makeDirectory hmake).enters (checkPath_of_makeDirectory hmake)
  | settled => exact provides_of_isDirectory (isDirectory_of_settle hr).2
  | stuck => cases hr
  | madeAfter _ _ _ hmake =>
    exact provides_of_enters (new_of_makeDirectory hmake).enters (checkPath_of_makeDirectory hmake)
  | settledAfter => exact provides_of_isDirectory (isDirectory_of_settle hr).2

theorem provides_makeDirectories (h : (d.makeDirectories dir).1 = .ok ()) :
    (d.makeDirectories dir).2.Provides dir :=
  (makes_makeDirectories d dir).provides (Nat.le_refl _) h

theorem Provides.makeDirectories (h : d.Provides dir) : d.makeDirectories dir = (.ok (), d) := by
  by_cases hparent : Path.parent? dir = none
  · rw [Disk.makeDirectories]
    cases dir.length with
    | zero => rfl
    | succ n => exact (Makes.top hparent).eq
  · exact h.enters.makeDirectories (h.isTaken hparent)

end Disk

/-- A directory is at the root of a leaf, or at the parents of the files it lists. -/
def Leaf.Located (l : Leaf) (d : Disk) : Prop :=
  match l.source with
  | .directory root => d.Provides root
  | .files base fs => ∀ f ∈ fs, ∀ up, Path.parent? (Path.join base f) = some up → d.Provides up

theorem Declaration.located {w : Declaration} {d : Disk}
    (h : ∀ dir ∈ w.outputDirectories, d.Provides dir) {t : FileTree} (ht : t ∈ w.outputFiles.values)
    {l : Leaf} (hl : l ∈ t.leaves) : l.Located d := by
  rw [Leaf.Located]
  cases hsource : l.source with
  | directory root =>
    refine h root (List.mem_flatMap.2 ⟨t, ht, List.mem_flatMap.2 ⟨l, hl, ?_⟩⟩)
    rw [hsource]
    exact List.mem_singleton.2 rfl
  | files base fs =>
    intro f hf up hup
    refine h up (List.mem_flatMap.2 ⟨t, ht, List.mem_flatMap.2 ⟨l, hl, ?_⟩⟩)
    rw [hsource]
    exact List.mem_filterMap.2 ⟨f, hf, hup⟩

namespace Attempt

variable {w : UnitOfWork} {d : Disk} {dirs : List Path}

theorem provides_makeAll (h : (makeAll dirs d).1 = .ok ()) :
    ∀ dir ∈ dirs, (makeAll dirs d).2.Provides dir := by
  induction dirs generalizing d with
  | nil => simp
  | cons dir dirs ih =>
    have hfirst : (d.makeDirectories dir).1 = .ok () → (d.makeDirectories dir).2.Provides dir :=
      Disk.provides_makeDirectories
    rw [makeAll] at h ⊢
    generalize d.makeDirectories dir = x at *
    obtain ⟨r, d₁⟩ := x
    cases r with
    | error e => cases h
    | ok _ =>
      -- a directory that is there stays while those after it are made
      refine List.forall_mem_cons.2 ⟨?_, ih h⟩
      exact (hfirst rfl).mono (grows_makeAll dirs d₁)

theorem makeAll_of_provides (h : ∀ dir ∈ dirs, d.Provides dir) :
    makeAll dirs d = (.ok (), d) := by
  induction dirs with
  | nil => rfl
  | cons dir dirs ih =>
    obtain ⟨hdir, hdirs⟩ := List.forall_mem_cons.1 h
    rw [makeAll, hdir.makeDirectories]
    exact ih hdirs

theorem located_prepared (h : (makeAll w.outputDirectories d).1 = .ok ()) :
    ∀ t ∈ w.outputFiles.values, ∀ l ∈ t.leaves, l.Located (prepared w d) :=
  fun _ ht _ hl ↦ Declaration.located (provides_makeAll h) ht hl

/-- Getting the locations of outputs ready adds directories and changes nothing else, whether it
succeeds or not. When it succeeds, a directory is at the location of every leaf, and getting them
ready again succeeds and changes nothing. -/
theorem preparing_laws (w : UnitOfWork) (d : Disk) :
    d.Grows (prepared w d) ∧
      ((makeAll w.outputDirectories d).1 = .ok () →
        (∀ t ∈ w.outputFiles.values, ∀ l ∈ t.leaves, l.Located (prepared w d)) ∧
          makeAll w.outputDirectories (prepared w d) = (.ok (), prepared w d)) := by
  refine ⟨grows_makeAll _ d, fun hmade ↦ ⟨located_prepared hmade, ?_⟩⟩
  exact makeAll_of_provides (provides_makeAll hmade)

end Attempt

section Instances

open Attempt (makeAll prepared)

def UnitOfWork.nesting : UnitOfWork where
  id := "a"
  outputFiles := .ofList [
    ("objects", .union [.directory "out", .directory "out/x/y"]),
    ("lists", .files "out/x" ["g", "y/z/h"])]

def Disk.begun : Disk := (empty.put [] "out" .directory).put ["out"] "f" (.file [7])

theorem Attempt.preparing_laws_nesting :
    (makeAll UnitOfWork.nesting.outputDirectories .begun).1 = .ok () ∧
      (prepared .nesting .begun).node? ["out", "f"] = some (.file [7]) ∧
      (prepared .nesting .begun).isDirectory "out/x/y/z" = true ∧
      makeAll UnitOfWork.nesting.outputDirectories (prepared .nesting .begun) =
        (.ok (), prepared .nesting .begun) := by
  have hmade : (makeAll UnitOfWork.nesting.outputDirectories .begun).1 = .ok () := by
    decide +kernel
  obtain ⟨hgrows, hsucceeds⟩ := preparing_laws .nesting .begun
  obtain ⟨hlocated, hagain⟩ := hsucceeds hmade
  have hlists : (Leaf.files "out/x" ["g", "y/z/h"]).Located (prepared .nesting .begun) :=
    hlocated (.files "out/x" ["g", "y/z/h"]) (.head _) _ (List.mem_singleton.2 rfl)
  have hprovides : (prepared .nesting .begun).Provides "out/x/y/z" :=
    hlists "y/z/h" (by decide +kernel) "out/x/y/z" (by decide +kernel)
  exact ⟨hmade, hgrows.keeps (by decide +kernel), hprovides.isDirectory (by decide +kernel), hagain⟩

def UnitOfWork.unplaced : UnitOfWork where
  id := "a"
  outputFiles := .ofList [("o", .directory "")]

/-- At the empty path no directory is found, although getting it ready succeeds. -/
theorem Attempt.missing_unplaced : ¬∀ (w : UnitOfWork) (d : Disk),
    (makeAll w.outputDirectories d).1 = .ok () → ∀ t ∈ w.outputFiles.values, ∀ l ∈ t.leaves,
      ∀ root, l.source = .directory root → (prepared w d).isDirectory root = true := by
  intro h
  have hfound := h .unplaced .empty (by decide +kernel) (.directory "") (List.mem_singleton.2 rfl)
    (.directory "") (List.mem_singleton.2 rfl) "" rfl
  exact absurd hfound (by decide +kernel)

end Instances

end UpToDate
