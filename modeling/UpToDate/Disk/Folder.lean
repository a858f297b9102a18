import UpToDate.Bytes
import UpToDate.Dict
import UpToDate.Disk.Path

namespace UpToDate

/-- A place below a directory, by the names on the way to it. -/
abbrev Place := List String

inductive Node
  | file (content : Bytes)
  | directory
  | link (target : Path)
  deriving DecidableEq, Inhabited

/-- What a directory holds: under each name what stands there and, if it is a directory, what that
holds. Names are Unicode texts; the other names that a system allows have no counterpart here. -/
inductive Folder
  | empty
  | cons (name : String) (node : Node) (inside rest : Folder)
  deriving DecidableEq, Inhabited

namespace Folder

def nameLimit : Nat := 255

def isName (s : String) : Bool :=
  s ≠ "" && s ≠ "." && s ≠ ".." && !s.toList.contains '/' && !s.toList.contains '\x00' &&
    s.utf8ByteSize ≤ nameLimit

def names : Folder → List String
  | empty => []
  | cons s _ _ rest => s :: rest.names

/-- Names are names and come in order; only directories hold something. -/
def Sound : Folder → Prop
  | empty => True
  | cons s n inside rest =>
    isName s ∧ (∀ t ∈ rest.names, s < t) ∧ (n = .directory ∨ inside = empty) ∧ inside.Sound ∧
      rest.Sound

def find? (s : String) : Folder → Option (Node × Folder)
  | empty => none
  | cons t n inside rest => if s = t then some (n, inside) else rest.find? s

/-- What stands at a place. The directory itself is always there. -/
def node? : Place → Folder → Option Node
  | [], _ => some .directory
  | s :: p, f =>
    match f.find? s with
    | some (.directory, inside) => inside.node? p
    | some (n, _) => if p = [] then some n else none
    | none => none

def at? : Place → Folder → Option Folder
  | [], f => some f
  | s :: p, f =>
    match f.find? s with
    | some (.directory, inside) => inside.at? p
    | _ => none

/-- Puts something under a name, in place of what is there. A directory that is there keeps what it
holds if it stays one. -/
def set (s : String) (n : Node) : Folder → Folder
  | empty => cons s n empty empty
  | cons t m inside rest =>
    if s < t then cons s n empty (cons t m inside rest)
    else if t < s then cons t m inside (rest.set s n)
    else cons s n (if n = .directory then inside else empty) rest

def erase (s : String) : Folder → Folder
  | empty => empty
  | cons t n inside rest => if s = t then rest else cons t n inside (rest.erase s)

def inner (s : String) (f : Folder → Folder) : Folder → Folder
  | empty => empty
  | cons t n inside rest =>
    if s = t then cons t n (if n = .directory then f inside else inside) rest
    else cons t n inside (rest.inner s f)

def within (f : Folder → Folder) : Place → Folder → Folder
  | [] => f
  | s :: p => inner s (within f p)

def listing (above : String) : Folder → List String
  | empty => []
  | cons s n inside rest =>
    let path := above ++ s
    if n = .directory then
      let path := path ++ "/"
      path :: (inside.listing path ++ rest.listing above)
    else path :: rest.listing above

theorem mem_names_set {s t : String} {n : Node} {f : Folder} (h : t ∈ (f.set s n).names) :
    t = s ∨ t ∈ f.names := by
  induction f with
  | empty => simpa [set, names] using h
  | cons u m inside rest _ ih =>
    simp only [set] at h
    split at h
    · simpa [names] using h
    · split at h
      · rcases List.mem_cons.1 h with h | h
        · exact .inr (h ▸ List.mem_cons_self)
        · exact (ih h).imp_right (List.mem_cons_of_mem _)
      · rcases List.mem_cons.1 h with h | h
        · exact .inl h
        · exact .inr (List.mem_cons_of_mem _ h)

theorem mem_names_erase {s t : String} {f : Folder} (h : t ∈ (f.erase s).names) :
    t ∈ f.names := by
  induction f with
  | empty => exact h
  | cons u m inside rest _ ih =>
    simp only [erase] at h
    split at h
    · exact List.mem_cons_of_mem _ h
    · rcases List.mem_cons.1 h with h | h
      · exact h ▸ List.mem_cons_self
      · exact List.mem_cons_of_mem _ (ih h)

@[simp] theorem names_inner (s : String) (g : Folder → Folder) (f : Folder) :
    (f.inner s g).names = f.names := by
  induction f with
  | empty => rfl
  | cons u m inside rest _ ih =>
    simp only [inner]
    split
    · rfl
    · simp [names, ih]

theorem sound_set {s : String} {n : Node} {f : Folder} (hs : isName s) (h : f.Sound) :
    (f.set s n).Sound := by
  induction f with
  | empty => simp [set, Sound, names, hs]
  | cons u m inside rest _ ih =>
    obtain ⟨hu, ho, hi, hf, hr⟩ := h
    simp only [set]
    split
    · next hsu =>
      refine ⟨hs, fun t ht ↦ ?_, .inr rfl, trivial, hu, ho, hi, hf, hr⟩
      rcases List.mem_cons.1 ht with rfl | ht
      · exact hsu
      · exact LinearKey.lt_trans hsu (ho t ht)
    · next hsu =>
      split
      · next hus =>
        refine ⟨hu, fun t ht ↦ ?_, hi, hf, ih hr⟩
        rcases mem_names_set ht with rfl | ht
        · exact hus
        · exact ho t ht
      · next hus =>
        refine ⟨hs, fun t ht ↦ LinearKey.eq_of_not_lt hsu hus ▸ ho t ht, ?_, ?_, hr⟩
        · by_cases hn : n = .directory <;> simp [hn]
        · by_cases hn : n = .directory
          · simpa [hn] using hf
          · simp [hn, Sound]

theorem sound_erase {s : String} {f : Folder} (h : f.Sound) : (f.erase s).Sound := by
  induction f with
  | empty => trivial
  | cons u m inside rest _ ih =>
    obtain ⟨hu, ho, hi, hf, hr⟩ := h
    simp only [erase]
    split
    · exact hr
    · exact ⟨hu, fun t ht ↦ ho t (mem_names_erase ht), hi, hf, ih hr⟩

theorem sound_inner {s : String} {g : Folder → Folder} {f : Folder}
    (hg : ∀ f : Folder, f.Sound → (g f).Sound) (h : f.Sound) : (f.inner s g).Sound := by
  induction f with
  | empty => trivial
  | cons u m inside rest _ ih =>
    obtain ⟨hu, ho, hi, hf, hr⟩ := h
    simp only [inner]
    split
    · by_cases hm : m = .directory
      · exact ⟨hu, ho, .inl hm, by simpa [hm] using hg inside hf, hr⟩
      · exact ⟨hu, ho, by simpa [hm] using hi, by simpa [hm] using hf, hr⟩
    · exact ⟨hu, by simpa using ho, hi, hf, ih hr⟩

theorem sound_within {g : Folder → Folder} (hg : ∀ f : Folder, f.Sound → (g f).Sound)
    (p : Place) : ∀ {f : Folder}, f.Sound → (f.within g p).Sound := by
  induction p with
  | nil => exact fun h ↦ hg _ h
  | cons s p ih => exact fun h ↦ sound_inner (fun _ ↦ ih) h

end Folder

end UpToDate
