import UpToDate.Disk.Basic

namespace UpToDate

namespace Folder

theorem find?_eq_none_iff {s : String} {f : Folder} : f.find? s = none ↔ s ∉ f.names := by
  induction f with
  | empty => simp [find?, names]
  | cons t n inside rest _ ih => by_cases h : s = t <;> simp [find?, names, h, ih]

theorem find?_eq_none_of_lt {s : String} {f : Folder} (h : ∀ t ∈ f.names, s < t) :
    f.find? s = none :=
  find?_eq_none_iff.2 fun hs ↦ LinearKey.lt_irrefl s (h s hs)

theorem sound_of_find? {s : String} {n : Node} {f inside : Folder} (h : f.Sound)
    (hs : f.find? s = some (n, inside)) :
    isName s ∧ (n = .directory ∨ inside = empty) ∧ inside.Sound := by
  induction f with
  | empty => simp [find?] at hs
  | cons t m i rest _ ih =>
    obtain ⟨ht, ho, hi, hf, hr⟩ := h
    rw [find?] at hs
    split at hs
    · next hst =>
      cases hs
      exact ⟨hst ▸ ht, hi, hf⟩
    · exact ih hr hs

theorem find?_set_of_ne {s t : String} (n : Node) (f : Folder) (h : t ≠ s) :
    (f.set s n).find? t = f.find? t := by
  induction f with
  | empty => simp [set, find?, h]
  | cons u m inside rest _ ih =>
    simp only [set]
    split
    · simp [find?, h]
    · next hsu =>
      split
      · simp [find?, ih]
      · next hus =>
        have hu : u = s := (LinearKey.eq_of_not_lt hsu hus).symm
        simp [find?, hu, h]

theorem find?_set_self (s : String) (n : Node) {f : Folder} (h : f.Sound) :
    (f.set s n).find? s =
      some (n, if n = .directory then ((f.find? s).map (·.2)).getD empty else empty) := by
  induction f with
  | empty => simp [set, find?]
  | cons u m inside rest _ ih =>
    obtain ⟨-, ho, -, -, hr⟩ := h
    simp only [set]
    split
    · next hsu =>
      have hfree : find? s (cons u m inside rest) = none := find?_eq_none_of_lt fun t ht ↦ by
        rcases List.mem_cons.1 ht with rfl | ht
        · exact hsu
        · exact LinearKey.lt_trans hsu (ho t ht)
      rw [hfree]
      simp [find?]
    · next hsu =>
      split
      · next hus =>
        have hne : s ≠ u := fun e ↦ LinearKey.lt_irrefl u (e ▸ hus)
        simp [find?, hne, ih hr]
      · next hus =>
        obtain rfl := LinearKey.eq_of_not_lt hsu hus
        simp [find?]

theorem find?_erase_of_ne {s t : String} (f : Folder) (h : t ≠ s) :
    (f.erase s).find? t = f.find? t := by
  induction f with
  | empty => rfl
  | cons u m inside rest _ ih =>
    rw [erase]
    split
    · next hsu => simp [find?, ← hsu, h]
    · simp [find?, ih]

theorem find?_erase_self (s : String) {f : Folder} (h : f.Sound) : (f.erase s).find? s = none := by
  induction f with
  | empty => rfl
  | cons u m inside rest _ ih =>
    obtain ⟨-, ho, -, -, hr⟩ := h
    rw [erase]
    split
    · next hsu => exact find?_eq_none_of_lt (hsu ▸ ho)
    · next hsu => simp [find?, hsu, ih hr]

theorem find?_inner_of_ne {s t : String} (g : Folder → Folder) (f : Folder) (h : t ≠ s) :
    (f.inner s g).find? t = f.find? t := by
  induction f with
  | empty => rfl
  | cons u m inside rest _ ih =>
    rw [inner]
    split
    · next hsu => simp [find?, ← hsu, h]
    · simp [find?, ih]

theorem find?_inner_self (s : String) (g : Folder → Folder) (f : Folder) :
    (f.inner s g).find? s =
      (f.find? s).map fun x ↦ (x.1, if x.1 = .directory then g x.2 else x.2) := by
  induction f with
  | empty => rfl
  | cons u m inside rest _ ih =>
    rw [inner]
    split
    · next hsu => simp [find?, hsu]
    · next hsu => simp [find?, hsu, ih]

section Places

theorem at?_append (p r : Place) (f : Folder) : f.at? (p ++ r) = (f.at? p).bind (at? r) := by
  induction p generalizing f with
  | nil => rfl
  | cons s p ih =>
    simp only [List.cons_append, at?]
    split
    · exact ih _
    · rfl

theorem node?_append {p : Place} {f h : Folder} (hp : f.at? p = some h) (r : Place) :
    f.node? (p ++ r) = h.node? r := by
  induction p generalizing f with
  | nil => cases hp; rfl
  | cons s p ih =>
    simp only [at?] at hp
    split at hp
    · next hs => simpa [node?, hs] using ih hp
    · cases hp

theorem at?_of_node? {p : Place} {f : Folder} (h : f.node? p = some .directory) :
    ∃ g, f.at? p = some g := by
  induction p generalizing f with
  | nil => exact ⟨f, rfl⟩
  | cons s p ih =>
    rw [node?] at h
    split at h
    · next hs =>
      obtain ⟨g, hg⟩ := ih h
      exact ⟨g, by simp [at?, hs, hg]⟩
    · next n i hd hs =>
      split at h
      · cases h
        exact absurd rfl hd
      · cases h
    · cases h

theorem at?_of_below {p r : Place} {f : Folder} (hr : r ≠ []) (h : f.node? (p ++ r) ≠ none) :
    ∃ g, f.at? p = some g := by
  induction p generalizing f with
  | nil => exact ⟨f, rfl⟩
  | cons s p ih =>
    simp only [List.cons_append, node?] at h
    cases hf : f.find? s with
    | none => simp [hf] at h
    | some x =>
      obtain ⟨n, i⟩ := x
      cases n with
      | directory =>
        obtain ⟨g, hg⟩ := ih (f := i) (by simpa [hf] using h)
        exact ⟨g, by simp [at?, hf, hg]⟩
      | file b => simp [hf, hr] at h
      | link target => simp [hf, hr] at h

theorem node?_of_at? {p : Place} {f g : Folder} (h : f.at? p = some g) :
    f.node? p = some .directory := by
  rw [← List.append_nil p, node?_append h]
  rfl

theorem node?_single_ne_none_iff {s : String} {f : Folder} :
    f.node? [s] ≠ none ↔ s ∈ f.names := by
  rw [← Decidable.not_iff_not, Decidable.not_not, ← find?_eq_none_iff, node?]
  cases f.find? s with
  | none => simp
  | some x =>
    obtain ⟨n, i⟩ := x
    cases n <;> simp [node?]

theorem isName_of_mem_names {s : String} {f : Folder} (h : f.Sound) (hs : s ∈ f.names) :
    isName s := by
  obtain ⟨x, hx⟩ := Option.ne_none_iff_exists'.1 fun h ↦ find?_eq_none_iff.1 h hs
  exact (sound_of_find? h hx).1

theorem sound_of_at? {p : Place} {f g : Folder} (h : f.Sound) (hp : f.at? p = some g) :
    g.Sound := by
  induction p generalizing f with
  | nil => cases hp; exact h
  | cons s p ih =>
    rw [at?] at hp
    split at hp
    · next hs => exact ih (sound_of_find? h hs).2.2 hp
    · cases hp

theorem at?_within {q : Place} {f h : Folder} (g : Folder → Folder) (hq : f.at? q = some h) :
    (f.within g q).at? q = some (g h) := by
  induction q generalizing f with
  | nil => cases hq; rfl
  | cons s q ih =>
    rw [at?] at hq
    split at hq
    · next hs =>
      simpa [within, at?, find?_inner_self, hs] using ih hq
    · cases hq

theorem node?_within {q p : Place} (g : Folder → Folder) (f : Folder) (h : ¬q <+: p) :
    (f.within g q).node? p = f.node? p := by
  induction q generalizing f p with
  | nil => exact absurd (List.nil_prefix) h
  | cons s q ih =>
    cases p with
    | nil => rfl
    | cons t p =>
      rw [within, node?, node?]
      by_cases hts : t = s
      · subst hts
        have hqp : ¬q <+: p := fun hqp ↦ h (List.cons_prefix_cons.2 ⟨rfl, hqp⟩)
        rw [find?_inner_self]
        cases f.find? t with
        | none => rfl
        | some x =>
          obtain ⟨n, i⟩ := x
          cases n with
          | directory => exact ih i hqp
          | file b => rfl
          | link target => rfl
      · rw [find?_inner_of_ne _ _ hts]

theorem node?_empty {p : Place} (h : p ≠ []) : node? p empty = none := by
  cases p with
  | nil => exact absurd rfl h
  | cons s p => rfl

theorem node?_below {s : String} {f : Folder} (h : f.node? [s] ≠ some .directory) {p : Place}
    (hp : p ≠ []) : f.node? (s :: p) = none := by
  simp only [node?] at h ⊢
  cases hf : f.find? s with
  | none => rfl
  | some x =>
    obtain ⟨n, i⟩ := x
    cases n with
    | directory => simp [hf] at h
    | file b => simp [hp]
    | link target => simp [hp]

theorem node?_set {s : String} (n : Node) {f : Folder} (hf : f.Sound)
    (hs : f.node? [s] ≠ some .directory) (p : Place) :
    (f.set s n).node? p = if p = [s] then some n else f.node? p := by
  cases p with
  | nil => rfl
  | cons t p =>
    by_cases hts : t = s
    · subst hts
      have hinside : ((f.find? t).map (·.2)).getD empty = empty := by
        cases hx : f.find? t with
        | none => rfl
        | some x =>
          obtain ⟨m, i⟩ := x
          refine (sound_of_find? hf hx).2.1.resolve_left fun hm ↦ hs ?_
          simp [node?, hx, hm]
      have hfind : (f.set t n).find? t = some (n, empty) := by
        rw [find?_set_self t n hf, hinside, ite_self]
      by_cases hp : p = []
      · cases n <;> simp [node?, hfind, hp]
      · rw [node?_below hs hp]
        cases n <;> simp [node?, hfind, hp, node?_empty]
    · simp [node?, find?_set_of_ne n f hts, hts]

theorem node?_erase {s : String} {f : Folder} (hf : f.Sound)
    (hs : f.node? [s] ≠ some .directory) (p : Place) :
    (f.erase s).node? p = if p = [s] then none else f.node? p := by
  cases p with
  | nil => rfl
  | cons t p =>
    by_cases hts : t = s
    · subst hts
      have hfind : (f.erase t).node? (t :: p) = none := by
        rw [node?, find?_erase_self t hf]
      rw [hfind]
      by_cases hp : p = []
      · simp [hp]
      · simp [hp, node?_below hs hp]
    · simp [node?, find?_erase_of_ne f hts, hts]

theorem node?_within_at {q : Place} {s : String} {f h : Folder} {g : Folder → Folder}
    {o : Option Node} (hq : f.at? q = some h)
    (hg : ∀ r, (g h).node? r = if r = [s] then o else h.node? r) (p : Place) :
    (f.within g q).node? p = if p = q ++ [s] then o else f.node? p := by
  by_cases hp : q <+: p
  · obtain ⟨r, rfl⟩ := hp
    rw [node?_append (at?_within g hq), node?_append hq, hg]
    simp only [List.append_cancel_left_eq]
  · have hne : p ≠ q ++ [s] := fun h ↦ hp (h ▸ List.prefix_append q [s])
    rw [node?_within g f hp, if_neg hne]

end Places

section Sameness

theorem node?_cons_of_ne {s t : String} (h : t ≠ s) (n : Node) (inside rest : Folder) (p : Place) :
    (cons s n inside rest).node? (t :: p) = rest.node? (t :: p) := by
  simp [node?, find?, h]

theorem name_eq_of_node? {s t : String} {n m : Node} {i j f g : Folder}
    (hf : (cons s n i f).Sound) (hg : (cons t m j g).Sound)
    (h : ∀ p, (cons s n i f).node? p = (cons t m j g).node? p) : s = t := by
  have hnames (u : String) : u ∈ (cons s n i f).names ↔ u ∈ (cons t m j g).names := by
    rw [← node?_single_ne_none_iff, ← node?_single_ne_none_iff, h]
  rcases List.mem_cons.1 ((hnames s).1 List.mem_cons_self) with hs | hs
  · exact hs
  · rcases List.mem_cons.1 ((hnames t).2 List.mem_cons_self) with ht | ht
    · exact ht.symm
    · exact absurd (LinearKey.lt_trans (hg.2.1 s hs) (hf.2.1 t ht)) (LinearKey.lt_irrefl t)

theorem ext_node? {f g : Folder} (hf : f.Sound) (hg : g.Sound)
    (h : ∀ p, f.node? p = g.node? p) : f = g := by
  induction f generalizing g with
  | empty =>
    cases g with
    | empty => rfl
    | cons t m j g =>
      have hfree := h [t]
      cases m <;> simp [node?, find?] at hfree
  | cons s n i f ihi ihf =>
    cases g with
    | empty =>
      have hfree := h [s]
      cases n <;> simp [node?, find?] at hfree
    | cons t m j g =>
      obtain rfl := name_eq_of_node? hf hg h
      obtain ⟨-, hfirst, hi, hisound, hfsound⟩ := hf
      obtain ⟨-, hfirst', hj, hjsound, hgsound⟩ := hg
      obtain rfl : n = m := by
        have hn := h [s]
        cases n <;> cases m <;> simp_all [node?, find?]
      have hinside : i = j := by
        by_cases hn : n = .directory
        · refine ihi hisound hjsound fun p ↦ ?_
          have hp := h (s :: p)
          simpa [node?, find?, hn] using hp
        · rw [hi.resolve_left hn, hj.resolve_left hn]
      have hrest : f = g := by
        refine ihf hfsound hgsound fun p ↦ ?_
        cases p with
        | nil => rfl
        | cons u p =>
          by_cases hu : u = s
          · rw [hu, node?, node?, find?_eq_none_of_lt hfirst, find?_eq_none_of_lt hfirst']
          · rw [← node?_cons_of_ne hu n i f, h, node?_cons_of_ne hu]
      rw [hinside, hrest]

end Sameness

end Folder

namespace Disk

variable {d : Disk} {q : Place} {s : String}

theorem at?_of_directory (h : d.node? q = some .directory) :
    ∃ g : Folder, d.content.at? q = some g ∧ g.Sound := by
  obtain ⟨g, hg⟩ := Folder.at?_of_node? h
  exact ⟨g, hg, Folder.sound_of_at? d.sound hg⟩

theorem node?_put (hq : d.node? q = some .directory) (hs : Folder.isName s)
    (hfree : d.node? (q ++ [s]) ≠ some .directory) (n : Node) (p : Place) :
    (d.put q s n).node? p = if p = q ++ [s] then some n else d.node? p := by
  obtain ⟨g, hg, hsound⟩ := at?_of_directory hq
  rw [node?, Folder.node?_append hg] at hfree
  have hput : (d.put q s n).content = d.content.within (Folder.set s n) q := by
    rw [put, dif_pos hs]
  rw [node?, hput]
  exact Folder.node?_within_at hg (Folder.node?_set n hsound hfree) p

theorem node?_replace (hq : d.node? q = some .directory) (hs : Folder.isName s)
    (hfree : d.node? (q ++ [s]) ≠ some .directory) (n : Node) (p : Place) :
    (d.replace (q ++ [s]) n).node? p = if p = q ++ [s] then some n else d.node? p := by
  rw [replace, List.getLast?_concat, List.dropLast_concat]
  exact node?_put hq hs hfree n p

theorem node?_prune (hq : d.node? q = some .directory)
    (hfree : d.node? (q ++ [s]) ≠ some .directory) (p : Place) :
    (d.prune (q ++ [s])).node? p = if p = q ++ [s] then none else d.node? p := by
  obtain ⟨g, hg, hsound⟩ := at?_of_directory hq
  rw [node?, Folder.node?_append hg] at hfree
  have hprune : (d.prune (q ++ [s])).content = d.content.within (Folder.erase s) q := by
    simp [prune]
  rw [node?, hprune]
  exact Folder.node?_within_at hg (Folder.node?_erase hsound hfree) p

theorem parent_of_node? {n : Node} (h : d.node? (q ++ [s]) = some n) :
    d.node? q = some .directory ∧ Folder.isName s := by
  have hne : d.content.node? (q ++ [s]) ≠ none := fun hn ↦ by simp [node?, hn] at h
  obtain ⟨g, hg⟩ := Folder.at?_of_below (List.cons_ne_nil s []) hne
  rw [Folder.node?_append hg, Folder.node?_single_ne_none_iff] at hne
  exact ⟨Folder.node?_of_at? hg, Folder.isName_of_mem_names (Folder.sound_of_at? d.sound hg) hne⟩

theorem mem_names_iff (hq : d.node? q = some .directory) :
    s ∈ d.names q ↔ d.node? (q ++ [s]) ≠ none := by
  obtain ⟨g, hg, -⟩ := at?_of_directory hq
  rw [node?, Folder.node?_append hg, Folder.node?_single_ne_none_iff, names, hg]
  rfl

theorem ext_node? {d d' : Disk} (h : ∀ p, d.node? p = d'.node? p) : d = d' := by
  obtain ⟨f, hf⟩ := d
  obtain ⟨g, hg⟩ := d'
  cases Folder.ext_node? hf hg h
  rfl

end Disk

end UpToDate
