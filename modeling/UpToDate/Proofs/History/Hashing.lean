import UpToDate.Proofs.FileTree.Composition
import UpToDate.Proofs.History.Fingerprint
import Mathlib.Data.List.Forall2

namespace UpToDate

namespace Fingerprint

variable {d : Disk} {entries more : List Entry} {order : List Nat} {f : Fingerprint}
  {hashes : List (String × Digest)}

section Tasks

/-- The hashes that are there so far, with a place for each entry. -/
abbrev Slots := List (Option (String × Digest))

/-- The task for an entry ends and puts the hash into the place of the entry. -/
def settle (d : Disk) (entries : List Entry) (slots : Slots) (i : Nat) :
    Except HistoryFault Slots :=
  match entries[i]? with
  | none => return slots
  | some e => return slots.set i (some (e.relative, ← hashEntry d e))

/-- The fingerprint that tasks make of entries if they end in this order. The first fault to occur
is the result; if there is none, the places are read from the first entry to the last. -/
def ofEntriesEnding (order : List Nat) (d : Disk) (entries : List Entry) :
    Except HistoryFault Fingerprint := do
  let slots ← order.foldlM (settle d entries) (entries.map fun _ ↦ none)
  return Dict.ofListFirst (slots.filterMap id)

def ofTreeEnding (order : List Nat) (missing : Missing) (property : String) (t : FileTree)
    (d : Disk) : Except HistoryFault Fingerprint × Disk :=
  let r := t.visit missing d
  match r.result with
  | .error c => (.error (.unresolved property c), r.disk)
  | .ok _ => (ofEntriesEnding order r.disk r.entries, r.disk)

end Tasks

section Order

def Hashed (d : Disk) (entries : List Entry) (hashes : List (String × Digest)) : Prop :=
  List.Forall₂ (fun e p ↦ p.1 = e.relative ∧ hashEntry d e = .ok p.2) entries hashes

theorem mapM_eq_ok_iff {α β ε : Type} {g : α → Except ε β} {as : List α} {bs : List β} :
    as.mapM g = .ok bs ↔ List.Forall₂ (fun a b ↦ g a = .ok b) as bs := by
  induction as generalizing bs with
  | nil =>
    rw [List.mapM_nil, List.forall₂_nil_left_iff]
    constructor
    · intro h
      cases h
      rfl
    · rintro rfl
      rfl
  | cons a as ih =>
    rw [List.mapM_cons, bind_eq_ok_iff, List.forall₂_cons_left_iff]
    constructor
    · rintro ⟨b, hb, h⟩
      obtain ⟨bs, hbs, h⟩ := bind_eq_ok_iff.1 h
      cases h
      exact ⟨b, bs, hb, ih.1 hbs, rfl⟩
    · rintro ⟨b, bs, hb, hbs, rfl⟩
      exact ⟨b, hb, bind_eq_ok_iff.2 ⟨bs, ih.2 hbs, rfl⟩⟩

theorem ofEntries_eq_ok_iff : ofEntries d entries = .ok f ↔
    ∃ hashes, Hashed d entries hashes ∧ f = Dict.ofListFirst hashes := by
  have hone (e : Entry) (p : String × Digest) :
      (do return (e.relative, ← hashEntry d e) : Except HistoryFault (String × Digest)) = .ok p ↔
        p.1 = e.relative ∧ hashEntry d e = .ok p.2 := by
    obtain ⟨relative, x⟩ := p
    rw [bind_eq_ok_iff]
    constructor
    · rintro ⟨y, hy, h⟩
      cases h
      exact ⟨rfl, hy⟩
    · rintro ⟨rfl, hx⟩
      exact ⟨x, hx, rfl⟩
  rw [ofEntries, bind_eq_ok_iff]
  refine exists_congr fun hashes ↦ and_congr ?_ ?_
  · rw [mapM_eq_ok_iff]
    simp only [hone]
    rfl
  · exact ⟨fun h ↦ (Except.ok.inj h).symm, fun h ↦ congrArg Except.ok h.symm⟩

def fill (hashes : List (String × Digest)) (order : List Nat) (slots : Slots) : Slots :=
  order.foldl (fun slots i ↦ slots.set i hashes[i]?) slots

theorem length_fill (slots : Slots) : (fill hashes order slots).length = slots.length := by
  induction order generalizing slots with
  | nil => rfl
  | cons i order ih => exact (ih _).trans List.length_set

theorem getElem?_fill (slots : Slots) {i : Nat} (hi : i < slots.length) :
    (fill hashes order slots)[i]? = if i ∈ order then some hashes[i]? else slots[i]? := by
  induction order generalizing slots with
  | nil => rfl
  | cons j order ih =>
    have hstep : (fill hashes (j :: order) slots)[i]?
        = if i ∈ order then some hashes[i]? else (slots.set j hashes[j]?)[i]? :=
      ih _ (by rwa [List.length_set])
    rw [hstep, List.getElem?_set]
    by_cases hj : j = i
    · subst hj
      simp [hi]
    · simp [hj, Ne.symm hj]

theorem foldlM_settle (h : Hashed d entries hashes) (horder : ∀ i ∈ order, i < entries.length)
    (slots : Slots) :
    order.foldlM (settle d entries) slots = .ok (fill hashes order slots) := by
  induction order generalizing slots with
  | nil => rfl
  | cons i order ih =>
    obtain ⟨hi, hrest⟩ := List.forall_mem_cons.1 horder
    have hi' : i < hashes.length := h.length_eq ▸ hi
    obtain ⟨hkey, hhash⟩ := h.get hi hi'
    simp only [List.get_eq_getElem] at hkey hhash
    have hstep : settle d entries slots i = .ok (slots.set i hashes[i]?) := by
      rw [settle, List.getElem?_eq_getElem hi, List.getElem?_eq_getElem hi']
      simp only [hhash, ← hkey]
      rfl
    rw [List.foldlM_cons, hstep]
    exact ih hrest _

theorem filterMap_fill (horder : order.Perm (List.range hashes.length)) (slots : Slots)
    (hslots : slots.length = hashes.length) :
    (fill hashes order slots).filterMap id = hashes := by
  have hall : fill hashes order slots = hashes.map some := by
    refine List.ext_getElem? fun i ↦ ?_
    by_cases hi : i < hashes.length
    · have hmem : i ∈ order := horder.mem_iff.2 (List.mem_range.2 hi)
      rw [getElem?_fill _ (hslots ▸ hi), if_pos hmem, List.getElem?_map,
        List.getElem?_eq_getElem hi]
      rfl
    · have hfill : (fill hashes order slots).length ≤ i := by
        rw [length_fill, hslots]
        exact Nat.not_lt.1 hi
      rw [List.getElem?_eq_none hfill, List.getElem?_eq_none]
      rw [List.length_map]
      exact Nat.not_lt.1 hi
  rw [hall, List.filterMap_map]
  simp

theorem exists_hashed_iff :
    (∃ hashes, Hashed d entries hashes) ↔ ∀ e ∈ entries, ∃ x, hashEntry d e = .ok x := by
  induction entries with
  | nil => exact ⟨fun _ _ he ↦ absurd he List.not_mem_nil, fun _ ↦ ⟨[], .nil⟩⟩
  | cons e entries ih =>
    rw [List.forall_mem_cons, ← ih]
    constructor
    · rintro ⟨_, _ | ⟨⟨-, hx⟩, hrest⟩⟩
      exact ⟨⟨_, hx⟩, _, hrest⟩
    · rintro ⟨⟨x, hx⟩, hashes, hrest⟩
      exact ⟨(e.relative, x) :: hashes, .cons ⟨rfl, hx⟩ hrest⟩

theorem exists_hashed_of_foldlM {slots slots' : Slots} (horder : ∀ i < entries.length, i ∈ order)
    (h : order.foldlM (settle d entries) slots = .ok slots') :
    ∃ hashes, Hashed d entries hashes := by
  have hone (slots : Slots) (i : Nat) : (∃ slots', settle d entries slots i = .ok slots') ↔
      ∀ e, entries[i]? = some e → ∃ x, hashEntry d e = .ok x := by
    rw [settle]
    cases entries[i]? with
    | none => simp [pure, Except.pure]
    | some e =>
      simp only [bind_eq_ok_iff, Option.some.injEq, forall_eq']
      constructor
      · rintro ⟨-, x, hx, -⟩
        exact ⟨x, hx⟩
      · rintro ⟨x, hx⟩
        exact ⟨_, x, hx, rfl⟩
  have hall := (exists_foldlM_iff hone order slots).1 ⟨slots', h⟩
  have hentries : ∀ e ∈ entries, ∃ x, hashEntry d e = .ok x := by
    intro e he
    obtain ⟨i, hi, rfl⟩ := List.mem_iff_getElem.1 he
    exact hall i (horder i hi) _ (List.getElem?_eq_getElem hi)
  exact exists_hashed_iff.2 hentries

/-- Tasks make the fingerprint that the entries have one after the other, whatever the order in
which they end. -/
theorem ofEntriesEnding_eq_ok_iff (horder : order.Perm (List.range entries.length)) :
    ofEntriesEnding order d entries = .ok f ↔ ofEntries d entries = .ok f := by
  have hmem (i : Nat) : i ∈ order ↔ i < entries.length := by
    rw [horder.mem_iff, List.mem_range]
  have hhashed {hashes : List (String × Digest)} (h : Hashed d entries hashes) :
      ofEntriesEnding order d entries = .ok (Dict.ofListFirst hashes) := by
    rw [ofEntriesEnding, foldlM_settle h fun i hi ↦ (hmem i).1 hi]
    change Except.ok _ = _
    rw [filterMap_fill (h.length_eq ▸ horder) _ (by rw [List.length_map, h.length_eq])]
  rw [ofEntries_eq_ok_iff]
  constructor
  · intro h
    obtain ⟨slots, hslots, -⟩ := bind_eq_ok_iff.1 h
    obtain ⟨hashes, hhashes⟩ := exists_hashed_of_foldlM (fun i hi ↦ (hmem i).2 hi) hslots
    rw [hhashed hhashes] at h
    exact ⟨hashes, hhashes, (Except.ok.inj h).symm⟩
  · rintro ⟨hashes, hhashes, rfl⟩
    exact hhashed hhashes

end Order

section First

theorem hashEntry_of_directory {e : Entry} (h : e.isDirectory) : hashEntry d e = .ok .directory :=
  if_pos h

theorem hashEntry_eq_ok_iff {e : Entry} (h : ¬e.isDirectory) {x : Digest} :
    hashEntry d e = .ok x ↔ ∃ b, d.read e.path = .ok b ∧ x = .ofBytes b := by
  rw [hashEntry, if_neg h, hashFile]
  cases d.read e.path with
  | error c => simp
  | ok b => simp [eq_comm]

/-- A fingerprint has the relative paths of these entries as its keys, and under each the hash of
the first entry that has it: of the bytes of a file, and one and the same for every directory. -/
structure OfFirst (d : Disk) (entries : List Entry) (f : Fingerprint) : Prop where
  keys : ∀ k, k ∈ f.keys ↔ ∃ e ∈ entries, e.relative = k
  directories : ∀ before e after, entries = before ++ e :: after →
    (∀ x ∈ before, x.relative ≠ e.relative) → e.isDirectory → f.get? e.relative = some .directory
  files : ∀ before e after, entries = before ++ e :: after →
    (∀ x ∈ before, x.relative ≠ e.relative) → ¬e.isDirectory →
      ∃ b, d.read e.path = .ok b ∧ f.get? e.relative = some (.ofBytes b)

theorem Hashed.keys (h : Hashed d entries hashes) :
    hashes.map (·.1) = entries.map (·.relative) := by
  induction h with
  | nil => rfl
  | cons hp _ ih => rw [List.map_cons, List.map_cons, hp.1, ih]

theorem Hashed.find_first {e : Entry} {before after : List Entry}
    (h : Hashed d (before ++ e :: after) hashes) (hfirst : ∀ x ∈ before, x.relative ≠ e.relative) :
    ∃ x, hashEntry d e = .ok x ∧ Dict.find e.relative hashes = some x := by
  induction before generalizing hashes with
  | nil =>
    obtain ⟨p, hashes, ⟨hkey, hx⟩, -, rfl⟩ := List.forall₂_cons_left_iff.1 h
    exact ⟨p.2, hx, if_pos hkey.symm⟩
  | cons y before ih =>
    obtain ⟨p, hashes, ⟨hkey, -⟩, hrest, rfl⟩ := List.forall₂_cons_left_iff.1 h
    obtain ⟨hy, hbefore⟩ := List.forall_mem_cons.1 hfirst
    obtain ⟨x, hx, hfind⟩ := ih hrest hbefore
    refine ⟨x, hx, ?_⟩
    rw [Dict.find, if_neg fun he ↦ hy (hkey.symm.trans he.symm), hfind]

theorem Hashed.ofFirst (h : Hashed d entries hashes) :
    OfFirst d entries (Dict.ofListFirst hashes) where
  keys k := by
    rw [Dict.mem_keys_iff, Dict.get?_ofListFirst, ne_eq, Dict.find_eq_none_iff,
      Decidable.not_not, h.keys, List.mem_map]
  directories before e after he hfirst hdir := by
    obtain ⟨x, hx, hfind⟩ := (he ▸ h).find_first hfirst
    rw [hashEntry_of_directory hdir] at hx
    rw [Dict.get?_ofListFirst, hfind, Except.ok.inj hx]
  files before e after he hfirst hfile := by
    obtain ⟨x, hx, hfind⟩ := (he ▸ h).find_first hfirst
    obtain ⟨b, hb, rfl⟩ := (hashEntry_eq_ok_iff hfile).1 hx
    exact ⟨b, hb, (Dict.get?_ofListFirst _ _).trans hfind⟩

theorem ofFirst_of_ofEntries (h : ofEntries d entries = .ok f) : OfFirst d entries f := by
  obtain ⟨hashes, hhashes, rfl⟩ := ofEntries_eq_ok_iff.1 h
  exact hhashes.ofFirst

theorem ofEntries_append {g : Fingerprint} (hf : ofEntries d entries = .ok f)
    (hg : ofEntries d more = .ok g) : ∃ m, ofEntries d (entries ++ more) = .ok m ∧
      ∀ k, m.get? k = (f.get? k).or (g.get? k) := by
  obtain ⟨hashes, hhashes, rfl⟩ := ofEntries_eq_ok_iff.1 hf
  obtain ⟨rest, hrest, rfl⟩ := ofEntries_eq_ok_iff.1 hg
  have hall : Hashed d (entries ++ more) (hashes ++ rest) := List.rel_append hhashes hrest
  refine ⟨_, ofEntries_eq_ok_iff.2 ⟨_, hall, rfl⟩, fun k ↦ ?_⟩
  rw [Dict.get?_ofListFirst, Dict.get?_ofListFirst, Dict.get?_ofListFirst, Dict.find_append]

end First

end Fingerprint

section Trees

open Fingerprint

variable {d : Disk} {missing : Missing} {t u : FileTree} {f g : Fingerprint} {order : List Nat}
  {name : String}

theorem Fingerprint.ofTree_eq_ok_iff (h : t.Pure) : ofTree missing name t d = (.ok f, d) ↔
    (t.visit missing d).result = .ok () ∧ ofEntries d (t.visit missing d).entries = .ok f := by
  rw [ofTree, h.disk_visit]
  cases (t.visit missing d).result with
  | error c => simp
  | ok _ => simp

theorem Fingerprint.ofTreeEnding_eq_ok_iff (h : t.Pure)
    (horder : order.Perm (List.range (t.visit missing d).entries.length)) :
    ofTreeEnding order missing name t d = (.ok f, d) ↔ ofTree missing name t d = (.ok f, d) := by
  rw [ofTree_eq_ok_iff h, ofTreeEnding, h.disk_visit]
  cases (t.visit missing d).result with
  | error c => simp
  | ok _ => simp [ofEntriesEnding_eq_ok_iff horder]

theorem Fingerprint.disk_ofTreeEnding (h : t.Pure) :
    (ofTreeEnding order missing name t d).2 = d := by
  have hdisk := h.disk_visit missing d
  rw [ofTreeEnding]
  split <;> exact hdisk

theorem FileTree.Pure.union (ht : t.Pure) (hu : u.Pure) : (FileTree.union [t, u]).Pure := by
  intro l hl
  rw [leaves_union, List.flatMap_cons, List.flatMap_singleton, List.mem_append] at hl
  exact hl.elim (ht l) (hu l)

theorem Fingerprint.ofTree_union (ht : t.Pure) (hu : u.Pure)
    (hf : ofTree missing name t d = (.ok f, d)) (hg : ofTree missing name u d = (.ok g, d)) :
    ∃ m, ofTree missing name (.union [t, u]) d = (.ok m, d) ∧
      ∀ k, m.get? k = (f.get? k).or (g.get? k) := by
  obtain ⟨hvisit, hentries⟩ := (ofTree_eq_ok_iff ht).1 hf
  obtain ⟨hvisit', hentries'⟩ := (ofTree_eq_ok_iff hu).1 hg
  have hunion : (FileTree.union [t, u]).visit missing d
      = ⟨(t.visit missing d).entries ++ (u.visit missing d).entries, .ok (), d⟩ := by
    have hlast : Report.each (fun t ↦ t.visit missing) [u] = u.visit missing :=
      funext fun d ↦ Report.andThen_nothing _
    rw [FileTree.visit_union, Report.each, hlast, Report.andThen_of_ok hvisit, ht.disk_visit,
      hvisit', hu.disk_visit]
  obtain ⟨m, hm, hmerge⟩ := ofEntries_append hentries hentries'
  refine ⟨m, (ofTree_eq_ok_iff (ht.union hu)).2 ?_, hmerge⟩
  rw [hunion]
  exact ⟨rfl, hm⟩

/-- This is the fingerprint of a tree under any name, in whatever order the tasks end. -/
def FileTree.HasFingerprint (t : FileTree) (missing : Missing) (d : Disk) (f : Fingerprint) :
    Prop :=
  ∀ name, ofTree missing name t d = (.ok f, d) ∧
    ∀ order : List Nat, order.Perm (List.range (t.visit missing d).entries.length) →
      ofTreeEnding order missing name t d = (.ok f, d)

theorem FileTree.HasFingerprint.of_ofTree (h : t.Pure) (hf : ofTree missing name t d = (.ok f, d)) :
    t.HasFingerprint missing d f := by
  intro other
  have htree : ofTree missing other t d = (.ok f, d) :=
    (ofTree_eq_ok_iff h).2 ((ofTree_eq_ok_iff h).1 hf)
  exact ⟨htree, fun order horder ↦ (ofTreeEnding_eq_ok_iff h horder).2 htree⟩

theorem FileTree.HasFingerprint.of_ofTreeEnding (h : t.Pure)
    (horder : order.Perm (List.range (t.visit missing d).entries.length))
    (hf : (ofTreeEnding order missing name t d).1 = .ok f) : t.HasFingerprint missing d f :=
  .of_ofTree h ((ofTreeEnding_eq_ok_iff h horder).1 (Prod.ext hf (disk_ofTreeEnding h)))

/-- A fingerprint has the relative paths that the visit reported as its keys, and under each the
hash of the first entry that has it, in whatever order the tasks end. With the fingerprint of
another tree, that of the union is the first completed by the second. -/
theorem FileTree.Pure.fingerprint_merge (ht : t.Pure)
    (horder : order.Perm (List.range (t.visit missing d).entries.length))
    (hf : (ofTreeEnding order missing name t d).1 = .ok f) :
    (t.visit missing d).result = .ok () ∧ OfFirst d (t.visit missing d).entries f ∧
    t.HasFingerprint missing d f ∧
    ∀ u : FileTree, u.Pure → ∀ order : List Nat,
      order.Perm (List.range (u.visit missing d).entries.length) → ∀ name g,
      (ofTreeEnding order missing name u d).1 = .ok g → ∃ m : Fingerprint,
        (FileTree.union [t, u]).HasFingerprint missing d m ∧
          ∀ k, m.get? k = (f.get? k).or (g.get? k) := by
  have hthis := HasFingerprint.of_ofTreeEnding ht horder hf
  obtain ⟨hresult, hentries⟩ := (ofTree_eq_ok_iff ht).1 (hthis name).1
  refine ⟨hresult, ofFirst_of_ofEntries hentries, hthis, ?_⟩
  intro u hu order horder other g hg
  have hthat := HasFingerprint.of_ofTreeEnding hu horder hg
  obtain ⟨m, hm, hmerge⟩ := ofTree_union ht hu (hthis name).1 (hthat name).1
  exact ⟨m, .of_ofTree (ht.union hu) hm, hmerge⟩

def Disk.contending : Disk :=
  let d := (empty.put [] "x" .directory).put [] "y" .directory
  let d := (d.put ["x"] "f" (.file [1])).put ["x"] "g" .directory
  ((d.put ["y"] "f" (.file [2])).put ["y"] "g" (.file [3])).put ["y"] "h" (.file [4])

theorem FileTree.pure_directory (root : Path) : (directory root).Pure := by
  intro l hl r hr
  cases List.mem_singleton.1 hl
  cases hr

theorem FileTree.fingerprint_merge_contending : ∃ f g m : Fingerprint,
    (ofTreeEnding [1, 0] .fails "left" (directory "x") .contending).1 = .ok f ∧
    (ofTreeEnding [2, 0, 1] .fails "right" (directory "y") .contending).1 = .ok g ∧
    (ofTreeEnding [4, 0, 3, 1, 2] .fails "both" (union [directory "x", directory "y"])
      .contending).1 = .ok m ∧
    g.get? "g" = some (.ofBytes [3]) ∧ m.get? "g" = some .directory ∧
    m.get? "h" = some (.ofBytes [4]) := by
  have hf : (ofTreeEnding [1, 0] .fails "left" (directory "x") .contending).1
      = .ok (Dict.ofListFirst [("f", .ofBytes [1]), ("g", .directory)]) :=
    eq_ok_of_toOption (by decide +kernel)
  have hg : (ofTreeEnding [2, 0, 1] .fails "right" (directory "y") .contending).1
      = .ok (Dict.ofListFirst [("f", .ofBytes [2]), ("g", .ofBytes [3]), ("h", .ofBytes [4])]) :=
    eq_ok_of_toOption (by decide +kernel)
  obtain ⟨-, -, -, hmerge⟩ := Pure.fingerprint_merge (pure_directory "x") (by decide +kernel) hf
  obtain ⟨m, hm, hget⟩ := hmerge _ (pure_directory "y") _ (by decide +kernel) _ _ hg
  refine ⟨_, _, m, hf, hg, ?_, by decide +kernel, ?_, ?_⟩
  · rw [(hm "both").2 _ (by decide +kernel)]
  · rw [hget]
    decide +kernel
  · rw [hget]
    decide +kernel

end Trees

end UpToDate
