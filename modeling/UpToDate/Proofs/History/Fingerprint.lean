import UpToDate.Execution.Work
import UpToDate.Proofs.Dict
import UpToDate.Proofs.FileTree.Sightings
import UpToDate.Proofs.Result

namespace UpToDate

variable {d : Disk} {missing : Missing}

section Pure

/-- The trees of a unit of work have no predicate that changes the disk. -/
def Declaration.Pure (w : Declaration) : Prop :=
  (∀ p ∈ w.inputFiles.entries, p.2.Pure) ∧ ∀ p ∈ w.outputFiles.entries, p.2.Pure

theorem Fingerprint.disk_ofTree {t : FileTree} (h : t.Pure) (name : String) :
    (ofTree missing name t d).2 = d := by
  have hdisk := h.disk_visit missing d
  rw [ofTree]
  split <;> exact hdisk

theorem Fingerprint.disk_ofTrees {trees : List (String × FileTree)}
    (h : ∀ p ∈ trees, p.2.Pure) : (ofTrees missing trees d).2 = d := by
  induction trees with
  | nil => rfl
  | cons p rest ih =>
    obtain ⟨name, t⟩ := p
    obtain ⟨ht, hrest⟩ := List.forall_mem_cons.1 h
    have hdisk : (ofTree missing name t d).2 = d := disk_ofTree ht name
    rw [ofTrees]
    split
    · next he =>
      rw [he] at hdisk
      exact hdisk
    · next f d' he =>
      rw [he] at hdisk
      obtain rfl : d' = d := hdisk
      have htail := ih hrest
      split
      · next he' =>
        rw [he'] at htail
        exact htail
      · next he' =>
        rw [he'] at htail
        exact htail

theorem Fingerprints.disk_ofProperties {properties : Dict String FileTree}
    (h : ∀ p ∈ properties.entries, p.2.Pure) : (ofProperties missing properties d).2 = d :=
  Fingerprint.disk_ofTrees h

theorem Before.disk_capture {w : Declaration} (h : w.Pure) : (capture w d).2 = d := by
  have hinputs : (Fingerprints.ofInputs w.inputFiles d).2 = d := Fingerprints.disk_ofProperties h.1
  rw [capture]
  split
  · next he =>
    rw [he] at hinputs
    exact hinputs
  · next inputs d' he =>
    rw [he] at hinputs
    obtain rfl : d' = d := hinputs
    have houtputs : (Fingerprints.ofOutputs w.outputFiles d').2 = d' :=
      Fingerprints.disk_ofProperties h.2
    split
    · next he' =>
      rw [he'] at houtputs
      exact houtputs
    · next he' =>
      rw [he'] at houtputs
      exact houtputs

end Pure

section Contents

def Digest.ofContent : Option Bytes → Digest
  | some b => .ofBytes b
  | none => .directory

theorem read_of_stat {p : Path} {b : Bytes} (h : d.stat p = .ok (.file b)) : d.read p = .ok b := by
  rw [Disk.stat] at h
  rw [Disk.read]
  cases hl : d.locate .content p with
  | error e => rw [hl] at h; cases h
  | ok spot =>
    rw [hl] at h
    cases spot with
    | found q n => cases h; rfl
    | free q s => cases h
    | root => cases h

theorem read_of_link {p target : Path} (h : d.stat p = .ok (.link target)) :
    d.read p = .error .isADirectory := by
  rw [Disk.stat] at h
  rw [Disk.read]
  cases hl : d.locate .content p with
  | error e => rw [hl] at h; cases h
  | ok spot =>
    rw [hl] at h
    cases spot with
    | found q n => cases h; rfl
    | free q s => cases h
    | root => cases h

theorem Fingerprint.hashEntry_of_tells {e : Entry} {base : Path} (h : e.Tells d base)
    {x : Digest} (hx : hashEntry d e = .ok x) : x = .ofContent (d.contentAt e.path) := by
  have hpath := path_of_tells h
  obtain ⟨n, hn, he⟩ := h
  rw [← hpath] at hn
  cases n with
  | directory =>
    have hdir : e.isDirectory = true := by rw [he]; rfl
    rw [hashEntry, if_pos hdir] at hx
    cases hx
    rw [Disk.contentAt, hn]
    rfl
  | file b =>
    have hdir : ¬e.isDirectory = true := by rw [he]; simp [Entry.ofNode]
    rw [hashEntry, if_neg hdir, hashFile, read_of_stat hn] at hx
    cases hx
    rw [Disk.contentAt, hn]
    rfl
  | link target =>
    have hdir : ¬e.isDirectory = true := by rw [he]; simp [Entry.ofNode]
    rw [hashEntry, if_neg hdir, hashFile, read_of_link hn] at hx
    cases hx

theorem map_of_mapM {α β γ φ : Type} {f : α → Except φ β} {key : β → γ} {g : α → γ} {l : List α}
    {r : List β} (h : ∀ a ∈ l, ∀ b, f a = .ok b → key b = g a) (hr : l.mapM f = .ok r) :
    r.map key = l.map g := by
  induction l generalizing r with
  | nil =>
    cases hr
    rfl
  | cons a l ih =>
    obtain ⟨ha, hl⟩ := List.forall_mem_cons.1 h
    rw [List.mapM_cons] at hr
    cases hfa : f a with
    | error e => rw [hfa] at hr; cases hr
    | ok b =>
      cases hfl : l.mapM f with
      | error e => rw [hfa, hfl] at hr; cases hr
      | ok bs =>
        rw [hfa, hfl] at hr
        cases hr
        rw [List.map_cons, List.map_cons, ha b hfa, ih hl hfl]

theorem eq_map_of_mapM {α β φ : Type} {f : α → Except φ β} {g : α → β} {l : List α} {r : List β}
    (h : ∀ a ∈ l, ∀ b, f a = .ok b → b = g a) (hr : l.mapM f = .ok r) : r = l.map g :=
  (List.map_id r).symm.trans (map_of_mapM h hr)

theorem find_map {α β : Type} (key : α → String) (g : α → β) (k : String) (l : List α) :
    Dict.find k (l.map fun a ↦ (key a, g a)) = (l.find? (key · = k)).map g := by
  induction l with
  | nil => rfl
  | cons a l ih =>
    rw [List.map_cons, Dict.find, List.find?_cons, ih]
    by_cases hk : k = key a
    · simp [hk]
    · simp [hk, Ne.symm hk]

/-- What is first seen under a relative path. -/
def FileTree.firstSeen (t : FileTree) (d : Disk) (relative : String) : Option (Option Bytes) :=
  ((t.sightings d).find? (·.relative = relative)).map (·.content)

theorem Fingerprint.get?_ofTree {t : FileTree} (h : t.Pure) {name : String} {f : Fingerprint}
    (hf : (ofTree .fails name t d).1 = .ok f) (relative : String) :
    f.get? relative = (t.firstSeen d relative).map .ofContent := by
  have hdisk := h.disk_visit .fails d
  rw [ofTree] at hf
  cases hresult : (t.visit .fails d).result with
  | error c =>
    rw [hresult] at hf
    cases hf
  | ok u =>
    rw [hresult, hdisk] at hf
    have hsightings := h.sightings_eq hresult
    have htells : ∀ e ∈ (t.visit .fails d).entries, ∃ base, e.Tells d base := by
      have hsees : Report.Sees d (fun e ↦ ∃ base, e.Tells d base) (t.visit .fails d) :=
        Report.sees_each fun l hl ↦
          ⟨((h l hl).sees_visit .fails d).disk, fun e he ↦
            ⟨_, ((h l hl).sees_visit .fails d).entries e he⟩⟩
      exact hsees.entries
    change ofEntries d (t.visit .fails d).entries = .ok f at hf
    rw [ofEntries] at hf
    cases hall : (t.visit .fails d).entries.mapM fun e ↦ do
        return (e.relative, ← hashEntry d e) with
    | error e =>
      rw [hall] at hf
      cases hf
    | ok hashes =>
      rw [hall] at hf
      cases hf
      have hhashes : hashes = (t.visit .fails d).entries.map fun e ↦
          (e.relative, Digest.ofContent (d.contentAt e.path)) := by
        refine eq_map_of_mapM (fun e he b hb ↦ ?_) hall
        obtain ⟨base, htell⟩ := htells e he
        cases hx : hashEntry d e with
        | error c =>
          rw [hx] at hb
          cases hb
        | ok x =>
          rw [hx] at hb
          cases hb
          rw [hashEntry_of_tells htell hx]
      -- the hashes are those of what the visit has seen
      have hseen := congrArg (List.map fun p : String × Option Bytes ↦
        (p.1, Digest.ofContent p.2)) hsightings
      rw [List.map_map, List.map_map] at hseen
      have hsame : hashes = (t.sightings d).map fun x ↦ (x.relative, .ofContent x.content) :=
        hhashes.trans hseen.symm
      rw [Dict.get?_ofListFirst, hsame, find_map, FileTree.firstSeen, Option.map_map]
      rfl

theorem Fingerprint.mem_keys_ofTree {t : FileTree} {name : String} {f : Fingerprint}
    (hf : (ofTree missing name t d).1 = .ok f) : (t.visit missing d).result = .ok () ∧
      ∀ relative, relative ∈ f.keys ↔
        ∃ e ∈ (t.visit missing d).entries, e.relative = relative := by
  rw [ofTree] at hf
  cases hresult : (t.visit missing d).result with
  | error c =>
    rw [hresult] at hf
    cases hf
  | ok u =>
    refine ⟨rfl, fun relative ↦ ?_⟩
    rw [hresult] at hf
    change ofEntries (t.visit missing d).disk (t.visit missing d).entries = .ok f at hf
    rw [ofEntries] at hf
    obtain ⟨hashes, hall, hf⟩ := bind_eq_ok_iff.1 hf
    have hkeys : hashes.map (·.1) = (t.visit missing d).entries.map (·.relative) := by
      refine map_of_mapM (fun e _ b hb ↦ ?_) hall
      obtain ⟨x, -, hx⟩ := bind_eq_ok_iff.1 hb
      cases hx
      rfl
    cases hf
    rw [Dict.mem_keys_iff, Dict.get?_ofListFirst, ne_eq, Dict.find_eq_none_iff,
      Decidable.not_not, hkeys, List.mem_map]

end Contents

section Properties

theorem Fingerprint.of_ofTrees {trees : List (String × FileTree)} (h : ∀ p ∈ trees, p.2.Pure)
    {fs : List (String × Fingerprint)} (hfs : (ofTrees missing trees d).1 = .ok fs) :
    fs.map (·.1) = trees.map (·.1) ∧
      ∀ p ∈ trees, ∃ f, (p.1, f) ∈ fs ∧ (ofTree missing p.1 p.2 d).1 = .ok f := by
  induction trees generalizing fs with
  | nil =>
    cases hfs
    exact ⟨rfl, by simp⟩
  | cons p rest ih =>
    obtain ⟨name, t⟩ := p
    obtain ⟨ht, hrest⟩ := List.forall_mem_cons.1 h
    have hdisk : (ofTree missing name t d).2 = d := disk_ofTree ht name
    rw [ofTrees] at hfs
    split at hfs
    · cases hfs
    · next f d' he =>
      rw [he] at hdisk
      obtain rfl : d' = d := hdisk
      split at hfs
      · cases hfs
      · next fs' d'' he' =>
        cases hfs
        have hfs' : (ofTrees missing rest d').1 = .ok fs' := by rw [he']
        have htail := ih hrest hfs'
        refine ⟨by rw [List.map_cons, List.map_cons, htail.1], ?_⟩
        rintro p hp
        rcases List.mem_cons.1 hp with rfl | hp
        · exact ⟨f, List.mem_cons_self, by rw [he]⟩
        · obtain ⟨g, hg, hok⟩ := htail.2 p hp
          exact ⟨g, List.mem_cons_of_mem _ hg, hok⟩

theorem Fingerprints.get?_ofProperties {properties : Dict String FileTree}
    (h : ∀ p ∈ properties.entries, p.2.Pure) {fs : Fingerprints}
    (hfs : (ofProperties missing properties d).1 = .ok fs) :
    ∀ p ∈ properties.entries, ∃ f, fs.get? p.1 = some f ∧
      (Fingerprint.ofTree missing p.1 p.2 d).1 = .ok f := by
  change (Fingerprint.ofTrees missing properties.entries d).1.map Dict.ofList = .ok fs at hfs
  cases htrees : (Fingerprint.ofTrees missing properties.entries d).1 with
  | error c =>
    rw [htrees] at hfs
    cases hfs
  | ok l =>
    rw [htrees] at hfs
    cases hfs
    obtain ⟨hkeys, hall⟩ := Fingerprint.of_ofTrees h htrees
    intro p hp
    obtain ⟨f, hf, hok⟩ := hall p hp
    refine ⟨f, Dict.get?_ofList_of_mem ?_ hf, hok⟩
    rw [hkeys]
    exact properties.keys_ordered

theorem Before.get?_inputs {w : Declaration} (h : w.Pure) {b : Before}
    (hb : (capture w d).1 = .ok b) : ∀ p ∈ w.inputFiles.entries, ∃ f,
      b.inputs.get? p.1 = some f ∧ (Fingerprint.ofTree .fails p.1 p.2 d).1 = .ok f := by
  have hinputs : (Fingerprints.ofInputs w.inputFiles d).1 = .ok b.inputs := by
    rw [capture] at hb
    split at hb
    · cases hb
    · next inputs d' he =>
      split at hb
      · cases hb
      · cases hb
        rw [he]
  exact Fingerprints.get?_ofProperties h.1 hinputs

theorem Before.get?_outputs {w : Declaration} (h : w.Pure) {b : Before}
    (hb : (capture w d).1 = .ok b) : ∀ p ∈ w.outputFiles.entries, ∃ f,
      b.outputs.get? p.1 = some f ∧ (Fingerprint.ofTree .skipped p.1 p.2 d).1 = .ok f := by
  have houtputs : (Fingerprints.ofOutputs w.outputFiles d).1 = .ok b.outputs := by
    have hdisk : (Fingerprints.ofInputs w.inputFiles d).2 = d :=
      Fingerprints.disk_ofProperties h.1
    rw [capture] at hb
    split at hb
    · cases hb
    · next inputs d' he =>
      rw [he] at hdisk
      obtain rfl : d' = d := hdisk
      split at hb
      · cases hb
      · next he' =>
        cases hb
        rw [he']
  exact Fingerprints.get?_ofProperties h.2 houtputs

end Properties

end UpToDate
