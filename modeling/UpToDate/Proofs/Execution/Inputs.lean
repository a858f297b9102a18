import UpToDate.Proofs.Execution.Course
import UpToDate.Proofs.History.Fingerprint
import UpToDate.Proofs.Result

namespace UpToDate

/-- Distinct contents have distinct hashes, and none has the hash of a directory. -/
def Digest.Separates (l : List Bytes) : Prop :=
  (∀ a ∈ l, ∀ b ∈ l, ofBytes a = ofBytes b → a = b) ∧ ∀ a ∈ l, ofBytes a ≠ directory

instance (l : List Bytes) : Decidable (Digest.Separates l) :=
  inferInstanceAs (Decidable (_ ∧ _))

def FileTree.contents (t : FileTree) (d : Disk) : List Bytes :=
  (t.sightings d).filterMap (·.content)

/-- A later attempt on the same unit of work finds what an earlier one recorded and lets it stand. -/
structure Trial.ReusedBy (t₁ t₂ : Trial) : Prop where
  work : t₂.work = t₁.work
  executed : ∃ reasons x, t₁.execution.result = .ok (.executed reasons x)
  recorded : t₂.engine.store.load t₂.work.id t₂.disk = t₁.recorded?
  reused : ∃ outputs origin, t₂.execution.result = .ok (.reused outputs origin)

variable {t : FileTree} {d₁ d₂ : Disk} {t₁ t₂ : Trial}

section Trees

theorem Digest.Separates.ofContent_inj {l : List Bytes} (h : Separates l) {a b : Option Bytes}
    (ha : ∀ x ∈ a, x ∈ l) (hb : ∀ x ∈ b, x ∈ l) (hab : ofContent a = ofContent b) : a = b := by
  cases a with
  | none =>
    cases b with
    | none => rfl
    | some y => exact absurd hab.symm (h.2 y (hb y rfl))
  | some x =>
    cases b with
    | none => exact absurd hab (h.2 x (ha x rfl))
    | some y => exact congrArg some (h.1 x (ha x rfl) y (hb y rfl) hab)

namespace FileTree

theorem exists_of_firstSeen {d : Disk} {relative : String} {c : Option Bytes}
    (h : t.firstSeen d relative = some c) :
    ∃ y ∈ t.sightings d, y.relative = relative ∧ y.content = c := by
  obtain ⟨y, hy, hc⟩ := Option.map_eq_some_iff.1 h
  have hrelative := List.find?_some hy
  exact ⟨y, List.mem_of_find?_eq_some hy, of_decide_eq_true hrelative, hc⟩

theorem firstSeen_of_mem {d : Disk} {y : Sighting} (h : y ∈ t.sightings d) :
    ∃ c, t.firstSeen d y.relative = some c := by
  have hfound : ((t.sightings d).find? (·.relative = y.relative)).isSome :=
    List.find?_isSome.2 ⟨y, h, decide_eq_true rfl⟩
  obtain ⟨z, hz⟩ := Option.isSome_iff_exists.1 hfound
  refine ⟨z.content, ?_⟩
  rw [firstSeen, hz]
  rfl

theorem mem_contents_of_firstSeen {d : Disk} {relative : String} {c : Option Bytes}
    (h : t.firstSeen d relative = some c) : ∀ b ∈ c, b ∈ t.contents d := by
  intro b hb
  obtain ⟨y, hy, -, hc⟩ := exists_of_firstSeen h
  exact List.mem_filterMap.2 ⟨y, hy, hc.trans hb⟩

theorem Pure.firstSeen_eq (h : t.Pure) {name : String} {f : Fingerprint}
    (h₁ : (Fingerprint.ofTree .fails name t d₁).1 = .ok f)
    (h₂ : (Fingerprint.ofTree .fails name t d₂).1 = .ok f)
    (hseparates : Digest.Separates (t.contents d₁ ++ t.contents d₂)) (relative : String) :
    t.firstSeen d₁ relative = t.firstSeen d₂ relative := by
  have hhash : (t.firstSeen d₁ relative).map Digest.ofContent =
      (t.firstSeen d₂ relative).map Digest.ofContent :=
    (Fingerprint.get?_ofTree h h₁ relative).symm.trans (Fingerprint.get?_ofTree h h₂ relative)
  cases hseen₁ : t.firstSeen d₁ relative with
  | none =>
    rw [hseen₁] at hhash
    exact (Option.map_eq_none_iff.1 hhash.symm).symm
  | some c₁ =>
    rw [hseen₁] at hhash
    obtain ⟨c₂, hseen₂, hc⟩ := Option.map_eq_some_iff.1 hhash.symm
    have hsame : c₂ = c₁ := hseparates.ofContent_inj
      (fun b hb ↦ List.mem_append_right _ (mem_contents_of_firstSeen hseen₂ b hb))
      (fun b hb ↦ List.mem_append_left _ (mem_contents_of_firstSeen hseen₁ b hb)) hc
    rw [hseen₂, hsame]

theorem Pure.mem_of_firstSeen (h : t.Pure) {y : Sighting}
    (halone : ∀ z ∈ t.sightings d₁ ++ t.sightings d₂, z.relative = y.relative → z.leaf = y.leaf)
    (hsame : t.firstSeen d₁ y.relative = t.firstSeen d₂ y.relative)
    (hy : y ∈ t.sightings d₁) : y ∈ t.sightings d₂ := by
  obtain ⟨c, hseen⟩ := firstSeen_of_mem hy
  obtain ⟨z, hz, hzr, hzc⟩ := exists_of_firstSeen hseen
  have hzy : z = y := h.sighting_unique hz hy (halone z (List.mem_append_left _ hz) hzr) hzr
  obtain ⟨x, hx, hxr, hxc⟩ := exists_of_firstSeen (hsame.symm.trans hseen)
  have hleaf := halone x (List.mem_append_right _ hx) hxr
  have hxy : x = y := by
    rw [← hzc, hzy] at hxc
    cases x
    cases y
    simp_all
  exact hxy ▸ hx

end FileTree

end Trees

section Trials

theorem Trial.ReusedBy.exists_captured (h : t₁.ReusedBy t₂) :
    ∃ past now reasons x, t₁.captured = .ok past ∧
      t₁.execution.result = .ok (.executed reasons x) ∧ t₂.captured = .ok now ∧
      now.inputs = past.inputs ∧ now.outputs = x.outputs := by
  obtain ⟨outputs, origin, hreused⟩ := h.reused
  obtain ⟨now, r, hnow, detector, -, hload, hnone⟩ :=
    Engine.findsUpToDate_of_reused hreused
  have hrecorded : t₁.recorded? = some r := h.recorded.symm.trans hload
  obtain ⟨past, reasons, x, hpast, hx, rfl⟩ := Trial.recorded?_eq_some_iff.1 hrecorded
  obtain ⟨r', hr', -, hinputs, houtputs⟩ := Detector.detect_eq_nil_iff.1 hnone
  cases hr'
  exact ⟨past, now, reasons, x, hpast, hx, hnow, hinputs, houtputs⟩

theorem Trial.reusedBy_of_recorded (hwork : t₂.work = t₁.work)
    (hrecorded : t₁.recorded?.isSome = true)
    (hload : t₂.engine.store.load t₂.work.id t₂.disk = t₁.recorded?)
    (hresult : t₂.execution.result.toOption =
      t₁.recorded?.map fun r ↦ .reused r.outputs r.origin) : t₁.ReusedBy t₂ := by
  obtain ⟨r, hr⟩ := Option.isSome_iff_exists.1 hrecorded
  obtain ⟨b, reasons, x, -, hx, -⟩ := recorded?_eq_some_iff.1 hr
  rw [hr] at hresult
  exact ⟨hwork, ⟨reasons, x, hx⟩, hload, r.outputs, r.origin, eq_ok_of_toOption hresult⟩

/-- In a course an attempt that lets outputs stand finds what the last attempt recorded that
executed the unit of work. -/
theorem Course.reusedBy {s : Store} {ids : String → Prop} {d₀ d : Disk}
    {later earlier : List Trial} (h : Course s ids d₀ (later ++ t₂ :: earlier) d)
    (hstart : ∀ name, RecordFile ids name → d₀.Holds (Path.join s.directory name) none)
    (hapart : Store.Apart s.directory ids) (hlast : Trial.last earlier t₂.work.id = some t₁)
    (hwork : t₂.work = t₁.work)
    (hreused : ∃ outputs origin, t₂.execution.result = .ok (.reused outputs origin)) :
    t₁.ReusedBy t₂ := by
  have hproper := h.proper_of_mem t₂ (by simp)
  obtain ⟨-, hload⟩ := h.before.load_eq hstart hapart hproper.id
  rw [hlast, ← hproper.store] at hload
  have hexecuted := List.find?_some hlast
  rw [Bool.and_eq_true, Option.isSome_iff_exists] at hexecuted
  obtain ⟨⟨x, hx⟩, -⟩ := hexecuted
  obtain ⟨reasons, hresult⟩ := Trial.snapshot?_eq_some_iff.1 hx
  exact ⟨hwork, ⟨reasons, x, hresult⟩, hload, hreused⟩

def FileTree.merged : FileTree := union [directory "x", directory "y"]

def Trial.merging (d : Disk) : Trial where
  engine := ⟨.under "h" "1", some (.ofLimit 3), "run", { threshold := .error }⟩
  stamp := default
  work := { id := "a", inputFiles := ⟨[("src", .merged)], List.pairwise_singleton _ _⟩ }
  disk := d

def Disk.twoDirectories : Disk :=
  let d := (empty.put [] "x" .directory).put [] "y" .directory
  ((d.put ["x"] "f" (.file [49])).put ["x"] "g" (.file [49])).put ["y"] "f" (.file [49])

def Disk.changed : Disk :=
  (Trial.merging twoDirectories).execution.disk.put ["y"] "f" (.file [50])

theorem Trial.mem_merging (d : Disk) :
    ("src", FileTree.merged) ∈ (merging d).work.inputFiles.entries :=
  List.mem_singleton_self _

theorem Trial.pure_merging (d : Disk) : (merging d).work.Pure := by
  refine ⟨?_, ?_⟩
  · intro p hp l hl r hr
    cases List.mem_singleton.1 hp
    simp only [FileTree.merged, FileTree.leaves, FileTree.leavesOfAll, FileTree.directory,
      List.cons_append, List.nil_append, List.mem_cons, List.not_mem_nil, or_false] at hl
    rcases hl with rfl | rfl <;> cases hr
  · intro p hp
    cases hp

theorem Trial.work_merging (d d' : Disk) : (merging d).work = (merging d').work := rfl

/-- The course of both attempts, run once for all that is said of it. -/
theorem Trial.course_merging :
    ((merging .twoDirectories).recorded?.isSome = true ∧
      (merging .changed).engine.store.load (merging .changed).work.id (merging .changed).disk =
        (merging .twoDirectories).recorded? ∧
      (merging .changed).execution.result.toOption =
        (merging .twoDirectories).recorded?.map fun r ↦ .reused r.outputs r.origin) ∧
    Digest.Separates (FileTree.merged.contents (merging .twoDirectories).disk ++
      FileTree.merged.contents (merging .changed).disk) ∧
    (∀ z ∈ FileTree.merged.sightings (merging .twoDirectories).disk ++
      FileTree.merged.sightings (merging .changed).disk, z.relative = "g" → z.leaf = 0) ∧
    ⟨0, "g", some [49]⟩ ∈ FileTree.merged.sightings (merging .twoDirectories).disk ∧
    ⟨1, "f", some [49]⟩ ∈ FileTree.merged.sightings (merging .twoDirectories).disk ∧
    ⟨1, "f", some [49]⟩ ∉ FileTree.merged.sightings (merging .changed).disk := by
  decide +kernel

theorem Trial.reusedBy_merging :
    (merging .twoDirectories).ReusedBy (merging .changed) := by
  obtain ⟨⟨hrecorded, hload, hresult⟩, -⟩ := course_merging
  exact reusedBy_of_recorded (work_merging _ _) hrecorded hload hresult

/-- Where an attempt lets the outputs of an earlier one stand, every input tree shows the same first
of all under each relative path, and all that only one leaf shows under its relative path. -/
theorem Trial.ReusedBy.inputs_seen (h : t₁.ReusedBy t₂) (hpure : t₁.work.Pure)
    {p : String × FileTree} (hp : p ∈ t₁.work.inputFiles.entries)
    (hseparates : Digest.Separates (p.2.contents t₁.disk ++ p.2.contents t₂.disk)) :
    (∀ relative, p.2.firstSeen t₁.disk relative = p.2.firstSeen t₂.disk relative) ∧
      ∀ y, (∀ z ∈ p.2.sightings t₁.disk ++ p.2.sightings t₂.disk,
          z.relative = y.relative → z.leaf = y.leaf) →
        (y ∈ p.2.sightings t₁.disk ↔ y ∈ p.2.sightings t₂.disk) := by
  obtain ⟨past, now, reasons, x, hpast, -, hnow, hinputs, -⟩ := h.exists_captured
  have hpure₂ : t₂.work.Pure := h.work ▸ hpure
  obtain ⟨f, hf, hok⟩ := Before.get?_inputs hpure hpast p hp
  obtain ⟨g, hg, hok'⟩ := Before.get?_inputs hpure₂ hnow p (h.work ▸ hp)
  obtain rfl : f = g := by
    rw [hinputs, hf] at hg
    exact Option.some.inj hg
  have htree := hpure.1 p hp
  have hseen := htree.firstSeen_eq hok hok' hseparates
  refine ⟨hseen, fun y halone ↦ ⟨?_, ?_⟩⟩
  · exact htree.mem_of_firstSeen halone (hseen _)
  · apply htree.mem_of_firstSeen _ (hseen _).symm
    intro z hz
    exact halone z (List.mem_append.2 (List.mem_append.1 hz).symm)

theorem Trial.inputs_seen_merging :
    FileTree.merged.firstSeen (merging .twoDirectories).disk "f" =
        FileTree.merged.firstSeen (merging .changed).disk "f" ∧
      ⟨0, "g", some [49]⟩ ∈ FileTree.merged.sightings (merging .changed).disk := by
  obtain ⟨-, hseparates, halone, hseen, -⟩ := course_merging
  have h := ReusedBy.inputs_seen reusedBy_merging (pure_merging _) (mem_merging _) hseparates
  exact ⟨h.1 "f", (h.2 _ halone).1 hseen⟩

/-- What another leaf has shown before under the same relative path may change unnoticed. -/
theorem Trial.ReusedBy.unseen_merging : ¬∀ t₁ t₂ : Trial, t₁.ReusedBy t₂ → t₁.work.Pure →
    ∀ p ∈ t₁.work.inputFiles.entries,
      Digest.Separates (p.2.contents t₁.disk ++ p.2.contents t₂.disk) →
        ∀ y, y ∈ p.2.sightings t₁.disk ↔ y ∈ p.2.sightings t₂.disk := by
  intro h
  obtain ⟨-, hseparates, -, -, hseen, hunseen⟩ := course_merging
  have hsame := h _ _ reusedBy_merging (pure_merging _) _ (mem_merging _) hseparates
  exact hunseen ((hsame _).1 hseen)

end Trials

end UpToDate
