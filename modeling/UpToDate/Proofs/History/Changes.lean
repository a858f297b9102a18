import UpToDate.History.Changes
import UpToDate.Proofs.Dict

namespace UpToDate.Detector

section Listing

def valueChanges (work : String) (now before : Dict String Digest) : List String :=
  (keysOfBoth now before).flatMap fun name ↦
    ((Change.between (now.get? name) (before.get? name)).map (valueMessage work name)).toList

def pathChanges (kind property : String) (now before : Fingerprint) : List String :=
  (keysOfBoth now before).flatMap fun path ↦
    ((Change.between (now.get? path) (before.get? path)).map
      (fileMessage kind property path)).toList

/-- A property that is there on one side only is one change, whatever files it has. -/
def propertyChanges (kind work property : String) :
    Option Fingerprint → Option Fingerprint → List String
  | some now, some before => pathChanges kind property now before
  | some _, none => [propertyMessage kind work property .added]
  | none, some _ => [propertyMessage kind work property .removed]
  | none, none => []

def fileChanges (kind work : String) (now before : Fingerprints) : List String :=
  (keysOfBoth now before).flatMap fun property ↦
    propertyChanges kind work property (now.get? property) (before.get? property)

/-- Everything that changed since the recorded run, without a limit. -/
def changes (work : String) (now : Before) : Option Recorded → List String
  | none => [noHistory]
  | some r => valueChanges work now.values r.values ++
      fileChanges "Input" work now.inputs r.inputs ++
      fileChanges "Output" work now.outputs r.outputs

end Listing

section Collecting

theorem foldl_push_of_full {c : Collector} (h : c.full) (ms : List String) :
    ms.foldl Collector.push c = c := by
  induction ms with
  | nil => rfl
  | cons m ms ih => rw [List.foldl_cons, Collector.push, if_pos h, ih]

theorem messages_foldl_push (ms : List String) (c : Collector)
    (h : c.messages.length ≤ c.limit) :
    (ms.foldl Collector.push c).messages = (c.messages ++ ms).take c.limit := by
  induction ms generalizing c with
  | nil => simp [List.take_of_length_le h]
  | cons m ms ih =>
    by_cases hf : c.full
    · have hlen : c.limit = c.messages.length := by
        have hle : c.limit ≤ c.messages.length := by simpa [Collector.full] using hf
        omega
      rw [foldl_push_of_full hf, hlen, List.take_left]
    · have hlen : c.messages.length < c.limit := by simpa [Collector.full] using hf
      rw [List.foldl_cons, Collector.push, if_neg hf, ih]
      · simp
      · rw [List.length_append]
        exact hlen

theorem untilFull_eq_foldl_push {α : Type} {f : α → Collector → Collector} {g : α → List String}
    (h : ∀ a c, f a c = (g a).foldl Collector.push c) (l : List α) (c : Collector) :
    untilFull f l c = (l.flatMap g).foldl Collector.push c := by
  induction l generalizing c with
  | nil => rfl
  | cons a rest ih =>
    rw [untilFull]
    split
    · next hf => rw [foldl_push_of_full hf]
    · rw [ih, h, List.flatMap_cons, List.foldl_append]

theorem compareValues_eq (work : String) (now before : Dict String Digest) (c : Collector) :
    compareValues work now before c =
      (valueChanges work now before).foldl Collector.push c := by
  refine untilFull_eq_foldl_push (fun name c ↦ ?_) _ c
  cases Change.between (now.get? name) (before.get? name) <;> rfl

theorem comparePaths_eq (kind property : String) (now before : Fingerprint) (c : Collector) :
    comparePaths kind property now before c =
      (pathChanges kind property now before).foldl Collector.push c := by
  refine untilFull_eq_foldl_push (fun path c ↦ ?_) _ c
  cases Change.between (now.get? path) (before.get? path) <;> rfl

theorem compareFiles_eq (kind work : String) (now before : Fingerprints) (c : Collector) :
    compareFiles kind work now before c =
      (fileChanges kind work now before).foldl Collector.push c := by
  refine untilFull_eq_foldl_push (fun property c ↦ ?_) _ c
  cases now.get? property <;> cases before.get? property
  · rfl
  · rfl
  · rfl
  · exact comparePaths_eq kind property _ _ c

theorem detect_eq (t : Detector) (work : String) (now : Before) (before : Option Recorded) :
    t.detect work now before = (changes work now before).take t.limit := by
  cases before with
  | none => exact messages_foldl_push [noHistory] _ (Nat.zero_le _)
  | some r =>
    simp only [detect, compareFiles_eq, compareValues_eq, ← List.foldl_append]
    exact messages_foldl_push _ _ (Nat.zero_le _)

end Collecting

section Order

variable {α β : Type} (a : Dict String α) (b : Dict String β)

theorem keysOfBoth_ordered : (keysOfBoth a b).Pairwise (· < ·) := Dict.keys_ordered _

theorem mem_keysOfBoth {k : String} :
    k ∈ keysOfBoth a b ↔ a.get? k ≠ none ∨ b.get? k ≠ none := by
  rw [keysOfBoth, NameSet.ofList, Dict.mem_keys_ofList, ← Dict.mem_keys_iff, ← Dict.mem_keys_iff]
  simp

end Order

section Unchanged

theorem flatMap_keysOfBoth_eq_nil_iff {α : Type} {a b : Dict String α} {g : String → List String}
    (h : ∀ k, g k = [] ↔ a.get? k = b.get? k) :
    (keysOfBoth a b).flatMap g = [] ↔ a = b := by
  rw [List.flatMap_eq_nil_iff]
  constructor
  · intro hg
    refine Dict.ext_get? fun k ↦ ?_
    by_cases hk : k ∈ keysOfBoth a b
    · exact (h k).1 (hg k hk)
    · have hnone : a.get? k = none ∧ b.get? k = none := by
        simpa [mem_keysOfBoth, not_or] using hk
      rw [hnone.1, hnone.2]
  · rintro rfl k -
    exact (h k).2 rfl

theorem between_eq_none_iff {α : Type} [DecidableEq α] {now before : Option α} :
    Change.between now before = none ↔ now = before := by
  cases now <;> cases before <;> simp [Change.between]

theorem valueChanges_eq_nil_iff {work : String} {now before : Dict String Digest} :
    valueChanges work now before = [] ↔ now = before :=
  flatMap_keysOfBoth_eq_nil_iff fun _ ↦ by simp [between_eq_none_iff]

theorem pathChanges_eq_nil_iff {kind property : String} {now before : Fingerprint} :
    pathChanges kind property now before = [] ↔ now = before :=
  flatMap_keysOfBoth_eq_nil_iff fun _ ↦ by simp [between_eq_none_iff]

theorem fileChanges_eq_nil_iff {kind work : String} {now before : Fingerprints} :
    fileChanges kind work now before = [] ↔ now = before := by
  refine flatMap_keysOfBoth_eq_nil_iff fun k ↦ ?_
  cases now.get? k <;> cases before.get? k <;> simp [propertyChanges, pathChanges_eq_nil_iff]

theorem changes_eq_nil_iff {work : String} {now : Before} {before : Option Recorded} :
    changes work now before = [] ↔ ∃ r, before = some r ∧ now.values = r.values ∧
      now.inputs = r.inputs ∧ now.outputs = r.outputs := by
  cases before with
  | none => simp [changes]
  | some r =>
    simp [changes, valueChanges_eq_nil_iff, fileChanges_eq_nil_iff]

theorem detect_eq_nil_iff {t : Detector} {work : String} {now : Before}
    {before : Option Recorded} :
    t.detect work now before = [] ↔ ∃ r, before = some r ∧ now.values = r.values ∧
      now.inputs = r.inputs ∧ now.outputs = r.outputs := by
  have hlimit : t.limit ≠ 0 := Nat.ne_of_gt t.limit_pos
  rw [detect_eq, List.take_eq_nil_iff, or_iff_right hlimit]
  exact changes_eq_nil_iff

end Unchanged

end UpToDate.Detector
