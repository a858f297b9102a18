import Mathlib.Data.List.Nodup
import UpToDate.Proofs.History.Changes

namespace UpToDate.Detector

section Differences

inductive Side
  | input
  | output
  deriving DecidableEq

def Side.word : Side → String
  | input => "Input"
  | output => "Output"

/-- One difference between the recorded state and the present one. -/
inductive Difference
  | value (name : String) (change : Change)
  | property (side : Side) (name : String) (change : Change)
  | file (side : Side) (name path : String) (change : Change)
  deriving DecidableEq

namespace Difference

def name : Difference → String
  | value name _ | property _ name _ | file _ name _ _ => name

def path : Difference → Option String
  | value _ _ | property _ _ _ => none
  | file _ _ path _ => some path

def change : Difference → Change
  | value _ change | property _ _ change | file _ _ _ change => change

def side : Difference → Option Side
  | value _ _ => none
  | property side _ _ | file side _ _ _ => some side

def message (work : String) : Difference → String
  | value name change => valueMessage work name change
  | property side name change => propertyMessage side.word work name change
  | file side name path change => fileMessage side.word name path change

/-- Nowhere in the name of the property does a quotation mark seem to close it. -/
def Plain (δ : Difference) : Prop := ¬"' ".toList <:+: δ.name.toList

instance (δ : Difference) : Decidable δ.Plain := inferInstanceAs (Decidable (¬_))

end Difference

def valueDifferences (now before : Dict String Digest) : List Difference :=
  (keysOfBoth now before).flatMap fun name ↦
    ((Change.between (now.get? name) (before.get? name)).map (Difference.value name)).toList

def pathDifferences (side : Side) (name : String) (now before : Fingerprint) : List Difference :=
  (keysOfBoth now before).flatMap fun path ↦
    ((Change.between (now.get? path) (before.get? path)).map
      (Difference.file side name path)).toList

def propertyDifferences (side : Side) (name : String) :
    Option Fingerprint → Option Fingerprint → List Difference
  | some now, some before => pathDifferences side name now before
  | some _, none => [.property side name .added]
  | none, some _ => [.property side name .removed]
  | none, none => []

def fileDifferences (side : Side) (now before : Fingerprints) : List Difference :=
  (keysOfBoth now before).flatMap fun name ↦
    propertyDifferences side name (now.get? name) (before.get? name)

/-- Everything in which the present state differs from the recorded one, in the order in which it is
told. -/
def differences (now : Before) (r : Recorded) : List Difference :=
  valueDifferences now.values r.values ++ fileDifferences .input now.inputs r.inputs ++
    fileDifferences .output now.outputs r.outputs

end Differences

section Telling

variable {work : String} {side : Side}

theorem toList_map_message {κ : Type} (f : κ → Difference) (o : Option κ) :
    (o.map fun k ↦ (f k).message work).toList = (o.map f).toList.map (·.message work) := by
  cases o <;> rfl

theorem valueChanges_eq_map (now before : Dict String Digest) :
    valueChanges work now before = (valueDifferences now before).map (·.message work) := by
  rw [valueChanges, valueDifferences, List.map_flatMap]
  exact List.flatMap_congr fun name _ ↦ toList_map_message (Difference.value name) _

theorem pathChanges_eq_map (name : String) (now before : Fingerprint) :
    pathChanges side.word name now before =
      (pathDifferences side name now before).map (·.message work) := by
  rw [pathChanges, pathDifferences, List.map_flatMap]
  exact List.flatMap_congr fun path _ ↦ toList_map_message (Difference.file side name path) _

theorem fileChanges_eq_map (now before : Fingerprints) :
    fileChanges side.word work now before =
      (fileDifferences side now before).map (·.message work) := by
  rw [fileChanges, fileDifferences, List.map_flatMap]
  refine List.flatMap_congr fun name _ ↦ ?_
  cases now.get? name <;> cases before.get? name
  · rfl
  · rfl
  · rfl
  · exact pathChanges_eq_map name _ _

theorem changes_eq_map (now : Before) (r : Recorded) :
    changes work now (some r) = (differences now r).map (·.message work) := by
  rw [differences, List.map_append, List.map_append, ← valueChanges_eq_map, ← fileChanges_eq_map,
    ← fileChanges_eq_map]
  rfl

end Telling

section Once

variable {δ : Difference} {side : Side} {name : String} {change : Change}

theorem mem_keysOfBoth_of_between {α : Type} [DecidableEq α] {a b : Dict String α} {k : String}
    (h : Change.between (a.get? k) (b.get? k) = some change) : k ∈ keysOfBoth a b := by
  rw [mem_keysOfBoth, ← not_and_or]
  rintro ⟨ha, hb⟩
  rw [ha, hb] at h
  cases h

theorem mem_valueDifferences {now before : Dict String Digest} :
    δ ∈ valueDifferences now before ↔ ∃ name change,
      Change.between (now.get? name) (before.get? name) = some change ∧ δ = .value name change := by
  rw [valueDifferences, List.mem_flatMap]
  constructor
  · rintro ⟨name, -, h⟩
    obtain ⟨change, hchange, rfl⟩ := Option.map_eq_some_iff.1 (Option.mem_toList.1 h)
    exact ⟨name, change, hchange, rfl⟩
  · rintro ⟨name, change, hchange, rfl⟩
    refine ⟨name, mem_keysOfBoth_of_between hchange, ?_⟩
    exact Option.mem_toList.2 (Option.map_eq_some_iff.2 ⟨change, hchange, rfl⟩)

theorem mem_pathDifferences {now before : Fingerprint}
    (h : δ ∈ pathDifferences side name now before) :
    ∃ path change, δ = .file side name path change := by
  obtain ⟨path, -, hpath⟩ := List.mem_flatMap.1 h
  obtain ⟨change, -, rfl⟩ := Option.map_eq_some_iff.1 (Option.mem_toList.1 hpath)
  exact ⟨path, change, rfl⟩

theorem mem_propertyDifferences {now before : Option Fingerprint}
    (h : δ ∈ propertyDifferences side name now before) : δ.name = name ∧ δ.side = some side := by
  cases now <;> cases before
  case none.none => cases h
  case none.some => cases List.mem_singleton.1 h; exact ⟨rfl, rfl⟩
  case some.none => cases List.mem_singleton.1 h; exact ⟨rfl, rfl⟩
  case some.some =>
    obtain ⟨path, change, rfl⟩ := mem_pathDifferences h
    exact ⟨rfl, rfl⟩

theorem property_mem_propertyDifferences {now before : Option Fingerprint} :
    .property side name change ∈ propertyDifferences side name now before ↔
      change ≠ .changed ∧ Change.between now before = some change := by
  cases now <;> cases before
  case none.none => simp [propertyDifferences, Change.between]
  case none.some => cases change <;> simp [propertyDifferences, Change.between]
  case some.none => cases change <;> simp [propertyDifferences, Change.between]
  case some.some a b =>
    constructor
    · intro h
      obtain ⟨path, change, heq⟩ := mem_pathDifferences h
      cases heq
    · rintro ⟨hne, h⟩
      rw [Change.between] at h
      split at h
      · cases h
      · exact absurd (Option.some.inj h).symm hne

theorem side_of_mem_fileDifferences {now before : Fingerprints}
    (h : δ ∈ fileDifferences side now before) : δ.side = some side := by
  obtain ⟨name, -, hname⟩ := List.mem_flatMap.1 h
  exact (mem_propertyDifferences hname).2

theorem property_mem_fileDifferences {now before : Fingerprints} :
    .property side name change ∈ fileDifferences side now before ↔
      change ≠ .changed ∧ Change.between (now.get? name) (before.get? name) = some change := by
  rw [fileDifferences, List.mem_flatMap]
  constructor
  · rintro ⟨name', -, h⟩
    obtain rfl : name = name' := (mem_propertyDifferences h).1
    exact property_mem_propertyDifferences.1 h
  · intro h
    exact ⟨name, mem_keysOfBoth_of_between h.2, property_mem_propertyDifferences.2 h⟩

variable {now : Before} {r : Recorded}

theorem value_mem_differences : .value name change ∈ differences now r ↔
    Change.between (now.values.get? name) (r.values.get? name) = some change := by
  have hfiles (side : Side) (now before : Fingerprints) :
      Difference.value name change ∉ fileDifferences side now before :=
    fun h ↦ nomatch side_of_mem_fileDifferences h
  rw [differences, List.mem_append, List.mem_append, or_iff_left (hfiles _ _ _),
    or_iff_left (hfiles _ _ _), mem_valueDifferences]
  constructor
  · rintro ⟨name, change, h, heq⟩
    cases heq
    exact h
  · intro h
    exact ⟨name, change, h, rfl⟩

theorem input_mem_differences : .property .input name change ∈ differences now r ↔
    change ≠ .changed ∧
      Change.between (now.inputs.get? name) (r.inputs.get? name) = some change := by
  have hvalue : Difference.property .input name change ∉ valueDifferences now.values r.values := by
    rw [mem_valueDifferences]
    rintro ⟨name, change, -, heq⟩
    cases heq
  have houtput : Difference.property .input name change ∉
      fileDifferences .output now.outputs r.outputs :=
    fun h ↦ nomatch side_of_mem_fileDifferences h
  rw [differences, List.mem_append, List.mem_append, or_iff_left houtput, or_iff_right hvalue,
    property_mem_fileDifferences]

theorem nodup_flatMap_of_key {α β : Type} {a : Dict String α} {b : Dict String β}
    {f : String → List Difference} (key : Difference → Option String) (hf : ∀ k, (f k).Nodup)
    (hkey : ∀ k, ∀ δ ∈ f k, key δ = some k) : ((keysOfBoth a b).flatMap f).Nodup := by
  refine List.nodup_flatMap.2 ⟨fun k _ ↦ hf k, (keysOfBoth_ordered a b).imp fun hlt δ hδ hδ' ↦ ?_⟩
  have heq := (hkey _ δ hδ).symm.trans (hkey _ δ hδ')
  exact Std.lt_irrefl (Option.some.inj heq ▸ hlt)

theorem nodup_toList {α : Type} (o : Option α) : o.toList.Nodup := by
  cases o with
  | none => exact List.nodup_nil
  | some a => exact List.nodup_singleton a

theorem nodup_propertyDifferences (now before : Option Fingerprint) :
    (propertyDifferences side name now before).Nodup := by
  cases now <;> cases before
  case none.none => exact List.nodup_nil
  case none.some => exact List.nodup_singleton _
  case some.none => exact List.nodup_singleton _
  case some.some =>
    refine nodup_flatMap_of_key Difference.path (fun _ ↦ nodup_toList _) fun path δ hδ ↦ ?_
    obtain ⟨change, -, rfl⟩ := Option.map_eq_some_iff.1 (Option.mem_toList.1 hδ)
    rfl

theorem nodup_fileDifferences (now before : Fingerprints) :
    (fileDifferences side now before).Nodup :=
  nodup_flatMap_of_key (some ·.name) (fun _ ↦ nodup_propertyDifferences _ _)
    fun _ _ h ↦ congrArg some (mem_propertyDifferences h).1

theorem nodup_valueDifferences (now before : Dict String Digest) :
    (valueDifferences now before).Nodup := by
  refine nodup_flatMap_of_key (some ·.name) (fun _ ↦ nodup_toList _) fun name δ hδ ↦ ?_
  obtain ⟨change, -, rfl⟩ := Option.map_eq_some_iff.1 (Option.mem_toList.1 hδ)
  rfl

theorem nodup_differences (now : Before) (r : Recorded) : (differences now r).Nodup := by
  refine List.nodup_append.2 ⟨List.nodup_append.2 ⟨nodup_valueDifferences _ _,
    nodup_fileDifferences _ _, fun δ hδ ε hε heq ↦ ?_⟩, nodup_fileDifferences _ _,
    fun δ hδ ε hε heq ↦ ?_⟩
  · obtain ⟨name, change, -, rfl⟩ := mem_valueDifferences.1 hδ
    cases heq
    cases side_of_mem_fileDifferences hε
  · cases heq
    have houtput := side_of_mem_fileDifferences hε
    rcases List.mem_append.1 hδ with hδ | hδ
    · obtain ⟨name, change, -, rfl⟩ := mem_valueDifferences.1 hδ
      cases houtput
    · rw [side_of_mem_fileDifferences hδ] at houtput
      cases houtput

end Once

section Wording

variable {work : String} {δ ε : Difference}

/-- The words that a message begins with. -/
def Difference.heading : Difference → String
  | value _ .changed => "Value of input"
  | value _ .added => "Input"
  | value _ .removed => "Input"
  | property side _ _ | file side _ _ _ => side.word

def ending (work : String) : Option String → Change → String
  | none, change => change.phrase ++ (" for " ++ (work ++ "."))
  | some path, change => "file " ++ (path ++ (" " ++ (change.phrase ++ ".")))

theorem Difference.message_eq (δ : Difference) : δ.message work =
    δ.heading ++ (" property '" ++ (δ.name ++ ("' " ++ ending work δ.path δ.change))) := by
  cases δ with
  | value name change =>
    have hmessage : valueMessage work name change =
        (Difference.value name change).heading ++ " property '" ++ name ++
          ("' " ++ change.phrase ++ " for ") ++ work ++ "." := by
      cases change <;> rfl
    rw [message, hmessage]
    simp only [String.append_assoc]
    rfl
  | property side name change =>
    have hmessage : propertyMessage side.word work name change =
        side.word ++ " property '" ++ name ++ "' " ++ change.phrase ++ " for " ++ work ++ "." := rfl
    rw [message, hmessage]
    simp only [String.append_assoc]
    rfl
  | file side name path change =>
    have hmessage : fileMessage side.word name path change =
        side.word ++ " property '" ++ name ++ ("' " ++ "file ") ++ path ++ " " ++ change.phrase ++
          "." := rfl
    rw [message, hmessage]
    simp only [String.append_assoc]
    rfl

theorem Change.eq_of_append_phrase {a b : String} {c c' : Change}
    (h : a ++ c.phrase = b ++ c'.phrase) : a = b ∧ c = c' := by
  have hend (a : String) (c : Change) :
      (a ++ c.phrase).toList.reverse.take 3 = c.phrase.toList.reverse.take 3 := by
    rw [String.toList_append, List.reverse_append]
    refine List.take_append_of_le_length ?_
    cases c <;> decide
  have hphrase : c.phrase.toList.reverse.take 3 = c'.phrase.toList.reverse.take 3 := by
    rw [← hend a, h, hend]
  obtain rfl : c = c' := by
    cases c <;> cases c' <;> first | rfl | exact absurd hphrase (by decide)
  exact ⟨(String.append_left_inj _).1 h, rfl⟩

theorem ending_none_ne_some {path : String} {c c' : Change} :
    ending work none c ≠ ending work (some path) c' := by
  intro h
  have hfirst : (ending work none c).toList.head? = (ending work (some path) c').toList.head? := by
    rw [h]
  have hsome : (ending work (some path) c').toList.head? = some 'f' := by
    rw [ending, String.toList_append]
    rfl
  have hnone : (ending work none c).toList.head? = some 'h' := by
    rw [ending, String.toList_append]
    cases c <;> rfl
  rw [hsome, hnone] at hfirst
  exact absurd hfirst (by decide)

theorem ending_inj {path path' : Option String} {c c' : Change} :
    ending work path c = ending work path' c' ↔ path = path' ∧ c = c' := by
  refine ⟨fun h ↦ ?_, fun ⟨hpath, hc⟩ ↦ by rw [hpath, hc]⟩
  cases path <;> cases path'
  case none.none =>
    rw [ending, ending, String.append_left_inj] at h
    exact ⟨rfl, (Change.eq_of_append_phrase (congrArg ("" ++ ·) h)).2⟩
  case none.some => exact absurd h ending_none_ne_some
  case some.none => exact absurd h.symm ending_none_ne_some
  case some.some p p' =>
    rw [ending, ending, String.append_right_inj, ← String.append_assoc, ← String.append_assoc,
      ← String.append_assoc, ← String.append_assoc, String.append_left_inj] at h
    obtain ⟨hp, hc⟩ := Change.eq_of_append_phrase h
    exact ⟨congrArg some ((String.append_left_inj _).1 hp), hc⟩

theorem append_pair_inj {α : Type} {x y : α} (hxy : x ≠ y) {a b s t : List α}
    (ha : ¬[x, y] <:+: a) (hb : ¬[x, y] <:+: b) (h : a ++ x :: y :: s = b ++ x :: y :: t) :
    a = b ∧ s = t := by
  have hshort {a b s t : List α} (hb : ¬[x, y] <:+: b) {l : List α} (hl : b = a ++ l)
      (h : x :: y :: s = l ++ x :: y :: t) : a = b ∧ s = t := by
    cases l with
    | nil =>
      simp only [List.nil_append, List.cons.injEq, true_and] at h
      exact ⟨(hl.trans (List.append_nil a)).symm, h⟩
    | cons u l =>
      rw [List.cons_append, List.cons.injEq] at h
      obtain ⟨rfl, h⟩ := h
      cases l with
      | nil => exact absurd (List.cons.inj h).1.symm hxy
      | cons v l =>
        obtain rfl : y = v := (List.cons.inj h).1
        exact absurd ⟨a, l, by rw [hl]; simp⟩ hb
  rcases List.append_eq_append_iff.1 h with ⟨l, hl, h⟩ | ⟨l, hl, h⟩
  · exact hshort hb hl h
  · obtain ⟨hba, hts⟩ := hshort ha hl h
    exact ⟨hba.symm, hts.symm⟩

theorem Difference.Plain.name_inj (hδ : δ.Plain) (hε : ε.Plain) {s t : String}
    (h : δ.name ++ ("' " ++ s) = ε.name ++ ("' " ++ t)) : δ.name = ε.name ∧ s = t := by
  rw [← String.toList_inj] at h
  simp only [String.toList_append] at h
  obtain ⟨hname, hrest⟩ := append_pair_inj (by decide) hδ hε h
  exact ⟨String.toList_inj.1 hname, String.toList_inj.1 hrest⟩

theorem Difference.heading_mem (δ : Difference) :
    δ.heading ∈ ["Value of input", "Input", "Output"] := by
  cases δ with
  | value name change => cases change <;> simp [heading]
  | property side name change => cases side <;> simp [heading, Side.word]
  | file side name path change => cases side <;> simp [heading, Side.word]

theorem Difference.heading_eq (h : δ.message work = ε.message work) : δ.heading = ε.heading := by
  have hfirst (δ : Difference) : (δ.message work).toList.head? = δ.heading.toList.head? := by
    have hne : δ.heading.toList ≠ [] :=
      (by decide : ∀ s ∈ ["Value of input", "Input", "Output"], s.toList ≠ []) _ δ.heading_mem
    rw [message_eq, String.toList_append, List.head?_append_of_ne_nil _ hne]
  have hletters : ∀ s ∈ ["Value of input", "Input", "Output"],
      ∀ t ∈ ["Value of input", "Input", "Output"], s.toList.head? = t.toList.head? → s = t := by
    decide
  refine hletters _ δ.heading_mem _ ε.heading_mem ?_
  rw [← hfirst, h, hfirst]

theorem Difference.Plain.message_inj (hδ : δ.Plain) (hε : ε.Plain) :
    δ.message work = ε.message work ↔
      δ.heading = ε.heading ∧ δ.name = ε.name ∧ δ.path = ε.path ∧ δ.change = ε.change := by
  constructor
  · intro h
    have hheading := heading_eq h
    rw [message_eq, message_eq, hheading, String.append_right_inj, String.append_right_inj] at h
    obtain ⟨hname, hending⟩ := hδ.name_inj hε h
    exact ⟨hheading, hname, ending_inj.1 hending⟩
  · rintro ⟨hheading, hname, hpath, hchange⟩
    rw [message_eq, message_eq, hheading, hname, hpath, hchange]

theorem Difference.heading_value {side : Side} {name : String} {change : Change}
    (h : (value name change).heading = side.word) : side = .input ∧ change ≠ .changed := by
  cases side <;> cases change <;> simp [heading, Side.word] at h ⊢

theorem Side.word_inj {side side' : Side} (h : side.word = side'.word) : side = side' := by
  cases side <;> cases side' <;> simp [word] at h ⊢

/-- A value and an input property of one name that both came, or that both went. -/
def Difference.Twins (δ ε : Difference) : Prop :=
  ∃ name change, change ≠ .changed ∧ δ = value name change ∧ ε = property .input name change

/-- With plain names, only twins have one message. -/
theorem Difference.Plain.eq_or_twins (hδ : δ.Plain) (hε : ε.Plain)
    (h : δ.message work = ε.message work) : δ = ε ∨ δ.Twins ε ∨ ε.Twins δ := by
  obtain ⟨hheading, hname, hpath, hchange⟩ := (hδ.message_inj hε).1 h
  -- a value is told like an input property that came or went, and like nothing else
  cases δ with
  | value name change =>
    cases ε with
    | value name' change' =>
      obtain ⟨rfl, rfl⟩ : name = name' ∧ change = change' := ⟨hname, hchange⟩
      exact .inl rfl
    | property side name' change' =>
      obtain ⟨rfl, rfl⟩ : name = name' ∧ change = change' := ⟨hname, hchange⟩
      obtain ⟨rfl, hcame⟩ := heading_value hheading
      exact .inr (.inl ⟨name, change, hcame, rfl, rfl⟩)
    | file => cases hpath
  | property side name change =>
    cases ε with
    | value name' change' =>
      obtain ⟨rfl, rfl⟩ : name = name' ∧ change = change' := ⟨hname, hchange⟩
      obtain ⟨rfl, hcame⟩ := heading_value hheading.symm
      exact .inr (.inr ⟨name, change, hcame, rfl, rfl⟩)
    | property side' name' change' =>
      obtain ⟨rfl, rfl⟩ : name = name' ∧ change = change' := ⟨hname, hchange⟩
      obtain rfl : side = side' := Side.word_inj hheading
      exact .inl rfl
    | file => cases hpath
  | file side name path change =>
    cases ε with
    | value => cases hpath
    | property => cases hpath
    | file side' name' path' change' =>
      obtain ⟨rfl, rfl⟩ : name = name' ∧ change = change' := ⟨hname, hchange⟩
      obtain rfl : path = path' := Option.some.inj hpath
      obtain rfl : side = side' := Side.word_inj hheading
      exact .inl rfl

theorem Difference.Twins.message_eq (h : δ.Twins ε) : δ.message work = ε.message work := by
  obtain ⟨name, change, hcame, rfl, rfl⟩ := h
  have hheading : (value name change).heading = (property .input name change).heading := by
    cases change with
    | changed => exact absurd rfl hcame
    | added => rfl
    | removed => rfl
  rw [Difference.message_eq, Difference.message_eq, hheading]
  rfl

end Wording

section Twins

variable {work : String} {now : Before} {r : Recorded}

theorem detect_eq_map (n : Nat) (work : String) (now : Before) (r : Recorded) :
    (ofLimit n).detect work now (some r) =
      ((differences now r).take (max n 1)).map (·.message work) := by
  rw [detect_eq, changes_eq_map, List.map_take]
  rfl

theorem nodup_messages_iff (h : ∀ δ ∈ differences now r, δ.Plain) :
    ((differences now r).map (·.message work)).Nodup ↔
      ∀ δ ∈ differences now r, ∀ ε ∈ differences now r, ¬δ.Twins ε := by
  rw [List.nodup_map_iff_inj_on (nodup_differences now r)]
  constructor
  · intro hinj δ hδ ε hε htwins
    obtain rfl := hinj δ hδ ε hε htwins.message_eq
    obtain ⟨name, change, -, rfl, heq⟩ := htwins
    cases heq
  · intro htwins δ hδ ε hε heq
    rcases (h δ hδ).eq_or_twins (h ε hε) heq with rfl | hpair | hpair
    · rfl
    · exact absurd hpair (htwins δ hδ ε hε)
    · exact absurd hpair (htwins ε hε δ hδ)

/-- No difference is told twice. With plain names, two messages are the same only if a value and an
input property of one name both came or both went. -/
theorem messages_of_detect (work : String) (now : Before) (before : Option Recorded) :
    (∀ r ∈ before, (differences now r).Nodup ∧ ∀ n, (ofLimit n).detect work now before =
      ((differences now r).take (max n 1)).map (·.message work)) ∧
    ((∀ r ∈ before, ∀ δ ∈ differences now r, δ.Plain) →
      ((∀ n, ((ofLimit n).detect work now before).Nodup) ↔ ∀ r ∈ before, ∀ name change,
        Change.between (now.values.get? name) (r.values.get? name) = some change →
        Change.between (now.inputs.get? name) (r.inputs.get? name) = some change →
          change = .changed)) := by
  cases before with
  | none =>
    have hnone (n : Nat) : ((ofLimit n).detect work now none).Nodup := by
      rw [detect_eq]
      exact (List.nodup_singleton noHistory).sublist (List.take_sublist _ _)
    exact ⟨nofun, fun _ ↦ iff_of_true hnone nofun⟩
  | some r =>
    simp only [Option.mem_some_iff, forall_eq']
    refine ⟨⟨nodup_differences now r, fun n ↦ detect_eq_map n work now r⟩, fun hplain ↦ ?_⟩
    have hall : (∀ n, ((ofLimit n).detect work now (some r)).Nodup) ↔
        ((differences now r).map (·.message work)).Nodup := by
      constructor
      · intro h
        have hlength := h (differences now r).length
        rwa [detect_eq_map, List.take_of_length_le (Nat.le_max_left _ _)] at hlength
      · intro h n
        rw [detect_eq_map]
        exact h.sublist ((List.take_sublist _ _).map _)
    rw [hall, nodup_messages_iff hplain]
    constructor
    · intro htwins name change hvalue hinput
      by_contra hcame
      exact htwins _ (value_mem_differences.2 hvalue) _ (input_mem_differences.2 ⟨hcame, hinput⟩)
        ⟨name, change, hcame, rfl, rfl⟩
    · rintro h δ hδ ε hε ⟨name, change, hcame, rfl, rfl⟩
      exact hcame (h name change (value_mem_differences.1 hδ) (input_mem_differences.1 hε).2)

def blank : Recorded := .ofRun {} .empty default

def told : Before :=
  { values := .ofList [("mode", .directory)], inputs := .ofList [("sources", .empty)] }

theorem nodup_detect_told : ∀ n, ((ofLimit n).detect "task 'a'" told (some blank)).Nodup := by
  refine ((messages_of_detect "task 'a'" told (some blank)).2 ?_).2 ?_
  · rintro r ⟨⟩
    decide +kernel
  · rintro r ⟨⟩ name change hvalue hinput
    have hkey : name ∈ ["sources"] := mem_keysOfBoth_of_between hinput
    obtain rfl := List.mem_singleton.1 hkey
    cases hvalue

def doubled : Before :=
  { values := .ofList [("x", .directory)], inputs := .ofList [("x", .empty)] }

/-- Two reasons, told in the same words. -/
theorem repeated_message : ¬∀ (n : Nat) (work : String) (now : Before) (before : Option Recorded),
    ((ofLimit n).detect work now before).Nodup := by
  intro h
  exact absurd (h 2 "task 'a'" doubled (some blank)) (by decide +kernel)

end Twins

end UpToDate.Detector
