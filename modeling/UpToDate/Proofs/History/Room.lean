import UpToDate.Proofs.Disk.Ahead
import UpToDate.Proofs.Disk.Making
import UpToDate.Proofs.History.Codec
import UpToDate.Proofs.History.Store

namespace UpToDate

open UpToDate.Path (IsStep)

section Lengths

/-- A character that takes one byte, and is not the zero byte. -/
def Text.Narrow (c : Char) : Prop := 0 < c.toNat ∧ c.toNat < 128

instance (c : Char) : Decidable (Text.Narrow c) := inferInstanceAs (Decidable (_ ∧ _))

theorem utf8ByteSize_of_narrow {s : String} (h : ∀ c ∈ s.toList, Text.Narrow c) :
    s.utf8ByteSize = s.length := by
  have hlist {l : List Char} (h : ∀ c ∈ l, Text.Narrow c) :
      (String.ofList l).utf8ByteSize = l.length := by
    induction l with
    | nil => rfl
    | cons c l ih =>
      obtain ⟨hc, hl⟩ := List.forall_mem_cons.1 h
      have hone : c.utf8Size = 1 := Char.utf8Size_eq_one_iff.2 (Nat.le_of_lt_succ hc.2)
      rw [String.ofList_cons, String.utf8ByteSize_append, String.utf8ByteSize_singleton, hone,
        ih hl, List.length_cons, Nat.add_comm]
  have hsize := hlist h
  rwa [String.ofList_toList, String.length_toList] at hsize

namespace Store

variable {work : String} {tag : UInt64}

theorem narrow_plain (c : Char) : Text.Narrow (plain c) := by
  rw [plain]
  split
  · next h =>
    rw [Bool.or_eq_true, decide_eq_true_eq] at h
    rcases h with h | rfl
    · change (decide ('A'.val ≤ c.val ∧ c.val ≤ 'Z'.val) ||
        (decide ('a'.val ≤ c.val) && decide (c.val ≤ 'z'.val)) ||
        (decide ('0'.val ≤ c.val) && decide (c.val ≤ '9'.val))) = true at h
      simp only [Bool.or_eq_true, Bool.and_eq_true, decide_eq_true_eq,
        UInt32.le_iff_toNat_le] at h
      change ((65 ≤ c.toNat ∧ c.toNat ≤ 90) ∨ (97 ≤ c.toNat ∧ c.toNat ≤ 122)) ∨
        (48 ≤ c.toNat ∧ c.toNat ≤ 57) at h
      exact ⟨by omega, by omega⟩
    · decide
  · decide

theorem narrow_readable : ∀ c ∈ (readable work).toList, Text.Narrow c := by
  intro c hc
  obtain ⟨x, rfl⟩ := exists_plain_of_mem hc
  exact narrow_plain x

theorem narrow_hex (b : Bytes) : ∀ c ∈ (Bytes.hex b).toList, Text.Narrow c := by
  have hdigit : ∀ n < 16, Text.Narrow (Bytes.hexDigit n) := by decide
  intro c hc
  obtain ⟨n, hn, rfl⟩ := exists_hexDigit_of_mem hc
  exact hdigit n hn

theorem narrow_append {a b : String} (ha : ∀ c ∈ a.toList, Text.Narrow c)
    (hb : ∀ c ∈ b.toList, Text.Narrow c) : ∀ c ∈ (a ++ b).toList, Text.Narrow c := by
  rw [String.toList_append]
  exact List.forall_mem_append.2 ⟨ha, hb⟩

theorem narrow_of_all {a : String} (h : a.toList.all fun c ↦ Text.Narrow c) :
    ∀ c ∈ a.toList, Text.Narrow c :=
  fun c hc ↦ of_decide_eq_true (List.all_eq_true.1 h c hc)

theorem narrow_recordName : ∀ c ∈ (recordName work).toList, Text.Narrow c :=
  narrow_append (narrow_append (narrow_append narrow_readable (narrow_of_all (by decide)))
    (narrow_hex _)) (narrow_of_all (by decide))

theorem narrow_draftName : ∀ c ∈ (draftName work tag).toList, Text.Narrow c :=
  narrow_append (narrow_append (narrow_append narrow_recordName (narrow_of_all (by decide)))
    (narrow_hex _)) (narrow_of_all (by decide))

theorem length_recordName : (recordName work).length = (readable work).length + 22 := by
  have hhash : ((Digest.ofText work).bytes.take 8).length = 8 := by
    rw [List.length_take, (Digest.ofText work).length_bytes]
    rfl
  have hdash : "-".length = 1 := rfl
  have hkind : ".hist".length = 5 := rfl
  rw [recordName, String.length_append, String.length_append, String.length_append, length_hex,
    hhash, hdash, hkind]

theorem length_draftName : (draftName work tag).length = (readable work).length + 43 := by
  have hdot : ".".length = 1 := rfl
  have hkind : ".tmp".length = 4 := rfl
  rw [draftName, String.length_append, String.length_append, String.length_append, length_hex,
    List.length_reverse, Bytes.length_ofNat, length_recordName, hdot, hkind]

theorem size_recordName : (recordName work).utf8ByteSize = (readable work).length + 22 := by
  rw [utf8ByteSize_of_narrow narrow_recordName, length_recordName]

theorem size_draftName : (draftName work tag).utf8ByteSize = (readable work).length + 43 := by
  rw [utf8ByteSize_of_narrow narrow_draftName, length_draftName]

theorem size_recordPath_le (s : Store) (work : String) (tag : UInt64) :
    (s.recordPath work).utf8ByteSize ≤ (s.draftPath work tag).utf8ByteSize := by
  rw [draftPath, String.utf8ByteSize_append, String.utf8ByteSize_append,
    String.utf8ByteSize_append]
  omega

theorem le_size_draftPath (s : Store) (work : String) (tag : UInt64) :
    s.directory.utf8ByteSize + (readable work).length + 43 ≤
      (s.draftPath work tag).utf8ByteSize := by
  have hname : (draftName work tag).utf8ByteSize = (readable work).length + 43 := size_draftName
  rw [draftPath_eq, Path.join, (isStep_draftName work tag).not_isAbsolute, Bool.false_or]
  split
  · next hempty =>
    rw [String.isEmpty_iff.1 hempty, String.utf8ByteSize_empty]
    omega
  · split
    · rw [String.utf8ByteSize_append]
      omega
    · rw [String.utf8ByteSize_append, String.utf8ByteSize_append]
      omega

end Store

end Lengths

section Operations

namespace Disk

variable {d d' : Disk} {dir : Path} {q : Place} {s t : String} {b : Bytes}

theorem checkPath_join (hs : IsStep s) (hnul : '\x00' ∉ s.toList)
    (hcheck : checkPath dir = .ok ()) : checkPath (Path.join dir s) =
      if pathLimit < (Path.join dir s).utf8ByteSize then .error .nameTooLong else .ok () := by
  have hdir : '\x00' ∉ dir.toList := by
    intro hmem
    rw [checkPath, if_pos (by simpa using hmem)] at hcheck
    cases hcheck
  have hlist := Path.toList_join hs dir
  have hjoin : '\x00' ∉ (Path.join dir s).toList := by
    rw [hlist]
    split
    · exact hnul
    · split <;> simp [hdir, hnul]
  have hempty : ¬(Path.join dir s).isEmpty = true := by
    intro he
    have hnil : (Path.join dir s).toList = [] := by simpa using he
    rw [hlist] at hnil
    split at hnil
    · exact hs.toList_ne_nil hnil
    · split at hnil <;> simp [hs.toList_ne_nil] at hnil
  rw [checkPath, if_neg (by simpa using hjoin), if_neg hempty]

theorem Reaches.exists_write (hs : IsStep s) (h : d.Reaches dir s q)
    (hfile : ∀ n, d.node? (q ++ [s]) = some n → ∃ b, n = .file b) (b : Bytes) :
    ∃ d', d.write (Path.join dir s) b = .ok d' ∧ d.Sets dir s (some b) d' := by
  have hlink (target : Path) : d.node? (q ++ [s]) ≠ some (.link target) := by
    intro hn
    obtain ⟨b, hb⟩ := hfile _ hn
    cases hb
  have hwrite : ∃ d', d.write (Path.join dir s) b = .ok d' := by
    rw [write, h.locate hs (.inr hlink)]
    cases hnode : d.node? (q ++ [s]) with
    | none => exact ⟨_, rfl⟩
    | some n =>
      obtain ⟨a, rfl⟩ := hfile n hnode
      exact ⟨_, rfl⟩
  obtain ⟨d', hd⟩ := hwrite
  refine ⟨d', hd, sets_write hs (fun r hr ↦ ?_) hd⟩
  obtain rfl : q = r := h.leads.unique hr.leads
  exact hlink

theorem Leads.write_eq_error (hs : IsStep s) (h : d.Leads dir q)
    (hcheck : checkPath (Path.join dir s) = .ok ()) (hlong : Folder.nameLimit < s.utf8ByteSize)
    (b : Bytes) : d.write (Path.join dir s) b = .error .nameTooLong := by
  obtain ⟨n, hn⟩ := h
  have hlocate : d.locate .file (Path.join dir s) = .error .nameTooLong := by
    rw [locate_eq, hcheck, Path.steps_join hs, startAt_join hs]
    change route d.node? .file linkLimit (startAt [] dir) (Path.stepsToName dir ++ [s]) = _
    rw [route_concat hs, enter_of_way hn]
    change route d.node? .file n (some q) [s] = _
    rw [route_cons hs.ne_empty hs.ne_dot hs.ne_up, if_neg (by simp), if_pos hlong]
  rw [write, hlocate]
  rfl

theorem Reaches.exists_rename (hs : IsStep s) (ht : IsStep t) (h : d.Reaches dir s q)
    (h' : d.Reaches dir t q) (hnode : d.node? (q ++ [s]) = some (.file b))
    (hdir : d.node? (q ++ [t]) ≠ some .directory) :
    ∃ d', d.rename (Path.join dir s) (Path.join dir t) = .ok d' := by
  rw [rename, locateName_join hs, locateName_join ht, h.locate hs (.inl rfl),
    h'.locate ht (.inl rfl), hnode]
  cases hold : d.node? (q ++ [t]) with
  | none => exact ⟨_, rfl⟩
  | some n =>
    cases n with
    | directory => exact absurd hold hdir
    | file a => exact ⟨_, rfl⟩
    | link target => exact ⟨_, rfl⟩

end Disk

end Operations

namespace Store

variable {ε : Type} {s : Store} {work : String} {tag : UInt64} {r : Recorded} {d : Disk} {q : Place}

/-- The directory of the store is there, and there are only files in it. -/
structure Ready (s : Store) (d : Disk) (q : Place) : Prop where
  found : d.locate .content s.directory = .ok (.found q .directory)
  files : ∀ name n, d.node? (q ++ [name]) = some n → ∃ b, n = .file b

/-- A record can be drafted under its name: what is readable of the unit of work leaves room for the
hash and the tag, and the path to it is not too long. -/
def Room (s : Store) (work : String) (tag : UInt64) : Prop :=
  (readable work).length ≤ 212 ∧ (s.draftPath work tag).utf8ByteSize ≤ Disk.pathLimit

instance (s : Store) (work : String) (tag : UInt64) : Decidable (s.Room work tag) :=
  inferInstanceAs (Decidable (_ ∧ _))

theorem Ready.leads (h : s.Ready d q) : d.Leads s.directory q :=
  Disk.way_of_locate (r := some q) h.found

theorem Ready.checkPath (h : s.Ready d q) : Disk.checkPath s.directory = .ok () := by
  have hfound := h.found
  rw [Disk.locate_eq] at hfound
  cases hcheck : Disk.checkPath s.directory with
  | ok u => rfl
  | error e =>
    rw [hcheck] at hfound
    cases hfound

theorem Ready.checkPath_draft (h : s.Ready d q) (work : String) (tag : UInt64) :
    Disk.checkPath (s.draftPath work tag) =
      if Disk.pathLimit < (s.draftPath work tag).utf8ByteSize then .error .nameTooLong
      else .ok () := by
  have hnul : '\x00' ∉ (draftName work tag).toList := fun hmem ↦
    absurd (narrow_draftName _ hmem) (by decide)
  rw [draftPath_eq]
  exact Disk.checkPath_join (isStep_draftName work tag) hnul h.checkPath

theorem Ready.run_store (h : s.Ready d q) {v : Except HistoryFault Unit} {d' : Disk}
    (hrest : (do
      writePieces (s.draftPath work tag) [Codec.writeRecord s.version r]
      tryCatch (attemptAt (s.recordPath work)
          (·.rename (s.draftPath work tag) (s.recordPath work))) fun fault ↦ do
        tryCatch (attemptAt (s.draftPath work tag) (·.removeFile (s.draftPath work tag)))
          fun _ ↦ pure ()
        throw fault : ExceptT HistoryFault (Script Disk ε) Unit).run.run d = ⟨v, d', []⟩) :
    (s.store (ε := ε) tag work r).run.run d = ⟨v, d', []⟩ := by
  have hmade := h.leads.enters.makeDirectories h.checkPath
  rw [store, save]
  refine Script.run_bind_of_ok (a := ()) (l := [])
    (Script.Ends.run_eq (Script.ends_act ⟨?_, ?_, rfl⟩)) hrest
  · rw [hmade]
    rfl
  · rw [hmade]

theorem Ready.run_store_of_not_room (h : s.Ready d q) (hroom : ¬s.Room work tag) (r : Recorded) :
    (s.store (ε := ε) tag work r).run.run d =
      ⟨.error (.disk (s.draftPath work tag) .nameTooLong), d, []⟩ := by
  have hrefused : d.write (s.draftPath work tag) [] = .error .nameTooLong := by
    have hcheck := h.checkPath_draft work tag
    by_cases hlong : Disk.pathLimit < (s.draftPath work tag).utf8ByteSize
    · rw [if_pos hlong] at hcheck
      rw [Disk.write, Disk.locate, hcheck]
      rfl
    · have hreadable : ¬(readable work).length ≤ 212 := fun hshort ↦
        hroom ⟨hshort, Nat.not_lt.1 hlong⟩
      rw [if_neg hlong, draftPath_eq] at hcheck
      rw [draftPath_eq]
      refine h.leads.write_eq_error (isStep_draftName work tag) hcheck ?_ []
      rw [size_draftName, Folder.nameLimit]
      omega
  refine h.run_store (Script.run_bind_of_error ?_)
  rw [writePieces]
  exact Script.run_bind_of_error (run_attemptAt_of_error hrefused)

theorem Ready.reaches_draft (h : s.Ready d q) (hroom : s.Room work tag) :
    d.Reaches s.directory (draftName work tag) q := by
  refine ⟨h.leads, ?_, ?_⟩
  · rw [← draftPath_eq, h.checkPath_draft, if_neg (Nat.not_lt.2 hroom.2)]
  · have hreadable := hroom.1
    rw [size_draftName, Folder.nameLimit]
    omega

theorem Ready.reaches_record (h : s.Ready d q) (hroom : s.Room work tag) :
    d.Reaches s.directory (recordName work) q := by
  refine ⟨h.leads, ?_, ?_⟩
  · have hnul : '\x00' ∉ (recordName work).toList := fun hmem ↦
      absurd (narrow_recordName _ hmem) (by decide)
    have hshort : ¬Disk.pathLimit < (Path.join s.directory (recordName work)).utf8ByteSize :=
      Nat.not_lt.2 (Nat.le_trans (s.size_recordPath_le work tag) hroom.2)
    rw [Disk.checkPath_join (isStep_recordName work) hnul h.checkPath, if_neg hshort]
  · have hreadable := hroom.1
    rw [size_recordName, Folder.nameLimit]
    omega

theorem Ready.exists_run_store (h : s.Ready d q) (hroom : s.Room work tag)
    (hfits : Codec.Fits s.version r) : ∃ d',
      (s.store (ε := ε) tag work r).run.run d = ⟨.ok (), d', []⟩ ∧ s.load work d' = some r := by
  have hdraft := isStep_draftName work tag
  have hrecord := isStep_recordName work
  have hne : recordName work ≠ draftName work tag := draftName_ne_recordName.symm
  have hreach := h.reaches_draft hroom
  -- the draft is written in two steps, an empty file first
  obtain ⟨d₁, hwrite, hempty⟩ := hreach.exists_write hdraft (h.files _) []
  obtain ⟨d₂, happend, hfull⟩ := Disk.exists_append hdraft (hempty.holds_self hdraft)
    (Codec.writeRecord s.version r)
  have hset := hempty.trans hfull
  have hold := hset.holds_self hdraft
  obtain ⟨o, ho⟩ : ∃ o, d.Holds (Path.join s.directory (recordName work)) o := by
    cases hnode : d.node? (q ++ [recordName work]) with
    | none => exact ⟨none, ((h.reaches_record hroom).holds_iff hrecord).2 (.inl hnode)⟩
    | some n =>
      obtain ⟨a, rfl⟩ := h.files _ n hnode
      exact ⟨some a, ((h.reaches_record hroom).holds_iff hrecord).2 hnode⟩
  have hrest := hset.holds_other hrecord hne ho
  -- nothing hinders it from taking the place of the record
  obtain ⟨d₃, hrename⟩ : ∃ d₃, d₂.rename (s.draftPath work tag) (s.recordPath work) = .ok d₃ := by
    obtain ⟨q', hq', hfile, hnode⟩ := hset
    obtain rfl : q = q' := h.leads.unique hq'.leads
    have hkeep := Disk.keep_of_set hfile hnode
    rw [draftPath_eq, recordPath_eq]
    refine Disk.Reaches.exists_rename hdraft hrecord (hreach.mono hkeep)
      ((h.reaches_record hroom).mono hkeep) ((hnode _).trans (if_pos rfl)) fun hdir ↦ ?_
    rw [hnode, if_neg (Disk.concat_ne hne)] at hdir
    obtain ⟨b, hb⟩ := h.files _ _ hdir
    cases hb
  refine ⟨d₃, Writes.run_store ⟨d, d₁, d₂, ?_, ?_, ?_, hrename⟩, ?_⟩
  · exact h.leads.enters.makeDirectories h.checkPath
  · rw [draftPath_eq, hwrite]
  · rw [draftPath_eq, happend]
  · rw [draftPath_eq, recordPath_eq] at hrename
    obtain ⟨d', -, hmoved⟩ := Disk.sets_rename hdraft hrecord hne hold hrest hrename
    exact load_of_holds hfits (hmoved.holds_self hrecord)

end Store

end UpToDate
