import UpToDate.Proofs.Disk.Parents
import UpToDate.Proofs.History.Names
import Mathlib.Data.List.TakeWhile

namespace UpToDate

open UpToDate.Path (IsStep)

namespace Path

section Extensions

variable {p dir : Path} {s base k more : String}

theorem stem_append (hbase : base ≠ "") (hk : '.' ∉ k.toList) :
    stem (base ++ "." ++ k).toList = base.toList := by
  have hne : base.toList ≠ [] := fun h ↦ hbase (by simpa using h)
  have hkept : ∀ c ∈ k.toList.reverse, decide (c ≠ '.') = true := by
    intro c hc
    rw [decide_eq_true_eq]
    rintro rfl
    exact hk (List.mem_reverse.1 hc)
  have hdrop : (base ++ "." ++ k).toList.reverse.dropWhile (· ≠ '.') =
      '.' :: base.toList.reverse := by
    have htext : (base ++ "." ++ k).toList.reverse =
        k.toList.reverse ++ '.' :: base.toList.reverse := by simp
    rw [htext, List.dropWhile_append_of_pos hkept]
    simp
  rw [stem, hdrop]
  split
  · next h => cases h
  · next h => simp_all
  · next h =>
    cases h
    exact List.reverse_reverse _

theorem Opens.ends {start rest : List Char} (hopens : Opens start rest) (hs : IsStep s)
    (h : start ++ rest = s.toList ∨ ∃ a, start ++ rest = a ++ '/' :: s.toList) :
    rest = s.toList ∨ ∃ a, rest = a ++ '/' :: s.toList := by
  rcases h with h | ⟨a, h⟩
  · rcases hopens with rfl | rfl | ⟨rfl, rfl | ⟨y, rfl⟩⟩
    · exact .inl h
    · exact absurd (h ▸ List.mem_cons_self) hs.noSlash
    · exact absurd (String.toList_injective h.symm) hs.ne_dot
    · exact absurd (h ▸ List.mem_cons_of_mem _ List.mem_cons_self) hs.noSlash
  · rcases hopens with rfl | rfl | ⟨rfl, -⟩
    · exact .inr ⟨a, h⟩
    · cases a with
      | nil =>
        cases h
        exact .inl rfl
      | cons c a =>
        cases h
        exact .inr ⟨a, rfl⟩
    · cases a with
      | nil => cases h
      | cons c a =>
        cases h
        exact .inr ⟨a, rfl⟩

theorem exists_pieces (hs : IsStep s) {rest : List Char}
    (h : rest = s.toList ∨ ∃ a, rest = a ++ '/' :: s.toList) :
    ∃ before, pieces rest = before ++ [s.toList] := by
  rcases h with rfl | ⟨a, rfl⟩
  · exact ⟨[], pieces_of_noSlash hs.noSlash⟩
  · exact ⟨pieces a, by rw [pieces_append_slash, pieces_of_noSlash hs.noSlash]⟩

theorem toList_join_cases (hs : IsStep s) (dir : Path) : (join dir s).toList = s.toList ∨
    ∃ a, (join dir s).toList = a ++ '/' :: s.toList := by
  rw [toList_join hs]
  split
  · exact .inl rfl
  · split
    · next h =>
      rw [asksDirectory, decide_eq_true_eq, List.getLast?_eq_some_iff] at h
      obtain ⟨a, ha⟩ := h
      exact .inr ⟨a, by rw [ha, List.append_assoc, List.singleton_append]⟩
    · exact .inr ⟨dir.toList, rfl⟩

theorem intercalate_concat (before : List (List Char)) (x : List Char) :
    ['/'].intercalate (before ++ [x]) = ['/'].intercalate (before ++ [[]]) ++ x := by
  by_cases h : before = []
  · subst h
    simp
  · rw [intercalate_append h (List.cons_ne_nil _ _), intercalate_append h (List.cons_ne_nil _ _)]
    simp

theorem withExtension_join (hs : IsStep s) (hbase : base ≠ "") (hk : '.' ∉ k.toList)
    (hext : s = base ++ "." ++ k) (hmore : k ++ more ≠ "") (dir : Path) :
    withExtension (join dir s) (k ++ more) = join dir s ++ more := by
  obtain ⟨rest, hlead, hdrop, hopens, -⟩ := opens_lead (join dir s).toList
  obtain ⟨before, hpieces⟩ := exists_pieces hs (hopens.ends hs (hlead ▸ toList_join_cases hs dir))
  have hidle : isIdle s.toList = false := by
    rw [← Bool.not_eq_true, isIdle_iff]
    rintro (h | h)
    · exact hs.toList_ne_nil h
    · exact hs.ne_dot (String.toList_injective h)
  have hup : s.toList ≠ ['.', '.'] := fun h ↦ hs.ne_up (String.toList_injective h)
  have hends : (dropIdleEnd (pieces rest)).reverse = s.toList :: before.reverse := by
    rw [hpieces]
    simp [dropIdleEnd, hidle]
  have hstem : stem s.toList = base.toList := hext ▸ stem_append hbase hk
  have htext : s.toList = base.toList ++ '.' :: k.toList := by simp [hext]
  have hrest : rest = ['/'].intercalate (before ++ [[]]) ++ s.toList := by
    rw [← intercalate_concat, ← hpieces, intercalate_pieces]
  apply String.toList_injective
  rw [withExtension, hdrop, hends]
  split
  · next h => cases h
  · next h => exact absurd (List.cons.inj h).1 hup
  · next name up h =>
    obtain ⟨rfl, rfl⟩ := List.cons.inj h
    rw [List.reverse_reverse, hstem, intercalate_concat, if_neg (by simpa using hmore)]
    generalize lead (join dir s).toList = start at hlead
    rw [String.toList_append (s := join dir s), hlead, hrest, htext]
    simp

theorem join_inj {t : String} (hs : IsStep s) (ht : IsStep t) (h : join dir s = join dir t) :
    s = t := by
  have hsteps := congrArg stepsToName h
  rw [stepsToName_join hs, stepsToName_join ht] at hsteps
  exact List.singleton_inj.1 (List.append_cancel_left hsteps)

end Extensions

end Path

section Trimming

/-- The part of a list between elements at its two ends for which `p` holds. -/
structure Text.Trimmed {α : Type} (p : α → Bool) (whole part : List α) : Prop where
  parts : ∃ a b, whole = a ++ part ++ b ∧ ∀ x ∈ a ++ b, p x
  first : ∀ x ∈ part.head?, p x = false
  last : ∀ x ∈ part.getLast?, p x = false

theorem Text.trimmed_strip {α : Type} (p : α → Bool) (l : List α) : Trimmed p l (strip p l) := by
  have hfront := List.takeWhile_append_dropWhile (p := p) (l := l)
  have hback := List.takeWhile_append_dropWhile (p := p) (l := (l.dropWhile p).reverse)
  have hmiddle : l.dropWhile p =
      strip p l ++ ((l.dropWhile p).reverse.takeWhile p).reverse := by
    rw [strip, ← List.reverse_append, hback, List.reverse_reverse]
  refine ⟨⟨l.takeWhile p, ((l.dropWhile p).reverse.takeWhile p).reverse, ?_, ?_⟩, ?_, ?_⟩
  · rw [List.append_assoc, ← hmiddle, hfront]
  · refine List.forall_mem_append.2 ⟨fun x hx ↦ List.mem_takeWhile_imp hx, fun x hx ↦ ?_⟩
    exact List.mem_takeWhile_imp (List.mem_reverse.1 hx)
  · intro x hx
    have hhead : (l.dropWhile p).head? = some x := by
      rw [hmiddle, List.head?_append, Option.mem_def.1 hx]
      rfl
    have hnot := List.head?_dropWhile_not p l
    rw [hhead] at hnot
    simpa using hnot
  · intro x hx
    rw [strip, List.getLast?_reverse] at hx
    have hnot := List.head?_dropWhile_not p (l.dropWhile p).reverse
    rw [Option.mem_def.1 hx] at hnot
    simpa using hnot

end Trimming

namespace Store

section Forms

variable {work other : String} {tag : UInt64}

/-- The form of record names: letters and digits of ASCII, dashes and underscores, then a dash,
sixteen lower-case hexadecimal digits, and the extension. -/
structure IsRecordName (name front digits : String) : Prop where
  parts : name = front ++ "-" ++ digits ++ ".hist"
  front : ∀ c ∈ front.toList, c.isAlphanum ∨ c = '-' ∨ c = '_'
  length_digits : digits.length = 16
  digits : ∀ c ∈ digits.toList, c.isDigit ∨ 'a' ≤ c ∧ c ≤ 'f'

theorem plain_of_mem_readable {c : Char} (hc : c ∈ (readable work).toList) :
    c.isAlphanum ∨ c = '-' ∨ c = '_' := by
  obtain ⟨x, rfl⟩ := exists_plain_of_mem hc
  rw [plain]
  split
  · next h => simpa [or_assoc] using Or.inl h
  · exact .inr (.inr rfl)

theorem digit_of_mem_hex {b : Bytes} {c : Char} (hc : c ∈ (Bytes.hex b).toList) :
    c.isDigit ∨ 'a' ≤ c ∧ c ≤ 'f' := by
  have hdigit : ∀ n < 16, (Bytes.hexDigit n).isDigit ∨
      'a' ≤ Bytes.hexDigit n ∧ Bytes.hexDigit n ≤ 'f' := by decide
  obtain ⟨n, hn, rfl⟩ := exists_hexDigit_of_mem hc
  exact hdigit n hn

theorem trimmed_readable (work : String) :
    Text.Trimmed (· = '_') (work.toList.map plain) (readable work).toList := by
  rw [readable, String.toList_ofList]
  exact Text.trimmed_strip _ _

theorem hex_inj {a b : Bytes} (h : Bytes.hex a = Bytes.hex b) : a = b := by
  have hdigit : ∀ m < 16, ∀ n < 16, Bytes.hexDigit m = Bytes.hexDigit n → m = n := by decide
  have hlists := congrArg String.toList h
  rw [Bytes.hex, Bytes.hex, String.toList_ofList, String.toList_ofList] at hlists
  clear h
  induction a generalizing b with
  | nil =>
    cases b with
    | nil => rfl
    | cons y b => cases hlists
  | cons x a ih =>
    cases b with
    | nil => cases hlists
    | cons y b =>
      rw [List.flatMap_cons, List.flatMap_cons] at hlists
      obtain ⟨hhigh, hrest⟩ := List.cons.inj hlists
      obtain ⟨hlow, hrest⟩ := List.cons.inj hrest
      have hx := x.toNat_lt
      have hy := y.toNat_lt
      have hdiv := hdigit _ (by omega) _ (by omega) hhigh
      have hmod := hdigit _ (by omega) _ (by omega) hlow
      have hxy : x.toNat = y.toNat := by omega
      rw [UInt8.toNat_inj.1 hxy, ih hrest]

def half (work : String) : Bytes := (Digest.ofText work).bytes.take 8

theorem length_half (work : String) : (half work).length = 8 := by
  rw [half, List.length_take, (Digest.ofText work).length_bytes]
  rfl

theorem isRecordName_recordName (work : String) :
    IsRecordName (recordName work) (readable work) (Bytes.hex (half work)) where
  parts := rfl
  front _ := plain_of_mem_readable
  length_digits := by rw [length_hex, length_half]
  digits _ := digit_of_mem_hex

theorem recordName_eq_iff : recordName work = recordName other ↔
    readable work = readable other ∧ half work = half other := by
  constructor
  · intro h
    have hlists := congrArg String.toList h
    simp only [recordName, String.toList_append] at hlists
    have hfront := List.append_cancel_right hlists
    have hlength :
        (Bytes.hex (half work)).toList.length = (Bytes.hex (half other)).toList.length := by
      rw [String.length_toList, String.length_toList, length_hex, length_hex, length_half,
        length_half]
    obtain ⟨hreadable, hhex⟩ := List.append_inj' hfront hlength
    exact ⟨String.toList_injective (List.append_cancel_right hreadable),
      hex_inj (String.toList_injective hhex)⟩
  · rintro ⟨hreadable, hhalf⟩
    rw [half, half] at hhalf
    rw [recordName, recordName, hreadable, hhalf]

theorem exists_extension (work : String) :
    ∃ base, base ≠ "" ∧ recordName work = base ++ "." ++ "hist" := by
  refine ⟨readable work ++ "-" ++ Bytes.hex (half work), ?_, ?_⟩
  · intro h
    have hlength := congrArg String.length h
    simp at hlength
  · rw [String.append_assoc]
    rfl

theorem draftPath_eq_withExtension (s : Store) (work : String) (tag : UInt64) :
    s.draftPath work tag = Path.withExtension (s.recordPath work)
      ("hist" ++ ("." ++ Bytes.hex (Bytes.ofNat 8 tag.toNat).reverse ++ ".tmp")) := by
  obtain ⟨base, hbase, hname⟩ := exists_extension work
  rw [recordPath_eq, Path.withExtension_join (isStep_recordName work) hbase (by decide) hname
    (by simp), ← recordPath_eq, draftPath]
  simp only [String.append_assoc]

end Forms

/-- Whatever the work id is, its record has one name in the directory of the store and so have its
drafts, which are called like no record. The names of two records are the same only if their
readable parts and their halves of the hashes are. -/
theorem records_confined (s : Store) (work : String) :
    s.recordPath work = Path.join s.directory (recordName work) ∧
    IsStep (recordName work) ∧
    IsRecordName (recordName work) (readable work)
      (Bytes.hex ((Digest.ofText work).bytes.take 8)) ∧
    Text.Trimmed (· = '_') (work.toList.map plain) (readable work).toList ∧
    (∀ tag, ∃ name, s.draftPath work tag = Path.join s.directory name ∧ IsStep name ∧
      s.draftPath work tag = Path.withExtension (s.recordPath work)
        ("hist" ++ ("." ++ Bytes.hex (Bytes.ofNat 8 tag.toNat).reverse ++ ".tmp")) ∧
      ∀ other, s.draftPath work tag ≠ s.recordPath other) ∧
    ∀ other, s.recordPath work = s.recordPath other ↔
      readable work = readable other ∧
        (Digest.ofText work).bytes.take 8 = (Digest.ofText other).bytes.take 8 := by
  refine ⟨rfl, isStep_recordName work, isRecordName_recordName work, trimmed_readable work,
    fun tag ↦ ?_, fun other ↦ ?_⟩
  · refine ⟨draftName work tag, draftPath_eq s work tag, isStep_draftName work tag,
      draftPath_eq_withExtension s work tag, fun other h ↦ ?_⟩
    rw [draftPath_eq, recordPath_eq] at h
    exact draftName_ne_recordName
      (Path.join_inj (isStep_draftName work tag) (isStep_recordName other) h)
  · rw [recordPath_eq, recordPath_eq]
    constructor
    · intro h
      exact recordName_eq_iff.1 (Path.join_inj (isStep_recordName work) (isStep_recordName other) h)
    · intro h
      rw [recordName_eq_iff.2 h]

end Store

end UpToDate
