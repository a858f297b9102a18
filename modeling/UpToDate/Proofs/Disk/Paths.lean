import UpToDate.Disk.Path

namespace UpToDate.Path

/-- A text that is one step of a path, down to a name. -/
structure IsStep (s : String) : Prop where
  ne_empty : s ≠ ""
  ne_dot : s ≠ "."
  ne_up : s ≠ ".."
  noSlash : '/' ∉ s.toList

theorem pieces_ne_nil (l : List Char) : pieces l ≠ [] := by
  cases l with
  | nil => exact List.cons_ne_nil _ _
  | cons c l =>
    rw [pieces]
    split
    · exact List.cons_ne_nil _ _
    · split <;> exact List.cons_ne_nil _ _

theorem pieces_append_slash (l r : List Char) :
    pieces (l ++ '/' :: r) = pieces l ++ pieces r := by
  induction l with
  | nil =>
    obtain ⟨p, ps, hp⟩ := List.exists_cons_of_ne_nil (pieces_ne_nil r)
    simp [pieces, hp]
  | cons c l ih =>
    obtain ⟨p, ps, hp⟩ := List.exists_cons_of_ne_nil (pieces_ne_nil l)
    rw [List.cons_append, pieces, pieces, ih, hp]
    by_cases hc : c = '/' <;> simp [hc]

theorem pieces_of_noSlash {l : List Char} (h : '/' ∉ l) : pieces l = [l] := by
  induction l with
  | nil => rfl
  | cons c l ih =>
    obtain ⟨hc, hl⟩ := not_or.1 fun hc ↦ h (List.mem_cons.2 hc)
    rw [pieces, ih hl]
    simp [Ne.symm hc]

variable {s : String}

theorem empty_join (p : Path) : join "" p = p := by simp [join]

theorem toList_join_of_relative (dir : Path) (h : isAbsolute s = false) : (join dir s).toList =
    if dir.toList = [] then s.toList
    else if asksDirectory dir then dir.toList ++ s.toList
    else dir.toList ++ '/' :: s.toList := by
  have hempty : dir.isEmpty = true ↔ dir.toList = [] := by simp
  rw [join, h, Bool.false_or]
  by_cases h : dir.toList = []
  · rw [if_pos (hempty.2 h), if_pos h]
  · rw [if_neg fun he ↦ h (hempty.1 he), if_neg h]
    split <;> simp

variable (hs : IsStep s) (dir : Path)
include hs

theorem IsStep.toList_ne_nil : s.toList ≠ [] := fun h ↦ hs.ne_empty (by simpa using h)

theorem IsStep.not_isAbsolute : isAbsolute s = false := by
  rw [isAbsolute, decide_eq_false_iff_not]
  exact fun h ↦ hs.noSlash (List.mem_of_mem_head? (Option.mem_def.2 h))

theorem toList_join : (join dir s).toList =
    if dir.toList = [] then s.toList
    else if asksDirectory dir then dir.toList ++ s.toList
    else dir.toList ++ '/' :: s.toList :=
  toList_join_of_relative dir hs.not_isAbsolute

theorem isAbsolute_join : isAbsolute (join dir s) = isAbsolute dir := by
  rw [isAbsolute, toList_join hs, isAbsolute]
  cases h : dir.toList with
  | nil => simpa [isAbsolute] using hs.not_isAbsolute
  | cons c l =>
    rw [if_neg (List.cons_ne_nil c l)]
    split <;> simp

theorem not_asksDirectory_join : asksDirectory (join dir s) = false := by
  have hlast : (join dir s).toList.getLast? = s.toList.getLast? := by
    have hsome : s.toList.getLast? = some (s.toList.getLast hs.toList_ne_nil) :=
      List.getLast?_eq_some_getLast hs.toList_ne_nil
    rw [toList_join hs]
    split
    · rfl
    · split <;> simp [hsome, List.getLast?_append, List.getLast?_cons]
  rw [asksDirectory, hlast, decide_eq_false_iff_not]
  exact fun h ↦ hs.noSlash (List.mem_of_getLast? h)

theorem stepsToName_join : stepsToName (join dir s) = stepsToName dir ++ [s] := by
  have hone : pieces s.toList = [s.toList] := pieces_of_noSlash hs.noSlash
  have hkeep : s.toList ≠ [] := hs.toList_ne_nil
  rw [stepsToName, toList_join hs]
  split
  · next h => simp [stepsToName, h, hone, hkeep, pieces]
  · split
    · next h =>
      obtain ⟨l, hl⟩ : ∃ l, dir.toList = l ++ ['/'] := by
        rw [asksDirectory, decide_eq_true_eq, List.getLast?_eq_some_iff] at h
        exact h
      rw [stepsToName, hl, List.append_assoc, List.singleton_append, pieces_append_slash,
        pieces_append_slash, hone]
      simp [hkeep, pieces]
    · rw [pieces_append_slash, hone, stepsToName]
      simp [hkeep]

omit dir in
theorem IsStep.stepsToName : stepsToName s = [s] := by
  have hjoin := stepsToName_join hs ""
  rwa [empty_join] at hjoin

theorem join_assoc (root : Path) (h : isAbsolute dir = false) :
    join (join root dir) s = join root (join dir s) := by
  have hrel : isAbsolute (join dir s) = false := by rw [isAbsolute_join hs, h]
  apply String.toList_injective
  rw [toList_join hs, toList_join_of_relative root hrel, toList_join hs,
    toList_join_of_relative root h]
  by_cases hdir : dir.toList = []
  · by_cases hroot : root.toList = []
    · simp [hroot, hdir]
    · by_cases hask : asksDirectory root
      · have hask' : asksDirectory (join root dir) := by
          rw [asksDirectory, toList_join_of_relative root h, if_neg hroot, if_pos hask, hdir,
            List.append_nil]
          exact hask
        simp [hroot, hdir, hask, hask']
      · have hask' : asksDirectory (join root dir) := by
          rw [asksDirectory, toList_join_of_relative root h]
          simp [hroot, hdir, hask]
        simp [hroot, hdir, hask, hask']
  · have hlast : asksDirectory (join root dir) = asksDirectory dir := by
      obtain ⟨c, hc⟩ : ∃ c, dir.toList.getLast? = some c :=
        ⟨_, List.getLast?_eq_some_getLast hdir⟩
      have hdirlast : asksDirectory dir = decide (dir.toList.getLast? = some '/') := rfl
      rw [hdirlast, asksDirectory, toList_join_of_relative root h, hc]
      split
      · rw [hc]
      · split <;> simp [List.getLast?_append, List.getLast?_cons, hc]
    rw [hlast]
    by_cases hroot : root.toList = []
    · simp [hroot, hdir]
    · by_cases hask : asksDirectory root <;> by_cases hask' : asksDirectory dir <;>
        simp [hroot, hdir, hask, hask']

theorem steps_join : steps (join dir s) = stepsToName dir ++ [s] := by
  rw [steps, not_asksDirectory_join hs, stepsToName_join hs]
  exact List.append_nil _

end UpToDate.Path
