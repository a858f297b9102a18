import Mathlib.Data.List.Chain
import UpToDate.Text.Capital

namespace UpToDate.Text

variable {c : Char} {u : List Char} {s t : String} {l : List Nat} {r : CaseRun}

section Characters

/-- The upper-case form of a character in the tables of Unicode. -/
inductive UpperCase (c : Char) : List Char → Prop
  | wide {l : List Nat} : (c.toNat, l) ∈ wideCapitals → UpperCase c (l.map Char.ofNat)
  | shifted {r : CaseRun} : (∀ l, (c.toNat, l) ∉ wideCapitals) → r ∈ caseRuns → r.covers c.toNat →
    UpperCase c [Char.ofNat (c.toNat + r.shift).toNat]
  | same : (∀ l, (c.toNat, l) ∉ wideCapitals) → (∀ r ∈ caseRuns, ¬r.covers c.toNat) →
    UpperCase c [c]

/-- Ranges lie apart if each of them ends before the next one starts. -/
theorem pairwise_of_isChain {α : Type} {first last : α → Nat} {ranges : List α}
    (h : ranges.IsChain fun a b ↦ last a < first b ∧ first b ≤ last b) :
    ranges.Pairwise fun a b ↦ last a < first b := by
  let R (a b : α) : Prop := last a < first b ∧ first b ≤ last b
  have htrans : Trans R R R :=
    ⟨fun hab hbc ↦ ⟨Nat.lt_of_lt_of_le hab.1 (Nat.le_trans hab.2 (Nat.le_of_lt hbc.1)), hbc.2⟩⟩
  have hall : ranges.Pairwise R := List.IsChain.pairwise h
  exact hall.imp And.left

theorem pairwise_wideCapitals : wideCapitals.Pairwise fun e e' ↦ e.1 < e'.1 := by
  refine pairwise_of_isChain ?_
  decide +kernel

theorem pairwise_caseRuns : caseRuns.Pairwise fun r r' ↦ r.last < r'.first := by
  refine pairwise_of_isChain ?_
  decide +kernel

theorem lookup_eq_some_iff_mem {n : Nat} {table : List (Nat × List Nat)}
    (h : table.Pairwise fun e e' ↦ e.1 < e'.1) : table.lookup n = some l ↔ (n, l) ∈ table := by
  induction table with
  | nil => simp
  | cons e rest ih =>
    obtain ⟨hfirst, hrest⟩ := List.pairwise_cons.1 h
    obtain ⟨k, x⟩ := e
    rw [List.lookup_cons, List.mem_cons]
    by_cases hk : n = k
    · subst hk
      have hnot : (n, l) ∉ rest := fun hmem ↦ absurd (hfirst _ hmem) (Nat.lt_irrefl n)
      simp [hnot, eq_comm]
    · rw [beq_false_of_ne hk]
      simp [hk, ih hrest]

theorem find?_covers_of_mem {n : Nat} {runs : List CaseRun}
    (h : runs.Pairwise fun r r' ↦ r.last < r'.first) (hr : r ∈ runs) (hc : r.covers n) :
    runs.find? (·.covers n) = some r := by
  induction runs with
  | nil => cases hr
  | cons r' rest ih =>
    obtain ⟨hfirst, hrest⟩ := List.pairwise_cons.1 h
    rw [List.find?_cons]
    rcases List.mem_cons.1 hr with rfl | hr
    · rw [hc]
    · have hnot : r'.covers n = false := by
        have hlt := hfirst r hr
        simp only [CaseRun.covers, Bool.and_eq_true, decide_eq_true_eq] at hc
        rw [CaseRun.covers, decide_eq_false (show ¬n ≤ r'.last by omega), Bool.and_false,
          Bool.false_and]
      rw [hnot]
      exact ih hrest hr

theorem lookup_wideCapitals_eq_none_iff :
    wideCapitals.lookup c.toNat = none ↔ ∀ l, (c.toNat, l) ∉ wideCapitals := by
  rw [Option.eq_none_iff_forall_ne_some]
  exact forall_congr' fun l ↦ not_congr (lookup_eq_some_iff_mem pairwise_wideCapitals)

/-- No character has two upper-case forms in the tables. -/
theorem upperCase_iff : UpperCase c u ↔ u = capital c := by
  constructor
  · intro h
    cases h with
    | wide hmem => rw [capital, (lookup_eq_some_iff_mem pairwise_wideCapitals).2 hmem]
    | shifted hwide hr hc =>
      rw [capital, lookup_wideCapitals_eq_none_iff.2 hwide,
        find?_covers_of_mem pairwise_caseRuns hr hc]
    | same hwide hruns =>
      rw [capital, lookup_wideCapitals_eq_none_iff.2 hwide, List.find?_eq_none.2 hruns]
  · rintro rfl
    rw [capital]
    split
    · next l hl => exact .wide ((lookup_eq_some_iff_mem pairwise_wideCapitals).1 hl)
    · next hnone =>
      have hwide := lookup_wideCapitals_eq_none_iff.1 hnone
      split
      · next r hr =>
        have hc := List.find?_some hr
        exact .shifted hwide (List.mem_of_find?_eq_some hr) hc
      · next hruns => exact .same hwide (List.find?_eq_none.1 hruns)

theorem capital_of_isLower (h : c.isLower = true) : capital c = [c.toUpper] := by
  have hletters : ∀ n ∈ List.range' 97 26, capital (Char.ofNat n) = [(Char.ofNat n).toUpper] := by
    decide +kernel
  have hmem : c.toNat ∈ List.range' 97 26 := by
    have hbounds : (decide (c.val ≥ 'a'.val) && decide (c.val ≤ 'z'.val)) = true := h
    rw [Bool.and_eq_true, decide_eq_true_eq, decide_eq_true_eq] at hbounds
    exact List.mem_range'_1.2 ⟨hbounds.1, Nat.lt_succ_of_le hbounds.2⟩
  have hletter := hletters _ hmem
  rwa [Char.ofNat_toNat] at hletter

end Characters

section Texts

/-- The second text is the first one with its first character in upper case. -/
inductive Capitalizes : String → String → Prop
  | empty : Capitalizes "" ""
  | first {c : Char} {u rest : List Char} : UpperCase c u → (c.isLower = true → u = [c.toUpper]) →
    Capitalizes (String.ofList (c :: rest)) (String.ofList (u ++ rest))

theorem capitalizes_capitalize (s : String) : Capitalizes s (capitalize s) := by
  rw [capitalize]
  split
  · next h =>
    rw [String.toList_eq_nil_iff] at h
    rw [h]
    exact .empty
  · next c rest h =>
    rw [← String.ofList_toList (s := s), h]
    exact .first (upperCase_iff.2 rfl) capital_of_isLower

example : capitalize "éclair" = "Éclair" := by decide +kernel

end Texts

end UpToDate.Text
