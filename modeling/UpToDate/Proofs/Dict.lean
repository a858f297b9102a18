import UpToDate.Dict

namespace UpToDate.Dict

variable {κ α : Type}

theorem find_eq_none_iff [DecidableEq κ] {k : κ} {l : List (κ × α)} :
    find k l = none ↔ k ∉ l.map (·.1) := by
  induction l with
  | nil => simp [find]
  | cons x rest ih => by_cases h : k = x.1 <;> simp [find, h, ih]

theorem find_append [DecidableEq κ] (k : κ) (l m : List (κ × α)) :
    find k (l ++ m) = (find k l).or (find k m) := by
  induction l with
  | nil => rfl
  | cons x rest ih => by_cases hk : k = x.1 <;> simp [find, hk, ih]

theorem mem_of_find [DecidableEq κ] {k : κ} {a : α} {l : List (κ × α)} (h : find k l = some a) :
    (k, a) ∈ l := by
  induction l with
  | nil => cases h
  | cons x rest ih =>
    rw [find] at h
    split at h
    · next hk =>
      cases h
      exact hk ▸ List.mem_cons_self
    · exact List.mem_cons_of_mem _ (ih h)

theorem find_map_snd {β : Type} [DecidableEq κ] (f : κ → α → β) (k : κ) (l : List (κ × α)) :
    find k (l.map fun e ↦ (e.1, f e.1 e.2)) = (find k l).map (f k) := by
  induction l with
  | nil => rfl
  | cons x rest ih =>
    by_cases hk : k = x.1
    · subst hk
      simp [find]
    · simp [find, hk, ih]

variable [LT κ]

theorem get?_map {β : Type} [DecidableEq κ] (f : κ → α → β) (d : Dict κ α) (k : κ) :
    (d.map f).get? k = (d.get? k).map (f k) :=
  find_map_snd f k d.entries

theorem mem_of_get? [DecidableEq κ] {d : Dict κ α} {k : κ} {a : α} (h : d.get? k = some a) :
    (k, a) ∈ d.entries :=
  mem_of_find h

theorem keys_ordered (d : Dict κ α) : d.keys.Pairwise (· < ·) := List.pairwise_map.2 d.ordered

@[simp] theorem get?_empty [DecidableEq κ] (k : κ) : (empty : Dict κ α).get? k = none := rfl

theorem mem_keys_iff [DecidableEq κ] {d : Dict κ α} {k : κ} : k ∈ d.keys ↔ d.get? k ≠ none := by
  rw [ne_eq, get?, find_eq_none_iff, Decidable.not_not]
  rfl

variable [LinearKey κ] [DecidableEq κ]

theorem not_lt_of_find_eq {x y : κ × α} {l m : List (κ × α)}
    (hm : (y :: m).Pairwise (fun a b ↦ a.1 < b.1)) (h : ∀ k, find k (x :: l) = find k (y :: m)) :
    ¬x.1 < y.1 := by
  intro hxy
  have hfree : find x.1 (y :: m) = none := find_eq_none_of_lt fun e he ↦ by
    rcases List.mem_cons.1 he with rfl | he
    · exact hxy
    · exact LinearKey.lt_trans hxy ((List.pairwise_cons.1 hm).1 e he)
  have hx := h x.1
  rw [hfree] at hx
  simp [find] at hx

theorem eq_of_find_eq {l m : List (κ × α)} (hl : l.Pairwise (fun a b ↦ a.1 < b.1))
    (hm : m.Pairwise (fun a b ↦ a.1 < b.1)) (h : ∀ k, find k l = find k m) : l = m := by
  induction l generalizing m with
  | nil =>
    cases m with
    | nil => rfl
    | cons y m => simpa [find] using h y.1
  | cons x l ih =>
    cases m with
    | nil => simpa [find] using h x.1
    | cons y m =>
      obtain ⟨i, a⟩ := x
      obtain ⟨j, b⟩ := y
      obtain rfl : i = j := LinearKey.eq_of_not_lt (not_lt_of_find_eq hm h)
        (not_lt_of_find_eq hl fun k ↦ (h k).symm)
      obtain rfl : a = b := by simpa [find] using h i
      obtain ⟨hxl, hl⟩ := List.pairwise_cons.1 hl
      obtain ⟨hxm, hm⟩ := List.pairwise_cons.1 hm
      have htail : l = m := by
        refine ih hl hm fun k ↦ ?_
        by_cases hk : k = i
        · rw [hk, find_eq_none_of_lt hxl, find_eq_none_of_lt hxm]
        · simpa [find, hk] using h k
      rw [htail]

theorem ext_get? {d e : Dict κ α} (h : ∀ k, d.get? k = e.get? k) : d = e := by
  obtain ⟨l, hl⟩ := d
  obtain ⟨m, hm⟩ := e
  obtain rfl := eq_of_find_eq hl hm h
  rfl

theorem find_reverse {l : List (κ × α)} (h : l.Pairwise (fun a b ↦ a.1 < b.1)) (k : κ) :
    find k l.reverse = find k l := by
  induction l with
  | nil => rfl
  | cons x rest ih =>
    obtain ⟨hx, hr⟩ := List.pairwise_cons.1 h
    rw [List.reverse_cons, find_append, ih hr]
    by_cases hk : k = x.1
    · simp [find, hk, find_eq_none_of_lt hx]
    · simp [find, hk]

theorem find_of_mem {l : List (κ × α)} (h : l.Pairwise (fun a b ↦ a.1 < b.1)) {k : κ} {a : α}
    (hmem : (k, a) ∈ l) : find k l = some a := by
  induction l with
  | nil => cases hmem
  | cons x rest ih =>
    obtain ⟨hx, hr⟩ := List.pairwise_cons.1 h
    rcases List.mem_cons.1 hmem with rfl | hmem
    · simp [find]
    · have hk : k ≠ x.1 := fun he ↦ LinearKey.lt_irrefl x.1 (he ▸ hx (k, a) hmem : x.1 < x.1)
      rw [find, if_neg hk]
      exact ih hr hmem

variable [DecidableLT κ]

theorem get?_foldl_insert (l : List (κ × α)) (d : Dict κ α) (k : κ) :
    (l.foldl (fun d e ↦ d.insert e.1 e.2) d).get? k = (find k l.reverse).or (d.get? k) := by
  induction l generalizing d with
  | nil => rfl
  | cons x rest ih =>
    rw [List.foldl_cons, ih, List.reverse_cons, get?_insert, find_append]
    by_cases hk : k = x.1 <;> simp [find, hk]

theorem get?_ofList (l : List (κ × α)) (k : κ) : (ofList l).get? k = find k l.reverse := by
  rw [ofList, get?_foldl_insert]
  simp

theorem get?_ofList_of_mem {l : List (κ × α)} (h : (l.map (·.1)).Pairwise (· < ·)) {k : κ} {a : α}
    (hmem : (k, a) ∈ l) : (ofList l).get? k = some a := by
  have hl := List.pairwise_map.1 h
  rw [get?_ofList, find_reverse hl, find_of_mem hl hmem]

theorem get?_foldl_insertNew (l : List (κ × α)) (d : Dict κ α) (k : κ) :
    (l.foldl (fun d e ↦ d.insertNew e.1 e.2) d).get? k = (d.get? k).or (find k l) := by
  induction l generalizing d with
  | nil => simp [find]
  | cons x rest ih =>
    rw [List.foldl_cons, ih, get?_insertNew]
    by_cases hk : k = x.1
    · subst hk
      cases d.get? x.1 <;> simp [find]
    · simp [find, hk]

theorem get?_ofListFirst (l : List (κ × α)) (k : κ) : (ofListFirst l).get? k = find k l := by
  rw [ofListFirst, get?_foldl_insertNew]
  rfl

theorem ofList_entries (d : Dict κ α) : ofList d.entries = d :=
  ext_get? fun k ↦ by rw [get?_ofList, find_reverse d.ordered, get?]

theorem mem_keys_ofList {l : List (κ × α)} {k : κ} : k ∈ (ofList l).keys ↔ k ∈ l.map (·.1) := by
  rw [mem_keys_iff, get?_ofList, ne_eq, find_eq_none_iff, Decidable.not_not]
  simp

end UpToDate.Dict
