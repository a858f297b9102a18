namespace UpToDate

/-- Keys that `<` puts into one line. -/
class LinearKey (κ : Type) [LT κ] : Prop where
  lt_irrefl (a : κ) : ¬a < a
  lt_trans {a b c : κ} : a < b → b < c → a < c
  eq_of_not_lt {a b : κ} : ¬a < b → ¬b < a → a = b

instance : LinearKey String :=
  ⟨fun _ ↦ Std.lt_irrefl, Std.lt_trans,
    fun h h' ↦ Std.le_antisymm (Std.not_lt.1 h') (Std.not_lt.1 h)⟩

/-- A finite map, as the list of its entries in strictly increasing key order. -/
structure Dict (κ α : Type) [LT κ] where
  entries : List (κ × α)
  ordered : entries.Pairwise (fun a b ↦ a.1 < b.1)
  deriving DecidableEq

namespace Dict

variable {κ α β : Type} [LT κ]

instance : Inhabited (Dict κ α) := ⟨⟨[], .nil⟩⟩

def empty : Dict κ α := ⟨[], .nil⟩

instance : EmptyCollection (Dict κ α) := ⟨empty⟩

def keys (d : Dict κ α) : List κ := d.entries.map (·.1)

def values (d : Dict κ α) : List α := d.entries.map (·.2)

def size (d : Dict κ α) : Nat := d.entries.length

def isEmpty (d : Dict κ α) : Bool := d.entries.isEmpty

def find [DecidableEq κ] (k : κ) : List (κ × α) → Option α
  | [] => none
  | (j, a) :: rest => if k = j then some a else find k rest

def get? [DecidableEq κ] (d : Dict κ α) (k : κ) : Option α := find k d.entries

def contains [DecidableEq κ] (d : Dict κ α) (k : κ) : Bool := (d.get? k).isSome

/-- Entries in key order, with the entry for `k` put in or replaced. -/
def place [DecidableLT κ] (k : κ) (a : α) : List (κ × α) → List (κ × α)
  | [] => [(k, a)]
  | (j, b) :: rest =>
    if k < j then (k, a) :: (j, b) :: rest
    else if j < k then (j, b) :: place k a rest
    else (k, a) :: rest

theorem mem_place [DecidableLT κ] {k : κ} {a : α} {l : List (κ × α)} {e : κ × α}
    (h : e ∈ place k a l) : e = (k, a) ∨ e ∈ l := by
  induction l with
  | nil => simpa [place] using h
  | cons x rest ih =>
    obtain ⟨j, b⟩ := x
    simp only [place] at h
    split at h
    · simpa using h
    · split at h
      · rcases List.mem_cons.1 h with h | h
        · exact .inr (h ▸ List.mem_cons_self)
        · exact (ih h).imp_right (List.mem_cons_of_mem _)
      · rcases List.mem_cons.1 h with h | h
        · exact .inl h
        · exact .inr (List.mem_cons_of_mem _ h)

def filter (p : κ → α → Bool) (d : Dict κ α) : Dict κ α :=
  ⟨d.entries.filter fun e ↦ p e.1 e.2, d.ordered.filter _⟩

def erase [DecidableEq κ] (d : Dict κ α) (k : κ) : Dict κ α := d.filter fun j _ ↦ j ≠ k

def map (f : κ → α → β) (d : Dict κ α) : Dict κ β :=
  ⟨d.entries.map fun e ↦ (e.1, f e.1 e.2), List.pairwise_map.2 d.ordered⟩

theorem keys_map (f : κ → α → β) (d : Dict κ α) : (d.map f).keys = d.keys := by
  simp [keys, map]

variable [LinearKey κ]

theorem place_ordered [DecidableLT κ] (k : κ) (a : α) {l : List (κ × α)}
    (h : l.Pairwise (fun a b ↦ a.1 < b.1)) :
    (place k a l).Pairwise (fun a b ↦ a.1 < b.1) := by
  induction l with
  | nil => simp [place]
  | cons x rest ih =>
    obtain ⟨j, b⟩ := x
    obtain ⟨hj, hr⟩ := List.pairwise_cons.1 h
    simp only [place]
    split
    · next hk =>
      refine List.pairwise_cons.2 ⟨fun e he ↦ ?_, h⟩
      rcases List.mem_cons.1 he with rfl | he
      · exact hk
      · exact LinearKey.lt_trans hk (hj e he)
    · next hk =>
      split
      · next hj' =>
        refine List.pairwise_cons.2 ⟨fun e he ↦ ?_, ih hr⟩
        rcases mem_place he with rfl | he
        · exact hj'
        · exact hj e he
      · next hj' =>
        refine List.pairwise_cons.2 ⟨fun e he ↦ ?_, hr⟩
        exact LinearKey.eq_of_not_lt hk hj' ▸ hj e he

theorem find_eq_none_of_lt [DecidableEq κ] {k : κ} {l : List (κ × α)} (h : ∀ e ∈ l, k < e.1) :
    find k l = none := by
  induction l with
  | nil => rfl
  | cons x rest ih =>
    obtain ⟨j, b⟩ := x
    have hj : k ≠ j := fun e ↦ LinearKey.lt_irrefl k (e ▸ h (j, b) List.mem_cons_self : k < k)
    simp [find, hj, ih fun e he ↦ h e (List.mem_cons_of_mem _ he)]

section Insert

variable [DecidableLT κ]

def insert (d : Dict κ α) (k : κ) (a : α) : Dict κ α :=
  ⟨place k a d.entries, place_ordered k a d.ordered⟩

/-- The map with `k` bound to `a`, unless it is bound already. -/
def insertNew [DecidableEq κ] (d : Dict κ α) (k : κ) (a : α) : Dict κ α :=
  if d.contains k then d else d.insert k a

/-- Later bindings of a key replace earlier ones. -/
def ofList (l : List (κ × α)) : Dict κ α := l.foldl (fun d e ↦ d.insert e.1 e.2) empty

def ofListFirst [DecidableEq κ] (l : List (κ × α)) : Dict κ α :=
  l.foldl (fun d e ↦ d.insertNew e.1 e.2) empty

theorem find_place [DecidableEq κ] (k j : κ) (a : α) (l : List (κ × α)) :
    find j (place k a l) = if j = k then some a else find j l := by
  induction l with
  | nil => rfl
  | cons x rest ih =>
    obtain ⟨i, b⟩ := x
    simp only [place]
    split
    · simp [find]
    · next hk =>
      split
      · next hi =>
        have hne : i ≠ k := fun h ↦ LinearKey.lt_irrefl k (h ▸ hi)
        by_cases h : j = k
        · subst h
          simp [find, ih, Ne.symm hne]
        · simp [find, ih, h]
      · next hi =>
        have := LinearKey.eq_of_not_lt hk hi
        by_cases h : j = k <;> simp [find, h, ← this]

@[simp] theorem get?_insert [DecidableEq κ] (d : Dict κ α) (k j : κ) (a : α) :
    (d.insert k a).get? j = if j = k then some a else d.get? j :=
  find_place k j a d.entries

theorem get?_insertNew [DecidableEq κ] (d : Dict κ α) (k j : κ) (a : α) :
    (d.insertNew k a).get? j = if j = k then some ((d.get? k).getD a) else d.get? j := by
  unfold insertNew contains
  cases h : d.get? k with
  | none => simp
  | some b => by_cases hj : j = k <;> simp [hj, h]

end Insert

end Dict

end UpToDate
