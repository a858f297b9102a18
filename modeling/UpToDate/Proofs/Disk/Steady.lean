import Mathlib.Logic.Function.Iterate
import UpToDate.Proofs.Disk.Making

namespace UpToDate.Disk

open UpToDate.Path (IsStep)

variable {d d' : Disk} {dir : Path} {q : Place} {s t : String} {o : Option Bytes} {b : Bytes}
  {names : String → Prop} {m : String → Option Bytes}

section Names

def afterMaking (dir : Path) (d : Disk) : Disk := (d.makeDirectories dir).2

theorem grows_afterMaking (dir : Path) (n : Nat) (d : Disk) :
    d.Grows ((afterMaking dir)^[n] d) := by
  induction n generalizing d with
  | zero => exact .refl d
  | succ n ih => exact (grows_makeDirectories d dir).trans (ih _)

/-- Under a name in a directory stands a file of this content, or neither a file nor a link, however
often the directory is made. -/
def Steady (d : Disk) (dir : Path) (s : String) (o : Option Bytes) : Prop :=
  ∀ n, Shows o (((afterMaking dir)^[n] d).named? (Path.join dir s))

theorem Steady.shows (h : d.Steady dir s o) : Shows o (d.named? (Path.join dir s)) := h 0

theorem Steady.makeDirectories (h : d.Steady dir s o) :
    (d.makeDirectories dir).2.Steady dir s o :=
  fun n ↦ h (n + 1)

theorem Holds.steady (h : d.Holds (Path.join dir s) o) : d.Steady dir s o :=
  fun n ↦ h _ (grows_afterMaking dir n d)

theorem named?_eq_none (hs : IsStep s) (h : ∀ q, ¬d.Reaches dir s q) :
    d.named? (Path.join dir s) = none := by
  rw [Option.eq_none_iff_forall_ne_some]
  intro n hn
  obtain ⟨q, hq⟩ := exists_reaches_of_named hs hn
  exact h q hq

theorem Leads.holds (hq : d.Leads dir q) (hs : IsStep s) (h : d.Steady dir s o) :
    d.Holds (Path.join dir s) o := by
  by_cases hr : d.Reaches dir s q
  · rw [hr.holds_iff hs, ← hr.named? hs]
    exact h.shows
  -- no path leads to the name, before or after
  · have hnone {d' : Disk} (hg : d.Grows d') : d'.named? (Path.join dir s) = none :=
      named?_eq_none hs fun r hreach ↦ hr ⟨hq, hreach.check, hreach.size⟩
    have hshow := h.shows
    rw [hnone (.refl d)] at hshow
    intro d' hg
    rw [hnone hg]
    exact hshow

theorem Steady.holds (hs : IsStep s) (h : d.Steady dir s (some b)) :
    d.Holds (Path.join dir s) (some b) := by
  obtain ⟨q, hq⟩ := exists_reaches_of_named hs h.shows
  exact hq.leads.holds hs h

theorem Steady.ne_link (hs : IsStep s) (h : d.Steady dir s o) (hq : d.Reaches dir s q)
    (target : Path) : d.node? (q ++ [s]) ≠ some (.link target) := by
  rw [← hq.named? hs]
  exact h.shows.ne_link target

theorem Steady.unique {o' : Option Bytes} (h : d.Steady dir s o) (h' : d.Steady dir s o') :
    o = o' := by
  have hshow := h.shows
  have hshow' := h'.shows
  generalize d.named? (Path.join dir s) = n at hshow hshow'
  cases o with
  | none =>
    cases o' with
    | none => rfl
    | some b => rcases hshow with rfl | rfl <;> cases hshow'
  | some b =>
    cases hshow
    cases o' with
    | none => rcases hshow' with hn | hn <;> cases hn
    | some b' => cases hshow'; rfl

theorem exists_shows {n : Option Node} (h : ∀ target, n ≠ some (.link target)) :
    ∃ o, Shows o n := by
  cases n with
  | none => exact ⟨none, .inl rfl⟩
  | some n =>
    cases n with
    | file b => exact ⟨some b, rfl⟩
    | directory => exact ⟨none, .inr rfl⟩
    | link target => exact absurd rfl (h target)

theorem Direct.steady (h : d.Direct dir) (hshow : Shows o (d.named? (Path.join dir s)))
    (hmade : Shows o ((d.makeDirectories dir).2.named? (Path.join dir s))) : d.Steady dir s o := by
  intro n
  cases n with
  | zero => exact hshow
  | succ n =>
    have hagain : afterMaking dir (afterMaking dir d) = afterMaking dir d := by
      rw [afterMaking, afterMaking, h.makeDirectories_again]
    rw [Function.iterate_succ_apply, Function.iterate_fixed hagain]
    exact hmade

/-- A name is steady if its directory is there or the path to it has no step back, and no link
stands under the name. -/
theorem Direct.exists_steady (h : d.Direct dir) (hs : IsStep s)
    (hlink : ∀ q, d.Leads dir q → ∀ target, d.node? (q ++ [s]) ≠ some (.link target)) :
    ∃ o, d.Steady dir s o := by
  by_cases hd : ∃ q, d.Leads dir q
  · obtain ⟨q, hq⟩ := hd
    obtain ⟨o, ho⟩ : ∃ o, Shows o (d.named? (Path.join dir s)) := by
      refine exists_shows fun target hn ↦ ?_
      obtain ⟨r, hr⟩ := exists_reaches_of_named hs hn
      rw [hr.named? hs] at hn
      exact hlink r hr.leads target hn
    refine ⟨o, h.steady ho ?_⟩
    rwa [hq.makeDirectories]
  -- the directory is new, if it can be made, and nothing stands in it
  · have hnone : (d.makeDirectories dir).2.named? (Path.join dir s) = none := by
      rw [Option.eq_none_iff_forall_ne_some]
      intro n hn
      obtain ⟨q, hq⟩ := exists_reaches_of_named hs hn
      rcases h.eq_or_new hq.leads.enters with he | ⟨r, hr, -, hbelow⟩
      · exact hd ⟨q, he ▸ hq.leads⟩
      · obtain rfl := hq.leads.unique hr
        rw [hq.named? hs, hbelow] at hn
        cases hn
    refine ⟨none, h.steady (.inl ?_) (.inl hnone)⟩
    exact named?_eq_none hs fun q hq ↦ hd ⟨q, hq.leads⟩

end Names

section Carrying

/-- What stands under some names in a directory, however often the directory is made. -/
def Carries (d : Disk) (dir : Path) (names : String → Prop) (m : String → Option Bytes) : Prop :=
  ∀ s, names s → d.Steady dir s (m s)

variable (hnames : ∀ s, names s → IsStep s) (h : d.Carries dir names m)

section Making

include h

theorem Carries.makeDirectories : (d.makeDirectories dir).2.Carries dir names m :=
  fun s hs ↦ (h s hs).makeDirectories

end Making

def Settled (d : Disk) (dir : Path) (s : String) : Prop := IsStep s ∧ ∃ o, d.Steady dir s o

theorem exists_carries (d : Disk) (dir : Path) : ∃ m, d.Carries dir (d.Settled dir) m := by
  have hexists : ∀ s, ∃ o, d.Settled dir s → d.Steady dir s o := by
    intro s
    by_cases hs : d.Settled dir s
    · exact hs.2.imp fun _ ho _ ↦ ho
    · exact ⟨none, fun h ↦ absurd h hs⟩
  choose m hm using hexists
  exact ⟨m, hm⟩

theorem Contains.carries (h : d.Contains dir names m) : d.Carries dir names m :=
  fun s hs ↦ (h s hs).steady

include hnames h

theorem Carries.contains (hq : d.Leads dir q) : d.Contains dir names m :=
  fun s hs ↦ hq.holds (hnames s hs) (h s hs)

theorem Carries.sets (hs : IsStep s) (hset : d.Sets dir s o d') :
    d'.Carries dir names (Function.update m s o) := by
  have hreaches := hset
  obtain ⟨q, hq, -⟩ := hreaches
  exact ((h.contains hnames hq.leads).sets hnames hs hset).carries

theorem Carries.write (hs : names s) (hw : d.write (Path.join dir s) b = .ok d') :
    d'.Carries dir names (Function.update m s (some b)) :=
  h.sets hnames (hnames s hs)
    (sets_write (hnames s hs) (fun _ ↦ (h s hs).ne_link (hnames s hs)) hw)

theorem Carries.append (hs : names s) {a : Bytes} (hm : m s = some a) (b : Bytes) :
    ∃ d', d.append (Path.join dir s) b = .ok d' ∧
      d'.Carries dir names (Function.update m s (some (a ++ b))) := by
  have hold := h s hs
  rw [hm] at hold
  obtain ⟨d', hd, hset⟩ := exists_append (hnames s hs) (hold.holds (hnames s hs)) b
  exact ⟨d', hd, h.sets hnames (hnames s hs) hset⟩

theorem Carries.removeFile (hs : names s) (hm : m s = some b) :
    ∃ d', d.removeFile (Path.join dir s) = .ok d' ∧
      d'.Carries dir names (Function.update m s none) := by
  have hold := h s hs
  rw [hm] at hold
  obtain ⟨d', hd, hset⟩ := exists_removeFile (hnames s hs) (hold.holds (hnames s hs))
  exact ⟨d', hd, h.sets hnames (hnames s hs) hset⟩

theorem Carries.rename (hs : names s) (ht : names t) (hne : t ≠ s) (hm : m s = some b)
    (hr : d.rename (Path.join dir s) (Path.join dir t) = .ok d') :
    d'.Carries dir names (Function.update (Function.update m s none) t (some b)) := by
  have hold := h s hs
  rw [hm] at hold
  obtain ⟨q, hq⟩ := exists_reaches_of_named (hnames s hs) hold.shows
  obtain ⟨d₁, hgone, hset⟩ := sets_rename (hnames s hs) (hnames t ht) hne
    (hq.leads.holds (hnames s hs) hold) (hq.leads.holds (hnames t ht) (h t ht)) hr
  exact (h.sets hnames (hnames s hs) hgone).sets hnames (hnames t ht) hset

theorem Carries.read (hs : names s) : (d.read (Path.join dir s)).toOption = m s := by
  have hold := h s hs
  cases hm : m s with
  | some b =>
    rw [hm] at hold
    rw [read_of_holds (hnames s hs) (hold.holds (hnames s hs))]
    rfl
  | none =>
    rw [hm] at hold
    by_cases hd : ∃ q, d.Leads dir q
    · obtain ⟨q, hq⟩ := hd
      obtain ⟨e, he⟩ := read_eq_error (hnames s hs) (hq.holds (hnames s hs) hold)
      rw [he]
      rfl
    · rw [Disk.read]
      cases hl : d.locate .content (Path.join dir s) with
      | error e => rfl
      | ok spot =>
        obtain ⟨q, hq⟩ := exists_reaches (hnames s hs) hl
        exact absurd ⟨q, hq.leads⟩ hd

end Carrying

end UpToDate.Disk
