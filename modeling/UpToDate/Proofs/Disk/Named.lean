import UpToDate.Proofs.Disk.Growth
import Mathlib.Logic.Function.Basic

namespace UpToDate.Disk

open UpToDate.Path (IsStep)

variable {d d' : Disk} {dir : Path} {q : Place} {s t : String} {o o' : Option Bytes} {b : Bytes}

section Reaching

/-- A path leads into the directory at a place. -/
def Leads (d : Disk) (dir : Path) (q : Place) : Prop :=
  ∃ n, Way d.node? linkLimit (startAt [] dir) (Path.stepsToName dir) (some q) n

theorem Leads.unique {r : Place} (h : d.Leads dir q) (h' : d.Leads dir r) : q = r := by
  obtain ⟨n, hn⟩ := h
  obtain ⟨m, hm⟩ := h'
  have he := (enter_of_way hn).symm.trans (enter_of_way hm)
  cases he
  rfl

theorem Leads.directory (h : d.Leads dir q) : d.node? q = some .directory := by
  obtain ⟨n, hn⟩ := h
  have hroot : d.node? [] = some .directory := rfl
  exact hn.directory (startAt_directory hroot dir) q rfl

theorem Leads.mono (h : d.Leads dir q)
    (hkeep : ∀ p n, (∀ b, n ≠ .file b) → d.node? p = some n → d'.node? p = some n) :
    d'.Leads dir q := by
  obtain ⟨n, hn⟩ := h
  exact ⟨n, hn.mono hkeep⟩

/-- A name in a directory leads to the directory at a place, if the system looks at the path. -/
structure Reaches (d : Disk) (dir : Path) (s : String) (q : Place) : Prop where
  leads : d.Leads dir q
  check : checkPath (Path.join dir s) = .ok ()
  size : s.utf8ByteSize ≤ Folder.nameLimit

theorem Reaches.mono (h : d.Reaches dir s q)
    (hkeep : ∀ p n, (∀ b, n ≠ .file b) → d.node? p = some n → d'.node? p = some n) :
    d'.Reaches dir s q :=
  ⟨h.leads.mono hkeep, h.check, h.size⟩

theorem Reaches.isName (hs : IsStep s) (h : d.Reaches dir s q) : Folder.isName s := by
  have hnul : '\x00' ∉ s.toList := by
    intro hmem
    have hjoin : '\x00' ∈ (Path.join dir s).toList := by
      rw [Path.toList_join hs]
      split
      · exact hmem
      · split <;> simp [hmem]
    have hcheck := h.check
    rw [checkPath, if_pos (by simpa using hjoin)] at hcheck
    cases hcheck
  have hsize := h.size
  simp [Folder.isName, hs.ne_empty, hs.ne_dot, hs.ne_up, hs.noSlash, hnul, hsize]

theorem locateName_join (hs : IsStep s) (d : Disk) (dir : Path) :
    d.locateName (Path.join dir s) = d.locate .name (Path.join dir s) := by
  rw [locateName_eq, locate_eq, Path.steps_join hs, Path.stepsToName_join hs]

theorem startAt_join (hs : IsStep s) (dir : Path) :
    startAt [] (Path.join dir s) = startAt [] dir := by
  rw [startAt, startAt, Path.isAbsolute_join hs]

theorem Reaches.locate (hs : IsStep s) (h : d.Reaches dir s q) {aim : Aim}
    (hlink : aim = .name ∨ ∀ target, d.node? (q ++ [s]) ≠ some (.link target)) :
    d.locate aim (Path.join dir s) = .ok (match d.node? (q ++ [s]) with
      | none => .free q s
      | some n => .found (q ++ [s]) n) := by
  obtain ⟨n, hn⟩ := h.leads
  rw [locate_eq, h.check, Path.steps_join hs, startAt_join hs]
  change route d.node? aim linkLimit (startAt [] dir) (Path.stepsToName dir ++ [s]) = _
  rw [route_concat hs, enter_of_way hn]
  exact route_name hs h.size n q hlink

theorem exists_reaches (hs : IsStep s) {aim : Aim} {spot : Spot}
    (h : d.locate aim (Path.join dir s) = .ok spot) : ∃ q, d.Reaches dir s q := by
  rw [locate_eq, Path.steps_join hs, startAt_join hs] at h
  cases hc : checkPath (Path.join dir s) with
  | error e => rw [hc] at h; cases h
  | ok u =>
    rw [hc] at h
    change route d.node? aim linkLimit (startAt [] dir) (Path.stepsToName dir ++ [s]) = _ at h
    rw [route_concat hs] at h
    cases hr : enter d.node? linkLimit (startAt [] dir) (Path.stepsToName dir) with
    | error e => rw [hr] at h; cases h
    | ok r =>
      rw [hr] at h
      obtain ⟨q, hq, hsize⟩ := exists_of_route_name hs h
      exact ⟨q, ⟨r.2, hq ▸ way_of_enter hr⟩, hc, hsize⟩

end Reaching

section Holding

def named? (d : Disk) (p : Path) : Option Node :=
  match d.locateName p with
  | .ok (.found _ n) => some n
  | _ => none

def Shows : Option Bytes → Option Node → Prop
  | some b, n => n = some (.file b)
  | none, n => n = none ∨ n = some .directory

/-- A path leads to a file of this content, or to neither a file nor a link, whichever directories
are made. -/
def Holds (d : Disk) (p : Path) (o : Option Bytes) : Prop :=
  ∀ d', d.Grows d' → Shows o (d'.named? p)

theorem Shows.ne_link {n : Option Node} (h : Shows o n) (target : Path) :
    n ≠ some (.link target) := by
  rintro rfl
  cases o with
  | none => rcases h with h | h <;> cases h
  | some b => cases h

theorem Shows.grows {p : Place} (h : Shows o (d.node? p)) (hg : d.Grows d') :
    Shows o (d'.node? p) := by
  cases o with
  | some b => exact hg.keeps h
  | none =>
    rcases hg p with he | ⟨-, hnew⟩
    · rw [he]
      exact h
    · exact .inr hnew

theorem Holds.shows {p : Path} (h : d.Holds p o) : Shows o (d.named? p) := h d (.refl d)

theorem Holds.grows {p : Path} (h : d.Holds p o) (hg : d.Grows d') : d'.Holds p o :=
  fun d'' hg' ↦ h d'' (hg.trans hg')

theorem Grows.keep (hg : d.Grows d') (p : Place) (n : Node) (_ : ∀ b, n ≠ .file b)
    (hp : d.node? p = some n) : d'.node? p = some n :=
  hg.keeps hp

theorem Reaches.named? (hs : IsStep s) (h : d.Reaches dir s q) :
    d.named? (Path.join dir s) = d.node? (q ++ [s]) := by
  rw [Disk.named?, locateName_join hs, h.locate hs (.inl rfl)]
  cases d.node? (q ++ [s]) <;> rfl

theorem exists_reaches_of_named (hs : IsStep s) {n : Node}
    (h : d.named? (Path.join dir s) = some n) : ∃ q, d.Reaches dir s q := by
  rw [Disk.named?, locateName_join hs] at h
  cases hl : d.locate .name (Path.join dir s) with
  | error e => rw [hl] at h; cases h
  | ok spot => exact exists_reaches hs hl

theorem Reaches.holds_iff (hs : IsStep s) (h : d.Reaches dir s q) :
    d.Holds (Path.join dir s) o ↔ Shows o (d.node? (q ++ [s])) := by
  constructor
  · intro hold
    rw [← h.named? hs]
    exact hold.shows
  · intro hshow d' hg
    rw [(h.mono hg.keep).named? hs]
    exact hshow.grows hg

end Holding

section Setting

/-- The second disk is the first one with this file, or none, under a name in a directory where
neither a directory nor a link stood. -/
def Sets (d : Disk) (dir : Path) (s : String) (o : Option Bytes) (d' : Disk) : Prop :=
  ∃ q, d.Reaches dir s q ∧ (∀ n, d.node? (q ++ [s]) = some n → ∃ b, n = .file b) ∧
    ∀ p, d'.node? p = if p = q ++ [s] then o.map .file else d.node? p

theorem keep_of_set (hfile : ∀ n, d.node? (q ++ [s]) = some n → ∃ b, n = .file b)
    (hset : ∀ p, d'.node? p = if p = q ++ [s] then o.map .file else d.node? p) (p : Place)
    (n : Node) (hn : ∀ b, n ≠ .file b) (hp : d.node? p = some n) : d'.node? p = some n := by
  have hne : p ≠ q ++ [s] := by
    rintro rfl
    obtain ⟨b, hb⟩ := hfile n hp
    exact hn b hb
  rw [hset, if_neg hne, hp]

theorem Sets.trans {d'' : Disk} (h : d.Sets dir s o d') (h' : d'.Sets dir s o' d'') :
    d.Sets dir s o' d'' := by
  obtain ⟨q, hq, hfile, hset⟩ := h
  obtain ⟨r, hr, -, hset'⟩ := h'
  obtain rfl : q = r := (hq.mono (keep_of_set hfile hset)).leads.unique hr.leads
  refine ⟨q, hq, hfile, fun p ↦ ?_⟩
  rw [hset', hset]
  split <;> rfl

theorem Sets.holds_self (hs : IsStep s) (h : d.Sets dir s o d') :
    d'.Holds (Path.join dir s) o := by
  obtain ⟨q, hq, hfile, hset⟩ := h
  have hq' : d'.Reaches dir s q := hq.mono (keep_of_set hfile hset)
  rw [hq'.holds_iff hs, hset, if_pos rfl]
  cases o with
  | none => exact .inl rfl
  | some b => rfl

theorem Sets.holds_other (ht : IsStep t) (hne : t ≠ s) (h : d.Sets dir s o d')
    (hold : d.Holds (Path.join dir t) o') : d'.Holds (Path.join dir t) o' := by
  obtain ⟨q, hq, hfile, hset⟩ := h
  intro d'' hg
  have hleads : d''.Leads dir q := (hq.leads.mono (keep_of_set hfile hset)).mono hg.keep
  by_cases hr : ∃ r, d''.Reaches dir t r
  · obtain ⟨r, hr⟩ := hr
    obtain rfl : q = r := hleads.unique hr.leads
    have hreach : d.Reaches dir t q := ⟨hq.leads, hr.check, hr.size⟩
    have hplace : q ++ [t] ≠ q ++ [s] := fun he ↦ hne (by simpa using he)
    have hshow : Shows o' (d'.node? (q ++ [t])) := by
      rw [hset, if_neg hplace]
      exact (hreach.holds_iff ht).1 hold
    rw [hr.named? ht]
    exact hshow.grows hg
  · have hnone : d''.named? (Path.join dir t) = none := by
      rw [Option.eq_none_iff_forall_ne_some]
      intro n hn
      exact hr (exists_reaches_of_named ht hn)
    rw [hnone]
    cases o' with
    | none => exact .inl rfl
    | some b =>
      obtain ⟨r, hreach⟩ := exists_reaches_of_named ht hold.shows
      obtain rfl : q = r := hq.leads.unique hreach.leads
      exact absurd ⟨q, hleads, hreach.check, hreach.size⟩ hr

end Setting

section Operations

theorem read_of_holds (hs : IsStep s) (h : d.Holds (Path.join dir s) (some b)) :
    d.read (Path.join dir s) = .ok b := by
  obtain ⟨q, hq⟩ := exists_reaches_of_named hs h.shows
  have hnode : d.node? (q ++ [s]) = some (.file b) := (hq.holds_iff hs).1 h
  rw [read, hq.locate hs (.inr (by simp [hnode])), hnode]
  rfl

theorem read_eq_error (hs : IsStep s) (h : d.Holds (Path.join dir s) none) :
    ∃ e, d.read (Path.join dir s) = .error e := by
  rw [read]
  cases hl : d.locate .content (Path.join dir s) with
  | error e => exact ⟨e, rfl⟩
  | ok spot =>
    obtain ⟨q, hq⟩ := exists_reaches hs hl
    have hshow := (hq.holds_iff hs).1 h
    rw [hq.locate hs (.inr hshow.ne_link)] at hl
    cases hl
    rcases hshow with hn | hn <;> rw [hn] <;> exact ⟨_, rfl⟩

theorem sets_write (hs : IsStep s)
    (hlink : ∀ q, d.Reaches dir s q → ∀ target, d.node? (q ++ [s]) ≠ some (.link target))
    (hw : d.write (Path.join dir s) b = .ok d') : d.Sets dir s (some b) d' := by
  rw [write] at hw
  cases hl : d.locate .file (Path.join dir s) with
  | error e => rw [hl] at hw; cases hw
  | ok spot =>
    obtain ⟨q, hq⟩ := exists_reaches hs hl
    have hdir := hq.leads.directory
    have hname := hq.isName hs
    rw [hq.locate hs (.inr (hlink q hq))] at hl
    cases hl
    rw [hq.locate hs (.inr (hlink q hq))] at hw
    cases hn : d.node? (q ++ [s]) with
    | none =>
      rw [hn] at hw
      cases hw
      exact ⟨q, hq, by simp [hn], node?_put hdir hname (by simp [hn]) _⟩
    | some n =>
      rw [hn] at hw
      cases n with
      | directory => cases hw
      | link target => cases hw
      | file a =>
        cases hw
        exact ⟨q, hq, by simp [hn], node?_replace hdir hname (by simp [hn]) _⟩

theorem Holds.ne_link (hs : IsStep s) (h : d.Holds (Path.join dir s) o) (hq : d.Reaches dir s q)
    (target : Path) : d.node? (q ++ [s]) ≠ some (.link target) :=
  ((hq.holds_iff hs).1 h).ne_link target

theorem exists_append {a : Bytes} (hs : IsStep s) (h : d.Holds (Path.join dir s) (some a))
    (b : Bytes) :
    ∃ d', d.append (Path.join dir s) b = .ok d' ∧ d.Sets dir s (some (a ++ b)) d' := by
  obtain ⟨q, hq⟩ := exists_reaches_of_named hs h.shows
  have hnode : d.node? (q ++ [s]) = some (.file a) := (hq.holds_iff hs).1 h
  refine ⟨d.replace (q ++ [s]) (.file (a ++ b)), ?_, q, hq, by simp [hnode], ?_⟩
  · rw [append, hq.locate hs (.inr (by simp [hnode])), hnode]
    rfl
  · exact node?_replace hq.leads.directory (hq.isName hs) (by simp [hnode]) _

theorem exists_removeFile (hs : IsStep s) (h : d.Holds (Path.join dir s) (some b)) :
    ∃ d', d.removeFile (Path.join dir s) = .ok d' ∧ d.Sets dir s none d' := by
  obtain ⟨q, hq⟩ := exists_reaches_of_named hs h.shows
  have hnode : d.node? (q ++ [s]) = some (.file b) := (hq.holds_iff hs).1 h
  refine ⟨d.prune (q ++ [s]), ?_, q, hq, by simp [hnode], ?_⟩
  · rw [removeFile, locateName_join hs, hq.locate hs (.inl rfl), hnode]
    change (if Path.asksDirectory (Path.join dir s) = true then _ else _) = _
    rw [Path.not_asksDirectory_join hs]
    rfl
  · exact node?_prune hq.leads.directory (by simp [hnode])

theorem removeFile_eq_error (hs : IsStep s) (h : d.Holds (Path.join dir s) none) :
    ∃ e, d.removeFile (Path.join dir s) = .error e := by
  rw [removeFile, locateName_join hs]
  cases hl : d.locate .name (Path.join dir s) with
  | error e => exact ⟨e, rfl⟩
  | ok spot =>
    obtain ⟨q, hq⟩ := exists_reaches hs hl
    have hshow := (hq.holds_iff hs).1 h
    rw [hq.locate hs (.inl rfl)] at hl
    cases hl
    rcases hshow with hn | hn <;> rw [hn] <;> exact ⟨_, rfl⟩

theorem node?_rename (hs : IsStep s) (ht : IsStep t) (hne : t ≠ s) (hq : d.Reaches dir s q)
    (hnode : d.node? (q ++ [s]) = some (.file b))
    (hr : d.rename (Path.join dir s) (Path.join dir t) = .ok d') :
    d.Reaches dir t q ∧ d.node? (q ++ [t]) ≠ some .directory ∧
      ∀ p, d'.node? p = if p = q ++ [t] then some (.file b)
        else if p = q ++ [s] then none else d.node? p := by
  have hset := node?_prune hq.leads.directory (s := s) (by simp [hnode])
  have hkeep := keep_of_set (o := none) (by simp [hnode]) hset
  rw [rename, locateName_join hs, hq.locate hs (.inl rfl), hnode] at hr
  change (d.locateName (Path.join dir t) >>= _) = _ at hr
  rw [locateName_join ht] at hr
  cases hl : d.locate .name (Path.join dir t) with
  | error e => rw [hl] at hr; cases hr
  | ok spot =>
    obtain ⟨r, ht'⟩ := exists_reaches ht hl
    obtain rfl : q = r := hq.leads.unique ht'.leads
    have hplace : q ++ [t] ≠ q ++ [s] := fun he ↦ hne (by simpa using he)
    have hdir := (ht'.mono hkeep).leads.directory
    have hname := ht'.isName ht
    have hsame : (d.prune (q ++ [s])).node? (q ++ [t]) = d.node? (q ++ [t]) := by
      rw [hset, if_neg hplace]
    rw [ht'.locate ht (.inl rfl)] at hr
    refine ⟨ht', ?_, fun p ↦ ?_⟩
    · intro hn
      rw [hn] at hr
      cases hr
    · rw [← hset]
      cases hn : d.node? (q ++ [t]) with
      | none =>
        rw [hn] at hr hsame
        cases hr
        exact node?_put hdir hname (by simp [hsame]) _ p
      | some n =>
        rw [hn] at hr hsame
        cases n with
        | directory => cases hr
        | link target =>
          cases hr
          exact node?_replace hdir hname (by simp [hsame]) _ p
        | file a =>
          cases hr
          exact node?_replace hdir hname (by simp [hsame]) _ p

theorem sets_rename (hs : IsStep s) (ht : IsStep t) (hne : t ≠ s)
    (h : d.Holds (Path.join dir s) (some b)) (h' : d.Holds (Path.join dir t) o)
    (hr : d.rename (Path.join dir s) (Path.join dir t) = .ok d') :
    ∃ d₁, d.Sets dir s none d₁ ∧ d₁.Sets dir t (some b) d' := by
  obtain ⟨q, hq⟩ := exists_reaches_of_named hs h.shows
  have hnode : d.node? (q ++ [s]) = some (.file b) := (hq.holds_iff hs).1 h
  have hset := node?_prune hq.leads.directory (s := s) (by simp [hnode])
  have hgone : d.Sets dir s none (d.prune (q ++ [s])) := ⟨q, hq, by simp [hnode], hset⟩
  obtain ⟨ht', hdir, hmoved⟩ := node?_rename hs ht hne hq hnode hr
  have hshow := (ht'.holds_iff ht).1 h'
  have hplace : q ++ [t] ≠ q ++ [s] := fun he ↦ hne (by simpa using he)
  refine ⟨d.prune (q ++ [s]), hgone, q, ht'.mono (keep_of_set (o := none) (by simp [hnode]) hset),
    ?_, fun p ↦ ?_⟩
  · intro n hn
    rw [hset, if_neg hplace] at hn
    cases n with
    | directory => exact absurd hn hdir
    | link target => exact absurd hn (hshow.ne_link target)
    | file a => exact ⟨a, rfl⟩
  · rw [hmoved, hset]
    rfl

end Operations

section Containing

variable {names : String → Prop} {m : String → Option Bytes}

def Contains (d : Disk) (dir : Path) (names : String → Prop) (m : String → Option Bytes) : Prop :=
  ∀ s, names s → d.Holds (Path.join dir s) (m s)

theorem Contains.grows (h : d.Contains dir names m) (hg : d.Grows d') :
    d'.Contains dir names m :=
  fun s hs ↦ (h s hs).grows hg

theorem Contains.sets (hnames : ∀ s, names s → IsStep s) (h : d.Contains dir names m)
    (hs : IsStep s) (hset : d.Sets dir s o d') :
    d'.Contains dir names (Function.update m s o) := by
  intro t ht
  by_cases hts : t = s
  · subst hts
    rw [Function.update_self]
    exact hset.holds_self hs
  · rw [Function.update_of_ne hts]
    exact hset.holds_other (hnames t ht) hts (h t ht)

end Containing

section Vacancy

/-- Neither a file nor a link stands in a directory, nor will one when missing directories are
made. -/
def Vacant (d : Disk) (dir : Path) : Prop := ∀ s, IsStep s → d.Holds (Path.join dir s) none

theorem vacant_of_places
    (h : ∀ d' q, d.Grows d' → d'.Leads dir q → ∀ s, d.node? (q ++ [s]) = none) : d.Vacant dir := by
  intro s hs d' hg
  cases hn : d'.named? (Path.join dir s) with
  | none => exact .inl rfl
  | some n =>
    obtain ⟨q, hq⟩ := exists_reaches_of_named hs hn
    have hfree : Shows none (d.node? (q ++ [s])) := .inl (h d' q hg hq.leads s)
    rw [← hn, hq.named? hs]
    exact hfree.grows hg

theorem vacant_of_missing (hdir : ".." ∉ Path.stepsToName dir)
    (hlinks : ∀ p target, d.node? p = some (.link target) → ".." ∉ Path.steps target)
    (h : ∀ q, ¬d.Leads dir q) : d.Vacant dir := by
  apply vacant_of_places
  intro d' q hg ⟨m, hm⟩ s
  rcases hg.way_old_or_new hlinks hm hdir with hold | ⟨p, hp, hnew⟩
  · exact absurd ⟨m, hold⟩ (h q)
  · cases hp
    rw [Option.eq_none_iff_forall_ne_some]
    intro n hn
    rw [(parent_of_node? hn).1] at hnew
    cases hnew

end Vacancy

end UpToDate.Disk
