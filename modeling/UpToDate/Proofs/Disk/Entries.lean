import UpToDate.Proofs.Disk.Confined

namespace UpToDate.Disk

open UpToDate.Path (IsStep)

variable {d d' t t' : Disk} {dir : Path} {q : Place} {s u : String} {names : String → Prop}
  {b : Bytes} {o : Option Bytes}

section Places

/-- The places of some names in a directory, once that is made. -/
def Named (d : Disk) (dir : Path) (names : String → Prop) (p : Place) : Prop :=
  ∃ q s, d.Home dir q ∧ names s ∧ p = q ++ [s]

/-- What a path into a directory and some names there lead over. -/
def Around (d : Disk) (dir : Path) (names : String → Prop) (p : Place) : Prop :=
  d.OnTheWay dir p ∨ d.Named dir names p

def Entry (d : Disk) (dir : Path) (names : String → Prop) (p : Place) : Prop :=
  d.Named dir names p ∧ ¬d.OnTheWay dir p

/-- No link stands under some names in a directory. -/
def Unlinked (d : Disk) (dir : Path) (names : String → Prop) : Prop :=
  ∀ p, d.Named dir names p → ∀ target, d.node? p ≠ some (.link target)

theorem Entry.around {p : Place} (h : d.Entry dir names p) : d.Around dir names p := .inr h.1

theorem Leads.named (hq : d.Leads dir q) (hs : names s) : d.Named dir names (q ++ [s]) :=
  ⟨q, s, hq.home, hs, rfl⟩

theorem Leads.entry (hq : d.Leads dir q) (hs : names s) (hdir : d.node? (q ++ [s]) ≠ some .directory)
    (hlink : ∀ target, d.node? (q ++ [s]) ≠ some (.link target)) :
    d.Entry dir names (q ++ [s]) := by
  refine ⟨hq.named hs, fun hway ↦ ?_⟩
  obtain ⟨m, hm⟩ := hq
  rcases hm.solid hway with hn | ⟨target, hn⟩
  · exact hdir hn
  · exact hlink target hn

theorem named_eq (h : ∀ p, d.OnTheWay dir p → t.ahead p = d.ahead p) :
    t.Named dir names = d.Named dir names := by
  funext p
  rw [Named, home_eq h]
  rfl

theorem around_eq (h : ∀ p, d.OnTheWay dir p → t.ahead p = d.ahead p) :
    t.Around dir names = d.Around dir names := by
  funext p
  rw [Around, onTheWay_eq h, named_eq h]
  rfl

theorem entry_eq (h : ∀ p, d.OnTheWay dir p → t.ahead p = d.ahead p) :
    t.Entry dir names = d.Entry dir names := by
  funext p
  rw [Entry, onTheWay_eq h, named_eq h]
  rfl

theorem Grows.unlinked (h : d.Grows d') (hlink : d.Unlinked dir names) :
    d'.Unlinked dir names := by
  have hnamed : d'.Named dir names = d.Named dir names :=
    named_eq fun p _ ↦ by rw [h.ahead_eq]
  intro p hp target hn
  rw [hnamed] at hp
  exact hlink p hp target ((h.growsAt p).link_iff.1 hn)

end Places

section Agreeing

variable (hs : IsStep s) (hnames : names s)
  (h : ∀ p, d.Around dir names p → t.node? p = d.node? p)
include hs hnames h

theorem locate_eq_of_around (hlink : d.Unlinked dir names) (aim : Aim) :
    t.locate aim (Path.join dir s) = d.locate aim (Path.join dir s) := by
  refine locate_congr (fun p hp ↦ h p (.inl hp)) hs (fun q hq ↦ ?_) (fun q hq ↦ ?_) aim
  · exact hlink _ ⟨q, s, hq, hnames, rfl⟩
  · exact h _ (.inr ⟨q, s, hq, hnames, rfl⟩)

omit hs hnames in
theorem Reaches.congr {s : String} (hq : d.Reaches dir s q) : t.Reaches dir s q :=
  ⟨hq.leads.congr fun p hp ↦ h p (.inl hp), hq.check, hq.size⟩

theorem holds_of_around (hold : d.Holds (Path.join dir s) (some b)) :
    t.Holds (Path.join dir s) (some b) := by
  obtain ⟨q, hq⟩ := exists_reaches_of_named hs hold.shows
  have hnode : d.node? (q ++ [s]) = some (.file b) := (hq.holds_iff hs).1 hold
  rw [(hq.congr h).holds_iff hs, h _ (.inr (hq.leads.named hnames))]
  exact hnode

end Agreeing

section Changes

theorem alike_of_eq {changed : Place → Prop} (g : Place → Option Node → Option Node)
    (hg : ∀ p n, ¬changed p → g p n = n) (hd : ∀ p, d'.node? p = g p (d.node? p))
    (ht : ∀ p, t'.node? p = g p (t.node? p)) (h : ∀ p, changed p → t.node? p = d.node? p) :
    Alike changed d d' t t' := by
  refine ⟨fun p hp ↦ ?_, fun p hp ↦ ?_⟩
  · rw [ht, hd, h p hp]
  · rw [ht, hd, hg p _ hp, hg p _ hp]
    exact ⟨rfl, rfl⟩

theorem Sets.alike (hnames : names s) (h : ∀ p, d.Around dir names p → t.node? p = d.node? p)
    (hd : d.Sets dir s o d') (ht : t.Sets dir s o t') : Alike (d.Entry dir names) d d' t t' := by
  obtain ⟨q, hq, hfile, hset⟩ := hd
  obtain ⟨r, hr, -, hset'⟩ := ht
  obtain rfl : q = r := (hq.congr h).leads.unique hr.leads
  have hentry : d.Entry dir names (q ++ [s]) := by
    refine hq.leads.entry hnames (fun hn ↦ ?_) fun target hn ↦ ?_
    · obtain ⟨b, hb⟩ := hfile _ hn
      cases hb
    · obtain ⟨b, hb⟩ := hfile _ hn
      cases hb
  refine alike_of_eq (fun p n ↦ if p = q ++ [s] then o.map .file else n) (fun p n hp ↦ ?_) hset hset'
    fun p hp ↦ h p (.inr hp.1)
  rw [if_neg]
  rintro rfl
  exact hp hentry

theorem Sets.unlinked (h : d.Sets dir s (some b) d') (hlink : d.Unlinked dir names)
    (hnamed : d'.Named dir names = d.Named dir names) : d'.Unlinked dir names := by
  intro p hp target hn
  rw [hnamed] at hp
  obtain ⟨q, -, -, hset⟩ := h
  rw [hset] at hn
  split at hn
  · cases hn
  · exact hlink p hp target hn

theorem Confined.ahead_eq {α : Type} {seen : Place → Prop} {f : Disk → α × Disk} {p : Place}
    (h : Confined seen (d.Entry dir names) f d) (hp : d.OnTheWay dir p) :
    (f d).2.ahead p = d.ahead p := by
  rw [ahead, ahead, h.node?_eq fun he ↦ he.2 hp]

end Changes

section Operations

def tried (f : Disk → Except Fault Disk) (d : Disk) : Except Fault Unit × Disk :=
  match f d with
  | .ok d => (.ok (), d)
  | .error e => (.error e, d)

theorem confined_tried {seen changed : Place → Prop} {f : Disk → Except Fault Disk}
    (h : ∀ t : Disk, (∀ p, seen p → t.node? p = d.node? p) →
      (∃ e, f t = .error e ∧ f d = .error e) ∨
      ∃ t' d', f t = .ok t' ∧ f d = .ok d' ∧ Alike changed d d' t t')
    (hsub : ∀ p, changed p → seen p) : Confined seen changed (tried f) d := by
  intro t ht
  rcases h t ht with ⟨e, het, hed⟩ | ⟨t', d', hokt, hokd, halike⟩
  · rw [tried, tried, het, hed]
    exact ⟨rfl, alike_of_agree fun p hp ↦ ht p (hsub p hp)⟩
  · rw [tried, tried, hokt, hokd]
    exact ⟨rfl, halike⟩

theorem cases_of_map_eq {α : Type} {x y : Except Fault α}
    (h : x.map (fun _ ↦ ()) = y.map fun _ ↦ ()) :
    (∃ e, x = .error e ∧ y = .error e) ∨ ∃ a b, x = .ok a ∧ y = .ok b := by
  cases x with
  | error e =>
    cases y with
    | error e' =>
      cases h
      exact .inl ⟨e, rfl, rfl⟩
    | ok b => cases h
  | ok a =>
    cases y with
    | error e => cases h
    | ok b => exact .inr ⟨a, b, rfl, rfl⟩

variable (hs : IsStep s) (hnames : names s)
include hs hnames

theorem confined_write (hlink : d.Unlinked dir names) (b : Bytes) :
    Confined (d.Around dir names) (d.Entry dir names)
      (tried (·.write (Path.join dir s) b)) d := by
  refine confined_tried (fun t ht ↦ ?_) fun p hp ↦ hp.around
  have hlocate := locate_eq_of_around hs hnames ht hlink .file
  have hanswer : (t.write (Path.join dir s) b).map (fun _ ↦ ()) =
      (d.write (Path.join dir s) b).map fun _ ↦ () := by
    rw [write, write, hlocate]
    cases d.locate .file (Path.join dir s) with
    | error e => rfl
    | ok spot =>
      cases spot with
      | found q n => cases n <;> rfl
      | free q s => rfl
      | root => rfl
  refine (cases_of_map_eq hanswer).imp_right ?_
  rintro ⟨t', d', ht', hd'⟩
  refine ⟨t', d', ht', hd', Sets.alike hnames ht (sets_write hs ?_ hd') (sets_write hs ?_ ht')⟩
  · exact fun q hq ↦ hlink _ (hq.leads.named hnames)
  · -- what is written is found under the same name on both disks
    intro q hq target hn
    obtain ⟨r, hr, -⟩ := sets_write hs
      (fun q hq ↦ hlink _ (hq.leads.named hnames)) hd'
    obtain rfl : r = q := (hr.congr ht).leads.unique hq.leads
    rw [ht _ (.inr (hr.leads.named hnames))] at hn
    exact hlink _ (hr.leads.named hnames) target hn

theorem unlinked_write (hlink : d.Unlinked dir names) (b : Bytes) :
    (tried (·.write (Path.join dir s) b) d).2.Unlinked dir names := by
  have hnamed : (tried (·.write (Path.join dir s) b) d).2.Named dir names = d.Named dir names :=
    named_eq fun _ ↦ (confined_write hs hnames hlink b).ahead_eq
  rw [tried] at hnamed ⊢
  cases hd : d.write (Path.join dir s) b with
  | error e => exact hlink
  | ok d' =>
    rw [hd] at hnamed
    exact (sets_write hs (fun q hq ↦ hlink _ (hq.leads.named hnames)) hd).unlinked hlink hnamed

theorem confined_append {a : Bytes} (hold : d.Holds (Path.join dir s) (some a)) (b : Bytes) :
    Confined (d.Around dir names) (d.Entry dir names)
      (tried (·.append (Path.join dir s) b)) d := by
  refine confined_tried (fun t ht ↦ ?_) fun p hp ↦ hp.around
  obtain ⟨d', hd, hset⟩ := exists_append hs hold b
  obtain ⟨t', ht', hset'⟩ := exists_append hs (holds_of_around hs hnames ht hold) b
  exact .inr ⟨t', d', ht', hd, hset.alike hnames ht hset'⟩

theorem confined_removeFile (hold : d.Holds (Path.join dir s) (some b)) :
    Confined (d.Around dir names) (d.Entry dir names)
      (tried (·.removeFile (Path.join dir s))) d := by
  refine confined_tried (fun t ht ↦ ?_) fun p hp ↦ hp.around
  obtain ⟨d', hd, hset⟩ := exists_removeFile hs hold
  obtain ⟨t', ht', hset'⟩ := exists_removeFile hs (holds_of_around hs hnames ht hold)
  exact .inr ⟨t', d', ht', hd, hset.alike hnames ht hset'⟩

theorem confined_rename (hu : IsStep u) (hnames' : names u) (hne : u ≠ s)
    (hlink : d.Unlinked dir names) (hold : d.Holds (Path.join dir s) (some b)) :
    Confined (d.Around dir names) (d.Entry dir names)
      (tried (·.rename (Path.join dir s) (Path.join dir u))) d := by
  refine confined_tried (fun t ht ↦ ?_) fun p hp ↦ hp.around
  have hlocate : t.locateName (Path.join dir s) = d.locateName (Path.join dir s) := by
    rw [locateName_join hs, locateName_join hs, locate_eq_of_around hs hnames ht hlink]
  have hlocate' : t.locateName (Path.join dir u) = d.locateName (Path.join dir u) := by
    rw [locateName_join hu, locateName_join hu, locate_eq_of_around hu hnames' ht hlink]
  -- what comes of the move hangs on where both names lead, and nothing else
  have hanswer : (t.rename (Path.join dir s) (Path.join dir u)).map (fun _ ↦ ()) =
      (d.rename (Path.join dir s) (Path.join dir u)).map fun _ ↦ () := by
    rw [rename, rename, hlocate, hlocate']
    generalize d.locateName (Path.join dir u) = target
    cases d.locateName (Path.join dir s) with
    | error e => rfl
    | ok spot =>
      cases spot with
      | free q s => rfl
      | root => rfl
      | found q n =>
        cases target with
        | error e => cases n <;> rfl
        | ok spot =>
          cases spot with
          | free q s => cases n <;> rfl
          | root => cases n <;> rfl
          | found r m => cases n <;> cases m <;> rfl
  refine (cases_of_map_eq hanswer).imp_right ?_
  rintro ⟨t', d', ht', hd'⟩
  obtain ⟨q, hq⟩ := exists_reaches_of_named hs hold.shows
  have hnode : d.node? (q ++ [s]) = some (.file b) := (hq.holds_iff hs).1 hold
  have hnode' : t.node? (q ++ [s]) = some (.file b) := by
    rw [ht _ (.inr (hq.leads.named hnames)), hnode]
  obtain ⟨-, hdir, hmoved⟩ := node?_rename hs hu hne hq hnode hd'
  obtain ⟨-, -, hmoved'⟩ := node?_rename hs hu hne (hq.congr ht) hnode' ht'
  have hsource : d.Entry dir names (q ++ [s]) :=
    hq.leads.entry hnames (by simp [hnode]) (by simp [hnode])
  have htarget : d.Entry dir names (q ++ [u]) :=
    hq.leads.entry hnames' hdir (hlink _ (hq.leads.named hnames'))
  refine ⟨t', d', ht', hd', alike_of_eq (fun p n ↦ if p = q ++ [u] then some (.file b)
    else if p = q ++ [s] then none else n) (fun p n hp ↦ ?_) hmoved hmoved'
    fun p hp ↦ ht p hp.around⟩
  rw [if_neg, if_neg]
  · rintro rfl
    exact hp hsource
  · rintro rfl
    exact hp htarget

end Operations

end UpToDate.Disk
