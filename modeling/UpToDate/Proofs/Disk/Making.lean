import UpToDate.Proofs.Disk.Parents
import UpToDate.Proofs.Disk.Steps

namespace UpToDate.Disk

open UpToDate.Path (IsParent)

variable {d d' : Disk} {dir : Path} {q : Place} {s : String}

section Directories

def routeTo (d : Disk) (dir : Path) : Except Fault Spot :=
  route d.node? .name linkLimit (startAt [] dir) (Path.stepsToName dir)

theorem locateName_of_checkPath (h : checkPath dir = .ok ()) :
    d.locateName dir = d.routeTo dir := by
  rw [locateName_eq, h]
  rfl

/-- Where a path leads into a directory, or to the root. -/
def Enters (d : Disk) (dir : Path) : Prop :=
  ∃ r m, Way d.node? linkLimit (startAt [] dir) (Path.stepsToName dir) r m

theorem Leads.enters (h : d.Leads dir q) : d.Enters dir := by
  obtain ⟨m, hm⟩ := h
  exact ⟨some q, m, hm⟩

theorem enters_of_dots (h : ∀ s ∈ Path.stepsToName dir, s = ".") : d.Enters dir :=
  ⟨_, _, way_of_dots h _ _⟩

theorem makeDirectory_of_checkPath {e : Fault} (h : checkPath dir = .error e) :
    d.makeDirectory dir = .error e := by
  rw [makeDirectory, locateName, h]
  rfl

theorem checkPath_of_makeDirectory (h : d.makeDirectory dir = .ok d') :
    checkPath dir = .ok () := by
  cases hcheck : checkPath dir with
  | ok _ => rfl
  | error e =>
    rw [makeDirectory_of_checkPath hcheck] at h
    cases h

theorem Enters.routeTo (h : d.Enters dir) :
    ∃ spot, d.routeTo dir = .ok spot ∧ ∀ q s, spot ≠ .free q s := by
  obtain ⟨r, m, hway⟩ := h
  exact route_name_of_way hway

theorem Enters.makeDirectory (h : d.Enters dir) (hcheck : checkPath dir = .ok ()) :
    d.makeDirectory dir = .error .exists := by
  obtain ⟨spot, hspot, hfree⟩ := h.routeTo
  rw [Disk.makeDirectory, locateName_of_checkPath hcheck, hspot]
  cases spot with
  | found q n => rfl
  | root => rfl
  | free q s => exact absurd rfl (hfree q s)

theorem makeDirectory_of_routeTo {e : Fault} (hcheck : checkPath dir = .ok ())
    (h : d.routeTo dir = .error e) : d.makeDirectory dir = .error e := by
  rw [makeDirectory, locateName_of_checkPath hcheck, h]
  rfl

theorem locate_of_way {r : Option Place} {m : Nat}
    (hway : Way d.node? linkLimit (startAt [] dir) (Path.stepsToName dir) r m)
    (hcheck : checkPath dir = .ok ()) :
    d.locate .content dir = .ok (r.elim .root (.found · .directory)) := by
  have hsteps : Way d.node? linkLimit (startAt [] dir) (Path.steps dir) r m := by
    rw [Path.steps]
    split
    · exact hway.trans (.stay (.inl rfl) (.arrive _ _))
    · rwa [List.append_nil]
  rw [locate_eq, hcheck]
  exact route_content_of_way hsteps

theorem Enters.isDirectory (h : d.Enters dir) (hcheck : checkPath dir = .ok ()) :
    d.isDirectory dir = true := by
  obtain ⟨r, m, hway⟩ := h
  rw [Disk.isDirectory, stat, locate_of_way hway hcheck]
  cases r <;> rfl

theorem enters_of_isDirectory (h : d.isDirectory dir = true) : d.Enters dir := by
  rw [Disk.isDirectory, stat] at h
  cases hl : d.locate .content dir with
  | error e =>
    rw [hl] at h
    cases h
  | ok spot =>
    rw [hl] at h
    cases spot with
    | free p t => cases h
    | root => exact ⟨none, way_of_locate hl⟩
    | found p n =>
      cases n with
      | file b => cases h
      | link target => cases h
      | directory => exact ⟨some p, way_of_locate (r := some p) hl⟩

end Directories

section Making

/-- A path leads to a directory that an earlier disk lacks, with nothing in it. -/
def New (d d' : Disk) (dir : Path) : Prop :=
  ∃ q, d'.Leads dir q ∧ d.node? q = none ∧ ∀ s, d'.node? (q ++ [s]) = none

theorem New.enters (h : d.New d' dir) : d'.Enters dir := by
  obtain ⟨q, hleads, -⟩ := h
  exact hleads.enters

theorem isName_of_step (hcheck : checkPath dir = .ok ()) (hs : s ∈ Path.stepsToName dir)
    (hdot : s ≠ ".") (hup : s ≠ "..") (hsize : s.utf8ByteSize ≤ Folder.nameLimit) :
    Folder.isName s := by
  obtain ⟨x, hx, rfl⟩ := List.mem_map.1 hs
  obtain ⟨hmem, hempty⟩ := List.mem_filter.1 hx
  have hnul : '\x00' ∉ x := by
    intro hc
    rw [checkPath, if_pos (by simpa using Path.mem_of_mem_pieces hmem hc)] at hcheck
    cases hcheck
  have hne : String.ofList x ≠ "" := by simpa using hempty
  simp [Folder.isName, hne, hdot, hup, hsize, Path.noSlash_of_mem_pieces hmem, hnul]

structure Free (d : Disk) (dir : Path) (q : Place) (s : String) : Prop where
  locateName : d.locateName dir = .ok (.free q s)
  directory : d.node? q = some .directory
  none : d.node? (q ++ [s]) = none
  isName : Folder.isName s
  way : ∃ l m, Path.stepsToName dir = l ++ [s] ∧
    Way d.node? linkLimit (startAt [] dir) l (some q) m

theorem Free.node?_put (h : d.Free dir q s) (p : Place) :
    (d.put q s .directory).node? p = if p = q ++ [s] then some .directory else d.node? p :=
  Disk.node?_put h.directory h.isName (by simp [h.none]) .directory p

theorem exists_free_of_makeDirectory (h : d.makeDirectory dir = .ok d') :
    ∃ q s, d.Free dir q s ∧ d' = d.put q s .directory := by
  have hcheck := checkPath_of_makeDirectory h
  rw [makeDirectory] at h
  cases hspot : d.locateName dir with
  | error e =>
    rw [hspot] at h
    cases h
  | ok spot =>
    have hsound := locateName_sound hspot
    rw [hspot] at h
    cases spot with
    | found q n => cases h
    | root => cases h
    | free q s =>
      cases h
      have hroute := hspot
      rw [locateName_of_checkPath hcheck] at hroute
      obtain ⟨l, m, hsteps, hway, -, -, hdot, hup, hsize⟩ := cases_of_route_free hroute
      have hname : Folder.isName s := isName_of_step hcheck (by simp [hsteps]) hdot hup hsize
      exact ⟨q, s, ⟨hspot, hsound.1, hsound.2, hname, l, m, hsteps, hway⟩, rfl⟩

theorem new_of_makeDirectory (h : d.makeDirectory dir = .ok d') : d.New d' dir := by
  have hgrows := grows_makeDirectory h
  obtain ⟨q, s, hfree, rfl⟩ := exists_free_of_makeDirectory h
  obtain ⟨l, m, hsteps, hway⟩ := hfree.way
  obtain ⟨⟨⟨⟨⟨hempty, hdot⟩, hup⟩, -⟩, -⟩, hsize⟩ := by simpa [Folder.isName] using hfree.isName
  refine ⟨q ++ [s], ⟨m, ?_⟩, hfree.none, fun t ↦ ?_⟩
  · rw [hsteps]
    refine (hway.mono hgrows.keep).trans (.down hempty hdot hup hsize ?_ (.arrive _ _))
    rw [hfree.node?_put, if_pos rfl]
  · rw [hfree.node?_put, if_neg (by simp)]
    exact node?_below_eq_none (by simp [hfree.none]) t

theorem New.routeTo {up : Path} (h : d.New d' up) (hparent : IsParent up dir)
    (hup : ".." ∉ Path.stepsToName dir) : (∃ e, d'.routeTo dir = .error e) ∨
      ∃ q s, d'.routeTo dir = .ok (.free q s) := by
  obtain ⟨q, ⟨m, hway⟩, -, hbelow⟩ := h
  obtain ⟨a, s, b, hsteps, ha, -, hempty, hdot⟩ := hparent.steps
  have hstart : startAt [] dir = startAt [] up := by rw [startAt, startAt, hparent.absolute]
  have hstep : s ≠ ".." := by
    rintro rfl
    exact hup (by simp [hsteps])
  have hroute : d'.routeTo dir = route d'.node? .name m (some q) (s :: b) := by
    rw [Disk.routeTo, hsteps, hstart]
    refine (route_of_way hway (by simp)).trans ?_
    exact route_of_way (way_of_dots ha m (some q)) (by simp)
  rw [hroute]
  by_cases hsize : Folder.nameLimit < s.utf8ByteSize
  · rw [route_cons hempty hdot hstep]
    exact .inl ⟨_, if_pos hsize⟩
  · rw [route_missing hempty hdot hstep (Nat.not_lt.1 hsize) (hbelow s)]
    split
    · exact .inr ⟨q, s, rfl⟩
    · exact .inl ⟨_, rfl⟩

theorem isParent_of_notFound {up : Path} (hparent : Path.parent? dir = some up)
    (h : d.makeDirectory dir = .error .notFound) : IsParent up dir ∧ checkPath dir = .ok () := by
  have hcheck : checkPath dir = .ok () := by
    cases hcheck : checkPath dir with
    | ok u => rfl
    | error e =>
      rw [makeDirectory_of_checkPath hcheck] at h
      cases h
      rw [checkPath] at hcheck
      split at hcheck
      · cases hcheck
      · split at hcheck
        · next hempty =>
          rw [String.isEmpty_iff.1 hempty] at hparent
          cases hparent
        · split at hcheck <;> cases hcheck
  refine ⟨?_, hcheck⟩
  rcases Path.parent?_cases dir with ⟨-, hdots⟩ | ⟨up', hup, hisParent⟩
  · rw [(enters_of_dots hdots).makeDirectory hcheck] at h
    cases h
  · cases hparent.symm.trans hup
    exact hisParent

theorem up_notMem_of_isParent {up : Path} (hparent : IsParent up dir)
    (hup : ".." ∉ Path.stepsToName dir) : ".." ∉ Path.stepsToName up := by
  obtain ⟨a, t, b, hsteps, -⟩ := hparent.steps
  rw [hsteps] at hup
  exact fun h ↦ hup (List.mem_append_left _ h)

theorem routeTo_of_isParent {up : Path} {e : Fault} (hparent : IsParent up dir)
    (h : d.routeTo up = .error e) : d.routeTo dir = .error e := by
  obtain ⟨a, t, b, hsteps, -⟩ := hparent.steps
  have hstart : startAt [] dir = startAt [] up := by rw [startAt, startAt, hparent.absolute]
  rw [routeTo, hsteps, hstart]
  exact route_append_of_error h

end Making

section Parents

def settle (d : Disk) (dir : Path) (e : Fault) : Except Fault Unit :=
  if e = .exists && d.isDirectory dir then .ok () else .error e

theorem isDirectory_of_settle {e : Fault} (h : d.settle dir e = .ok ()) :
    e = .exists ∧ d.isDirectory dir = true := by
  rw [settle] at h
  split at h
  · next he => simpa using he
  · cases h

theorem eq_of_settle {e e' : Fault} (h : d.settle dir e = .error e') : e = e' := by
  rw [settle] at h
  split at h <;> cases h
  rfl

theorem settle_of_routeTo {e e' : Fault} (h : d.routeTo dir = .error e') :
    d.settle dir e = .error e := by
  cases hsettle : d.settle dir e with
  | error e₁ => rw [eq_of_settle hsettle]
  | ok _ =>
    obtain ⟨spot, hspot, -⟩ := (enters_of_isDirectory (isDirectory_of_settle hsettle).2).routeTo
    cases h.symm.trans hspot

/-- The ways in which a directory is made, with at most so many of its parents. -/
inductive Makes : Nat → Path → Disk → Except Fault Unit → Disk → Prop
  | zero (p : Path) (d : Disk) : Makes 0 p d (.ok ()) d
  | top {n : Nat} {p : Path} {d : Disk} : Path.parent? p = none → Makes (n + 1) p d (.ok ()) d
  | made {n : Nat} {p up : Path} {d d' : Disk} : Path.parent? p = some up →
      d.makeDirectory p = .ok d' → Makes (n + 1) p d (.ok ()) d'
  | settled {n : Nat} {p up : Path} {d : Disk} {e : Fault} : Path.parent? p = some up →
      d.makeDirectory p = .error e → e ≠ .notFound → Makes (n + 1) p d (d.settle p e) d
  | stuck {n : Nat} {p up : Path} {d d' : Disk} {e : Fault} : Path.parent? p = some up →
      d.makeDirectory p = .error .notFound → Makes n up d (.error e) d' →
      Makes (n + 1) p d (.error e) d'
  | madeAfter {n : Nat} {p up : Path} {d d₁ d' : Disk} : Path.parent? p = some up →
      d.makeDirectory p = .error .notFound → Makes n up d (.ok ()) d₁ →
      d₁.makeDirectory p = .ok d' → Makes (n + 1) p d (.ok ()) d'
  | settledAfter {n : Nat} {p up : Path} {d d₁ : Disk} {e : Fault} : Path.parent? p = some up →
      d.makeDirectory p = .error .notFound → Makes n up d (.ok ()) d₁ →
      d₁.makeDirectory p = .error e → Makes (n + 1) p d (d₁.settle p e) d₁

variable {n : Nat} {r : Except Fault Unit}

theorem Makes.eq (h : Makes n dir d r d') : makeUpTo n dir d = (r, d') := by
  induction h with
  | zero => rfl
  | top hparent => rw [makeUpTo, hparent]
  | made hparent hmake =>
    rw [makeUpTo, hparent]
    dsimp only
    rw [hmake]
  | @settled n p up d e hparent hmake he =>
    rw [makeUpTo, hparent]
    dsimp only
    rw [hmake]
    cases e <;> first | rfl | exact absurd rfl he
  | stuck hparent hmake _ ih =>
    rw [makeUpTo, hparent]
    dsimp only
    rw [hmake]
    dsimp only
    rw [ih]
  | madeAfter hparent hmake _ hmake' ih =>
    rw [makeUpTo, hparent]
    dsimp only
    rw [hmake]
    dsimp only
    rw [ih]
    dsimp only
    rw [hmake']
  | settledAfter hparent hmake _ hmake' ih =>
    rw [makeUpTo, hparent]
    dsimp only
    rw [hmake]
    dsimp only
    rw [ih]
    dsimp only
    rw [hmake']
    rfl

theorem exists_makes (n : Nat) (dir : Path) (d : Disk) : ∃ r d', Makes n dir d r d' := by
  induction n generalizing dir with
  | zero => exact ⟨_, _, .zero dir d⟩
  | succ n ih =>
    cases hparent : Path.parent? dir with
    | none => exact ⟨_, _, .top hparent⟩
    | some up =>
      cases hmake : d.makeDirectory dir with
      | ok d' => exact ⟨_, _, .made hparent hmake⟩
      | error e =>
        by_cases he : e = .notFound
        · subst he
          obtain ⟨r, d₁, hup⟩ := ih up
          cases r with
          | error e => exact ⟨_, _, .stuck hparent hmake hup⟩
          | ok _ =>
            cases hmake' : d₁.makeDirectory dir with
            | ok d' => exact ⟨_, _, .madeAfter hparent hmake hup hmake'⟩
            | error e => exact ⟨_, _, .settledAfter hparent hmake hup hmake'⟩
        · exact ⟨_, _, .settled hparent hmake he⟩

theorem makes_makeUpTo (n : Nat) (dir : Path) (d : Disk) :
    Makes n dir d (makeUpTo n dir d).1 (makeUpTo n dir d).2 := by
  obtain ⟨r, d', h⟩ := exists_makes n dir d
  rwa [h.eq]

theorem Makes.grows (h : Makes n dir d r d') : d.Grows d' := by
  have hgrows := grows_makeUpTo n dir d
  rwa [h.eq] at hgrows

theorem New.mono {d₁ : Disk} (h : d₁.New d' dir) (hgrows : d.Grows d₁) : d.New d' dir := by
  obtain ⟨q, hleads, hnone, hbelow⟩ := h
  refine ⟨q, hleads, ?_, hbelow⟩
  rw [Option.eq_none_iff_forall_ne_some] at hnone ⊢
  exact fun n hn ↦ hnone n (hgrows.keeps hn)

theorem Makes.enters (h : Makes n dir d r d') (hn : dir.length ≤ n)
    (hup : ".." ∉ Path.stepsToName dir) (hr : r = .ok ()) :
    d'.Enters dir ∧ (d' = d ∨ d.New d' dir) := by
  induction h with
  | zero p d =>
    have hempty : p = "" := String.length_eq_zero_iff.1 (Nat.le_zero.1 hn)
    refine ⟨enters_of_dots fun s hs ↦ ?_, .inl rfl⟩
    rw [hempty] at hs
    cases hs
  | top hparent =>
    rcases Path.parent?_cases _ with ⟨-, hdots⟩ | ⟨up, hsome, -⟩
    · exact ⟨enters_of_dots hdots, .inl rfl⟩
    · cases hparent.symm.trans hsome
  | made _ hmake =>
    have hnew := new_of_makeDirectory hmake
    exact ⟨hnew.enters, .inr hnew⟩
  | settled _ _ _ => exact ⟨enters_of_isDirectory (isDirectory_of_settle hr).2, .inl rfl⟩
  | stuck => cases hr
  | madeAfter _ _ hmakes hmake' _ =>
    have hnew := new_of_makeDirectory hmake'
    exact ⟨hnew.enters, .inr (hnew.mono hmakes.grows)⟩
  | settledAfter hparent hmake _ hmake' ih =>
    obtain ⟨hisParent, hcheck⟩ := isParent_of_notFound hparent hmake
    have henters := enters_of_isDirectory (isDirectory_of_settle hr).2
    have hlength := hisParent.length
    refine ⟨henters, .inl ?_⟩
    rcases (ih (by omega) (up_notMem_of_isParent hisParent hup) rfl).2 with hsame | hnew
    · exact hsame
    · -- below a new parent there is no directory yet
      obtain ⟨spot, hspot, hfree⟩ := henters.routeTo
      rcases hnew.routeTo hisParent hup with ⟨e, he⟩ | ⟨q, s, hqs⟩
      · cases he.symm.trans hspot
      · cases hqs.symm.trans hspot
        exact absurd rfl (hfree q s)

theorem Makes.fault {e : Fault} (h : Makes n dir d r d') (hn : dir.length ≤ n)
    (hup : ".." ∉ Path.stepsToName dir) (hr : r = .error e) :
    d' = d ∨ d'.routeTo dir = .error e := by
  induction h with
  | zero => cases hr
  | top => cases hr
  | made => cases hr
  | settled => exact .inl rfl
  | stuck hparent hmake _ ih =>
    obtain ⟨hisParent, -⟩ := isParent_of_notFound hparent hmake
    have hlength := hisParent.length
    exact (ih (by omega) (up_notMem_of_isParent hisParent hup) hr).imp_right
      (routeTo_of_isParent hisParent)
  | madeAfter => cases hr
  | @settledAfter n p up d d₁ e' hparent hmake hmakes hmake' ih =>
    obtain ⟨hisParent, hcheck⟩ := isParent_of_notFound hparent hmake
    have hlength := hisParent.length
    refine (hmakes.enters (by omega) (up_notMem_of_isParent hisParent hup) rfl).2.imp_right ?_
    intro hnew
    rcases hnew.routeTo hisParent hup with ⟨e₁, he⟩ | ⟨q, s, hqs⟩
    · cases hmake'.symm.trans (makeDirectory_of_routeTo hcheck he)
      rw [he, eq_of_settle hr]
    · rw [makeDirectory, locateName_of_checkPath hcheck, hqs] at hmake'
      cases hmake'

theorem makes_of_enters {up : Path} (hparent : Path.parent? dir = some up) (h : d.Enters dir)
    (hcheck : checkPath dir = .ok ()) : Makes (n + 1) dir d (.ok ()) d := by
  have hsettle : d.settle dir .exists = .ok () := by
    rw [settle, h.isDirectory hcheck]
    rfl
  rw [← hsettle]
  exact .settled hparent (h.makeDirectory hcheck) (by decide)

theorem Makes.again (h : Makes n dir d r d') (hn : dir.length ≤ n)
    (hup : ".." ∉ Path.stepsToName dir) : Makes n dir d' r d' := by
  induction h with
  | zero p d => exact .zero p d
  | top hparent => exact .top hparent
  | made hparent hmake =>
    have hnew := new_of_makeDirectory hmake
    exact makes_of_enters hparent hnew.enters (checkPath_of_makeDirectory hmake)
  | settled hparent hmake he => exact .settled hparent hmake he
  | @stuck n p up d d' e hparent hmake hmakes ih =>
    obtain ⟨hisParent, hcheck⟩ := isParent_of_notFound hparent hmake
    have hlength := hisParent.length
    have hagain := ih (by omega) (up_notMem_of_isParent hisParent hup)
    rcases (Makes.stuck hparent hmake hmakes).fault hn hup rfl with rfl | hroute
    · exact .stuck hparent hmake hmakes
    · have hfault := makeDirectory_of_routeTo hcheck hroute
      by_cases he : e = .notFound
      · subst he
        exact .stuck hparent hfault hagain
      · have hsettled := Makes.settled (n := n) hparent hfault he
        rwa [settle_of_routeTo hroute] at hsettled
  | madeAfter hparent hmake _ hmake' _ =>
    have hnew := new_of_makeDirectory hmake'
    exact makes_of_enters hparent hnew.enters (checkPath_of_makeDirectory hmake')
  | @settledAfter n p up d d₁ e hparent hmake _ hmake' ih =>
    obtain ⟨hisParent, -⟩ := isParent_of_notFound hparent hmake
    have hlength := hisParent.length
    -- the second time the fault is met at once, before any parent is tried
    by_cases he : e = .notFound
    · subst he
      exact .settledAfter hparent hmake' (ih (by omega) (up_notMem_of_isParent hisParent hup)) hmake'
    · exact .settled hparent hmake' he

end Parents

section Results

theorem makes_makeDirectories (d : Disk) (dir : Path) :
    Makes dir.length dir d (d.makeDirectories dir).1 (d.makeDirectories dir).2 :=
  makes_makeUpTo _ _ _

theorem Enters.makeDirectories (h : d.Enters dir) (hcheck : checkPath dir = .ok ()) :
    d.makeDirectories dir = (.ok (), d) := by
  obtain ⟨n, hn⟩ : ∃ n, dir.length = n + 1 := by
    refine Nat.exists_eq_add_one_of_ne_zero fun hzero ↦ ?_
    rw [String.length_eq_zero_iff.1 hzero] at hcheck
    cases hcheck
  rw [Disk.makeDirectories, hn]
  cases hparent : Path.parent? dir with
  | none => exact (Makes.top hparent).eq
  | some up => exact (makes_of_enters hparent h hcheck).eq

theorem Leads.makeDirectories (h : d.Leads dir q) : (d.makeDirectories dir).2 = d := by
  have hmakes := makes_makeDirectories d dir
  generalize (d.makeDirectories dir).1 = r at hmakes
  generalize (d.makeDirectories dir).2 = d' at hmakes ⊢
  generalize dir.length = n at hmakes
  have hfound {d' : Disk} : d.makeDirectory dir ≠ .ok d' := by
    intro hmake
    rw [h.enters.makeDirectory (checkPath_of_makeDirectory hmake)] at hmake
    cases hmake
  have hway {up : Path} (hparent : Path.parent? dir = some up) :
      d.makeDirectory dir ≠ .error .notFound := by
    intro hmake
    rw [h.enters.makeDirectory (isParent_of_notFound hparent hmake).2] at hmake
    cases hmake
  cases hmakes with
  | zero => rfl
  | top => rfl
  | made _ hmake => exact absurd hmake hfound
  | settled => rfl
  | stuck hparent hmake => exact absurd hmake (hway hparent)
  | madeAfter hparent hmake => exact absurd hmake (hway hparent)
  | settledAfter hparent hmake => exact absurd hmake (hway hparent)

/-- A directory is there, or no step back is on the path to it. -/
def Direct (d : Disk) (dir : Path) : Prop :=
  (∃ q, d.Leads dir q) ∨ ".." ∉ Path.stepsToName dir

theorem Direct.makeDirectories_again (h : d.Direct dir) :
    (d.makeDirectories dir).2.makeDirectories dir =
      ((d.makeDirectories dir).1, (d.makeDirectories dir).2) := by
  rcases h with ⟨q, hq⟩ | hup
  · nth_rewrite 1 [hq.makeDirectories]
    rfl
  · exact ((makes_makeDirectories d dir).again (Nat.le_refl _) hup).eq

theorem Direct.eq_or_new (h : d.Direct dir) (henters : (d.makeDirectories dir).2.Enters dir) :
    (d.makeDirectories dir).2 = d ∨ d.New (d.makeDirectories dir).2 dir := by
  rcases h with ⟨q, hq⟩ | hup
  · exact .inl hq.makeDirectories
  · have hmakes := makes_makeDirectories d dir
    cases hr : (d.makeDirectories dir).1 with
    | ok _ => exact (hmakes.enters (Nat.le_refl _) hup hr).2
    | error e =>
      refine (hmakes.fault (Nat.le_refl _) hup hr).imp_right fun hroute ↦ ?_
      obtain ⟨spot, hspot, -⟩ := henters.routeTo
      cases hroute.symm.trans hspot

end Results

end UpToDate.Disk
