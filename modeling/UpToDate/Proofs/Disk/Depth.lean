import UpToDate.Proofs.Disk.Named
import UpToDate.Proofs.Disk.Steps
import UpToDate.Proofs.Result

namespace UpToDate

section Height

/-- How many names the longest way down has. -/
def Folder.height : Folder → Nat
  | empty => 0
  | cons _ _ inside rest => max (inside.height + 1) rest.height

theorem Folder.height_of_find? {s : String} {n : Node} {f inside : Folder}
    (h : f.find? s = some (n, inside)) : inside.height < f.height := by
  induction f with
  | empty => cases h
  | cons t m i rest _ ih =>
    rw [height]
    rw [find?] at h
    split at h
    · cases h
      omega
    · have hrest := ih h
      omega

theorem Folder.length_le_height {p : Place} {f : Folder} (h : f.node? p ≠ none) :
    p.length ≤ f.height := by
  induction p generalizing f with
  | nil => exact Nat.zero_le _
  | cons s p ih =>
    rw [node?] at h
    split at h
    · next inside hs =>
      have hp := ih h
      have hlt := height_of_find? hs
      rw [List.length_cons]
      omega
    · next n inside _ hs =>
      split at h
      · next hp =>
        have hlt := height_of_find? hs
        rw [hp, List.length_singleton]
        omega
      · exact absurd rfl h
    · exact absurd rfl h

end Height

theorem Path.utf8ByteSize_join_lt {s : String} (hs : IsStep s) (dir : Path) :
    dir.utf8ByteSize < (join dir s).utf8ByteSize := by
  have hpos : 0 < s.utf8ByteSize :=
    Nat.pos_of_ne_zero fun hzero ↦ hs.ne_empty (String.utf8ByteSize_eq_zero_iff.1 hzero)
  rw [join, hs.not_isAbsolute, Bool.false_or]
  split
  · next hempty => rwa [String.isEmpty_iff.1 hempty]
  · split
    · rw [String.utf8ByteSize_append]
      omega
    · rw [String.utf8ByteSize_append, String.utf8ByteSize_append]
      omega

namespace Disk

open UpToDate.Path (IsStep)

def height (d : Disk) : Nat := d.content.height

variable {d : Disk} {look : Place → Option Node} {dir : Path} {q r : Place} {s : String}
  {l l' names : List String} {n m k : Nat} {here there : Option Place} {node : Node}

section Links

theorem Way.links_le (h : Way look n here l there m) : m ≤ n := by
  induction h with
  | arrive => exact Nat.le_refl _
  | stay _ _ ih => exact ih
  | back _ _ ih => exact ih
  | down _ _ _ _ _ _ ih => exact ih
  | link _ _ _ _ _ _ _ ih => exact Nat.le_succ_of_le ih

theorem Way.add_links (h : Way look n here l there m) (k : Nat) :
    Way look (n + k) here l there (m + k) := by
  induction h with
  | arrive n here => exact .arrive _ here
  | stay hs _ ih => exact .stay hs ih
  | back hne _ ih => exact .back hne ih
  | down hempty hdot hup hsize hdir _ ih => exact .down hempty hdot hup hsize hdir ih
  | link hempty hdot hup hsize hlink htarget _ ih =>
    rw [Nat.add_right_comm]
    exact .link hempty hdot hup hsize hlink htarget ih

theorem Way.append {n' m' : Nat} {there' : Option Place} (h : Way look n here l there m)
    (h' : Way look n' there l' there' m') : Way look (n + n') here (l ++ l') there' (m' + m) := by
  have hfirst := h.add_links n'
  have hsecond := h'.add_links m
  rw [Nat.add_comm n' m] at hsecond
  exact hfirst.trans hsecond

theorem Way.exists_of_append (h : Way look n here (l ++ l') there m) :
    ∃ r k, Way look n here l r k ∧ Way look k r l' there m := by
  generalize hsteps : l ++ l' = steps at h
  induction h generalizing l with
  | arrive n here =>
    obtain ⟨rfl, rfl⟩ := List.append_eq_nil_iff.1 hsteps
    exact ⟨here, n, .arrive n here, .arrive n here⟩
  | @stay n m here there s rest hs hrest ih =>
    cases l with
    | nil =>
      obtain rfl : l' = s :: rest := hsteps
      exact ⟨here, n, .arrive n here, .stay hs hrest⟩
    | cons x l =>
      cases hsteps
      obtain ⟨r, k, hl, hl'⟩ := ih rfl
      exact ⟨r, k, .stay hs hl, hl'⟩
  | @back n m here there rest hne hrest ih =>
    cases l with
    | nil =>
      obtain rfl : l' = ".." :: rest := hsteps
      exact ⟨here, n, .arrive n here, .back hne hrest⟩
    | cons x l =>
      cases hsteps
      obtain ⟨r, k, hl, hl'⟩ := ih rfl
      exact ⟨r, k, .back hne hl, hl'⟩
  | @down n m q there s rest hempty hdot hup hsize hdir hrest ih =>
    cases l with
    | nil =>
      obtain rfl : l' = s :: rest := hsteps
      exact ⟨some q, n, .arrive n _, .down hempty hdot hup hsize hdir hrest⟩
    | cons x l =>
      cases hsteps
      obtain ⟨r, k, hl, hl'⟩ := ih rfl
      exact ⟨r, k, .down hempty hdot hup hsize hdir hl, hl'⟩
  | @link n m q there s rest target hempty hdot hup hsize hlink htarget hrest ih =>
    -- the target of a link comes in front of the steps that are left
    cases l with
    | nil =>
      obtain rfl : l' = s :: rest := hsteps
      exact ⟨some q, n + 1, .arrive _ _, .link hempty hdot hup hsize hlink htarget hrest⟩
    | cons x l =>
      cases hsteps
      obtain ⟨r, k, hl, hl'⟩ := ih (List.append_assoc _ _ _)
      exact ⟨r, k, .link hempty hdot hup hsize hlink htarget hl, hl'⟩

theorem Way.unique {there' : Option Place} {m' : Nat} (h : Way look n here l there m)
    (h' : Way look n here l there' m') : there = there' ∧ m = m' := by
  have he := (enter_of_way h).symm.trans (enter_of_way h')
  exact Prod.mk.inj (Except.ok.inj he)

theorem Way.name_cases (hs : IsStep s) (h : Way look n here [s] there m) : ∃ q, here = some q ∧
    look (q ++ [s]) ≠ none ∧
      (there = some (q ++ [s]) ∧ look (q ++ [s]) = some .directory ∧ m = n ∨ m < n) := by
  cases h with
  | stay hidle _ => exact (hidle.elim hs.ne_empty hs.ne_dot).elim
  | back _ _ => exact absurd rfl hs.ne_up
  | @down _ _ q _ _ _ _ _ _ _ hdir hrest =>
    cases hrest
    exact ⟨q, rfl, by simp [hdir], .inl ⟨rfl, hdir, rfl⟩⟩
  | @link _ _ q _ _ _ _ _ _ _ _ hlink _ hrest =>
    exact ⟨q, rfl, by simp [hlink], .inr (Nat.lt_succ_of_le hrest.links_le)⟩

theorem Way.exists_start (hsteps : ∀ s ∈ l, IsStep s) (h : Way look n here l (some r) m) :
    ∃ q, here = some q := by
  cases l with
  | nil =>
    cases h
    exact ⟨r, rfl⟩
  | cons s l =>
    obtain ⟨there, k, hname, -⟩ := Way.exists_of_append (l := [s]) h
    obtain ⟨q, hq, -⟩ := hname.name_cases (hsteps s List.mem_cons_self)
    exact ⟨q, hq⟩

theorem route_add_links {aim : Aim} {spot : Spot} (h : route look aim n here l = .ok spot)
    (k : Nat) : route look aim (n + k) here l = .ok spot := by
  induction n, here, l using steps_induction look with
  | nil n here => rwa [route_nil] at h ⊢
  | stay n here s l hs ih =>
    rw [route_stay hs] at h ⊢
    exact ih h
  | up n here l ih =>
    rw [route_up] at h ⊢
    split at h
    · cases h
    · next hne => rw [if_neg hne, ih hne h]
  | name n here s l hempty hdot hup hdown hlink =>
    rw [route_cons hempty hdot hup] at h ⊢
    split at h
    · cases h
    next hslash =>
    rw [if_neg hslash]
    split at h
    · cases h
    next hlim =>
    rw [if_neg hlim]
    cases here with
    | none => cases h
    | some q =>
      dsimp only at h ⊢
      split at h
      · exact h
      · next hdir => exact hdown q rfl hdir h
      · exact h
      · next target hn =>
        split at h
        · next hend => rwa [if_pos hend]
        next hend =>
        rw [if_neg hend]
        cases n with
        | zero => cases h
        | succ n =>
          rw [routeFrom] at h
          rw [Nat.add_right_comm, routeFrom]
          split at h
          · cases h
          next htarget =>
          rw [if_neg htarget]
          exact hlink q target n rfl hn rfl h

theorem Way.spot_eq {spot : Spot} (h : Way look n here l there m)
    (hroute : route look .content k here l = .ok spot) :
    spot = there.elim .root (.found · .directory) := by
  have hmore := route_content_of_way (h.add_links k)
  rw [Nat.add_comm n k, route_add_links hroute n] at hmore
  exact Except.ok.inj hmore

end Links

section Sizes

theorem size_of_locate {aim : Aim} {spot : Spot} {p : Path} (h : d.locate aim p = .ok spot) :
    p.utf8ByteSize ≤ pathLimit := by
  rw [locate, checkPath] at h
  split at h
  · cases h
  split at h
  · cases h
  split at h
  · cases h
  next hshort => exact Nat.not_lt.1 hshort

theorem size_of_stat {p : Path} (h : d.stat p = .ok node) : p.utf8ByteSize ≤ pathLimit := by
  rw [stat] at h
  cases hl : d.locate .content p with
  | error e => rw [hl] at h; cases h
  | ok spot => exact size_of_locate hl

end Sizes

section Room

theorem way_of_list (h : d.list dir = .ok names) : ∃ there m,
    Way d.node? linkLimit (startAt [] dir) (Path.stepsToName dir) there m ∧
      names = there.elim [] d.names := by
  rw [list] at h
  cases hl : d.locate .content dir with
  | error e => rw [hl] at h; cases h
  | ok spot =>
    rw [hl] at h
    cases spot with
    | free q s => cases h
    | root =>
      obtain ⟨m, hm⟩ := way_of_locate (r := none) hl
      cases h
      exact ⟨none, m, hm, rfl⟩
    | found q node =>
      cases node with
      | file b => cases h
      | link target => cases h
      | directory =>
        obtain ⟨m, hm⟩ := way_of_locate (r := some q) hl
        cases h
        exact ⟨some q, m, hm, rfl⟩

theorem leads_of_list (hlist : d.list dir = .ok names) (hs : s ∈ names) : ∃ q, d.Leads dir q := by
  obtain ⟨there, m, hm, rfl⟩ := way_of_list hlist
  cases there with
  | none => cases hs
  | some q => exact ⟨q, m, hm⟩

theorem Leads.names_eq (hq : d.Leads dir q) (hlist : d.list dir = .ok names) :
    names = d.names q := by
  obtain ⟨n, hn⟩ := hq
  obtain ⟨there, m, hm, rfl⟩ := way_of_list hlist
  obtain ⟨rfl, -⟩ := hm.unique hn
  rfl

theorem way_of_stat (h : d.stat dir = .ok .directory) : ∃ there m,
    Way d.node? linkLimit (startAt [] dir) (Path.stepsToName dir) there m := by
  rw [stat] at h
  cases hl : d.locate .content dir with
  | error e => rw [hl] at h; cases h
  | ok spot =>
    rw [hl] at h
    cases spot with
    | free q s => cases h
    | root => exact ⟨none, way_of_locate (r := none) hl⟩
    | found q node =>
      cases h
      exact ⟨some q, way_of_locate (r := some q) hl⟩

/-- What is left below a directory: for each link that may still be followed, and once more, the
names on the longest way down. -/
def room (d : Disk) (dir : Path) : Nat :=
  match enter d.node? linkLimit (startAt [] dir) (Path.stepsToName dir) with
  | .ok (some q, m) => m * (d.height + 1) + (d.height - q.length)
  | _ => 0

theorem room_of_way
    (h : Way d.node? linkLimit (startAt [] dir) (Path.stepsToName dir) (some q) m) :
    d.room dir = m * (d.height + 1) + (d.height - q.length) := by
  rw [room, enter_of_way h]

theorem room_of_root
    (h : Way d.node? linkLimit (startAt [] dir) (Path.stepsToName dir) none m) :
    d.room dir = 0 := by
  rw [room, enter_of_way h]

theorem room_lt (d : Disk) (dir : Path) : d.room dir < (linkLimit + 1) * (d.height + 1) := by
  rw [room]
  split
  · next q m he =>
    have hlinks : m * (d.height + 1) ≤ linkLimit * (d.height + 1) :=
      Nat.mul_le_mul_right _ (way_of_enter he).links_le
    rw [Nat.succ_mul]
    omega
  · exact Nat.mul_pos (Nat.succ_pos _) (Nat.succ_pos _)

theorem way_of_stat_join (hs : IsStep s)
    (hq : Way d.node? linkLimit (startAt [] dir) (Path.stepsToName dir) (some q) m)
    (hstat : d.stat (Path.join dir s) = .ok .directory) : ∃ there k,
    Way d.node? linkLimit (startAt [] (Path.join dir s))
        (Path.stepsToName (Path.join dir s)) there k ∧
      Way d.node? m (some q) [s] there k := by
  obtain ⟨there, k, hthere⟩ := way_of_stat hstat
  have hsplit := hthere
  rw [startAt_join hs, Path.stepsToName_join hs] at hsplit
  obtain ⟨r, m', hr, hname⟩ := hsplit.exists_of_append
  obtain ⟨rfl, rfl⟩ := hr.unique hq
  exact ⟨there, k, hthere, hname⟩

theorem room_join_lt (hs : IsStep s) (hdir : d.Leads dir q)
    (hstat : d.stat (Path.join dir s) = .ok .directory) :
    d.room (Path.join dir s) < d.room dir := by
  obtain ⟨m, hq⟩ := hdir
  obtain ⟨there, k, hthere, hname⟩ := way_of_stat_join hs hq hstat
  rw [room_of_way hq]
  obtain ⟨q', hq', -, ⟨rfl, hdown, rfl⟩ | hfewer⟩ := hname.name_cases hs
  · -- the name leads down, and no way down is longer than the height
    cases hq'
    have hlength : (q ++ [s]).length ≤ d.height :=
      Folder.length_le_height (by rw [← node?, hdown]; exact Option.some_ne_none _)
    rw [List.length_append, List.length_singleton] at hlength
    rw [room_of_way hthere, List.length_append, List.length_singleton]
    omega
  · -- the name leads through a link, which gives up the names of a longest way down
    have hlinks : (k + 1) * (d.height + 1) ≤ m * (d.height + 1) := Nat.mul_le_mul_right _ hfewer
    rw [Nat.succ_mul] at hlinks
    cases there with
    | none =>
      rw [room_of_root hthere]
      omega
    | some r =>
      rw [room_of_way hthere]
      omega

theorem Leads.stat_join (hs : IsStep s) (hq : d.Leads dir q)
    (hname : Way d.node? n (some q) [s] (some r) m) (hstat : d.stat (Path.join dir s) = .ok node) :
    node = .directory ∧ d.Leads (Path.join dir s) r := by
  obtain ⟨i, hi⟩ := hq
  rw [stat] at hstat
  cases hl : d.locate .content (Path.join dir s) with
  | error e => rw [hl] at hstat; cases hstat
  | ok spot =>
    have hroute := hl
    rw [locate_eq, bind_eq_ok_iff] at hroute
    obtain ⟨-, -, hroute⟩ := hroute
    rw [Path.steps_join hs, startAt_join hs, route_concat hs, enter_of_way hi] at hroute
    have hspot : spot = .found r .directory := hname.spot_eq hroute
    rw [hl, hspot] at hstat
    rw [hspot] at hl
    cases hstat
    exact ⟨rfl, way_of_locate (r := some r) hl⟩

end Room

end Disk

end UpToDate
