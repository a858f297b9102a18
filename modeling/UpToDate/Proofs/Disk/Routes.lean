import UpToDate.Disk.Operations
import UpToDate.Proofs.Disk.Nodes
import UpToDate.Proofs.Disk.Paths

namespace UpToDate.Disk

section Routes

variable (look : Place → Option Node)

/-- The directory that the target of a link in `q` is read in, or none for the root. -/
def startAt (q : Place) (target : Path) : Option Place :=
  if Path.isAbsolute target then none else some q

def routeToLink (aim : Aim) (enter : Place → Path → List String → Except Fault Spot) :
    Option Place → List String → Except Fault Spot
  | here, [] => .ok (match here with
      | some q => .found q .directory
      | none => .root)
  | here, s :: rest =>
    if s = "" || s = "." then routeToLink aim enter here rest
    else if s = ".." then
      match here with
      | some [] => .error .notFound
      | _ => routeToLink aim enter (here.map List.dropLast) rest
    else if aim = .file && rest = [""] then .error .isADirectory
    else if Folder.nameLimit < s.utf8ByteSize then .error .nameTooLong
    else
      match here with
      | none => .error .notFound
      | some q =>
        match look (q ++ [s]) with
        | none => if rest = [] then .ok (.free q s) else .error .notFound
        | some .directory => routeToLink aim enter (some (q ++ [s])) rest
        | some (.file b) =>
          if rest = [] then .ok (.found (q ++ [s]) (.file b)) else .error .notADirectory
        | some (.link target) =>
          if rest = [] && aim = .name then .ok (.found (q ++ [s]) (.link target))
          else enter q target rest

/-- Follows steps like `follow`, but sees only what stands at places. -/
def route (aim : Aim) : (links : Nat) → Option Place → List String → Except Fault Spot
  | 0 => routeToLink look aim fun _ _ _ ↦ .error .tooManyLinks
  | n + 1 => routeToLink look aim fun q target rest ↦
    if target.isEmpty then .error .notFound
    else route aim n (startAt q target) (Path.steps target ++ rest)

def enterToLink (links : Nat)
    (enter : Place → Path → List String → Except Fault (Option Place × Nat)) :
    Option Place → List String → Except Fault (Option Place × Nat)
  | here, [] => .ok (here, links)
  | here, s :: rest =>
    if s = "" || s = "." then enterToLink links enter here rest
    else if s = ".." then
      match here with
      | some [] => .error .notFound
      | _ => enterToLink links enter (here.map List.dropLast) rest
    else if Folder.nameLimit < s.utf8ByteSize then .error .nameTooLong
    else
      match here with
      | none => .error .notFound
      | some q =>
        match look (q ++ [s]) with
        | none => .error .notFound
        | some .directory => enterToLink links enter (some (q ++ [s])) rest
        | some (.file _) => .error .notADirectory
        | some (.link target) => enter q target rest

/-- The directory that steps lead into, none for the root, and how many links may still be
followed. -/
def enter : (links : Nat) → Option Place → List String → Except Fault (Option Place × Nat)
  | 0 => enterToLink look 0 fun _ _ _ ↦ .error .tooManyLinks
  | n + 1 => enterToLink look (n + 1) fun q target rest ↦
    if target.isEmpty then .error .notFound
    else enter n (startAt q target) (Path.steps target ++ rest)

end Routes

section Steps

variable {look : Place → Option Node} {aim : Aim} {n : Nat} {here : Option Place} {s : String}
  {l : List String}

@[elab_as_elim]
theorem steps_induction (look : Place → Option Node)
    {motive : Nat → Option Place → List String → Prop}
    (nil : ∀ n here, motive n here [])
    (stay : ∀ n here s l, s = "" ∨ s = "." → motive n here l → motive n here (s :: l))
    (up : ∀ n here l, (here ≠ some [] → motive n (here.map List.dropLast) l) →
      motive n here (".." :: l))
    (name : ∀ n here s l, s ≠ "" → s ≠ "." → s ≠ ".." →
      (∀ q, here = some q → look (q ++ [s]) = some .directory → motive n (some (q ++ [s])) l) →
      (∀ q target n', here = some q → look (q ++ [s]) = some (.link target) → n = n' + 1 →
        motive n' (startAt q target) (Path.steps target ++ l)) → motive n here (s :: l))
    (n : Nat) (here : Option Place) (l : List String) : motive n here l := by
  -- the links that may still be followed come first, then the steps up to the next link
  have hsteps (n : Nat) (ih : ∀ n', n = n' + 1 → ∀ here l, motive n' here l)
      (here : Option Place) (l : List String) : motive n here l := by
    induction l generalizing here with
    | nil => exact nil n here
    | cons s l hl =>
      by_cases hidle : s = "" ∨ s = "."
      · exact stay n here s l hidle (hl here)
      obtain ⟨hempty, hdot⟩ := not_or.1 hidle
      by_cases hup : s = ".."
      · subst hup
        exact up n here l fun _ ↦ hl _
      · exact name n here s l hempty hdot hup (fun q _ _ ↦ hl _) fun q target n' _ _ hn ↦ ih n' hn _ _
  induction n generalizing here l with
  | zero => exact hsteps 0 (by simp) here l
  | succ n ih =>
    refine hsteps (n + 1) (fun n' hn ↦ ?_) here l
    cases hn
    exact ih

theorem exists_routeToLink (look : Place → Option Node) (aim : Aim) (n : Nat) :
    ∃ k, route look aim n = routeToLink look aim k := by
  cases n <;> exact ⟨_, rfl⟩

theorem route_nil : route look aim n here [] = .ok (here.elim .root (.found · .directory)) := by
  obtain ⟨k, hk⟩ := exists_routeToLink look aim n
  rw [hk, routeToLink.eq_def]
  cases here <;> rfl

theorem route_stay (hs : s = "" ∨ s = ".") :
    route look aim n here (s :: l) = route look aim n here l := by
  obtain ⟨k, hk⟩ := exists_routeToLink look aim n
  rw [hk, routeToLink.eq_def]
  simp [hs]

theorem route_up : route look aim n here (".." :: l) =
    if here = some [] then .error .notFound else route look aim n (here.map List.dropLast) l := by
  obtain ⟨k, hk⟩ := exists_routeToLink look aim n
  rw [hk, routeToLink.eq_def]
  rcases here with _ | ⟨_ | ⟨x, q⟩⟩ <;> simp

def routeFrom (look : Place → Option Node) (aim : Aim) (n : Nat) (q : Place) (target : Path)
    (l : List String) : Except Fault Spot :=
  match n with
  | 0 => .error .tooManyLinks
  | n + 1 => if target.isEmpty then .error .notFound
    else route look aim n (startAt q target) (Path.steps target ++ l)

theorem route_cons (hempty : s ≠ "") (hdot : s ≠ ".") (hup : s ≠ "..") :
    route look aim n here (s :: l) =
      if aim = .file && l = [""] then .error .isADirectory
      else if Folder.nameLimit < s.utf8ByteSize then .error .nameTooLong
      else match here with
        | none => .error .notFound
        | some q => match look (q ++ [s]) with
          | none => if l = [] then .ok (.free q s) else .error .notFound
          | some .directory => route look aim n (some (q ++ [s])) l
          | some (.file b) =>
            if l = [] then .ok (.found (q ++ [s]) (.file b)) else .error .notADirectory
          | some (.link target) =>
            if l = [] && aim = .name then .ok (.found (q ++ [s]) (.link target))
            else routeFrom look aim n q target l := by
  have hidle : ¬(decide (s = "") || decide (s = ".")) = true := by simp [hempty, hdot]
  cases n <;>
  · rw [route, routeToLink.eq_def]
    dsimp only
    rw [if_neg hidle, if_neg hup]
    rfl

theorem exists_enterToLink (look : Place → Option Node) (n : Nat) :
    ∃ k, enter look n = enterToLink look n k := by
  cases n <;> exact ⟨_, rfl⟩

theorem enter_nil : enter look n here [] = .ok (here, n) := by
  obtain ⟨k, hk⟩ := exists_enterToLink look n
  rw [hk, enterToLink.eq_def]

theorem enter_stay (hs : s = "" ∨ s = ".") : enter look n here (s :: l) = enter look n here l := by
  obtain ⟨k, hk⟩ := exists_enterToLink look n
  rw [hk, enterToLink.eq_def]
  simp [hs]

theorem enter_up : enter look n here (".." :: l) =
    if here = some [] then .error .notFound else enter look n (here.map List.dropLast) l := by
  obtain ⟨k, hk⟩ := exists_enterToLink look n
  rw [hk, enterToLink.eq_def]
  rcases here with _ | ⟨_ | ⟨x, q⟩⟩ <;> simp

def enterFrom (look : Place → Option Node) (n : Nat) (q : Place) (target : Path)
    (l : List String) : Except Fault (Option Place × Nat) :=
  match n with
  | 0 => .error .tooManyLinks
  | n + 1 => if target.isEmpty then .error .notFound
    else enter look n (startAt q target) (Path.steps target ++ l)

theorem enter_cons (hempty : s ≠ "") (hdot : s ≠ ".") (hup : s ≠ "..") :
    enter look n here (s :: l) =
      if Folder.nameLimit < s.utf8ByteSize then .error .nameTooLong
      else match here with
        | none => .error .notFound
        | some q => match look (q ++ [s]) with
          | none => .error .notFound
          | some .directory => enter look n (some (q ++ [s])) l
          | some (.file _) => .error .notADirectory
          | some (.link target) => enterFrom look n q target l := by
  have hidle : ¬(decide (s = "") || decide (s = ".")) = true := by simp [hempty, hdot]
  cases n <;>
  · rw [enter, enterToLink.eq_def]
    dsimp only
    rw [if_neg hidle, if_neg hup]
    rfl

end Steps

section Trails

def Trail.Valid (d : Disk) : Trail → Prop
  | [] => True
  | (s, f) :: t => (d.inside t).find? s = some (.directory, f) ∧ Trail.Valid d t

variable {d : Disk}

theorem place_cons (s : String) (f : Folder) (t : Trail) :
    Trail.place ((s, f) :: t) = t.place ++ [s] := by
  simp [Trail.place]

theorem at?_place {t : Trail} (h : t.Valid d) : d.content.at? t.place = some (d.inside t) := by
  induction t with
  | nil => rfl
  | cons x t ih =>
    obtain ⟨s, f⟩ := x
    rw [place_cons, Folder.at?_append, ih h.2, Option.bind_some, Folder.at?, h.1]
    rfl

theorem node?_place {t : Trail} (h : t.Valid d) (s : String) :
    d.node? (t.place ++ [s]) = ((d.inside t).find? s).map (·.1) := by
  rw [node?, Folder.node?_append (at?_place h), Folder.node?]
  cases (d.inside t).find? s with
  | none => rfl
  | some x =>
    obtain ⟨n, i⟩ := x
    cases n <;> rfl

theorem startOf_place (t : Trail) (p : Path) :
    (startOf t p).map Trail.place = startAt t.place p := by
  rw [startOf, startAt]
  split <;> rfl

theorem followToLink_eq {aim : Aim} {k : Trail → Path → List String → Except Fault Spot}
    {k' : Place → Path → List String → Except Fault Spot}
    (hk : ∀ t : Trail, t.Valid d → ∀ p rest, k t p rest = k' t.place p rest)
    (steps : List String) (here : Option Trail) (h : ∀ t ∈ here, Trail.Valid d t) :
    followToLink d aim k here steps =
      routeToLink d.node? aim k' (here.map Trail.place) steps := by
  induction steps generalizing here with
  | nil => cases here <;> rfl
  | cons s rest ih =>
    rw [followToLink.eq_def, routeToLink.eq_def]
    dsimp only
    split
    · exact ih here h
    · split
      · cases here with
        | none => exact ih none h
        | some t =>
          cases t with
          | nil => rfl
          | cons x t =>
            obtain ⟨y, f⟩ := x
            have ht := ih (some t) fun u hu ↦ by cases hu; exact (h _ rfl).2
            simpa [place_cons] using ht
      · split
        · rfl
        · split
          · rfl
          · cases here with
            | none => rfl
            | some t =>
              have ht := h t rfl
              simp only [Option.map_some, node?_place ht]
              cases hf : (d.inside t).find? s with
              | none => rfl
              | some x =>
                obtain ⟨n, f⟩ := x
                cases n with
                | directory =>
                  have hd := ih (some ((s, f) :: t)) fun u hu ↦ by cases hu; exact ⟨hf, ht⟩
                  rwa [Option.map_some, place_cons] at hd
                | file b => rfl
                | link target => simp only [Option.map_some, hk t ht]

theorem follow_eq_route (aim : Aim) (n : Nat) (here : Option Trail) (steps : List String)
    (h : ∀ t ∈ here, Trail.Valid d t) :
    d.follow aim n here steps = route d.node? aim n (here.map Trail.place) steps := by
  induction n generalizing here steps with
  | zero =>
    rw [follow, route]
    refine followToLink_eq (fun t _ p rest ↦ ?_) steps here h
    rfl
  | succ n ih =>
    rw [follow, route]
    refine followToLink_eq (fun t ht p rest ↦ ?_) steps here h
    split
    · rfl
    · rw [ih, startOf_place]
      intro u hu
      rw [startOf] at hu
      split at hu
      · cases hu
      · cases hu; exact ht

end Trails

section Splitting

variable {look : Place → Option Node} {aim : Aim} {s : String}

theorem route_concat (hs : Path.IsStep s) (n : Nat) (here : Option Place) (l : List String) :
    route look aim n here (l ++ [s]) =
      enter look n here l >>= fun r ↦ route look aim r.2 r.1 [s] := by
  have hrest (l : List String) : l ++ [s] ≠ [] := by simp
  have hslash (l : List String) : l ++ [s] ≠ [""] := by
    intro h
    have hlast := congrArg List.getLast? h
    rw [List.getLast?_concat] at hlast
    exact hs.ne_empty (by simpa using hlast)
  induction n, here, l using steps_induction look with
  | nil n here =>
    rw [enter_nil]
    rfl
  | stay n here x l hx ih => rw [List.cons_append, route_stay hx, enter_stay hx, ih]
  | up n here l ih =>
    rw [List.cons_append, route_up, enter_up]
    split
    · rfl
    · next hne => exact ih hne
  | name n here x l hempty hdot hup hdown hlink =>
    rw [List.cons_append, route_cons hempty hdot hup, enter_cons hempty hdot hup]
    simp only [hrest, hslash, decide_false, Bool.and_false, Bool.false_and, Bool.false_eq_true,
      if_false]
    split
    · rfl
    cases here with
    | none => rfl
    | some q =>
      dsimp only
      split
      · rfl
      · next hdir => exact hdown q rfl hdir
      · rfl
      · next target hn =>
        cases n with
        | zero => rfl
        | succ n =>
          rw [routeFrom, enterFrom]
          split
          · rfl
          · rw [← List.append_assoc, hlink q target n rfl hn rfl]

theorem route_name (hs : Path.IsStep s) (hsize : s.utf8ByteSize ≤ Folder.nameLimit) (n : Nat)
    (q : Place)
    (h : aim = .name ∨ ∀ target, look (q ++ [s]) ≠ some (.link target)) :
    route look aim n (some q) [s] = .ok (match look (q ++ [s]) with
      | none => .free q s
      | some m => .found (q ++ [s]) m) := by
  rw [route_cons hs.ne_empty hs.ne_dot hs.ne_up]
  simp only [List.ne_cons_self, decide_false, Bool.and_false, Bool.false_eq_true, if_false,
    Nat.not_lt.2 hsize, if_true, decide_true, Bool.true_and, decide_eq_true_eq]
  split
  · next hn => rw [hn]
  · next hn =>
    rw [hn, route_nil]
    rfl
  · next hn => rw [hn]
  · next target hn => rw [hn, if_pos (h.resolve_right fun hno ↦ hno target hn)]

theorem exists_of_route_name (hs : Path.IsStep s) {n : Nat} {here : Option Place} {spot : Spot}
    (h : route look aim n here [s] = .ok spot) :
    ∃ q, here = some q ∧ s.utf8ByteSize ≤ Folder.nameLimit := by
  rw [route_cons hs.ne_empty hs.ne_dot hs.ne_up] at h
  split at h
  · cases h
  split at h
  · cases h
  next hlim =>
  cases here with
  | none => cases h
  | some q => exact ⟨q, rfl, Nat.not_lt.1 hlim⟩

end Splitting

section Directories

variable {d : Disk}

theorem directory_dropLast {q : Place} (h : d.node? q = some .directory) :
    d.node? q.dropLast = some .directory := by
  rcases List.eq_nil_or_concat q with rfl | ⟨p, s, rfl⟩
  · exact h
  · rw [List.concat_eq_append] at h
    rw [List.concat_eq_append, List.dropLast_concat]
    exact (parent_of_node? h).1

def Spot.Sound (d : Disk) : Spot → Prop
  | .found p n => d.node? p = some n
  | .free q s => d.node? q = some .directory ∧ d.node? (q ++ [s]) = none
  | .root => True

theorem startAt_directory {q : Place} (h : d.node? q = some .directory) (p : Path) :
    ∀ r ∈ startAt q p, d.node? r = some .directory := by
  intro r hr
  rw [startAt] at hr
  split at hr
  · cases hr
  · cases hr; exact h

theorem route_sound {aim : Aim} (n : Nat) (here : Option Place) (steps : List String)
    (h : ∀ q ∈ here, d.node? q = some .directory) {spot : Spot}
    (hspot : route d.node? aim n here steps = .ok spot) : spot.Sound d := by
  induction n, here, steps using steps_induction d.node? with
  | nil n here =>
    rw [route_nil] at hspot
    cases hspot
    cases here with
    | none => trivial
    | some q => exact h q rfl
  | stay n here s l hs ih =>
    rw [route_stay hs] at hspot
    exact ih h hspot
  | up n here l ih =>
    rw [route_up] at hspot
    split at hspot
    · cases hspot
    next hne =>
    refine ih hne (fun q hq ↦ ?_) hspot
    obtain ⟨r, hr, rfl⟩ := Option.map_eq_some_iff.1 hq
    exact directory_dropLast (h r hr)
  | name n here s l hempty hdot hup hdown hlink =>
    rw [route_cons hempty hdot hup] at hspot
    split at hspot
    · cases hspot
    split at hspot
    · cases hspot
    cases here with
    | none => cases hspot
    | some q =>
      dsimp only at hspot
      split at hspot
      · next hnone =>
        split at hspot
        · cases hspot
          exact ⟨h q rfl, hnone⟩
        · cases hspot
      · next hdir =>
        refine hdown q rfl hdir (fun p hp ↦ ?_) hspot
        cases hp
        exact hdir
      · next b hfile =>
        split at hspot
        · cases hspot
          exact hfile
        · cases hspot
      · next target hn =>
        split at hspot
        · cases hspot
          exact hn
        cases n with
        | zero => cases hspot
        | succ n =>
          rw [routeFrom] at hspot
          split at hspot
          · cases hspot
          · exact hlink q target n rfl hn rfl (startAt_directory (h q rfl) target) hspot

end Directories

section Locating

variable {d : Disk}

theorem startOf_valid (p : Path) : ∀ t ∈ startOf [] p, Trail.Valid d t := by
  intro t ht
  rw [startOf] at ht
  split at ht
  · cases ht
  · cases ht; trivial

theorem locate_eq (d : Disk) (aim : Aim) (p : Path) : d.locate aim p =
    checkPath p >>= fun _ ↦ route d.node? aim linkLimit (startAt [] p) (Path.steps p) := by
  rw [locate, follow_eq_route _ _ _ _ (startOf_valid p), startOf_place]
  rfl

theorem locateName_eq (d : Disk) (p : Path) : d.locateName p =
    checkPath p >>= fun _ ↦ route d.node? .name linkLimit (startAt [] p) (Path.stepsToName p) := by
  rw [locateName, follow_eq_route _ _ _ _ (startOf_valid p), startOf_place]
  rfl

theorem sound_of_route {aim : Aim} {p : Path} {steps : List String} {spot : Spot}
    (h : (checkPath p >>= fun _ ↦ route d.node? aim linkLimit (startAt [] p) steps) = .ok spot) :
    spot.Sound d := by
  cases hc : checkPath p with
  | error e => rw [hc] at h; cases h
  | ok u =>
    rw [hc] at h
    have hroot : d.node? [] = some .directory := rfl
    exact route_sound _ _ _ (startAt_directory hroot p) h

theorem locate_sound {aim : Aim} {p : Path} {spot : Spot} (h : d.locate aim p = .ok spot) :
    spot.Sound d := sound_of_route (locate_eq d aim p ▸ h)

theorem locateName_sound {p : Path} {spot : Spot} (h : d.locateName p = .ok spot) :
    spot.Sound d := sound_of_route (locateName_eq d p ▸ h)

end Locating

section Ways

variable {look look' : Place → Option Node}

/-- The way that steps lead from a directory into another one, none for the root, with so many links
left at the start and at the end. -/
inductive Way (look : Place → Option Node) :
    Nat → Option Place → List String → Option Place → Nat → Prop
  | arrive (n : Nat) (here : Option Place) : Way look n here [] here n
  | stay {n m : Nat} {here r : Option Place} {s : String} {rest : List String} :
      s = "" ∨ s = "." → Way look n here rest r m → Way look n here (s :: rest) r m
  | back {n m : Nat} {here r : Option Place} {rest : List String} :
      here ≠ some [] → Way look n (here.map List.dropLast) rest r m →
      Way look n here (".." :: rest) r m
  | down {n m : Nat} {q : Place} {r : Option Place} {s : String} {rest : List String} :
      s ≠ "" → s ≠ "." → s ≠ ".." → s.utf8ByteSize ≤ Folder.nameLimit →
      look (q ++ [s]) = some .directory → Way look n (some (q ++ [s])) rest r m →
      Way look n (some q) (s :: rest) r m
  | link {n m : Nat} {q : Place} {r : Option Place} {s : String} {rest : List String}
      {target : Path} :
      s ≠ "" → s ≠ "." → s ≠ ".." → s.utf8ByteSize ≤ Folder.nameLimit →
      look (q ++ [s]) = some (.link target) → target.isEmpty = false →
      Way look n (startAt q target) (Path.steps target ++ rest) r m →
      Way look (n + 1) (some q) (s :: rest) r m

theorem way_of_enter {n : Nat} {here : Option Place} {steps : List String}
    {r : Option Place × Nat} (hr : enter look n here steps = .ok r) :
    Way look n here steps r.1 r.2 := by
  induction n, here, steps using steps_induction look with
  | nil n here =>
    rw [enter_nil] at hr
    cases hr
    exact .arrive n here
  | stay n here s l hs ih =>
    rw [enter_stay hs] at hr
    exact .stay hs (ih hr)
  | up n here l ih =>
    rw [enter_up] at hr
    split at hr
    · cases hr
    · next hne => exact .back hne (ih hne hr)
  | name n here s l hempty hdot hup hdown hlink =>
    rw [enter_cons hempty hdot hup] at hr
    split at hr
    · cases hr
    next hlim =>
    have hsize := Nat.not_lt.1 hlim
    cases here with
    | none => cases hr
    | some q =>
      dsimp only at hr
      split at hr
      · cases hr
      · next hdir => exact .down hempty hdot hup hsize hdir (hdown q rfl hdir hr)
      · cases hr
      · next target hn =>
        cases n with
        | zero => cases hr
        | succ n =>
          rw [enterFrom] at hr
          split at hr
          · cases hr
          next htarget =>
          exact .link hempty hdot hup hsize hn (by simpa using htarget)
            (hlink q target n rfl hn rfl hr)

theorem enter_of_way {n m : Nat} {here r : Option Place} {steps : List String}
    (h : Way look n here steps r m) : enter look n here steps = .ok (r, m) := by
  induction h with
  | arrive n here => exact enter_nil
  | stay hs _ ih => exact (enter_stay hs).trans ih
  | back hne _ ih => rwa [enter_up, if_neg hne]
  | down hempty hdot hup hsize hdir _ ih =>
    rw [enter_cons hempty hdot hup, if_neg (Nat.not_lt.2 hsize)]
    dsimp only
    rwa [hdir]
  | link hempty hdot hup hsize hlink htarget _ ih =>
    rw [enter_cons hempty hdot hup, if_neg (Nat.not_lt.2 hsize)]
    dsimp only
    rw [hlink]
    dsimp only
    rwa [enterFrom, if_neg (by simp [htarget])]

theorem Way.mono (hlook : ∀ p n, (∀ b, n ≠ .file b) → look p = some n → look' p = some n)
    {n m : Nat} {here r : Option Place} {steps : List String} (h : Way look n here steps r m) :
    Way look' n here steps r m := by
  induction h with
  | arrive n here => exact .arrive n here
  | stay hs _ ih => exact .stay hs ih
  | back hne _ ih => exact .back hne ih
  | down hempty hdot hup hsize hdir _ ih =>
    exact .down hempty hdot hup hsize (hlook _ _ (by simp) hdir) ih
  | link hempty hdot hup hsize hlink htarget _ ih =>
    exact .link hempty hdot hup hsize (hlook _ _ (by simp) hlink) htarget ih

theorem Way.directory {d : Disk} {n m : Nat} {here r : Option Place} {steps : List String}
    (h : Way d.node? n here steps r m) (hhere : ∀ q ∈ here, d.node? q = some .directory) :
    ∀ q ∈ r, d.node? q = some .directory := by
  induction h with
  | arrive n here => exact hhere
  | stay hs _ ih => exact ih hhere
  | back hne _ ih =>
    refine ih fun q hq ↦ ?_
    obtain ⟨p, hp, rfl⟩ := Option.map_eq_some_iff.1 hq
    exact directory_dropLast (hhere p hp)
  | down _ _ _ _ hdir _ ih => exact ih fun q hq ↦ by cases hq; exact hdir
  | link _ _ _ _ _ _ _ ih => exact ih (startAt_directory (hhere _ rfl) _)

theorem way_of_route {n : Nat} {here r : Option Place} {steps : List String}
    (hr : route look .content n here steps = .ok (r.elim .root (.found · .directory))) :
    ∃ m, Way look n here steps r m := by
  induction n, here, steps using steps_induction look with
  | nil n here =>
    rw [route_nil] at hr
    obtain rfl : here = r := by cases here <;> cases r <;> cases hr <;> rfl
    exact ⟨n, .arrive n here⟩
  | stay n here s l hs ih =>
    rw [route_stay hs] at hr
    obtain ⟨m, hm⟩ := ih hr
    exact ⟨m, .stay hs hm⟩
  | up n here l ih =>
    rw [route_up] at hr
    split at hr
    · cases hr
    next hne =>
    obtain ⟨m, hm⟩ := ih hne hr
    exact ⟨m, .back hne hm⟩
  | name n here s l hempty hdot hup hdown hlink =>
    have hfree (q : Place) : Spot.free q s ≠ r.elim .root (.found · .directory) := by
      cases r <;> simp
    have hfile (q : Place) (b : Bytes) :
        Spot.found q (.file b) ≠ r.elim .root (.found · .directory) := by
      cases r <;> simp
    rw [route_cons hempty hdot hup, if_neg (by simp)] at hr
    split at hr
    · cases hr
    next hlim =>
    have hsize := Nat.not_lt.1 hlim
    cases here with
    | none => cases hr
    | some q =>
      dsimp only at hr
      split at hr
      · split at hr
        · exact absurd (Except.ok.inj hr) (hfree q)
        · cases hr
      · next hdir =>
        obtain ⟨m, hm⟩ := hdown q rfl hdir hr
        exact ⟨m, .down hempty hdot hup hsize hdir hm⟩
      · split at hr
        · exact absurd (Except.ok.inj hr) (hfile _ _)
        · cases hr
      · next target hn =>
        rw [if_neg (by simp)] at hr
        cases n with
        | zero => cases hr
        | succ n =>
          rw [routeFrom] at hr
          split at hr
          · cases hr
          next htarget =>
          obtain ⟨m, hm⟩ := hlink q target n rfl hn rfl hr
          exact ⟨m, .link hempty hdot hup hsize hn (by simpa using htarget) hm⟩

theorem Way.of_slash {n m : Nat} {here r : Option Place} {l : List String}
    (h : Way look n here (l ++ [""]) r m) : Way look n here l r m := by
  generalize hsteps : l ++ [""] = steps at h
  induction h generalizing l with
  | arrive n here => simp at hsteps
  | stay hs hrest ih =>
    cases l with
    | nil =>
      cases hsteps
      exact hrest
    | cons x l =>
      cases hsteps
      exact .stay hs (ih rfl)
  | back hne _ ih =>
    cases l with
    | nil => simp at hsteps
    | cons x l =>
      cases hsteps
      exact .back hne (ih rfl)
  | down hempty hdot hup hsize hdir _ ih =>
    cases l with
    | nil =>
      cases hsteps
      exact absurd rfl hempty
    | cons x l =>
      cases hsteps
      exact .down hempty hdot hup hsize hdir (ih rfl)
  | link hempty hdot hup hsize hlink htarget _ ih =>
    cases l with
    | nil =>
      cases hsteps
      exact absurd rfl hempty
    | cons x l =>
      cases hsteps
      exact .link hempty hdot hup hsize hlink htarget (ih (List.append_assoc _ _ _))

theorem way_of_locate {d : Disk} {dir : Path} {r : Option Place}
    (h : d.locate .content dir = .ok (r.elim .root (.found · .directory))) :
    ∃ m, Way d.node? linkLimit (startAt [] dir) (Path.stepsToName dir) r m := by
  rw [locate_eq] at h
  cases hc : checkPath dir with
  | error e =>
    rw [hc] at h
    cases h
  | ok u =>
    rw [hc] at h
    obtain ⟨m, hm⟩ := way_of_route h
    rw [Path.steps] at hm
    split at hm
    · exact ⟨m, hm.of_slash⟩
    · exact ⟨m, by rwa [List.append_nil] at hm⟩

end Ways

end UpToDate.Disk
